import DaimDistributed.FlowMod
import DaimDistributed.LearningApp

/-!
Rules from their text to the switch: printed, parsed, encoded and decoded.

A rule of the documented grammar has each field at most once. Its text is that of its fields
with commas between them, and `install_flow` prints texts of this kind.
-/

namespace DaimDistributed.FlowRules

open HostState CText FlowString OfMessage FlowMod OfSwitch
open LearningApp (hexByte formatMac flowString)

inductive RuleAction
  | output (port : UInt16)
  | normal
  deriving DecidableEq

/-- A rule; what is left out is `none`. -/
structure Rule where
  priority : Option UInt16
  inPort : Option UInt16
  dlDst : Option Mac
  ip : Bool
  action : Option RuleAction
  deriving DecidableEq

def RuleAction.field : RuleAction → Field
  | .output port => .output port.toUInt32
  | .normal => .normal

def Rule.fields (r : Rule) : List Field :=
  r.priority.toList.map .priority ++
  r.inPort.toList.map (fun port => .inPort port.toUInt32) ++
  r.dlDst.toList.map .dlDst ++
  (if r.ip then [.ip] else []) ++
  r.action.toList.map RuleAction.field

/-- As `printf` writes a field, with `%u` and six times `%02x`. -/
def fieldText : Field → List Char
  | .priority p => priorityKey ++ Nat.toDigits 10 p.toNat
  | .inPort port => inPortKey ++ Nat.toDigits 10 port.toNat
  | .dlDst mac => dlDstKey ++ (formatMac mac).toList
  | .ip => ipToken
  | .output port => outputKey ++ Nat.toDigits 10 port.toNat
  | .normal => normalToken

/-- The canonical string. -/
def Rule.text (r : Rule) : List Char := [','].intercalate (r.fields.map fieldText)

/-- The record the parser is to give. -/
def Rule.flow (r : Rule) : ParsedFlow where
  hasPriority := r.priority.isSome
  priority := r.priority.getD 0
  hasInPort := r.inPort.isSome
  inPort := (r.inPort.getD 0).toUInt32
  hasDlDst := r.dlDst.isSome
  dlDst := r.dlDst.getD (Vector.replicate 6 0)
  hasIp := r.ip
  hasOutput := r.action.isSome
  outputPort := match r.action with
    | none => 0
    | some (.output port) => port.toUInt32
    | some .normal => ofppNormal

/-- The action as the switch is to read it; `normal` is a port that is no 16-bit number. -/
def RuleAction.onWire : RuleAction → OutputAction
  | .output port => ⟨port.toNat, 0xffff⟩
  | .normal => ⟨0xfffffffa, 0xffff⟩

/-- The Flow-Mod the switch is to read. -/
def Rule.flowMod (r : Rule) (xid : UInt32) (command : UInt8) : OfSwitch.FlowMod where
  xid := xid.toNat
  cookie := 0
  cookieMask := 0
  tableId := 0
  command := command.toNat
  idleTimeout := 0
  hardTimeout := 0
  priority := (r.priority.getD 0).toNat
  bufferId := 0xffffffff
  outPort := 0xffffffff
  outGroup := 0xffffffff
  flags := 0
  fields := r.inPort.toList.map (fun port => .inPort port.toUInt32) ++
    r.dlDst.toList.map .ethDst ++ if r.ip then [.ethType 0x0800] else []
  actions := if command = ofpfcAdd then r.action.toList.map RuleAction.onWire else []

/-! ### The text of a field -/

variable {fld : Field} {r : Rule}

/-- A rule has ports of 16 bits only. -/
def Small : Field → Prop
  | .inPort port => port.toNat < 2 ^ 16
  | .output port => port.toNat < 2 ^ 16
  | _ => True

lemma fields_small (h : fld ∈ r.fields) : Small fld := by
  simp only [Rule.fields, List.mem_append, List.mem_map, Option.mem_toList] at h
  rcases h with (((⟨p, -, rfl⟩ | ⟨port, -, rfl⟩) | ⟨mac, -, rfl⟩) | h) | ⟨act, -, rfl⟩
  · trivial
  · exact port.toNat_lt
  · trivial
  · split_ifs at h
    · rw [List.mem_singleton.mp h]
      trivial
    · cases h
  · cases act with
    | output port => exact port.toNat_lt
    | normal => trivial

lemma hexOctet_hexByte (b : UInt8) : HexOctet b (hexByte b) := by
  have hall : ∀ a : Fin 16, a.1.digitChar.isHexDigit = true ∧ hexValue a.1.digitChar = a.1 := by
    decide
  have hb := b.toNat_lt
  have h1 := hall ⟨b.toNat / 16, by omega⟩
  have h2 := hall ⟨b.toNat % 16, by omega⟩
  refine ⟨_, _, rfl, h1.1, h2.1, ?_⟩
  rw [h1.2, h2.2]
  dsimp only
  omega

lemma macText_formatMac (mac : Mac) : MacText mac (formatMac mac).toList := by
  refine ⟨mac.toList.map hexByte, by rw [formatMac, String.toList_ofList], ?_⟩
  rw [List.forall₂_map_right_iff]
  exact List.forall₂_same.mpr fun b _ => hexOctet_hexByte b

/-- **The text of a field is one of those that are documented for it.** -/
theorem writes_fieldText (h : Small fld) : Writes fld (fieldText fld) := by
  cases fld with
  | priority p => exact .priority (decimal_toDigits _)
  | inPort port => exact .inPort (decimal_toDigits _) (Nat.lt_trans h (by decide))
  | dlDst mac => exact .dlDst (macText_formatMac mac)
  | ip => exact .ip
  | output port => exact .output (decimal_toDigits _) (Nat.lt_trans h (by decide))
  | normal => exact .normal

/-! ### The text of a rule -/

lemma mem_intercalate {x c : Char} {ls : List (List Char)} (h : c ∈ [x].intercalate ls) :
    c = x ∨ ∃ l ∈ ls, c ∈ l := by
  induction ls with
  | nil => simp at h
  | cons l ls ih =>
    cases ls with
    | nil => exact .inr ⟨l, by simp, by simpa using h⟩
    | cons l' ls =>
      rw [List.intercalate_cons_cons, List.mem_append, List.mem_append, List.mem_singleton] at h
      rcases h with (h | rfl) | h
      · exact .inr ⟨l, by simp, h⟩
      · exact .inl rfl
      · rcases ih h with rfl | ⟨m, hm, hc⟩
        · exact .inl rfl
        · exact .inr ⟨m, List.mem_cons_of_mem _ hm, hc⟩

lemma length_intercalate_le {x : Char} {n : ℕ} {ls : List (List Char)}
    (h : ∀ l ∈ ls, l.length ≤ n) : ([x].intercalate ls).length ≤ (n + 1) * ls.length := by
  induction ls with
  | nil => simp
  | cons l ls ih =>
    have hl := h l (by simp)
    have hls := ih fun l' hl' => h l' (List.mem_cons_of_mem _ hl')
    cases ls with
    | nil =>
      rw [List.intercalate_singleton, List.length_singleton]
      omega
    | cons l' ls =>
      rw [List.intercalate_cons_cons, List.length_append, List.length_append,
        List.length_singleton, List.length_cons, Nat.mul_succ]
      omega

lemma comma_not_mem_digits (n : ℕ) : ',' ∉ Nat.toDigits 10 n := fun h => by
  have hd := Nat.isDigit_of_mem_toDigits (by decide) (by decide) h
  cases hd

lemma comma_not_mem_mac (mac : Mac) : ',' ∉ (formatMac mac).toList := by
  have hall : ∀ a : Fin 16, ',' ≠ a.1.digitChar := by decide
  rw [formatMac, String.toList_ofList]
  intro h
  rcases mem_intercalate h with h | ⟨l, hl, hc⟩
  · cases h
  · obtain ⟨b, -, rfl⟩ := List.mem_map.mp hl
    have hb := b.toNat_lt
    simp only [hexByte, List.mem_cons, List.not_mem_nil, or_false] at hc
    rcases hc with hc | hc
    · exact hall ⟨b.toNat / 16, by omega⟩ hc
    · exact hall ⟨b.toNat % 16, by omega⟩ hc

lemma comma_not_mem_fieldText (fld : Field) : ',' ∉ fieldText fld := by
  cases fld with
  | priority p => exact fun h => (List.mem_append.mp h).elim (by decide) (comma_not_mem_digits _)
  | inPort port => exact fun h => (List.mem_append.mp h).elim (by decide) (comma_not_mem_digits _)
  | dlDst mac => exact fun h => (List.mem_append.mp h).elim (by decide) (comma_not_mem_mac mac)
  | ip => decide
  | output port => exact fun h => (List.mem_append.mp h).elim (by decide) (comma_not_mem_digits _)
  | normal => decide

lemma length_fieldText_le (h : Small fld) : (fieldText fld).length ≤ 25 := by
  have hdig : ∀ n, n < 2 ^ 16 → (Nat.toDigits 10 n).length ≤ 5 := fun n hn =>
    (Nat.length_toDigits_le_iff (by decide) (by decide)).mpr (by omega)
  cases fld with
  | priority p =>
    have h5 := hdig _ p.toNat_lt
    have hk : priorityKey.length = 9 := by decide
    rw [fieldText, List.length_append]
    omega
  | inPort port =>
    have h5 := hdig _ h
    have hk : inPortKey.length = 8 := by decide
    rw [fieldText, List.length_append]
    omega
  | dlDst mac =>
    have hm : (formatMac mac).toList.length ≤ 18 := by
      rw [formatMac, String.toList_ofList]
      have hocts : ∀ l ∈ mac.toList.map hexByte, l.length ≤ 2 := fun l hl => by
        obtain ⟨b, -, rfl⟩ := List.mem_map.mp hl
        exact Nat.le_refl 2
      simpa using length_intercalate_le (x := ':') hocts
    have hk : dlDstKey.length = 7 := by decide
    rw [fieldText, List.length_append]
    omega
  | ip => decide
  | output port =>
    have h5 := hdig _ h
    have hk : outputKey.length = 15 := by decide
    rw [fieldText, List.length_append]
    omega
  | normal => decide

lemma length_fields_le (r : Rule) : r.fields.length ≤ 5 := by
  have htoList : ∀ {α : Type} (o : Option α), o.toList.length ≤ 1 := fun o => by
    cases o <;> simp
  have h1 := htoList r.priority
  have h2 := htoList r.inPort
  have h3 := htoList r.dlDst
  have h4 := htoList r.action
  have h5 : (if r.ip then [Field.ip] else []).length ≤ 1 := by
    split_ifs <;> simp
  simp only [Rule.fields, List.length_append, List.length_map]
  omega

lemma length_text_lt (r : Rule) : r.text.length < 256 := by
  have hle : r.text.length ≤ (25 + 1) * (r.fields.map fieldText).length :=
    length_intercalate_le fun l hl => by
      obtain ⟨fld, hf, rfl⟩ := List.mem_map.mp hl
      exact length_fieldText_le (fields_small hf)
  have h5 := length_fields_le r
  rw [List.length_map] at hle
  omega

lemma readsAs_map {flds : List Field} (h : ∀ fld ∈ flds, Small fld) :
    ReadsAs (flds.map fieldText) flds := by
  induction flds with
  | nil => exact .nil
  | cons fld flds ih =>
    exact .field (writes_fieldText (h fld (by simp))) (ih fun g hg => h g (by simp [hg]))

lemma unrecognised_nil : Unrecognised [] := by
  constructor <;> decide

/-- **A rule is written as its fields.** -/
theorem readsAs_text (r : Rule) : ReadsAs (r.text.splitOn ',') r.fields := by
  by_cases hne : r.fields = []
  · have htext : r.text = [] := by simp [Rule.text, hne]
    rw [htext, hne]
    exact .ignored unrecognised_nil .nil
  · have hcomma : ∀ l ∈ r.fields.map fieldText, ',' ∉ l := fun l hl => by
      obtain ⟨fld, -, rfl⟩ := List.mem_map.mp hl
      exact comma_not_mem_fieldText fld
    rw [Rule.text, List.splitOn_intercalate ',' hcomma (by simpa using hne)]
    exact readsAs_map fun fld hf => fields_small hf

/-- The fields of a rule set its record. -/
lemma parsed_fields (r : Rule) : parsed r.fields = r.flow := by
  obtain ⟨priority, inPort, dlDst, ip, action⟩ := r
  rcases priority with _ | p <;> rcases inPort with _ | q <;> rcases dlDst with _ | m <;>
    cases ip <;> rcases action with _ | (port | _) <;> rfl

/-- **Parsing the canonical string gives the rule.** -/
theorem parse_text (r : Rule) : parseFlowString r.text = some r.flow := by
  have hlen : r.text.length < flowBufSize := Nat.lt_trans (length_text_lt r) (by decide)
  rw [parse_readsAs (readsAs_text r) hlen, parsed_fields]

lemma toList_append_six (a b c d e f : String) : (a ++ b ++ c ++ d ++ e ++ f).toList =
    a.toList ++ b.toList ++ c.toList ++ d.toList ++ e.toList ++ f.toList := by
  simp only [String.toList_append]

/-- What `install_flow` prints is the canonical string of a rule. -/
lemma flowString_toList (inPort : UInt16) (macDst : Mac) (outPort : UInt16) :
    (flowString inPort macDst outPort).toList =
      Rule.text ⟨some 100, some inPort, some macDst, false, some (.output outPort)⟩ := by
  have h1 : "priority=100,in_port=".toList =
      priorityKey ++ Nat.toDigits 10 100 ++ [','] ++ inPortKey := by decide
  have h2 : ",dl_dst=".toList = [','] ++ dlDstKey := by decide
  have h3 : ",actions=output:".toList = [','] ++ outputKey := by decide
  have h4 : ∀ n : ℕ, (toString n).toList = Nat.toDigits 10 n := fun n => Nat.toList_repr
  refine (toList_append_six _ _ _ _ _ _).trans ?_
  rw [h1, h2, h3, h4, h4]
  simp only [Rule.text, Rule.fields, Option.toList_some, List.map_cons, List.map_nil,
    Bool.false_eq_true, if_false, List.append_nil, List.cons_append, List.nil_append,
    RuleAction.field, fieldText, List.intercalate_cons_cons, List.intercalate_singleton,
    List.append_assoc]
  rfl

/-! ### On the wire -/

lemma readBack_flow (r : Rule) (xid : UInt32) (command : UInt8) :
    readBack xid command r.flow = r.flowMod xid command := by
  obtain ⟨priority, inPort, dlDst, ip, action⟩ := r
  have hprio : (if priority.isSome then (priority.getD 0).toNat else 0) =
      (priority.getD 0).toNat := by
    cases priority <;> rfl
  have hfields : matchFields (Rule.flow ⟨priority, inPort, dlDst, ip, action⟩) =
      inPort.toList.map (fun port => .inPort port.toUInt32) ++
        dlDst.toList.map .ethDst ++ if ip then [.ethType 0x0800] else [] := by
    rcases inPort with _ | q <;> rcases dlDst with _ | m <;> cases ip <;> rfl
  have hacts : outputActions (Rule.flow ⟨priority, inPort, dlDst, ip, action⟩) =
      action.toList.map RuleAction.onWire := by
    rcases action with _ | (port | _)
    · rfl
    · simp [outputActions, Rule.flow, RuleAction.onWire, ofpcmlNoBuffer]
    · rfl
  rw [readBack, hfields, hacts]
  refine (congrArg (fun n => OfSwitch.FlowMod.mk _ _ _ _ _ _ _ n _ _ _ _ _ _) hprio).trans ?_
  rfl

/-- The same fields are there. -/
structure SameShape (r r' : Rule) : Prop where
  inPort : r.inPort.isSome = r'.inPort.isSome
  dlDst : r.dlDst.isSome = r'.dlDst.isSome
  ip : r.ip = r'.ip
  action : r.action.isSome = r'.action.isSome

lemma length_sameShape {r r' : Rule} (h : SameShape r r') (xid xid' : UInt32) (command : UInt8) :
    (buildFlowMod xid command r.flow).length = (buildFlowMod xid' command r'.flow).length := by
  simp only [length_buildFlowMod, oxmsLength, Rule.flow, h.inPort, h.dlDst, h.ip, h.action]

lemma length_flowMod_fields (r : Rule) (xid : UInt32) (command : UInt8) :
    ((r.flowMod xid command).fields.flatMap oxm).length = oxmsLength r.flow := by
  rw [← readBack_flow, readBack, ← matchOxms_eq, length_matchOxms]

lemma eight_dvd (f : ParsedFlow) (xid : UInt32) (command : UInt8) :
    8 ∣ (buildMatch f).length ∧ 8 ∣ (buildFlowMod xid command f).length := by
  rw [length_buildMatch, length_buildFlowMod, pad8]
  split_ifs <;> omega

lemma wireSize_text (r : Rule) (isDelete : Bool) : daimOvsWireFlowModSize r.text isDelete =
    (buildFlowMod 0 (if isDelete then ofpfcDelete else ofpfcAdd) r.flow).length := by
  rw [daimOvsWireFlowModSize, parse_text]

/-- **From an installed rule to the wire.** The canonical string of a rule is parsed as the
rule, and what is built from it is read by the switch as its command, its priority, its match
and, to be added, its action. The lengths in the message are right, match and message fill
multiples of 8 bytes, no buffer is exceeded, and the size depends on which fields there are
only. What `install_flow` prints is the canonical string of a rule. -/
theorem rule_reaches_switch :
    (∀ (r : Rule) (xid : UInt32) (command : UInt8),
      parseFlowString r.text = some r.flow ∧
      readFlowMod (buildFlowMod xid command r.flow) = some (r.flowMod xid command) ∧
      headerLength (buildFlowMod xid command r.flow) = (buildFlowMod xid command r.flow).length ∧
      BigEndian.value (((buildFlowMod xid command r.flow).drop 50).take 2) =
        4 + ((r.flowMod xid command).fields.flatMap oxm).length ∧
      8 ∣ (buildMatch r.flow).length ∧ 8 ∣ (buildFlowMod xid command r.flow).length ∧
      (buildMatch r.flow).length ≤ 128 ∧ (buildActions r.flow).length ≤ 64 ∧
      (buildFlowMod xid command r.flow).length ≤ 256 ∧
      (∀ r' xid', SameShape r r' →
        (buildFlowMod xid command r.flow).length = (buildFlowMod xid' command r'.flow).length) ∧
      ∀ isDelete, daimOvsWireFlowModSize r.text isDelete =
        (buildFlowMod 0 (if isDelete then ofpfcDelete else ofpfcAdd) r.flow).length) ∧
    ∀ (inPort : UInt16) (macDst : Mac) (outPort : UInt16),
      (flowString inPort macDst outPort).toList =
        Rule.text ⟨some 100, some inPort, some macDst, false, some (.output outPort)⟩ ∧
      (flowString inPort macDst outPort).toList.length < 256 := by
  refine ⟨fun r xid command => ?_, fun inPort macDst outPort => ?_⟩
  · obtain ⟨hlen, hmatch⟩ := length_fields r.flow xid command
    obtain ⟨h8, h8'⟩ := eight_dvd r.flow xid command
    obtain ⟨h1, h2, h3⟩ := lengths_le r.flow xid command
    refine ⟨parse_text r, ?_, hlen, ?_, h8, h8', by omega, by omega, by omega,
      fun r' xid' h => length_sameShape h xid xid' command, wireSize_text r⟩
    · rw [readFlowMod_buildFlowMod, readBack_flow]
    · rw [hmatch, length_flowMod_fields]
  · have h := flowString_toList inPort macDst outPort
    exact ⟨h, by rw [h]; exact length_text_lt _⟩

end DaimDistributed.FlowRules
