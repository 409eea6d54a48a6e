import DaimDistributed.CText
import DaimDistributed.Protocol

/-!
The flow strings of `ovs_persistent_adapter.c`: how they are parsed, and what the documented
fields denote.

The parser walks over the tokens and sets fields of a record; what a token does is looked up
by its key. The grammar is stated on its own, as the texts a field may be written as.
-/

namespace DaimDistributed.FlowString

open HostState Protocol CText

def ofppNormal : UInt32 := 0xfffffffa

/-- `struct parsed_flow`. -/
structure ParsedFlow where
  hasPriority : Bool := false
  priority : UInt16 := 0
  hasInPort : Bool := false
  inPort : UInt32 := 0
  hasDlDst : Bool := false
  dlDst : Mac := Vector.replicate 6 0
  hasIp : Bool := false
  hasOutput : Bool := false
  outputPort : UInt32 := 0
  deriving DecidableEq

/-- `sscanf` with so many times `:%2x`. -/
def scanOctets : ℕ → List Char → Option (List UInt8)
  | 0, _ => some []
  | n + 1, ':' :: s =>
    match scanHex 2 s with
    | some (b, s) => (scanOctets n s).map (b.toUInt8 :: ·)
    | none => none
  | _ + 1, _ => none

/-- The format has no colon in front of the first octet. -/
def parseMac (s : List Char) : Option Mac :=
  (scanOctets 6 (':' :: s)).map fun octets => (getMac octets).1

def priorityKey : List Char := "priority=".toList

def inPortKey : List Char := "in_port=".toList

def dlDstKey : List Char := "dl_dst=".toList

def outputKey : List Char := "actions=output:".toList

def ipToken : List Char := "ip".toList

def normalToken : List Char := "actions=normal".toList

/-- One round of the loop of `parse_flow_string`. -/
def parseToken (out : ParsedFlow) (tok : List Char) : Option ParsedFlow :=
  if priorityKey.isPrefixOf tok then
    some { out with hasPriority := true, priority := .ofInt (atoi (tok.drop 9)) }
  else if inPortKey.isPrefixOf tok then
    some { out with hasInPort := true, inPort := .ofInt (atoi (tok.drop 8)) }
  else if dlDstKey.isPrefixOf tok then
    match parseMac (tok.drop 7) with
    | none => none
    | some mac => some { out with hasDlDst := true, dlDst := mac }
  else if tok = ipToken then some { out with hasIp := true }
  else if outputKey.isPrefixOf tok then
    some { out with hasOutput := true, outputPort := .ofInt (atoi (tok.drop 15)) }
  else if tok = normalToken then
    some { out with hasOutput := true, outputPort := ofppNormal }
  else some out

def flowBufSize : ℕ := 512

/-- `none` where the source returns -1. -/
def parseFlowString (flow : List Char) : Option ParsedFlow :=
  if flowBufSize ≤ flow.length then none
  else (strtok ',' flow).foldlM parseToken {}

/-! ### The documented fields -/

inductive Field
  | priority (p : UInt16)
  | inPort (port : UInt32)
  | dlDst (mac : Mac)
  | ip
  | output (port : UInt32)
  | normal
  deriving DecidableEq

/-- The text is two hexadecimal digits, of either case. -/
def HexOctet (b : UInt8) (s : List Char) : Prop :=
  ∃ c d, s = [c, d] ∧ c.isHexDigit = true ∧ d.isHexDigit = true ∧
    16 * hexValue c + hexValue d = b.toNat

/-- The text is six octets with colons between them. -/
def MacText (mac : Mac) (s : List Char) : Prop :=
  ∃ octets, s = [':'].intercalate octets ∧ List.Forall₂ HexOctet mac.toList octets

/-- The texts of a field. A port is a number that an `int` can hold. -/
inductive Writes : Field → List Char → Prop
  | priority {p : UInt16} {ds : List Char} (h : Decimal ds p.toNat) :
      Writes (.priority p) (priorityKey ++ ds)
  | inPort {port : UInt32} {ds : List Char} (h : Decimal ds port.toNat)
      (hlt : port.toNat < 2 ^ 31) : Writes (.inPort port) (inPortKey ++ ds)
  | dlDst {mac : Mac} {s : List Char} (h : MacText mac s) : Writes (.dlDst mac) (dlDstKey ++ s)
  | ip : Writes .ip ipToken
  | output {port : UInt32} {ds : List Char} (h : Decimal ds port.toNat)
      (hlt : port.toNat < 2 ^ 31) : Writes (.output port) (outputKey ++ ds)
  | normal : Writes .normal normalToken

/-- The token is neither a field nor starts with the key of one. -/
structure Unrecognised (tok : List Char) : Prop where
  priority : ¬ priorityKey <+: tok
  inPort : ¬ inPortKey <+: tok
  dlDst : ¬ dlDstKey <+: tok
  output : ¬ outputKey <+: tok
  ip : tok ≠ ipToken
  normal : tok ≠ normalToken

/-- What a field sets. -/
def Field.set (out : ParsedFlow) : Field → ParsedFlow
  | .priority p => { out with hasPriority := true, priority := p }
  | .inPort port => { out with hasInPort := true, inPort := port }
  | .dlDst mac => { out with hasDlDst := true, dlDst := mac }
  | .ip => { out with hasIp := true }
  | .output port => { out with hasOutput := true, outputPort := port }
  | .normal => { out with hasOutput := true, outputPort := ofppNormal }

/-- The tokens are those of the fields, in order, and of nothing else that is recognised. -/
inductive ReadsAs : List (List Char) → List Field → Prop
  | nil : ReadsAs [] []
  | field {fld : Field} {tok : List Char} {flds : List Field} {toks : List (List Char)}
      (h : Writes fld tok) (hr : ReadsAs toks flds) : ReadsAs (tok :: toks) (fld :: flds)
  | ignored {tok : List Char} {flds : List Field} {toks : List (List Char)}
      (h : Unrecognised tok) (hr : ReadsAs toks flds) : ReadsAs (tok :: toks) flds

/-! ### Octets -/

variable {out f : ParsedFlow} {fld : Field} {flds : List Field} {s tok : List Char}
  {toks : List (List Char)} {mac : Mac}

lemma scanHex_octet {b : UInt8} {o : List Char} (rest : List Char) (h : HexOctet b o) :
    ∃ v, scanHex 2 (o ++ rest) = some (v, rest) ∧ v.toUInt8 = b := by
  obtain ⟨c, d, rfl, hc, hd, hv⟩ := h
  refine ⟨_, scanHex_two hc hd, ?_⟩
  rw [hv, ← UInt8.toNat_inj, UInt32.toNat_toUInt8, UInt32.toNat_ofNat']
  have := b.toNat_lt
  omega

lemma scanOctets_flatMap {bs : List UInt8} {octets : List (List Char)} (rest : List Char)
    (h : List.Forall₂ HexOctet bs octets) :
    scanOctets bs.length (octets.flatMap (':' :: ·) ++ rest) = some bs := by
  induction h with
  | nil => rfl
  | @cons b o bs octets ho _ ih =>
    obtain ⟨v, hv, rfl⟩ := scanHex_octet (octets.flatMap (':' :: ·) ++ rest) ho
    rw [List.length_cons, List.flatMap_cons, List.cons_append, List.cons_append,
      List.append_assoc, scanOctets, hv]
    dsimp only
    rw [ih]
    rfl

/-- A separator in front of every part, instead of between them. -/
lemma cons_intercalate (x : Char) {o : List Char} {octets : List (List Char)} :
    x :: [x].intercalate (o :: octets) = (o :: octets).flatMap (x :: ·) := by
  induction octets generalizing o with
  | nil => simp
  | cons o' octets ih =>
    rw [List.intercalate_cons_cons, List.flatMap_cons, ← ih]
    simp

/-- **An address that is written as documented is read as it is.** -/
theorem parseMac_text (h : MacText mac s) : parseMac s = some mac := by
  obtain ⟨octets, rfl, ho⟩ := h
  have hlen : mac.toList.length = 6 := by simp
  cases octets with
  | nil =>
    have := ho.length_eq
    rw [hlen] at this
    cases this
  | cons o octets =>
    have hscan := scanOctets_flatMap [] ho
    rw [hlen, List.append_nil, ← cons_intercalate] at hscan
    have hmac := getMac_toList mac []
    rw [List.append_nil] at hmac
    rw [parseMac, hscan, Option.map_some, hmac]

/-! ### Tokens -/

/-- **A documented field sets what it denotes.** -/
theorem parseToken_writes (h : Writes fld tok) : parseToken out tok = some (fld.set out) := by
  cases h with
  | @priority p ds h =>
    have hp : atoi ds = p.toNat := atoi_decimal h (by have := p.toNat_lt; omega)
    have hd : (priorityKey ++ ds).drop 9 = ds := rfl
    have h1 : priorityKey.isPrefixOf (priorityKey ++ ds) = true := rfl
    rw [parseToken, if_pos h1, hd, hp, ofInt16_natCast, UInt16.ofNat_toNat]
    rfl
  | @inPort port ds h hlt =>
    have hp : atoi ds = port.toNat := atoi_decimal h hlt
    have hd : (inPortKey ++ ds).drop 8 = ds := rfl
    have h1 : ¬ priorityKey.isPrefixOf (inPortKey ++ ds) = true := Bool.false_ne_true
    have h2 : inPortKey.isPrefixOf (inPortKey ++ ds) = true := rfl
    rw [parseToken, if_neg h1, if_pos h2, hd, hp, ofInt32_natCast, UInt32.ofNat_toNat]
    rfl
  | @dlDst mac s h =>
    have hd : (dlDstKey ++ s).drop 7 = s := rfl
    have h1 : ¬ priorityKey.isPrefixOf (dlDstKey ++ s) = true := Bool.false_ne_true
    have h2 : ¬ inPortKey.isPrefixOf (dlDstKey ++ s) = true := Bool.false_ne_true
    have h3 : dlDstKey.isPrefixOf (dlDstKey ++ s) = true := rfl
    rw [parseToken, if_neg h1, if_neg h2, if_pos h3, hd, parseMac_text h]
    rfl
  | ip => rfl
  | @output port ds h hlt =>
    have hp : atoi ds = port.toNat := atoi_decimal h hlt
    have hd : (outputKey ++ ds).drop 15 = ds := rfl
    have h1 : ¬ priorityKey.isPrefixOf (outputKey ++ ds) = true := Bool.false_ne_true
    have h2 : ¬ inPortKey.isPrefixOf (outputKey ++ ds) = true := Bool.false_ne_true
    have h3 : ¬ dlDstKey.isPrefixOf (outputKey ++ ds) = true := Bool.false_ne_true
    have h4 : outputKey ++ ds ≠ ipToken := fun he => by cases he
    have h5 : outputKey.isPrefixOf (outputKey ++ ds) = true := rfl
    rw [parseToken, if_neg h1, if_neg h2, if_neg h3, if_neg h4, if_pos h5, hd, hp,
      ofInt32_natCast, UInt32.ofNat_toNat]
    rfl
  | normal => rfl

lemma parseToken_unrecognised (h : Unrecognised tok) : parseToken out tok = some out := by
  have hne : ∀ key : List Char, ¬ key <+: tok → ¬ key.isPrefixOf tok = true := fun key hk he =>
    hk (List.isPrefixOf_iff_prefix.mp he)
  rw [parseToken, if_neg (hne _ h.priority), if_neg (hne _ h.inPort), if_neg (hne _ h.dlDst),
    if_neg h.ip, if_neg (hne _ h.output), if_neg h.normal]

lemma foldlM_readsAs (h : ReadsAs toks flds) :
    toks.foldlM parseToken out = some (flds.foldl Field.set out) := by
  induction h generalizing out with
  | nil => rfl
  | field h _ ih => simp [parseToken_writes h, ih]
  | ignored h _ ih => simp [parseToken_unrecognised h, ih]

lemma writes_ne_nil (h : Writes fld tok) : tok ≠ [] := by
  rintro rfl
  cases h

/-- Empty tokens are passed over. -/
lemma readsAs_filter (h : ReadsAs toks flds) : ReadsAs (toks.filter (· ≠ [])) flds := by
  induction h with
  | nil => exact .nil
  | field h _ ih =>
    rw [List.filter_cons_of_pos (by simpa using writes_ne_nil h)]
    exact .field h ih
  | @ignored tok _ _ h _ ih =>
    by_cases hne : tok = []
    · rwa [List.filter_cons_of_neg (by simp [hne])]
    · rw [List.filter_cons_of_pos (by simpa using hne)]
      exact .ignored h ih

/-- What a list of fields sets. -/
def parsed (flds : List Field) : ParsedFlow := flds.foldl Field.set {}

/-- **Documented fields are parsed as what they set**, in a string that fits. -/
theorem parse_readsAs (h : ReadsAs (s.splitOn ',') flds) (hlen : s.length < flowBufSize) :
    parseFlowString s = some (parsed flds) := by
  rw [parseFlowString, if_neg (not_le.mpr hlen)]
  exact foldlM_readsAs (readsAs_filter h)

/-! ### What a list of fields denotes -/

def Field.priority? : Field → Option UInt16
  | .priority p => some p
  | _ => none

def Field.inPort? : Field → Option UInt32
  | .inPort port => some port
  | _ => none

def Field.dlDst? : Field → Option Mac
  | .dlDst mac => some mac
  | _ => none

def Field.output? : Field → Option UInt32
  | .output port => some port
  | .normal => some ofppNormal
  | _ => none

/-- The values of the record, where they are there. -/
def ParsedFlow.priority? (f : ParsedFlow) : Option UInt16 :=
  if f.hasPriority then some f.priority else none

def ParsedFlow.inPort? (f : ParsedFlow) : Option UInt32 :=
  if f.hasInPort then some f.inPort else none

def ParsedFlow.dlDst? (f : ParsedFlow) : Option Mac := if f.hasDlDst then some f.dlDst else none

def ParsedFlow.output? (f : ParsedFlow) : Option UInt32 :=
  if f.hasOutput then some f.outputPort else none

/-- The value of a kind that was written last. -/
def lastOf {α : Type} (kind : Field → Option α) (flds : List Field) : Option α :=
  (flds.filterMap kind).getLast?

/-- The record has of every kind what was written last, and nothing that was not written. -/
structure Denotes (flds : List Field) (f : ParsedFlow) : Prop where
  priority : f.priority? = lastOf Field.priority? flds
  inPort : f.inPort? = lastOf Field.inPort? flds
  dlDst : f.dlDst? = lastOf Field.dlDst? flds
  ip : f.hasIp = true ↔ .ip ∈ flds
  output : f.output? = lastOf Field.output? flds

lemma lastOf_snoc {α : Type} (kind : Field → Option α) (flds : List Field) (fld : Field) :
    lastOf kind (flds ++ [fld]) = (kind fld).or (lastOf kind flds) := by
  cases h : kind fld <;> simp [lastOf, h]

/-- **The record denotes the fields.** -/
theorem denotes_parsed (flds : List Field) : Denotes flds (parsed flds) := by
  induction flds using List.reverseRecOn with
  | nil => exact ⟨rfl, rfl, rfl, by simp [parsed], rfl⟩
  | append_singleton flds fld ih =>
    have hset : parsed (flds ++ [fld]) = fld.set (parsed flds) := by
      simp [parsed, List.foldl_append]
    constructor
    · rw [hset, lastOf_snoc, ← ih.priority]
      cases fld <;> rfl
    · rw [hset, lastOf_snoc, ← ih.inPort]
      cases fld <;> rfl
    · rw [hset, lastOf_snoc, ← ih.dlDst]
      cases fld <;> rfl
    · rw [hset, List.mem_append, ← ih.ip]
      cases fld <;> simp [Field.set]
    · rw [hset, lastOf_snoc, ← ih.output]
      cases fld <;> rfl

end DaimDistributed.FlowString
