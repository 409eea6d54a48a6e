import DaimDistributed.FlowString
import DaimDistributed.OfMessage
import DaimDistributed.OfSwitch

/-!
The Flow-Mods that `ovs_persistent_adapter.c` builds.

A buffer is the list of the bytes that are used of it. A length that the source writes into
its place afterwards stands there from the start.
-/

namespace DaimDistributed.FlowMod

open HostState FlowString OfMessage
open BigEndian (bytes)

def ofpfcAdd : UInt8 := 0

def ofpfcDelete : UInt8 := 3

def ofppAny : UInt32 := 0xffffffff

def ofpgAny : UInt32 := 0xffffffff

def ofpNoBuffer : UInt32 := 0xffffffff

def ofpmtOxm : UInt16 := 1

def ofpxmcOpenflowBasic : UInt32 := 0x8000

def oxmOfInPort : UInt32 := 0

def oxmOfEthDst : UInt32 := 3

def oxmOfEthType : UInt32 := 5

def ofpitApplyActions : UInt16 := 4

def ofpatOutput : UInt16 := 0

def ofpcmlNoBuffer : UInt16 := 0xffff

def ethTypeIpv4 : UInt16 := 0x0800

def pad8 (len : ℕ) : ℕ := (len + 7) / 8 * 8

/-- What `build_match` writes behind the header of the match. -/
def matchOxms (f : ParsedFlow) : List UInt8 :=
  (if f.hasInPort then
    putU32 ((ofpxmcOpenflowBasic <<< 16) ||| (oxmOfInPort <<< 9) ||| 4) ++ putU32 f.inPort
  else []) ++
  (if f.hasDlDst then
    putU32 ((ofpxmcOpenflowBasic <<< 16) ||| (oxmOfEthDst <<< 9) ||| 6) ++ f.dlDst.toList
  else []) ++
  (if f.hasIp then
    putU32 ((ofpxmcOpenflowBasic <<< 16) ||| (oxmOfEthType <<< 9) ||| 2) ++ putU16 ethTypeIpv4
  else [])

def buildMatch (f : ParsedFlow) : List UInt8 :=
  let matchLen := 4 + (matchOxms f).length
  putU16 ofpmtOxm ++ putU16 matchLen.toUInt16 ++ matchOxms f ++ putZero (pad8 matchLen - matchLen)

/-- The action, with its header. -/
def actionOutput (f : ParsedFlow) : List UInt8 :=
  putU16 ofpatOutput ++ putU16 16 ++ putU32 f.outputPort ++ putU16 ofpcmlNoBuffer ++ putZero 6

def buildActions (f : ParsedFlow) : List UInt8 :=
  if f.hasOutput = false then []
  else
    let off := 8 + (actionOutput f).length
    putU16 ofpitApplyActions ++ putU16 off.toUInt16 ++ putZero 4 ++ actionOutput f

/-- What follows the length in the message. -/
def flowModTail (xid : UInt32) (command : UInt8) (f : ParsedFlow) : List UInt8 :=
  putU32 xid ++
  putU64 0 ++
  putU64 0 ++
  putU8 0 ++
  putU8 command ++
  putU16 0 ++
  putU16 0 ++
  putU16 (if f.hasPriority then f.priority else 0) ++
  putU32 ofpNoBuffer ++
  putU32 ofppAny ++
  putU32 ofpgAny ++
  putU16 0 ++
  putZero 2 ++
  buildMatch f ++
  (if command = ofpfcAdd then buildActions f else [])

def buildFlowMod (xid : UInt32) (command : UInt8) (f : ParsedFlow) : List UInt8 :=
  let off := 4 + (flowModTail xid command f).length
  putU8 ofpVersion13 ++ putU8 ofptFlowMod ++ putU16 off.toUInt16 ++ flowModTail xid command f

def daimOvsWireFlowModSize (flow : List Char) (isDelete : Bool) : ℕ :=
  match parseFlowString flow with
  | none => 0
  | some f => (buildFlowMod 0 (if isDelete then ofpfcDelete else ofpfcAdd) f).length

/-! ### Lengths -/

variable (f : ParsedFlow) (xid : UInt32) (command : UInt8)

@[simp] lemma length_putU8 (v : UInt8) : (putU8 v).length = 1 := rfl

@[simp] lemma length_putU16 (v : UInt16) : (putU16 v).length = 2 := BigEndian.length_bytes 2 _

@[simp] lemma length_putU32 (v : UInt32) : (putU32 v).length = 4 := BigEndian.length_bytes 4 _

@[simp] lemma length_putU64 (v : UInt64) : (putU64 v).length = 8 := by
  simp [putU64]

@[simp] lemma length_putZero (n : ℕ) : (putZero n).length = n := List.length_replicate

/-- The bytes of the match that depend on which fields there are. -/
def oxmsLength (f : ParsedFlow) : ℕ :=
  (if f.hasInPort then 8 else 0) + (if f.hasDlDst then 10 else 0) + (if f.hasIp then 6 else 0)

lemma length_matchOxms : (matchOxms f).length = oxmsLength f := by
  cases h1 : f.hasInPort <;> cases h2 : f.hasDlDst <;> cases h3 : f.hasIp <;>
    simp [matchOxms, oxmsLength, h1, h2, h3]

lemma oxmsLength_le : oxmsLength f ≤ 24 := by
  unfold oxmsLength
  split_ifs <;> omega

lemma length_buildMatch : (buildMatch f).length = pad8 (4 + oxmsLength f) := by
  simp only [buildMatch, List.length_append, length_putU16, length_putZero, length_matchOxms, pad8]
  omega

lemma length_buildActions : (buildActions f).length = if f.hasOutput then 24 else 0 := by
  cases h : f.hasOutput <;> simp [buildActions, actionOutput, h]

lemma length_flowModTail : (flowModTail xid command f).length =
    44 + pad8 (4 + oxmsLength f) + if command = ofpfcAdd ∧ f.hasOutput then 24 else 0 := by
  have ha : (if command = ofpfcAdd then buildActions f else []).length =
      if command = ofpfcAdd ∧ f.hasOutput then 24 else 0 := by
    by_cases hc : command = ofpfcAdd
    · simp only [hc, if_true, length_buildActions, true_and]
    · simp only [hc, if_false, List.length_nil, false_and]
  simp only [flowModTail, List.length_append, length_putU8, length_putU16, length_putU32,
    length_putU64, length_putZero, length_buildMatch, ha]

/-- **The size depends only on which fields there are.** -/
theorem length_buildFlowMod : (buildFlowMod xid command f).length =
    48 + pad8 (4 + oxmsLength f) + if command = ofpfcAdd ∧ f.hasOutput then 24 else 0 := by
  simp only [buildFlowMod, List.length_append, length_putU8, length_putU16, length_flowModTail]
  omega

/-- No buffer is exceeded. -/
lemma lengths_le : (buildMatch f).length ≤ 32 ∧ (buildActions f).length ≤ 24 ∧
    (buildFlowMod xid command f).length ≤ 104 := by
  have h := oxmsLength_le f
  have hp : pad8 (4 + oxmsLength f) ≤ 32 := by
    unfold pad8
    omega
  rw [length_buildMatch, length_buildActions, length_buildFlowMod]
  refine ⟨hp, ?_, ?_⟩ <;> split_ifs <;> omega

/-! ### What the switch reads -/

open OfSwitch

variable (rest : List UInt8)

lemma num_putU8 (v : UInt8) : num 1 (putU8 v ++ rest) = some (v.toNat, rest) := by
  have h : putU8 v = bytes 1 v.toNat := by simp [putU8, bytes]
  rw [h, num_bytes v.toNat_lt]

lemma num_putU16 (v : UInt16) : num 2 (putU16 v ++ rest) = some (v.toNat, rest) :=
  num_bytes v.toNat_lt rest

lemma num_putU32 (v : UInt32) : num 4 (putU32 v ++ rest) = some (v.toNat, rest) :=
  num_bytes v.toNat_lt rest

lemma num_putU64_zero : num 8 (putU64 0 ++ rest) = some (0, rest) :=
  num_bytes (n := 8) (v := 0) (by decide) rest

lemma chunk_putZero (n : ℕ) : chunk n (putZero n ++ rest) = some (putZero n, rest) :=
  chunk_append (length_putZero n)

/-- The match fields of a flow, in their order on the wire. -/
def matchFields (f : ParsedFlow) : List MatchField :=
  (if f.hasInPort then [.inPort f.inPort] else []) ++
  (if f.hasDlDst then [.ethDst f.dlDst] else []) ++
  (if f.hasIp then [.ethType ethTypeIpv4] else [])

/-- The bytes of one field. -/
def oxm : MatchField → List UInt8
  | .inPort port => putU32 ((ofpxmcOpenflowBasic <<< 16) ||| (oxmOfInPort <<< 9) ||| 4) ++
      putU32 port
  | .ethDst mac => putU32 ((ofpxmcOpenflowBasic <<< 16) ||| (oxmOfEthDst <<< 9) ||| 6) ++
      mac.toList
  | .ethType type => putU32 ((ofpxmcOpenflowBasic <<< 16) ||| (oxmOfEthType <<< 9) ||| 2) ++
      putU16 type

lemma matchOxms_eq : matchOxms f = (matchFields f).flatMap oxm := by
  cases h1 : f.hasInPort <;> cases h2 : f.hasDlDst <;> cases h3 : f.hasIp <;>
    simp [matchOxms, matchFields, oxm, h1, h2, h3]

lemma readOxm_append {header : UInt32} {payload : List UInt8} {fld : MatchField}
    (hl : payload.length = header.toNat % 2 ^ 8)
    (hf : matchField (header.toNat / 2 ^ 16) (header.toNat / 2 ^ 9 % 2 ^ 7)
      (header.toNat / 2 ^ 8 % 2 = 1) payload = some fld) :
    readOxm (putU32 header ++ payload ++ rest) = some (fld, rest) := by
  rw [List.append_assoc]
  simp only [readOxm, num_putU32, Option.bind_eq_bind, Option.bind_some, chunk_append hl, hf]

lemma readOxm_oxm (fld : MatchField) : readOxm (oxm fld ++ rest) = some (fld, rest) := by
  cases fld with
  | inPort port =>
    refine readOxm_append rest (by rw [length_putU32]; rfl) ?_
    have h : matchField 0x8000 0 false (putU32 port) =
        some (.inPort (.ofNat (BigEndian.value (putU32 port)))) := rfl
    exact h.trans (by rw [putU32, BigEndian.value_bytes port.toNat_lt, UInt32.ofNat_toNat])
  | ethDst mac =>
    have hlen : mac.toList.length = 6 := by simp
    have hmac := Protocol.getMac_toList mac []
    rw [List.append_nil] at hmac
    refine readOxm_append rest (by rw [hlen]; rfl) ?_
    have h : matchField 0x8000 3 false mac.toList =
        some (.ethDst (Protocol.getMac mac.toList).1) := by
      simp [matchField, hlen]
    exact h.trans (by rw [hmac])
  | ethType type =>
    refine readOxm_append rest (by rw [length_putU16]; rfl) ?_
    have h : matchField 0x8000 5 false (putU16 type) =
        some (.ethType (.ofNat (BigEndian.value (putU16 type)))) := rfl
    exact h.trans (by rw [putU16, BigEndian.value_bytes type.toNat_lt, UInt16.ofNat_toNat])

lemma oxm_ne_nil (fld : MatchField) : oxm fld ≠ [] := by
  cases fld <;> simp [oxm, putU32, bytes]

/-- **The match is read back as its fields.** -/
theorem readMatch_buildMatch : readMatch (buildMatch f ++ rest) = some (matchFields f, rest) := by
  have hle := oxmsLength_le f
  have hlen : (matchOxms f).length = oxmsLength f := length_matchOxms f
  have hto : (4 + oxmsLength f).toUInt16.toNat = 4 + oxmsLength f := by
    simp
    omega
  have hoxms : Delimited.readAll readOxm (matchOxms f) = some (matchFields f) := by
    have hwhole : ∀ fld r, readOxm (oxm fld ++ r) = some (id fld, r) := fun fld r =>
      readOxm_oxm r fld
    rw [matchOxms_eq, Delimited.readAll_flatMap hwhole oxm_ne_nil, List.map_id]
  have hchunk : ∀ r, chunk (4 + oxmsLength f - 4) (matchOxms f ++ r) = some (matchOxms f, r) :=
    fun r => chunk_append (by omega)
  have hpad : pad8 (4 + oxmsLength f) = padded (4 + oxmsLength f) := rfl
  have hall : (putZero (padded (4 + oxmsLength f) - (4 + oxmsLength f))).all (· = 0) = true := by
    simp [putZero]
  simp only [buildMatch, hlen, List.append_assoc, readMatch, num_putU16, Option.bind_eq_bind,
    Option.bind_some, hto, hchunk, hpad, chunk_putZero, hoxms, hall]
  exact if_pos ⟨rfl, by omega, trivial⟩

/-- The actions of a flow. -/
def outputActions (f : ParsedFlow) : List OutputAction :=
  if f.hasOutput then [⟨f.outputPort.toNat, ofpcmlNoBuffer.toNat⟩] else []

lemma readAction_actionOutput :
    readAction (actionOutput f ++ rest) =
      some (⟨f.outputPort.toNat, ofpcmlNoBuffer.toNat⟩, rest) := by
  simp only [actionOutput, List.append_assoc, readAction, num_putU16, num_putU32, chunk_putZero,
    Option.bind_eq_bind, Option.bind_some]
  exact if_pos ⟨rfl, rfl⟩

lemma readAll_actionOutput : Delimited.readAll readAction (actionOutput f) =
    some [⟨f.outputPort.toNat, ofpcmlNoBuffer.toNat⟩] := by
  have h := readAction_actionOutput f []
  rw [List.append_nil] at h
  exact Delimited.readAll_single h (List.ne_nil_of_length_pos (by simp [actionOutput]))

/-- **The actions are read back**, as one instruction if there are any. -/
theorem readAll_buildActions : ∃ instructions,
    Delimited.readAll readInstruction (buildActions f) = some instructions ∧
      instructions.flatten = outputActions f := by
  cases h : f.hasOutput with
  | false => exact ⟨[], by simp [buildActions, h, Delimited.readAll, Delimited.readUpTo],
      by simp [outputActions, h]⟩
  | true =>
    have hlen : (actionOutput f).length = 16 := by simp [actionOutput]
    have hbuild : buildActions f =
        putU16 ofpitApplyActions ++ (putU16 24 ++ (putZero 4 ++ actionOutput f)) := by
      rw [buildActions, if_neg (by simp [h]), hlen]
      simp only [List.append_assoc]
      rfl
    have hchunk : chunk ((24 : UInt16).toNat - 8) (actionOutput f) = some (actionOutput f, []) := by
      have hc : chunk 16 (actionOutput f ++ []) = _ := chunk_append hlen
      rwa [List.append_nil] at hc
    have hread : readInstruction (buildActions f) = some (outputActions f, []) := by
      rw [hbuild]
      simp only [readInstruction, num_putU16, chunk_putZero, Option.bind_eq_bind,
        Option.bind_some, hchunk, readAll_actionOutput]
      rw [outputActions, if_pos h]
      exact if_pos ⟨rfl, by decide⟩
    have hne : buildActions f ≠ [] := List.ne_nil_of_length_pos (by simp [length_buildActions, h])
    exact ⟨[outputActions f], Delimited.readAll_single hread hne, by simp⟩

/-- What the switch is to read. -/
def readBack (xid : UInt32) (command : UInt8) (f : ParsedFlow) : OfSwitch.FlowMod where
  xid := xid.toNat
  cookie := 0
  cookieMask := 0
  tableId := 0
  command := command.toNat
  idleTimeout := 0
  hardTimeout := 0
  priority := if f.hasPriority then f.priority.toNat else 0
  bufferId := ofpNoBuffer.toNat
  outPort := ofppAny.toNat
  outGroup := ofpgAny.toNat
  flags := 0
  fields := matchFields f
  actions := if command = ofpfcAdd then outputActions f else []

/-- One number taken off, and then the rest. -/
lemma bind_of {α β : Type} {x : Option α} {a : α} {k : α → Option β} {b : β} (h : x = some a)
    (hk : k a = some b) : (x >>= k) = some b := by
  rw [h]
  exact hk

lemma flowModTail_eq : flowModTail xid command f =
    putU32 xid ++ (putU64 0 ++ (putU64 0 ++ (putU8 0 ++ (putU8 command ++ (putU16 0 ++ (putU16 0 ++
      (putU16 (if f.hasPriority then f.priority else 0) ++ (putU32 ofpNoBuffer ++
      (putU32 ofppAny ++ (putU32 ofpgAny ++ (putU16 0 ++ (putZero 2 ++ (buildMatch f ++
      (if command = ofpfcAdd then buildActions f else [])))))))))))))) := by
  simp only [flowModTail, List.append_assoc]

/-- The length in the header is that of the message. -/
lemma buildFlowMod_eq : ∃ length : UInt16, length.toNat = (buildFlowMod xid command f).length ∧
    buildFlowMod xid command f = putU8 ofpVersion13 ++ (putU8 ofptFlowMod ++ (putU16 length ++
      flowModTail xid command f)) := by
  have hle := (lengths_le f xid command).2.2
  have hlen : (buildFlowMod xid command f).length = 4 + (flowModTail xid command f).length := by
    simp only [buildFlowMod, List.length_append, length_putU8, length_putU16]
  refine ⟨(4 + (flowModTail xid command f).length).toUInt16, ?_, ?_⟩
  · simp
    omega
  · simp only [buildFlowMod, List.append_assoc]

/-- **A Flow-Mod is a well-formed message.** -/
theorem buildFlowMod_message : ∃ m : Message, m.type = ofptFlowMod ∧
    m.bytes = buildFlowMod xid command f := by
  obtain ⟨length, hlen, hmsg⟩ := buildFlowMod_eq f xid command
  obtain ⟨body, hbody⟩ : ∃ body, flowModTail xid command f = putU32 xid ++ body :=
    ⟨_, flowModTail_eq f xid command⟩
  have hL : length.toNat = ofpHeaderSize + body.length := by
    rw [hlen, hmsg, hbody]
    simp only [List.length_append, length_putU8, length_putU16, length_putU32, ofpHeaderSize]
    omega
  refine ⟨⟨ofpVersion13, ofptFlowMod, xid, body, hL ▸ length.toNat_lt⟩, rfl, ?_⟩
  have hput : putU16 length = bytes 2 (ofpHeaderSize + body.length) := congrArg (bytes 2) hL
  rw [hmsg, hbody, hput]
  simp only [Message.bytes, Message.header, Message.length, List.append_assoc]

/-- Where the match stands, and the length in it. -/
lemma drop_match : ∃ rest, (buildFlowMod xid command f).drop 48 = buildMatch f ++ rest := by
  obtain ⟨length, -, hmsg⟩ := buildFlowMod_eq f xid command
  refine ⟨if command = ofpfcAdd then buildActions f else [], ?_⟩
  rw [hmsg, flowModTail_eq]
  simp only [← List.append_assoc]
  rw [List.append_assoc _ (buildMatch f)]
  exact List.drop_left' (by simp only [List.length_append, length_putU8, length_putU16,
    length_putU32, length_putU64, length_putZero])

/-- **The lengths on the wire**: that of the message counts every byte, that of the match leaves
the padding out. -/
theorem length_fields :
    headerLength (buildFlowMod xid command f) = (buildFlowMod xid command f).length ∧
      BigEndian.value (((buildFlowMod xid command f).drop 50).take 2) = 4 + oxmsLength f := by
  constructor
  · obtain ⟨length, hlen, hmsg⟩ := buildFlowMod_eq f xid command
    have h : ((buildFlowMod xid command f).drop 2).take 2 = bytes 2 length.toNat := by
      rw [hmsg]
      rfl
    rw [headerLength, h, BigEndian.value_bytes length.toNat_lt, hlen]
  · obtain ⟨rest, hrest⟩ := drop_match f xid command
    have hle := oxmsLength_le f
    have h : ((buildFlowMod xid command f).drop 50).take 2 =
        bytes 2 (4 + (matchOxms f).length).toUInt16.toNat := by
      have hdrop : (buildFlowMod xid command f).drop 50 =
          ((buildFlowMod xid command f).drop 48).drop 2 := by rw [List.drop_drop]
      rw [hdrop, hrest, buildMatch]
      rfl
    rw [h, BigEndian.value_bytes (UInt16.toNat_lt _), length_matchOxms]
    simp
    omega

/-- **The switch reads the command, the priority, the match and the actions of the flow.** -/
theorem readFlowMod_buildFlowMod :
    readFlowMod (buildFlowMod xid command f) = some (readBack xid command f) := by
  obtain ⟨length, hlen, hmsg⟩ := buildFlowMod_eq f xid command
  obtain ⟨instructions, hall, hflat⟩ : ∃ instructions,
      Delimited.readAll readInstruction (if command = ofpfcAdd then buildActions f else []) =
        some instructions ∧
      instructions.flatten = if command = ofpfcAdd then outputActions f else [] := by
    split_ifs
    · exact readAll_buildActions f
    · exact ⟨[], rfl, rfl⟩
  have hprio : (if f.hasPriority then f.priority else 0 : UInt16).toNat =
      if f.hasPriority then f.priority.toNat else 0 := by
    split_ifs <;> rfl
  rw [readFlowMod, ← hlen, hmsg, flowModTail_eq]
  refine bind_of (num_putU8 _ _) (bind_of (num_putU8 _ _) (bind_of (num_putU16 _ _)
    (bind_of (num_putU32 _ _) (bind_of (num_putU64_zero _) (bind_of (num_putU64_zero _)
    (bind_of (num_putU8 _ _) (bind_of (num_putU8 _ _) (bind_of (num_putU16 _ _)
    (bind_of (num_putU16 _ _) (bind_of (num_putU16 _ _) (bind_of (num_putU32 _ _)
    (bind_of (num_putU32 _ _) (bind_of (num_putU32 _ _) (bind_of (num_putU16 _ _)
    (bind_of (chunk_putZero _ _) (bind_of (readMatch_buildMatch f _)
    (bind_of hall ?_)))))))))))))))))
  rw [if_pos ⟨rfl, rfl, rfl⟩, hflat, hprio]
  rfl

end DaimDistributed.FlowMod
