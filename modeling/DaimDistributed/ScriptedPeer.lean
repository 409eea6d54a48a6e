import DaimDistributed.Codecs
import DaimDistributed.LearningApp

/-!
The scripted peer of `daim_synthetic_peer.py`, which lays the frames out by format strings.

A Python integer is an integer, a `bytes` object the list of its bytes, and an exception is
`none`. A socket is the stream of the bytes still to be read.
-/

namespace DaimDistributed.ScriptedPeer

open HostState Protocol Transport Framing BigEndian Codecs
open LearningApp (hexByte)

/-- The format characters in use, all of them unsigned. -/
inductive Format
  | B | I | Q

/-- With `>` in front, the sizes are standard and nothing is padded. -/
def Format.size : Format → ℕ
  | .B => 1
  | .I => 4
  | .Q => 8

/-- `struct.pack`, which refuses a value outside of the range of its format. -/
def structPack : List Format → List ℤ → Option (List UInt8)
  | [], [] => some []
  | f :: fs, v :: vs =>
    if 0 ≤ v ∧ v < 256 ^ f.size then (structPack fs vs).map (bytes f.size v.toNat ++ ·)
    else none
  | _, _ => none

/-- `struct.unpack`, which refuses a string of another length. -/
def structUnpack : List Format → List UInt8 → Option (List ℤ)
  | [], [] => some []
  | [], _ :: _ => none
  | f :: fs, buf =>
    if buf.length < f.size then none
    else (structUnpack fs (buf.drop f.size)).map ((value (buf.take f.size) : ℤ) :: ·)

def protocolVersion : ℤ := 1

def headerSize : ℕ := 30

def hostLocationWireSize : ℕ := 59

def headerFmt : List Format := [.B, .B, .Q, .Q, .I, .Q]

def locTailFmt : List Format := [.Q, .Q, .I, .Q, .Q, .B, .Q, .Q]

/-- An integer that is not zero counts as true. -/
def encodeHostLocation (macBytes : List UInt8)
    (originNodeId ownerDpid ownerPort ownerEpoch sequence isLocal learnedAtNs appliedAtNs : ℤ) :
    Option (List UInt8) :=
  if macBytes.length ≠ 6 then none
  else
    (structPack locTailFmt [originNodeId, ownerDpid, ownerPort, ownerEpoch, sequence,
      if isLocal ≠ 0 then 1 else 0, learnedAtNs, appliedAtNs]).map (macBytes ++ ·)

/-- The dictionary `decode_host_location` returns. -/
structure LocationDict where
  mac : String
  originNodeId : ℤ
  ownerDpid : ℤ
  ownerPort : ℤ
  ownerEpoch : ℤ
  sequence : ℤ
  isLocal : Bool
  learnedAtNs : ℤ
  appliedAtNs : ℤ
  deriving DecidableEq

/-- `":".join("%02x" % b for b in mac_bytes)`. -/
def macText (macBytes : List UInt8) : String :=
  String.ofList ([':'].intercalate (macBytes.map hexByte))

def decodeHostLocation (payload : List UInt8) : Option LocationDict :=
  match structUnpack locTailFmt ((payload.take hostLocationWireSize).drop 6) with
  | some [originNodeId, ownerDpid, ownerPort, ownerEpoch, sequence, isLocal, learnedAtNs,
      appliedAtNs] =>
    some ⟨macText (payload.take 6), originNodeId, ownerDpid, ownerPort, ownerEpoch, sequence,
      decide (isLocal ≠ 0), learnedAtNs, appliedAtNs⟩
  | _ => none

/-- The attributes of a `SyntheticPeer` that the frames are built from. -/
structure SyntheticPeer where
  nodeId : ℤ
  nextMessageId : ℤ := 1

/-- The message id is taken even where the packing raises. -/
def SyntheticPeer.buildFrame (p : SyntheticPeer) (messageType : ℤ) (payload : List UInt8)
    (version nowNs : ℤ) : SyntheticPeer × Option (List UInt8) :=
  let messageId := p.nextMessageId
  ({ p with nextMessageId := p.nextMessageId + 1 },
    (structPack headerFmt [version, messageType, p.nodeId, messageId, payload.length,
      nowNs]).map (· ++ payload))

/-- `none` where the peer closes before `n` bytes have come. -/
def recvExact (s : List UInt8) (n : ℕ) : Option (List UInt8 × List UInt8) :=
  if s.length < n then none else some (s.take n, s.drop n)

/-- The dictionary `_recv_message` returns. -/
structure Message where
  messageType : ℤ
  originNodeId : ℤ
  messageId : ℤ
  sendTimeNs : ℤ
  payload : List UInt8
  deriving DecidableEq

/-- The message, and the stream behind it. -/
def recvMessage (s : List UInt8) : Option (Message × List UInt8) :=
  match recvExact s headerSize with
  | none => none
  | some (header, s) =>
    match structUnpack headerFmt header with
    | some [version, messageType, originNodeId, messageId, payloadLength, sendTimeNs] =>
      if version ≠ protocolVersion then none
      else
        (if payloadLength ≠ 0 then recvExact s payloadLength.toNat else some ([], s)).map fun r =>
          (⟨messageType, originNodeId, messageId, sendTimeNs, r.1⟩, r.2)
    | _ => none

/-! ### Packing -/

/-- The bytes are those of the values, and unpacking gives the values back. -/
structure Packs (fs : List Format) (vs : List ℤ) (bs : List UInt8) : Prop where
  pack : structPack fs vs = some bs
  unpack : structUnpack fs bs = some vs

lemma packs_nil : Packs [] [] [] := ⟨rfl, rfl⟩

lemma packs_cons (f : Format) {n : ℕ} (hn : n < 256 ^ f.size) {fs : List Format} {vs : List ℤ}
    {bs : List UInt8} (h : Packs fs vs bs) :
    Packs (f :: fs) ((n : ℤ) :: vs) (bytes f.size n ++ bs) where
  pack := by
    have hv : (0 : ℤ) ≤ n ∧ (n : ℤ) < 256 ^ f.size := ⟨by omega, by exact_mod_cast hn⟩
    rw [structPack, if_pos hv, h.pack, Option.map_some, Int.toNat_natCast]
  unpack := by
    have hlen : (bytes f.size n).length = f.size := length_bytes f.size n
    rw [structUnpack, if_neg (by rw [List.length_append]; omega), List.take_left' hlen,
      List.drop_left' hlen, h.unpack, value_bytes hn, Option.map_some]

/-- The values of a C header, in the order of the format. -/
def headerValues (hdr : Header) : List ℤ :=
  [hdr.protocolVersion.toNat, hdr.messageType.toNat, hdr.originNodeId.toNat,
    hdr.messageId.toNat, hdr.payloadLength.toNat, hdr.sendTimeNs.toNat]

/-- The values of a C record behind its address. -/
def locValues (loc : HostLocation) : List ℤ :=
  [loc.originNodeId.toNat, loc.ownerDpid.toNat, loc.ownerPort.toNat, loc.ownerEpoch.toNat,
    loc.sequence.toNat, loc.isLocal.toNat, loc.learnedAtNs.toNat, loc.appliedAtNs.toNat]

/-- **A header is laid out as the format says.** -/
theorem packs_header (hdr : Header) :
    Packs headerFmt (headerValues hdr) (daimPeerEncodeHeader hdr) := by
  have h := packs_cons .B hdr.protocolVersion.toNat_lt <|
    packs_cons .B hdr.messageType.toNat_lt <|
    packs_cons .Q hdr.originNodeId.toNat_lt <|
    packs_cons .Q hdr.messageId.toNat_lt <|
    packs_cons .I hdr.payloadLength.toNat_lt <|
    packs_cons .Q hdr.sendTimeNs.toNat_lt packs_nil
  simp only [daimPeerEncodeHeader, putU8_eq, putU32_eq, putU64_eq]
  rw [List.append_nil] at h
  exact h

/-- **So is a host location, behind its address.** -/
theorem packs_loc (loc : HostLocation) : ∃ tail, Packs locTailFmt (locValues loc) tail ∧
    daimPeerEncodeHostLocation loc = loc.mac.toList ++ tail := by
  have h := packs_cons .Q loc.originNodeId.toNat_lt <|
    packs_cons .Q loc.ownerDpid.toNat_lt <|
    packs_cons .I loc.ownerPort.toNat_lt <|
    packs_cons .Q loc.ownerEpoch.toNat_lt <|
    packs_cons .Q loc.sequence.toNat_lt <|
    packs_cons .B loc.isLocal.toNat_lt <|
    packs_cons .Q loc.learnedAtNs.toNat_lt <|
    packs_cons .Q loc.appliedAtNs.toNat_lt packs_nil
  refine ⟨_, h, ?_⟩
  simp only [daimPeerEncodeHostLocation, putU8_eq, putU32_eq, putU64_eq, List.append_nil]
  rfl

/-! ### The text of an address -/

lemma digitChar_inj {a b : ℕ} (ha : a < 16) (hb : b < 16) (h : a.digitChar = b.digitChar) :
    a = b := by
  have hall : ∀ a b : Fin 16, a.1.digitChar = b.1.digitChar → a = b := by decide
  exact congrArg Fin.val (hall ⟨a, ha⟩ ⟨b, hb⟩ h)

lemma hexByte_inj {a b : UInt8} (h : hexByte a = hexByte b) : a = b := by
  have ha := a.toNat_lt
  have hb := b.toNat_lt
  simp only [hexByte, List.cons.injEq, and_true] at h
  have h1 := digitChar_inj (by omega) (by omega) h.1
  have h2 := digitChar_inj (by omega) (by omega) h.2
  rw [← UInt8.toNat_inj]
  omega

lemma colon_not_mem_hexByte (b : UInt8) : ':' ∉ hexByte b := by
  have hall : ∀ a : Fin 16, ':' ≠ a.1.digitChar := by decide
  have hb := b.toNat_lt
  simp only [hexByte, List.mem_cons, List.not_mem_nil, or_false, not_or]
  exact ⟨hall ⟨b.toNat / 16, by omega⟩, hall ⟨b.toNat % 16, by omega⟩⟩

lemma splitOn_macText {m : List UInt8} (hm : m ≠ []) :
    (macText m).toList.splitOn ':' = m.map hexByte := by
  rw [macText, String.toList_ofList]
  refine List.splitOn_intercalate ':' (fun l hl => ?_) (by simpa using hm)
  obtain ⟨b, -, rfl⟩ := List.mem_map.mp hl
  exact colon_not_mem_hexByte b

/-- **The text of an address is that of no other one.** -/
theorem macText_inj {m m' : Mac} (h : macText m.toList = macText m'.toList) : m = m' := by
  have hne : ∀ m : Mac, m.toList ≠ [] := fun m => List.ne_nil_of_length_pos (by simp)
  have hmap : m.toList.map hexByte = m'.toList.map hexByte := by
    rw [← splitOn_macText (hne m), h, splitOn_macText (hne m')]
  exact Vector.toList_inj.mp (List.map_injective_iff.mpr (fun _ _ => hexByte_inj) hmap)

/-! ### Both sides -/

/-- What `decode_host_location` is to give for a C record. -/
def dictOf (loc : HostLocation) : LocationDict where
  mac := macText loc.mac.toList
  originNodeId := loc.originNodeId.toNat
  ownerDpid := loc.ownerDpid.toNat
  ownerPort := loc.ownerPort.toNat
  ownerEpoch := loc.ownerEpoch.toNat
  sequence := loc.sequence.toNat
  isLocal := decide (loc.isLocal ≠ 0)
  learnedAtNs := loc.learnedAtNs.toNat
  appliedAtNs := loc.appliedAtNs.toNat

lemma dictOf_inj {loc loc' : HostLocation} (h : loc.isLocal = 0 ∨ loc.isLocal = 1)
    (h' : loc'.isLocal = 0 ∨ loc'.isLocal = 1) (he : dictOf loc = dictOf loc') : loc = loc' := by
  simp only [dictOf, LocationDict.mk.injEq, Int.natCast_inj, UInt64.toNat_inj,
    UInt32.toNat_inj] at he
  obtain ⟨hmac, h1, h2, h3, h4, h5, h6, h7, h8⟩ := he
  have hloc : loc.isLocal = loc'.isLocal := by
    rcases h with h | h <;> rcases h' with h' | h' <;> simp_all
  have hmac' := macText_inj hmac
  cases loc
  cases loc'
  simp_all

/-- What `_recv_message` is to give for a C frame. -/
def messageOf (o : Outgoing) : Message where
  messageType := o.messageType.toNat
  originNodeId := o.originNodeId.toNat
  messageId := o.messageId.toNat
  sendTimeNs := o.sendTimeNs.toNat
  payload := o.payload

/-- The frame built with the values of a C frame. -/
def builtFrame (o : Outgoing) : Option (List UInt8) :=
  ((SyntheticPeer.mk o.originNodeId.toNat o.messageId.toNat).buildFrame o.messageType.toNat
    o.payload protocolVersion o.sendTimeNs.toNat).2

/-- The payload built with the values of a C record. -/
def builtLocation (loc : HostLocation) : Option (List UInt8) :=
  encodeHostLocation loc.mac.toList loc.originNodeId.toNat loc.ownerDpid.toNat
    loc.ownerPort.toNat loc.ownerEpoch.toNat loc.sequence.toNat loc.isLocal.toNat
    loc.learnedAtNs.toNat loc.appliedAtNs.toNat

lemma builtFrame_eq (o : Outgoing) : builtFrame o = some o.bytes := by
  have h := (packs_header o.header).pack
  rw [headerValues, o.payloadLength] at h
  have h' : structPack headerFmt [protocolVersion, o.messageType.toNat, o.originNodeId.toNat,
      o.messageId.toNat, o.payload.length, o.sendTimeNs.toNat] =
        some (daimPeerEncodeHeader o.header) := h
  simp only [builtFrame, SyntheticPeer.buildFrame, h', Option.map_some]
  rfl

lemma builtLocation_eq {loc : HostLocation} (h : loc.isLocal = 0 ∨ loc.isLocal = 1) :
    builtLocation loc = some (daimPeerEncodeHostLocation loc) := by
  obtain ⟨tail, ht, he⟩ := packs_loc loc
  have hloc : (if (loc.isLocal.toNat : ℤ) ≠ 0 then 1 else 0 : ℤ) = loc.isLocal.toNat := by
    rcases h with h | h <;> simp [h]
  have hp := ht.pack
  simp only [locValues] at hp
  rw [builtLocation, encodeHostLocation, if_neg (by simp), hloc, hp, he, Option.map_some]

lemma decode_location (loc : HostLocation) :
    decodeHostLocation (daimPeerEncodeHostLocation loc) = some (dictOf loc) := by
  obtain ⟨tail, ht, he⟩ := packs_loc loc
  have hlen : loc.mac.toList.length = 6 := by simp
  have htake : (daimPeerEncodeHostLocation loc).take hostLocationWireSize =
      daimPeerEncodeHostLocation loc := List.take_of_length_le (length_encode loc).le
  rw [decodeHostLocation, htake, he, List.drop_left' hlen, List.take_left' hlen, ht.unpack]
  simp [locValues, dictOf, ← UInt8.toNat_inj]

lemma recvExact_append {n : ℕ} {bs : List UInt8} (h : bs.length = n) (rest : List UInt8) :
    recvExact (bs ++ rest) n = some (bs, rest) := by
  rw [recvExact, if_neg (by rw [List.length_append]; omega), List.take_left' h, List.drop_left' h]

lemma recv_message (o : Outgoing) (rest : List UInt8) :
    recvMessage (o.bytes ++ rest) = some (messageOf o, rest) := by
  have hlen : (daimPeerEncodeHeader o.header).length = headerSize := length_encodeHeader o.header
  have hhead : recvExact (o.bytes ++ rest) headerSize =
      some (daimPeerEncodeHeader o.header, o.payload ++ rest) := by
    rw [Outgoing.bytes, List.append_assoc, recvExact_append hlen]
  have hpay : (if (o.payload.length : ℤ) ≠ 0 then
      recvExact (o.payload ++ rest) (o.payload.length : ℤ).toNat
      else some ([], o.payload ++ rest)) = some (o.payload, rest) := by
    split_ifs with h0
    · exact recvExact_append (Int.toNat_natCast _).symm rest
    · have hnil : o.payload = [] := List.eq_nil_of_length_eq_zero (by omega)
      rw [hnil, List.nil_append]
  have hun := (packs_header o.header).unpack
  rw [headerValues, o.payloadLength] at hun
  have hver : (o.header.protocolVersion.toNat : ℤ) = protocolVersion := rfl
  simp only [recvMessage, hhead, hun, hver, hpay]
  rfl

/-- **The scripted peer and the C peer speak one wire format.** For the same values both build
the same frame and the same host location, and each side's decoder finds the values again in
what the other side has built. -/
theorem wire_formats_agree :
    (∀ o : Outgoing, builtFrame o = some (daimPeerEncodeHeader o.header ++ o.payload) ∧
      ∀ frame, builtFrame o = some frame → ∀ rest,
        daimPeerDecodeHeader (frame ++ rest) = .ok o.header ∧
        received daimPeerMaxPayloadSize (frame ++ rest) = some ((o.header, o.payload), rest) ∧
        recvMessage (daimPeerEncodeHeader o.header ++ o.payload ++ rest) =
          some (messageOf o, rest)) ∧
    (∀ loc : HostLocation, loc.isLocal = 0 ∨ loc.isLocal = 1 →
      builtLocation loc = some (daimPeerEncodeHostLocation loc) ∧
      (∀ payload, builtLocation loc = some payload →
        daimPeerDecodeHostLocation payload = some loc) ∧
      decodeHostLocation (daimPeerEncodeHostLocation loc) = some (dictOf loc)) ∧
    ∀ loc loc' : HostLocation, loc.isLocal = 0 ∨ loc.isLocal = 1 →
      loc'.isLocal = 0 ∨ loc'.isLocal = 1 → dictOf loc = dictOf loc' → loc = loc' := by
  refine ⟨fun o => ⟨builtFrame_eq o, fun frame hf rest => ?_⟩,
    fun loc h => ⟨builtLocation_eq h, fun payload hp => ?_, decode_location loc⟩,
    fun loc loc' h h' he => dictOf_inj h h' he⟩
  · rw [builtFrame_eq o, Option.some_inj] at hf
    subst hf
    refine ⟨?_, delimits.whole o rest, recv_message o rest⟩
    rw [Outgoing.bytes, List.append_assoc, decodeHeader_append_ok]
    exact ⟨rfl, rfl, o.payloadLength ▸ o.fits⟩
  · rw [builtLocation_eq h, Option.some_inj] at hp
    rw [← hp, decode_encode]

end DaimDistributed.ScriptedPeer
