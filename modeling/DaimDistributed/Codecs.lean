import DaimDistributed.BigEndian
import DaimDistributed.Framing

/-!
The codecs of `daim_peer_protocol.c` as bijections.

Every writer of a number appends its bytes, the highest first, and every long enough
string starts with the bytes of some number. So each string of the length of a record is
the encoding of one, and the decoder finds that one.
-/

namespace DaimDistributed.Codecs

open HostState Protocol Transport Framing BigEndian

def daimPeerEncodeHello (ownerEpoch : UInt64) : List UInt8 := putU64 ownerEpoch

def daimPeerDecodeHello (buf : List UInt8) : Option UInt64 :=
  if buf.length ≠ 8 then none else some (getU64 buf).1

def daimPeerEncodeAck (ackedMessageId : UInt64) : List UInt8 := putU64 ackedMessageId

def daimPeerDecodeAck (buf : List UInt8) : Option UInt64 :=
  if buf.length ≠ 8 then none else some (getU64 buf).1

def daimPeerEncodeSnapshotBegin (entryCount : UInt32) : List UInt8 := putU32 entryCount

def daimPeerDecodeSnapshotBegin (buf : List UInt8) : Option UInt32 :=
  if buf.length ≠ 4 then none else some (getU32 buf).1

/-- The two are inverse to each other between the values and the strings of length `n`, and no
other string is accepted. -/
structure Exact {α : Type} (encode : α → List UInt8) (decode : List UInt8 → Option α)
    (n : ℕ) : Prop where
  decode_encode : ∀ a, decode (encode a) = some a
  encode_decode : ∀ buf a, decode buf = some a → encode a = buf
  accepts : ∀ buf, (decode buf).isSome ↔ buf.length = n

/-- A decoder that undoes the encoder is exact if the encodings are all the strings that it may
accept. -/
lemma Exact.of_surjective {α : Type} {encode : α → List UInt8} {decode : List UInt8 → Option α}
    {n : ℕ} (hdec : ∀ a, decode (encode a) = some a)
    (hne : ∀ buf, buf.length ≠ n → decode buf = none)
    (hsurj : ∀ buf, buf.length = n → ∃ a, encode a = buf) : Exact encode decode n where
  decode_encode := hdec
  encode_decode buf a h := by
    have hn : buf.length = n := by
      by_contra hn
      simp [hne buf hn] at h
    obtain ⟨b, rfl⟩ := hsurj buf hn
    rw [hdec b] at h
    cases h
    rfl
  accepts buf := by
    constructor
    · intro h
      by_contra hn
      simp [hne buf hn] at h
    · intro hn
      obtain ⟨b, rfl⟩ := hsurj buf hn
      rw [hdec b]
      rfl

/-! ### The writers are big-endian -/

lemma putU8_eq (v : UInt8) : putU8 v = bytes 1 v.toNat := by
  simp [putU8, bytes]

lemma putU32_eq (v : UInt32) : putU32 v = bytes 4 v.toNat := by
  simp only [putU32, bytes, List.nil_append, List.cons_append, List.cons.injEq,
    ← UInt8.toNat_inj, UInt8.toNat_ofNat', UInt32.toNat_toUInt8, UInt32.toNat_shiftRight]
  simp [Nat.shiftRight_eq_div_pow]
  omega

lemma putU64_eq (v : UInt64) : putU64 v = bytes 8 v.toNat := by
  simp only [putU64, bytes, List.nil_append, List.cons_append, List.map_cons, List.map_nil,
    List.cons.injEq, ← UInt8.toNat_inj, UInt8.toNat_ofNat', UInt64.toNat_toUInt8,
    UInt64.toNat_shiftRight]
  simp [Nat.shiftRight_eq_div_pow]
  omega

/-! ### Every string starts with a number -/

variable {buf : List UInt8}

lemma exists_putU8 (buf : List UInt8) (h : 1 ≤ buf.length) :
    ∃ v, ∃ rest, buf = putU8 v ++ rest ∧ buf.length = 1 + rest.length := by
  cases buf with
  | nil => simp at h
  | cons b rest => exact ⟨b, rest, rfl, by simp; omega⟩

lemma exists_putU32 (buf : List UInt8) (h : 4 ≤ buf.length) :
    ∃ v, ∃ rest, buf = putU32 v ++ rest ∧ buf.length = 4 + rest.length := by
  have hl : (buf.take 4).length = 4 := List.length_take_of_le h
  have hv : value (buf.take 4) < 2 ^ 32 := by
    have := value_lt (buf.take 4)
    rwa [hl] at this
  refine ⟨UInt32.ofNat (value (buf.take 4)), buf.drop 4, ?_, by simp; omega⟩
  rw [putU32_eq, UInt32.toNat_ofNat_of_lt' hv, bytes_value_of_length hl, List.take_append_drop]

lemma exists_putU64 (buf : List UInt8) (h : 8 ≤ buf.length) :
    ∃ v, ∃ rest, buf = putU64 v ++ rest ∧ buf.length = 8 + rest.length := by
  have hl : (buf.take 8).length = 8 := List.length_take_of_le h
  have hv : value (buf.take 8) < 2 ^ 64 := by
    have := value_lt (buf.take 8)
    rwa [hl] at this
  refine ⟨UInt64.ofNat (value (buf.take 8)), buf.drop 8, ?_, by simp; omega⟩
  rw [putU64_eq, UInt64.toNat_ofNat_of_lt' hv, bytes_value_of_length hl, List.take_append_drop]

lemma exists_mac (buf : List UInt8) (h : 6 ≤ buf.length) :
    ∃ m : Mac, ∃ rest, buf = m.toList ++ rest ∧ buf.length = 6 + rest.length := by
  have hl : (buf.take 6).length = 6 := List.length_take_of_le h
  refine ⟨⟨(buf.take 6).toArray, hl⟩, buf.drop 6, ?_, by simp; omega⟩
  exact (List.take_append_drop 6 buf).symm

lemma append_nil_of_length {n : ℕ} {bs rest : List UInt8} (h : buf = bs ++ rest)
    (hn : buf.length = n) (hl : buf.length = n + rest.length) : bs = buf := by
  have hr : rest = [] := List.eq_nil_of_length_eq_zero (by omega)
  simp [h, hr]

/-! ### The payloads -/

lemma exact_hello : Exact daimPeerEncodeHello daimPeerDecodeHello 8 := by
  refine .of_surjective (fun v => ?_) (fun buf h => if_pos h) fun buf h => ?_
  · rw [daimPeerDecodeHello, if_neg (by simp [daimPeerEncodeHello, putU64_eq]),
      daimPeerEncodeHello, getU64_putU64_last]
  · obtain ⟨v, rest, hb, hl⟩ := exists_putU64 buf h.ge
    exact ⟨v, append_nil_of_length hb h hl⟩

lemma exact_ack : Exact daimPeerEncodeAck daimPeerDecodeAck 8 := exact_hello

lemma exact_snapshotBegin : Exact daimPeerEncodeSnapshotBegin daimPeerDecodeSnapshotBegin 4 := by
  refine .of_surjective (fun v => ?_) (fun buf h => if_pos h) fun buf h => ?_
  · have hv : getU32 (putU32 v) = (v, []) := by simpa using getU32_putU32 v []
    rw [daimPeerDecodeSnapshotBegin, if_neg (by simp [daimPeerEncodeSnapshotBegin, putU32_eq]),
      daimPeerEncodeSnapshotBegin, hv]
  · obtain ⟨v, rest, hb, hl⟩ := exists_putU32 buf h.ge
    exact ⟨v, append_nil_of_length hb h hl⟩

/-- **Every string of the right length is the encoding of a host location.** -/
theorem exists_hostLocation (h : buf.length = daimPeerHostLocationWireSize) :
    ∃ loc, daimPeerEncodeHostLocation loc = buf := by
  rw [daimPeerHostLocationWireSize] at h
  obtain ⟨mac, r, rfl, h0⟩ := exists_mac buf (by omega)
  obtain ⟨originNodeId, r, rfl, h1⟩ := exists_putU64 r (by omega)
  obtain ⟨ownerDpid, r, rfl, h2⟩ := exists_putU64 r (by omega)
  obtain ⟨ownerPort, r, rfl, h3⟩ := exists_putU32 r (by omega)
  obtain ⟨ownerEpoch, r, rfl, h4⟩ := exists_putU64 r (by omega)
  obtain ⟨sequence, r, rfl, h5⟩ := exists_putU64 r (by omega)
  obtain ⟨isLocal, r, rfl, h6⟩ := exists_putU8 r (by omega)
  obtain ⟨learnedAtNs, r, rfl, h7⟩ := exists_putU64 r (by omega)
  obtain ⟨appliedAtNs, r, rfl, h8⟩ := exists_putU64 r (by omega)
  have hr : r = [] := List.eq_nil_of_length_eq_zero (by omega)
  refine ⟨⟨mac, originNodeId, ownerDpid, ownerPort, ownerEpoch, sequence, isLocal, learnedAtNs,
    appliedAtNs⟩, ?_⟩
  rw [daimPeerEncodeHostLocation, hr, List.append_nil]

lemma exact_hostLocation : Exact daimPeerEncodeHostLocation daimPeerDecodeHostLocation
    daimPeerHostLocationWireSize :=
  .of_surjective decode_encode (fun _ h => if_pos h) fun _ h => exists_hostLocation h

/-! ### The header -/

/-- Every long enough string starts with the encoding of a header. -/
theorem exists_header (h : daimPeerHeaderSize ≤ buf.length) :
    ∃ hdr rest, buf = daimPeerEncodeHeader hdr ++ rest := by
  rw [daimPeerHeaderSize] at h
  obtain ⟨protocolVersion, r, rfl, h0⟩ := exists_putU8 buf (by omega)
  obtain ⟨messageType, r, rfl, h1⟩ := exists_putU8 r (by omega)
  obtain ⟨originNodeId, r, rfl, h2⟩ := exists_putU64 r (by omega)
  obtain ⟨messageId, r, rfl, h3⟩ := exists_putU64 r (by omega)
  obtain ⟨payloadLength, r, rfl, h4⟩ := exists_putU32 r (by omega)
  obtain ⟨sendTimeNs, r, rfl, h5⟩ := exists_putU64 r (by omega)
  refine ⟨⟨protocolVersion, messageType, originNodeId, messageId, payloadLength, sendTimeNs⟩,
    r, ?_⟩
  simp only [daimPeerEncodeHeader, List.append_assoc]

/-- What stands behind a header is not read. -/
lemma getHeader_append (hdr : Header) (rest : List UInt8) :
    getHeader (daimPeerEncodeHeader hdr ++ rest) = hdr := by
  simp [getHeader, daimPeerEncodeHeader]

lemma decodeHeader_append (hdr : Header) (rest : List UInt8) :
    daimPeerDecodeHeader (daimPeerEncodeHeader hdr ++ rest) =
      if hdr.protocolVersion ≠ daimPeerProtocolVersion then .error .malformed
      else if daimPeerMaxPayloadSize < hdr.payloadLength.toNat then .error .oversized
      else .ok hdr := by
  have hlen := length_encodeHeader hdr
  rw [daimPeerDecodeHeader, if_neg (by rw [List.length_append]; omega), getHeader_append]

lemma decodeHeader_append_ok {hdr hdr' : Header} {rest : List UInt8} :
    daimPeerDecodeHeader (daimPeerEncodeHeader hdr ++ rest) = .ok hdr' ↔
      hdr' = hdr ∧ hdr.protocolVersion = daimPeerProtocolVersion ∧
        hdr.payloadLength.toNat ≤ daimPeerMaxPayloadSize := by
  rw [decodeHeader_append]
  split_ifs with h1 h2
  · simp [h1]
  · simp [h2]
  · simp only [Except.ok.injEq, not_not.mp h1, not_lt.mp h2, and_self, and_true]
    exact eq_comm

/-- The version is the first byte, and the payload length the four behind the two ids. -/
lemma header_fields (hdr : Header) (rest : List UInt8) :
    (daimPeerEncodeHeader hdr ++ rest).getD 0 0 = hdr.protocolVersion ∧
      value (((daimPeerEncodeHeader hdr ++ rest).drop 18).take 4) = hdr.payloadLength.toNat := by
  refine ⟨rfl, ?_⟩
  have h : ((daimPeerEncodeHeader hdr ++ rest).drop 18).take 4 = putU32 hdr.payloadLength := rfl
  rw [h, putU32_eq, value_bytes hdr.payloadLength.toNat_lt]

/-- **The codecs are exact bijections.** A payload decoder undoes its encoder, accepts the
strings of its length and no others, and each of them is the encoding of what it finds there.
The header decoder does so on the first 30 bytes, if they hold the version of the protocol and
a payload length that is not too large. -/
theorem codecs_exact :
    Exact daimPeerEncodeHostLocation daimPeerDecodeHostLocation 59 ∧
    Exact daimPeerEncodeHello daimPeerDecodeHello 8 ∧
    Exact daimPeerEncodeAck daimPeerDecodeAck 8 ∧
    Exact daimPeerEncodeSnapshotBegin daimPeerDecodeSnapshotBegin 4 ∧
    (∀ hdr : Header, hdr.protocolVersion = 1 → hdr.payloadLength.toNat ≤ 4096 →
      daimPeerDecodeHeader (daimPeerEncodeHeader hdr) = .ok hdr) ∧
    (∀ buf hdr, daimPeerDecodeHeader buf = .ok hdr → daimPeerEncodeHeader hdr = buf.take 30) ∧
    ∀ buf, (∃ hdr, daimPeerDecodeHeader buf = .ok hdr) ↔
      30 ≤ buf.length ∧ buf.getD 0 0 = 1 ∧ value ((buf.drop 18).take 4) ≤ 4096 := by
  refine ⟨exact_hostLocation, exact_hello, exact_ack, exact_snapshotBegin,
    fun hdr hv hl => decodeHeader_encodeHeader hv hl, fun buf hdr h => ?_, fun buf => ?_⟩
  · have hlen : daimPeerHeaderSize ≤ buf.length := by
      by_contra hlen
      rw [daimPeerDecodeHeader, if_pos (by omega)] at h
      cases h
    obtain ⟨hdr', rest, rfl⟩ := exists_header hlen
    obtain ⟨rfl, -⟩ := decodeHeader_append_ok.mp h
    exact (List.take_left' (length_encodeHeader hdr)).symm
  · rcases Nat.lt_or_ge buf.length daimPeerHeaderSize with hlen | hlen
    · have hno : ¬ 30 ≤ buf.length := not_le.mpr hlen
      simp [daimPeerDecodeHeader, hlen, hno]
    · obtain ⟨hdr, rest, rfl⟩ := exists_header hlen
      obtain ⟨hver, hpl⟩ := header_fields hdr rest
      rw [hver, hpl]
      simp only [decodeHeader_append_ok, exists_eq_left]
      exact ⟨fun h => ⟨hlen, h⟩, fun h => h.2⟩

end DaimDistributed.Codecs
