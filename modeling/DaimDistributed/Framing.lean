import DaimDistributed.Delimited
import DaimDistributed.Transport

/-!
The byte stream of a connection: the frames `send_framed` of `daim_peer_transport.c` builds
and what `recv_framed` makes of a stream.

A stream is the list of the bytes still to be read; `recv` with `MSG_WAITALL` takes the
requested number of them, or what is left.
-/

namespace DaimDistributed.Framing

open Protocol Transport Delimited

def daimPeerProtocolVersion : UInt8 := 1

def daimPeerMaxPayloadSize : ℕ := 4096

/-- `struct daim_peer_header`. -/
structure Header where
  protocolVersion : UInt8
  messageType : UInt8
  originNodeId : UInt64
  messageId : UInt64
  payloadLength : UInt32
  sendTimeNs : UInt64
  deriving DecidableEq

def daimPeerEncodeHeader (hdr : Header) : List UInt8 :=
  putU8 hdr.protocolVersion ++ (putU8 hdr.messageType ++ (putU64 hdr.originNodeId ++
    (putU64 hdr.messageId ++ (putU32 hdr.payloadLength ++ putU64 hdr.sendTimeNs))))

/-- The fields of a header, read in their order. -/
def getHeader (buf : List UInt8) : Header :=
  let (protocolVersion, buf) := getU8 buf
  let (messageType, buf) := getU8 buf
  let (originNodeId, buf) := getU64 buf
  let (messageId, buf) := getU64 buf
  let (payloadLength, buf) := getU32 buf
  let (sendTimeNs, _) := getU64 buf
  ⟨protocolVersion, messageType, originNodeId, messageId, payloadLength, sendTimeNs⟩

/-- The return values -1 and -2 of `daim_peer_decode_header`. -/
inductive HeaderError
  | malformed | oversized
  deriving DecidableEq

/-- The header is not used after a failure, so it is not returned then. -/
def daimPeerDecodeHeader (buf : List UInt8) : Except HeaderError Header :=
  if buf.length < daimPeerHeaderSize then .error .malformed
  else if (getHeader buf).protocolVersion ≠ daimPeerProtocolVersion then .error .malformed
  else if daimPeerMaxPayloadSize < (getHeader buf).payloadLength.toNat then .error .oversized
  else .ok (getHeader buf)

/-! ### Writing frames -/

/-- What `send_framed` puts into one frame. -/
structure Outgoing where
  messageType : UInt8
  originNodeId : UInt64
  messageId : UInt64
  sendTimeNs : UInt64
  payload : List UInt8
  fits : payload.length ≤ daimPeerMaxPayloadSize
  deriving DecidableEq

def Outgoing.header (o : Outgoing) : Header where
  protocolVersion := daimPeerProtocolVersion
  messageType := o.messageType
  originNodeId := o.originNodeId
  messageId := o.messageId
  payloadLength := o.payload.length.toUInt32
  sendTimeNs := o.sendTimeNs

/-- The bytes `send_framed` hands to `send_all`. -/
def Outgoing.bytes (o : Outgoing) : List UInt8 := daimPeerEncodeHeader o.header ++ o.payload

/-! ### Reading frames -/

/-- The `errno` a failing `recv_framed` sets. -/
inductive Errno
  | connReset | proto | msgSize
  deriving DecidableEq

/-- What one `recv_framed` leaves: its result with the header, the bytes stored in the payload
buffer, and the stream behind what it has taken. -/
structure Received where
  ret : Except Errno Header
  stored : List UInt8
  rest : List UInt8

/-- The stream ended after `n` of the requested bytes. -/
def shortRead (n : ℕ) : Errno := if n = 0 then .connReset else .proto

/-- `recv_framed` behind the header. -/
def recvPayload (hdr : Header) (s : List UInt8) (payloadBufCap : ℕ) : Received :=
  if payloadBufCap < hdr.payloadLength.toNat then ⟨.error .msgSize, [], s⟩
  else if 0 < hdr.payloadLength.toNat then
    let payload := s.take hdr.payloadLength.toNat
    if payload.length ≠ hdr.payloadLength.toNat then
      ⟨.error (shortRead payload.length), payload, []⟩
    else ⟨.ok hdr, payload, s.drop hdr.payloadLength.toNat⟩
  else ⟨.ok hdr, [], s⟩

def recvFramed (s : List UInt8) (payloadBufCap : ℕ) : Received :=
  let headerBuf := s.take daimPeerHeaderSize
  if headerBuf.length ≠ daimPeerHeaderSize then ⟨.error (shortRead headerBuf.length), [], []⟩
  else
    match daimPeerDecodeHeader headerBuf with
    | .error _ => ⟨.error .proto, [], s.drop daimPeerHeaderSize⟩
    | .ok hdr => recvPayload hdr (s.drop daimPeerHeaderSize) payloadBufCap

/-- A frame and the stream behind it; `none` where `recv_framed` returns -1. -/
def received (payloadBufCap : ℕ) (s : List UInt8) :
    Option ((Header × List UInt8) × List UInt8) :=
  match (recvFramed s payloadBufCap).ret with
  | .ok hdr => some ((hdr, (recvFramed s payloadBufCap).stored), (recvFramed s payloadBufCap).rest)
  | .error _ => none

/-! ### The header -/

lemma length_encodeHeader (hdr : Header) :
    (daimPeerEncodeHeader hdr).length = daimPeerHeaderSize := by
  simp [daimPeerEncodeHeader, putU64, putU32, putU8, daimPeerHeaderSize]

lemma getHeader_encodeHeader (hdr : Header) : getHeader (daimPeerEncodeHeader hdr) = hdr := by
  simp [getHeader, daimPeerEncodeHeader, getU64_putU64_last]

/-- **Decoding what was encoded gives the header back**, if it is one that may be sent. -/
theorem decodeHeader_encodeHeader {hdr : Header}
    (hv : hdr.protocolVersion = daimPeerProtocolVersion)
    (hl : hdr.payloadLength.toNat ≤ daimPeerMaxPayloadSize) :
    daimPeerDecodeHeader (daimPeerEncodeHeader hdr) = .ok hdr := by
  have hlen := length_encodeHeader hdr
  rw [daimPeerDecodeHeader, if_neg (by omega), getHeader_encodeHeader, if_neg (not_not.mpr hv),
    if_neg (not_lt.mpr hl)]

/-- A header that is accepted has the version of the protocol and a bounded length. -/
lemma decodeHeader_ok {buf : List UInt8} {hdr : Header} (h : daimPeerDecodeHeader buf = .ok hdr) :
    hdr = getHeader buf ∧ hdr.protocolVersion = daimPeerProtocolVersion ∧
      hdr.payloadLength.toNat ≤ daimPeerMaxPayloadSize := by
  unfold daimPeerDecodeHeader at h
  split_ifs at h with h1 h2 h3
  cases h
  exact ⟨rfl, not_not.mp h2, not_lt.mp h3⟩

/-! ### One call of `recv_framed` -/

variable {s : List UInt8} {cap : ℕ}

lemma recvFramed_short (h : s.length < daimPeerHeaderSize) :
    recvFramed s cap = ⟨.error (shortRead s.length), [], []⟩ := by
  have ht : s.take daimPeerHeaderSize = s := List.take_of_length_le h.le
  simp [recvFramed, ht, h.ne]

lemma recvFramed_header (h : daimPeerHeaderSize ≤ s.length) :
    recvFramed s cap =
      match daimPeerDecodeHeader (s.take daimPeerHeaderSize) with
      | .error _ => ⟨.error .proto, [], s.drop daimPeerHeaderSize⟩
      | .ok hdr => recvPayload hdr (s.drop daimPeerHeaderSize) cap := by
  simp [recvFramed, h]

lemma recvPayload_stored_le (hdr : Header) : (recvPayload hdr s cap).stored.length ≤ cap := by
  unfold recvPayload
  dsimp only
  split_ifs with h1
  · exact Nat.zero_le _
  · have := List.length_take_le hdr.payloadLength.toNat s
    dsimp only
    omega
  · have := List.length_take_le hdr.payloadLength.toNat s
    dsimp only
    omega
  · exact Nat.zero_le _

/-- **No call stores more than the buffer holds.** -/
theorem recvFramed_stored_le (s : List UInt8) (cap : ℕ) :
    (recvFramed s cap).stored.length ≤ cap := by
  rcases Nat.lt_or_ge s.length daimPeerHeaderSize with h | h
  · rw [recvFramed_short h]
    exact Nat.zero_le _
  · rw [recvFramed_header h]
    split
    · exact Nat.zero_le _
    · exact recvPayload_stored_le _

/-- The payload is there, or the call fails. -/
lemma recvPayload_ok {hdr : Header} (hc : hdr.payloadLength.toNat ≤ cap)
    (hl : hdr.payloadLength.toNat ≤ s.length) :
    recvPayload hdr s cap =
      ⟨.ok hdr, s.take hdr.payloadLength.toNat, s.drop hdr.payloadLength.toNat⟩ := by
  rw [recvPayload, if_neg (not_lt.mpr hc)]
  dsimp only
  split_ifs with h0 h1
  · simp [hl] at h1
  · rfl
  · have hz : hdr.payloadLength.toNat = 0 := by omega
    rw [hz, List.take_zero, List.drop_zero]

lemma recvPayload_cut {hdr : Header} (hl : s.length < hdr.payloadLength.toNat) :
    ∃ e, (recvPayload hdr s cap).ret = .error e := by
  unfold recvPayload
  dsimp only
  split_ifs with h1 h2 h3
  · exact ⟨_, rfl⟩
  · exact ⟨_, rfl⟩
  · simp at h3
    omega
  · omega

/-- What a successful call has read. -/
lemma received_some {f : Header × List UInt8} {r : List UInt8} (h : received cap s = some (f, r)) :
    f.1.protocolVersion = daimPeerProtocolVersion ∧
      f.1.payloadLength.toNat ≤ daimPeerMaxPayloadSize ∧
      f.2.length = f.1.payloadLength.toNat ∧ r.length < s.length := by
  rcases Nat.lt_or_ge s.length daimPeerHeaderSize with hs | hs
  · simp [received, recvFramed_short hs] at h
  rw [received, recvFramed_header hs] at h
  rcases hd : daimPeerDecodeHeader (s.take daimPeerHeaderSize) with e | hdr
  · simp [hd] at h
  obtain ⟨-, hv, hl⟩ := decodeHeader_ok hd
  simp only [hd] at h
  rcases Nat.lt_or_ge (s.drop daimPeerHeaderSize).length hdr.payloadLength.toNat with hp | hp
  · obtain ⟨e, he⟩ : ∃ e, (recvPayload hdr (s.drop daimPeerHeaderSize) cap).ret = .error e :=
      recvPayload_cut hp
    simp [he] at h
  rcases Nat.lt_or_ge cap hdr.payloadLength.toNat with hc | hc
  · simp [recvPayload, hc] at h
  rw [recvPayload_ok hc hp] at h
  cases h
  refine ⟨hv, hl, List.length_take_of_le hp, ?_⟩
  simp only [List.length_drop, daimPeerHeaderSize] at hs ⊢
  omega

/-- **A header with another version, or with too long a payload, is refused.** -/
theorem received_bad_header (h : daimPeerHeaderSize ≤ s.length)
    (hb : (getHeader (s.take daimPeerHeaderSize)).protocolVersion ≠ daimPeerProtocolVersion ∨
      daimPeerMaxPayloadSize < (getHeader (s.take daimPeerHeaderSize)).payloadLength.toNat) :
    received cap s = none := by
  rw [received, recvFramed_header h]
  rcases hd : daimPeerDecodeHeader (s.take daimPeerHeaderSize) with e | hdr
  · rfl
  · obtain ⟨rfl, hv, hl⟩ := decodeHeader_ok hd
    rcases hb with hb | hb
    · exact absurd hv hb
    · omega

/-! ### The stream -/

/-- What the receiver is to get of a frame. -/
def Outgoing.frame (o : Outgoing) : Header × List UInt8 := (o.header, o.payload)

lemma Outgoing.payloadLength (o : Outgoing) :
    o.header.payloadLength.toNat = o.payload.length := by
  have h := o.fits
  simp only [daimPeerMaxPayloadSize] at h
  simp [Outgoing.header]
  omega

lemma Outgoing.decodeHeader (o : Outgoing) :
    daimPeerDecodeHeader (daimPeerEncodeHeader o.header) = .ok o.header :=
  decodeHeader_encodeHeader rfl (by rw [o.payloadLength]; exact o.fits)

/-- **Frames delimit themselves.** -/
theorem delimits : Delimits (received daimPeerMaxPayloadSize) Outgoing.bytes Outgoing.frame where
  empty := rfl
  whole o rest := by
    have hlen := length_encodeHeader o.header
    have htake : (o.bytes ++ rest).take daimPeerHeaderSize = daimPeerEncodeHeader o.header := by
      rw [Outgoing.bytes, List.append_assoc, ← hlen, List.take_left]
    have hdrop : (o.bytes ++ rest).drop daimPeerHeaderSize = o.payload ++ rest := by
      rw [Outgoing.bytes, List.append_assoc, ← hlen, List.drop_left]
    have hs : daimPeerHeaderSize ≤ (o.bytes ++ rest).length := by
      simp only [Outgoing.bytes, List.length_append]
      omega
    have hp : recvPayload o.header (o.payload ++ rest) daimPeerMaxPayloadSize =
        ⟨.ok o.header, (o.payload ++ rest).take o.header.payloadLength.toNat,
          (o.payload ++ rest).drop o.header.payloadLength.toNat⟩ :=
      recvPayload_ok (by rw [o.payloadLength]; exact o.fits) (by rw [o.payloadLength]; simp)
    rw [o.payloadLength, List.take_left, List.drop_left] at hp
    rw [received, recvFramed_header hs, htake, hdrop, o.decodeHeader]
    simp only [hp]
    rfl
  cut o k hk := by
    have hlen := length_encodeHeader o.header
    have hk' : k < daimPeerHeaderSize + o.payload.length := by
      simpa [Outgoing.bytes, hlen] using hk
    have hkl : (o.bytes.take k).length = k := List.length_take_of_le hk.le
    rcases Nat.lt_or_ge k daimPeerHeaderSize with h | h
    · rw [received, recvFramed_short (by omega)]
    · have htake : (o.bytes.take k).take daimPeerHeaderSize = daimPeerEncodeHeader o.header := by
        rw [List.take_take, min_eq_left h, Outgoing.bytes, ← hlen, List.take_left]
      have hrest : ((o.bytes.take k).drop daimPeerHeaderSize).length <
          o.header.payloadLength.toNat := by
        rw [List.length_drop, hkl, o.payloadLength]
        omega
      obtain ⟨e, he⟩ : ∃ e, (recvPayload o.header ((o.bytes.take k).drop daimPeerHeaderSize)
          daimPeerMaxPayloadSize).ret = .error e := recvPayload_cut hrest
      rw [received, recvFramed_header (by omega), htake, o.decodeHeader]
      simp only [he]

/-- **The stream of frames round trips.** Reading what was written gives back the headers and
the payloads; of a stream that is cut, the frames that end before the cut; and of any bytes
only frames with a good header, up to the first header that is not. -/
theorem frames_round_trip (os : List Outgoing) :
    (∀ fs r, Reads (received daimPeerMaxPayloadSize) (os.flatMap Outgoing.bytes) fs r ↔
      fs = os.map Outgoing.frame ∧ r = []) ∧
    (∀ k, ∃ j r, EndBefore Outgoing.bytes os k j ∧
      ∀ fs r', Reads (received daimPeerMaxPayloadSize) ((os.flatMap Outgoing.bytes).take k) fs r' ↔
        fs = (os.take j).map Outgoing.frame ∧ r' = r) ∧
    ∀ s, (∀ cap, (recvFramed s cap).stored.length ≤ cap) ∧
      (∃ fs r, Reads (received daimPeerMaxPayloadSize) s fs r ∧
        ∀ f ∈ fs, f.1.protocolVersion = daimPeerProtocolVersion ∧
          f.2.length = f.1.payloadLength.toNat ∧ f.2.length ≤ daimPeerMaxPayloadSize) ∧
      (daimPeerHeaderSize ≤ s.length →
        (getHeader (s.take daimPeerHeaderSize)).protocolVersion ≠ daimPeerProtocolVersion ∨
          daimPeerMaxPayloadSize <
            (getHeader (s.take daimPeerHeaderSize)).payloadLength.toNat →
        (∀ cap, received cap s = none) ∧ ∀ fs r,
          Reads (received daimPeerMaxPayloadSize) (os.flatMap Outgoing.bytes ++ s) fs r ↔
            fs = os.map Outgoing.frame ∧ r = s) := by
  refine ⟨fun fs r => (delimits.reads_flatMap os).iff, fun k => ?_, fun s => ⟨?_, ?_, ?_⟩⟩
  · obtain ⟨j, r, hj, hr⟩ := delimits.reads_take os k
    exact ⟨j, r, hj, fun fs r' => hr.iff⟩
  · exact recvFramed_stored_le s
  · obtain ⟨fs, r, hr⟩ := reads_total (fun _ _ _ h => (received_some h).2.2.2) s
    refine ⟨fs, r, hr, hr.forall fun s f r h => ?_⟩
    obtain ⟨hv, hl, hlen, -⟩ := received_some h
    exact ⟨hv, hlen, hlen ▸ hl⟩
  · intro h hb
    exact ⟨fun cap => received_bad_header h hb,
      fun fs r => (delimits.reads_append os (received_bad_header h hb)).iff⟩

end DaimDistributed.Framing
