import DaimDistributed.BigEndian
import DaimDistributed.Buffers

/-!
The payload of an `ERROR` message, as `daim_peer_protocol.c` writes and reads it.

Three lengths meet here: that of the buffer, that of the text in the payload, and that of the
buffer the text is copied to. So both functions work on objects in memory, and an access
outside of one is a fault.
-/

namespace DaimDistributed.ErrorCodec

open BigEndian Buffers

def daimPeerMaxErrorText : ℕ := 128

/-- The offset moves along with the writes, and with the reads below. -/
def putU16 (buf : List UInt8) (off : ℕ) (v : UInt16) : Option (List UInt8 × ℕ) :=
  (store buf off (v >>> 8).toUInt8).bind fun buf =>
    (store buf (off + 1) (v &&& 0xff).toUInt8).map fun buf => (buf, off + 2)

def getU16 (buf : List UInt8) (off : ℕ) : Option (UInt16 × ℕ) :=
  (load buf off).bind fun hi =>
    (load buf (off + 1)).map fun lo => ((hi.toUInt16 <<< 8) ||| lo.toUInt16, off + 2)

/-- The result and the buffer. -/
def daimPeerEncodeError (buf : List UInt8) (bufCap : ℕ) (code : UInt16)
    (message : Option (List UInt8)) : Option (ℕ × List UInt8) :=
  (message.elim (some 0) strlen).bind fun textLen =>
    if daimPeerMaxErrorText < textLen then some (0, buf)
    else if bufCap < 4 + textLen then some (0, buf)
    else
      (putU16 buf 0 code).bind fun (buf, off) =>
        (putU16 buf off textLen.toUInt16).bind fun (buf, off) =>
          if textLen ≠ 0 then
            (memcpy buf off (message.getD []) 0 textLen).map fun buf => (off + textLen, buf)
          else some (off, buf)

/-- What `daim_peer_decode_error` leaves: its result, `*code` and the output buffer. -/
structure Decoded where
  ret : ℤ
  code : UInt16
  messageOut : List UInt8
  deriving DecidableEq

def daimPeerDecodeError (buf : List UInt8) (len : ℕ) (code : UInt16) (messageOut : List UInt8)
    (messageOutCap : ℕ) : Option Decoded :=
  if len < 4 ∨ messageOutCap = 0 then some ⟨-1, code, messageOut⟩
  else
    (getU16 buf 0).bind fun (code, off) =>
      (getU16 buf off).bind fun (textLen, off) =>
        if len < 4 + textLen.toNat then some ⟨-1, code, messageOut⟩
        else
          let copyLen :=
            if textLen.toNat < messageOutCap - 1 then textLen.toNat else messageOutCap - 1
          (memcpy messageOut 0 buf off copyLen).bind fun messageOut =>
            (store messageOut copyLen 0).map fun messageOut => ⟨0, code, messageOut⟩

/-! ### Numbers of two bytes -/

lemma bytes_two (v : UInt16) :
    bytes 2 v.toNat = [(v >>> 8).toUInt8, (v &&& 0xff).toUInt8] := by
  have hhi : UInt8.ofNat (v.toNat / 256) = (v >>> 8).toUInt8 := by
    rw [← UInt8.toNat_inj, UInt8.toNat_ofNat', UInt16.toNat_toUInt8, UInt16.toNat_shiftRight,
      Nat.shiftRight_eq_div_pow]
    rfl
  have hlo : UInt8.ofNat v.toNat = (v &&& 0xff).toUInt8 := by
    rw [← UInt8.toNat_inj, UInt8.toNat_ofNat', UInt16.toNat_toUInt8, UInt16.toNat_and,
      show (0xff : UInt16).toNat = 2 ^ 8 - 1 from rfl, Nat.and_two_pow_sub_one_eq_mod]
    omega
  simp only [bytes, hhi, hlo, List.nil_append, List.cons_append]

lemma putU16_filled {m p : List UInt8} (v : UInt16) (h : p.length + 2 ≤ m.length) :
    putU16 (filled m p) p.length v = some (filled m (p ++ bytes 2 v.toNat), p.length + 2) := by
  have hlen : (p ++ [(v >>> 8).toUInt8]).length = p.length + 1 := List.length_append
  rw [putU16, store_filled _ (by omega), Option.bind_some, ← hlen, store_filled _ (by omega),
    bytes_two, List.append_assoc]
  rfl

lemma getU16_eq (buf : List UInt8) (off : ℕ) (h : off + 2 ≤ buf.length) :
    ∃ v, getU16 buf off = some (v, off + 2) ∧ v.toNat = value ((buf.drop off).take 2) := by
  have h0 : off < buf.length := by omega
  have h1 : off + 1 < buf.length := by omega
  refine ⟨(buf[off].toUInt16 <<< 8) ||| buf[off + 1].toUInt16, ?_, ?_⟩
  · rw [getU16, load_eq h0, Option.bind_some, load_eq h1]
    rfl
  · have hhi := buf[off].toNat_lt
    have hlo : buf[off + 1].toNat < 2 ^ 8 := buf[off + 1].toNat_lt
    rw [List.drop_eq_getElem_cons h0, List.drop_eq_getElem_cons h1, UInt16.toNat_or,
      UInt16.toNat_shiftLeft, UInt8.toNat_toUInt16, UInt8.toNat_toUInt16,
      show (8 : UInt16).toNat % 16 = 8 from rfl, Nat.shiftLeft_eq, Nat.mod_eq_of_lt (by omega),
      ← Nat.shiftLeft_eq, ← Nat.shiftLeft_add_eq_or_of_lt hlo, Nat.shiftLeft_eq]
    simp only [List.take_succ_cons, List.take_zero, value, List.foldl_cons, List.foldl_nil]
    omega

/-! ### Encoding -/

/-- What stands in the payload. -/
def errorBytes (code : UInt16) (text : List UInt8) : List UInt8 :=
  bytes 2 code.toNat ++ (bytes 2 text.length ++ text)

@[simp] lemma length_errorBytes (code : UInt16) (text : List UInt8) :
    (errorBytes code text).length = 4 + text.length := by
  simp only [errorBytes, List.length_append, length_bytes]
  omega

variable {buf out : List UInt8}

/-- The text is too long, or the buffer too small. -/
def Refused (buf text : List UInt8) : Prop :=
  daimPeerMaxErrorText < text.length ∨ buf.length < 4 + text.length

lemma encodeError_refused (code : UInt16) {s : CString} (h : Refused buf s.text) :
    daimPeerEncodeError buf buf.length code (some s.object) = some (0, buf) := by
  rw [daimPeerEncodeError, Option.elim_some, strlen_object, Option.bind_some]
  by_cases h1 : daimPeerMaxErrorText < s.text.length
  · rw [if_pos h1]
  · rw [if_neg h1, if_pos (h.resolve_left h1)]

/-- **What is not refused is written whole.** -/
theorem encodeError_of_fits (code : UInt16) {s : CString} (h : ¬Refused buf s.text) :
    daimPeerEncodeError buf buf.length code (some s.object) =
      some (4 + s.text.length, filled buf (errorBytes code s.text)) := by
  obtain ⟨h1, h2⟩ := not_or.mp h
  have hmax : ¬128 < s.text.length := h1
  have hlen : s.text.length.toUInt16.toNat = s.text.length := Nat.mod_eq_of_lt (by omega)
  have hcode : (bytes 2 code.toNat).length = 2 := length_bytes _ _
  have hboth : (bytes 2 code.toNat ++ bytes 2 s.text.length).length = 4 := by
    rw [List.length_append, hcode, length_bytes]
  have hput := putU16_filled (m := buf) (p := []) code (by rw [List.length_nil]; omega)
  have hput' := putU16_filled (m := buf) (p := bytes 2 code.toNat) s.text.length.toUInt16
    (by omega)
  rw [hlen, hcode] at hput'
  rw [daimPeerEncodeError, Option.elim_some, strlen_object, Option.bind_some, if_neg h1, if_neg h2,
    show putU16 buf 0 code = _ from hput, Option.bind_some]
  dsimp only [List.nil_append, List.length_nil, Nat.zero_add]
  rw [hput', Option.bind_some]
  dsimp only
  split_ifs with h3
  · have hcopy := memcpy_filled (m := buf) (p := bytes 2 code.toNat ++ bytes 2 s.text.length)
      (s := s.object) (j := 0) (n := s.text.length) (by omega)
      (by rw [CString.object, List.length_append]; omega)
    rw [hboth] at hcopy
    rw [Option.getD_some, hcopy, List.drop_zero, CString.object, List.take_left' rfl,
      List.append_assoc]
    rfl
  · have hnil : s.text = [] := List.length_eq_zero_iff.mp (not_not.mp h3)
    rw [errorBytes, hnil, List.append_nil]
    rfl

/-! ### Decoding -/

/-- The length the payload declares for its text. -/
def declared (buf : List UInt8) : ℕ := value ((buf.drop 2).take 2)

/-- As much of the text as the output buffer has room for. -/
def copied (buf out : List UInt8) : List UInt8 :=
  (buf.drop 4).take (min (declared buf) (out.length - 1))

/-- **Decoding stays inside both buffers**, and cuts the text to the output buffer. -/
theorem decodeError_eq (buf : List UInt8) (code : UInt16) (h4 : 4 ≤ buf.length)
    (hout : out.length ≠ 0) :
    ∃ code', code'.toNat = value (buf.take 2) ∧
      daimPeerDecodeError buf buf.length code out out.length =
        some (if buf.length < 4 + declared buf then ⟨-1, code', out⟩
          else ⟨0, code', filled out (copied buf out ++ [0])⟩) := by
  obtain ⟨c, hc, hcv⟩ := getU16_eq buf 0 (by omega)
  obtain ⟨n, hn, hnv⟩ := getU16_eq buf (0 + 2) (by omega)
  have hnd : n.toNat = declared buf := hnv
  refine ⟨c, hcv, ?_⟩
  rw [daimPeerDecodeError, if_neg (by omega), hc, Option.bind_some]
  dsimp only
  rw [hn, Option.bind_some]
  dsimp only
  rw [hnd]
  by_cases h1 : buf.length < 4 + declared buf
  · rw [if_pos h1, if_pos h1]
  · have hcut : (copied buf out).length = min (declared buf) (out.length - 1) := by
      rw [copied, List.length_take, List.length_drop]
      omega
    have hcopy := memcpy_filled (m := out) (p := []) (s := buf) (j := 4)
      (n := min (declared buf) (out.length - 1)) (by rw [List.length_nil]; omega) (by omega)
    rw [List.nil_append, ← copied] at hcopy
    have hstore := store_filled (m := out) (p := copied buf out) 0 (by omega)
    rw [hcut] at hstore
    have hmin : (if declared buf < out.length - 1 then declared buf else out.length - 1) =
        min (declared buf) (out.length - 1) := by
      split_ifs <;> omega
    rw [if_neg h1, if_neg h1, hmin,
      show memcpy out 0 buf (0 + 2 + 2) (min (declared buf) (out.length - 1)) = _ from hcopy,
      Option.bind_some, hstore]
    rfl

/-- A payload decoded: its code, and the text cut to the room there is. -/
lemma decodeError_errorBytes (code code' : UInt16) {text : List UInt8}
    (ht : text.length ≤ daimPeerMaxErrorText) (hout : out.length ≠ 0) :
    daimPeerDecodeError (errorBytes code text) (4 + text.length) code' out out.length =
      some ⟨0, code, filled out (text.take (min text.length (out.length - 1)) ++ [0])⟩ := by
  have hmax : text.length ≤ 128 := ht
  have hlen := length_errorBytes code text
  obtain ⟨c, hc, hd⟩ := decodeError_eq (errorBytes code text) code' (by omega) hout
  have hcode : (errorBytes code text).take 2 = bytes 2 code.toNat :=
    List.take_left' (length_bytes _ _)
  have hrest : (errorBytes code text).drop 2 = bytes 2 text.length ++ text :=
    List.drop_left' (length_bytes _ _)
  have hdecl : declared (errorBytes code text) = text.length := by
    rw [declared, hrest, List.take_left' (length_bytes _ _), value_bytes (by omega)]
  have htext : (errorBytes code text).drop 4 = text := by
    rw [show 4 = 2 + 2 from rfl, ← List.drop_drop, hrest, List.drop_left' (length_bytes _ _)]
  obtain rfl : c = code := by
    rw [hcode, value_bytes code.toNat_lt] at hc
    exact UInt16.toNat_inj.mp hc
  rw [hlen] at hd
  rw [hd, hdecl, if_neg (Nat.lt_irrefl _), copied, hdecl, htext]

/-- **The codec is faithful, and safe for every input.** No access is outside of a buffer. A text
of more than 128 bytes, or one the buffer has no room for, is refused and nothing is written;
every other one is written whole, and decoded with any output buffer of at least one byte it
comes back, cut to the room there is. Decoding fails exactly on fewer than four bytes, on a text
that does not fit in the payload, and on an output buffer without a byte. -/
theorem error_codec :
    (∀ (buf : List UInt8) (code : UInt16) (s : CString), ∃ n buf',
      daimPeerEncodeError buf buf.length code (some s.object) = some (n, buf') ∧
      (n = 0 ∧ buf' = buf ↔ 128 < s.text.length ∨ buf.length < 4 + s.text.length) ∧
      (¬(128 < s.text.length ∨ buf.length < 4 + s.text.length) →
        n = 4 + s.text.length ∧ buf'.length = buf.length ∧ buf'.drop n = buf.drop n ∧
        ∀ (code' : UInt16) (out : List UInt8), 0 < out.length →
          daimPeerDecodeError (buf'.take n) n code' out out.length =
            some ⟨0, code,
              filled out (s.text.take (min s.text.length (out.length - 1)) ++ [0])⟩)) ∧
    ∀ (buf : List UInt8) (code : UInt16) (out : List UInt8), ∃ r,
      daimPeerDecodeError buf buf.length code out out.length = some r ∧
      r.messageOut.length = out.length ∧ (r.ret = 0 ∨ r.ret = -1) ∧
      (r.ret = -1 ↔ buf.length < 4 ∨ buf.length < 4 + declared buf ∨ out.length = 0) := by
  refine ⟨fun buf code s => ?_, fun buf code out => ?_⟩
  · by_cases h : Refused buf s.text
    · have hr : 128 < s.text.length ∨ buf.length < 4 + s.text.length := h
      exact ⟨0, buf, encodeError_refused code h, by simp [hr], fun h' => absurd h h'⟩
    · obtain ⟨h1, h2⟩ := not_or.mp h
      have hlen := length_errorBytes code s.text
      refine ⟨_, _, encodeError_of_fits code h, ⟨fun h' => by omega, fun h' => absurd h' h⟩,
        fun _ => ⟨rfl, length_filled (by omega), ?_, fun code' out hout => ?_⟩⟩
      · rw [filled, ← hlen, List.drop_left' rfl]
      · have htake := take_filled buf (errorBytes code s.text)
        rw [hlen] at htake
        rw [htake, decodeError_errorBytes code code' (Nat.le_of_not_lt h1) (by omega)]
  · by_cases h4 : buf.length < 4 ∨ out.length = 0
    · exact ⟨⟨-1, code, out⟩, if_pos h4, rfl, .inr rfl, by tauto⟩
    · obtain ⟨h1, h2⟩ := not_or.mp h4
      obtain ⟨c, -, hd⟩ := decodeError_eq buf code (by omega) h2
      refine ⟨_, hd, ?_⟩
      split_ifs with h3
      · exact ⟨rfl, .inr rfl, by tauto⟩
      · refine ⟨length_filled ?_, .inl rfl, by simp [h1, h2, h3]⟩
        rw [copied, List.length_append, List.length_take, List.length_singleton]
        omega

end DaimDistributed.ErrorCodec
