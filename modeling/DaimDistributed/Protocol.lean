import DaimDistributed.HostState

/-!
The wire format of a host location, as `daim_peer_protocol.c` writes and reads it.

A buffer is the list of its bytes. The writers return the bytes they append; the readers
return the value and what is left behind the offset they have moved to.
-/

namespace DaimDistributed.Protocol

open HostState

def putU8 (v : UInt8) : List UInt8 := [v]

def putU32 (v : UInt32) : List UInt8 :=
  [(v >>> 24).toUInt8, (v >>> 16).toUInt8, (v >>> 8).toUInt8, v.toUInt8]

/-- The shifts of the loop run from 56 down to 0. -/
def putU64 (v : UInt64) : List UInt8 :=
  [56, 48, 40, 32, 24, 16, 8, 0].map fun shift : UInt64 => (v >>> shift).toUInt8

def getU8 (buf : List UInt8) : UInt8 × List UInt8 := (buf.getD 0 0, buf.drop 1)

def getU32 (buf : List UInt8) : UInt32 × List UInt8 :=
  (((buf.getD 0 0).toUInt32 <<< 24) ||| ((buf.getD 1 0).toUInt32 <<< 16) |||
    ((buf.getD 2 0).toUInt32 <<< 8) ||| (buf.getD 3 0).toUInt32, buf.drop 4)

def getU64 (buf : List UInt8) : UInt64 × List UInt8 :=
  ((List.range 8).foldl (fun v i => (v <<< 8) ||| (buf.getD i 0).toUInt64) 0, buf.drop 8)

/-- `memcpy` of an address. -/
def getMac (buf : List UInt8) : Mac × List UInt8 :=
  (Vector.ofFn fun i => buf.getD i 0, buf.drop 6)

def daimPeerHostLocationWireSize : ℕ := 59

def daimPeerEncodeHostLocation (loc : HostLocation) : List UInt8 :=
  loc.mac.toList ++ (putU64 loc.originNodeId ++ (putU64 loc.ownerDpid ++
    (putU32 loc.ownerPort ++ (putU64 loc.ownerEpoch ++ (putU64 loc.sequence ++
      (putU8 loc.isLocal ++ (putU64 loc.learnedAtNs ++ putU64 loc.appliedAtNs)))))))

/-- `none` where the source returns -1. -/
def daimPeerDecodeHostLocation (buf : List UInt8) : Option HostLocation :=
  if buf.length ≠ daimPeerHostLocationWireSize then none
  else
    let (mac, buf) := getMac buf
    let (originNodeId, buf) := getU64 buf
    let (ownerDpid, buf) := getU64 buf
    let (ownerPort, buf) := getU32 buf
    let (ownerEpoch, buf) := getU64 buf
    let (sequence, buf) := getU64 buf
    let (isLocal, buf) := getU8 buf
    let (learnedAtNs, buf) := getU64 buf
    let (appliedAtNs, _) := getU64 buf
    some ⟨mac, originNodeId, ownerDpid, ownerPort, ownerEpoch, sequence, isLocal, learnedAtNs,
      appliedAtNs⟩

/-! ### Each reader undoes its writer -/

lemma nat_shift_byte (n s : ℕ) :
    ((n >>> (s + 8)) <<< 8) ||| ((n >>> s) % 256) = n >>> s := by
  have h1 : (n >>> s) % 256 < 2 ^ 8 := Nat.mod_lt _ (by omega)
  rw [← Nat.shiftLeft_add_eq_or_of_lt h1, Nat.shiftRight_add, Nat.shiftLeft_eq,
    Nat.shiftRight_eq_div_pow (n >>> s)]
  omega

lemma nat_shift_lt {n s k : ℕ} (hn : n < 2 ^ k) : (n >>> (s + 8)) <<< 8 < 2 ^ k := by
  rw [Nat.shiftRight_add, Nat.shiftLeft_eq, Nat.shiftRight_eq_div_pow _ 8]
  have h1 : n >>> s ≤ n := Nat.shiftRight_eq_div_pow n s ▸ Nat.div_le_self _ _
  omega

/-- One round of the loop of `get_u64`, on the bytes of `v`. -/
lemma shift_byte64 (v s s' : UInt64) (hs : s.toNat < 56) (hs' : s'.toNat = s.toNat + 8) :
    ((v >>> s') <<< 8) ||| (v >>> s).toUInt8.toUInt64 = v >>> s := by
  rw [← UInt64.toNat_inj]
  simp only [UInt64.toNat_or, UInt64.toNat_shiftLeft, UInt64.toNat_shiftRight, hs',
    UInt64.toNat_toUInt8, UInt8.toNat_toUInt64]
  rw [Nat.mod_eq_of_lt (a := s.toNat + 8) (by omega), Nat.mod_eq_of_lt (a := s.toNat) (by omega),
    show (8 : UInt64).toNat % 64 = 8 from rfl, Nat.mod_eq_of_lt (nat_shift_lt v.toNat_lt),
    nat_shift_byte]

lemma shift_byte32 (v s s' : UInt32) (hs : s.toNat < 24) (hs' : s'.toNat = s.toNat + 8) :
    ((v >>> s') <<< 8) ||| (v >>> s).toUInt8.toUInt32 = v >>> s := by
  rw [← UInt32.toNat_inj]
  simp only [UInt32.toNat_or, UInt32.toNat_shiftLeft, UInt32.toNat_shiftRight, hs',
    UInt32.toNat_toUInt8, UInt8.toNat_toUInt32]
  rw [Nat.mod_eq_of_lt (a := s.toNat + 8) (by omega), Nat.mod_eq_of_lt (a := s.toNat) (by omega),
    show (8 : UInt32).toNat % 32 = 8 from rfl, Nat.mod_eq_of_lt (nat_shift_lt v.toNat_lt),
    nat_shift_byte]

@[simp] lemma getU8_putU8 (v : UInt8) (rest : List UInt8) :
    getU8 (putU8 v ++ rest) = (v, rest) := rfl

@[simp] lemma getU32_putU32 (v : UInt32) (rest : List UInt8) :
    getU32 (putU32 v ++ rest) = (v, rest) := by
  have h0 : (v >>> 24).toUInt8.toUInt32 = v >>> 24 := by
    rw [← UInt32.toNat_inj]
    have hv := v.toNat_lt
    simp
    omega
  have h3 := shift_byte32 v 16 24 (by decide) rfl
  have h2 := shift_byte32 v 8 16 (by decide) rfl
  have h1 := shift_byte32 v 0 8 (by decide) rfl
  rw [← h3, UInt32.shiftLeft_or, ← UInt32.shiftLeft_add_of_toNat_lt (by decide)] at h2
  rw [← h2, UInt32.shiftLeft_or, UInt32.shiftLeft_or,
    ← UInt32.shiftLeft_add_of_toNat_lt (by decide),
    ← UInt32.shiftLeft_add_of_toNat_lt (by decide), UInt32.shiftRight_zero] at h1
  have h4 : getU32 (putU32 v ++ rest) =
      (((v >>> 24).toUInt8.toUInt32 <<< 24) ||| ((v >>> 16).toUInt8.toUInt32 <<< 16) |||
        ((v >>> 8).toUInt8.toUInt32 <<< 8) ||| v.toUInt8.toUInt32, rest) := rfl
  rw [h4, h0]
  exact congrArg (·, rest) h1

@[simp] lemma getU64_putU64 (v : UInt64) (rest : List UInt8) :
    getU64 (putU64 v ++ rest) = (v, rest) := by
  have h0 : ((0 : UInt64) <<< 8) ||| (v >>> 56).toUInt8.toUInt64 = v >>> 56 := by
    rw [← UInt64.toNat_inj]
    have hv := v.toNat_lt
    simp
    omega
  simp only [getU64, putU64, List.range, List.range.loop, List.map_cons, List.map_nil,
    List.cons_append, List.foldl_cons, List.foldl_nil, List.getD_cons_zero,
    List.getD_cons_succ, List.drop_succ_cons, List.drop_zero, List.nil_append]
  rw [h0, shift_byte64 v 48 56 (by decide) rfl, shift_byte64 v 40 48 (by decide) rfl,
    shift_byte64 v 32 40 (by decide) rfl, shift_byte64 v 24 32 (by decide) rfl,
    shift_byte64 v 16 24 (by decide) rfl, shift_byte64 v 8 16 (by decide) rfl,
    shift_byte64 v 0 8 (by decide) rfl, UInt64.shiftRight_zero]

lemma getU64_putU64_last (v : UInt64) : getU64 (putU64 v) = (v, []) := by
  simpa using getU64_putU64 v []

@[simp] lemma getMac_toList (m : Mac) (rest : List UInt8) :
    getMac (m.toList ++ rest) = (m, rest) := by
  refine Prod.ext ?_ ?_
  · ext i hi
    have hl : i < m.toList.length := by simpa using hi
    simp [getMac, List.getD_eq_getElem?_getD, List.getElem?_append_left hl,
      Vector.getElem?_eq_getElem hi]
  · exact List.drop_left' (by simp)

lemma length_encode (loc : HostLocation) :
    (daimPeerEncodeHostLocation loc).length = daimPeerHostLocationWireSize := by
  simp [daimPeerEncodeHostLocation, putU64, putU32, putU8, daimPeerHostLocationWireSize]

/-- **Decoding what was encoded gives the record back.** -/
@[simp] theorem decode_encode (loc : HostLocation) :
    daimPeerDecodeHostLocation (daimPeerEncodeHostLocation loc) = some loc := by
  rw [daimPeerDecodeHostLocation, if_neg (not_not.mpr (length_encode loc))]
  simp [daimPeerEncodeHostLocation, getU64_putU64_last]

end DaimDistributed.Protocol
