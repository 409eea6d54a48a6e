import Mathlib.Algebra.Order.Ring.Nat
import Mathlib.Data.List.Induction
import Mathlib.Tactic.Common

/-!
Numbers as bytes, the highest first.

`bytes n v` are the `n` lowest digits of `v` to the base 256 and `value bs` is the number
that the digits `bs` denote. Between the strings of length `n` and the numbers below
`256 ^ n` the two are inverse to each other.
-/

namespace DaimDistributed.BigEndian

def bytes : ℕ → ℕ → List UInt8
  | 0, _ => []
  | n + 1, v => bytes n (v / 256) ++ [UInt8.ofNat v]

def value (bs : List UInt8) : ℕ := bs.foldl (fun v b => 256 * v + b.toNat) 0

@[simp] lemma length_bytes (n v : ℕ) : (bytes n v).length = n := by
  induction n generalizing v with
  | zero => rfl
  | succ n ih => simp [bytes, ih]

@[simp] lemma value_nil : value [] = 0 := rfl

@[simp] lemma value_snoc (bs : List UInt8) (b : UInt8) :
    value (bs ++ [b]) = 256 * value bs + b.toNat := by
  simp [value, List.foldl_append]

lemma value_lt (bs : List UInt8) : value bs < 256 ^ bs.length := by
  induction bs using List.reverseRecOn with
  | nil => simp
  | append_singleton bs b ih =>
    have hb := b.toNat_lt
    rw [value_snoc, List.length_append, List.length_singleton, pow_succ]
    omega

lemma value_bytes_mod (n v : ℕ) : value (bytes n v) = v % 256 ^ n := by
  induction n generalizing v with
  | zero => simp [bytes, Nat.mod_one]
  | succ n ih =>
    have hpow : 256 ^ (n + 1) = 256 * 256 ^ n := pow_succ' 256 n
    rw [bytes, value_snoc, ih, UInt8.toNat_ofNat', hpow, Nat.mod_mul]
    omega

/-- **The digits of a number denote it**, if there are enough of them. -/
theorem value_bytes {n v : ℕ} (h : v < 256 ^ n) : value (bytes n v) = v := by
  rw [value_bytes_mod, Nat.mod_eq_of_lt h]

/-- **The number that digits denote has these digits.** -/
theorem bytes_value (bs : List UInt8) : bytes bs.length (value bs) = bs := by
  induction bs using List.reverseRecOn with
  | nil => rfl
  | append_singleton bs b ih =>
    have hb := b.toNat_lt
    have hdiv : (256 * value bs + b.toNat) / 256 = value bs := by omega
    have hmod : UInt8.ofNat (256 * value bs + b.toNat) = b := by
      rw [← UInt8.toNat_inj, UInt8.toNat_ofNat']
      omega
    rw [List.length_append, List.length_singleton, bytes, value_snoc, hdiv, hmod, ih]

lemma bytes_value_of_length {n : ℕ} {bs : List UInt8} (h : bs.length = n) :
    bytes n (value bs) = bs := h ▸ bytes_value bs

end DaimDistributed.BigEndian
