import Mathlib.Data.UInt
import Mathlib.Tactic.Common

/-!
Objects in memory, with every access checked.

An object is the list of its cells, and an access outside of it is a fault. What is written
from the front on is a prefix laid over the object.
-/

namespace DaimDistributed.Buffers

variable {α : Type*}

/-- `none` is a fault, here and below. -/
def load (m : List α) (i : ℕ) : Option α := m[i]?

def store (m : List α) (i : ℕ) (a : α) : Option (List α) :=
  if i < m.length then some (m.set i a) else none

/-- `n` cells are copied, from index `j` of `src` to index `i` of `dst`. -/
def memcpy (dst : List α) (i : ℕ) (src : List α) (j : ℕ) : ℕ → Option (List α)
  | 0 => some dst
  | n + 1 =>
    (load src j).bind fun a => (store dst i a).bind fun dst => memcpy dst (i + 1) src (j + 1) n

/-- The object `m` with `p` written over its front. -/
def filled (m p : List α) : List α := p ++ m.drop p.length

variable {m p s : List α} {i j n : ℕ}

lemma load_eq (h : i < m.length) : load m i = some m[i] := List.getElem?_eq_getElem h

lemma length_filled (h : p.length ≤ m.length) : (filled m p).length = m.length := by
  rw [filled, List.length_append, List.length_drop]
  omega

@[simp] lemma take_filled (m p : List α) : (filled m p).take p.length = p :=
  List.take_left' rfl

/-- The next cell behind the prefix. -/
lemma store_filled (a : α) (h : p.length < m.length) :
    store (filled m p) p.length a = some (filled m (p ++ [a])) := by
  rw [store, if_pos (by rwa [length_filled (Nat.le_of_lt h)]), filled, filled,
    List.drop_eq_getElem_cons h, List.set_append_right _ _ (Nat.le_refl _), Nat.sub_self,
    List.set_cons_zero, List.length_append, List.length_singleton, List.append_assoc]
  rfl

/-- **Cells copied behind the prefix lengthen it**, where both objects have room. -/
theorem memcpy_filled (h : p.length + n ≤ m.length) (hs : j + n ≤ s.length) :
    memcpy (filled m p) p.length s j n = some (filled m (p ++ (s.drop j).take n)) := by
  induction n generalizing p j with
  | zero => rw [memcpy, List.take_zero, List.append_nil]
  | succ n ih =>
    have hj : j < s.length := by omega
    have hlen : (p ++ [s[j]]).length = p.length + 1 := List.length_append
    have hnext := ih (p := p ++ [s[j]]) (j := j + 1) (by omega) (by omega)
    rw [memcpy, load_eq hj, Option.bind_some, store_filled _ (by omega), Option.bind_some,
      ← hlen, hnext, List.append_assoc, List.drop_eq_getElem_cons hj, List.take_succ_cons]
    rfl

/-! ### Strings -/

/-- A string: bytes without a `NUL`, which stands behind them in memory. -/
structure CString where
  text : List UInt8
  noNul : 0 ∉ text

def CString.object (s : CString) : List UInt8 := s.text ++ [0]

/-- An object without a `NUL` is read beyond its end. -/
def strlen : List UInt8 → Option ℕ
  | [] => none
  | b :: m => if b = 0 then some 0 else (strlen m).map (· + 1)

lemma strlen_append {t : List UInt8} (h : 0 ∉ t) (m : List UInt8) :
    strlen (t ++ 0 :: m) = some t.length := by
  induction t with
  | nil => rfl
  | cons b t ih =>
    rw [List.mem_cons, not_or] at h
    rw [List.cons_append, strlen, if_neg (Ne.symm h.1), ih h.2]
    rfl

@[simp] lemma strlen_object (s : CString) : strlen s.object = some s.text.length :=
  strlen_append s.noNul []

end DaimDistributed.Buffers
