import Mathlib.Data.Int.Order.Basic
import Mathlib.Data.UInt
import Mathlib.Tactic.Common

/-!
Some functions of the C library on strings.

A string is the list of its characters, of one byte each.
-/

namespace DaimDistributed.CText

/-- `isspace`. -/
def isSpace (c : Char) : Bool := c = ' ' ∨ (9 ≤ c.toNat ∧ c.toNat ≤ 13)

/-- Whether there is a minus sign, and what follows the sign. -/
def sign : List Char → Bool × List Char
  | '-' :: s => (true, s)
  | '+' :: s => (false, s)
  | s => (false, s)

/-- To the base ten; what is out of range is clamped. -/
def strtol (s : List Char) : ℤ :=
  let (neg, s) := sign (s.dropWhile isSpace)
  let n : ℤ := Nat.ofDigitChars 10 (s.takeWhile Char.isDigit) 0
  if neg then max (-2 ^ 63) (-n) else min (2 ^ 63 - 1) n

/-- The low 32 bits of what `strtol` returns. -/
def atoi (s : List Char) : ℤ := (strtol s).bmod (2 ^ 32)

/-- The tokens `strtok_r` finds one after the other. -/
def strtok (sep : Char) (s : List Char) : List (List Char) := (s.splitOn sep).filter (· ≠ [])

def hexValue (c : Char) : ℕ :=
  if c.isDigit then c.toNat - '0'.toNat
  else if 'a' ≤ c then c.toNat - 'a'.toNat + 10
  else c.toNat - 'A'.toNat + 10

/-- The digits may stand behind `0x`. -/
def skip0x : List Char → List Char
  | '0' :: 'x' :: s => s
  | '0' :: 'X' :: s => s
  | s => s

/-- `%x` with a width, in `sscanf`: the number, and what is left of the input. The sign and the
`0x` count for the width. -/
def scanHex (width : ℕ) (s : List Char) : Option (UInt32 × List Char) :=
  let s := s.dropWhile isSpace
  let field := s.take width
  let (neg, digits) := sign field
  let digits := skip0x digits
  let hex := digits.takeWhile Char.isHexDigit
  -- a bare `0x` is a matching failure in ISO C; there are libraries that read it as 0
  if hex = [] then none
  else
    let v : ℤ := hex.foldl (fun v c => 16 * v + hexValue c) 0
    some (UInt32.ofInt (if neg then -v else v),
      s.drop (field.length - digits.length + hex.length))

/-! ### Casts -/

lemma ofInt16_natCast (n : ℕ) : UInt16.ofInt (n : ℤ) = UInt16.ofNat n := by
  rw [← UInt16.toNat_inj, UInt16.ofInt, UInt16.toNat_ofNat', UInt16.toNat_ofNat']
  omega

lemma ofInt32_natCast (n : ℕ) : UInt32.ofInt (n : ℤ) = UInt32.ofNat n := by
  rw [← UInt32.toNat_inj, UInt32.ofInt, UInt32.toNat_ofNat', UInt32.toNat_ofNat']
  omega

/-! ### Decimal numbers -/

variable {c d : Char} {s ds rest : List Char}

lemma isDigit_iff : c.isDigit = true ↔ 48 ≤ c.toNat ∧ c.toNat ≤ 57 := by
  simp only [Char.isDigit, Bool.and_eq_true, decide_eq_true_eq, ge_iff_le, UInt32.le_iff_toNat_le]
  rfl

lemma isSpace_of_isDigit (h : c.isDigit = true) : isSpace c = false := by
  rw [isDigit_iff] at h
  have hne : c ≠ ' ' := by
    rintro rfl
    simp at h
  simp [isSpace, hne]
  omega

lemma sign_of_ne (hm : c ≠ '-') (hp : c ≠ '+') : sign (c :: s) = (false, c :: s) := by
  unfold sign
  split
  · simp_all
  · simp_all
  · rfl

/-- The text of a number that is not negative. -/
def Decimal (ds : List Char) (n : ℕ) : Prop :=
  ds ≠ [] ∧ (∀ c ∈ ds, c.isDigit = true) ∧ Nat.ofDigitChars 10 ds 0 = n

lemma decimal_toDigits (n : ℕ) : Decimal (Nat.toDigits 10 n) n :=
  ⟨Nat.toDigits_ne_nil, fun _ hc => Nat.isDigit_of_mem_toDigits (by decide) (by decide) hc,
    Nat.ofDigitChars_ten_toDigits⟩

/-- **`atoi` reads a number that an `int` can hold.** -/
theorem atoi_decimal {n : ℕ} (h : Decimal ds n) (hn : n < 2 ^ 31) : atoi ds = n := by
  obtain ⟨hne, hdig, hval⟩ := h
  obtain ⟨c, s, rfl⟩ := List.exists_cons_of_ne_nil hne
  have hc : c.isDigit = true := hdig c (by simp)
  have hc' := isDigit_iff.mp hc
  have hm : c ≠ '-' := by
    rintro rfl
    simp at hc'
  have hp : c ≠ '+' := by
    rintro rfl
    simp at hc'
  have hdrop : (c :: s).dropWhile isSpace = c :: s := by
    simp [isSpace_of_isDigit hc]
  have htake : (c :: s).takeWhile Char.isDigit = c :: s := by
    have h : (c :: s ++ []).takeWhile Char.isDigit = _ := List.takeWhile_append_of_pos hdig
    simpa using h
  have hmin : min ((2 : ℤ) ^ 63 - 1) (n : ℤ) = n := min_eq_right (by omega)
  have hmod : (n : ℤ).bmod (2 ^ 32) = n := Int.bmod_eq_of_le (by omega) (by omega)
  rw [atoi, strtol, hdrop, sign_of_ne hm hp]
  simp only [htake, hval, Bool.false_eq_true, if_false, hmin, hmod]

/-! ### Hexadecimal numbers -/

lemma isHexDigit_iff : c.isHexDigit = true ↔ (48 ≤ c.toNat ∧ c.toNat ≤ 57) ∨
    (97 ≤ c.toNat ∧ c.toNat ≤ 102) ∨ (65 ≤ c.toNat ∧ c.toNat ≤ 70) := by
  simp only [Char.isHexDigit, Bool.or_eq_true, Bool.and_eq_true, decide_eq_true_eq, isDigit_iff,
    ge_iff_le, UInt32.le_iff_toNat_le, or_assoc]
  rfl

lemma skip0x_of_ne (hx : d ≠ 'x') (hX : d ≠ 'X') : skip0x [c, d] = [c, d] := by
  unfold skip0x
  split <;> simp_all

/-- **`%2x` reads two digits that stand there.** -/
theorem scanHex_two (hc : c.isHexDigit = true) (hd : d.isHexDigit = true) :
    scanHex 2 (c :: d :: rest) =
      some (UInt32.ofNat (16 * hexValue c + hexValue d), rest) := by
  have hc' := isHexDigit_iff.mp hc
  have hd' := isHexDigit_iff.mp hd
  have hm : c ≠ '-' := by
    rintro rfl
    simp at hc'
  have hp : c ≠ '+' := by
    rintro rfl
    simp at hc'
  have hb : c ≠ ' ' := by
    rintro rfl
    simp at hc'
  have hx : d ≠ 'x' := by
    rintro rfl
    simp at hd'
  have hX : d ≠ 'X' := by
    rintro rfl
    simp at hd'
  have hspace : isSpace c = false := by
    simp [isSpace, hb]
    omega
  have hdrop : (c :: d :: rest).dropWhile isSpace = c :: d :: rest := by
    simp [hspace]
  have htake : (c :: d :: rest).take 2 = [c, d] := rfl
  have hhex : [c, d].takeWhile Char.isHexDigit = [c, d] := by
    simp [hc, hd]
  rw [scanHex, hdrop]
  simp only [htake, sign_of_ne hm hp, skip0x_of_ne hx hX, hhex]
  have hv : (16 * (16 * 0 + (hexValue c : ℤ)) + hexValue d : ℤ) =
      ((16 * hexValue c + hexValue d : ℕ) : ℤ) := by
    push_cast
    omega
  rw [if_neg (by simp), if_neg (by simp), List.foldl_cons, List.foldl_cons, List.foldl_nil, hv,
    ofInt32_natCast]
  rfl

end DaimDistributed.CText
