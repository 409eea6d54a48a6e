import Mathlib.Tactic.Common

/-!
Streams of self-delimiting items.

A reader takes one item off the front of a stream or fails. Where every item starts with
its own length, the concatenation of items is read back as the list of items, and a cut
leaves the items that end before it.
-/

namespace DaimDistributed.Delimited

variable {α β ι : Type*}

/-- Reading `s` gives the items `bs` and then fails, with `r` left. -/
inductive Reads (read : List α → Option (β × List α)) : List α → List β → List α → Prop
  | fail {s : List α} (h : read s = none) : Reads read s [] s
  | item {s r r' : List α} {b : β} {bs : List β} (h : read s = some (b, r))
      (hr : Reads read r bs r') : Reads read s (b :: bs) r'

variable {read : List α → Option (β × List α)}

/-- A stream is read in one way only. -/
lemma Reads.unique {s r r' : List α} {bs bs' : List β} (h : Reads read s bs r)
    (h' : Reads read s bs' r') : bs = bs' ∧ r = r' := by
  induction h generalizing bs' r' with
  | fail h =>
    cases h' with
    | fail => exact ⟨rfl, rfl⟩
    | item h1 => simp [h] at h1
  | item h _ ih =>
    cases h' with
    | fail h1 => simp [h] at h1
    | item h1 hr1 =>
      rw [h] at h1
      cases h1
      obtain ⟨rfl, rfl⟩ := ih hr1
      exact ⟨rfl, rfl⟩

lemma Reads.iff {s r r' : List α} {bs bs' : List β} (h : Reads read s bs r) :
    Reads read s bs' r' ↔ bs' = bs ∧ r' = r := by
  refine ⟨fun h' => h'.unique h, ?_⟩
  rintro ⟨rfl, rfl⟩
  exact h

/-- A reader that takes something off fails in the end. -/
lemma reads_total (hdec : ∀ s b r, read s = some (b, r) → r.length < s.length) (s : List α) :
    ∃ bs r, Reads read s bs r := by
  induction hn : s.length using Nat.strongRecOn generalizing s with
  | ind n ih =>
    rcases h : read s with _ | ⟨b, r⟩
    · exact ⟨[], s, .fail h⟩
    · have hlt : r.length < n := hn ▸ hdec s b r h
      obtain ⟨bs, r', hr⟩ := ih r.length hlt r rfl
      exact ⟨b :: bs, r', .item h hr⟩

/-- What holds of every item the reader gives holds of all that is read. -/
lemma Reads.forall {P : β → Prop} (hP : ∀ s b r, read s = some (b, r) → P b) {s r : List α}
    {bs : List β} (h : Reads read s bs r) : ∀ b ∈ bs, P b := by
  induction h with
  | fail => simp
  | item h _ ih => simpa using ⟨hP _ _ _ h, ih⟩

/-- The items `item i` are written as `enc i`: a whole one is read whatever follows it, and
no proper part of one is read. -/
structure Delimits (read : List α → Option (β × List α)) (enc : ι → List α)
    (item : ι → β) : Prop where
  empty : read [] = none
  whole : ∀ i rest, read (enc i ++ rest) = some (item i, rest)
  cut : ∀ i k, k < (enc i).length → read ((enc i).take k) = none

variable {enc : ι → List α} {item : ι → β}

/-- **A concatenation of items is read back**, up to what is not an item. -/
theorem Delimits.reads_append (h : Delimits read enc item) (is : List ι) {s : List α}
    (hs : read s = none) : Reads read (is.flatMap enc ++ s) (is.map item) s := by
  induction is with
  | nil => exact .fail hs
  | cons i is ih =>
    rw [List.flatMap_cons, List.map_cons, List.append_assoc]
    exact .item (h.whole i _) ih

theorem Delimits.reads_flatMap (h : Delimits read enc item) (is : List ι) :
    Reads read (is.flatMap enc) (is.map item) [] := by
  simpa using h.reads_append is h.empty

/-- The first `j` items are those that end before position `k`. -/
structure EndBefore (enc : ι → List α) (is : List ι) (k j : ℕ) : Prop where
  le : ((is.take j).flatMap enc).length ≤ k
  lt : j < is.length → k < ((is.take (j + 1)).flatMap enc).length

lemma EndBefore.cons {i : ι} {is : List ι} {k j : ℕ} (hk : (enc i).length ≤ k)
    (h : EndBefore enc is (k - (enc i).length) j) : EndBefore enc (i :: is) k (j + 1) where
  le := by
    have := h.le
    simp only [List.take_succ_cons, List.flatMap_cons, List.length_append]
    omega
  lt hj := by
    have := h.lt (by simpa using hj)
    simp only [List.take_succ_cons, List.flatMap_cons, List.length_append] at this ⊢
    omega

/-- **A cut leaves exactly the items that end before it.** -/
theorem Delimits.reads_take (h : Delimits read enc item) (is : List ι) (k : ℕ) :
    ∃ j r, EndBefore enc is k j ∧
      Reads read ((is.flatMap enc).take k) ((is.take j).map item) r := by
  induction is generalizing k with
  | nil => exact ⟨0, [], ⟨by simp, by simp⟩, by simpa using Reads.fail h.empty⟩
  | cons i is ih =>
    rw [List.flatMap_cons]
    rcases Nat.lt_or_ge k (enc i).length with hk | hk
    · refine ⟨0, (enc i).take k, ⟨by simp, by simp; omega⟩, ?_⟩
      rw [List.take_append_of_le_length (Nat.le_of_lt hk)]
      exact .fail (h.cut i k hk)
    · obtain ⟨j, r, hj, hr⟩ := ih (k - (enc i).length)
      refine ⟨j + 1, r, hj.cons hk, ?_⟩
      rw [List.take_append, List.take_of_length_le hk, List.take_succ_cons, List.map_cons]
      exact .item (h.whole i _) hr

/-- A part that ends before the last item does. -/
theorem Delimits.reads_take_lt (h : Delimits read enc item) (is : List ι) (i : ι) {k : ℕ}
    (hk : k < ((is ++ [i]).flatMap enc).length) :
    ∃ j r, Reads read (((is ++ [i]).flatMap enc).take k) ((is.take j).map item) r := by
  obtain ⟨j, r, hj, hr⟩ := h.reads_take (is ++ [i]) k
  have hle : j ≤ is.length := by
    by_contra hgt
    have hall : (is ++ [i]).take j = is ++ [i] := List.take_of_length_le (by simp; omega)
    have := hj.le
    rw [hall] at this
    omega
  exact ⟨j, r, by rwa [List.take_append_of_le_length hle] at hr⟩

/-! ### Reading a whole stream -/

/-- So many items at most, up to the end of the stream. -/
def readUpTo (read : List α → Option (β × List α)) : ℕ → List α → Option (List β)
  | _, [] => some []
  | 0, _ :: _ => none
  | n + 1, a :: s =>
    match read (a :: s) with
    | none => none
    | some (b, r) => (readUpTo read n r).map (b :: ·)

/-- All items of a stream, if nothing else is in it. -/
def readAll (read : List α → Option (β × List α)) (s : List α) : Option (List β) :=
  readUpTo read s.length s

/-- So many items at most, up to what is not an item. -/
def readMost (read : List α → Option (β × List α)) : ℕ → List α → List β
  | 0, _ => []
  | n + 1, s =>
    match read s with
    | none => []
    | some (b, r) => b :: readMost read n r

lemma Reads.readMost {s r : List α} {bs : List β} (h : Reads read s bs r) {n : ℕ}
    (hn : bs.length ≤ n) : readMost read n s = bs := by
  induction h generalizing n with
  | fail h => cases n <;> simp [Delimited.readMost, h]
  | item h _ ih =>
    obtain ⟨n, rfl⟩ := Nat.exists_eq_add_one_of_ne_zero (Nat.ne_of_gt (Nat.lt_of_lt_of_le
      (Nat.succ_pos _) hn))
    rw [Delimited.readMost, h]
    dsimp only
    rw [ih (Nat.le_of_succ_le_succ hn)]

lemma Reads.length_le (hdec : ∀ s b r, read s = some (b, r) → r.length < s.length)
    {s r : List α} {bs : List β} (h : Reads read s bs r) : bs.length ≤ s.length := by
  induction h with
  | fail => exact Nat.zero_le _
  | item h _ ih =>
    have := hdec _ _ _ h
    rw [List.length_cons]
    omega

lemma readUpTo_flatMap (hwhole : ∀ i rest, read (enc i ++ rest) = some (item i, rest))
    (hne : ∀ i, enc i ≠ []) (is : List ι) {n : ℕ} (hn : is.length ≤ n) :
    readUpTo read n (is.flatMap enc) = some (is.map item) := by
  induction is generalizing n with
  | nil => cases n <;> rfl
  | cons i is ih =>
    obtain ⟨n, rfl⟩ := Nat.exists_eq_add_one_of_ne_zero (Nat.ne_of_gt (Nat.lt_of_lt_of_le
      (Nat.succ_pos _) hn))
    obtain ⟨a, s, hs⟩ := List.exists_cons_of_ne_nil (hne i)
    have hread := hwhole i (is.flatMap enc)
    rw [List.flatMap_cons]
    rw [hs, List.cons_append] at hread ⊢
    rw [readUpTo, hread]
    dsimp only
    rw [ih (Nat.le_of_succ_le_succ hn)]
    rfl

/-- **Items that are not empty are read back one after the other.** -/
theorem readAll_flatMap (hwhole : ∀ i rest, read (enc i ++ rest) = some (item i, rest))
    (hne : ∀ i, enc i ≠ []) (is : List ι) : readAll read (is.flatMap enc) = some (is.map item) := by
  refine readUpTo_flatMap hwhole hne is ?_
  induction is with
  | nil => exact Nat.zero_le _
  | cons i is ih =>
    have := List.length_pos_iff.mpr (hne i)
    rw [List.flatMap_cons, List.length_append, List.length_cons]
    omega

lemma readAll_single {s : List α} {b : β} (h : read s = some (b, [])) (hne : s ≠ []) :
    readAll read s = some [b] := by
  obtain ⟨a, s, rfl⟩ := List.exists_cons_of_ne_nil hne
  rw [readAll, List.length_cons, readUpTo, h]
  cases s <;> rfl

end DaimDistributed.Delimited
