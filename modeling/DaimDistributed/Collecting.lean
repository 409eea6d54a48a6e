import Mathlib.Data.Finset.Card
import Mathlib.Tactic.Common

/-!
Collecting a set of things from a list of items.

An item brings one thing or nothing. As many items as there are things to collect bring all of
them exactly if no two bring the same and none brings anything else.
-/

namespace DaimDistributed.Collecting

variable {ι α : Type*}

/-- Every item brings something wanted, and no two bring the same. -/
def Distinct (brings : ι → Option α) (wanted : Finset α) (xs : List ι) : Prop :=
  (xs.map brings).Nodup ∧ ∀ x ∈ xs, ∃ a ∈ wanted, brings x = some a

/-- All that is wanted is brought. -/
def Covers (brings : ι → Option α) (wanted : Finset α) (xs : List ι) : Prop :=
  ∀ a ∈ wanted, ∃ x ∈ xs, brings x = some a

variable {brings : ι → Option α} {wanted : Finset α} {xs ys : List ι}

lemma Covers.mono (h : Covers brings wanted xs) (hs : xs ⊆ ys) : Covers brings wanted ys := by
  intro a ha
  obtain ⟨x, hx, hb⟩ := h a ha
  exact ⟨x, hs hx, hb⟩

section
variable [DecidableEq α]

lemma covers_iff : Covers brings wanted xs ↔
    wanted.map .some ⊆ (xs.map brings).toFinset := by
  simp only [Covers, Finset.subset_iff, Finset.forall_mem_map, List.mem_toFinset, List.mem_map,
    Function.Embedding.some_apply]

lemma distinct_iff : Distinct brings wanted xs ↔
    (xs.map brings).Nodup ∧ (xs.map brings).toFinset ⊆ wanted.map .some := by
  simp only [Distinct, Finset.subset_iff, List.mem_toFinset, List.forall_mem_map, Finset.mem_map,
    Function.Embedding.some_apply, eq_comm (b := brings _)]

/-- **As many items as there are things to collect bring all of them exactly if each brings one
and no two the same.** -/
theorem covers_iff_distinct (h : xs.length = wanted.card) :
    Covers brings wanted xs ↔ Distinct brings wanted xs := by
  have hlen : (xs.map brings).length = (wanted.map .some).card := by
    rw [List.length_map, Finset.card_map, h]
  rw [covers_iff, distinct_iff]
  constructor
  · intro hsub
    have hle : (xs.map brings).toFinset.card ≤ (wanted.map .some).card :=
      hlen ▸ List.toFinset_card_le _
    have heq := Finset.eq_of_subset_of_card_le hsub hle
    have hcard : (xs.map brings).toFinset.card = (xs.map brings).length := by rw [← heq, hlen]
    exact ⟨Multiset.coe_nodup.1 (Multiset.toFinset_card_eq_card_iff_nodup.1 hcard), heq.ge⟩
  · rintro ⟨hnodup, hsub⟩
    refine (Finset.eq_of_subset_of_card_le hsub ?_).ge
    rw [List.toFinset_card_of_nodup hnodup, hlen]

end

/-! ### The first items of a kind -/

/-- A list has a front with just the first `m` items of a kind, if it has so many. -/
lemma exists_prefix_filter (p : ι → Bool) (xs : List ι) {m : ℕ}
    (hm : m ≤ (xs.filter p).length) : ∃ ys, ys <+: xs ∧ ys.filter p = (xs.filter p).take m := by
  induction xs using List.reverseRecOn with
  | nil => exact ⟨[], List.nil_prefix, by rw [List.filter_nil, List.take_nil]⟩
  | append_singleton xs x ih =>
    rcases Nat.lt_or_ge (xs.filter p).length m with hlt | hge
    · have hle : ((xs ++ [x]).filter p).length ≤ m := by
        rw [List.filter_append, List.length_append]
        have hone : ([x].filter p).length ≤ 1 := List.length_filter_le p [x]
        omega
      exact ⟨xs ++ [x], List.prefix_refl _, (List.take_of_length_le hle).symm⟩
    · obtain ⟨ys, hys, heq⟩ := ih hge
      refine ⟨ys, hys.trans (List.prefix_append _ _), ?_⟩
      rw [heq, List.filter_append, List.take_append_of_le_length hge]

/-- The first `m` items of a kind stay the same when the list goes on. -/
lemma take_filter_front (p : ι → Bool) (h : xs <+: ys) {m : ℕ}
    (hm : m ≤ (xs.filter p).length) : (ys.filter p).take m = (xs.filter p).take m := by
  obtain ⟨zs, rfl⟩ := h
  rw [List.filter_append, List.take_append_of_le_length hm]

end DaimDistributed.Collecting
