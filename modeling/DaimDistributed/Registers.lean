import Mathlib.Order.Lattice
import Mathlib.Data.Set.Insert
import Mathlib.Tactic.Common

/-!
Last-writer-wins registers.

A register file maps keys to values that carry a version; a write takes effect when its
version is above the one that is held. What a register ends up holding is then the latest
of all the values it was offered, whatever the order and the number of the offers.
-/

namespace DaimDistributed.Registers

variable {K V W : Type*} [DecidableEq K] [LinearOrder W] (key : V → K) (ver : V → W)

/-- Offer `v` to its register. -/
def put (f : K → Option V) (v : V) : K → Option V := fun k =>
  if key v = k then
    match f k with
    | none => some v
    | some r => if ver r < ver v then some v else some r
  else f k

/-- `o` is the latest of the candidates `S`: none when there are none. -/
inductive IsLatest (S : Set V) : Option V → Prop
  | none (h : ∀ v, v ∉ S) : IsLatest S none
  | some {r : V} (hr : r ∈ S) (h : ∀ v ∈ S, ver v ≤ ver r) : IsLatest S (some r)

variable {key ver} {f : K → Option V} {S : Set V} {o o' : Option V} {k : K} {v : V}

variable (ver) in
omit [DecidableEq K] in
lemma isLatest_self (f : K → Option V) (k : K) :
    IsLatest ver {v | f k = some v} (f k) := by
  rcases hf : f k with _ | r
  · exact .none fun v hv => by simp at hv
  · exact .some rfl fun v hv => by simp at hv; simp [hv]

lemma put_of_ne (h : key v ≠ k) : put key ver f v k = f k := by simp [put, h]

/-- An offer adds one candidate. -/
lemma IsLatest.put (h : IsLatest ver S (f k)) (hk : key v = k) :
    IsLatest ver (insert v S) (put key ver f v k) := by
  rcases hf : f k with _ | r
  · rw [hf] at h
    obtain ⟨hS⟩ := h
    simp only [Registers.put, hk, hf, if_true]
    refine .some (Set.mem_insert _ _) fun u hu => ?_
    rcases Set.mem_insert_iff.mp hu with rfl | hu
    · exact le_rfl
    · exact absurd hu (hS u)
  · rw [hf] at h
    obtain - | ⟨hr, hS⟩ := h
    simp only [Registers.put, hk, hf, if_true]
    split_ifs with hlt
    · refine .some (Set.mem_insert _ _) fun u hu => ?_
      rcases Set.mem_insert_iff.mp hu with rfl | hu
      · exact le_rfl
      · exact (hS u hu).trans hlt.le
    · refine .some (Set.mem_insert_of_mem _ hr) fun u hu => ?_
      rcases Set.mem_insert_iff.mp hu with rfl | hu
      · exact not_lt.mp hlt
      · exact hS u hu

variable (key) in
/-- **Order and multiplicity do not matter**: after any list of offers a register holds the
latest of what it held and what it was offered. -/
theorem foldl_put_isLatest (vs : List V) (h : IsLatest ver S (f k)) :
    IsLatest ver (S ∪ {v | v ∈ vs ∧ key v = k}) (vs.foldl (put key ver) f k) := by
  induction vs generalizing f S with
  | nil => simpa using h
  | cons v vs ih =>
    rw [List.foldl_cons]
    by_cases hk : key v = k
    · have h1 := ih (h.put hk)
      convert h1 using 1
      ext u
      simp only [Set.mem_union, Set.mem_ofPred_eq, List.mem_cons, Set.mem_insert_iff]
      constructor
      · rintro (hu | ⟨rfl | hu, hu'⟩) <;> tauto
      · rintro ((rfl | hu) | ⟨hu, hu'⟩) <;> tauto
    · have h1 := ih (f := put key ver f v) (by rwa [put_of_ne hk])
      convert h1 using 1
      ext u
      simp only [Set.mem_union, Set.mem_ofPred_eq, List.mem_cons]
      constructor
      · rintro (hu | ⟨rfl | hu, hu'⟩) <;> tauto
      · rintro (hu | ⟨hu, hu'⟩) <;> tauto

/-- The latest candidate is unique when a version determines the value. -/
theorem IsLatest.unique (h : IsLatest ver S o) (h' : IsLatest ver S o')
    (hv : ∀ u ∈ S, ∀ v ∈ S, ver u = ver v → u = v) : o = o' := by
  cases h with
  | none hS => cases h' with
    | none _ => rfl
    | some hr _ => exact absurd hr (hS _)
  | some hr hS => cases h' with
    | none hS' => exact absurd hr (hS' _)
    | some hr' hS' => rw [hv _ hr _ hr' (le_antisymm (hS' _ hr) (hS _ hr'))]

end DaimDistributed.Registers
