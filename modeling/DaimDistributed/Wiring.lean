import Mathlib.Data.List.Basic
import Mathlib.Tactic.Common

/-!
Networks given by a list of links, with ports numbered in the order the links are added.

Every device counts the links it is an end of: a link takes the next free port at both of
its ends. The two ends of a link are then each other's peers.
-/

namespace DaimDistributed.Wiring

variable {α : Type*} [DecidableEq α]

/-- The port a device gives to link `j`: the number of its earlier links, on top of the
device's first port. -/
def portOf (base : α → ℕ) (ls : List (α × α)) (d : α) (j : ℕ) : ℕ :=
  base d + (ls.take j).countP fun l => l.1 = d ∨ l.2 = d

/-- The far end of link `j`, if it is on port `p` of `d`. -/
def farEnd (base : α → ℕ) (ls : List (α × α)) (d : α) (p j : ℕ) : Option (α × ℕ) :=
  match ls[j]? with
  | none => none
  | some (x, y) =>
    if x = d ∧ portOf base ls d j = p then some (y, portOf base ls y j)
    else if y = d ∧ portOf base ls d j = p then some (x, portOf base ls x j)
    else none

/-- The device and port at the other end of a port. -/
def peer (base : α → ℕ) (ls : List (α × α)) (d : α) (p : ℕ) : Option (α × ℕ) :=
  (List.range ls.length).findSome? (farEnd base ls d p)

variable (base : α → ℕ) {ls : List (α × α)} {d x y : α} {j k p : ℕ}

/-- A device's later links have larger ports. -/
lemma portOf_lt (hjk : j < k) (hj : ls[j]? = some (x, y)) (hd : x = d ∨ y = d) :
    portOf base ls d j < portOf base ls d k := by
  have hlt : j < ls.length := (List.getElem?_eq_some_iff.mp hj).1
  have hsplit : ls.take (j + 1) = ls.take j ++ [(x, y)] := by
    rw [List.take_add_one, hj]
    rfl
  have hle : ((ls.take (j + 1)).countP fun l => l.1 = d ∨ l.2 = d) ≤
      (ls.take k).countP fun l => l.1 = d ∨ l.2 = d :=
    (List.take_sublist_take_left hjk).countP_le
  rw [hsplit, List.countP_append] at hle
  simp only [List.countP_singleton, hd, decide_true, if_true] at hle
  unfold portOf
  omega

/-- Two links of a device are on different ports. -/
lemma farEnd_other {p : ℕ} (hj : ls[j]? = some (x, y)) (hd : x = d ∨ y = d)
    (hp : portOf base ls d j = p) (hk : k ≠ j) : farEnd base ls d p k = none := by
  unfold farEnd
  rcases hl : ls[k]? with _ | ⟨u, v⟩
  · rfl
  · have hne : u = d ∨ v = d → portOf base ls d k ≠ p := by
      intro hd'
      rcases Nat.lt_or_gt_of_ne hk with h | h
      · have := portOf_lt base h hl hd'
        omega
      · have := portOf_lt base h hj hd
        omega
    dsimp only
    rw [if_neg fun h => hne (.inl h.1) h.2, if_neg fun h => hne (.inr h.1) h.2]

lemma findSome?_of_unique {β γ : Type*} {f : β → Option γ} {l : List β} {b : β} (hb : b ∈ l)
    (ho : ∀ c ∈ l, c ≠ b → f c = none) : l.findSome? f = f b := by
  induction l with
  | nil => simp at hb
  | cons a l ih =>
    rw [List.findSome?_cons]
    by_cases ha : a = b
    · subst ha
      rcases hf : f a with _ | v
      · dsimp only
        rw [List.findSome?_eq_none_iff]
        intro c hc
        by_cases hca : c = a
        · rw [hca, hf]
        · exact ho c (by simp [hc]) hca
      · rfl
    · rw [ho a (by simp) ha]
      have hb' : b ∈ l := (List.mem_cons.mp hb).resolve_left (Ne.symm ha)
      exact ih hb' fun c hc => ho c (by simp [hc])

/-- **The ends of a link are each other's peers.** -/
theorem peer_fst (hj : ls[j]? = some (x, y)) :
    peer base ls x (portOf base ls x j) = some (y, portOf base ls y j) := by
  have hmem : j ∈ List.range ls.length := List.mem_range.mpr (List.getElem?_eq_some_iff.mp hj).1
  have hother : ∀ k ∈ List.range ls.length, k ≠ j →
      farEnd base ls x (portOf base ls x j) k = none :=
    fun _ _ hk => farEnd_other base hj (.inl rfl) rfl hk
  rw [peer, findSome?_of_unique hmem hother, farEnd, hj]
  simp

theorem peer_snd (hj : ls[j]? = some (x, y)) (hxy : x ≠ y) :
    peer base ls y (portOf base ls y j) = some (x, portOf base ls x j) := by
  have hmem : j ∈ List.range ls.length := List.mem_range.mpr (List.getElem?_eq_some_iff.mp hj).1
  have hother : ∀ k ∈ List.range ls.length, k ≠ j →
      farEnd base ls y (portOf base ls y j) k = none :=
    fun _ _ hk => farEnd_other base hj (.inr rfl) rfl hk
  rw [peer, findSome?_of_unique hmem hother, farEnd, hj]
  simp [hxy]

end DaimDistributed.Wiring
