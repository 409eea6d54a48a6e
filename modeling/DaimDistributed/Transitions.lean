import Mathlib.Logic.Relation
import Mathlib.Tactic.Common

/-!
Labelled transition systems, read through their runs.

A run carries its history: every label together with the state it was taken in. A
condition on the steps of a run is then a condition on the pairs of that history, and an
invariant that needs the condition is proved by the same induction as one that does not.
-/

namespace DaimDistributed.Transitions

/-- Initial states, and what a label can do to a state. -/
structure Lts (σ α : Type*) where
  init : σ → Prop
  step : σ → α → σ → Prop

variable {σ τ α α' β : Type*}

/-- A run: the steps taken so far, each with the state it was taken in, and the state
reached. -/
inductive Run (L : Lts σ α) : List (σ × α) → σ → Prop
  | init {s : σ} : L.init s → Run L [] s
  | step {h : List (σ × α)} {s t : σ} {a : α} :
      Run L h s → L.step s a t → Run L (h ++ [(s, a)]) t

/-- The system of a step function that says when a label is not enabled. -/
def ofFun (init : σ → Prop) (f : σ → α → Option σ) : Lts σ α where
  init := init
  step s a t := f s a = some t

variable {L : Lts σ α} {h : List (σ × α)} {s t : σ}

/-- **The invariant rule**, with a condition the steps of the run meet. -/
theorem Run.inv_of_ok (ok : σ → α → Prop) (I : σ → Prop) (hi : ∀ s, L.init s → I s)
    (hs : ∀ s a t, I s → ok s a → L.step s a t → I t) (hr : Run L h t)
    (hok : ∀ p ∈ h, ok p.1 p.2) : I t := by
  induction hr with
  | init h0 => exact hi _ h0
  | @step h s t a _ hst ih =>
    have h1 : I s := ih fun p hp => hok p (List.mem_append_left _ hp)
    exact hs s a t h1 (hok (s, a) (by simp)) hst

/-- **The invariant rule.** -/
theorem Run.inv (I : σ → Prop) (hi : ∀ s, L.init s → I s)
    (hs : ∀ s a t, I s → L.step s a t → I t) (hr : Run L h t) : I t :=
  hr.inv_of_ok (fun _ _ => True) I hi (fun s a t h1 _ h2 => hs s a t h1 h2) (by simp)

/-- **The latch rule**: what no initial state has, and a step can bring about but not undo, is
there exactly when a step of the run has brought it about. -/
theorem Run.latch (P : σ → Prop) (Q : σ → α → Prop) (hi : ∀ s, L.init s → ¬P s)
    (hs : ∀ h s a t, Run L h s → L.step s a t → (P t ↔ P s ∨ Q s a)) (hr : Run L h t) :
    P t ↔ ∃ p ∈ h, Q p.1 p.2 := by
  induction hr with
  | init h0 => simp [hi _ h0]
  | @step h s t a hr hst ih => simp [hs h s a t hr hst, ih, or_and_right, exists_or]

/-- A step of a run splits it: the run up to that step is a run, and the step was enabled
at its end. -/
theorem Run.split (hr : Run L h t) {p : σ × α} (hp : p ∈ h) :
    ∃ h1 h2 u, h = h1 ++ p :: h2 ∧ Run L h1 p.1 ∧ L.step p.1 p.2 u := by
  induction hr with
  | init _ => simp at hp
  | @step h s t a hr hst ih =>
    rcases List.mem_append.mp hp with hp | hp
    · obtain ⟨h1, h2, u, he, hr1, hst1⟩ := ih hp
      exact ⟨h1, h2 ++ [(s, a)], u, by simp [he], hr1, hst1⟩
    · obtain rfl : p = (s, a) := by simpa using hp
      exact ⟨h, [], t, rfl, hr, hst⟩

/-- The same, for a split that is given. -/
theorem Run.of_append (hr : Run L h t) {h1 h2 : List (σ × α)} {p : σ × α}
    (he : h = h1 ++ p :: h2) : Run L h1 p.1 ∧ ∃ u, L.step p.1 p.2 u := by
  induction hr generalizing h2 with
  | init _ => simp at he
  | @step h s t a hr hst ih =>
    rcases List.eq_nil_or_concat h2 with rfl | ⟨h2, x, rfl⟩
    · obtain ⟨rfl, hp⟩ := List.append_inj' he rfl
      obtain rfl : (s, a) = p := by simpa using hp
      exact ⟨hr, t, hst⟩
    · have he' : h ++ [(s, a)] = (h1 ++ p :: h2) ++ [x] := by simpa using he
      exact ih (List.append_inj' he' rfl).1

/-! ### What a run shows -/

/-- The part of a history that an observer sees. -/
def shown (ev : σ → α → Option β) (h : List (σ × α)) : List β :=
  h.filterMap fun p => ev p.1 p.2

@[simp] lemma shown_nil (ev : σ → α → Option β) : shown ev [] = [] := rfl

@[simp] lemma shown_snoc (ev : σ → α → Option β) (h : List (σ × α)) (s : σ) (a : α) :
    shown ev (h ++ [(s, a)]) = shown ev h ++ (ev s a).toList := by
  rw [shown, List.filterMap_append]
  cases he : ev s a <;> simp [shown, he]

/-- **The simulation rule**: what a step of one system shows, one step of the other shows; a
step that shows nothing may be no step there. -/
theorem Run.simulate {M : Lts τ α'} (ev : σ → α → Option β) (ev' : τ → α' → Option β)
    (ok : σ → α → Prop) (R : σ → τ → Prop) (hi : ∀ s, L.init s → ∃ t, M.init t ∧ R s t)
    (hs : ∀ s a s' t, R s t → ok s a → L.step s a s' →
      (R s' t ∧ ev s a = none) ∨ ∃ a' t', M.step t a' t' ∧ R s' t' ∧ ev' t a' = ev s a)
    (hr : Run L h s) (hok : ∀ p ∈ h, ok p.1 p.2) :
    ∃ h' t, Run M h' t ∧ R s t ∧ shown ev' h' = shown ev h := by
  induction hr with
  | init h0 =>
    obtain ⟨t, ht, hR⟩ := hi _ h0
    exact ⟨[], t, .init ht, hR, rfl⟩
  | @step h s s' a _ hst ih =>
    obtain ⟨h', t, hr', hR, hsh⟩ := ih fun p hp => hok p (List.mem_append_left _ hp)
    rcases hs s a s' t hR (hok (s, a) (by simp)) hst with ⟨hR', hn⟩ | ⟨a', t', hst', hR', he⟩
    · exact ⟨h', t, hr', hR', by rw [hsh, shown_snoc, hn, Option.toList_none, List.append_nil]⟩
    · exact ⟨_, t', hr'.step hst', hR', by rw [shown_snoc, shown_snoc, hsh, he]⟩

/-! ### Replaying a list of labels -/

/-- Take the labels in order, extending the history. -/
def replay (f : σ → α → Option σ) (h : List (σ × α)) (s : σ) :
    List α → Option (List (σ × α) × σ)
  | [] => some (h, s)
  | a :: as => (f s a).bind fun t => replay f (h ++ [(s, a)]) t as

lemma replay_run {i : σ → Prop} {f : σ → α → Option σ} {as : List α} {h' : List (σ × α)}
    (hr : Run (ofFun i f) h s) (he : replay f h s as = some (h', t)) :
    Run (ofFun i f) h' t := by
  induction as generalizing h s with
  | nil =>
    cases he
    exact hr
  | cons a as ih =>
    rw [replay, Option.bind_eq_some_iff] at he
    obtain ⟨u, hu, he⟩ := he
    exact ih (hr.step hu) he

/-- **A replay that ends in a state with a decidable property is a run that reaches it.** -/
theorem exists_run_of_replay {i : σ → Prop} {f : σ → α → Option σ} (as : List α) (hi : i s)
    (P : List (σ × α) → σ → Prop) (hp : ∃ r ∈ replay f [] s as, P r.1 r.2) :
    ∃ h t, Run (ofFun i f) h t ∧ P h t := by
  obtain ⟨⟨h, t⟩, he, hp⟩ := hp
  exact ⟨h, t, replay_run (.init hi) he, hp⟩

end DaimDistributed.Transitions
