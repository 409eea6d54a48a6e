import Mathlib.Algebra.BigOperators.Fin
import Mathlib.Algebra.Order.BigOperators.Group.Finset
import DaimDistributed.Transitions

/-!
Threads that share a memory and one mutex.

A thread is what it has still to do, a list of instructions. Taking the mutex and giving it up
are instructions; everything else is an operation of the program, which says what it leaves in
the memory, which instructions come in its place, and which thread it starts. Threads are
numbered in the order of their start, and a thread that is over never comes back.
-/

namespace DaimDistributed.Threads

open Transitions

variable {κ Op σ ε γ ρ : Type*}

inductive Instr (Op : Type*)
  | lock
  | unlock
  | op (o : Op)
  deriving DecidableEq

structure State (κ Op σ : Type*) where
  mem : σ
  lock : Option ℕ
  count : ℕ
  kind : ℕ → κ
  code : ℕ → List (Instr Op)

/-- What an operation does. -/
structure Effect (κ Op σ : Type*) where
  mem : σ
  next : List (Instr Op) := []
  starts : Option (κ × List (Instr Op)) := none

/-- The operations of the threads under an outcome, and the calls that start threads from
outside. -/
structure Program (κ Op σ ε γ : Type*) where
  exec : State κ Op σ → Op → ε → Option (Effect κ Op σ)
  call : State κ Op σ → γ → Option (σ × κ × List (Instr Op))

inductive Label (ε γ : Type*)
  | run (t : ℕ) (e : ε)
  | call (c : γ)

namespace State

def goto (x : State κ Op σ) (t : ℕ) (k : List (Instr Op)) : State κ Op σ :=
  { x with code := Function.update x.code t k }

def start (x : State κ Op σ) (c : κ × List (Instr Op)) : State κ Op σ :=
  { x with
    count := x.count + 1
    kind := Function.update x.kind x.count c.1
    code := Function.update x.code x.count c.2 }

/-- Thread `t` has done an operation in front of `k`. -/
def apply (x : State κ Op σ) (t : ℕ) (k : List (Instr Op)) (r : Effect κ Op σ) : State κ Op σ :=
  match r.starts with
  | none => { x.goto t (r.next ++ k) with mem := r.mem }
  | some c => { (x.goto t (r.next ++ k)).start c with mem := r.mem }

end State

def step (P : Program κ Op σ ε γ) (x : State κ Op σ) : Label ε γ → Option (State κ Op σ)
  | .run t e =>
    match x.code t with
    | [] => none
    | .lock :: k => if x.lock = none then some { x.goto t k with lock := some t } else none
    | .unlock :: k => some { x.goto t k with lock := none }
    | .op o :: k => (P.exec x o e).map (x.apply t k)
  | .call c => (P.call x c).map fun r => { x.start r.2 with mem := r.1 }

variable {P : Program κ Op σ ε γ} {x x' : State κ Op σ} {l : Label ε γ} {o : Op} {e : ε}
  {r : Effect κ Op σ} {k k' : List (Instr Op)} {t u : ℕ}

/-- What a step has found. -/
inductive Steps (P : Program κ Op σ ε γ) (x : State κ Op σ) : Label ε γ → State κ Op σ → Prop
  | locks {t : ℕ} {e : ε} {k : List (Instr Op)} : x.code t = .lock :: k → x.lock = none →
      Steps P x (.run t e) { x.goto t k with lock := some t }
  | unlocks {t : ℕ} {e : ε} {k : List (Instr Op)} : x.code t = .unlock :: k →
      Steps P x (.run t e) { x.goto t k with lock := none }
  | runs {t : ℕ} {e : ε} {o : Op} {k : List (Instr Op)} {r : Effect κ Op σ} :
      x.code t = .op o :: k → P.exec x o e = some r → Steps P x (.run t e) (x.apply t k r)
  | calls {c : γ} {m : σ} {c' : κ × List (Instr Op)} : P.call x c = some (m, c') →
      Steps P x (.call c) { x.start c' with mem := m }

lemma steps_of_step (h : step P x l = some x') : Steps P x l x' := by
  cases l with
  | run t e =>
    simp only [step] at h
    split at h
    · cases h
    · split_ifs at h with hf
      cases h
      exact .locks ‹_› hf
    · cases h
      exact .unlocks ‹_›
    · obtain ⟨r, hr, rfl⟩ := Option.map_eq_some_iff.mp h
      exact .runs ‹_› hr
  | call c =>
    obtain ⟨⟨m, c'⟩, hr, rfl⟩ := Option.map_eq_some_iff.mp h
    exact .calls hr

lemma step_nil (h : x.code t = []) : step P x (.run t e) = none := by
  simp only [step, h]

lemma apply_mem (x : State κ Op σ) (t : ℕ) (k : List (Instr Op)) (r : Effect κ Op σ) :
    (x.apply t k r).mem = r.mem := by
  unfold State.apply
  split <;> rfl

lemma apply_lock (x : State κ Op σ) (t : ℕ) (k : List (Instr Op)) (r : Effect κ Op σ) :
    (x.apply t k r).lock = x.lock := by
  unfold State.apply
  split <;> rfl

/-- Threads that have not been started have nothing to do. -/
def Fresh (x : State κ Op σ) : Prop := ∀ u, x.count ≤ u → x.code u = []

lemma Fresh.lt (hf : Fresh x) (h : x.code t ≠ []) : t < x.count := by
  by_contra hge
  exact h (hf t (Nat.le_of_not_lt hge))

/-! ### What the threads have to do after a step -/

@[simp] lemma count_goto : (x.goto t k).count = x.count := rfl

@[simp] lemma kind_goto : (x.goto t k).kind = x.kind := rfl

lemma code_goto : (x.goto t k).code u = if u = t then k else x.code u :=
  Function.update_apply ..

lemma code_start (c : κ × List (Instr Op)) :
    (x.start c).code u = if u = x.count then c.2 else x.code u :=
  Function.update_apply ..

lemma kind_start (c : κ × List (Instr Op)) :
    (x.start c).kind u = if u = x.count then c.1 else x.kind u :=
  Function.update_apply ..

lemma code_apply (hs : r.starts = none) :
    (x.apply t k r).code u = if u = t then r.next ++ k else x.code u := by
  rw [State.apply, hs]
  exact code_goto

lemma kind_apply (hs : r.starts = none) : (x.apply t k r).kind u = x.kind u := by
  rw [State.apply, hs]
  rfl

lemma code_apply_starts {c : κ × List (Instr Op)} (hs : r.starts = some c) :
    (x.apply t k r).code u =
      if u = x.count then c.2 else if u = t then r.next ++ k else x.code u := by
  rw [State.apply, hs]
  exact (code_start c).trans (by rw [code_goto, count_goto])

lemma kind_apply_starts {c : κ × List (Instr Op)} (hs : r.starts = some c) :
    (x.apply t k r).kind u = if u = x.count then c.1 else x.kind u := by
  rw [State.apply, hs]
  exact (kind_start c).trans (by rw [count_goto, kind_goto])

/-- **The rule for the code of a thread.** What the thread that takes the step keeps, and new
code has, every thread keeps. -/
theorem code_step (I : ℕ → κ → List (Instr Op) → Prop) (hx : ∀ u, I u (x.kind u) (x.code u))
    (hl : ∀ t k, x.code t = .lock :: k → I t (x.kind t) k)
    (hu : ∀ t k, x.code t = .unlock :: k → I t (x.kind t) k)
    (hr : ∀ t o k e r, x.code t = .op o :: k → P.exec x o e = some r →
      I t (x.kind t) (r.next ++ k))
    (hs : ∀ t o k e r c, x.code t = .op o :: k → P.exec x o e = some r → r.starts = some c →
      I x.count c.1 c.2)
    (hc : ∀ c m c', P.call x c = some (m, c') → I x.count c'.1 c'.2)
    (h : step P x l = some x') (u : ℕ) : I u (x'.kind u) (x'.code u) := by
  cases steps_of_step h with
  | @locks t e k ht _ =>
    change I u (x.kind u) ((x.goto t k).code u)
    rw [code_goto]
    split_ifs with he
    · exact he ▸ hl t k ht
    · exact hx u
  | @unlocks t e k ht =>
    change I u (x.kind u) ((x.goto t k).code u)
    rw [code_goto]
    split_ifs with he
    · exact he ▸ hu t k ht
    · exact hx u
  | @runs t e o k r ht hex =>
    rcases hst : r.starts with _ | c
    · rw [code_apply hst, kind_apply hst]
      split_ifs with he
      · exact he ▸ hr t o k e r ht hex
      · exact hx u
    · rw [code_apply_starts hst, kind_apply_starts hst]
      by_cases he : u = x.count
      · rw [if_pos he, if_pos he]
        exact he ▸ hs t o k e r c ht hex hst
      · rw [if_neg he, if_neg he]
        split_ifs with he'
        · exact he' ▸ hr t o k e r ht hex
        · exact hx u
  | @calls c m c' hca =>
    change I u ((x.start c').kind u) ((x.start c').code u)
    rw [code_start, kind_start]
    split_ifs with he
    · exact he ▸ hc c m c' hca
    · exact hx u

/-- How a thread comes to have something to do. -/
inductive Alive (P : Program κ Op σ ε γ) (x x' : State κ Op σ) (u : ℕ) : Prop
  | old : x.code u ≠ [] → x'.kind u = x.kind u → Alive P x x' u
  | started {t : ℕ} {o : Op} {k : List (Instr Op)} {e : ε} {r : Effect κ Op σ}
      {c : κ × List (Instr Op)} : x.code t = .op o :: k → P.exec x o e = some r →
      r.starts = some c → u = x.count → x'.kind u = c.1 → x' = x.apply t k r → Alive P x x' u
  | called {c : γ} {m : σ} {c' : κ × List (Instr Op)} : P.call x c = some (m, c') →
      u = x.count → x'.kind u = c'.1 → x'.mem = m → Alive P x x' u

/-- **What has something to do after a step had it before, or is new.** -/
theorem alive_step (h : step P x l = some x') (hu : x'.code u ≠ []) : Alive P x x' u := by
  cases steps_of_step h with
  | @locks t e k ht _ | @unlocks t e k ht =>
    refine .old (fun hx => hu ?_) rfl
    have hne : u ≠ t := by
      rintro rfl
      cases hx.symm.trans ht
    exact (code_goto.trans (if_neg hne)).trans hx
  | @runs t e o k r ht hex =>
    rcases hst : r.starts with _ | c
    · refine .old (fun hx => hu ?_) (kind_apply hst)
      have hne : u ≠ t := by
        rintro rfl
        cases hx.symm.trans ht
      rw [code_apply hst, if_neg hne, hx]
    · by_cases he : u = x.count
      · exact .started ht hex hst he (by rw [kind_apply_starts hst, if_pos he]) rfl
      · refine .old (fun hx => hu ?_) (by rw [kind_apply_starts hst, if_neg he])
        have hne : u ≠ t := by
          rintro rfl
          cases hx.symm.trans ht
        rw [code_apply_starts hst, if_neg he, if_neg hne, hx]
  | @calls c m c' hca =>
    by_cases he : u = x.count
    · exact .called hca he (by rw [he]; exact (kind_start c').trans (if_pos rfl)) rfl
    · refine .old (fun hx => hu ?_) ((kind_start c').trans (if_neg he))
      exact ((code_start c').trans (if_neg he)).trans hx

lemma Fresh.step (hf : Fresh x) (h : step P x l = some x') : Fresh x' := by
  cases steps_of_step h with
  | @locks t e k ht _ | @unlocks t e k ht =>
    intro u hu
    change (x.goto t k).code u = []
    have hlt : t < x.count := hf.lt (by simp [ht])
    rw [code_goto, if_neg (by rintro rfl; exact absurd hlt (Nat.not_lt.mpr hu))]
    exact hf u hu
  | @runs t e o k r ht hex =>
    have hlt : t < x.count := hf.lt (by simp [ht])
    intro u hu
    rcases hst : r.starts with _ | c
    · have hu' : x.count ≤ u := by
        rw [State.apply, hst] at hu
        exact hu
      rw [code_apply hst, if_neg (by omega)]
      exact hf u hu'
    · have hu' : x.count + 1 ≤ u := by
        rw [State.apply, hst] at hu
        exact hu
      rw [code_apply_starts hst, if_neg (by omega), if_neg (by omega)]
      exact hf u (by omega)
  | @calls c m c' _ =>
    intro u hu
    have hu' : x.count + 1 ≤ u := hu
    change (x.start c').code u = []
    rw [code_start, if_neg (by omega)]
    exact hf u (by omega)

/-! ### The mutex -/

/-- Whether the mutex is held after some code, if the code takes it only when it is free and
gives it up only when it is held; `p` says where an operation stands and where it leaves the
thread. -/
def side (p : Op → Bool × Bool) : Bool → List (Instr Op) → Option Bool
  | b, [] => some b
  | b, .lock :: k => if b then none else side p true k
  | b, .unlock :: k => if b then side p false k else none
  | b, .op o :: k => if b = (p o).1 then side p (p o).2 k else none

lemma side_append (p : Op → Bool × Bool) (b : Bool) :
    side p b (k ++ k') = (side p b k).bind fun c => side p c k' := by
  induction k generalizing b with
  | nil => rfl
  | cons i k ih =>
    cases i with
    | lock => cases b <;> simp [side, ih]
    | unlock => cases b <;> simp [side, ih]
    | op o =>
      simp only [List.cons_append, side]
      split_ifs <;> simp [ih]

/-- The operations of a program keep the sides they are given, and new code starts outside. -/
structure Disciplined (P : Program κ Op σ ε γ) (p : Op → Bool × Bool) : Prop where
  next : ∀ x o e r, P.exec x o e = some r → side p (p o).1 r.next = some (p o).2
  starts : ∀ x o e r c, P.exec x o e = some r → r.starts = some c → side p false c.2 = some false
  calls : ∀ x c m c', P.call x c = some (m, c') → side p false c'.2 = some false

/-- The mutex is held exactly where the code of a thread says so. -/
def Balanced (p : Op → Bool × Bool) (x : State κ Op σ) : Prop :=
  ∀ u, side p (decide (x.lock = some u)) (x.code u) = some false

variable {p : Op → Bool × Bool}

lemma Balanced.lock_ne (hb : Balanced p x) (h : x.code t = []) : x.lock ≠ some t := by
  have := hb t
  rw [h] at this
  simpa [side] using this

/-- An operation under the mutex is done by its holder. -/
lemma Balanced.op (hb : Balanced p x) (h : x.code t = .op o :: k) :
    decide (x.lock = some t) = (p o).1 := by
  have := hb t
  rw [h, side] at this
  split_ifs at this with hp
  exact hp

lemma Balanced.unlock (hb : Balanced p x) (h : x.code t = .unlock :: k) : x.lock = some t := by
  have := hb t
  rw [h, side] at this
  split_ifs at this with hp
  simpa using hp

lemma Balanced.unlock_tail (hb : Balanced p x) (h : x.code t = .unlock :: k) :
    side p false k = some false := by
  have := hb t
  rw [h, side] at this
  split_ifs at this
  exact this

lemma Balanced.step (hP : Disciplined P p) (hf : Fresh x) (hb : Balanced p x)
    (h : step P x l = some x') : Balanced p x' := by
  cases steps_of_step h with
  | @locks t e k ht hfree =>
    intro u
    change side p (decide (some t = some u)) ((x.goto t k).code u) = some false
    have hu := hb u
    rw [hfree] at hu
    rw [code_goto]
    by_cases he : u = t
    · subst he
      rw [ht] at hu
      simpa [side] using hu
    · simpa [he, Ne.symm he] using hu
  | @unlocks t e k ht =>
    intro u
    change side p false ((x.goto t k).code u) = some false
    rw [code_goto]
    split_ifs with he
    · exact hb.unlock_tail ht
    · have hu := hb u
      rwa [hb.unlock ht, decide_eq_false (by simpa using Ne.symm he)] at hu
  | @runs t e o k r ht hex =>
    have hnext : side p (decide (x.lock = some t)) (r.next ++ k) = some false := by
      have hu := hb t
      rw [ht, side, if_pos (hb.op ht)] at hu
      rw [side_append, hb.op ht, hP.next x o e r hex]
      exact hu
    intro u
    rw [apply_lock]
    rcases hst : r.starts with _ | c
    · rw [code_apply hst]
      split_ifs with he
      · exact he ▸ hnext
      · exact hb u
    · rw [code_apply_starts hst]
      split_ifs with he he'
      · have hne := hb.lock_ne (hf u (he ▸ Nat.le_refl _))
        rw [decide_eq_false hne]
        exact hP.starts x o e r c hex hst
      · exact he' ▸ hnext
      · exact hb u
  | @calls c m c' hca =>
    intro u
    change side p (decide (x.lock = some u)) ((x.start c').code u) = some false
    rw [code_start]
    split_ifs with he
    · have hne := hb.lock_ne (hf u (he ▸ Nat.le_refl _))
      rw [decide_eq_false hne]
      exact hP.calls x c m c' hca
    · exact hb u

/-- **Mutual exclusion.** Two threads in front of operations under the mutex are one thread. -/
theorem Balanced.unique (hb : Balanced p x) {o' : Op} (ht : x.code t = .op o :: k)
    (hu : x.code u = .op o' :: k') (ho : (p o).1 = true) (ho' : (p o').1 = true) : t = u := by
  have h1 : x.lock = some t := by simpa [ho] using hb.op ht
  have h2 : x.lock = some u := by simpa [ho'] using hb.op hu
  exact Option.some.inj (h1.symm.trans h2)

/-! ### Where a thread stands -/

/-- What the first operation that says something says about the thread. -/
def role (f : Op → Option ρ) : List (Instr Op) → Option ρ
  | [] => none
  | .lock :: k => role f k
  | .unlock :: k => role f k
  | .op o :: k => (f o).or (role f k)

/-- Everything behind the next operation. -/
def later : List (Instr Op) → List (Instr Op)
  | [] => []
  | .lock :: k => later k
  | .unlock :: k => later k
  | .op _ :: k => k

variable {f : Op → Option ρ}

lemma role_append : role f (k ++ k') = (role f k).or (role f k') := by
  induction k with
  | nil => rfl
  | cons i k ih =>
    cases i with
    | lock | unlock => exact ih
    | op o =>
      change (f o).or (role f (k ++ k')) = ((f o).or (role f k)).or (role f k')
      rw [ih, Option.or_assoc]

lemma mem_of_role {a : ρ} (h : role f k = some a) : ∃ o, .op o ∈ k ∧ f o = some a := by
  induction k with
  | nil => cases h
  | cons i k ih =>
    cases i with
    | lock | unlock =>
      obtain ⟨o, ho, ha⟩ := ih h
      exact ⟨o, List.mem_cons_of_mem _ ho, ha⟩
    | op o =>
      rcases Option.or_eq_some_iff.mp h with ha | ⟨-, hk⟩
      · exact ⟨o, List.mem_cons_self, ha⟩
      · obtain ⟨o', ho', ha⟩ := ih hk
        exact ⟨o', List.mem_cons_of_mem _ ho', ha⟩

/-- Only the next operation says something. -/
def Headed (f : Op → Option ρ) (k : List (Instr Op)) : Prop := role f (later k) = none

lemma Headed.role_op (h : Headed f (.op o :: k)) : role f (.op o :: k) = f o := by
  have hk : role f k = none := h
  change (f o).or (role f k) = f o
  rw [hk, Option.or_none]

lemma role_later (h : role f k = none) : role f (later k) = none := by
  induction k with
  | nil => rfl
  | cons i k ih =>
    cases i with
    | lock | unlock => exact ih h
    | op o =>
      exact (Option.or_eq_none_iff.mp h).2

/-- Silent code may follow. -/
lemma Headed.append (h : Headed f k) (hk : role f k' = none) : Headed f (k ++ k') := by
  induction k with
  | nil => exact role_later hk
  | cons i k ih =>
    cases i with
    | lock | unlock => exact ih h
    | op o =>
      change role f (k ++ k') = none
      rw [role_append, hk, Option.or_none]
      exact h

/-- New code has one operation that says something, in front. -/
structure Heads (P : Program κ Op σ ε γ) (f : Op → Option ρ) : Prop where
  next : ∀ x o e r, P.exec x o e = some r → Headed f r.next
  starts : ∀ x o e r c, P.exec x o e = some r → r.starts = some c → Headed f c.2
  calls : ∀ x c m c', P.call x c = some (m, c') → Headed f c'.2

lemma headed_step (hP : Heads P f) (hx : ∀ u, Headed f (x.code u)) (h : step P x l = some x') :
    ∀ u, Headed f (x'.code u) := by
  refine code_step (fun _ _ k => Headed f k) hx ?_ ?_ ?_
    (fun _ o _ e r c _ => hP.starts x o e r c) (hP.calls x) h
  · intro t k ht
    have := hx t
    rwa [ht] at this
  · intro t k ht
    have := hx t
    rwa [ht] at this
  · intro t o k e r ht hex
    have hk := hx t
    rw [ht] at hk
    exact (hP.next x o e r hex).append hk

/-- An operation puts the thread where the code says that comes in its place. -/
lemma Headed.role_next (h : Headed f (.op o :: k)) : role f (r.next ++ k) = role f r.next := by
  have hk : role f k = none := h
  rw [role_append, hk, Option.or_none]

def places (f : Op → Option ρ) (x : State κ Op σ) (u : ℕ) : Option ρ := role f (x.code u)

lemma places_goto : places f (x.goto t k) = Function.update (places f x) t (role f k) := by
  funext u
  rw [places, code_goto, Function.update_apply]
  split_ifs <;> rfl

lemma places_start (c : κ × List (Instr Op)) :
    places f (x.start c) = Function.update (places f x) x.count (role f c.2) := by
  funext u
  rw [places, code_start, Function.update_apply]
  split_ifs <;> rfl

/-- Taking and giving up the mutex moves nobody. -/
lemma places_lock (h : x.code t = .lock :: k) : places f (x.goto t k) = places f x := by
  have hk : role f k = places f x t := by
    rw [places, h]
    rfl
  rw [places_goto, hk, Function.update_eq_self]

lemma places_unlock (h : x.code t = .unlock :: k) : places f (x.goto t k) = places f x := by
  have hk : role f k = places f x t := by
    rw [places, h]
    rfl
  rw [places_goto, hk, Function.update_eq_self]

lemma places_op (hh : ∀ u, Headed f (x.code u)) (h : x.code t = .op o :: k) :
    places f x t = f o := by
  have ht := hh t
  rw [h] at ht
  rw [places, h, ht.role_op]

lemma places_apply (hh : ∀ u, Headed f (x.code u)) (h : x.code t = .op o :: k)
    (hs : r.starts = none) :
    places f (x.apply t k r) = Function.update (places f x) t (role f r.next) := by
  have ht := hh t
  rw [h] at ht
  have hap : places f (x.apply t k r) = places f (x.goto t (r.next ++ k)) := by
    unfold State.apply
    rw [hs]
    rfl
  rw [hap, places_goto, ht.role_next]

lemma places_apply_starts (hh : ∀ u, Headed f (x.code u)) (h : x.code t = .op o :: k)
    {c : κ × List (Instr Op)} (hs : r.starts = some c) :
    places f (x.apply t k r) = Function.update (Function.update (places f x) t (role f r.next))
      x.count (role f c.2) := by
  have ht := hh t
  rw [h] at ht
  have hap : places f (x.apply t k r) = places f ((x.goto t (r.next ++ k)).start c) := by
    unfold State.apply
    rw [hs]
    rfl
  rw [hap, places_start, places_goto, ht.role_next, count_goto]

/-- An operation that is replaced by one of the same place moves nobody. -/
lemma places_stay (hh : ∀ u, Headed f (x.code u)) (h : x.code t = .op o :: k)
    (hs : r.starts = none) (hn : role f r.next = f o) : places f (x.apply t k r) = places f x := by
  rw [places_apply hh h hs, hn, ← places_op hh h, Function.update_eq_self]

lemma places_fresh (hf : Fresh x) (hu : x.count ≤ u) : places f x u = none := by
  rw [places, hf u hu]
  rfl

/-- How a thread comes to a place. -/
inductive Arrives (P : Program κ Op σ ε γ) (f : Op → Option ρ) (x : State κ Op σ) (u : ℕ)
    (a : ρ) : Prop
  | stays : places f x u = some a → Arrives P f x u a
  | moves {o : Op} {k : List (Instr Op)} {e : ε} {r : Effect κ Op σ} : x.code u = .op o :: k →
      P.exec x o e = some r → role f r.next = some a → Arrives P f x u a
  | started {o : Op} {e : ε} {r : Effect κ Op σ} {c : κ × List (Instr Op)} :
      P.exec x o e = some r → r.starts = some c → role f c.2 = some a → Arrives P f x u a
  | called {c : γ} {m : σ} {c' : κ × List (Instr Op)} : P.call x c = some (m, c') →
      role f c'.2 = some a → Arrives P f x u a

theorem places_step {a : ρ} (hh : ∀ u, Headed f (x.code u)) (h : step P x l = some x')
    (hp : places f x' u = some a) : Arrives P f x u a := by
  refine code_step (P := P) (fun u _ k => role f k = some a → Arrives P f x u a)
    (fun u hu => .stays hu) ?_ ?_ ?_ ?_ ?_ h u hp
  · intro t k ht hr
    exact .stays (by rw [places, ht]; exact hr)
  · intro t k ht hr
    exact .stays (by rw [places, ht]; exact hr)
  · intro t o k e r ht hex hr
    have hk := hh t
    rw [ht] at hk
    exact .moves ht hex (hk.role_next.symm.trans hr)
  · exact fun t o k e r c _ hex hc hr => .started hex hc hr
  · exact fun c m c' hc hr => .called hc hr

/-- A thread stays at its place until it does the operation. -/
theorem places_keep {a : ρ} (hf : Fresh x) (hh : ∀ u, Headed f (x.code u))
    (h : step P x l = some x') (hp : places f x u = some a) :
    places f x' u = some a ∨ ∃ o k e r, x.code u = .op o :: k ∧ P.exec x o e = some r ∧
      f o = some a ∧ x'.mem = r.mem := by
  have hne : u ≠ x.count := by
    rintro rfl
    rw [places_fresh hf (Nat.le_refl _)] at hp
    cases hp
  cases steps_of_step h with
  | @locks t e k ht _ => exact .inl ((congrFun (places_lock ht) u).trans hp)
  | @unlocks t e k ht => exact .inl ((congrFun (places_unlock ht) u).trans hp)
  | @runs t e o k r ht hex =>
    by_cases hut : u = t
    · subst hut
      exact .inr ⟨o, k, e, r, ht, hex, (places_op hh ht).symm.trans hp, apply_mem ..⟩
    · left
      rcases hst : r.starts with _ | c
      · rw [places_apply hh ht hst, Function.update_of_ne hut, hp]
      · rw [places_apply_starts hh ht hst, Function.update_of_ne hne, Function.update_of_ne hut,
          hp]
  | @calls c m c' _ =>
    exact .inl ((congrFun (places_start c') u).trans ((Function.update_of_ne hne ..).trans hp))

/-! ### Counting what is still to be done -/

def weight (w : Op → ℕ) : List (Instr Op) → ℕ
  | [] => 0
  | .lock :: k => weight w k
  | .unlock :: k => weight w k
  | .op o :: k => w o + weight w k

variable {w : Op → ℕ}

@[simp] lemma weight_append : weight w (k ++ k') = weight w k + weight w k' := by
  induction k with
  | nil => simp [weight]
  | cons i k ih =>
    cases i with
    | lock | unlock => exact ih
    | op o =>
      change w o + weight w (k ++ k') = w o + weight w k + weight w k'
      rw [ih, Nat.add_assoc]

lemma le_weight (h : .op o ∈ k) : w o ≤ weight w k := by
  induction k with
  | nil => cases h
  | cons i k ih =>
    rcases List.mem_cons.mp h with rfl | h
    · exact Nat.le_add_right _ _
    · refine (ih h).trans ?_
      cases i with
      | lock | unlock => exact Nat.le_refl _
      | op o' => exact Nat.le_add_left _ _

lemma weight_mono {w' : Op → ℕ} (h : ∀ o, w o ≤ w' o) : weight w k ≤ weight w' k := by
  induction k with
  | nil => exact Nat.le_refl _
  | cons i k ih =>
    cases i with
    | lock | unlock => exact ih
    | op o => exact Nat.add_le_add (h o) ih

/-- What all threads together have still to do. -/
def total (w : Op → ℕ) (x : State κ Op σ) : ℕ :=
  ∑ u ∈ Finset.range x.count, weight w (x.code u)

lemma total_goto (hf : Fresh x) (ht : x.code t ≠ []) :
    total w (x.goto t k) + weight w (x.code t) = total w x + weight w k := by
  have hmem : t ∈ Finset.range x.count := Finset.mem_range.mpr (hf.lt ht)
  have hk : (x.goto t k).code t = k := Function.update_self ..
  have hrest : ∑ u ∈ (Finset.range x.count).erase t, weight w ((x.goto t k).code u) =
      ∑ u ∈ (Finset.range x.count).erase t, weight w (x.code u) := by
    refine Finset.sum_congr rfl fun u hu => ?_
    rw [code_goto, if_neg (Finset.ne_of_mem_erase hu)]
  have h1 := Finset.add_sum_erase _ (fun u => weight w (x.code u)) hmem
  have h2 := Finset.add_sum_erase _ (fun u => weight w ((x.goto t k).code u)) hmem
  rw [hrest, hk] at h2
  change total w (x.goto t k) + _ = _
  rw [total, total, ← h1]
  change ∑ u ∈ Finset.range x.count, _ + _ = _
  rw [← h2]
  omega

lemma total_start (c : κ × List (Instr Op)) : total w (x.start c) = total w x + weight w c.2 := by
  have hlast : (x.start c).code x.count = c.2 := Function.update_self ..
  have hrest : ∑ u ∈ Finset.range x.count, weight w ((x.start c).code u) = total w x := by
    refine Finset.sum_congr rfl fun u hu => ?_
    rw [code_start, if_neg (Finset.mem_range.mp hu).ne]
  change ∑ u ∈ Finset.range (x.count + 1), _ = _
  rw [Finset.sum_range_succ, hrest, hlast]

lemma total_lock (hf : Fresh x) (ht : x.code t = .lock :: k) :
    total w (x.goto t k) = total w x := by
  have h := total_goto (w := w) (k := k) (t := t) hf (by simp [ht])
  rw [ht] at h
  exact Nat.add_right_cancel h

lemma total_unlock (hf : Fresh x) (ht : x.code t = .unlock :: k) :
    total w (x.goto t k) = total w x := by
  have h := total_goto (w := w) (k := k) (t := t) hf (by simp [ht])
  rw [ht] at h
  exact Nat.add_right_cancel h

/-- What a thread starts. -/
def started (w : Op → ℕ) (r : Effect κ Op σ) : ℕ := r.starts.elim 0 fun c => weight w c.2

lemma total_apply (hf : Fresh x) (ht : x.code t = .op o :: k) :
    total w (x.apply t k r) + w o = total w x + weight w r.next + started w r := by
  have hne : x.code t ≠ [] := by simp [ht]
  have hgo := total_goto (w := w) (k := r.next ++ k) hf hne
  rw [ht, weight, weight_append] at hgo
  unfold State.apply
  split
  · rename_i hs
    change total w (x.goto t (r.next ++ k)) + w o = _
    rw [started, hs]
    simp only [Option.elim]
    omega
  · rename_i c hs
    change total w ((x.goto t (r.next ++ k)).start c) + w o = _
    rw [total_start, started, hs]
    simp only [Option.elim]
    omega

/-- What one thread has to do is part of the total. -/
lemma weight_le_total (hf : Fresh x) : weight w (x.code t) ≤ total w x := by
  by_cases ht : x.code t = []
  · rw [ht]
    exact Nat.zero_le _
  · exact Finset.single_le_sum (f := fun u => weight w (x.code u)) (fun _ _ => Nat.zero_le _)
      (Finset.mem_range.mpr (hf.lt ht))

/-- No operation makes more work for its own thread. -/
lemma weight_step {n : ℕ} (hnext : ∀ x o e r, P.exec x o e = some r → weight w r.next ≤ w o)
    (hstarts : ∀ x o e r c, P.exec x o e = some r → r.starts = some c → weight w c.2 ≤ n)
    (hcalls : ∀ x c m c', P.call x c = some (m, c') → weight w c'.2 ≤ n)
    (hx : ∀ u, weight w (x.code u) ≤ n) (h : step P x l = some x') :
    ∀ u, weight w (x'.code u) ≤ n := by
  refine code_step (fun _ _ k => weight w k ≤ n) hx ?_ ?_ ?_
    (fun _ o _ e r c _ => hstarts x o e r c) (hcalls x) h
  · intro t k ht
    have := hx t
    rwa [ht] at this
  · intro t k ht
    have := hx t
    rwa [ht] at this
  · intro t o k e r ht hex
    have hk := hx t
    have := hnext x o e r hex
    rw [ht, weight] at hk
    rw [weight_append]
    omega

end DaimDistributed.Threads
