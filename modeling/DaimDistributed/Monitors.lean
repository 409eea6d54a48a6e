import Mathlib.Algebra.BigOperators.Ring.Finset
import Mathlib.Algebra.Order.BigOperators.Group.Finset
import Mathlib.Data.Fintype.BigOperators
import Mathlib.Data.Prod.Lex
import DaimDistributed.Transitions

/-!
Objects whose operations run under one mutex, and what makes them atomic.

An operation first looks at the memory without the mutex and may return at once. Otherwise it
takes the mutex, runs its body one instruction at a time, gives the mutex up and returns. Any
number of threads do this in any order. The object is linearizable when every history of calls
and returns is one of the atomic object, whose operations take effect in one step between the
call and the return.
-/

namespace DaimDistributed.Monitors

open Transitions

variable {ι σ Λ ε Op Ret A : Type*}

/-- What one instruction of a body leaves. -/
inductive Micro (σ Λ Ret : Type*)
  | next (m : σ) (l : Λ)
  | done (m : σ) (r : Ret)
  | fault -- the behaviour of the program is not defined

/-- The instructions take an answer of their environment; `none` where that answer cannot be
given. -/
structure Monitor (σ Λ ε Op Ret : Type*) where
  /-- The test without the mutex, with the value it returns at once. -/
  check : σ → Op → Option Ret
  start : Op → Λ
  body : Op → σ → Λ → ε → Option (Micro σ Λ Ret)

/-- Where a thread is. -/
inductive Phase (Λ Op Ret : Type*)
  | idle
  | called (op : Op)
  | waiting (op : Op)
  | inside (op : Op) (l : Λ)
  | leaving (op : Op) (r : Ret)
  | returning (op : Op) (r : Ret)
  | faulted
  deriving DecidableEq

structure State (ι σ Λ Op Ret : Type*) where
  mem : σ
  owner : Option ι := none
  phase : ι → Phase Λ Op Ret := fun _ => .idle

inductive Label (ι ε Op : Type*)
  | call (t : ι) (op : Op)
  | run (t : ι) (e : ε)

/-- What the threads' callers see. -/
inductive Event (ι Op Ret : Type*)
  | inv (t : ι) (op : Op)
  | res (t : ι) (op : Op) (r : Ret)
  deriving DecidableEq

variable [DecidableEq ι]

def State.goto (x : State ι σ Λ Op Ret) (t : ι) (p : Phase Λ Op Ret) : State ι σ Λ Op Ret :=
  { x with phase := Function.update x.phase t p }

def step (M : Monitor σ Λ ε Op Ret) (x : State ι σ Λ Op Ret) :
    Label ι ε Op → Option (State ι σ Λ Op Ret)
  | .call t op =>
    match x.phase t with
    | .idle => some (x.goto t (.called op))
    | _ => none
  | .run t e =>
    match x.phase t with
    | .idle | .faulted => none
    | .called op =>
      match M.check x.mem op with
      | some r => some (x.goto t (.returning op r))
      | none => some (x.goto t (.waiting op))
    | .waiting op =>
      match x.owner with
      | some _ => none
      | none => some { x.goto t (.inside op (M.start op)) with owner := some t }
    | .inside op l =>
      match M.body op x.mem l e with
      | none => none
      | some (.next m l) => some { x.goto t (.inside op l) with mem := m }
      | some (.done m r) => some { x.goto t (.leaving op r) with mem := m }
      | some .fault => some (x.goto t .faulted)
    | .leaving op r => some { x.goto t (.returning op r) with owner := none }
    | .returning _ _ => some (x.goto t .idle)

/-- The threads of an object, from a memory on in which nobody is at work. -/
def monitor (ι : Type*) [DecidableEq ι] (M : Monitor σ Λ ε Op Ret) (m : σ) :
    Lts (State ι σ Λ Op Ret) (Label ι ε Op) :=
  ofFun (fun x => x = { mem := m }) (step M)

def event (x : State ι σ Λ Op Ret) : Label ι ε Op → Option (Event ι Op Ret)
  | .call t op => some (.inv t op)
  | .run t _ =>
    match x.phase t with
    | .returning op r => some (.res t op r)
    | _ => none

/-! ### The atomic object -/

/-- A client of the atomic object. -/
inductive Slot (Op Ret : Type*)
  | idle
  | called (op : Op)
  | done (op : Op) (r : Ret)
  deriving DecidableEq

structure Atomic (ι A Op Ret : Type*) where
  obj : A
  slot : ι → Slot Op Ret := fun _ => .idle

inductive Act (ι Op : Type*)
  | call (t : ι) (op : Op)
  | fire (t : ι)
  | ret (t : ι)

variable (exec : A → Op → A × Ret)

def Atomic.step (y : Atomic ι A Op Ret) : Act ι Op → Option (Atomic ι A Op Ret)
  | .call t op =>
    match y.slot t with
    | .idle => some { y with slot := Function.update y.slot t (.called op) }
    | _ => none
  | .fire t =>
    match y.slot t with
    | .called op =>
      some { obj := (exec y.obj op).1
             slot := Function.update y.slot t (.done op (exec y.obj op).2) }
    | _ => none
  | .ret t =>
    match y.slot t with
    | .done _ _ => some { y with slot := Function.update y.slot t .idle }
    | _ => none

/-- Operations take effect in one step, at some moment between the call and the return. -/
def atomic (ι : Type*) [DecidableEq ι] (exec : A → Op → A × Ret) (a : A) :
    Lts (Atomic ι A Op Ret) (Act ι Op) :=
  ofFun (fun y => y = { obj := a }) (Atomic.step exec)

def Atomic.event (y : Atomic ι A Op Ret) : Act ι Op → Option (Event ι Op Ret)
  | .call t op => some (.inv t op)
  | .fire _ => none
  | .ret t =>
    match y.slot t with
    | .done op r => some (.res t op r)
    | _ => none

/-- The atomic object has this history, and is left as `a'`. -/
def LinearizesTo (a : A) (es : List (Event ι Op Ret)) (y : Atomic ι A Op Ret) : Prop :=
  ∃ h, Run (atomic ι exec a) h y ∧ shown Atomic.event h = es

/-- **A history of calls and returns is linearizable.** -/
def Linearizable (a : A) (es : List (Event ι Op Ret)) : Prop := ∃ y, LinearizesTo exec a es y

/-! ### What a step finds -/

inductive Steps (M : Monitor σ Λ ε Op Ret) (x : State ι σ Λ Op Ret) :
    Label ι ε Op → State ι σ Λ Op Ret → Prop
  | calls {t : ι} {op : Op} : x.phase t = .idle → Steps M x (.call t op) (x.goto t (.called op))
  | answers {t : ι} {e : ε} {op : Op} {r : Ret} : x.phase t = .called op →
      M.check x.mem op = some r → Steps M x (.run t e) (x.goto t (.returning op r))
  | passes {t : ι} {e : ε} {op : Op} : x.phase t = .called op → M.check x.mem op = none →
      Steps M x (.run t e) (x.goto t (.waiting op))
  | locks {t : ι} {e : ε} {op : Op} : x.phase t = .waiting op → x.owner = none →
      Steps M x (.run t e) { x.goto t (.inside op (M.start op)) with owner := some t }
  | goesOn {t : ι} {e : ε} {op : Op} {l l' : Λ} {m : σ} : x.phase t = .inside op l →
      M.body op x.mem l e = some (.next m l') →
      Steps M x (.run t e) { x.goto t (.inside op l') with mem := m }
  | ends {t : ι} {e : ε} {op : Op} {l : Λ} {m : σ} {r : Ret} : x.phase t = .inside op l →
      M.body op x.mem l e = some (.done m r) →
      Steps M x (.run t e) { x.goto t (.leaving op r) with mem := m }
  | faults {t : ι} {e : ε} {op : Op} {l : Λ} : x.phase t = .inside op l →
      M.body op x.mem l e = some .fault → Steps M x (.run t e) (x.goto t .faulted)
  | unlocks {t : ι} {e : ε} {op : Op} {r : Ret} : x.phase t = .leaving op r →
      Steps M x (.run t e) { x.goto t (.returning op r) with owner := none }
  | returns {t : ι} {e : ε} {op : Op} {r : Ret} : x.phase t = .returning op r →
      Steps M x (.run t e) (x.goto t .idle)

variable {exec : A → Op → A × Ret} {M : Monitor σ Λ ε Op Ret} {x x' : State ι σ Λ Op Ret}
  {y : Atomic ι A Op Ret} {lb : Label ι ε Op} {t u : ι} {op : Op} {a : A}

lemma steps_of_step (h : step M x lb = some x') : Steps M x lb x' := by
  cases lb with
  | call t op =>
    simp only [step] at h
    split at h
    · cases h
      exact .calls ‹_›
    · cases h
  | run t e =>
    simp only [step] at h
    split at h
    · cases h
    · cases h
    · split at h
      · cases h
        exact .answers ‹_› ‹_›
      · cases h
        exact .passes ‹_› ‹_›
    · split at h
      · cases h
      · cases h
        exact .locks ‹_› ‹_›
    · split at h
      · cases h
      · cases h
        exact .goesOn ‹_› ‹_›
      · cases h
        exact .ends ‹_› ‹_›
      · cases h
        exact .faults ‹_› ‹_›
    · cases h
      exact .unlocks ‹_›
    · cases h
      exact .returns ‹_›

lemma phase_goto (p : Phase Λ Op Ret) :
    (x.goto t p).phase u = if u = t then p else x.phase u :=
  Function.update_apply ..

/-! ### Refinement -/

def Micro.Ok (P : σ → Λ → Prop) (Q : σ → Ret → Prop) : Micro σ Λ Ret → Prop
  | .next m l => P m l
  | .done m r => Q m r
  | .fault => False

/-- **What makes the bodies atomic.** Under the mutex the body of `op` goes from a memory `m`
through those that `J op m` describes, and ends where one step of the atomic object ends. No
instruction changes what the test without the mutex finds. -/
structure Refines (exec : A → Op → A × Ret) (M : Monitor σ Λ ε Op Ret) (ok : Op → Prop)
    (I : σ → Prop) (abs : σ → A) (J : Op → σ → σ → Λ → Prop) : Prop where
  check : ∀ m op r, I m → ok op → M.check m op = some r → exec (abs m) op = (abs m, r)
  start : ∀ m op, I m → ok op → M.check m op = none → J op m m (M.start op)
  body : ∀ m op m' l e v, I m → ok op → J op m m' l → M.body op m' l e = some v →
    v.Ok (J op m) fun m1 r => I m1 ∧ exec (abs m) op = (abs m1, r)
  stable : ∀ m op m' l e v, I m → ok op → J op m m' l → M.body op m' l e = some v →
    v.Ok (fun m1 _ => M.check m1 = M.check m') fun m1 _ => M.check m1 = M.check m'

/-- What the atomic object's client sees of a thread. -/
def Phase.slot : Phase Λ Op Ret → Slot Op Ret
  | .idle | .faulted => .idle
  | .called op | .waiting op | .inside op _ => .called op
  | .leaving op r | .returning op r => .done op r

def Phase.holds : Phase Λ Op Ret → Bool
  | .inside _ _ | .leaving _ _ => true
  | _ => false

/-- The memory, and the one the body under way has started from. -/
structure Held (M : Monitor σ Λ ε Op Ret) (I : σ → Prop) (abs : σ → A)
    (J : Op → σ → σ → Λ → Prop) (x : State ι σ Λ Op Ret) (a : A) (m : σ) : Prop where
  inv : I m
  obj : a = abs m
  check : M.check x.mem = M.check m
  mem : (x.mem = m ∧ ∀ t op l, x.phase t ≠ .inside op l) ∨
    ∃ t op l, x.phase t = .inside op l ∧ J op m x.mem l

structure Sim (M : Monitor σ Λ ε Op Ret) (ok : Op → Prop) (I : σ → Prop) (abs : σ → A)
    (J : Op → σ → σ → Λ → Prop) (x : State ι σ Λ Op Ret) (y : Atomic ι A Op Ret) : Prop where
  slot : ∀ t, y.slot t = (x.phase t).slot
  ok : ∀ t op, (x.phase t).slot = .called op → ok op
  safe : ∀ t, x.phase t ≠ .faulted
  waits : ∀ t op, x.phase t = .waiting op → M.check x.mem op = none
  owner : ∀ t, (x.phase t).holds = true ↔ x.owner = some t
  held : ∃ m, Held M I abs J x y.obj m

variable {ok : Op → Prop} {I : σ → Prop} {abs : σ → A} {J : Op → σ → σ → Λ → Prop}

/-- One thread goes on: what is left to say of the others. -/
lemma Sim.goto (hs : Sim M ok I abs J x y) (t : ι) (p : Phase Λ Op Ret) (m : σ) (o : Option ι)
    (y' : Atomic ι A Op Ret) (hy : y'.slot = Function.update y.slot t p.slot)
    (hok : ∀ op, p.slot = .called op → ok op) (hp : p ≠ .faulted)
    (hw : ∀ op, p = .waiting op → M.check m op = none) (hc : M.check m = M.check x.mem)
    (ho : ∀ u, (if u = t then p.holds else (x.phase u).holds) = true ↔ o = some u)
    (hh : ∃ m', Held M I abs J { x.goto t p with mem := m, owner := o } y'.obj m') :
    Sim M ok I abs J { x.goto t p with mem := m, owner := o } y' where
  slot u := by
    change y'.slot u = ((x.goto t p).phase u).slot
    rw [hy, Function.update_apply, phase_goto]
    split_ifs
    · rfl
    · exact hs.slot u
  ok u op h := by
    change ((x.goto t p).phase u).slot = _ at h
    rw [phase_goto] at h
    split_ifs at h
    · exact hok op h
    · exact hs.ok u op h
  safe u := by
    change (x.goto t p).phase u ≠ _
    rw [phase_goto]
    split_ifs
    · exact hp
    · exact hs.safe u
  waits u op h := by
    change (x.goto t p).phase u = _ at h
    change M.check m op = none
    rw [phase_goto] at h
    split_ifs at h
    · exact hw op h
    · rw [hc]
      exact hs.waits u op h
  owner u := by
    rw [← ho u]
    change ((x.goto t p).phase u).holds = true ↔ _
    rw [phase_goto, apply_ite Phase.holds]
  held := hh

omit [DecidableEq ι] in
/-- Nobody is inside while nobody has the mutex. -/
lemma Sim.nobody (hs : Sim M ok I abs J x y) (ho : x.owner = none) (t : ι) (op : Op) (l : Λ) :
    x.phase t ≠ .inside op l := fun h => by
  have h1 := (hs.owner t).mp (by rw [h]; rfl)
  rw [ho] at h1
  cases h1

omit [DecidableEq ι] in
lemma Sim.alone (hs : Sim M ok I abs J x y) (ht : (x.phase t).holds = true)
    (hu : (x.phase u).holds = true) : u = t :=
  Option.some.inj (((hs.owner u).mp hu).symm.trans ((hs.owner t).mp ht))

/-- A thread that neither takes nor gives up the mutex. -/
lemma Sim.owner_same (hs : Sim M ok I abs J x y) (p : Phase Λ Op Ret)
    (hp : p.holds = (x.phase t).holds) (u : ι) :
    (if u = t then p.holds else (x.phase u).holds) = true ↔ x.owner = some u := by
  split_ifs with he
  · rw [hp, ← he]
    exact hs.owner u
  · exact hs.owner u

/-- A thread that is not inside, and does not get there, leaves the memory to the others. -/
lemma Held.goto {m : σ} (hh : Held M I abs J x a m) (o : Option ι) {p : Phase Λ Op Ret}
    (ht : ∀ op l, x.phase t ≠ .inside op l) (hp : ∀ op l, p ≠ .inside op l) :
    Held M I abs J { x.goto t p with owner := o } a m where
  inv := hh.inv
  obj := hh.obj
  check := hh.check
  mem := by
    rcases hh.mem with ⟨hm, hn⟩ | ⟨u, op, l, hu, hj⟩
    · refine .inl ⟨hm, fun u op l h => ?_⟩
      change (x.goto t p).phase u = _ at h
      rw [phase_goto] at h
      split_ifs at h
      · exact hp op l h
      · exact hn u op l h
    · have hne : u ≠ t := fun he => ht op l (he ▸ hu)
      exact .inr ⟨u, op, l, by rw [← hu]; exact Function.update_of_ne hne _ _, hj⟩

omit [DecidableEq ι] in
/-- The memory under the body of the thread that is inside. -/
lemma Sim.inside (hs : Sim M ok I abs J x y) {l : Λ} (ht : x.phase t = .inside op l) :
    ∃ m, I m ∧ y.obj = abs m ∧ M.check x.mem = M.check m ∧ J op m x.mem l := by
  obtain ⟨m, hm⟩ := hs.held
  rcases hm.mem with ⟨-, hn⟩ | ⟨u, op', l', hu, hj⟩
  · exact absurd ht (hn t op l)
  · obtain rfl : u = t := hs.alone (by rw [ht]; rfl) (by rw [hu]; rfl)
    rw [ht] at hu
    cases hu
    exact ⟨m, hm.inv, hm.obj, hm.check, hj⟩

/-- **A step is a step of the atomic object or none.** -/
lemma Refines.simulates (hR : Refines exec M ok I abs J) (hs : Sim M ok I abs J x y)
    (hok : ∀ t op, lb = .call t op → ok op) (hst : Steps M x lb x') :
    (Sim M ok I abs J x' y ∧ event x lb = none) ∨
      ∃ b y', Atomic.step exec y b = some y' ∧ Sim M ok I abs J x' y' ∧
        Atomic.event y b = event x lb := by
  obtain ⟨m, hm⟩ := hs.held
  cases hst with
  | @calls t op ht =>
    have hy : y.slot t = .idle := by rw [hs.slot, ht]; rfl
    refine .inr ⟨.call t op, { y with slot := Function.update y.slot t (.called op) }, ?_, ?_, rfl⟩
    · simp only [Atomic.step, hy]
    · refine hs.goto t (.called op) x.mem x.owner _ rfl ?_ nofun nofun rfl ?_ ?_
      · intro op' h
        cases h
        exact hok t op rfl
      · exact hs.owner_same _ (by rw [ht]; rfl)
      · exact ⟨m, hm.goto _ (by simp [ht]) nofun⟩
  | @answers t e op r ht hc =>
    have hy : y.slot t = .called op := by rw [hs.slot, ht]; rfl
    have hop : ok op := hs.ok t op (by rw [ht]; rfl)
    have hx : exec y.obj op = (y.obj, r) := by
      rw [hm.obj]
      exact hR.check m op r hm.inv hop (by rw [← hm.check]; exact hc)
    refine .inr ⟨.fire t, { y with slot := Function.update y.slot t (.done op r) }, ?_, ?_, ?_⟩
    · simp only [Atomic.step, hy, hx]
    · refine hs.goto t (.returning op r) x.mem x.owner _ rfl nofun nofun nofun rfl ?_ ?_
      · exact hs.owner_same _ (by rw [ht]; rfl)
      · exact ⟨m, hm.goto _ (by simp [ht]) nofun⟩
    · simp only [event, ht, Atomic.event]
  | @passes t e op ht hc =>
    have hop : ok op := hs.ok t op (by rw [ht]; rfl)
    refine .inl ⟨?_, by simp only [event, ht]⟩
    refine hs.goto t (.waiting op) x.mem x.owner _ ?_ ?_ nofun ?_ rfl ?_ ?_
    · have hy : y.slot t = (Phase.waiting op : Phase Λ Op Ret).slot := by
        rw [hs.slot, ht]
        rfl
      rw [← hy, Function.update_eq_self]
    · intro op' h
      cases h
      exact hop
    · intro op' h
      cases h
      exact hc
    · exact hs.owner_same _ (by rw [ht]; rfl)
    · exact ⟨m, hm.goto _ (by simp [ht]) nofun⟩
  | @locks t e op ht ho =>
    have hop : ok op := hs.ok t op (by rw [ht]; rfl)
    have hmem : x.mem = m := by
      rcases hm.mem with ⟨h, -⟩ | ⟨u, op', l, hu, -⟩
      · exact h
      · exact absurd hu (hs.nobody ho u op' l)
    have hc : M.check m op = none := by
      rw [← hmem]
      exact hs.waits t op ht
    refine .inl ⟨?_, by simp only [event, ht]⟩
    refine hs.goto t (.inside op (M.start op)) x.mem (some t) _ ?_ ?_ nofun nofun rfl ?_ ?_
    · have hy : y.slot t = (Phase.inside op (M.start op) : Phase Λ Op Ret).slot := by
        rw [hs.slot, ht]
        rfl
      rw [← hy, Function.update_eq_self]
    · intro op' h
      cases h
      exact hop
    · intro u
      split_ifs with he
      · simp [Phase.holds, he]
      · rw [hs.owner u, ho]
        simp [Ne.symm he]
    · refine ⟨m, hm.inv, hm.obj, hm.check, .inr ⟨t, op, M.start op, ?_, ?_⟩⟩
      · exact Function.update_self ..
      · change J op m x.mem _
        rw [hmem]
        exact hR.start m op hm.inv hop hc
  | @goesOn t e op l l' m' ht hb =>
    have hop : ok op := hs.ok t op (by rw [ht]; rfl)
    obtain ⟨m, hi, hobj, hcm, hj⟩ := hs.inside ht
    have hj' : J op m m' l' := hR.body m op x.mem l e _ hi hop hj hb
    have hc' : M.check m' = M.check x.mem := hR.stable m op x.mem l e _ hi hop hj hb
    refine .inl ⟨?_, by simp only [event, ht]⟩
    refine hs.goto t (.inside op l') m' x.owner _ ?_ ?_ nofun nofun hc' ?_ ?_
    · have hy : y.slot t = (Phase.inside op l' : Phase Λ Op Ret).slot := by
        rw [hs.slot, ht]
        rfl
      rw [← hy, Function.update_eq_self]
    · intro op' h
      cases h
      exact hop
    · exact hs.owner_same _ (by rw [ht]; rfl)
    · exact ⟨m, hi, hobj, hc'.trans hcm, .inr ⟨t, op, l', Function.update_self .., hj'⟩⟩
  | @ends t e op l m' r ht hb =>
    have hop : ok op := hs.ok t op (by rw [ht]; rfl)
    obtain ⟨m, hi, hobj, -, hj⟩ := hs.inside ht
    obtain ⟨hi', hx⟩ : I m' ∧ exec (abs m) op = (abs m', r) :=
      hR.body m op x.mem l e _ hi hop hj hb
    have hc' : M.check m' = M.check x.mem := hR.stable m op x.mem l e _ hi hop hj hb
    have hy : y.slot t = .called op := by rw [hs.slot, ht]; rfl
    refine .inr ⟨.fire t, ⟨abs m', Function.update y.slot t (.done op r)⟩, ?_, ?_, ?_⟩
    · simp only [Atomic.step, hy, hobj, hx]
    · refine hs.goto t (.leaving op r) m' x.owner _ rfl nofun nofun nofun hc' ?_ ?_
      · exact hs.owner_same _ (by rw [ht]; rfl)
      · refine ⟨m', hi', rfl, rfl, .inl ⟨rfl, fun u op' l' h => ?_⟩⟩
        change (x.goto t _).phase u = _ at h
        rw [phase_goto] at h
        split_ifs at h with he
        exact he (hs.alone (by rw [ht]; rfl) (by rw [h]; rfl))
    · simp only [event, ht, Atomic.event]
  | @faults t e op l ht hb =>
    have hop : ok op := hs.ok t op (by rw [ht]; rfl)
    obtain ⟨m, hi, -, -, hj⟩ := hs.inside ht
    exact (hR.body m op x.mem l e _ hi hop hj hb).elim
  | @unlocks t e op r ht =>
    have hown : x.owner = some t := (hs.owner t).mp (by rw [ht]; rfl)
    refine .inl ⟨?_, by simp only [event, ht]⟩
    refine hs.goto t (.returning op r) x.mem none _ ?_ nofun nofun nofun rfl ?_ ?_
    · have hy : y.slot t = (Phase.returning (Λ := Λ) op r).slot := by
        rw [hs.slot, ht]
        rfl
      rw [← hy, Function.update_eq_self]
    · intro u
      split_ifs with he
      · simp [Phase.holds]
      · rw [hs.owner u, hown]
        simp [Ne.symm he]
    · exact ⟨m, hm.goto _ (by simp [ht]) nofun⟩
  | @returns t e op r ht =>
    have hy : y.slot t = .done op r := by rw [hs.slot, ht]; rfl
    refine .inr ⟨.ret t, { y with slot := Function.update y.slot t .idle }, ?_, ?_, ?_⟩
    · simp only [Atomic.step, hy]
    · refine hs.goto t .idle x.mem x.owner _ rfl nofun nofun nofun rfl ?_ ?_
      · exact hs.owner_same _ (by rw [ht]; rfl)
      · exact ⟨m, hm.goto _ (by simp [ht]) nofun⟩
    · simp only [event, ht, Atomic.event, hy]

/-- The operation of a call is one of those considered. -/
def Label.Ok (ok : Op → Prop) : Label ι ε Op → Prop
  | .call _ op => ok op
  | .run _ _ => True

instance [DecidablePred ok] : DecidablePred (@Label.Ok ι ε Op ok)
  | .call _ op => inferInstanceAs (Decidable (ok op))
  | .run _ _ => inferInstanceAs (Decidable True)

/-- **The refinement rule.** Every history is one of the atomic object, and the memory is what
the atomic object is left as, up to the body under way. -/
theorem Refines.run (hR : Refines exec M ok I abs J) {m : σ} (hi : I m)
    {h : List (State ι σ Λ Op Ret × Label ι ε Op)} (hr : Run (monitor ι M m) h x)
    (hok : ∀ p ∈ h, p.2.Ok ok) :
    ∃ y, LinearizesTo exec (abs m) (shown event h) y ∧ Sim M ok I abs J x y := by
  obtain ⟨h', y, hr', hs, hsh⟩ :=
    hr.simulate (M := atomic ι exec (abs m)) event Atomic.event (fun _ b => b.Ok ok)
      (Sim M ok I abs J)
      (fun x hx => by
        cases hx
        exact ⟨_, rfl, fun _ => rfl, nofun, nofun, nofun, fun t => by simp [Phase.holds],
          m, hi, rfl, rfl, .inl ⟨rfl, nofun⟩⟩)
      (fun x b x' y hs hb hst => by
        refine hR.simulates hs ?_ (steps_of_step hst)
        rintro t op rfl
        exact hb)
      hok
  exact ⟨y, ⟨h', hr', hsh⟩, hs⟩

/-- **A refinement keeps the threads from faults and makes every history linearizable.** -/
theorem Refines.linearizable (hR : Refines exec M ok I abs J) {m : σ} (hi : I m)
    {h : List (State ι σ Λ Op Ret × Label ι ε Op)} (hr : Run (monitor ι M m) h x)
    (hok : ∀ p ∈ h, p.2.Ok ok) :
    (∀ t, x.phase t ≠ .faulted) ∧ Linearizable exec (abs m) (shown event h) := by
  obtain ⟨y, hy, hsim⟩ := hR.run hi hr hok
  exact ⟨hsim.safe, y, hy⟩

/-! ### The operations in the order in which they take effect -/

/-- One thread, one operation after the other. -/
def sequential (exec : A → Op → A × Ret) (a : A) : Lts A Op :=
  ofFun (fun b => b = a) fun b op => some (exec b op).1

/-- The operation that takes effect, and its result. -/
def fired (exec : A → Op → A × Ret) (y : Atomic ι A Op Ret) : Act ι Op → Option (Op × Ret)
  | .fire t =>
    match y.slot t with
    | .called op => some (op, (exec y.obj op).2)
    | _ => none
  | _ => none

def Event.returns (f : Op → Ret → Bool) : Event ι Op Ret → Bool
  | .inv _ _ => false
  | .res _ op r => f op r

/-- One where an operation has taken effect and has not returned. -/
def Slot.pending (f : Op → Ret → Bool) : Slot Op Ret → ℕ
  | .done op r => (f op r).toNat
  | _ => 0

@[simp] lemma Slot.pending_idle (f : Op → Ret → Bool) : (Slot.idle).pending f = 0 := rfl

@[simp] lemma Slot.pending_called (f : Op → Ret → Bool) (op : Op) :
    (Slot.called op).pending f = 0 := rfl

@[simp] lemma Slot.pending_done (f : Op → Ret → Bool) (op : Op) (r : Ret) :
    (Slot.done op r).pending f = (f op r).toNat := rfl

lemma run_sequential {h : List (Atomic ι A Op Ret × Act ι Op)} (hr : Run (atomic ι exec a) h y) :
    ∃ hs, Run (sequential exec a) hs y.obj ∧
      hs.map (fun p => (p.2, (exec p.1 p.2).2)) = shown (fired exec) h := by
  obtain ⟨hs, b, hr', rfl, hsh⟩ :=
    hr.simulate (M := sequential exec a) (fired exec)
      (fun b op => some (op, (exec b op).2)) (fun _ _ => True) (fun y b => b = y.obj)
      (fun y hy => ⟨a, rfl, by rw [hy]⟩)
      (by
        rintro y b y' _ rfl - hst
        change Atomic.step exec y b = some y' at hst
        cases b with
        | call t op =>
          simp only [Atomic.step] at hst
          split at hst <;> cases hst
          exact .inl ⟨rfl, rfl⟩
        | fire t =>
          simp only [Atomic.step] at hst
          split at hst <;> cases hst
          rename_i op hy
          exact .inr ⟨op, _, rfl, rfl, by simp only [fired, hy]⟩
        | ret t =>
          simp only [Atomic.step] at hst
          split at hst <;> cases hst
          exact .inl ⟨rfl, rfl⟩)
      (by simp)
  refine ⟨hs, hr', ?_⟩
  rw [← hsh, shown, ← List.filterMap_eq_map]
  rfl

/-- Operations have returned or are about to. -/
lemma countP_fired [Fintype ι] {h : List (Atomic ι A Op Ret × Act ι Op)}
    (hr : Run (atomic ι exec a) h y) (f : Op → Ret → Bool) :
    (shown (fired exec) h).countP (fun p => f p.1 p.2) =
      (shown Atomic.event h).countP (Event.returns f) + ∑ t, (y.slot t).pending f := by
  induction hr with
  | init h0 =>
    cases h0
    simp
  | @step h y y' b _ hst ih =>
    change Atomic.step exec y b = some y' at hst
    have hsum : ∀ (t : ι) (s : Slot Op Ret),
        ∑ u, (Function.update y.slot t s u).pending f + (y.slot t).pending f =
          ∑ u, (y.slot u).pending f + s.pending f := by
      intro t s
      rw [← Finset.add_sum_erase _ _ (Finset.mem_univ t),
        ← Finset.add_sum_erase (f := fun u => (y.slot u).pending f) _ (Finset.mem_univ t),
        Function.update_self]
      have he : ∀ u ∈ Finset.univ.erase t,
          (Function.update y.slot t s u).pending f = (y.slot u).pending f := fun u hu => by
        rw [Function.update_of_ne (Finset.ne_of_mem_erase hu)]
      rw [Finset.sum_congr rfl he]
      omega
    rw [shown_snoc, shown_snoc, List.countP_append, List.countP_append, ih]
    cases b with
    | call t op =>
      simp only [Atomic.step] at hst
      split at hst <;> cases hst
      rename_i hy
      have h1 := hsum t (.called op)
      simp only [hy, Slot.pending_idle, Slot.pending_called, add_zero] at h1
      simp [fired, Atomic.event, Event.returns, h1]
    | fire t =>
      simp only [Atomic.step] at hst
      split at hst <;> cases hst
      rename_i op hy
      have h1 := hsum t (.done op (exec y.obj op).2)
      simp only [hy, Slot.pending_called, Slot.pending_done, add_zero] at h1
      cases hf : f op (exec y.obj op).2 <;>
        simp [fired, Atomic.event, hy, h1, hf, add_assoc]
    | ret t =>
      simp only [Atomic.step] at hst
      split at hst <;> cases hst
      rename_i op r hy
      have h1 := hsum t .idle
      simp only [hy, Slot.pending_idle, Slot.pending_done, add_zero] at h1
      cases hf : f op r <;> simp [fired, Atomic.event, Event.returns, hy, hf, ← h1]
      omega

/-- What takes effect has been called. -/
lemma fired_ok {h : List (Atomic ι A Op Ret × Act ι Op)} (hr : Run (atomic ι exec a) h y)
    (hok : ∀ t op, .inv t op ∈ shown Atomic.event h → ok op) :
    (∀ t op, y.slot t = .called op → ok op) ∧ ∀ p ∈ shown (fired exec) h, ok p.1 := by
  induction hr with
  | init h0 =>
    cases h0
    simp
  | @step h y y' b _ hst ih =>
    change Atomic.step exec y b = some y' at hst
    rw [shown_snoc] at hok
    obtain ⟨hcalled, hfired⟩ := ih fun t op hm => hok t op (List.mem_append_left _ hm)
    have hslot : ∀ (t : ι) (s : Slot Op Ret), (∀ op, s = .called op → ok op) →
        ∀ u op, Function.update y.slot t s u = .called op → ok op := by
      intro t s hs u op hu
      rw [Function.update_apply] at hu
      split_ifs at hu
      · exact hs op hu
      · exact hcalled u op hu
    rw [shown_snoc]
    cases b with
    | call t op =>
      simp only [Atomic.step] at hst
      split at hst <;> cases hst
      refine ⟨hslot t _ fun op' h => ?_, by simpa [fired] using hfired⟩
      cases h
      exact hok t op (by simp [Atomic.event])
    | fire t =>
      simp only [Atomic.step] at hst
      split at hst <;> cases hst
      rename_i op hy
      refine ⟨hslot t _ nofun, fun p hp => ?_⟩
      rcases List.mem_append.mp hp with hp | hp
      · exact hfired p hp
      · simp only [fired, hy, Option.toList_some, List.mem_singleton] at hp
        rw [hp]
        exact hcalled t op hy
    | ret t =>
      simp only [Atomic.step] at hst
      split at hst <;> cases hst
      exact ⟨hslot t _ nofun, by simpa [fired] using hfired⟩

/-- **What a linearizable history has done.** The operations in the order in which they take
effect are a run of one thread that leaves the same object; they have all been called, and as
many of each kind are in it as have returned, and those about to return. -/
theorem LinearizesTo.sequential [Fintype ι] {es : List (Event ι Op Ret)}
    (hl : LinearizesTo exec a es y) (hok : ∀ t op, .inv t op ∈ es → ok op) :
    ∃ hs, Run (sequential exec a) hs y.obj ∧ (∀ p ∈ hs, ok p.2) ∧ ∀ f : Op → Ret → Bool,
      hs.countP (fun p => f p.2 (exec p.1 p.2).2) =
        es.countP (Event.returns f) + ∑ t, (y.slot t).pending f := by
  obtain ⟨h, hr, rfl⟩ := hl
  obtain ⟨hs, hrs, hm⟩ := run_sequential hr
  refine ⟨hs, hrs, fun p hp => ?_, fun f => ?_⟩
  · exact (fired_ok hr hok).2 (p.2, _) (hm ▸ List.mem_map_of_mem hp)
  · rw [← countP_fired hr f, ← hm, List.countP_map]
    rfl

/-! ### Every call returns -/

/-- A body always finds an answer that can be given, and what it has left to do gets less. -/
structure Terminates (M : Monitor σ Λ ε Op Ret) (ok : Op → Prop) (I : σ → Prop)
    (J : Op → σ → σ → Λ → Prop) (rank : σ → Λ → ℕ) : Prop where
  answer : ∀ m op m' l, I m → ok op → J op m m' l → ∃ e v, M.body op m' l e = some v
  less : ∀ m op m' l e m1 l1, I m → ok op → J op m m' l →
    M.body op m' l e = some (.next m1 l1) → rank m1 l1 < rank m' l

/-- How many more phases a call goes through. -/
def Phase.weight : Phase Λ Op Ret → ℕ
  | .idle | .faulted => 0
  | .returning _ _ => 1
  | .leaving _ _ => 2
  | .inside _ _ => 3
  | .waiting _ => 4
  | .called _ => 5

def State.bodyLeft (rank : σ → Λ → ℕ) (x : State ι σ Λ Op Ret) : ℕ :=
  match x.owner with
  | none => 0
  | some t =>
    match x.phase t with
    | .inside _ l => rank x.mem l
    | _ => 0

/-- What is left to do without new calls. -/
def State.left [Fintype ι] (rank : σ → Λ → ℕ) (x : State ι σ Λ Op Ret) : ℕ ×ₗ ℕ :=
  toLex (∑ t, (x.phase t).weight, x.bodyLeft rank)

variable {rank : σ → Λ → ℕ}

lemma sum_weight_goto [Fintype ι] {p : Phase Λ Op Ret} (hp : p.weight < (x.phase t).weight) :
    ∑ u, ((x.goto t p).phase u).weight < ∑ u, (x.phase u).weight := by
  refine Finset.sum_lt_sum (fun u _ => ?_) ⟨t, Finset.mem_univ t, ?_⟩
  · rw [phase_goto]
    split_ifs with he
    · exact he ▸ hp.le
    · exact le_rfl
  · rw [phase_goto, if_pos rfl]
    exact hp

/-- **A step that is no call leaves less to do.** -/
lemma Terminates.left_lt [Fintype ι] (hR : Refines exec M ok I abs J)
    (hT : Terminates M ok I J rank) (hs : Sim M ok I abs J x y) {e : ε}
    (hst : Steps M x (.run t e) x') : x'.left rank < x.left rank := by
  cases hst with
  | answers ht _ | passes ht _ | locks ht _ | unlocks ht | returns ht | ends ht _ =>
    exact Prod.Lex.toLex_lt_toLex.mpr (.inl (sum_weight_goto (by rw [ht]; simp [Phase.weight])))
  | @goesOn t e op l l' m' ht hb =>
    have hop : ok op := hs.ok t op (by rw [ht]; rfl)
    have hown : x.owner = some t := (hs.owner t).mp (by rw [ht]; rfl)
    obtain ⟨m, hi, -, -, hj⟩ := hs.inside ht
    refine Prod.Lex.toLex_lt_toLex.mpr (.inr ⟨?_, ?_⟩)
    · refine Finset.sum_congr rfl fun u _ => ?_
      change ((x.goto t _).phase u).weight = _
      rw [phase_goto]
      split_ifs with he
      · rw [he, ht]
        rfl
      · rfl
    · have hph : (x.goto t (.inside op l')).phase t = .inside op l' := Function.update_self ..
      simp only [State.bodyLeft, hown, ht]
      change (match x.owner with
        | none => 0
        | some u =>
          match (x.goto t (.inside op l')).phase u with
          | .inside _ l => rank m' l
          | _ => 0) < _
      simp only [hown, hph]
      exact hT.less m op x.mem l e m' l' hi hop hj hb
  | @faults t e op l ht hb =>
    have hop : ok op := hs.ok t op (by rw [ht]; rfl)
    obtain ⟨m, hi, -, -, hj⟩ := hs.inside ht
    exact (hR.body m op x.mem l e _ hi hop hj hb).elim

/-- While a call is under way, some thread can go on. -/
lemma Terminates.enabled [Nonempty ε] (hT : Terminates M ok I J rank) (hs : Sim M ok I abs J x y)
    (ht : x.phase t ≠ .idle) : ∃ u e x', step M x (.run u e) = some x' := by
  obtain ⟨e0⟩ := ‹Nonempty ε›
  cases ho : x.owner with
  | some u =>
    have hu := (hs.owner u).mpr ho
    cases hp : x.phase u with
    | inside op l =>
      obtain ⟨m, hi, -, -, hj⟩ := hs.inside hp
      obtain ⟨e, v, hv⟩ := hT.answer m op x.mem l hi (hs.ok u op (by rw [hp]; rfl)) hj
      refine ⟨u, e, ?_⟩
      cases v <;> exact ⟨_, by simp only [step, hp, hv]; rfl⟩
    | leaving op r => exact ⟨u, e0, _, by simp only [step, hp]; rfl⟩
    | _ => simp [hp, Phase.holds] at hu
  | none =>
    cases hp : x.phase t with
    | idle => exact absurd hp ht
    | called op =>
      refine ⟨t, e0, ?_⟩
      cases hc : M.check x.mem op <;> exact ⟨_, by simp only [step, hp, hc]; rfl⟩
    | waiting op => exact ⟨t, e0, _, by simp only [step, hp, ho]; rfl⟩
    | inside op l => exact absurd hp (hs.nobody ho t op l)
    | leaving op r =>
      have h1 := (hs.owner t).mp (by rw [hp]; rfl)
      rw [ho] at h1
      cases h1
    | returning op r => exact ⟨t, e0, _, by simp only [step, hp]; rfl⟩
    | faulted => exact absurd hp (hs.safe t)

/-- Every call returns: while one is under way some thread can go on, and the threads cannot go
on for ever without a new call. -/
def Returns (M : Monitor σ Λ ε Op Ret) (x : State ι σ Λ Op Ret) : Prop :=
  ((∃ t, x.phase t ≠ .idle) → ∃ u e x', step M x (.run u e) = some x') ∧
    ¬∃ f : ℕ → State ι σ Λ Op Ret, f 0 = x ∧
      ∀ n, ∃ u e, step M (f n) (.run u e) = some (f (n + 1))

/-- **The mutex is always given back.** -/
theorem Refines.returns [Fintype ι] [Nonempty ε] (hR : Refines exec M ok I abs J)
    (hT : Terminates M ok I J rank) {m : σ} (hi : I m)
    {h : List (State ι σ Λ Op Ret × Label ι ε Op)} (hr : Run (monitor ι M m) h x)
    (hok : ∀ p ∈ h, p.2.Ok ok) : Returns M x := by
  refine ⟨fun ⟨t, ht⟩ => ?_, fun ⟨f, hf0, hf⟩ => ?_⟩
  · obtain ⟨y, -, hs⟩ := hR.run hi hr hok
    exact hT.enabled hs ht
  · have hreach : ∀ n, ∃ h, Run (monitor ι M m) h (f n) ∧ ∀ p ∈ h, p.2.Ok ok := by
      intro n
      induction n with
      | zero => exact ⟨h, hf0 ▸ hr, hok⟩
      | succ n ih =>
        obtain ⟨h', hr', hok'⟩ := ih
        obtain ⟨u, e, hst⟩ := hf n
        refine ⟨_, hr'.step hst, fun p hp => ?_⟩
        rcases List.mem_append.mp hp with hp | hp
        · exact hok' p hp
        · rw [List.mem_singleton.mp hp]
          trivial
    have hlt : ∀ n, (f (n + 1)).left rank < (f n).left rank := by
      intro n
      obtain ⟨h', hr', hok'⟩ := hreach n
      obtain ⟨y, -, hs⟩ := hR.run hi hr' hok'
      obtain ⟨u, e, hst⟩ := hf n
      exact hT.left_lt hR hs (steps_of_step hst)
    obtain ⟨_, ⟨n, rfl⟩, hmin⟩ :=
      wellFounded_lt.has_min (Set.range fun n => (f n).left rank) ⟨_, 0, rfl⟩
    exact hmin _ ⟨n + 1, rfl⟩ (hlt n)

end DaimDistributed.Monitors
