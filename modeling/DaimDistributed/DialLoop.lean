import Mathlib.Algebra.Order.Ring.Nat
import Mathlib.Data.List.Induction
import DaimDistributed.Transitions

/-!
The dial thread of a configured peer: connect, run the connection, and after a failed attempt
back off.

`request_stop` may come between any two of its steps. What has happened so far is kept apart
from the thread's own variables, so that the waits are measured by the sleeps and not by
`backoff_ms`.
-/

namespace DaimDistributed.DialLoop

open Transitions

def backoffBaseMs : ℕ := 100

def backoffCapMs : ℕ := 5000

def stopPollMs : ℕ := 50

/-- Where the thread stands in `dial_thread_main`. -/
inductive Pc
  | check
  | socket
  | connect
  | running
  | failed
  | waiting (waited : ℕ)
  | sleeping (waited : ℕ)
  | left
  deriving DecidableEq

/-- The thread, the stop flag it polls, its share of the statistics and the details of the
"reconnecting" events it has fired. -/
structure Dial where
  stop : Bool := false
  pc : Pc := .check
  backoffMs : ℕ := backoffBaseMs
  attempt : UInt32 := 0
  reconnectAttempts : UInt64 := 0
  reconnecting : List UInt32 := []
  deriving DecidableEq

inductive Act
  | requestStop
  | checkStop
  | socket (ok : Bool)
  | connect (ok : Bool)
  | runReturns
  | reconnect
  | poll
  | sleep
  deriving DecidableEq

def step (s : Dial) : Act → Option Dial
  | .requestStop => some { s with stop := true }
  | .checkStop => if s.pc = .check then
      some { s with pc := if s.stop then .left else .socket } else none
  | .socket ok => if s.pc = .socket then
      some { s with pc := if ok then .connect else .left } else none
  | .connect ok => if s.pc = .connect then
      some (if ok then { s with backoffMs := backoffBaseMs, attempt := 0, pc := .running }
        else { s with pc := .failed }) else none
  | .runReturns => if s.pc = .running then some { s with pc := .check } else none
  | .reconnect => if s.pc = .failed then
      some { s with
        reconnectAttempts := s.reconnectAttempts + 1
        attempt := s.attempt + 1
        reconnecting := s.reconnecting ++ [s.attempt + 1]
        pc := .waiting 0 } else none
  | .poll =>
    match s.pc with
    | .waiting waited =>
      if waited < s.backoffMs ∧ s.stop = false then some { s with pc := .sleeping waited }
      else some { s with backoffMs := min (2 * s.backoffMs) backoffCapMs, pc := .check }
    | _ => none
  | .sleep =>
    match s.pc with
    | .sleeping waited => some { s with pc := .waiting (waited + stopPollMs) }
    | _ => none

/-- What each step finds and what it changes. -/
inductive Moves (s : Dial) : Act → Dial → Prop
  | requestStop : Moves s .requestStop { s with stop := true }
  | enter : s.pc = .check → s.stop = false → Moves s .checkStop { s with pc := .socket }
  | leave : s.pc = .check → s.stop = true → Moves s .checkStop { s with pc := .left }
  | socket : s.pc = .socket → Moves s (.socket true) { s with pc := .connect }
  | refused : s.pc = .socket → Moves s (.socket false) { s with pc := .left }
  | connected : s.pc = .connect → Moves s (.connect true)
      { s with backoffMs := backoffBaseMs, attempt := 0, pc := .running }
  | failed : s.pc = .connect → Moves s (.connect false) { s with pc := .failed }
  | returned : s.pc = .running → Moves s .runReturns { s with pc := .check }
  | reconnect : s.pc = .failed → Moves s .reconnect { s with
      reconnectAttempts := s.reconnectAttempts + 1
      attempt := s.attempt + 1
      reconnecting := s.reconnecting ++ [s.attempt + 1]
      pc := .waiting 0 }
  | wait {w : ℕ} : s.pc = .waiting w → w < s.backoffMs → Moves s .poll { s with pc := .sleeping w }
  | expired {w : ℕ} : s.pc = .waiting w → s.stop = true ∨ s.backoffMs ≤ w → Moves s .poll
      { s with backoffMs := min (2 * s.backoffMs) backoffCapMs, pc := .check }
  | sleep {w : ℕ} : s.pc = .sleeping w → Moves s .sleep { s with pc := .waiting (w + stopPollMs) }

lemma moves_of_step {s t : Dial} {a : Act} (hst : step s a = some t) : Moves s a t := by
  cases a with
  | requestStop =>
    cases hst
    exact .requestStop
  | checkStop =>
    simp only [step, Option.ite_none_right_eq_some] at hst
    obtain ⟨hpc, hst⟩ := hst
    cases hst
    by_cases hs : s.stop = true
    · rw [if_pos hs]
      exact .leave hpc hs
    · rw [if_neg hs]
      exact .enter hpc (eq_false_of_ne_true hs)
  | socket ok =>
    simp only [step, Option.ite_none_right_eq_some] at hst
    obtain ⟨hpc, hst⟩ := hst
    cases hst
    cases ok with
    | true => exact .socket hpc
    | false => exact .refused hpc
  | connect ok =>
    simp only [step, Option.ite_none_right_eq_some] at hst
    obtain ⟨hpc, hst⟩ := hst
    cases hst
    cases ok with
    | true => exact .connected hpc
    | false => exact .failed hpc
  | runReturns =>
    simp only [step, Option.ite_none_right_eq_some] at hst
    obtain ⟨hpc, hst⟩ := hst
    cases hst
    exact .returned hpc
  | reconnect =>
    simp only [step, Option.ite_none_right_eq_some] at hst
    obtain ⟨hpc, hst⟩ := hst
    cases hst
    exact .reconnect hpc
  | poll =>
    simp only [step] at hst
    split at hst
    · rename_i w hpc
      split_ifs at hst with hw
      · cases hst
        exact .wait hpc hw.1
      · cases hst
        refine .expired hpc ?_
        rcases hs : s.stop with _ | _
        · exact .inr (Nat.le_of_not_lt fun hlt => hw ⟨hlt, hs⟩)
        · exact .inl rfl
    · cases hst
  | sleep =>
    simp only [step] at hst
    split at hst
    · rename_i w hpc
      cases hst
      exact .sleep hpc
    · cases hst

/-- The thread from its start, under every outcome of its calls. -/
def system : Lts Dial Act := ofFun (· = {}) step

/-! ### What has happened -/

/-- The attempts and waits so far: whether there was an attempt and whether the connection it
made has returned, how many attempts in a row have failed, and the milliseconds slept since the
last one. -/
structure Past where
  attempted : Bool := false
  returned : Bool := false
  failures : ℕ := 0
  slept : ℕ := 0
  deriving DecidableEq

def Past.next (p : Past) : Act → Past
  | .connect ok => ⟨true, false, if ok then 0 else p.failures + 1, 0⟩
  | .runReturns => { p with returned := true }
  | .sleep => { p with slept := p.slept + stopPollMs }
  | _ => p

def past (h : List (Dial × Act)) : Past := h.foldl (fun p x => p.next x.2) {}

lemma past_snoc (h : List (Dial × Act)) (x : Dial × Act) :
    past (h ++ [x]) = (past h).next x.2 := by
  simp [past]

/-- The `k`-th wait in a row of failed attempts, in whole polling steps. -/
def waitOf (k : ℕ) : ℕ :=
  (min (backoffBaseMs * 2 ^ (k - 1)) backoffCapMs + (stopPollMs - 1)) / stopPollMs * stopPollMs

/-- A step taken as the backoff promises: the loop is left only after a stop request, a further
attempt comes after at least 100 ms, and a wait that ends by itself has the length that goes
with the number of failures. -/
structure Lawful (h : List (Dial × Act)) (s : Dial) (a : Act) : Prop where
  leaves : ∀ u, step s a = some u → u.pc = .left → u.stop = true
  spaced : ∀ ok, a = .connect ok → (past h).attempted = true → s.stop = true ∨
    backoffBaseMs ≤ (past h).slept
  backedOff : ∀ u, a = .poll → step s a = some u → u.pc = .check → s.stop = true ∨
    (past h).slept = waitOf (past h).failures

/-- No socket is refused, and no further attempt follows a connection that has returned, before
the stop request. -/
structure Quiet (h : List (Dial × Act)) (s : Dial) (a : Act) : Prop where
  socket : a = .socket false → s.stop = true
  connect : ∀ ok, a = .connect ok → (past h).returned = true → s.stop = true

/-! ### The backoff -/

/-- `backoff_ms` after `k` failures in a row. -/
def backoffOf (k : ℕ) : ℕ := min (backoffBaseMs * 2 ^ k) backoffCapMs

lemma backoffOf_succ (k : ℕ) : backoffOf (k + 1) = min (2 * backoffOf k) backoffCapMs := by
  simp only [backoffOf, backoffBaseMs, backoffCapMs, Nat.pow_succ]
  omega

lemma backoffBaseMs_le (k : ℕ) : backoffBaseMs ≤ backoffOf k := by
  have h : 1 ≤ 2 ^ k := Nat.one_le_two_pow
  simp only [backoffOf, backoffBaseMs, backoffCapMs]
  omega

/-- The cap is a whole number of polling steps, and so is every wait below it. -/
lemma stopPollMs_dvd (k : ℕ) : stopPollMs ∣ backoffOf k := by
  rw [backoffOf]
  rcases Nat.le_total (backoffBaseMs * 2 ^ k) backoffCapMs with h | h
  · rw [Nat.min_eq_left h]
    exact Nat.dvd_mul_right_of_dvd (by decide) _
  · rw [Nat.min_eq_right h]
    decide

lemma waitOf_succ (k : ℕ) : waitOf (k + 1) = backoffOf k := by
  have h := stopPollMs_dvd k
  change (backoffOf k + (stopPollMs - 1)) / stopPollMs * stopPollMs = backoffOf k
  rw [stopPollMs] at h ⊢
  omega

/-- What the thread's variables say of the past, by the place it stands at. -/
def Inv (p : Past) (s : Dial) : Prop :=
  match s.pc with
  | .check | .socket | .connect =>
    s.backoffMs = backoffOf p.failures ∧ (p.returned = true → p.attempted = true ∧ p.slept = 0) ∧
      (p.attempted = true → p.returned = true ∨ s.stop = true ∨ backoffBaseMs ≤ p.slept)
  | .running => s.backoffMs = backoffOf p.failures ∧ p.attempted = true ∧ p.slept = 0
  | .failed => ∃ k, p.failures = k + 1 ∧ s.backoffMs = backoffOf k ∧ p.returned = false ∧
      p.slept = 0
  | .waiting w => ∃ k, p.failures = k + 1 ∧ s.backoffMs = backoffOf k ∧ p.returned = false ∧
      p.slept = w ∧ stopPollMs ∣ w ∧ w ≤ backoffOf k
  | .sleeping w => ∃ k, p.failures = k + 1 ∧ s.backoffMs = backoffOf k ∧ p.returned = false ∧
      p.slept = w ∧ stopPollMs ∣ w ∧ w < backoffOf k
  | .left => True

variable {h : List (Dial × Act)} {p : Past} {s t : Dial} {a : Act}

lemma Inv.requestStop (hi : Inv p s) : Inv p { s with stop := true } := by
  obtain ⟨stop, pc, backoffMs, attempt, reconnectAttempts, reconnecting⟩ := s
  cases pc with
  | check | socket | connect => exact ⟨hi.1, hi.2.1, fun _ => .inr (.inl rfl)⟩
  | _ => exact hi

/-- A wait ends by itself only at its full length. -/
lemma Inv.wait_over {w : ℕ} (hi : Inv p s) (hpc : s.pc = .waiting w)
    (hw : s.stop = true ∨ s.backoffMs ≤ w) :
    s.stop = true ∨ ∃ k, p.failures = k + 1 ∧ p.slept = backoffOf k := by
  rw [Inv, hpc] at hi
  obtain ⟨k, hk, hb, -, hslept, -, hle⟩ := hi
  rcases hw with hs | hge
  · exact .inl hs
  · refine .inr ⟨k, hk, ?_⟩
    rw [hslept]
    exact Nat.le_antisymm hle (hb ▸ hge)

lemma inv_step (hi : Inv p s) (hst : step s a = some t) : Inv (p.next a) t := by
  cases moves_of_step hst with
  | requestStop => exact hi.requestStop
  | enter hpc _ | socket hpc =>
    rw [Inv, hpc] at hi
    exact hi
  | leave | refused => exact trivial
  | connected => exact ⟨rfl, rfl, rfl⟩
  | failed hpc =>
    rw [Inv, hpc] at hi
    exact ⟨p.failures, rfl, hi.1, rfl, rfl⟩
  | returned hpc =>
    rw [Inv, hpc] at hi
    exact ⟨hi.1, fun _ => hi.2, fun _ => .inl rfl⟩
  | reconnect hpc =>
    rw [Inv, hpc] at hi
    obtain ⟨k, hk, hb, hr, hslept⟩ := hi
    exact ⟨k, hk, hb, hr, hslept, Nat.dvd_zero _, Nat.zero_le _⟩
  | wait hpc hw =>
    rw [Inv, hpc] at hi
    obtain ⟨k, hk, hb, hr, hslept, hdvd, -⟩ := hi
    exact ⟨k, hk, hb, hr, hslept, hdvd, hb ▸ hw⟩
  | expired hpc hw =>
    have hover := hi.wait_over hpc hw
    rw [Inv, hpc] at hi
    obtain ⟨k, hk, hb, hr, -⟩ := hi
    refine ⟨?_, fun h => absurd (hr.symm.trans h) (by decide), fun _ => .inr ?_⟩
    · change min (2 * s.backoffMs) backoffCapMs = backoffOf p.failures
      rw [hk, backoffOf_succ, hb]
    · rcases hover with h | ⟨j, -, h⟩
      · exact .inl h
      · refine .inr ?_
        change backoffBaseMs ≤ p.slept
        rw [h]
        exact backoffBaseMs_le j
  | sleep hpc =>
    rw [Inv, hpc] at hi
    obtain ⟨k, hk, hb, hr, hslept, hdvd, hlt⟩ := hi
    refine ⟨k, hk, hb, hr, congrArg (· + stopPollMs) hslept,
      Nat.dvd_add hdvd (Nat.dvd_refl _), ?_⟩
    -- both are whole numbers of polling steps
    obtain ⟨i, rfl⟩ := hdvd
    obtain ⟨j, hj⟩ := stopPollMs_dvd k
    rw [hj] at hlt ⊢
    exact Nat.mul_le_mul_left stopPollMs (Nat.lt_of_mul_lt_mul_left hlt)

theorem run_inv (hr : Run system h s) : Inv (past h) s := by
  induction hr with
  | init h0 =>
    cases h0
    exact ⟨rfl, fun h => absurd h (by decide), fun h => absurd h (by decide)⟩
  | step _ hst ih =>
    rw [past_snoc]
    exact inv_step ih hst

/-! ### Which steps are lawful -/

/-- At an attempt: a connection has returned and nothing was slept since, or the wait is over. -/
lemma Inv.at_connect {ok : Bool} (hi : Inv p s) (hst : step s (.connect ok) = some t) :
    (p.returned = true → p.attempted = true ∧ p.slept = 0) ∧
      (p.attempted = true → p.returned = true ∨ s.stop = true ∨ backoffBaseMs ≤ p.slept) := by
  have hpc : s.pc = .connect := by
    cases moves_of_step hst <;> assumption
  rw [Inv, hpc] at hi
  exact hi.2

lemma Inv.backedOff (hi : Inv p s) (hst : step s .poll = some t) (ht : t.pc = .check) :
    s.stop = true ∨ p.slept = waitOf p.failures := by
  cases moves_of_step hst with
  | wait => cases ht
  | expired hpc hw =>
    rcases hi.wait_over hpc hw with hs | ⟨k, hk, hslept⟩
    · exact .inl hs
    · exact .inr (by rw [hslept, hk, waitOf_succ])

/-- The loop is left by the stop check, or where no socket can be had. -/
lemma leaves_iff (hst : step s a = some t) :
    (t.pc = .left → t.stop = true) ↔ (a = .socket false → s.stop = true) := by
  cases moves_of_step hst with
  | requestStop => simp
  | leave _ hs => simp [hs]
  | refused => simp
  | _ => simp

/-- Nothing but a refused socket and an attempt right behind a connection breaks the promise. -/
lemma lawful_iff (hi : Inv (past h) s) (hst : step s a = some t) :
    Lawful h s a ↔ Quiet h s a := by
  constructor
  · rintro ⟨hl, hsp, -⟩
    refine ⟨(leaves_iff hst).mp (hl t hst), ?_⟩
    rintro ok rfl hr
    obtain ⟨hatt, hslept⟩ := (hi.at_connect hst).1 hr
    rcases hsp ok rfl hatt with hs | hle
    · exact hs
    · rw [hslept] at hle
      exact absurd hle (by decide)
  · rintro ⟨hsk, hc⟩
    refine ⟨fun u hu => ?_, ?_, ?_⟩
    · obtain rfl := Option.some.inj (hst.symm.trans hu)
      exact (leaves_iff hst).mpr hsk
    · rintro ok rfl ha
      rcases (hi.at_connect hst).2 ha with hr | hs | hle
      · exact .inl (hc ok rfl hr)
      · exact .inl hs
      · exact .inr hle
    · rintro u rfl hu ht
      exact hi.backedOff hu ht

/-- **The dial loop backs off exactly as long as no connection returns.** In a run the loop is
left only after a stop request, attempts are at least 100 ms apart and the `k`-th wait in a row
of failures has its length, if and only if no socket is refused and no attempt follows a
connection that has returned, before the stop request. -/
theorem backs_off_iff (h : List (Dial × Act)) (s : Dial) (hr : Run system h s) :
    (∀ h₁ x h₂, h = h₁ ++ x :: h₂ → Lawful h₁ x.1 x.2) ↔
      ∀ h₁ x h₂, h = h₁ ++ x :: h₂ → Quiet h₁ x.1 x.2 := by
  have hiff : ∀ h₁ x h₂, h = h₁ ++ x :: h₂ → (Lawful h₁ x.1 x.2 ↔ Quiet h₁ x.1 x.2) := by
    intro h₁ x h₂ he
    obtain ⟨hr₁, u, hu⟩ := hr.of_append he
    exact lawful_iff (run_inv hr₁) hu
  constructor
  · intro hall h₁ x h₂ he
    exact (hiff h₁ x h₂ he).mp (hall h₁ x h₂ he)
  · intro hall h₁ x h₂ he
    exact (hiff h₁ x h₂ he).mpr (hall h₁ x h₂ he)

/-! ### Two runs -/

lemma past_returned (hr : ∀ x ∈ h, x.2 ≠ .runReturns) : (past h).returned = false := by
  induction h using List.reverseRecOn with
  | nil => rfl
  | append_singleton h x ih =>
    have hx : x.2 ≠ .runReturns := hr x (by simp)
    have hp := ih fun y hy => hr y (by simp [hy])
    rw [past_snoc]
    rcases x with ⟨s, a⟩
    cases a with
    | connect ok => rfl
    | runReturns => exact absurd rfl hx
    | _ => exact hp

/-- A run without a refused socket and without a connection that returns. -/
lemma quiet_of_labels (hr : ∀ x ∈ h, x.2 ≠ .runReturns ∧ x.2 ≠ .socket false)
    (h₁ : List (Dial × Act)) (x : Dial × Act) (h₂ : List (Dial × Act)) (he : h = h₁ ++ x :: h₂) :
    Quiet h₁ x.1 x.2 := by
  subst he
  refine ⟨fun hx => absurd hx (hr x (by simp)).2, fun ok _ hret => ?_⟩
  rw [past_returned fun y hy => (hr y (by simp [hy])).1] at hret
  cases hret

/-- An attempt fails, and the next one succeeds. -/
def secondTry : List Act :=
  [.checkStop, .socket true, .connect false, .reconnect, .poll, .sleep, .poll, .sleep, .poll,
    .checkStop, .socket true, .connect true]

/-- The second attempt comes after a wait of 100 ms. -/
theorem backs_off_secondTry : ∃ h s, Run system h s ∧ h.map Prod.snd = secondTry ∧
    ∀ h₁ x h₂, h = h₁ ++ x :: h₂ → Lawful h₁ x.1 x.2 := by
  obtain ⟨h, s, hr, hl⟩ := exists_run_of_replay (i := (· = {})) (f := step) secondTry rfl
    (fun h _ => h.map Prod.snd = secondTry) (by decide)
  refine ⟨h, s, hr, hl, (backs_off_iff h s hr).mpr (quiet_of_labels fun x hx => ?_)⟩
  have hx' : x.2 ∈ secondTry := hl ▸ List.mem_map_of_mem hx
  constructor
  · rintro he
    rw [he] at hx'
    exact absurd hx' (by decide)
  · rintro he
    rw [he] at hx'
    exact absurd hx' (by decide)

/-- A peer accepts, closes at once and accepts again. -/
def hotLoop : List (Dial × Act) :=
  [({}, .checkStop), ({ pc := .socket }, .socket true), ({ pc := .connect }, .connect true),
    ({ pc := .running }, .runReturns), ({}, .checkStop), ({ pc := .socket }, .socket true),
    ({ pc := .connect }, .connect true)]

lemma replay_hotLoop : replay step [] {} (hotLoop.map Prod.snd) =
    some (hotLoop, { pc := .running }) := rfl

lemma run_hotLoop : Run system hotLoop { pc := .running } :=
  replay_run (.init rfl) replay_hotLoop

/-- The second attempt comes with no wait at all. -/
theorem hot_reconnect : ∃ h s, Run system h s ∧
    ¬ ∀ h₁ x h₂, h = h₁ ++ x :: h₂ → Lawful h₁ x.1 x.2 := by
  refine ⟨hotLoop, _, run_hotLoop, fun hall => ?_⟩
  have hlast := hall (hotLoop.take 6) ({ pc := .connect }, .connect true) [] rfl
  have hsp := hlast.spaced true rfl (by decide)
  exact absurd hsp (by decide)

end DaimDistributed.DialLoop
