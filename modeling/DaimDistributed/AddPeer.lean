import DaimDistributed.Shutdown

/-!
`daim_peer_transport_add_peer`, call by call.

A call takes a slot of `peers` and publishes it, and then allocates the argument of the dial
thread and creates the thread; either may fail, and nothing gives the slot back. What is
counted is told apart by how the calls of a run have ended.
-/

namespace DaimDistributed.AddPeer

open Transitions
open Shutdown (maxConfiguredPeers maxThreads)

/-- `struct configured_peer`. -/
structure ConfiguredPeer where
  host : List UInt8 := []
  port : ℤ := 0
  deriving DecidableEq

/-- What a registered thread runs: `accept_thread_main`, or `dial_thread_main` for a peer. -/
inductive Thread
  | accept
  | dial (peerIndex : ℕ)
  deriving DecidableEq

def Thread.isDial : Thread → Bool
  | .accept => false
  | .dial _ => true

/-- The fields of `struct daim_peer_transport` that a call reads or writes, with
`stats.configured_peers`. -/
structure Transport where
  peers : ℕ → ConfiguredPeer := fun _ => {}
  peerCount : ℕ := 0
  threads : List Thread := []
  configuredPeers : ℕ := 0

/-- The arguments of a call, and how `malloc` and `pthread_create` end in it. -/
structure Call where
  host : Option (List UInt8)
  port : ℤ
  malloc : Bool
  pthreadCreate : Bool
  deriving DecidableEq

def registerThread (t : Transport) (th : Thread) : Transport :=
  if t.threads.length < maxThreads then { t with threads := t.threads ++ [th] } else t

/-- `snprintf` keeps 63 bytes of the host. -/
def allocate (t : Transport) (host : List UInt8) (port : ℤ) : Transport :=
  { t with
    peers := Function.update t.peers t.peerCount ⟨host.take 63, port⟩
    peerCount := t.peerCount + 1
    configuredPeers := t.peerCount + 1 }

def addPeer (t : Transport) (c : Call) : ℤ × Transport :=
  match c.host with
  | none => (-1, t)
  | some host =>
    if maxConfiguredPeers ≤ t.peerCount then (-1, t)
    else
      let idx := t.peerCount
      let t := allocate t host c.port
      if c.malloc = false then (-1, t)
      else if c.pthreadCreate = false then (-1, t)
      else (0, registerThread t (.dial idx))

/-- The calls, made one after the other on a transport that has just been created. -/
def transport : Lts Transport Call :=
  ofFun (· = { threads := [.accept] }) fun t c => some (addPeer t c).2

/-! ### The counts -/

def registeredDialThreads (t : Transport) : ℕ := t.threads.countP Thread.isDial

/-- How many of the first `n` peers have a dial thread. -/
def dialedBelow (threads : List Thread) (n : ℕ) : ℕ :=
  (List.range n).countP fun i => Thread.dial i ∈ threads

/-- How many peers have a dial thread. -/
def dialed (t : Transport) : ℕ := dialedBelow t.threads t.peerCount

/-- A call that returns -1 leaves the counts alone. -/
def AllOrNothing (t : Transport) (c : Call) : Prop :=
  (addPeer t c).1 = -1 →
    (addPeer t c).2.peerCount = t.peerCount ∧
      (addPeer t c).2.configuredPeers = t.configuredPeers ∧
      registeredDialThreads (addPeer t c).2 = registeredDialThreads t

/-- A call that gets a slot, and then no memory or no thread. -/
def FailsLate (t : Transport) (c : Call) : Prop :=
  c.host ≠ none ∧ t.peerCount < maxConfiguredPeers ∧ (c.malloc = false ∨ c.pthreadCreate = false)

instance (t : Transport) (c : Call) : Decidable (FailsLate t c) := by
  unfold FailsLate; infer_instance

/-- How many calls have returned 0. -/
def succeeded (h : List (Transport × Call)) : ℕ := h.countP fun p => (addPeer p.1 p.2).1 = 0

def failedLate (h : List (Transport × Call)) : ℕ := h.countP fun p => FailsLate p.1 p.2

variable {t : Transport} {c : Call} {h : List (Transport × Call)}

/-! ### How a call can end -/

inductive Ends (t : Transport) (c : Call) : ℤ × Transport → Prop
  | refused : ¬FailsLate t c → Ends t c (-1, t)
  | late {host : List UInt8} : FailsLate t c → Ends t c (-1, allocate t host c.port)
  | added {host : List UInt8} : ¬FailsLate t c → t.peerCount < maxConfiguredPeers →
      Ends t c (0, registerThread (allocate t host c.port) (.dial t.peerCount))

lemma ends (t : Transport) (c : Call) : Ends t c (addPeer t c) := by
  unfold addPeer
  split
  · exact .refused fun h => h.1 ‹_›
  · rename_i host hh
    have hne : c.host ≠ none := by simp [hh]
    split_ifs with h1 h2 h3
    · exact .refused fun h => absurd h.2.1 (Nat.not_lt.mpr h1)
    · exact .late ⟨hne, Nat.not_le.mp h1, .inl h2⟩
    · exact .late ⟨hne, Nat.not_le.mp h1, .inr h3⟩
    · exact .added (fun h => h.2.2.elim h2 h3) (Nat.not_le.mp h1)

/-- **A call is all or nothing exactly when it does not fail behind the cap**, in any state. -/
theorem allOrNothing_iff (t : Transport) (c : Call) : AllOrNothing t c ↔ ¬FailsLate t c := by
  have he := ends t c
  unfold AllOrNothing
  generalize addPeer t c = r at he ⊢
  cases he with
  | refused hf => exact ⟨fun _ => hf, fun _ _ => ⟨rfl, rfl, rfl⟩⟩
  | late hf =>
    refine ⟨fun ha => ?_, fun hn => absurd hf hn⟩
    have hcount : t.peerCount + 1 = t.peerCount := (ha rfl).1
    omega
  | added hf =>
    refine ⟨fun _ => hf, fun _ h0 => ?_⟩
    cases h0

/-! ### The invariant of the calls -/

/-- What the counts are after calls of which `s` have returned 0 and `l` have failed late. -/
structure Counts (s l : ℕ) (t : Transport) : Prop where
  configured : t.configuredPeers = t.peerCount
  slots : t.peerCount = s + l
  cap : t.peerCount ≤ maxConfiguredPeers
  threads : t.threads.length = s + 1
  registered : registeredDialThreads t = s
  dialed : dialed t = s
  lt : ∀ i, .dial i ∈ t.threads → i < t.peerCount

lemma counts_created : Counts 0 0 { threads := [.accept] } :=
  ⟨rfl, rfl, Nat.zero_le _, rfl, rfl, rfl, by simp⟩

lemma dialedBelow_succ (ths : List Thread) (n : ℕ) :
    dialedBelow ths (n + 1) = dialedBelow ths n + if .dial n ∈ ths then 1 else 0 := by
  simp [dialedBelow, List.range_succ, List.countP_append, List.countP_cons]

/-- A thread for another peer does not matter. -/
lemma dialedBelow_append (ths : List Thread) (n : ℕ) :
    dialedBelow (ths ++ [.dial n]) n = dialedBelow ths n := by
  refine List.countP_congr fun i hi => ?_
  have hne : i ≠ n := Nat.ne_of_lt (List.mem_range.mp hi)
  simp [hne]

variable {s l : ℕ}

lemma Counts.not_mem (hc : Counts s l t) : .dial t.peerCount ∉ t.threads :=
  fun hm => Nat.lt_irrefl _ (hc.lt _ hm)

/-- A slot is taken and stays without a dial thread. -/
lemma Counts.late (hc : Counts s l t) (hcap : t.peerCount < maxConfiguredPeers)
    (host : List UInt8) (port : ℤ) : Counts s (l + 1) (allocate t host port) where
  configured := rfl
  slots := congrArg (· + 1) hc.slots
  cap := hcap
  threads := hc.threads
  registered := hc.registered
  dialed := by
    change dialedBelow t.threads (t.peerCount + 1) = s
    rw [dialedBelow_succ, if_neg hc.not_mem]
    exact hc.dialed
  lt i hi := Nat.lt_succ_of_lt (hc.lt i hi)

/-- A slot is taken, and its dial thread is registered: there is room for it. -/
lemma Counts.added (hc : Counts s l t) (hcap : t.peerCount < maxConfiguredPeers)
    (host : List UInt8) (port : ℤ) :
    Counts (s + 1) l (registerThread (allocate t host port) (.dial t.peerCount)) := by
  have hslots := hc.slots
  have hths := hc.threads
  have hroom : (allocate t host port).threads.length < maxThreads := by
    change t.peerCount < 31 at hcap
    change t.threads.length < 64
    omega
  rw [registerThread, if_pos hroom]
  refine ⟨rfl, ?_, hcap, ?_, ?_, ?_, fun i hi => ?_⟩
  · change t.peerCount + 1 = s + 1 + l
    omega
  · change (t.threads ++ [Thread.dial t.peerCount]).length = s + 1 + 1
    rw [List.length_append, List.length_singleton, hths]
  · change (t.threads ++ [Thread.dial t.peerCount]).countP Thread.isDial = s + 1
    rw [List.countP_append]
    exact congrArg (· + 1) hc.registered
  · change dialedBelow (t.threads ++ [Thread.dial t.peerCount]) (t.peerCount + 1) = s + 1
    rw [dialedBelow_succ, dialedBelow_append, if_pos (by simp)]
    exact congrArg (· + 1) hc.dialed
  · change i < t.peerCount + 1
    rcases List.mem_append.mp hi with hi | hi
    · exact Nat.lt_succ_of_lt (hc.lt i hi)
    · cases List.mem_singleton.mp hi
      exact Nat.lt_succ_self _

/-- **A call keeps the counts.** -/
lemma Counts.step (hc : Counts (succeeded h) (failedLate h) t) (c : Call) :
    Counts (succeeded (h ++ [(t, c)])) (failedLate (h ++ [(t, c)])) (addPeer t c).2 := by
  have hs : succeeded (h ++ [(t, c)]) = succeeded h + if (addPeer t c).1 = 0 then 1 else 0 := by
    simp [succeeded, List.countP_append, List.countP_cons]
  have hl : failedLate (h ++ [(t, c)]) = failedLate h + if FailsLate t c then 1 else 0 := by
    simp [failedLate, List.countP_append, List.countP_cons]
  rw [hs, hl]
  have he := ends t c
  generalize addPeer t c = r at he ⊢
  cases he with
  | refused hf => simpa [hf] using hc
  | @late host hf => simpa [hf] using hc.late hf.2.1 host c.port
  | @added host hf hcap => simpa [hf] using hc.added hcap host c.port

lemma run_counts (hr : Run transport h t) : Counts (succeeded h) (failedLate h) t := by
  induction hr with
  | init h0 =>
    cases h0
    exact counts_created
  | step _ hst ih =>
    cases hst
    exact ih.step _

lemma failedLate_eq_zero : failedLate h = 0 ↔ ∀ p ∈ h, ¬FailsLate p.1 p.2 := by
  simp [failedLate, List.countP_eq_zero]

/-- **Calls are all or nothing exactly when none fails behind the cap.** In any state a call that
returns -1 leaves the counts alone if and only if it does not fail there. After any calls on a
new transport the configured peers are those that have a dial thread, and the slots used are the
calls that have returned 0, if and only if no call has failed there. -/
theorem add_peer_iff (hr : Run transport h t) :
    (∀ t' c, AllOrNothing t' c ↔ ¬FailsLate t' c) ∧
      ((∀ p ∈ h, AllOrNothing p.1 p.2) ↔ ∀ p ∈ h, ¬FailsLate p.1 p.2) ∧
      (t.configuredPeers = dialed t ↔ ∀ p ∈ h, ¬FailsLate p.1 p.2) ∧
      (t.peerCount = succeeded h ↔ ∀ p ∈ h, ¬FailsLate p.1 p.2) := by
  obtain ⟨h1, h2, -, -, -, h6, -⟩ := run_counts hr
  refine ⟨allOrNothing_iff, forall₂_congr fun p _ => allOrNothing_iff p.1 p.2, ?_, ?_⟩
  · rw [h1, h2, h6, ← failedLate_eq_zero]
    omega
  · rw [h2, ← failedLate_eq_zero]
    omega

def call (malloc pthreadCreate : Bool) : Call := ⟨some [], 20000, malloc, pthreadCreate⟩

theorem add_peer_twice :
    ∃ h t, Run transport h t ∧ t.configuredPeers = dialed t ∧ t.peerCount = 2 := by
  obtain ⟨h, t, hr, hp⟩ := exists_run_of_replay (i := (· = { threads := [.accept] }))
    (f := fun t c => some (addPeer t c).2) [call true true, call true true] rfl
    (fun h t => (∀ p ∈ h, ¬FailsLate p.1 p.2) ∧ t.peerCount = 2) (by decide)
  exact ⟨h, t, hr, (add_peer_iff hr).2.2.1.mpr hp.1, hp.2⟩

/-- After 31 calls that fail to create their thread no peer can be added any more, though none
has a dial thread. -/
theorem slots_used_up :
    ∃ h t, Run transport h t ∧ (∃ p ∈ h, ¬AllOrNothing p.1 p.2) ∧ t.configuredPeers = 31 ∧
      dialed t = 0 ∧ (addPeer t (call true true)).1 = -1 := by
  obtain ⟨h, t, hr, hp⟩ := exists_run_of_replay (i := (· = { threads := [.accept] }))
    (f := fun t c => some (addPeer t c).2) (List.replicate 31 (call true false)) rfl
    (fun h t => (∃ p ∈ h, FailsLate p.1 p.2) ∧ t.configuredPeers = 31 ∧ dialed t = 0 ∧
      (addPeer t (call true true)).1 = -1) (by decide)
  obtain ⟨⟨p, hp, hl⟩, h1, h2, h3⟩ := hp
  exact ⟨h, t, hr, ⟨p, hp, fun ha => (allOrNothing_iff _ _).mp ha hl⟩, h1, h2, h3⟩

end DaimDistributed.AddPeer
