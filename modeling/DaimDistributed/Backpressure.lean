import DaimDistributed.HostTable
import DaimDistributed.Phases

/-!
The snapshot exchange over channels of finite capacity.

A write waits while its channel is full, and an end that serves a request does not read.
So the two ends can wait for each other: both have filled their channel with a part of
their table. That happens exactly when both tables are as long as the channel they are
written to.
-/

namespace DaimDistributed.Backpressure

open HostState Transitions Transport Phases

/-- The steps of `exchange_snapshots`. -/
def exchanges : Act → Bool
  | .send | .recv _ | .exportSnapshot | .replayNext _ => true
  | _ => false

/-- The channel from `i` has room for one more frame. -/
def Room (cap : Side → ℕ) (c : Conn) (i : Side) : Prop :=
  (c i).sent.length < (c i.other).rcvd + cap i

instance (cap : Side → ℕ) (c : Conn) (i : Side) : Decidable (Room cap c i) :=
  inferInstanceAs (Decidable (_ < _))

/-- A step of the exchange; a write needs room. -/
def boundedStep (cap : Side → ℕ) (c : Conn) (l : Side × Act) : Option Conn :=
  if exchanges l.2 = true ∧ (l.2 = .send → Room cap c l.1) then step c l else none

/-- The exchange from one state on. -/
def exchange (cap : Side → ℕ) (start : Conn) : Lts Conn (Side × Act) :=
  ofFun (· = start) (boundedStep cap)

/-- An end that has sent and read HELLO and calls `exchange_snapshots`. -/
structure Greeted (x : Endpoint) : Prop where
  pc : x.pc = .sendRequest
  active : x.active = true
  sent : ∃ f, f.messageType = .hello ∧ x.sent = [f]
  rcvd : x.rcvd = 1
  quiet : x.ready = false ∧ x.becameReady = false ∧ x.pending = [] ∧ x.deferred = [] ∧
    x.served = [] ∧ x.stats.deferredUpdatesOverflowForcedReconnects = 0
  host : x.host.ready = true

def Finished (x : Endpoint) : Prop := x.pc = .setReady

/-- The end can take no step. -/
def Blocked (cap : Side → ℕ) (c : Conn) (i : Side) : Prop := ∀ l, boundedStep cap c (i, l) = none

/-- Neither end can take a step, and the exchange is not finished on both sides. -/
def Deadlock (cap : Side → ℕ) (c : Conn) : Prop :=
  (∀ i, Blocked cap c i) ∧ ¬∀ i, Finished (c i)

/-- No state the exchange reaches is a deadlock. -/
def DeadlockFree (cap : Side → ℕ) (start : Conn) : Prop :=
  ∀ h c, Run (exchange cap start) h c → ¬Deadlock cap c

variable {cap : Side → ℕ} {start c c' : Conn} {i : Side} {x x' : Endpoint} {n : ℕ}

/-! ### The invariant of the exchange -/

/-- The size of the snapshot an end has still to write, and the calls it is in. -/
structure Serves (n : ℕ) (x : Endpoint) : Prop where
  host : x.host.ready = true
  rcvd : 1 ≤ x.rcvd
  pc : match x.pc with
    | .sendRequest => x.sent.length = 1 ∧ x.host.table.length = n
    | .exchange => x.served = [] → x.sent.length = 2 ∧ x.host.table.length = n
    | .exporting _ => x.sent.length = 2 ∧ x.host.table.length = n
    | .serving entries _ => x.sent.length + entries.length = n + 2
    | .replay | .setReady => True
    | _ => False

lemma Greeted.serves (h : Greeted x) : Serves x.host.table.length x := by
  obtain ⟨f, -, hs⟩ := h.sent
  exact ⟨h.host, h.rcvd.ge, by rw [h.pc, hs]; exact ⟨rfl, rfl⟩⟩

lemma stage_hello {f : Frame} (hf : f.messageType = .hello) : stage [f] = some .greeted := by
  simp [stage, hf, next]

lemma Greeted.endInv (h : Greeted x) {ws : List Frame}
    (hw : ∃ f, f.messageType = .hello ∧ ws = [f]) :
    EndInv ws x := by
  obtain ⟨h1, h2, ⟨f, hf, hs⟩, h4, ⟨h5, h6, h7, h8, h9, h10⟩, h11⟩ := h
  obtain ⟨g, hg, rfl⟩ := hw
  have hr : stage ([g].take x.rcvd) = some .greeted := by simp [h4, stage_hello hg]
  refine ⟨⟨.greeted, .greeted, hs ▸ stage_hello hf, hr, ?_⟩, by simp [h4], fun _ => h2, ?_, ?_, ?_,
    h8, h10⟩
  · rw [h1]
    exact ⟨rfl, rfl, h9⟩
  all_goals simp [h5, h6, h7]

/-- An import leaves the table initialised. -/
lemma import_ready (s : State) (u : Option HostLocation) (n : UInt64) :
    (daimHostImportSnapshotEntry s u n).1.ready = s.ready := by
  unfold daimHostImportSnapshotEntry
  split
  · rfl
  · cases u with
    | none => rfl
    | some u => exact (HostTable.applyLocked_applies s u n).ready

lemma Serves.act {y : Endpoint} {l : Act} (h : Serves n x) (hi : EndInv y.sent x)
    (hy : stage y.sent ≠ none) (hl : exchanges l = true) (hst : act x y l = some x') :
    Serves n x' := by
  obtain ⟨hh, hr, hp⟩ := h
  cases l with
  | send =>
    simp only [Transport.act, Endpoint.send] at hst
    split at hst
    · cases hst
    split at hst <;> cases hst <;> rename_i hpc <;> simp only [hpc] at hp
    · refine ⟨hh, hr, fun _ => ⟨?_, hp.2⟩⟩
      simp [Endpoint.write, hp.1]
    · refine ⟨hh, hr, ?_⟩
      simp only [Endpoint.write, List.length_append, List.length_cons, List.length_nil] at hp ⊢
      omega
    · obtain ⟨q, r, -, -, hph⟩ := hi.phase
      simp only [hpc, Phase] at hph
      obtain ⟨rfl, -, -, hs⟩ := hph
      exact ⟨hh, hr, fun h0 => by simp [Endpoint.write, hs] at h0⟩
  | recv now =>
    simp only [Transport.act] at hst
    split at hst
    · cases hst
    rename_i f hf
    cases hi.reads hy hf hst with
    | hello hpc ht => simp [hpc] at hp
    | request hpc ht hs =>
      simp only [hpc, Endpoint.recv, Endpoint.exchangeMessage, ht] at hp hst
      cases hst
      exact ⟨hh, Nat.le_add_left _ _, hp hs⟩
    | entry hpc ht hs =>
      simp only [hpc, Endpoint.recv, Endpoint.exchangeMessage, ht] at hst
      split at hst <;> cases hst
      · exact ⟨hh, Nat.le_add_left _ _, fun h0 => by simp [Endpoint.countReceived, hs] at h0⟩
      · exact ⟨(import_ready _ _ _).trans hh, Nat.le_add_left _ _,
          fun h0 => by simp [Endpoint.countReceived, hs] at h0⟩
    | ended hpc ht hs =>
      simp only [hpc, Endpoint.recv, Endpoint.exchangeMessage, ht] at hst
      cases hst
      exact ⟨hh, Nat.le_add_left _ _, trivial⟩
    | update hpc ht => simp [hpc] at hp
  | exportSnapshot =>
    simp only [Transport.act, Endpoint.exportSnapshot] at hst
    split at hst
    · rename_i hpc
      simp only [hpc] at hp
      simp only [daimHostExportSnapshot, hh, Bool.true_eq_false, if_false] at hst
      cases hst
      exact ⟨hh, hr, by dsimp only; omega⟩
    · cases hst
  | replayNext now =>
    simp only [Transport.act, Endpoint.replayNext] at hst
    split at hst <;> cases hst
    · exact ⟨hh, hr, trivial⟩
    · rename_i hd
      simp [hi.deferred] at hd
  | _ => exact absurd hl Bool.false_ne_true

/-- Both ends of an exchange over tables of the given sizes. -/
structure ExInv (size : Side → ℕ) (c : Conn) : Prop where
  phases : Phases.Inv c
  serves : ∀ i, Serves (size i) (c i)

lemma ExInv.step {size : Side → ℕ} {l : Side × Act} (h : ExInv size c)
    (hst : boundedStep cap c l = some c') : ExInv size c' := by
  unfold boundedStep at hst
  split_ifs at hst with hl
  refine ⟨h.phases.step hst, fun j => ?_⟩
  obtain ⟨i, l⟩ := l
  obtain ⟨x, hx, rfl⟩ := step_eq_some.mp hst
  by_cases hj : j = i
  · subst hj
    rw [Function.update_self]
    have hy : stage (c j.other).sent ≠ none := by
      obtain ⟨q, r, hq, -⟩ := (h.phases j.other).phase
      simp [hq]
    exact (h.serves j).act (h.phases j) hy hl.1 hx
  · rw [Function.update_of_ne hj]
    exact h.serves j

lemma run_exInv {h : List (Conn × Side × Act)} (hs : ∀ i, Greeted (start i))
    (hr : Run (exchange cap start) h c) : ExInv (fun i => (start i).host.table.length) c := by
  refine hr.inv (ExInv _) ?_ fun _ _ _ hi hst => hi.step hst
  rintro _ rfl
  exact ⟨fun i => (hs i).endInv (hs i.other).sent, fun i => (hs i).serves⟩

/-! ### Who waits for whom -/

/-- Where an end of the exchange can be stuck: it is done, its next frame has not been
written, or its channel is full. -/
inductive Stuck (cap : Side → ℕ) (c : Conn) (i : Side) : Prop
  | finished (hpc : (c i).pc = .setReady)
  | waiting (hpc : (c i).pc = .exchange) (he : (c i).rcvd = (c i.other).sent.length)
  | full (es : List HostLocation) (b : Bool) (hpc : (c i).pc = .serving es b)
      (hf : ¬Room cap c i)

lemma boundedStep_eq_none {l : Act} (hl : exchanges l = true) (hr : l = .send → Room cap c i)
    (hb : boundedStep cap c (i, l) = none) : act (c i) (c i.other) l = none := by
  unfold boundedStep at hb
  rw [if_pos ⟨hl, hr⟩] at hb
  simpa [Transport.step] using hb

lemma ExInv.stuck {size : Side → ℕ} (h : ExInv size c) (hcap : ∀ i, 1 ≤ cap i)
    (hb : Blocked cap c i) : Stuck cap c i := by
  have hi := h.phases i
  obtain ⟨hh, hr, hp⟩ := h.serves i
  have hsend : Room cap c i → (c i).send = none := fun hroom =>
    boundedStep_eq_none rfl (fun _ => hroom) (hb .send)
  cases hpc : (c i).pc <;> simp only [hpc] at hp
  case sendRequest =>
    have hroom : Room cap c i := by
      have h1 := (h.serves i.other).rcvd
      have h2 := hcap i
      unfold Room
      omega
    have hact := hi.active (by simp [hpc])
    simp [Endpoint.send, hact, hpc] at hsend
    exact absurd hroom hsend
  case exchange =>
    refine .waiting hpc ?_
    by_contra hne
    have hlt : (c i).rcvd < (c i.other).sent.length := lt_of_le_of_ne hi.rcvd_le hne
    have h1 := boundedStep_eq_none (l := .recv 0) rfl (by simp) (hb (.recv 0))
    simp [Transport.act, List.getElem?_eq_getElem hlt, Endpoint.recv, hpc] at h1
  case exporting b =>
    have h1 := boundedStep_eq_none (l := .exportSnapshot) rfl (by simp) (hb .exportSnapshot)
    simp [Transport.act, Endpoint.exportSnapshot, hpc, daimHostExportSnapshot, hh] at h1
  case serving es b =>
    refine .full es b hpc fun hroom => ?_
    have hact := hi.active (by simp [hpc])
    have h1 := hsend hroom
    cases es <;> simp [Endpoint.send, hact, hpc] at h1
  case replay =>
    have h1 := boundedStep_eq_none (l := .replayNext 0) rfl (by simp) (hb (.replayNext 0))
    simp [Transport.act, Endpoint.replayNext, hpc, hi.deferred] at h1
  case setReady => exact .finished hpc

/-- Nothing but updates follows the end of a snapshot. -/
lemma stage_ended {fs : List Frame} {k : ℕ} {q : Stage} (h : stage (fs.take k) = some .ended)
    (hq : stage fs = some q) : q = .ended := by
  have happ : ∀ gs : List Frame, ∀ q, stage (fs.take k ++ gs) = some q → q = .ended := by
    intro gs
    induction gs using List.reverseRecOn with
    | nil =>
      intro q hq
      rw [List.append_nil, h] at hq
      exact (Option.some.inj hq).symm
    | append_singleton gs f ih =>
      intro q hq
      rw [← List.append_assoc, stage_snoc, Option.bind_eq_some_iff] at hq
      obtain ⟨q0, hq0, hn⟩ := hq
      obtain rfl := ih q0 hq0
      cases ht : f.messageType <;> simp [ht, next] at hn
      exact hn.symm
  exact happ (fs.drop k) q (by rwa [List.take_append_drop])

/-- An end that is serving has read HELLO and the request. -/
lemma two_le_of_requested {fs : List Frame} {k : ℕ} (h : stage (fs.take k) = some .requested) :
    2 ≤ k := by
  obtain ⟨m, hm⟩ := shape_of_stage h
  have := congrArg List.length hm
  simp at this
  omega

/-- A full channel holds no more than the table it is filled from. -/
lemma ExInv.full_le {size : Side → ℕ} (h : ExInv size c) {es es' : List HostLocation}
    {b b' : Bool} (hpc : (c i).pc = .serving es b) (hpc' : (c i.other).pc = .serving es' b')
    (hf : ¬Room cap c i) : cap i ≤ size i := by
  have hp := (h.serves i).pc
  simp only [hpc] at hp
  obtain ⟨q, r, -, hr, hph⟩ := (h.phases i.other).phase
  simp only [hpc', Phase] at hph
  obtain ⟨-, -, rfl, -⟩ := hph
  have h2 := two_le_of_requested hr
  unfold Room at hf
  omega

/-- An end that waits has read all the other has written; so the other is not stuck. -/
lemma ExInv.not_waiting {size : Side → ℕ} (h : ExInv size c) (hcap : ∀ i, 1 ≤ cap i)
    (hpc : (c i).pc = .exchange) (he : (c i).rcvd = (c i.other).sent.length)
    (ho : Stuck cap c i.other) : False := by
  obtain ⟨q, r, hq, hr, hp⟩ := (h.phases i).phase
  obtain ⟨q', r', hq', hr', hp'⟩ := (h.phases i.other).phase
  obtain rfl : q' = r := by
    rw [he, List.take_length] at hr
    exact Option.some.inj (hq'.symm.trans hr)
  simp only [hpc, Phase] at hp
  cases ho with
  | finished hpc' =>
    simp only [hpc', Phase] at hp'
    obtain ⟨rfl, -⟩ := hp'
    simp at hp
  | waiting hpc' he' =>
    rw [other_other] at hr' he'
    obtain rfl : q = r' := by
      rw [he', List.take_length] at hr'
      exact Option.some.inj (hq.symm.trans hr')
    simp only [hpc', Phase] at hp'
    rcases hp with ⟨rfl, rfl, -⟩ | ⟨rfl, rfl, -⟩ <;> simp at hp'
  | full es b hpc' hf =>
    have := hcap i.other
    unfold Room at hf
    rw [other_other] at hf
    omega

/-- An end that has finished has read all of the other's snapshot. -/
lemma ExInv.not_full_of_finished {size : Side → ℕ} (h : ExInv size c)
    (hpc : (c i).pc = .setReady) {es : List HostLocation} {b : Bool}
    (hpc' : (c i.other).pc = .serving es b) : False := by
  obtain ⟨q, r, -, hr, hp⟩ := (h.phases i).phase
  obtain ⟨q', r', hq', -, hp'⟩ := (h.phases i.other).phase
  simp only [hpc, hpc', Phase] at hp hp'
  obtain ⟨-, rfl, -⟩ := hp
  obtain ⟨-, rfl, -⟩ := hp'
  have := stage_ended hr hq'
  simp at this

/-- **Two ends that are both stuck have both filled their channel.** -/
theorem ExInv.full_of_stuck {size : Side → ℕ} (h : ExInv size c) (hcap : ∀ i, 1 ≤ cap i)
    (hs : ∀ i, Stuck cap c i) (hnf : ¬∀ i, Finished (c i)) : ∀ i, cap i ≤ size i := by
  have hfin : ∀ i, (c i).pc = .setReady → (c i.other).pc = .setReady := by
    intro i hpc
    cases hs i.other with
    | finished hpc' => exact hpc'
    | waiting hpc' he =>
      exact (h.not_waiting hcap hpc' he (by rw [other_other]; exact hs i)).elim
    | full es b hpc' hf => exact (h.not_full_of_finished hpc hpc').elim
  have hfull : ∀ i, ∃ es b, (c i).pc = .serving es b ∧ ¬Room cap c i := by
    intro i
    cases hs i with
    | finished hpc =>
      refine absurd (fun j => ?_) hnf
      by_cases hj : j = i
      · exact hj ▸ hpc
      · exact eq_other_of_ne hj ▸ hfin i hpc
    | waiting hpc he => exact (h.not_waiting hcap hpc he (hs i.other)).elim
    | full es b hpc hf => exact ⟨es, b, hpc, hf⟩
  intro i
  obtain ⟨es, b, hpc, hf⟩ := hfull i
  obtain ⟨es', b', hpc', -⟩ := hfull i.other
  exact h.full_le hpc hpc' hf

/-! ### A run into the deadlock -/

variable {h : List (Conn × Side × Act)}

lemma run_act {l : Act} (hr : Run (exchange cap start) h c) (hl : exchanges l = true)
    (hroom : l = .send → Room cap c i) (hx : act (c i) (c i.other) l = some x) :
    ∃ h', Run (exchange cap start) h' (Function.update c i x) :=
  ⟨_, hr.step (a := (i, l)) (by
    change boundedStep cap c (i, l) = some _
    rw [boundedStep, if_pos ⟨hl, hroom⟩]
    exact step_eq_some.mpr ⟨x, hx, rfl⟩)⟩

/-- Both ends take the same step, one after the other. -/
lemma run_both {l : Act} {P Q : Side → Endpoint → Prop} (hr : Run (exchange cap start) h c)
    (hP : ∀ i, P i (c i)) (hl : exchanges l = true)
    (hroom : l = .send → ∀ i x y, P i x → P i.other y ∨ Q i.other y →
      x.sent.length < y.rcvd + cap i)
    (hact : ∀ i x y, P i x → P i.other y ∨ Q i.other y → ∃ x', act x y l = some x' ∧ Q i x') :
    ∃ h' c', Run (exchange cap start) h' c' ∧ ∀ i, Q i (c' i) := by
  obtain ⟨x, hx, hqx⟩ := hact .a _ _ (hP .a) (.inl (hP .b))
  obtain ⟨h1, hr1⟩ := run_act (i := .a) hr hl (fun he => hroom he .a _ _ (hP .a) (.inl (hP .b))) hx
  have hb : (Function.update c .a x) .b = c .b := rfl
  have ha : (Function.update c .a x) .a = x := rfl
  obtain ⟨y, hy, hqy⟩ := hact .b (c .b) x (hP .b) (.inr hqx)
  obtain ⟨h2, hr2⟩ := run_act (i := .b) hr1 hl
    (fun he => hroom he .b _ _ (hb ▸ hP .b) (.inr (ha ▸ hqx))) hy
  refine ⟨h2, _, hr2, ?_⟩
  rintro (_ | _)
  · exact hqx
  · exact hqy

/-- An end that has sent its request, and one that has read the other's. -/
structure Asked (t : List HostLocation) (x : Endpoint) : Prop where
  pc : x.pc = .exchange
  active : x.active = true
  sent : ∃ f g, g.messageType = .stateSnapshotRequest ∧ x.sent = [f, g]
  rcvd : x.rcvd = 1
  host : x.host.ready = true ∧ x.host.table = t

structure Exporting (t : List HostLocation) (x : Endpoint) : Prop where
  pc : x.pc = .exporting true
  active : x.active = true
  sent : ∃ f g, g.messageType = .stateSnapshotRequest ∧ x.sent = [f, g]
  rcvd : x.rcvd = 2
  host : x.host.ready = true ∧ x.host.table = t

/-- An end that serves, and has written `k` entries. -/
structure Serving (t : List HostLocation) (k : ℕ) (x : Endpoint) : Prop where
  pc : x.pc = .serving (t.drop k) true
  active : x.active = true
  sent : x.sent.length = 2 + k
  rcvd : x.rcvd = 2

lemma reach_serving (hs : ∀ i, Greeted (start i)) (hcap : ∀ i, 1 ≤ cap i) :
    ∃ h c, Run (exchange cap start) h c ∧ ∀ i, Serving (start i).host.table 0 (c i) := by
  obtain ⟨h1, c1, hr1, hc1⟩ := run_both (l := .send)
    (P := fun i x => Greeted x ∧ x.host = (start i).host)
    (Q := fun i x => Asked (start i).host.table x)
    (.init (L := exchange cap start) rfl) (fun i => ⟨hs i, rfl⟩) rfl
    (by
      rintro - i x y ⟨hx, -⟩ hy
      have hy1 : y.rcvd = 1 := hy.elim (fun hy => hy.1.rcvd) fun hy => hy.rcvd
      obtain ⟨f, -, hf⟩ := hx.sent
      have := hcap i
      simp only [hf, List.length_singleton]
      omega)
    (by
      rintro i x y ⟨⟨h1, h2, ⟨f, hf, hf'⟩, h4, -, h6⟩, h7⟩ -
      refine ⟨{ x.write .stateSnapshotRequest [] with pc := .exchange }, ?_, rfl, h2, ?_, h4, h6,
        by rw [← h7]; rfl⟩
      · simp [act, Endpoint.send, h1, h2]
      · exact ⟨f, _, rfl, by simp only [Endpoint.write, hf']; rfl⟩)
  obtain ⟨h2, c2, hr2, hc2⟩ := run_both (l := .recv 0)
    (Q := fun i x => Exporting (start i).host.table x) hr1 hc1 rfl (by simp)
    (by
      rintro i x y ⟨h1, h2, h3, h4, h5⟩ hy
      obtain ⟨f, g, hg, hsent⟩ := hy.elim Asked.sent Exporting.sent
      have hget : y.sent[x.rcvd]? = some g := by rw [hsent, h4]; rfl
      refine ⟨{ ({ x with rcvd := x.rcvd + 1 } : Endpoint).countReceived g with
        pc := .exporting true, served := x.served ++ [true] }, ?_, rfl, h2, h3, ?_, h5⟩
      · simp [act, hget, Endpoint.recv, h1, Endpoint.exchangeMessage, hg, Endpoint.countReceived]
      · simp [Endpoint.countReceived, h4])
  obtain ⟨h3, c3, hr3, hc3⟩ := run_both (l := .exportSnapshot)
    (Q := fun i x => Serving (start i).host.table 0 x) hr2 hc2 rfl (by simp)
    (by
      rintro i x y ⟨h1, h2, ⟨f, g, -, hsent⟩, h4, h5, h6⟩ -
      refine ⟨{ x with pc := .serving x.host.table true }, ?_, by rw [h6]; rfl, h2,
        by simp [hsent], h4⟩
      simp [act, Endpoint.exportSnapshot, h1, daimHostExportSnapshot, h5])
  exact ⟨h3, c3, hr3, hc3⟩

/-- An end that serves can write until the channel is full or the table is written. -/
lemma reach_full {t : List HostLocation} (hr : Run (exchange cap start) h c)
    (hc : Serving t 0 (c i)) (ho : (c i.other).rcvd = 2) {k : ℕ} (hk : k ≤ cap i)
    (hkt : k ≤ t.length) :
    ∃ h' c', Run (exchange cap start) h' c' ∧ Serving t k (c' i) ∧ c' i.other = c i.other := by
  induction k with
  | zero => exact ⟨h, c, hr, hc, rfl⟩
  | succ k ih =>
    obtain ⟨h1, c1, hr1, ⟨h2, h3, h4, h5⟩, hc1⟩ := ih (by omega) (by omega)
    have hroom : Room cap c1 i := by
      unfold Room
      rw [hc1, ho, h4]
      omega
    rw [List.drop_eq_getElem_cons (by omega)] at h2
    obtain ⟨x, hx, hserv⟩ : ∃ x, (c1 i).send = some x ∧ Serving t (k + 1) x := by
      simp only [Endpoint.send, h2, h3, Bool.true_eq_false, if_false, Option.some.injEq,
        exists_eq_left']
      exact ⟨rfl, h3, by simp [Endpoint.write, h4]; omega, h5⟩
    obtain ⟨h', hr'⟩ := run_act (l := .send) hr1 rfl (fun _ => hroom) hx
    refine ⟨h', _, hr', ?_, ?_⟩
    · rwa [Function.update_self]
    · rw [Function.update_of_ne (other_ne i), hc1]

/-- **Tables that fill both channels lead to a deadlock.** -/
theorem deadlock_reachable (hs : ∀ i, Greeted (start i)) (hcap : ∀ i, 1 ≤ cap i)
    (hle : ∀ i, cap i ≤ (start i).host.table.length) :
    ∃ h c, Run (exchange cap start) h c ∧ Deadlock cap c := by
  obtain ⟨h1, c1, hr1, hc1⟩ := reach_serving hs hcap
  obtain ⟨h2, c2, hr2, ha2, hb2⟩ := reach_full hr1 (hc1 .a) (hc1 .b).rcvd le_rfl (hle .a)
  obtain ⟨h3, c3, hr3, hb3, ha3⟩ := reach_full (i := .b) hr2 (hb2 ▸ hc1 .b) ha2.rcvd le_rfl (hle .b)
  have hc3 : ∀ i, Serving (start i).host.table (cap i) (c3 i) := by
    rintro (_ | _)
    · exact (show c3 .a = c2 .a from ha3) ▸ ha2
    · exact hb3
  refine ⟨h3, c3, hr3, fun i l => ?_, fun hf => ?_⟩
  · have hfull : ¬Room cap c3 i := by
      unfold Room
      rw [(hc3 i).sent, (hc3 i.other).rcvd]
      omega
    unfold boundedStep
    split_ifs with hl
    · obtain ⟨hex, hroom⟩ := hl
      cases l with
      | send => exact absurd (hroom rfl) hfull
      | recv now =>
        simp only [Transport.step, act, Endpoint.recv, (hc3 i).pc]
        split <;> rfl
      | exportSnapshot => simp [Transport.step, act, Endpoint.exportSnapshot, (hc3 i).pc]
      | replayNext now => simp [Transport.step, act, Endpoint.replayNext, (hc3 i).pc]
      | _ => exact absurd hex Bool.false_ne_true
    · rfl
  · have h1 := (hc3 .a).pc
    rw [show (c3 .a).pc = .setReady from hf .a] at h1
    simp at h1

/-- **The exchange is free of deadlocks exactly when one of the tables is shorter than the
channel it is written to.** -/
theorem deadlock_free_iff (hs : ∀ i, Greeted (start i)) (hcap : ∀ i, 1 ≤ cap i) :
    DeadlockFree cap start ↔ ∃ i, (start i).host.table.length < cap i := by
  constructor
  · intro hfree
    by_contra hno
    obtain ⟨h, c, hr, hd⟩ := deadlock_reachable hs hcap fun i => by
      by_contra hlt
      exact hno ⟨i, by omega⟩
    exact hfree h c hr hd
  · rintro ⟨i, hi⟩ h c hr ⟨hb, hnf⟩
    have hinv := run_exInv hs hr
    have := hinv.full_of_stuck hcap (fun i => hinv.stuck hcap (hb i)) hnf i
    omega

/-- Nodes 1 and 2, after they have exchanged HELLO. -/
def greeted (host : UInt64 → State) : Conn := fun i =>
  let id := match i with | .a => 1 | .b => 2
  { nodeId := id, ownerEpoch := 7, host := host id, pc := .sendRequest,
    sent := [⟨.hello, id, Protocol.putU64 7⟩], rcvd := 1 }

lemma greeted_greeted {host : UInt64 → State} (hh : ∀ id, (host id).ready = true) (i : Side) :
    Greeted (greeted host i) :=
  ⟨rfl, rfl, ⟨_, rfl, rfl⟩, rfl, ⟨rfl, rfl, rfl, rfl, rfl, rfl⟩, hh _⟩

/-- A node that has not learned anything yet. -/
def emptyHost (id : UInt64) : State := daimHostStateInit {} id 7

/-- A node that has learned one host. -/
def oneHost (id : UInt64) : State :=
  (daimHostLearnLocal (emptyHost id) (some (macOf id.toUInt8)) id 1 5).1

/-- Room for one frame one way and for two the other. -/
def uneven : Side → ℕ
  | .a => 1
  | .b => 2

theorem deadlock_free_iff_oneHost : DeadlockFree uneven (greeted oneHost) :=
  (deadlock_free_iff (greeted_greeted fun _ => rfl) (by rintro (_ | _) <;> decide)).mpr
    ⟨.b, by decide⟩

/-- **Two nodes with one host each wait for each other** over channels of one frame. -/
theorem one_host_deadlock :
    ∃ h c, Run (exchange (fun _ => 1) (greeted oneHost)) h c ∧ Deadlock (fun _ => 1) c :=
  deadlock_reachable (greeted_greeted fun _ => rfl) (fun _ => le_rfl)
    (by rintro (_ | _) <;> decide)

end DaimDistributed.Backpressure
