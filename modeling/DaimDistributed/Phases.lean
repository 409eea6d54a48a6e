import Mathlib.Data.List.Induction
import DaimDistributed.Transport

/-!
The phases of a connection.

What an end may write next depends on what it has written, and what it will read next on
what it has read. Because a request is served before anything else is read, an end that
has read the other's `STATE_SNAPSHOT_END` has written its own; so updates come after both
snapshots, in both directions.
-/

namespace DaimDistributed.Phases

open HostState Protocol Transitions Transport

/-- How far the written frames have come. -/
inductive Stage
  | start | greeted | requested | ended
  deriving DecidableEq

def next : Stage → MsgType → Option Stage
  | .start, .hello => some .greeted
  | .greeted, .stateSnapshotRequest => some .requested
  | .requested, .stateSnapshotEntry => some .requested
  | .requested, .stateSnapshotEnd => some .ended
  | .ended, .hostLocationUpdate => some .ended
  | _, _ => none

/-- The stage a list of frames leads to, if it is in order. -/
def stage (fs : List Frame) : Option Stage :=
  fs.foldlM (fun q f => next q f.messageType) .start

variable {fs : List Frame} {f : Frame} {q r : Stage}

lemma stage_snoc : stage (fs ++ [f]) = (stage fs).bind fun q => next q f.messageType := by
  simp [stage, List.foldlM_append]

lemma stage_append_ne_none (gs : List Frame) (h : stage (fs ++ gs) ≠ none) : stage fs ≠ none := by
  intro hn
  simp [stage, List.foldlM_append] at h hn
  simp [hn] at h

/-- The types of the frames of each stage. -/
def Shape : Stage → List MsgType → Prop
  | .start, ts => ts = []
  | .greeted, ts => ts = [.hello]
  | .requested, ts => ∃ k, ts = .hello :: .stateSnapshotRequest ::
      List.replicate k .stateSnapshotEntry
  | .ended, ts => ∃ k m, ts = .hello :: .stateSnapshotRequest ::
      (List.replicate k .stateSnapshotEntry ++ .stateSnapshotEnd ::
        List.replicate m .hostLocationUpdate)

lemma shape_next {ts : List MsgType} {t : MsgType} (h : Shape q ts) (hn : next q t = some r) :
    Shape r (ts ++ [t]) := by
  cases q with
  | start =>
    cases t <;> cases hn
    rw [show ts = [] from h]
    rfl
  | greeted =>
    cases t <;> cases hn
    rw [show ts = [.hello] from h]
    exact ⟨0, rfl⟩
  | requested =>
    obtain ⟨k, rfl⟩ := h
    cases t <;> cases hn
    · exact ⟨k + 1, by simp [List.replicate_succ']⟩
    · exact ⟨k, 0, by simp⟩
  | ended =>
    obtain ⟨k, m, rfl⟩ := h
    cases t <;> cases hn
    exact ⟨k, m + 1, by simp [List.replicate_succ']⟩

lemma shape_of_stage (h : stage fs = some q) : Shape q (fs.map Frame.messageType) := by
  induction fs using List.reverseRecOn generalizing q with
  | nil =>
    obtain rfl : Stage.start = q := Option.some.inj h
    rfl
  | append_singleton fs f ih =>
    rw [stage_snoc, Option.bind_eq_some_iff] at h
    obtain ⟨q0, hq0, hn⟩ := h
    rw [List.map_append]
    exact shape_next (ih hq0) hn

/-- The types of the frames an end may ever write. -/
def InOrder (ts : List MsgType) : Prop :=
  ∃ k m, ts <+: .hello :: .stateSnapshotRequest ::
    (List.replicate k .stateSnapshotEntry ++ .stateSnapshotEnd ::
      List.replicate m .hostLocationUpdate)

lemma inOrder_of_stage (h : stage fs = some q) : InOrder (fs.map Frame.messageType) := by
  have hs := shape_of_stage h
  cases q with
  | start =>
    have h0 : fs.map Frame.messageType = [] := hs
    exact ⟨0, 0, h0 ▸ List.nil_prefix⟩
  | greeted =>
    have h0 : fs.map Frame.messageType = [.hello] := hs
    exact ⟨0, 0, h0 ▸ ⟨_, rfl⟩⟩
  | requested =>
    obtain ⟨k, hk⟩ := hs
    exact ⟨k, 0, by rw [hk]; exact ⟨[.stateSnapshotEnd], by simp⟩⟩
  | ended =>
    obtain ⟨k, m, hk⟩ := hs
    exact ⟨k, m, hk ▸ List.prefix_rfl⟩

lemma end_mem_of_stage (h : stage fs = some .ended) :
    MsgType.stateSnapshotEnd ∈ fs.map Frame.messageType := by
  obtain ⟨k, m, hk⟩ := shape_of_stage h
  rw [hk]
  simp

/-! ### The invariant of one end -/

/-- What an end at `pc` has written (`q`), has read (`r`) and has served. -/
def Phase (pc : Pc) (q r : Stage) (served : List Bool) : Prop :=
  match pc with
  | .sendHello => q = .start ∧ r = .start ∧ served = []
  | .recvHello => q = .greeted ∧ r = .start ∧ served = []
  | .sendRequest => q = .greeted ∧ r = .greeted ∧ served = []
  | .exchange => q = .requested ∧ r = .greeted ∧ served = [] ∨
      q = .ended ∧ r = .requested ∧ served = [true]
  | .exporting b | .serving _ b =>
    b = true ∧ q = .requested ∧ r = .requested ∧ served = [true]
  | .replay | .setReady | .steady => q = .ended ∧ r = .ended ∧ served = [true]
  | .closing | .closed => served = [] ∨ served = [true]

/-- The end `x`, whose peer has written `ws`. -/
structure EndInv (ws : List Frame) (x : Endpoint) : Prop where
  phase : ∃ q r, stage x.sent = some q ∧ stage (ws.take x.rcvd) = some r ∧
    Phase x.pc q r x.served
  rcvd_le : x.rcvd ≤ ws.length
  active : x.pc ≠ .closed → x.active = true
  ready : x.ready = true → stage x.sent = some .ended
  pending : x.pending ≠ [] → stage x.sent = some .ended
  became : x.becameReady = true → x.served = [true]
  deferred : x.deferred = []
  overflow : x.stats.deferredUpdatesOverflowForcedReconnects = 0

variable {ws : List Frame} {x x' y : Endpoint}

lemma endInv_acquired (h : Acquired x) (ws : List Frame) : EndInv ws x := by
  obtain ⟨i, e, s, rfl⟩ := h
  exact ⟨⟨.start, .start, rfl, rfl, rfl, rfl, rfl⟩, Nat.zero_le _, fun _ => rfl,
    fun h => by simp at h, fun h => by simp at h, fun h => by simp at h, rfl, rfl⟩

/-- What the peer writes later does not matter. -/
lemma EndInv.append (h : EndInv ws x) (vs : List Frame) : EndInv (ws ++ vs) x := by
  obtain ⟨⟨q, r, hq, hr, hp⟩, hle, h3, h4, h5, h6, h7, h8⟩ := h
  refine ⟨⟨q, r, hq, ?_, hp⟩, by rw [List.length_append]; omega, h3, h4, h5, h6, h7, h8⟩
  rwa [List.take_append_of_le_length hle]

/-- Served requests are at most one, and inside the exchange. -/
lemma EndInv.served (h : EndInv ws x) : x.served = [] ∨ x.served = [true] := by
  obtain ⟨⟨q, r, -, -, hp⟩, -⟩ := h
  cases hpc : x.pc <;> simp only [hpc, Phase] at hp <;> tauto

/-- The next frame is in order, after what was read. -/
lemma next_ne_none (hws : stage ws ≠ none)
    (hf : ws[x.rcvd]? = some f) (hr : stage (ws.take x.rcvd) = some r) :
    next r f.messageType ≠ none := by
  have h1 : ws.take (x.rcvd + 1) = ws.take x.rcvd ++ [f] := by
    rw [List.take_add_one, hf]
    rfl
  have h2 : stage (ws.take (x.rcvd + 1)) ≠ none :=
    stage_append_ne_none (ws.drop (x.rcvd + 1)) (by rwa [List.take_append_drop])
  rw [h1, stage_snoc, hr] at h2
  exact h2

/-- A step that writes and reads nothing, to a program counter of the same phase. -/
lemma EndInv.goto (h : EndInv ws x) {k : Pc} (hact : k ≠ .closed → x.active = true)
    (hp : ∀ q r, Phase x.pc q r x.served → Phase k q r x.served) :
    EndInv ws { x with pc := k } := by
  obtain ⟨⟨q, r, hq, hr, h1⟩, h2, -, h4, h5, h6, h7, h8⟩ := h
  exact ⟨⟨q, r, hq, hr, hp q r h1⟩, h2, hact, h4, h5, h6, h7, h8⟩

lemma EndInv.close (h : EndInv ws x) (hpc : x.pc ≠ .closed) :
    EndInv ws { x with pc := .closing } :=
  h.goto (fun _ => h.active hpc) fun _ _ _ => h.served

/-- The host table plays no part. -/
lemma EndInv.setHost (h : EndInv ws x) (s : State) : EndInv ws { x with host := s } :=
  ⟨h.phase, h.rcvd_le, h.active, h.ready, h.pending, h.became, h.deferred, h.overflow⟩

/-- A write in order. -/
lemma EndInv.write (h : EndInv ws x) {q' r : Stage} {t : MsgType} {payload : List UInt8} {k : Pc}
    {st : TransportStats} {ps : List HostLocation} (ha : x.active = true)
    (hq : stage x.sent = some q) (hn : next q t = some q')
    (hr : stage (ws.take x.rcvd) = some r) (hp : Phase k q' r x.served)
    (he : q = .ended → q' = .ended) (hps : ps ≠ [] → x.pending ≠ [])
    (hst : st.deferredUpdatesOverflowForcedReconnects =
      x.stats.deferredUpdatesOverflowForcedReconnects) :
    EndInv ws { x.write t payload with pc := k, stats := st, pending := ps } := by
  have hs : stage (x.sent ++ [⟨t, x.nodeId, payload⟩]) = some q' := by
    rw [stage_snoc, hq]
    exact hn
  have hend : stage x.sent = some .ended →
      stage (x.sent ++ [⟨t, x.nodeId, payload⟩]) = some .ended := by
    intro h1
    rw [hs, he (Option.some.inj (hq.symm.trans h1))]
  exact ⟨⟨q', r, hs, hr, hp⟩, h.rcvd_le, fun _ => ha, fun h1 => hend (h.ready h1),
    fun h1 => hend (h.pending (hps h1)), h.became, h.deferred, hst.trans h.overflow⟩

lemma EndInv.send (h : EndInv ws x) (hst : x.send = some x') : EndInv ws x' := by
  unfold Endpoint.send at hst
  split at hst
  · cases hst
  have ha : x.active = true := by simp_all
  obtain ⟨q, r, hq, hr, hp⟩ := h.phase
  split at hst <;> cases hst <;> rename_i hpc <;> simp only [hpc, Phase] at hp
  · obtain ⟨rfl, rfl, hsv⟩ := hp
    exact h.write (k := .recvHello) ha hq rfl hr ⟨rfl, rfl, hsv⟩ (by simp) id rfl
  · obtain ⟨rfl, rfl, hsv⟩ := hp
    exact h.write (k := .exchange) ha hq rfl hr (.inl ⟨rfl, rfl, hsv⟩) (by simp) id rfl
  · obtain ⟨rfl, rfl, rfl, hsv⟩ := hp
    exact h.write (k := .serving _ _) ha hq rfl hr ⟨rfl, rfl, rfl, hsv⟩ (by simp) id rfl
  · obtain ⟨rfl, rfl, rfl, hsv⟩ := hp
    exact h.write (k := .exchange) ha hq rfl hr (.inr ⟨rfl, rfl, hsv⟩) (by simp) id rfl

lemma EndInv.sendFail (h : EndInv ws x) (hst : x.sendFail = some x') : EndInv ws x' := by
  unfold Endpoint.sendFail at hst
  split at hst <;> cases hst <;> rename_i hpc
  · exact h.close (by simp [hpc])
  · exact h.close (by simp [hpc])
  · exact h.close (by simp [hpc])
  · obtain ⟨q, r, -, -, hp⟩ := h.phase
    simp [hpc, Phase] at hp

/-- What reading a frame in order leaves alone. -/
structure Kept (x x' : Endpoint) : Prop where
  sent : x'.sent = x.sent
  active : x'.active = x.active
  ready : x'.ready = x.ready
  pending : x'.pending = x.pending
  became : x'.becameReady = x.becameReady
  deferred : x'.deferred = x.deferred
  overflow : x'.stats.deferredUpdatesOverflowForcedReconnects =
    x.stats.deferredUpdatesOverflowForcedReconnects

/-- Reading the next frame, into a state of the phase it leads to. -/
lemma EndInv.read (h : EndInv ws x) {q r r' : Stage} (hk : Kept x x')
    (hpc : x.pc ≠ .closed) (hf : ws[x.rcvd]? = some f) (hq : stage x.sent = some q)
    (hr : stage (ws.take x.rcvd) = some r) (hn : next r f.messageType = some r')
    (hrc : x'.rcvd = x.rcvd + 1) (hp : Phase x'.pc q r' x'.served)
    (hb : x.served = [true] → x'.served = [true]) : EndInv ws x' := by
  have hlt : x.rcvd < ws.length := (List.getElem?_eq_some_iff.mp hf).1
  have hr' : stage (ws.take (x.rcvd + 1)) = some r' := by
    rw [List.take_add_one, hf, show (some f).toList = [f] from rfl, stage_snoc, hr]
    exact hn
  refine ⟨⟨q, r', hk.sent ▸ hq, hrc ▸ hr', hp⟩, hrc ▸ hlt, fun _ => ?_, fun h1 => ?_,
    fun h1 => ?_, fun h1 => ?_, hk.deferred.trans h.deferred, hk.overflow.trans h.overflow⟩
  · exact hk.active.trans (h.active hpc)
  · exact hk.sent ▸ h.ready (hk.ready ▸ h1)
  · exact hk.sent ▸ h.pending (hk.pending ▸ h1)
  · exact hb (h.became (hk.became ▸ h1))

/-- The type of the next frame, by where the reader is. -/
inductive Reads (x : Endpoint) (f : Frame) : Prop
  | hello (hpc : x.pc = .recvHello) (hf : f.messageType = .hello)
  | request (hpc : x.pc = .exchange) (hf : f.messageType = .stateSnapshotRequest)
      (hs : x.served = [])
  | entry (hpc : x.pc = .exchange) (hf : f.messageType = .stateSnapshotEntry)
      (hs : x.served = [true])
  | ended (hpc : x.pc = .exchange) (hf : f.messageType = .stateSnapshotEnd)
      (hs : x.served = [true])
  | update (hpc : x.pc = .steady) (hf : f.messageType = .hostLocationUpdate)

/-- **Every end reads what its phase expects.** -/
theorem EndInv.reads (h : EndInv ws x) (hws : stage ws ≠ none) (hf : ws[x.rcvd]? = some f)
    {n : UInt64} (hst : x.recv f n = some x') : Reads x f := by
  obtain ⟨q, r, hq, hr, hp⟩ := h.phase
  have hn := next_ne_none hws hf hr
  cases hpc : x.pc <;> simp only [hpc, Phase, Endpoint.recv, reduceCtorEq] at hp hst
  case recvHello =>
    obtain ⟨-, rfl, -⟩ := hp
    refine .hello hpc ?_
    cases ht : f.messageType <;> simp [ht, next] at hn ⊢
  case exchange =>
    rcases hp with ⟨-, rfl, hs⟩ | ⟨-, rfl, hs⟩
    · refine .request hpc ?_ hs
      cases ht : f.messageType <;> simp [ht, next] at hn ⊢
    · cases ht : f.messageType <;> simp [ht, next] at hn
      · exact .entry hpc ht hs
      · exact .ended hpc ht hs
  case steady =>
    obtain ⟨-, rfl, -⟩ := hp
    refine .update hpc ?_
    cases ht : f.messageType <;> simp [ht, next] at hn ⊢

lemma EndInv.recv (h : EndInv ws x) (hws : stage ws ≠ none) (hf : ws[x.rcvd]? = some f)
    {n : UInt64} (hst : x.recv f n = some x') : EndInv ws x' := by
  obtain ⟨q, r, hq, hr, hp⟩ := h.phase
  cases h.reads hws hf hst with
  | hello hpc ht =>
    simp only [hpc, Phase, Endpoint.recv, ht, if_true] at hp hst
    obtain ⟨rfl, rfl, hs⟩ := hp
    cases hst
    exact h.read ⟨rfl, rfl, rfl, rfl, rfl, rfl, rfl⟩ (by simp [hpc]) hf hq hr (by rw [ht]; rfl) rfl
      ⟨rfl, rfl, hs⟩ id
  | request hpc ht hs =>
    simp only [hpc, Phase, Endpoint.recv, Endpoint.exchangeMessage, ht] at hp hst
    obtain ⟨rfl, rfl⟩ : q = .requested ∧ r = .greeted := by simpa [hs] using hp
    cases hst
    exact h.read ⟨rfl, rfl, rfl, rfl, rfl, rfl, rfl⟩ (by simp [hpc]) hf hq hr (by rw [ht]; rfl) rfl
      ⟨rfl, rfl, rfl, by rw [hs]; rfl⟩ (by simp [hs])
  | entry hpc ht hs =>
    simp only [hpc, Phase, Endpoint.recv, Endpoint.exchangeMessage, ht] at hp hst
    obtain ⟨rfl, rfl⟩ : q = .ended ∧ r = .requested := by simpa [hs] using hp
    split at hst <;> cases hst <;>
      exact h.read ⟨rfl, rfl, rfl, rfl, rfl, rfl, rfl⟩ (by simp [hpc]) hf hq hr (by rw [ht]; rfl)
        rfl (.inr ⟨rfl, rfl, hs⟩) id
  | ended hpc ht hs =>
    simp only [hpc, Phase, Endpoint.recv, Endpoint.exchangeMessage, ht] at hp hst
    obtain ⟨rfl, rfl⟩ : q = .ended ∧ r = .requested := by simpa [hs] using hp
    cases hst
    exact h.read ⟨rfl, rfl, rfl, rfl, rfl, rfl, rfl⟩ (by simp [hpc]) hf hq hr (by rw [ht]; rfl) rfl
      ⟨rfl, rfl, hs⟩ id
  | update hpc ht =>
    simp only [hpc, Phase, Endpoint.recv, Endpoint.handleMessage, ht] at hp hst
    obtain ⟨rfl, rfl, hs⟩ := hp
    split at hst <;> cases hst <;>
      exact h.read ⟨rfl, rfl, rfl, rfl, rfl, rfl, rfl⟩ (by simp [hpc]) hf hq hr (by rw [ht]; rfl)
        rfl ⟨rfl, rfl, hs⟩ id

/-- **Every step of an end keeps its invariant.** -/
theorem EndInv.act (h : EndInv y.sent x) (hy : stage y.sent ≠ none) {l : Act}
    (hst : Transport.act x y l = some x') : EndInv y.sent x' := by
  cases l with
  | send => exact h.send hst
  | sendFail => exact h.sendFail hst
  | recv n =>
    simp only [Transport.act] at hst
    split at hst
    · cases hst
    · exact h.recv hy ‹_› hst
  | recvFail =>
    simp only [Transport.act, Endpoint.recvFail] at hst
    split at hst <;> cases hst <;> exact h.close (by simp [*])
  | exportSnapshot =>
    obtain ⟨q, r, -, -, hp⟩ := h.phase
    simp only [Transport.act, Endpoint.exportSnapshot] at hst
    split at hst
    · rename_i b hpc
      simp only [hpc, Phase] at hp
      obtain ⟨rfl, -⟩ := hp
      split at hst <;> cases hst
      · exact h.goto (fun _ => h.active (by simp [hpc])) fun q r hq => by rwa [hpc] at hq
      · exact h.close (by simp [hpc])
    · cases hst
  | replayNext n =>
    simp only [Transport.act, Endpoint.replayNext] at hst
    split at hst <;> cases hst
    · rename_i hpc _
      exact h.goto (k := .setReady) (fun _ => h.active (by simp [hpc])) fun q r hq => by
        rwa [hpc] at hq
    · rename_i hd
      simp [h.deferred] at hd
  | setReady =>
    obtain ⟨⟨q, r, hq, hr, hp⟩, h2, h3, h4, h5, h6, h7, h8⟩ := h
    simp only [Transport.act, Endpoint.setReady] at hst
    split at hst <;> cases hst
    rename_i hpc
    simp only [hpc, Phase] at hp
    obtain ⟨rfl, rfl, hs⟩ := hp
    exact ⟨⟨_, _, hq, hr, rfl, rfl, hs⟩, h2, fun _ => h3 (by simp [hpc]), fun _ => hq, h5,
      fun _ => hs, h7, h8⟩
  | stop =>
    simp only [Transport.act, Endpoint.stop] at hst
    split at hst <;> cases hst
    exact h.close (by simp [*])
  | teardown =>
    obtain ⟨⟨q, r, hq, hr, hp⟩, h2, h3, h4, h5, h6, h7, h8⟩ := h
    simp only [Transport.act, Endpoint.teardown] at hst
    split at hst <;> cases hst
    rename_i hpc
    rw [hpc] at hp
    exact ⟨⟨q, r, hq, hr, hp⟩, h2, by simp, by simp, h5, h6, h7, h8⟩
  | select loc =>
    obtain ⟨h1, h2, h3, h4, h5, h6, h7, h8⟩ := h
    simp only [Transport.act, Endpoint.select] at hst
    split_ifs at hst with hr
    cases hst
    exact ⟨h1, h2, h3, h4, fun _ => h4 (by simp_all), h6, h7, h8⟩
  | sendUpdate i =>
    simp only [Transport.act, Endpoint.sendUpdate] at hst
    split at hst
    · cases hst
    · rename_i loc hloc
      have hne : x.pending ≠ [] := fun h0 => by simp [h0] at hloc
      have hq := h.pending hne
      split_ifs at hst with ha
      · cases hst
        obtain ⟨q, r, hq', hr, hp⟩ := h.phase
        obtain rfl : q = .ended := Option.some.inj (hq'.symm.trans hq)
        exact h.write (k := x.pc) ha hq rfl hr hp (fun _ => rfl) (fun _ => hne) rfl
      · cases hst
        obtain ⟨h1, h2, h3, h4, -, h6, h7, h8⟩ := h
        exact ⟨h1, h2, h3, h4, fun _ => hq, h6, h7, h8⟩
  | sendUpdateFail i =>
    obtain ⟨h1, h2, h3, h4, h5, h6, h7, h8⟩ := h
    simp only [Transport.act, Endpoint.sendUpdateFail] at hst
    split_ifs at hst with hi
    cases hst
    refine ⟨h1, h2, h3, h4, fun _ => h5 fun h0 => ?_, h6, h7, h8⟩
    simp [h0] at hi
  | host s =>
    cases hst
    exact h.setHost s

/-! ### Runs -/

variable {h : List (Conn × Side × Act)} {c c' : Conn} {i : Side}

/-- Both ends. -/
def Inv (c : Conn) : Prop := ∀ i, EndInv (c i.other).sent (c i)

lemma inv_acquired (h : ∀ i, Acquired (c i)) : Inv c := fun i => endInv_acquired (h i) _

lemma Inv.step {l : Side × Act} (hi : Inv c) (hst : Transport.step c l = some c') : Inv c' := by
  obtain ⟨i, l⟩ := l
  obtain ⟨x, hx, rfl⟩ := step_eq_some.mp hst
  have hx' := (hi i).act (by obtain ⟨q, r, hq, -⟩ := (hi i.other).phase; simp [hq]) hx
  intro j
  by_cases hj : j = i
  · subst hj
    rwa [Function.update_self, Function.update_of_ne (other_ne j)]
  · obtain rfl := eq_other_of_ne hj
    obtain ⟨vs, hvs⟩ := act_sent hx
    have h1 := (hi i.other).append vs
    rw [other_other] at h1 ⊢
    rwa [Function.update_self, Function.update_of_ne (other_ne i), ← hvs]

theorem run_inv (hr : Run connection h c) : Inv c :=
  hr.inv Inv (fun _ hi => inv_acquired hi) fun _ _ _ hi hst => hi.step hst

/-- **The phases of a connection**, at every point of its life: what each end has written is
in order; an end that is ready has written its `STATE_SNAPSHOT_END`; it serves at most one
request, inside the exchange, and one if it ever becomes ready; no update is read inside the
exchange, so none is deferred and the queue never overflows. -/
theorem connection_phases (hr : Run connection h c) (i : Side) :
    InOrder ((c i).sent.map Frame.messageType) ∧
      ((c i).ready = true → MsgType.stateSnapshotEnd ∈ (c i).sent.map Frame.messageType) ∧
      ((c i).served = [] ∨ (c i).served = [true]) ∧
      ((c i).becameReady = true → (c i).served = [true]) ∧
      (∀ p ∈ h, ∀ now f, p.2 = (i, .recv now) → (p.1 i).pc = .exchange →
        (p.1 i.other).sent[(p.1 i).rcvd]? = some f → f.messageType ≠ .hostLocationUpdate) ∧
      (c i).deferred = [] ∧ (c i).stats.deferredUpdatesOverflowForcedReconnects = 0 := by
  have hi := run_inv hr i
  obtain ⟨q, r, hq, -, -⟩ := hi.phase
  refine ⟨inOrder_of_stage hq, fun h1 => end_mem_of_stage (hi.ready h1), hi.served, hi.became, ?_,
    hi.deferred, hi.overflow⟩
  rintro p hp now f hl hpc hf
  obtain ⟨h1, h2, u, -, hr1, hst⟩ := hr.split hp
  have hp1 := run_inv hr1
  rw [hl] at hst
  obtain ⟨x, hx, -⟩ := step_eq_some.mp hst
  simp only [Transport.act, hf] at hx
  have hws : stage (p.1 i.other).sent ≠ none := by
    obtain ⟨q, r, hq, -⟩ := (hp1 i.other).phase
    simp [hq]
  cases (hp1 i).reads hws hf hx with
  | update hpc' ht => simp [hpc] at hpc'
  | _ => simp [*]

/-- A slot acquired by a node that has just been initialised. -/
def freshEnd (i : UInt64) : Endpoint :=
  { nodeId := i, ownerEpoch := 7, host := daimHostStateInit {} i 7 }

def freshConn : Conn
  | .a => freshEnd 1
  | .b => freshEnd 2

/-- HELLO and the exchange of two empty snapshots, on both sides in step. -/
def handshake : List (Side × Act) :=
  [.send, .recv 1, .send, .recv 2, .exportSnapshot, .send, .recv 3, .replayNext 4,
    .setReady].flatMap fun l => [(.a, l), (.b, l)]

theorem connection_phases_handshake :
    ∃ h c, Run connection h c ∧ (c .a).ready = true ∧
      MsgType.stateSnapshotEnd ∈ (c .a).sent.map Frame.messageType := by
  obtain ⟨h, c, hr, hp⟩ := exists_run_of_replay (f := step) (s := freshConn)
    (i := fun c => ∀ i, Acquired (c i)) handshake
    (by rintro (_ | _) <;> exact ⟨_, _, _, rfl⟩) (fun _ c => (c .a).ready = true) (by decide)
  exact ⟨h, c, hr, hp, (connection_phases hr .a).2.1 hp⟩

end DaimDistributed.Phases
