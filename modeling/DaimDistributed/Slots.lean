import DaimDistributed.Phases

/-!
The connection slots of one transport.

A thread that disseminates chooses slots that are ready, gives up the lock, and writes to
each slot if it is active by then. A slot may have been torn down and acquired again in
between; the update then goes out on a connection the thread never chose.
-/

namespace DaimDistributed.Slots

open HostState Protocol Transitions Transport Phases

def maxConnections : ℕ := 32

/-- A slot, and how often it has been acquired. The peer of its connection has sent `got`. -/
structure Slot where
  generation : ℕ := 0
  conn : Endpoint := { pc := .closed, active := false }
  got : List Frame := []
  deriving DecidableEq

/-- A slot that a disseminating thread has chosen and not written to yet. -/
structure Target where
  slot : ℕ
  generation : ℕ
  loc : HostLocation
  deriving DecidableEq

structure Transport where
  nodeId : UInt64
  ownerEpoch : UInt64
  slots : ℕ → Slot := fun _ => {}
  targets : List Target := []

inductive Step
  | acquire (host : State)
  | thread (i : ℕ) (l : Act)
  | receive (i : ℕ) (f : Frame) (now : UInt64)
  | select (loc : HostLocation)
  | sendFramed (k : ℕ)
  | sendFramedFail (k : ℕ)

/-- The steps the thread of a connection takes on its own. -/
def isThread : Act → Bool
  | .send | .sendFail | .recvFail | .exportSnapshot | .replayNext _ | .setReady | .stop
  | .teardown | .host _ => true
  | _ => false

def Transport.setConn (t : Transport) (i : ℕ) (x : Endpoint) : Transport :=
  { t with slots := Function.update t.slots i { t.slots i with conn := x } }

def Transport.untarget (t : Transport) (k : ℕ) : Transport :=
  { t with targets := t.targets.eraseIdx k }

/-- The first slot that is not active. -/
def acquireConnectionSlot (t : Transport) : Option ℕ :=
  (List.range maxConnections).find? fun i => !(t.slots i).conn.active

/-- The slots `daim_peer_transport_disseminate` chooses. -/
def chosen (t : Transport) (loc : HostLocation) : List Target :=
  ((List.range maxConnections).filter fun i =>
    (t.slots i).conn.active && (t.slots i).conn.ready).map fun i =>
      ⟨i, (t.slots i).generation, loc⟩

def step (t : Transport) : Step → Option Transport
  | .acquire host =>
    match acquireConnectionSlot t with
    | none => none
    | some i =>
      some { t with
        slots := Function.update t.slots i
          { generation := (t.slots i).generation + 1
            conn := { nodeId := t.nodeId, ownerEpoch := t.ownerEpoch, host := host }
            got := [] } }
  | .thread i l =>
    if isThread l = true then
      (act (t.slots i).conn { sent := (t.slots i).got } l).map (t.setConn i)
    else none
  | .receive i f now =>
    ((t.slots i).conn.recv f now).map fun x =>
      { t with
        slots := Function.update t.slots i
          { t.slots i with conn := x, got := (t.slots i).got ++ [f] } }
  | .select loc => some { t with targets := t.targets ++ chosen t loc }
  | .sendFramed k =>
    match t.targets[k]? with
    | none => none
    | some g =>
      if (t.slots g.slot).conn.active = true then
        some ((t.untarget k).setConn g.slot
          ((t.slots g.slot).conn.write .hostLocationUpdate (daimPeerEncodeHostLocation g.loc)))
      else some (t.untarget k)
  | .sendFramedFail k => if k < t.targets.length then some (t.untarget k) else none

/-- A transport without connections. -/
def transport : Lts Transport Step :=
  ofFun (fun t => ∃ nodeId ownerEpoch, t = { nodeId := nodeId, ownerEpoch := ownerEpoch }) step

/-! ### What an update is written to -/

/-- The slot that a step writes a `HOST_LOCATION_UPDATE` on. -/
def writesTo (t : Transport) : Step → Option Slot
  | .sendFramed k =>
    match t.targets[k]? with
    | none => none
    | some g => if (t.slots g.slot).conn.active = true then some (t.slots g.slot) else none
  | _ => none

/-- The handshake and the snapshots of a connection are over: it is ready, and has read the
`STATE_SNAPSHOT_END` of its peer; its own is written, unless the peer broke the order. -/
structure Completed (s : Slot) : Prop where
  ready : s.conn.ready = true
  started : s.conn.sent ≠ []
  ended : MsgType.stateSnapshotEnd ∈ s.got.map Frame.messageType
  sentEnd : stage s.got ≠ none → MsgType.stateSnapshotEnd ∈ s.conn.sent.map Frame.messageType

/-- Every update is written on a connection that is completed. -/
def OnReady (h : List (Transport × Step)) : Prop :=
  ∀ p ∈ h, ∀ s, writesTo p.1 p.2 = some s → Completed s

/-- A step is safe when the slot it writes an update to was not acquired again since it was
chosen, or is ready by now. -/
def Safe (t : Transport) : Step → Prop
  | .sendFramed k => ∀ g ∈ t.targets[k]?, (t.slots g.slot).conn.active = true →
      (t.slots g.slot).generation ≠ g.generation → (t.slots g.slot).conn.ready = true
  | _ => True

instance (t : Transport) : (st : Step) → Decidable (Safe t st)
  | .sendFramed k => inferInstanceAs (Decidable (∀ g ∈ t.targets[k]?, _))
  | .acquire _ | .thread _ _ | .receive _ _ _ | .select _ | .sendFramedFail _ => isTrue trivial

/-- No update comes to be written on a slot that has been acquired again since it was chosen,
while the new connection is not ready yet. -/
def NotRecycled (h : List (Transport × Step)) : Prop := ∀ p ∈ h, Safe p.1 p.2

instance (h : List (Transport × Step)) : Decidable (NotRecycled h) :=
  inferInstanceAs (Decidable (∀ p ∈ h, _))

variable {h : List (Transport × Step)} {t t' : Transport} {i : ℕ} {x x' y : Endpoint} {l : Act}
  {s : Slot}

/-! ### What the thread of a connection does -/

/-- Past writing the `HELLO`. -/
def pastHello : Pc → Bool
  | .sendHello | .closing | .closed => false
  | _ => true

/-- Past reading the `STATE_SNAPSHOT_END` of the peer. -/
def pastEnd : Pc → Bool
  | .replay | .setReady | .steady | .exporting false | .serving _ false => true
  | _ => false

/-- How far a connection is, whatever its peer sends. -/
structure Opened (got : List Frame) (x : Endpoint) : Prop where
  started : x.ready = true ∨ pastHello x.pc = true → x.sent ≠ []
  ended : x.ready = true ∨ pastEnd x.pc = true →
    MsgType.stateSnapshotEnd ∈ got.map Frame.messageType

/-- The steps of a thread, by what they do to the flags and how far they go. -/
structure ThreadStep (x x' : Endpoint) : Prop where
  rcvd : x'.rcvd = x.rcvd
  flags : x'.active = true → x.active = true ∧ (x.ready = true → x'.ready = true)
  started : x'.ready = true ∨ pastHello x'.pc = true →
    x.ready = true ∨ pastHello x.pc = true ∨ x'.sent ≠ []
  ended : x'.ready = true ∨ pastEnd x'.pc = true → x.ready = true ∨ pastEnd x.pc = true

/-- Only the program counter moves, not past what is done already. -/
lemma ThreadStep.goto (k : Pc) (h1 : pastHello k = true → pastHello x.pc = true)
    (h2 : pastEnd k = true → pastEnd x.pc = true) : ThreadStep x { x with pc := k } :=
  ⟨rfl, fun ha => ⟨ha, id⟩, fun h => h.imp_right fun h => .inl (h1 h), fun h => h.imp_right h2⟩

/-- A frame is written. -/
lemma ThreadStep.write (ty : MsgType) (payload : List UInt8) (k : Pc) (st : TransportStats)
    (h : pastEnd k = true → pastEnd x.pc = true) :
    ThreadStep x { x.write ty payload with pc := k, stats := st } :=
  ⟨rfl, fun ha => ⟨ha, id⟩, fun _ => .inr (.inr (by simp [Endpoint.write])),
    fun h' => h'.imp_right h⟩

lemma thread_step (hl : isThread l = true) (hst : act x y l = some x') : ThreadStep x x' := by
  cases l with
  | send =>
    simp only [act, Endpoint.send] at hst
    split at hst
    · cases hst
    · split at hst <;> cases hst
      · exact .write _ _ .recvHello _ (by simp [pastEnd])
      · exact .write _ _ .exchange _ (by simp [pastEnd])
      · rename_i b hpc
        exact .write _ _ (.serving _ b) _ (by cases b <;> simp [pastEnd, hpc])
      · rename_i b hpc
        exact .write _ _ (if b then .exchange else .steady) _
          (by cases b <;> simp [pastEnd, hpc])
  | sendFail =>
    simp only [act, Endpoint.sendFail] at hst
    split at hst <;> cases hst <;> exact .goto _ (by simp [pastHello, *]) (by simp [pastEnd, *])
  | recvFail =>
    simp only [act, Endpoint.recvFail] at hst
    split at hst <;> cases hst <;> exact .goto _ (by simp [pastHello]) (by simp [pastEnd])
  | exportSnapshot =>
    simp only [act, Endpoint.exportSnapshot] at hst
    split at hst
    · rename_i b hpc
      split at hst <;> cases hst
      · exact .goto _ (by simp [pastHello, hpc]) (by cases b <;> simp [pastEnd, hpc])
      · exact .goto (if b then .closing else .steady) (by simp [pastHello, hpc])
          (by cases b <;> simp [pastEnd, hpc])
    · cases hst
  | replayNext now =>
    simp only [act, Endpoint.replayNext] at hst
    split at hst <;> cases hst
    · exact .goto _ (by simp [pastHello, *]) (by simp [pastEnd, *])
    · exact ⟨rfl, fun ha => ⟨ha, id⟩, fun h => h.imp_right .inl, id⟩
  | setReady =>
    simp only [act, Endpoint.setReady] at hst
    split at hst <;> cases hst
    exact ⟨rfl, fun ha => ⟨ha, fun _ => rfl⟩, by simp [pastHello, *], by simp [pastEnd, *]⟩
  | stop =>
    simp only [act, Endpoint.stop] at hst
    split at hst <;> cases hst
    exact .goto _ (by simp [pastHello]) (by simp [pastEnd])
  | teardown =>
    simp only [act, Endpoint.teardown] at hst
    split at hst <;> cases hst
    exact ⟨rfl, by simp, by simp [pastHello], by simp [pastEnd]⟩
  | host st =>
    cases hst
    exact ⟨rfl, fun ha => ⟨ha, id⟩, fun h => h.imp_right .inl, id⟩
  | _ => exact absurd hl Bool.false_ne_true

lemma Opened.thread {got : List Frame} (h : Opened got x) (hl : isThread l = true)
    (hst : act x y l = some x') : Opened got x' := by
  have ht := thread_step hl hst
  refine ⟨fun h1 => ?_, fun h1 => h.ended (ht.ended h1)⟩
  rcases ht.started h1 with h2 | h2 | h2
  · exact fun h0 => h.started (.inl h2) (List.prefix_nil.mp (h0 ▸ act_sent hst))
  · exact fun h0 => h.started (.inr h2) (List.prefix_nil.mp (h0 ▸ act_sent hst))
  · exact h2

/-- Inside the exchange, reading the end of the snapshot is what gets past it. -/
lemma exchange_pastEnd {f : Frame} {n : UInt64} (hpc : x.pc = .exchange)
    (h : pastEnd (x.exchangeMessage f n).pc = true) : f.messageType = .stateSnapshotEnd := by
  revert h
  unfold Endpoint.exchangeMessage
  repeat' split
  all_goals simp [pastEnd, *]

/-- A read gets past the end of the snapshot by reading it. -/
lemma recv_pastEnd {f : Frame} {n : UInt64} (hst : x.recv f n = some x') :
    pastHello x.pc = true ∧
      (pastEnd x'.pc = true → pastEnd x.pc = true ∨ f.messageType = .stateSnapshotEnd) := by
  simp only [Endpoint.recv] at hst
  split at hst
  · split_ifs at hst <;> cases hst <;> exact ⟨by simp [pastHello, *], by simp [pastEnd]⟩
  · rename_i hpc
    cases hst
    refine ⟨by simp [pastHello, hpc], fun h => .inr (exchange_pastEnd ?_ h)⟩
    exact hpc
  · cases hst
    exact ⟨by simp [pastHello, *], fun _ => .inl (by simp [pastEnd, *])⟩
  · cases hst

lemma Opened.recv {got : List Frame} (h : Opened got x) {f : Frame} {n : UInt64}
    (hst : x.recv f n = some x') : Opened (got ++ [f]) x' := by
  have hr := (recv_flags hst).ready
  obtain ⟨hp, he⟩ := recv_pastEnd hst
  refine ⟨fun _ => recv_sent hst ▸ h.started (.inr hp), fun h1 => ?_⟩
  rw [List.map_append, List.mem_append]
  rcases h1 with h1 | h1
  · exact .inl (h.ended (.inl (hr ▸ h1)))
  · rcases he h1 with h2 | h2
    · exact .inl (h.ended (.inr h2))
    · exact .inr (by simp [h2])

/-! ### The invariant -/

/-- A slot in use: the connection keeps to the protocol as long as its peer does. -/
structure SlotInv (s : Slot) : Prop where
  conn : stage s.got ≠ none → EndInv s.got s.conn
  got : s.got.length = s.conn.rcvd
  opened : Opened s.got s.conn

/-- A slot that is still held by the connection a thread has chosen is ready. -/
structure Inv (t : Transport) : Prop where
  slot : ∀ i, SlotInv (t.slots i)
  generation_le : ∀ g ∈ t.targets, g.generation ≤ (t.slots g.slot).generation
  ready : ∀ g ∈ t.targets, (t.slots g.slot).generation = g.generation →
    (t.slots g.slot).conn.active = true → (t.slots g.slot).conn.ready = true

lemma inv_fresh (i e : UInt64) : Inv { nodeId := i, ownerEpoch := e } where
  slot := fun _ => ⟨fun _ => ⟨⟨.start, .start, rfl, rfl, .inl rfl⟩, Nat.le_refl _, by simp, by simp,
    by simp, by simp, rfl, rfl⟩, rfl, by simp [pastHello], by simp [pastEnd]⟩
  generation_le := by simp
  ready := by simp

/-- One slot changes, not to an earlier acquisition, and a connection that stays keeps its
flags. -/
lemma Inv.update (hi : Inv t) (hs : SlotInv s) (hgen : (t.slots i).generation ≤ s.generation)
    (hr : s.generation = (t.slots i).generation → s.conn.active = true →
      (t.slots i).conn.active = true ∧ ((t.slots i).conn.ready = true → s.conn.ready = true)) :
    Inv { t with slots := Function.update t.slots i s } := by
  obtain ⟨h1, h4, h5⟩ := hi
  refine ⟨fun j => ?_, fun g hmem => ?_, fun g hmem => ?_⟩
  · by_cases hj : j = i
    · subst hj
      simpa only [Function.update_self]
    · simpa only [Function.update_of_ne hj] using h1 j
  · have := h4 g hmem
    by_cases hj : g.slot = i
    · simp only [hj, Function.update_self] at this ⊢
      omega
    · simpa only [Function.update_of_ne hj] using this
  · have hr5 := h5 g hmem
    have hle := h4 g hmem
    by_cases hj : g.slot = i
    · simp only [hj, Function.update_self] at hr5 hle ⊢
      intro he ha
      have hgen' : s.generation = (t.slots i).generation := by omega
      obtain ⟨ha', hr'⟩ := hr hgen' ha
      exact hr' (hr5 (by omega) ha')
    · simpa only [Function.update_of_ne hj] using hr5

lemma Inv.untarget (hi : Inv t) (k : ℕ) : Inv (t.untarget k) :=
  ⟨hi.slot, fun g hg => hi.generation_le g (List.mem_of_mem_eraseIdx hg),
    fun g hg => hi.ready g (List.mem_of_mem_eraseIdx hg)⟩

/-- An update goes to the slot of a target. -/
lemma writesTo_eq_some {st : Step} (hw : writesTo t st = some s) :
    ∃ k g, st = .sendFramed k ∧ t.targets[k]? = some g ∧ s = t.slots g.slot ∧
      s.conn.active = true := by
  cases st with
  | sendFramed k =>
    simp only [writesTo] at hw
    split at hw
    · cases hw
    · rename_i g hg
      split_ifs at hw with ha
      cases hw
      exact ⟨k, g, rfl, hg, rfl, ha⟩
  | _ => cases hw

/-- A ready slot is completed. -/
lemma SlotInv.completed (hs : SlotInv s) (hr : s.conn.ready = true) : Completed s :=
  ⟨hr, hs.opened.started (.inl hr), hs.opened.ended (.inl hr),
    fun ho => end_mem_of_stage ((hs.conn ho).ready hr)⟩

/-- A safe step writes an update to a ready connection. -/
lemma Inv.writesTo (hi : Inv t) {st : Step} (hs : Safe t st) (hw : Slots.writesTo t st = some s) :
    s.conn.ready = true := by
  obtain ⟨k, g, rfl, hg, rfl, ha⟩ := writesTo_eq_some hw
  by_cases he : (t.slots g.slot).generation = g.generation
  · exact hi.ready g (List.mem_of_getElem? hg) he ha
  · exact hs g hg ha he

/-- Writing an update to a ready connection. -/
lemma SlotInv.sendUpdate (hs : SlotInv s) (ha : s.conn.active = true) (hr : s.conn.ready = true)
    (payload : List UInt8) :
    SlotInv { s with conn := s.conn.write .hostLocationUpdate payload } := by
  refine ⟨fun ho => ?_, hs.got, fun _ => ?_, hs.opened.ended⟩
  · have hc := hs.conn ho
    have hq := hc.ready hr
    obtain ⟨q, r, hq', hrd, hp⟩ := hc.phase
    obtain rfl : q = .ended := Option.some.inj (hq'.symm.trans hq)
    exact hc.write (k := s.conn.pc) ha hq rfl hrd hp (fun _ => rfl) id rfl
  · simp [Endpoint.write]

/-- **A safe step keeps the invariant.** -/
lemma Inv.step {st : Step} (hi : Inv t) (hs : Safe t st) (hst : step t st = some t') :
    Inv t' := by
  cases st with
  | acquire host =>
    simp only [Slots.step] at hst
    split at hst <;> cases hst
    refine hi.update ⟨fun _ => endInv_acquired ⟨_, _, _, rfl⟩ _, rfl, ?_, ?_⟩ (by simp) (by simp)
    · simp [pastHello]
    · simp [pastEnd]
  | thread i l =>
    simp only [Slots.step] at hst
    split_ifs at hst with hl
    obtain ⟨x, hx, rfl⟩ := Option.map_eq_some_iff.mp hst
    obtain ⟨hc, hg, ho⟩ := hi.slot i
    have ht := thread_step hl hx
    refine hi.update ⟨fun h => ?_, hg.trans ht.rcvd.symm, ho.thread hl hx⟩ (Nat.le_refl _)
      fun _ => ht.flags
    exact (hc h).act (y := { sent := (t.slots i).got }) h hx
  | receive i f now =>
    obtain ⟨x, hx, rfl⟩ := Option.map_eq_some_iff.mp hst
    obtain ⟨hc, hg, ho⟩ := hi.slot i
    have hf : ((t.slots i).got ++ [f])[(t.slots i).conn.rcvd]? = some f := by
      rw [← hg]
      simp
    have hr := recv_flags hx
    refine hi.update ⟨fun h => ?_, ?_, ho.recv hx⟩ (Nat.le_refl _)
      fun _ ha => ⟨hr.active ▸ ha, fun h1 => hr.ready ▸ h1⟩
    · exact ((hc (stage_append_ne_none [f] h)).append [f]).recv h hf hx
    · rw [List.length_append, hg, recv_rcvd hx]
      rfl
  | select loc =>
    cases hst
    refine ⟨hi.slot, fun g hg => ?_, fun g hg => ?_⟩
    all_goals
      rcases List.mem_append.mp hg with hg | hg
    · exact hi.generation_le g hg
    · obtain ⟨i, -, rfl⟩ := List.mem_map.mp hg
      exact Nat.le_refl _
    · exact hi.ready g hg
    · obtain ⟨i, hi', rfl⟩ := List.mem_map.mp hg
      have := (List.mem_filter.mp hi').2
      rw [Bool.and_eq_true] at this
      exact fun _ _ => this.2
  | sendFramed k =>
    simp only [Slots.step] at hst
    split at hst
    · cases hst
    rename_i g hg
    have hu := hi.untarget k
    split_ifs at hst with ha <;> cases hst
    · have hr := hi.writesTo hs (s := t.slots g.slot)
        (by simp only [Slots.writesTo, hg, ha, if_true])
      exact hu.update ((hi.slot g.slot).sendUpdate ha hr _) (Nat.le_refl _) fun _ ha => ⟨ha, id⟩
    · exact hu
  | sendFramedFail k =>
    simp only [Slots.step] at hst
    split_ifs at hst
    cases hst
    exact hi.untarget k

lemma run_inv (hr : Run transport h t) (hs : NotRecycled h) : Inv t := by
  refine hr.inv_of_ok Safe Inv ?_ (fun _ _ _ hi hok hst => hi.step hok hst) hs
  rintro _ ⟨i, e, rfl⟩
  exact inv_fresh i e

/-- **Updates are written on completed connections only, exactly in the runs in which no slot
is recycled under a thread that has chosen it**, or else the new connection is ready as
well. -/
theorem onReady_iff (hr : Run transport h t) : OnReady h ↔ NotRecycled h := by
  constructor
  · rintro ho ⟨u, st⟩ hp
    cases st with
    | sendFramed k =>
      intro g hg ha _
      refine (ho _ hp (u.slots g.slot) ?_).ready
      simp only [writesTo, Option.mem_def.mp hg]
      exact if_pos ha
    | _ => trivial
  · intro hs p hp s hw
    obtain ⟨h1, h2, u, hsplit, hr1, -⟩ := hr.split hp
    have hi := run_inv hr1 fun q hq => hs q (by simp [hsplit, hq])
    obtain ⟨k, g, -, -, rfl, -⟩ := writesTo_eq_some hw
    exact (hi.slot g.slot).completed (hi.writesTo (hs p hp) hw)

/-- A node that has just been initialised. -/
def freshHost : State := daimHostStateInit {} 1 7

/-- The connection in slot 0, from its `HELLO` until it is ready. -/
def handshake : List Step :=
  [.thread 0 .send, .receive 0 ⟨.hello, 2, []⟩ 1, .thread 0 .send,
    .receive 0 ⟨.stateSnapshotRequest, 2, []⟩ 2, .thread 0 .exportSnapshot, .thread 0 .send,
    .receive 0 ⟨.stateSnapshotEnd, 2, []⟩ 3, .thread 0 (.replayNext 4), .thread 0 .setReady]

def learned : HostLocation :=
  { mac := macOf 9, originNodeId := 1, ownerDpid := 1, ownerPort := 1, ownerEpoch := 7
    sequence := 1, isLocal := 1, learnedAtNs := 0, appliedAtNs := 0 }

theorem onReady_iff_fresh :
    ∃ h t, Run transport h t ∧ OnReady h ∧ (t.slots 0).conn.sent.length = 4 := by
  obtain ⟨h, t, hr, hp⟩ := exists_run_of_replay (f := step) (s := { nodeId := 1, ownerEpoch := 7 })
    (i := fun t => ∃ nodeId ownerEpoch, t = { nodeId := nodeId, ownerEpoch := ownerEpoch })
    (.acquire freshHost :: handshake ++ [.select learned, .sendFramed 0]) ⟨_, _, rfl⟩
    (fun h t => NotRecycled h ∧ (t.slots 0).conn.sent.length = 4) (by decide)
  exact ⟨h, t, hr, (onReady_iff hr).mpr hp.1, hp.2⟩

/-- A thread chooses slot 0, the connection there ends, a new one gets the slot, and the
update becomes the first frame of it. -/
theorem update_first_on_recycled_slot :
    ∃ h t, Run transport h t ∧ ¬OnReady h ∧
      ∃ p ∈ h, ∃ s, writesTo p.1 p.2 = some s ∧ s.conn.ready = false ∧ s.conn.sent = [] := by
  obtain ⟨h, t, hr, hp⟩ := exists_run_of_replay (f := step) (s := { nodeId := 1, ownerEpoch := 7 })
    (i := fun t => ∃ nodeId ownerEpoch, t = { nodeId := nodeId, ownerEpoch := ownerEpoch })
    (.acquire freshHost :: handshake ++
      [.select learned, .thread 0 .recvFail, .thread 0 .teardown, .acquire freshHost,
        .sendFramed 0]) ⟨_, _, rfl⟩
    (fun h _ => ∃ p ∈ h, ∃ s ∈ writesTo p.1 p.2, s.conn.ready = false ∧ s.conn.sent = [])
    (by decide)
  obtain ⟨p, hp, s, hw, hready, hsent⟩ := hp
  exact ⟨h, t, hr, fun ho => by simp [(ho p hp s hw).ready] at hready, p, hp, s, hw, hready, hsent⟩

end DaimDistributed.Slots
