import Mathlib.Algebra.Order.BigOperators.Group.Finset
import DaimDistributed.Slots

/-!
The traffic counters of two transports that are connected to each other.

A frame is counted where it is written, and where it is read: inside the exchange and in the
steady loop, but not at the handshake. So the counters of the two sides differ by the first
frames of the connections, and by nothing else.
-/

namespace DaimDistributed.Traffic

open HostState Protocol Transitions Transport Phases
open Slots (maxConnections)

/-- One of the two transports. A slot holds the connection it was acquired for last; the targets
are slots that disseminating threads have chosen and not written to yet. -/
structure Node where
  nodeId : UInt64
  ownerEpoch : UInt64
  stats : TransportStats := {}
  slots : ℕ → Option ℕ := fun _ => none
  targets : List (ℕ × HostLocation) := []

/-- An end that no thread has taken over. -/
def unused : Endpoint := { pc := .closed, active := false }

/-- The two transports and the connections opened between them. On the ends that are waiting no
`run_connection` has begun yet. -/
structure Net where
  node : Side → Node
  opened : ℕ := 0
  ends : ℕ → Conn := fun _ _ => unused
  waiting : List (ℕ × Side) := []

inductive Step
  | connect
  | acquire (i : Side) (c : ℕ) (host : State)
  | thread (i : Side) (c : ℕ) (l : Act)
  | select (i : Side) (loc : HostLocation)
  | sendFramed (i : Side) (k : ℕ)
  | sendFramedFail (i : Side) (k : ℕ)

/-- What the thread of a connection does itself. -/
def ofThread : Act → Bool
  | .select _ | .sendUpdate _ | .sendUpdateFail _ => false
  | _ => true

namespace Net

/-- An end, with the counters of its transport. -/
def view (t : Net) (i : Side) (c : ℕ) : Endpoint :=
  { t.ends c i with stats := (t.node i).stats }

def setNode (t : Net) (i : Side) (n : Node) : Net :=
  { t with node := Function.update t.node i n }

/-- An end that has moved, and the counters with it. -/
def setEnd (t : Net) (i : Side) (c : ℕ) (x : Endpoint) : Net :=
  { t with
    ends := Function.update t.ends c (Function.update (t.ends c) i x)
    node := Function.update t.node i { t.node i with stats := x.stats } }

def slotActive (t : Net) (i : Side) (s : ℕ) : Bool :=
  ((t.node i).slots s).any fun c => (t.ends c i).active

def slotReady (t : Net) (i : Side) (s : ℕ) : Bool :=
  ((t.node i).slots s).any fun c => (t.ends c i).ready

def untarget (t : Net) (i : Side) (k : ℕ) : Net :=
  t.setNode i { t.node i with targets := (t.node i).targets.eraseIdx k }

end Net

/-- The first slot that is not active. -/
def acquireConnectionSlot (t : Net) (i : Side) : Option ℕ :=
  (List.range maxConnections).find? fun s => !t.slotActive i s

/-- The slots `daim_peer_transport_disseminate` chooses. -/
def chosen (t : Net) (i : Side) (loc : HostLocation) : List (ℕ × HostLocation) :=
  ((List.range maxConnections).filter fun s => t.slotActive i s && t.slotReady i s).map (·, loc)

def step (t : Net) : Step → Option Net
  | .connect =>
    some { t with
      opened := t.opened + 1, waiting := t.waiting ++ [(t.opened, .a), (t.opened, .b)] }
  | .acquire i c host =>
    if (c, i) ∈ t.waiting then
      let t := { t with waiting := t.waiting.filter (· ≠ (c, i)) }
      match acquireConnectionSlot t i with
      | none => some t
      | some s =>
        let n := { t.node i with slots := Function.update (t.node i).slots s (some c) }
        some ((t.setNode i n).setEnd i c
          { nodeId := n.nodeId, ownerEpoch := n.ownerEpoch, host := host, stats := n.stats })
    else none
  | .thread i c l =>
    if c < t.opened ∧ (c, i) ∉ t.waiting ∧ ofThread l = true then
      (act (t.view i c) (t.ends c i.other) l).map (t.setEnd i c)
    else none
  | .select i loc =>
    some (t.setNode i { t.node i with targets := (t.node i).targets ++ chosen t i loc })
  | .sendFramed i k =>
    match (t.node i).targets[k]? with
    | none => none
    | some (s, loc) =>
      match (t.node i).slots s with
      | none => some (t.untarget i k)
      | some c =>
        if (t.ends c i).active = true then
          some ((t.untarget i k).setEnd i c
            ((t.view i c).write .hostLocationUpdate (daimPeerEncodeHostLocation loc)))
        else some (t.untarget i k)
  | .sendFramedFail i k =>
    if k < (t.node i).targets.length then some (t.untarget i k) else none

/-- Two transports without connections. -/
def net : Lts Net Step :=
  ofFun (fun t => ∃ node : Side → UInt64 × UInt64,
    t = { node := fun i => { nodeId := (node i).1, ownerEpoch := (node i).2 } }) step

/-! ### What is to be conserved -/

/-- What one side has sent the other has received. -/
def Conserved (t : Net) : Prop :=
  ∀ i : Side,
    (t.node i).stats.messagesSent = (t.node i.other).stats.messagesReceived ∧
      (t.node i).stats.bytesSent = (t.node i.other).stats.bytesReceived ∧
      (t.node i).stats.snapshotEntriesSent = (t.node i.other).stats.snapshotEntriesReceived

/-- Every frame sent has been received. -/
def Quiet (t : Net) : Prop :=
  ∀ c < t.opened, ∀ i : Side, (t.ends c i.other).rcvd = (t.ends c i).sent.length

instance (t : Net) : Decidable (Quiet t) := by unfold Quiet; infer_instance

/-- A frame is received at the handshake. -/
def Greets (t : Net) : Step → Prop
  | .thread i c (.recv _) => (t.ends c i).pc = .recvHello
  | _ => False

instance (t : Net) : (st : Step) → Decidable (Greets t st)
  | .thread i c (.recv _) => inferInstanceAs (Decidable ((t.ends c i).pc = .recvHello))
  | .thread _ _ .send | .thread _ _ .sendFail | .thread _ _ .recvFail
  | .thread _ _ .exportSnapshot | .thread _ _ (.replayNext _) | .thread _ _ .setReady
  | .thread _ _ .stop | .thread _ _ .teardown | .thread _ _ (.select _)
  | .thread _ _ (.sendUpdate _) | .thread _ _ (.sendUpdateFail _) | .thread _ _ (.host _)
  | .connect | .acquire _ _ _ | .select _ _ | .sendFramed _ _ | .sendFramedFail _ _ =>
    isFalse id

/-! ### The counters, told by the frames -/

/-- What is counted of frames. -/
inductive Measure
  | messages | bytes | entries
  deriving DecidableEq

def weight : Measure → Frame → ℕ
  | .messages, _ => 1
  | .bytes, f => daimPeerHeaderSize + f.payload.length
  | .entries, f => if f.messageType = .stateSnapshotEntry then 1 else 0

def sentCount : Measure → TransportStats → ℕ
  | .messages, s => s.messagesSent
  | .bytes, s => s.bytesSent
  | .entries, s => s.snapshotEntriesSent

def receivedCount : Measure → TransportStats → ℕ
  | .messages, s => s.messagesReceived
  | .bytes, s => s.bytesReceived
  | .entries, s => s.snapshotEntriesReceived

def tally (m : Measure) (fs : List Frame) : ℕ := (fs.map (weight m)).sum

lemma tally_append (m : Measure) (fs gs : List Frame) :
    tally m (fs ++ gs) = tally m fs + tally m gs := by
  rw [tally, List.map_append, List.sum_append]
  rfl

lemma tally_snoc (m : Measure) (fs : List Frame) (f : Frame) :
    tally m (fs ++ [f]) = tally m fs + weight m f := tally_append m fs [f]

/-! ### The order of the frames

An update may be written to a slot that was acquired again, so it may stand anywhere. What is
left without the updates is in order. -/

def control (fs : List Frame) : List Frame :=
  fs.filter fun f => decide (f.messageType ≠ .hostLocationUpdate)

variable {fs ws : List Frame} {f : Frame} {x x' y : Endpoint} {q r : Stage} {m : Measure}

/-- The stage behind a frame that may be an update. -/
def advance (q : Stage) (t : MsgType) : Option Stage :=
  if t = .hostLocationUpdate then some q else next q t

lemma stage_control_snoc : stage (control (fs ++ [f])) =
    (stage (control fs)).bind fun q => advance q f.messageType := by
  rw [control, control, List.filter_append]
  by_cases h : f.messageType = .hostLocationUpdate
  · simp [h, advance]
  · simp [h, advance, stage_snoc]

/-- The thread of the connection has read a frame at the handshake and goes on. -/
def greeted : Pc → Bool
  | .sendHello | .recvHello | .closing | .closed => false
  | _ => true

/-- An end, whose peer has written `ws`. -/
structure EndOk (ws : List Frame) (x : Endpoint) : Prop where
  phase : ∃ q r, stage (control x.sent) = some q ∧
    stage (control (ws.take x.rcvd)) = some r ∧ Phase x.pc q r x.served
  rcvd_le : x.rcvd ≤ ws.length
  unread : x.pc = .sendHello ∨ x.pc = .recvHello → x.rcvd = 0
  read : greeted x.pc = true → 0 < x.rcvd
  entries : ∀ f ∈ x.sent, f.messageType = .stateSnapshotEntry →
    ∃ loc, daimPeerDecodeHostLocation f.payload = some loc

lemma endOk_unused (ws : List Frame) : EndOk ws unused :=
  ⟨⟨.start, .start, rfl, rfl, .inl rfl⟩, Nat.zero_le _, by simp [unused], by simp [unused, greeted],
    by simp [unused]⟩

lemma endOk_acquired (h : x.sent = [] ∧ x.rcvd = 0 ∧ x.pc = .sendHello ∧ x.served = [])
    (ws : List Frame) : EndOk ws x := by
  obtain ⟨h1, h2, h3, h4⟩ := h
  refine ⟨⟨.start, .start, by rw [h1]; rfl, by rw [h2]; rfl, ?_⟩, by omega, fun _ => h2,
    by simp [h3, greeted], by simp [h1]⟩
  rw [h3, h4]
  exact ⟨rfl, rfl, rfl⟩

/-- What the peer writes later does not matter. -/
lemma EndOk.append (h : EndOk ws x) (vs : List Frame) : EndOk (ws ++ vs) x := by
  obtain ⟨⟨q, r, hq, hr, hp⟩, hle, h3, h4, h5⟩ := h
  refine ⟨⟨q, r, hq, ?_, hp⟩, by rw [List.length_append]; omega, h3, h4, h5⟩
  rwa [List.take_append_of_le_length hle]

/-- A step that writes and reads nothing, to a program counter of the same phase. -/
lemma EndOk.goto (h : EndOk ws x) (hs : x'.sent = x.sent) (hr : x'.rcvd = x.rcvd)
    (hu : x'.pc = .sendHello ∨ x'.pc = .recvHello → x.pc = x'.pc)
    (hg : greeted x'.pc = true → greeted x.pc = true)
    (hp : ∀ q r, Phase x.pc q r x.served → Phase x'.pc q r x'.served) : EndOk ws x' := by
  obtain ⟨⟨q, r, h1, h2, h3⟩, h4, h5, h6, h7⟩ := h
  refine ⟨⟨q, r, hs ▸ h1, hr ▸ h2, hp q r h3⟩, hr ▸ h4, fun h => hr ▸ h5 (hu h ▸ h),
    fun h => hr ▸ h6 (hg h), hs ▸ h7⟩

lemma EndOk.served (h : EndOk ws x) : x.served = [] ∨ x.served = [true] := by
  obtain ⟨⟨q, r, -, -, hp⟩, -⟩ := h
  cases hpc : x.pc <;> simp only [hpc, Phase] at hp <;> tauto

lemma EndOk.close (h : EndOk ws x) : EndOk ws { x with pc := .closing } :=
  h.goto rfl rfl (by simp) (by simp [greeted]) fun _ _ _ => h.served

/-- A frame is written, and the thread goes on to `k`. -/
lemma EndOk.write (h : EndOk ws x) {q' : Stage} (hs : x'.sent = x.sent ++ [f])
    (hrc : x'.rcvd = x.rcvd) (hq : stage (control x.sent) = some q)
    (hn : advance q f.messageType = some q') (hr : stage (control (ws.take x.rcvd)) = some r)
    (hp : Phase x'.pc q' r x'.served) (hu : x'.pc = .sendHello ∨ x'.pc = .recvHello → x.rcvd = 0)
    (hg : greeted x'.pc = true → greeted x.pc = true)
    (he : f.messageType = .stateSnapshotEntry →
      ∃ loc, daimPeerDecodeHostLocation f.payload = some loc) : EndOk ws x' := by
  refine ⟨⟨q', r, ?_, hrc ▸ hr, hp⟩, hrc ▸ h.rcvd_le, fun h' => hrc ▸ hu h',
    fun h' => hrc ▸ h.read (hg h'), fun g hg' => ?_⟩
  · rw [hs, stage_control_snoc, hq]
    exact hn
  · rw [hs, List.mem_append, List.mem_singleton] at hg'
    rcases hg' with hg' | rfl
    · exact h.entries g hg'
    · exact he

/-- An update, of whatever thread. -/
lemma EndOk.writeUpdate (h : EndOk ws x) (payload : List UInt8) :
    EndOk ws (x.write .hostLocationUpdate payload) := by
  obtain ⟨q, r, hq, hr, hp⟩ := h.phase
  exact h.write rfl rfl hq (if_pos rfl) hr hp h.unread id (by simp)

/-- What has been read, with the next frame. -/
lemma take_succ (hf : ws[x.rcvd]? = some f) :
    ws.take (x.rcvd + 1) = ws.take x.rcvd ++ [f] := by
  rw [List.take_add_one, hf]
  rfl

/-- The next frame is in order after what was read. -/
lemma advance_ne_none (hws : stage (control ws) ≠ none) (hf : ws[x.rcvd]? = some f)
    (hr : stage (control (ws.take x.rcvd)) = some r) : advance r f.messageType ≠ none := by
  have h1 : control ws = control (ws.take (x.rcvd + 1)) ++ control (ws.drop (x.rcvd + 1)) := by
    rw [control, control, control, ← List.filter_append, List.take_append_drop]
  have h2 := stage_append_ne_none _ (h1 ▸ hws)
  rw [take_succ hf, stage_control_snoc, hr] at h2
  exact h2

/-- Reading the next frame, into a state of the phase it leads to. -/
lemma EndOk.receive (h : EndOk ws x) {r' : Stage} (hs : x'.sent = x.sent)
    (hrc : x'.rcvd = x.rcvd + 1) (hf : ws[x.rcvd]? = some f)
    (hq : stage (control x.sent) = some q) (hr : stage (control (ws.take x.rcvd)) = some r)
    (hn : advance r f.messageType = some r') (hp : Phase x'.pc q r' x'.served)
    (hu : x'.pc ≠ .sendHello ∧ x'.pc ≠ .recvHello) : EndOk ws x' := by
  have hlt : x.rcvd < ws.length := (List.getElem?_eq_some_iff.mp hf).1
  refine ⟨⟨q, r', hs ▸ hq, ?_, hp⟩, by omega, fun h' => absurd h' (by tauto), fun _ => by omega,
    hs ▸ h.entries⟩
  rw [hrc, take_succ hf, stage_control_snoc, hr]
  exact hn

/-! ### What a step of an end does -/

/-- What a step does to the frames and to what is counted of them. -/
inductive Moves (ws : List Frame) (x x' : Endpoint) : Prop
  | still (hs : x'.sent = x.sent) (hr : x'.rcvd = x.rcvd)
      (hsc : ∀ m, sentCount m x'.stats = sentCount m x.stats)
      (hrc : ∀ m, receivedCount m x'.stats = receivedCount m x.stats)
  | writes (f : Frame) (hs : x'.sent = x.sent ++ [f]) (hr : x'.rcvd = x.rcvd)
      (hsc : ∀ m, sentCount m x'.stats = sentCount m x.stats + weight m f)
      (hrc : ∀ m, receivedCount m x'.stats = receivedCount m x.stats)
  | greets (f : Frame) (hpc : x.pc = .recvHello) (hf : ws[x.rcvd]? = some f)
      (hs : x'.sent = x.sent) (hr : x'.rcvd = x.rcvd + 1)
      (hsc : ∀ m, sentCount m x'.stats = sentCount m x.stats)
      (hrc : ∀ m, receivedCount m x'.stats = receivedCount m x.stats)
  | reads (f : Frame) (hpc : greeted x.pc = true) (hf : ws[x.rcvd]? = some f)
      (hs : x'.sent = x.sent) (hr : x'.rcvd = x.rcvd + 1)
      (hsc : ∀ m, sentCount m x'.stats = sentCount m x.stats)
      (hrc : ∀ m, receivedCount m x'.stats = receivedCount m x.stats + weight m f)

/-- Only the program counter and the like move. -/
lemma Moves.of_eq (hs : x'.sent = x.sent) (hr : x'.rcvd = x.rcvd)
    (ht : x'.stats = { x.stats with
      deferredUpdatesReplayed := x'.stats.deferredUpdatesReplayed }) : Moves ws x x' :=
  .still hs hr (fun m => by rw [ht]; cases m <;> rfl) fun m => by rw [ht]; cases m <;> rfl

/-- A frame is written that is not a snapshot entry. -/
lemma Moves.write (t : MsgType) (payload : List UInt8) (k : Pc) (ht : t ≠ .stateSnapshotEntry) :
    Moves ws x { x.write t payload with pc := k } := by
  refine .writes ⟨t, x.nodeId, payload⟩ rfl rfl (fun m => ?_) fun m => by cases m <;> rfl
  cases m
  · rfl
  · rfl
  · simp [sentCount, weight, Endpoint.write, ht]

/-- A frame is read behind the handshake that is not a snapshot entry. -/
lemma Moves.read (hg : greeted x.pc = true) (hf : ws[x.rcvd]? = some f)
    (ht : f.messageType ≠ .stateSnapshotEntry) (hs : x'.sent = x.sent)
    (hr : x'.rcvd = x.rcvd + 1)
    (hst : x'.stats = { (x.countReceived f).stats with
      deferredUpdatesOverflowForcedReconnects :=
        x'.stats.deferredUpdatesOverflowForcedReconnects }) : Moves ws x x' := by
  refine .reads f hg hf hs hr (fun m => by rw [hst]; cases m <;> rfl) fun m => ?_
  rw [hst]
  cases m
  · rfl
  · rfl
  · simp [receivedCount, weight, Endpoint.countReceived, ht]

/-- A write of the thread. -/
lemma EndOk.send (h : EndOk ws x) (hst : x.send = some x') : EndOk ws x' ∧ Moves ws x x' := by
  unfold Endpoint.send at hst
  split at hst
  · cases hst
  obtain ⟨q, r, hq, hr, hp⟩ := h.phase
  split at hst <;> cases hst <;> rename_i hpc <;> simp only [hpc, Phase] at hp
  · obtain ⟨rfl, rfl, hsv⟩ := hp
    exact ⟨h.write rfl rfl hq rfl hr ⟨rfl, rfl, hsv⟩ (fun _ => h.unread (.inl hpc))
      (by simp [greeted]) (by simp), .write _ _ _ (by simp)⟩
  · obtain ⟨rfl, rfl, hsv⟩ := hp
    exact ⟨h.write rfl rfl hq rfl hr (.inl ⟨rfl, rfl, hsv⟩) (by simp) (by simp [greeted, hpc])
      (by simp), .write _ _ _ (by simp)⟩
  · obtain ⟨rfl, rfl, rfl, hsv⟩ := hp
    refine ⟨h.write rfl rfl hq rfl hr ⟨rfl, rfl, rfl, hsv⟩ (by simp) (by simp [greeted, hpc])
      (fun _ => ⟨_, decode_encode _⟩), .writes _ rfl rfl (fun m => ?_) fun m => ?_⟩
    all_goals cases m <;> rfl
  · obtain ⟨rfl, rfl, rfl, hsv⟩ := hp
    exact ⟨h.write rfl rfl hq rfl hr (.inr ⟨rfl, rfl, hsv⟩) (by simp) (by simp [greeted, hpc])
      (by simp), .write _ _ _ (by simp)⟩

/-- A read in the exchange: the peer's request first, and then its entries up to the end. -/
lemma EndOk.exchange (h : EndOk ws x)
    (hes : ∀ f ∈ ws, f.messageType = .stateSnapshotEntry →
      ∃ loc, daimPeerDecodeHostLocation f.payload = some loc)
    (hpc : x.pc = .exchange) (hf : ws[x.rcvd]? = some f) {n : UInt64} {r' : Stage}
    (hq : stage (control x.sent) = some q) (hr : stage (control (ws.take x.rcvd)) = some r)
    (hp : Phase .exchange q r x.served) (hn : advance r f.messageType = some r')
    (hx : x' = ({ x with rcvd := x.rcvd + 1 }.countReceived f).exchangeMessage f n) :
    EndOk ws x' ∧ Moves ws x x' := by
  have hg : greeted x.pc = true := by rw [hpc]; rfl
  have hu : x.pc ≠ .sendHello ∧ x.pc ≠ .recvHello := by simp [hpc]
  unfold Endpoint.exchangeMessage at hx
  cases ht : f.messageType <;> simp only [ht] at hx hn
  case stateSnapshotRequest =>
    obtain ⟨rfl, rfl, hsv⟩ : q = .requested ∧ r = .greeted ∧ x.served = [] := by
      rcases hp with hp | ⟨-, rfl, -⟩
      · exact hp
      · simp [advance, next] at hn
    cases hn
    subst hx
    exact ⟨h.receive rfl rfl hf hq hr (by rw [ht]; rfl)
      ⟨rfl, rfl, rfl, congrArg (· ++ [true]) hsv⟩ (by simp), .read hg hf (by simp [ht]) rfl rfl rfl⟩
  case stateSnapshotEntry =>
    obtain ⟨rfl, rfl, hsv⟩ : q = .ended ∧ r = .requested ∧ x.served = [true] := by
      rcases hp with ⟨-, rfl, -⟩ | hp
      · simp [advance, next] at hn
      · exact hp
    cases hn
    obtain ⟨loc, hloc⟩ := hes f (List.mem_of_getElem? hf) ht
    rw [hloc] at hx
    subst hx
    have hp' : Phase x.pc .ended .requested x.served := by
      rw [hpc]
      exact .inr ⟨rfl, rfl, hsv⟩
    refine ⟨h.receive rfl rfl hf hq hr (by rw [ht]; rfl) hp' hu,
      .reads f hg hf rfl rfl (fun m => by cases m <;> rfl) fun m => ?_⟩
    cases m
    · rfl
    · rfl
    · simp [receivedCount, weight, Endpoint.countReceived, ht]
  case stateSnapshotEnd =>
    obtain ⟨rfl, rfl, hsv⟩ : q = .ended ∧ r = .requested ∧ x.served = [true] := by
      rcases hp with ⟨-, rfl, -⟩ | hp
      · simp [advance, next] at hn
      · exact hp
    cases hn
    subst hx
    exact ⟨h.receive rfl rfl hf hq hr (by rw [ht]; rfl) ⟨rfl, rfl, hsv⟩ (by simp),
      .read hg hf (by simp [ht]) rfl rfl rfl⟩
  case hostLocationUpdate =>
    cases hn
    have hp' : Phase x.pc q r x.served := by rwa [hpc]
    split at hx
    · subst hx
      exact ⟨h.receive rfl rfl hf hq hr (by rw [ht]; rfl) hp' hu,
        .read hg hf (by simp [ht]) rfl rfl rfl⟩
    · split_ifs at hx
      · subst hx
        exact ⟨h.receive rfl rfl hf hq hr (by rw [ht]; rfl) hp' hu,
          .read hg hf (by simp [ht]) rfl rfl rfl⟩
      · subst hx
        exact ⟨h.receive rfl rfl hf hq hr (by rw [ht]; rfl) h.served (by simp),
          .read hg hf (by simp [ht]) rfl rfl rfl⟩
  all_goals
    rcases hp with ⟨-, rfl, -⟩ | ⟨-, rfl, -⟩ <;> simp [advance, next] at hn

/-- A read of the thread. In the steady loop only updates are left to be read. -/
lemma EndOk.recv (h : EndOk ws x) (hws : stage (control ws) ≠ none)
    (hes : ∀ f ∈ ws, f.messageType = .stateSnapshotEntry →
      ∃ loc, daimPeerDecodeHostLocation f.payload = some loc)
    (hf : ws[x.rcvd]? = some f) {n : UInt64} (hst : x.recv f n = some x') :
    EndOk ws x' ∧ Moves ws x x' := by
  obtain ⟨q, r, hq, hr, hp⟩ := h.phase
  obtain ⟨r', hn⟩ := Option.ne_none_iff_exists'.mp (advance_ne_none hws hf hr)
  unfold Endpoint.recv at hst
  split at hst <;> rename_i hpc
  · rw [hpc] at hp
    obtain ⟨rfl, rfl, hsv⟩ := hp
    split_ifs at hst with ht
    · cases hst
      rw [ht] at hn
      cases hn
      refine ⟨h.receive rfl rfl hf hq hr (by rw [ht]; rfl) ⟨rfl, rfl, hsv⟩ (by simp), ?_⟩
      exact .greets f hpc hf rfl rfl (fun _ => rfl) fun _ => rfl
    · cases hst
      refine ⟨h.receive rfl rfl hf hq hr hn (.inl hsv) (by simp), ?_⟩
      exact .greets f hpc hf rfl rfl (fun _ => rfl) fun _ => rfl
  · rw [hpc] at hp
    exact h.exchange hes hpc hf hq hr hp hn (Option.some.inj hst).symm
  · rw [hpc] at hp
    have hg : greeted x.pc = true := by rw [hpc]; rfl
    have hu : x.pc ≠ .sendHello ∧ x.pc ≠ .recvHello := by simp [hpc]
    obtain ⟨rfl, rfl, hsv⟩ := hp
    have ht : f.messageType = .hostLocationUpdate := by
      cases ht : f.messageType <;> simp [ht, advance, next] at hn ⊢
    rw [ht] at hn
    cases hn
    have hp' : Phase x.pc .ended .ended x.served := by
      rw [hpc]
      exact ⟨rfl, rfl, hsv⟩
    simp only [Endpoint.handleMessage, ht] at hst
    split at hst <;> cases hst <;>
      exact ⟨h.receive rfl rfl hf hq hr (by rw [ht]; rfl) hp' hu,
        .read hg hf (by simp [ht]) rfl rfl rfl⟩
  · cases hst

/-- **A step of a thread is in order, and moves the counters by the frame it writes or reads**,
unless it reads the frame at the handshake. -/
theorem EndOk.act (h : EndOk y.sent x) (hy : EndOk x.sent y) {l : Act} (hl : ofThread l = true)
    (hst : Transport.act x y l = some x') : EndOk y.sent x' ∧ Moves y.sent x x' := by
  have hws : stage (control y.sent) ≠ none := by
    obtain ⟨q, r, hq, -⟩ := hy.phase
    simp [hq]
  cases l with
  | send => exact h.send hst
  | recv n =>
    simp only [Transport.act] at hst
    split at hst
    · cases hst
    · exact h.recv hws hy.entries ‹_› hst
  | sendFail =>
    obtain ⟨q, r, -, -, hp⟩ := h.phase
    simp only [Transport.act, Endpoint.sendFail] at hst
    split at hst <;> cases hst <;> rename_i hpc
    · exact ⟨h.close, .of_eq rfl rfl rfl⟩
    · exact ⟨h.close, .of_eq rfl rfl rfl⟩
    · exact ⟨h.close, .of_eq rfl rfl rfl⟩
    · simp [hpc, Phase] at hp
  | recvFail =>
    simp only [Transport.act, Endpoint.recvFail] at hst
    split at hst <;> cases hst <;> exact ⟨h.close, .of_eq rfl rfl rfl⟩
  | exportSnapshot =>
    obtain ⟨q, r, -, -, hp⟩ := h.phase
    simp only [Transport.act, Endpoint.exportSnapshot] at hst
    split at hst
    · rename_i b hpc
      simp only [hpc, Phase] at hp
      obtain ⟨rfl, -⟩ := hp
      split at hst <;> cases hst
      · exact ⟨h.goto rfl rfl (by simp) (by simp [greeted, hpc]) fun q r hq => by rwa [hpc] at hq,
          .of_eq rfl rfl rfl⟩
      · exact ⟨h.close, .of_eq rfl rfl rfl⟩
    · cases hst
  | replayNext n =>
    simp only [Transport.act, Endpoint.replayNext] at hst
    split at hst <;> cases hst <;> rename_i hpc _
    · exact ⟨h.goto rfl rfl (by simp) (by simp [greeted, hpc]) fun q r hq => by rwa [hpc] at hq,
        .of_eq rfl rfl rfl⟩
    · exact ⟨h.goto rfl rfl (by simp [hpc]) id fun q r hq => hq, .of_eq rfl rfl rfl⟩
  | setReady =>
    simp only [Transport.act, Endpoint.setReady] at hst
    split at hst <;> cases hst
    rename_i hpc
    exact ⟨h.goto rfl rfl (by simp) (by simp [greeted, hpc]) fun q r hq => by rwa [hpc] at hq,
      .of_eq rfl rfl rfl⟩
  | stop =>
    simp only [Transport.act, Endpoint.stop] at hst
    split at hst <;> cases hst
    exact ⟨h.close, .of_eq rfl rfl rfl⟩
  | teardown =>
    simp only [Transport.act, Endpoint.teardown] at hst
    split at hst <;> cases hst
    exact ⟨h.goto rfl rfl (by simp) (by simp [greeted]) fun _ _ _ => h.served,
      .of_eq rfl rfl rfl⟩
  | host s =>
    cases hst
    exact ⟨h.goto rfl rfl (fun _ => rfl) id fun q r hq => hq, .of_eq rfl rfl rfl⟩
  | select | sendUpdate | sendUpdateFail => exact absurd hl Bool.false_ne_true

/-! ### The invariant -/

variable {t t' : Net} {i j : Side} {c d : ℕ} {st : Step} {h : List (Net × Step)}

/-- The frames an end has read, without the first. -/
def counted (t : Net) (i : Side) (c : ℕ) : List Frame :=
  ((t.ends c i.other).sent.take (t.ends c i).rcvd).drop 1

structure Inv (t : Net) : Prop where
  ends : ∀ c i, EndOk (t.ends c i.other).sent (t.ends c i)
  waiting : ∀ c i, (c, i) ∈ t.waiting → c < t.opened
  idle : ∀ c i, t.opened ≤ c ∨ (c, i) ∈ t.waiting → t.ends c i = unused
  sent : ∀ m i, sentCount m (t.node i).stats =
    ∑ c ∈ Finset.range t.opened, tally m (t.ends c i).sent
  received : ∀ m i, receivedCount m (t.node i).stats =
    ∑ c ∈ Finset.range t.opened, tally m (counted t i c)

/-- A sum of which one term grows. -/
lemma sum_add_of_eq {n k : ℕ} {f g : ℕ → ℕ} (hc : c < n) (hg : g c = f c + k)
    (he : ∀ d, d ≠ c → g d = f d) :
    ∑ d ∈ Finset.range n, g d = ∑ d ∈ Finset.range n, f d + k := by
  have hmem : c ∈ Finset.range n := Finset.mem_range.mpr hc
  have hrest : ∑ d ∈ (Finset.range n).erase c, g d = ∑ d ∈ (Finset.range n).erase c, f d :=
    Finset.sum_congr rfl fun d hd => he d (Finset.ne_of_mem_erase hd)
  calc ∑ d ∈ Finset.range n, g d
      = g c + ∑ d ∈ (Finset.range n).erase c, g d := (Finset.add_sum_erase _ g hmem).symm
    _ = f c + ∑ d ∈ (Finset.range n).erase c, f d + k := by rw [hrest, hg, Nat.add_right_comm]
    _ = ∑ d ∈ Finset.range n, f d + k := by rw [Finset.add_sum_erase _ f hmem]

lemma ends_setEnd : (t.setEnd i c x).ends d j = if d = c ∧ j = i then x else t.ends d j := by
  simp only [Net.setEnd, Function.update_apply]
  split_ifs <;> simp_all

lemma stats_setEnd :
    ((t.setEnd i c x).node j).stats = if j = i then x.stats else (t.node j).stats := by
  simp only [Net.setEnd, Function.update_apply]
  split_ifs <;> rfl

/-- A step counts the frames it writes. -/
lemma Moves.tally_sent (hm : Moves ws x x') :
    ∃ k : Measure → ℕ, (∀ m, sentCount m x'.stats = sentCount m x.stats + k m) ∧
      ∀ m, tally m x'.sent = tally m x.sent + k m := by
  rcases hm with ⟨hs, -, hsc, -⟩ | ⟨f, hs, -, hsc, -⟩ | ⟨f, -, -, hs, -, hsc, -⟩ |
    ⟨f, -, -, hs, -, hsc, -⟩
  · exact ⟨fun _ => 0, hsc, fun _ => by rw [hs]; rfl⟩
  · exact ⟨fun m => weight m f, hsc, fun _ => by rw [hs, tally_snoc]⟩
  · exact ⟨fun _ => 0, hsc, fun _ => by rw [hs]; rfl⟩
  · exact ⟨fun _ => 0, hsc, fun _ => by rw [hs]; rfl⟩

/-- A step counts the frames it reads, without the first. -/
lemma Moves.tally_read (hm : Moves ws x x') (h : EndOk ws x) :
    ∃ k : Measure → ℕ, (∀ m, receivedCount m x'.stats = receivedCount m x.stats + k m) ∧
      ∀ m, tally m ((ws.take x'.rcvd).drop 1) = tally m ((ws.take x.rcvd).drop 1) + k m := by
  rcases hm with ⟨-, hr, -, hrc⟩ | ⟨f, -, hr, -, hrc⟩ | ⟨f, hpc, hf, -, hr, -, hrc⟩ |
    ⟨f, hpc, hf, -, hr, -, hrc⟩
  · exact ⟨fun _ => 0, hrc, fun _ => by rw [hr]; rfl⟩
  · exact ⟨fun _ => 0, hrc, fun _ => by rw [hr]; rfl⟩
  · refine ⟨fun _ => 0, hrc, fun m => ?_⟩
    have h0 : x.rcvd = 0 := h.unread (.inr hpc)
    rw [hr, take_succ hf, h0]
    rfl
  · refine ⟨fun m => weight m f, hrc, fun m => ?_⟩
    have h0 : 0 < x.rcvd := h.read hpc
    have h1 : 1 ≤ (ws.take x.rcvd).length := by
      have := h.rcvd_le
      rw [List.length_take]
      omega
    rw [hr, take_succ hf, List.drop_append_of_le_length h1, tally_snoc]

/-- Frames are only added to what was sent. -/
lemma Moves.sent_eq (hm : Moves ws x x') : ∃ vs, x'.sent = x.sent ++ vs := by
  rcases hm with ⟨hs, -⟩ | ⟨f, hs, -⟩ | ⟨f, -, -, hs, -⟩ | ⟨f, -, -, hs, -⟩
  · exact ⟨[], by simpa using hs⟩
  · exact ⟨[f], hs⟩
  · exact ⟨[], by simpa using hs⟩
  · exact ⟨[], by simpa using hs⟩

lemma inv_init (n : Side → UInt64 × UInt64) :
    Inv { node := fun i => { nodeId := (n i).1, ownerEpoch := (n i).2 } } where
  ends := fun _ _ => endOk_unused _
  waiting := by simp
  idle := fun _ _ _ => rfl
  sent := fun m _ => by cases m <;> rfl
  received := fun m _ => by cases m <;> rfl

lemma EndOk.view (h : EndOk ws (t.ends c i)) : EndOk ws (t.view i c) :=
  ⟨h.phase, h.rcvd_le, h.unread, h.read, h.entries⟩

/-- **An end that is in use moves.** -/
lemma Inv.setEnd (hi : Inv t) (hc : c < t.opened) (hw : (c, i) ∉ t.waiting)
    (hx : EndOk (t.ends c i.other).sent x)
    (hm : Moves (t.ends c i.other).sent (t.view i c) x) : Inv (t.setEnd i c x) := by
  obtain ⟨vs, hvs⟩ := hm.sent_eq
  have hle : (t.ends c i.other).rcvd ≤ (t.ends c i).sent.length := by
    simpa only [other_other] using (hi.ends c i.other).rcvd_le
  refine ⟨fun d j => ?_, hi.waiting, fun d j hd => ?_, fun m j => ?_, fun m j => ?_⟩
  · rw [ends_setEnd, ends_setEnd]
    by_cases hd : d = c
    · subst hd
      by_cases hj : j = i
      · subst hj
        simpa only [true_and, if_true, other_ne, if_false]
      · obtain rfl := eq_other_of_ne hj
        have h1 := (hi.ends d i.other).append vs
        rw [other_other] at h1 ⊢
        rw [if_pos ⟨rfl, rfl⟩, if_neg (by simp [other_ne]), hvs]
        exact h1
    · simpa only [hd, false_and, if_false] using hi.ends d j
  · rw [ends_setEnd, if_neg, hi.idle d j hd]
    rintro ⟨rfl, rfl⟩
    rcases hd with hd | hd
    · exact absurd hc (Nat.not_lt.mpr hd)
    · exact hw hd
  · obtain ⟨k, hk, hs⟩ := hm.tally_sent
    rw [stats_setEnd]
    by_cases hj : j = i
    · subst hj
      rw [if_pos rfl, hk]
      change sentCount m (t.node j).stats + k m = _
      rw [hi.sent m j]
      refine (sum_add_of_eq hc ?_ fun d hd => ?_).symm
      · rw [ends_setEnd, if_pos ⟨rfl, rfl⟩]
        exact hs m
      · rw [ends_setEnd, if_neg (fun h => hd h.1)]
    · rw [if_neg hj, hi.sent m j]
      refine Finset.sum_congr rfl fun d _ => ?_
      rw [ends_setEnd, if_neg (fun h => hj h.2)]
  · obtain ⟨k, hk, hs⟩ := hm.tally_read (hi.ends c i).view
    rw [stats_setEnd]
    by_cases hj : j = i
    · subst hj
      rw [if_pos rfl, hk]
      change receivedCount m (t.node j).stats + k m = _
      rw [hi.received m j]
      refine (sum_add_of_eq hc ?_ fun d hd => ?_).symm
      · rw [counted, ends_setEnd, ends_setEnd, if_pos ⟨rfl, rfl⟩, if_neg (by simp [other_ne])]
        exact hs m
      · rw [counted, ends_setEnd, ends_setEnd, if_neg (fun h => hd h.1), if_neg (fun h => hd h.1)]
        rfl
    · obtain rfl := eq_other_of_ne hj
      rw [if_neg hj, hi.received m i.other]
      refine Finset.sum_congr rfl fun d _ => ?_
      rw [counted, counted, ends_setEnd, ends_setEnd, other_other, if_neg (fun h => hj h.2)]
      by_cases hd : d = c
      · subst hd
        rw [if_pos ⟨rfl, rfl⟩, hvs]
        exact congrArg (fun fs => tally m (fs.drop 1))
          (List.take_append_of_le_length hle).symm
      · rw [if_neg (fun h => hd h.1)]

lemma stats_setNode {n : Node} (hn : n.stats = (t.node i).stats) :
    ((t.setNode i n).node j).stats = (t.node j).stats := by
  by_cases hj : j = i
  · subst hj
    simpa only [Net.setNode, Function.update_self]
  · simp only [Net.setNode, Function.update_of_ne hj]

/-- The slots and the targets of a transport do not matter. -/
lemma Inv.setNode (hi : Inv t) {n : Node} (hn : n.stats = (t.node i).stats) :
    Inv (t.setNode i n) :=
  ⟨hi.ends, hi.waiting, hi.idle, fun m _ => (stats_setNode hn).symm ▸ hi.sent m _,
    fun m _ => (stats_setNode hn).symm ▸ hi.received m _⟩

lemma Inv.untarget (hi : Inv t) (i : Side) (k : ℕ) : Inv (t.untarget i k) := hi.setNode rfl

lemma stats_untarget {k : ℕ} : ((t.untarget i k).node j).stats = (t.node j).stats :=
  stats_setNode rfl

lemma view_untarget {k : ℕ} : (t.untarget i k).view i c = t.view i c := by
  rw [Net.view, Net.view, stats_untarget]
  rfl

lemma Inv.connect (hi : Inv t) : Inv { t with
    opened := t.opened + 1, waiting := t.waiting ++ [(t.opened, .a), (t.opened, .b)] } := by
  have hnew : ∀ j, t.ends t.opened j = unused := fun j => hi.idle _ j (.inl (Nat.le_refl _))
  refine ⟨hi.ends, fun c i hc => ?_, fun c i hc => ?_, fun m i => ?_, fun m i => ?_⟩
  · simp only [List.mem_append, List.mem_cons, Prod.mk.injEq, List.not_mem_nil, or_false] at hc
    rcases hc with hc | hc | hc
    · exact Nat.lt_succ_of_lt (hi.waiting c i hc)
    all_goals exact hc.1 ▸ Nat.lt_succ_self _
  · simp only [List.mem_append, List.mem_cons, Prod.mk.injEq, List.not_mem_nil, or_false] at hc
    rcases hc with hc | hc | hc | hc
    · exact hi.idle c i (.inl (by omega))
    · exact hi.idle c i (.inr hc)
    all_goals exact hc.1 ▸ hnew i
  · rw [Finset.sum_range_succ, hnew]
    exact hi.sent m i
  · rw [Finset.sum_range_succ, counted, hnew, hnew]
    exact hi.received m i

/-- An end is not waiting any more. -/
lemma Inv.drop (hi : Inv t) (c : ℕ) (i : Side) :
    Inv { t with waiting := t.waiting.filter (· ≠ (c, i)) } := by
  have hsub : ∀ p ∈ t.waiting.filter (· ≠ (c, i)), p ∈ t.waiting := fun p hp =>
    (List.mem_filter.mp hp).1
  exact ⟨hi.ends, fun c j hj => hi.waiting c j (hsub _ hj),
    fun c j hj => hi.idle c j (hj.imp_right (hsub _)), hi.sent, hi.received⟩

/-- An end comes into use. It has not written or read anything yet. -/
lemma Inv.use (hi : Inv t) (hc : c < t.opened) (hw : (c, i) ∉ t.waiting)
    (hold : t.ends c i = unused)
    (hx : x.sent = [] ∧ x.rcvd = 0 ∧ x.pc = .sendHello ∧ x.served = [])
    (hs : x.stats = (t.node i).stats) : Inv (t.setEnd i c x) := by
  refine hi.setEnd hc hw (endOk_acquired hx _)
    (.still ?_ ?_ (fun m => congrArg (sentCount m) hs) fun m => congrArg (receivedCount m) hs)
  · rw [hx.1]
    exact (congrArg Endpoint.sent hold).symm
  · rw [hx.2.1]
    exact (congrArg Endpoint.rcvd hold).symm

/-- **Every step keeps the invariant.** -/
lemma Inv.step (hi : Inv t) (hst : step t st = some t') : Inv t' := by
  cases st with
  | connect =>
    cases hst
    exact hi.connect
  | acquire i c host =>
    simp only [Traffic.step] at hst
    split_ifs at hst with hw
    have hold : t.ends c i = unused := hi.idle c i (.inr hw)
    split at hst <;> cases hst
    · exact hi.drop c i
    · refine Inv.use ((hi.drop c i).setNode rfl) (hi.waiting c i hw) ?_ hold
        ⟨rfl, rfl, rfl, rfl⟩ ?_
      · simp [Net.setNode]
      · simp only [Net.setNode, Function.update_self]
  | thread i c l =>
    simp only [Traffic.step] at hst
    split_ifs at hst with hc
    obtain ⟨hlt, hw, hl⟩ := hc
    obtain ⟨x, hx, rfl⟩ := Option.map_eq_some_iff.mp hst
    have hy : EndOk (t.ends c i).sent (t.ends c i.other) := by
      simpa only [other_other] using hi.ends c i.other
    obtain ⟨h1, h2⟩ := (hi.ends c i).view.act hy hl hx
    exact hi.setEnd hlt hw h1 h2
  | select i loc =>
    cases hst
    exact hi.setNode rfl
  | sendFramed i k =>
    simp only [Traffic.step] at hst
    split at hst
    · cases hst
    split at hst
    · cases hst
      exact hi.untarget i k
    rename_i c hc
    split_ifs at hst with ha <;> cases hst
    · have hne : t.ends c i ≠ unused := by
        intro h
        rw [h] at ha
        cases ha
      have hlt : c < t.opened := by
        by_contra hlt
        exact hne (hi.idle c i (.inl (Nat.not_lt.mp hlt)))
      refine (hi.untarget i k).setEnd hlt (fun hw => hne (hi.idle c i (.inr hw)))
        ((hi.ends c i).view.writeUpdate _) ?_
      rw [view_untarget]
      exact .write _ _ _ (by simp)
    · exact hi.untarget i k
  | sendFramedFail i k =>
    simp only [Traffic.step] at hst
    split_ifs at hst
    cases hst
    exact hi.untarget i k

lemma run_inv (hr : Run net h t) : Inv t := by
  refine hr.inv Inv ?_ fun _ _ _ hi hst => hi.step hst
  rintro _ ⟨n, rfl⟩
  exact inv_init n

/-! ### Frames received at the handshake -/

/-- Reading is what makes an end one that has read, and the first read is at the handshake. -/
lemma EndOk.rcvd_pos_iff (hx : EndOk ws x) {l : Act} (hl : ofThread l = true)
    (hst : Transport.act x y l = some x') :
    0 < x'.rcvd ↔ 0 < x.rcvd ∨ (x.pc = .recvHello ∧ ∃ n, l = .recv n) := by
  cases l with
  | recv n =>
    simp only [Transport.act] at hst
    split at hst
    · cases hst
    rw [recv_rcvd hst]
    refine iff_of_true (Nat.succ_pos _) ?_
    unfold Endpoint.recv at hst
    split at hst <;> rename_i hpc
    · exact .inr ⟨hpc, n, rfl⟩
    · exact .inl (hx.read (by rw [hpc]; rfl))
    · exact .inl (hx.read (by rw [hpc]; rfl))
    · cases hst
  | select | sendUpdate | sendUpdateFail => exact absurd hl Bool.false_ne_true
  | _ =>
    rw [(Slots.thread_step rfl hst).rcvd]
    simp

lemma greets_thread {l : Act} :
    Greets t (.thread i c l) ↔ (t.ends c i).pc = .recvHello ∧ ∃ n, l = .recv n := by
  cases l <;> simp [Greets]

/-- Some end has read a frame. -/
def HasRead (t : Net) : Prop := ∃ c i, 0 < (t.ends c i).rcvd

lemma hasRead_setEnd {P : Prop} (hx : 0 < x.rcvd ↔ 0 < (t.ends c i).rcvd ∨ P) :
    HasRead (t.setEnd i c x) ↔ HasRead t ∨ P := by
  constructor
  · rintro ⟨d, j, hd⟩
    rw [ends_setEnd] at hd
    split_ifs at hd with he
    · exact (hx.mp hd).imp_left fun h => ⟨c, i, h⟩
    · exact .inl ⟨d, j, hd⟩
  · rintro (⟨d, j, hd⟩ | hp)
    · by_cases he : d = c ∧ j = i
      · obtain ⟨rfl, rfl⟩ := he
        exact ⟨d, j, by simpa [ends_setEnd, hd] using hx⟩
      · exact ⟨d, j, by rwa [ends_setEnd, if_neg he]⟩
    · exact ⟨c, i, by simpa [ends_setEnd, hp] using hx⟩

lemma hasRead_step (hi : Inv t) (hst : step t st = some t') :
    HasRead t' ↔ HasRead t ∨ Greets t st := by
  cases st with
  | connect | select i loc =>
    cases hst
    simp [Greets, HasRead, Net.setNode]
  | acquire i c host =>
    simp only [step] at hst
    split_ifs at hst with hw
    split at hst <;> cases hst
    · simp [Greets, HasRead]
    · refine hasRead_setEnd ?_
      have hold : t.ends c i = unused := hi.idle c i (.inr hw)
      simp [Net.setNode, hold, unused, Greets]
  | thread i c l =>
    simp only [step] at hst
    split_ifs at hst with hc
    obtain ⟨x, hx, rfl⟩ := Option.map_eq_some_iff.mp hst
    refine hasRead_setEnd ?_
    rw [greets_thread]
    exact (hi.ends c i).view.rcvd_pos_iff hc.2.2 hx
  | sendFramed i k =>
    simp only [step] at hst
    split at hst
    · cases hst
    split at hst
    · cases hst
      simp [Greets, HasRead, Net.untarget, Net.setNode]
    split_ifs at hst <;> cases hst
    · exact hasRead_setEnd (by simp [Greets, Endpoint.write, Net.untarget, Net.setNode, Net.view])
    · simp [Greets, HasRead, Net.untarget, Net.setNode]
  | sendFramedFail i k =>
    simp only [step] at hst
    split_ifs at hst
    cases hst
    simp [Greets, HasRead, Net.untarget, Net.setNode]

lemma hasRead_iff (hr : Run net h t) : HasRead t ↔ ∃ p ∈ h, Greets p.1 p.2 := by
  refine hr.latch HasRead Greets ?_ fun _ _ _ _ hr' hst => hasRead_step (run_inv hr') hst
  rintro _ ⟨n, rfl⟩
  simp [HasRead, unused]

/-! ### Quiet states -/

/-- **The counters differ by the first frames of the connections.** -/
theorem sentCount_eq (hi : Inv t) (hq : Quiet t) (m : Measure) (i : Side) :
    sentCount m (t.node i).stats = receivedCount m (t.node i.other).stats +
      ∑ c ∈ Finset.range t.opened, tally m ((t.ends c i).sent.take 1) := by
  have hsplit : ∀ c ∈ Finset.range t.opened, tally m (t.ends c i).sent =
      tally m (counted t i.other c) + tally m ((t.ends c i).sent.take 1) := by
    intro c hc
    rw [counted, other_other, hq c (Finset.mem_range.mp hc) i, List.take_length, Nat.add_comm,
      ← tally_append, List.take_append_drop]
  calc sentCount m (t.node i).stats
      = ∑ c ∈ Finset.range t.opened, tally m (t.ends c i).sent := hi.sent m i
    _ = ∑ c ∈ Finset.range t.opened, (tally m (counted t i.other c) +
          tally m ((t.ends c i).sent.take 1)) := Finset.sum_congr rfl hsplit
    _ = ∑ c ∈ Finset.range t.opened, tally m (counted t i.other c) +
          ∑ c ∈ Finset.range t.opened, tally m ((t.ends c i).sent.take 1) :=
        Finset.sum_add_distrib
    _ = receivedCount m (t.node i.other).stats +
          ∑ c ∈ Finset.range t.opened, tally m ((t.ends c i).sent.take 1) := by
        rw [hi.received m i.other]

/-- The first frame is never an entry of a snapshot. -/
lemma EndOk.tally_first (h : EndOk ws x) : tally .entries (x.sent.take 1) = 0 := by
  obtain ⟨q, r, hq, -⟩ := h.phase
  cases hs : x.sent with
  | nil => rfl
  | cons f fs =>
    have hne : f.messageType ≠ .stateSnapshotEntry := by
      intro ht
      rw [hs, control, List.filter_cons_of_pos (by simp [ht])] at hq
      have h1 : stage ([f] ++ control fs) ≠ none := by
        rw [List.singleton_append, control, hq]
        exact Option.some_ne_none q
      have h2 := stage_append_ne_none _ h1
      simp [stage, next, ht] at h2
    simp [tally, weight, hne]

/-- Snapshot entries are conserved in every quiet state. -/
theorem snapshotEntries_eq (hr : Run net h t) (hq : Quiet t) (i : Side) :
    (t.node i).stats.snapshotEntriesSent = (t.node i.other).stats.snapshotEntriesReceived := by
  have hi := run_inv hr
  have h1 := sentCount_eq hi hq .entries i
  rwa [Finset.sum_eq_zero fun c _ => (hi.ends c i).tally_first] at h1

lemma conserved_iff_counts :
    Conserved t ↔ ∀ i m, sentCount m (t.node i).stats = receivedCount m (t.node i.other).stats := by
  refine forall_congr' fun i => ⟨fun ⟨h1, h2, h3⟩ m => ?_, fun h => ?_⟩
  · cases m
    · exact h1
    · exact h2
    · exact h3
  · exact ⟨h .messages, h .bytes, h .entries⟩

/-- An end that has read a frame is one of a connection on which a frame was sent. -/
lemma Inv.sent_ne_nil (hi : Inv t) (hc : 0 < (t.ends c i.other).rcvd) :
    c < t.opened ∧ (t.ends c i).sent ≠ [] := by
  constructor
  · by_contra hlt
    rw [hi.idle c i.other (.inl (Nat.not_lt.mp hlt))] at hc
    exact absurd hc (Nat.lt_irrefl 0)
  · intro h0
    have hle := (hi.ends c i.other).rcvd_le
    rw [other_other, h0] at hle
    exact absurd hc (Nat.not_lt.mpr hle)

/-- **In a quiet state the counters of the two sides agree exactly when no frame was received
at a handshake**: the first frame of a connection is counted where it is sent only. -/
theorem conserved_iff (hr : Run net h t) (hq : Quiet t) :
    Conserved t ↔ ∀ p ∈ h, ¬Greets p.1 p.2 := by
  have hi := run_inv hr
  have hread := hasRead_iff hr
  rw [conserved_iff_counts]
  constructor
  · intro hcon p hp hg
    obtain ⟨c, i, hc⟩ := hread.mpr ⟨p, hp, hg⟩
    rw [← other_other i] at hc
    obtain ⟨hlt, hne⟩ := hi.sent_ne_nil hc
    have hfirst : 0 < tally .messages ((t.ends c i.other).sent.take 1) := by
      obtain ⟨f, fs, hs⟩ := List.exists_cons_of_ne_nil hne
      simp [hs, tally, weight]
    have hsum : tally .messages ((t.ends c i.other).sent.take 1) ≤
        ∑ d ∈ Finset.range t.opened, tally .messages ((t.ends d i.other).sent.take 1) :=
      Finset.single_le_sum (f := fun d => tally .messages ((t.ends d i.other).sent.take 1))
        (fun _ _ => Nat.zero_le _) (Finset.mem_range.mpr hlt)
    have h1 := sentCount_eq hi hq .messages i.other
    rw [hcon] at h1
    omega
  · intro hno i m
    rw [sentCount_eq hi hq m i, Finset.sum_eq_zero, Nat.add_zero]
    intro c hc
    have hz : (t.ends c i.other).rcvd = 0 := by
      by_contra hpos
      obtain ⟨p, hp, hg⟩ := hread.mp ⟨c, i.other, Nat.pos_of_ne_zero hpos⟩
      exact hno p hp hg
    rw [hq c (Finset.mem_range.mp hc) i] at hz
    rw [List.length_eq_zero_iff.mp hz]
    rfl

/-- Both ends of a connection come into use. -/
def accepted (c : ℕ) : List Step :=
  [.connect, .acquire .a c Slots.freshHost, .acquire .b c Slots.freshHost]

def twoNodes : Net := { node := fun i => { nodeId := if i = .a then 1 else 2, ownerEpoch := 7 } }

lemma init_twoNodes : net.init twoNodes := ⟨fun i => (if i = .a then 1 else 2, 7), rfl⟩

/-- Nothing is sent on the connection, and so nothing is received at its handshake. -/
theorem conserved_accepted :
    ∃ h t, Run net h t ∧ t.opened = 1 ∧ Quiet t ∧ Conserved t := by
  obtain ⟨h, t, hr, hp⟩ := exists_run_of_replay (i := net.init) (f := step) (accepted 0)
    init_twoNodes
    (fun h t => t.opened = 1 ∧ Quiet t ∧ ∀ p ∈ h, ¬Greets p.1 p.2) (by decide)
  obtain ⟨ho, hq, hg⟩ := hp
  exact ⟨h, t, hr, ho, hq, (conserved_iff hr hq).mpr hg⟩

/-- One end, from its `HELLO` until it is ready. -/
def handshake (i : Side) : List Step :=
  [.send, .recv 1, .send, .recv 2, .exportSnapshot, .send, .recv 3, .replayNext 4,
    .setReady].map (.thread i 0)

/-- The two ends of the connection take their steps in turn, until both are ready. -/
def handshakes : List Step :=
  ((handshake .a).zip (handshake .b)).flatMap fun p => [p.1, p.2]

/-- Both ends are ready and have read everything. The `HELLO` was sent and counted, and read
and not counted. -/
theorem hello_not_received :
    ∃ h t, Run net h t ∧ Quiet t ∧ (t.ends 0 .a).ready = true ∧ (t.ends 0 .b).ready = true ∧
      (t.node .a).stats.messagesSent = 3 ∧ (t.node .b).stats.messagesReceived = 2 ∧
      ¬Conserved t := by
  obtain ⟨h, t, hr, hp⟩ := exists_run_of_replay (i := net.init) (f := step)
    (accepted 0 ++ handshakes) init_twoNodes
    (fun _ t => Quiet t ∧ (t.ends 0 .a).ready = true ∧ (t.ends 0 .b).ready = true ∧
      (t.node .a).stats.messagesSent = 3 ∧ (t.node .b).stats.messagesReceived = 2) (by decide)
  obtain ⟨hq, ha, hb, h3, h2⟩ := hp
  refine ⟨h, t, hr, hq, ha, hb, h3, h2, fun hcon => ?_⟩
  have h1 := (hcon .a).1
  rw [h3] at h1
  exact absurd (h1.trans h2) (by decide)

end DaimDistributed.Traffic
