import Mathlib.Logic.Function.Basic
import DaimDistributed.Protocol
import DaimDistributed.Transitions

/-!
One end of a connection, as `run_connection` of `daim_peer_transport.c` drives it.

The thread of the connection is a program counter; its steps are the single frames it
writes and reads and the single calls it makes on the host table. A thread that
disseminates takes two steps, choosing the connection and writing to it. Two ends are
joined by what each has written: reading takes the next frame that was not yet read.
-/

namespace DaimDistributed.Transport

open HostState Protocol Transitions

/-- `enum daim_peer_message_type`. -/
inductive MsgType
  | hello | heartbeat | hostLocationUpdate | stateSnapshotRequest | stateSnapshotBegin
  | stateSnapshotEntry | stateSnapshotEnd | ack | error
  deriving DecidableEq

/-- A frame: the header fields the receiver reads, and the payload. -/
structure Frame where
  messageType : MsgType
  originNodeId : UInt64
  payload : List UInt8
  deriving DecidableEq

def daimPeerHeaderSize : ℕ := 30

def maxDeferredUpdates : ℕ := 16

/-- Where the thread of a connection is. The flag of a snapshot service says whether the
request came in inside `exchange_snapshots`. -/
inductive Pc
  | sendHello
  | recvHello
  | sendRequest
  | exchange
  | exporting (inExchange : Bool)
  | serving (entries : List HostLocation) (inExchange : Bool)
  | replay
  | setReady
  | steady
  | closing
  | closed
  deriving DecidableEq

/-- The counters of `struct daim_peer_transport_stats` that a connection moves, as natural numbers;
the `uint64_t`s are these modulo `2 ^ 64`. -/
structure TransportStats where
  messagesSent : ℕ := 0
  bytesSent : ℕ := 0
  messagesReceived : ℕ := 0
  bytesReceived : ℕ := 0
  snapshotEntriesSent : ℕ := 0
  snapshotEntriesReceived : ℕ := 0
  deferredUpdatesReplayed : ℕ := 0
  deferredUpdatesOverflowForcedReconnects : ℕ := 0
  deriving DecidableEq

/-- One end: the transport's identity, the host table behind it, and the connection. The
frames written and the number of frames read stand for the socket; `pending` are the
updates of threads that have chosen this connection and not written yet. The requests
served and `becameReady` are kept for the record only. -/
structure Endpoint where
  nodeId : UInt64 := 0
  ownerEpoch : UInt64 := 0
  host : State := {}
  pc : Pc := .sendHello
  active : Bool := true
  ready : Bool := false
  peerNodeId : UInt64 := 0
  sent : List Frame := []
  rcvd : ℕ := 0
  deferred : List HostLocation := []
  pending : List HostLocation := []
  stats : TransportStats := {}
  served : List Bool := []
  becameReady : Bool := false
  deriving DecidableEq

/-- `send_framed`, once the frame is written. -/
def Endpoint.write (x : Endpoint) (messageType : MsgType) (payload : List UInt8) : Endpoint :=
  { x with
    sent := x.sent ++ [⟨messageType, x.nodeId, payload⟩]
    stats := { x.stats with
      messagesSent := x.stats.messagesSent + 1
      bytesSent := x.stats.bytesSent + (daimPeerHeaderSize + payload.length) } }

/-- The next frame the thread of the connection has to write. -/
def Endpoint.send (x : Endpoint) : Option Endpoint :=
  if x.active = false then none
  else
    match x.pc with
    | .sendHello => some { x.write .hello (putU64 x.ownerEpoch) with pc := .recvHello }
    | .sendRequest => some { x.write .stateSnapshotRequest [] with pc := .exchange }
    | .serving (entry :: entries) b =>
      let x := x.write .stateSnapshotEntry (daimPeerEncodeHostLocation entry)
      some { x with
        pc := .serving entries b
        stats := { x.stats with snapshotEntriesSent := x.stats.snapshotEntriesSent + 1 } }
    | .serving [] b =>
      some { x.write .stateSnapshotEnd [] with pc := if b then .exchange else .steady }
    | _ => none

/-- A write of the connection's thread fails. `handle_message` ignores it. -/
def Endpoint.sendFail (x : Endpoint) : Option Endpoint :=
  match x.pc with
  | .sendHello | .sendRequest | .serving _ true => some { x with pc := .closing }
  | .serving _ false => some { x with pc := .steady }
  | _ => none

def Endpoint.countReceived (x : Endpoint) (f : Frame) : Endpoint :=
  { x with
    stats := { x.stats with
      messagesReceived := x.stats.messagesReceived + 1
      bytesReceived := x.stats.bytesReceived + (daimPeerHeaderSize + f.payload.length) } }

/-- The loop body of `exchange_snapshots`. -/
def Endpoint.exchangeMessage (x : Endpoint) (f : Frame) (now : UInt64) : Endpoint :=
  match f.messageType with
  | .stateSnapshotRequest => { x with pc := .exporting true, served := x.served ++ [true] }
  | .stateSnapshotEntry =>
    match daimPeerDecodeHostLocation f.payload with
    | none => x
    | some loc =>
      { x with
        host := (daimHostImportSnapshotEntry x.host (some loc) now).1
        stats := { x.stats with
          snapshotEntriesReceived := x.stats.snapshotEntriesReceived + 1 } }
  | .stateSnapshotEnd => { x with pc := .replay }
  | .hostLocationUpdate =>
    match daimPeerDecodeHostLocation f.payload with
    | none => x
    | some loc =>
      if x.deferred.length < maxDeferredUpdates then { x with deferred := x.deferred ++ [loc] }
      else
        { x with
          pc := .closing
          stats := { x.stats with
            deferredUpdatesOverflowForcedReconnects :=
              x.stats.deferredUpdatesOverflowForcedReconnects + 1 } }
  | _ => x

def Endpoint.handleMessage (x : Endpoint) (f : Frame) (now : UInt64) : Endpoint :=
  match f.messageType with
  | .hostLocationUpdate =>
    match daimPeerDecodeHostLocation f.payload with
    | none => x
    | some loc => { x with host := (daimHostApplyRemote x.host (some loc) now).1 }
  | .stateSnapshotRequest => { x with pc := .exporting false, served := x.served ++ [false] }
  | _ => x

/-- The thread of the connection reads the frame `f`. -/
def Endpoint.recv (x : Endpoint) (f : Frame) (now : UInt64) : Option Endpoint :=
  let x' := { x with rcvd := x.rcvd + 1 }
  match x.pc with
  | .recvHello =>
    if f.messageType = .hello then
      some { x' with pc := .sendRequest, peerNodeId := f.originNodeId }
    else some { x' with pc := .closing }
  | .exchange => some ((x'.countReceived f).exchangeMessage f now)
  | .steady => some ((x'.countReceived f).handleMessage f now)
  | _ => none

def Endpoint.recvFail (x : Endpoint) : Option Endpoint :=
  match x.pc with
  | .recvHello | .exchange | .steady => some { x with pc := .closing }
  | _ => none

/-- `daim_host_export_snapshot` inside `serve_snapshot_request`. -/
def Endpoint.exportSnapshot (x : Endpoint) : Option Endpoint :=
  match x.pc with
  | .exporting b =>
    match daimHostExportSnapshot x.host with
    | some entries => some { x with pc := .serving entries b }
    | none => some { x with pc := if b then .closing else .steady }
  | _ => none

/-- The next deferred update is applied; without one, the loop ends. -/
def Endpoint.replayNext (x : Endpoint) (now : UInt64) : Option Endpoint :=
  match x.pc, x.deferred with
  | .replay, [] => some { x with pc := .setReady }
  | .replay, loc :: rest =>
    some { x with
      host := (daimHostApplyRemote x.host (some loc) now).1
      deferred := rest
      stats := { x.stats with
        deferredUpdatesReplayed := x.stats.deferredUpdatesReplayed + 1 } }
  | _, _ => none

def Endpoint.setReady (x : Endpoint) : Option Endpoint :=
  match x.pc with
  | .setReady => some { x with ready := true, becameReady := true, pc := .steady }
  | _ => none

/-- `should_stop` ends the loop. -/
def Endpoint.stop (x : Endpoint) : Option Endpoint :=
  match x.pc with
  | .steady => some { x with pc := .closing }
  | _ => none

def Endpoint.teardown (x : Endpoint) : Option Endpoint :=
  match x.pc with
  | .closing => some { x with active := false, ready := false, pc := .closed }
  | _ => none

/-! ### Threads that disseminate -/

/-- `daim_peer_transport_disseminate` chooses the connection. -/
def Endpoint.select (x : Endpoint) (loc : HostLocation) : Option Endpoint :=
  if x.active && x.ready then some { x with pending := x.pending ++ [loc] } else none

/-- The thread that chose it for the `i`-th pending update writes. -/
def Endpoint.sendUpdate (x : Endpoint) (i : ℕ) : Option Endpoint :=
  match x.pending[i]? with
  | none => none
  | some loc =>
    let x := { x with pending := x.pending.eraseIdx i }
    if x.active then some (x.write .hostLocationUpdate (daimPeerEncodeHostLocation loc))
    else some x

def Endpoint.sendUpdateFail (x : Endpoint) (i : ℕ) : Option Endpoint :=
  if i < x.pending.length then some { x with pending := x.pending.eraseIdx i } else none

/-! ### The two ends together -/

inductive Act
  | send | sendFail
  | recv (now : UInt64) | recvFail
  | exportSnapshot
  | replayNext (now : UInt64)
  | setReady
  | stop
  | teardown
  | select (loc : HostLocation)
  | sendUpdate (i : ℕ)
  | sendUpdateFail (i : ℕ)
  | host (s : State) -- the host table is changed by any other thread
  deriving DecidableEq

/-- A step of the end `x`, whose peer is `y`. -/
def act (x y : Endpoint) : Act → Option Endpoint
  | .send => x.send
  | .sendFail => x.sendFail
  | .recv now =>
    match y.sent[x.rcvd]? with
    | none => none
    | some f => x.recv f now
  | .recvFail => x.recvFail
  | .exportSnapshot => x.exportSnapshot
  | .replayNext now => x.replayNext now
  | .setReady => x.setReady
  | .stop => x.stop
  | .teardown => x.teardown
  | .select loc => x.select loc
  | .sendUpdate i => x.sendUpdate i
  | .sendUpdateFail i => x.sendUpdateFail i
  | .host s => some { x with host := s }

section

variable {x x' y : Endpoint} {f : Frame} {n : UInt64}

lemma exchangeMessage_sent : (x.exchangeMessage f n).sent = x.sent := by
  unfold Endpoint.exchangeMessage
  repeat' split
  all_goals rfl

lemma handleMessage_sent : (x.handleMessage f n).sent = x.sent := by
  unfold Endpoint.handleMessage
  repeat' split
  all_goals rfl

lemma recv_sent (h : x.recv f n = some x') : x'.sent = x.sent := by
  simp only [Endpoint.recv] at h
  split at h
  · split_ifs at h <;> cases h <;> rfl
  · cases h
    exact exchangeMessage_sent
  · cases h
    exact handleMessage_sent
  · cases h

lemma exchangeMessage_rcvd : (x.exchangeMessage f n).rcvd = x.rcvd := by
  unfold Endpoint.exchangeMessage
  repeat' split
  all_goals rfl

lemma handleMessage_rcvd : (x.handleMessage f n).rcvd = x.rcvd := by
  unfold Endpoint.handleMessage
  repeat' split
  all_goals rfl

lemma recv_rcvd (h : x.recv f n = some x') : x'.rcvd = x.rcvd + 1 := by
  simp only [Endpoint.recv] at h
  split at h
  · split_ifs at h <;> cases h <;> rfl
  · cases h
    exact exchangeMessage_rcvd
  · cases h
    exact handleMessage_rcvd
  · cases h

/-- What reading a frame leaves alone. -/
structure SameFlags (x x' : Endpoint) : Prop where
  active : x'.active = x.active
  ready : x'.ready = x.ready
  pending : x'.pending = x.pending

lemma exchangeMessage_flags : SameFlags x (x.exchangeMessage f n) := by
  unfold Endpoint.exchangeMessage
  repeat' split
  all_goals exact ⟨rfl, rfl, rfl⟩

lemma handleMessage_flags : SameFlags x (x.handleMessage f n) := by
  unfold Endpoint.handleMessage
  repeat' split
  all_goals exact ⟨rfl, rfl, rfl⟩

lemma recv_flags (h : x.recv f n = some x') : SameFlags x x' := by
  simp only [Endpoint.recv] at h
  split at h
  · split_ifs at h <;> cases h <;> exact ⟨rfl, rfl, rfl⟩
  · cases h
    obtain ⟨h1, h2, h3⟩ := exchangeMessage_flags (f := f) (n := n)
      (x := { x with rcvd := x.rcvd + 1 }.countReceived f)
    exact ⟨h1, h2, h3⟩
  · cases h
    obtain ⟨h1, h2, h3⟩ := handleMessage_flags (f := f) (n := n)
      (x := { x with rcvd := x.rcvd + 1 }.countReceived f)
    exact ⟨h1, h2, h3⟩
  · cases h

lemma send_sent (h : x.send = some x') : ∃ f, x'.sent = x.sent ++ [f] := by
  unfold Endpoint.send at h
  split at h
  · cases h
  · split at h <;> cases h <;> exact ⟨_, rfl⟩

/-- **A step of an end appends to what the end has written.** -/
theorem act_sent {l : Act} (h : act x y l = some x') : x.sent <+: x'.sent := by
  have hrfl : x'.sent = x.sent → x.sent <+: x'.sent := fun he => he ▸ List.prefix_rfl
  cases l with
  | send =>
    obtain ⟨f, hf⟩ := send_sent h
    exact hf ▸ List.prefix_append _ _
  | recv n =>
    simp only [act] at h
    split at h
    · cases h
    · exact hrfl (recv_sent h)
  | sendUpdate i =>
    simp only [act, Endpoint.sendUpdate] at h
    split at h
    · cases h
    · split_ifs at h <;> cases h
      · exact List.prefix_append _ _
      · exact List.prefix_rfl
  | sendFail =>
    simp only [act, Endpoint.sendFail] at h
    split at h <;> cases h <;> exact List.prefix_rfl
  | recvFail =>
    simp only [act, Endpoint.recvFail] at h
    split at h <;> cases h <;> exact List.prefix_rfl
  | exportSnapshot =>
    simp only [act, Endpoint.exportSnapshot] at h
    split at h
    · split at h <;> cases h <;> exact List.prefix_rfl
    · cases h
  | replayNext n =>
    simp only [act, Endpoint.replayNext] at h
    split at h <;> cases h <;> exact List.prefix_rfl
  | setReady =>
    simp only [act, Endpoint.setReady] at h
    split at h <;> cases h
    exact List.prefix_rfl
  | stop =>
    simp only [act, Endpoint.stop] at h
    split at h <;> cases h
    exact List.prefix_rfl
  | teardown =>
    simp only [act, Endpoint.teardown] at h
    split at h <;> cases h
    exact List.prefix_rfl
  | select loc =>
    simp only [act, Endpoint.select] at h
    split_ifs at h
    cases h
    exact List.prefix_rfl
  | sendUpdateFail i =>
    simp only [act, Endpoint.sendUpdateFail] at h
    split_ifs at h
    cases h
    exact List.prefix_rfl
  | host s =>
    cases h
    exact List.prefix_rfl

end

inductive Side
  | a | b
  deriving DecidableEq

def Side.other : Side → Side
  | .a => .b
  | .b => .a

@[simp] lemma other_other (i : Side) : i.other.other = i := by cases i <;> rfl

@[simp] lemma other_ne (i : Side) : i.other ≠ i := by cases i <;> decide

lemma eq_other_of_ne {i j : Side} (h : j ≠ i) : j = i.other := by
  cases i <;> cases j <;> simp_all [Side.other]

instance decidableForallSide {P : Side → Prop} [∀ i, Decidable (P i)] : Decidable (∀ i, P i) :=
  decidable_of_iff (P .a ∧ P .b) ⟨fun h i => by cases i; exacts [h.1, h.2], fun h => ⟨h .a, h .b⟩⟩

/-- The two ends of a connection. -/
abbrev Conn := Side → Endpoint

def step (c : Conn) (l : Side × Act) : Option Conn :=
  (act (c l.1) (c l.1.other) l.2).map (Function.update c l.1)

/-- A slot that has just been acquired, over any host table. -/
def Acquired (x : Endpoint) : Prop :=
  ∃ nodeId ownerEpoch host, x = { nodeId := nodeId, ownerEpoch := ownerEpoch, host := host }

/-- One connection from its two `acquire_connection_slot` on. -/
def connection : Lts Conn (Side × Act) := ofFun (fun c => ∀ i, Acquired (c i)) step

/-- A step changes the end it is taken at, by `act`. -/
lemma step_eq_some {c c' : Conn} {i : Side} {l : Act} :
    step c (i, l) = some c' ↔
      ∃ x, act (c i) (c i.other) l = some x ∧ c' = Function.update c i x := by
  simp [step, Option.map_eq_some_iff, eq_comm]

end DaimDistributed.Transport
