import DaimDistributed.Coverage
import DaimDistributed.Phases

/-!
Two nodes that learn hosts while they are connected.

Each node is its end of the connection, with the host table behind it, and the thread that
runs `on_no_rule`: it learns, looks the record up, chooses the connection if that is ready,
and writes to it. The connection delivers what is written.
-/

namespace DaimDistributed.Live

open HostState HostTable HostInv Protocol Transitions LearningApp Transport Phases Coverage

/-- `exported` is the snapshot handed to the connection, kept for the record only. -/
structure Node where
  conn : Endpoint
  app : AppState
  pc : AppPc := .idle
  exported : Option (List HostLocation) := none

inductive Step
  | packetIn (info : NoRulePacketInfo) (now : UInt64)
  | lookup
  | select
  | sendUpdate
  | forward (env : Env)
  | conn (l : Act)

/-- What the thread of a connection does while the connection lives. -/
def reliable : Act → Bool
  | .send | .recv _ | .exportSnapshot | .replayNext _ | .setReady => true
  | _ => false

/-- A step of the node `x`, whose peer's end is `y`. -/
def nodeStep (x : Node) (y : Endpoint) : Step → Option Node
  | .packetIn info now =>
    match x.pc with
    | .idle =>
      let l := learnSource x.app x.conn.host info now
      some { x with
        app := l.1, conn := { x.conn with host := l.2.1 }, pc := .learned info l.2.2 }
    | _ => none
  | .lookup =>
    match x.pc with
    | .learned info assigned =>
      let d := announce x.app x.conn.host info assigned
      some { x with
        app := d.1
        pc := match d.2 with
          | .disseminate loc :: _ => .disseminating info loc
          | _ => .announced info }
    | _ => none
  | .select =>
    match x.pc with
    | .disseminating info loc =>
      match x.conn.select loc with
      | some conn => some { x with conn := conn, pc := .sending info loc }
      | none => some { x with pc := .announced info }
    | _ => none
  | .sendUpdate =>
    match x.pc with
    | .sending info _ =>
      (x.conn.sendUpdate 0).map fun conn => { x with conn := conn, pc := .announced info }
    | _ => none
  | .forward env =>
    match x.pc with
    | .announced info =>
      some { x with app := (LearningApp.forward x.app x.conn.host info env).1, pc := .idle }
    | _ => none
  | .conn l =>
    if reliable l = true then
      (act x.conn y l).map fun conn =>
        { x with
          conn := conn
          exported := if l = .exportSnapshot then some x.conn.host.table else x.exported }
    else none

abbrev World := Side → Node

def conns (w : World) : Conn := fun i => (w i).conn

def step (w : World) (l : Side × Step) : Option World :=
  (nodeStep (w l.1) (w l.1.other).conn l.2).map (Function.update w l.1)

/-- Two running nodes, over any tables in which neither has a newer record of the other's
than the other itself, and a connection that has just been acquired. -/
structure Start (w : World) : Prop where
  acquired : ∀ i, Acquired (w i).conn
  ready : ∀ i, (w i).conn.host.ready = true
  transport : ∀ i, (w i).app.transport = true
  idle : ∀ i, (w i).pc = .idle ∧ (w i).exported = none
  nodeId : ∀ i, (w i).conn.host.nodeId ≠ 0
  ne : (w .a).conn.host.nodeId ≠ (w .b).conn.host.nodeId
  table : ∀ i, TableInv (w i).conn.host.nodeId (w i).conn.host.table
  ahead : ∀ i, Ahead (w i).conn.host
  vouched : ∀ i, ∀ r ∈ (w i.other).conn.host.table, Vouched (w i).conn.host r

def live : Lts World (Side × Step) := ofFun Start step

/-! ### What is promised, and when -/

/-- Both ends are ready, nothing is in flight, and no packet is being handled. -/
def Quiescent (w : World) : Prop :=
  ∀ i, (w i).conn.ready = true ∧ (w i.other).conn.rcvd = (w i).conn.sent.length ∧
    (w i).pc = .idle

instance (w : World) : Decidable (Quiescent w) := inferInstanceAs (Decidable (∀ _, _))

/-- Every local record of `i` is held by the peer, unless the peer holds another origin's
record of that MAC. -/
def Delivered (w : World) (i : Side) : Prop :=
  ∀ r ∈ (w i).conn.host.table, r.isLocal ≠ 0 →
    ∃ r' ∈ daimHostLookup (w i.other).conn.host (some r.mac),
      r'.originNodeId = r.originNodeId → r'.ownerEpoch = r.ownerEpoch ∧ r'.sequence = r.sequence

instance (w : World) (i : Side) : Decidable (Delivered w i) :=
  inferInstanceAs (Decidable (∀ _ ∈ _, _ → _))

/-- The record the thread chooses connections for next. -/
def toAnnounce : AppPc → Option HostLocation
  | .disseminating _ loc => some loc
  | _ => none

/-- A learn comes before the sequence counter has wrapped to `0`; and a record is not
announced to a connection that is not ready, unless its snapshot has not been exported yet or
has the record in it. -/
def Announced (x : Node) : Step → Prop
  | .packetIn info _ => info.inPort = x.app.hostPort → x.conn.host.nextLocalSequence ≠ 0
  | .select => x.conn.ready = true ∨ ∀ loc ∈ toAnnounce x.pc, ∀ es ∈ x.exported, loc ∈ es
  | _ => True

instance (x : Node) : (st : Step) → Decidable (Announced x st)
  | .packetIn _ _ => inferInstanceAs (Decidable (_ → _))
  | .select => inferInstanceAs (Decidable (_ ∨ _))
  | .lookup | .sendUpdate | .forward _ | .conn _ => isTrue trivial

/-- What the direction from `i` depends on: how `i` announces, and that there is room in the
table of its peer. -/
def Meets (i : Side) (w : World) (l : Side × Step) : Prop :=
  (l.1 = i → Announced (w i) l.2) ∧ (w i.other).conn.host.table.length < maxHostEntries

instance (i : Side) (w : World) (l : Side × Step) : Decidable (Meets i w l) :=
  inferInstanceAs (Decidable (_ ∧ _))

/-! ### What is on the way -/

def carried (f : Frame) : Option HostLocation :=
  match f.messageType with
  | .stateSnapshotEntry | .hostLocationUpdate => daimPeerDecodeHostLocation f.payload
  | _ => none

def serving : Transport.Pc → List HostLocation
  | .serving es _ => es
  | _ => []

/-- The records that `x` has written and `y` has not read, and those that `x` is about to
write. -/
def offers (x y : Endpoint) : List HostLocation :=
  (x.sent.drop y.rcvd).filterMap carried ++ (serving x.pc ++ x.pending)

variable {x x' y y' : Endpoint} {f : Frame} {l : Act} {u : HostLocation}

lemma offers_congr (hs : x'.sent = x.sent) (hp : serving x'.pc = serving x.pc)
    (hn : x'.pending = x.pending) (hr : y'.rcvd = y.rcvd) : offers x' y' = offers x y := by
  simp only [offers, hs, hp, hn, hr]

/-- Reading a frame. -/
lemma offers_read (hf : y.sent[x.rcvd]? = some f) (hr : x'.rcvd = x.rcvd + 1) :
    offers y x = (carried f).toList ++ offers y x' := by
  obtain ⟨hlt, he⟩ := List.getElem?_eq_some_iff.mp hf
  have hd : y.sent.drop x.rcvd = f :: y.sent.drop (x.rcvd + 1) := by
    rw [List.drop_eq_getElem_cons hlt, he]
  rw [offers, offers, hd, hr]
  cases hc : carried f <;> simp [hc]

/-- Writing a frame. -/
lemma mem_offers_write (hle : y.rcvd ≤ x.sent.length) (hs : x'.sent = x.sent ++ [f])
    (hp : ∀ u, u ∈ carried f ∨ u ∈ serving x'.pc ∨ u ∈ x'.pending ↔
      u ∈ serving x.pc ∨ u ∈ x.pending) : u ∈ offers x' y ↔ u ∈ offers x y := by
  have h1 := hp u
  simp only [offers, hs, List.drop_append_of_le_length hle, List.filterMap_append,
    List.mem_append]
  rw [← h1]
  cases hc : carried f <;> simp [hc, or_assoc, eq_comm]

/-- What the thread of the connection at `x` does to the table and to the offers, in both
directions. -/
inductive Moves (x y : Endpoint) (l : Act) (x' : Endpoint) : Prop
  | quiet (hl : l ≠ .exportSnapshot) (hh : x'.host = x.host)
      (ho : ∀ u, u ∈ offers x' y ↔ u ∈ offers x y) (hi : offers y x' = offers y x)
  | exported (hl : l = .exportSnapshot) (hh : x'.host = x.host)
      (ho : ∀ u, u ∈ offers x' y ↔ u ∈ offers x y ∨ u ∈ x.host.table)
      (hi : offers y x' = offers y x)
  | applied {u : HostLocation} {now : UInt64} {res : ApplyResult} (hl : l ≠ .exportSnapshot)
      (ha : Applies x.host u now (x'.host, res)) (ho : offers x' y = offers x y)
      (hi : offers y x = u :: offers y x')

/-- A step that neither writes nor reads nor applies anything. -/
lemma Moves.idle (hl : l ≠ .exportSnapshot) (hh : x'.host = x.host) (hs : x'.sent = x.sent)
    (hp : serving x'.pc = serving x.pc) (hn : x'.pending = x.pending) (hr : x'.rcvd = x.rcvd) :
    Moves x y l x' :=
  .quiet hl hh (fun u => by rw [offers_congr hs hp hn rfl])
    (offers_congr rfl rfl rfl hr)

/-- A write. -/
lemma Moves.write (hle : y.rcvd ≤ x.sent.length) (hl : l ≠ .exportSnapshot)
    (hh : x'.host = x.host) (hs : x'.sent = x.sent ++ [f])
    (hp : ∀ u, u ∈ carried f ∨ u ∈ serving x'.pc ∨ u ∈ x'.pending ↔
      u ∈ serving x.pc ∨ u ∈ x.pending) (hr : x'.rcvd = x.rcvd) : Moves x y l x' :=
  .quiet hl hh (fun _ => mem_offers_write hle hs hp) (offers_congr rfl rfl rfl hr)

/-- A frame is read, and nothing is applied. -/
lemma Moves.read (hl : l ≠ .exportSnapshot) (hf : y.sent[x.rcvd]? = some f)
    (hc : carried f = none) (hh : x'.host = x.host) (hs : x'.sent = x.sent)
    (hp : serving x'.pc = serving x.pc) (hn : x'.pending = x.pending)
    (hr : x'.rcvd = x.rcvd + 1) : Moves x y l x' :=
  .quiet hl hh (fun u => by rw [offers_congr hs hp hn rfl])
    (by rw [offers_read hf hr, hc]; rfl)

/-- The record in a frame is applied. -/
lemma Moves.apply {n : UInt64} (hl : l ≠ .exportSnapshot) (hready : x.host.ready = true)
    (hf : y.sent[x.rcvd]? = some f) (hc : carried f = some u)
    (hh : x'.host = (daimHostApplyRemote x.host (some u) n).1) (hs : x'.sent = x.sent)
    (hp : serving x'.pc = serving x.pc) (hn : x'.pending = x.pending)
    (hr : x'.rcvd = x.rcvd + 1) : Moves x y l x' := by
  have ha := applyLocked_applies x.host u n
  rw [show applyLocked x.host (some u) n = daimHostApplyRemote x.host (some u) n by
    simp [daimHostApplyRemote, hready], ← Prod.eta (daimHostApplyRemote _ _ _), ← hh] at ha
  exact .applied hl ha (offers_congr hs hp hn rfl) (by rw [offers_read hf hr, hc]; rfl)

lemma send_moves (hle : y.rcvd ≤ x.sent.length) (hst : x.send = some x') :
    Moves x y .send x' := by
  unfold Endpoint.send at hst
  split at hst
  · cases hst
  split at hst <;> cases hst <;> rename_i hpc
  · exact .write hle (by simp) rfl rfl (by simp [carried, serving, hpc, Endpoint.write]) rfl
  · exact .write hle (by simp) rfl rfl (by simp [carried, serving, hpc, Endpoint.write]) rfl
  · rename_i e es b
    refine .write hle (by simp) rfl rfl (fun u => ?_) rfl
    simp [carried, serving, hpc, Endpoint.write, decode_encode, or_assoc, eq_comm]
  · rename_i b
    refine .write hle (by simp) rfl rfl (fun u => ?_) rfl
    cases b <;> simp [carried, serving, hpc, Endpoint.write]

lemma recv_moves {n : UInt64} (hx : EndInv y.sent x) (hy : stage y.sent ≠ none)
    (hready : x.host.ready = true) (hf : y.sent[x.rcvd]? = some f)
    (hst : x.recv f n = some x') : Moves x y (.recv n) x' := by
  cases hx.reads hy hf hst with
  | hello hpc ht =>
    simp only [hpc, Endpoint.recv, ht, if_true] at hst
    cases hst
    exact .read (by simp) hf (by simp [carried, ht]) rfl rfl (by simp [serving, hpc]) rfl rfl
  | request hpc ht hs =>
    simp only [hpc, Endpoint.recv, Endpoint.exchangeMessage, ht] at hst
    cases hst
    exact .read (by simp) hf (by simp [carried, ht]) rfl rfl (by simp [serving, hpc]) rfl rfl
  | entry hpc ht hs =>
    simp only [hpc, Endpoint.recv, Endpoint.exchangeMessage, ht] at hst
    split at hst <;> cases hst
    · exact .read (by simp) hf (by simpa [carried, ht]) rfl rfl (by rw [hpc]; rfl) rfl rfl
    · exact .apply (n := n) (by simp) hready hf (by simpa [carried, ht]) rfl rfl (by rw [hpc]; rfl)
        rfl rfl
  | ended hpc ht hs =>
    simp only [hpc, Endpoint.recv, Endpoint.exchangeMessage, ht] at hst
    cases hst
    exact .read (by simp) hf (by simp [carried, ht]) rfl rfl (by simp [serving, hpc]) rfl rfl
  | update hpc ht =>
    simp only [hpc, Endpoint.recv, Endpoint.handleMessage, ht] at hst
    split at hst <;> cases hst
    · exact .read (by simp) hf (by simpa [carried, ht]) rfl rfl (by rw [hpc]; rfl) rfl rfl
    · exact .apply (n := n) (by simp) hready hf (by simpa [carried, ht]) rfl rfl (by rw [hpc]; rfl)
        rfl rfl

/-- **Inversion of the steps of a connection.** -/
theorem act_moves (hx : EndInv y.sent x) (hy : stage y.sent ≠ none)
    (hle : y.rcvd ≤ x.sent.length) (hready : x.host.ready = true) (hl : reliable l = true)
    (hst : act x y l = some x') : Moves x y l x' := by
  cases l with
  | send => exact send_moves hle hst
  | recv n =>
    simp only [act] at hst
    split at hst
    · cases hst
    · exact recv_moves hx hy hready ‹_› hst
  | exportSnapshot =>
    simp only [act, Endpoint.exportSnapshot, daimHostExportSnapshot, hready] at hst
    split at hst <;> cases hst
    rename_i b hpc
    refine .exported rfl rfl (fun u => ?_) (offers_congr rfl rfl rfl rfl)
    simp only [offers, serving, hpc, List.mem_append, List.not_mem_nil, false_or]
    tauto
  | replayNext n =>
    simp only [act, Endpoint.replayNext, hx.deferred] at hst
    split at hst <;> cases hst
    · exact .idle (by simp) rfl rfl (by simp [serving, *]) rfl rfl
    · rename_i hd
      simp at hd
  | setReady =>
    simp only [act, Endpoint.setReady] at hst
    split at hst <;> cases hst
    exact .idle (by simp) rfl rfl (by simp [serving, *]) rfl rfl
  | _ => exact absurd hl Bool.false_ne_true

/-- The snapshot is ended or at least exported. -/
def Served (x : Endpoint) : Prop :=
  MsgType.stateSnapshotEnd ∈ x.sent.map Frame.messageType ∨ ∃ es b, x.pc = .serving es b

lemma Served.back (h : Served x') (hp : ∀ es b, x'.pc ≠ .serving es b)
    (hm : MsgType.stateSnapshotEnd ∈ x'.sent.map Frame.messageType →
      MsgType.stateSnapshotEnd ∈ x.sent.map Frame.messageType) : Served x :=
  .inl (h.elim hm fun ⟨es, b, hpc⟩ => absurd hpc (hp es b))

/-- What the steps of a connection leave alone. -/
structure Keeps (x : Endpoint) (l : Act) (x' : Endpoint) : Prop where
  active : x'.active = x.active
  pending : x'.pending = x.pending
  served : Served x' → Served x ∨ l = .exportSnapshot

/-- Reading a frame writes nothing of a snapshot yet. -/
lemma recv_not_serving {n : UInt64} (hst : x.recv f n = some x') (es : List HostLocation)
    (b : Bool) : x'.pc ≠ .serving es b := by
  simp only [Endpoint.recv] at hst
  split at hst
  · split_ifs at hst <;> cases hst <;> simp
  · rename_i hpc
    cases hst
    unfold Endpoint.exchangeMessage
    repeat' split
    all_goals simp [Endpoint.countReceived, hpc]
  · rename_i hpc
    cases hst
    unfold Endpoint.handleMessage
    repeat' split
    all_goals simp [Endpoint.countReceived, hpc]
  · cases hst

lemma recv_keeps {n : UInt64} (hst : x.recv f n = some x') : Keeps x (.recv n) x' where
  active := (recv_flags hst).active
  pending := (recv_flags hst).pending
  served := fun hs => .inl (hs.back (recv_not_serving hst) fun hm => recv_sent hst ▸ hm)

lemma act_keeps (hl : reliable l = true) (hst : act x y l = some x') : Keeps x l x' := by
  cases l with
  | send =>
    simp only [act, Endpoint.send] at hst
    split at hst
    · cases hst
    split at hst <;> cases hst
    · exact ⟨rfl, rfl, fun hs => .inl (hs.back (by simp) (by simp [Endpoint.write]))⟩
    · exact ⟨rfl, rfl, fun hs => .inl (hs.back (by simp) (by simp [Endpoint.write]))⟩
    · exact ⟨rfl, rfl, fun _ => .inl (.inr ⟨_, _, ‹_›⟩)⟩
    · exact ⟨rfl, rfl, fun _ => .inl (.inr ⟨_, _, ‹_›⟩)⟩
  | recv n =>
    simp only [act] at hst
    split at hst
    · cases hst
    · exact recv_keeps hst
  | exportSnapshot =>
    simp only [act, Endpoint.exportSnapshot] at hst
    split at hst
    · split at hst <;> cases hst <;> exact ⟨rfl, rfl, fun _ => .inr rfl⟩
    · cases hst
  | replayNext n =>
    simp only [act, Endpoint.replayNext] at hst
    split at hst <;> cases hst <;>
      exact ⟨rfl, rfl, fun hs => .inl (hs.back (by simp [*]) id)⟩
  | setReady =>
    simp only [act, Endpoint.setReady] at hst
    split at hst <;> cases hst
    exact ⟨rfl, rfl, fun hs => .inl (hs.back (by simp) id)⟩
  | _ => exact absurd hl Bool.false_ne_true

/-! ### The invariant -/

/-- The update the thread has chosen the connection for. -/
def chosen : AppPc → List HostLocation
  | .sending _ loc => [loc]
  | _ => []

structure NodeInv (x : Node) : Prop where
  ready : x.conn.host.ready = true
  active : x.conn.active = true
  transport : x.app.transport = true
  pending : x.conn.pending = chosen x.pc
  served : Served x.conn → x.exported ≠ none

/-- What the node `x` owes its peer `y` is known. -/
def Owes (x y : Node) : Prop :=
  Flow x.conn.host y.conn.host (offers x.conn y.conn) x.exported x.pc

structure Inv (i : Side) (w : World) : Prop where
  phases : Phases.Inv (conns w)
  node : ∀ j, NodeInv (w j)
  owes : Owes (w i) (w i.other)

variable {i : Side} {w w' : World} {a b a' b' : Node} {st : Step}

lemma start_inv (h : Start w) (i : Side) : Inv i w := by
  refine ⟨inv_acquired h.acquired, fun j => ?_, ?_⟩
  · obtain ⟨k, e, s, hc⟩ := h.acquired j
    refine ⟨h.ready j, by rw [hc], h.transport j, by rw [hc, (h.idle j).1]; rfl, fun hs => ?_⟩
    rw [hc] at hs
    simp [Served] at hs
  · have ho : offers (w i).conn (w i.other).conn = [] := by
      obtain ⟨k, e, s, hc⟩ := h.acquired i
      simp [hc, offers, serving]
    unfold Owes
    rw [ho, (h.idle i).1, (h.idle i).2]
    refine ⟨h.nodeId i, ?_, h.table i, h.ahead i, h.vouched i, by simp, trivial,
      fun _ _ _ => .inr (.inl rfl), by simp⟩
    cases i
    · exact h.ne
    · exact h.ne.symm

/-! ### The steps of a node -/

lemma conn_inv (hst : nodeStep a y (.conn l) = some a') :
    reliable l = true ∧ ∃ c, act a.conn y l = some c ∧
      a' = { a with
        conn := c
        exported := if l = .exportSnapshot then some a.conn.host.table else a.exported } := by
  by_cases hl : reliable l = true
  · simp only [nodeStep, hl, if_true] at hst
    obtain ⟨c, hc, rfl⟩ := Option.map_eq_some_iff.mp hst
    exact ⟨hl, c, hc, rfl⟩
  · simp [nodeStep, hl] at hst

/-- The end of a node moves as a connection does, or stays. -/
lemma nodeStep_conn (hst : nodeStep a y st = some a') :
    a'.conn = a.conn ∨ ∃ l, act a.conn y l = some a'.conn := by
  cases st with
  | packetIn info now =>
    simp only [nodeStep] at hst
    split at hst <;> cases hst
    exact .inr ⟨.host _, rfl⟩
  | lookup =>
    simp only [nodeStep] at hst
    split at hst <;> cases hst
    exact .inl rfl
  | select =>
    simp only [nodeStep] at hst
    split at hst
    · split at hst <;> cases hst
      · exact .inr ⟨.select _, ‹_›⟩
      · exact .inl rfl
    · cases hst
  | sendUpdate =>
    simp only [nodeStep] at hst
    split at hst
    · obtain ⟨x, hx, rfl⟩ := Option.map_eq_some_iff.mp hst
      exact .inr ⟨.sendUpdate 0, hx⟩
    · cases hst
  | forward env =>
    simp only [nodeStep] at hst
    split at hst <;> cases hst
    exact .inl rfl
  | conn l =>
    obtain ⟨-, x, hx, rfl⟩ := conn_inv hst
    exact .inr ⟨l, hx⟩

lemma phases_step (h : Phases.Inv (conns w)) (hst : nodeStep (w i) (w i.other).conn st = some a') :
    Phases.Inv (conns (Function.update w i a')) := by
  have hc : conns (Function.update w i a') = Function.update (conns w) i a'.conn := by
    funext j
    by_cases hj : j = i
    · subst hj
      simp [conns]
    · simp [conns, hj]
  rw [hc]
  rcases nodeStep_conn hst with he | ⟨l, hl⟩
  · rw [he]
    rwa [show (w i).conn = conns w i from rfl, Function.update_eq_self]
  · exact h.step (l := (i, l)) (step_eq_some.mpr ⟨_, hl, rfl⟩)

/-- What the end of the connection needs of the two ends. -/
structure Ends (x y : Endpoint) : Prop where
  inv : EndInv y.sent x
  order : stage y.sent ≠ none
  rcvd_le : y.rcvd ≤ x.sent.length

lemma Inv.ends (h : Inv i w) (j : Side) : Ends (w j).conn (w j.other).conn := by
  have hj := h.phases j.other
  rw [other_other] at hj
  obtain ⟨q, r, hq, -⟩ := hj.phase
  exact ⟨h.phases j, by simpa [conns] using hq ▸ Option.some_ne_none q, hj.rcvd_le⟩

/-- Every step of a node keeps what it knows of itself. -/
lemma NodeInv.step (h : NodeInv a) (he : Ends a.conn y) (hst : nodeStep a y st = some a') :
    NodeInv a' := by
  obtain ⟨h1, h2, h3, h4, h5⟩ := h
  cases st with
  | packetIn info now =>
    simp only [nodeStep] at hst
    split at hst <;> cases hst
    rename_i hpc
    have hs := learnSource_sources a.app h1 info now
    refine ⟨?_, h2, (learnSource_sameConfig now).transport.trans h3,
      h4.trans (by rw [hpc]; rfl), h5⟩
    generalize (learnSource a.app a.conn.host info now).2 = q at hs ⊢
    cases hs <;> exact h1
  | lookup =>
    simp only [nodeStep] at hst
    split at hst <;> cases hst
    rename_i hpc
    refine ⟨h1, h2, (announce_sameConfig _).transport.trans h3, h4.trans ?_, h5⟩
    rw [hpc]
    dsimp only
    split <;> rfl
  | select =>
    simp only [nodeStep, Endpoint.select] at hst
    split at hst
    · rename_i hpc
      rw [hpc] at h4
      split at hst <;> cases hst
      · rename_i hsel
        split_ifs at hsel
        cases hsel
        exact ⟨h1, h2, h3, by simp [h4, chosen], h5⟩
      · exact ⟨h1, h2, h3, h4, h5⟩
    · cases hst
  | sendUpdate =>
    simp only [nodeStep] at hst
    split at hst
    · rename_i hpc
      rw [hpc] at h4
      simp only [Endpoint.sendUpdate, h4, chosen, h2, List.getElem?_cons_zero, if_true,
        Option.map_some] at hst
      cases hst
      refine ⟨h1, rfl, h3, rfl, fun hs => h5 (hs.imp_left fun hm => ?_)⟩
      simpa [Endpoint.write] using hm
    · cases hst
  | forward env =>
    simp only [nodeStep] at hst
    split at hst <;> cases hst
    rename_i hpc
    exact ⟨h1, h2, forward_sameConfig.transport.trans h3, h4.trans (by rw [hpc]; rfl), h5⟩
  | conn l =>
    obtain ⟨hl, x, hx, rfl⟩ := conn_inv hst
    have hk := act_keeps hl hx
    refine ⟨?_, hk.active.trans h2, h3, hk.pending.trans h4, fun hs => ?_⟩
    · cases act_moves he.inv he.order he.rcvd_le h1 hl hx with
      | quiet hn hh ho hi => exact hh ▸ h1
      | exported hn hh ho hi => exact hh ▸ h1
      | applied hn ha ho hi => exact ha.ready.trans h1
    · dsimp only
      split_ifs with hexp
      · simp
      · exact h5 ((hk.served hs).resolve_right hexp)

/-- A step of the node itself keeps what it owes. -/
lemma Owes.own (h : Owes a b) (hn : NodeInv a) (he : Ends a.conn b.conn) (ha : Announced a st)
    (hst : nodeStep a b.conn st = some a') : Owes a' b := by
  unfold Owes at h ⊢
  cases st with
  | packetIn info now =>
    simp only [nodeStep] at hst
    split at hst <;> cases hst
    rename_i hpc
    rw [hpc] at h
    exact h.ownLearns (learnSource_sources a.app hn.ready info now) ha
  | lookup =>
    simp only [nodeStep] at hst
    split at hst <;> cases hst
    rename_i info assigned hpc
    rw [hpc] at h
    cases assigned with
    | false => exact h.rest (fun _ => id) trivial
    | true =>
      obtain ⟨loc, hf, hd⟩ := h.looksUp
      have hl : daimHostLookup a.conn.host (some info.macSrc) = some loc := by
        rw [daimHostLookup_eq hn.ready, hf]
      simpa [LearningApp.announce, hl, hn.transport] using hd
  | select =>
    simp only [nodeStep, Endpoint.select] at hst
    split at hst
    · rename_i info loc hpc
      rw [hpc] at h
      split at hst <;> cases hst
      · rename_i hsel
        split_ifs at hsel
        cases hsel
        refine h.announces (fun u => ?_) trivial
        simp only [offers, List.mem_append, List.mem_singleton]
        tauto
      · rename_i hsel
        split_ifs at hsel with hr
        refine h.drops ?_ trivial
        have hex := ha.resolve_left fun hready => hr (by simp [hn.active, hready])
        exact hex loc (by rw [hpc]; rfl)
    · cases hst
  | sendUpdate =>
    simp only [nodeStep] at hst
    split at hst
    · rename_i info loc hpc
      have hp := hn.pending
      rw [hpc] at hp
      simp only [Endpoint.sendUpdate, hp, chosen, hn.active, List.getElem?_cons_zero, if_true,
        Option.map_some] at hst
      cases hst
      rw [hpc] at h
      refine (h.move fun u => ?_).rest (fun _ => id) trivial
      refine mem_offers_write he.rcvd_le rfl fun u => ?_
      simp [carried, decode_encode, hp, chosen, Endpoint.write, or_comm, eq_comm]
    · cases hst
  | forward env =>
    simp only [nodeStep] at hst
    split at hst <;> cases hst
    rename_i hpc
    rw [hpc] at h
    exact h.rest (fun _ => id) trivial
  | conn l =>
    obtain ⟨hl, x, hx, rfl⟩ := conn_inv hst
    cases act_moves he.inv he.order he.rcvd_le hn.ready hl hx with
    | quiet hne hh ho hi =>
      simp only [hne, if_false, hh]
      exact h.move ho
    | exported heq hh ho hi =>
      simp only [heq, if_true, hh]
      exact h.exportTable ho
    | applied hne ha ho hi =>
      simp only [hne, if_false, ho]
      exact h.ownApplies ha

/-- A step of the peer keeps what the node owes it, unless its table is full. -/
lemma Owes.peer (h : Owes a b) (hn : NodeInv b) (he : Ends b.conn a.conn)
    (hroom : b.conn.host.table.length < maxHostEntries)
    (hst : nodeStep b a.conn st = some b') : Owes a b' := by
  unfold Owes at h ⊢
  cases st with
  | packetIn info now =>
    simp only [nodeStep] at hst
    split at hst <;> cases hst
    exact h.peerLearns (learnSource_sources b.app hn.ready info now)
  | lookup =>
    simp only [nodeStep] at hst
    split at hst <;> cases hst
    exact h
  | select =>
    simp only [nodeStep, Endpoint.select] at hst
    split at hst
    · split at hst <;> cases hst
      · rename_i hsel
        split_ifs at hsel
        cases hsel
        exact h
      · exact h
    · cases hst
  | sendUpdate =>
    simp only [nodeStep] at hst
    split at hst
    · rename_i info loc hpc
      have hp := hn.pending
      rw [hpc] at hp
      simp only [Endpoint.sendUpdate, hp, chosen, hn.active, List.getElem?_cons_zero, if_true,
        Option.map_some] at hst
      cases hst
      exact h
    · cases hst
  | forward env =>
    simp only [nodeStep] at hst
    split at hst <;> cases hst
    exact h
  | conn l =>
    obtain ⟨hl, x, hx, rfl⟩ := conn_inv hst
    cases act_moves he.inv he.order he.rcvd_le hn.ready hl hx with
    | quiet hne hh ho hi =>
      simp only [hh]
      rwa [hi]
    | exported heq hh ho hi =>
      simp only [hh]
      rwa [hi]
    | applied hne ha ho hi =>
      rw [hi] at h
      exact h.peerApplies ha hroom

/-! ### Runs -/

variable {h : List (World × Side × Step)}

lemma Inv.step {l : Side × Step} (hi : Inv i w) (hm : Meets i w l) (hst : step w l = some w') :
    Inv i w' := by
  obtain ⟨j, st⟩ := l
  obtain ⟨a', ha', rfl⟩ := Option.map_eq_some_iff.mp hst
  refine ⟨phases_step hi.phases ha', fun k => ?_, ?_⟩
  · by_cases hk : k = j
    · subst hk
      rw [Function.update_self]
      exact (hi.node k).step (hi.ends k) ha'
    · rw [Function.update_of_ne hk]
      exact hi.node k
  · by_cases hj : j = i
    · subst hj
      rw [Function.update_self, Function.update_of_ne (other_ne j)]
      exact hi.owes.own (hi.node j) (hi.ends j) (hm.1 rfl) ha'
    · obtain rfl := eq_other_of_ne hj
      rw [Function.update_self, Function.update_of_ne (other_ne i).symm]
      have he := hi.ends i.other
      rw [other_other] at he ha'
      exact hi.owes.peer (hi.node i.other) he hm.2 ha'

lemma run_inv (hr : Run live h w) (hm : ∀ p ∈ h, Meets i p.1 p.2) : Inv i w :=
  hr.inv_of_ok (Meets i) (Inv i) (fun _ hs => start_inv hs i)
    (fun _ _ _ hi hok hst => hi.step hok hst) hm

/-- An end that is ready is in its steady state, with its snapshot behind it. -/
lemma Inv.ready (hi : Inv i w) (hr : (w i).conn.ready = true) :
    serving (w i).conn.pc = [] ∧ Served (w i).conn := by
  have he := (hi.ends i).inv
  have hq := he.ready hr
  refine ⟨?_, .inl (end_mem_of_stage hq)⟩
  obtain ⟨q, r, hq', -, hp⟩ := he.phase
  obtain rfl : q = .ended := Option.some.inj (hq'.symm.trans hq)
  cases hpc : (w i).conn.pc <;> simp_all [Phase, serving]

/-- **No update is lost**: in every run in which the peer's table never fills, no sequence
number wraps, and nothing is announced to a connection that is not ready while its snapshot
goes without it, the peer holds everything the node has learned as soon as the two are
quiescent. -/
theorem no_update_lost (hr : Run live h w) (hm : ∀ p ∈ h, Meets i p.1 p.2)
    (hq : Quiescent w) : Delivered w i := by
  have hi := run_inv hr hm
  obtain ⟨hready, hrcvd, hidle⟩ := hq i
  obtain ⟨hserve, hserved⟩ := hi.ready hready
  have hn := hi.node i
  have ho : offers (w i).conn (w i.other).conn = [] := by
    simp [offers, hserve, hn.pending, hidle, hrcvd, chosen]
  have hf := hi.owes
  unfold Owes at hf
  rw [ho, hidle] at hf
  intro r hr hl
  rw [daimHostLookup_eq (hi.node i.other).ready]
  exact hf.delivered (hn.served hserved) (fun _ => id) hr hl

/-- Two nodes that have just been initialised, with the application on top. -/
def fresh (k : UInt64) : Node where
  conn := { nodeId := k, ownerEpoch := 7, host := daimHostStateInit {} k 7 }
  app := { ready := true, transport := true, myNodeId := k, myDpid := k, hostPort := 1 }

def freshWorld : World
  | .a => fresh 1
  | .b => fresh 2

lemma freshWorld_start : Start freshWorld where
  acquired := by rintro (_ | _) <;> exact ⟨_, _, _, rfl⟩
  ready := by decide
  transport := by decide
  idle := by decide
  nodeId := by decide
  ne := by decide
  table := by rintro (_ | _) <;> exact tableInv_nil _
  ahead := by rintro (_ | _) _ r hr <;> cases hr
  vouched := by rintro (_ | _) r hr <;> cases hr

/-- A packet of the host whose MAC ends in `b`; the thread goes on with `rest` once it has
chosen the connection, or not. -/
def learning (b : UInt8) (rest : List Step) : List (Side × Step) :=
  let info : NoRulePacketInfo := ⟨1, macOf b, macOf 0, 0x0800⟩
  (.packetIn info 5 :: .lookup :: .select :: rest : List Step).map fun st => (.a, st)

def both (ls : List Act) : List (Side × Step) :=
  ls.flatMap fun l => [(.a, .conn l), (.b, .conn l)]

theorem no_update_lost_twoLearns :
    ∃ h w, Run live h w ∧ Delivered w .a ∧ (w .a).conn.host.table.length = 2 := by
  obtain ⟨h, w, hr, hp⟩ := exists_run_of_replay (f := step)
    (learning 1 [.forward ⟨5, true⟩] ++
      both [.send, .recv 1, .send, .recv 2, .exportSnapshot, .send] ++
      [(.a, .conn .send), (.b, .conn (.recv 3))] ++ both [.recv 4, .replayNext 5, .setReady] ++
      learning 2 [.sendUpdate, .forward ⟨6, true⟩] ++ [(.b, .conn (.recv 7))])
    freshWorld_start
    (fun h w => (∀ p ∈ h, Meets .a p.1 p.2) ∧ Quiescent w ∧
      (w .a).conn.host.table.length = 2) (by decide)
  obtain ⟨hm, hq, hl⟩ := hp
  exact ⟨h, w, hr, no_update_lost hr hm hq, hl⟩

/-- The node learns a host after its snapshot has been exported and before it is ready. -/
theorem learn_after_export_lost :
    ∃ h w, Run live h w ∧ (∀ p ∈ h, (p.1 .b).conn.host.table.length < maxHostEntries) ∧
      Quiescent w ∧ ¬Delivered w .a := by
  obtain ⟨h, w, hr, hp⟩ := exists_run_of_replay (f := step)
    (both [.send, .recv 1, .send, .recv 2, .exportSnapshot, .send] ++
      learning 1 [.forward ⟨5, true⟩] ++
      both [.recv 3, .replayNext 4, .setReady])
    freshWorld_start
    (fun h w => (∀ p ∈ h, (p.1 .b).conn.host.table.length < maxHostEntries) ∧ Quiescent w ∧
      ¬Delivered w .a) (by decide)
  exact ⟨h, w, hr, hp⟩

end DaimDistributed.Live
