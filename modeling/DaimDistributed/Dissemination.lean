import DaimDistributed.LearningApp
import DaimDistributed.Slots

/-!
What a node announces, and in which order.

The packets of a node are handled one after the other, but the table is given up between the
learn and the lookup, and the connections are written to while other threads run. The record
that is looked up is the one that was learned, since no update replaces a record of the
node's own; and a packet is through with its connections before the next one learns.
-/

namespace DaimDistributed.Dissemination

open HostState HostTable HostInv DaimDistributed.Core LearningApp Protocol Transitions
open Transport (Act Endpoint Frame MsgType act)

/-- A packet that is being handled, and the table its learn is made in. -/
structure Packet where
  info : NoRulePacketInfo
  now : UInt64
  before : State
  deriving DecidableEq

/-- Where the thread is that holds the lock of the application. -/
inductive Pc
  | idle
  | learned (k : Packet) (assigned : Bool)
  | disseminating (k : Packet) (loc : HostLocation)
  | sending (k : Packet) (loc : HostLocation)
  | announced (k : Packet)
  deriving DecidableEq

/-- A node with its connections. The calls of `daim_host_learn_local` are counted for the
record only. -/
structure Node where
  core : CoreState
  app : AppState
  host : State
  transport : Slots.Transport
  pc : Pc := .idle
  learns : ℕ := 0

inductive Step
  | packetIn (bridge : List UInt8) (info : NoRulePacketInfo) (now : UInt64)
  | lookup
  | select
  | sendFramed
  | sendFramedFail
  | sent
  | forward (env : Env)
  | applyRemote (update : Option HostLocation) (now : UInt64)
  | importSnapshotEntry (entry : Option HostLocation) (now : UInt64)
  | acquire
  | thread (i : ℕ) (l : Act)
  | receive (i : ℕ) (f : Frame) (now : UInt64)

/-- The connection in slot `i` works on the table of the node. -/
def Node.share (x : Node) (i : ℕ) : Slots.Transport :=
  x.transport.setConn i { (x.transport.slots i).conn with host := x.host }

/-- The connection in slot `i` has worked on the table. -/
def Node.join (x : Node) (i : ℕ) (t : Slots.Transport) : Node :=
  { x with transport := t, host := (t.slots i).conn.host }

def isHost : Act → Bool
  | .host _ => true
  | _ => false

def step (x : Node) : Step → Option Node
  | .packetIn bridge info now =>
    match x.pc, daimCoreEmit x.core noRule with
    | .idle, some .distributedLearning =>
      let l := learnSource (x.app.setBridge bridge) x.host info now
      some { x with
        app := l.1, host := l.2.1, pc := .learned ⟨info, now, x.host⟩ l.2.2
        learns := x.learns + if info.inPort = x.app.hostPort then 1 else 0 }
    | .idle, _ => some x
    | _, _ => none
  | .lookup =>
    match x.pc with
    | .learned k assigned =>
      let d := announce x.app x.host k.info assigned
      some { x with
        app := d.1
        pc := match d.2 with
          | .disseminate loc :: _ => .disseminating k loc
          | _ => .announced k }
    | _ => none
  | .select =>
    match x.pc with
    | .disseminating k loc =>
      (Slots.step x.transport (.select loc)).map fun t =>
        { x with transport := t, pc := .sending k loc }
    | _ => none
  | .sendFramed =>
    match x.pc with
    | .sending _ _ =>
      (Slots.step x.transport (.sendFramed 0)).map fun t => { x with transport := t }
    | _ => none
  | .sendFramedFail =>
    match x.pc with
    | .sending _ _ =>
      (Slots.step x.transport (.sendFramedFail 0)).map fun t => { x with transport := t }
    | _ => none
  | .sent =>
    match x.pc, x.transport.targets with
    | .sending k _, [] => some { x with pc := .announced k }
    | _, _ => none
  | .forward env =>
    match x.pc with
    | .announced k =>
      some { x with app := (LearningApp.forward x.app x.host k.info env).1, pc := .idle }
    | _ => none
  | .applyRemote u now => some { x with host := (daimHostApplyRemote x.host u now).1 }
  | .importSnapshotEntry u now =>
    some { x with host := (daimHostImportSnapshotEntry x.host u now).1 }
  | .acquire => (Slots.step x.transport (.acquire x.host)).map fun t => { x with transport := t }
  | .thread i l =>
    if isHost l = true then none
    else (Slots.step (x.share i) (.thread i l)).map (x.join i)
  | .receive i f now => (Slots.step (x.share i) (.receive i f now)).map (x.join i)

/-- An initialised node with its application, before its first connection. -/
structure Starts (x : Node) : Prop where
  registered : daimCoreEmit x.core noRule = some .distributedLearning
  ready : x.app.ready = true
  host : ∃ s0 i e, x.host = daimHostStateInit s0 i e
  transport : ∃ i e, x.transport = { nodeId := i, ownerEpoch := e }
  pc : x.pc = .idle
  learns : x.learns = 0

def node : Lts Node Step := ofFun Starts step

/-! ### What is claimed of the announcements -/

/-- The call of `daim_host_learn_local` for a packet. -/
def Packet.learn (k : Packet) (a : AppState) : State × UInt64 :=
  daimHostLearnLocal k.before (some k.info.macSrc) a.myDpid k.info.inPort.toUInt32 k.now

/-- `loc` is the record that the learn of the packet wrote. -/
structure Faithful (a : AppState) (nodeId : UInt64) (k : Packet) (loc : HostLocation) : Prop where
  onHostPort : k.info.inPort = a.hostPort
  wrote : find (k.learn a).1.table k.info.macSrc = some loc
  origin : loc.originNodeId = nodeId
  isLocal : loc.isLocal = 1
  ownerPort : loc.ownerPort = a.hostPort.toUInt32
  sequence : loc.sequence = (k.learn a).2

/-- The `HOST_LOCATION_UPDATE` frames written on a connection. -/
def updates (c : Endpoint) : List Frame :=
  c.sent.filter fun f => f.messageType = .hostLocationUpdate

/-- The updates written on a connection carry these records. -/
def Carries (c : Endpoint) (locs : List HostLocation) : Prop :=
  (updates c).map Frame.payload = locs.map daimPeerEncodeHostLocation

/-- The records are those of learns numbered one above the other, below `n`; a sequence is
the number of its learn, until the counter wraps. -/
def Numbered (n : ℕ) (locs : List HostLocation) : Prop :=
  ∃ ns : List ℕ, ns.Pairwise (· < ·) ∧ (∀ k ∈ ns, k < n ∧ k % 2 ^ 64 ≠ 0) ∧
    locs.map (fun loc => loc.sequence.toNat) = ns.map (· % 2 ^ 64)

variable {x y : Node} {h : List (Node × Step)} {s s' : State} {n n' : ℕ}
  {locs : List HostLocation} {loc : HostLocation} {k : Packet} {i : ℕ} {c c' z : Endpoint}

/-- What a connection carries is numbered so. -/
def Ordered (n : ℕ) (c : Endpoint) : Prop := ∃ locs, Carries c locs ∧ Numbered n locs

lemma numbered_nil (n : ℕ) : Numbered n [] := ⟨[], .nil, by simp, rfl⟩

lemma Numbered.mono (hl : Numbered n locs) (hn : n ≤ n') : Numbered n' locs := by
  obtain ⟨ns, hp, hb, hm⟩ := hl
  exact ⟨ns, hp, fun k hk => ⟨(hb k hk).1.trans_le hn, (hb k hk).2⟩, hm⟩

/-- The record of the learn just made comes last. -/
lemma Numbered.append (hl : Numbered n locs) (hs : loc.sequence.toNat = n % 2 ^ 64)
    (h0 : n % 2 ^ 64 ≠ 0) : Numbered (n + 1) (locs ++ [loc]) := by
  obtain ⟨ns, hp, hb, hm⟩ := hl
  refine ⟨ns ++ [n], ?_, fun k hk => ?_, by simp [hm, hs]⟩
  · rw [List.pairwise_append]
    exact ⟨hp, List.pairwise_singleton _ _, fun a ha b hb' => by
      obtain rfl := List.mem_singleton.mp hb'
      exact (hb a ha).1⟩
  · rcases List.mem_append.mp hk with hk | hk
    · exact ⟨(hb k hk).1.trans (Nat.lt_succ_self n), (hb k hk).2⟩
    · obtain rfl := List.mem_singleton.mp hk
      exact ⟨Nat.lt_succ_self _, h0⟩

lemma ordered_nil (n : ℕ) (hc : c.sent = []) : Ordered n c :=
  ⟨[], by simp [Carries, updates, hc], numbered_nil n⟩

lemma Ordered.mono (hc : Ordered n c) (hn : n ≤ n') : Ordered n' c := by
  obtain ⟨locs, hl, hnum⟩ := hc
  exact ⟨locs, hl, hnum.mono hn⟩

/-- The record of the learn just made is written. -/
lemma Ordered.write (hc : Ordered n c) (hs : loc.sequence.toNat = n % 2 ^ 64)
    (h0 : n % 2 ^ 64 ≠ 0) :
    Ordered (n + 1) (c.write .hostLocationUpdate (daimPeerEncodeHostLocation loc)) := by
  obtain ⟨locs, hl, hnum⟩ := hc
  refine ⟨locs ++ [loc], ?_, hnum.append hs h0⟩
  simp only [Carries, updates] at hl ⊢
  simp [Endpoint.write, List.filter_append, hl]

/-- Before the counter has wrapped the sequences increase. -/
lemma Numbered.increasing (hl : Numbered n locs) (hn : n ≤ 2 ^ 64 + 1) :
    locs.Pairwise fun a b => a.sequence < b.sequence := by
  obtain ⟨ns, hp, hb, hm⟩ := hl
  have hsmall : ∀ k ∈ ns, k % 2 ^ 64 = k := by
    intro k hk
    obtain ⟨hlt, h0⟩ := hb k hk
    have hne : k ≠ 2 ^ 64 := by
      rintro rfl
      exact h0 (Nat.mod_self _)
    exact Nat.mod_eq_of_lt (by omega)
  rw [List.map_congr_left hsmall, List.map_id'] at hm
  rw [← hm, List.pairwise_map] at hp
  exact hp.imp fun hab => UInt64.lt_iff_toNat_lt.mpr hab

/-! ### What other threads do to the table -/

/-- The table after a step of another thread: only an update can change the records. -/
inductive Others (s : State) : State → Prop
  | quiet (st : Stats) : Others s { s with stats := st }
  | applied {u : HostLocation} {now : UInt64} {p : State × ApplyResult} (ha : Applies s u now p) :
      Others s p.1

/-- What the learning thread relies on. -/
structure Relied (s s' : State) : Prop where
  ready : s'.ready = s.ready
  nodeId : s'.nodeId = s.nodeId
  counter : s'.nextLocalSequence = s.nextLocalSequence
  own : ∀ m r, find s.table m = some r → r.originNodeId = s.nodeId → find s'.table m = some r

/-- **No update replaces a record of the node's own.** -/
lemma applies_own {u : HostLocation} {now : UInt64} {p : State × ApplyResult}
    (ha : Applies s u now p) {m : Mac} {r : HostLocation} (hf : find s.table m = some r)
    (ho : r.originNodeId = s.nodeId) : find p.1.table m = some r := by
  rcases ha.held hf with hk | ⟨⟨hn, ho', -⟩, -⟩
  · exact hk
  · exact absurd (ho'.symm.trans ho) hn

lemma Others.relied (ho : Others s s') : Relied s s' := by
  cases ho with
  | quiet st => exact ⟨rfl, rfl, rfl, fun _ _ hf _ => hf⟩
  | applied ha =>
    have hframe := ha.frame
    exact ⟨ha.ready, ha.nodeId, by rw [hframe], fun m r hf => applies_own ha hf⟩

lemma others_refl (s : State) : Others s s := .quiet s.stats

lemma others_applyLocked (s : State) (u : Option HostLocation) (now : UInt64) :
    Others s (applyLocked s u now).1 := by
  cases u with
  | none => exact .quiet (s.stats.count .invalid)
  | some u => exact .applied (applyLocked_applies s u now)

lemma others_applyRemote (hs : s.ready = true) (u : Option HostLocation) (now : UInt64) :
    Others s (daimHostApplyRemote s u now).1 := by
  simpa [daimHostApplyRemote, hs] using others_applyLocked s u now

lemma others_import (hs : s.ready = true) (u : Option HostLocation) (now : UInt64) :
    Others s (daimHostImportSnapshotEntry s u now).1 := by
  simpa [daimHostImportSnapshotEntry, hs] using others_applyLocked s u now

/-! ### What the thread of a connection does -/

/-- The connection announces nothing, and applies one update at most. -/
structure Serves (c c' : Endpoint) : Prop where
  updates : updates c' = updates c
  host : Others c.host c'.host

variable {f : Frame} {now : UInt64}

lemma Serves.write (ty : MsgType) (payload : List UInt8)
    (hty : ty ≠ .hostLocationUpdate) (hs : c'.sent = (c.write ty payload).sent)
    (hh : c'.host = c.host) : Serves c c' := by
  refine ⟨?_, hh ▸ others_refl _⟩
  simp [Dissemination.updates, hs, Endpoint.write, hty]

lemma serves_same (hs : c'.sent = c.sent) (hh : c'.host = c.host) : Serves c c' :=
  ⟨by simp only [updates, hs], hh ▸ others_refl _⟩

lemma exchangeMessage_others (hc : c.host.ready = true) :
    Others c.host (c.exchangeMessage f now).host := by
  unfold Endpoint.exchangeMessage
  repeat' split
  all_goals first | exact others_import hc _ _ | exact others_refl _

lemma handleMessage_others (hc : c.host.ready = true) :
    Others c.host (c.handleMessage f now).host := by
  unfold Endpoint.handleMessage
  repeat' split
  all_goals first | exact others_applyRemote hc _ _ | exact others_refl _

lemma recv_serves (hc : c.host.ready = true) (hst : c.recv f now = some c') : Serves c c' := by
  refine ⟨by simp only [updates, Transport.recv_sent hst], ?_⟩
  simp only [Endpoint.recv] at hst
  split at hst
  · split_ifs at hst <;> cases hst <;> exact others_refl _
  · cases hst
    exact exchangeMessage_others (c := { c with rcvd := c.rcvd + 1 }.countReceived f) hc
  · cases hst
    exact handleMessage_others (c := { c with rcvd := c.rcvd + 1 }.countReceived f) hc
  · cases hst

lemma thread_serves (hc : c.host.ready = true) {l : Act} (hl : Slots.isThread l = true)
    (hh : isHost l = false) (hst : act c z l = some c') : Serves c c' := by
  cases l with
  | send =>
    simp only [act, Endpoint.send] at hst
    split at hst
    · cases hst
    · split at hst <;> cases hst
      · exact .write .hello _ (by decide) rfl rfl
      · exact .write .stateSnapshotRequest _ (by decide) rfl rfl
      · exact .write .stateSnapshotEntry _ (by decide) rfl rfl
      · exact .write .stateSnapshotEnd _ (by decide) rfl rfl
  | sendFail =>
    simp only [act, Endpoint.sendFail] at hst
    split at hst <;> cases hst <;> exact serves_same rfl rfl
  | recvFail =>
    simp only [act, Endpoint.recvFail] at hst
    split at hst <;> cases hst <;> exact serves_same rfl rfl
  | exportSnapshot =>
    simp only [act, Endpoint.exportSnapshot] at hst
    split at hst
    · split at hst <;> cases hst <;> exact serves_same rfl rfl
    · cases hst
  | replayNext now =>
    simp only [act, Endpoint.replayNext] at hst
    split at hst <;> cases hst
    · exact serves_same rfl rfl
    · exact ⟨rfl, others_applyRemote hc _ _⟩
  | setReady =>
    simp only [act, Endpoint.setReady] at hst
    split at hst <;> cases hst
    exact serves_same rfl rfl
  | stop =>
    simp only [act, Endpoint.stop] at hst
    split at hst <;> cases hst
    exact serves_same rfl rfl
  | teardown =>
    simp only [act, Endpoint.teardown] at hst
    split at hst <;> cases hst
    exact serves_same rfl rfl
  | host st => exact absurd hh (by simp [isHost])
  | _ => exact absurd hl Bool.false_ne_true

/-! ### The invariant -/

/-- The packet has learned: `loc` is its record, and the number of its learn is `n`. -/
structure Learned (a : AppState) (nodeId : UInt64) (n : ℕ) (k : Packet) (loc : HostLocation) :
    Prop where
  faithful : Faithful a nodeId k loc
  number : loc.sequence.toNat = n % 2 ^ 64
  assigned : n % 2 ^ 64 ≠ 0

/-- What the thread at a program counter has to announce, and where. -/
def Owes (a : AppState) (s : State) (n : ℕ) (ts : List Slots.Target) : Pc → Prop
  | .learned k true =>
    ∃ loc, Learned a s.nodeId n k loc ∧ find s.table k.info.macSrc = some loc
  | .disseminating k loc => Learned a s.nodeId n k loc
  | .sending k loc => Learned a s.nodeId n k loc ∧ ∀ g ∈ ts, g.loc = loc
  | _ => True

def isSending : Pc → Bool
  | .sending _ _ => true
  | _ => false

/-- The record learned last is not announced yet. -/
def isBefore : Pc → Bool
  | .learned _ true | .disseminating _ _ => true
  | _ => false

/-- The learns announced in slot `i` have smaller numbers. -/
def bound (n : ℕ) (ts : List Slots.Target) (pc : Pc) (i : ℕ) : ℕ :=
  if isBefore pc = true ∨ i ∈ ts.map Slots.Target.slot then n else n + 1

structure Inv (x : Node) : Prop where
  ready : x.host.ready = true
  count : x.host.nextLocalSequence.toNat = (x.learns + 1) % 2 ^ 64
  owes : Owes x.app x.host x.learns x.transport.targets x.pc
  targets : isSending x.pc = false → x.transport.targets = []
  nodup : (x.transport.targets.map Slots.Target.slot).Nodup
  ordered : ∀ i, Ordered (bound x.learns x.transport.targets x.pc i) (x.transport.slots i).conn

lemma starts_inv (hx : Starts x) : Inv x := by
  obtain ⟨s0, i, e, hh⟩ := hx.host
  obtain ⟨i', e', ht⟩ := hx.transport
  refine ⟨by rw [hh]; rfl, by rw [hh, hx.learns]; rfl, by rw [hx.pc]; trivial, ?_, ?_, ?_⟩
  · simp [ht]
  · simp [ht]
  · intro i
    exact ordered_nil _ (by rw [ht])

lemma bound_le (n : ℕ) (ts : List Slots.Target) (pc : Pc) (i : ℕ) : bound n ts pc i ≤ n + 1 := by
  unfold bound
  split_ifs
  · exact Nat.le_succ _
  · exact Nat.le_refl _

lemma le_bound (n : ℕ) (ts : List Slots.Target) (pc : Pc) (i : ℕ) : n ≤ bound n ts pc i := by
  unfold bound
  split_ifs
  · exact Nat.le_refl _
  · exact Nat.le_succ _

/-! ### Steps of other threads -/

variable {a b : AppState} {ts : List Slots.Target} {pc : Pc}

lemma Owes.relied (ho : Owes a s n ts pc) (hr : Relied s s') : Owes a s' n ts pc := by
  cases pc with
  | learned k assigned =>
    cases assigned with
    | false => trivial
    | true =>
      obtain ⟨loc, hl, hf⟩ := ho
      refine ⟨loc, ?_, hr.own _ _ hf hl.faithful.origin⟩
      rw [hr.nodeId]
      exact hl
  | disseminating k loc =>
    simp only [Owes, hr.nodeId] at ho ⊢
    exact ho
  | sending k loc =>
    simp only [Owes, hr.nodeId] at ho ⊢
    exact ho
  | _ => trivial

/-- **Another thread leaves everything the learning thread goes by.** -/
lemma Inv.others (hx : Inv x) (ho : Others x.host s') : Inv { x with host := s' } := by
  have hr := ho.relied
  exact ⟨hr.ready.trans hx.ready, hr.counter ▸ hx.count, hx.owes.relied hr, hx.targets, hx.nodup,
    hx.ordered⟩

/-- A connection takes a step on the table of the node. -/
lemma Inv.join (hx : Inv x) {t : Slots.Transport}
    (hs : Serves { (x.transport.slots i).conn with host := x.host } (t.slots i).conn)
    (ht : t.targets = x.transport.targets) (hne : ∀ j, j ≠ i → t.slots j = x.transport.slots j) :
    Inv (x.join i t) := by
  obtain ⟨h1, h2, h3, h4, h5, h6⟩ := hx.others hs.host
  simp only [← ht] at h3 h4 h5 h6
  refine ⟨h1, h2, h3, h4, h5, fun j => ?_⟩
  by_cases hj : j = i
  · subst hj
    obtain ⟨locs, hl, hn⟩ := h6 j
    exact ⟨locs, by rw [Carries, Node.join, hs.updates]; exact hl, hn⟩
  · rw [Node.join, hne j hj]
    exact h6 j

/-- A slot is acquired for a new connection. -/
lemma Inv.acquire (hx : Inv x) {t : Slots.Transport}
    (hst : Slots.step x.transport (.acquire x.host) = some t) : Inv { x with transport := t } := by
  simp only [Slots.step] at hst
  split at hst <;> cases hst
  rename_i i hi
  refine ⟨hx.ready, hx.count, hx.owes, hx.targets, hx.nodup, fun j => ?_⟩
  by_cases hj : j = i
  · subst hj
    exact ordered_nil _ (by simp [Function.update_self])
  · simpa only [Function.update_of_ne hj] using hx.ordered j

/-! ### Steps of the learning thread -/

/-- A record depends on the configuration only. -/
lemma Learned.congr {i : UInt64} (hl : Learned a i n k loc) (hc : SameConfig a b) :
    Learned b i n k loc := by
  obtain ⟨⟨h1, h2, h3, h4, h5, h6⟩, h7, h8⟩ := hl
  have hlearn : k.learn b = k.learn a := by rw [Packet.learn, Packet.learn, hc.myDpid]
  exact ⟨⟨hc.hostPort ▸ h1, hlearn ▸ h2, h3, h4, hc.hostPort ▸ h5, hlearn ▸ h6⟩, h7, h8⟩

/-- A learn that returns a sequence has written its record, with that sequence. -/
lemma learned_of_learn (hs : s.ready = true) {info : NoRulePacketInfo} {now : UInt64}
    (hp : info.inPort = a.hostPort) (hn : s.nextLocalSequence.toNat = n % 2 ^ 64)
    (h0 : (Packet.learn ⟨info, now, s⟩ a).2 ≠ 0) :
    ∃ loc, Learned a s.nodeId n ⟨info, now, s⟩ loc ∧
      find (Packet.learn ⟨info, now, s⟩ a).1.table info.macSrc = some loc := by
  have hl := daimHostLearnLocal_learns hs info.macSrc a.myDpid info.inPort.toUInt32 now
  change Learns s info.macSrc a.myDpid info.inPort.toUInt32 now
    (Packet.learn ⟨info, now, s⟩ a) at hl
  generalize hq : Packet.learn ⟨info, now, s⟩ a = q at hl h0 ⊢
  cases hl with
  | full hf hl => exact absurd rfl h0
  | learned hl =>
    have hf : find (write s.table (localRecord s info.macSrc a.myDpid info.inPort.toUInt32 now))
        info.macSrc = some (localRecord s info.macSrc a.myDpid info.inPort.toUInt32 now) := by
      rw [find_write, localRecord, if_pos rfl]
    refine ⟨_, ⟨⟨hp, by rw [hq]; exact hf, rfl, rfl, by rw [← hp]; rfl, by rw [hq]; rfl⟩,
      hn, ?_⟩, hf⟩
    rw [← hn]
    exact fun hz => h0 (UInt64.toNat_inj.mp hz)

/-- What a learn does to the counter and the identity. -/
lemma learn_counts (hs : s.ready = true) (k : Packet) (hk : k.before = s) (a : AppState) :
    (k.learn a).1.ready = true ∧ (k.learn a).1.nodeId = s.nodeId ∧
      (k.learn a).1.nextLocalSequence = s.nextLocalSequence + 1 := by
  subst hk
  have hl := daimHostLearnLocal_learns hs k.info.macSrc a.myDpid k.info.inPort.toUInt32 k.now
  change Learns k.before k.info.macSrc a.myDpid k.info.inPort.toUInt32 k.now (k.learn a) at hl
  generalize k.learn a = q at hl ⊢
  cases hl <;> exact ⟨hs, rfl, rfl⟩

/-- The learn of a packet. -/
lemma Inv.packetIn (hx : Inv x) (hpc : x.pc = .idle) (info : NoRulePacketInfo) (now : UInt64)
    (hc : SameConfig x.app a) : Inv { x with
      app := (learnSource a x.host info now).1
      host := (learnSource a x.host info now).2.1
      pc := .learned ⟨info, now, x.host⟩ (learnSource a x.host info now).2.2
      learns := x.learns + if info.inPort = x.app.hostPort then 1 else 0 } := by
  have htargets : x.transport.targets = [] := hx.targets (by simp [hpc, isSending])
  have hordered : ∀ i, Ordered (x.learns + 1) (x.transport.slots i).conn :=
    fun i => (hx.ordered i).mono (bound_le _ _ _ _)
  have hconf : SameConfig a (learnSource a x.host info now).1 := learnSource_sameConfig now
  rw [learnSource_eq, ← hc.hostPort]
  by_cases hp : info.inPort = a.hostPort
  · obtain ⟨hready, hnode, hnext⟩ := learn_counts hx.ready ⟨info, now, x.host⟩ rfl a
    have hcount : (Packet.learn ⟨info, now, x.host⟩ a).1.nextLocalSequence.toNat =
        (x.learns + 1 + 1) % 2 ^ 64 := by
      have := hx.count
      rw [hnext, UInt64.toNat_add, UInt64.toNat_one]
      omega
    rw [if_pos hp, if_pos hp]
    change Inv { x with
      app := (learnSource a x.host info now).1
      host := (Packet.learn ⟨info, now, x.host⟩ a).1
      pc := .learned ⟨info, now, x.host⟩ (decide ((Packet.learn ⟨info, now, x.host⟩ a).2 ≠ 0))
      learns := x.learns + 1 }
    by_cases h0 : (Packet.learn ⟨info, now, x.host⟩ a).2 ≠ 0
    · obtain ⟨loc, hl, hf⟩ := learned_of_learn hx.ready hp hx.count h0
      rw [decide_eq_true h0]
      refine ⟨hready, hcount, ⟨loc, ?_, hf⟩, fun _ => htargets, hx.nodup, fun i => ?_⟩
      · change Learned _ (Packet.learn ⟨info, now, x.host⟩ a).1.nodeId _ _ _
        rw [hnode]
        exact hl.congr hconf
      · simpa [bound, isBefore] using hordered i
    · rw [decide_eq_false h0]
      refine ⟨hready, hcount, trivial, fun _ => htargets, hx.nodup, fun i => ?_⟩
      exact (hordered i).mono (le_bound _ _ _ _)
  · rw [if_neg hp, if_neg hp]
    refine ⟨hx.ready, hx.count, trivial, fun _ => htargets, hx.nodup, fun i => ?_⟩
    simpa [bound, isBefore, htargets] using hordered i

/-- What is announced after the lookup. -/
lemma announce_effects (a : AppState) (s : State) (info : NoRulePacketInfo) (assigned : Bool) :
    (announce a s info assigned).2 = [] ∨
      ∃ loc, assigned = true ∧ daimHostLookup s (some info.macSrc) = some loc ∧
        (announce a s info assigned).2 = [.disseminate loc] := by
  unfold announce
  split
  · exact .inl rfl
  · rename_i ha
    split
    · rename_i loc hloc
      split
      · exact .inr ⟨loc, by simpa using ha, hloc, rfl⟩
      · exact .inl rfl
    · exact .inl rfl

/-- The lookup finds the record that was learned. -/
lemma Inv.lookup (hx : Inv x) {assigned : Bool} (hpc : x.pc = .learned k assigned) :
    Inv { x with
      app := (announce x.app x.host k.info assigned).1
      pc := match (announce x.app x.host k.info assigned).2 with
        | .disseminate loc :: _ => .disseminating k loc
        | _ => .announced k } := by
  have htargets : x.transport.targets = [] := hx.targets (by simp [hpc, isSending])
  have hconf : SameConfig x.app (announce x.app x.host k.info assigned).1 :=
    announce_sameConfig assigned
  have howes := hx.owes
  have hordered := hx.ordered
  rw [hpc] at howes hordered
  rcases announce_effects x.app x.host k.info assigned with hd | ⟨loc, rfl, hloc, hd⟩
  · rw [hd]
    refine ⟨hx.ready, hx.count, trivial, fun _ => htargets, hx.nodup, fun i => ?_⟩
    refine (hordered i).mono ((bound_le _ _ _ _).trans ?_)
    simp [bound, isBefore, htargets]
  · rw [hd]
    obtain ⟨loc', hl, hf⟩ := howes
    rw [daimHostLookup_eq hx.ready, hf] at hloc
    obtain rfl := Option.some.inj hloc
    exact ⟨hx.ready, hx.count, hl.congr hconf, fun _ => htargets, hx.nodup, hordered⟩

/-- The slots chosen are different ones. -/
lemma chosen_slots (t : Slots.Transport) (loc : HostLocation) :
    ((Slots.chosen t loc).map Slots.Target.slot).Nodup := by
  rw [Slots.chosen, List.map_map]
  exact ((List.nodup_range (n := Slots.maxConnections)).filter _).map fun _ _ h => h

/-- The connections are chosen. -/
lemma Inv.select (hx : Inv x) (hpc : x.pc = .disseminating k loc) {t : Slots.Transport}
    (hst : Slots.step x.transport (.select loc) = some t) :
    Inv { x with transport := t, pc := .sending k loc } := by
  have htargets : x.transport.targets = [] := hx.targets (by simp [hpc, isSending])
  have howes := hx.owes
  have hordered := hx.ordered
  rw [hpc] at howes hordered
  cases hst
  rw [htargets, List.nil_append]
  refine ⟨hx.ready, hx.count, ⟨howes, fun g hg => ?_⟩, fun hs => absurd hs (by simp [isSending]),
    chosen_slots _ _, fun i => ?_⟩
  · obtain ⟨i, -, rfl⟩ := List.mem_map.mp hg
    rfl
  · refine (hordered i).mono (le_trans (le_of_eq ?_) (le_bound _ _ _ _))
    simp [bound, isBefore]

lemma bound_cons (n : ℕ) (g : Slots.Target) (rest : List Slots.Target) (pc : Pc) (i : ℕ) :
    bound n (g :: rest) pc i ≤ bound n rest pc i := by
  by_cases hb : isBefore pc = true ∨ i ∈ rest.map Slots.Target.slot
  · have hb' : isBefore pc = true ∨ i ∈ (g :: rest).map Slots.Target.slot :=
      hb.imp_right (List.mem_cons_of_mem _)
    rw [bound, if_pos hb', bound, if_pos hb]
  · rw [bound.eq_1 n rest, if_neg hb]
    exact bound_le _ _ _ _

/-- A chosen connection is given up. -/
lemma Inv.untarget (hx : Inv x) (hpc : x.pc = .sending k loc) :
    Inv { x with transport := x.transport.untarget 0 } := by
  rcases hts : x.transport.targets with _ | ⟨g, rest⟩
  · have heq : x.transport.untarget 0 = x.transport := by
      rw [Slots.Transport.untarget, hts, List.eraseIdx_nil, ← hts]
    rw [heq]
    exact hx
  · obtain ⟨hready, hcount, howes, -, hnodup, hordered⟩ := hx
    have heq : (x.transport.untarget 0).targets = rest := by
      simp [Slots.Transport.untarget, hts]
    rw [hts] at hordered hnodup
    rw [hts, hpc] at howes
    refine ⟨hready, hcount, ?_, fun hs => absurd hs (by simp [hpc, isSending]), ?_, fun i => ?_⟩
    · simp only [heq, hpc]
      exact ⟨howes.1, fun g' hg' => howes.2 g' (List.mem_cons_of_mem _ hg')⟩
    · simp only [heq]
      exact hnodup.of_cons
    · simp only [heq]
      exact (hordered i).mono (bound_cons _ _ _ _ _)

/-- A chosen connection is written to. -/
lemma Inv.write (hx : Inv x) (hpc : x.pc = .sending k loc) {g : Slots.Target}
    {rest : List Slots.Target} (hts : x.transport.targets = g :: rest) :
    Inv { x with
      transport := (x.transport.untarget 0).setConn g.slot
        ((x.transport.slots g.slot).conn.write .hostLocationUpdate
          (daimPeerEncodeHostLocation g.loc)) } := by
  have hu := hx.untarget hpc
  have howes := hx.owes
  rw [hts, hpc] at howes
  obtain ⟨hl, hloc⟩ := howes
  obtain rfl : g.loc = loc := hloc g (by simp)
  have heq : (x.transport.untarget 0).targets = rest := by
    simp [Slots.Transport.untarget, hts]
  refine ⟨hu.ready, hu.count, hu.owes, hu.targets, hu.nodup, fun i => ?_⟩
  by_cases hi : i = g.slot
  · subst hi
    have hbefore := hx.ordered g.slot
    rw [hts, bound, if_pos (.inr (by simp))] at hbefore
    have hmem : g.slot ∉ rest.map Slots.Target.slot := by
      have hnodup := hx.nodup
      rw [hts, List.map_cons, List.nodup_cons] at hnodup
      exact hnodup.1
    have hbound : bound x.learns rest x.pc g.slot = x.learns + 1 := by
      rw [bound, if_neg]
      simp [hpc, isBefore, hmem]
    simp only [Slots.Transport.setConn, Function.update_self, heq]
    rw [hbound]
    exact hbefore.write hl.number hl.assigned
  · simp only [Slots.Transport.setConn, Function.update_of_ne hi]
    exact hu.ordered i

/-- A connection is written to, or given up. -/
lemma Inv.send (hx : Inv x) (hpc : x.pc = .sending k loc) {t : Slots.Transport}
    (hst : Slots.step x.transport (.sendFramed 0) = some t ∨
      Slots.step x.transport (.sendFramedFail 0) = some t) : Inv { x with transport := t } := by
  rcases hst with hst | hst
  · simp only [Slots.step] at hst
    split at hst
    · cases hst
    rename_i g hg
    split_ifs at hst <;> cases hst
    · rcases hts : x.transport.targets with _ | ⟨g', rest⟩
      · simp [hts] at hg
      · obtain rfl : g' = g := by simpa [hts] using hg
        exact hx.write hpc hts
    · exact hx.untarget hpc
  · simp only [Slots.step] at hst
    split_ifs at hst
    cases hst
    exact hx.untarget hpc

/-- The packet is through with its connections. -/
lemma Inv.sent (hx : Inv x) (hts : x.transport.targets = [])
    (hp : pc = .idle ∨ pc = .announced k) : Inv { x with app := a, pc := pc } := by
  have hordered : ∀ i, Ordered (x.learns + 1) (x.transport.slots i).conn :=
    fun i => (hx.ordered i).mono (bound_le _ _ _ _)
  rcases hp with rfl | rfl
  · refine ⟨hx.ready, hx.count, trivial, fun _ => hts, hx.nodup, fun i => ?_⟩
    simpa [bound, isBefore, hts] using hordered i
  · refine ⟨hx.ready, hx.count, trivial, fun _ => hts, hx.nodup, fun i => ?_⟩
    simpa [bound, isBefore, hts] using hordered i

/-! ### Runs -/

/-- **A step keeps the invariant.** -/
lemma Inv.step {st : Step} (hx : Inv x) (hst : step x st = some y) : Inv y := by
  cases st with
  | packetIn bridge info now =>
    simp only [Dissemination.step] at hst
    split at hst
    · cases hst
      rename_i hpc _
      exact hx.packetIn hpc info now (setBridge_sameConfig bridge)
    · cases hst
      exact hx
    · cases hst
  | lookup =>
    simp only [Dissemination.step] at hst
    split at hst <;> cases hst
    rename_i hpc
    exact hx.lookup hpc
  | select =>
    simp only [Dissemination.step] at hst
    split at hst
    · rename_i hpc
      obtain ⟨t, ht, rfl⟩ := Option.map_eq_some_iff.mp hst
      exact hx.select hpc ht
    · cases hst
  | sendFramed =>
    simp only [Dissemination.step] at hst
    split at hst
    · rename_i hpc
      obtain ⟨t, ht, rfl⟩ := Option.map_eq_some_iff.mp hst
      exact hx.send hpc (.inl ht)
    · cases hst
  | sendFramedFail =>
    simp only [Dissemination.step] at hst
    split at hst
    · rename_i hpc
      obtain ⟨t, ht, rfl⟩ := Option.map_eq_some_iff.mp hst
      exact hx.send hpc (.inr ht)
    · cases hst
  | sent =>
    simp only [Dissemination.step] at hst
    split at hst <;> cases hst
    rename_i hts
    exact hx.sent hts (.inr rfl)
  | forward env =>
    simp only [Dissemination.step] at hst
    split at hst <;> cases hst
    rename_i k hpc
    exact hx.sent (k := k) (hx.targets (by simp [hpc, isSending])) (.inl rfl)
  | applyRemote u now =>
    cases hst
    exact hx.others (others_applyRemote hx.ready u now)
  | importSnapshotEntry u now =>
    cases hst
    exact hx.others (others_import hx.ready u now)
  | acquire =>
    obtain ⟨t, ht, rfl⟩ := Option.map_eq_some_iff.mp hst
    exact hx.acquire ht
  | thread i l =>
    simp only [Dissemination.step] at hst
    split_ifs at hst with hh
    obtain ⟨t, ht, rfl⟩ := Option.map_eq_some_iff.mp hst
    simp only [Slots.step] at ht
    split_ifs at ht with hl
    obtain ⟨c, hc, rfl⟩ := Option.map_eq_some_iff.mp ht
    refine hx.join ?_ rfl fun j hj => ?_
    · simp only [Slots.Transport.setConn, Function.update_self]
      refine thread_serves (z := { sent := (x.transport.slots i).got }) hx.ready hl
        (by simpa using hh) ?_
      simpa [Node.share, Slots.Transport.setConn] using hc
    · simp [Slots.Transport.setConn, Node.share, Function.update_of_ne hj]
  | receive i f now =>
    obtain ⟨t, ht, rfl⟩ := Option.map_eq_some_iff.mp hst
    obtain ⟨c, hc, rfl⟩ := Option.map_eq_some_iff.mp ht
    refine hx.join ?_ rfl fun j hj => ?_
    · simp only [Function.update_self]
      have hc' : ({ (x.transport.slots i).conn with host := x.host } : Endpoint).recv f now =
          some c := by simpa [Node.share, Slots.Transport.setConn] using hc
      exact recv_serves hx.ready hc'
    · simp [Slots.Transport.setConn, Node.share, Function.update_of_ne hj]

lemma run_inv (hr : Run node h x) : Inv x := by
  refine hr.inv Inv (fun _ => starts_inv) ?_
  intro x st y hx hst
  exact hx.step hst

/-- **Dissemination.** The record a packet passes to `daim_peer_transport_disseminate` is the
one its own learn wrote; and until the counter has wrapped, the updates written on a
connection carry increasing sequences. -/
theorem dissemination (hr : Run node h x) :
    (∀ k loc, x.pc = .disseminating k loc → Faithful x.app x.host.nodeId k loc) ∧
      (x.learns ≤ 2 ^ 64 → ∀ i, ∃ locs, Carries (x.transport.slots i).conn locs ∧
        locs.Pairwise fun a b => a.sequence < b.sequence) := by
  have hx := run_inv hr
  refine ⟨fun k loc hpc => ?_, fun hb i => ?_⟩
  · have howes := hx.owes
    rw [hpc] at howes
    exact Learned.faithful howes
  · obtain ⟨locs, hl, hn⟩ := hx.ordered i
    refine ⟨locs, hl, hn.increasing ((bound_le _ _ _ _).trans ?_)⟩
    omega

/-! ### The counter wraps -/

/-- Host 9 sends a packet on the host port. -/
def packetOfNine : NoRulePacketInfo := ⟨1, macOf 9, macOf 7, 0x800⟩

/-- Host 9 is known, and the application announces it. -/
structure Knows (x : Node) : Prop where
  registered : daimCoreEmit x.core noRule = some .distributedLearning
  transport : x.app.transport = true
  hostPort : x.app.hostPort = 1
  known : ∃ r, find x.host.table (macOf 9) = some r

lemma Knows.congr (hx : Knows x) (hcore : y.core = x.core) (hc : SameConfig x.app y.app)
    (hk : ∃ r, find y.host.table (macOf 9) = some r) : Knows y :=
  ⟨hcore ▸ hx.registered, hc.transport.trans hx.transport, hc.hostPort.trans hx.hostPort, hk⟩

/-- A packet of host 9 learns it again. -/
lemma learn_nine (hr : Run node h x) (hx : Knows x) (hpc : x.pc = .idle) :
    ∃ h' y k, Run node h' y ∧ Knows y ∧ y.transport = x.transport ∧ y.learns = x.learns + 1 ∧
      y.pc = .learned k (decide ((x.learns + 1) % 2 ^ 64 ≠ 0)) := by
  have hi := run_inv hr
  have hst := show step x (.packetIn [] packetOfNine 5) = some { x with
      app := (learnSource (x.app.setBridge []) x.host packetOfNine 5).1
      host := (learnSource (x.app.setBridge []) x.host packetOfNine 5).2.1
      pc := .learned ⟨packetOfNine, 5, x.host⟩
        (learnSource (x.app.setBridge []) x.host packetOfNine 5).2.2
      learns := x.learns + 1 } by
    simp [step, hpc, hx.registered, hx.hostPort, packetOfNine]
  have hconf : SameConfig x.app (learnSource (x.app.setBridge []) x.host packetOfNine 5).1 :=
    (setBridge_sameConfig []).trans (learnSource_sameConfig 5)
  have hp : packetOfNine.inPort = (x.app.setBridge []).hostPort := hx.hostPort.symm
  obtain ⟨r, hf⟩ := hx.known
  have hl := daimHostLearnLocal_learns hi.ready packetOfNine.macSrc (x.app.setBridge []).myDpid
    packetOfNine.inPort.toUInt32 5
  have hnumber : x.host.nextLocalSequence ≠ 0 ↔ (x.learns + 1) % 2 ^ 64 ≠ 0 := by
    rw [← hi.count, ne_eq, ← UInt64.toNat_inj, UInt64.toNat_zero]
  have hlearned : (∃ r, find (learnSource (x.app.setBridge []) x.host packetOfNine 5).2.1.table
      (macOf 9) = some r) ∧ (learnSource (x.app.setBridge []) x.host packetOfNine 5).2.2 =
        decide ((x.learns + 1) % 2 ^ 64 ≠ 0) := by
    rw [learnSource_eq, if_pos hp]
    generalize daimHostLearnLocal x.host (some packetOfNine.macSrc) (x.app.setBridge []).myDpid
      packetOfNine.inPort.toUInt32 5 = q at hl ⊢
    cases hl with
    | full hf' =>
      rw [show packetOfNine.macSrc = macOf 9 from rfl, hf] at hf'
      cases hf'
    | learned hroom =>
      refine ⟨⟨_, (find_write _ _ _).trans (if_pos rfl)⟩, ?_⟩
      simp only [hnumber]
  refine ⟨_, _, ⟨packetOfNine, 5, x.host⟩, hr.step hst, hx.congr rfl hconf hlearned.1, rfl, rfl, ?_⟩
  rw [hlearned.2]

/-- It is announced, unless its sequence is `0`. -/
lemma announce_nine (hr : Run node h x) (hx : Knows x) (hpc : x.pc = .idle) :
    ∃ h' y k, Run node h' y ∧ Knows y ∧ y.transport = x.transport ∧ y.learns = x.learns + 1 ∧
      if (x.learns + 1) % 2 ^ 64 = 0 then y.pc = .announced k
      else ∃ loc, y.pc = .disseminating k loc := by
  obtain ⟨h', y, k, hry, hy, ht, hn, hpcy⟩ := learn_nine hr hx hpc
  have hi := run_inv hry
  have hst := show step y .lookup = some { y with
      app := (announce y.app y.host k.info (decide ((x.learns + 1) % 2 ^ 64 ≠ 0))).1
      pc := match (announce y.app y.host k.info (decide ((x.learns + 1) % 2 ^ 64 ≠ 0))).2 with
        | .disseminate loc :: _ => .disseminating k loc
        | _ => .announced k } by
    simp only [step, hpcy]
  have hconf : SameConfig y.app
      (announce y.app y.host k.info (decide ((x.learns + 1) % 2 ^ 64 ≠ 0))).1 :=
    announce_sameConfig _
  refine ⟨_, _, k, hry.step hst, hy.congr rfl hconf hy.known, ht, hn, ?_⟩
  by_cases h0 : (x.learns + 1) % 2 ^ 64 = 0
  · rw [if_pos h0, decide_eq_false (not_not.mpr h0)]
    rfl
  · have howes := hi.owes
    rw [hpcy, decide_eq_true h0] at howes
    obtain ⟨loc, -, hf⟩ := howes
    rw [if_neg h0, decide_eq_true h0]
    refine ⟨loc, ?_⟩
    simp [announce, daimHostLookup_eq hi.ready, hf, hy.transport]

/-- The connections that were chosen are given up. -/
lemma give_up {ts : List Slots.Target} (hr : Run node h x) (hpc : x.pc = .sending k loc)
    (hts : x.transport.targets = ts) :
    ∃ h', Run node h' { x with transport := { x.transport with targets := [] } } := by
  induction ts generalizing h x with
  | nil => exact ⟨h, by simpa [← hts] using hr⟩
  | cons g rest ih =>
    have hst : step x .sendFramedFail =
        some { x with transport := { x.transport with targets := rest } } := by
      simp [step, hpc, Slots.step, hts, Slots.Transport.untarget]
    exact ih (x := { x with transport := { x.transport with targets := rest } }) (hr.step hst)
      hpc rfl

/-- The packet is forwarded. -/
lemma finish (hr : Run node h x) (hx : Knows x) (hpc : x.pc = .announced k) :
    ∃ h' y, Run node h' y ∧ Knows y ∧ y.transport = x.transport ∧ y.learns = x.learns ∧
      y.pc = .idle := by
  have hst := show step x (.forward ⟨6, true⟩) = some { x with
      app := (LearningApp.forward x.app x.host k.info ⟨6, true⟩).1, pc := .idle } by
    simp only [step, hpc]
  exact ⟨_, _, hr.step hst, hx.congr rfl forward_sameConfig hx.known, rfl, rfl, rfl⟩

/-- The connections are chosen for the record of host 9. -/
lemma select_nine (hr : Run node h x) (hx : Knows x) (hpc : x.pc = .idle)
    (h0 : (x.learns + 1) % 2 ^ 64 ≠ 0) :
    ∃ h' y k loc, Run node h' y ∧ Knows y ∧ y.learns = x.learns + 1 ∧ y.pc = .sending k loc ∧
      y.transport = { x.transport with targets := Slots.chosen x.transport loc } := by
  obtain ⟨h', y, k, hry, hy, ht, hn, hpcy⟩ := announce_nine hr hx hpc
  rw [if_neg h0] at hpcy
  obtain ⟨loc, hpcy⟩ := hpcy
  have htargets : x.transport.targets = [] := (run_inv hr).targets (by simp [hpc, isSending])
  have hst := show step y .select = some { y with
      transport := { y.transport with
        targets := y.transport.targets ++ Slots.chosen y.transport loc }
      pc := .sending k loc } by
    simp only [step, hpcy, Slots.step, Option.map_some]
  refine ⟨_, _, k, loc, hry.step hst,
    hy.congr rfl ⟨rfl, rfl, rfl, rfl, rfl, rfl, rfl, rfl⟩ hy.known,
    hn, rfl, ?_⟩
  simp [ht, htargets]

/-- A packet of host 9 can be handled without a frame being written. -/
lemma handle_nine (hr : Run node h x) (hx : Knows x) (hpc : x.pc = .idle) :
    ∃ h' y, Run node h' y ∧ Knows y ∧ y.transport = x.transport ∧ y.learns = x.learns + 1 ∧
      y.pc = .idle := by
  have htargets : x.transport.targets = [] := (run_inv hr).targets (by simp [hpc, isSending])
  by_cases h0 : (x.learns + 1) % 2 ^ 64 = 0
  · obtain ⟨h', y, k, hry, hy, ht, hn, hpcy⟩ := announce_nine hr hx hpc
    rw [if_pos h0] at hpcy
    obtain ⟨h2, z, hrz, hz, ht', hn', hpcz⟩ := finish hry hy hpcy
    exact ⟨h2, z, hrz, hz, ht'.trans ht, hn'.trans hn, hpcz⟩
  · obtain ⟨h', y, k, loc, hry, hy, hn, hpcy, ht⟩ := select_nine hr hx hpc h0
    obtain ⟨h2, hrz⟩ := give_up hry hpcy rfl
    have hst := show step { y with transport := { y.transport with targets := [] } } .sent =
        some { y with transport := { y.transport with targets := [] }, pc := .announced k } by
      simp only [step, hpcy]
    have hyc : Knows { y with
        transport := { y.transport with targets := [] }, pc := .announced k } :=
      hy.congr rfl ⟨rfl, rfl, rfl, rfl, rfl, rfl, rfl, rfl⟩ hy.known
    obtain ⟨h3, z, hrz', hz, ht', hn', hpcz⟩ := finish (hrz.step hst) hyc rfl
    refine ⟨h3, z, hrz', hz, ?_, hn'.trans hn, hpcz⟩
    rw [ht', ht, ← htargets]

/-- Any number of packets of host 9. -/
lemma handle_many (hr : Run node h x) (hx : Knows x) (hpc : x.pc = .idle) (m : ℕ) :
    ∃ h' y, Run node h' y ∧ Knows y ∧ y.transport = x.transport ∧ y.learns = x.learns + m ∧
      y.pc = .idle := by
  induction m with
  | zero => exact ⟨h, x, hr, hx, rfl, rfl, hpc⟩
  | succ m ih =>
    obtain ⟨h', y, hry, hy, ht, hn, hpcy⟩ := ih
    obtain ⟨h2, z, hrz, hz, ht', hn', hpcz⟩ := handle_nine hry hy hpcy
    exact ⟨h2, z, hrz, hz, ht'.trans ht, by omega, hpcz⟩

/-- Node 1, with its host on port 1. -/
def fresh : Node where
  core := daimSignal (daimInit {}) noRule (some .distributedLearning)
  app :=
    { ready := true, transport := true, myNodeId := 1, myDpid := 1, hostPort := 1,
      chainOrder := [1, 2], portTowardLower := 2, portTowardHigher := 3 }
  host := daimHostStateInit {} 1 7
  transport := { nodeId := 1, ownerEpoch := 7 }

lemma fresh_starts : Starts fresh :=
  ⟨by decide, rfl, ⟨{}, 1, 7, rfl⟩, ⟨1, 7, rfl⟩, rfl, rfl⟩

/-- A connection in slot 0, from its `HELLO` until it is ready. -/
def connecting : List Step :=
  [.acquire, .thread 0 .send, .receive 0 ⟨.hello, 2, []⟩ 1, .thread 0 .send,
    .receive 0 ⟨.stateSnapshotRequest, 2, []⟩ 2, .thread 0 .exportSnapshot, .thread 0 .send,
    .receive 0 ⟨.stateSnapshotEnd, 2, []⟩ 3, .thread 0 (.replayNext 4), .thread 0 .setReady]

/-- Host 9 is learned and announced. -/
def announcing : List Step :=
  [.packetIn [] packetOfNine 5, .lookup, .select, .sendFramed, .sent, .forward ⟨6, true⟩]

/-- The record of host 9 with the first sequence. -/
def nine : HostLocation := localRecord (daimHostStateInit {} 1 7) (macOf 9) 1 1 5

theorem dissemination_announced : ∃ h x, Run node h x ∧
    (updates (x.transport.slots 0).conn).length = 1 ∧
    ∃ locs, Carries (x.transport.slots 0).conn locs ∧
      locs.Pairwise fun a b => a.sequence < b.sequence := by
  obtain ⟨h, x, hr, hp⟩ := exists_run_of_replay (f := step) (connecting ++ announcing) fresh_starts
    (fun _ x => x.learns = 1 ∧ (updates (x.transport.slots 0).conn).length = 1) (by decide)
  obtain ⟨hn, hl⟩ := hp
  exact ⟨h, x, hr, hl, (dissemination hr).2 (by omega) 0⟩

/-- The node after the first announcement: slot 0 alone is ready, and carries `nine`. -/
lemma announced_once : ∃ h x, Run node h x ∧ Knows x ∧ x.pc = .idle ∧ x.learns = 1 ∧
    (∀ loc, Slots.chosen x.transport loc = [⟨0, (x.transport.slots 0).generation, loc⟩]) ∧
    (x.transport.slots 0).conn.active = true ∧ Carries (x.transport.slots 0).conn [nine] := by
  obtain ⟨h, x, hr, hp⟩ := exists_run_of_replay (f := step) (connecting ++ announcing) fresh_starts
    (fun _ x => daimCoreEmit x.core noRule = some .distributedLearning ∧
      x.app.transport = true ∧ x.app.hostPort = 1 ∧ (find x.host.table (macOf 9)).isSome = true ∧
      x.pc = .idle ∧ x.learns = 1 ∧
      ((List.range Slots.maxConnections).filter fun i =>
        (x.transport.slots i).conn.active && (x.transport.slots i).conn.ready) = [0] ∧
      (x.transport.slots 0).conn.active = true ∧
      (updates (x.transport.slots 0).conn).map Frame.payload =
        [nine].map daimPeerEncodeHostLocation) (by decide)
  obtain ⟨hreg, htr, hport, hknown, hpc, hn, hch, hact, hcar⟩ := hp
  refine ⟨h, x, hr, ⟨hreg, htr, hport, Option.isSome_iff_exists.mp hknown⟩, hpc, hn, fun loc => ?_,
    hact, hcar⟩
  rw [Slots.chosen, hch]
  rfl

lemma encode_injective : Function.Injective daimPeerEncodeHostLocation := fun a b hab => by
  have hd := congrArg daimPeerDecodeHostLocation hab
  rw [decode_encode, decode_encode] at hd
  exact Option.some.inj hd

/-- After `2 ^ 64` more learns the first sequence is announced again, on the same
connection. -/
theorem sequence_repeats : ∃ h x i, Run node h x ∧
    ¬ ∃ locs, Carries (x.transport.slots i).conn locs ∧
      locs.Pairwise fun a b => a.sequence < b.sequence := by
  obtain ⟨h, x, hr, hx, hpc, hn, hch, hact, hcar⟩ := announced_once
  obtain ⟨h', y, hry, hy, hty, hny, hpcy⟩ := handle_many hr hx hpc (2 ^ 64 - 1)
  obtain ⟨h2, z, k, loc, hrz, -, hnz, hpcz, htz⟩ := select_nine hry hy hpcy (by omega)
  rw [hty, hch] at htz
  -- the record about to be written carries the first sequence
  have howes := (run_inv hrz).owes
  rw [hpcz] at howes
  have hseq : loc.sequence.toNat = 1 := by
    rw [howes.1.number]
    omega
  have hst := show step z .sendFramed = some { z with
      transport := ({ x.transport with targets := [] }).setConn 0
        ((x.transport.slots 0).conn.write .hostLocationUpdate (daimPeerEncodeHostLocation loc)) } by
    simp [step, hpcz, Slots.step, htz, hact, Slots.Transport.untarget]
  refine ⟨_, _, 0, hrz.step hst, ?_⟩
  rintro ⟨locs, hl, hp⟩
  have hpay : locs.map daimPeerEncodeHostLocation =
      [nine, loc].map daimPeerEncodeHostLocation := by
    rw [← hl]
    simp only [Carries, updates] at hcar
    simp [updates, Slots.Transport.setConn, Endpoint.write, List.filter_append, hcar]
  obtain rfl := List.map_injective_iff.mpr encode_injective hpay
  have hlt : nine.sequence < loc.sequence :=
    List.rel_of_pairwise_cons hp (List.mem_singleton.mpr rfl)
  rw [UInt64.lt_iff_toNat_lt, hseq] at hlt
  exact absurd hlt (by decide)

end DaimDistributed.Dissemination
