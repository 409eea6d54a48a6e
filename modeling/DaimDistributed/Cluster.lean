import Mathlib.Logic.Function.Basic
import DaimDistributed.LearningApp
import DaimDistributed.Merge
import DaimDistributed.Protocol

/-!
A cluster of nodes, and where its host claims come from.

Every node runs the learning application over its own host table. A payload that was sent
once can be handed to any node, through either path, any number of times and at any time,
or never: this covers loss, duplication and reordering, and a relay is an export of what
was imported. Every record there is can be traced to one learn of its origin.
-/

namespace DaimDistributed.Cluster

open HostState HostTable LearningApp Merge Protocol Transitions

/-- Where the thread is that runs `on_no_rule`. -/
inductive Pc
  | idle
  | learned (info : NoRulePacketInfo) (assigned : Bool)
  | announced (info : NoRulePacketInfo)

structure Node where
  app : AppState := {}
  state : State := {}
  pc : Pc := .idle

/-- The nodes by their ids, and the payloads that were ever sent. -/
structure World where
  node : UInt64 → Node := fun _ => {}
  net : List (List UInt8) := []

inductive Step
  | boot (k ownerEpoch : UInt64) (app : AppState)
  | packetIn (k : UInt64) (info : NoRulePacketInfo) (now : UInt64)
  | announce (k : UInt64)
  | forward (k : UInt64) (env : Env)
  | exportSnapshot (k : UInt64)
  | deliver (j : UInt64) (path : Path) (payload : List UInt8) (now : UInt64)

def World.set (c : World) (k : UInt64) (x : Node) : World :=
  { c with node := Function.update c.node k x }

/-- The payloads of the updates among some effects. -/
def payloads (effects : List Effect) : List (List UInt8) :=
  effects.filterMap fun
    | .disseminate loc => some (daimPeerEncodeHostLocation loc)
    | _ => none

def step (c : World) : Step → Option World
  | .boot k ownerEpoch app =>
    if k ≠ 0 ∧ app.myNodeId = k then
      some (c.set k ⟨app, daimHostStateInit {} k ownerEpoch, .idle⟩)
    else none
  | .packetIn k info now =>
    match (c.node k).pc with
    | .idle =>
      let l := learnSource (c.node k).app (c.node k).state info now
      some (c.set k ⟨l.1, l.2.1, .learned info l.2.2⟩)
    | _ => none
  | .announce k =>
    match (c.node k).pc with
    | .learned info assigned =>
      let d := LearningApp.announce (c.node k).app (c.node k).state info assigned
      some { c.set k ⟨d.1, (c.node k).state, .announced info⟩ with net := c.net ++ payloads d.2 }
    | _ => none
  | .forward k env =>
    match (c.node k).pc with
    | .announced info =>
      some (c.set k
        ⟨(LearningApp.forward (c.node k).app (c.node k).state info env).1, (c.node k).state,
          .idle⟩)
    | _ => none
  | .exportSnapshot k =>
    match daimHostExportSnapshot (c.node k).state with
    | some rs => some { c with net := c.net ++ rs.map daimPeerEncodeHostLocation }
    | none => none
  | .deliver j path payload now =>
    if payload ∈ c.net then
      match daimPeerDecodeHostLocation payload with
      | some u =>
        some (c.set j { c.node j with state := Merge.deliver (c.node j).state ⟨path, u, now⟩ })
      | none => some c
    else none

/-- A cluster in which no node has been started yet. -/
def cluster : Lts World Step := ofFun (· = {}) step

/-! ### What a run did -/

/-- The claim a step makes its node issue: the packet came in on the host port, and the
learn succeeded. -/
def issuedBy (c : World) : Step → Option Claim
  | .packetIn k info now =>
    if info.inPort = (c.node k).app.hostPort ∧
        (daimHostLearnLocal (c.node k).state (some info.macSrc) (c.node k).app.myDpid
          info.inPort.toUInt32 now).2 ≠ 0 then
      some (claim (localRecord (c.node k).state info.macSrc (c.node k).app.myDpid
        info.inPort.toUInt32 now))
    else none
  | _ => none

def issued (h : List (World × Step)) : List Claim := h.filterMap fun p => issuedBy p.1 p.2

def bootedBy : Step → Option (UInt64 × UInt64)
  | .boot k ownerEpoch _ => some (k, ownerEpoch)
  | _ => none

/-- The pairs of node id and owner epoch that were initialised. -/
def boots (h : List (World × Step)) : List (UInt64 × UInt64) :=
  h.filterMap fun p => bootedBy p.2

/-- A call of `daim_host_learn_local` at node `k` in epoch `e`. -/
def isLearn (k e : UInt64) (c : World) : Step → Bool
  | .packetIn k' info _ =>
    k' = k && (c.node k).state.ready && (c.node k).state.ownerEpoch = e &&
      info.inPort = (c.node k).app.hostPort
  | _ => false

def learns (k e : UInt64) (h : List (World × Step)) : ℕ := h.countP fun p => isLearn k e p.1 p.2

/-- A record in a table or in flight. -/
def Present (c : World) (r : HostLocation) : Prop :=
  (∃ k, r ∈ (c.node k).state.table) ∨ ∃ payload ∈ c.net, daimPeerDecodeHostLocation payload = some r

variable {h : List (World × Step)} {c c' : World} {st : Step} {k e : UInt64} {r : HostLocation}

lemma issued_snoc (h : List (World × Step)) (c : World) (st : Step) :
    issued (h ++ [(c, st)]) = issued h ++ (issuedBy c st).toList := by
  cases hs : issuedBy c st <;> simp [issued, hs]

lemma boots_snoc (h : List (World × Step)) (c : World) (st : Step) :
    boots (h ++ [(c, st)]) = boots h ++ (bootedBy st).toList := by
  cases hs : bootedBy st <;> simp [boots, hs]

lemma boots_le (h : List (World × Step)) (c : World) (st : Step) :
    boots h ⊆ boots (h ++ [(c, st)]) := by
  rw [boots_snoc]
  exact List.subset_append_left _ _

lemma learns_snoc (h : List (World × Step)) (c : World) (st : Step) :
    learns k e (h ++ [(c, st)]) = learns k e h + if isLearn k e c st then 1 else 0 := by
  simp [learns, List.countP_append, List.countP_cons]

lemma learns_le (h : List (World × Step)) (c : World) (st : Step) :
    learns k e h ≤ learns k e (h ++ [(c, st)]) := by
  rw [learns_snoc]
  omega

@[simp] lemma set_node_self (c : World) (k : UInt64) (x : Node) : (c.set k x).node k = x := by
  simp [World.set]

lemma set_node_of_ne (c : World) (x : Node) {k j : UInt64} (hj : j ≠ k) :
    (c.set k x).node j = c.node j := by simp [World.set, hj]

@[simp] lemma set_net (c : World) (k : UInt64) (x : Node) : (c.set k x).net = c.net := rfl

/-! ### The invariant -/

/-- What orders the claims of one node and epoch. -/
def key (x : Claim) : UInt64 × UInt64 × UInt64 := (x.originNodeId, x.ownerEpoch, x.sequence)

/-- The identity of a running node, and its counter: ahead of what the epoch has issued, and
not wrapped. -/
structure NodeOk (h : List (World × Step)) (k : UInt64) (s : State) : Prop where
  nodeId : s.nodeId = k
  booted : (k, s.ownerEpoch) ∈ boots h
  pos : 1 ≤ s.nextLocalSequence.toNat
  le : s.nextLocalSequence.toNat ≤ 1 + learns k s.ownerEpoch h
  ahead : ∀ x ∈ issued h, x.originNodeId = k → x.ownerEpoch = s.ownerEpoch →
    x.sequence < s.nextLocalSequence

structure Inv (h : List (World × Step)) (c : World) : Prop where
  present : ∀ r, Present c r → claim r ∈ issued h
  epochs : ∀ x ∈ issued h, (x.originNodeId, x.ownerEpoch) ∈ boots h
  keys : ((issued h).map key).Nodup
  node : ∀ k, (c.node k).state.ready = true → NodeOk h k (c.node k).state

/-- A node's identity and counter in two states. -/
structure SameNode (s s' : State) : Prop where
  ready : s'.ready = s.ready
  nodeId : s'.nodeId = s.nodeId
  ownerEpoch : s'.ownerEpoch = s.ownerEpoch
  next : s'.nextLocalSequence = s.nextLocalSequence

/-- A step that issues nothing and starts nothing keeps a node as it was. -/
lemma NodeOk.quiet {s s' : State} (ho : NodeOk h k s) (hs : SameNode s s')
    (hi : issuedBy c st = none) : NodeOk (h ++ [(c, st)]) k s' := by
  obtain ⟨h1, h2, h3, h4, h5⟩ := ho
  have hle := learns_le (k := k) (e := s.ownerEpoch) h c st
  refine ⟨hs.nodeId.trans h1, ?_, hs.next ▸ h3, ?_, ?_⟩
  · rw [hs.ownerEpoch]
    exact boots_le h c st h2
  · rw [hs.next, hs.ownerEpoch]
    omega
  · simpa [issued_snoc, hi, hs.next, hs.ownerEpoch] using h5

/-- Such a step keeps the invariant if it makes up no claims. -/
lemma Inv.quiet (hinv : Inv h c) (hi : issuedBy c st = none)
    (hp : ∀ r, Present c' r → ∃ r', Present c r' ∧ claim r' = claim r)
    (hs : ∀ k, SameNode (c.node k).state (c'.node k).state) : Inv (h ++ [(c, st)]) c' := by
  have his : issued (h ++ [(c, st)]) = issued h := by simp [issued_snoc, hi]
  refine ⟨fun r hr => ?_, fun x hx => ?_, ?_, fun k hk => ?_⟩
  · obtain ⟨r', hr', hc⟩ := hp r hr
    rw [his, ← hc]
    exact hinv.present r' hr'
  · exact boots_le h c st (hinv.epochs x (his ▸ hx))
  · rw [his]
    exact hinv.keys
  · exact (hinv.node k ((hs k).ready ▸ hk)).quiet (hs k) hi

lemma SameNode.rfl {s : State} : SameNode s s := ⟨Eq.refl _, Eq.refl _, Eq.refl _, Eq.refl _⟩

/-- Setting a node leaves the others as they are. -/
lemma sameNode_set {x : Node} (hx : SameNode (c.node k).state x.state) (j : UInt64) :
    SameNode (c.node j).state ((c.set k x).node j).state := by
  by_cases hj : j = k
  · subst hj
    rwa [set_node_self]
  · rw [set_node_of_ne c x hj]
    exact .rfl

/-- A record present after a node was set was there before, or is in the node's new table. -/
lemma present_set {x : Node} (hr : Present (c.set k x) r) : r ∈ x.state.table ∨ Present c r := by
  rcases hr with ⟨j, hj⟩ | hr
  · by_cases hjk : j = k
    · subst hjk
      rw [set_node_self] at hj
      exact .inl hj
    · rw [set_node_of_ne c x hjk] at hj
      exact .inr (.inl ⟨j, hj⟩)
  · exact .inr (.inr hr)

/-- Sending what is present adds nothing new. -/
lemma present_send (rs : List HostLocation) (hrs : ∀ x ∈ rs, Present c x)
    (hr : Present { c with net := c.net ++ rs.map daimPeerEncodeHostLocation } r) :
    Present c r := by
  rcases hr with hr | ⟨payload, hp, hd⟩
  · exact .inl hr
  · rcases List.mem_append.mp hp with hp | hp
    · exact .inr ⟨payload, hp, hd⟩
    · obtain ⟨x, hx, rfl⟩ := List.mem_map.mp hp
      rw [decode_encode] at hd
      exact Option.some.inj hd ▸ hrs x hx

/-- What is announced is in the table. -/
lemma payloads_announce (a : AppState) (s : State) (info : NoRulePacketInfo) (b : Bool) :
    ∃ rs : List HostLocation, payloads (LearningApp.announce a s info b).2 =
      rs.map daimPeerEncodeHostLocation ∧ ∀ x ∈ rs, x ∈ s.table := by
  unfold LearningApp.announce
  split
  · exact ⟨[], rfl, by simp⟩
  · split
    · rename_i loc hloc
      split
      · refine ⟨[loc], rfl, fun x hx => ?_⟩
        obtain rfl : x = loc := by simpa using hx
        by_cases hs : s.ready = true
        · rw [daimHostLookup_eq hs] at hloc
          exact find_mem hloc
        · simp [daimHostLookup, hs] at hloc
      · exact ⟨[], rfl, by simp⟩
    · exact ⟨[], rfl, by simp⟩

/-- A delivery to a node that is not initialised does nothing. -/
lemma deliver_not_ready {s : State} (hs : s.ready = false) (d : Delivery) :
    Merge.deliver s d = s := by
  unfold Merge.deliver
  cases d.path <;> simp [daimHostApplyRemote, daimHostImportSnapshotEntry, hs]

/-- A delivery writes nothing but the update's claim. -/
lemma deliver_same (s : State) (d : Delivery) : SameNode s (Merge.deliver s d) ∧
    ∀ r ∈ (Merge.deliver s d).table, r ∈ s.table ∨ claim r = claim d.update := by
  by_cases hs : s.ready = true
  case neg =>
    rw [deliver_not_ready (by simpa using hs)]
    exact ⟨.rfl, fun r hr => .inl hr⟩
  case pos =>
    obtain ⟨res, ha⟩ := deliver_applies hs d
    have hf : Merge.deliver s d = _ := ha.frame
    exact ⟨⟨by rw [hf], by rw [hf], by rw [hf], by rw [hf]⟩, fun r hr => ha.mem hr⟩

/-! ### The steps -/

lemma Inv.boot {app : AppState} (hinv : Inv h c) (hf : (k, e) ∉ boots h) :
    Inv (h ++ [(c, .boot k e app)]) (c.set k ⟨app, daimHostStateInit {} k e, .idle⟩) := by
  have his : issued (h ++ [(c, .boot k e app)]) = issued h := by simp [issued_snoc, issuedBy]
  refine ⟨fun r hr => ?_, fun x hx => ?_, his ▸ hinv.keys, fun j hj => ?_⟩
  · rw [his]
    rcases present_set hr with hr | hr
    · simp [daimHostStateInit] at hr
    · exact hinv.present r hr
  · exact boots_le _ _ _ (hinv.epochs x (his ▸ hx))
  · by_cases hjk : j = k
    · subst hjk
      rw [set_node_self]
      refine ⟨rfl, by simp [boots_snoc, bootedBy, daimHostStateInit], by simp [daimHostStateInit],
        by simp [daimHostStateInit], fun x hx ho he => ?_⟩
      refine absurd (hinv.epochs x (his ▸ hx)) ?_
      rwa [ho, he]
    · rw [set_node_of_ne c _ hjk] at hj ⊢
      exact (hinv.node j hj).quiet .rfl rfl

/-- A learn that issues `o`: the counter moves on, and the table gets what is issued. -/
lemma Inv.learn {info : NoRulePacketInfo} {now : UInt64} {x : Node} (hinv : Inv h c)
    (hready : (c.node k).state.ready = true) (hport : info.inPort = (c.node k).app.hostPort)
    (hb : learns k (c.node k).state.ownerEpoch (h ++ [(c, .packetIn k info now)]) < 2 ^ 64 - 1)
    (hx : SameNode { (c.node k).state with
      nextLocalSequence := (c.node k).state.nextLocalSequence + 1 } x.state)
    (ht : ∀ r ∈ x.state.table, r ∈ (c.node k).state.table ∨
      claim r ∈ issuedBy c (.packetIn k info now)) :
    Inv (h ++ [(c, .packetIn k info now)]) (c.set k x) := by
  obtain ⟨h1, h2, h3, h4, h5⟩ := hinv.node k hready
  have hxe : x.state.ownerEpoch = (c.node k).state.ownerEpoch := hx.ownerEpoch
  have hxn : x.state.nextLocalSequence = (c.node k).state.nextLocalSequence + 1 := hx.next
  have hcount : isLearn k (c.node k).state.ownerEpoch c (.packetIn k info now) = true := by
    simp [isLearn, hready, hport]
  rw [learns_snoc, hcount, if_pos rfl] at hb
  have hto : ((c.node k).state.nextLocalSequence + 1).toNat =
      (c.node k).state.nextLocalSequence.toNat + 1 := by
    rw [UInt64.toNat_add, UInt64.toNat_one]
    omega
  have hlt : (c.node k).state.nextLocalSequence < (c.node k).state.nextLocalSequence + 1 := by
    rw [UInt64.lt_iff_toNat_lt, hto]
    omega
  have hnew : ∀ y ∈ issuedBy c (.packetIn k info now),
      key y = (k, (c.node k).state.ownerEpoch, (c.node k).state.nextLocalSequence) := by
    intro y hy
    simp only [issuedBy, Option.mem_def, Option.ite_none_right_eq_some, Option.some.injEq] at hy
    obtain ⟨-, rfl⟩ := hy
    simp [key, claim, localRecord, h1]
  refine ⟨fun r hr => ?_, fun y hy => ?_, ?_, fun j hj => ?_⟩
  · rw [issued_snoc, List.mem_append, Option.mem_toList]
    rcases present_set hr with hr | hr
    · exact (ht r hr).imp_left fun hr => hinv.present r (.inl ⟨k, hr⟩)
    · exact .inl (hinv.present r hr)
  · refine boots_le _ _ _ ?_
    rw [issued_snoc, List.mem_append, Option.mem_toList] at hy
    rcases hy with hy | hy
    · exact hinv.epochs y hy
    · have hk := hnew y hy
      simp only [key, Prod.mk.injEq] at hk
      rw [hk.1, hk.2.1]
      exact h2
  · rw [issued_snoc, List.map_append, List.nodup_append]
    refine ⟨hinv.keys, by cases issuedBy c (.packetIn k info now) <;> simp, ?_⟩
    rintro _ hy1 _ hy2 rfl
    obtain ⟨y1, hm1, he⟩ := List.mem_map.mp hy1
    obtain ⟨y2, hm2, he2⟩ := List.mem_map.mp hy2
    rw [← he2, hnew y2 (Option.mem_toList.mp hm2)] at he
    simp only [key, Prod.mk.injEq] at he
    have := h5 y1 hm1 he.1 he.2.1
    rw [he.2.2] at this
    exact UInt64.lt_irrefl _ this
  · by_cases hjk : j = k
    · subst hjk
      rw [set_node_self]
      refine ⟨hx.nodeId.trans h1, ?_, ?_, ?_, fun y hy ho he => ?_⟩
      · rw [hxe]
        exact boots_le _ _ _ h2
      · rw [hxn, hto]
        omega
      · rw [hxn, hxe, learns_snoc, hcount, if_pos rfl, hto]
        omega
      · rw [hxn]
        rw [issued_snoc, List.mem_append, Option.mem_toList] at hy
        rcases hy with hy | hy
        · exact UInt64.lt_trans (h5 y hy ho (he.trans hxe)) hlt
        · have hk := hnew y hy
          simp only [key, Prod.mk.injEq] at hk
          rw [hk.2.2]
          exact hlt
    · rw [set_node_of_ne c _ hjk] at hj ⊢
      obtain ⟨g1, g2, g3, g4, g5⟩ := hinv.node j hj
      have hle := learns_le (k := j) (e := (c.node j).state.ownerEpoch) h c (.packetIn k info now)
      refine ⟨g1, boots_le _ _ _ g2, g3, by omega, fun y hy ho he => ?_⟩
      rw [issued_snoc, List.mem_append, Option.mem_toList] at hy
      rcases hy with hy | hy
      · exact g5 y hy ho he
      · have hk := hnew y hy
        simp only [key, Prod.mk.injEq] at hk
        exact absurd (ho.symm.trans hk.1) hjk

lemma Inv.packetIn {info : NoRulePacketInfo} {now : UInt64} (hinv : Inv h c)
    (hb : learns k (c.node k).state.ownerEpoch (h ++ [(c, .packetIn k info now)]) < 2 ^ 64 - 1)
    (pc : Pc) : Inv (h ++ [(c, .packetIn k info now)])
      (c.set k ⟨(learnSource (c.node k).app (c.node k).state info now).1,
        (learnSource (c.node k).app (c.node k).state info now).2.1, pc⟩) := by
  have hquiet : issuedBy c (.packetIn k info now) = none →
      (learnSource (c.node k).app (c.node k).state info now).2.1 = (c.node k).state →
      Inv (h ++ [(c, .packetIn k info now)])
        (c.set k ⟨(learnSource (c.node k).app (c.node k).state info now).1,
          (learnSource (c.node k).app (c.node k).state info now).2.1, pc⟩) := by
    intro hi hs
    rw [hs]
    refine hinv.quiet hi (fun r hr => ⟨r, ?_, rfl⟩) (sameNode_set .rfl)
    exact (present_set hr).elim (fun hr => .inl ⟨k, hr⟩) id
  by_cases hport : info.inPort = (c.node k).app.hostPort
  case neg => exact hquiet (by simp [issuedBy, hport]) (by simp [learnSource, hport])
  case pos =>
    have hst : (learnSource (c.node k).app (c.node k).state info now).2.1 =
        (daimHostLearnLocal (c.node k).state (some info.macSrc) (c.node k).app.myDpid
          info.inPort.toUInt32 now).1 := by
      simp only [learnSource, hport, if_true]
      split_ifs <;> rfl
    by_cases hready : (c.node k).state.ready = true
    case neg =>
      refine hquiet ?_ (hst.trans ?_) <;>
        simp [issuedBy, daimHostLearnLocal, hready]
    case pos =>
      have hl := daimHostLearnLocal_learns hready info.macSrc (c.node k).app.myDpid
        info.inPort.toUInt32 now
      have his : issuedBy c (.packetIn k info now) = if (daimHostLearnLocal (c.node k).state
          (some info.macSrc) (c.node k).app.myDpid info.inPort.toUInt32 now).2 ≠ 0 then
            some (claim (localRecord (c.node k).state info.macSrc (c.node k).app.myDpid
              info.inPort.toUInt32 now)) else none := by simp [issuedBy, hport]
      rw [hst]
      generalize daimHostLearnLocal (c.node k).state (some info.macSrc) (c.node k).app.myDpid
        info.inPort.toUInt32 now = p at hl his ⊢
      cases hl with
      | full hf hl =>
        exact hinv.learn hready hport hb ⟨rfl, rfl, rfl, rfl⟩ fun r hr => .inl hr
      | learned hl =>
        refine hinv.learn hready hport hb ⟨rfl, rfl, rfl, rfl⟩ fun r hr => ?_
        have hne : (c.node k).state.nextLocalSequence ≠ 0 := fun h0 => by
          have := (hinv.node k hready).pos
          simp [h0] at this
        rcases mem_write hr with rfl | hr
        · rw [his, if_pos hne]
          exact .inr rfl
        · exact .inl hr

/-- **Every step keeps the invariant.** -/
lemma Inv.step (hinv : Inv h c) (hst : Cluster.step c st = some c')
    (hf : (boots (h ++ [(c, st)])).Nodup)
    (hb : ∀ k e, learns k e (h ++ [(c, st)]) < 2 ^ 64 - 1) : Inv (h ++ [(c, st)]) c' := by
  have hsame : ∀ k (x : Node), x.state = (c.node k).state → issuedBy c st = none →
      Inv (h ++ [(c, st)]) (c.set k x) := by
    intro k x hx hi
    refine hinv.quiet hi (fun r hr => ⟨r, ?_, rfl⟩) (sameNode_set (hx ▸ .rfl))
    exact (present_set hr).elim (fun hr => .inl ⟨k, hx ▸ hr⟩) id
  cases st with
  | boot k e app =>
    simp only [Cluster.step] at hst
    split_ifs at hst
    cases hst
    refine hinv.boot fun hmem => ?_
    rw [boots_snoc, List.nodup_append] at hf
    exact hf.2.2 _ hmem _ (by simp [bootedBy]) rfl
  | packetIn k info now =>
    simp only [Cluster.step] at hst
    split at hst <;> cases hst
    exact hinv.packetIn (hb _ _) _
  | announce k =>
    simp only [Cluster.step] at hst
    split at hst <;> cases hst
    rename_i info assigned _
    obtain ⟨rs, hpay, hrs⟩ := payloads_announce (c.node k).app (c.node k).state info assigned
    rw [hpay]
    refine hinv.quiet rfl (fun r hr => ⟨r, ?_, rfl⟩) (sameNode_set .rfl)
    have h1 := present_send (c := c.set k _) rs
      (fun x hx => .inl ⟨k, by rw [set_node_self]; exact hrs x hx⟩) hr
    exact (present_set h1).elim (fun hr => .inl ⟨k, hr⟩) id
  | forward k env =>
    simp only [Cluster.step] at hst
    split at hst <;> cases hst
    exact hsame k _ rfl rfl
  | exportSnapshot k =>
    simp only [Cluster.step] at hst
    split at hst <;> cases hst
    rename_i rs hrs
    refine hinv.quiet rfl (fun r hr => ⟨r, present_send _ (fun x hx => ?_) hr, rfl⟩) fun _ => .rfl
    simp only [daimHostExportSnapshot] at hrs
    split_ifs at hrs
    cases hrs
    exact .inl ⟨k, hx⟩
  | deliver j path payload now =>
    simp only [Cluster.step] at hst
    split_ifs at hst with hmem
    split at hst <;> cases hst
    · rename_i u hu
      obtain ⟨hs, ht⟩ := deliver_same (c.node j).state ⟨path, u, now⟩
      refine hinv.quiet rfl (fun r hr => ?_) (sameNode_set hs)
      rcases present_set hr with hr | hr
      · rcases ht r hr with hr | hr
        · exact ⟨r, .inl ⟨j, hr⟩, rfl⟩
        · exact ⟨u, .inr ⟨payload, hmem, hu⟩, hr.symm⟩
      · exact ⟨r, hr, rfl⟩
    · exact hinv.quiet rfl (fun r hr => ⟨r, hr, rfl⟩) fun _ => .rfl

lemma inv_empty : Inv [] {} := by
  refine ⟨fun r hr => ?_, by simp [issued], by simp [issued], fun k hk => ?_⟩
  · simp [Present] at hr
  · simp at hk

/-- **Every run keeps the invariant.** -/
theorem run_inv (hr : Run cluster h c) (hf : (boots h).Nodup)
    (hb : ∀ k e, learns k e h < 2 ^ 64 - 1) : Inv h c := by
  induction hr with
  | init h0 =>
    cases h0
    exact inv_empty
  | @step h c c' st hr hst ih =>
    have hf' : (boots h).Nodup := by
      rw [boots_snoc] at hf
      exact (List.nodup_append.mp hf).1
    have hinv := ih hf' fun k e => (learns_le h c st).trans_lt (hb k e)
    exact hinv.step hst hf hb

/-! ### Where the claims come from -/

/-- The record's origin learned it: for a packet with its MAC as the source, on the node's
own host port. -/
def Learned (h : List (World × Step)) (r : HostLocation) : Prop :=
  ∃ p ∈ h, ∃ info now, p.2 = .packetIn r.originNodeId info now ∧ info.macSrc = r.mac ∧
    info.inPort = (p.1.node r.originNodeId).app.hostPort ∧
    (daimHostLearnLocal (p.1.node r.originNodeId).state (some info.macSrc)
      (p.1.node r.originNodeId).app.myDpid info.inPort.toUInt32 now).2 ≠ 0 ∧
    claim r = claim (localRecord (p.1.node r.originNodeId).state info.macSrc
      (p.1.node r.originNodeId).app.myDpid info.inPort.toUInt32 now)

lemma learned_of_issued (hr : Run cluster h c) (hf : (boots h).Nodup)
    (hb : ∀ k e, learns k e h < 2 ^ 64 - 1) (hi : claim r ∈ issued h) : Learned h r := by
  obtain ⟨p, hp, hpi⟩ := List.mem_filterMap.mp hi
  obtain ⟨h1, h2, u, hsplit, hr1, -⟩ := hr.split hp
  have hinv : Inv h1 p.1 := by
    refine run_inv hr1 ?_ fun k e => lt_of_le_of_lt ?_ (hb k e)
    · rw [hsplit, boots, List.filterMap_append] at hf
      exact (List.nodup_append.mp hf).1
    · rw [hsplit, learns, learns, List.countP_append]
      omega
  rcases p with ⟨c1, st⟩
  cases st with
  | packetIn k info now =>
    simp only [issuedBy, Option.ite_none_right_eq_some, Option.some.injEq] at hpi
    obtain ⟨⟨hport, hseq⟩, hc⟩ := hpi
    have hready : (c1.node k).state.ready = true := by
      by_contra hn
      refine hseq ?_
      simp only [daimHostLearnLocal]
      rw [if_pos (by simpa using hn)]
    have hk : r.originNodeId = k := by
      have := congrArg Claim.originNodeId hc
      exact this.symm.trans (hinv.node k hready).nodeId
    subst hk
    refine ⟨_, hp, info, now, rfl, ?_, hport, hseq, hc.symm⟩
    exact congrArg Claim.mac hc
  | _ => simp [issuedBy] at hpi

/-- **Every host claim in a table or in flight was learned by its origin on its host port,
and one origin, epoch and sequence stand for one claim.** -/
theorem claims_learned (hr : Run cluster h c) (hf : (boots h).Nodup)
    (hb : ∀ k e, learns k e h < 2 ^ 64 - 1) :
    (∀ r, Present c r → Learned h r) ∧
      ∀ r r', Present c r → Present c r' → r.originNodeId = r'.originNodeId →
        r.ownerEpoch = r'.ownerEpoch → r.sequence = r'.sequence →
          r.mac = r'.mac ∧ r.ownerDpid = r'.ownerDpid ∧ r.ownerPort = r'.ownerPort ∧
            r.learnedAtNs = r'.learnedAtNs := by
  have hinv := run_inv hr hf hb
  refine ⟨fun r hp => learned_of_issued hr hf hb (hinv.present r hp), ?_⟩
  intro r r' hp hp' ho he hq
  have hkey : key (claim r) = key (claim r') := by simp [key, claim, ho, he, hq]
  have hc := List.inj_on_of_nodup_map hinv.keys (hinv.present r hp) (hinv.present r' hp') hkey
  simp only [claim, Claim.mk.injEq] at hc
  exact ⟨hc.1, hc.2.2.1, hc.2.2.2.1, hc.2.2.2.2.2.2⟩

/-- Node 1 starts, learns a host and announces it; node 2 starts and applies the update. -/
def relay : List Step :=
  let app (k : UInt64) : AppState :=
    { ready := true, transport := true, myNodeId := k, myDpid := k, hostPort := 1 }
  [.boot 1 7 (app 1), .packetIn 1 ⟨1, macOf 1, macOf 2, 0x800⟩ 5,
    .announce 1, .boot 2 7 (app 2),
    .deliver 2 .applyRemote (daimPeerEncodeHostLocation
      (localRecord (daimHostStateInit {} 1 7) (macOf 1) 1 1 5)) 6]

theorem claims_learned_relay :
    ∃ h c, Run cluster h c ∧ ∃ r ∈ (c.node 2).state.table, Learned h r := by
  obtain ⟨h, c, hr, hp⟩ := exists_run_of_replay (f := step) (i := (· = {})) (s := {}) relay rfl
    (fun h c => h.length = 5 ∧ (boots h).Nodup ∧ (c.node 2).state.table ≠ []) (by decide)
  obtain ⟨hlen, hf, ht⟩ := hp
  obtain ⟨r, hmem⟩ := List.exists_mem_of_ne_nil _ ht
  have hb : ∀ k e, learns k e h < 2 ^ 64 - 1 := fun k e => by
    have : learns k e h ≤ h.length := List.countP_le_length
    omega
  exact ⟨h, c, hr, r, hmem, (claims_learned hr hf hb).1 r (.inl ⟨2, hmem⟩)⟩

end DaimDistributed.Cluster
