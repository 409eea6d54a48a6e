import DaimDistributed.LearningApp

/-!
The rules a node has installed, and the ports it would decide now.

A rule stays on the switch when the record behind it changes. The port for a destination
depends on its owner only, and the owner changes in one way: the node learns a host that it
held under another origin. Every other call keeps the rules in force.
-/

namespace DaimDistributed.Flows

open HostState HostTable HostInv DaimDistributed.Core LearningApp Transitions

/-- The rules of the switch: the output port for an input port and a destination. -/
abbrev Rules := UInt16 × Mac → Option UInt16

/-- A node and its switch. -/
structure Switch where
  core : CoreState
  app : AppState
  host : State
  rules : Rules

inductive Call
  | packetIn (bridge : Option (List UInt8)) (info : Option NoRulePacketInfo) (now : UInt64)
  | applyRemote (update : Option HostLocation) (now : UInt64)
  | importSnapshotEntry (entry : Option HostLocation) (now : UInt64)
  deriving DecidableEq

def isFlowAdd : Effect → Bool
  | .flowAdd _ _ => true
  | _ => false

/-- `flow_add` on the switch: the rule for that input port and destination is overwritten. -/
def Rules.install (rules : Rules) (info : NoRulePacketInfo) (outPort : UInt16) : Rules :=
  Function.update rules (info.inPort, info.macDst) (some outPort)

lemma install_apply (rules : Rules) (info : NoRulePacketInfo) (out p : UInt16) (m : Mac) :
    rules.install info out (p, m) =
      if p = info.inPort ∧ m = info.macDst then some out else rules (p, m) := by
  simp [Rules.install, Function.update_apply]

/-- The rules after the effects of a packet. -/
def Rules.after (rules : Rules) (info : Option NoRulePacketInfo) (outPort : UInt16)
    (effects : List Effect) : Rules :=
  match info with
  | none => rules
  | some info => if effects.any isFlowAdd then rules.install info outPort else rules

/-- Every `flow_add` succeeds. -/
def step (x : Switch) : Call → Switch
  | .packetIn bridge info now =>
    let r := daimDistributedLearningAppPacketIn x.core x.app x.host bridge info ⟨now, true⟩
    { x with app := r.2.1, host := r.2.2.1, rules := x.rules.after info r.1 r.2.2.2 }
  | .applyRemote u now => { x with host := (daimHostApplyRemote x.host u now).1 }
  | .importSnapshotEntry u now => { x with host := (daimHostImportSnapshotEntry x.host u now).1 }

/-- An initialised node whose application has an adapter and its handler registered, with no
rule on the switch yet. -/
structure Starts (x : Switch) : Prop where
  registered : daimCoreEmit x.core noRule = some .distributedLearning
  ready : x.app.ready = true
  adapter : x.app.adapter = true
  host : ∃ s0 i e, x.host = daimHostStateInit s0 i e
  rules : x.rules = fun _ => none

def switch : Lts Switch Call := ofFun Starts fun x k => some (step x k)

/-- No two rules for a destination disagree, and they say what the node would decide now. -/
structure Agree (x : Switch) : Prop where
  same : ∀ m p p' q q', x.rules (p, m) = some q → x.rules (p', m) = some q' → q = q'
  current : ∀ m p q, x.rules (p, m) = some q → q = outPort x.app x.host m

/-- If the packet makes the node take a host over from another origin, the rules there are for
it lead to the host port already, or the packet itself overwrites the one there is. -/
def NoStale (x : Switch) : Call → Prop
  | .packetIn (some _) (some info) _ =>
    info.inPort = x.app.hostPort →
      ∀ r, find x.host.table info.macSrc = some r → r.isLocal = 0 →
        ∀ p q, x.rules (p, info.macSrc) = some q →
          q = x.app.hostPort ∨ p = info.inPort ∧ info.macDst = info.macSrc ∧
            x.app.hostPort ≠ portFlood ∧ x.app.hostPort ≠ portNone
  | _ => True

variable {x y : Switch} {k : Call} {a : AppState} {s : State} {info : NoRulePacketInfo}
  {env : Env} {h : List (Switch × Call)}

/-! ### What a packet installs -/

/-- The handler sets no adapter. -/
lemma learnSource_adapter (now : UInt64) : (learnSource a s info now).1.adapter = a.adapter := by
  unfold learnSource
  dsimp only
  split_ifs <;> rfl

lemma announce_adapter (learned : Bool) :
    (announce a s info learned).1.adapter = a.adapter ∧
      (announce a s info learned).2.any isFlowAdd = false := by
  unfold announce
  split
  · exact ⟨rfl, rfl⟩
  · split
    · split <;> exact ⟨rfl, rfl⟩
    · exact ⟨rfl, rfl⟩

/-- With an adapter, a packet installs a flow exactly when a port was decided. -/
lemma forward_flows (hadp : a.adapter = true) (s : State) (info : NoRulePacketInfo) (env : Env) :
    (forward a s info env).1.adapter = true ∧ (forward a s info env).2 =
      .tableWrite ⟨info.inPort, info.macSrc, info.macDst, info.ethernetType, 100,
          outPort a s info.macDst⟩ ::
        if outPort a s info.macDst ≠ portFlood ∧ outPort a s info.macDst ≠ portNone then
          [.flowAdd a.currentBridge
            (flowString info.inPort info.macDst (outPort a s info.macDst))]
        else [] := by
  by_cases hport : outPort a s info.macDst ≠ portFlood ∧ outPort a s info.macDst ≠ portNone
  · simp [forward, installFlow, hport, hadp]
  · simp [forward, hport, hadp]

/-- A port that is put into a flow. -/
def Physical (port : UInt16) : Prop := port ≠ portFlood ∧ port ≠ portNone

instance decidablePhysical (port : UInt16) : Decidable (Physical port) :=
  inferInstanceAs (Decidable (_ ∧ _))

/-- What a packet leaves behind. -/
structure Handled (a : AppState) (s s' : State) (info : NoRulePacketInfo)
    (r : UInt16 × AppState × State × List Effect) : Prop where
  port : r.1 = outPort a s' info.macDst
  config : SameConfig a r.2.1
  adapter : r.2.1.adapter = true
  host : r.2.2.1 = s'
  flows : r.2.2.2.any isFlowAdd = true ↔ Physical (outPort a s' info.macDst)

lemma packetIn_handled {c : CoreState} (hc : daimCoreEmit c noRule = some .distributedLearning)
    (ha : a.ready = true) (hadp : a.adapter = true) (s : State) (bridge : List UInt8)
    (info : NoRulePacketInfo) (env : Env) :
    Handled a s (learnSource a s info env.now).2.1 info
      (daimDistributedLearningAppPacketIn c a s (some bridge) (some info) env) := by
  have hport : (daimDistributedLearningAppPacketIn c a s (some bridge) (some info) env).1 =
      outPort a (learnSource a s info env.now).2.1 info.macDst := packetIn_port ha hc bridge
  have hconf := packetIn_sameConfig ha c s info env bridge
  have hb : SameConfig a (a.setBridge bridge) := setBridge_sameConfig bridge
  have hl : (learnSource (a.setBridge bridge) s info env.now).2 =
      (learnSource a s info env.now).2 := learnSource_congr hb _
  rw [packetIn_eq ha] at hport hconf ⊢
  have hh : handle c (a.setBridge bridge) s info env =
      onNoRule (a.setBridge bridge) s info env := by simp only [handle, hc]
  have hlearn : (learnSource (a.setBridge bridge) s info env.now).1.adapter =
      (a.setBridge bridge).adapter := learnSource_adapter env.now
  have hlconf : SameConfig (a.setBridge bridge)
      (learnSource (a.setBridge bridge) s info env.now).1 := learnSource_sameConfig env.now
  rw [hh] at hport hconf ⊢
  unfold onNoRule at hport hconf ⊢
  dsimp only at hport hconf ⊢
  rw [hl] at hport hconf ⊢
  generalize hl1 : (learnSource (a.setBridge bridge) s info env.now).1 = b at *
  generalize (learnSource a s info env.now).2.1 = s' at *
  generalize (learnSource a s info env.now).2.2 = learned at *
  obtain ⟨had, hno⟩ : (announce b s' info learned).1.adapter = b.adapter ∧
      (announce b s' info learned).2.any isFlowAdd = false := announce_adapter learned
  have haconf : SameConfig b (announce b s' info learned).1 := announce_sameConfig learned
  generalize announce b s' info learned = d at *
  have hd : d.1.adapter = true := by rw [had, hlearn]; exact hadp
  obtain ⟨hfad, hflow⟩ := forward_flows hd s' info env
  have hout : outPort d.1 s' info.macDst = outPort a s' info.macDst :=
    outPort_congr (hb.trans (hlconf.trans haconf)) _
  refine ⟨hport, hconf, hfad, rfl, ?_⟩
  rw [hflow, List.any_append, hno, hout, Physical]
  by_cases hp : outPort a s' info.macDst ≠ portFlood ∧ outPort a s' info.macDst ≠ portNone
  · simp [hp, isFlowAdd]
  · simp only [hp, if_false]
    simp [isFlowAdd]

/-! ### The port for a known destination -/

/-- The port of a record. -/
def portOf (a : AppState) (r : HostLocation) : UInt16 :=
  if r.isLocal ≠ 0 then r.ownerPort.toUInt16 else nextHopPort a r.originNodeId

lemma outPort_find (hs : s.ready = true) (a : AppState) {m : Mac} {r : HostLocation}
    (hf : find s.table m = some r) : outPort a s m = portOf a r := by
  simp only [outPort, daimHostLookup_eq hs, hf, portOf]

/-- A port that is put into a flow belongs to a known destination. -/
lemma outPort_known (hs : s.ready = true) {m : Mac} (hp : Physical (outPort a s m)) :
    ∃ r, find s.table m = some r := by
  rcases hf : find s.table m with _ | r
  · exact absurd (by simp [outPort, daimHostLookup_eq hs, hf]) hp.1
  · exact ⟨r, rfl⟩

/-- Local records carry the host port. -/
def OnHostPort (port : UInt16) (t : List HostLocation) : Prop :=
  ∀ r ∈ t, r.isLocal ≠ 0 → r.ownerPort = port.toUInt32

/-- **An update changes no port of a known destination.** -/
lemma applies_outPort {u : HostLocation} {now : UInt64} {p : State × ApplyResult}
    (ha : Applies s u now p) (hs : s.ready = true) (ht : TableInv s.nodeId s.table)
    (a : AppState) {m : Mac} {r : HostLocation} (hf : find s.table m = some r) :
    outPort a p.1 m = outPort a s m := by
  have hp : p.1.ready = true := ha.ready.trans hs
  rcases ha.held hf with hk | ⟨⟨hn, ho, -⟩, hk⟩
  · rw [outPort_find hs a hf, outPort_find hp a hk]
  · -- the record that is replaced is a remote one
    have hl : r.isLocal = 0 := by
      by_contra hl
      exact hn (ho ▸ (ht.find_local hf).mp hl)
    rw [outPort_find hs a hf, outPort_find hp a hk]
    simp [portOf, updatedRecord, hl]

/-- The packet takes a host over that the table holds under another origin. -/
def TakesOver (a : AppState) (s : State) (info : NoRulePacketInfo) (m : Mac) : Prop :=
  info.inPort = a.hostPort ∧ info.macSrc = m ∧ ∃ r, find s.table m = some r ∧ r.isLocal = 0

/-- **A packet changes the port of a known destination only by a takeover**, and then to the
host port. -/
lemma learn_outPort (hs : s.ready = true) (hl : OnHostPort a.hostPort s.table) (now : UInt64)
    {m : Mac} {r : HostLocation} (hf : find s.table m = some r) :
    (TakesOver a s info m → outPort a (learnSource a s info now).2.1 m = a.hostPort) ∧
      (¬ TakesOver a s info m →
        outPort a (learnSource a s info now).2.1 m = outPort a s m) := by
  rw [learnSource_eq]
  by_cases hp : info.inPort = a.hostPort
  · rw [if_pos hp]
    dsimp only
    have hlearn := daimHostLearnLocal_learns hs info.macSrc a.myDpid info.inPort.toUInt32 now
    generalize daimHostLearnLocal s (some info.macSrc) a.myDpid info.inPort.toUInt32 now = p
      at hlearn ⊢
    by_cases hm : info.macSrc = m
    · subst hm
      have hown : find p.1.table info.macSrc =
          some (localRecord s info.macSrc a.myDpid info.inPort.toUInt32 now) ∧
            p.1.ready = true := by
        cases hlearn with
        | full hf' => simp [hf] at hf'
        | learned hroom => exact ⟨by rw [find_write, localRecord, if_pos rfl], hs⟩
      have hnew : outPort a p.1 info.macSrc = a.hostPort := by
        rw [outPort_find hown.2 a hown.1]
        simp [portOf, localRecord, hp]
      refine ⟨fun _ => hnew, fun ht => ?_⟩
      -- the node's own host: its record had the host port already
      have hloc : r.isLocal ≠ 0 := fun h0 => ht ⟨hp, rfl, r, hf, h0⟩
      rw [hnew, outPort_find hs a hf, portOf, if_pos hloc, hl r (find_mem hf) hloc]
      simp
    · have hkeep : find p.1.table m = some r ∧ p.1.ready = true := by
        cases hlearn with
        | full hf' hfull => exact ⟨hf, hs⟩
        | learned hroom => exact ⟨by simpa [find_write, localRecord, hm] using hf, hs⟩
      refine ⟨fun ht => absurd ht.2.1 hm, fun _ => ?_⟩
      rw [outPort_find hs a hf, outPort_find hkeep.2 a hkeep.1]
  · rw [if_neg hp]
    exact ⟨fun ht => absurd ht.1 hp, fun _ => rfl⟩

/-! ### The invariant of the runs -/

/-- The shape of every reachable switch. -/
structure Shape (x : Switch) : Prop where
  registered : daimCoreEmit x.core noRule = some .distributedLearning
  ready : x.app.ready = true
  adapter : x.app.adapter = true
  host : x.host.ready = true
  table : TableInv x.host.nodeId x.host.table
  hostPort : OnHostPort x.app.hostPort x.host.table
  physical : ∀ m p q, x.rules (p, m) = some q → Physical q

lemma starts_shape (hx : Starts x) : Shape x := by
  obtain ⟨s0, i, e, hh⟩ := hx.host
  have hempty : x.host.table = [] := by rw [hh]; rfl
  refine ⟨hx.registered, hx.ready, hx.adapter, by rw [hh]; rfl, ?_, ?_, ?_⟩
  · rw [hempty]
    exact tableInv_nil _
  · simp [OnHostPort, hempty]
  · simp [hx.rules]

/-- An update keeps the shape. -/
lemma shape_applies {u : HostLocation} {now : UInt64} {p : State × ApplyResult}
    (hx : Shape x) (ha : Applies x.host u now p) : Shape { x with host := p.1 } := by
  refine ⟨hx.registered, hx.ready, hx.adapter, ha.ready.trans hx.host, ?_, ?_, hx.physical⟩
  · rw [ha.nodeId]
    exact tableInv_applies ha hx.table
  · exact fun r hr hl => hx.hostPort r (hx.table.local_mem ha hr hl) hl

/-- The handler's learn keeps the table and its ports. -/
lemma learn_shape (hx : Shape x) (info : NoRulePacketInfo) (now : UInt64) :
    (learnSource x.app x.host info now).2.1.ready = true ∧
      TableInv (learnSource x.app x.host info now).2.1.nodeId
        (learnSource x.app x.host info now).2.1.table ∧
      OnHostPort x.app.hostPort (learnSource x.app x.host info now).2.1.table := by
  rw [learnSource_eq]
  by_cases hp : info.inPort = x.app.hostPort
  · rw [if_pos hp]
    dsimp only
    have hl := daimHostLearnLocal_learns hx.host info.macSrc x.app.myDpid info.inPort.toUInt32 now
    generalize daimHostLearnLocal x.host (some info.macSrc) x.app.myDpid info.inPort.toUInt32 now
      = p at hl ⊢
    have ht := tableInv_learns hl hx.table
    cases hl with
    | full hf hfull => exact ⟨hx.host, ht, hx.hostPort⟩
    | learned hroom =>
      refine ⟨hx.host, ht, fun r hr hl => ?_⟩
      rcases mem_write hr with rfl | hr
      · simp [localRecord, hp]
      · exact hx.hostPort r hr hl
  · rw [if_neg hp]
    exact ⟨hx.host, hx.table, hx.hostPort⟩

/-! ### One call -/

/-- What a call can do to a switch. -/
inductive Moves (x : Switch) : Call → Switch → Prop
  | idle {k : Call} (st : Stats) (hk : NoStale x k) :
      Moves x k { x with host := { x.host with stats := st } }
  | update {k : Call} (u : HostLocation) (now : UInt64) (p : State × ApplyResult)
      (hk : NoStale x k) (ha : Applies x.host u now p) : Moves x k { x with host := p.1 }
  | packet (bridge : List UInt8) (info : NoRulePacketInfo) (now : UInt64) (b : AppState)
      (hb : SameConfig x.app b) (had : b.adapter = true) :
      Moves x (.packetIn (some bridge) (some info) now)
        { x with
          app := b
          host := (learnSource x.app x.host info now).2.1
          rules :=
            if Physical (outPort x.app (learnSource x.app x.host info now).2.1 info.macDst) then
              x.rules.install info
                (outPort x.app (learnSource x.app x.host info now).2.1 info.macDst)
            else x.rules }

lemma applyLocked_moves (hk : NoStale x k) (u : Option HostLocation) (now : UInt64) :
    Moves x k { x with host := (applyLocked x.host u now).1 } := by
  rcases u with _ | u
  · exact .idle (x.host.stats.count .invalid) hk
  · exact .update u now _ hk (applyLocked_applies x.host u now)

lemma step_moves (hx : Shape x) (k : Call) : Moves x k (step x k) := by
  cases k with
  | packetIn bridge info now =>
    rcases bridge with _ | bridge
    · have hm : Moves x (.packetIn none info now) _ := .idle x.host.stats trivial
      cases info <;> exact hm
    rcases info with _ | info
    · have hm : Moves x (.packetIn (some bridge) none now) _ := .idle x.host.stats trivial
      exact hm
    have hh := packetIn_handled hx.registered hx.ready hx.adapter x.host bridge info ⟨now, true⟩
    have hm : Moves x _ _ := .packet bridge info now _ hh.config hh.adapter
    have hrules : x.rules.after (some info)
        (daimDistributedLearningAppPacketIn x.core x.app x.host (some bridge) (some info)
          ⟨now, true⟩).1
        (daimDistributedLearningAppPacketIn x.core x.app x.host (some bridge) (some info)
          ⟨now, true⟩).2.2.2 =
        if Physical (outPort x.app (learnSource x.app x.host info now).2.1 info.macDst) then
          x.rules.install info
            (outPort x.app (learnSource x.app x.host info now).2.1 info.macDst)
        else x.rules := by
      rw [Rules.after, hh.port]
      exact if_congr hh.flows rfl rfl
    rw [step, hrules, hh.host]
    exact hm
  | applyRemote u now =>
    have hex : step x (.applyRemote u now) = { x with host := (applyLocked x.host u now).1 } := by
      simp [step, daimHostApplyRemote, hx.host]
    rw [hex]
    exact applyLocked_moves (by trivial) u now
  | importSnapshotEntry u now =>
    have hex : step x (.importSnapshotEntry u now) =
        { x with host := (applyLocked x.host u now).1 } := by
      simp [step, daimHostImportSnapshotEntry, hx.host]
    rw [hex]
    exact applyLocked_moves (by trivial) u now

/-- Every reachable switch has the shape. -/
lemma step_shape (hx : Shape x) (k : Call) : Shape (step x k) := by
  have hm := step_moves hx k
  generalize step x k = y at hm ⊢
  cases hm with
  | idle st hk => exact ⟨hx.registered, hx.ready, hx.adapter, hx.host, hx.table, hx.hostPort,
      hx.physical⟩
  | update u now p hk ha => exact shape_applies hx ha
  | packet bridge info now b hb had =>
    obtain ⟨hready, htable, hport⟩ := learn_shape hx info now
    refine ⟨hx.registered, hb.ready.trans hx.ready, had, hready, htable, ?_, ?_⟩
    · rw [hb.hostPort]
      exact hport
    · intro m p q hq
      split_ifs at hq with hphys
      · change x.rules.install info _ (p, m) = some q at hq
        rw [install_apply] at hq
        split_ifs at hq with hkey
        · exact Option.some.inj hq ▸ hphys
        · exact hx.physical m p q hq
      · exact hx.physical m p q hq

/-! ### Agreement -/

/-- One port for a destination is what agreement is about. -/
lemma agree_iff : Agree x ↔ ∀ m p q, x.rules (p, m) = some q → q = outPort x.app x.host m := by
  refine ⟨fun h => h.current, fun h => ⟨fun m p p' q q' hq hq' => ?_, h⟩⟩
  rw [h m p q hq, h m p' q' hq']

/-- **A call keeps the rules in force exactly when it leaves none behind.** -/
lemma step_agree (hx : Shape x) (ha : Agree x) (k : Call) : Agree (step x k) ↔ NoStale x k := by
  have hm := step_moves hx k
  generalize step x k = y at hm ⊢
  cases hm with
  | idle st hk => exact ⟨fun _ => hk, fun _ => ⟨ha.same, ha.current⟩⟩
  | update u now p hk hp =>
    refine ⟨fun _ => hk, fun _ => agree_iff.mpr fun m p q hq => ?_⟩
    obtain rfl := ha.current m p q hq
    obtain ⟨r, hf⟩ := outPort_known hx.host (hx.physical m p _ hq)
    exact (applies_outPort hp hx.host hx.table x.app hf).symm
  | packet bridge info now b hb had =>
    rw [agree_iff]
    simp only [outPort_congr hb]
    generalize hs' : (learnSource x.app x.host info now).2.1 = s'
    have hport : ∀ m p q, x.rules (p, m) = some q →
        (TakesOver x.app x.host info m → outPort x.app s' m = x.app.hostPort) ∧
          (¬ TakesOver x.app x.host info m → outPort x.app s' m = q) := by
      intro m p q hq
      obtain rfl := ha.current m p q hq
      obtain ⟨r, hf⟩ := outPort_known hx.host (hx.physical m p _ hq)
      exact hs' ▸ learn_outPort hx.host hx.hostPort now hf
    have hrule : ∀ p m, (if Physical (outPort x.app s' info.macDst) then
          x.rules.install info (outPort x.app s' info.macDst) else x.rules) (p, m) =
        if Physical (outPort x.app s' info.macDst) ∧ p = info.inPort ∧ m = info.macDst then
          some (outPort x.app s' info.macDst)
        else x.rules (p, m) := by
      intro p m
      by_cases hphys : Physical (outPort x.app s' info.macDst)
      · rw [if_pos hphys, install_apply]
        simp only [hphys, true_and]
      · rw [if_neg hphys, if_neg fun h => hphys h.1]
    simp only [hrule]
    constructor
    · intro hag hin r hf hloc p q hq
      have hout := (hport _ p q hq).1 ⟨hin, rfl, r, hf, hloc⟩
      by_cases hnew : Physical (outPort x.app s' info.macDst) ∧ p = info.inPort ∧
          info.macSrc = info.macDst
      · -- the packet puts a flow over the rule
        obtain ⟨hphys, hp, hm⟩ := hnew
        rw [← hm, hout] at hphys
        exact .inr ⟨hp, hm.symm, hphys⟩
      · left
        rw [← hout]
        exact hag info.macSrc p q (by rw [if_neg hnew, hq])
    · intro hst m p q hq
      split_ifs at hq with hnew
      · obtain ⟨-, -, rfl⟩ := hnew
        exact (Option.some.inj hq).symm
      obtain ⟨htaken, hkept⟩ := hport m p q hq
      by_cases hto : TakesOver x.app x.host info m
      · have hout := htaken hto
        obtain ⟨hin, rfl, r, hf, hloc⟩ := hto
        rcases hst hin r hf hloc p q hq with rfl | ⟨hp, hm, hphys⟩
        · exact hout.symm
        · refine absurd ⟨?_, hp, hm.symm⟩ hnew
          rw [hm, hout]
          exact hphys
      · exact (hkept hto).symm

/-! ### Runs -/

lemma run_shape (hr : Run switch h x) : Shape x := by
  refine hr.inv Shape (fun _ => starts_shape) ?_
  rintro x k _ hx ⟨⟩
  exact step_shape hx k

lemma starts_agree (hx : Starts x) : Agree x := by
  simp [agree_iff, hx.rules]

/-- **Installed flows.** The rules agree in every state of a run exactly when no packet takes a
host over and leaves a rule for it that leads elsewhere. -/
theorem flows_agree_iff (hr : Run switch h x) :
    (Agree x ∧ ∀ p ∈ h, Agree p.1) ↔ ∀ p ∈ h, NoStale p.1 p.2 := by
  induction hr with
  | init hx => simp [starts_agree hx]
  | @step h x y k hr hst ih =>
    obtain rfl : step x k = y := Option.some.inj hst
    have hstep := fun ha => step_agree (run_shape hr) ha k
    constructor
    · rintro ⟨hy, hall⟩ p hp
      have hx : Agree x := hall (x, k) (by simp)
      rcases List.mem_append.mp hp with hp | hp
      · exact ih.mp ⟨hx, fun p hp => hall p (by simp [hp])⟩ p hp
      · obtain rfl : p = (x, k) := by simpa using hp
        exact (hstep hx).mp hy
    · intro hall
      obtain ⟨hx, hbefore⟩ := ih.mpr fun p hp => hall p (by simp [hp])
      refine ⟨(hstep hx).mpr (hall (x, k) (by simp)), fun p hp => ?_⟩
      rcases List.mem_append.mp hp with hp | hp
      · exact hbefore p hp
      · obtain rfl : p = (x, k) := by simpa using hp
        exact hx

/-- Node 1 of a chain of two, with its host on port 1 and the other node behind port 3. -/
def ofTwo : Switch where
  core := daimSignal (daimInit {}) noRule (some .distributedLearning)
  app :=
    { ready := true, adapter := true, myNodeId := 1, myDpid := 1, hostPort := 1,
      chainOrder := [1, 2], portTowardLower := 2, portTowardHigher := 3 }
  host := daimHostStateInit {} 1 7
  rules := fun _ => none

lemma ofTwo_starts : Starts ofTwo :=
  ⟨by decide, rfl, rfl, ⟨{}, 1, 7, rfl⟩, rfl⟩

/-- Node 2 announces host 9. -/
def hostOfTwo (sequence : UInt64) : Call :=
  .applyRemote (some ⟨macOf 9, 2, 2, 1, 7, sequence, 1, 5, 5⟩) 6

def packetToNine (inPort : UInt16) : Call :=
  .packetIn (some []) (some ⟨inPort, macOf 8, macOf 9, 0x800⟩) 7

/-- Host 9 sends on the own host port, to a host nobody knows. -/
def nineMoves : Call := .packetIn (some []) (some ⟨1, macOf 9, macOf 7, 0x800⟩) 8

/-- Not a packet that arrives on the host port. -/
def offHostPort (p : Switch × Call) : Bool :=
  match p.2 with
  | .packetIn _ (some info) _ => info.inPort ≠ p.1.app.hostPort
  | _ => true

/-- An announced host, a flow for it, and a newer announcement: the flow is in force. -/
theorem flows_agree_iff_announced :
    ∃ h x, Run switch h x ∧ x.rules (2, macOf 9) = some 3 ∧ Agree x := by
  obtain ⟨h, x, hr, hp⟩ := exists_run_of_replay (f := fun x k => some (step x k)) (i := Starts)
    [hostOfTwo 1, packetToNine 2, hostOfTwo 2] ofTwo_starts
    (fun h x => x.rules (2, macOf 9) = some 3 ∧ h.all offHostPort = true) (by decide)
  obtain ⟨hrule, hall⟩ := hp
  refine ⟨h, x, hr, hrule, ((flows_agree_iff hr).mpr fun p hp => ?_).1⟩
  have hne := List.all_eq_true.mp hall p hp
  obtain ⟨y, k⟩ := p
  cases k with
  | packetIn bridge info now =>
    cases bridge with
    | none => trivial
    | some bridge =>
      cases info with
      | none => trivial
      | some info => exact fun hin => absurd hin (by simpa [offHostPort] using hne)
  | _ => trivial

/-- After host 9 has moved to the own host port the old flow leads to node 2 and the next one
to the host port. -/
theorem stale_flow :
    ∃ h x, Run switch h x ∧ x.rules (2, macOf 9) = some 3 ∧ x.rules (3, macOf 9) = some 1 ∧
      ¬ Agree x := by
  obtain ⟨h, x, hr, hp⟩ := exists_run_of_replay (f := fun x k => some (step x k)) (i := Starts)
    [hostOfTwo 1, packetToNine 2, nineMoves, packetToNine 3] ofTwo_starts
    (fun _ x => x.rules (2, macOf 9) = some 3 ∧ x.rules (3, macOf 9) = some 1) (by decide)
  obtain ⟨h2, h3⟩ := hp
  refine ⟨h, x, hr, h2, h3, fun ha => ?_⟩
  exact absurd (ha.same (macOf 9) 2 3 3 1 h2 h3) (by decide)

end DaimDistributed.Flows
