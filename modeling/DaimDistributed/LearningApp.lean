import DaimDistributed.Core
import DaimDistributed.NodeRun

/-!
The distributed learning application, as `daim_distributed_learning_app.c` runs it.

A packet without a rule is handled under the application's lock; what the handler does to
the outside (announcing a record to the peers, writing the forwarding table, installing a
flow) is the list of effects it leaves. Only the host table is shared with other threads,
so the handler is cut where it gives the table's lock up: the learn, the announcement and
the decision.
-/

namespace DaimDistributed.LearningApp

open HostState HostTable HostInv DaimDistributed.Core

def portFlood : UInt16 := 0xfffb

def portNone : UInt16 := 0xfffe

def daimDistMaxChain : ℕ := 64

def maxBridgeLen : ℕ := 64

/-- The fields of `struct no_rule_packet_info` that the application reads. -/
structure NoRulePacketInfo where
  inPort : UInt16
  macSrc : Mac
  macDst : Mac
  ethernetType : UInt16
  deriving DecidableEq

/-- `struct daim_distributed_learning_app_stats`, with natural numbers for its `uint64_t`s, which
nothing branches on. -/
structure AppStats where
  noRuleEvents : ℕ := 0
  flowsInstalled : ℕ := 0
  localHostsLearned : ℕ := 0
  remoteUpdatesDisseminated : ℕ := 0
  deriving DecidableEq

/-- `struct app_state`, with the pointers replaced by whether they are set. -/
structure AppState where
  ready : Bool := false
  adapter : Bool := false
  transport : Bool := false
  myNodeId : UInt64 := 0
  myDpid : UInt64 := 0
  hostPort : UInt16 := 0
  chainOrder : List UInt64 := []
  portTowardLower : UInt16 := 0
  portTowardHigher : UInt16 := 0
  currentBridge : List UInt8 := []
  decidedPort : UInt16 := 0
  stats : AppStats := {}
  deriving DecidableEq

/-- The entry written to the forwarding table: the fields that are set, and the port of its
one output action. -/
structure ForwardingEntry where
  inPort : UInt16
  macSrc : Mac
  macDst : Mac
  ethernetType : UInt16
  weight : UInt8
  outPort : UInt16
  deriving DecidableEq

/-- What the handler does to the outside. -/
inductive Effect
  | disseminate (loc : HostLocation)
  | tableWrite (entry : ForwardingEntry)
  | flowAdd (bridge : List UInt8) (flow : String)
  deriving DecidableEq

/-- What the outside answers: the time, and whether `flow_add` succeeds. -/
structure Env where
  now : UInt64
  flowAdd : Bool
  deriving DecidableEq

def chainIndexOf (a : AppState) (nodeId : UInt64) : Option ℕ :=
  a.chainOrder.findIdx? fun x => x = nodeId

def nextHopPort (a : AppState) (targetNodeId : UInt64) : UInt16 :=
  match chainIndexOf a a.myNodeId, chainIndexOf a targetNodeId with
  | some myIdx, some targetIdx =>
    if targetIdx < myIdx then a.portTowardLower else a.portTowardHigher
  | _, _ => portNone

/-- `%02x` of one byte. -/
def hexByte (b : UInt8) : List Char := [Nat.digitChar (b.toNat / 16), Nat.digitChar (b.toNat % 16)]

def formatMac (m : Mac) : String :=
  String.ofList ([':'].intercalate (m.toList.map hexByte))

/-- The flow string of `install_flow`. -/
def flowString (inPort : UInt16) (macDst : Mac) (outPort : UInt16) : String :=
  "priority=100,in_port=" ++ toString inPort.toNat ++ ",dl_dst=" ++ formatMac macDst ++
    ",actions=output:" ++ toString outPort.toNat

def installFlow (a : AppState) (bridge : List UInt8) (inPort : UInt16) (macDst : Mac)
    (outPort : UInt16) (env : Env) : AppState × List Effect :=
  if a.adapter = false then (a, [])
  else
    ({ a with
        stats := { a.stats with
          flowsInstalled := a.stats.flowsInstalled + if env.flowAdd then 1 else 0 } },
      [.flowAdd bridge (flowString inPort macDst outPort)])

/-! ### The handler -/

/-- The first part of `on_no_rule`: the packet's source is learned if it came in on the host
port. The flag says that a sequence number was assigned. -/
def learnSource (a : AppState) (s : State) (info : NoRulePacketInfo) (now : UInt64) :
    AppState × State × Bool :=
  let a := { a with stats := { a.stats with noRuleEvents := a.stats.noRuleEvents + 1 } }
  if info.inPort = a.hostPort then
    let (s, sequence) := daimHostLearnLocal s (some info.macSrc) a.myDpid info.inPort.toUInt32 now
    if sequence ≠ 0 then
      ({ a with stats := { a.stats with localHostsLearned := a.stats.localHostsLearned + 1 } }, s,
        true)
    else (a, s, false)
  else (a, s, false)

/-- The second part, after a learn: the record is looked up again and announced. -/
def announce (a : AppState) (s : State) (info : NoRulePacketInfo) (learned : Bool) :
    AppState × List Effect :=
  if learned = false then (a, [])
  else
    match daimHostLookup s (some info.macSrc) with
    | some loc =>
      if a.transport then
        ({ a with
            stats := { a.stats with
              remoteUpdatesDisseminated := a.stats.remoteUpdatesDisseminated + 1 } },
          [.disseminate loc])
      else (a, [])
    | none => (a, [])

/-- The output port for a destination. -/
def outPort (a : AppState) (s : State) (macDst : Mac) : UInt16 :=
  match daimHostLookup s (some macDst) with
  | some destLoc =>
    if destLoc.isLocal ≠ 0 then destLoc.ownerPort.toUInt16 else nextHopPort a destLoc.originNodeId
  | none => portFlood

/-- The third part: the decision, the table entry and the flow. -/
def forward (a : AppState) (s : State) (info : NoRulePacketInfo) (env : Env) :
    AppState × List Effect :=
  let out := outPort a s info.macDst
  let entry : ForwardingEntry :=
    ⟨info.inPort, info.macSrc, info.macDst, info.ethernetType, 100, out⟩
  if out ≠ portFlood ∧ out ≠ portNone then
    let (a, flow) := installFlow a a.currentBridge info.inPort info.macDst out env
    ({ a with decidedPort := out }, .tableWrite entry :: flow)
  else ({ a with decidedPort := out }, [.tableWrite entry])

/-- `on_no_rule`, when no other thread touches the host table in between. -/
def onNoRule (a : AppState) (s : State) (info : NoRulePacketInfo) (env : Env) :
    AppState × State × List Effect :=
  let l := learnSource a s info env.now
  let d := announce l.1 l.2.1 info l.2.2
  let f := forward d.1 l.2.1 info env
  (f.1, l.2.1, d.2 ++ f.2)

/-- `none` where the source returns -1. -/
def daimDistributedLearningAppInit (a : AppState) (c : CoreState) (adapter : Bool)
    (myNodeId myDpid : UInt64) (hostPort : UInt16) (chainOrder : Option (List UInt64))
    (portTowardLower portTowardHigher : UInt16) (transport : Bool) :
    Option (AppState × CoreState) :=
  match chainOrder with
  | none => none
  | some chainOrder =>
    if chainOrder.length = 0 ∨ daimDistMaxChain < chainOrder.length then none
    else
      some ({ a with
          ready := true, adapter := adapter, transport := transport, myNodeId := myNodeId,
          myDpid := myDpid, hostPort := hostPort, chainOrder := chainOrder,
          portTowardLower := portTowardLower, portTowardHigher := portTowardHigher,
          currentBridge := [], stats := {} },
        daimSignal c noRule (some .distributedLearning))

/-- What the registered handler does; one that is not this application's leaves its state
alone. -/
def handle (c : CoreState) (a : AppState) (s : State) (info : NoRulePacketInfo) (env : Env) :
    AppState × State × List Effect :=
  match daimCoreEmit c noRule with
  | some .distributedLearning => onNoRule a s info env
  | _ => (a, s, [])

/-- `snprintf` into `current_bridge`. -/
def AppState.setBridge (a : AppState) (bridge : List UInt8) : AppState :=
  { a with currentBridge := bridge.take (maxBridgeLen - 1) }

/-- The port returned, and the state and the effects left behind. -/
def daimDistributedLearningAppPacketIn (c : CoreState) (a : AppState) (s : State)
    (bridge : Option (List UInt8)) (info : Option NoRulePacketInfo) (env : Env) :
    UInt16 × AppState × State × List Effect :=
  match bridge, info with
  | some bridge, some info =>
    if a.ready = false then (portNone, a, s, [])
    else
      let r := handle c (a.setBridge bridge) s info env
      (r.1.decidedPort, r)
  | _, _ => (portNone, a, s, [])

/-! ### What the handler reads and writes -/

/-- What an application is given at its initialisation, and no packet changes. -/
structure SameConfig (a b : AppState) : Prop where
  ready : b.ready = a.ready
  transport : b.transport = a.transport
  myNodeId : b.myNodeId = a.myNodeId
  myDpid : b.myDpid = a.myDpid
  hostPort : b.hostPort = a.hostPort
  chainOrder : b.chainOrder = a.chainOrder
  lower : b.portTowardLower = a.portTowardLower
  higher : b.portTowardHigher = a.portTowardHigher

variable {a b : AppState} {s : State} {info : NoRulePacketInfo} {env : Env} {c : CoreState}

lemma SameConfig.refl (a : AppState) : SameConfig a a := ⟨rfl, rfl, rfl, rfl, rfl, rfl, rfl, rfl⟩

lemma SameConfig.trans {b' : AppState} (h : SameConfig a b) (h' : SameConfig b b') :
    SameConfig a b' :=
  ⟨h'.ready.trans h.ready, h'.transport.trans h.transport, h'.myNodeId.trans h.myNodeId,
    h'.myDpid.trans h.myDpid, h'.hostPort.trans h.hostPort, h'.chainOrder.trans h.chainOrder,
    h'.lower.trans h.lower, h'.higher.trans h.higher⟩

lemma learnSource_sameConfig (now : UInt64) : SameConfig a (learnSource a s info now).1 := by
  unfold learnSource
  dsimp only
  split_ifs <;> exact ⟨rfl, rfl, rfl, rfl, rfl, rfl, rfl, rfl⟩

lemma announce_sameConfig (learned : Bool) : SameConfig a (announce a s info learned).1 := by
  unfold announce
  split
  · exact ⟨rfl, rfl, rfl, rfl, rfl, rfl, rfl, rfl⟩
  · split
    · split <;> exact ⟨rfl, rfl, rfl, rfl, rfl, rfl, rfl, rfl⟩
    · exact ⟨rfl, rfl, rfl, rfl, rfl, rfl, rfl, rfl⟩

lemma forward_sameConfig : SameConfig a (forward a s info env).1 := by
  unfold forward installFlow
  dsimp only
  split_ifs <;> exact ⟨rfl, rfl, rfl, rfl, rfl, rfl, rfl, rfl⟩

lemma outPort_congr (h : SameConfig a b) (m : Mac) : outPort b s m = outPort a s m := by
  unfold outPort nextHopPort chainIndexOf
  rw [h.myNodeId, h.chainOrder, h.lower, h.higher]

lemma forward_decidedPort : (forward a s info env).1.decidedPort = outPort a s info.macDst := by
  unfold forward
  dsimp only
  split_ifs <;> rfl

lemma onNoRule_sameConfig : SameConfig a (onNoRule a s info env).1 :=
  (learnSource_sameConfig env.now).trans ((announce_sameConfig _).trans forward_sameConfig)

/-- The decision is made on the table the learn leaves. -/
lemma onNoRule_decidedPort : (onNoRule a s info env).1.decidedPort =
    outPort a (learnSource a s info env.now).2.1 info.macDst :=
  forward_decidedPort.trans
    (outPort_congr ((learnSource_sameConfig env.now).trans (announce_sameConfig _)) _)

/-- A packet on the host port makes one learn; any other leaves the table alone. -/
lemma learnSource_eq (info : NoRulePacketInfo) (now : UInt64) :
    (learnSource a s info now).2 =
      if info.inPort = a.hostPort then
        ((daimHostLearnLocal s (some info.macSrc) a.myDpid info.inPort.toUInt32 now).1,
          decide ((daimHostLearnLocal s (some info.macSrc) a.myDpid info.inPort.toUInt32
            now).2 ≠ 0))
      else (s, false) := by
  unfold learnSource
  dsimp only
  split_ifs with hp hq
  · simp [hq]
  · simp [not_not.mp hq]
  · rfl

/-- What is learned depends on the configuration only. -/
lemma learnSource_congr (h : SameConfig a b) (now : UInt64) :
    (learnSource b s info now).2 = (learnSource a s info now).2 := by
  unfold learnSource
  dsimp only
  rw [h.hostPort, h.myDpid]
  split_ifs <;> rfl

lemma setBridge_sameConfig (bridge : List UInt8) : SameConfig a (a.setBridge bridge) :=
  ⟨rfl, rfl, rfl, rfl, rfl, rfl, rfl, rfl⟩

lemma packetIn_eq (ha : a.ready = true) (bridge : List UInt8) :
    daimDistributedLearningAppPacketIn c a s (some bridge) (some info) env =
      ((handle c (a.setBridge bridge) s info env).1.decidedPort,
        handle c (a.setBridge bridge) s info env) := by
  simp [daimDistributedLearningAppPacketIn, ha]

/-- **With its handler registered, the application returns the port for the packet's
destination.** -/
theorem packetIn_port (ha : a.ready = true)
    (hc : daimCoreEmit c noRule = some .distributedLearning) (bridge : List UInt8) :
    (daimDistributedLearningAppPacketIn c a s (some bridge) (some info) env).1 =
      outPort a (learnSource a s info env.now).2.1 info.macDst := by
  have hb : SameConfig a (a.setBridge bridge) := setBridge_sameConfig bridge
  have hh : handle c (a.setBridge bridge) s info env =
      onNoRule (a.setBridge bridge) s info env := by simp only [handle, hc]
  rw [packetIn_eq ha, hh, onNoRule_decidedPort, outPort_congr hb, learnSource_congr hb]

lemma packetIn_sameConfig (ha : a.ready = true) (c : CoreState) (s : State)
    (info : NoRulePacketInfo) (env : Env) (bridge : List UInt8) :
    SameConfig a
      (daimDistributedLearningAppPacketIn c a s (some bridge) (some info) env).2.1 := by
  have hb : SameConfig a (a.setBridge bridge) := setBridge_sameConfig bridge
  rw [packetIn_eq ha]
  unfold handle
  split
  · exact hb.trans onNoRule_sameConfig
  · exact hb

/-- What the first part of `on_no_rule` does to the table. -/
inductive Sources (a : AppState) (s : State) (info : NoRulePacketInfo) (now : UInt64) :
    State × Bool → Prop
  | same : Sources a s info now (s, false)
  | full (hp : info.inPort = a.hostPort) :
      Sources a s info now ({ s with nextLocalSequence := s.nextLocalSequence + 1 }, false)
  | learned (hp : info.inPort = a.hostPort)
      (hl : find s.table info.macSrc = none → s.table.length < maxHostEntries) :
      Sources a s info now
        ({ s with
            nextLocalSequence := s.nextLocalSequence + 1
            table := write s.table
              (localRecord s info.macSrc a.myDpid info.inPort.toUInt32 now) },
          decide (s.nextLocalSequence ≠ 0))

lemma learnSource_sources (a : AppState) (hs : s.ready = true) (info : NoRulePacketInfo)
    (now : UInt64) : Sources a s info now (learnSource a s info now).2 := by
  unfold learnSource
  dsimp only
  by_cases hp : info.inPort = a.hostPort
  · rw [if_pos hp]
    have hl := daimHostLearnLocal_learns hs info.macSrc a.myDpid info.inPort.toUInt32 now
    generalize daimHostLearnLocal s (some info.macSrc) a.myDpid info.inPort.toUInt32 now = q at hl ⊢
    cases hl with
    | full hf hl => exact .full hp
    | learned hl =>
      have hlearned : Sources a s info now _ := .learned hp hl
      by_cases h0 : s.nextLocalSequence = 0
      · simpa [h0] using hlearned
      · simpa [h0] using hlearned
  · rw [if_neg hp]
    exact .same

/-- The host table is used through one learn, if at all. -/
lemma learnSource_state (info : NoRulePacketInfo) (now : UInt64) :
    (learnSource a s info now).2.1 = s ∨ (learnSource a s info now).2.1 =
      (NodeRun.exec s (.learnLocal (some info.macSrc) a.myDpid info.inPort.toUInt32 now)).1 := by
  unfold learnSource
  dsimp only
  split_ifs
  · exact .inr rfl
  · exact .inr rfl
  · exact .inl rfl

lemma packetIn_state (ha : a.ready = true) (c : CoreState) (s : State)
    (info : NoRulePacketInfo) (env : Env) (bridge : List UInt8) :
    (daimDistributedLearningAppPacketIn c a s (some bridge) (some info) env).2.2.1 = s ∨
      (daimDistributedLearningAppPacketIn c a s (some bridge) (some info) env).2.2.1 =
        (NodeRun.exec s
          (.learnLocal (some info.macSrc) a.myDpid info.inPort.toUInt32 env.now)).1 := by
  rw [packetIn_eq ha]
  unfold handle
  split
  · exact learnSource_state (a := a.setBridge bridge) info env.now
  · exact .inl rfl

/-- A learn leaves the record of every other MAC alone. -/
lemma learnSource_find (hs : s.ready = true) (info : NoRulePacketInfo) (now : UInt64) {m : Mac}
    (hm : info.macSrc ≠ m) :
    find (learnSource a s info now).2.1.table m = find s.table m ∧
      (learnSource a s info now).2.1.ready = true := by
  have hl := learnSource_sources a hs info now
  generalize (learnSource a s info now).2 = q at hl ⊢
  cases hl with
  | learned => exact ⟨by simp [find_write, localRecord, hm], hs⟩
  | _ => exact ⟨rfl, hs⟩

end DaimDistributed.LearningApp
