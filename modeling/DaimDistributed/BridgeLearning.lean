import DaimDistributed.LearningApp

/-!
The learning application of a single switch, as `daim_learning_app.c` runs it: one MAC table
for all bridges, and a flow for every destination that is known.
-/

namespace DaimDistributed.BridgeLearning

open HostState
open LearningApp (NoRulePacketInfo ForwardingEntry Effect portFlood portNone flowString
  maxBridgeLen)

def maxEntries : ℕ := 4096

/-- `struct mac_entry`. -/
structure MacEntry where
  bridge : List UInt8
  mac : Mac
  port : UInt16
  deriving DecidableEq

/-- `struct daim_learning_app_timing`. -/
structure Timing where
  entryNs : UInt64 := 0
  decisionDoneNs : UInt64 := 0
  tableWriteDoneNs : UInt64 := 0
  installDoneNs : UInt64 := 0
  exitNs : UInt64 := 0
  installed : Bool := false
  deriving DecidableEq

/-- `struct app_state`, with the adapter replaced by whether it can add flows, and natural numbers
for its two counters. -/
structure AppState where
  ready : Bool := false
  adapter : Bool := false
  table : List MacEntry := []
  currentBridge : List UInt8 := []
  decidedPort : UInt16 := 0
  noRuleEvents : ℕ := 0
  flowsInstalled : ℕ := 0
  lastTiming : Timing := {}
  deriving DecidableEq

/-- What the outside answers to one packet: the clock, stage by stage, and whether `flow_add`
succeeds. -/
structure Env where
  clock : Timing
  flowAdd : Bool
  deriving DecidableEq

/-- The entry is that of `mac` on `bridge`. -/
def MacEntry.isFor (e : MacEntry) (bridge : List UInt8) (mac : Mac) : Bool :=
  decide (e.bridge = bridge ∧ e.mac = mac)

def lookupPort (t : List MacEntry) (bridge : List UInt8) (mac : Mac) : UInt16 :=
  match t.find? fun e => e.isFor bridge mac with
  | some e => e.port
  | none => portFlood

def learn (t : List MacEntry) (bridge : List UInt8) (mac : Mac) (port : UInt16) :
    List MacEntry :=
  match t.findIdx? fun e => e.isFor bridge mac with
  | some i => t.modify i fun e => { e with port := port }
  | none =>
    if maxEntries ≤ t.length then t else t ++ [⟨bridge.take (maxBridgeLen - 1), mac, port⟩]

def installFlow (a : AppState) (bridge : List UInt8) (inPort : UInt16) (macDst : Mac)
    (outPort : UInt16) (env : Env) : AppState × List Effect :=
  if a.adapter = false then (a, [])
  else
    ({ a with flowsInstalled := a.flowsInstalled + if env.flowAdd then 1 else 0 },
      [.flowAdd bridge (flowString inPort macDst outPort)])

/-- The port for a destination, once the source is learned. -/
def decision (a : AppState) (info : NoRulePacketInfo) : UInt16 :=
  lookupPort (learn a.table a.currentBridge info.macSrc info.inPort) a.currentBridge info.macDst

def onNoRule (a : AppState) (info : NoRulePacketInfo) (env : Env) : AppState × List Effect :=
  let out := decision a info
  let entry : ForwardingEntry :=
    ⟨info.inPort, info.macSrc, info.macDst, info.ethernetType, 100, out⟩
  let b : AppState := { a with
    noRuleEvents := a.noRuleEvents + 1
    table := learn a.table a.currentBridge info.macSrc info.inPort
    decidedPort := out
    lastTiming := { a.lastTiming with
      decisionDoneNs := env.clock.decisionDoneNs
      tableWriteDoneNs := env.clock.tableWriteDoneNs
      installDoneNs := env.clock.installDoneNs
      installed := decide (out ≠ portFlood) } }
  if out ≠ portFlood then
    ((installFlow b b.currentBridge info.inPort info.macDst out env).1,
      .tableWrite entry :: (installFlow b b.currentBridge info.inPort info.macDst out env).2)
  else (b, [.tableWrite entry])

/-- The part of `daim_learning_app_init` under the application's lock. -/
def daimLearningAppInit (a : AppState) (adapter : Bool) : AppState :=
  { a with
    ready := true, adapter := adapter, table := [], noRuleEvents := 0, flowsInstalled := 0,
    currentBridge := [], lastTiming := {} }

/-- What `daim_learning_app_packet_in` notes before it hands the packet on. -/
def AppState.enter (a : AppState) (bridge : List UInt8) (env : Env) : AppState :=
  { a with
    lastTiming := { a.lastTiming with entryNs := env.clock.entryNs }
    currentBridge := bridge.take (maxBridgeLen - 1) }

def AppState.exit (a : AppState) (env : Env) : AppState :=
  { a with lastTiming := { a.lastTiming with exitNs := env.clock.exitNs } }

variable {a : AppState} {info : NoRulePacketInfo} {env : Env}

lemma onNoRule_decidedPort : (onNoRule a info env).1.decidedPort = decision a info := by
  unfold onNoRule installFlow
  dsimp only
  split_ifs <;> rfl

end DaimDistributed.BridgeLearning
