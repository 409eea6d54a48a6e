import DaimDistributed.BridgeLearning

/-!
Which handler answers a packet, over the lifecycle calls of three modules.

A packet is handed to whatever handler the core has registered, and the port that is
returned is read back from the application afterwards. The registration is followed by an
abstract machine that only knows whether the core is up and who registered last.
-/

namespace DaimDistributed.Lifecycle

open HostState DaimDistributed.Core Transitions
open LearningApp (NoRulePacketInfo Effect portFlood portNone)

/-- The two applications that hand packets to the core. -/
inductive App
  | distributed | bridge
  deriving DecidableEq

def App.handler : App → Sighandler
  | .distributed => .distributedLearning
  | .bridge => .learning

/-- The process: the core, the two applications and the host table. -/
structure System where
  core : CoreState := {}
  dist : LearningApp.AppState := {}
  learning : BridgeLearning.AppState := {}
  host : State := {}
  deriving DecidableEq

/-- The arguments of `daim_distributed_learning_app_init`. -/
structure DistConfig where
  adapter : Bool
  myNodeId : UInt64
  myDpid : UInt64
  hostPort : UInt16
  chainOrder : Option (List UInt64)
  portTowardLower : UInt16
  portTowardHigher : UInt16
  transport : Bool
  deriving DecidableEq

inductive Call
  | daimInit
  | daimQuit
  | daimSignal (sigType : ℕ) (handler : Option Sighandler)
  | distInit (cfg : DistConfig)
  | learningInit (adapter : Bool)
  | hostInit (nodeId ownerEpoch : UInt64)
  | hostOp (op : NodeRun.Op)
  | packetIn (app : App) (bridge : List UInt8) (info : NoRulePacketInfo)
      (env : LearningApp.Env) (env' : BridgeLearning.Env)
  deriving DecidableEq

/-- The result of `daim_distributed_learning_app_init`, if it is not -1. -/
def distInit (x : System) (cfg : DistConfig) : Option (LearningApp.AppState × CoreState) :=
  LearningApp.daimDistributedLearningAppInit x.dist x.core cfg.adapter cfg.myNodeId cfg.myDpid
    cfg.hostPort cfg.chainOrder cfg.portTowardLower cfg.portTowardHigher cfg.transport

/-- `daim_core_emit` of a packet: the handler that is registered, run. -/
def emit (x : System) (info : NoRulePacketInfo) (env : LearningApp.Env)
    (env' : BridgeLearning.Env) : System :=
  match daimCoreEmit x.core noRule with
  | some .distributedLearning =>
    { x with
      dist := (LearningApp.onNoRule x.dist x.host info env).1
      host := (LearningApp.onNoRule x.dist x.host info env).2.1 }
  | some .learning => { x with learning := (BridgeLearning.onNoRule x.learning info env').1 }
  | _ => x

def System.ready (x : System) : App → Bool
  | .distributed => x.dist.ready
  | .bridge => x.learning.ready

/-- The port an application decided last. -/
def System.decidedPort (x : System) : App → UInt16
  | .distributed => x.dist.decidedPort
  | .bridge => x.learning.decidedPort

/-- What an application notes before it emits. -/
def System.enter (x : System) (app : App) (bridge : List UInt8) (env' : BridgeLearning.Env) :
    System :=
  match app with
  | .distributed => { x with dist := x.dist.setBridge bridge }
  | .bridge => { x with learning := x.learning.enter bridge env' }

/-- And after. -/
def System.exit (x : System) (app : App) (env' : BridgeLearning.Env) : System :=
  match app with
  | .distributed => x
  | .bridge => { x with learning := x.learning.exit env' }

/-- The two `packet_in` functions: the state left behind and the port returned. -/
def packetIn (x : System) (app : App) (bridge : List UInt8) (info : NoRulePacketInfo)
    (env : LearningApp.Env) (env' : BridgeLearning.Env) : System × UInt16 :=
  if x.ready app = false then (x, portNone)
  else
    let y := emit (x.enter app bridge env') info env env'
    (y.exit app env', y.decidedPort app)

def step (x : System) : Call → System
  | .daimInit => { x with core := Core.daimInit x.core }
  | .daimQuit => { x with core := Core.daimQuit x.core }
  | .daimSignal sigType handler => { x with core := Core.daimSignal x.core sigType handler }
  | .distInit cfg =>
    match distInit x cfg with
    | none => x
    | some (dist, core) => { x with dist := dist, core := core }
  | .learningInit adapter =>
    { x with
      learning := BridgeLearning.daimLearningAppInit x.learning adapter
      core := Core.daimSignal x.core noRule (some .learning) }
  | .hostInit nodeId ownerEpoch => { x with host := daimHostStateInit x.host nodeId ownerEpoch }
  | .hostOp op => { x with host := (NodeRun.exec x.host op).1 }
  | .packetIn app bridge info env env' => (packetIn x app bridge info env env').1

/-- A process from its start. -/
def system : Lts System Call := ofFun (· = {}) fun x k => some (step x k)

/-- The port the handler of an application computes for a packet from the tables as they
are. -/
def computed (x : System) (app : App) (bridge : List UInt8) (info : NoRulePacketInfo)
    (env : LearningApp.Env) : UInt16 :=
  match app with
  | .distributed => LearningApp.outPort x.dist
      (LearningApp.learnSource x.dist x.host info env.now).2.1 info.macDst
  | .bridge => BridgeLearning.lookupPort
      (BridgeLearning.learn x.learning.table (bridge.take (LearningApp.maxBridgeLen - 1))
        info.macSrc info.inPort)
      (bridge.take (LearningApp.maxBridgeLen - 1)) info.macDst

/-- A packet is answered with `PORT_NONE`, or with what the application's own handler computed
during the call. -/
def Fresh (x : System) : Call → Prop
  | .packetIn app bridge info env env' =>
    (packetIn x app bridge info env env').2 = portNone ∨
      daimCoreEmit x.core noRule = some app.handler ∧
        (packetIn x app bridge info env env').2 = computed x app bridge info env
  | _ => True

/-! ### The registration, abstractly -/

/-- The core is down, or up with the handler that was registered for packets. -/
inductive Phase
  | down
  | up (handler : Option Sighandler)
  deriving DecidableEq

/-- A registration counts only while the core is up. -/
def Phase.register (ph : Phase) (handler : Option Sighandler) : Phase :=
  match ph with
  | .down => .down
  | .up _ => .up handler

/-- The chain is one the application accepts. -/
def DistConfig.valid (cfg : DistConfig) : Bool :=
  match cfg.chainOrder with
  | none => false
  | some chain => decide (¬ (chain.length = 0 ∨ LearningApp.daimDistMaxChain < chain.length))

def Phase.next (ph : Phase) : Call → Phase
  | .daimInit => match ph with
    | .down => .up none
    | .up handler => .up handler
  | .daimQuit => .down
  | .daimSignal sigType handler => if sigType = noRule then ph.register handler else ph
  | .distInit cfg => if cfg.valid then ph.register (some .distributedLearning) else ph
  | .learningInit _ => ph.register (some .learning)
  | _ => ph

/-- The phase after the calls of a run. -/
def phase (h : List (System × Call)) : Phase := h.foldl (fun ph p => ph.next p.2) .down

/-- The core is in a phase. -/
def InPhase (c : CoreState) : Phase → Prop
  | .down => c.initialised = false
  | .up handler => c.lockReady = true ∧ c.initialised = true ∧
      c.signals.length = signalSlots ∧ c.signals[noRule]? = some handler

variable {c : CoreState} {ph : Phase} {x : System} {k : Call} {app : App} {bridge : List UInt8}
  {info : NoRulePacketInfo} {env : LearningApp.Env} {env' : BridgeLearning.Env}
  {h : List (System × Call)}

lemma inPhase_signal (hc : InPhase c ph) (sigType : ℕ) (handler : Option Sighandler) :
    InPhase (Core.daimSignal c sigType handler)
      (if sigType = noRule then ph.register handler else ph) := by
  cases ph with
  | down =>
    have h0 : c.initialised = false := hc
    have hd : Core.daimSignal c sigType handler = c := by simp [Core.daimSignal, h0]
    rw [hd, Phase.register, ite_self]
    exact hc
  | up old =>
    obtain ⟨hl, hi, hlen, hg⟩ := hc
    unfold Core.daimSignal
    by_cases hlt : sigType < signalSlots
    · simp only [hl, hi, hlt, Bool.and_true, decide_true, if_true]
      by_cases hs : sigType = noRule
      · subst hs
        have hlt' : noRule < c.signals.length := hlen ▸ hlt
        rw [if_pos rfl]
        exact ⟨rfl, rfl, by simp [hlen], List.getElem?_set_self hlt'⟩
      · rw [if_neg hs]
        refine ⟨rfl, rfl, by simp [hlen], ?_⟩
        rw [List.getElem?_set_ne hs]
        exact hg
    · have hs : sigType ≠ noRule := fun he => hlt (he ▸ by decide)
      simp only [hlt, decide_false, Bool.and_false, Bool.false_eq_true, if_false, if_neg hs]
      exact ⟨hl, hi, hlen, hg⟩

lemma emit_core : (emit x info env env').core = x.core := by
  unfold emit
  split <;> rfl

lemma packetIn_core : (packetIn x app bridge info env env').1.core = x.core := by
  have hexit : ∀ y : System, (y.exit app env').core = y.core := fun y => by cases app <;> rfl
  have henter : (x.enter app bridge env').core = x.core := by cases app <;> rfl
  unfold packetIn
  split
  · rfl
  · rw [hexit, emit_core, henter]

/-- **The core follows the abstract machine.** -/
lemma step_inPhase (hc : InPhase x.core ph) (k : Call) : InPhase (step x k).core (ph.next k) := by
  cases k with
  | daimInit =>
    cases ph with
    | down =>
      have h0 : x.core.initialised = false := hc
      simp [step, Core.daimInit, h0, InPhase, Phase.next, noRule, signalSlots]
    | up handler =>
      obtain ⟨hl, hi, hlen, hg⟩ := hc
      simp [step, Core.daimInit, hi, InPhase, Phase.next, hlen, hg]
  | daimQuit =>
    cases ph with
    | down =>
      have h0 : x.core.initialised = false := hc
      by_cases hl : x.core.lockReady = true
      · simp [step, Core.daimQuit, hl, InPhase, Phase.next]
      · simp [step, Core.daimQuit, hl, InPhase, Phase.next, h0]
    | up handler => simp [step, Core.daimQuit, hc.1, InPhase, Phase.next]
  | daimSignal sigType handler => exact inPhase_signal hc sigType handler
  | distInit cfg =>
    have hsig := inPhase_signal hc noRule (some .distributedLearning)
    rw [if_pos rfl] at hsig
    have hcase : (distInit x cfg = none ∧ cfg.valid = false) ∨ ∃ d, distInit x cfg =
        some (d, Core.daimSignal x.core noRule (some .distributedLearning)) ∧ cfg.valid = true := by
      unfold distInit LearningApp.daimDistributedLearningAppInit DistConfig.valid
      rcases cfg.chainOrder with _ | chain
      · exact .inl ⟨rfl, rfl⟩
      · by_cases hv : chain.length = 0 ∨ LearningApp.daimDistMaxChain < chain.length
        · exact .inl ⟨if_pos hv, decide_eq_false (not_not.mpr hv)⟩
        · exact .inr ⟨_, if_neg hv, decide_eq_true hv⟩
    rcases hcase with ⟨hd, hv⟩ | ⟨d, hd, hv⟩
    · simpa [step, Phase.next, hd, hv] using hc
    · simpa [step, Phase.next, hd, hv] using hsig
  | learningInit adapter =>
    have hsig := inPhase_signal hc noRule (some .learning)
    rwa [if_pos rfl] at hsig
  | hostInit nodeId ownerEpoch => exact hc
  | hostOp op => exact hc
  | packetIn app bridge info env env' =>
    rw [step, packetIn_core]
    exact hc

lemma run_inPhase (hr : Run system h x) : InPhase x.core (phase h) := by
  induction hr with
  | init h0 =>
    obtain rfl := h0
    rfl
  | @step h x y k _ hst ih =>
    obtain rfl : step x k = y := Option.some.inj hst
    rw [phase, List.foldl_append]
    exact step_inPhase ih k

/-- The handler that answers in a phase. -/
lemma emit_of_inPhase (hc : InPhase c ph) (handler : Sighandler) :
    daimCoreEmit c noRule = some handler ↔ ph = .up (some handler) := by
  cases ph with
  | down =>
    have h0 : c.initialised = false := hc
    simp [daimCoreEmit, h0]
  | up old =>
    obtain ⟨hl, hi, hlen, hg⟩ := hc
    have hlt : noRule < signalSlots := by decide
    simp [daimCoreEmit, hl, hi, hlt, hg]

/-! ### What a packet is answered with -/

lemma emit_other (hne : daimCoreEmit x.core noRule ≠ some app.handler) :
    (emit x info env env').decidedPort app = x.decidedPort app := by
  unfold emit
  cases app <;> split
  all_goals first
    | rfl
    | (rename_i h; exact absurd h hne)

/-- **With its own handler registered an application answers with what it computes.** -/
lemma packetIn_own (hr : x.ready app = true)
    (hown : daimCoreEmit x.core noRule = some app.handler) :
    (packetIn x app bridge info env env').2 = computed x app bridge info env := by
  rw [packetIn, if_neg (by simp [hr])]
  cases app with
  | distributed =>
    have hs := LearningApp.setBridge_sameConfig (a := x.dist) bridge
    have he : daimCoreEmit (x.enter .distributed bridge env').core noRule =
        some .distributedLearning := hown
    simp only [emit, he, System.decidedPort, computed, LearningApp.onNoRule_decidedPort]
    rw [← LearningApp.outPort_congr hs, ← LearningApp.learnSource_congr hs]
    rfl
  | bridge =>
    have he : daimCoreEmit (x.enter .bridge bridge env').core noRule = some .learning := hown
    simp only [emit, he, System.decidedPort, computed, BridgeLearning.onNoRule_decidedPort]
    rfl

/-- Otherwise it answers with what it decided last. -/
lemma packetIn_stale (hr : x.ready app = true)
    (hne : daimCoreEmit x.core noRule ≠ some app.handler) :
    (packetIn x app bridge info env env').2 = x.decidedPort app := by
  rw [packetIn, if_neg (by simp [hr])]
  have hcore : (x.enter app bridge env').core = x.core := by cases app <;> rfl
  dsimp only
  rw [emit_other (by rwa [hcore])]
  cases app <;> rfl

/-- The distributed application's part of the process is what it is on its own. -/
lemma packetIn_distributed :
    (packetIn x .distributed bridge info env env').2 =
        (LearningApp.daimDistributedLearningAppPacketIn x.core x.dist x.host (some bridge)
          (some info) env).1 ∧
      (packetIn x .distributed bridge info env env').1.dist =
        (LearningApp.daimDistributedLearningAppPacketIn x.core x.dist x.host (some bridge)
          (some info) env).2.1 ∧
      (packetIn x .distributed bridge info env env').1.host =
        (LearningApp.daimDistributedLearningAppPacketIn x.core x.dist x.host (some bridge)
          (some info) env).2.2.1 := by
  by_cases hr : x.dist.ready = false
  · simp [packetIn, System.ready, LearningApp.daimDistributedLearningAppPacketIn, hr]
  rw [LearningApp.packetIn_eq (by simpa using hr)]
  rw [packetIn, if_neg (by simpa [System.ready] using hr)]
  have hcore : (x.enter .distributed bridge env').core = x.core := rfl
  simp only [emit, hcore, LearningApp.handle]
  rcases daimCoreEmit x.core noRule with _ | (_ | _ | _) <;> exact ⟨rfl, rfl, rfl⟩

/-- The application is not initialised, or its handler is the one that is registered, or it
decided `PORT_NONE` last. -/
def Served (ph : Phase) (x : System) : Call → Prop
  | .packetIn app _ _ _ _ =>
    x.ready app = false ∨ ph = .up (some app.handler) ∨ x.decidedPort app = portNone
  | _ => True

lemma fresh_iff (hc : InPhase x.core ph) (k : Call) : Fresh x k ↔ Served ph x k := by
  cases k with
  | packetIn app bridge info env env' =>
    simp only [Fresh, Served]
    by_cases hr : x.ready app = false
    · simp [packetIn, hr]
    have hready : x.ready app = true := by simpa using hr
    by_cases hown : daimCoreEmit x.core noRule = some app.handler
    · have hph := (emit_of_inPhase hc app.handler).mp hown
      exact ⟨fun _ => .inr (.inl hph), fun _ => .inr ⟨hown, packetIn_own hready hown⟩⟩
    · have hph : ph ≠ .up (some app.handler) := fun he =>
        hown ((emit_of_inPhase hc app.handler).mpr he)
      rw [packetIn_stale hready hown]
      simp [hown, hph, hready]
  | _ => simp [Fresh, Served]

/-- **Every packet of a run gets a decision of its own, if and only if** the application that
takes it is the last that registered since the core was last started, or was never initialised,
or decided `PORT_NONE` last. -/
theorem packets_fresh_iff (hr : Run system h x) :
    (∀ p ∈ h, Fresh p.1 p.2) ↔ ∀ h1 p h2, h = h1 ++ p :: h2 → Served (phase h1) p.1 p.2 := by
  have hphase : ∀ h1 p h2, h = h1 ++ p :: h2 → InPhase p.1.core (phase h1) :=
    fun h1 p h2 he => run_inPhase (hr.of_append he).1
  constructor
  · rintro hf h1 p h2 rfl
    exact (fresh_iff (hphase h1 p h2 rfl) p.2).mp (hf p (by simp))
  · intro hs p hp
    obtain ⟨h1, h2, -, he, -, -⟩ := hr.split hp
    exact (fresh_iff (hphase h1 p h2 he) p.2).mpr (hs h1 p h2 he)

instance decidableFresh (x : System) : (k : Call) → Decidable (Fresh x k)
  | .packetIn _ _ _ _ _ => inferInstanceAs (Decidable (_ ∨ _ ∧ _))
  | .daimInit | .daimQuit | .daimSignal _ _ | .distInit _ | .learningInit _
  | .hostInit _ _ | .hostOp _ =>
    inferInstanceAs (Decidable True)

/-- The ports that the packets of a run were answered with. -/
def ports (h : List (System × Call)) : List UInt16 :=
  h.filterMap fun p => match p.2 with
    | .packetIn app bridge info env env' => some (packetIn p.1 app bridge info env env').2
    | _ => none

/-- Node 1 of a chain of two, with its host on port 1. -/
def chainOfTwo : DistConfig := ⟨false, 1, 1, 1, some [1, 2], 2, 3, false⟩

/-- A node as it is set up: the core, the host table, the application. -/
def setUp : List Call := [.daimInit, .hostInit 1 7, .distInit chainOfTwo]

/-- A packet from host 1 on the host port. -/
def packetTo (dst : UInt8) : Call :=
  .packetIn .distributed [115, 49] ⟨1, macOf 1, macOf dst, 0x800⟩ ⟨5, true⟩ ⟨{}, true⟩

/-- Host 1 is found on port 1, and the unknown host 9 is flooded. -/
theorem packets_fresh_iff_started : ∃ h x, Run system h x ∧ ports h = [1, portFlood] ∧
    ((∀ p ∈ h, Fresh p.1 p.2) ↔
      ∀ h1 p h2, h = h1 ++ p :: h2 → Served (phase h1) p.1 p.2) := by
  obtain ⟨h, x, hr, hp⟩ := exists_run_of_replay (f := fun x k => some (step x k)) (i := (· = {}))
    (setUp ++ [packetTo 1, packetTo 9]) rfl (fun h _ => ports h = [1, portFlood]) (by decide)
  exact ⟨h, x, hr, hp, packets_fresh_iff hr⟩

/-- **After `daim_quit` a packet gets the decision of the packet before it.** Host 1 is known
on port 1; the packet to the unknown host 9 is answered with that port too. -/
theorem stale_after_quit : ∃ h x, Run system h x ∧ ports h = [1, 1] ∧
    ¬ ∀ p ∈ h, Fresh p.1 p.2 := by
  obtain ⟨h, x, hr, hp⟩ := exists_run_of_replay (f := fun x k => some (step x k)) (i := (· = {}))
    (setUp ++ [packetTo 1, .daimQuit, packetTo 9]) rfl
    (fun h _ => ports h = [1, 1] ∧ ¬ ∀ p ∈ h, Fresh p.1 p.2) (by decide)
  exact ⟨h, x, hr, hp⟩

end DaimDistributed.Lifecycle
