import DaimDistributed.SingleSwitch

/-!
The load profile that `daim_bridge_controller.py` reports: events and flows as the learning
application counts them, and the control traffic, measured by the persistent adapter or computed
from the flows and the size of a sample.
-/

namespace DaimDistributed.LoadProfile

open HostState DaimDistributed.Core BridgeLearning Lifecycle Sightings Baseline PersistentWriter
open FlowMod FlowRules OfMessage SingleSwitch Transitions
open LearningApp (NoRulePacketInfo Effect portFlood flowString)

/-- `SAMPLE_FLOW`. -/
def sampleFlow : String := "priority=100,in_port=1,dl_dst=00:00:00:00:00:01,actions=output:1"

/-- `DAIM_ADAPTER_MODE`. -/
inductive AdapterMode
  | processPerRule | persistent
  deriving DecidableEq

/-- What is emitted, without the times. -/
structure Profile where
  noRuleEvents : ℕ
  flowsInstalled : ℕ
  controlBytesTotal : ℕ
  controlMessagesTotal : ℕ
  echoRepliesSent : Option ℕ
  deriving DecidableEq

/-- `wire_flow_mod_bytes`; `none` stands for the `ValueError`. -/
def wireFlowModBytes (flow : String) (isDelete : Bool) : Option ℕ :=
  let n := daimOvsWireFlowModSize flow.toList isDelete
  if n = 0 then none else some n

/-- `_report_load_profile`. -/
def reportLoadProfile (mode : AdapterMode) (stats : BridgeLearning.AppState) (ctx : Context) :
    Option Profile :=
  match mode with
  | .persistent =>
    some ⟨stats.noRuleEvents, stats.flowsInstalled, ctx.bytesSent,
      ctx.flowModsSent + ctx.echoRepliesSent, some ctx.echoRepliesSent⟩
  | .processPerRule =>
    (wireFlowModBytes sampleFlow false).map fun perFlowBytes =>
      ⟨stats.noRuleEvents, stats.flowsInstalled, stats.flowsInstalled * perFlowBytes,
        stats.flowsInstalled, none⟩

/-! ### The size of a flow -/

lemma length_flowString (i : UInt16) (m : Mac) (o : UInt16) (xid : UInt32) :
    ∃ r : Rule, (flowString i m o).toList = r.text ∧
      (buildFlowMod xid ofpfcAdd r.flow).length =
        daimOvsWireFlowModSize sampleFlow.toList false := by
  have hshape : SameShape ⟨some 100, some i, some m, false, some (.output o)⟩
      ⟨some 100, some 1, some (macOf 1), false, some (.output 1)⟩ := ⟨rfl, rfl, rfl, rfl⟩
  refine ⟨_, flowString_toList i m o, ?_⟩
  have hsample : sampleFlow.toList =
      Rule.text ⟨some 100, some 1, some (macOf 1), false, some (.output 1)⟩ := by decide +kernel
  rw [hsample, wireSize_text, if_neg Bool.false_ne_true]
  exact length_sameShape hshape xid 0 ofpfcAdd

/-! ### One packet -/

variable {s : System}

/-- What the call does is what the handler does. -/
lemma packetIn_onNoRule (h : InPlace s) (bridge : List UInt8) (info : NoRulePacketInfo)
    (env : LearningApp.Env) (env' : BridgeLearning.Env) :
    (Lifecycle.packetIn s .bridge bridge info env env').1 =
        { s with learning :=
          ((onNoRule (s.learning.enter bridge env') info env').1).exit env' } ∧
      effects s bridge info env' = (onNoRule (s.learning.enter bridge env') info env').2 := by
  have he : daimCoreEmit (s.enter .bridge bridge env').core noRule = some .learning := h.handler
  have hready : ¬ s.ready .bridge = false := by simp [System.ready, h.ready]
  constructor
  · rw [Lifecycle.packetIn, if_neg hready]
    simp only [emit, he]
    rfl
  · rw [effects, if_neg hready]
    simp only [he]
    rfl

/-- A packet is one event, and a flow that is added counts when the adapter says so. -/
lemma onNoRule_counts {a : AppState} (ha : a.adapter = true) (info : NoRulePacketInfo)
    (env' : BridgeLearning.Env) :
    (onNoRule a info env').1.ready = a.ready ∧ (onNoRule a info env').1.adapter = true ∧
      (onNoRule a info env').1.noRuleEvents = a.noRuleEvents + 1 ∧
      ((newFlow (flowAdds (onNoRule a info env').2) = none ∧
          (onNoRule a info env').1.flowsInstalled = a.flowsInstalled) ∨
        ∃ i m o, newFlow (flowAdds (onNoRule a info env').2) = some (flowString i m o) ∧
          (onNoRule a info env').1.flowsInstalled =
            a.flowsInstalled + if env'.flowAdd then 1 else 0) := by
  have ha' : ¬ a.adapter = false := by simp [ha]
  by_cases hd : decision a info ≠ portFlood
  · simp only [onNoRule, installFlow, if_pos hd, if_neg ha']
    exact ⟨trivial, ha, trivial, .inr ⟨_, _, _, rfl, trivial⟩⟩
  · simp only [onNoRule, if_neg hd]
    exact ⟨trivial, ha, trivial, .inl ⟨rfl, trivial⟩⟩

variable {dpid : UInt64} {hl : List (Loop × SingleSwitch.Act)} {x y : Loop} {fr : Frame}
  {a : Answers} {sent : Option ℕ}

/-- The controller hands a packet to the application and adds what that adds. -/
lemma bridge_packetIn (dpid : UInt64) (b : Bridge) (fr : Frame) (a : Answers) : ∃ bridge info,
    (b.packetIn (fr.msg dpid) a).1.core =
      (Lifecycle.packetIn b.core .bridge bridge info a.env a.env').1 ∧
    newFlow (b.packetIn (fr.msg dpid) a).2 = newFlow (flowAdds (effects b.core bridge info a.env'))
    := by
  have hcore : (b.resolveBridgeName dpid a.name).1.core = b.core := by
    unfold Bridge.resolveBridgeName
    split
    · rfl
    · split_ifs <;> rfl
  rcases hres : b.resolveBridgeName dpid a.name with ⟨b', bridge⟩
  rw [hres] at hcore
  change b'.core = b.core at hcore
  refine ⟨bridge, ⟨fr.inPort.toUInt16, fr.eth.src, fr.eth.dst, fr.eth.ethertype⟩, ?_, ?_⟩
  · simp only [Bridge.packetIn, Frame.msg, hres, noRulePacketInfo_eq, hcore]
  · simp only [Bridge.packetIn, Frame.msg, hres, noRulePacketInfo_eq, hcore, newFlow,
      List.findSome?_append, PacketIn.packetOut, List.findSome?_cons, List.findSome?_nil,
      Option.or_none]

lemma run_echo {ctx : Context} {c : PersistentWriter.Call} {msg : List UInt8}
    (hm : c.message ctx = some msg) (sent : Option ℕ) : (c.run ctx sent).echoRepliesSent =
      ctx.echoRepliesSent + if c.isFlow = false ∧ sent = some msg.length then 1 else 0 := by
  have hflow : ∀ flow command,
      (persistentFlow command ctx flow sent).1.echoRepliesSent = ctx.echoRepliesSent := by
    intro flow command
    unfold persistentFlow
    split
    · rfl
    · dsimp only
      split_ifs <;> rfl
  cases c with
  | flowAdd flow => exact hflow flow _
  | flowDelete flow => exact hflow flow _
  | echoReply xid =>
    cases hm
    simp only [Call.run, echoReply, Call.isFlow, true_and]
    split_ifs <;> rfl

/-- A flow is counted with its bytes, and an echo reply has eight. -/
lemma length_reply {ctx : Context} {c : PersistentWriter.Call} {msg : List UInt8}
    (hm : c.message ctx = some msg) (hc : c.isFlow = false) : msg.length = 8 := by
  cases c with
  | echoReply xid =>
    cases hm
    rfl
  | _ => cases hc

/-- A run of the adapter in which no message was cut: the bytes that it counts are those on the
wire, but for the HELLO and the echo replies. -/
lemma length_stream {h : List (Context × Write)} {ctx : Context}
    (hr : Run PersistentWriter.system h ctx) (hc : ∀ p ∈ h, ¬ Cut p) :
    ctx.stream.length = 8 + ctx.bytesSent + 8 * ctx.echoRepliesSent := by
  refine hr.inv_of_ok (fun ctx w => ¬ Cut (ctx, w))
    (fun ctx => ctx.stream.length = 8 + ctx.bytesSent + 8 * ctx.echoRepliesSent)
    (fun ctx h0 => by obtain rfl := h0; rfl) ?_ hc
  intro ctx w ctx' hi hcut hst
  rcases step_some hst with ⟨-, rfl⟩ | ⟨msg, hm, hle, rfl⟩
  · exact hi
  · obtain ⟨hs, -, hb⟩ := run_some hm w.sent
    have he := run_echo hm w.sent
    have hk : w.sent.getD 0 = 0 ∨ w.sent = some msg.length := by
      rcases hw : w.sent with _ | k
      · exact .inl rfl
      · rw [hw, Option.getD_some] at hle
        rcases Nat.eq_zero_or_pos k with rfl | hpos
        · exact .inl rfl
        · have hcut' : ¬ k < msg.length := fun hlt => hcut ⟨msg, k, hm, hw, hpos, hlt⟩
          exact .inr (congrArg some (by omega))
    have hpos : 0 < msg.length := List.length_pos_iff.mpr (message_ne_nil hm)
    rw [hs, hb, he, List.length_append, List.length_take, hi]
    rcases hk with h0 | hall
    · have hne : w.sent ≠ some msg.length := fun h => by
        rw [h, Option.getD_some] at h0
        omega
      simp [h0, hne]
    · cases hf : w.call.isFlow with
      | true => simp [hall]; omega
      | false =>
        have := length_reply hm hf
        simp [hall]
        omega

/-! ### Every run -/

/-- What the application and the adapter have counted. -/
structure Counted (hl : List (Loop × SingleSwitch.Act)) (x : Loop) : Prop where
  inPlace : InPlace x.controller.core
  adapter : x.controller.core.learning.adapter = true
  events : x.controller.core.learning.noRuleEvents = (missed hl).length
  flows : x.controller.core.learning.flowsInstalled = x.adapter.flowModsSent
  bytes : x.adapter.bytesSent =
    x.adapter.flowModsSent * daimOvsWireFlowModSize sampleFlow.toList false

/-- What a Packet-In leaves of the application. -/
lemma application_packetIn (h : InPlace x.controller.core)
    (ha : x.controller.core.learning.adapter = true) (dpid : UInt64) (fr : Frame) (a : Answers) :
    let b := (x.controller.packetIn (fr.msg dpid) a).1.core
    let flow := newFlow (x.controller.packetIn (fr.msg dpid) a).2
    InPlace b ∧ b.learning.adapter = true ∧
      b.learning.noRuleEvents = x.controller.core.learning.noRuleEvents + 1 ∧
      ((flow = none ∧
          b.learning.flowsInstalled = x.controller.core.learning.flowsInstalled) ∨
        ∃ i m o, flow = some (flowString i m o) ∧ b.learning.flowsInstalled =
          x.controller.core.learning.flowsInstalled + if a.env'.flowAdd then 1 else 0) := by
  obtain ⟨bridge, info, hcore, hflow⟩ := bridge_packetIn dpid x.controller fr a
  obtain ⟨hstate, heff⟩ := packetIn_onNoRule h bridge info a.env a.env'
  have hadapter : (x.controller.core.learning.enter bridge a.env').adapter = true := ha
  obtain ⟨hr, ha', he, hf⟩ := onNoRule_counts hadapter info a.env'
  dsimp only
  rw [hcore, hflow, heff, hstate]
  exact ⟨⟨hr.trans h.ready, h.handler⟩, ha', he, hf⟩

/-- The adapter counts a flow whose message was taken, and its bytes. -/
lemma flowAdd_counts {ctx ctx' : Context} {i o : UInt16} {m : Mac}
    (hst : PersistentWriter.step ctx ⟨.flowAdd (flowString i m o).toList, sent⟩ = some ctx') :
    ctx'.flowModsSent = ctx.flowModsSent +
        (if (persistentFlowAdd ctx (flowString i m o).toList sent).2 = 0 then 1 else 0) ∧
      ctx'.bytesSent = ctx.bytesSent +
        if (persistentFlowAdd ctx (flowString i m o).toList sent).2 = 0 then
          daimOvsWireFlowModSize sampleFlow.toList false else 0 := by
  obtain ⟨r, htext, hsize⟩ := length_flowString i m o ctx.nextXid
  rw [htext] at hst ⊢
  rcases step_some hst with ⟨hm, -⟩ | ⟨msg, hm, -, rfl⟩
  · simp [Call.message, parse_text] at hm
  · obtain ⟨-, hf, hb⟩ := run_some hm sent
    obtain rfl : buildFlowMod ctx.nextXid ofpfcAdd r.flow = msg := by
      simpa [Call.message, parse_text] using hm
    simp only [Call.isFlow, true_and] at hf hb
    rw [hf, hb, ← hsize]
    simp only [flowAdd_ok, and_self]

lemma Counted.miss (hc : Counted hl x) (hst : x.packetIn (fr.msg dpid) a sent = some y) :
    Counted (hl ++ [(x, .frame fr none a sent)]) y := by
  obtain ⟨hin, had, hev, hfl⟩ := application_packetIn hc.inPlace hc.adapter dpid fr a
  have hevents : (x.controller.packetIn (fr.msg dpid) a).1.core.learning.noRuleEvents =
      (missed (hl ++ [(x, .frame fr none a sent)])).length := by
    rw [hev, missed, shown_snoc, List.length_append, hc.events]
    rfl
  unfold Loop.packetIn at hst
  dsimp only at hst hfl
  generalize x.controller.packetIn (fr.msg dpid) a = r at hst hin had hevents hfl
  rcases hfl with ⟨hnone, hsame⟩ | ⟨i, m, o, hflow, hcount⟩
  · rw [hnone] at hst
    cases hst
    exact ⟨hin, had, hevents, hsame.trans hc.flows, hc.bytes⟩
  · rw [hflow] at hst
    dsimp only at hst
    split_ifs at hst with hguard
    obtain ⟨ctx, hctx, rfl⟩ := Option.map_eq_some_iff.mp hst
    obtain ⟨hf, hb⟩ := flowAdd_counts hctx
    refine ⟨hin, had, hevents, ?_, ?_⟩
    · rw [hcount, hf, hc.flows, hguard]
      simp only [decide_eq_true_eq]
    · rw [hf, hb, hc.bytes]
      generalize daimOvsWireFlowModSize sampleFlow.toList false = n
      split_ifs
      · rw [Nat.succ_mul]
      · rfl

lemma Counted.step (hc : Counted hl x) {act : SingleSwitch.Act}
    (hst : SingleSwitch.step dpid x act = some y) : Counted (hl ++ [(x, act)]) y := by
  have hmissed : act.missed? = none → missed (hl ++ [(x, act)]) = missed hl := fun h => by
    rw [missed, shown_snoc, h, Option.toList_none, List.append_nil]
    rfl
  cases act with
  | receive k =>
    cases hst
    exact ⟨hc.inPlace, hc.adapter, hmissed rfl ▸ hc.events, hc.flows, hc.bytes⟩
  | echo xid sent =>
    obtain ⟨ctx, hctx, rfl⟩ := Option.map_eq_some_iff.mp hst
    have hsame : ctx.flowModsSent = x.adapter.flowModsSent ∧
        ctx.bytesSent = x.adapter.bytesSent := by
      rcases step_some hctx with ⟨-, rfl⟩ | ⟨msg, hm, -, rfl⟩
      · exact ⟨rfl, rfl⟩
      · obtain ⟨-, hf, hb⟩ := run_some hm sent
        simp only [Call.isFlow, Bool.false_eq_true, false_and, if_false, Nat.add_zero] at hf hb
        exact ⟨hf, hb⟩
    refine ⟨hc.inPlace, hc.adapter, hmissed rfl ▸ hc.events, ?_, ?_⟩
    · rw [hsame.1]
      exact hc.flows
    · rw [hsame.1, hsame.2]
      exact hc.bytes
  | frame fr flow a sent =>
    rcases flow with _ | f
    · simp only [SingleSwitch.step] at hst
      split_ifs at hst
      exact hc.miss hst
    · simp only [SingleSwitch.step] at hst
      split_ifs at hst
      cases hst
      exact ⟨hc.inPlace, hc.adapter, hmissed rfl ▸ hc.events, hc.flows, hc.bytes⟩

lemma counted (hr : Run (loop dpid) hl x) : Counted hl x := by
  induction hr with
  | init h0 =>
    obtain ⟨h1, h2, -⟩ := h0
    exact ⟨by rw [h1]; exact ⟨rfl, by decide⟩, by rw [h1]; rfl, by rw [h1]; rfl,
      by rw [h1, h2]; rfl, by rw [h2]; rfl⟩
  | step _ hst ih => exact ih.step hst

lemma report_computed (stats : AppState) (ctx : Context) :
    reportLoadProfile .processPerRule stats ctx = some ⟨stats.noRuleEvents, stats.flowsInstalled,
      stats.flowsInstalled * daimOvsWireFlowModSize sampleFlow.toList false,
      stats.flowsInstalled, none⟩ := by
  have hsize : ¬ daimOvsWireFlowModSize sampleFlow.toList false = 0 := by decide +kernel
  simp only [reportLoadProfile, wireFlowModBytes, if_neg hsize, Option.map_some]

/-- **The measured and the computed control traffic are the same.** In every run of the loop,
whatever the sends return, the profile counts the packets that the controller has seen, and
the bytes and the flows that the adapter has measured are those that would be computed for an
adapter that does not measure. Where no message was cut they are, with the echo replies, all
that was written behind the HELLO. -/
theorem load_profile (hr : Run (loop dpid) hl x) : ∃ p q,
    reportLoadProfile .persistent x.controller.core.learning x.adapter = some p ∧
    reportLoadProfile .processPerRule x.controller.core.learning x.adapter = some q ∧
    p.noRuleEvents = (missed hl).length ∧ p.controlBytesTotal = q.controlBytesTotal ∧
    p.controlMessagesTotal = q.controlMessagesTotal + x.adapter.echoRepliesSent ∧
    ((∀ w ∈ writes dpid hl, ¬ Cut w) →
      x.adapter.stream.length = 8 + p.controlBytesTotal + 8 * x.adapter.echoRepliesSent) := by
  have hc := counted hr
  refine ⟨_, _, rfl, report_computed _ _, hc.events, ?_, ?_, length_stream (run_writes hr)⟩
  · rw [hc.flows]
    exact hc.bytes
  · rw [← hc.flows]

/-- One flow of 96 bytes and one echo reply, with the HELLO. -/
theorem load_profile_exchange : ∃ p q,
    reportLoadProfile .persistent exchanged.2.controller.core.learning exchanged.2.adapter =
      some p ∧
    reportLoadProfile .processPerRule exchanged.2.controller.core.learning exchanged.2.adapter =
      some q ∧
    p.noRuleEvents = 2 ∧ p.controlBytesTotal = q.controlBytesTotal ∧
    p.controlMessagesTotal = q.controlMessagesTotal + exchanged.2.adapter.echoRepliesSent ∧
    exchanged.2.adapter.stream.length =
      8 + p.controlBytesTotal + 8 * exchanged.2.adapter.echoRepliesSent := by
  obtain ⟨p, q, h1, h2, h3, h4, h5, h6⟩ := load_profile exchanged_run
  have hmissed : (missed exchanged.1).length = 2 := by decide +kernel
  exact ⟨p, q, h1, h2, h3.trans hmissed, h4, h5,
    h6 fun w hw => not_cut_of_whole (exchanged_facts.2.2.1 w hw)⟩

end DaimDistributed.LoadProfile
