import DaimDistributed.Baseline
import DaimDistributed.PersistentWriter

/-!
One switch and its controller in a loop: `daim_bridge_controller.py` with the learning
application and the persistent adapter, and the switch that reads what the adapter writes.

A packet for which the switch has read a flow is forwarded by it and the controller never sees
it. Every other packet is a Packet-In; the flow that the controller adds for it is written to a
stream, which the switch reads at its own pace.
-/

namespace DaimDistributed.SingleSwitch

open HostState Baseline CappedMap PersistentWriter FlowMod FlowRules OfMessage OfSwitch Delimited
  Transitions
open LearningApp (maxBridgeLen flowString)

/-! ### The switch -/

/-- The next message, by the length in its header. -/
def readMessage (s : List UInt8) : Option (List UInt8 × List UInt8) :=
  if s.length < ofpHeaderSize ∨ headerLength s < ofpHeaderSize then none
  else chunk (headerLength s) s

/-- What the switch makes of a message. -/
def flowOf (msg : List UInt8) : Option OfSwitch.FlowMod :=
  if headerType msg = ofptFlowMod then readFlowMod msg else none

/-- The flows a switch has read out of a part of the stream. -/
def flowsIn (s : List UInt8) : List OfSwitch.FlowMod :=
  (readMost readMessage s.length s).filterMap flowOf

lemma headerLength_take (s : List UInt8) : headerLength (s.take ofpHeaderSize) = headerLength s := by
  rw [headerLength, headerLength, List.drop_take, List.take_take]
  rfl

lemma headerLength_bytes (m : Message) (rest : List UInt8) :
    headerLength (m.bytes ++ rest) = m.length := by
  rw [← headerLength_take, take_bytes, headerLength_header]

lemma readMessage_shorter (s b r : List UInt8) (h : readMessage s = some (b, r)) :
    r.length < s.length := by
  unfold readMessage chunk at h
  split_ifs at h with h1 h2
  cases h
  rw [List.length_drop]
  have : ofpHeaderSize = 8 := rfl
  omega

/-- Messages are told apart by their lengths. -/
lemma delimits_message : Delimits readMessage Message.bytes Message.bytes where
  empty := rfl
  whole m rest := by
    have hl := headerLength_bytes m rest
    have hm : m.bytes.length = m.length := length_bytes m
    have h8 : ofpHeaderSize ≤ m.length := Nat.le_add_right _ _
    have hs : ¬ ((m.bytes ++ rest).length < ofpHeaderSize ∨
        headerLength (m.bytes ++ rest) < ofpHeaderSize) := by
      rw [hl, List.length_append]
      omega
    have hc : ¬ (m.bytes ++ rest).length < m.length := by
      rw [List.length_append]
      omega
    rw [readMessage, if_neg hs, hl, chunk, if_neg hc, List.take_left' hm, List.drop_left' hm]
  cut m k hk := by
    rw [length_bytes] at hk
    unfold readMessage
    split_ifs with hs
    · rfl
    · have hlen : (m.bytes.take k).length = k := by
        rw [List.length_take_of_le (by rw [length_bytes]; omega)]
      have hk8 : ofpHeaderSize ≤ k := by omega
      have hl : headerLength (m.bytes.take k) = m.length := by
        rw [← headerLength_take, List.take_take, Nat.min_eq_left hk8, headerLength_take]
        simpa using headerLength_bytes m []
      rw [chunk, hl, if_pos (by omega)]

/-- What is built for a rule is read as the rule. -/
lemma flowOf_build (r : Rule) (xid : UInt32) (command : UInt8) :
    flowOf (buildFlowMod xid command r.flow) = some (r.flowMod xid command) := by
  obtain ⟨m, ht, hm⟩ := buildFlowMod_message r.flow xid command
  have htype : headerType (buildFlowMod xid command r.flow) = ofptFlowMod := by
    rw [← hm, ← ht]
    rfl
  rw [flowOf, if_pos htype, readFlowMod_buildFlowMod, readBack_flow]

variable {h : List (Context × Write)} {ctx : Context} {ms : List Message} {rest : List UInt8}

/-- The switch has read some of the messages. -/
lemma exists_readMost (hf : Framed h ctx ms rest) (k : ℕ) :
    ∃ j, readMost readMessage (ctx.stream.take k).length (ctx.stream.take k) =
      (ms.take j).map Message.bytes := by
  have hread : ∃ j r, Reads readMessage (ctx.stream.take k) ((ms.take j).map Message.bytes) r := by
    rcases hf.rest with rfl | ⟨p, -, msg, hm, ⟨u, hu⟩, hne⟩
    · obtain ⟨j, r, -, hr⟩ := delimits_message.reads_take ms k
      rw [hf.stream, List.append_nil]
      exact ⟨j, r, hr⟩
    · obtain ⟨m, rfl, -⟩ := exists_message hm
      have hpos : 0 < u.length := List.length_pos_iff.mpr fun he => hne (by simpa [he] using hu)
      have hall : (ms ++ [m]).flatMap Message.bytes = ctx.stream ++ u := by
        rw [List.flatMap_append, List.flatMap_singleton, ← hu, hf.stream, List.append_assoc]
      have htake : ctx.stream.take k =
          ((ms ++ [m]).flatMap Message.bytes).take (min k ctx.stream.length) := by
        rw [hall, List.take_append_of_le_length (Nat.min_le_right _ _), ← List.take_take,
          List.take_length]
      rw [htake]
      refine delimits_message.reads_take_lt ms m ?_
      rw [hall, List.length_append]
      omega
  obtain ⟨j, r, hr⟩ := hread
  exact ⟨j, hr.readMost (hr.length_le readMessage_shorter)⟩

/-- **What the switch has read was written as a whole.** -/
lemma mem_flowsIn (hf : Framed h ctx ms rest) {k : ℕ} {f : OfSwitch.FlowMod}
    (hm : f ∈ flowsIn (ctx.stream.take k)) : ∃ p ∈ h, ∃ msg, wholeMessage p = some msg ∧
      flowOf msg = some f := by
  obtain ⟨j, hj⟩ := exists_readMost hf k
  obtain ⟨msg, hmsg, hread⟩ := List.mem_filterMap.mp hm
  rw [hj] at hmsg
  have hw : msg ∈ buildHello 1 :: h.filterMap wholeMessage := by
    rw [← hf.whole]
    exact List.mem_map.mpr ((List.mem_map.mp hmsg).imp fun m hm =>
      ⟨List.mem_of_mem_take hm.1, hm.2⟩)
  rcases List.mem_cons.mp hw with rfl | hw
  · cases hread
  · obtain ⟨p, hp, he⟩ := List.mem_filterMap.mp hw
    exact ⟨p, hp, msg, he, hread⟩

/-- A packet on the wire. -/
structure Frame where
  inPort : UInt32
  bufferId : UInt32
  eth : Ethernet
  data : List UInt8
  deriving DecidableEq

/-- The Packet-In it is sent in. -/
def Frame.msg (dpid : UInt64) (fr : Frame) : PacketIn :=
  ⟨dpid, fr.inPort, fr.bufferId, some fr.eth, fr.data⟩

/-- What a flow can be matched by. -/
def Frame.fields (fr : Frame) : List MatchField :=
  [.inPort fr.inPort, .ethDst fr.eth.dst, .ethType fr.eth.ethertype]

def Covers (f : OfSwitch.FlowMod) (fr : Frame) : Prop := ∀ fld ∈ f.fields, fld ∈ fr.fields

instance (f : OfSwitch.FlowMod) (fr : Frame) : Decidable (Covers f fr) :=
  inferInstanceAs (Decidable (∀ fld ∈ f.fields, fld ∈ fr.fields))

/-- The controller, its adapter, and how much the switch has received of what that has written. -/
structure Loop where
  controller : Bridge := { core := started }
  adapter : Context := {}
  received : ℕ := 0

def Loop.flows (x : Loop) : List OfSwitch.FlowMod := flowsIn (x.adapter.stream.take x.received)

inductive Act
  | frame (fr : Frame) (flow : Option OfSwitch.FlowMod) (a : Answers) (sent : Option ℕ)
  | receive (k : ℕ)
  | echo (xid : UInt32) (sent : Option ℕ)

/-- The flow that is added for a packet. -/
def newFlow (out : List Sent) : Option String :=
  out.findSome? fun
    | .flowAdd _ flow => some flow
    | _ => none

/-- The controller takes a Packet-In, and its adapter writes the flow. -/
def Loop.packetIn (x : Loop) (msg : PacketIn) (a : Answers) (sent : Option ℕ) : Option Loop :=
  let r := x.controller.packetIn msg a
  match newFlow r.2 with
  | none => some { x with controller := r.1 }
  | some flow =>
    if a.env'.flowAdd = decide ((persistentFlowAdd x.adapter flow.toList sent).2 = 0) then
      (PersistentWriter.step x.adapter ⟨.flowAdd flow.toList, sent⟩).map fun ctx =>
        { x with controller := r.1, adapter := ctx }
    else none

/-- Which of the flows that cover a packet forwards it is the switch's choice. -/
def step (dpid : UInt64) (x : Loop) : Act → Option Loop
  | .frame fr (some f) _ _ => if f ∈ x.flows ∧ Covers f fr then some x else none
  | .frame fr none a sent =>
    if ∃ f ∈ x.flows, Covers f fr then none else x.packetIn (fr.msg dpid) a sent
  | .receive k => some { x with received := x.received + k }
  | .echo xid sent =>
    (PersistentWriter.step x.adapter ⟨.echoReply xid, sent⟩).map fun ctx => { x with adapter := ctx }

def loop (dpid : UInt64) : Lts Loop Act :=
  ofFun (fun x => x.controller = { core := started } ∧ x.adapter = {} ∧ x.received = 0) (step dpid)

/-- The ports a packet leaves the switch through. -/
def outPorts (dpid : UInt64) (x : Loop) : Act → List ℕ
  | .frame _ (some f) _ _ => f.actions.map OutputAction.port
  | .frame fr none a _ =>
    (x.controller.packetIn (fr.msg dpid) a).2.filterMap fun
      | .packetOut _ _ _ outPort _ => some outPort.toNat
      | _ => none
  | _ => []

/-! ### What a run has seen and written -/

variable {dpid : UInt64} {hl : List (Loop × Act)} {x y : Loop} {act : Act}

def Act.frame? : Act → Option (Frame × Answers)
  | .frame fr _ a _ => some (fr, a)
  | _ => none

def Act.missed? : Act → Option Frame
  | .frame fr none _ _ => some fr
  | _ => none

/-- The packets of a run. -/
def frames (h : List (Loop × Act)) : List (Frame × Answers) := shown (fun _ act => act.frame?) h

/-- Those that the controller has seen. -/
def missed (h : List (Loop × Act)) : List Frame := shown (fun _ act => act.missed?) h

def Frame.sighting (dpid : UInt64) (fr : Frame) : (UInt64 × Mac) × UInt32 :=
  ((dpid, fr.eth.src), fr.inPort)

def sighted (dpid : UInt64) (h : List (Loop × Act)) : List ((UInt64 × Mac) × UInt32) :=
  (missed h).map (Frame.sighting dpid)

/-- The call of the adapter that a step makes. -/
def write (dpid : UInt64) (x : Loop) : Act → Option (Context × Write)
  | .frame fr none a sent =>
    (newFlow (x.controller.packetIn (fr.msg dpid) a).2).map fun flow =>
      (x.adapter, ⟨.flowAdd flow.toList, sent⟩)
  | .echo xid sent => some (x.adapter, ⟨.echoReply xid, sent⟩)
  | _ => none

def writes (dpid : UInt64) (h : List (Loop × Act)) : List (Context × Write) :=
  shown (write dpid) h

/-- What a step does with the adapter. -/
lemma step_write (hst : step dpid x act = some y) :
    (write dpid x act = none ∧ y.adapter = x.adapter) ∨
      ∃ w, write dpid x act = some (x.adapter, w) ∧
        PersistentWriter.step x.adapter w = some y.adapter := by
  cases act with
  | receive k =>
    cases hst
    exact .inl ⟨rfl, rfl⟩
  | echo xid sent =>
    obtain ⟨ctx, hc, rfl⟩ := Option.map_eq_some_iff.mp hst
    exact .inr ⟨_, rfl, hc⟩
  | frame fr flow a sent =>
    rcases flow with _ | f
    · simp only [step] at hst
      split_ifs at hst
      simp only [Loop.packetIn] at hst
      rcases hn : newFlow (x.controller.packetIn (fr.msg dpid) a).2 with _ | flow
      · rw [hn] at hst
        cases hst
        exact .inl ⟨by simp [write, hn], rfl⟩
      · rw [hn] at hst
        dsimp only at hst
        split_ifs at hst
        obtain ⟨ctx, hc, rfl⟩ := Option.map_eq_some_iff.mp hst
        exact .inr ⟨_, by simp [write, hn], hc⟩
    · simp only [step] at hst
      split_ifs at hst
      cases hst
      exact .inl ⟨rfl, rfl⟩

/-- **The adapter of a run has run**, too. -/
lemma run_writes (hr : Run (loop dpid) hl x) :
    Run PersistentWriter.system (writes dpid hl) x.adapter := by
  induction hr with
  | init h0 => exact .init h0.2.1
  | @step h x y act _ hst ih =>
    rcases step_write hst with ⟨hw, ha⟩ | ⟨w, hw, ha⟩
    · rw [writes, shown_snoc, hw, Option.toList_none, List.append_nil, ha]
      exact ih
    · rw [writes, shown_snoc, hw, Option.toList_some]
      exact ih.step ha

/-! ### Hosts that stay where they are -/

/-- The hosts that have sent something. -/
def hosts (h : List (Loop × Act)) : List Mac :=
  keys ((frames h).map fun q => (q.1.eth.src, q.1.inPort))

/-- Every host is behind a port of its own, the switch has a name, and the table has room for
every host. -/
structure Placed (name : List UInt8) (loc : Mac → UInt32) (h : List (Loop × Act)) : Prop where
  named : name ≠ [] ∧ name.length < maxBridgeLen
  answered : ∀ q ∈ frames h, q.2.name = name
  inPort : ∀ q ∈ frames h, q.1.inPort = loc q.1.eth.src
  ports : ∀ q ∈ frames h, Port16 q.1.inPort
  apart : ∀ q ∈ frames h, ∀ q' ∈ frames h,
    q.1.inPort = q'.1.inPort → q.1.eth.src = q'.1.eth.src
  room : (hosts h).length ≤ BridgeLearning.maxEntries

/-- The flow to a host that was seen, for a packet that came in. -/
def flowFor (loc : Mac → UInt32) (fr : Frame) : Rule :=
  ⟨some 100, some fr.inPort.toUInt16, some fr.eth.dst, false,
    some (.output (loc fr.eth.dst).toUInt16)⟩

/-- An echo reply, or a flow that a packet asked for. -/
def Justified (dpid : UInt64) (loc : Mac → UInt32) (h : List (Loop × Act)) (c : Call) : Prop :=
  (∃ xid, c = .echoReply xid) ∨ ∃ fr ∈ missed h, (dpid, fr.eth.dst) ∈ keys (sighted dpid h) ∧
    c = .flowAdd (flowFor loc fr).text

structure Inv (dpid : UInt64) (name : List UInt8) (loc : Mac → UInt32) (h : List (Loop × Act))
    (x : Loop) : Prop where
  knows : ∃ r, Knows (fun _ => name) (sighted dpid h) r x.controller
  seen : ∀ q ∈ frames h, (dpid, q.1.eth.src) ∈ keys (sighted dpid h)
  calls : ∀ p ∈ writes dpid h, Justified dpid loc h p.2.call

variable {name : List UInt8} {loc : Mac → UInt32} {fr : Frame} {f : OfSwitch.FlowMod}

/-- **A flow that the switch has read was asked for.** -/
lemma flow_justified (hr : Run (loop dpid) hl x) (hi : Inv dpid name loc hl x)
    (hn : NothingBehindCut (writes dpid hl)) (hf : f ∈ x.flows) :
    ∃ fr ∈ missed hl, (dpid, fr.eth.dst) ∈ keys (sighted dpid hl) ∧
      ∃ xid, f = (flowFor loc fr).flowMod xid ofpfcAdd := by
  obtain ⟨ms, rest, hframed⟩ := stream_framed (run_writes hr) hn
  obtain ⟨p, hp, msg, hw, hread⟩ := mem_flowsIn hframed hf
  obtain ⟨hm, -⟩ := Option.filter_eq_some_iff.mp hw
  rcases hi.calls p hp with ⟨xid, hc⟩ | ⟨fr, hfr, hdst, hc⟩
  · rw [hc] at hm
    cases hm
    cases hread
  · rw [hc] at hm
    obtain ⟨g, hg, rfl⟩ := Option.map_eq_some_iff.mp hm
    rw [parse_text] at hg
    cases hg
    rw [flowOf_build] at hread
    exact ⟨fr, hfr, hdst, _, (Option.some.inj hread).symm⟩

lemma fields_flowFor {xid : UInt32} (hp : Port16 fr.inPort) :
    ((flowFor loc fr).flowMod xid ofpfcAdd).fields = [.inPort fr.inPort, .ethDst fr.eth.dst] := by
  simp [flowFor, Rule.flowMod, hp.back]

lemma covers_flowFor {g : Frame} {xid : UInt32}
    (hc : Covers ((flowFor loc fr).flowMod xid ofpfcAdd) g) (hp : Port16 fr.inPort) :
    g.inPort = fr.inPort ∧ g.eth.dst = fr.eth.dst := by
  rw [Covers, fields_flowFor hp] at hc
  simpa [Frame.fields, eq_comm] using hc

/-! ### One step -/

lemma mem_frames {q : Frame × Answers} :
    q ∈ frames hl ↔ ∃ p ∈ hl, p.2.frame? = some q := List.mem_filterMap

lemma frames_of_missed (hm : fr ∈ missed hl) : ∃ a, (fr, a) ∈ frames hl := by
  obtain ⟨⟨x, act⟩, hp, he⟩ := List.mem_filterMap.mp hm
  match act, he with
  | .frame fr none a sent, rfl => exact ⟨a, mem_frames.mpr ⟨_, hp, rfl⟩⟩

lemma Placed.of_append {h₂ : List (Loop × Act)} (hp : Placed name loc (hl ++ h₂)) :
    Placed name loc hl := by
  have hsub : ∀ q ∈ frames hl, q ∈ frames (hl ++ h₂) := fun q hq => by
    obtain ⟨p, hp, he⟩ := mem_frames.mp hq
    exact mem_frames.mpr ⟨p, List.mem_append_left _ hp, he⟩
  refine ⟨hp.named, fun q hq => hp.answered q (hsub q hq), fun q hq => hp.inPort q (hsub q hq),
    fun q hq => hp.ports q (hsub q hq),
    fun q hq q' hq' => hp.apart q (hsub q hq) q' (hsub q' hq'), Nat.le_trans ?_ hp.room⟩
  rw [hosts, hosts, frames, frames, shown, shown, List.filterMap_append, List.map_append]
  exact length_keys_append _ _

lemma mem_sighted {m : Mac} :
    (dpid, m) ∈ keys (sighted dpid hl) ↔ ∃ fr ∈ missed hl, fr.eth.src = m := by
  rw [mem_keys, sighted, List.map_map]
  constructor
  · intro hm
    obtain ⟨fr, hfr, he⟩ := List.mem_map.mp hm
    exact ⟨fr, hfr, congrArg Prod.snd he⟩
  · rintro ⟨fr, hfr, rfl⟩
    exact List.mem_map_of_mem (f := Prod.fst ∘ Frame.sighting dpid) hfr

/-- Every host has been seen where it is. -/
lemma last_sighted (hp : Placed name loc hl) (m : Mac) : last (sighted dpid hl) (dpid, m) =
    if (dpid, m) ∈ keys (sighted dpid hl) then some (loc m) else none := by
  split_ifs with hm
  · obtain ⟨v, hv⟩ := Option.isSome_iff_exists.mp (last_isSome hm)
    obtain ⟨fr, hfr, he⟩ := List.mem_map.mp (mem_of_last hv)
    obtain ⟨a, ha⟩ := frames_of_missed hfr
    obtain ⟨hk, rfl⟩ := Prod.mk.inj he
    rw [hv, hp.inPort _ ha, (Prod.mk.inj hk).2]
  · exact last_eq_none hm

lemma port16_loc (hp : Placed name loc hl) {m : Mac} (hm : (dpid, m) ∈ keys (sighted dpid hl)) :
    Port16 (loc m) := by
  obtain ⟨fr, hfr, rfl⟩ := mem_sighted.mp hm
  obtain ⟨a, ha⟩ := frames_of_missed hfr
  exact hp.inPort _ ha ▸ hp.ports _ ha

lemma room_sighted (hp : Placed name loc hl) :
    (keys (sighted dpid hl)).length ≤ BridgeLearning.maxEntries := by
  refine Nat.le_trans (length_keys_le (dpid, ·) fun p hm => ?_) hp.room
  obtain ⟨fr, hfr, rfl⟩ := List.mem_map.mp hm
  obtain ⟨a, ha⟩ := frames_of_missed hfr
  exact ⟨_, List.mem_map_of_mem ha, rfl⟩

/-- What the controller makes of a packet it sees. -/
lemma controller_packetIn {a : Answers} {sent : Option ℕ} {hl' : List (Loop × Act)}
    (he : hl' = hl ++ [(x, .frame fr none a sent)])
    (hk : ∃ r, Knows (fun _ => name) (sighted dpid hl) r x.controller)
    (hp : Placed name loc hl') :
    (∃ r, Knows (fun _ => name) (sighted dpid hl') r
        (x.controller.packetIn (fr.msg dpid) a).1) ∧
      (x.controller.packetIn (fr.msg dpid) a).2 =
        if (dpid, fr.eth.dst) ∈ keys (sighted dpid hl') then
          [.flowAdd name (flowString fr.inPort.toUInt16 fr.eth.dst (loc fr.eth.dst).toUInt16),
            (fr.msg dpid).packetOut (loc fr.eth.dst)]
        else [(fr.msg dpid).packetOut ofppFlood] := by
  obtain ⟨r, hk⟩ := hk
  have hs : sighted dpid hl' = sighted dpid hl ++ [fr.sighting dpid] := by
    rw [he, sighted, missed, shown_snoc, List.map_append]
    rfl
  have hmem : (fr, a) ∈ frames hl' := mem_frames.mpr ⟨(x, .frame fr none a sent), by simp [he], rfl⟩
  have hdpid : ∀ q ∈ sighted dpid hl, q.1.1 = dpid := fun q hq => by
    obtain ⟨g, -, rfl⟩ := List.mem_map.mp hq
    rfl
  have hports : ∀ q ∈ sighted dpid hl', Port16 q.2 := fun q hq => by
    obtain ⟨g, hg, rfl⟩ := List.mem_map.mp hq
    obtain ⟨b, hb⟩ := frames_of_missed hg
    exact hp.ports _ hb
  have heth : (fr.msg dpid).eth = some fr.eth := rfl
  obtain ⟨hk', hsent⟩ := hk.step heth (hp.answered _ hmem) hp.named.1
    hp.named.2 (hs ▸ room_sighted hp) (fun q hq _ => hdpid q hq) (hs ▸ hports)
  obtain ⟨-, hr⟩ := reactive_sent hk.reactive heth rfl
  have hlast : last (sighted dpid hl') (dpid, fr.eth.dst) = _ := last_sighted hp fr.eth.dst
  rw [hs] at hlast ⊢
  refine ⟨⟨_, hk'⟩, hsent.trans ?_⟩
  have hlast' : last (sighted dpid hl ++ [(((fr.msg dpid).dpid, fr.eth.src), (fr.msg dpid).inPort)])
      ((fr.msg dpid).dpid, fr.eth.dst) = _ := hlast
  rw [hr, hlast']
  by_cases hd : (dpid, fr.eth.dst) ∈ keys (sighted dpid hl ++ [fr.sighting dpid])
  · have hloc : Port16 (loc fr.eth.dst) := port16_loc hp (hs ▸ hd)
    have hin := hp.ports _ hmem
    rw [if_pos hd, if_pos hd, Option.getD_some, if_pos hloc.ne_ofppFlood,
      flowString_eq hin.toNat_eq hloc.toNat_eq]
    rfl
  · rw [if_neg hd, if_neg hd]
    rfl

lemma sighted_mono {h₂ : List (Loop × Act)} {k : UInt64 × Mac} (hk : k ∈ keys (sighted dpid hl)) :
    k ∈ keys (sighted dpid (hl ++ h₂)) := by
  rw [sighted, missed, shown, List.filterMap_append, List.map_append, mem_keys, List.map_append]
  exact List.mem_append_left _ (mem_keys.mp hk)

lemma Justified.mono {h₂ : List (Loop × Act)} {c : Call} (hj : Justified dpid loc hl c) :
    Justified dpid loc (hl ++ h₂) c := by
  refine hj.imp_right fun ⟨fr, hfr, hdst, hc⟩ => ⟨fr, ?_, sighted_mono hdst, hc⟩
  rw [missed, shown, List.filterMap_append]
  exact List.mem_append_left _ hfr

/-- A packet that a flow covers comes from a host that was seen, to one that was seen. -/
lemma covered (hr : Run (loop dpid) hl x) (hi : Inv dpid name loc hl x)
    (hn : NothingBehindCut (writes dpid hl)) (hf : f ∈ x.flows) (hc : Covers f fr)
    {a : Answers} {sent : Option ℕ} {hl' : List (Loop × Act)}
    (he : hl' = hl ++ [(x, .frame fr (some f) a sent)]) (hp : Placed name loc hl') :
    (dpid, fr.eth.src) ∈ keys (sighted dpid hl) ∧ (dpid, fr.eth.dst) ∈ keys (sighted dpid hl) ∧
      f.actions.map OutputAction.port = [(loc fr.eth.dst).toNat] := by
  obtain ⟨g, hg, hdst, xid, rfl⟩ := flow_justified hr hi hn hf
  obtain ⟨b, hb⟩ := frames_of_missed hg
  have hsub : ∀ q ∈ frames hl, q ∈ frames hl' := fun q hq => by
    rw [he, frames, shown_snoc]
    exact List.mem_append_left _ hq
  have hmem : (fr, a) ∈ frames hl' := by
    rw [he, frames, shown_snoc]
    exact List.mem_append_right _ (by simp [Act.frame?])
  obtain ⟨hin, hd⟩ := covers_flowFor hc (hp.ports _ (hsub _ hb))
  have hsrc := hp.apart _ hmem _ (hsub _ hb) hin
  have hloc : Port16 (loc g.eth.dst) := port16_loc (he ▸ hp).of_append hdst
  refine ⟨mem_sighted.mpr ⟨g, hg, hsrc.symm⟩, hd ▸ hdst, ?_⟩
  rw [hd, ← hloc.toNat_eq]
  rfl

/-- What a Packet-In leaves of the controller. -/
lemma packetIn_controller {msg : PacketIn} {a : Answers} {sent : Option ℕ}
    (h : x.packetIn msg a sent = some y) : y.controller = (x.controller.packetIn msg a).1 := by
  unfold Loop.packetIn at h
  dsimp only at h
  split at h
  · cases h
    rfl
  · split_ifs at h
    obtain ⟨ctx, -, rfl⟩ := Option.map_eq_some_iff.mp h
    rfl

/-- A packet that the controller sees. -/
lemma Inv.miss (hi : Inv dpid name loc hl x) {a : Answers} {sent : Option ℕ}
    (hst : x.packetIn (fr.msg dpid) a sent = some y) {hl' : List (Loop × Act)}
    (he : hl' = hl ++ [(x, .frame fr none a sent)]) (hp : Placed name loc hl') :
    Inv dpid name loc hl' y ∧ outPorts dpid x (.frame fr none a sent) =
      [if (dpid, fr.eth.dst) ∈ keys (sighted dpid hl') then (loc fr.eth.dst).toNat
        else ofppFlood.toNat] := by
  obtain ⟨hk, hsent⟩ := controller_packetIn he hi.knows hp
  have hmissed : missed hl' = missed hl ++ [fr] := by
    rw [he, missed, shown_snoc]
    rfl
  have hfr : fr ∈ missed hl' := hmissed ▸ List.mem_append_right _ (List.mem_singleton_self _)
  refine ⟨⟨packetIn_controller hst ▸ hk, ?_, ?_⟩, ?_⟩
  · intro q hq
    rw [he, frames, shown_snoc] at hq
    rcases List.mem_append.mp hq with hq | hq
    · exact he ▸ sighted_mono (hi.seen q hq)
    · obtain rfl : q = (fr, a) := by simpa [Act.frame?] using hq
      exact mem_sighted.mpr ⟨fr, hfr, rfl⟩
  · intro p hm
    rw [he, writes, shown_snoc] at hm
    rcases List.mem_append.mp hm with hm | hm
    · exact he ▸ (hi.calls p hm).mono
    · rw [write, hsent] at hm
      split_ifs at hm with hd
      · obtain rfl : p = _ := by simpa [newFlow] using hm
        exact .inr ⟨fr, hfr, hd, congrArg Call.flowAdd (flowString_toList _ _ _)⟩
      · simp [newFlow, PacketIn.packetOut] at hm
  · rw [outPorts, hsent]
    split_ifs <;> rfl

/-- **One step** keeps the invariant, and what is forwarded goes to where its destination is. -/
lemma Inv.step (hr : Run (loop dpid) hl x) (hi : Inv dpid name loc hl x)
    (hst : step dpid x act = some y) (hp : Placed name loc (hl ++ [(x, act)]))
    (hn : NothingBehindCut (writes dpid hl)) :
    Inv dpid name loc (hl ++ [(x, act)]) y ∧ ∀ q ∈ act.frame?, outPorts dpid x act =
      [if (dpid, q.1.eth.dst) ∈ keys (sighted dpid (hl ++ [(x, act)])) then (loc q.1.eth.dst).toNat
        else ofppFlood.toNat] := by
  have hcalls : ∀ p ∈ writes dpid hl, Justified dpid loc (hl ++ [(x, act)]) p.2.call :=
    fun p hm => (hi.calls p hm).mono
  have hseen : ∀ q ∈ frames hl, (dpid, q.1.eth.src) ∈ keys (sighted dpid (hl ++ [(x, act)])) :=
    fun q hq => sighted_mono (hi.seen q hq)
  have hsame : act.missed? = none → sighted dpid (hl ++ [(x, act)]) = sighted dpid hl := fun h => by
    rw [sighted, missed, shown_snoc, h, Option.toList_none, List.append_nil]
    rfl
  cases act with
  | receive k =>
    cases hst
    refine ⟨⟨hsame rfl ▸ hi.knows, ?_, ?_⟩, nofun⟩
    · simpa [frames, Act.frame?] using hseen
    · simpa [writes, write] using hcalls
  | echo xid sent =>
    obtain ⟨ctx, -, rfl⟩ := Option.map_eq_some_iff.mp hst
    refine ⟨⟨hsame rfl ▸ hi.knows, ?_, ?_⟩, nofun⟩
    · simpa [frames, Act.frame?] using hseen
    · intro p hm
      rw [writes, shown_snoc] at hm
      rcases List.mem_append.mp hm with hm | hm
      · exact hcalls p hm
      · obtain rfl : p = _ := by simpa [write] using hm
        exact .inl ⟨xid, rfl⟩
  | frame fr flow a sent =>
    rcases flow with _ | f
    · simp only [SingleSwitch.step] at hst
      split_ifs at hst
      obtain ⟨hi', hout⟩ := hi.miss hst rfl hp
      exact ⟨hi', by rintro q ⟨⟩; exact hout⟩
    · simp only [SingleSwitch.step] at hst
      split_ifs at hst with hf
      cases hst
      obtain ⟨hsrc, hdst, hout⟩ := covered hr hi hn hf.1 hf.2 rfl hp
      refine ⟨⟨hsame rfl ▸ hi.knows, ?_, ?_⟩, ?_⟩
      · intro q hq
        rw [frames, shown_snoc] at hq
        rcases List.mem_append.mp hq with hq | hq
        · exact hseen q hq
        · obtain rfl : q = (fr, a) := by simpa [Act.frame?] using hq
          exact sighted_mono hsrc
      · simpa [writes, write] using hcalls
      · rintro q ⟨⟩
        rw [if_pos (sighted_mono hdst)]
        exact hout

/-! ### Every run -/

lemma nothingBehindCut_left {h h₂ : List (Context × Write)} (hn : NothingBehindCut (h ++ h₂)) :
    NothingBehindCut h := fun h₁ q h₃ he hq => hn h₁ q (h₃ ++ h₂) (by simp [he]) hq

lemma writes_append {h₂ : List (Loop × Act)} :
    writes dpid (hl ++ h₂) = writes dpid hl ++ writes dpid h₂ := List.filterMap_append

lemma run_inv (hr : Run (loop dpid) hl x) (hp : Placed name loc hl)
    (hn : NothingBehindCut (writes dpid hl)) : Inv dpid name loc hl x := by
  induction hr with
  | init h0 =>
    refine ⟨⟨{}, ?_⟩, by simp [frames], by simp [writes]⟩
    rw [h0.1]
    exact knows_init
  | step hr hst ih =>
    rw [writes_append] at hn
    have hn' := nothingBehindCut_left hn
    exact ((ih hp.of_append hn').step hr hst hp hn').1

/-- The packet of `src` to `dst` on port `p`. -/
def frameOf (p : UInt32) (src dst : UInt8) : Frame :=
  ⟨p, FlowMod.ofpNoBuffer, ⟨macOf src, macOf dst, 0x800⟩, [src, dst]⟩

/-- There is no flow for it, and the adapter sends what it has to send for it, or fails. -/
def missOf (fr : Frame) (sent : Option ℕ) : Act :=
  .frame fr none ⟨[1], ⟨0, true⟩, ⟨{}, decide (sent ≠ none)⟩⟩ sent

def question : Act := missOf (frameOf 4 7 8) none

def answer : Act := missOf (frameOf 5 8 7) (some 96)

/-- A question, the answer, and an echo request; then the switch receives all of it. -/
def exchange : List Act := [question, answer, .echo 9 (some 8), .receive 112]

/-- The history of the exchange, and the state that it leaves. -/
def exchanged : List (Loop × Act) × Loop := (replay (step 1) [] {} exchange).getD ([], {})

lemma exchanged_eq : replay (step 1) [] {} exchange = some exchanged := by
  have hsome : (replay (step 1) [] {} exchange).isSome = true := by decide +kernel
  exact Option.eq_some_of_isSome hsome

lemma exchanged_run : Run (loop 1) exchanged.1 exchanged.2 :=
  replay_run (.init ⟨rfl, rfl, rfl⟩) exchanged_eq

/-- Where the hosts of the exchange are. -/
def portOf (m : Mac) : UInt32 := if m = macOf 7 then 4 else 5

lemma exchanged_facts :
    (∀ q ∈ frames exchanged.1, q.2.name = [1] ∧ q.1.inPort = portOf q.1.eth.src ∧
      Port16 q.1.inPort ∧
      ∀ q' ∈ frames exchanged.1, q.1.inPort = q'.1.inPort → q.1.eth.src = q'.1.eth.src) ∧
    (hosts exchanged.1).length ≤ BridgeLearning.maxEntries ∧
    (∀ p ∈ writes 1 exchanged.1, (wholeMessage p).isSome = true) ∧
    exchanged.2.adapter.stream.length ≤ exchanged.2.received := by decide +kernel

lemma not_cut_of_whole {p : Context × Write} (h : (wholeMessage p).isSome = true) : ¬ Cut p := by
  rintro ⟨msg, k, hm, hk, -, hlt⟩
  have hne : ¬ k = msg.length := by omega
  simp [wholeMessage, hm, hk, hne] at h

/-- The adapter reports a flow as added when all of its message was taken. -/
lemma flowAdd_ok (ctx : Context) (r : Rule) (sent : Option ℕ) :
    (persistentFlowAdd ctx r.text sent).2 = 0 ↔
      sent = some (buildFlowMod ctx.nextXid ofpfcAdd r.flow).length := by
  simp only [persistentFlowAdd, persistentFlow, parse_text]
  split_ifs with h <;> simp [h]

end DaimDistributed.SingleSwitch
