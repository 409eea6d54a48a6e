import DaimDistributed.FlowRules
import DaimDistributed.Sightings

/-!
The two controllers that learn for a single switch or more, side by side.

`osken_reactive_baseline_controller.py` keeps a dictionary of ports for each datapath;
`daim_bridge_controller.py` hands every packet to the learning application, which keeps one
table of bounded size for all bridges, 16-bit ports and bridges by their names. As long as the
table has room, what they send to the switches is the same.
-/

namespace DaimDistributed.Baseline

open HostState DaimDistributed.Core BridgeLearning Lifecycle CappedMap Sightings CText
open FlowMod (ofpNoBuffer)
open LearningApp (NoRulePacketInfo Effect portFlood maxBridgeLen formatMac flowString hexByte)

/-- `OFPP_FLOOD`. -/
def ofppFlood : UInt32 := 0xfffffffb

/-- The Ethernet header of a packet. The packet library hands its addresses out as text, in its
documented format of six lower-case octets with colons between them; `formatMac` is that format
too. -/
structure Ethernet where
  src : Mac
  dst : Mac
  ethertype : UInt16
  deriving DecidableEq

/-- A Packet-In; `eth` is none where the packet library finds no Ethernet header. -/
structure PacketIn where
  dpid : UInt64
  inPort : UInt32
  bufferId : UInt32
  eth : Option Ethernet
  data : List UInt8
  deriving DecidableEq

/-- What goes to a switch: an `OFPFlowMod`, a `flow_add` of the adapter, an `OFPPacketOut`. -/
inductive Sent
  | flowMod (dpid : UInt64) (priority : ℕ) (inPort : UInt32) (ethDst : String) (outPort : UInt32)
  | flowAdd (bridge : List UInt8) (flow : String)
  | packetOut (dpid : UInt64) (bufferId inPort outPort : UInt32) (data : Option (List UInt8))
  deriving DecidableEq

def PacketIn.packetOut (msg : PacketIn) (outPort : UInt32) : Sent :=
  .packetOut msg.dpid msg.bufferId msg.inPort outPort
    (if msg.bufferId = ofpNoBuffer then some msg.data else none)

/-! ### The reactive controller -/

/-- `MatchedReactiveBaselineController`: a dictionary of dictionaries, keyed by text. -/
structure Reactive where
  macToPort : UInt64 → String → Option UInt32 := fun _ _ => none

def Reactive.packetIn (x : Reactive) (msg : PacketIn) : Reactive × List Sent :=
  match msg.eth with
  | none => (x, [])
  | some eth =>
    let table := Function.update (x.macToPort msg.dpid) (formatMac eth.src) (some msg.inPort)
    let outPort := (table (formatMac eth.dst)).getD ofppFlood
    ({ x with macToPort := Function.update x.macToPort msg.dpid table },
      (if outPort ≠ ofppFlood then
        [.flowMod msg.dpid 100 msg.inPort (formatMac eth.dst) outPort] else []) ++
        [msg.packetOut outPort])

/-! ### The controller of the learning application -/

/-- `int(part, 16)` of hexadecimal digits; `none` stands for the `ValueError`. -/
def intHex (part : List Char) : Option ℕ :=
  if part ≠ [] ∧ part.all Char.isHexDigit then
    some (part.foldl (fun n c => 16 * n + hexValue c) 0)
  else none

def macStrToBytes (mac : String) : Option (List ℕ) := (mac.toList.splitOn ':').mapM intHex

/-- `DaimBridgeController`, with the process that its `DaimCoreBridge` drives. -/
structure Bridge where
  core : System
  dpidToBridge : UInt64 → Option (List UInt8) := fun _ => none

/-- What the outside answers to one packet: `ovs-vsctl`, and the learning application's. -/
structure Answers where
  name : List UInt8
  env : LearningApp.Env
  env' : BridgeLearning.Env

/-- `"%016x" % dpid`. -/
def datapathId (dpid : UInt64) : List UInt8 :=
  (List.range 16).map fun i =>
    (Nat.digitChar (dpid.toNat / 16 ^ (15 - i) % 16)).toNat.toUInt8

def Bridge.resolveBridgeName (x : Bridge) (dpid : UInt64) (name : List UInt8) :
    Bridge × List UInt8 :=
  match x.dpidToBridge dpid with
  | some name => (x, name)
  | none =>
    if name ≠ [] then
      ({ x with dpidToBridge := Function.update x.dpidToBridge dpid (some name) }, name)
    else (x, datapathId dpid)

/-- The structure `DaimCoreBridge.packet_in` fills in. -/
def noRulePacketInfo (msg : PacketIn) (eth : Ethernet) : Option NoRulePacketInfo := do
  let src ← macStrToBytes (formatMac eth.src)
  let dst ← macStrToBytes (formatMac eth.dst)
  some ⟨msg.inPort.toUInt16, (Protocol.getMac (src.map Nat.toUInt8)).1,
    (Protocol.getMac (dst.map Nat.toUInt8)).1, eth.ethertype⟩

/-- What the handler of the application does to the outside during the call. -/
def effects (x : System) (bridge : List UInt8) (info : NoRulePacketInfo)
    (env' : BridgeLearning.Env) : List Effect :=
  if x.ready .bridge = false then []
  else
    match daimCoreEmit (x.enter .bridge bridge env').core noRule with
    | some .learning => (onNoRule (x.enter .bridge bridge env').learning info env').2
    | _ => []

def flowAdds (es : List Effect) : List Sent :=
  es.filterMap fun
    | .flowAdd bridge flow => some (.flowAdd bridge flow)
    | _ => none

def Bridge.packetIn (x : Bridge) (msg : PacketIn) (a : Answers) : Bridge × List Sent :=
  match msg.eth with
  | none => (x, [])
  | some eth =>
    let (x, bridge) := x.resolveBridgeName msg.dpid a.name
    match noRulePacketInfo msg eth with
    | none => (x, [])
    | some info =>
      let r := Lifecycle.packetIn x.core .bridge bridge info a.env a.env'
      ({ x with core := r.1 },
        flowAdds (effects x.core bridge info a.env') ++
          [msg.packetOut (if r.2 = portFlood then ofppFlood else r.2.toUInt32)])

/-- The process after `DaimCoreBridge.__init__`. -/
def started : System := Lifecycle.step (Lifecycle.step {} .daimInit) (.learningInit true)

/-! ### Addresses as text -/

lemma intHex_octet {b : UInt8} {s : List Char} (h : FlowString.HexOctet b s) :
    intHex s = some b.toNat := by
  obtain ⟨c, d, rfl, hc, hd, hv⟩ := h
  simp only [intHex, ne_eq, List.cons_ne_nil, not_false_eq_true, List.all_cons, hc, hd,
    List.all_nil, Bool.and_self, and_self, if_true, List.foldl_cons, List.foldl_nil]
  rw [← hv]
  simp

lemma colon_not_mem_hexByte (b : UInt8) : ':' ∉ hexByte b := by
  have hall : ∀ a : Fin 16, ':' ≠ a.1.digitChar := by decide
  have hb := b.toNat_lt
  simp only [hexByte, List.mem_cons, List.not_mem_nil, or_false, not_or]
  exact ⟨hall ⟨b.toNat / 16, by omega⟩, hall ⟨b.toNat % 16, by omega⟩⟩

/-- **The bytes of an address are read back from its text.** -/
lemma macStrToBytes_formatMac (m : Mac) :
    macStrToBytes (formatMac m) = some (m.toList.map UInt8.toNat) := by
  have hsplit : (formatMac m).toList.splitOn ':' = m.toList.map hexByte := by
    rw [formatMac, String.toList_ofList]
    refine List.splitOn_intercalate ':' (fun l hl => ?_) (by simp)
    obtain ⟨b, -, rfl⟩ := List.mem_map.mp hl
    exact colon_not_mem_hexByte b
  rw [macStrToBytes, hsplit]
  generalize m.toList = bs
  induction bs with
  | nil => rfl
  | cons b bs ih =>
    rw [List.map_cons, List.map_cons, List.mapM_cons,
      intHex_octet (FlowRules.hexOctet_hexByte b), ih]
    rfl

lemma noRulePacketInfo_eq (msg : PacketIn) (eth : Ethernet) :
    noRulePacketInfo msg eth = some ⟨msg.inPort.toUInt16, eth.src, eth.dst, eth.ethertype⟩ := by
  have hback : ∀ m : Mac, (Protocol.getMac ((m.toList.map UInt8.toNat).map Nat.toUInt8)).1 = m := by
    intro m
    have h := Protocol.getMac_toList m []
    rw [List.append_nil] at h
    rw [List.map_map, show Nat.toUInt8 ∘ UInt8.toNat = id by ext b; simp, List.map_id, h]
  simp only [noRulePacketInfo, macStrToBytes_formatMac, Option.bind_eq_bind, Option.bind_some,
    hback]

lemma formatMac_injective : Function.Injective formatMac := by
  intro m m' h
  have hb := congrArg macStrToBytes h
  rw [macStrToBytes_formatMac, macStrToBytes_formatMac, Option.some.injEq] at hb
  have hl : m.toList = m'.toList := List.map_injective_iff.mpr (fun a b => UInt8.toNat_inj.mp) hb
  exact Vector.toList_inj.mp hl

/-! ### A history of packets -/

structure Event where
  msg : PacketIn
  answers : Answers

/-- What each packet makes the controller send. -/
def Reactive.outputs (x : Reactive) : List Event → List (List Sent)
  | [] => []
  | e :: es => (x.packetIn e.msg).2 :: Reactive.outputs (x.packetIn e.msg).1 es

def Bridge.outputs (x : Bridge) : List Event → List (List Sent)
  | [] => []
  | e :: es => (x.packetIn e.msg e.answers).2 :: Bridge.outputs (x.packetIn e.msg e.answers).1 es

/-- The source a packet shows at a datapath, and the port. -/
def Event.sighting (e : Event) : Option ((UInt64 × Mac) × UInt32) :=
  e.msg.eth.map fun eth => ((e.msg.dpid, eth.src), e.msg.inPort)

/-- A port that the application keeps as it is. -/
def Port16 (p : UInt32) : Prop := p.toNat < 0x10000 ∧ p ≠ 0xfffb

instance : DecidablePred Port16 := fun _ => inferInstanceAs (Decidable (_ ∧ _))

/-- The same for a switch known by its name: a Flow-Mod as the text of its flow. -/
def Sent.named (name : UInt64 → List UInt8) : Sent → Sent
  | .flowMod dpid priority inPort ethDst outPort =>
    .flowAdd (name dpid) ("priority=" ++ toString priority ++ ",in_port=" ++
      toString inPort.toNat ++ ",dl_dst=" ++ ethDst ++ ",actions=output:" ++
      toString outPort.toNat)
  | s => s

variable {name : UInt64 → List UInt8} {es : List Event} {e : Event} {x : Reactive} {y : Bridge}
  {ws : List ((UInt64 × Mac) × UInt32)}

/-- A sighting by the name of its bridge. -/
def byName (name : UInt64 → List UInt8) (k : UInt64 × Mac) : List UInt8 × Mac := (name k.1, k.2)

/-- Both controllers know what was sighted. -/
structure Knows (name : UInt64 → List UInt8) (ws : List ((UInt64 × Mac) × UInt32)) (x : Reactive)
    (y : Bridge) : Prop where
  reactive : ∀ d m, x.macToPort d (formatMac m) = last ws (d, m)
  inPlace : InPlace y.core
  adapter : y.core.learning.adapter = true
  table : y.core.learning.table.map pairOf =
    after maxEntries (ws.map (Prod.map (byName name) UInt32.toUInt16))
  cache : ∀ d n, y.dpidToBridge d = some n → n = name d

lemma knows_init : Knows name [] {} { core := started } where
  reactive := fun _ _ => rfl
  inPlace := ⟨rfl, by decide⟩
  adapter := rfl
  table := rfl
  cache := fun d n h => by cases h

lemma resolve_eq (hc : ∀ d n, y.dpidToBridge d = some n → n = name d) {d : UInt64}
    (hn : name d ≠ []) : ∃ y', y.resolveBridgeName d (name d) = (y', name d) ∧
      y'.core = y.core ∧ ∀ d n, y'.dpidToBridge d = some n → n = name d := by
  unfold Bridge.resolveBridgeName
  rcases hd : y.dpidToBridge d with _ | n
  · rw [if_pos hn]
    refine ⟨_, rfl, rfl, fun d' n' h => ?_⟩
    by_cases hdd : d' = d
    · subst hdd
      simpa using h.symm
    · exact hc d' n' (by simpa [Function.update_of_ne hdd] using h)
  · obtain rfl := hc d n hd
    exact ⟨y, rfl, rfl, hc⟩

/-- The dictionary of a datapath after a sighting. -/
lemma reactive_update (h : ∀ d m, x.macToPort d (formatMac m) = last ws (d, m)) (d : UInt64)
    (m : Mac) (p : UInt32) (d' : UInt64) (m' : Mac) :
    (Function.update x.macToPort d
      (Function.update (x.macToPort d) (formatMac m) (some p))) d' (formatMac m') =
        last (ws ++ [((d, m), p)]) (d', m') := by
  rw [last_snoc]
  by_cases hd : d' = d
  · subst hd
    rw [Function.update_self]
    by_cases hm : m' = m
    · subst hm
      rw [Function.update_self, if_pos rfl]
    · have hne : formatMac m' ≠ formatMac m := fun he => hm (formatMac_injective he)
      rw [Function.update_of_ne hne, if_neg (by simp [Ne.symm hm]), h]
  · rw [Function.update_of_ne hd, if_neg (by simp [Ne.symm hd]), h]

/-! ### One packet -/

lemma Port16.back {p : UInt32} (hp : Port16 p) : p.toUInt16.toUInt32 = p := by
  have h := hp.1
  apply UInt32.toNat_inj.mp
  simp only [UInt16.toNat_toUInt32, UInt32.toNat_toUInt16]
  omega

lemma Port16.toNat_eq {p : UInt32} (hp : Port16 p) : p.toUInt16.toNat = p.toNat := by
  rw [UInt32.toNat_toUInt16]
  exact Nat.mod_eq_of_lt hp.1

lemma Port16.ne_portFlood {p : UInt32} (hp : Port16 p) : p.toUInt16 ≠ portFlood := by
  intro h
  have hb := hp.back
  rw [h] at hb
  exact hp.2 hb.symm

lemma Port16.ne_ofppFlood {p : UInt32} (hp : Port16 p) : p ≠ ofppFlood := by
  rintro rfl
  have h := hp.1
  exact absurd h (by decide)

/-- The call of the application that a packet makes. -/
def callOf (bridge : List UInt8) (hb : bridge.length < maxBridgeLen) (msg : PacketIn)
    (eth : Ethernet) (a : Answers) : Sighting :=
  ⟨bridge, ⟨msg.inPort.toUInt16, eth.src, eth.dst, eth.ethertype⟩, a.env, a.env', hb⟩

/-- A call leaves the adapter alone. -/
lemma call_adapter {s : System} (h : InPlace s) (c : Sighting) :
    (Lifecycle.packetIn s .bridge c.bridge c.info c.env c.env').1.learning.adapter =
      s.learning.adapter := by
  have he : daimCoreEmit (s.enter .bridge c.bridge c.env').core noRule = some .learning :=
    h.handler
  have hready : ¬ s.ready .bridge = false := by simp [System.ready, h.ready]
  have hon : ∀ a : AppState, (onNoRule a c.info c.env').1.adapter = a.adapter := by
    intro a
    unfold onNoRule installFlow
    dsimp only
    split_ifs <;> rfl
  rw [Lifecycle.packetIn, if_neg hready]
  simp only [emit, he]
  exact hon _

/-- A flow is added exactly when the port is known. -/
lemma flowAdds_effects {s : System} (h : InPlace s) (ha : s.learning.adapter = true)
    (c : Sighting) :
    flowAdds (effects s c.bridge c.info c.env') =
      if port s c ≠ portFlood then
        [.flowAdd c.bridge (flowString c.info.inPort c.info.macDst (port s c))]
      else [] := by
  have he : daimCoreEmit (s.enter .bridge c.bridge c.env').core noRule = some .learning :=
    h.handler
  have hready : ¬ s.ready .bridge = false := by simp [System.ready, h.ready]
  have hb : (s.enter .bridge c.bridge c.env').learning.currentBridge = c.bridge := c.take_bridge
  have hd : decision (s.enter .bridge c.bridge c.env').learning c.info = port s c := by
    rw [port_eq h, decision, hb]
    rfl
  have ha' : ¬ (s.enter .bridge c.bridge c.env').learning.adapter = false := by
    rw [show (s.enter .bridge c.bridge c.env').learning.adapter = s.learning.adapter from rfl, ha]
    decide
  rw [effects, if_neg hready]
  simp only [he, onNoRule, hd, hb, installFlow, if_neg ha']
  split_ifs <;> rfl

/-- What the application answers, by what was sighted so far and in this packet. -/
lemma port_known (hk : Knows name ws x y) (c : Sighting) {d : UInt64} {p : UInt32}
    (hb : c.bridge = name d) (hp : c.info.inPort = p.toUInt16)
    (hroom : (keys (ws ++ [((d, c.info.macSrc), p)])).length ≤ maxEntries)
    (hapart : ∀ q ∈ ws, name q.1.1 = name d → q.1.1 = d) :
    port y.core c =
        ((last (ws ++ [((d, c.info.macSrc), p)]) (d, c.info.macDst)).map UInt32.toUInt16).getD
          portFlood ∧
      (Lifecycle.packetIn y.core .bridge c.bridge c.info c.env c.env').1.learning.table.map
        pairOf = after maxEntries
          ((ws ++ [((d, c.info.macSrc), p)]).map (Prod.map (byName name) UInt32.toUInt16)) := by
  have hlearn : (learn y.core.learning.table c.bridge c.info.macSrc c.info.inPort).map pairOf =
      after maxEntries
        ((ws ++ [((d, c.info.macSrc), p)]).map (Prod.map (byName name) UInt32.toUInt16)) := by
    rw [learn_eq (nodup_of_after hk.table) c.short, hk.table, List.map_append, after, after,
      List.foldl_append, hb, hp]
    rfl
  refine ⟨?_, by rw [(call_state hk.inPlace c).2, hlearn]⟩
  rw [port_eq hk.inPlace, lookupPort_eq, hlearn,
    find_after (Nat.le_trans (length_keys_map _ _) hroom)]
  congr 1
  have hkey : (c.bridge, c.info.macDst) = byName name (d, c.info.macDst) := by rw [hb]; rfl
  rw [hkey]
  refine last_map fun q hq he => ?_
  obtain ⟨hd, hm⟩ := Prod.mk.inj he
  rcases List.mem_append.mp hq with hq | hq
  · exact Prod.ext (hapart q hq hd) hm
  · obtain rfl := List.mem_singleton.mp hq
    exact Prod.ext rfl hm

lemma flowString_eq {i o : UInt16} {p q : UInt32} (hi : i.toNat = p.toNat)
    (ho : o.toNat = q.toNat) (m : Mac) :
    flowString i m o = "priority=" ++ toString 100 ++ ",in_port=" ++ toString p.toNat ++
      ",dl_dst=" ++ formatMac m ++ ",actions=output:" ++ toString q.toNat := by
  have htext : "priority=" ++ toString 100 ++ ",in_port=" = "priority=100,in_port=" := rfl
  have hflow : flowString i m o = "priority=100,in_port=" ++ toString i.toNat ++ ",dl_dst=" ++
      formatMac m ++ ",actions=output:" ++ toString o.toNat := rfl
  rw [hflow, hi, ho, htext]

/-- A known port goes out as one flow and one packet, on both sides. -/
lemma sent_eq (name : UInt64 → List UInt8) (msg : PacketIn) (eth : Ethernet) {o : Option UInt32}
    (ho : ∀ p ∈ o, Port16 p) (hin : Port16 msg.inPort) {r : UInt16}
    (hr : r = (o.map UInt32.toUInt16).getD portFlood) :
    (if r ≠ portFlood then [.flowAdd (name msg.dpid) (flowString msg.inPort.toUInt16 eth.dst r)]
      else []) ++ [msg.packetOut (if r = portFlood then ofppFlood else r.toUInt32)] =
    ((if o.getD ofppFlood ≠ ofppFlood then
        [Sent.flowMod msg.dpid 100 msg.inPort (formatMac eth.dst) (o.getD ofppFlood)] else []) ++
      [msg.packetOut (o.getD ofppFlood)]).map (Sent.named name) := by
  rcases o with _ | p
  · rw [hr]
    rfl
  · have hp := ho p rfl
    have hflood : ¬ r = portFlood := by
      rw [hr]
      exact hp.ne_portFlood
    have hrp : r.toNat = p.toNat := by
      rw [hr]
      exact hp.toNat_eq
    have hback : r.toUInt32 = p := by
      rw [hr]
      exact hp.back
    rw [if_pos hflood, if_neg hflood, flowString_eq hin.toNat_eq hrp, hback, Option.getD_some,
      if_pos hp.ne_ofppFlood]
    rfl

/-- What the reactive controller sends, by what was sighted so far and in this packet. -/
lemma reactive_sent (h : ∀ d m, x.macToPort d (formatMac m) = last ws (d, m)) {msg : PacketIn}
    {eth : Ethernet} (he : msg.eth = some eth) {o : Option UInt32}
    (ho : o = last (ws ++ [((msg.dpid, eth.src), msg.inPort)]) (msg.dpid, eth.dst)) :
    (∀ d m, (x.packetIn msg).1.macToPort d (formatMac m) =
        last (ws ++ [((msg.dpid, eth.src), msg.inPort)]) (d, m)) ∧
      (x.packetIn msg).2 = (if o.getD ofppFlood ≠ ofppFlood then
          [.flowMod msg.dpid 100 msg.inPort (formatMac eth.dst) (o.getD ofppFlood)] else []) ++
        [msg.packetOut (o.getD ofppFlood)] := by
  have hlast := reactive_update h msg.dpid eth.src msg.inPort
  have hself : Function.update (x.macToPort msg.dpid) (formatMac eth.src) (some msg.inPort)
      (formatMac eth.dst) = o := by
    rw [ho, ← hlast msg.dpid eth.dst, Function.update_self]
  rw [Reactive.packetIn, he]
  dsimp only
  rw [hself]
  exact ⟨hlast, rfl⟩

/-- **One packet**: what was sighted is known on both sides, and the same is sent. -/
lemma Knows.step (hk : Knows name ws x y) {msg : PacketIn} {eth : Ethernet} {a : Answers}
    (he : msg.eth = some eth) (ha : a.name = name msg.dpid) (hn : name msg.dpid ≠ [])
    (hlen : (name msg.dpid).length < maxBridgeLen)
    (hroom : (keys (ws ++ [((msg.dpid, eth.src), msg.inPort)])).length ≤ maxEntries)
    (hapart : ∀ q ∈ ws, name q.1.1 = name msg.dpid → q.1.1 = msg.dpid)
    (hports : ∀ q ∈ ws ++ [((msg.dpid, eth.src), msg.inPort)], Port16 q.2) :
    Knows name (ws ++ [((msg.dpid, eth.src), msg.inPort)]) (x.packetIn msg).1
        (y.packetIn msg a).1 ∧
      (y.packetIn msg a).2 = (x.packetIn msg).2.map (Sent.named name) := by
  obtain ⟨y', hy, hcore, hcache⟩ := resolve_eq hk.cache hn
  have hk' : Knows name ws x y' :=
    ⟨hk.reactive, hcore ▸ hk.inPlace, hcore ▸ hk.adapter, hcore ▸ hk.table, hcache⟩
  let c := callOf (name msg.dpid) hlen msg eth a
  obtain ⟨hport, htable⟩ := port_known hk' c rfl rfl hroom hapart
  obtain ⟨hlast, hreactive⟩ := reactive_sent hk.reactive he rfl
  have hout : y.packetIn msg a =
      ({ y' with core := (Lifecycle.packetIn y'.core .bridge c.bridge c.info c.env c.env').1 },
        flowAdds (effects y'.core c.bridge c.info c.env') ++
          [msg.packetOut (if port y'.core c = portFlood then ofppFlood
            else (port y'.core c).toUInt32)]) := by
    rw [Bridge.packetIn, he, ha, hy]
    simp only [noRulePacketInfo_eq]
    rfl
  have hmem : ∀ p ∈ last (ws ++ [((msg.dpid, eth.src), msg.inPort)]) (msg.dpid, eth.dst),
      Port16 p := fun p hp => hports _ (mem_of_last hp)
  rw [hout, hreactive]
  refine ⟨⟨hlast, (call_state hk'.inPlace c).1, ?_, htable, hk'.cache⟩, ?_⟩
  · exact (call_adapter hk'.inPlace c).trans hk'.adapter
  · rw [flowAdds_effects hk'.inPlace hk'.adapter]
    exact sent_eq name msg eth hmem (hports _ (List.mem_append_right _ (List.mem_singleton_self _)))
      hport

/-! ### Every history -/

/-- The packet of `src` to `dst` that comes in on port `p` of switch `d`. -/
def event (d : UInt64) (p : UInt32) (src dst : UInt8) : Event :=
  ⟨⟨d, p, ofpNoBuffer, some ⟨macOf src, macOf dst, 0x800⟩, [src, dst]⟩,
    ⟨[d.toUInt8], ⟨0, true⟩, ⟨{}, true⟩⟩⟩

end DaimDistributed.Baseline
