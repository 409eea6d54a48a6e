import DaimDistributed.LearningApp
import DaimDistributed.Wiring

/-!
Delivery along the chain `h1-s1-...-sN-hN`.

The links are those of `ChainTopo`, the ports of every application those of `chain_ports`.
A packet for a host that node `k` owns is handed from switch to switch by the decisions of
the applications; the induction is on the distance that is left, once in each direction.
-/

namespace DaimDistributed.Chain

open HostState HostTable HostInv DaimDistributed.Core LearningApp Wiring

/-! ### The topology -/

inductive Device
  | host (i : ℕ)
  | switch (i : ℕ)
  deriving DecidableEq

/-- Mininet's first port: 0 on a host, 1 on a switch. -/
def portBase : Device → ℕ
  | .host _ => 0
  | .switch _ => 1

/-- The links of `ChainTopo.build`, in the order they are added. -/
def chainTopo (n : ℕ) : List (Device × Device) :=
  (List.range n).map (fun i => (Device.host (i + 1), Device.switch (i + 1))) ++
    (List.range (n - 1)).map fun i => (Device.switch (i + 1), Device.switch (i + 2))

/-- `chain_ports`: the ports toward lower and toward higher nodes. -/
def chainPorts (nodeId n : ℕ) : UInt16 × UInt16 :=
  let lower := if nodeId = 1 then 0 else 2
  let higher := if nodeId = 1 then 2 else if nodeId = n then 0 else 3
  (lower, higher)

def hostPort : UInt16 := 1

/-- The chain order every node is given. -/
def chainIds (n : ℕ) : List UInt64 := (List.range n).map fun i => UInt64.ofNat (i + 1)

/-- What is plugged into a port of switch `i`. -/
def plugged (n i : ℕ) (port : UInt16) : Option (Device × ℕ) :=
  peer portBase (chainTopo n) (.switch i) port.toNat

variable {n i : ℕ}

lemma chainTopo_host (hi : i < n) :
    (chainTopo n)[i]? = some (.host (i + 1), .switch (i + 1)) := by
  rw [chainTopo, List.getElem?_append_left (by simpa using hi)]
  simp [hi]

lemma chainTopo_switch (hi : i + 1 < n) :
    (chainTopo n)[n + i]? = some (.switch (i + 1), .switch (i + 2)) := by
  rw [chainTopo, List.getElem?_append_right (by simp)]
  simp [show i < n - 1 by omega]

/-- Among the first `k` host links, those of switch `i + 1`. -/
lemma countP_host (i k : ℕ) :
    ((List.range k).map fun j => (Device.host (j + 1), Device.switch (j + 1))).countP
      (fun l => l.1 = .switch (i + 1) ∨ l.2 = .switch (i + 1)) = if i < k then 1 else 0 := by
  induction k with
  | zero => rfl
  | succ k ih =>
    rw [List.range_succ, List.map_append, List.countP_append, ih]
    simp only [List.map_cons, List.map_nil, List.countP_singleton, reduceCtorEq, false_or,
      Device.switch.injEq, Nat.add_right_cancel_iff, decide_eq_true_eq]
    split_ifs <;> omega

/-- Among the first `k` links between switches, those of switch `i + 1`. -/
lemma countP_switch (i k : ℕ) :
    ((List.range k).map fun j => (Device.switch (j + 1), Device.switch (j + 2))).countP
      (fun l => l.1 = .switch (i + 1) ∨ l.2 = .switch (i + 1)) =
        (if i < k then 1 else 0) + if 0 < i ∧ i ≤ k then 1 else 0 := by
  induction k with
  | zero => simp; omega
  | succ k ih =>
    rw [List.range_succ, List.map_append, List.countP_append, ih]
    simp only [List.map_cons, List.map_nil, List.countP_singleton, Device.switch.injEq,
      decide_eq_true_eq]
    split_ifs <;> omega

lemma portOf_host (hi : i < n) : portOf portBase (chainTopo n) (.switch (i + 1)) i = 1 := by
  rw [portOf, chainTopo, List.take_append_of_le_length (by simp; omega), ← List.map_take,
    List.take_range, countP_host]
  simp [portBase]

lemma portOf_switch {k : ℕ} (hk : k + 1 < n) (hi : i < n) :
    portOf portBase (chainTopo n) (.switch (i + 1)) (n + k) =
      2 + ((if i < k then 1 else 0) + if 0 < i ∧ i ≤ k then 1 else 0) := by
  rw [portOf, chainTopo, List.take_append, List.countP_append, List.take_of_length_le (by simp),
    ← List.map_take, List.length_map, List.length_range, List.take_range, countP_host,
    countP_switch, show min (n + k - n) (n - 1) = k by omega]
  simp only [portBase, hi, if_true]
  omega

/-- The two ports of a link between switches. -/
lemma portOf_left (hi : i + 1 < n) :
    portOf portBase (chainTopo n) (.switch (i + 1)) (n + i) = if i = 0 then 2 else 3 := by
  rw [portOf_switch hi (by omega)]
  split_ifs <;> omega

lemma portOf_right (hi : i + 1 < n) :
    portOf portBase (chainTopo n) (.switch (i + 2)) (n + i) = 2 := by
  rw [portOf_switch hi (by omega)]
  split_ifs <;> omega

/-- Port 1 of a switch is its host. -/
lemma plugged_host (hi : 1 ≤ i ∧ i ≤ n) :
    (plugged n i hostPort).map Prod.fst = some (.host i) := by
  obtain ⟨j, rfl⟩ : ∃ j, i = j + 1 := ⟨i - 1, by omega⟩
  have h1 := peer_snd portBase (chainTopo_host (n := n) (i := j) (by omega)) (by simp)
  rw [portOf_host (by omega)] at h1
  simpa [plugged, hostPort] using congrArg (Option.map Prod.fst) h1

/-- `chain_ports` agrees with the topology toward higher nodes. -/
lemma plugged_higher (hi : 1 ≤ i ∧ i < n) :
    plugged n i (chainPorts i n).2 = some (.switch (i + 1), 2) := by
  obtain ⟨j, rfl⟩ : ∃ j, i = j + 1 := ⟨i - 1, by omega⟩
  have h1 := peer_fst portBase (chainTopo_switch (n := n) (i := j) (by omega))
  rw [portOf_left (by omega), portOf_right (by omega)] at h1
  rcases Nat.eq_zero_or_pos j with rfl | hj
  · simpa [plugged, chainPorts] using h1
  · simpa [plugged, chainPorts, hj, hj.ne', show j + 1 ≠ n by omega] using h1

/-- And toward lower nodes. -/
lemma plugged_lower (hi : 1 < i ∧ i ≤ n) :
    plugged n i (chainPorts i n).1 = some (.switch (i - 1), (chainPorts (i - 1) n).2.toNat) := by
  obtain ⟨j, rfl⟩ : ∃ j, i = j + 2 := ⟨i - 2, by omega⟩
  have h1 := peer_snd portBase (chainTopo_switch (n := n) (i := j) (by omega)) (by simp)
  rw [portOf_left (by omega), portOf_right (by omega)] at h1
  rcases Nat.eq_zero_or_pos j with rfl | hj
  · simpa [plugged, chainPorts] using h1
  · simpa [plugged, chainPorts, hj, hj.ne', show j + 1 ≠ n by omega] using h1

/-! ### The nodes -/

/-- One node: the signal table, the application and the host table of its process. -/
structure Node where
  core : CoreState
  app : AppState
  state : State

/-- Node `i` of the chain, set up as the gates do and run for any time. -/
structure Running (n i : ℕ) (x : Node) : Prop where
  ready : x.app.ready = true
  handler : daimCoreEmit x.core noRule = some .distributedLearning
  nodeId : x.app.myNodeId = UInt64.ofNat i
  hostPort : x.app.hostPort = Chain.hostPort
  chainOrder : x.app.chainOrder = chainIds n
  ports : (x.app.portTowardLower, x.app.portTowardHigher) = chainPorts i n
  table : ∃ e h, Transitions.Run (NodeRun.node (UInt64.ofNat i) e) h x.state

/-- The set-up of a node. -/
def boot (n i : ℕ) (e dpid : UInt64) (adapter transport : Bool) : Option Node :=
  (daimDistributedLearningAppInit {} (daimInit {}) adapter (UInt64.ofNat i) dpid hostPort
    (some (chainIds n)) (chainPorts i n).1 (chainPorts i n).2 transport).map fun p =>
      ⟨p.2, p.1, daimHostStateInit {} (UInt64.ofNat i) e⟩

variable {x : Node} {k : ℕ} {m : Mac} {r : HostLocation}

lemma running_boot (hn : 1 ≤ n ∧ n ≤ 64) {e dpid : UInt64} {adapter transport : Bool}
    (h : boot n i e dpid adapter transport = some x) : Running n i x := by
  have hl : ¬((chainIds n).length = 0 ∨ daimDistMaxChain < (chainIds n).length) := by
    simp [chainIds, daimDistMaxChain]
    omega
  simp only [boot, daimDistributedLearningAppInit, if_neg hl, Option.map_some,
    Option.some.injEq] at h
  subst h
  refine ⟨rfl, ?_, rfl, rfl, rfl, rfl, e, [], .init ⟨{}, rfl⟩⟩
  exact emit_signal rfl rfl rfl (by decide) _

/-- A packet leaves a node running. -/
lemma Running.packetIn (h : Running n i x) (bridge : List UInt8) (info : NoRulePacketInfo)
    (env : Env) :
    Running n i ⟨x.core,
      (daimDistributedLearningAppPacketIn x.core x.app x.state (some bridge) (some info) env).2.1,
      (daimDistributedLearningAppPacketIn x.core x.app x.state (some bridge) (some info)
        env).2.2.1⟩ := by
  have hc := packetIn_sameConfig h.ready x.core x.state info env bridge
  refine ⟨hc.ready.trans h.ready, h.handler, hc.myNodeId.trans h.nodeId,
    hc.hostPort.trans h.hostPort, hc.chainOrder.trans h.chainOrder, ?_, ?_⟩
  · rw [hc.lower, hc.higher, h.ports]
  · obtain ⟨e, g, hr⟩ := h.table
    rcases packetIn_state h.ready x.core x.state info env bridge with hs | hs
    · exact ⟨e, g, by simpa only [hs] using hr⟩
    · refine ⟨e, _, hr.step (a := .learnLocal (some info.macSrc) x.app.myDpid
        info.inPort.toUInt32 env.now) ?_⟩
      simp only [hs]
      rfl

/-- So does a call on its host table. -/
lemma Running.exec (h : Running n i x) (op : NodeRun.Op) :
    Running n i { x with state := (NodeRun.exec x.state op).1 } := by
  obtain ⟨e, g, hr⟩ := h.table
  exact ⟨h.ready, h.handler, h.nodeId, h.hostPort, h.chainOrder, h.ports, e, _,
    hr.step (a := op) rfl⟩

/-! ### One decision -/

lemma ofNat_inj {j : ℕ} (hi : i ≤ 64) (hj : j ≤ 64) (h : UInt64.ofNat i = UInt64.ofNat j) :
    i = j := by
  have h1 := congrArg UInt64.toNat h
  simp only [UInt64.toNat_ofNat'] at h1
  omega

lemma chainIndexOf_eq {a : AppState} (hc : a.chainOrder = chainIds n) (hn : n ≤ 64)
    (hi : 1 ≤ i ∧ i ≤ n) : chainIndexOf a (UInt64.ofNat i) = some (i - 1) := by
  obtain ⟨i, rfl⟩ : ∃ i', i = i' + 1 := ⟨i - 1, by omega⟩
  rw [chainIndexOf, hc, chainIds, List.findIdx?_eq_some_iff_getElem]
  refine ⟨by simp; omega, by simp, fun j hj => ?_⟩
  · have hne : UInt64.ofNat (j + 1) ≠ UInt64.ofNat (i + 1) := fun he => by
      have := ofNat_inj (by omega) (by omega) he
      omega
    simpa using hne

/-- The record of another node's host is routed toward that node. -/
lemma outPort_other (h : Running n i x) (hn : n ≤ 64) (hi : 1 ≤ i ∧ i ≤ n) (hk : 1 ≤ k ∧ k ≤ n)
    {s : State} (hf : daimHostLookup s (some m) = some r) (hl : r.isLocal = 0)
    (ho : r.originNodeId = UInt64.ofNat k) :
    outPort x.app s m = if k < i then (chainPorts i n).1 else (chainPorts i n).2 := by
  have hp := h.ports
  rw [Prod.ext_iff] at hp
  simp only [outPort, hf, hl, ho, ne_eq, not_true, if_false, nextHopPort, h.nodeId,
    chainIndexOf_eq h.chainOrder hn hi, chainIndexOf_eq h.chainOrder hn hk]
  rw [← hp.1, ← hp.2]
  by_cases hki : k < i
  · rw [if_pos hki, if_pos (by omega)]
  · rw [if_neg hki, if_neg (by omega)]

structure Packet where
  src : Mac
  dst : Mac
  ethernetType : UInt16

def Packet.info (pkt : Packet) (inPort : UInt16) : NoRulePacketInfo :=
  ⟨inPort, pkt.src, pkt.dst, pkt.ethernetType⟩

/-- The port `packet_in` returns at a node. -/
def decision (x : Node) (bridge : List UInt8) (env : Env) (pkt : Packet) (inPort : UInt16) :
    UInt16 :=
  (daimDistributedLearningAppPacketIn x.core x.app x.state (some bridge)
    (some (pkt.info inPort)) env).1

/-- Every node's table holds the destination with origin `k`, and `k`'s own record is local
on the host port. -/
structure Known (n k : ℕ) (m : Mac) (cl : ℕ → Node) : Prop where
  origin : ∀ i, 1 ≤ i → i ≤ n →
    ∃ r, daimHostLookup (cl i).state (some m) = some r ∧ r.originNodeId = UInt64.ofNat k
  own : ∀ r, daimHostLookup (cl k).state (some m) = some r →
    r.isLocal ≠ 0 ∧ r.ownerPort = hostPort.toUInt32

variable {cl : ℕ → Node} {pkt : Packet} {bridge : List UInt8} {env : Env} {p : UInt16}

lemma decision_eq (hx : Running n i x) (hsrc : pkt.src ≠ pkt.dst) (bridge : List UInt8)
    (env : Env) (p : UInt16) :
    ∃ s, decision x bridge env pkt p = outPort x.app s pkt.dst ∧
      daimHostLookup s (some pkt.dst) = daimHostLookup x.state (some pkt.dst) := by
  obtain ⟨e, g, hr⟩ := hx.table
  have hi := NodeRun.run_inv hr
  obtain ⟨hf, hready⟩ := learnSource_find (a := x.app) hi.ready (pkt.info p) env.now hsrc
  refine ⟨_, packetIn_port hx.ready hx.handler bridge, ?_⟩
  rw [daimHostLookup_eq hready, daimHostLookup_eq hi.ready]
  exact hf

/-- **At the owner the packet goes to the host, elsewhere toward the owner.** -/
lemma decision_port (hcl : ∀ i, 1 ≤ i → i ≤ n → Running n i (cl i)) (hn : n ≤ 64)
    (hi : 1 ≤ i ∧ i ≤ n) (hk : 1 ≤ k ∧ k ≤ n) (hm : Known n k pkt.dst cl)
    (hsrc : pkt.src ≠ pkt.dst) (bridge : List UInt8) (env : Env) (p : UInt16) :
    decision (cl i) bridge env pkt p =
      if i = k then hostPort else if k < i then (chainPorts i n).1 else (chainPorts i n).2 := by
  have hx := hcl i hi.1 hi.2
  obtain ⟨s, hs, hf⟩ := decision_eq hx hsrc bridge env p
  obtain ⟨r, hr, ho⟩ := hm.origin i hi.1 hi.2
  rw [hr] at hf
  rw [hs]
  by_cases hik : i = k
  · subst hik
    obtain ⟨hl, hp⟩ := hm.own r hr
    rw [if_pos rfl]
    simp only [outPort, hf, if_pos hl, hp]
    rfl
  · rw [if_neg hik]
    refine outPort_other hx hn hi hk hf ?_ ho
    obtain ⟨e, g, hrun⟩ := hx.table
    have hinv := NodeRun.run_inv hrun
    rw [daimHostLookup_eq hinv.ready] at hr
    by_contra hl
    have := (hinv.table.find_local hr).mp hl
    exact hik (ofNat_inj (by omega) (by omega) (this.symm.trans ho))

/-! ### The way through the chain -/

structure Hop where
  switch : ℕ
  inPort : UInt16
  outPort : UInt16
  deriving DecidableEq

/-- The switches a packet visits from port `p` of switch `i` on, and the host it reaches. -/
def follow (n : ℕ) (cl : ℕ → Node) (bridge : List UInt8) (env : ℕ → Env) (pkt : Packet) :
    ℕ → ℕ → UInt16 → List Hop × Option Device
  | 0, _, _ => ([], none)
  | fuel + 1, i, p =>
    let out := decision (cl i) bridge (env i) pkt p
    match plugged n i out with
    | some (.switch j, q) =>
      let rest := follow n cl bridge env pkt fuel j (UInt16.ofNat q)
      (⟨i, p, out⟩ :: rest.1, rest.2)
    | some (.host j, _) => ([⟨i, p, out⟩], some (.host j))
    | none => ([⟨i, p, out⟩], none)

/-- A decision that sends the packet on, and not back. -/
def Hop.Good (h : Hop) : Prop :=
  h.outPort ≠ 0 ∧ h.outPort ≠ portNone ∧ h.outPort ≠ portFlood ∧ h.outPort ≠ h.inPort

variable {fuel j q : ℕ} {e : ℕ → Env}

lemma follow_switch
    (h : plugged n i (decision (cl i) bridge (e i) pkt p) = some (.switch j, q)) :
    follow n cl bridge e pkt (fuel + 1) i p =
      (⟨i, p, decision (cl i) bridge (e i) pkt p⟩ ::
        (follow n cl bridge e pkt fuel j (UInt16.ofNat q)).1,
        (follow n cl bridge e pkt fuel j (UInt16.ofNat q)).2) := by simp only [follow, h]

lemma follow_host
    (h : (plugged n i (decision (cl i) bridge (e i) pkt p)).map Prod.fst = some (.host j)) :
    follow n cl bridge e pkt (fuel + 1) i p =
      ([⟨i, p, decision (cl i) bridge (e i) pkt p⟩], some (.host j)) := by
  obtain ⟨⟨d, q⟩, hd, rfl⟩ := Option.map_eq_some_iff.mp h
  simp only [follow, hd]

/-- The packet reaches the host of `k` over the switches `l`, by good decisions. -/
structure Delivered (k : ℕ) (l : List ℕ) (f : List Hop × Option Device) : Prop where
  host : f.2 = some (.host k)
  switches : f.1.map Hop.switch = l
  good : ∀ h ∈ f.1, h.Good

section

variable (hcl : ∀ i, 1 ≤ i → i ≤ n → Running n i (cl i)) (hn : n ≤ 64) (hk : 1 ≤ k ∧ k ≤ n)
  (hm : Known n k pkt.dst cl) (hsrc : pkt.src ≠ pkt.dst)

include hcl hn hk hm hsrc

/-- At the owner, on any port but the host's. -/
lemma follow_owner (hp : p ≠ hostPort) :
    Delivered k [k] (follow n cl bridge e pkt (fuel + 1) k p) := by
  have hd := decision_port hcl hn hk hk hm hsrc bridge (e k) p
  rw [if_pos rfl] at hd
  rw [follow_host (j := k) (by rw [hd]; exact plugged_host hk), hd]
  refine ⟨rfl, rfl, fun h hh => ?_⟩
  obtain rfl : h = _ := by simpa using hh
  exact ⟨(by decide : hostPort ≠ 0), (by decide : hostPort ≠ portNone),
    (by decide : hostPort ≠ portFlood), hp.symm⟩

/-- Upward: from the host port, or from the neighbour below. -/
lemma follow_up (d : ℕ) (hi : 1 ≤ i) (hd : i + d = k)
    (hp : p = hostPort ∧ 0 < d ∨ p = 2 ∧ 1 < i) (hf : d < fuel) :
    Delivered k (List.range' i (d + 1)) (follow n cl bridge e pkt fuel i p) := by
  induction d generalizing i p fuel with
  | zero =>
    obtain ⟨fuel, rfl⟩ : ∃ f, fuel = f + 1 := ⟨fuel - 1, by omega⟩
    obtain rfl : i = k := by omega
    rcases hp with ⟨-, h0⟩ | ⟨rfl, -⟩
    · omega
    · exact follow_owner hcl hn hk hm hsrc (by decide)
  | succ d ih =>
    obtain ⟨fuel, rfl⟩ : ∃ f, fuel = f + 1 := ⟨fuel - 1, by omega⟩
    have hdec := decision_port (i := i) hcl hn ⟨hi, by omega⟩ hk hm hsrc bridge (e i) p
    rw [if_neg (by omega), if_neg (by omega)] at hdec
    rw [follow_switch (j := i + 1) (q := 2) (by rw [hdec]; exact plugged_higher (by omega)), hdec]
    have h1 : Delivered k (List.range' (i + 1) (d + 1))
        (follow n cl bridge e pkt fuel (i + 1) 2) :=
      ih (by omega) (by omega) (.inr ⟨rfl, by omega⟩) (by omega)
    refine ⟨h1.host, by rw [List.map_cons, List.range'_succ]; exact congrArg _ h1.switches, ?_⟩
    intro h hh
    rcases List.mem_cons.mp hh with rfl | hh
    · have hport : (chainPorts i n).2 = if i = 1 then 2 else 3 := by
        simp [chainPorts, show i ≠ n by omega]
      simp only [Hop.Good, hport]
      rcases hp with ⟨rfl, -⟩ | ⟨rfl, h1i⟩
      · split_ifs <;> decide
      · rw [if_neg h1i.ne']
        decide
    · exact h1.good h hh

/-- Downward: from the host port, or from the neighbour above. -/
lemma follow_down (d : ℕ) (hi : i ≤ n) (hd : i = k + d)
    (hp : p = hostPort ∧ 0 < d ∨ p = (chainPorts i n).2 ∧ i < n) (hf : d < fuel) :
    Delivered k (List.range' k (d + 1)).reverse (follow n cl bridge e pkt fuel i p) := by
  induction d generalizing i p fuel with
  | zero =>
    obtain ⟨fuel, rfl⟩ : ∃ f, fuel = f + 1 := ⟨fuel - 1, by omega⟩
    obtain rfl : i = k := by omega
    rcases hp with ⟨-, h0⟩ | ⟨rfl, hlt⟩
    · omega
    · refine follow_owner hcl hn hk hm hsrc ?_
      by_cases h1 : i = 1 <;> simp [chainPorts, h1, hostPort, hlt.ne]
  | succ d ih =>
    obtain ⟨fuel, rfl⟩ : ∃ f, fuel = f + 1 := ⟨fuel - 1, by omega⟩
    have hdec := decision_port (i := i) hcl hn ⟨by omega, hi⟩ hk hm hsrc bridge (e i) p
    rw [if_neg (by omega), if_pos (by omega)] at hdec
    rw [follow_switch (j := i - 1) (by rw [hdec]; exact plugged_lower (by omega)), hdec]
    have h1 : Delivered k (List.range' k (d + 1)).reverse
        (follow n cl bridge e pkt fuel (i - 1) (UInt16.ofNat (chainPorts (i - 1) n).2.toNat)) :=
      ih (by omega) (by omega) (.inr ⟨by simp, by omega⟩) (by omega)
    refine ⟨h1.host, ?_, ?_⟩
    · rw [List.range'_concat, List.reverse_append, List.map_cons, h1.switches]
      simp
      omega
    · intro h hh
      rcases List.mem_cons.mp hh with rfl | hh
      · have hport : (chainPorts i n).1 = 2 := by simp [chainPorts, show i ≠ 1 by omega]
        simp only [Hop.Good, hport]
        rcases hp with ⟨rfl, -⟩ | ⟨rfl, hlt⟩
        · decide
        · simp [chainPorts, show i ≠ 1 by omega, hlt.ne, portNone, portFlood]
      · exact h1.good h hh

/-- **Delivery along the chain.** A packet for a host of node `k` that enters at the host port
of another node reaches `k`'s host over as many links as the nodes are apart; no switch sees
it twice, and no decision floods it, drops it or sends it back. -/
theorem chain_delivers (hi : 1 ≤ i ∧ i ≤ n) (hik : i ≠ k)
    (hf : (max i k - min i k) < fuel) :
    (follow n cl bridge e pkt fuel i hostPort).2 = some (.host k) ∧
      (follow n cl bridge e pkt fuel i hostPort).1.length = (max i k - min i k) + 1 ∧
      ((follow n cl bridge e pkt fuel i hostPort).1.map Hop.switch).Nodup ∧
      ∀ h ∈ (follow n cl bridge e pkt fuel i hostPort).1, h.Good := by
  have hdel : ∃ l : List ℕ, l.Nodup ∧ l.length = (max i k - min i k) + 1 ∧
      Delivered k l (follow n cl bridge e pkt fuel i hostPort) := by
    rcases Nat.lt_or_gt_of_ne hik with hlt | hlt
    · exact ⟨_, List.nodup_range', by simp; omega,
        follow_up hcl hn hk hm hsrc (k - i) hi.1 (by omega) (.inl ⟨rfl, by omega⟩) (by omega)⟩
    · exact ⟨_, List.nodup_reverse.mpr List.nodup_range', by simp; omega,
        follow_down hcl hn hk hm hsrc (i - k) hi.2 (by omega) (.inl ⟨rfl, by omega⟩) (by omega)⟩
  obtain ⟨l, hnd, hlen, h⟩ := hdel
  refine ⟨h.host, ?_, h.switches ▸ hnd, h.good⟩
  rw [← hlen, ← h.switches, List.length_map]

end

/-- Node `i` of a chain of two, after one call on its host table. -/
def endNode (i : ℕ) (op : NodeRun.Op) : Node where
  core := daimSignal (daimInit {}) noRule (some .distributedLearning)
  app := { ready := true, myNodeId := UInt64.ofNat i, hostPort := hostPort,
           chainOrder := chainIds 2, portTowardLower := (chainPorts i 2).1,
           portTowardHigher := (chainPorts i 2).2 }
  state := (NodeRun.exec (daimHostStateInit {} (UInt64.ofNat i) 7) op).1

/-- Node 2 has learned the host, and node 1 has heard of it. -/
def twoNodes (i : ℕ) : Node :=
  let learn := NodeRun.Op.learnLocal (some (macOf 2)) 2 1 5
  if i = 2 then endNode 2 learn
  else endNode 1 (.applyRemote (endNode 2 learn).state.table.head? 6)

theorem chain_delivers_twoNodes :
    (follow 2 twoNodes [] (fun _ => ⟨9, true⟩) ⟨macOf 1, macOf 2, 0x800⟩
      2 1 hostPort).2 = some (.host 2) := by
  have hcl : ∀ i, 1 ≤ i → i ≤ 2 → Running 2 i (twoNodes i) := by
    intro i h1 h2
    obtain rfl | rfl : i = 1 ∨ i = 2 := by omega
    all_goals exact ⟨rfl, by decide, rfl, rfl, rfl, rfl, 7, _, NodeRun.run_history _ 7 [_]⟩
  have hm : Known 2 2 (macOf 2) twoNodes := by
    refine ⟨fun i h1 h2 => ?_, fun r hr => ?_⟩
    · obtain rfl | rfl : i = 1 ∨ i = 2 := by omega
      · exact ⟨_, rfl, by decide⟩
      · exact ⟨_, rfl, by decide⟩
    · obtain rfl : localRecord (daimHostStateInit {} 2 7) (macOf 2) 2 1 5 = r :=
        Option.some.inj hr
      exact ⟨by decide, by decide⟩
  exact (chain_delivers (i := 1) (k := 2) hcl (by decide) (by decide) hm (by decide)
    (by decide) (by decide) (by decide)).1

end DaimDistributed.Chain
