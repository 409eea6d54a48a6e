import DaimDistributed.Agreement
import DaimDistributed.Chain

/-!
A packet on its way through the chain while the cluster goes on running.

Between two switches the nodes may learn, hand updates around, fail and start again. Where a
packet goes next is decided on what its node has heard by then: a node that has heard of the
destination sends the packet one switch nearer to the owner, and one that has not floods it.
-/

namespace DaimDistributed.Forwarding

open HostState HostTable HostInv LearningApp Registers Transitions Agreement Chain
open Cluster (World Step cluster issued issuedBy boots)

/-! ### The packet -/

/-- Where the packet is: at a port of a switch, or gone. -/
inductive Place
  | switch (i p : ℕ)
  | host (i : ℕ)
  | flooded (i : ℕ)
  | lost
  deriving DecidableEq

/-- What the controller's answer does with a packet at port `p` of switch `i`: a port that is no
decision is flooded, and a switch sends nothing back through the port it came in on. -/
def sent (n i p : ℕ) (out : UInt16) : Place :=
  if out = portFlood ∨ out = portNone then .flooded i
  else if out.toNat = p then .lost
  else
    match plugged n i out with
    | some (.switch j, q) => .switch j q
    | some (.host j, _) => .host j
    | none => .lost

/-- The cluster, and one packet. -/
structure Trip where
  world : World := {}
  place : Place
  hops : ℕ := 0

/-- A step of the cluster; if it is the decision about this packet, the packet is sent on. -/
def step (n : ℕ) (m : Mac) (x : Trip) : Step × Bool → Option Trip
  | (st, ours) =>
    match Cluster.step x.world st with
    | none => none
    | some c =>
      if ours = false then some { x with world := c }
      else
        match st, x.place with
        | .forward k _, .switch i p =>
          match (x.world.node k).pc with
          | .announced info =>
            if k = UInt64.ofNat i ∧ info.macDst = m then
              some ⟨c, sent n i p (c.node k).app.decidedPort, x.hops + 1⟩
            else none
          | _ => none
        | _, _ => none

/-- The packet is for `m` and comes in on the host port of switch `i₀`. -/
def trip (n : ℕ) (m : Mac) (i₀ : ℕ) : Lts Trip (Step × Bool) :=
  ofFun (· = { place := .switch i₀ Chain.hostPort.toNat }) (step n m)

/-- What happens to the cluster meanwhile. -/
def worlds (h : List (Trip × (Step × Bool))) : List (World × Step) :=
  h.map fun p => (p.1.world, p.2.1)

variable {n i i₀ k p : ℕ} {m : Mac} {h : List (Trip × (Step × Bool))} {x y : Trip}
  {g : List (World × Step)} {c : World} {st : Step}

lemma step_world {l : Step × Bool} (hst : step n m x l = some y) :
    Cluster.step x.world l.1 = some y.world := by
  obtain ⟨st, ours⟩ := l
  simp only [step] at hst
  split at hst
  · cases hst
  · rename_i c hc
    rw [hc]
    split_ifs at hst
    · cases hst
      rfl
    · split at hst
      · split at hst
        · split_ifs at hst
          cases hst
          rfl
        · cases hst
      · cases hst

lemma run_worlds (hr : Run (trip n m i₀) h x) : Run cluster (worlds h) x.world := by
  induction hr with
  | init h0 =>
    cases h0
    exact .init rfl
  | @step h x y l _ hst ih =>
    have h1 := ih.step (a := l.1) (step_world hst)
    rwa [show worlds (h ++ [(x, l)]) = worlds h ++ [(x.world, l.1)] by simp [worlds]]

/-! ### The configuration -/

/-- An application with the ports and the order of node `i` of the chain. -/
structure Placed (n i : ℕ) (a : AppState) : Prop where
  nodeId : a.myNodeId = UInt64.ofNat i
  hostPort : a.hostPort = Chain.hostPort
  chainOrder : a.chainOrder = chainIds n
  ports : (a.portTowardLower, a.portTowardHigher) = chainPorts i n

/-- The node and the application a step starts. -/
def startedBy : Step → Option (UInt64 × AppState)
  | .boot j _ app => some (j, app)
  | _ => none

/-- The nodes are started as nodes of the chain. -/
def Configured (n : ℕ) (g : List (World × Step)) : Prop :=
  ∀ q ∈ g, ∀ b ∈ startedBy q.2, ∃ i, (1 ≤ i ∧ i ≤ n) ∧ b.1 = UInt64.ofNat i ∧ Placed n i b.2

lemma Placed.congr {a b : AppState} (h : Placed n i a) (hs : SameConfig a b) : Placed n i b :=
  ⟨hs.myNodeId.trans h.nodeId, hs.hostPort.trans h.hostPort, hs.chainOrder.trans h.chainOrder,
    by rw [hs.lower, hs.higher, h.ports]⟩

lemma sameConfig_set {j k : UInt64} {z : Cluster.Node} (hz : SameConfig (c.node k).app z.app) :
    SameConfig (c.node j).app ((c.set k z).node j).app := by
  by_cases hjk : j = k
  · subst hjk
    rwa [Cluster.set_node_self]
  · rw [Cluster.set_node_of_ne c z hjk]
    exact .refl _

/-- Only a start changes how a node is configured. -/
lemma step_app {c' : World} (hst : Cluster.step c st = some c') (j : UInt64) :
    (∃ e app, st = .boot j e app ∧ (c'.node j).app = app) ∨
      starts j st = false ∧ SameConfig (c.node j).app (c'.node j).app := by
  cases st with
  | boot k e app =>
    simp only [Cluster.step] at hst
    split_ifs at hst
    cases hst
    by_cases hjk : j = k
    · subst hjk
      exact .inl ⟨e, app, rfl, by rw [Cluster.set_node_self]⟩
    · refine .inr ⟨by simp [starts, Ne.symm hjk], ?_⟩
      rw [Cluster.set_node_of_ne c _ hjk]
      exact .refl _
  | packetIn k info now =>
    simp only [Cluster.step] at hst
    split at hst <;> cases hst
    exact .inr ⟨rfl, sameConfig_set (learnSource_sameConfig now)⟩
  | announce k =>
    simp only [Cluster.step] at hst
    split at hst <;> cases hst
    exact .inr ⟨rfl, sameConfig_set (announce_sameConfig _)⟩
  | forward k env =>
    simp only [Cluster.step] at hst
    split at hst <;> cases hst
    exact .inr ⟨rfl, sameConfig_set forward_sameConfig⟩
  | exportSnapshot k =>
    simp only [Cluster.step] at hst
    split at hst <;> cases hst
    exact .inr ⟨rfl, .refl _⟩
  | deliver k path payload now =>
    simp only [Cluster.step] at hst
    split_ifs at hst
    split at hst <;> cases hst
    · exact .inr ⟨rfl, sameConfig_set (.refl _)⟩
    · exact .inr ⟨rfl, .refl _⟩

/-- What every run of the chain keeps: a running node is one of the chain, and what is learned
is learned on a host port. -/
structure OnChain (n : ℕ) (g : List (World × Step)) (c : World) : Prop where
  placed : ∀ j, (c.node j).state.ready = true →
    ∃ i, (1 ≤ i ∧ i ≤ n) ∧ j = UInt64.ofNat i ∧ Placed n i (c.node j).app
  port : ∀ x ∈ issued g, x.ownerPort = Chain.hostPort.toUInt32

lemma OnChain.step {c' : World} (hch : OnChain n g c) (hst : Cluster.step c st = some c')
    (hc : Configured n (g ++ [(c, st)])) : OnChain n (g ++ [(c, st)]) c' := by
  refine ⟨fun j hj => ?_, fun x hx => ?_⟩
  · rcases step_app hst j with ⟨e, app, rfl, happ⟩ | ⟨hb, hs⟩
    · rw [happ]
      exact hc (c, .boot j e app) (by simp) (j, app) rfl
    · rw [((step_changes hst j).kept hb).1] at hj
      obtain ⟨i, hi, hji, hp⟩ := hch.placed j hj
      exact ⟨i, hi, hji, hp.congr hs⟩
  · rw [Cluster.issued_snoc, List.mem_append, Option.mem_toList] at hx
    rcases hx with hx | hx
    · exact hch.port x hx
    · cases st with
      | packetIn k info now =>
        simp only [issuedBy, Option.ite_none_right_eq_some, Option.some.injEq] at hx
        obtain ⟨⟨hport, hq⟩, rfl⟩ := hx
        have hready : (c.node k).state.ready = true := by
          by_contra hn
          have hn' : (c.node k).state.ready = false := by simpa using hn
          simp [daimHostLearnLocal, hn'] at hq
        obtain ⟨i, -, -, hp⟩ := hch.placed k hready
        rw [← hp.hostPort, ← hport]
        rfl
      | _ => simp [issuedBy] at hx

lemma run_onChain (hr : Run cluster g c) (hc : Configured n g) : OnChain n g c := by
  induction hr with
  | init h0 =>
    cases h0
    exact ⟨fun j hj => by simp at hj, by simp [issued]⟩
  | @step g c c' st _ hst ih =>
    exact (ih fun q hq => hc q (List.mem_append_left _ hq)).step hst hc

/-! ### One decision -/

lemma nextHopPort_eq {a : AppState} (ha : Placed n i a) (hn : n ≤ 64) (hi : 1 ≤ i ∧ i ≤ n)
    (hk : 1 ≤ k ∧ k ≤ n) :
    nextHopPort a (UInt64.ofNat k) =
      if k < i then (chainPorts i n).1 else (chainPorts i n).2 := by
  have hp := Prod.ext_iff.mp ha.ports
  simp only [nextHopPort, ha.nodeId, chainIndexOf_eq ha.chainOrder hn hi,
    chainIndexOf_eq ha.chainOrder hn hk]
  rw [← hp.1, ← hp.2]
  by_cases hki : k < i
  · rw [if_pos hki, if_pos (by omega)]
  · rw [if_neg hki, if_neg (by omega)]

/-- **A node that has heard of the host decides for the owner's side**, the owner for its host
port. -/
lemma outPort_heard (hv : Agreement.Inv g (.ofNat k) m c) (hown : OwnedBy (.ofNat k) m g)
    (hch : OnChain n g c) (hn : n ≤ 64) (hi : 1 ≤ i ∧ i ≤ n) (hk : 1 ≤ k ∧ k ≤ n)
    (hready : (c.node (.ofNat i)).state.ready = true)
    (hh : ∃ x ∈ heard (.ofNat i) g, x.mac = m) :
    outPort (c.node (.ofNat i)).app (c.node (.ofNat i)).state m =
      if i = k then Chain.hostPort
      else if k < i then (chainPorts i n).1 else (chainPorts i n).2 := by
  obtain ⟨x, hx, hxm⟩ := hh
  obtain ⟨r, hlook, hmem, hrm, -⟩ := answers hv hready hx hxm
  have horigin : r.originNodeId = UInt64.ofNat k := hown _ (hv.heard _ hmem) hrm
  have hport : r.ownerPort = Chain.hostPort.toUInt32 := hch.port _ (hv.heard _ hmem)
  obtain ⟨i', hi', hii, hp⟩ := hch.placed _ hready
  obtain rfl : i = i' := ofNat_inj (by omega) (by omega) hii
  have hlocal : r.isLocal ≠ 0 ↔ i = k := by
    have hl := hlook
    rw [daimHostLookup_eq hready] at hl
    rw [(hv.follows _ hready).table.find_local hl, horigin]
    exact ⟨fun h => (ofNat_inj (by omega) (by omega) h).symm, fun h => by rw [h]⟩
  simp only [outPort, hlook]
  by_cases hik : i = k
  · rw [if_pos hik, if_pos (hlocal.mpr hik), hport]
    rfl
  · rw [if_neg hik, if_neg fun h => hik (hlocal.mp h), horigin, nextHopPort_eq hp hn hi hk]

/-- A node that has not heard of it floods. -/
lemma outPort_unheard {j : UInt64} (hv : Agreement.Inv g (.ofNat k) m c)
    (hh : (c.node j).state.ready = true → ∀ x ∈ heard j g, x.mac ≠ m) :
    outPort (c.node j).app (c.node j).state m = portFlood := by
  have hnone : daimHostLookup (c.node j).state (some m) = none := by
    by_cases hready : (c.node j).state.ready = true
    · rcases hlook : daimHostLookup (c.node j).state (some m) with _ | r
      · rfl
      · obtain ⟨hmem, hrm, -⟩ := latest_of_lookup hv hready hlook
        exact absurd hrm (hh hready _ hmem)
    · simp [daimHostLookup, hready]
  simp only [outPort, hnone]

/-! ### One hop -/

/-- Where a packet goes that is at switch `i`, on its way to the host of `k`. -/
def next (n k i : ℕ) : Place :=
  if i = k then .host k
  else if k < i then .switch (i - 1) (chainPorts (i - 1) n).2.toNat
  else .switch (i + 1) 2

/-- The packet has come from `i₀` the straight way, over so many links. -/
inductive OnWay (n i₀ k : ℕ) : Place → ℕ → Prop
  | start : OnWay n i₀ k (.switch i₀ Chain.hostPort.toNat) 0
  | up {i : ℕ} (h : i₀ < i) (hk : i ≤ k) : OnWay n i₀ k (.switch i 2) (i - i₀)
  | down {i : ℕ} (h : i < i₀) (hk : k ≤ i) :
      OnWay n i₀ k (.switch i (chainPorts i n).2.toNat) (i₀ - i)
  | arrived : OnWay n i₀ k (.host k) (max i₀ k - min i₀ k + 1)
  | flooded {i : ℕ} (h : min i₀ k ≤ i ∧ i ≤ max i₀ k) :
      OnWay n i₀ k (.flooded i) (max i₀ i - min i₀ i + 1)

lemma chainPorts_lower (hi : 1 < i) : (chainPorts i n).1 = 2 := by
  simp [chainPorts, show i ≠ 1 by omega]

lemma chainPorts_higher (hi : i < n) : (chainPorts i n).2 = if i = 1 then 2 else 3 := by
  simp [chainPorts, show i ≠ n by omega]

lemma sent_switch {out : UInt16} {j q : ℕ} (hf : out ≠ portFlood) (h0 : out ≠ portNone)
    (hp : out.toNat ≠ p) (hj : plugged n i out = some (.switch j, q)) :
    sent n i p out = .switch j q := by
  simp only [sent, hf, h0, or_self, if_false, hp, hj]

lemma sent_host {out : UInt16} {j : ℕ} (hf : out ≠ portFlood) (h0 : out ≠ portNone)
    (hp : out.toNat ≠ p) (hj : (plugged n i out).map Prod.fst = some (.host j)) :
    sent n i p out = .host j := by
  obtain ⟨⟨d, q⟩, hd, rfl⟩ := Option.map_eq_some_iff.mp hj
  simp only [sent, hf, h0, or_self, if_false, hp, hd]

/-- The decision for the owner's side brings the packet there, and does not send it back. -/
lemma sent_next {hops : ℕ} (hw : OnWay n i₀ k (.switch i p) hops) (hi₀ : 1 ≤ i₀ ∧ i₀ ≤ n)
    (hk : 1 ≤ k ∧ k ≤ n) (hne : i₀ ≠ k) :
    sent n i p (if i = k then Chain.hostPort
      else if k < i then (chainPorts i n).1 else (chainPorts i n).2) = next n k i := by
  unfold next
  by_cases hik : i = k
  · subst hik
    rw [if_pos rfl, if_pos rfl]
    refine sent_host (by decide) (by decide) ?_ (plugged_host hk)
    cases hw with
    | start => exact absurd rfl hne
    | up _ _ => decide
    | down h _ =>
      rw [chainPorts_higher (by omega)]
      split_ifs <;> decide
  · rw [if_neg hik, if_neg hik]
    by_cases hki : k < i
    · have hin : i ≤ n := by cases hw <;> omega
      rw [if_pos hki, if_pos hki]
      have hport := chainPorts_lower (n := n) (show 1 < i by omega)
      refine sent_switch (by rw [hport]; decide) (by rw [hport]; decide) ?_
        (plugged_lower ⟨by omega, hin⟩)
      rw [hport]
      cases hw with
      | start => decide
      | up _ h => omega
      | down h _ =>
        rw [chainPorts_higher (by omega), if_neg (by omega)]
        decide
    · have hi1 : 1 ≤ i := by cases hw <;> omega
      rw [if_neg hki, if_neg hki]
      have hport := chainPorts_higher (show i < n by omega)
      refine sent_switch (by rw [hport]; split_ifs <;> decide) (by rw [hport]; split_ifs <;> decide)
        ?_ (plugged_higher ⟨hi1, by omega⟩)
      rw [hport]
      cases hw with
      | start => split_ifs <;> decide
      | up h _ =>
        rw [if_neg (by omega)]
        decide
      | down _ h => omega

lemma OnWay.switch_le {hops : ℕ} (hw : OnWay n i₀ k (.switch i p) hops)
    (hi₀ : 1 ≤ i₀ ∧ i₀ ≤ n) (hk : 1 ≤ k ∧ k ≤ n) : 1 ≤ i ∧ i ≤ n := by
  cases hw <;> omega

lemma OnWay.next {hops : ℕ} (hw : OnWay n i₀ k (.switch i p) hops) :
    OnWay n i₀ k (next n k i) (hops + 1) := by
  unfold Forwarding.next
  by_cases hik : i = k
  · subst hik
    rw [if_pos rfl]
    have hhops : hops = max i₀ i - min i₀ i := by cases hw <;> omega
    rw [hhops]
    exact .arrived
  · rw [if_neg hik]
    by_cases hki : k < i
    · rw [if_pos hki]
      have hhops : hops + 1 = i₀ - (i - 1) := by cases hw <;> omega
      rw [hhops]
      exact .down (by cases hw <;> omega) (by omega)
    · rw [if_neg hki]
      have hhops : hops + 1 = i + 1 - i₀ := by cases hw <;> omega
      rw [hhops]
      exact .up (by cases hw <;> omega) (by omega)

lemma OnWay.flood {hops : ℕ} (hw : OnWay n i₀ k (.switch i p) hops) :
    OnWay n i₀ k (.flooded i) (hops + 1) := by
  have hhops : hops = max i₀ i - min i₀ i := by cases hw <;> omega
  rw [hhops]
  exact .flooded (by cases hw <;> omega)

/-! ### The whole way -/

/-- The node is up and has heard of the host. -/
def HasHeard (j : UInt64) (m : Mac) (g : List (World × Step)) (c : World) : Prop :=
  (c.node j).state.ready = true ∧ ∃ x ∈ heard j g, x.mac = m

lemma step_others (hst : step n m x (st, false) = some y) :
    y.place = x.place ∧ y.hops = x.hops := by
  simp only [step] at hst
  split at hst
  · cases hst
  · cases hst
    exact ⟨rfl, rfl⟩

lemma step_ours (hst : step n m x (st, true) = some y) :
    ∃ i p, x.place = .switch i p ∧ y.hops = x.hops + 1 ∧
      y.place = sent n i p
        (outPort (x.world.node (.ofNat i)).app (x.world.node (.ofNat i)).state m) := by
  simp only [step, Bool.true_eq_false, if_false] at hst
  split at hst
  · cases hst
  · rename_i c hc
    split at hst
    · rename_i k env i p hplace
      split at hst
      · rename_i info hpc
        split_ifs at hst with hours
        cases hst
        obtain ⟨rfl, rfl⟩ := hours
        simp only [Cluster.step, hpc, Option.some.injEq] at hc
        subst hc
        refine ⟨i, p, hplace, rfl, ?_⟩
        rw [Cluster.set_node_self]
        exact congrArg (sent n i p) forward_decidedPort
      · cases hst
    · cases hst

lemma worlds_append (h h' : List (Trip × (Step × Bool))) :
    worlds (h ++ h') = worlds h ++ worlds h' := List.map_append

/-- **One hop is made on what the node has heard by then.** -/
lemma hop_place {l : Step × Bool} (hr : Run (trip n m i₀) h x) (ho : Orderly (worlds h))
    (hown : OwnedBy (.ofNat k) m (worlds h)) (hc : Configured n (worlds h)) (hn : n ≤ 64)
    (hi₀ : 1 ≤ i₀ ∧ i₀ ≤ n) (hk : 1 ≤ k ∧ k ≤ n) (hne : i₀ ≠ k)
    (hw : OnWay n i₀ k (.switch i p) x.hops) (hplace : x.place = .switch i p)
    (hl : l.2 = true) (hst : step n m x l = some y) :
    y.hops = x.hops + 1 ∧
      (HasHeard (.ofNat i) m (worlds h) x.world → y.place = next n k i) ∧
      (¬HasHeard (.ofNat i) m (worlds h) x.world → y.place = .flooded i) := by
  obtain ⟨st, ours⟩ := l
  cases hl
  obtain ⟨i', p', hp', hhops, hy⟩ := step_ours hst
  obtain ⟨rfl, rfl⟩ : i = i' ∧ p = p' := by
    rw [hplace] at hp'
    exact Place.switch.inj hp'
  have hi := hw.switch_le hi₀ hk
  have hrun := run_worlds hr
  have hv := Agreement.run_inv hrun ho hown
  refine ⟨hhops, fun hh => ?_, fun hh => ?_⟩
  · rw [hy, outPort_heard hv hown (run_onChain hrun hc) hn hi hk hh.1 hh.2]
    exact sent_next hw hi₀ hk hne
  · rw [hy, outPort_unheard hv fun hready x hx hxm => hh ⟨hready, x, hx, hxm⟩]
    exact if_pos (.inl rfl)

/-- **A packet never strays.** Whatever the cluster does while it is under way, the packet is on
the straight way to the owner's switch, over as many links as it has gone, or has arrived at
the owner's host, or was flooded on the way; and it is flooded where a node takes it that has
not heard of the host, and nowhere else. -/
theorem packet_never_strays (hr : Run (trip n m i₀) h x) (ho : Orderly (worlds h))
    (hown : OwnedBy (.ofNat k) m (worlds h)) (hc : Configured n (worlds h)) (hn : n ≤ 64)
    (hi₀ : 1 ≤ i₀ ∧ i₀ ≤ n) (hk : 1 ≤ k ∧ k ≤ n) (hne : i₀ ≠ k) :
    OnWay n i₀ k x.place x.hops ∧
      ∀ h1 h2 z l, h = h1 ++ (z, l) :: h2 → l.2 = true → ∀ i p, z.place = .switch i p →
        ∀ y, step n m z l = some y →
          (y.place = .flooded i ↔ ¬HasHeard (.ofNat i) m (worlds h1) z.world) := by
  have hway : ∀ {h x}, Run (trip n m i₀) h x → Orderly (worlds h) →
      OwnedBy (.ofNat k) m (worlds h) → Configured n (worlds h) →
        OnWay n i₀ k x.place x.hops := by
    intro h x hr ho hown hc
    induction hr with
    | init h0 =>
      cases h0
      exact .start
    | @step h x y l hr hst ih =>
      rw [worlds_append] at ho hown hc
      have hw := ih ho.of_append hown.of_append fun q hq => hc q (List.mem_append_left _ hq)
      obtain ⟨st, ours⟩ := l
      cases ours with
      | false =>
        obtain ⟨h1, h2⟩ := step_others hst
        rwa [h1, h2]
      | true =>
        obtain ⟨i, p, hplace, -, -⟩ := step_ours hst
        rw [hplace] at hw
        obtain ⟨hhops, hnext, hflood⟩ := hop_place hr ho.of_append hown.of_append
          (fun q hq => hc q (List.mem_append_left _ hq)) hn hi₀ hk hne hw hplace rfl hst
        rw [hhops]
        by_cases hh : HasHeard (.ofNat i) m (worlds h) x.world
        · rw [hnext hh]
          exact hw.next
        · rw [hflood hh]
          exact hw.flood
  refine ⟨hway hr ho hown hc, ?_⟩
  rintro h1 h2 z l rfl hl i p hplace y hst
  rw [worlds_append] at ho hown hc
  have hr1 : Run (trip n m i₀) h1 z := (hr.of_append rfl).1
  have hc1 : Configured n (worlds h1) := fun q hq => hc q (List.mem_append_left _ hq)
  have hw := hway hr1 ho.of_append hown.of_append hc1
  rw [hplace] at hw
  obtain ⟨-, hnext, hflood⟩ := hop_place hr1 ho.of_append hown.of_append hc1 hn hi₀ hk hne hw
    hplace hl hst
  refine ⟨fun hy hh => ?_, hflood⟩
  rw [hnext hh, next] at hy
  split_ifs at hy

/-- Node 2 learns a host and floods its packet, node 1 is told of the host, and a packet for it
goes from node 1 to node 2. -/
def across : List (Step × Bool) :=
  let app (i : ℕ) : AppState :=
    { ready := true, transport := true, myNodeId := UInt64.ofNat i, hostPort := Chain.hostPort,
      chainOrder := chainIds 2, portTowardLower := (chainPorts i 2).1,
      portTowardHigher := (chainPorts i 2).2 }
  let env : LearningApp.Env := ⟨0, true⟩
  let learned := localRecord (daimHostStateInit {} 2 7) (macOf 2) 0 1 5
  [(.boot 1 7 (app 1), false), (.boot 2 7 (app 2), false),
    (.packetIn 2 ⟨1, macOf 2, macOf 1, 0x800⟩ 5, false), (.announce 2, false),
    (.forward 2 env, false),
    (.deliver 1 .applyRemote (Protocol.daimPeerEncodeHostLocation learned) 6, false),
    (.packetIn 1 ⟨1, macOf 1, macOf 2, 0x800⟩ 7, false), (.announce 1, false),
    (.forward 1 env, true), (.packetIn 2 ⟨2, macOf 1, macOf 2, 0x800⟩ 8, false),
    (.announce 2, false), (.forward 2 env, true)]

theorem packet_never_strays_across : ∃ h x, Run (trip 2 (macOf 2) 1) h x ∧
    x.place = .host 2 ∧ OnWay 2 1 2 x.place x.hops := by
  obtain ⟨h, x, hr, hf, hl, hown, happs, hplace⟩ := exists_run_of_replay (f := step 2 (macOf 2))
    (i := (· = { place := .switch 1 Chain.hostPort.toNat })) across rfl
    (fun h x => ((boots (worlds h)).Pairwise fun a b => a.1 = b.1 → a.2 < b.2) ∧
      (worlds h).length ≤ maxHostEntries ∧ OwnedBy (.ofNat 2) (macOf 2) (worlds h) ∧
      (∀ q ∈ worlds h, ∀ b ∈ startedBy q.2, ∃ i ∈ [1, 2], b.1 = UInt64.ofNat i ∧
        b.2.myNodeId = UInt64.ofNat i ∧ b.2.hostPort = Chain.hostPort ∧
          b.2.chainOrder = chainIds 2 ∧
            (b.2.portTowardLower, b.2.portTowardHigher) = chainPorts i 2) ∧
      x.place = .host 2) (by unfold OwnedBy; decide +kernel)
  have hc : Configured 2 (worlds h) := fun q hq b hb => by
    obtain ⟨i, hi, hbi, h1, h2, h3, h4⟩ := happs q hq b hb
    refine ⟨i, ?_, hbi, h1, h2, h3, h4⟩
    simp only [List.mem_cons, List.not_mem_nil, or_false] at hi
    omega
  have hway := (packet_never_strays hr (orderly_of_length hf hl) hown hc (by decide) (by decide)
    (by decide) (by decide)).1
  exact ⟨h, x, hr, hplace, hway⟩

/-! ### Without exchange -/

def isDelivery : Step → Bool
  | .deliver _ _ _ _ => true
  | _ => false

/-- No node is handed anything. -/
def NoExchange (g : List (World × Step)) : Prop := ∀ q ∈ g, isDelivery q.2 = false

/-- What a node keeps that is handed nothing: its table has hosts of its own, all of them claims
it has issued. -/
structure Isolated (g : List (World × Step)) (j : UInt64) (s : State) : Prop where
  nodeId : s.nodeId = j
  pos : 0 < s.nextLocalSequence.toNat
  le : s.nextLocalSequence.toNat ≤ 1 + Cluster.learns j s.ownerEpoch g
  own : ∀ r ∈ s.table, r.originNodeId = j ∧ claim r ∈ issued g

lemma Isolated.same {j : UInt64} {s : State} (hi : Isolated g j s) (q : World × Step) :
    Isolated (g ++ [q]) j s where
  nodeId := hi.nodeId
  pos := hi.pos
  le := hi.le.trans (Nat.add_le_add_left (Cluster.learns_le g q.1 q.2) 1)
  own r hr := ⟨(hi.own r hr).1, issued_subset g [q] (hi.own r hr).2⟩

/-- A learn puts the claim it issues into the table, and the counter does not wrap. -/
lemma Isolated.learn {j : UInt64} (hi : Isolated g j (c.node j).state)
    (hready : (c.node j).state.ready = true) {info : NoRulePacketInfo} {now : UInt64}
    (hport : info.inPort = (c.node j).app.hostPort)
    (hl : ∀ e, Cluster.learns j e (g ++ [(c, .packetIn j info now)]) < 2 ^ 64 - 1) :
    Isolated (g ++ [(c, .packetIn j info now)]) j
      (daimHostLearnLocal (c.node j).state (some info.macSrc) (c.node j).app.myDpid
        info.inPort.toUInt32 now).1 := by
  have hcount : Cluster.learns j (c.node j).state.ownerEpoch (g ++ [(c, .packetIn j info now)]) =
      Cluster.learns j (c.node j).state.ownerEpoch g + 1 := by
    have hlearn : Cluster.isLearn j (c.node j).state.ownerEpoch c (.packetIn j info now) =
        true := by
      simp [Cluster.isLearn, hready, hport]
    rw [Cluster.learns_snoc, if_pos hlearn]
  have hlt := hl (c.node j).state.ownerEpoch
  have hle := hi.le
  have hto : ((c.node j).state.nextLocalSequence + 1).toNat =
      (c.node j).state.nextLocalSequence.toNat + 1 := by
    rw [UInt64.toNat_add, UInt64.toNat_one]
    omega
  have hle' : ((c.node j).state.nextLocalSequence + 1).toNat ≤
      1 + Cluster.learns j (c.node j).state.ownerEpoch (g ++ [(c, .packetIn j info now)]) := by
    omega
  have hpos : 0 < ((c.node j).state.nextLocalSequence + 1).toNat := hto ▸ Nat.succ_pos _
  have hold := hi.same (c, .packetIn j info now)
  have hlearns := daimHostLearnLocal_learns hready info.macSrc (c.node j).app.myDpid
    info.inPort.toUInt32 now
  generalize hp : daimHostLearnLocal (c.node j).state (some info.macSrc) (c.node j).app.myDpid
    info.inPort.toUInt32 now = p at hlearns
  cases hlearns with
  | full _ _ => exact ⟨hi.nodeId, hpos, hle', hold.own⟩
  | learned _ =>
    refine ⟨hi.nodeId, hpos, hle', fun r hr => ?_⟩
    rcases mem_write hr with rfl | hr
    · refine ⟨hi.nodeId, ?_⟩
      have hseq : (c.node j).state.nextLocalSequence ≠ 0 := by
        intro h0
        have hz := hi.pos
        rw [h0] at hz
        exact absurd hz (by decide)
      have hby : issuedBy c (.packetIn j info now) =
          some (claim (localRecord (c.node j).state info.macSrc (c.node j).app.myDpid
            info.inPort.toUInt32 now)) := by
        rw [issuedBy, hp]
        exact if_pos ⟨hport, hseq⟩
      rw [Cluster.issued_snoc, hby]
      exact List.mem_append_right _ (List.mem_singleton_self _)
    · exact hold.own r hr

lemma run_isolated (hr : Run cluster g c) (hl : ∀ k e, Cluster.learns k e g < 2 ^ 64 - 1)
    (hno : NoExchange g) (j : UInt64) (hj : (c.node j).state.ready = true) :
    Isolated g j (c.node j).state := by
  induction hr with
  | init h0 =>
    cases h0
    simp at hj
  | @step g c c' st hr hst ih =>
    have ih := ih (fun k e => (Cluster.learns_le g c st).trans_lt (hl k e)) fun q hq =>
      hno q (List.mem_append_left _ hq)
    have hst' := hno (c, st) (by simp)
    have hch := step_changes hst j
    generalize (c'.node j).state = s at hch hj ⊢
    cases hch with
    | same _ _ => exact (ih hj).same (c, st)
    | boot _ =>
      exact ⟨rfl, by simp [daimHostStateInit], by simp [daimHostStateInit],
        by simp [daimHostStateInit]⟩
    | @learn info now hport =>
      by_cases hready : (c.node j).state.ready = true
      · exact (ih hready).learn hready hport (hl j)
      · simp [daimHostLearnLocal, hready] at hj
    | deliver _ _ => cases hst'

/-- **Without exchange nothing spreads**: every table holds the node's own hosts only, and the
packets for a host that another node has learned are flooded. -/
theorem no_exchange_floods (hr : Run cluster g c)
    (hl : ∀ k e, Cluster.learns k e g < 2 ^ 64 - 1) (hno : NoExchange g) (j : UInt64)
    (hj : (c.node j).state.ready = true) :
    (∀ r ∈ (c.node j).state.table, r.originNodeId = j) ∧
      ∀ m, (∀ x ∈ issued g, x.mac = m → x.originNodeId ≠ j) →
        outPort (c.node j).app (c.node j).state m = portFlood := by
  have hi := run_isolated hr hl hno j hj
  refine ⟨fun r hr => (hi.own r hr).1, fun m hm => ?_⟩
  have hnone : find (c.node j).state.table m = none := by
    rcases hf : find (c.node j).state.table m with _ | r
    · rfl
    · obtain ⟨horigin, hiss⟩ := hi.own r (find_mem hf)
      exact absurd horigin (hm (claim r) hiss (find_mac hf))
  simp only [outPort, daimHostLookup_eq hj, hnone]

theorem no_exchange_floods_across : ∃ c : World,
    (∃ r, daimHostLookup (c.node 2).state (some (macOf 2)) = some r) ∧
      outPort (c.node 1).app (c.node 1).state (macOf 2) = portFlood := by
  obtain ⟨h, c, hr, hlen, hno, hready, hiss, r, hrec, -⟩ := exists_run_of_replay
    (f := Cluster.step) (i := (· = {})) (s := {}) ((across.take 5).map Prod.fst) rfl
    (fun h c => h.length = 5 ∧ (∀ q ∈ h, isDelivery q.2 = false) ∧
      (c.node 1).state.ready = true ∧
      (∀ x ∈ issued h, x.mac = macOf 2 → x.originNodeId ≠ 1) ∧
      ∃ r ∈ daimHostLookup (c.node 2).state (some (macOf 2)), r.sequence = 1) (by decide +kernel)
  have hl : ∀ k e, Cluster.learns k e h < 2 ^ 64 - 1 := by
    intro k e
    have hle : Cluster.learns k e h ≤ h.length := List.countP_le_length
    omega
  exact ⟨c, ⟨r, hrec⟩, (no_exchange_floods hr hl hno 1 hready).2 _ hiss⟩

end DaimDistributed.Forwarding
