import DaimDistributed.CappedMap
import DaimDistributed.Lifecycle

/-!
What the single-switch learning application decides, over a whole history of packets.

Every packet is a sighting of its source on its bridge. The MAC table is a map of bounded
size from pairs of a bridge and an address to ports, written once a packet, before the
destination is looked up.
-/

namespace DaimDistributed.Sightings

open HostState DaimDistributed.Core BridgeLearning Lifecycle CappedMap
open LearningApp (NoRulePacketInfo portFlood maxBridgeLen)

/-- One call of `daim_learning_app_packet_in`, and what the outside answers to it. -/
structure Sighting where
  bridge : List UInt8
  info : NoRulePacketInfo
  env : LearningApp.Env
  env' : BridgeLearning.Env
  short : bridge.length < maxBridgeLen

/-- The port the call returns. -/
def port (x : System) (c : Sighting) : UInt16 :=
  (packetIn x .bridge c.bridge c.info c.env c.env').2

/-- The process after some calls. -/
def calls (x : System) (cs : List Sighting) : System :=
  cs.foldl (fun x c => (packetIn x .bridge c.bridge c.info c.env c.env').1) x

/-- What a call writes: the port at the bridge and the source. -/
def Sighting.write (c : Sighting) : (List UInt8 × Mac) × UInt16 :=
  ((c.bridge, c.info.macSrc), c.info.inPort)

/-- The distinct pairs of a bridge and a source, in the order in which they came up. -/
def pairs (cs : List Sighting) : List (List UInt8 × Mac) := keys (cs.map Sighting.write)

/-- The latest sighting of an address on a bridge. -/
def latest (cs : List Sighting) (bridge : List UInt8) (mac : Mac) : Option Sighting :=
  (cs.filter fun c => (c.bridge, c.info.macSrc) = (bridge, mac)).getLast?

/-! ### The table is a map of bounded size -/

def pairOf (e : MacEntry) : (List UInt8 × Mac) × UInt16 := ((e.bridge, e.mac), e.port)

variable {t : List MacEntry} {bridge : List UInt8} {mac : Mac} {p : UInt16}

lemma isFor_iff {e : MacEntry} : e.isFor bridge mac = true ↔ (pairOf e).1 = (bridge, mac) := by
  simp [MacEntry.isFor, pairOf]

lemma lookupPort_eq (t : List MacEntry) (bridge : List UInt8) (mac : Mac) :
    lookupPort t bridge mac = (find (t.map pairOf) (bridge, mac)).getD portFlood := by
  have hf : (t.map pairOf).find? (fun e => e.1 = (bridge, mac)) =
      (t.find? fun e => e.isFor bridge mac).map pairOf := by
    rw [List.find?_map]
    congr 2
    funext e
    simp [← isFor_iff]
  unfold lookupPort find
  rw [hf]
  cases t.find? fun e => e.isFor bridge mac <;> rfl

/-- One entry is changed, the only one with its key. -/
lemma learn_eq (hn : ((t.map pairOf).map Prod.fst).Nodup) (hb : bridge.length < maxBridgeLen) :
    (learn t bridge mac p).map pairOf = write maxEntries (t.map pairOf) ((bridge, mac), p) := by
  have htake : bridge.take (maxBridgeLen - 1) = bridge := List.take_of_length_le (by omega)
  rcases hf : t.findIdx? fun e => e.isFor bridge mac with _ | i
  · have hno : (bridge, mac) ∉ (t.map pairOf).map Prod.fst := by
      intro hm
      simp only [List.map_map, List.mem_map, Function.comp] at hm
      obtain ⟨e, he, hk⟩ := hm
      have := List.findIdx?_eq_none_iff.mp hf e he
      rw [isFor_iff.mpr hk] at this
      cases this
    simp only [learn, hf, write, if_neg hno, List.length_map, htake]
    split_ifs
    · rfl
    · rw [List.map_append]
      rfl
  · obtain ⟨hi, hei, -⟩ := List.findIdx?_eq_some_iff_getElem.mp hf
    have hkey := isFor_iff.mp hei
    have hmem : (bridge, mac) ∈ (t.map pairOf).map Prod.fst :=
      hkey ▸ List.mem_map_of_mem (List.mem_map_of_mem (List.getElem_mem hi))
    simp only [learn, hf, write, if_pos hmem]
    refine List.ext_getElem (by simp) fun j hj hj' => ?_
    have hjt : j < t.length := by simpa using hj
    simp only [List.getElem_map, List.getElem_modify]
    by_cases hij : i = j
    · subst hij
      rw [if_pos rfl, if_pos hkey]
      have h1 := congrArg Prod.fst hkey
      have h2 := congrArg Prod.snd hkey
      simp only [pairOf] at h1 h2 ⊢
      rw [h1, h2]
    · rw [if_neg hij, if_neg]
      intro hk
      have hli : i < ((t.map pairOf).map Prod.fst).length := by simpa using hi
      have hlj : j < ((t.map pairOf).map Prod.fst).length := by simpa using hjt
      have hget : ((t.map pairOf).map Prod.fst)[i] = ((t.map pairOf).map Prod.fst)[j] := by
        rw [List.getElem_map, List.getElem_map, List.getElem_map, List.getElem_map, hkey, hk]
      exact hij ((List.Nodup.getElem_inj_iff hn).mp hget)

/-! ### One call -/

/-- The application is initialised, and its handler is the one that is registered. -/
structure InPlace (x : System) : Prop where
  ready : x.learning.ready = true
  handler : daimCoreEmit x.core noRule = some .learning

variable {x : System} {c : Sighting} {cs : List Sighting}

lemma Sighting.take_bridge (c : Sighting) : c.bridge.take (maxBridgeLen - 1) = c.bridge :=
  List.take_of_length_le (by have := c.short; omega)

/-- What a call leaves of the state. -/
lemma call_state (h : InPlace x) (c : Sighting) :
    InPlace (packetIn x .bridge c.bridge c.info c.env c.env').1 ∧
      (packetIn x .bridge c.bridge c.info c.env c.env').1.learning.table =
        learn x.learning.table c.bridge c.info.macSrc c.info.inPort := by
  have he : daimCoreEmit (x.enter .bridge c.bridge c.env').core noRule = some .learning :=
    h.handler
  have hready : ¬ x.ready .bridge = false := by simp [System.ready, h.ready]
  have hon : ∀ a : AppState, (onNoRule a c.info c.env').1.ready = a.ready ∧
      (onNoRule a c.info c.env').1.table =
        learn a.table a.currentBridge c.info.macSrc c.info.inPort := by
    intro a
    unfold onNoRule installFlow
    dsimp only
    split_ifs <;> exact ⟨rfl, rfl⟩
  refine ⟨⟨?_, ?_⟩, ?_⟩
  · rw [packetIn, if_neg hready]
    simp only [emit, he]
    exact (hon _).1.trans h.ready
  · rw [packetIn_core]
    exact h.handler
  · rw [packetIn, if_neg hready]
    simp only [emit, he]
    refine (hon _).2.trans ?_
    rw [show (x.enter .bridge c.bridge c.env').learning.currentBridge = c.bridge from
      c.take_bridge]
    rfl

/-- The source is learned, and then the destination looked up. -/
lemma port_eq (h : InPlace x) (c : Sighting) :
    port x c = lookupPort (learn x.learning.table c.bridge c.info.macSrc c.info.inPort) c.bridge
      c.info.macDst := by
  have ho : daimCoreEmit x.core noRule = some (App.bridge).handler := h.handler
  have hr : x.ready .bridge = true := h.ready
  rw [port, packetIn_own hr ho, computed, c.take_bridge]

/-! ### A whole history -/

/-- A table that holds a history has each pair once. -/
lemma nodup_of_after {ws : List ((List UInt8 × Mac) × UInt16)}
    (ht : t.map pairOf = after maxEntries ws) : ((t.map pairOf).map Prod.fst).Nodup := by
  rw [ht, (holds_after maxEntries _).keys]
  exact (nodup_keys _).sublist (List.take_sublist _ _)

/-- The table after a history. -/
lemma calls_state (h : InPlace x) (ht : x.learning.table = []) (cs : List Sighting) :
    InPlace (calls x cs) ∧ (calls x cs).learning.table.map pairOf =
      after maxEntries (cs.map Sighting.write) := by
  induction cs using List.reverseRecOn with
  | nil => exact ⟨h, by simp [calls, ht, after]⟩
  | append_singleton cs c ih =>
    obtain ⟨hin, htab⟩ := ih
    obtain ⟨hin', htab'⟩ := call_state hin c
    have hcalls : calls x (cs ++ [c]) =
        (packetIn (calls x cs) .bridge c.bridge c.info c.env c.env').1 := by
      simp [calls, List.foldl_append]
    have hn := nodup_of_after htab
    rw [hcalls]
    refine ⟨hin', ?_⟩
    rw [htab', learn_eq hn c.short, htab, List.map_append, after, after, List.foldl_append]
    rfl

lemma last_write (cs : List Sighting) (bridge : List UInt8) (mac : Mac) :
    last (cs.map Sighting.write) (bridge, mac) =
      (latest cs bridge mac).map fun c => c.info.inPort := by
  rw [last, latest, List.filter_map, List.getLast?_map, Option.map_map]
  rfl

/-- The port, as the map of the whole history has it. -/
lemma port_after (h : InPlace x) (ht : x.learning.table = []) (cs : List Sighting)
    (c : Sighting) : port (calls x cs) c =
      (find (after maxEntries ((cs ++ [c]).map Sighting.write)) (c.bridge, c.info.macDst)).getD
        portFlood := by
  obtain ⟨hin, htab⟩ := calls_state h ht cs
  have hn := nodup_of_after htab
  rw [port_eq hin, lookupPort_eq, learn_eq hn c.short, htab, List.map_append, after, after,
    List.foldl_append]
  rfl

lemma port_listed (h : InPlace x) (ht : x.learning.table = [])
    (hm : (c.bridge, c.info.macDst) ∈ (pairs (cs ++ [c])).take maxEntries) :
    ∃ s, latest (cs ++ [c]) c.bridge c.info.macDst = some s ∧
      port (calls x cs) c = s.info.inPort := by
  rw [pairs] at hm
  have hsome := last_isSome (List.mem_of_mem_take hm)
  rw [last_write, Option.isSome_map] at hsome
  obtain ⟨s, hs⟩ := Option.isSome_iff_exists.mp hsome
  refine ⟨s, hs, ?_⟩
  rw [port_after h ht, (holds_after maxEntries _).find, if_pos hm, last_write, hs]
  rfl

lemma port_unlisted (h : InPlace x) (ht : x.learning.table = [])
    (hm : (c.bridge, c.info.macDst) ∉ (pairs (cs ++ [c])).take maxEntries) :
    port (calls x cs) c = portFlood := by
  rw [pairs] at hm
  rw [port_after h ht, (holds_after maxEntries _).find, if_neg hm]
  rfl

/-- Calls on other bridges do not matter as long as there is room. -/
lemma port_filter (h : InPlace x) (ht : x.learning.table = [])
    (hc : (pairs (cs ++ [c])).length ≤ maxEntries) :
    port (calls x (cs.filter fun s => s.bridge = c.bridge)) c = port (calls x cs) c := by
  have hf : (cs.filter (fun s => s.bridge = c.bridge) ++ [c]).map Sighting.write =
      ((cs ++ [c]).map Sighting.write).filter fun p => p.1.1 = c.bridge := by
    rw [List.filter_map, List.filter_append]
    simp only [Function.comp_def, Sighting.write, decide_true, List.filter_cons_of_pos,
      List.filter_nil]
    rfl
  rw [port_after h ht, port_after h ht, hf, find_filter hc]
  intro p _ hp
  simp [hp]

lemma init_table (x : System) (adapter : Bool) :
    (step x (.learningInit adapter)).learning.table = [] := rfl

/-- **The application decides by the most recent sighting, bridge by bridge.** From an
initialisation on, the port for a destination is that of its latest sighting on the bridge,
this call's included, if it is one of the first 4096 pairs, and otherwise the packet is
flooded. While there is room, calls on other bridges do not change a decision; and the table
holds the pairs that were seen, up to 4096. -/
theorem decides_by_latest_sighting {x₀ : System} {adapter : Bool}
    (h : daimCoreEmit (step x₀ (.learningInit adapter)).core noRule = some .learning)
    (cs : List Sighting) :
    (∀ c : Sighting,
      ((c.bridge, c.info.macDst) ∈ (pairs (cs ++ [c])).take 4096 →
        ∃ s, latest (cs ++ [c]) c.bridge c.info.macDst = some s ∧
          port (calls (step x₀ (.learningInit adapter)) cs) c = s.info.inPort) ∧
      ((c.bridge, c.info.macDst) ∉ (pairs (cs ++ [c])).take 4096 →
        port (calls (step x₀ (.learningInit adapter)) cs) c = portFlood) ∧
      ((pairs (cs ++ [c])).length ≤ 4096 →
        port (calls (step x₀ (.learningInit adapter)) (cs.filter fun s => s.bridge = c.bridge)) c =
          port (calls (step x₀ (.learningInit adapter)) cs) c)) ∧
    (calls (step x₀ (.learningInit adapter)) cs).learning.table.length =
      min 4096 (pairs cs).length := by
  have hin : InPlace (step x₀ (.learningInit adapter)) := ⟨rfl, h⟩
  have ht := init_table x₀ adapter
  refine ⟨fun c => ⟨port_listed hin ht, port_unlisted hin ht, port_filter hin ht⟩, ?_⟩
  rw [← List.length_map (f := pairOf), (calls_state hin ht cs).2,
    (holds_after maxEntries _).length]
  rfl

lemma short_name (b : UInt8) : [b].length < maxBridgeLen := by
  simp [maxBridgeLen]

/-- A packet on port `p` of the bridge named `b`. -/
def packet (b p src dst : UInt8) : Sighting :=
  ⟨[b], ⟨p.toUInt16, macOf src, macOf dst, 0x800⟩, ⟨0, true⟩, ⟨{}, true⟩, short_name b⟩

/-- A host moves from port 1 to port 2 and is found there, and not on the other bridge. -/
theorem decides_by_latest_sighting_roaming :
    (∃ s, latest [packet 1 1 7 8, packet 1 2 7 8, packet 1 3 8 7] [1] (macOf 7) = some s ∧
      port (calls (step { core := daimInit {} } (.learningInit true))
        [packet 1 1 7 8, packet 1 2 7 8]) (packet 1 3 8 7) = s.info.inPort) ∧
    port (calls (step { core := daimInit {} } (.learningInit true))
      [packet 1 1 7 8, packet 1 2 7 8]) (packet 2 3 8 7) = portFlood := by
  have h := (@decides_by_latest_sighting { core := daimInit {} } true (by decide)
    [packet 1 1 7 8, packet 1 2 7 8]).1
  exact ⟨(h (packet 1 3 8 7)).1 (by decide), (h (packet 2 3 8 7)).2.1 (by decide)⟩

end DaimDistributed.Sightings
