import DaimDistributed.HostInv
import DaimDistributed.Registers

/-!
Remote state does not depend on the order, the number or the path of the updates.

Seen through its claims, the table of a node is a file of last-writer-wins registers, one
for each MAC: as long as no MAC has two owners, an accepted, duplicate or stale update is
an offer to the register of its MAC. What a run of updates leaves is then the latest of
everything that was offered.
-/

namespace DaimDistributed.Merge

open HostState HostTable HostInv Registers

/-- The two entry points of a remote update. -/
inductive Path
  | applyRemote | importSnapshotEntry
  deriving DecidableEq

/-- One update, handed in through one of the paths at one time. -/
structure Delivery where
  path : Path
  update : HostLocation
  now : UInt64

def deliver (s : State) (d : Delivery) : State :=
  match d.path with
  | .applyRemote => (daimHostApplyRemote s (some d.update) d.now).1
  | .importSnapshotEntry => (daimHostImportSnapshotEntry s (some d.update) d.now).1

/-- The claims a table holds, as registers. -/
def reg (t : List HostLocation) (m : Mac) : Option Claim := (find t m).map claim

/-- The `is_local` byte of a MAC, `0` for an unknown one. -/
def localFlag (t : List HostLocation) (m : Mac) : UInt8 :=
  match find t m with
  | none => 0
  | some r => r.isLocal

variable {s : State} {u : HostLocation} {now : UInt64} {p : State × ApplyResult}

/-- Both paths are `apply_locked`. -/
lemma deliver_applies (hs : s.ready = true) (d : Delivery) :
    ∃ res, Applies s d.update d.now (deliver s d, res) := by
  have h := applyLocked_applies s d.update d.now
  refine ⟨(applyLocked s (some d.update) d.now).2, ?_⟩
  cases hp : d.path <;>
    simpa [deliver, hp, daimHostApplyRemote, daimHostImportSnapshotEntry, hs] using h

/-! ### One update is one offer -/

/-- **An update by another node is an offer to its register**, unless the MAC is held under
a different origin. -/
theorem reg_applies (ha : Applies s u now p) (h0 : u.originNodeId ≠ 0)
    (hn : u.originNodeId ≠ s.nodeId)
    (hroom : find s.table u.mac = none → s.table.length < maxHostEntries)
    (ho : ∀ r, find s.table u.mac = some r → r.originNodeId = u.originNodeId) :
    reg p.1.table = put Claim.mac Claim.ver (reg s.table) (claim u) := by
  funext m
  simp only [reg, put, ha.find hroom m]
  have hm : (claim u).mac = u.mac := rfl
  by_cases h : u.mac = m
  case neg => simp [hm, h]
  case pos =>
    subst h
    rcases hf : find s.table u.mac with _ | r
    · simp [merge, h0, hn, hm, claim_newRemote]
    · have hor := ho r hf
      by_cases hv : ver r < ver u
      · simp [merge, h0, hn, hor, hv, hm, claim_updatedRecord (find_mac hf) hor]
      · simp [merge, h0, hn, hv, hm]

/-- No update changes an `is_local` byte. -/
lemma localFlag_applies (ha : Applies s u now p) (m : Mac) :
    localFlag p.1.table m = localFlag s.table m := by
  cases ha with
  | new h0 hn hf hl =>
    by_cases hm : u.mac = m
    · subst hm
      simp [localFlag, State.accept, find_write, newRemote, hf]
    · simp [localFlag, State.accept, find_write, newRemote, hm]
  | updated h0 hn hf ho hv =>
    by_cases hm : u.mac = m
    · subst hm
      simp [localFlag, State.accept, find_write, updatedRecord, find_mac hf, hf]
    · simp [localFlag, State.accept, find_write, updatedRecord, find_mac hf, hm]
  | _ => rfl

/-! ### A run of updates -/

/-- What a node held before, or was handed. -/
def Offered (s : State) (U : List HostLocation) (x : HostLocation) : Prop :=
  daimHostLookup s (some x.mac) = some x ∨ x ∈ U

/-- The updates `U` can be merged into the table of an initialised node: they come from
other nodes, no MAC has two owners, a version determines the contents, and there is
room. -/
structure Compatible (s : State) (U : List HostLocation) : Prop where
  ready : s.ready = true
  foreign : ∀ u ∈ U, u.originNodeId ≠ 0 ∧ u.originNodeId ≠ s.nodeId
  owner : ∀ x y, Offered s U x → Offered s U y → x.mac = y.mac →
    x.originNodeId = y.originNodeId
  version : ∀ x y, Offered s U x → Offered s U y → x.mac = y.mac →
    x.originNodeId = y.originNodeId → ver x = ver y → claim x = claim y
  fits : Fits s.table (U.map HostLocation.mac).toFinset

/-- Every update of `U` is delivered, any positive number of times, and nothing else is. -/
structure Delivers (U : List HostLocation) (ds : List Delivery) : Prop where
  mem : ∀ d ∈ ds, d.update ∈ U
  all : ∀ u ∈ U, ∃ d ∈ ds, d.update = u

/-- The record of a MAC has the origin of the update, once it is merged in. -/
lemma merge_origin {o : Option HostLocation} {r : HostLocation} {i : UInt64}
    (h0 : u.originNodeId ≠ 0) (hn : u.originNodeId ≠ i)
    (ho : ∀ r, o = some r → r.originNodeId = u.originNodeId) (h : merge i o u now = some r) :
    r.originNodeId = u.originNodeId := by
  rcases o with _ | r0
  · simp only [merge, h0, hn, or_self, if_false, Option.some.injEq] at h
    exact h ▸ rfl
  · have h1 := ho r0 rfl
    simp only [merge, h0, hn, or_self, if_false] at h
    split_ifs at h <;> cases h <;> exact h1

/-- What a run of deliveries carries from state to state. -/
structure Running (U : List HostLocation) (i : UInt64) (s : State) : Prop where
  ready : s.ready = true
  nodeId : s.nodeId = i
  fits : Fits s.table (U.map HostLocation.mac).toFinset
  owner : ∀ u ∈ U, ∀ r, find s.table u.mac = some r → r.originNodeId = u.originNodeId

variable {U : List HostLocation} {ds : List Delivery} {i : UInt64}

lemma Running.step (h : Running U i s)
    (hU : ∀ u ∈ U, u.originNodeId ≠ 0 ∧ u.originNodeId ≠ i)
    (hown : ∀ u ∈ U, ∀ v ∈ U, u.mac = v.mac → u.originNodeId = v.originNodeId)
    {d : Delivery} (hd : d.update ∈ U) :
    Running U i (deliver s d) ∧
      reg (deliver s d).table = put Claim.mac Claim.ver (reg s.table) (claim d.update) ∧
      ∀ m, localFlag (deliver s d).table m = localFlag s.table m := by
  obtain ⟨res, ha⟩ := deliver_applies h.ready d
  obtain ⟨h0, hn⟩ := hU _ hd
  rw [← h.nodeId] at hn
  have hmac : d.update.mac ∈ (U.map HostLocation.mac).toFinset :=
    List.mem_toFinset.mpr (List.mem_map_of_mem hd)
  have hroom := h.fits.room hmac
  have hreg := reg_applies ha h0 hn hroom (h.owner _ hd)
  refine ⟨⟨ha.ready.trans h.ready, ha.nodeId.trans h.nodeId, h.fits.applies ha hmac, ?_⟩, hreg,
    localFlag_applies ha⟩
  intro v hv r hr
  rw [ha.find hroom] at hr
  split_ifs at hr with hm
  · rw [← hm] at hr
    exact (merge_origin h0 hn (h.owner _ hd) hr).trans (hown _ hd _ hv hm)
  · exact h.owner v hv r hr

lemma Running.foldl (h : Running U i s)
    (hU : ∀ u ∈ U, u.originNodeId ≠ 0 ∧ u.originNodeId ≠ i)
    (hown : ∀ u ∈ U, ∀ v ∈ U, u.mac = v.mac → u.originNodeId = v.originNodeId)
    (hds : ∀ d ∈ ds, d.update ∈ U) :
    Running U i (ds.foldl deliver s) ∧
      reg (ds.foldl deliver s).table =
        (ds.map fun d => claim d.update).foldl (put Claim.mac Claim.ver) (reg s.table) ∧
      ∀ m, localFlag (ds.foldl deliver s).table m = localFlag s.table m := by
  induction ds generalizing s with
  | nil => exact ⟨h, rfl, fun _ => rfl⟩
  | cons d ds ih =>
    obtain ⟨h1, hr1, hl1⟩ := h.step hU hown (hds d (by simp))
    obtain ⟨h2, hr2, hl2⟩ := ih h1 fun d hd => hds d (by simp [hd])
    refine ⟨h2, ?_, fun m => (hl2 m).trans (hl1 m)⟩
    rw [List.foldl_cons, hr2, hr1, List.map_cons, List.foldl_cons]

lemma Compatible.running (h : Compatible s U) : Running U s.nodeId s where
  ready := h.ready
  nodeId := rfl
  fits := h.fits
  owner := fun u hu r hr => by
    have hm := find_mac hr
    refine h.owner r u (.inl ?_) (.inr hu) hm
    rw [daimHostLookup_eq h.ready, hm, hr]

/-- The claims the register of `m` was offered. -/
def candidates (s : State) (U : List HostLocation) (m : Mac) : Set Claim :=
  {c | ∃ x, Offered s U x ∧ x.mac = m ∧ claim x = c}

/-- The register of every MAC ends up with the latest claim it was offered. -/
lemma Compatible.isLatest (h : Compatible s U) (hd : Delivers U ds) (m : Mac) :
    IsLatest Claim.ver (candidates s U m) (reg (ds.foldl deliver s).table m) := by
  obtain ⟨-, hreg, -⟩ := h.running.foldl h.foreign
    (fun u hu v hv => h.owner u v (.inr hu) (.inr hv)) hd.mem
  rw [hreg]
  have h1 := foldl_put_isLatest Claim.mac (ds.map fun d => claim d.update)
    (isLatest_self Claim.ver (reg s.table) m)
  convert h1 using 1
  ext c
  simp only [candidates, Offered, daimHostLookup_eq h.ready, Set.mem_ofPred_eq, Set.mem_union,
    List.mem_map, reg, Option.map_eq_some_iff]
  constructor
  · rintro ⟨x, hx | hx, rfl, rfl⟩
    · exact .inl ⟨x, hx, rfl⟩
    · obtain ⟨d, hdm, rfl⟩ := hd.all x hx
      exact .inr ⟨⟨d, hdm, rfl⟩, rfl⟩
  · rintro (⟨x, hx, rfl⟩ | ⟨⟨d, hdm, rfl⟩, hm⟩)
    · exact ⟨x, .inl (by rw [find_mac hx, hx]), find_mac hx, rfl⟩
    · exact ⟨d.update, .inr (hd.mem d hdm), hm, rfl⟩

lemma Compatible.candidates_inj (h : Compatible s U) (m : Mac) :
    ∀ c ∈ candidates s U m, ∀ c' ∈ candidates s U m, c.ver = c'.ver → c = c' := by
  rintro _ ⟨x, hx, hm, rfl⟩ _ ⟨y, hy, hm', rfl⟩ hv
  have hxy := hm.trans hm'.symm
  exact h.version x y hx hy hxy (h.owner x y hx hy hxy) hv

/-- A record without the time this node applied it. -/
def sansApplied (r : HostLocation) : HostLocation := { r with appliedAtNs := 0 }

lemma sansApplied_eq {r r' : HostLocation} (hc : claim r = claim r')
    (hl : r.isLocal = r'.isLocal) : sansApplied r = sansApplied r' := by
  simp only [claim, Claim.mk.injEq] at hc
  simp [sansApplied, hc, hl]

/-- `r` carries the claim with the greatest version that was offered for `m`, and the
`is_local` byte the table had. -/
def Greatest (s : State) (U : List HostLocation) (m : Mac) (r : HostLocation) : Prop :=
  r.isLocal = localFlag s.table m ∧
    ∃ x, Offered s U x ∧ x.mac = m ∧ claim x = claim r ∧
      ∀ y, Offered s U y → y.mac = m → ver y ≤ ver x

/-- **Order, duplication and path do not matter.** Two ways of delivering the same updates
leave the same answers to every lookup: the record of the greatest version there is. -/
theorem deliveries_agree (h : Compatible s U) (hd : Delivers U ds) :
    (∀ ds', Delivers U ds' → ∀ m,
      (daimHostLookup (ds.foldl deliver s) (some m)).map sansApplied =
        (daimHostLookup (ds'.foldl deliver s) (some m)).map sansApplied) ∧
    ∀ m, match daimHostLookup (ds.foldl deliver s) (some m) with
      | none => ∀ x, Offered s U x → x.mac ≠ m
      | some r => Greatest s U m r := by
  have hrun := fun (ds' : List Delivery) (hd' : Delivers U ds') =>
    h.running.foldl h.foreign (fun u hu v hv => h.owner u v (.inr hu) (.inr hv)) hd'.mem
  obtain ⟨h1, -, hl1⟩ := hrun ds hd
  refine ⟨fun ds' hd' m => ?_, fun m => ?_⟩
  · obtain ⟨h2, -, hl2⟩ := hrun ds' hd'
    have hr := (h.isLatest hd m).unique (h.isLatest hd' m) (h.candidates_inj m)
    have hl := (hl1 m).trans (hl2 m).symm
    rw [daimHostLookup_eq h1.ready, daimHostLookup_eq h2.ready]
    simp only [reg] at hr
    rcases hf : find (ds.foldl deliver s).table m with _ | r <;>
      rcases hf' : find (ds'.foldl deliver s).table m with _ | r' <;>
      simp only [hf, hf', Option.map_none, Option.map_some, reduceCtorEq, localFlag] at hr hl ⊢
    rw [sansApplied_eq (Option.some.inj hr) hl]
  · rw [daimHostLookup_eq h1.ready]
    have hlat := h.isLatest hd m
    have hl := hl1 m
    simp only [reg] at hlat
    rcases hf : find (ds.foldl deliver s).table m with _ | r
    · rw [hf] at hlat
      obtain ⟨hnone⟩ := hlat
      exact fun x hx hm => hnone (claim x) ⟨x, hx, hm, rfl⟩
    · rw [hf] at hlat
      obtain - | ⟨⟨x, hx, hm, hc⟩, hmax⟩ := hlat
      refine ⟨by simpa [localFlag, hf] using hl, x, hx, hm, hc, fun y hy hym => ?_⟩
      have := hmax (claim y) ⟨y, hy, hym, rfl⟩
      rwa [← hc] at this

/-- Two updates of one host by node 2. -/
def roaming (q : UInt64) (po : UInt32) : HostLocation where
  mac := macOf 1
  originNodeId := 2
  ownerDpid := 2
  ownerPort := po
  ownerEpoch := 1
  sequence := q
  isLocal := 1
  learnedAtNs := q
  appliedAtNs := 3

lemma compatible_roaming :
    Compatible (daimHostStateInit {} 1 7) [roaming 1 1, roaming 2 5] := by
  have hoff : ∀ x, Offered (daimHostStateInit {} 1 7) [roaming 1 1, roaming 2 5] x →
      x = roaming 1 1 ∨ x = roaming 2 5 := by
    rintro x (hx | hx)
    · simp [daimHostStateInit, find] at hx
    · simpa using hx
  refine ⟨rfl, by decide, fun x y hx hy => ?_, fun x y hx hy => ?_, by decide⟩
  all_goals rcases hoff x hx with rfl | rfl <;> rcases hoff y hy with rfl | rfl
  all_goals decide

theorem deliveries_agree_roaming :
    (daimHostLookup ([⟨.applyRemote, roaming 2 5, 8⟩, ⟨.importSnapshotEntry, roaming 1 1, 9⟩].foldl
        deliver (daimHostStateInit {} 1 7)) (some (macOf 1))).map sansApplied =
      (daimHostLookup ([⟨.importSnapshotEntry, roaming 1 1, 4⟩, ⟨.applyRemote, roaming 1 1, 5⟩,
        ⟨.importSnapshotEntry, roaming 2 5, 6⟩].foldl deliver (daimHostStateInit {} 1 7))
          (some (macOf 1))).map sansApplied :=
  (deliveries_agree compatible_roaming ⟨by decide, by decide⟩).1 _ ⟨by decide, by decide⟩ _

end DaimDistributed.Merge
