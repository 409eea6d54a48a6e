import Mathlib.Data.Prod.Lex
import Mathlib.Data.List.Nodup
import DaimDistributed.HostState

/-!
What the operations of the host table do, said by MAC address instead of by index.

`daim_host_learn_local` and `apply_locked` both end in writing one record, over the record
of that MAC or behind the last one. `write` is that step; the cases of `apply_locked` are
listed once, and everything later is read off the list.
-/

namespace DaimDistributed.HostTable

open HostState

/-! ### Claims and versions -/

/-- What a record asserts: all of it except the fields every holder sets for itself. -/
structure Claim where
  mac : Mac
  originNodeId : UInt64
  ownerDpid : UInt64
  ownerPort : UInt32
  ownerEpoch : UInt64
  sequence : UInt64
  learnedAtNs : UInt64
  deriving DecidableEq

def claim (r : HostLocation) : Claim :=
  ⟨r.mac, r.originNodeId, r.ownerDpid, r.ownerPort, r.ownerEpoch, r.sequence, r.learnedAtNs⟩

/-- Owner epoch first, then sequence. -/
abbrev Version := ℕ ×ₗ ℕ

def version (ownerEpoch sequence : UInt64) : Version :=
  toLex (ownerEpoch.toNat, sequence.toNat)

def Claim.ver (c : Claim) : Version := version c.ownerEpoch c.sequence

def ver (r : HostLocation) : Version := version r.ownerEpoch r.sequence

lemma version_inj {e e' q q' : UInt64} : version e q = version e' q' ↔ e = e' ∧ q = q' := by
  simp [version, UInt64.toNat_inj]

lemma version_lt {e e' q q' : UInt64} :
    version e q < version e' q' ↔ e < e' ∨ e = e' ∧ q < q' := by
  simp [version, Prod.Lex.toLex_lt_toLex, UInt64.lt_iff_toNat_lt, UInt64.toNat_inj]

@[simp] lemma ver_claim (r : HostLocation) : (claim r).ver = ver r := rfl

/-- `is_newer` is the order of versions. -/
lemma isNewer_iff (r u : HostLocation) : isNewer r u = true ↔ ver r < ver u := by
  simp only [isNewer, ver, version_lt]
  split_ifs with h
  · have hne : r.ownerEpoch ≠ u.ownerEpoch := fun he => h he.symm
    simp [hne]
  · have he : u.ownerEpoch = r.ownerEpoch := not_not.mp h
    simp [he]

/-! ### Reading the table -/

/-- The record a table holds for a MAC: the first one. -/
def find (t : List HostLocation) (m : Mac) : Option HostLocation :=
  t.find? fun r => r.mac = m

lemma find_mac {t : List HostLocation} {m : Mac} {r : HostLocation} (h : find t m = some r) :
    r.mac = m := by simpa using List.find?_some h

lemma find_mem {t : List HostLocation} {m : Mac} {r : HostLocation} (h : find t m = some r) :
    r ∈ t := List.mem_of_find?_eq_some h

lemma find_eq_none {t : List HostLocation} {m : Mac} :
    find t m = none ↔ m ∉ t.map HostLocation.mac := by
  simp [find, List.find?_eq_none]

/-- A table with one record per MAC holds every record it contains. -/
lemma find_of_mem {t : List HostLocation} (hn : (t.map HostLocation.mac).Nodup)
    {r : HostLocation} (hr : r ∈ t) : find t r.mac = some r := by
  induction t with
  | nil => simp at hr
  | cons a t ih =>
    rw [List.map_cons, List.nodup_cons] at hn
    rcases List.mem_cons.mp hr with rfl | hr
    · simp [find]
    · have hne : a.mac ≠ r.mac := fun he => hn.1 (he ▸ List.mem_map_of_mem hr)
      have h1 := ih hn.2 hr
      simpa [find, hne] using h1

lemma findIndex_none {t : List HostLocation} {m : Mac} :
    findIndex t m = none ↔ find t m = none := by
  simp [findIndex, find, List.findIdx?_eq_none_iff, List.find?_eq_none]

lemma findIndex_some {t : List HostLocation} {m : Mac} {i : ℕ} (h : findIndex t m = some i) :
    t[i]? = find t m := by
  induction t generalizing i with
  | nil => simp [findIndex] at h
  | cons a t ih =>
    rw [findIndex, List.findIdx?_cons] at h
    by_cases ha : a.mac = m
    · simp [ha] at h
      subst h
      simp [find, ha]
    · simp [ha] at h
      obtain ⟨j, hj, rfl⟩ := h
      have h1 := ih (i := j) (by simpa [findIndex] using hj)
      simpa [find, ha] using h1

/-- `daim_host_lookup` reads the record of the MAC. -/
@[simp] lemma daimHostLookup_eq {s : State} (hs : s.ready = true) (m : Mac) :
    daimHostLookup s (some m) = find s.table m := by
  simp only [daimHostLookup, hs, Bool.true_eq_false, if_false]
  rcases hi : findIndex s.table m with _ | i
  · exact (findIndex_none.mp hi).symm
  · exact findIndex_some hi

/-! ### Writing the table -/

/-- Write `r` over the record of its MAC, or behind the last record. -/
def write (t : List HostLocation) (r : HostLocation) : List HostLocation :=
  match findIndex t r.mac with
  | some i => t.set i r
  | none => t ++ [r]

lemma write_cons_self {a r : HostLocation} (t : List HostLocation) (h : a.mac = r.mac) :
    write (a :: t) r = r :: t := by
  simp [write, findIndex, List.findIdx?_cons, h]

lemma write_cons_of_ne {a r : HostLocation} (t : List HostLocation) (h : a.mac ≠ r.mac) :
    write (a :: t) r = a :: write t r := by
  simp only [write, findIndex, List.findIdx?_cons, h, decide_false, Bool.false_eq_true,
    if_false, List.cons_append]
  cases List.findIdx? (fun x => decide (x.mac = r.mac)) t <;> rfl

lemma find_write (t : List HostLocation) (r : HostLocation) (m : Mac) :
    find (write t r) m = if r.mac = m then some r else find t m := by
  induction t with
  | nil => by_cases h : r.mac = m <;> simp [write, findIndex, find, h]
  | cons a t ih =>
    by_cases ha : a.mac = r.mac
    · rw [write_cons_self t ha]
      by_cases h : r.mac = m
      · simp [find, h]
      · simp [find, h, show a.mac ≠ m from fun he => h (ha.symm.trans he)]
    · rw [write_cons_of_ne t ha]
      by_cases h : a.mac = m
      · have hne : r.mac ≠ m := fun he => ha (h.trans he.symm)
        simp [find, h, hne]
      · simpa [find, h] using ih

lemma mem_write {t : List HostLocation} {r x : HostLocation} (h : x ∈ write t r) :
    x = r ∨ x ∈ t := by
  unfold write at h
  split at h
  · exact (List.mem_or_eq_of_mem_set h).symm
  · rcases List.mem_append.mp h with h | h
    · exact .inr h
    · exact .inl (by simpa using h)

lemma macs_write (t : List HostLocation) (r : HostLocation) :
    (write t r).map HostLocation.mac =
      if r.mac ∈ t.map HostLocation.mac then t.map HostLocation.mac
      else t.map HostLocation.mac ++ [r.mac] := by
  induction t with
  | nil => simp [write, findIndex]
  | cons a t ih =>
    by_cases ha : a.mac = r.mac
    · simp [write_cons_self t ha, ha]
    · rw [write_cons_of_ne t ha, List.map_cons, ih]
      have hne : r.mac ≠ a.mac := fun he => ha he.symm
      by_cases h : r.mac ∈ t.map HostLocation.mac <;> simp [h, hne]

lemma length_write (t : List HostLocation) (r : HostLocation) :
    (write t r).length = if find t r.mac = none then t.length + 1 else t.length := by
  have hw := congrArg List.length (macs_write t r)
  rw [List.length_map] at hw
  by_cases h : r.mac ∈ t.map HostLocation.mac
  · rw [if_neg (fun hf => find_eq_none.mp hf h), hw, if_pos h, List.length_map]
  · rw [if_pos (find_eq_none.mpr h), hw, if_neg h]
    simp

/-! ### The operations -/

/-- What `apply_locked` can do with an update, and when. -/
inductive Applies (s : State) (u : HostLocation) (now : UInt64) : State × ApplyResult → Prop
  | own (h : u.originNodeId = 0 ∨ u.originNodeId = s.nodeId) :
      Applies s u now (s.reject .invalid)
  | full (h0 : u.originNodeId ≠ 0) (hn : u.originNodeId ≠ s.nodeId)
      (hf : find s.table u.mac = none) (hl : maxHostEntries ≤ s.table.length) :
      Applies s u now (s.reject .invalid)
  | new (h0 : u.originNodeId ≠ 0) (hn : u.originNodeId ≠ s.nodeId)
      (hf : find s.table u.mac = none) (hl : s.table.length < maxHostEntries) :
      Applies s u now (s.accept (write s.table (newRemote u now)) .new)
  | conflict {r : HostLocation} (h0 : u.originNodeId ≠ 0) (hn : u.originNodeId ≠ s.nodeId)
      (hf : find s.table u.mac = some r) (ho : r.originNodeId ≠ u.originNodeId) :
      Applies s u now (s.reject .ownershipConflict)
  | duplicate {r : HostLocation} (h0 : u.originNodeId ≠ 0) (hn : u.originNodeId ≠ s.nodeId)
      (hf : find s.table u.mac = some r) (ho : r.originNodeId = u.originNodeId)
      (hv : ver u = ver r) : Applies s u now (s.reject .duplicate)
  | stale {r : HostLocation} (h0 : u.originNodeId ≠ 0) (hn : u.originNodeId ≠ s.nodeId)
      (hf : find s.table u.mac = some r) (ho : r.originNodeId = u.originNodeId)
      (hv : ver u < ver r) : Applies s u now (s.reject .staleRejected)
  | updated {r : HostLocation} (h0 : u.originNodeId ≠ 0) (hn : u.originNodeId ≠ s.nodeId)
      (hf : find s.table u.mac = some r) (ho : r.originNodeId = u.originNodeId)
      (hv : ver r < ver u) :
      Applies s u now (s.accept (write s.table (updatedRecord r u now)) .updated)

/-- **Inversion of `apply_locked`.** -/
theorem applyLocked_applies (s : State) (u : HostLocation) (now : UInt64) :
    Applies s u now (applyLocked s (some u) now) := by
  simp only [applyLocked]
  by_cases h0 : u.originNodeId = 0
  · rw [if_pos h0]
    exact .own (.inl h0)
  rw [if_neg h0]
  by_cases hn : u.originNodeId = s.nodeId
  · rw [if_pos hn]
    exact .own (.inr hn)
  rw [if_neg hn]
  rcases hi : findIndex s.table u.mac with _ | i
  · have hf := findIndex_none.mp hi
    dsimp only
    split_ifs with hl
    · exact .full h0 hn hf hl
    · have hw : write s.table (newRemote u now) = s.table ++ [newRemote u now] := by
        simp [write, newRemote, hi]
      rw [← hw]
      exact .new h0 hn hf (not_le.mp hl)
  · have hf := findIndex_some hi
    rcases hr : s.table[i]? with _ | r
    · rw [hr] at hf
      rw [findIndex_none.mpr hf.symm] at hi
      simp at hi
    · rw [hr] at hf
      simp only [hr]
      split_ifs with ho hv hnew
      · exact .conflict h0 hn hf.symm ho
      · exact .duplicate h0 hn hf.symm (not_not.mp ho) (version_inj.mpr hv)
      · refine .stale h0 hn hf.symm (not_not.mp ho) (lt_of_le_of_ne ?_ ?_)
        · exact not_lt.mp fun hlt => by rw [(isNewer_iff r u).mpr hlt] at hnew; simp at hnew
        · exact fun he => hv (version_inj.mp he)
      · have hw : write s.table (updatedRecord r u now) =
            s.table.set i (updatedRecord r u now) := by
          simp [write, updatedRecord, find_mac hf.symm, hi]
        rw [← hw]
        exact .updated h0 hn hf.symm (not_not.mp ho)
          ((isNewer_iff r u).mp (by simpa using hnew))

/-- What `daim_host_learn_local` can do. -/
inductive Learns (s : State) (m : Mac) (dpid : UInt64) (port : UInt32) (now : UInt64) :
    State × UInt64 → Prop
  | full (hf : find s.table m = none) (hl : maxHostEntries ≤ s.table.length) :
      Learns s m dpid port now
        ({ s with nextLocalSequence := s.nextLocalSequence + 1 }, 0)
  | learned (hl : find s.table m = none → s.table.length < maxHostEntries) :
      Learns s m dpid port now
        ({ s with
            nextLocalSequence := s.nextLocalSequence + 1
            table := write s.table (localRecord s m dpid port now) }, s.nextLocalSequence)

theorem daimHostLearnLocal_learns {s : State} (hs : s.ready = true) (m : Mac) (dpid : UInt64)
    (port : UInt32) (now : UInt64) :
    Learns s m dpid port now (daimHostLearnLocal s (some m) dpid port now) := by
  simp only [daimHostLearnLocal]
  rw [if_neg (by simp [hs])]
  rcases hi : findIndex s.table m with _ | i
  · have hf := findIndex_none.mp hi
    dsimp only
    split_ifs with hl
    · exact .full hf hl
    · have hw : write s.table (localRecord s m dpid port now) =
          s.table ++ [localRecord s m dpid port now] := by simp [write, localRecord, hi]
      rw [← hw]
      exact .learned fun _ => not_le.mp hl
  · have hw : write s.table (localRecord s m dpid port now) =
        s.table.set i (localRecord s m dpid port now) := by simp [write, localRecord, hi]
    dsimp only
    rw [← hw]
    refine .learned fun hf => ?_
    rw [findIndex_none.mpr hf] at hi
    simp at hi

/-! ### One update, one MAC -/

/-- What an update of a MAC leaves of the record `o` held for it, when there is room. -/
def merge (nodeId : UInt64) (o : Option HostLocation) (u : HostLocation) (now : UInt64) :
    Option HostLocation :=
  if u.originNodeId = 0 ∨ u.originNodeId = nodeId then o
  else
    match o with
    | none => some (newRemote u now)
    | some r =>
      if r.originNodeId = u.originNodeId ∧ ver r < ver u then some (updatedRecord r u now)
      else some r

variable {s : State} {u : HostLocation} {now : UInt64} {p : State × ApplyResult} {m : Mac}

/-- **An update changes the record of its own MAC only**, and that one by `merge`. -/
theorem Applies.find (h : Applies s u now p)
    (hroom : HostTable.find s.table u.mac = none → s.table.length < maxHostEntries) (m : Mac) :
    HostTable.find p.1.table m =
      if u.mac = m then merge s.nodeId (HostTable.find s.table m) u now
      else HostTable.find s.table m := by
  by_cases hm : u.mac = m
  case neg =>
    rw [if_neg hm]
    cases h with
    | new h0 hn hf hl => simp [State.accept, find_write, newRemote, hm]
    | updated h0 hn hf ho hv =>
      simp [State.accept, find_write, updatedRecord, find_mac hf, hm]
    | _ => rfl
  case pos =>
    subst hm
    rw [if_pos rfl]
    cases h with
    | own h => simp [State.reject, merge, h]
    | full h0 hn hf hl => exact absurd (hroom hf) (not_lt.mpr hl)
    | new h0 hn hf hl => simp [State.accept, find_write, merge, h0, hn, hf, newRemote]
    | conflict h0 hn hf ho => simp [State.reject, merge, h0, hn, hf, ho]
    | duplicate h0 hn hf ho hv => simp [State.reject, merge, h0, hn, hf, hv]
    | stale h0 hn hf ho hv => simp [State.reject, merge, h0, hn, hf, hv.le.not_gt]
    | updated h0 hn hf ho hv =>
      simp [State.accept, find_write, merge, h0, hn, hf, ho, hv, updatedRecord, find_mac hf]

/-- An update touches the table and the counters only. -/
lemma Applies.frame (h : Applies s u now p) :
    p.1 = { s with table := p.1.table, stats := p.1.stats } := by cases h <;> rfl

@[simp] lemma Applies.nodeId (h : Applies s u now p) : p.1.nodeId = s.nodeId := by
  rw [h.frame]

@[simp] lemma Applies.ready (h : Applies s u now p) : p.1.ready = s.ready := by rw [h.frame]

/-! ### What an update leaves -/

variable {r : HostLocation}

lemma claim_newRemote (u : HostLocation) (now : UInt64) : claim (newRemote u now) = claim u := rfl

/-- An update of a known host leaves the update's claim. -/
lemma claim_updatedRecord (hm : r.mac = u.mac) (ho : r.originNodeId = u.originNodeId) :
    claim (updatedRecord r u now) = claim u := by
  simp [claim, updatedRecord, hm, ho]

lemma fields_of_claim {x y : HostLocation} (h : claim x = claim y) :
    x.mac = y.mac ∧ x.originNodeId = y.originNodeId ∧ x.ownerEpoch = y.ownerEpoch ∧
      ver x = ver y :=
  ⟨congrArg Claim.mac h, congrArg Claim.originNodeId h, congrArg Claim.ownerEpoch h,
    congrArg Claim.ver h⟩

/-- A record in the table was there, or asserts what the update does. -/
lemma Applies.mem (h : Applies s u now p) (hr : r ∈ p.1.table) :
    r ∈ s.table ∨ claim r = claim u := by
  cases h with
  | new h0 hn hf hl =>
    rcases mem_write hr with rfl | hr
    · exact .inr (claim_newRemote u now)
    · exact .inl hr
  | updated h0 hn hf ho hv =>
    rcases mem_write hr with rfl | hr
    · exact .inr (claim_updatedRecord (find_mac hf) ho)
    · exact .inl hr
  | _ => exact .inl hr

/-- **A held record stays as it is**, or it is older than an update from its own origin, which
is another node, and is replaced. -/
lemma Applies.held (h : Applies s u now p) (hf : HostTable.find s.table m = some r) :
    HostTable.find p.1.table m = some r ∨
      (u.originNodeId ≠ s.nodeId ∧ r.originNodeId = u.originNodeId ∧ ver r < ver u) ∧
        HostTable.find p.1.table m = some (updatedRecord r u now) := by
  cases h with
  | new h0 hn hf' hl =>
    have hne : u.mac ≠ m := fun he => by simp [he, hf] at hf'
    left
    simpa [State.accept, find_write, newRemote, hne] using hf
  | updated h0 hn hf' ho hv =>
    by_cases hm : u.mac = m
    · subst hm
      obtain rfl := Option.some.inj (hf.symm.trans hf')
      refine .inr ⟨⟨hn, ho, hv⟩, ?_⟩
      simp [State.accept, find_write, updatedRecord, find_mac hf]
    · left
      simpa [State.accept, find_write, updatedRecord, find_mac hf', hm] using hf
  | _ => exact .inl hf

/-- **A held record keeps its origin and does not get older.** -/
lemma Applies.keeps (h : Applies s u now p) (hf : HostTable.find s.table m = some r) :
    ∃ r', HostTable.find p.1.table m = some r' ∧ r'.originNodeId = r.originNodeId ∧
      ver r ≤ ver r' := by
  rcases h.held hf with hk | ⟨⟨-, -, hv⟩, hk⟩
  · exact ⟨r, hk, rfl, le_rfl⟩
  · exact ⟨updatedRecord r u now, hk, rfl, hv.le⟩

/-- **With room in the table an update is held afterwards**, or it is in conflict with the
record that is held. -/
lemma Applies.holds (h : Applies s u now p) (h0 : u.originNodeId ≠ 0)
    (hn : u.originNodeId ≠ s.nodeId) (hl : s.table.length < maxHostEntries) :
    (∃ r, HostTable.find p.1.table u.mac = some r ∧ r.originNodeId = u.originNodeId ∧
        ver u ≤ ver r) ∨
      p = s.reject .ownershipConflict ∧
        ∃ r, HostTable.find s.table u.mac = some r ∧ r.originNodeId ≠ u.originNodeId := by
  cases h with
  | own h => exact absurd h (by simp [h0, hn])
  | full _ _ _ hc => exact absurd hl (not_lt.mpr hc)
  | new =>
    exact .inl ⟨newRemote u now, by simp [State.accept, find_write, newRemote], rfl, le_rfl⟩
  | conflict _ _ hf ho => exact .inr ⟨rfl, _, hf, ho⟩
  | duplicate _ _ hf ho hv => exact .inl ⟨_, hf, ho, hv.le⟩
  | stale _ _ hf ho hv => exact .inl ⟨_, hf, ho, hv.le⟩
  | updated _ _ hf ho hv =>
    exact .inl ⟨updatedRecord _ u now,
      by simp [State.accept, find_write, updatedRecord, find_mac hf], ho, le_rfl⟩

end DaimDistributed.HostTable
