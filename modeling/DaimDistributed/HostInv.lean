import Mathlib.Data.Finset.Card
import DaimDistributed.HostTable

/-!
What every table of a running node satisfies, and how much room it has.
-/

namespace DaimDistributed.HostInv

open HostState HostTable

/-- One record per MAC, within the bound; a record is local exactly when its origin is this
node, and a cached one names its origin. -/
structure TableInv (nodeId : UInt64) (t : List HostLocation) : Prop where
  length_le : t.length ≤ maxHostEntries
  nodup : (t.map HostLocation.mac).Nodup
  local_iff : ∀ r ∈ t, r.isLocal ≠ 0 ↔ r.originNodeId = nodeId
  origin_ne : ∀ r ∈ t, r.isLocal = 0 → r.originNodeId ≠ 0

variable {nodeId : UInt64} {t : List HostLocation} {r : HostLocation}

lemma tableInv_nil (nodeId : UInt64) : TableInv nodeId [] :=
  ⟨by simp, by simp, by simp, by simp⟩

lemma nodup_write (h : (t.map HostLocation.mac).Nodup) (r : HostLocation) :
    ((write t r).map HostLocation.mac).Nodup := by
  rw [macs_write]
  split_ifs with hm
  · exact h
  · rw [List.nodup_append]
    refine ⟨h, by simp, fun a ha b hb => ?_⟩
    obtain rfl : b = r.mac := by simpa using hb
    exact fun he => hm (he ▸ ha)

/-- Writing a record that is itself well formed keeps the table well formed. -/
lemma TableInv.write (h : TableInv nodeId t)
    (hl : find t r.mac = none → t.length < maxHostEntries)
    (h1 : r.isLocal ≠ 0 ↔ r.originNodeId = nodeId) (h2 : r.isLocal = 0 → r.originNodeId ≠ 0) :
    TableInv nodeId (write t r) where
  length_le := by
    rw [length_write]
    split_ifs with hf
    · exact hl hf
    · exact h.length_le
  nodup := nodup_write h.nodup r
  local_iff := fun x hx => by
    rcases mem_write hx with rfl | hx
    · exact h1
    · exact h.local_iff x hx
  origin_ne := fun x hx => by
    rcases mem_write hx with rfl | hx
    · exact h2
    · exact h.origin_ne x hx

/-- The record a well-formed table holds for a MAC is well formed. -/
lemma TableInv.find_local (h : TableInv nodeId t) {m : Mac} (hf : find t m = some r) :
    r.isLocal ≠ 0 ↔ r.originNodeId = nodeId := h.local_iff r (find_mem hf)

lemma TableInv.find_origin_ne (h : TableInv nodeId t) (h0 : nodeId ≠ 0) {m : Mac}
    (hf : find t m = some r) : r.originNodeId ≠ 0 := by
  by_cases hl : r.isLocal = 0
  · exact h.origin_ne r (find_mem hf) hl
  · exact (h.find_local hf).mp hl ▸ h0

/-! ### The operations keep it -/

variable {s : State} {u : HostLocation} {now : UInt64}

lemma tableInv_applies {p : State × ApplyResult} (ha : Applies s u now p)
    (h : TableInv s.nodeId s.table) : TableInv s.nodeId p.1.table := by
  cases ha with
  | new h0 hn hf hl =>
    refine h.write (fun _ => hl) ⟨fun hc => absurd rfl hc, fun ho => absurd ho hn⟩ fun _ => h0
  | updated h0 hn hf ho hv =>
    rename_i r
    have hr : r.isLocal ≠ 0 ↔ r.originNodeId = s.nodeId := h.find_local hf
    refine h.write (fun hc => ?_) hr fun _ => ho ▸ h0
    rw [show (updatedRecord r u now).mac = u.mac from (find_mac hf : r.mac = u.mac), hf] at hc
    simp at hc
  | _ => exact h

/-- An update makes no local record. -/
lemma TableInv.local_mem {p : State × ApplyResult} (h : TableInv s.nodeId s.table)
    (ha : Applies s u now p) (hr : r ∈ p.1.table) (hl : r.isLocal ≠ 0) : r ∈ s.table := by
  cases ha with
  | new h0 hn hf hlt =>
    rcases mem_write hr with rfl | hr
    · exact absurd rfl hl
    · exact hr
  | updated h0 hn hf ho hv =>
    rcases mem_write hr with rfl | hr
    · exact absurd (ho ▸ (h.find_local hf).mp hl) hn
    · exact hr
  | _ => exact hr

lemma tableInv_learns {m : Mac} {dpid : UInt64} {port : UInt32} {p : State × UInt64}
    (hl : Learns s m dpid port now p) (h : TableInv s.nodeId s.table) :
    TableInv s.nodeId p.1.table := by
  cases hl with
  | full hf hl => exact h
  | learned hl =>
    refine h.write hl ⟨fun _ => rfl, fun _ => ?_⟩ fun hc => ?_
    · simp [localRecord]
    · simp [localRecord] at hc

/-! ### Room -/

/-- The table has room for records of all the MACs of `ms`. -/
def Fits (t : List HostLocation) (ms : Finset Mac) : Prop :=
  t.length + (ms \ (t.map HostLocation.mac).toFinset).card ≤ maxHostEntries

instance (t : List HostLocation) (ms : Finset Mac) : Decidable (Fits t ms) :=
  inferInstanceAs (Decidable (_ ≤ _))

variable {ms : Finset Mac} {m : Mac}

lemma Fits.room (h : Fits t ms) (hm : m ∈ ms) (hf : find t m = none) :
    t.length < maxHostEntries := by
  have hmem : m ∈ ms \ (t.map HostLocation.mac).toFinset := by
    rw [Finset.mem_sdiff, List.mem_toFinset]
    exact ⟨hm, find_eq_none.mp hf⟩
  have hpos := Finset.card_pos.mpr ⟨m, hmem⟩
  unfold Fits at h
  omega

lemma Fits.mono {ms' : Finset Mac} (h : Fits t ms) (hs : ms' ⊆ ms) : Fits t ms' :=
  (Nat.add_le_add_left (Finset.card_le_card (Finset.sdiff_subset_sdiff hs le_rfl)) _).trans h

/-- A write of one of the MACs leaves room for the others. -/
lemma Fits.write (h : Fits t ms) (hm : r.mac ∈ ms) : Fits (write t r) ms := by
  unfold Fits at h ⊢
  rw [length_write, macs_write]
  by_cases hr : r.mac ∈ t.map HostLocation.mac
  · rw [if_neg fun hf => find_eq_none.mp hf hr, if_pos hr]
    exact h
  · rw [if_pos (find_eq_none.mpr hr), if_neg hr]
    have hmem : r.mac ∈ ms \ (t.map HostLocation.mac).toFinset := by
      rw [Finset.mem_sdiff, List.mem_toFinset]
      exact ⟨hm, hr⟩
    have herase : ms \ (t.map HostLocation.mac ++ [r.mac]).toFinset =
        (ms \ (t.map HostLocation.mac).toFinset).erase r.mac := by
      ext x
      simp only [Finset.mem_sdiff, List.mem_toFinset, List.mem_append, List.mem_singleton,
        Finset.mem_erase]
      tauto
    rw [herase, Finset.card_erase_of_mem hmem]
    have hpos := Finset.card_pos.mpr ⟨r.mac, hmem⟩
    omega

lemma Fits.applies {p : State × ApplyResult} (ha : Applies s u now p) (h : Fits s.table ms)
    (hm : u.mac ∈ ms) : Fits p.1.table ms := by
  cases ha with
  | new h0 hn hf hl => exact h.write hm
  | updated h0 hn hf ho hv => exact h.write (by simpa [updatedRecord, find_mac hf] using hm)
  | _ => exact h

end DaimDistributed.HostInv
