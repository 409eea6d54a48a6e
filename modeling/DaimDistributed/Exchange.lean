import DaimDistributed.HostInv

/-!
What two tables look like after each has imported the other's snapshot.

The export of a table has one entry for each MAC, so an import changes a MAC once, by
`merge`. What the two nodes then hold for a MAC depends only on the two records they
started with.
-/

namespace DaimDistributed.Exchange

open HostState HostTable HostInv

/-- Import the entries in order, each at its own time. -/
def importAll (s : State) (es : List (HostLocation × UInt64)) : State :=
  es.foldl (fun s e => (daimHostImportSnapshotEntry s (some e.1) e.2).1) s

/-- Each node imports every record of the other's export; both exports are taken first. -/
structure Exchanged (a b a' b' : State) : Prop where
  left : ∃ es, daimHostExportSnapshot b = some (es.map Prod.fst) ∧ a' = importAll a es
  right : ∃ es, daimHostExportSnapshot a = some (es.map Prod.fst) ∧ b' = importAll b es

/-- Two initialised nodes with well-formed tables, in which a version determines the
contents, and room for the hosts of both. -/
structure Peers (a b : State) : Prop where
  ready_left : a.ready = true
  ready_right : b.ready = true
  id_ne : a.nodeId ≠ b.nodeId
  id_left : a.nodeId ≠ 0
  id_right : b.nodeId ≠ 0
  inv_left : TableInv a.nodeId a.table
  inv_right : TableInv b.nodeId b.table
  version : ∀ x ∈ a.table, ∀ y ∈ b.table, x.mac = y.mac → x.originNodeId = y.originNodeId →
    ver x = ver y → claim x = claim y
  union_le :
    ((a.table ++ b.table).map HostLocation.mac).toFinset.card ≤ maxHostEntries

/-! ### The outcomes -/

/-- A record the two nodes started with. -/
def Started (a b : State) (m : Mac) (x : HostLocation) : Prop :=
  find a.table m = some x ∨ find b.table m = some x

/-- Both hold the same claim, and it is the later one they started with. -/
def Agree (a b a' b' : State) (m : Mac) : Prop :=
  ∃ r r', find a'.table m = some r ∧ find b'.table m = some r' ∧ claim r = claim r' ∧
    ∃ x, Started a b m x ∧ claim x = claim r ∧ ∀ y, Started a b m y → ver y ≤ ver x

/-- Both hold it under different origins, as they did before. -/
def Disagree (a b a' b' : State) (m : Mac) : Prop :=
  ∃ r r', find a.table m = some r ∧ find b.table m = some r' ∧
    r.originNodeId ≠ r'.originNodeId ∧ find a'.table m = some r ∧ find b'.table m = some r'

/-- `a` holds a record of `b`'s that `b` has lost or has only an older one for; neither
changed. -/
def Disowned (a b a' b' : State) (m : Mac) : Prop :=
  ∃ r, find a.table m = some r ∧ r.originNodeId = b.nodeId ∧
    (find b.table m = none ∨
      ∃ r', find b.table m = some r' ∧ r'.originNodeId = b.nodeId ∧ ver r' < ver r) ∧
    find a'.table m = some r ∧ find b'.table m = find b.table m

def ExactlyOne (p q r : Prop) : Prop := p ∧ ¬q ∧ ¬r ∨ ¬p ∧ q ∧ ¬r ∨ ¬p ∧ ¬q ∧ r

/-! ### One import -/

variable {s : State} {es : List (HostLocation × UInt64)} {m : Mac}

lemma import_applies (hs : s.ready = true) (e : HostLocation × UInt64) :
    Applies s e.1 e.2 (daimHostImportSnapshotEntry s (some e.1) e.2) := by
  simpa [daimHostImportSnapshotEntry, hs] using applyLocked_applies s e.1 e.2

/-- Importing entries of distinct MACs merges each into the record of its MAC. -/
lemma importAll_find (hs : s.ready = true) (hn : (es.map fun e => e.1.mac).Nodup)
    (hf : Fits s.table (es.map fun e => e.1.mac).toFinset) (m : Mac) :
    find (importAll s es).table m =
      match es.find? fun e => e.1.mac = m with
      | none => find s.table m
      | some e => merge s.nodeId (find s.table m) e.1 e.2 := by
  induction es generalizing s with
  | nil => rfl
  | cons e es ih =>
    have ha := import_applies hs e
    have hmem : e.1.mac ∈ ((e :: es).map fun e => e.1.mac).toFinset := by simp
    have hfind := ha.find (hf.room hmem) m
    rw [List.map_cons, List.nodup_cons] at hn
    have hf' : Fits (daimHostImportSnapshotEntry s (some e.1) e.2).1.table
        (es.map fun e => e.1.mac).toFinset :=
      (hf.applies ha hmem).mono fun x hx => by
        simp only [List.map_cons, List.toFinset_cons, Finset.mem_insert]
        exact .inr hx
    have h1 := ih (ha.ready.trans hs) hn.2 hf'
    rw [hfind, ha.nodeId] at h1
    rw [show importAll s (e :: es) =
      importAll (daimHostImportSnapshotEntry s (some e.1) e.2).1 es from rfl, h1]
    by_cases hm : e.1.mac = m
    · subst hm
      have hnone : es.find? (fun x => x.1.mac = e.1.mac) = none := by
        rw [List.find?_eq_none]
        intro x hx he
        exact hn.1 (List.mem_map.mpr ⟨x, hx, by simpa using he⟩)
      simp [hnone]
    · simp [hm]

/-- The entry an export has for a MAC is the record the table holds for it. -/
lemma export_find {t : List HostLocation} (he : es.map Prod.fst = t) (m : Mac) :
    (es.find? fun e => e.1.mac = m).map Prod.fst = find t m := by
  subst he
  rw [find, List.find?_map]
  rfl

/-- **The import of a peer's snapshot**, one MAC at a time. -/
lemma exchange_find {a b : State} (ha : a.ready = true) (hb : TableInv b.nodeId b.table)
    (hf : Fits a.table (b.table.map HostLocation.mac).toFinset) (he : es.map Prod.fst = b.table)
    (m : Mac) :
    match find b.table m with
    | none => find (importAll a es).table m = find a.table m
    | some r => ∃ now, find (importAll a es).table m =
        merge a.nodeId (find a.table m) r now := by
  have hmacs : (es.map fun e => e.1.mac) = b.table.map HostLocation.mac := by
    rw [← he, List.map_map]
    rfl
  have h1 := importAll_find ha (hmacs ▸ hb.nodup) (hmacs ▸ hf) m
  have h2 := export_find he m
  rcases hx : es.find? (fun e => e.1.mac = m) with _ | e
  · rw [hx] at h1 h2
    rw [← h2]
    exact h1
  · rw [hx] at h1 h2
    rw [← h2]
    exact ⟨e.2, h1⟩

/-! ### What the import leaves -/

variable {i : UInt64} {r u : HostLocation} {now : UInt64}

lemma merge_own (o : Option HostLocation) (h : u.originNodeId = i) : merge i o u now = o := by
  simp [merge, h]

lemma merge_none (h0 : u.originNodeId ≠ 0) (h : u.originNodeId ≠ i) :
    merge i none u now = some (newRemote u now) := by simp [merge, h0, h]

lemma merge_other (h : r.originNodeId ≠ u.originNodeId) : merge i (some r) u now = some r := by
  simp [merge, h]

lemma merge_of_le (h : ver u ≤ ver r) : merge i (some r) u now = some r := by
  simp [merge, h.not_gt]

/-- Merging a record of the same origin leaves the later of the two claims. -/
lemma merge_same (h0 : u.originNodeId ≠ 0) (h : u.originNodeId ≠ i) (hm : r.mac = u.mac)
    (ho : r.originNodeId = u.originNodeId) (hv : ver r < ver u) :
    ∃ r', merge i (some r) u now = some r' ∧ claim r' = claim u :=
  ⟨updatedRecord r u now, by simp [merge, h0, h, ho, hv],
    by simp [claim, updatedRecord, hm, ho]⟩

/-! ### The two sides together -/

variable {a b a' b' a'' b'' : State}

lemma Peers.symm (h : Peers a b) : Peers b a where
  ready_left := h.ready_right
  ready_right := h.ready_left
  id_ne := h.id_ne.symm
  id_left := h.id_right
  id_right := h.id_left
  inv_left := h.inv_right
  inv_right := h.inv_left
  version := fun x hx y hy hm ho hv => (h.version y hy x hx hm.symm ho.symm hv.symm).symm
  union_le := by
    have h1 := h.union_le
    rw [List.map_append, List.toFinset_append] at h1 ⊢
    rwa [Finset.union_comm]

lemma Exchanged.symm (h : Exchanged a b a' b') : Exchanged b a b' a' := ⟨h.right, h.left⟩

lemma Peers.fits (h : Peers a b) : Fits a.table (b.table.map HostLocation.mac).toFinset := by
  have h1 := h.union_le
  have h2 := List.toFinset_card_of_nodup h.inv_left.nodup
  rw [List.length_map] at h2
  rw [List.map_append, List.toFinset_append, Finset.card_union] at h1
  have h3 := Finset.card_sdiff_add_card_inter
    (b.table.map HostLocation.mac).toFinset (a.table.map HostLocation.mac).toFinset
  rw [Finset.inter_comm] at h3
  have h4 :
      ((a.table.map HostLocation.mac).toFinset ∩ (b.table.map HostLocation.mac).toFinset).card ≤
        (a.table.map HostLocation.mac).toFinset.card :=
    Finset.card_le_card Finset.inter_subset_left
  unfold Fits
  omega

/-- What `a` holds afterwards: what it held, merged with `b`'s record if there is one. -/
lemma Exchanged.find_left (h : Peers a b) (he : Exchanged a b a' b') (m : Mac) :
    match find b.table m with
    | none => find a'.table m = find a.table m
    | some r => ∃ now, find a'.table m = merge a.nodeId (find a.table m) r now := by
  obtain ⟨es, hes, rfl⟩ := he.left
  have hexp : es.map Prod.fst = b.table := by
    simpa [daimHostExportSnapshot, h.ready_right] using hes.symm
  exact exchange_find h.ready_left h.inv_right h.fits hexp m

/-- What `b` is left with when `a` has a record of the same origin that is not older. -/
lemma Exchanged.takes (h : Peers a b) (he : Exchanged a b a' b') {m : Mac} {r r' : HostLocation}
    (ha : find a.table m = some r) (hb : find b.table m = some r')
    (ho : r.originNodeId = r'.originNodeId) (hnb : r.originNodeId ≠ b.nodeId)
    (hv : ver r' ≤ ver r) : ∃ x, find b'.table m = some x ∧ claim x = claim r := by
  have hm : r'.mac = r.mac := (find_mac hb).trans (find_mac ha).symm
  have hb' := he.symm.find_left h.symm m
  rw [ha, hb] at hb'
  obtain ⟨now, hb'⟩ := hb'
  rcases hv.lt_or_eq with hlt | heq
  · obtain ⟨x, hx, hc⟩ := merge_same (h.inv_left.find_origin_ne h.id_left ha) hnb hm ho.symm hlt
    exact ⟨x, hb'.trans hx, hc⟩
  · rw [merge_of_le heq.symm.le] at hb'
    exact ⟨r', hb', (h.version r (find_mem ha) r' (find_mem hb) hm.symm ho heq.symm).symm⟩

/-- Both end up with the record of `a`'s, which is not older than `b`'s. -/
lemma agree_of_claim {m : Mac} {r r' x : HostLocation} (ha : find a.table m = some r)
    (hb : find b.table m = some r') (hv : ver r' ≤ ver r) (ha' : find a'.table m = some r)
    (hx : find b'.table m = some x) (hc : claim x = claim r) : Agree a b a' b' m := by
  refine ⟨r, x, ha', hx, hc.symm, r, .inl ha, rfl, ?_⟩
  rintro y (hy | hy)
  · obtain rfl := Option.some.inj (ha.symm.trans hy)
    exact le_rfl
  · obtain rfl := Option.some.inj (hb.symm.trans hy)
    exact hv

lemma not_disagree {m : Mac} {r r' : HostLocation} (ha : find a.table m = some r)
    (hb : find b.table m = some r') (ho : r.originNodeId = r'.originNodeId) :
    ¬Disagree a b a' b' m := by
  rintro ⟨x, y, hx, hy, hxy, -⟩
  obtain rfl := Option.some.inj (ha.symm.trans hx)
  obtain rfl := Option.some.inj (hb.symm.trans hy)
  exact hxy ho

lemma not_disowned {m : Mac} {r : HostLocation} (ha : find a.table m = some r)
    (ho : r.originNodeId ≠ b.nodeId) : ¬Disowned a b a' b' m := by
  rintro ⟨x, hx, hox, -⟩
  obtain rfl := Option.some.inj (ha.symm.trans hx)
  exact ho hox

/-- What is left of a MAC that only `a` knew. -/
lemma outcome_single (h : Peers a b) (he : Exchanged a b a' b') {m : Mac} {r : HostLocation}
    (ha : find a.table m = some r) (hb : find b.table m = none) :
    ExactlyOne (Agree a b a' b' m) (Disagree a b a' b' m)
      (Disowned a b a' b' m ∨ Disowned b a b' a' m) := by
  have h0 := h.inv_left.find_origin_ne h.id_left ha
  have ha' := he.find_left h m
  rw [hb] at ha'
  have hb' := he.symm.find_left h.symm m
  rw [ha] at ha' hb'
  obtain ⟨now, hb'⟩ := hb'
  have hnq : ¬Disagree a b a' b' m := by
    rintro ⟨_, _, _, hc, -⟩
    simp [hb] at hc
  by_cases ho : r.originNodeId = b.nodeId
  · rw [hb, merge_own _ ho] at hb'
    refine .inr (.inr ⟨?_, hnq, .inl ⟨r, ha, ho, .inl hb, ha', by rw [hb', hb]⟩⟩)
    rintro ⟨_, _, _, hc, -⟩
    simp [hb'] at hc
  · rw [hb, merge_none h0 ho] at hb'
    refine .inl ⟨⟨r, _, ha', hb', rfl, r, .inl ha, rfl, ?_⟩, hnq, ?_⟩
    · rintro y (hy | hy)
      · simp [ha] at hy
        exact hy ▸ le_rfl
      · simp [hb] at hy
    · rintro (hd | ⟨_, hc, -⟩)
      · exact not_disowned ha ho hd
      · simp [hb] at hc

/-- What is left of a MAC that both know under different origins. -/
lemma outcome_conflict (h : Peers a b) (he : Exchanged a b a' b') {m : Mac}
    {r r' : HostLocation} (ha : find a.table m = some r) (hb : find b.table m = some r')
    (ho : r.originNodeId ≠ r'.originNodeId) :
    ExactlyOne (Agree a b a' b' m) (Disagree a b a' b' m)
      (Disowned a b a' b' m ∨ Disowned b a b' a' m) := by
  have ha' := he.find_left h m
  have hb' := he.symm.find_left h.symm m
  rw [ha, hb] at ha' hb'
  obtain ⟨now, ha'⟩ := ha'
  obtain ⟨now', hb'⟩ := hb'
  rw [merge_other ho] at ha'
  rw [merge_other ho.symm] at hb'
  refine .inr (.inl ⟨?_, ⟨r, r', ha, hb, ho, ha', hb'⟩, ?_⟩)
  · rintro ⟨x, y, hx, hy, hxy, -⟩
    obtain rfl := Option.some.inj (ha'.symm.trans hx)
    obtain rfl := Option.some.inj (hb'.symm.trans hy)
    exact ho (congrArg Claim.originNodeId hxy)
  · rintro (⟨x, hx, hox, hy | ⟨y, hy, hoy, -⟩, -⟩ | ⟨x, hx, hox, hy | ⟨y, hy, hoy, -⟩, -⟩)
    · simp [hb] at hy
    · obtain rfl := Option.some.inj (ha.symm.trans hx)
      obtain rfl := Option.some.inj (hb.symm.trans hy)
      exact ho (hox.trans hoy.symm)
    · simp [ha] at hy
    · obtain rfl := Option.some.inj (hb.symm.trans hx)
      obtain rfl := Option.some.inj (ha.symm.trans hy)
      exact ho (hoy.trans hox.symm)

/-- An own record of `a`'s, against a cached one at `b`: `b` takes it when it is newer. -/
lemma outcome_own (h : Peers a b) (he : Exchanged a b a' b') {m : Mac} {r r' : HostLocation}
    (ha : find a.table m = some r) (hb : find b.table m = some r')
    (ho : r.originNodeId = r'.originNodeId) (hown : r.originNodeId = a.nodeId) :
    ExactlyOne (Agree a b a' b' m) (Disagree a b a' b' m)
      (Disowned a b a' b' m ∨ Disowned b a b' a' m) := by
  have hnb : r.originNodeId ≠ b.nodeId := hown ▸ h.id_ne
  have hnq : ¬Disagree a b a' b' m := not_disagree ha hb ho
  have ha' := he.find_left h m
  rw [ha, hb] at ha'
  obtain ⟨now, ha'⟩ := ha'
  rw [merge_own _ (ho.symm.trans hown)] at ha'
  by_cases hv : ver r < ver r'
  · have hb' := he.symm.find_left h.symm m
    rw [ha, hb] at hb'
    obtain ⟨now', hb'⟩ := hb'
    rw [merge_of_le hv.le] at hb'
    refine .inr (.inr ⟨?_, hnq,
      .inr ⟨r', hb, ho.symm.trans hown, .inr ⟨r, ha, hown, hv⟩, hb', by rw [ha', ha]⟩⟩)
    rintro ⟨x, y, hx, hy, hxy, -⟩
    obtain rfl := Option.some.inj (ha'.symm.trans hx)
    obtain rfl := Option.some.inj (hb'.symm.trans hy)
    have hver := congrArg Claim.ver hxy
    simp only [ver_claim] at hver
    exact hv.ne hver
  · obtain ⟨x, hx, hcx⟩ := he.takes h ha hb ho hnb (not_lt.mp hv)
    refine .inl ⟨agree_of_claim ha hb (not_lt.mp hv) ha' hx hcx, hnq, ?_⟩
    rintro (hd | ⟨y, hy, -, hz | ⟨z, hz, -, hlt⟩, -⟩)
    · exact not_disowned ha hnb hd
    · simp [ha] at hz
    · obtain rfl := Option.some.inj (hb.symm.trans hy)
      obtain rfl := Option.some.inj (ha.symm.trans hz)
      exact hv hlt

/-- A record of a third node's, cached at both: both end up with the later one. -/
lemma outcome_relayed (h : Peers a b) (he : Exchanged a b a' b') {m : Mac}
    {r r' : HostLocation} (ha : find a.table m = some r) (hb : find b.table m = some r')
    (ho : r.originNodeId = r'.originNodeId) (hna : r.originNodeId ≠ a.nodeId)
    (hnb : r.originNodeId ≠ b.nodeId) (hv : ver r' ≤ ver r) :
    ExactlyOne (Agree a b a' b' m) (Disagree a b a' b' m)
      (Disowned a b a' b' m ∨ Disowned b a b' a' m) := by
  have ha' := he.find_left h m
  rw [ha, hb] at ha'
  obtain ⟨now, ha'⟩ := ha'
  rw [merge_of_le hv] at ha'
  obtain ⟨x, hx, hcx⟩ := he.takes h ha hb ho hnb hv
  refine .inl ⟨agree_of_claim ha hb hv ha' hx hcx, not_disagree ha hb ho, ?_⟩
  rintro (hd | hd)
  · exact not_disowned ha hnb hd
  · exact not_disowned hb (ho ▸ hna) hd

lemma Agree.symm {m : Mac} (h : Agree a b a' b' m) : Agree b a b' a' m := by
  obtain ⟨r, r', hr, hr', hc, x, hx, hcx, hmax⟩ := h
  exact ⟨r', r, hr', hr, hc.symm, x, hx.symm, hcx.trans hc, fun y hy => hmax y hy.symm⟩

lemma Disagree.symm {m : Mac} (h : Disagree a b a' b' m) : Disagree b a b' a' m := by
  obtain ⟨r, r', hr, hr', ho, hra, hrb⟩ := h
  exact ⟨r', r, hr', hr, ho.symm, hrb, hra⟩

lemma outcome_symm {m : Mac} (h : ExactlyOne (Agree b a b' a' m) (Disagree b a b' a' m)
    (Disowned b a b' a' m ∨ Disowned a b a' b' m)) :
    ExactlyOne (Agree a b a' b' m) (Disagree a b a' b' m)
      (Disowned a b a' b' m ∨ Disowned b a b' a' m) := by
  have h1 : Agree b a b' a' m ↔ Agree a b a' b' m := ⟨Agree.symm, Agree.symm⟩
  have h2 : Disagree b a b' a' m ↔ Disagree a b a' b' m := ⟨Disagree.symm, Disagree.symm⟩
  rwa [h1, h2, or_comm (a := Disowned b a b' a' m)] at h

/-- The outcome for a MAC, whatever the two nodes held for it. -/
lemma outcome (h : Peers a b) (he : Exchanged a b a' b') {m : Mac}
    (hm : find a.table m ≠ none ∨ find b.table m ≠ none) :
    ExactlyOne (Agree a b a' b' m) (Disagree a b a' b' m)
      (Disowned a b a' b' m ∨ Disowned b a b' a' m) := by
  rcases ha : find a.table m with _ | r <;> rcases hb : find b.table m with _ | r'
  · simp [ha, hb] at hm
  · exact outcome_symm (outcome_single h.symm he.symm hb ha)
  · exact outcome_single h he ha hb
  by_cases ho : r.originNodeId = r'.originNodeId
  case neg => exact outcome_conflict h he ha hb ho
  by_cases hna : r.originNodeId = a.nodeId
  case pos => exact outcome_own h he ha hb ho hna
  by_cases hnb : r.originNodeId = b.nodeId
  case pos => exact outcome_symm (outcome_own h.symm he.symm hb ha ho.symm (ho ▸ hnb))
  rcases le_total (ver r') (ver r) with hv | hv
  · exact outcome_relayed h he ha hb ho hna hnb hv
  · exact outcome_symm
      (outcome_relayed h.symm he.symm hb ha ho.symm (ho ▸ hnb) (ho ▸ hna) hv)

/-! ### The second exchange -/

/-- An update that a table with node id `i` has no use for. -/
def Quiet (i : UInt64) (t : List HostLocation) (u : HostLocation) : Prop :=
  u.originNodeId = i ∨
    ∃ r, find t u.mac = some r ∧ (r.originNodeId ≠ u.originNodeId ∨ ver u ≤ ver r)

lemma Quiet.applies {p : State × ApplyResult} (ha : Applies s u now p)
    (hq : Quiet s.nodeId s.table u) : p.1 = { s with stats := p.1.stats } := by
  cases ha with
  | new h0 hn hf hl =>
    rcases hq with hq | ⟨r, hr, -⟩
    · exact absurd hq hn
    · simp [hf] at hr
  | updated h0 hn hf ho hv =>
    rcases hq with hq | ⟨r, hr, hr'⟩
    · exact absurd hq hn
    · rw [hf] at hr
      cases hr
      exact absurd hr' (by simp [ho, hv])
  | _ => rfl

lemma importAll_quiet (hs : s.ready = true) (hq : ∀ e ∈ es, Quiet s.nodeId s.table e.1) :
    importAll s es = { s with stats := (importAll s es).stats } := by
  induction es generalizing s with
  | nil => rfl
  | cons e es ih =>
    have h1 := (hq e (by simp)).applies (import_applies hs e)
    obtain ⟨st, hst⟩ : ∃ st, (daimHostImportSnapshotEntry s (some e.1) e.2).1 =
        { s with stats := st } := ⟨_, h1⟩
    have he : importAll s (e :: es) = importAll { s with stats := st } es := by
      rw [← hst]
      rfl
    rw [he]
    exact ih (s := { s with stats := st }) hs fun e he => hq e (by simp [he])

/-- After an exchange neither side has anything new for the other. -/
lemma quiet_of_outcome {m : Mac} {r : HostLocation}
    (hb' : find b'.table m = some r)
    (ho : Agree a b a' b' m ∨ Disagree a b a' b' m ∨
      Disowned a b a' b' m ∨ Disowned b a b' a' m) : Quiet a.nodeId a'.table r := by
  have hm := find_mac hb'
  rcases ho with ⟨x, y, hx, hy, hxy, -⟩ | ⟨x, y, -, -, hxy, hx, hy⟩ |
    ⟨x, hx, hox, hbr, hx', hbb⟩ | ⟨x, hx, hox, -, hx', -⟩
  · rw [hb'] at hy
    cases hy
    exact .inr ⟨x, hm ▸ hx, .inr (congrArg Claim.ver hxy).ge⟩
  · rw [hb'] at hy
    cases hy
    exact .inr ⟨x, hm ▸ hx, .inl hxy⟩
  · rw [hb'] at hbb
    rcases hbr with hbr | ⟨y, hy, -, hv⟩
    · simp [hbr] at hbb
    · rw [hy] at hbb
      cases hbb
      exact .inr ⟨x, hm ▸ hx', .inr hv.le⟩
  · rw [hb'] at hx'
    cases hx'
    exact .inl hox

lemma ExactlyOne.any {p q r : Prop} (h : ExactlyOne p q r) : p ∨ q ∨ r := by
  rcases h with ⟨hp, -⟩ | ⟨-, hq, -⟩ | ⟨-, -, hr⟩
  exacts [.inl hp, .inr (.inl hq), .inr (.inr hr)]

/-- An import touches the table and the counters only. -/
lemma importAll_frame (hs : s.ready = true) :
    importAll s es =
      { s with table := (importAll s es).table, stats := (importAll s es).stats } := by
  induction es generalizing s with
  | nil => rfl
  | cons e es ih =>
    have h1 := (import_applies hs e).frame
    have h2 := ih (s := (daimHostImportSnapshotEntry s (some e.1) e.2).1)
      ((import_applies hs e).ready.trans hs)
    rw [show importAll s (e :: es) =
      importAll (daimHostImportSnapshotEntry s (some e.1) e.2).1 es from rfl, h2, h1]

lemma importAll_inv (hs : s.ready = true) (h : TableInv s.nodeId s.table) :
    TableInv s.nodeId (importAll s es).table := by
  induction es generalizing s with
  | nil => exact h
  | cons e es ih =>
    have ha := import_applies hs e
    have h1 := ih (ha.ready.trans hs) (ha.nodeId.symm ▸ tableInv_applies ha h)
    rwa [ha.nodeId] at h1

lemma Exchanged.inv_left (h : Peers a b) (he : Exchanged a b a' b') :
    a'.ready = true ∧ a'.nodeId = a.nodeId ∧ TableInv a.nodeId a'.table := by
  obtain ⟨es, -, rfl⟩ := he.left
  refine ⟨?_, ?_, importAll_inv h.ready_left h.inv_left⟩
  · rw [importAll_frame h.ready_left]
    exact h.ready_left
  · rw [importAll_frame h.ready_left]

/-- A second exchange leaves `a` as it is, apart from its counters. -/
lemma second_left (h : Peers a b) (he : Exchanged a b a' b')
    (he' : Exchanged a' b' a'' b'') : a'' = { a' with stats := a''.stats } := by
  obtain ⟨hra, hia, -⟩ := he.inv_left h
  obtain ⟨hrb, -, hib⟩ := he.symm.inv_left h.symm
  obtain ⟨es, hes, rfl⟩ := he'.left
  have hexp : es.map Prod.fst = b'.table := by
    simpa [daimHostExportSnapshot, hrb] using hes.symm
  refine importAll_quiet hra fun e he1 => ?_
  have hmem : e.1 ∈ b'.table := hexp ▸ List.mem_map_of_mem he1
  have hf := find_of_mem hib.nodup hmem
  have hheld : find a.table e.1.mac ≠ none ∨ find b.table e.1.mac ≠ none := by
    by_contra hc
    obtain ⟨hca, hcb⟩ := not_or.mp hc
    have hb' := he.symm.find_left h.symm e.1.mac
    rw [not_not.mp hca] at hb'
    rw [hf, not_not.mp hcb] at hb'
    simp at hb'
  have ho := (outcome h he hheld).any
  rw [hia]
  exact quiet_of_outcome hf (by tauto)

/-- **Pairwise convergence of a completed exchange**: every MAC one of the nodes holds ends in
one of three ways, and a second exchange changes nothing. -/
theorem exchange_converges (h : Peers a b) (he : Exchanged a b a' b') :
    (∀ m, find a.table m ≠ none ∨ find b.table m ≠ none →
      ExactlyOne (Agree a b a' b' m) (Disagree a b a' b' m)
        (Disowned a b a' b' m ∨ Disowned b a b' a' m)) ∧
    ∀ a'' b'', Exchanged a' b' a'' b'' →
      a'' = { a' with stats := a''.stats } ∧ b'' = { b' with stats := b''.stats } :=
  ⟨fun _ hm => outcome h he hm, fun _ _ he' =>
    ⟨second_left h he he', second_left h.symm he.symm he'.symm⟩⟩

/-- Node 1 after it has learned one host. -/
def nodeOne : State :=
  (daimHostLearnLocal (daimHostStateInit {} 1 7) (some (macOf 1)) 1 1 5).1

/-- Node 2 after it has learned another. -/
def nodeTwo : State :=
  (daimHostLearnLocal (daimHostStateInit {} 2 7) (some (macOf 2)) 2 1 5).1

/-- The import of every record of `b` into `a`, all at one time. -/
def importFrom (a b : State) (now : UInt64) : State :=
  importAll a (b.table.map fun r => (r, now))

theorem exchange_converges_nodeOne :
    ExactlyOne
      (Agree nodeOne nodeTwo (importFrom nodeOne nodeTwo 9) (importFrom nodeTwo nodeOne 9)
        (macOf 2))
      (Disagree nodeOne nodeTwo (importFrom nodeOne nodeTwo 9) (importFrom nodeTwo nodeOne 9)
        (macOf 2))
      (Disowned nodeOne nodeTwo (importFrom nodeOne nodeTwo 9) (importFrom nodeTwo nodeOne 9)
          (macOf 2) ∨
        Disowned nodeTwo nodeOne (importFrom nodeTwo nodeOne 9) (importFrom nodeOne nodeTwo 9)
          (macOf 2)) := by
  have hp : Peers nodeOne nodeTwo :=
    ⟨rfl, rfl, by decide, by decide, by decide, ⟨by decide, by decide, by decide, by decide⟩,
      ⟨by decide, by decide, by decide, by decide⟩, by decide, by decide⟩
  have he : Exchanged nodeOne nodeTwo (importFrom nodeOne nodeTwo 9)
      (importFrom nodeTwo nodeOne 9) :=
    ⟨⟨nodeTwo.table.map fun r => (r, 9), by decide, rfl⟩,
      ⟨nodeOne.table.map fun r => (r, 9), by decide, rfl⟩⟩
  exact (exchange_converges hp he).1 _ (by decide)

end DaimDistributed.Exchange
