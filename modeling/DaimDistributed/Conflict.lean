import DaimDistributed.NodeRun

/-!
Ownership conflicts, in both orders of arrival.

`apply_locked` reports a claim on a MAC that is held under another origin.
`daim_host_learn_local` overwrites such a record without a word, so a conflict goes
unnoticed exactly when the remote claim comes first.
-/

namespace DaimDistributed.Conflict

open HostState HostTable HostInv Transitions NodeRun

/-- The call makes a claim on `m` for `o`: a learn for this node, an update for its origin
when that is another node. -/
def Claims (i : UInt64) (op : Op) (m : Mac) (o : UInt64) : Prop :=
  (∃ d po n, op = .learnLocal (some m) d po n ∧ o = i) ∨
    ∃ u, op.update = some u ∧ u.mac = m ∧ u.originNodeId = o ∧ o ≠ 0 ∧ o ≠ i

/-- Two origins claiming one MAC leave a conflict on the counter. -/
def Counted (i : UInt64) (h : List (State × Op)) (s : State) : Prop :=
  ∀ m o o', o ≠ o' → (∃ p ∈ h, Claims i p.2 m o) → (∃ p ∈ h, Claims i p.2 m o') →
    1 ≤ s.stats.appliedConflict

/-- A step that replaces a record by one of another origin reports a conflict. -/
def NoSilentOverwrite (h : List (State × Op)) : Prop :=
  ∀ p ∈ h, ∀ m r r', find p.1.table m = some r → find (exec p.1 p.2).1.table m = some r' →
    r.originNodeId ≠ r'.originNodeId → (exec p.1 p.2).2 = .applied .ownershipConflict

/-- No learn of a MAC that the table holds under another origin. -/
def NoTakeover (h : List (State × Op)) : Prop :=
  ∀ p ∈ h, ∀ m d po n, p.2 = .learnLocal (some m) d po n →
    ∀ r, find p.1.table m = some r → r.originNodeId = p.1.nodeId

/-- The table is never full and never reset. -/
def Roomy (h : List (State × Op)) : Prop :=
  ∀ p ∈ h, p.1.table.length < maxHostEntries ∧ p.2 ≠ .reset

variable {i e : UInt64} {h : List (State × Op)} {s : State}

/-- An update never lowers the count. -/
lemma applies_conflict_le {u : HostLocation} {now : UInt64} {p : State × ApplyResult}
    (ha : Applies s u now p) : s.stats.appliedConflict ≤ p.1.stats.appliedConflict := by
  cases ha <;> simp [State.reject, State.accept, Stats.count]

/-- A learn leaves the records of other MACs alone, and holds its own MAC itself. -/
lemma learns_find {m : Mac} {d : UInt64} {po : UInt32} {n : UInt64} {p : State × UInt64}
    (hl : Learns s m d po n p) (hroom : s.table.length < maxHostEntries) (m' : Mac) :
    find p.1.table m' = if m = m' then some (localRecord s m d po n) else find s.table m' := by
  cases hl with
  | full hf hl => exact absurd hroom (not_lt.mpr hl)
  | learned hl => exact find_write _ _ _

lemma learns_conflict {m : Mac} {d : UInt64} {po : UInt32} {n : UInt64} {p : State × UInt64}
    (hl : Learns s m d po n p) : p.1.stats = s.stats := by cases hl <;> rfl

/-- Every claim of the run is still held, unless a conflict has been counted. -/
def Held (i : UInt64) (h : List (State × Op)) (s : State) : Prop :=
  ∀ m o, (∃ p ∈ h, Claims i p.2 m o) →
    1 ≤ s.stats.appliedConflict ∨ ∃ r, find s.table m = some r ∧ r.originNodeId = o

/-- One step without a takeover: held records keep their origin, a claim of the step is
held or counted, and the count does not go down. -/
lemma step_held (hi : NodeInv i e s) {op : Op} (hroom : s.table.length < maxHostEntries)
    (hnr : op ≠ .reset)
    (hto : ∀ m d po n, op = .learnLocal (some m) d po n →
      ∀ r, find s.table m = some r → r.originNodeId = s.nodeId) :
    (∀ m r, find s.table m = some r →
      ∃ r', find (exec s op).1.table m = some r' ∧ r'.originNodeId = r.originNodeId) ∧
    (∀ m o, Claims i op m o → 1 ≤ (exec s op).1.stats.appliedConflict ∨
      ∃ r, find (exec s op).1.table m = some r ∧ r.originNodeId = o) ∧
    s.stats.appliedConflict ≤ (exec s op).1.stats.appliedConflict := by
  have heff := exec_effect hi.ready op
  generalize (exec s op).1 = t at heff ⊢
  cases heff with
  | same st hu hst hl =>
    refine ⟨fun m r hf => ⟨r, hf, rfl⟩, ?_, hst⟩
    rintro m o (⟨d, po, n, ho, -⟩ | ⟨u, hu', -⟩)
    · exact absurd ho (hl m d po n)
    · simp [hu] at hu'
  | update u now p hu hres ha =>
    refine ⟨fun m r hf => ?_, ?_, applies_conflict_le ha⟩
    · obtain ⟨r', hf', ho, -⟩ := ha.keeps hf
      exact ⟨r', hf', ho⟩
    rintro m o (⟨d, po, n, rfl, -⟩ | ⟨u', hu', rfl, rfl, h0, hn⟩)
    · simp [Op.update] at hu
    · obtain rfl : u = u' := by simpa [hu] using hu'
      rcases ha.holds h0 (hi.nodeId ▸ hn) hroom with ⟨r, hf, ho, -⟩ | ⟨hp, -⟩
      · exact .inr ⟨r, hf, ho⟩
      · exact .inl (by simp [hp, State.reject, Stats.count])
  | learn m d po n p ho hres hl =>
    have hfind := learns_find hl hroom
    refine ⟨fun m' r hf => ?_, ?_, by rw [learns_conflict hl]⟩
    · rw [hfind]
      split_ifs with hm
      · subst hm
        exact ⟨_, rfl, (hto m d po n ho r hf).symm⟩
      · exact ⟨r, hf, rfl⟩
    · rintro m' o (⟨d', po', n', ho', rfl⟩ | ⟨u', hu', -⟩)
      · rw [ho] at ho'
        cases ho'
        exact .inr ⟨_, by rw [hfind, if_pos rfl], hi.nodeId⟩
      · simp [ho, Op.update] at hu'
  | reset ho => exact absurd ho hnr

lemma run_held (hr : Run (node i e) h s) (hroom : Roomy h) (hto : NoTakeover h) :
    Held i h s := by
  induction hr with
  | init h0 => simp [Held]
  | @step h s t op hr hst ih =>
    have hs := ih (fun p hp => hroom p (by simp [hp])) fun p hp => hto p (by simp [hp])
    obtain ⟨hl, hnr⟩ := hroom (s, op) (by simp)
    obtain ⟨hkeep, hnew, hcnt⟩ := step_held (run_inv hr) hl hnr (hto (s, op) (by simp))
    obtain rfl : (exec s op).1 = t := Option.some.inj hst
    rintro m o ⟨p, hp, hc⟩
    rcases List.mem_append.mp hp with hp | hp
    · rcases hs m o ⟨p, hp, hc⟩ with h1 | ⟨r, hf, ho⟩
      · exact .inl (h1.trans hcnt)
      · obtain ⟨r', hf', ho'⟩ := hkeep m r hf
        exact .inr ⟨r', hf', ho'.trans ho⟩
    · obtain rfl : p = (s, op) := by simpa using hp
      exact hnew m o hc

/-- **Conflicts are noticed in every order exactly when no learn takes a MAC over.** -/
theorem conflicts_reported_iff (hr : Run (node i e) h s) (hroom : Roomy h) :
    (Counted i h s ∧ NoSilentOverwrite h) ↔ NoTakeover h := by
  constructor
  · rintro ⟨-, hsil⟩ p hp m d po n hop r hf
    obtain ⟨h1, -, -, -, hr1, -⟩ := hr.split hp
    have hi := run_inv hr1
    by_contra hne
    have hl := daimHostLearnLocal_learns hi.ready m d po n
    have hfind := learns_find hl (hroom p hp).1 m
    rw [if_pos rfl] at hfind
    have hex : (exec p.1 p.2).1 = (daimHostLearnLocal p.1 (some m) d po n).1 := by
      rw [hop]
      rfl
    have hc := hsil p hp m r _ hf (by rw [hex, hfind]) hne
    rw [hop] at hc
    simp [exec] at hc
  · intro hto
    refine ⟨fun m o o' hne hc hc' => ?_, fun p hp m r r' hf hf' hne => ?_⟩
    · have hheld := run_held hr hroom hto
      rcases hheld m o hc with h1 | ⟨r, hf, ho⟩
      · exact h1
      rcases hheld m o' hc' with h1 | ⟨r', hf', ho'⟩
      · exact h1
      · rw [hf] at hf'
        cases hf'
        exact absurd (ho.symm.trans ho') hne
    · obtain ⟨h1, -, -, -, hr1, -⟩ := hr.split hp
      obtain ⟨hl, hnr⟩ := hroom p hp
      obtain ⟨hkeep, -, -⟩ := step_held (run_inv hr1) hl hnr (hto p hp)
      obtain ⟨r1, hf1, ho1⟩ := hkeep m r hf
      rw [hf'] at hf1
      cases hf1
      exact absurd ho1.symm hne

/-- A remote claim on a MAC, as another node would send it. -/
def remoteClaim : HostLocation where
  mac := macOf 2
  originNodeId := 4
  ownerDpid := 104
  ownerPort := 9
  ownerEpoch := 1
  sequence := 50
  isLocal := 0
  learnedAtNs := 1
  appliedAtNs := 1

/-- Node 1 learns the MAC and then hears of the remote claim. -/
def learnFirst : List Op :=
  [.learnLocal (some (macOf 2)) 1 1 5, .applyRemote (some remoteClaim) 6]

/-- The same calls in the other order. -/
def learnLast : List Op :=
  [.applyRemote (some remoteClaim) 5, .learnLocal (some (macOf 2)) 1 1 6]

theorem conflicts_reported_learnFirst :
    Counted 1 (history (daimHostStateInit {} 1 7) learnFirst)
        (execAll (daimHostStateInit {} 1 7) learnFirst) ∧
      NoSilentOverwrite (history (daimHostStateInit {} 1 7) learnFirst) := by
  refine (conflicts_reported_iff (run_history 1 7 learnFirst) ?_).mpr ?_
  · intro p hp
    obtain rfl | rfl : p = _ ∨ p = _ := by simpa [learnFirst, history] using hp
    all_goals exact ⟨by decide, by decide⟩
  · intro p hp m d po n hop r hf
    obtain rfl | rfl : p = _ ∨ p = _ := by simpa [learnFirst, history] using hp
    · exact absurd hf (by simp [daimHostStateInit, find])
    · simp at hop

/-- **A learn after the remote claim overwrites it silently**: no conflict is counted. -/
theorem silent_takeover :
    ∃ h s, Run (node 1 7) h s ∧ Roomy h ∧ ¬Counted 1 h s ∧ ¬NoSilentOverwrite h := by
  refine ⟨_, _, run_history 1 7 learnLast, ?_, ?_, ?_⟩
  · intro p hp
    obtain rfl | rfl : p = _ ∨ p = _ := by simpa [learnLast, history] using hp
    all_goals exact ⟨by decide, by decide⟩
  · intro hc
    have h1 := hc remoteClaim.mac 4 1 (by decide)
      ⟨_, List.mem_cons_self, .inr ⟨remoteClaim, rfl, rfl, rfl, by decide, by decide⟩⟩
      ⟨_, List.mem_cons_of_mem _ List.mem_cons_self, .inl ⟨1, 1, 6, rfl, rfl⟩⟩
    exact absurd h1 (by decide)
  · intro hs
    have h1 := hs _ (List.mem_cons_of_mem _ List.mem_cons_self) remoteClaim.mac
      (newRemote remoteClaim 5)
      (localRecord (execAll (daimHostStateInit {} 1 7) (learnLast.take 1)) remoteClaim.mac 1 1 6)
      (by decide) (by decide) (by decide)
    exact absurd h1 (by decide)

end DaimDistributed.Conflict
