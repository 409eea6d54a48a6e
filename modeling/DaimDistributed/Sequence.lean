import DaimDistributed.NodeRun

/-!
The sequence numbers a node hands out within one owner epoch.

Every learn takes the next number, and numbers order the updates of an epoch at every
peer. `daim_host_state_reset` sets the counter back to 1 and keeps the epoch; a learn after
such a reset repeats a number that was handed out before it.
-/

namespace DaimDistributed.Sequence

open HostState HostTable HostInv Transitions NodeRun

/-- The record a call makes this node announce, if it is a learn that succeeds. -/
def learnedBy (s : State) : Op → Option HostLocation
  | .learnLocal (some m) d po n =>
    if (daimHostLearnLocal s (some m) d po n).2 = 0 then none
    else some (localRecord s m d po n)
  | _ => none

/-- The records learned in a run, in order. -/
def learned (h : List (State × Op)) : List HostLocation :=
  h.filterMap fun p => learnedBy p.1 p.2

/-- The sequence number a call returns, if it is a learn that succeeds. -/
def returnedBy (s : State) (op : Op) : Option UInt64 :=
  match (exec s op).2 with
  | .sequence q => if q = 0 then none else some q
  | _ => none

/-- The sequence numbers that successful learns returned, in order. -/
def returned (h : List (State × Op)) : List UInt64 :=
  h.filterMap fun p => returnedBy p.1 p.2

def isLearn : Op → Bool
  | .learnLocal (some _) _ _ _ => true
  | _ => false

/-- The number of learns of a run, successful or not. -/
def learns (h : List (State × Op)) : ℕ := h.countP fun p => isLearn p.2

/-- No reset has a successful learn both before and after it. -/
def NoRewind (h : List (State × Op)) : Prop :=
  ∀ h1 p h2, h = h1 ++ p :: h2 → p.2 = .reset → learned h1 = [] ∨ learned h2 = []

variable {i e : UInt64} {h : List (State × Op)} {s : State} {op : Op}

/-! ### The counter -/

/-- A learn returns the counter or fails, and moves the counter on. -/
lemma learnLocal_counter (hs : s.ready = true) (m : Mac) (d : UInt64) (po : UInt32)
    (n : UInt64) :
    (daimHostLearnLocal s (some m) d po n).1.nextLocalSequence = s.nextLocalSequence + 1 ∧
      ((daimHostLearnLocal s (some m) d po n).2 = 0 ∨
        (daimHostLearnLocal s (some m) d po n).2 = s.nextLocalSequence) := by
  have h1 := daimHostLearnLocal_learns hs m d po n
  generalize daimHostLearnLocal s (some m) d po n = p at h1 ⊢
  cases h1 with
  | full hf hl => exact ⟨rfl, .inl rfl⟩
  | learned hl => exact ⟨rfl, .inr rfl⟩

/-- No other call but a reset moves it. -/
lemma exec_counter (hs : s.ready = true) (hl : isLearn op = false) (hr : op ≠ .reset) :
    (exec s op).1.nextLocalSequence = s.nextLocalSequence ∧ learnedBy s op = none ∧
      returnedBy s op = none := by
  have heff := exec_effect hs op
  have h1 : (exec s op).1.nextLocalSequence = s.nextLocalSequence := by
    generalize (exec s op).1 = t at heff ⊢
    cases heff with
    | same st hu hst hl => rfl
    | update u now p hu hres ha => rw [ha.frame]
    | learn m d po n p ho hres hl' => simp [ho, isLearn] at hl
    | reset ho => exact absurd ho hr
  refine ⟨h1, ?_, ?_⟩
  · cases op with
    | learnLocal mac d po n => cases mac <;> simp_all [isLearn, learnedBy]
    | _ => rfl
  · cases op with
    | learnLocal mac d po n =>
      cases mac <;> simp_all [isLearn, returnedBy, exec, daimHostLearnLocal]
    | _ => rfl

/-- A reset came after a learn, and no learn after it. -/
def Spent (h : List (State × Op)) : Prop :=
  ∃ h1 p h2, h = h1 ++ p :: h2 ∧ p.2 = .reset ∧ learned h1 ≠ []

/-- The counter is ahead of everything that was learned, and has not wrapped. -/
structure Ahead (h : List (State × Op)) (s : State) : Prop where
  below : ∀ r ∈ learned h, r.sequence < s.nextLocalSequence
  pos : 1 ≤ s.nextLocalSequence.toNat
  le : s.nextLocalSequence.toNat ≤ 1 + learns h

/-- What the learned records have in common, and their order. -/
structure Ordered (i e : UInt64) (h : List (State × Op)) : Prop where
  sequences : returned h = (learned h).map HostLocation.sequence
  origin : ∀ r ∈ learned h, r.originNodeId = i ∧ r.ownerEpoch = e
  increasing : (learned h).Pairwise fun r r' => r.sequence < r'.sequence

lemma learned_append (h h' : List (State × Op)) :
    learned (h ++ h') = learned h ++ learned h' := by simp [learned]

lemma learned_snoc (h : List (State × Op)) (s : State) (op : Op) :
    learned (h ++ [(s, op)]) = learned h ++ (learnedBy s op).toList := by
  rw [learned_append]
  cases hl : learnedBy s op <;> simp [learned, hl]

lemma returned_snoc (h : List (State × Op)) (s : State) (op : Op) :
    returned (h ++ [(s, op)]) = returned h ++ (returnedBy s op).toList := by
  cases hl : returnedBy s op <;> simp [returned, hl]

lemma learns_snoc (h : List (State × Op)) (s : State) (op : Op) :
    learns (h ++ [(s, op)]) = learns h + if isLearn op then 1 else 0 := by
  simp [learns, List.countP_append, List.countP_cons]

lemma NoRewind.left {h' : List (State × Op)} (hn : NoRewind (h ++ h')) : NoRewind h := by
  rintro h1 p h2 rfl hp
  rcases hn h1 p (h2 ++ h') (by simp) hp with h0 | h0
  · exact .inl h0
  · exact .inr (by simpa using (List.append_eq_nil_iff.mp (learned_append h2 h' ▸ h0)).1)

/-- After a reset that followed a learn, no learn succeeds. -/
lemma Spent.learnedBy_eq (hs : Spent h) (hn : NoRewind (h ++ [(s, op)])) :
    learnedBy s op = none := by
  obtain ⟨h1, p, h2, rfl, hp, h1ne⟩ := hs
  rcases hn h1 p (h2 ++ [(s, op)]) (by simp) hp with h0 | h0
  · exact absurd h0 h1ne
  · rw [learned_snoc] at h0
    simpa using (List.append_eq_nil_iff.mp h0).2

lemma Spent.snoc (hs : Spent h) : Spent (h ++ [(s, op)]) := by
  obtain ⟨h1, p, h2, rfl, hp, h1ne⟩ := hs
  exact ⟨h1, p, h2 ++ [(s, op)], by simp, hp, h1ne⟩

/-- A successful learn, said of both logs at once. -/
lemma returnedBy_eq (hs : s.ready = true) (op : Op) :
    returnedBy s op = (learnedBy s op).map HostLocation.sequence := by
  cases op with
  | learnLocal mac d po n =>
    cases mac with
    | none => simp [returnedBy, learnedBy, exec, daimHostLearnLocal]
    | some m =>
      have hc := (learnLocal_counter hs m d po n).2
      by_cases h0 : (daimHostLearnLocal s (some m) d po n).2 = 0
      · simp [returnedBy, learnedBy, exec, h0]
      · have h1 := hc.resolve_left h0
        rw [h1] at h0
        simp [returnedBy, learnedBy, exec, h1, h0, localRecord]
  | _ => rfl

lemma learnedBy_eq_some {l : HostLocation} (hl : learnedBy s op = some l) :
    ∃ m d po n, op = .learnLocal (some m) d po n ∧ l = localRecord s m d po n := by
  cases op with
  | learnLocal mac d po n =>
    cases mac with
    | none => simp [learnedBy] at hl
    | some m =>
      rw [learnedBy] at hl
      split_ifs at hl
      exact ⟨m, d, po, n, rfl, (Option.some.inj hl).symm⟩
  | _ => simp [learnedBy] at hl

/-- One call keeps the counter ahead, or is a reset. -/
lemma Ahead.exec (ha : Ahead h s) (hs : s.ready = true) (hr : op ≠ .reset)
    (hb : learns (h ++ [(s, op)]) < 2 ^ 64 - 1) :
    Ahead (h ++ [(s, op)]) (exec s op).1 := by
  by_cases hl : isLearn op = false
  · obtain ⟨hc, hn, -⟩ := exec_counter hs hl hr
    refine ⟨?_, hc ▸ ha.pos, ?_⟩
    · simpa [learned_snoc, hn, hc] using ha.below
    · rw [hc, learns_snoc, hl]
      exact ha.le
  · obtain ⟨m, d, po, n, rfl⟩ : ∃ m d po n, op = .learnLocal (some m) d po n := by
      cases op with
      | learnLocal mac d po n => cases mac <;> simp_all [isLearn]
      | _ => simp [isLearn] at hl
    have hc : (NodeRun.exec s (.learnLocal (some m) d po n)).1.nextLocalSequence =
        s.nextLocalSequence + 1 := (learnLocal_counter hs m d po n).1
    rw [learns_snoc] at hb
    have hle := ha.le
    have hto : (s.nextLocalSequence + 1).toNat = s.nextLocalSequence.toNat + 1 := by
      simp only [isLearn, if_true] at hb
      rw [UInt64.toNat_add, UInt64.toNat_one]
      omega
    have hlt : s.nextLocalSequence < s.nextLocalSequence + 1 := by
      rw [UInt64.lt_iff_toNat_lt, hto]
      omega
    refine ⟨fun r hr => ?_, ?_, ?_⟩
    · rw [hc]
      rw [learned_snoc, List.mem_append] at hr
      rcases hr with hr | hr
      · exact UInt64.lt_trans (ha.below r hr) hlt
      · obtain ⟨m', d', po', n', -, rfl⟩ := learnedBy_eq_some (Option.mem_toList.mp hr)
        exact hlt
    · rw [hc, hto]
      omega
    · rw [hc, hto, learns_snoc]
      simp only [isLearn, if_true]
      omega

/-- **The learned records of a run are in order**, and the counter is ahead of them until a
reset ends the epoch's learning. -/
theorem run_ordered (hr : Run (node i e) h s) (hn : NoRewind h)
    (hb : learns h < 2 ^ 64 - 1) : Ordered i e h ∧ (Ahead h s ∨ Spent h) := by
  induction hr with
  | init h0 =>
    obtain ⟨s0, rfl⟩ := h0
    exact ⟨⟨rfl, by simp [learned], by simp [learned]⟩,
      .inl ⟨by simp [learned], by simp [daimHostStateInit], by simp [daimHostStateInit, learns]⟩⟩
  | @step h s t op hr hst ih =>
    have hb' : learns h < 2 ^ 64 - 1 := by
      rw [learns_snoc] at hb
      omega
    obtain ⟨ho, hc⟩ := ih hn.left hb'
    obtain rfl : (exec s op).1 = t := Option.some.inj hst
    have hi := run_inv hr
    refine ⟨⟨?_, ?_, ?_⟩, ?_⟩
    · rw [returned_snoc, learned_snoc, ho.sequences, returnedBy_eq hi.ready, List.map_append,
        Option.toList_map]
    · intro r hmem
      rw [learned_snoc, List.mem_append] at hmem
      rcases hmem with hmem | hmem
      · exact ho.origin r hmem
      · obtain ⟨m, d, po, n, -, rfl⟩ := learnedBy_eq_some (Option.mem_toList.mp hmem)
        exact ⟨hi.nodeId, hi.ownerEpoch⟩
    · rw [learned_snoc, List.pairwise_append]
      refine ⟨ho.increasing, by cases learnedBy s op <;> simp, fun r hmem r' hmem' => ?_⟩
      have hl := Option.mem_toList.mp hmem'
      rcases hc with hc | hc
      · obtain ⟨m, d, po, n, -, rfl⟩ := learnedBy_eq_some hl
        exact hc.below r hmem
      · simp [hc.learnedBy_eq hn] at hl
    · rcases hc with hc | hc
      · by_cases hop : op = .reset
        · subst hop
          by_cases h0 : learned h = []
          · refine .inl ⟨by simp [learned_snoc, h0, learnedBy], ?_, ?_⟩
            all_goals simp [exec, daimHostStateReset, hi.ready]
          · exact .inr ⟨h, (s, .reset), [], rfl, rfl, h0⟩
        · exact .inl (hc.exec hi.ready hop hb)
      · exact .inr hc.snoc

/-! ### What a peer answers -/

variable {j e' now : UInt64} {g : List (State × Op)} {t : State} {ls : List HostLocation}
  {l : HostLocation}

/-- Every update of origin `i` that the peer was handed is from an earlier epoch, or a copy
of a record of `ls`. -/
def Heard (i e : UInt64) (ls : List HostLocation) (g : List (State × Op)) : Prop :=
  ∀ p ∈ g, ∀ u, p.2.update = some u → u.originNodeId = i →
    u.ownerEpoch < e ∨ ∃ r ∈ ls, ver u = ver r

lemma heard_table (hr : Run (node j e') g t) (hj : j ≠ i) (hh : Heard i e ls g) :
    ∀ r ∈ t.table, r.originNodeId = i → r.ownerEpoch < e ∨ ∃ r0 ∈ ls, ver r = ver r0 := by
  induction hr with
  | init h0 =>
    obtain ⟨s0, rfl⟩ := h0
    simp [daimHostStateInit]
  | @step g s t op hr hst ih =>
    have ih := ih fun p hp => hh p (by simp [hp])
    have hi := run_inv hr
    obtain rfl : (exec s op).1 = t := Option.some.inj hst
    have heff := exec_effect hi.ready op
    generalize (exec s op).1 = t at heff ⊢
    cases heff with
    | same st hu hst hl => exact ih
    | update u now p hu hres ha =>
      intro r hmem ho
      rcases ha.mem hmem with hmem | hc
      · exact ih r hmem ho
      · obtain ⟨-, hor, he, hv⟩ := fields_of_claim hc
        rw [he, hv]
        exact hh (s, op) (by simp) u hu (hor ▸ ho)
    | learn m d po n p ho hres hl =>
      cases hl with
      | full hf hl => exact ih
      | learned hl =>
        intro r hmem ho
        rcases mem_write hmem with rfl | hmem
        · exact absurd (hi.nodeId.symm.trans ho) hj
        · exact ih r hmem ho
    | reset ho => simp [daimHostStateReset, hi.ready]

/-- A peer that heard only of smaller versions answers neither DUPLICATE nor
STALE_REJECTED. -/
lemma apply_later (hr : Run (node j e') g t) (hh : Heard i e ls g)
    (hl : l.originNodeId = i ∧ l.ownerEpoch = e)
    (hlt : ∀ r ∈ ls, ver r < ver l) :
    (daimHostApplyRemote t (some l) now).2 ≠ .duplicate ∧
      (daimHostApplyRemote t (some l) now).2 ≠ .staleRejected := by
  have hi := run_inv hr
  have hex : daimHostApplyRemote t (some l) now = applyLocked t (some l) now := by
    simp [daimHostApplyRemote, hi.ready]
  have ha := applyLocked_applies t l now
  rw [hex]
  generalize applyLocked t (some l) now = p at ha ⊢
  have hheld : l.originNodeId ≠ t.nodeId → ∀ r, find t.table l.mac = some r →
      r.originNodeId = l.originNodeId → ver r < ver l := by
    intro hn r hf ho
    have hj : j ≠ i := fun he => hn (by rw [hi.nodeId, he, hl.1])
    rcases heard_table hr hj hh r (find_mem hf) (ho.trans hl.1) with h1 | ⟨r0, hr0, hv⟩
    · exact version_lt.mpr (.inl (hl.2 ▸ h1))
    · exact hv ▸ hlt r0 hr0
  cases ha with
  | duplicate h0 hn hf ho hv => exact absurd hv (hheld hn _ hf ho).ne'
  | stale h0 hn hf ho hv => exact absurd hv (hheld hn _ hf ho).not_gt
  | _ => simp [State.reject, State.accept]

/-- **Sequence numbers strictly increase in every run in which no reset comes between two
learns**, and then no peer takes a later learn for a repetition. -/
theorem sequences_increase (hr : Run (node i e) h s) (hb : learns h < 2 ^ 64 - 1)
    (hn : NoRewind h) :
    (returned h).Pairwise (· < ·) ∧
      ∀ earlier l later, learned h = earlier ++ l :: later →
        ∀ j e' g t, Run (node j e') g t → Heard i e earlier g → ∀ now,
          (daimHostApplyRemote t (some l) now).2 ≠ .duplicate ∧
            (daimHostApplyRemote t (some l) now).2 ≠ .staleRejected := by
  obtain ⟨ho, -⟩ := run_ordered hr hn hb
  refine ⟨?_, fun earlier l later hsplit j e' g t hg hh now => ?_⟩
  · rw [ho.sequences, List.pairwise_map]
    exact ho.increasing
  · have hmem : l ∈ learned h := by simp [hsplit]
    refine apply_later hg hh (ho.origin l hmem) fun r hr => version_lt.mpr (.inr ⟨?_, ?_⟩)
    · have hr' : r ∈ learned h := by simp [hsplit, hr]
      rw [(ho.origin r hr').2, (ho.origin l hmem).2]
    · have hp := ho.increasing
      rw [hsplit, List.pairwise_append] at hp
      exact hp.2.2 r hr l (by simp)

/-- Two learns of one host. -/
def twoLearns : List Op :=
  [.learnLocal (some (macOf 1)) 1 1 5, .learnLocal (some (macOf 1)) 1 1 6]

/-- The same learns with a reset between them. -/
def resetBetween : List Op :=
  [.learnLocal (some (macOf 1)) 1 1 5, .reset,
    .learnLocal (some (macOf 1)) 1 1 6]

theorem sequences_increase_twoLearns :
    (returned (history (daimHostStateInit {} 1 7) twoLearns)).Pairwise (· < ·) := by
  refine (sequences_increase (run_history 1 7 twoLearns) (by decide) ?_).1
  intro h1 p h2 hh hp
  have hmem : p ∈ history (daimHostStateInit {} 1 7) twoLearns := by simp [hh]
  obtain rfl | rfl : p = _ ∨ p = _ := by simpa [twoLearns, history] using hmem
  all_goals simp at hp

/-- What node 1 announces for the first learn after an initialisation or a reset. -/
def learnedAt (now : UInt64) : HostLocation :=
  localRecord (daimHostStateInit {} 1 7) (macOf 1) 1 1 now

/-- **After a reset the numbers start again, and a peer drops the learn as a duplicate.** -/
theorem reset_repeats_sequence :
    ∃ h s, Run (node 1 7) h s ∧ learns h < 2 ^ 64 - 1 ∧ ¬(returned h).Pairwise (· < ·) ∧
      ∃ earlier l later, learned h = earlier ++ l :: later ∧
        ∃ g t, Run (node 2 3) g t ∧ Heard 1 7 earlier g ∧
          (∀ r ∈ earlier, ∃ p ∈ g, p.2 = .applyRemote (some r) 9) ∧
          (daimHostApplyRemote t (some l) 10).2 = .duplicate := by
  refine ⟨_, _, run_history 1 7 resetBetween, by decide, by decide, [learnedAt 5], learnedAt 6,
    [], by decide, _, _, run_history 2 3 [.applyRemote (some (learnedAt 5)) 9], ?_, ?_,
    by decide⟩
  · intro p hp u hu ho
    obtain rfl : p = _ := by simpa [history] using hp
    obtain rfl : learnedAt 5 = u := by simpa [Op.update] using hu
    exact .inr ⟨learnedAt 5, by simp, rfl⟩
  · intro r hr
    obtain rfl : r = learnedAt 5 := by simpa using hr
    exact ⟨_, List.mem_singleton_self _, rfl⟩

end DaimDistributed.Sequence
