import DaimDistributed.Sequence

/-!
Who owns a record, and what may still happen to it.

The three writers of the host table each rebuild a part of a record. What they keep is one
invariant of the table together with the sequence counter, and one statement about the
record of a MAC before and after a call.
-/

namespace DaimDistributed.Ownership

open HostState HostTable HostInv Transitions NodeRun Sequence

/-- The invariant of the host-location table. -/
structure Owned (i e : UInt64) (s : State) : Prop where
  node : NodeInv i e s
  /-- Local records are of the current owner epoch. -/
  epoch : ∀ r ∈ s.table, r.isLocal ≠ 0 → r.ownerEpoch = e
  /-- Their sequences were all handed out. -/
  below : ∀ r ∈ s.table, r.isLocal ≠ 0 → r.sequence < s.nextLocalSequence
  distinct : ∀ r ∈ s.table, ∀ r' ∈ s.table, r.isLocal ≠ 0 → r'.isLocal ≠ 0 →
    r.mac ≠ r'.mac → r.sequence ≠ r'.sequence

/-- What a call may do to the record of a MAC: take over a remote one, or make one newer. -/
structure Succeeds (s : State) (op : Op) (r r' : HostLocation) : Prop where
  taken : r'.originNodeId ≠ r.originNodeId → r.originNodeId ≠ s.nodeId ∧
    r'.originNodeId = s.nodeId ∧ ∃ d po n, op = .learnLocal (some r.mac) d po n
  newer : r'.originNodeId = r.originNodeId → r' ≠ r → ver r < ver r'

/-- No MAC disappears, and its record only changes as it may. -/
def Kept (s : State) (op : Op) (t : State) : Prop :=
  ∀ m r, find s.table m = some r → ∃ r', find t.table m = some r' ∧ Succeeds s op r r'

variable {i e : UInt64} {h : List (State × Op)} {s t : State} {op : Op} {r r' : HostLocation}

lemma Succeeds.refl (s : State) (op : Op) (r : HostLocation) : Succeeds s op r r :=
  ⟨fun h => absurd rfl h, fun _ h => absurd rfl h⟩

lemma kept_same {table : List HostLocation} (ht : t.table = table) (hs : s.table = table) :
    Kept s op t := fun m r hf => ⟨r, by rwa [ht, ← hs], .refl s op r⟩

/-! ### Updates -/

lemma applies_owned {u : HostLocation} {now : UInt64} {p : State × ApplyResult}
    (ha : Applies s u now p) (ho : Owned i e s) (hp : NodeInv i e p.1) : Owned i e p.1 := by
  have ht : TableInv s.nodeId s.table := ho.node.nodeId.symm ▸ ho.node.table
  have hloc : ∀ r ∈ p.1.table, r.isLocal ≠ 0 → r ∈ s.table := fun r => ht.local_mem ha
  have hframe := ha.frame
  refine ⟨hp, fun r hr hl => ho.epoch r (hloc r hr hl) hl, fun r hr hl => ?_,
    fun r hr r' hr' hl hl' => ho.distinct r (hloc r hr hl) r' (hloc r' hr' hl') hl hl'⟩
  rw [hframe]
  exact ho.below r (hloc r hr hl) hl

lemma applies_kept {u : HostLocation} {now : UInt64} {p : State × ApplyResult}
    (ha : Applies s u now p) : Kept s op p.1 := by
  intro m r hr
  rcases ha.held hr with hk | ⟨⟨-, -, hv⟩, hk⟩
  · exact ⟨r, hk, .refl s op r⟩
  · exact ⟨updatedRecord r u now, hk, fun hne => absurd rfl hne, fun _ _ => hv⟩

/-! ### Learns -/

lemma learns_owned {m : Mac} {d : UInt64} {po : UInt32} {n : UInt64} {p : State × UInt64}
    (hl : Learns s m d po n p) (ho : Owned i e s) (hp : NodeInv i e p.1)
    (hlt : s.nextLocalSequence < s.nextLocalSequence + 1) : Owned i e p.1 := by
  cases hl with
  | full hf hl =>
    exact ⟨hp, ho.epoch, fun r hr hl => UInt64.lt_trans (ho.below r hr hl) hlt, ho.distinct⟩
  | learned hroom =>
    refine ⟨hp, fun r hr hl => ?_, fun r hr hl => ?_, fun r hr r' hr' hl hl' hm => ?_⟩
    · rcases mem_write hr with rfl | hr
      · exact ho.node.ownerEpoch
      · exact ho.epoch r hr hl
    · rcases mem_write hr with rfl | hr
      · exact hlt
      · exact UInt64.lt_trans (ho.below r hr hl) hlt
    · rcases mem_write hr with rfl | hr <;> rcases mem_write hr' with rfl | hr'
      · exact absurd rfl hm
      · exact (UInt64.ne_of_lt (ho.below r' hr' hl')).symm
      · exact UInt64.ne_of_lt (ho.below r hr hl)
      · exact ho.distinct r hr r' hr' hl hl' hm

lemma learns_kept {m : Mac} {d : UInt64} {po : UInt32} {n : UInt64} {p : State × UInt64}
    (hl : Learns s m d po n p) (ho : Owned i e s) : Kept s (.learnLocal (some m) d po n) p.1 := by
  cases hl with
  | full hf hl => exact kept_same rfl rfl
  | learned hroom =>
    intro m' r hr
    by_cases hm : m = m'
    · subst hm
      refine ⟨localRecord s m d po n, by simp [find_write, localRecord], fun hne => ?_,
        fun heq _ => ?_⟩
      · have hmac := find_mac hr
        exact ⟨fun hc => hne hc.symm, rfl, d, po, n, by rw [hmac]⟩
      · -- the node's own record: the counter is ahead of its sequence
        have hmem := find_mem hr
        have hlocal : r.isLocal ≠ 0 :=
          (ho.node.table.local_iff r hmem).mpr (heq.symm.trans ho.node.nodeId)
        refine version_lt.mpr (.inr ⟨?_, ho.below r hmem hlocal⟩)
        exact (ho.epoch r hmem hlocal).trans ho.node.ownerEpoch.symm
    · exact ⟨r, by simpa [find_write, localRecord, hm] using hr, .refl s _ r⟩

/-! ### Runs -/

/-- **One call keeps the invariant and the records**, while the counter does not wrap. -/
theorem exec_owned (ho : Owned i e s) (hr : op ≠ .reset)
    (hlt : isLearn op = true → s.nextLocalSequence < s.nextLocalSequence + 1) :
    Owned i e (exec s op).1 ∧ Kept s op (exec s op).1 := by
  have hp := ho.node.exec op
  have heff := exec_effect ho.node.ready op
  generalize (exec s op).1 = t at heff hp ⊢
  cases heff with
  | same st hu hst hl =>
    exact ⟨⟨hp, ho.epoch, ho.below, ho.distinct⟩, kept_same rfl rfl⟩
  | update u now p hu hres ha => exact ⟨applies_owned ha ho hp, applies_kept ha⟩
  | learn m d po n p hop hres hl =>
    subst hop
    exact ⟨learns_owned hl ho hp (hlt rfl), learns_kept hl ho⟩
  | reset hop => exact absurd hop hr

lemma owned_init (s0 : State) (i e : UInt64) : Owned i e (daimHostStateInit s0 i e) :=
  ⟨nodeInv_init s0 i e, by simp [daimHostStateInit], by simp [daimHostStateInit],
    by simp [daimHostStateInit]⟩

/-- The counter has counted the learns. -/
lemma exec_counts (hs : s.ready = true) (hr : op ≠ .reset)
    (hc : s.nextLocalSequence.toNat = 1 + learns h) (hb : learns (h ++ [(s, op)]) < 2 ^ 64 - 1) :
    (exec s op).1.nextLocalSequence.toNat = 1 + learns (h ++ [(s, op)]) ∧
      (isLearn op = true → s.nextLocalSequence < s.nextLocalSequence + 1) := by
  rw [learns_snoc] at hb ⊢
  by_cases hl : isLearn op = true
  · rw [if_pos hl] at hb ⊢
    have hto : (s.nextLocalSequence + 1).toNat = s.nextLocalSequence.toNat + 1 := by
      rw [UInt64.toNat_add, UInt64.toNat_one]
      omega
    refine ⟨?_, fun _ => by rw [UInt64.lt_iff_toNat_lt, hto]; omega⟩
    cases op with
    | learnLocal mac d po n =>
      cases mac with
      | none => simp [isLearn] at hl
      | some m =>
        have hcnt : (exec s (.learnLocal (some m) d po n)).1.nextLocalSequence =
            s.nextLocalSequence + 1 := (learnLocal_counter hs m d po n).1
        rw [hcnt, hto]
        omega
    | _ => simp [isLearn] at hl
  · rw [if_neg hl]
    rw [(exec_counter hs (by simpa using hl) hr).1]
    exact ⟨hc, fun h => absurd h hl⟩

lemma run_owned (hr : Run (node i e) h s) (hn : ∀ p ∈ h, p.2 ≠ .reset)
    (hb : learns h < 2 ^ 64 - 1) :
    Owned i e s ∧ s.nextLocalSequence.toNat = 1 + learns h ∧
      ∀ p ∈ h, Kept p.1 p.2 (exec p.1 p.2).1 := by
  induction hr with
  | init h0 =>
    obtain ⟨s0, rfl⟩ := h0
    exact ⟨owned_init s0 i e, by simp [daimHostStateInit, learns], by simp⟩
  | @step h s t op hr hst ih =>
    obtain rfl : (exec s op).1 = t := Option.some.inj hst
    have hb' : learns h < 2 ^ 64 - 1 := by
      rw [learns_snoc] at hb
      omega
    obtain ⟨ho, hc, hk⟩ := ih (fun p hp => hn p (by simp [hp])) hb'
    have hop : op ≠ .reset := hn (s, op) (by simp)
    obtain ⟨hc', hlt⟩ := exec_counts ho.node.ready hop hc hb
    obtain ⟨ho', hk'⟩ := exec_owned ho hop hlt
    refine ⟨ho', hc', fun p hp => ?_⟩
    rcases List.mem_append.mp hp with hp | hp
    · exact hk p hp
    · obtain rfl : p = (s, op) := by simpa using hp
      exact hk'

/-- **Ownership and versions.** In every state of a run without a reset the table is well
formed, and along every step no MAC disappears, an origin changes only when this node learns
the MAC, and a record with the same origin only becomes newer. -/
theorem ownership (hr : Run (node i e) h s) (hn : ∀ p ∈ h, p.2 ≠ .reset)
    (hb : learns h < 2 ^ 64 - 1) :
    Owned i e s ∧ ∀ p ∈ h, Kept p.1 p.2 (exec p.1 p.2).1 := by
  obtain ⟨ho, -, hk⟩ := run_owned hr hn hb
  exact ⟨ho, hk⟩

/-- A host is known at node 4 and then found on the own host port. -/
def takeover : List Op :=
  [.applyRemote (some ⟨macOf 2, 4, 4, 1, 3, 9, 1, 2, 2⟩) 5, .learnLocal (some (macOf 2)) 1 1 6]

theorem ownership_takeover : Owned 1 7 (execAll (daimHostStateInit {} 1 7) takeover) :=
  (ownership (run_history 1 7 takeover) (by decide) (by decide)).1

end DaimDistributed.Ownership
