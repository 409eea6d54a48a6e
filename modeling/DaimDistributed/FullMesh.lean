import Mathlib.Algebra.Order.Ring.Rat
import Mathlib.Data.Finset.Order
import Mathlib.Logic.Function.Basic
import Mathlib.Order.Interval.Finset.Nat
import DaimDistributed.Collecting
import DaimDistributed.Transitions

/-!
The convergence detector of the scaling gate.

For every node a thread reads the lines the node prints and appends those that are events to a
list. `wait_for_full_mesh` polls the lists, one node after the other. It counts the events of a
node and does not look at the peers they name.
-/

namespace DaimDistributed.FullMesh

open Transitions Collecting

/-- An event of a node: what is read of the entries of its JSON object, if they are there. -/
structure Event where
  event : Option String := none
  name : Option String := none
  peerNodeId : Option ℕ := none
  recordedMonotonicS : Option ℚ := none
  deriving DecidableEq

/-- `record_raw`: an entry of the event itself overrides the one made here. -/
def recordRaw (now : ℚ) (e : Event) : Event :=
  { e with recordedMonotonicS := some (e.recordedMonotonicS.getD now) }

/-- The predicate of `wait_for_full_mesh`. -/
def snapshotReceived (sinceMonotonicS : ℚ) (e : Event) : Bool :=
  e.event == some "lifecycle" && e.name == some "snapshot_received" &&
    decide (sinceMonotonicS ≤ e.recordedMonotonicS.getD 0)

/-- Where the call is: not made yet, at the head of the loop, behind the first `k` nodes, at the
`return` in the loop, asleep, or over. -/
inductive Phase
  | start
  | loop
  | checking (k : ℕ)
  | full
  | sleeping
  | returned (timestamp : Option ℚ)
  deriving DecidableEq

/-- The events of the nodes, `time.monotonic()`, and the call. -/
structure State where
  events : ℕ → List Event := fun _ => []
  clock : ℚ
  deadline : ℚ := 0
  phase : Phase := .start

inductive Step
  | tick (now : ℚ)
  | line (i : ℕ) (now : ℚ) (e : Event)
  | poll
  deriving DecidableEq

/-- `events_matching`. -/
def eventsMatching (predicate : Event → Bool) (events : List Event) : List Event :=
  events.filter predicate

def expected (n : ℕ) : ℕ := n - 1

/-- The call is made or goes on. Nodes are numbered from 1. -/
def poll (n : ℕ) (timeoutS sinceMonotonicS : ℚ) (x : State) : Option State :=
  match x.phase with
  | .start => some { x with deadline := x.clock + timeoutS, phase := .loop }
  | .loop =>
    some { x with phase := if x.clock < x.deadline then .checking 0 else .returned none }
  | .checking k =>
    if k = n then some { x with phase := .full }
    else if expected n ≤
        (eventsMatching (snapshotReceived sinceMonotonicS) (x.events (k + 1))).length then
      some { x with phase := .checking (k + 1) }
    else some { x with phase := .sleeping }
  | .full => some { x with phase := .returned (some x.clock) }
  | .sleeping => some { x with phase := .loop }
  | .returned _ => none

def step (n : ℕ) (timeoutS sinceMonotonicS : ℚ) (x : State) : Step → Option State
  | .tick now => if x.clock ≤ now then some { x with clock := now } else none
  | .line i now e =>
    if now ≤ x.clock then
      some { x with events := Function.update x.events i (x.events i ++ [recordRaw now e]) }
    else none
  | .poll => poll n timeoutS sinceMonotonicS x

/-- The nodes print, and a call is made at some time. -/
def waiting (n : ℕ) (timeoutS sinceMonotonicS : ℚ) : Lts State Step :=
  ofFun (fun x => x.phase = .start ∧ ∀ i, x.events i = []) (step n timeoutS sinceMonotonicS)

/-! ### What the call is to find out -/

/-- The nodes other than node `i`. -/
def others (n i : ℕ) : Finset ℕ := (Finset.Icc 1 n).erase i

/-- Every node has recorded a `snapshot_received` from each of the others. -/
def Synced (n : ℕ) (sinceMonotonicS : ℚ) (x : State) : Prop :=
  ∀ i ∈ Finset.Icc 1 n, ∀ j ∈ others n i,
    ∃ e ∈ x.events i, snapshotReceived sinceMonotonicS e = true ∧ e.peerNodeId = some j

/-- Where the call returns a timestamp, the nodes have synchronised. -/
def Reliable (n : ℕ) (sinceMonotonicS : ℚ) (h : List (State × Step)) : Prop :=
  ∀ p ∈ h, p.1.phase = .full → p.2 = .poll → Synced n sinceMonotonicS p.1

/-! ### What the nodes print -/

/-- A line of node `i`, with the time it is read. -/
def printed (i : ℕ) : Step → Option (ℚ × Event)
  | .tick _ => none
  | .line k now e => if k = i then some (now, e) else none
  | .poll => none

/-- The lines that node `i` prints in a run. -/
def lines (i : ℕ) (h : List (State × Step)) : List (ℚ × Event) := shown (fun _ l => printed i l) h

/-- The events among lines that are counted. -/
def counted (sinceMonotonicS : ℚ) (ls : List (ℚ × Event)) : List Event :=
  eventsMatching (snapshotReceived sinceMonotonicS) (ls.map fun p => recordRaw p.1 p.2)

/-- Lines with enough events. -/
def Enough (n : ℕ) (sinceMonotonicS : ℚ) (ls : List (ℚ × Event)) : Prop :=
  expected n ≤ (counted sinceMonotonicS ls).length

/-- Of the first `n - 1` events counted no two name the same peer, and each names a node other
than node `i`. -/
def Plain (n : ℕ) (sinceMonotonicS : ℚ) (i : ℕ) (ls : List (ℚ × Event)) : Prop :=
  Distinct Event.peerNodeId (others n i) ((counted sinceMonotonicS ls).take (expected n))

variable {n i k : ℕ} {timeout since : ℚ} {h : List (State × Step)} {x x' : State} {l : Step}
  {ls ls' : List (ℚ × Event)}

lemma card_others (hi : i ∈ Finset.Icc 1 n) : (others n i).card = expected n := by
  rw [others, Finset.card_erase_of_mem hi, Nat.card_Icc, Nat.add_sub_cancel, expected]

lemma counted_front (hp : ls <+: ls') : counted since ls <+: counted since ls' :=
  (hp.map _).filter _

lemma Enough.mono (he : Enough n since ls) (hp : ls <+: ls') : Enough n since ls' :=
  Nat.le_trans he (counted_front hp).length_le

lemma plain_front (he : Enough n since ls) (hp : ls <+: ls') :
    Plain n since i ls' ↔ Plain n since i ls := by
  rw [Plain, Plain, counted, eventsMatching, take_filter_front _ (hp.map _) he]
  rfl

/-- **A node with enough events has heard from all others if its first `n - 1` name distinct
ones.** -/
lemma covers_of_plain (hi : i ∈ Finset.Icc 1 n) (he : Enough n since ls)
    (hp : Plain n since i ls) : Covers Event.peerNodeId (others n i) (counted since ls) := by
  have hlen : ((counted since ls).take (expected n)).length = (others n i).card := by
    rw [card_others hi, List.length_take_of_le he]
  exact ((covers_iff_distinct hlen).2 hp).mono (List.take_subset _ _)

/-- With just `n - 1` events it has to. -/
lemma plain_of_covers (hi : i ∈ Finset.Icc 1 n)
    (hlen : (counted since ls).length = expected n)
    (hc : Covers Event.peerNodeId (others n i) (counted since ls)) : Plain n since i ls := by
  rw [Plain, List.take_of_length_le hlen.le]
  exact (covers_iff_distinct (hlen.trans (card_others hi).symm)).1 hc

/-- Lines with enough events have a front with just enough. -/
lemma Enough.exists_front (he : Enough n since ls) :
    ∃ ls', ls' <+: ls ∧ (counted since ls').length = expected n := by
  have hcount : ∀ ls, (counted since ls).length =
      (ls.filter fun p => snapshotReceived since (recordRaw p.1 p.2)).length := by
    intro ls
    rw [counted, eventsMatching, List.filter_map, List.length_map]
    rfl
  rw [Enough, hcount] at he
  obtain ⟨ls', hpre, heq⟩ := exists_prefix_filter _ ls he
  exact ⟨ls', hpre, by rw [hcount, heq, List.length_take_of_le he]⟩

/-! ### The events of a run -/

@[simp] lemma lines_poll : lines i (h ++ [(x, .poll)]) = lines i h := by
  rw [lines, shown_snoc, printed, Option.toList_none, List.append_nil, lines]

lemma step_events (hst : step n timeout since x l = some x') (i : ℕ) :
    x'.events i = x.events i ++ (printed i l).toList.map fun p => recordRaw p.1 p.2 := by
  cases l with
  | tick now =>
    simp only [step] at hst
    split_ifs at hst
    cases hst
    exact (List.append_nil _).symm
  | line k now e =>
    simp only [step] at hst
    split_ifs at hst
    cases hst
    dsimp only
    by_cases hk : k = i
    · subst hk
      rw [Function.update_self, printed, if_pos rfl]
      rfl
    · rw [Function.update_of_ne (Ne.symm hk), printed, if_neg hk]
      exact (List.append_nil _).symm
  | poll =>
    have hev : x'.events = x.events := by
      simp only [step, poll] at hst
      split at hst
      · cases hst
        rfl
      · cases hst
        rfl
      · split_ifs at hst <;> cases hst <;> rfl
      · cases hst
        rfl
      · cases hst
        rfl
      · cases hst
    rw [hev]
    exact (List.append_nil _).symm

/-- The events of a node are the lines it has printed. -/
lemma run_events (hr : Run (waiting n timeout since) h x) (i : ℕ) :
    x.events i = (lines i h).map fun p => recordRaw p.1 p.2 := by
  induction hr with
  | init h0 => exact h0.2 i
  | step _ hst ih =>
    rw [step_events hst i, ih, lines, lines, shown_snoc, List.map_append]

/-- The nodes have synchronised if each has heard from all others. -/
lemma synced_iff (hr : Run (waiting n timeout since) h x) : Synced n since x ↔
    ∀ i ∈ Finset.Icc 1 n, Covers Event.peerNodeId (others n i) (counted since (lines i h)) := by
  refine forall₂_congr fun i _ => forall₂_congr fun j _ => exists_congr fun e => ?_
  rw [run_events hr i, counted, eventsMatching, List.mem_filter, and_assoc]

/-! ### The polls -/

/-- A check of node `i` would find enough events. -/
def Passes (n : ℕ) (sinceMonotonicS : ℚ) (x : State) (i : ℕ) : Prop :=
  expected n ≤ (eventsMatching (snapshotReceived sinceMonotonicS) (x.events i)).length

/-- The nodes that the call is behind, or all of them, have enough events; and a call with no
time does not come to check them. -/
def Inv (n : ℕ) (timeoutS sinceMonotonicS : ℚ) (x : State) : Prop :=
  match x.phase with
  | .start => True
  | .loop => x.deadline ≤ x.clock + timeoutS
  | .checking k => x.deadline ≤ x.clock + timeoutS ∧ 0 < timeoutS ∧ k ≤ n ∧
      ∀ i ∈ Finset.Icc 1 k, Passes n sinceMonotonicS x i
  | .full => 0 < timeoutS ∧ ∀ i ∈ Finset.Icc 1 n, Passes n sinceMonotonicS x i
  | .sleeping => x.deadline ≤ x.clock + timeoutS
  | .returned _ => True

/-- Events are only added. -/
lemma Passes.step (hp : Passes n since x i) (hst : FullMesh.step n timeout since x l = some x') :
    Passes n since x' i := by
  rw [Passes, step_events hst i, eventsMatching, List.filter_append, List.length_append]
  exact Nat.le_trans hp (Nat.le_add_right _ _)

/-- Time and lines do not touch the invariant. -/
lemma Inv.keep (hi : Inv n timeout since x) (hph : x'.phase = x.phase)
    (hd : x'.deadline = x.deadline) (hc : x.clock ≤ x'.clock)
    (hp : ∀ i, Passes n since x i → Passes n since x' i) : Inv n timeout since x' := by
  have htime : x.deadline ≤ x.clock + timeout → x'.deadline ≤ x'.clock + timeout := by
    intro hle
    rw [hd]
    exact hle.trans (by gcongr)
  unfold Inv at hi ⊢
  rw [hph]
  split at hi
  · trivial
  · exact htime hi
  · exact ⟨htime hi.1, hi.2.1, hi.2.2.1, fun i hk => hp i (hi.2.2.2 i hk)⟩
  · exact ⟨hi.1, fun i hk => hp i (hi.2 i hk)⟩
  · exact htime hi
  · trivial

lemma Inv.poll (hi : Inv n timeout since x) (hst : FullMesh.poll n timeout since x = some x') :
    Inv n timeout since x' := by
  unfold FullMesh.poll at hst
  unfold Inv at hi
  split at hst
  · cases hst
    exact le_refl _
  · rename_i hph
    rw [hph] at hi
    cases hst
    unfold Inv
    dsimp only
    split_ifs with hlt
    · refine ⟨hi, ?_, Nat.zero_le _, by simp⟩
      exact pos_of_lt_add_right (hlt.trans_le hi)
    · trivial
  · rename_i k hph
    rw [hph] at hi
    obtain ⟨htime, hpos, hk, hall⟩ := hi
    split_ifs at hst with hkn hcount
    · cases hst
      exact ⟨hpos, hkn ▸ hall⟩
    · cases hst
      refine ⟨htime, hpos, by omega, fun j hj => ?_⟩
      rw [Finset.mem_Icc] at hj
      rcases Nat.lt_or_ge k j with hlt | hge
      · obtain rfl : j = k + 1 := by omega
        exact hcount
      · exact hall j (Finset.mem_Icc.2 ⟨hj.1, hge⟩)
    · cases hst
      exact htime
  · cases hst
    trivial
  · rename_i hph
    rw [hph] at hi
    cases hst
    exact hi
  · cases hst

lemma Inv.step (hi : Inv n timeout since x) (hst : FullMesh.step n timeout since x l = some x') :
    Inv n timeout since x' := by
  have hp : ∀ i, Passes n since x i → Passes n since x' i := fun i h => h.step hst
  cases l with
  | tick now =>
    simp only [FullMesh.step] at hst
    split_ifs at hst with hle
    cases hst
    exact hi.keep rfl rfl hle hp
  | line k now e =>
    simp only [FullMesh.step] at hst
    split_ifs at hst
    cases hst
    exact hi.keep rfl rfl (le_refl _) hp
  | poll => exact hi.poll hst

lemma run_inv (hr : Run (waiting n timeout since) h x) : Inv n timeout since x := by
  refine hr.inv (Inv n timeout since) (fun x hx => ?_) fun _ _ _ => Inv.step
  simp only [Inv, hx.1]

lemma passes_iff (hr : Run (waiting n timeout since) h x) :
    Passes n since x i ↔ Enough n since (lines i h) := by
  rw [Passes, run_events hr i]
  rfl

/-- At the `return` every node has enough events. -/
lemma enough_of_full (hr : Run (waiting n timeout since) h x) (hph : x.phase = .full) :
    0 < timeout ∧ ∀ i ∈ Finset.Icc 1 n, Enough n since (lines i h) := by
  have hi := run_inv hr
  rw [Inv, hph] at hi
  exact ⟨hi.1, fun i hk => (passes_iff hr).1 (hi.2 i hk)⟩

/-- **Plain lines make a run reliable**, and lines with which the call returns no timestamp do
so anyway. -/
lemma reliable_of_plain {L : ℕ → List (ℚ × Event)} (hr : Run (waiting n timeout since) h x)
    (hL : ∀ i, lines i h <+: L i)
    (hp : 0 < timeout → (∀ i ∈ Finset.Icc 1 n, Enough n since (L i)) →
      ∀ i ∈ Finset.Icc 1 n, Plain n since i (L i)) : Reliable n since h := by
  intro p hmem hfull _
  obtain ⟨h1, h2, u, rfl, hr1, -⟩ := hr.split hmem
  obtain ⟨hpos, henough⟩ := enough_of_full hr1 hfull
  have hpre : ∀ i, lines i h1 <+: L i := fun i =>
    ((List.prefix_append h1 (p :: h2)).filterMap _).trans (hL i)
  have hplain := hp hpos fun i hi => (henough i hi).mono (hpre i)
  exact (synced_iff hr1).2 fun i hi =>
    covers_of_plain hi (henough i hi) ((plain_front (henough i hi) (hpre i)).1 (hplain i hi))

/-! ### A run that prints given lines and returns -/

/-- A node prints some lines. -/
lemma exists_run_lines (hr : Run (waiting n timeout since) h x) (i : ℕ)
    (hls : ∀ p ∈ ls, p.1 ≤ x.clock) : ∃ h' x', Run (waiting n timeout since) h' x' ∧
      x'.phase = x.phase ∧ x'.clock = x.clock ∧
      ∀ k, lines k h' = lines k h ++ if k = i then ls else [] := by
  induction ls using List.reverseRecOn with
  | nil => exact ⟨h, x, hr, rfl, rfl, fun k => by rw [ite_self, List.append_nil]⟩
  | append_singleton ls p ih =>
    obtain ⟨h', x', hr', hph, hcl, hlines⟩ := ih fun q hq => hls q (List.mem_append_left _ hq)
    have hle : p.1 ≤ x'.clock := hcl ▸ hls p (List.mem_append_right _ (List.mem_singleton_self p))
    have hst : step n timeout since x' (.line i p.1 p.2) =
        some { x' with
          events := Function.update x'.events i (x'.events i ++ [recordRaw p.1 p.2]) } :=
      if_pos hle
    refine ⟨_, _, hr'.step hst, hph, hcl, fun k => ?_⟩
    rw [lines, shown_snoc, ← lines, hlines k, List.append_assoc]
    by_cases hk : k = i
    · rw [if_pos hk, if_pos hk, printed, if_pos hk.symm]
      rfl
    · rw [if_neg hk, if_neg hk, printed, if_neg (Ne.symm hk)]
      rfl

/-- Each node of a list prints its lines. -/
lemma exists_run_all {c : ℚ} (P : ℕ → List (ℚ × Event)) (ks : List ℕ) (hks : ks.Nodup)
    (hP : ∀ k ∈ ks, ∀ p ∈ P k, p.1 ≤ c) : ∃ h x, Run (waiting n timeout since) h x ∧
      x.phase = .start ∧ x.clock = c ∧ ∀ k, lines k h = if k ∈ ks then P k else [] := by
  induction ks with
  | nil => exact ⟨[], { clock := c }, .init ⟨rfl, fun _ => rfl⟩, rfl, rfl, fun _ => rfl⟩
  | cons i ks ih =>
    obtain ⟨hi, hks⟩ := List.nodup_cons.1 hks
    obtain ⟨h, x, hr, hph, hcl, hlines⟩ := ih hks fun k hk => hP k (List.mem_cons_of_mem _ hk)
    obtain ⟨h', x', hr', hph', hcl', hlines'⟩ :=
      exists_run_lines hr i fun p hp => hcl ▸ hP i List.mem_cons_self p hp
    refine ⟨h', x', hr', hph'.trans hph, hcl'.trans hcl, fun k => ?_⟩
    rw [hlines' k, hlines k]
    by_cases hk : k = i
    · subst hk
      simp [hi]
    · simp [hk]

/-- The call finds enough events at the first `k` nodes. -/
lemma exists_run_checking (hr : Run (waiting n timeout since) h x) (hph : x.phase = .start)
    (ht : 0 < timeout) (hp : ∀ i ∈ Finset.Icc 1 n, Enough n since (lines i h)) (hk : k ≤ n) :
    ∃ h' x', Run (waiting n timeout since) h' x' ∧ x'.phase = .checking k ∧
      ∀ i, lines i h' = lines i h := by
  induction k with
  | zero =>
    have h1 : FullMesh.step n timeout since x .poll =
        some { x with deadline := x.clock + timeout, phase := .loop } := by
      simp only [FullMesh.step, poll, hph]
    have h2 : FullMesh.step n timeout since
        { x with deadline := x.clock + timeout, phase := .loop } .poll =
        some { x with deadline := x.clock + timeout, phase := .checking 0 } := by
      simp only [FullMesh.step, poll, lt_add_iff_pos_right, ht, if_true]
    exact ⟨_, _, (hr.step h1).step h2, rfl, fun i => by rw [lines_poll, lines_poll]⟩
  | succ k ih =>
    obtain ⟨h', x', hr', hph', hlines⟩ := ih (Nat.le_of_succ_le hk)
    have hpass : Passes n since x' (k + 1) := by
      rw [passes_iff hr', hlines]
      exact hp _ (Finset.mem_Icc.2 ⟨Nat.succ_pos k, hk⟩)
    have hst : FullMesh.step n timeout since x' .poll =
        some { x' with phase := .checking (k + 1) } := by
      have hkn : k ≠ n := by omega
      simp only [FullMesh.step, poll, hph', if_neg hkn]
      exact if_pos hpass
    exact ⟨_, _, hr'.step hst, rfl, fun i => by rw [lines_poll, hlines]⟩

/-- Lines with enough events for every node are printed in a run in which the call then returns
a timestamp. -/
lemma exists_run_full {P : ℕ → List (ℚ × Event)} (ht : 0 < timeout)
    (hP : ∀ i ∈ Finset.Icc 1 n, Enough n since (P i)) :
    ∃ h x y, Run (waiting n timeout since) h x ∧ x.phase = .full ∧
      step n timeout since x .poll = some y ∧
      ∀ i, lines i h = if i ∈ (Finset.Icc 1 n).toList then P i else [] := by
  obtain ⟨c, hc⟩ := (((Finset.Icc 1 n).toList.flatMap P).map Prod.fst).toFinset.exists_le
  have hle : ∀ k ∈ (Finset.Icc 1 n).toList, ∀ p ∈ P k, p.1 ≤ c := fun k hk p hp =>
    hc _ (List.mem_toFinset.2 (List.mem_map_of_mem (List.mem_flatMap_of_mem hk hp)))
  obtain ⟨h, x, hr, hph, -, hlines⟩ := exists_run_all P _ (Finset.nodup_toList _) hle
  have henough : ∀ i ∈ Finset.Icc 1 n, Enough n since (lines i h) := by
    intro i hi
    rw [hlines i, if_pos (Finset.mem_toList.2 hi)]
    exact hP i hi
  obtain ⟨h', x', hr', hph', hlines'⟩ := exists_run_checking hr hph ht henough (Nat.le_refl n)
  have hst : step n timeout since x' .poll = some { x' with phase := .full } := by
    simp only [step, poll, hph', if_true]
  exact ⟨_, _, _, hr'.step hst, rfl, rfl, fun i => by rw [lines_poll, hlines', hlines]⟩

/-- **A timestamp means that the nodes have synchronised exactly where the first events are
plain.** Let every node `i` print the lines `L i`, or the first of them, in whatever order among
the nodes and whenever the call checks them. In every run the nodes have synchronised where the
call returns a timestamp, if and only if it can return none or, of the first `n - 1` events of each
node that count, no two name the same peer and each names another node. -/
theorem reliable_iff (n : ℕ) (timeout since : ℚ) (L : ℕ → List (ℚ × Event)) :
    (∀ h x, Run (waiting n timeout since) h x → (∀ i, lines i h <+: L i) →
        Reliable n since h) ↔
      (0 < timeout → (∀ i ∈ Finset.Icc 1 n, Enough n since (L i)) →
        ∀ i ∈ Finset.Icc 1 n, Plain n since i (L i)) := by
  refine ⟨fun hall ht henough i hi => ?_, fun hp h x hr hL => reliable_of_plain hr hL hp⟩
  -- every node prints up to its `n - 1`st event, and the call returns
  choose! P hpre hlen using fun k (hk : k ∈ Finset.Icc 1 n) => (henough k hk).exists_front
  obtain ⟨h, x, y, hr, hfull, hst, hlines⟩ := exists_run_full ht fun k hk => (hlen k hk).ge
  have hi' : lines i h = P i := by rw [hlines i, if_pos (Finset.mem_toList.2 hi)]
  have hL : ∀ k, lines k (h ++ [(x, .poll)]) <+: L k := by
    intro k
    rw [lines_poll, hlines k]
    split_ifs with hk
    · exact hpre k (Finset.mem_toList.1 hk)
    · exact List.nil_prefix
  have hsynced : Synced n since x := hall _ y (hr.step hst) hL (x, .poll) (by simp) hfull rfl
  have hcovers := (synced_iff hr).1 hsynced i hi
  rw [hi'] at hcovers
  exact (plain_front (hlen i hi).ge (hpre i hi)).2 (plain_of_covers hi (hlen i hi) hcovers)

def snapshotFrom (j : ℕ) : Event :=
  { event := some "lifecycle", name := some "snapshot_received", peerNodeId := some j }

/-- Node 1 reconnects to node 2, which counts for node 3. -/
theorem reconnect_counts :
    ∃ h x, Run (waiting 3 10 0) h x ∧ x.phase = .returned (some 1) ∧ ¬Reliable 3 0 h := by
  obtain ⟨h, x, hr, hp⟩ := exists_run_of_replay
    (i := fun x : State => x.phase = .start ∧ ∀ i, x.events i = []) (f := step 3 10 0)
    (s := { clock := 1 })
    ([.line 1 1 (snapshotFrom 2), .line 1 1 (snapshotFrom 2), .line 2 1 (snapshotFrom 1),
      .line 2 1 (snapshotFrom 3), .line 3 1 (snapshotFrom 1), .line 3 1 (snapshotFrom 2)] ++
        List.replicate 7 .poll) ⟨rfl, fun _ => rfl⟩
    (fun h x => x.phase = .returned (some 1) ∧ ∃ p ∈ h, p.1.phase = .full ∧ p.2 = .poll ∧
      ∀ e ∈ p.1.events 1, e.peerNodeId ≠ some 3) (by decide +kernel)
  obtain ⟨hret, p, hp, hfull, hpoll, hno⟩ := hp
  refine ⟨h, x, hr, hret, fun hs => ?_⟩
  obtain ⟨e, he, -, hpeer⟩ := hs p hp hfull hpoll 1 (by decide) 3 (by decide)
  exact hno e he hpeer

end DaimDistributed.FullMesh
