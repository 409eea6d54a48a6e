import DaimDistributed.LearningApp

/-!
Rejected updates leave no trace but a counter.

A node is run twice: once as it happened, and once without the updates it rejected, at other
times of the clock. Erasing the clock and the counters from a state commutes with every
call, and a rejected update changes nothing else, so the two runs stay equal up to what is
erased.
-/

namespace DaimDistributed.Rejection

open HostState HostTable DaimDistributed.Core LearningApp

/-- A call of the host table, or a packet handed to the learning application. -/
inductive Call
  | host (op : NodeRun.Op)
  | packetIn (bridge : Option (List UInt8)) (info : Option NoRulePacketInfo) (env : Env)
  deriving DecidableEq

inductive Result
  | host (r : NodeRun.Ret)
  | packetIn (port : UInt16) (effects : List Effect)
  deriving DecidableEq

/-- The learning application and the host table behind it. -/
structure Node where
  app : AppState
  host : State
  deriving DecidableEq

variable (c : CoreState)

def exec (n : Node) : Call → Node × Result
  | .host op => (⟨n.app, (NodeRun.exec n.host op).1⟩, .host (NodeRun.exec n.host op).2)
  | .packetIn bridge info env =>
    let r := daimDistributedLearningAppPacketIn c n.app n.host bridge info env
    (⟨r.2.1, r.2.2.1⟩, .packetIn r.1 r.2.2.2)

/-- The results of a run, each with its call. -/
def trace (n : Node) : List Call → List (Call × Result)
  | [] => []
  | k :: ks => (k, (exec c n k).2) :: trace (exec c n k).1 ks

def execAll (n : Node) (ks : List Call) : Node := ks.foldl (fun n k => (exec c n k).1) n

/-- The results with which an update is rejected. -/
def rejected : ApplyResult → Bool
  | .duplicate | .staleRejected | .ownershipConflict | .invalid => true
  | .new | .updated => false

/-- The rejection a call returned, if it did. -/
def Result.rejection : Result → Option ApplyResult
  | .host (.applied res) => if rejected res then some res else none
  | _ => none

/-- What is left of a run without the calls that returned a rejection. -/
def remaining (n : Node) (ks : List Call) : List (Call × Result) :=
  (trace c n ks).filter fun p => p.2.rejection.isNone

/-- The counter of a result. -/
def statOf (st : Stats) : ApplyResult → ℕ
  | .new => st.appliedNew
  | .updated => st.appliedUpdated
  | .duplicate => st.appliedDuplicate
  | .staleRejected => st.appliedStaleRejected
  | .ownershipConflict => st.appliedConflict
  | .invalid => st.appliedInvalid

def Call.isUpdate : Call → Bool
  | .host (.applyRemote _ _) | .host (.importSnapshotEntry _ _) => true
  | _ => false

/-! ### Erasing the clock and the counters -/

/-- A record without its times. -/
def sansTimes (r : HostLocation) : HostLocation := { r with learnedAtNs := 0, appliedAtNs := 0 }

/-- A host table without its times and counters. -/
def eraseState (s : State) : State := { s with table := s.table.map sansTimes, stats := {} }

def Node.erase (n : Node) : Node := ⟨n.app, eraseState n.host⟩

def eraseEffect : Effect → Effect
  | .disseminate loc => .disseminate (sansTimes loc)
  | e => e

def Result.erase : Result → Result
  | .host (.found r) => .host (.found (r.map sansTimes))
  | .host (.emitted rs) => .host (.emitted (rs.map (List.map sansTimes)))
  | .host r => .host r
  | .packetIn port effects => .packetIn port (effects.map eraseEffect)

/-- A call with the clock at 0. -/
def Call.erase : Call → Call
  | .host (.learnLocal mac d po _) => .host (.learnLocal mac d po 0)
  | .host (.applyRemote u _) => .host (.applyRemote u 0)
  | .host (.importSnapshotEntry u _) => .host (.importSnapshotEntry u 0)
  | .host op => .host op
  | .packetIn bridge info env => .packetIn bridge info { env with now := 0 }

variable {c} {s : State} {a : AppState} {n n' : Node} {info : NoRulePacketInfo} {env : Env}

@[simp] lemma sansTimes_comp : sansTimes ∘ sansTimes = sansTimes := rfl

@[simp] lemma eraseState_eraseState (s : State) : eraseState (eraseState s) = eraseState s := by
  simp [eraseState]

@[simp] lemma eraseEffect_eraseEffect (e : Effect) :
    eraseEffect (eraseEffect e) = eraseEffect e := by
  cases e <;> rfl

lemma findIndex_map (t : List HostLocation) (m : Mac) :
    findIndex (t.map sansTimes) m = findIndex t m := by
  rw [findIndex, List.findIdx?_map]
  rfl

/-- A learn does not read what is erased. -/
lemma learnLocal_erase (mac : Option Mac) (d : UInt64) (po : UInt32) (now : UInt64) :
    daimHostLearnLocal (eraseState s) mac d po 0 =
      (eraseState (daimHostLearnLocal s mac d po now).1,
        (daimHostLearnLocal s mac d po now).2) := by
  rcases mac with _ | m
  · rfl
  unfold daimHostLearnLocal
  dsimp only
  have hi : findIndex (eraseState s).table m = findIndex s.table m := findIndex_map _ _
  have hr : (eraseState s).ready = s.ready := rfl
  have hlen : (eraseState s).table.length = s.table.length := List.length_map _
  rw [hi, hr, hlen]
  split
  · rfl
  · rcases findIndex s.table m with _ | j
    · dsimp only
      split
      · rfl
      · simp [eraseState, localRecord, sansTimes]
    · simp [eraseState, localRecord, sansTimes, List.map_set]

lemma lookup_erase (mac : Option Mac) :
    daimHostLookup (eraseState s) mac = (daimHostLookup s mac).map sansTimes := by
  rcases mac with _ | m
  · rfl
  unfold daimHostLookup
  have hi : findIndex (eraseState s).table m = findIndex s.table m := findIndex_map _ _
  have hr : (eraseState s).ready = s.ready := rfl
  dsimp only
  rw [hi, hr]
  split
  · rfl
  · rcases findIndex s.table m with _ | j
    · rfl
    · exact List.getElem?_map ..

/-- An update does not read what is erased either, and what it writes is the same up to it. -/
lemma applyLocked_erase (u : Option HostLocation) (now now' : UInt64) :
    (eraseState (applyLocked (eraseState s) u now').1, (applyLocked (eraseState s) u now').2) =
      (eraseState (applyLocked s u now).1, (applyLocked s u now).2) := by
  have hrej : ∀ res, (eraseState ((eraseState s).reject res).1, ((eraseState s).reject res).2) =
      (eraseState (s.reject res).1, (s.reject res).2) := by
    intro res
    simp [State.reject, eraseState]
  rcases u with _ | u
  · exact hrej _
  have hi : findIndex (eraseState s).table u.mac = findIndex s.table u.mac := findIndex_map _ _
  have hlen : (eraseState s).table.length = s.table.length := List.length_map _
  have hn : (eraseState s).nodeId = s.nodeId := rfl
  simp only [applyLocked, hi, hlen, hn]
  split
  · exact hrej _
  split
  · exact hrej _
  rcases findIndex s.table u.mac with _ | j
  · dsimp only
    split
    · exact hrej _
    · simp [eraseState, State.accept, newRemote, sansTimes]
  have hg : (eraseState s).table[j]? = (s.table[j]?).map sansTimes := List.getElem?_map ..
  dsimp only
  rw [hg]
  rcases s.table[j]? with _ | r
  · exact hrej _
  dsimp only [Option.map_some]
  have ho : (sansTimes r).originNodeId = r.originNodeId := rfl
  have he : (sansTimes r).ownerEpoch = r.ownerEpoch := rfl
  have hq : (sansTimes r).sequence = r.sequence := rfl
  rw [ho, he, hq]
  split
  · exact hrej _
  split
  · exact hrej _
  have hnewer : isNewer (sansTimes r) u = isNewer r u := rfl
  by_cases hnew : isNewer r u = false
  · rw [if_pos (hnewer.trans hnew), if_pos hnew]
    exact hrej _
  · rw [if_neg (hnewer ▸ hnew), if_neg hnew]
    simp only [State.accept, updatedRecord, eraseState, List.map_set, List.map_map, sansTimes_comp]
    rfl

/-! ### The application -/

lemma learnSource_erase (now : UInt64) :
    learnSource a (eraseState s) info 0 =
      ((learnSource a s info now).1, eraseState (learnSource a s info now).2.1,
        (learnSource a s info now).2.2) := by
  unfold learnSource
  dsimp only
  rw [learnLocal_erase _ _ _ now]
  split_ifs <;> rfl

lemma announce_erase (learned : Bool) :
    announce a (eraseState s) info learned =
      ((announce a s info learned).1, (announce a s info learned).2.map eraseEffect) := by
  unfold announce
  rw [lookup_erase]
  split
  · rfl
  · rcases daimHostLookup s (some info.macSrc) with _ | loc
    · rfl
    · dsimp only [Option.map_some]
      split <;> rfl

/-- No decision reads a time. -/
lemma outPort_erase (m : Mac) : outPort a (eraseState s) m = outPort a s m := by
  unfold outPort
  rw [lookup_erase]
  rcases daimHostLookup s (some m) with _ | r <;> rfl

lemma forward_erase : forward a (eraseState s) info { env with now := 0 } =
    ((forward a s info env).1, (forward a s info env).2.map eraseEffect) := by
  unfold forward installFlow
  rw [outPort_erase]
  dsimp only
  split_ifs <;> rfl

lemma handle_erase : handle c a (eraseState s) info { env with now := 0 } =
    ((handle c a s info env).1, eraseState (handle c a s info env).2.1,
      (handle c a s info env).2.2.map eraseEffect) := by
  unfold handle
  split
  · unfold onNoRule
    dsimp only
    rw [learnSource_erase env.now]
    dsimp only
    rw [announce_erase, forward_erase]
    simp
  · rfl

/-! ### One call -/

/-- **Erasing commutes with every call.** -/
theorem exec_erase (k : Call) :
    ((exec c n.erase k.erase).1.erase, (exec c n.erase k.erase).2.erase) =
      ((exec c n k).1.erase, (exec c n k).2.erase) := by
  have happ : ∀ (s : State) u now, (eraseState (daimHostApplyRemote (eraseState s) u 0).1,
      (daimHostApplyRemote (eraseState s) u 0).2) =
        (eraseState (daimHostApplyRemote s u now).1, (daimHostApplyRemote s u now).2) := by
    intro s u now
    unfold daimHostApplyRemote
    have hr : (eraseState s).ready = s.ready := rfl
    rw [hr]
    split
    · rw [eraseState_eraseState]
    · exact applyLocked_erase u now 0
  cases k with
  | host op =>
    cases op with
    | learnLocal mac d po now =>
      simp [exec, Call.erase, Node.erase, NodeRun.exec, learnLocal_erase mac d po now,
        Result.erase]
    | applyRemote u now =>
      have h1 := Prod.mk.inj (happ n.host u now)
      simp [exec, Call.erase, Node.erase, NodeRun.exec, Result.erase, h1.1, h1.2]
    | importSnapshotEntry u now =>
      have h1 := Prod.mk.inj (happ n.host u now)
      have hi : ∀ s u t, daimHostImportSnapshotEntry s u t = daimHostApplyRemote s u t :=
        fun _ _ _ => rfl
      simp [exec, Call.erase, Node.erase, NodeRun.exec, Result.erase, hi, h1.1, h1.2]
    | lookup mac =>
      simp [exec, Call.erase, Node.erase, NodeRun.exec, Result.erase, lookup_erase]
    | exportSnapshot =>
      have he : daimHostExportSnapshot (eraseState n.host) =
          (daimHostExportSnapshot n.host).map (List.map sansTimes) := by
        unfold daimHostExportSnapshot
        have hr : (eraseState n.host).ready = n.host.ready := rfl
        rw [hr]
        split <;> rfl
      simp [exec, Call.erase, Node.erase, NodeRun.exec, Result.erase, he]
    | reset =>
      have he : eraseState (daimHostStateReset (eraseState n.host)) =
          eraseState (daimHostStateReset n.host) := by
        unfold daimHostStateReset
        have hr : (eraseState n.host).ready = n.host.ready := rfl
        rw [hr]
        split
        · exact eraseState_eraseState _
        · rfl
      simp [exec, Call.erase, Node.erase, NodeRun.exec, Result.erase, he]
  | packetIn bridge info env =>
    rcases bridge with _ | bridge <;> rcases info with _ | info
    · simp [exec, Call.erase, Node.erase, Result.erase, daimDistributedLearningAppPacketIn]
    · simp [exec, Call.erase, Node.erase, Result.erase, daimDistributedLearningAppPacketIn]
    · simp [exec, Call.erase, Node.erase, Result.erase, daimDistributedLearningAppPacketIn]
    · by_cases ha : n.app.ready = false
      · simp [exec, Call.erase, Node.erase, Result.erase, daimDistributedLearningAppPacketIn, ha]
      · simp [exec, Call.erase, Node.erase, Result.erase, daimDistributedLearningAppPacketIn, ha,
          handle_erase]

lemma exec_congr {k k' : Call} (hn : n.erase = n'.erase) (hk : k.erase = k'.erase) :
    (exec c n k).1.erase = (exec c n' k').1.erase ∧
      (exec c n k).2.erase = (exec c n' k').2.erase := by
  have h1 := Prod.mk.inj (exec_erase (c := c) (n := n) k)
  have h2 := Prod.mk.inj (exec_erase (c := c) (n := n') k')
  rw [hn, hk] at h1
  exact ⟨h1.1.symm.trans h2.1, h1.2.symm.trans h2.2⟩

/-! ### Updates -/

/-- What `apply_locked` counts, and what it leaves when it rejects. -/
lemma applyLocked_counts (u : Option HostLocation) (now : UInt64) :
    (∀ res, statOf (applyLocked s u now).1.stats res =
        statOf s.stats res + if res = (applyLocked s u now).2 then 1 else 0) ∧
      (applyLocked s u now).1.ready = s.ready ∧
      (rejected (applyLocked s u now).2 = true →
        eraseState (applyLocked s u now).1 = eraseState s) := by
  have hcount : ∀ res res', statOf (s.stats.count res) res' =
      statOf s.stats res' + if res' = res then 1 else 0 := by
    intro res res'
    cases res <;> cases res' <;> rfl
  rcases u with _ | u
  · exact ⟨hcount .invalid, rfl, fun _ => rfl⟩
  have ha := applyLocked_applies s u now
  generalize applyLocked s (some u) now = p at ha ⊢
  cases ha with
  | new => exact ⟨hcount .new, rfl, fun h => by simp [State.accept, rejected] at h⟩
  | updated => exact ⟨hcount .updated, rfl, fun h => by simp [State.accept, rejected] at h⟩
  | _ => exact ⟨hcount _, rfl, fun _ => rfl⟩

/-- **An update counts one result, and a rejected one leaves nothing else.** -/
theorem update_counts {k : Call} (hr : n.host.ready = true) (hk : k.isUpdate = true) :
    ∃ res, (exec c n k).2 = .host (.applied res) ∧
      (∀ res', statOf (exec c n k).1.host.stats res' =
        statOf n.host.stats res' + if res' = res then 1 else 0) ∧
      (exec c n k).1.host.ready = true ∧
      (rejected res = true → (exec c n k).1.erase = n.erase) := by
  have happ : ∀ u now, daimHostApplyRemote n.host u now = applyLocked n.host u now ∧
      daimHostImportSnapshotEntry n.host u now = applyLocked n.host u now := by
    intro u now
    simp [daimHostApplyRemote, daimHostImportSnapshotEntry, hr]
  have hmain : ∀ u now, k = .host (.applyRemote u now) ∨ k = .host (.importSnapshotEntry u now) →
      exec c n k = (⟨n.app, (applyLocked n.host u now).1⟩,
        .host (.applied (applyLocked n.host u now).2)) := by
    rintro u now (rfl | rfl)
    · simp [exec, NodeRun.exec, (happ u now).1]
    · simp [exec, NodeRun.exec, (happ u now).2]
  obtain ⟨u, now, hu⟩ : ∃ u now,
      k = .host (.applyRemote u now) ∨ k = .host (.importSnapshotEntry u now) := by
    cases k with
    | packetIn => simp [Call.isUpdate] at hk
    | host op =>
      cases op with
      | applyRemote u now => exact ⟨u, now, .inl rfl⟩
      | importSnapshotEntry u now => exact ⟨u, now, .inr rfl⟩
      | _ => simp [Call.isUpdate] at hk
  obtain ⟨hc, hready, hrej⟩ := applyLocked_counts (s := n.host) u now
  rw [hmain u now hu]
  refine ⟨_, rfl, hc, hready.trans hr, fun h => ?_⟩
  simp only [Node.erase, hrej h]

lemma learnLocal_stats (mac : Option Mac) (d : UInt64) (po : UInt32) (now : UInt64) :
    (daimHostLearnLocal s mac d po now).1.stats = s.stats ∧
      (daimHostLearnLocal s mac d po now).1.ready = s.ready := by
  rcases mac with _ | m
  · exact ⟨rfl, rfl⟩
  unfold daimHostLearnLocal
  dsimp only
  split
  · exact ⟨rfl, rfl⟩
  · split
    · exact ⟨rfl, rfl⟩
    · split <;> exact ⟨rfl, rfl⟩

/-- Any other call but a reset counts nothing. -/
lemma other_counts {k : Call} (hk : k.isUpdate = false) (hreset : k ≠ .host .reset) :
    (exec c n k).1.host.stats = n.host.stats ∧ (exec c n k).1.host.ready = n.host.ready ∧
      ∀ res, (exec c n k).2 ≠ .host (.applied res) := by
  cases k with
  | host op =>
    cases op with
    | learnLocal mac d po now =>
      obtain ⟨h1, h2⟩ := learnLocal_stats (s := n.host) mac d po now
      exact ⟨h1, h2, by simp [exec, NodeRun.exec]⟩
    | applyRemote => simp [Call.isUpdate] at hk
    | importSnapshotEntry => simp [Call.isUpdate] at hk
    | reset => exact absurd rfl hreset
    | lookup => exact ⟨rfl, rfl, by simp [exec, NodeRun.exec]⟩
    | exportSnapshot => exact ⟨rfl, rfl, by simp [exec, NodeRun.exec]⟩
  | packetIn bridge info env =>
    refine ⟨?_, ?_, by simp [exec]⟩
    all_goals
      rcases bridge with _ | bridge <;> rcases info with _ | info <;> try rfl
      by_cases ha : n.app.ready = false
      · simp [exec, daimDistributedLearningAppPacketIn, ha]
      · rcases packetIn_state (by simpa using ha) c n.host info env bridge with h | h
        all_goals
          simp only [exec, h]
        all_goals first
          | rfl
          | exact (learnLocal_stats _ _ _ _).1
          | exact (learnLocal_stats _ _ _ _).2

/-! ### Two runs -/

variable {ks ks' : List Call} {k : Call}

lemma exec_counts (hr : n.host.ready = true) (hreset : k ≠ .host .reset) :
    (exec c n k).1.host.ready = true ∧ ∀ res, statOf (exec c n k).1.host.stats res =
      statOf n.host.stats res + if (exec c n k).2 = .host (.applied res) then 1 else 0 := by
  by_cases hk : k.isUpdate = true
  · obtain ⟨res, hres, hc, hready, -⟩ := update_counts (c := c) hr hk
    refine ⟨hready, fun res' => ?_⟩
    rw [hc, hres]
    by_cases he : res' = res
    · simp [he]
    · simp [he, Ne.symm he]
  · obtain ⟨hst, hready, hno⟩ := other_counts (c := c) (n := n) (by simpa using hk) hreset
    exact ⟨hready.trans hr, fun res => by rw [hst, if_neg (hno res), Nat.add_zero]⟩

/-- The counters count the results. -/
lemma execAll_counts (hr : n.host.ready = true) (hks : ∀ k ∈ ks, k ≠ .host .reset)
    (res : ApplyResult) : statOf (execAll c n ks).host.stats res = statOf n.host.stats res +
      (trace c n ks).countP fun p => decide (p.2 = .host (.applied res)) := by
  induction ks generalizing n with
  | nil => rfl
  | cons k ks ih =>
    obtain ⟨hready, hc⟩ := exec_counts (c := c) hr (hks k (by simp))
    have h1 := ih hready fun k hk => hks k (by simp [hk])
    have h2 : execAll c n (k :: ks) = execAll c (exec c n k).1 ks := rfl
    rw [h2, h1, hc, trace, List.countP_cons]
    simp only [decide_eq_true_eq]
    omega

/-- A call that returned a rejection was an update, and changed nothing but a counter. -/
lemma rejection_erase (hr : n.host.ready = true) (hreset : k ≠ .host .reset)
    (hk : (exec c n k).2.rejection ≠ none) : (exec c n k).1.erase = n.erase := by
  by_cases hu : k.isUpdate = true
  · obtain ⟨res, hres, -, -, hrej⟩ := update_counts (c := c) hr hu
    refine hrej ?_
    by_contra hc
    simp [hres, Result.rejection, hc] at hk
  · obtain ⟨-, -, hno⟩ := other_counts (c := c) (n := n) (by simpa using hu) hreset
    generalize (exec c n k).2 = r at hk hno
    rcases r with (_ | res | _ | _ | _) | _
    · simp [Result.rejection] at hk
    · exact absurd rfl (hno res)
    all_goals simp [Result.rejection] at hk

lemma remaining_cons (n : Node) (k : Call) (ks : List Call) : remaining c n (k :: ks) =
    if (exec c n k).2.rejection.isNone then (k, (exec c n k).2) :: remaining c (exec c n k).1 ks
    else remaining c (exec c n k).1 ks := by
  rw [remaining, trace, List.filter_cons]
  rfl

/-- **The two runs return the same and end in the same state**, up to the clock and the
counters. -/
lemma runs_agree (hr : n.host.ready = true) (hks : ∀ k ∈ ks, k ≠ .host .reset)
    (hn : n'.erase = n.erase)
    (hks' : ks'.map Call.erase = (remaining c n ks).map fun p => p.1.erase) :
    (trace c n' ks').map (fun p => p.2.erase) = (remaining c n ks).map (fun p => p.2.erase) ∧
      (execAll c n' ks').erase = (execAll c n ks).erase := by
  induction ks generalizing n n' ks' with
  | nil =>
    obtain rfl : ks' = [] := by simpa [remaining, trace] using hks'
    exact ⟨rfl, hn⟩
  | cons k ks ih =>
    have hk := hks k (by simp)
    have hks1 : ∀ k ∈ ks, k ≠ .host .reset := fun k hk => hks k (by simp [hk])
    have hready := (exec_counts (c := c) hr hk).1
    rw [remaining_cons] at hks' ⊢
    by_cases hrej : (exec c n k).2.rejection = none
    · rw [hrej] at hks' ⊢
      rcases ks' with _ | ⟨k', ks'⟩
      · simp at hks'
      simp only [Option.isNone_none, if_true, List.map_cons, List.cons.injEq] at hks' ⊢
      obtain ⟨hk', hks'⟩ := hks'
      obtain ⟨hst, hres⟩ := exec_congr (c := c) hn hk'
      obtain ⟨h1, h2⟩ := ih hready hks1 hst hks'
      refine ⟨?_, h2⟩
      rw [trace, List.map_cons, hres, h1]
    · have he := rejection_erase hr hk hrej
      rw [if_neg (by simpa using hrej)] at hks' ⊢
      exact ih hready hks1 (hn.trans he.symm) hks'

lemma erase_eq_applied {r : Result} {res : ApplyResult} :
    r.erase = .host (.applied res) ↔ r = .host (.applied res) := by
  rcases r with (_ | _ | _ | _ | _) | _ <;> simp [Result.erase]

/-- The results of one kind are those that remain and those that were rejections. -/
lemma countP_remaining (l : List (Call × Result)) (res : ApplyResult) :
    l.countP (fun p => decide (p.2 = .host (.applied res))) =
      (l.filter fun p => p.2.rejection.isNone).countP
          (fun p => decide (p.2 = .host (.applied res))) +
        l.countP fun p => decide (p.2.rejection = some res) := by
  have hsplit : ∀ r : Result, r = .host (.applied res) →
      r.rejection = none ∨ r.rejection = some res := by
    rintro _ rfl
    cases res <;> simp [Result.rejection, rejected]
  have hback : ∀ r : Result, r.rejection = some res → r = .host (.applied res) := by
    intro r hr
    rcases r with (_ | x | _ | _ | _) | _
    · simp [Result.rejection] at hr
    · simp only [Result.rejection] at hr
      split_ifs at hr
      rw [Option.some.inj hr]
    all_goals simp [Result.rejection] at hr
  induction l with
  | nil => rfl
  | cons p l ih =>
    simp only [List.countP_cons, List.filter_cons, decide_eq_true_eq]
    rw [ih]
    by_cases hp : p.2 = .host (.applied res)
    · rcases hsplit p.2 hp with h0 | h0
      · simp [hp ▸ h0, hp]
        omega
      · simp [hp ▸ h0, hp]
        omega
    · have hne : p.2.rejection ≠ some res := fun h => hp (hback _ h)
      by_cases h0 : p.2.rejection = none
      · simp [hp, h0]
      · simp [hp, hne, h0]

lemma trace_mem {p : Call × Result} (hp : p ∈ trace c n ks) : p.1 ∈ ks := by
  induction ks generalizing n with
  | nil => simp [trace] at hp
  | cons k ks ih =>
    rcases List.mem_cons.mp hp with rfl | hp
    · exact List.mem_cons_self
    · exact List.mem_cons_of_mem _ (ih hp)

lemma erase_eq_reset {k : Call} (h : k.erase = .host .reset) : k = .host .reset := by
  rcases k with (_ | _ | _ | _ | _ | _) | _ <;> simp_all [Call.erase]

/-- The calls that remain contain no reset either, whatever their times. -/
lemma remaining_noReset (hks : ∀ k ∈ ks, k ≠ .host .reset)
    (hks' : ks'.map Call.erase = (remaining c n ks).map fun p => p.1.erase) :
    ∀ k ∈ ks', k ≠ .host .reset := by
  rintro k hk rfl
  have hmem : Call.erase (.host .reset) ∈ (remaining c n ks).map fun p => p.1.erase :=
    hks' ▸ List.mem_map_of_mem hk
  obtain ⟨p, hp, he⟩ := List.mem_map.mp hmem
  exact hks p.1 (trace_mem (List.mem_of_mem_filter hp)) (erase_eq_reset he)

/-- **Rejected updates are invisible.** Without the calls that were rejected, and at any other
times, every other call returns the same, packets are forwarded alike, and the node ends with
the same table; the counters differ by the rejections. And every update counts exactly its
result. -/
theorem rejected_invisible (hr : n.host.ready = true) (hks : ∀ k ∈ ks, k ≠ .host .reset)
    (hks' : ks'.map Call.erase = (remaining c n ks).map fun p => p.1.erase) :
    (trace c n ks').map (fun p => p.2.erase) = (remaining c n ks).map (fun p => p.2.erase) ∧
      (execAll c n ks').erase = (execAll c n ks).erase ∧
      (∀ res, statOf (execAll c n ks).host.stats res =
        statOf (execAll c n ks').host.stats res +
          (trace c n ks).countP fun p => decide (p.2.rejection = some res)) ∧
      ∀ m : Node, m.host.ready = true → ∀ k : Call, k.isUpdate = true →
        ∃ res, (exec c m k).2 = .host (.applied res) ∧
          ∀ res', statOf (exec c m k).1.host.stats res' =
            statOf m.host.stats res' + if res' = res then 1 else 0 := by
  obtain ⟨h1, h2⟩ := runs_agree hr hks rfl hks'
  refine ⟨h1, h2, fun res => ?_, fun m hm k hk => ?_⟩
  · have hcount : (trace c n ks').countP (fun p => decide (p.2 = .host (.applied res))) =
        (remaining c n ks).countP fun p => decide (p.2 = .host (.applied res)) := by
      have h3 := congrArg (List.countP fun r => decide (r = Result.host (.applied res))) h1
      simpa only [List.countP_map, Function.comp_def, erase_eq_applied] using h3
    rw [execAll_counts hr hks, execAll_counts hr (remaining_noReset hks hks'), hcount,
      countP_remaining, remaining]
    omega
  · obtain ⟨res, hres, hc, -⟩ := update_counts (c := c) hm hk
    exact ⟨res, hres, hc⟩

def freshNode : Node := ⟨{}, daimHostStateInit {} 1 7⟩

/-- An update of node 4, at one time. -/
def updateAt (now : UInt64) : Call :=
  .host (.applyRemote (some ⟨macOf 2, 4, 4, 1, 3, 9, 1, 2, 2⟩) now)

/-- A second copy of an update, without which the node is the same. -/
theorem rejected_invisible_duplicate :
    (execAll {} freshNode [updateAt 8, .host (.lookup (some (macOf 2)))]).erase =
      (execAll {} freshNode [updateAt 5, updateAt 6, .host (.lookup (some (macOf 2)))]).erase :=
  (rejected_invisible rfl (by decide) (by decide)).2.1

end DaimDistributed.Rejection
