import DaimDistributed.HostInv
import DaimDistributed.Transitions

/-!
The runs of one node: an initialisation, then any sequence of the public operations of
`daim_distributed_state.h`.
-/

namespace DaimDistributed.NodeRun

open HostState HostTable HostInv Transitions

/-- A call of the public interface. -/
inductive Op
  | learnLocal (mac : Option Mac) (dpid : UInt64) (port : UInt32) (now : UInt64)
  | applyRemote (update : Option HostLocation) (now : UInt64)
  | importSnapshotEntry (entry : Option HostLocation) (now : UInt64)
  | lookup (mac : Option Mac)
  | exportSnapshot
  | reset
  deriving DecidableEq

/-- What a call returns. -/
inductive Ret
  | sequence (q : UInt64)
  | applied (res : ApplyResult)
  | found (r : Option HostLocation)
  | emitted (rs : Option (List HostLocation))
  | unit
  deriving DecidableEq

def exec (s : State) : Op → State × Ret
  | .learnLocal mac dpid port now =>
    ((daimHostLearnLocal s mac dpid port now).1,
      .sequence (daimHostLearnLocal s mac dpid port now).2)
  | .applyRemote u now =>
    ((daimHostApplyRemote s u now).1, .applied (daimHostApplyRemote s u now).2)
  | .importSnapshotEntry u now =>
    ((daimHostImportSnapshotEntry s u now).1, .applied (daimHostImportSnapshotEntry s u now).2)
  | .lookup mac => (s, .found (daimHostLookup s mac))
  | .exportSnapshot => (s, .emitted (daimHostExportSnapshot s))
  | .reset => (daimHostStateReset s, .unit)

/-- A node from `daim_host_state_init` on. -/
def node (nodeId ownerEpoch : UInt64) : Lts State Op :=
  ofFun (fun s => ∃ s0, s = daimHostStateInit s0 nodeId ownerEpoch)
    fun s op => some (exec s op).1

/-- The update a call hands to `apply_locked`, if it is one. -/
def Op.update : Op → Option HostLocation
  | .applyRemote u _ => u
  | .importSnapshotEntry u _ => u
  | _ => none

/-! ### What one call does -/

/-- The calls by what they do to an initialised node: nothing to the table, an update, a
learn, or a reset. -/
inductive Effect (s : State) (op : Op) : State → Prop
  | same (st : Stats) (hu : op.update = none) (hst : s.stats.appliedConflict ≤ st.appliedConflict)
      (hl : ∀ m d po n, op ≠ .learnLocal (some m) d po n) :
      Effect s op { s with stats := st }
  | update (u : HostLocation) (now : UInt64) (p : State × ApplyResult) (hu : op.update = some u)
      (hr : (exec s op).2 = .applied p.2) (ha : Applies s u now p) : Effect s op p.1
  | learn (m : Mac) (d : UInt64) (po : UInt32) (n : UInt64) (p : State × UInt64)
      (ho : op = .learnLocal (some m) d po n) (hr : (exec s op).2 = .sequence p.2)
      (hl : Learns s m d po n p) : Effect s op p.1
  | reset (ho : op = .reset) : Effect s op (daimHostStateReset s)

variable {s t : State} {op : Op} {i e : UInt64} {h : List (State × Op)}

lemma exec_effect (hs : s.ready = true) (op : Op) : Effect s op (exec s op).1 := by
  cases op with
  | learnLocal mac d po n =>
    cases mac with
    | none => exact .same s.stats rfl le_rfl (by simp)
    | some m => exact .learn m d po n _ rfl rfl (daimHostLearnLocal_learns hs m d po n)
  | applyRemote u now =>
    have hex : daimHostApplyRemote s u now = applyLocked s u now := by
      simp [daimHostApplyRemote, hs]
    simp only [exec, hex]
    cases u with
    | none => exact .same (s.stats.count .invalid) rfl le_rfl (by simp)
    | some u =>
      exact .update u now _ rfl (by simp [exec, hex]) (applyLocked_applies s u now)
  | importSnapshotEntry u now =>
    have hex : daimHostImportSnapshotEntry s u now = applyLocked s u now := by
      simp [daimHostImportSnapshotEntry, hs]
    simp only [exec, hex]
    cases u with
    | none => exact .same (s.stats.count .invalid) rfl le_rfl (by simp)
    | some u =>
      exact .update u now _ rfl (by simp [exec, hex]) (applyLocked_applies s u now)
  | lookup mac => exact .same s.stats rfl le_rfl (by simp)
  | exportSnapshot => exact .same s.stats rfl le_rfl (by simp)
  | reset => exact .reset rfl

/-! ### What every run keeps -/

/-- The identity of the node and the shape of its table. -/
structure NodeInv (i e : UInt64) (s : State) : Prop where
  ready : s.ready = true
  nodeId : s.nodeId = i
  ownerEpoch : s.ownerEpoch = e
  table : TableInv i s.table

lemma nodeInv_init (s0 : State) (i e : UInt64) : NodeInv i e (daimHostStateInit s0 i e) :=
  ⟨rfl, rfl, rfl, tableInv_nil i⟩

lemma NodeInv.exec (hi : NodeInv i e s) (op : Op) : NodeInv i e (exec s op).1 := by
  obtain ⟨hr, hn, he, ht⟩ := hi
  subst hn he
  have heff := exec_effect hr op
  generalize (NodeRun.exec s op).1 = t at heff ⊢
  cases heff with
  | same st hu hst hl => exact ⟨hr, rfl, rfl, ht⟩
  | update u now p hu hres ha =>
    have hf := ha.frame
    exact ⟨ha.ready.trans hr, ha.nodeId, by rw [hf], tableInv_applies ha ht⟩
  | learn m d po n p ho hres hl =>
    have ht' := tableInv_learns hl ht
    cases hl with
    | full hf hl => exact ⟨hr, rfl, rfl, ht'⟩
    | learned hl => exact ⟨hr, rfl, rfl, ht'⟩
  | reset ho =>
    rw [daimHostStateReset, if_neg (by simp [hr])]
    exact ⟨hr, rfl, rfl, tableInv_nil _⟩

/-- **Every state of a run is well formed.** -/
theorem run_inv (hr : Run (node i e) h s) : NodeInv i e s := by
  refine hr.inv (NodeInv i e) ?_ ?_
  · rintro _ ⟨s0, rfl⟩
    exact nodeInv_init s0 i e
  · rintro s op _ hi ⟨⟩
    exact hi.exec op

/-! ### Running a list of calls -/

/-- The calls of a list, each with the state it is made in. -/
def history (s : State) : List Op → List (State × Op)
  | [] => []
  | op :: ops => (s, op) :: history (exec s op).1 ops

def execAll (s : State) (ops : List Op) : State := ops.foldl (fun s op => (exec s op).1) s

lemma run_append_history (hr : Run (node i e) h s) (ops : List Op) :
    Run (node i e) (h ++ history s ops) (execAll s ops) := by
  induction ops generalizing h s with
  | nil => simpa [history, execAll] using hr
  | cons op ops ih =>
    have h1 := ih (hr.step (a := op) rfl)
    rwa [List.append_assoc] at h1

/-- Every list of calls is a run of a fresh node. -/
lemma run_history (i e : UInt64) (ops : List Op) :
    Run (node i e) (history (daimHostStateInit {} i e) ops)
      (execAll (daimHostStateInit {} i e) ops) :=
  run_append_history (.init ⟨{}, rfl⟩) ops

end DaimDistributed.NodeRun
