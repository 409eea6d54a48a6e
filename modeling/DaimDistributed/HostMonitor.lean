import DaimDistributed.Monitors
import DaimDistributed.NodeRun

/-!
`daim_distributed_state.c`, one access of its shared memory at a time.

The readers of all connections and the learning application call it at once. The mutex exists
from `daim_host_state_init` on. The array always has its `MAX_HOST_ENTRIES` records, those from
`count` on with whatever was left in them; a record is written field by field.
-/

namespace DaimDistributed.HostMonitor

open HostState HostTable Monitors Transitions

/-- `struct state` behind its mutex. -/
structure Mem where
  nodeId : UInt64
  ownerEpoch : UInt64
  nextLocalSequence : UInt64
  table : List HostLocation
  count : ℕ
  stats : Stats
  deriving DecidableEq

/-- `struct daim_host_state_stats`, all of it. -/
structure HostStateStats extends Stats where
  localCount : ℕ := 0
  remoteCount : ℕ := 0
  deriving DecidableEq

inductive Op
  | call (op : NodeRun.Op)
  | stats
  deriving DecidableEq

inductive Ret
  | call (r : NodeRun.Ret)
  | stats (st : HostStateStats)
  deriving DecidableEq

/-- `daim_host_state_stats`. -/
def daimHostStateStats (s : HostState.State) : HostStateStats :=
  if s.ready = false then {}
  else
    { toStats := s.stats
      localCount := s.table.countP fun r => r.isLocal ≠ 0
      remoteCount := s.table.countP fun r => r.isLocal = 0 }

/-- The interface, one call at a time. -/
def exec (s : HostState.State) : Op → HostState.State × Ret
  | .call op => ((NodeRun.exec s op).1, .call (NodeRun.exec s op).2)
  | .stats => (s, .stats (daimHostStateStats s))

inductive Field
  | mac | originNodeId | ownerDpid | ownerPort | ownerEpoch | sequence | isLocal | learnedAtNs
  | appliedAtNs
  deriving DecidableEq

/-- `dst.f = src.f`. -/
def assign (src dst : HostLocation) : Field → HostLocation
  | .mac => { dst with mac := src.mac }
  | .originNodeId => { dst with originNodeId := src.originNodeId }
  | .ownerDpid => { dst with ownerDpid := src.ownerDpid }
  | .ownerPort => { dst with ownerPort := src.ownerPort }
  | .ownerEpoch => { dst with ownerEpoch := src.ownerEpoch }
  | .sequence => { dst with sequence := src.sequence }
  | .isLocal => { dst with isLocal := src.isLocal }
  | .learnedAtNs => { dst with learnedAtNs := src.learnedAtNs }
  | .appliedAtNs => { dst with appliedAtNs := src.appliedAtNs }

/-- The assignments to a new record, in their order. -/
def allFields : List Field :=
  [.mac, .originNodeId, .ownerDpid, .ownerPort, .ownerEpoch, .sequence, .isLocal, .learnedAtNs,
    .appliedAtNs]

/-- The assignments to a known record. -/
def updateFields : List Field :=
  [.ownerDpid, .ownerPort, .ownerEpoch, .sequence, .learnedAtNs, .appliedAtNs]

/-- What `memset` leaves. -/
def zeroRecord : HostLocation := ⟨macOf 0, 0, 0, 0, 0, 0, 0, 0, 0⟩

/-- What comes after the assignments. -/
inductive After
  | sequence (q : UInt64)
  | count (res : ApplyResult)
  deriving DecidableEq

/-- The instruction a thread is at, with its locals. -/
inductive Pc
  | null
  -- `daim_host_learn_local`
  | takeSequence (mac : Mac) (dpid : UInt64) (port : UInt32) (now : UInt64)
  | findLocal (mac : Mac) (dpid : UInt64) (port : UInt32) (now q : UInt64) (j : ℕ)
  | addLocal (mac : Mac) (dpid : UInt64) (port : UInt32) (now q : UInt64)
  -- `apply_locked`
  | test (update : Option HostLocation) (now : UInt64)
  | findRemote (update : HostLocation) (now : UInt64) (j : ℕ)
  | addRemote (update : HostLocation) (now : UInt64)
  | compare (update : HostLocation) (now : UInt64) (idx : ℕ)
  -- a record is written
  | zero (idx : ℕ) (src : HostLocation) (k : After)
  | fields (idx : ℕ) (src : HostLocation) (fs : List Field) (k : After)
  | count (res : ApplyResult)
  -- the others
  | lookup (mac : Mac) (j : ℕ)
  | copy (n : ℕ) (acc : List HostLocation)
  | resetCount
  | resetSequence
  | resetStats
  | stats
  | statsLoop (st : HostStateStats) (j : ℕ)
  deriving DecidableEq

def check : Op → Option Ret
  | .call (.learnLocal none _ _ _) => some (.call (.sequence 0))
  | .call (.lookup none) => some (.call (.found none))
  | _ => none

def start : Op → Pc
  | .call (.learnLocal (some mac) dpid port now) => .takeSequence mac dpid port now
  | .call (.applyRemote update now) => .test update now
  | .call (.importSnapshotEntry entry now) => .test entry now
  | .call (.lookup (some mac)) => .lookup mac 0
  | .call .exportSnapshot => .copy 0 []
  | .call .reset => .resetCount
  | .stats => .stats
  | _ => .null

/-- The record `daim_host_learn_local` writes, once it has its sequence. -/
def Mem.localRecord (m : Mem) (mac : Mac) (dpid : UInt64) (port : UInt32) (now q : UInt64) :
    HostLocation :=
  ⟨mac, m.nodeId, dpid, port, m.ownerEpoch, q, 1, now, now⟩

def applied (res : ApplyResult) : Ret := .call (.applied res)

/-- One instruction. -/
def instr (m : Mem) (pc : Pc) : Micro Mem Pc Ret :=
  match pc with
  | .null => .fault
  | .takeSequence mac dpid port now =>
    .next { m with nextLocalSequence := m.nextLocalSequence + 1 }
      (.findLocal mac dpid port now m.nextLocalSequence 0)
  | .findLocal mac dpid port now q j =>
    if j < m.count then
      match m.table[j]? with
      | none => .fault
      | some r =>
        if r.mac = mac then .next m (.zero j (m.localRecord mac dpid port now q) (.sequence q))
        else .next m (.findLocal mac dpid port now q (j + 1))
    else .next m (.addLocal mac dpid port now q)
  | .addLocal mac dpid port now q =>
    if maxHostEntries ≤ m.count then .done m (.call (.sequence 0))
    else
      .next { m with count := m.count + 1 }
        (.zero m.count (m.localRecord mac dpid port now q) (.sequence q))
  | .test update now =>
    match update with
    | none => .next m (.count .invalid)
    | some u =>
      if u.originNodeId = 0 ∨ u.originNodeId = m.nodeId then .next m (.count .invalid)
      else .next m (.findRemote u now 0)
  | .findRemote u now j =>
    if j < m.count then
      match m.table[j]? with
      | none => .fault
      | some r =>
        if r.mac = u.mac then .next m (.compare u now j) else .next m (.findRemote u now (j + 1))
    else .next m (.addRemote u now)
  | .addRemote u now =>
    if maxHostEntries ≤ m.count then .next m (.count .invalid)
    else .next { m with count := m.count + 1 } (.zero m.count (newRemote u now) (.count .new))
  | .compare u now idx =>
    match m.table[idx]? with
    | none => .fault
    | some r =>
      if r.originNodeId ≠ u.originNodeId then .next m (.count .ownershipConflict)
      else if u.ownerEpoch = r.ownerEpoch ∧ u.sequence = r.sequence then
        .next m (.count .duplicate)
      else if isNewer r u = false then .next m (.count .staleRejected)
      else .next m (.fields idx (newRemote u now) updateFields (.count .updated))
  | .zero idx src k =>
    if idx < m.table.length then
      .next { m with table := m.table.set idx zeroRecord } (.fields idx src allFields k)
    else .fault
  | .fields idx src fs k =>
    match fs, k with
    | [], .sequence q => .done m (.call (.sequence q))
    | [], .count res => .next m (.count res)
    | f :: fs, k =>
      match m.table[idx]? with
      | none => .fault
      | some r => .next { m with table := m.table.set idx (assign src r f) } (.fields idx src fs k)
  | .count res => .done { m with stats := m.stats.count res } (applied res)
  | .lookup mac j =>
    if j < m.count then
      match m.table[j]? with
      | none => .fault
      | some r =>
        if r.mac = mac then .done m (.call (.found (some r))) else .next m (.lookup mac (j + 1))
    else .done m (.call (.found none))
  | .copy n acc =>
    if n < m.count then
      match m.table[n]? with
      | none => .fault
      | some r => .next m (.copy (n + 1) (acc ++ [r]))
    else .done m (.call (.emitted (some acc)))
  | .resetCount => .next { m with count := 0 } .resetSequence
  | .resetSequence => .next { m with nextLocalSequence := 1 } .resetStats
  | .resetStats => .done { m with stats := {} } (.call .unit)
  | .stats => .next m (.statsLoop { toStats := m.stats } 0)
  | .statsLoop st j =>
    if j < m.count then
      match m.table[j]? with
      | none => .fault
      | some r =>
        if r.isLocal ≠ 0 then
          .next m (.statsLoop { st with localCount := st.localCount + 1 } (j + 1))
        else .next m (.statsLoop { st with remoteCount := st.remoteCount + 1 } (j + 1))
    else .done m (.stats st)

/-- `daim_distributed_state.c` as an object under one mutex. -/
def host : Monitor Mem Pc Unit Op Ret where
  check _ := check
  start := start
  body _ m pc _ := some (instr m pc)

/-! ### What the memory stands for -/

def denote (m : Mem) : HostState.State where
  ready := true
  nodeId := m.nodeId
  ownerEpoch := m.ownerEpoch
  nextLocalSequence := m.nextLocalSequence
  table := m.table.take m.count
  stats := m.stats

structure Inv (m : Mem) : Prop where
  length : m.table.length = maxHostEntries
  count : m.count ≤ maxHostEntries

/-- What is left to do once a record is written. -/
def Ends (m : Mem) (op : Op) (m1 : Mem) : After → Prop
  | .sequence q => Inv m1 ∧ exec (denote m) op = (denote m1, .call (.sequence q))
  | .count res =>
    Inv m1 ∧ exec (denote m) op = (denote { m1 with stats := m1.stats.count res }, applied res)

/-- No record before `j` has the address. -/
def Passed (m : Mem) (mac : Mac) (j : ℕ) : Prop := ∀ r ∈ m.table.take j, r.mac ≠ mac

/-- The update a call hands to `apply_locked`. -/
def Updates (op : Op) (u : Option HostLocation) (now : UInt64) : Prop :=
  op = .call (.applyRemote u now) ∨ op = .call (.importSnapshotEntry u now)

/-- `apply_locked` has not refused the update before it looks for the record. -/
def Foreign (m : Mem) (u : HostLocation) : Prop := u.originNodeId ≠ 0 ∧ u.originNodeId ≠ m.nodeId

/-- The memory a body has made of `m`, at each of its instructions. -/
inductive At (m : Mem) : Op → Mem → Pc → Prop
  | takeSequence {mac : Mac} {d : UInt64} {p : UInt32} {now : UInt64} :
      At m (.call (.learnLocal (some mac) d p now)) m (.takeSequence mac d p now)
  | findLocal {mac : Mac} {d : UInt64} {p : UInt32} {now : UInt64} {j : ℕ} (hp : Passed m mac j)
      (hj : j ≤ m.count) :
      At m (.call (.learnLocal (some mac) d p now))
        { m with nextLocalSequence := m.nextLocalSequence + 1 }
        (.findLocal mac d p now m.nextLocalSequence j)
  | addLocal {mac : Mac} {d : UInt64} {p : UInt32} {now : UInt64} (hp : Passed m mac m.count) :
      At m (.call (.learnLocal (some mac) d p now))
        { m with nextLocalSequence := m.nextLocalSequence + 1 }
        (.addLocal mac d p now m.nextLocalSequence)
  | test {op : Op} {u : Option HostLocation} {now : UInt64} (ho : Updates op u now) :
      At m op m (.test u now)
  | findRemote {op : Op} {u : HostLocation} {now : UInt64} {j : ℕ} (ho : Updates op (some u) now)
      (hu : Foreign m u) (hp : Passed m u.mac j) (hj : j ≤ m.count) :
      At m op m (.findRemote u now j)
  | addRemote {op : Op} {u : HostLocation} {now : UInt64} (ho : Updates op (some u) now)
      (hu : Foreign m u) (hp : Passed m u.mac m.count) : At m op m (.addRemote u now)
  | compare {op : Op} {u r : HostLocation} {now : UInt64} {j : ℕ} (ho : Updates op (some u) now)
      (hu : Foreign m u) (hf : findIndex (denote m).table u.mac = some j)
      (hr : m.table[j]? = some r) (hj : j < m.count) : At m op m (.compare u now j)
  | zero {op : Op} {b : Mem} {j : ℕ} {src : HostLocation} {k : After} (hj : j < b.table.length)
      (he : Ends m op { b with table := b.table.set j src } k) : At m op b (.zero j src k)
  | fields {op : Op} {b : Mem} {j : ℕ} {src dst : HostLocation} {fs : List Field} {k : After}
      (hj : b.table[j]? = some dst)
      (he : Ends m op { b with table := b.table.set j (fs.foldl (assign src) dst) } k) :
      At m op b (.fields j src fs k)
  | count {op : Op} {b : Mem} {res : ApplyResult} (he : Ends m op b (.count res)) :
      At m op b (.count res)
  | lookup {mac : Mac} {j : ℕ} (hp : Passed m mac j) (hj : j ≤ m.count) :
      At m (.call (.lookup (some mac))) m (.lookup mac j)
  | copy {j : ℕ} (hj : j ≤ m.count) : At m (.call .exportSnapshot) m (.copy j (m.table.take j))
  | resetCount : At m (.call .reset) m .resetCount
  | resetSequence : At m (.call .reset) { m with count := 0 } .resetSequence
  | resetStats : At m (.call .reset) { m with count := 0, nextLocalSequence := 1 } .resetStats
  | stats : At m .stats m .stats
  | statsLoop {j : ℕ} (hj : j ≤ m.count) :
      At m .stats m
        (.statsLoop
          { toStats := m.stats
            localCount := (m.table.take j).countP fun r => r.isLocal ≠ 0
            remoteCount := (m.table.take j).countP fun r => r.isLocal = 0 } j)

/-! ### The bodies -/

variable {m m' b : Mem} {op : Op} {pc : Pc} {j : ℕ} {mac : Mac} {d now q : UInt64} {p : UInt32}
  {u r src dst : HostLocation} {k : After} {fs : List Field}

/-- What an instruction has to leave of a memory that `m` has become. -/
def Goes (m : Mem) (op : Op) (v : Micro Mem Pc Ret) : Prop :=
  v.Ok (At m op) fun m1 r => Inv m1 ∧ exec (denote m) op = (denote m1, r)

lemma Inv.getElem? (hi : Inv m) (hj : j < m.count) : ∃ r, m.table[j]? = some r := by
  have h1 := hi.length
  have h2 := hi.count
  exact ⟨_, List.getElem?_eq_getElem (by omega)⟩

lemma Passed.zero : Passed m mac 0 := by
  simp [Passed]

lemma Passed.next (hp : Passed m mac j) (hr : m.table[j]? = some r) (hne : r.mac ≠ mac) :
    Passed m mac (j + 1) := by
  intro x hx
  rw [List.take_add_one, hr, Option.toList_some, List.mem_append, List.mem_singleton] at hx
  rcases hx with hx | rfl
  · exact hp x hx
  · exact hne

/-- The loop of `find_index` has found the record. -/
lemma Passed.found (hp : Passed m mac j) (hj : j < m.count) (hr : m.table[j]? = some r)
    (he : r.mac = mac) : findIndex (denote m).table mac = some j := by
  obtain ⟨hlt, hg⟩ := List.getElem?_eq_some_iff.mp hr
  refine List.findIdx?_eq_some_iff_getElem.mpr ⟨?_, ?_, fun i hij => ?_⟩
  · exact (by simp only [denote, List.length_take]; omega)
  · simp [denote, hg, he]
  · have hm : m.table[i] ∈ m.table.take j := List.mem_take_iff_getElem.mpr ⟨i, by omega, rfl⟩
    simpa [denote] using hp _ hm

/-- The loop of `find_index` has come to the end. -/
lemma Passed.none (hp : Passed m mac m.count) : findIndex (denote m).table mac = none := by
  rw [findIndex, List.findIdx?_eq_none_iff]
  intro x hx
  simpa using hp x hx

lemma Inv.length_table (hi : Inv m) : (denote m).table.length = m.count := by
  have h1 := hi.length
  have h2 := hi.count
  simp only [denote, List.length_take]
  omega

lemma Inv.set (hi : Inv m) (j : ℕ) (r : HostLocation) :
    Inv { m with table := m.table.set j r } :=
  ⟨(List.length_set ..).trans hi.length, hi.count⟩

/-- A record over one in use. -/
lemma take_set : (m.table.set j r).take m.count = (denote m).table.set j r := by
  rw [List.take_set]
  rfl

/-- A record behind those in use. -/
lemma take_append (hi : Inv m) (hc : m.count < maxHostEntries) :
    (m.table.set m.count r).take (m.count + 1) = (denote m).table ++ [r] := by
  have hlt : m.count < m.table.length := by
    rw [hi.length]
    exact hc
  rw [List.take_add_one, List.take_set_of_le le_rfl, List.getElem?_set_self hlt]
  rfl

lemma foldl_allFields : allFields.foldl (assign src) dst = src := by
  simp only [allFields, List.foldl_cons, List.foldl_nil, assign]

/-! ### `daim_host_learn_local` -/

lemma goes_findLocal (hi : Inv m) (hp : Passed m mac j) (hj : j ≤ m.count) :
    Goes m (.call (.learnLocal (some mac) d p now))
      (instr { m with nextLocalSequence := m.nextLocalSequence + 1 }
        (.findLocal mac d p now m.nextLocalSequence j)) := by
  simp only [instr]
  by_cases hlt : j < m.count
  · obtain ⟨r, hr⟩ := hi.getElem? hlt
    rw [if_pos hlt]
    simp only [hr]
    split_ifs with he
    · refine At.zero (List.getElem?_eq_some_iff.mp hr).1 ⟨?_, ?_⟩
      · exact ⟨(List.length_set ..).trans hi.length, hi.count⟩
      · have hf := hp.found hlt hr he
        simp only [exec, NodeRun.exec, daimHostLearnLocal, hf]
        simp only [denote, Bool.true_eq_false, if_false, take_set]
        rfl
    · exact At.findLocal (hp.next hr he) hlt
  · rw [if_neg hlt]
    obtain rfl : j = m.count := by omega
    exact At.addLocal hp

lemma goes_addLocal (hi : Inv m) (hp : Passed m mac m.count) :
    Goes m (.call (.learnLocal (some mac) d p now))
      (instr { m with nextLocalSequence := m.nextLocalSequence + 1 }
        (.addLocal mac d p now m.nextLocalSequence)) := by
  simp only [instr]
  have hf := hp.none
  have hlen := hi.length_table
  split_ifs with hfull
  · refine ⟨⟨hi.length, hi.count⟩, ?_⟩
    simp only [exec, NodeRun.exec, daimHostLearnLocal, hf, hlen, if_pos hfull]
    rfl
  · have hlt : m.count < maxHostEntries := not_le.mp hfull
    refine At.zero (by rw [hi.length]; exact hlt) ⟨⟨(List.length_set ..).trans hi.length, hlt⟩, ?_⟩
    simp only [exec, NodeRun.exec, daimHostLearnLocal, hf, hlen, if_neg hfull]
    simp only [denote, Bool.true_eq_false, if_false, take_append hi hlt]
    rfl

/-! ### `apply_locked` -/

lemma exec_update {u : Option HostLocation} (ho : Updates op u now) :
    exec (denote m) op =
      ((applyLocked (denote m) u now).1, applied (applyLocked (denote m) u now).2) := by
  rcases ho with rfl | rfl <;> rfl

lemma goes_test {u : Option HostLocation} (hi : Inv m) (ho : Updates op u now) :
    Goes m op (instr m (.test u now)) := by
  have hx := exec_update (m := m) ho
  cases u with
  | none => exact At.count ⟨hi, hx⟩
  | some u =>
    simp only [instr]
    split_ifs with hbad
    · refine At.count ⟨hi, hx.trans ?_⟩
      have ha : applyLocked (denote m) (some u) now = (denote m).reject .invalid := by
        rcases hbad with h0 | h0
        · simp only [applyLocked, if_pos h0]
        · simp only [applyLocked]
          rw [if_pos (show u.originNodeId = (denote m).nodeId from h0), ite_self]
      rw [ha]
      rfl
    · rw [not_or] at hbad
      exact At.findRemote ho hbad Passed.zero (Nat.zero_le _)

lemma goes_findRemote (hi : Inv m) (ho : Updates op (some u) now) (hu : Foreign m u)
    (hp : Passed m u.mac j) (hj : j ≤ m.count) : Goes m op (instr m (.findRemote u now j)) := by
  simp only [instr]
  by_cases hlt : j < m.count
  · obtain ⟨r, hr⟩ := hi.getElem? hlt
    rw [if_pos hlt, hr]
    dsimp only
    split_ifs with he
    · exact At.compare ho hu (hp.found hlt hr he) hr hlt
    · exact At.findRemote ho hu (hp.next hr he) hlt
  · rw [if_neg hlt]
    obtain rfl : j = m.count := by omega
    exact At.addRemote ho hu hp

lemma applyLocked_none (hu : Foreign m u) (hp : Passed m u.mac m.count) (hi : Inv m) :
    applyLocked (denote m) (some u) now =
      if maxHostEntries ≤ m.count then (denote m).reject .invalid
      else (denote m).accept ((denote m).table ++ [newRemote u now]) .new := by
  have h2 : ¬u.originNodeId = (denote m).nodeId := hu.2
  simp only [applyLocked, if_neg hu.1, if_neg h2, hp.none, hi.length_table]

lemma goes_addRemote (hi : Inv m) (ho : Updates op (some u) now) (hu : Foreign m u)
    (hp : Passed m u.mac m.count) : Goes m op (instr m (.addRemote u now)) := by
  have hx := exec_update (m := m) ho
  rw [applyLocked_none hu hp hi] at hx
  simp only [instr]
  split_ifs at hx ⊢ with hfull
  · exact At.count ⟨hi, hx⟩
  · have hlt : m.count < maxHostEntries := not_le.mp hfull
    refine At.zero (by rw [hi.length]; exact hlt) ⟨⟨(List.length_set ..).trans hi.length, hlt⟩, ?_⟩
    rw [hx, ← take_append hi hlt]
    rfl

lemma goes_compare (hi : Inv m) (ho : Updates op (some u) now) (hu : Foreign m u)
    (hf : findIndex (denote m).table u.mac = some j) (hr : m.table[j]? = some r)
    (hj : j < m.count) : Goes m op (instr m (.compare u now j)) := by
  have hx := exec_update (m := m) ho
  have hr' : (denote m).table[j]? = some r := (List.getElem?_take_of_lt hj).trans hr
  have h2 : ¬u.originNodeId = (denote m).nodeId := hu.2
  simp only [applyLocked, if_neg hu.1, if_neg h2, hf, hr'] at hx
  simp only [instr, hr]
  split_ifs at hx ⊢ with hown hdup hstale
  · exact At.count ⟨hi, hx⟩
  · exact At.count ⟨hi, hx⟩
  · exact At.count ⟨hi, hx⟩
  · refine At.fields hr ⟨hi.set j _, hx.trans ?_⟩
    have hfold : updateFields.foldl (assign (newRemote u now)) r = updatedRecord r u now := by
      simp only [updateFields, List.foldl_cons, List.foldl_nil, assign, newRemote, updatedRecord]
    rw [hfold, State.accept, ← take_set]
    rfl

/-! ### A record is written -/

lemma goes_zero (hj : j < b.table.length)
    (he : Ends m op { b with table := b.table.set j src } k) :
    Goes m op (instr b (.zero j src k)) := by
  simp only [instr, if_pos hj]
  refine At.fields (show (b.table.set j zeroRecord)[j]? = some zeroRecord by simp [hj]) ?_
  rw [foldl_allFields, List.set_set]
  exact he

lemma goes_fields (hj : b.table[j]? = some dst)
    (he : Ends m op { b with table := b.table.set j (fs.foldl (assign src) dst) } k) :
    Goes m op (instr b (.fields j src fs k)) := by
  obtain ⟨hlt, hg⟩ := List.getElem?_eq_some_iff.mp hj
  cases fs with
  | nil =>
    have hset : b.table.set j ([].foldl (assign src) dst) = b.table := by
      rw [List.foldl_nil, ← hg, List.set_getElem_self]
    rw [hset] at he
    cases k with
    | sequence q => exact he
    | count res => exact At.count he
  | cons f fs =>
    simp only [instr, hj]
    refine At.fields (show (b.table.set j _)[j]? = some (assign src dst f) by simp [hlt]) ?_
    rw [List.set_set]
    exact he

/-! ### The calls that only read -/

lemma take_full (hj : j ≤ m.count) (hlt : ¬j < m.count) : m.table.take j = (denote m).table := by
  obtain rfl : j = m.count := by omega
  rfl

lemma goes_lookup (hi : Inv m) (hp : Passed m mac j) (hj : j ≤ m.count) :
    Goes m (.call (.lookup (some mac))) (instr m (.lookup mac j)) := by
  simp only [instr]
  by_cases hlt : j < m.count
  · obtain ⟨r, hr⟩ := hi.getElem? hlt
    rw [if_pos hlt, hr]
    dsimp only
    split_ifs with he
    · refine ⟨hi, ?_⟩
      have hr' : (denote m).table[j]? = some r := (List.getElem?_take_of_lt hlt).trans hr
      simp only [exec, NodeRun.exec, daimHostLookup, hp.found hlt hr he, hr']
      rfl
    · exact At.lookup (hp.next hr he) hlt
  · rw [if_neg hlt]
    obtain rfl : j = m.count := by omega
    refine ⟨hi, ?_⟩
    simp only [exec, NodeRun.exec, daimHostLookup, hp.none]
    rfl

lemma goes_copy (hi : Inv m) (hj : j ≤ m.count) :
    Goes m (.call .exportSnapshot) (instr m (.copy j (m.table.take j))) := by
  simp only [instr]
  by_cases hlt : j < m.count
  · obtain ⟨r, hr⟩ := hi.getElem? hlt
    have htake : m.table.take j ++ [r] = m.table.take (j + 1) := by
      rw [List.take_add_one, hr, Option.toList_some]
    rw [if_pos hlt, hr]
    dsimp only
    rw [htake]
    exact At.copy hlt
  · rw [if_neg hlt, take_full hj hlt]
    exact ⟨hi, rfl⟩

lemma goes_statsLoop (hi : Inv m) (hj : j ≤ m.count) :
    Goes m .stats (instr m (.statsLoop
      { toStats := m.stats
        localCount := (m.table.take j).countP fun r => r.isLocal ≠ 0
        remoteCount := (m.table.take j).countP fun r => r.isLocal = 0 } j)) := by
  simp only [instr]
  by_cases hlt : j < m.count
  · obtain ⟨r, hr⟩ := hi.getElem? hlt
    have hat := At.statsLoop (m := m) (Nat.succ_le_of_lt hlt)
    simp only [List.take_add_one, hr, Option.toList_some, List.countP_append,
      List.countP_singleton] at hat
    rw [if_pos hlt, hr]
    dsimp only
    split_ifs with hl
    · change At m _ m _
      simpa [hl] using hat
    · rw [not_not] at hl
      change At m _ m _
      simpa [hl] using hat
  · rw [if_neg hlt, take_full hj hlt]
    exact ⟨hi, rfl⟩

/-! ### The refinement -/

lemma goes_of_at (hi : Inv m) (hat : At m op m' pc) : Goes m op (instr m' pc) := by
  cases hat with
  | takeSequence => exact At.findLocal Passed.zero (Nat.zero_le _)
  | findLocal hp hj => exact goes_findLocal hi hp hj
  | addLocal hp => exact goes_addLocal hi hp
  | test ho => exact goes_test hi ho
  | findRemote ho hu hp hj => exact goes_findRemote hi ho hu hp hj
  | addRemote ho hu hp => exact goes_addRemote hi ho hu hp
  | compare ho hu hf hr hj => exact goes_compare hi ho hu hf hr hj
  | zero hj he => exact goes_zero hj he
  | fields hj he => exact goes_fields hj he
  | count he =>
    obtain ⟨hi', hx⟩ := he
    exact ⟨⟨hi'.length, hi'.count⟩, hx⟩
  | lookup hp hj => exact goes_lookup hi hp hj
  | copy hj => exact goes_copy hi hj
  | resetCount => exact At.resetSequence
  | resetSequence => exact At.resetStats
  | resetStats => exact ⟨⟨hi.length, Nat.zero_le _⟩, rfl⟩
  | stats => exact At.statsLoop (Nat.zero_le _)
  | statsLoop hj => exact goes_statsLoop hi hj

lemma exec_of_check {v : Ret} (hc : check op = some v) : exec (denote m) op = (denote m, v) := by
  rcases op with (_ | _ | _ | _ | _ | _) | _
  case call.learnLocal mac d p now =>
    cases mac <;> cases hc
    rfl
  case call.lookup mac =>
    cases mac <;> cases hc
    rfl
  all_goals cases hc

lemma at_start (hc : check op = none) : At m op m (start op) := by
  rcases op with (_ | _ | _ | _ | _ | _) | _
  case call.learnLocal mac d p now =>
    cases mac with
    | none => cases hc
    | some mac => exact .takeSequence
  case call.applyRemote u now => exact .test (.inl rfl)
  case call.importSnapshotEntry u now => exact .test (.inr rfl)
  case call.lookup mac =>
    cases mac with
    | none => cases hc
    | some mac => exact .lookup Passed.zero (Nat.zero_le _)
  case call.exportSnapshot => exact .copy (Nat.zero_le _)
  case call.reset => exact .resetCount
  case stats => exact .stats

/-- **The bodies of `daim_distributed_state.c` are atomic.** -/
lemma host_refines :
    Refines exec host (fun _ => True) Inv denote fun op m m' pc => At m op m' pc where
  check _ _ _ _ _ hc := exec_of_check hc
  start _ _ _ _ hc := at_start hc
  body _ _ _ _ _ _ hi _ hat hv := Option.some.inj hv ▸ goes_of_at hi hat
  stable m op m' pc _ v hi _ hat hv := by
    have hg := Option.some.inj hv ▸ goes_of_at hi hat
    cases v with
    | next => rfl
    | done => rfl
    | fault => exact hg

/-- What `daim_host_state_init` leaves of a memory. -/
def initialised (m : Mem) (nodeId ownerEpoch : UInt64) : Mem :=
  { m with nodeId := nodeId, ownerEpoch := ownerEpoch, nextLocalSequence := 1, count := 0
           stats := {} }

lemma denote_initialised (m : Mem) (i e : UInt64) :
    denote (initialised m i e) = daimHostStateInit {} i e := rfl

/-! ### The bodies come to an end -/

/-- How many instructions a body still runs, at most. -/
def rank (m : Mem) : Pc → ℕ
  | .null => 0
  | .takeSequence .. => m.count + 15
  | .findLocal _ _ _ _ _ j => m.count - j + 14
  | .addLocal .. => 13
  | .test .. => m.count + 16
  | .findRemote _ _ j => m.count - j + 15
  | .addRemote .. => 13
  | .compare .. => 13
  | .zero .. => 12
  | .fields _ _ fs _ => fs.length + 2
  | .count _ => 1
  | .lookup _ j => m.count - j
  | .copy n _ => m.count - n
  | .resetCount => 2
  | .resetSequence => 1
  | .resetStats => 0
  | .stats => m.count + 1
  | .statsLoop _ j => m.count - j

lemma instr_rank {m1 : Mem} {pc1 : Pc} (h : instr m pc = .next m1 pc1) :
    rank m1 pc1 < rank m pc := by
  cases pc with
  | null | count | resetStats => cases h
  | takeSequence | resetCount | resetSequence | stats =>
    cases h
    simp [rank]
  | addLocal | addRemote =>
    simp only [instr] at h
    split_ifs at h <;> cases h <;> simp [rank]
  | test u now =>
    cases u with
    | none =>
      cases h
      simp [rank]
    | some u =>
      simp only [instr] at h
      split_ifs at h <;> cases h <;> simp [rank]
  | compare u now idx =>
    simp only [instr] at h
    split at h
    · cases h
    · split_ifs at h <;> cases h <;> simp [rank, updateFields]
  | zero idx src k =>
    simp only [instr] at h
    split_ifs at h
    cases h
    simp [rank, allFields]
  | fields idx src fs k =>
    cases fs with
    | nil =>
      cases k <;> cases h
      simp [rank]
    | cons f fs =>
      simp only [instr] at h
      split at h
      · cases h
      · cases h
        simp [rank]
  | findLocal | findRemote | lookup | copy | statsLoop =>
    simp only [instr] at h
    split at h
    · split at h
      · cases h
      · (try split_ifs at h) <;> cases h <;> simp only [rank] <;> omega
    · cases h <;> simp only [rank] <;> omega

/-- **Every body of the host table comes to an end.** -/
lemma host_terminates : Terminates host (fun _ => True) Inv (fun op m m' pc => At m op m' pc)
    rank where
  answer _ _ _ _ _ _ _ := ⟨(), _, rfl⟩
  less _ _ _ _ _ _ _ _ _ _ h := instr_rank (Option.some.inj h)

variable {ι : Type*} [DecidableEq ι] {i e : UInt64} {x : Monitors.State ι Mem Pc Op Ret}
  {hs : List (Monitors.State ι Mem Pc Op Ret × Label ι Unit Op)}

lemma inv_initialised (hm : m.table.length = maxHostEntries) : Inv (initialised m i e) :=
  ⟨hm, Nat.zero_le _⟩

/-- **The host table is linearizable.** From `daim_host_state_init` on, whatever the threads do in
whatever order, no access leaves the array, and every history of calls and returns is one of the
table whose calls take effect in one step. -/
theorem host_linearizable (hm : m.table.length = maxHostEntries)
    (hr : Run (monitor ι host (initialised m i e)) hs x) :
    (∀ t, x.phase t ≠ .faulted) ∧
      Linearizable exec (daimHostStateInit {} i e) (shown event hs) := by
  have hlin := host_refines.linearizable (inv_initialised hm) hr fun p _ => by
    cases p.2 <;> exact trivial
  rwa [denote_initialised] at hlin

/-- The array as the program starts with it. -/
def blank : Mem := ⟨0, 0, 0, List.replicate maxHostEntries zeroRecord, 0, {}⟩

/-- A learn and an update of one address, which has waited for it. -/
def learnAndUpdate : List (Label (Fin 2) Unit Op) :=
  let learn : Op := .call (.learnLocal (some (macOf 1)) 10 2 5)
  let update : Op := .call (.applyRemote (some ⟨macOf 1, 4, 7, 3, 1, 9, 0, 0, 0⟩) 6)
  [.call 1 update, .run 1 (), .call 0 learn] ++ List.replicate 18 (.run 0 ()) ++
    List.replicate 7 (.run 1 ())

def learnAndUpdateHistory : List (Event (Fin 2) Op Ret) :=
  let learn : Op := .call (.learnLocal (some (macOf 1)) 10 2 5)
  let update : Op := .call (.applyRemote (some ⟨macOf 1, 4, 7, 3, 1, 9, 0, 0, 0⟩) 6)
  [.inv 1 update, .inv 0 learn, .res 0 learn (.call (.sequence 1)),
    .res 1 update (applied .ownershipConflict)]

lemma run_learnAndUpdate : ∃ hs x, Run (monitor (Fin 2) host (initialised blank 1 7)) hs x ∧
    shown event hs = learnAndUpdateHistory ∧ ∀ t, x.phase t = .idle :=
  exists_run_of_replay
    (i := fun x : Monitors.State (Fin 2) Mem Pc Op Ret => x = { mem := initialised blank 1 7 })
    (f := Monitors.step host) learnAndUpdate rfl
    (fun hs x => shown event hs = learnAndUpdateHistory ∧ ∀ t, x.phase t = .idle)
    (by decide +kernel)

theorem host_linearizable_learnAndUpdate :
    Linearizable exec (daimHostStateInit {} 1 7) learnAndUpdateHistory := by
  obtain ⟨hs, x, hr, he, -⟩ := run_learnAndUpdate
  exact he ▸ (host_linearizable List.length_replicate hr).2

/-- **Every call of the host table returns**, from whatever state the threads have reached. -/
theorem host_calls_return [Fintype ι] (hm : m.table.length = maxHostEntries)
    (hr : Run (monitor ι host (initialised m i e)) hs x) : Returns host x :=
  host_refines.returns host_terminates (inv_initialised hm) hr fun p _ => by
    cases p.2 <;> exact trivial

/-- One thread is inside its learn while the other waits for the mutex. -/
theorem host_calls_return_learnAndUpdate : ∃ x : Monitors.State (Fin 2) Mem Pc Op Ret,
    x.owner = some 0 ∧ x.phase 1 ≠ .idle ∧ Returns host x := by
  obtain ⟨hs, x, hr, ho, hp⟩ := exists_run_of_replay
    (i := fun x : Monitors.State (Fin 2) Mem Pc Op Ret => x = { mem := initialised blank 1 7 })
    (f := Monitors.step host) (learnAndUpdate.take 10) rfl
    (fun _ x => x.owner = some 0 ∧ x.phase 1 ≠ .idle) (by decide +kernel)
  exact ⟨x, ho, hp, host_calls_return List.length_replicate hr⟩

/-! ### What a run has done to the table -/

/-- The counter of a result. -/
def counter (st : Stats) : ApplyResult → ℕ
  | .new => st.appliedNew
  | .updated => st.appliedUpdated
  | .duplicate => st.appliedDuplicate
  | .staleRejected => st.appliedStaleRejected
  | .ownershipConflict => st.appliedConflict
  | .invalid => st.appliedInvalid

/-- A call that returned `res`. -/
def answers (res : ApplyResult) (_ : NodeRun.Op) (v : NodeRun.Ret) : Bool :=
  decide (v = .applied res)

/-- The same, of a call of the monitor. -/
def lift (f : NodeRun.Op → NodeRun.Ret → Bool) : Op → Ret → Bool
  | .call op, .call v => f op v
  | _, _ => false

lemma counter_count (st : Stats) (res res' : ApplyResult) :
    counter (st.count res) res' = counter st res' + (decide (res = res')).toNat := by
  cases res <;> cases res' <;> rfl

lemma applyLocked_stats (s : HostState.State) (u : Option HostLocation) (now : UInt64) :
    (applyLocked s u now).1.stats = s.stats.count (applyLocked s u now).2 := by
  cases u with
  | none => rfl
  | some u =>
    have ha := applyLocked_applies s u now
    generalize applyLocked s (some u) now = v at ha ⊢
    cases ha <;> rfl

/-- Every result is counted once. -/
lemma exec_counter {s : HostState.State} {op : NodeRun.Op} (hs : s.ready = true)
    (ho : op ≠ .reset) (res : ApplyResult) :
    counter (NodeRun.exec s op).1.stats res =
      counter s.stats res + (answers res op (NodeRun.exec s op).2).toNat := by
  have hsame : ∀ u now, counter (applyLocked s u now).1.stats res = counter s.stats res +
      (answers res op (.applied (applyLocked s u now).2)).toNat := fun u now => by
    rw [applyLocked_stats, counter_count]
    simp [answers]
  cases op with
  | learnLocal mac d p now =>
    have hst : (daimHostLearnLocal s mac d p now).1.stats = s.stats := by
      cases mac with
      | none => rfl
      | some mac =>
        simp only [daimHostLearnLocal, hs, Bool.true_eq_false, if_false]
        split
        · rfl
        · split_ifs <;> rfl
    simp [NodeRun.exec, hst, answers]
  | applyRemote u now => simpa [NodeRun.exec, daimHostApplyRemote, hs] using hsame u now
  | importSnapshotEntry u now =>
    simpa [NodeRun.exec, daimHostImportSnapshotEntry, hs] using hsame u now
  | lookup mac => simp [NodeRun.exec, answers]
  | exportSnapshot => simp [NodeRun.exec, answers]
  | reset => exact absurd rfl ho

lemma run_counter {h : List (HostState.State × NodeRun.Op)} {s : HostState.State}
    (hr : Run (NodeRun.node i e) h s) (ho : ∀ p ∈ h, p.2 ≠ .reset) (res : ApplyResult) :
    counter s.stats res = h.countP fun p => answers res p.2 (NodeRun.exec p.1 p.2).2 := by
  induction hr with
  | init h0 =>
    obtain ⟨s0, rfl⟩ := h0
    cases res <;> rfl
  | @step h s t op hr hst ih =>
    cases hst
    rw [exec_counter (NodeRun.run_inv hr).ready (ho (s, op) (by simp)),
      ih fun p hp => ho p (List.mem_append_left _ hp), List.countP_append, List.countP_singleton]
    cases answers res op (NodeRun.exec s op).2 <;> rfl

/-- The calls of the table among those of the monitor. -/
lemma run_node {l : List (HostState.State × Op)} {s : HostState.State}
    (hr : Run (sequential exec (daimHostStateInit {} i e)) l s) :
    ∃ h, Run (NodeRun.node i e) h s ∧
      h.map (fun p => (p.2, (NodeRun.exec p.1 p.2).2)) =
        l.filterMap fun p =>
          match p.2 with
          | .call op => some (op, (NodeRun.exec p.1 op).2)
          | .stats => none := by
  obtain ⟨h, t, hr', rfl, hsh⟩ :=
    hr.simulate (M := NodeRun.node i e)
      (fun s op =>
        match op with
        | .call op => some (op, (NodeRun.exec s op).2)
        | .stats => none)
      (fun s op => some (op, (NodeRun.exec s op).2)) (fun _ _ => True) Eq
      (fun s hs => ⟨s, ⟨{}, hs⟩, rfl⟩)
      (by
        rintro s op s' _ rfl - hst
        cases hst
        cases op with
        | call op => exact .inr ⟨op, _, rfl, rfl, rfl⟩
        | stats => exact .inl ⟨rfl, rfl⟩)
      (by simp)
  exact ⟨h, hr', by rw [← List.filterMap_eq_map]; exact hsh⟩

/-- **Whenever no call is under way, the table is what some order of the calls leaves.** There is
a run of the node, one call at a time, that ends in it, and in which as many calls of each kind
have had each result as in the history; so the table holds one record for an address, and without
a reset every counter is the number of its results. -/
theorem quiescent_host [Fintype ι] (hm : m.table.length = maxHostEntries)
    (hr : Run (monitor ι host (initialised m i e)) hs x) (hidle : ∀ t, x.phase t = .idle) :
    (∃ h, Run (NodeRun.node i e) h (denote x.mem) ∧ ∀ f : NodeRun.Op → NodeRun.Ret → Bool,
      h.countP (fun p => f p.2 (NodeRun.exec p.1 p.2).2) =
        (shown event hs).countP (Event.returns (lift f))) ∧
      HostInv.TableInv i (x.mem.table.take x.mem.count) ∧
      ((∀ t, .inv t (.call .reset) ∉ shown event hs) → ∀ res, counter x.mem.stats res =
        (shown event hs).countP (Event.returns (lift (answers res)))) := by
  obtain ⟨y, hy, hsim⟩ := host_refines.run (inv_initialised (i := i) (e := e) hm) hr fun p _ => by
    cases p.2 <;> exact trivial
  obtain ⟨m', hm'⟩ := hsim.held
  obtain rfl : x.mem = m' := by
    rcases hm'.mem with ⟨h, -⟩ | ⟨t, op, l, ht, -⟩
    · exact h
    · rw [hidle t] at ht
      cases ht
  have hpend : ∀ f, ∑ t, (y.slot t).pending f = 0 := fun f =>
    Finset.sum_eq_zero fun t _ => by
      rw [hsim.slot t, hidle t]
      rfl
  rw [denote_initialised] at hy
  have hcalled : ∀ t op, .inv t op ∈ shown event hs → ∃ t, .inv t op ∈ shown event hs :=
    fun t _ hop => ⟨t, hop⟩
  obtain ⟨l, hl, hlok, hcount⟩ := hy.sequential hcalled
  rw [hm'.obj] at hl
  obtain ⟨h, hn, hmap⟩ := run_node hl
  have hkind : ∀ f : NodeRun.Op → NodeRun.Ret → Bool,
      h.countP (fun p => f p.2 (NodeRun.exec p.1 p.2).2) =
        (shown event hs).countP (Event.returns (lift f)) := by
    intro f
    have h1 := hcount (lift f)
    rw [hpend, add_zero] at h1
    have h2 := congrArg (List.countP fun v => f v.1 v.2) hmap
    rw [List.countP_map, List.countP_filterMap] at h2
    rw [← h1]
    refine h2.trans (List.countP_congr fun p _ => ?_)
    obtain ⟨s, op | _⟩ := p
    · rfl
    · rfl
  refine ⟨⟨h, hn, hkind⟩, (NodeRun.run_inv hn).table, fun hreset res => ?_⟩
  have hno : ∀ p ∈ h, p.2 ≠ .reset := fun p hp he => by
    have hmem : (p.2, (NodeRun.exec p.1 p.2).2) ∈
        h.map fun p => (p.2, (NodeRun.exec p.1 p.2).2) := List.mem_map_of_mem hp
    rw [hmap, List.mem_filterMap] at hmem
    obtain ⟨⟨s, op | _⟩, hq, he'⟩ := hmem
    · obtain ⟨t, ht⟩ := hlok _ hq
      simp only [Option.some.injEq, Prod.mk.injEq] at he'
      rw [he'.1, he] at ht
      exact hreset t ht
    · cases he'
  exact (run_counter hn hno res).trans (hkind _)

theorem quiescent_host_learnAndUpdate : ∃ x : Monitors.State (Fin 2) Mem Pc Op Ret,
    x.mem.stats.appliedConflict = 1 ∧ x.mem.stats.appliedNew = 0 := by
  obtain ⟨hs, x, hr, he, hidle⟩ := run_learnAndUpdate
  have hno : ∀ t, .inv t (.call .reset) ∉ shown event hs := by
    rw [he]
    decide
  have hc := (quiescent_host List.length_replicate hr hidle).2.2 hno
  rw [he] at hc
  exact ⟨x, hc .ownershipConflict, hc .new⟩

end DaimDistributed.HostMonitor
