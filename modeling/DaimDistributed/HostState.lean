import Mathlib.Data.UInt
import Mathlib.Data.Vector.Defs
import Mathlib.Tactic.Common

/-!
The host-location table of one node, as `daim_distributed_state.c` keeps it.

The table is the list of the first `count` records of the array. Every operation runs
under the state's lock, so it is one function on the state; a pointer that may be null is
an option, and the time `monotonic_ns` returns is an argument.
-/

namespace DaimDistributed.HostState

/-- `uint8_t mac[MAC_ADDR_LEN]`. -/
abbrev Mac := Vector UInt8 6

/-- The address `00:00:00:00:00:b`. -/
def macOf (b : UInt8) : Mac := #v[0, 0, 0, 0, 0, b]

/-- `struct daim_host_location`. -/
structure HostLocation where
  mac : Mac
  originNodeId : UInt64
  ownerDpid : UInt64
  ownerPort : UInt32
  ownerEpoch : UInt64
  sequence : UInt64
  isLocal : UInt8
  learnedAtNs : UInt64
  appliedAtNs : UInt64
  deriving DecidableEq

/-- `enum daim_host_apply_result`. -/
inductive ApplyResult
  | new | updated | duplicate | staleRejected | ownershipConflict | invalid
  deriving DecidableEq

/-- The counters of `struct daim_host_state_stats` that are kept in the state, as natural numbers:
a `uint64_t` is this modulo `2 ^ 64`, and nothing branches on one. -/
structure Stats where
  appliedNew : ℕ := 0
  appliedUpdated : ℕ := 0
  appliedDuplicate : ℕ := 0
  appliedStaleRejected : ℕ := 0
  appliedConflict : ℕ := 0
  appliedInvalid : ℕ := 0
  deriving DecidableEq

def maxHostEntries : ℕ := 4096

/-- `struct state`. -/
structure State where
  ready : Bool := false
  nodeId : UInt64 := 0
  ownerEpoch : UInt64 := 0
  nextLocalSequence : UInt64 := 0
  table : List HostLocation := []
  stats : Stats := {}
  deriving DecidableEq

def findIndex (t : List HostLocation) (mac : Mac) : Option ℕ :=
  t.findIdx? fun r => r.mac = mac

def daimHostStateInit (s : State) (nodeId ownerEpoch : UInt64) : State :=
  { s with
    ready := true, nodeId := nodeId, ownerEpoch := ownerEpoch, nextLocalSequence := 1,
    table := [], stats := {} }

/-- The record `daim_host_learn_local` writes. -/
def localRecord (s : State) (mac : Mac) (dpid : UInt64) (port : UInt32) (now : UInt64) :
    HostLocation where
  mac := mac
  originNodeId := s.nodeId
  ownerDpid := dpid
  ownerPort := port
  ownerEpoch := s.ownerEpoch
  sequence := s.nextLocalSequence
  isLocal := 1
  learnedAtNs := now
  appliedAtNs := now

/-- The new state and the assigned sequence, `0` on failure. The sequence is used up even
when the table is full. -/
def daimHostLearnLocal (s : State) (mac : Option Mac) (dpid : UInt64) (port : UInt32)
    (now : UInt64) : State × UInt64 :=
  match mac with
  | none => (s, 0)
  | some mac =>
    if s.ready = false then (s, 0)
    else
      let r := localRecord s mac dpid port now
      let s' := { s with nextLocalSequence := s.nextLocalSequence + 1 }
      match findIndex s.table mac with
      | some idx => ({ s' with table := s.table.set idx r }, s.nextLocalSequence)
      | none =>
        if maxHostEntries ≤ s.table.length then (s', 0)
        else ({ s' with table := s.table ++ [r] }, s.nextLocalSequence)

def isNewer (existing incoming : HostLocation) : Bool :=
  if incoming.ownerEpoch ≠ existing.ownerEpoch then
    decide (existing.ownerEpoch < incoming.ownerEpoch)
  else decide (existing.sequence < incoming.sequence)

/-- The record `apply_locked` inserts for an update of an unknown host. -/
def newRemote (u : HostLocation) (now : UInt64) : HostLocation :=
  { u with isLocal := 0, appliedAtNs := now }

/-- The record `apply_locked` leaves after a newer update of a known host. -/
def updatedRecord (r u : HostLocation) (now : UInt64) : HostLocation :=
  { r with
    ownerDpid := u.ownerDpid, ownerPort := u.ownerPort, ownerEpoch := u.ownerEpoch,
    sequence := u.sequence, learnedAtNs := u.learnedAtNs, appliedAtNs := now }

/-- Count one result. -/
def Stats.count (st : Stats) : ApplyResult → Stats
  | .new => { st with appliedNew := st.appliedNew + 1 }
  | .updated => { st with appliedUpdated := st.appliedUpdated + 1 }
  | .duplicate => { st with appliedDuplicate := st.appliedDuplicate + 1 }
  | .staleRejected => { st with appliedStaleRejected := st.appliedStaleRejected + 1 }
  | .ownershipConflict => { st with appliedConflict := st.appliedConflict + 1 }
  | .invalid => { st with appliedInvalid := st.appliedInvalid + 1 }

/-- Leave the table as it is and count the result. -/
def State.reject (s : State) (res : ApplyResult) : State × ApplyResult :=
  ({ s with stats := s.stats.count res }, res)

/-- Write the table and count the result. -/
def State.accept (s : State) (t : List HostLocation) (res : ApplyResult) :
    State × ApplyResult :=
  ({ s with table := t, stats := s.stats.count res }, res)

def applyLocked (s : State) (update : Option HostLocation) (now : UInt64) :
    State × ApplyResult :=
  match update with
  | none => s.reject .invalid
  | some u =>
    if u.originNodeId = 0 then s.reject .invalid
    else if u.originNodeId = s.nodeId then s.reject .invalid
    else
      match findIndex s.table u.mac with
      | none =>
        if maxHostEntries ≤ s.table.length then s.reject .invalid
        else s.accept (s.table ++ [newRemote u now]) .new
      | some idx =>
        match s.table[idx]? with
        | none => s.reject .invalid -- not reached: the index is in range
        | some r =>
          if r.originNodeId ≠ u.originNodeId then s.reject .ownershipConflict
          else if u.ownerEpoch = r.ownerEpoch ∧ u.sequence = r.sequence then
            s.reject .duplicate
          else if isNewer r u = false then s.reject .staleRejected
          else s.accept (s.table.set idx (updatedRecord r u now)) .updated

def daimHostApplyRemote (s : State) (update : Option HostLocation) (now : UInt64) :
    State × ApplyResult :=
  if s.ready = false then (s, .invalid) else applyLocked s update now

def daimHostImportSnapshotEntry (s : State) (entry : Option HostLocation) (now : UInt64) :
    State × ApplyResult :=
  if s.ready = false then (s, .invalid) else applyLocked s entry now

/-- `none` where the source returns 0, else the record copied out. -/
def daimHostLookup (s : State) (mac : Option Mac) : Option HostLocation :=
  match mac with
  | none => none
  | some mac =>
    if s.ready = false then none
    else match findIndex s.table mac with
      | none => none
      | some idx => s.table[idx]?

/-- The records handed to `emit`, in order; `none` where the source returns -1. -/
def daimHostExportSnapshot (s : State) : Option (List HostLocation) :=
  if s.ready = false then none else some s.table

def daimHostStateReset (s : State) : State :=
  if s.ready = false then s
  else { s with table := [], nextLocalSequence := 1, stats := {} }

end DaimDistributed.HostState
