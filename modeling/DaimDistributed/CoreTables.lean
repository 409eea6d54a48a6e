import Mathlib.Data.List.Basic
import Mathlib.Data.UInt
import Mathlib.Logic.Function.Basic
import DaimDistributed.Core
import DaimDistributed.Transitions

/-!
The table store of `daim_core.c`, and the family of lists it implements.

A store is the list of its first `count` items, with the capacity and the read cursor that
the source keeps beside them. Every operation runs under the core's lock, so it is one
function on the state. Whether an allocation succeeds is an argument.
-/

namespace DaimDistributed.CoreTables

open DaimDistributed.Core (CoreState)
open Transitions

/-- `DAIM_INFO_TABLE`. -/
def firstTable : UInt8 := 0xa1

/-- `DAIM_LINK_CONFIG_TABLE`. -/
def lastTable : UInt8 := 0xac

/-- The first table that may be written. -/
def daimPacketForwardingTable : UInt8 := 0xa8

def tableSlots : ℕ := 12

def opAdd : UInt8 := 0xa

def opDel : UInt8 := 0xb

/-- `DAIM_CORE_OK` and `DAIM_CORE_ERROR`. -/
inductive Status
  | ok | error
  deriving DecidableEq

/-- The bytes of one `struct table_item`. -/
abbrev Entry := List UInt8

/-- `struct table_store`. -/
structure TableStore where
  items : List Entry := []
  capacity : ℕ := 0
  cursor : ℕ := 0
  deriving DecidableEq

/-- `struct core_state`. -/
structure State extends CoreState where
  generation : UInt64 := 0
  tables : Fin tableSlots → TableStore := fun _ => {}

/-- What the allocator answers to the two requests of a write. -/
structure Alloc where
  realloc : Bool
  malloc : Bool
  deriving DecidableEq

def validTable (table : UInt8) : Bool := decide (firstTable ≤ table ∧ table ≤ lastTable)

def writableTable (table : UInt8) : Bool :=
  decide (daimPacketForwardingTable ≤ table ∧ table ≤ lastTable)

lemma validTable_lt {table : UInt8} (h : validTable table = true) :
    table.toNat - firstTable.toNat < tableSlots := by
  have h1 := of_decide_eq_true h
  simp only [UInt8.le_iff_toNat_le, firstTable, lastTable, UInt8.reduceToNat, tableSlots] at h1 ⊢
  omega

/-- The slot of a valid table. -/
def storeFor (table : UInt8) : Option (Fin tableSlots) :=
  if h : validTable table = true then some ⟨table.toNat - firstTable.toNat, validTable_lt h⟩
  else none

lemma storeFor_eq_some {table : UInt8} {i : Fin tableSlots} :
    storeFor table = some i ↔ validTable table = true ∧ table.toNat = firstTable.toNat + i := by
  by_cases hv : validTable table = true
  · have hle : firstTable.toNat ≤ table.toNat :=
      UInt8.le_iff_toNat_le.mp (of_decide_eq_true hv).1
    rw [storeFor, dif_pos hv, Option.some.injEq, Fin.ext_iff]
    simp only [hv, true_and]
    omega
  · rw [storeFor, dif_neg hv]
    simp [hv]

/-- With the mutex created, unless `mutexInit` says otherwise. -/
def daimInit (s : State) (mutexInit : Bool) : State × Status :=
  if s.lockReady = false ∧ mutexInit = false then (s, .error)
  else if s.initialised then ({ s with toCoreState := Core.daimInit s.toCoreState }, .ok)
  else ({ toCoreState := Core.daimInit s.toCoreState, generation := 0, tables := fun _ => {} }, .ok)

def daimQuit (s : State) : State :=
  if s.lockReady = false then s
  else { toCoreState := Core.daimQuit s.toCoreState, generation := 0, tables := fun _ => {} }

/-- `sizeof(struct table_item)`. -/
def itemSize : ℕ := 16

/-- No object has `2 ^ 63` bytes, so the product of `ensure_capacity` does not wrap. -/
def ensureCapacity (st : TableStore) (realloc : Bool) : Option TableStore :=
  if st.items.length < st.capacity then some st
  else
    let next := if st.capacity ≠ 0 then st.capacity * 2 else 8
    if realloc && decide (next * itemSize < 2 ^ 63) then some { st with capacity := next }
    else none

/-- The `ADD` branch: the store it leaves, and whether the entry was added. -/
def TableStore.add (st : TableStore) (entry : Entry) (a : Alloc) : TableStore × Bool :=
  match ensureCapacity st a.realloc with
  | none => (st, false)
  | some st => if a.malloc then ({ st with items := st.items ++ [entry] }, true) else (st, false)

/-- The `DEL` branch; `none` where no entry is equal. -/
def TableStore.del (st : TableStore) (entry : Entry) : Option TableStore :=
  match st.items.findIdx? fun x => x = entry with
  | none => none
  | some i =>
    let items := st.items.eraseIdx i
    some { st with items := items, cursor := min st.cursor items.length }

/-- Write one store, and count the write if it was one. -/
def State.put (s : State) (i : Fin tableSlots) (st : TableStore) (written : Bool) :
    State × Status :=
  ({ s with
      generation := if written then s.generation + 1 else s.generation
      tables := Function.update s.tables i st },
    if written then .ok else .error)

/-- A null `entry` is `none`; its `size` is the length. -/
def daimTableWrite (s : State) (table : UInt8) (entry : Option Entry) (opCode : UInt8)
    (a : Alloc) : State × Status :=
  match entry, storeFor table with
  | some entry, some i =>
    if s.lockReady = false ∨ s.initialised = false ∨ writableTable table = false ∨ entry = [] then
      (s, .error)
    else if opCode ≠ opAdd ∧ opCode ≠ opDel then (s, .error)
    else if opCode = opAdd then
      s.put i ((s.tables i).add entry a).1 ((s.tables i).add entry a).2
    else
      match (s.tables i).del entry with
      | none => (s, .error)
      | some st => s.put i st true
  | _, _ => (s, .error)

/-- The entries a read takes: all of them, or those that start with the given bytes. -/
def selects (entry : Option Entry) (x : Entry) : Bool :=
  match entry with
  | none => true
  | some entry => decide (entry.length ≤ x.length) && decide (x.take entry.length = entry)

/-- The position at which the loop of `daim_table_read` stops. -/
def TableStore.next (st : TableStore) (entry : Option Entry) : Option ℕ :=
  ((st.items.drop st.cursor).findIdx? (selects entry)).map (st.cursor + ·)

def TableStore.read (st : TableStore) (entry : Option Entry) (malloc : Bool) :
    TableStore × Option Entry :=
  match st.next entry with
  | none => (st, none)
  | some i => if malloc then ({ st with cursor := i + 1 }, st.items[i]?) else (st, none)

def daimTableRead (s : State) (table : UInt8) (entry : Option Entry) (malloc : Bool) :
    State × Option Entry :=
  match storeFor table with
  | none => (s, none)
  | some i =>
    if s.lockReady = false ∨ s.initialised = false then (s, none)
    else
      ({ s with tables := Function.update s.tables i ((s.tables i).read entry malloc).1 },
        ((s.tables i).read entry malloc).2)

def daimTableRewind (s : State) (table : UInt8) : State :=
  match storeFor table with
  | none => s
  | some i =>
    if s.lockReady = false ∨ s.initialised = false then s
    else { s with tables := Function.update s.tables i { s.tables i with cursor := 0 } }

def daimCoreTableCount (s : State) (table : UInt8) : ℕ :=
  match storeFor table with
  | none => 0
  | some i => if s.lockReady = false ∨ s.initialised = false then 0 else (s.tables i).items.length

def daimCoreGeneration (s : State) : UInt64 :=
  if s.lockReady = false ∨ s.initialised = false then 0 else s.generation

/-! ### What one operation does to its store -/

variable {s t : State} {table : UInt8} {i : Fin tableSlots} {entry : Option Entry}
  {opCode : UInt8} {a : Alloc} {p : State × Status}

lemma ensureCapacity_some {st st' : TableStore} {realloc : Bool}
    (h : ensureCapacity st realloc = some st') : ∃ c, st' = { st with capacity := c } := by
  unfold ensureCapacity at h
  dsimp only at h
  split_ifs at h <;> cases h
  · exact ⟨st.capacity, rfl⟩
  · exact ⟨_, rfl⟩
  · exact ⟨_, rfl⟩

/-- An entry is added behind the others, or an allocation failed and nothing but the capacity
is different. -/
lemma TableStore.add_cases (st : TableStore) (e : Entry) (a : Alloc) :
    ∃ c, st.add e a = ({ st with capacity := c }, false) ∨
      st.add e a = ({ st with capacity := c, items := st.items ++ [e] }, true) := by
  unfold TableStore.add
  rcases hc : ensureCapacity st a.realloc with _ | st'
  · exact ⟨st.capacity, .inl rfl⟩
  · obtain ⟨c, rfl⟩ := ensureCapacity_some hc
    cases a.malloc
    · exact ⟨c, .inl rfl⟩
    · exact ⟨c, .inr rfl⟩

/-- `DEL` removes the first entry that is equal. -/
lemma TableStore.del_eq (st : TableStore) (e : Entry) :
    st.del e = if e ∈ st.items then
      some { st with items := st.items.erase e, cursor := min st.cursor (st.items.erase e).length }
    else none := by
  have he : st.items.erase e = st.items.eraseP fun x => x = e := by
    rw [List.erase_eq_eraseP]
    congr 1
    funext x
    rw [beq_eq_decide, decide_eq_decide]
    exact eq_comm
  unfold TableStore.del
  rw [he, List.eraseP_eq_eraseIdx]
  rcases hf : st.items.findIdx? fun x => decide (x = e) with _ | j
  · have hn : e ∉ st.items := fun hm => by
      simpa using List.findIdx?_eq_none_iff.mp hf e hm
    simp [hn]
  · have hm : e ∈ st.items := by
      obtain ⟨hlt, hj, -⟩ := List.findIdx?_eq_some_iff_getElem.mp hf
      exact of_decide_eq_true hj ▸ List.getElem_mem hlt
    simp [hm]

/-- A read stops at an entry of the table. -/
lemma TableStore.next_lt {st : TableStore} {j : ℕ} (h : st.next entry = some j) :
    st.cursor ≤ j ∧ j < st.items.length := by
  simp only [TableStore.next, Option.map_eq_some_iff] at h
  obtain ⟨k, hk, rfl⟩ := h
  have hlt := (List.findIdx?_eq_some_iff_getElem.mp hk).1
  simp only [List.length_drop] at hlt
  omega

/-- What `daim_table_write` can do, and when. -/
inductive Writes (s : State) (table : UInt8) (entry : Option Entry) (opCode : UInt8) :
    State × Status → Prop
  | refused (h : entry = none ∨ entry = some [] ∨ writableTable table = false ∨
        opCode ≠ opAdd ∧ opCode ≠ opDel) : Writes s table entry opCode (s, .error)
  | noMemory {i : Fin tableSlots} (ho : opCode = opAdd) (hi : storeFor table = some i) (c : ℕ) :
      Writes s table entry opCode
        ({ s with tables := Function.update s.tables i { s.tables i with capacity := c } }, .error)
  | added {e : Entry} {i : Fin tableSlots} (he : entry = some e) (hne : e ≠ [])
      (hw : writableTable table = true) (ho : opCode = opAdd) (hi : storeFor table = some i)
      (c : ℕ) :
      Writes s table entry opCode
        ({ s with
            generation := s.generation + 1
            tables := Function.update s.tables i
              { s.tables i with capacity := c, items := (s.tables i).items ++ [e] } }, .ok)
  | notFound {e : Entry} {i : Fin tableSlots} (he : entry = some e) (ho : opCode = opDel)
      (hi : storeFor table = some i) (hn : e ∉ (s.tables i).items) :
      Writes s table entry opCode (s, .error)
  | deleted {e : Entry} {i : Fin tableSlots} (he : entry = some e) (ho : opCode = opDel)
      (hi : storeFor table = some i) (hm : e ∈ (s.tables i).items) :
      Writes s table entry opCode
        ({ s with
            generation := s.generation + 1
            tables := Function.update s.tables i
              { s.tables i with
                items := (s.tables i).items.erase e
                cursor := min (s.tables i).cursor ((s.tables i).items.erase e).length } }, .ok)

lemma storeFor_of_writable (h : writableTable table = true) : ∃ i, storeFor table = some i := by
  have hv : validTable table = true := by
    have h1 := of_decide_eq_true h
    refine decide_eq_true ⟨UInt8.le_trans ?_ h1.1, h1.2⟩
    decide
  exact ⟨_, dif_pos hv⟩

/-- **Inversion of `daim_table_write`** on an initialised core. -/
theorem daimTableWrite_writes (hl : s.lockReady = true) (hi : s.initialised = true)
    (table : UInt8) (entry : Option Entry) (opCode : UInt8) (a : Alloc) :
    Writes s table entry opCode (daimTableWrite s table entry opCode a) := by
  unfold daimTableWrite
  rcases entry with _ | e
  · exact .refused (.inl rfl)
  rcases hs : storeFor table with _ | i
  · refine .refused (.inr (.inr (.inl ?_)))
    by_contra hw
    obtain ⟨i, hi⟩ := storeFor_of_writable (by simpa using hw)
    simp [hs] at hi
  dsimp only
  split_ifs with h1 h2 h3
  · refine .refused ?_
    rcases h1 with h1 | h1 | h1 | h1
    · simp [hl] at h1
    · simp [hi] at h1
    · exact .inr (.inr (.inl h1))
    · exact .inr (.inl (by rw [h1]))
  · exact .refused (.inr (.inr (.inr h2)))
  · simp only [not_or] at h1
    obtain ⟨-, -, hw, hne⟩ := h1
    obtain ⟨c, hc | hc⟩ := (s.tables i).add_cases e a
    · rw [hc]
      exact .noMemory h3 hs c
    · rw [hc]
      exact .added rfl hne (by simpa using hw) h3 hs c
  · have ho : opCode = opDel := by
      by_contra h
      exact h2 ⟨h3, h⟩
    rw [TableStore.del_eq]
    split_ifs with hm
    · exact .deleted rfl ho hs hm
    · exact .notFound rfl ho hs hm

end DaimDistributed.CoreTables
