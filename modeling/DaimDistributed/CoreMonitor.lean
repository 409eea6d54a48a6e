import DaimDistributed.Monitors
import DaimDistributed.TableRefinement

/-!
`daim_core.c`, one access of its shared memory at a time.

The mutex exists from the first `daim_init` on and `lock_ready` stays set, so it is not a field.
An array of `capacity` items is a list of that length; what the allocator has given out and not
taken back is a map from addresses to bytes. An access outside the array, or through a pointer
to nothing, is a fault.
-/

namespace DaimDistributed.CoreMonitor

open CoreTables Monitors
open DaimDistributed.Core (Sighandler signalSlots)

/-- `struct table_item`. -/
structure Item where
  data : ℕ
  size : ℕ
  deriving DecidableEq

/-- `struct table_store`. -/
structure Store where
  items : List Item := []
  count : ℕ := 0
  cursor : ℕ := 0
  deriving DecidableEq

/-- `struct core_state` behind its mutex, with the blocks that its items point at. -/
structure Mem where
  initialised : Bool := true
  generation : UInt64 := 0
  tables : Fin tableSlots → Store := fun _ => {}
  signals : List (Option Sighandler) := List.replicate signalSlots none
  heap : ℕ → Option Entry := fun _ => none

inductive Op
  | table (op : TableRefinement.Op)
  | signal (sigType : ℕ) (handler : Option Sighandler)
  | emit (sigType : ℕ)
  | quit
  deriving DecidableEq

inductive Ret
  | table (r : TableRefinement.Ret)
  | handler (h : Option Sighandler)
  | unit
  deriving DecidableEq

/-- What the allocator gives: an address, and what is in the places an array grows by. -/
structure Answer where
  address : ℕ := 0
  places : List Item := []

/-- The instruction a thread is at, with its locals. -/
inductive Pc
  | null
  -- `daim_init`
  | initTest
  | initTables
  | initSignals
  | initGeneration
  | initFlag
  -- `daim_quit`: `free(store->items[j].data)` of table `i`
  | freeStore (i j : ℕ)
  | quitSignals
  | quitFlag
  | quitGeneration
  -- `ADD`
  | ensureCapacity (i : Fin tableSlots) (entry : Entry) (a : Alloc)
  | malloc (i : Fin tableSlots) (entry : Entry) (a : Alloc)
  | setData (i : Fin tableSlots) (copy size : ℕ)
  | setSize (i : Fin tableSlots) (size : ℕ)
  | countUp (i : Fin tableSlots)
  -- `DEL`
  | scan (i : Fin tableSlots) (entry : Entry) (j : ℕ)
  | free (i : Fin tableSlots) (j : ℕ)
  | move (i : Fin tableSlots) (j : ℕ)
  | countDown (i : Fin tableSlots)
  | clamp (i : Fin tableSlots)
  | generationUp
  -- `daim_table_read`
  | enter (i : Fin tableSlots) (entry : Option Entry) (malloc : Bool)
  | look (i : Fin tableSlots) (entry : Option Entry) (malloc : Bool) (j : ℕ)
  | copy (i : Fin tableSlots) (j : ℕ)
  | advance (i : Fin tableSlots) (j : ℕ) (copy : Entry)
  | rewind (i : Fin tableSlots)
  | tableCount (i : Fin tableSlots)
  | generation
  | signal (sigType : ℕ) (handler : Option Sighandler)
  | emit (sigType : ℕ)
  deriving DecidableEq

/-- What a call finds before it takes the mutex. -/
def check (m : Mem) : Op → Option Ret
  | .table (.init _) => none
  | .table (.write table entry opCode _) =>
    if m.initialised = false ∨ writableTable table = false ∨ entry = none ∨ entry = some [] then
      some (.table (.status .error))
    else if opCode ≠ opAdd ∧ opCode ≠ opDel then some (.table (.status .error))
    else none
  | .table (.read table _ _) =>
    if m.initialised = false ∨ validTable table = false then some (.table (.entry none)) else none
  | .table (.rewind table) =>
    if m.initialised = false ∨ validTable table = false then some (.table .unit) else none
  | .table (.tableCount table) =>
    if m.initialised = false ∨ validTable table = false then some (.table (.count 0)) else none
  | .table .generation =>
    if m.initialised = false then some (.table (.generation 0)) else none
  | .signal sigType _ =>
    if m.initialised = false ∨ signalSlots ≤ sigType then some .unit else none
  | .emit sigType =>
    if m.initialised = false ∨ signalSlots ≤ sigType then some (.handler none) else none
  | .quit => none

/-- The first instruction under the mutex. -/
def start : Op → Pc
  | .table (.init _) => .initTest
  | .table (.write table entry opCode a) =>
    match storeFor table, entry with
    | some i, some entry =>
      if opCode = opAdd then .ensureCapacity i entry a else .scan i entry 0
    | _, _ => .null
  | .table (.read table entry malloc) =>
    match storeFor table with
    | some i => .enter i entry malloc
    | none => .null
  | .table (.rewind table) =>
    match storeFor table with
    | some i => .rewind i
    | none => .null
  | .table (.tableCount table) =>
    match storeFor table with
    | some i => .tableCount i
    | none => .null
  | .table .generation => .generation
  | .signal sigType handler => .signal sigType handler
  | .emit sigType => .emit sigType
  | .quit => .freeStore 0 0

namespace Mem

def withStore (m : Mem) (i : Fin tableSlots) (st : Store) : Mem :=
  { m with tables := Function.update m.tables i st }

/-- `n` bytes at an address. -/
def bytes (m : Mem) (p n : ℕ) : Option Entry :=
  match m.heap p with
  | none => none
  | some b => if n ≤ b.length then some (b.take n) else none

def alloc (m : Mem) (p : ℕ) (b : Entry) : Mem :=
  { m with heap := Function.update m.heap p (some b) }

def dealloc (m : Mem) (p : ℕ) : Mem := { m with heap := Function.update m.heap p none }

end Mem

/-- `if (entry && (size > items[j].size || memcmp(items[j].data, entry, size) != 0))`, turned
around; `none` where the bytes are not there. -/
def Mem.matches (m : Mem) (it : Item) : Option Entry → Option Bool
  | none => some true
  | some entry =>
    if it.size < entry.length then some false
    else (m.bytes it.data entry.length).map fun b => decide (b = entry)

def statusOk : Ret := .table (.status .ok)

def statusError : Ret := .table (.status .error)

/-- One instruction. -/
def instr (m : Mem) (pc : Pc) (e : Answer) : Option (Micro Mem Pc Ret) :=
  match pc with
  | .null => some .fault
  | .initTest => if m.initialised then some (.done m statusOk) else some (.next m .initTables)
  | .initTables => some (.next { m with tables := fun _ => {} } .initSignals)
  | .initSignals =>
    some (.next { m with signals := List.replicate signalSlots none } .initGeneration)
  | .initGeneration => some (.next { m with generation := 0 } .initFlag)
  | .initFlag => some (.done { m with initialised := true } statusOk)
  | .freeStore i j =>
    if hi : i < tableSlots then
      if j < (m.tables ⟨i, hi⟩).count then
        match (m.tables ⟨i, hi⟩).items[j]? with
        | none => some .fault
        | some it =>
          if m.heap it.data = none then some .fault
          else some (.next (m.dealloc it.data) (.freeStore i (j + 1)))
      else some (.next (m.withStore ⟨i, hi⟩ {}) (.freeStore (i + 1) 0))
    else some (.next m .quitSignals)
  | .quitSignals => some (.next { m with signals := List.replicate signalSlots none } .quitFlag)
  | .quitFlag => some (.next { m with initialised := false } .quitGeneration)
  | .quitGeneration => some (.done { m with generation := 0 } .unit)
  | .ensureCapacity i entry a =>
    let st := m.tables i
    if st.count < st.items.length then some (.next m (.malloc i entry a))
    else
      let next := if st.items.length ≠ 0 then st.items.length * 2 else 8
      if a.realloc && decide (next * itemSize < 2 ^ 63) then
        if e.places.length = next - st.items.length then
          some (.next (m.withStore i { st with items := st.items ++ e.places })
            (.malloc i entry a))
        else none
      else some (.done m statusError)
  | .malloc i entry a =>
    if a.malloc then
      if m.heap e.address = none then
        some (.next (m.alloc e.address entry) (.setData i e.address entry.length))
      else none
    else some (.done m statusError)
  | .setData i p n =>
    let st := m.tables i
    match st.items[st.count]? with
    | none => some .fault
    | some it =>
      some (.next (m.withStore i { st with items := st.items.set st.count { it with data := p } })
        (.setSize i n))
  | .setSize i n =>
    let st := m.tables i
    match st.items[st.count]? with
    | none => some .fault
    | some it =>
      some (.next (m.withStore i { st with items := st.items.set st.count { it with size := n } })
        (.countUp i))
  | .countUp i =>
    let st := m.tables i
    some (.next (m.withStore i { st with count := st.count + 1 }) .generationUp)
  | .scan i entry j =>
    let st := m.tables i
    if j < st.count then
      match st.items[j]? with
      | none => some .fault
      | some it =>
        if it.size = entry.length then
          match m.bytes it.data entry.length with
          | none => some .fault
          | some b =>
            if b = entry then some (.next m (.free i j)) else some (.next m (.scan i entry (j + 1)))
        else some (.next m (.scan i entry (j + 1)))
    else some (.done m statusError)
  | .free i j =>
    match (m.tables i).items[j]? with
    | none => some .fault
    | some it =>
      if m.heap it.data = none then some .fault
      else some (.next (m.dealloc it.data) (.move i j))
  | .move i j =>
    let st := m.tables i
    if j < st.count ∧ st.count ≤ st.items.length then
      let items := st.items.take j ++ (st.items.drop (j + 1)).take (st.count - j - 1) ++
        st.items.drop (st.count - 1)
      some (.next (m.withStore i { st with items := items }) (.countDown i))
    else some .fault
  | .countDown i =>
    let st := m.tables i
    some (.next (m.withStore i { st with count := st.count - 1 }) (.clamp i))
  | .clamp i =>
    let st := m.tables i
    if st.count < st.cursor then
      some (.next (m.withStore i { st with cursor := st.count }) .generationUp)
    else some (.next m .generationUp)
  | .generationUp => some (.done { m with generation := m.generation + 1 } statusOk)
  | .enter i entry malloc => some (.next m (.look i entry malloc (m.tables i).cursor))
  | .look i entry malloc j =>
    let st := m.tables i
    if j < st.count then
      match st.items[j]? with
      | none => some .fault
      | some it =>
        match m.matches it entry with
        | none => some .fault
        | some false => some (.next m (.look i entry malloc (j + 1)))
        | some true =>
          if malloc then some (.next m (.copy i j)) else some (.done m (.table (.entry none)))
    else some (.done m (.table (.entry none)))
  | .copy i j =>
    match (m.tables i).items[j]? with
    | none => some .fault
    | some it =>
      match m.bytes it.data it.size with
      | none => some .fault
      | some b => some (.next m (.advance i j b))
  | .advance i j b =>
    some (.done (m.withStore i { m.tables i with cursor := j + 1 }) (.table (.entry (some b))))
  | .rewind i => some (.done (m.withStore i { m.tables i with cursor := 0 }) (.table .unit))
  | .tableCount i => some (.done m (.table (.count (m.tables i).count)))
  | .generation => some (.done m (.table (.generation m.generation)))
  | .signal sigType handler =>
    if sigType < m.signals.length then
      some (.done { m with signals := m.signals.set sigType handler } .unit)
    else some .fault
  | .emit sigType =>
    match m.signals[sigType]? with
    | none => some .fault
    | some h => some (.done m (.handler h))

/-- `daim_core.c` as an object under one mutex. -/
def core : Monitor Mem Pc Answer Op Ret where
  check := check
  start := start
  body _ := instr

/-- The interface, one call at a time. -/
def exec (s : CoreTables.State) : Op → CoreTables.State × Ret
  | .table op => ((TableRefinement.exec s op).1, .table (TableRefinement.exec s op).2)
  | .signal sigType handler =>
    ({ s with toCoreState := Core.daimSignal s.toCoreState sigType handler }, .unit)
  | .emit sigType => (s, .handler (Core.daimCoreEmit s.toCoreState sigType))
  | .quit => (daimQuit s, .unit)

end DaimDistributed.CoreMonitor
