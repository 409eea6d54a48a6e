import DaimDistributed.CoreMonitor

/-!
The bodies of `daim_core.c`, and the table store their memory stands for.

The items in use point at blocks of their own, and every block is pointed at. Under the mutex an
operation leaves that for a while; what it does in between is described, instruction by
instruction, by the memory it has started from.
-/

namespace DaimDistributed.CoreBodies

open CoreTables Monitors CoreMonitor Transitions
open DaimDistributed.Core (signalSlots)

variable {m m' : Mem} {i k : Fin tableSlots} {j n p c : ℕ} {st : Store} {h : ℕ → Option Entry}
  {it : Item} {e b : Entry} {a : Alloc} {table : UInt8}

/-! ### What the memory stands for -/

/-- The items in use. -/
def live (st : Store) : List Item := st.items.take st.count

def pointers (st : Store) : List ℕ := (live st).map Item.data

def content (h : ℕ → Option Entry) (it : Item) : Entry := ((h it.data).getD []).take it.size

def denoteStore (h : ℕ → Option Entry) (st : Store) : TableStore where
  items := (live st).map (content h)
  capacity := st.items.length
  cursor := st.cursor

def denote (m : Mem) : CoreTables.State where
  lockReady := true
  initialised := m.initialised
  signals := m.signals
  generation := m.generation
  tables i := denoteStore m.heap (m.tables i)

/-- A block of the size that the item says. -/
def Block (h : ℕ → Option Entry) (it : Item) : Prop := ∃ b, h it.data = some b ∧ b.length = it.size

/-- An initialised core with nobody at work. -/
structure Inv (m : Mem) : Prop where
  initialised : m.initialised = true
  signals : m.signals.length = signalSlots
  count : ∀ i, (m.tables i).count ≤ (m.tables i).items.length
  block : ∀ i, ∀ it ∈ live (m.tables i), Block m.heap it
  nodup : ∀ i, (pointers (m.tables i)).Nodup
  apart : ∀ i k, k ≠ i → ∀ p ∈ pointers (m.tables k), p ∉ pointers (m.tables i)
  /-- No block is lost. -/
  owned : ∀ p, m.heap p ≠ none → ∃ i, p ∈ pointers (m.tables i)

/-- A memory in which one store and the heap are different. -/
def put (m : Mem) (i : Fin tableSlots) (st : Store) (h : ℕ → Option Entry) : Mem :=
  { m with tables := Function.update m.tables i st, heap := h }

@[simp] lemma put_self : put m i (m.tables i) m.heap = m := by
  simp [put]

@[simp] lemma put_tables : (put m i st h).tables i = st := Function.update_self ..

@[simp] lemma put_heap : (put m i st h).heap = h := rfl

lemma put_tables_of_ne (hk : k ≠ i) : (put m i st h).tables k = m.tables k :=
  Function.update_of_ne hk ..

@[simp] lemma withStore_put (st' : Store) : (put m i st h).withStore i st' = put m i st' h := by
  simp [put, Mem.withStore]

lemma content_of_block (hb : h it.data = some b) (hn : b.length = it.size) :
    content h it = b := by
  rw [content, hb, Option.getD_some, List.take_of_length_le hn.le]

lemma content_congr {h' : ℕ → Option Entry} (he : h it.data = h' it.data) :
    content h it = content h' it := by
  rw [content, content, he]

lemma mem_pointers (hm : it ∈ live st) : it.data ∈ pointers st := List.mem_map_of_mem hm

/-- The item at a place in use. -/
lemma Inv.getElem? (hi : Inv m) (hj : j < (m.tables i).count) :
    ∃ it b, (m.tables i).items[j]? = some it ∧ it ∈ live (m.tables i) ∧ m.heap it.data = some b ∧
      b.length = it.size ∧ ((denote m).tables i).items[j]? = some b := by
  have hlt : j < (m.tables i).items.length := hj.trans_le (hi.count i)
  have hget : (live (m.tables i))[j]? = some (m.tables i).items[j] := by
    rw [live, List.getElem?_take_of_lt hj, List.getElem?_eq_getElem hlt]
  have hm := List.mem_of_getElem? hget
  obtain ⟨b, hb, hn⟩ := hi.block i _ hm
  refine ⟨_, b, List.getElem?_eq_getElem hlt, hm, hb, hn, ?_⟩
  change ((live (m.tables i)).map (content m.heap))[j]? = _
  rw [List.getElem?_map, hget, Option.map_some, content_of_block hb hn]

lemma Inv.length_items (hi : Inv m) : ((denote m).tables i).items.length = (m.tables i).count := by
  change ((live (m.tables i)).map (content m.heap)).length = _
  rw [List.length_map, live, List.length_take, Nat.min_eq_left (hi.count i)]

lemma Inv.heap_of_mem (hi : Inv m) (hp : p ∈ pointers (m.tables i)) : m.heap p ≠ none := by
  obtain ⟨it, hm, rfl⟩ := List.mem_map.mp hp
  obtain ⟨b, hb, -⟩ := hi.block i it hm
  simp [hb]

/-- There is always an address that is not taken. -/
lemma Inv.exists_fresh (hi : Inv m) : ∃ p, m.heap p = none := by
  obtain ⟨p, hp⟩ := Infinite.exists_notMem_finset
    (Finset.univ.biUnion fun i => (pointers (m.tables i)).toFinset)
  refine ⟨p, ?_⟩
  by_contra hne
  obtain ⟨i, hm⟩ := hi.owned p hne
  exact hp (Finset.mem_biUnion.mpr ⟨i, Finset.mem_univ i, List.mem_toFinset.mpr hm⟩)

lemma bytes_of_block (hb : m.heap p = some b) (hn : n ≤ b.length) :
    m.bytes p n = some (b.take n) := by
  simp [Mem.bytes, hb, hn]

/-- A change of one store and of blocks that only it points at. -/
lemma denote_put (hh : ∀ k ≠ i, ∀ p ∈ pointers (m.tables k), h p = m.heap p) :
    denote (put m i st h) =
      { denote m with tables := Function.update (denote m).tables i (denoteStore h st) } := by
  have ht : (denote (put m i st h)).tables =
      Function.update (denote m).tables i (denoteStore h st) := by
    funext k
    by_cases hk : k = i
    · subst hk
      simp [denote]
    · rw [Function.update_of_ne hk]
      change denoteStore h ((put m i st h).tables k) = denoteStore m.heap (m.tables k)
      rw [put_tables_of_ne hk, denoteStore, denoteStore]
      congr 1
      exact List.map_congr_left fun it hm => content_congr (hh k hk _ (mem_pointers hm))
  rw [← ht]
  rfl

lemma inv_put (hi : Inv m) (hc : st.count ≤ st.items.length) (hb : ∀ it ∈ live st, Block h it)
    (hn : (pointers st).Nodup)
    (hh : ∀ k ≠ i, ∀ p ∈ pointers (m.tables k), p ∉ pointers st ∧ h p = m.heap p)
    (ho : ∀ p, h p ≠ none → p ∈ pointers st ∨ ∃ k ≠ i, p ∈ pointers (m.tables k)) (g : UInt64) :
    Inv { put m i st h with generation := g } where
  initialised := hi.initialised
  signals := hi.signals
  count k := by
    change ((put m i st h).tables k).count ≤ _
    by_cases hk : k = i
    · subst hk
      simpa using hc
    · simpa [put_tables_of_ne hk] using hi.count k
  block k it hm := by
    change it ∈ live ((put m i st h).tables k) at hm
    by_cases hk : k = i
    · subst hk
      rw [put_tables] at hm
      exact hb it hm
    · rw [put_tables_of_ne hk] at hm
      obtain ⟨b, hb', hn'⟩ := hi.block k it hm
      exact ⟨b, ((hh k hk _ (mem_pointers hm)).2).trans hb', hn'⟩
  nodup k := by
    change (pointers ((put m i st h).tables k)).Nodup
    by_cases hk : k = i
    · subst hk
      simpa using hn
    · simpa [put_tables_of_ne hk] using hi.nodup k
  apart k l hne p hp := by
    change p ∈ pointers ((put m i st h).tables l) at hp
    change p ∉ pointers ((put m i st h).tables k)
    by_cases hk : k = i
    · subst hk
      rw [put_tables_of_ne hne] at hp
      rw [put_tables]
      exact (hh l hne p hp).1
    · rw [put_tables_of_ne hk]
      by_cases hl : l = i
      · subst hl
        rw [put_tables] at hp
        exact fun hp' => (hh k hk p hp').1 hp
      · rw [put_tables_of_ne hl] at hp
        exact hi.apart k l hne p hp
  owned p hp := by
    rcases ho p hp with h1 | ⟨k, hk, h1⟩
    · exact ⟨i, by simpa [put] using h1⟩
    · exact ⟨k, by simpa [put, hk] using h1⟩

/-! ### The bodies -/

/-- What the test of `daim_table_write` leaves over. -/
structure Accepted (table : UInt8) (e : Entry) (i : Fin tableSlots) : Prop where
  slot : storeFor table = some i
  writable : writableTable table = true
  nonempty : e ≠ []

/-- The array of an `ADD`, once it has room for one more. -/
structure Roomy (m : Mem) (i : Fin tableSlots) (a : Alloc) (its : List Item) : Prop where
  capacity : CoreTables.ensureCapacity ((denote m).tables i) a.realloc =
    some { (denote m).tables i with capacity := its.length }
  take : its.take (m.tables i).count = live (m.tables i)
  room : (m.tables i).count < its.length

/-- The place at which a `DEL` has found its entry. -/
structure Found (m : Mem) (i : Fin tableSlots) (e : Entry) (j : ℕ) (it : Item) : Prop where
  lt : j < (m.tables i).count
  find : ((denote m).tables i).items.findIdx? (fun x => x = e) = some j
  item : (m.tables i).items[j]? = some it

/-- The array of a `DEL`, once the items behind have moved up. -/
structure Closed (m : Mem) (i : Fin tableSlots) (j : ℕ) (its : List Item) : Prop where
  length : its.length = (m.tables i).items.length
  take : its.take ((m.tables i).count - 1) = (live (m.tables i)).eraseIdx j

/-- No entry before `j` is one that a read takes. -/
def Passed (m : Mem) (i : Fin tableSlots) (entry : Option Entry) (j : ℕ) : Prop :=
  (m.tables i).cursor ≤ j ∧ ∀ k, (m.tables i).cursor ≤ k → k < j →
    ∀ b ∈ ((denote m).tables i).items[k]?, selects entry b = false

/-- The memory a body has made of `m`, at each of its instructions. -/
inductive At (m : Mem) : Op → Mem → Pc → Prop
  | initTest {b : Bool} : At m (.table (.init b)) m .initTest
  | ensureCapacity {table : UInt8} {e : Entry} {i : Fin tableSlots} {a : Alloc}
      (hw : Accepted table e i) :
      At m (.table (.write table (some e) opAdd a)) m (.ensureCapacity i e a)
  | malloc {table : UInt8} {e : Entry} {i : Fin tableSlots} {a : Alloc} {its : List Item}
      (hw : Accepted table e i) (hr : Roomy m i a its) :
      At m (.table (.write table (some e) opAdd a))
        (put m i { m.tables i with items := its } m.heap) (.malloc i e a)
  | setData {table : UInt8} {e : Entry} {i : Fin tableSlots} {a : Alloc} {its : List Item} {p : ℕ}
      (hw : Accepted table e i) (hr : Roomy m i a its) (ha : a.malloc = true)
      (hp : m.heap p = none) :
      At m (.table (.write table (some e) opAdd a))
        (put m i { m.tables i with items := its } (Function.update m.heap p (some e)))
        (.setData i p e.length)
  | setSize {table : UInt8} {e : Entry} {i : Fin tableSlots} {a : Alloc} {its : List Item} {p n : ℕ}
      (hw : Accepted table e i) (hr : Roomy m i a its) (ha : a.malloc = true)
      (hp : m.heap p = none) (hg : its[(m.tables i).count]? = some ⟨p, n⟩) :
      At m (.table (.write table (some e) opAdd a))
        (put m i { m.tables i with items := its } (Function.update m.heap p (some e)))
        (.setSize i e.length)
  | countUp {table : UInt8} {e : Entry} {i : Fin tableSlots} {a : Alloc} {its : List Item} {p : ℕ}
      (hw : Accepted table e i) (hr : Roomy m i a its) (ha : a.malloc = true)
      (hp : m.heap p = none) (hg : its[(m.tables i).count]? = some ⟨p, e.length⟩) :
      At m (.table (.write table (some e) opAdd a))
        (put m i { m.tables i with items := its } (Function.update m.heap p (some e)))
        (.countUp i)
  | scan {table : UInt8} {e : Entry} {i : Fin tableSlots} {a : Alloc} {j : ℕ}
      (hw : Accepted table e i) (hn : ∀ b ∈ ((denote m).tables i).items.take j, b ≠ e) :
      At m (.table (.write table (some e) opDel a)) m (.scan i e j)
  | free {table : UInt8} {e : Entry} {i : Fin tableSlots} {a : Alloc} {j : ℕ} {it : Item}
      (hw : Accepted table e i) (hf : Found m i e j it) :
      At m (.table (.write table (some e) opDel a)) m (.free i j)
  | move {table : UInt8} {e : Entry} {i : Fin tableSlots} {a : Alloc} {j : ℕ} {it : Item}
      (hw : Accepted table e i) (hf : Found m i e j it) :
      At m (.table (.write table (some e) opDel a))
        (put m i (m.tables i) (Function.update m.heap it.data none)) (.move i j)
  | countDown {table : UInt8} {e : Entry} {i : Fin tableSlots} {a : Alloc} {j : ℕ} {it : Item}
      {its : List Item} (hw : Accepted table e i) (hf : Found m i e j it) (hc : Closed m i j its) :
      At m (.table (.write table (some e) opDel a))
        (put m i { m.tables i with items := its } (Function.update m.heap it.data none))
        (.countDown i)
  | clamp {table : UInt8} {e : Entry} {i : Fin tableSlots} {a : Alloc} {j : ℕ} {it : Item}
      {its : List Item} (hw : Accepted table e i) (hf : Found m i e j it) (hc : Closed m i j its) :
      At m (.table (.write table (some e) opDel a))
        (put m i { m.tables i with items := its, count := (m.tables i).count - 1 }
          (Function.update m.heap it.data none)) (.clamp i)
  | generationUp {op : Op} {m' : Mem} (hi : Inv { m' with generation := m'.generation + 1 })
      (hx : exec (denote m) op = (denote { m' with generation := m'.generation + 1 }, statusOk)) :
      At m op m' .generationUp
  | enter {table : UInt8} {i : Fin tableSlots} {entry : Option Entry} {malloc : Bool}
      (hs : storeFor table = some i) :
      At m (.table (.read table entry malloc)) m (.enter i entry malloc)
  | look {table : UInt8} {i : Fin tableSlots} {entry : Option Entry} {malloc : Bool} {j : ℕ}
      (hs : storeFor table = some i) (hn : Passed m i entry j) :
      At m (.table (.read table entry malloc)) m (.look i entry malloc j)
  | copy {table : UInt8} {i : Fin tableSlots} {entry : Option Entry} {j : ℕ}
      (hs : storeFor table = some i) (hj : j < (m.tables i).count)
      (hf : ((denote m).tables i).next entry = some j) :
      At m (.table (.read table entry true)) m (.copy i j)
  | advance {table : UInt8} {i : Fin tableSlots} {entry : Option Entry} {j : ℕ} {b : Entry}
      (hs : storeFor table = some i) (hj : ((denote m).tables i).items[j]? = some b)
      (hf : ((denote m).tables i).next entry = some j) :
      At m (.table (.read table entry true)) m (.advance i j b)
  | rewind {table : UInt8} {i : Fin tableSlots} (hs : storeFor table = some i) :
      At m (.table (.rewind table)) m (.rewind i)
  | tableCount {table : UInt8} {i : Fin tableSlots} (hs : storeFor table = some i) :
      At m (.table (.tableCount table)) m (.tableCount i)
  | generation : At m (.table .generation) m .generation
  | signal {sigType : ℕ} {handler : Option Core.Sighandler} (hs : sigType < signalSlots) :
      At m (.signal sigType handler) m (.signal sigType handler)
  | emit {sigType : ℕ} (hs : sigType < signalSlots) : At m (.emit sigType) m (.emit sigType)

variable {op : Op} {pc : Pc}

lemma At.initialised (hi : Inv m) (hat : At m op m' pc) : m'.initialised = true := by
  cases hat with
  | generationUp hi' => exact hi'.initialised
  | _ => exact hi.initialised

/-- Every call but `daim_quit`. -/
def NotQuit (op : Op) : Prop := op ≠ .quit

instance : DecidablePred NotQuit := fun op => inferInstanceAs (Decidable (op ≠ .quit))

/-! ### The calls of the atomic store -/

lemma exec_add (hw : Accepted table e i) (hi : m.initialised = true) {st : TableStore} {w : Bool}
    (hadd : ((denote m).tables i).add e a = (st, w)) :
    exec (denote m) (.table (.write table (some e) opAdd a)) =
      ({ denote m with
          generation := if w then m.generation + 1 else m.generation
          tables := Function.update (denote m).tables i st },
        .table (.status (if w then .ok else .error))) := by
  have hn : ¬((denote m).lockReady = false ∨ (denote m).initialised = false ∨
      writableTable table = false ∨ e = []) := by
    simp [denote, hi, hw.writable, hw.nonempty]
  simp only [exec, TableRefinement.exec, daimTableWrite, hw.slot, if_neg hn, hadd, State.put]
  cases w <;> rfl

lemma exec_del (hw : Accepted table e i) (hi : m.initialised = true) :
    exec (denote m) (.table (.write table (some e) opDel a)) =
      match ((denote m).tables i).del e with
      | none => (denote m, statusError)
      | some st =>
        ({ denote m with
            generation := m.generation + 1
            tables := Function.update (denote m).tables i st }, statusOk) := by
  have hn : ¬((denote m).lockReady = false ∨ (denote m).initialised = false ∨
      writableTable table = false ∨ e = []) := by
    simp [denote, hi, hw.writable, hw.nonempty]
  have ho : ¬(opDel ≠ opAdd ∧ opDel ≠ opDel) := by simp
  simp only [exec, TableRefinement.exec, daimTableWrite, hw.slot, if_neg hn, if_neg ho,
    if_neg TableRefinement.opDel_ne_opAdd]
  cases ((denote m).tables i).del e <;> rfl

lemma exec_read {entry : Option Entry} {malloc : Bool} (hs : storeFor table = some i)
    (hi : m.initialised = true) {st : TableStore} {r : Option Entry}
    (hr : ((denote m).tables i).read entry malloc = (st, r)) :
    exec (denote m) (.table (.read table entry malloc)) =
      ({ denote m with tables := Function.update (denote m).tables i st }, .table (.entry r)) := by
  have hn : ¬((denote m).lockReady = false ∨ (denote m).initialised = false) := by simp [denote, hi]
  simp only [exec, TableRefinement.exec, daimTableRead, hs, if_neg hn, hr]

/-! ### `ADD` -/

/-- The entry is where the next one goes, and nothing else is different. -/
lemma Inv.added (hi : Inv m) {its : List Item} (hp : m.heap p = none)
    (ht : its.take (m.tables i).count = live (m.tables i))
    (hg : its[(m.tables i).count]? = some ⟨p, e.length⟩) (g : UInt64) :
    let st : Store := { m.tables i with items := its, count := (m.tables i).count + 1 }
    let h := Function.update m.heap p (some e)
    Inv { put m i st h with generation := g } ∧
      denote (put m i st h) =
        { denote m with
          tables := Function.update (denote m).tables i
            { (denote m).tables i with
              capacity := its.length, items := ((denote m).tables i).items ++ [e] } } := by
  intro st h
  have hlive : live st = live (m.tables i) ++ [⟨p, e.length⟩] := by
    have hlt : (m.tables i).count < its.length := (List.getElem?_eq_some_iff.mp hg).1
    rw [live, List.take_add_one, ht, hg, Option.toList_some]
  have hne : ∀ k, ∀ q ∈ pointers (m.tables k), q ≠ p := fun k q hq he =>
    hi.heap_of_mem hq (he ▸ hp)
  have hh : ∀ k, ∀ q ∈ pointers (m.tables k), h q = m.heap q := fun k q hq =>
    Function.update_of_ne (hne k q hq) ..
  have hptr : pointers st = pointers (m.tables i) ++ [p] := by
    rw [pointers, hlive, List.map_append]
    rfl
  refine ⟨inv_put hi ?_ ?_ ?_ ?_ ?_ g, ?_⟩
  · exact (List.getElem?_eq_some_iff.mp hg).1
  · intro it hm
    rw [hlive, List.mem_append, List.mem_singleton] at hm
    rcases hm with hm | rfl
    · obtain ⟨b, hb, hn⟩ := hi.block i it hm
      exact ⟨b, (hh i _ (mem_pointers hm)).trans hb, hn⟩
    · exact ⟨e, Function.update_self .., rfl⟩
  · rw [hptr, List.nodup_append]
    refine ⟨hi.nodup i, List.nodup_singleton p, fun q hq q' hq' => ?_⟩
    rw [List.mem_singleton.mp hq']
    exact hne i q hq
  · intro k hk q hq
    refine ⟨?_, hh k q hq⟩
    rw [hptr, List.mem_append, List.mem_singleton, not_or]
    exact ⟨hi.apart i k hk q hq, hne k q hq⟩
  · intro q hq
    by_cases he : q = p
    · exact .inl (by simp [hptr, he])
    · have hq' : m.heap q ≠ none := by simpa [h, he] using hq
      obtain ⟨k, hk⟩ := hi.owned q hq'
      by_cases hki : k = i
      · exact .inl (by rw [hptr, ← hki]; exact List.mem_append_left _ hk)
      · exact .inr ⟨k, hki, hk⟩
  · rw [denote_put fun k _ => hh k]
    have hs : denoteStore h st = { (denote m).tables i with
        capacity := its.length, items := ((denote m).tables i).items ++ [e] } := by
      have hc : content h ⟨p, e.length⟩ = e :=
        content_of_block (Function.update_self ..) rfl
      have hmap : (live (m.tables i)).map (content h) = ((denote m).tables i).items :=
        List.map_congr_left fun it hm => content_congr (hh i _ (mem_pointers hm))
      rw [denoteStore, hlive, List.map_append, hmap, List.map_singleton, hc]
      rfl
    rw [hs]

/-- The array has grown, and nobody can see it. -/
lemma Inv.grown (hi : Inv m) {its : List Item}
    (ht : its.take (m.tables i).count = live (m.tables i)) (hl : (m.tables i).count < its.length) :
    let st : Store := { m.tables i with items := its }
    Inv (put m i st m.heap) ∧
      denote (put m i st m.heap) =
        { denote m with
          tables := Function.update (denote m).tables i
            { (denote m).tables i with capacity := its.length } } := by
  intro st
  have hlive : live st = live (m.tables i) := ht
  have hptr : pointers st = pointers (m.tables i) := congrArg (List.map Item.data) hlive
  refine ⟨inv_put hi hl.le ?_ ?_ ?_ ?_ m.generation, ?_⟩
  · rw [hlive]
    exact hi.block i
  · rw [hptr]
    exact hi.nodup i
  · intro k hk q hq
    rw [hptr]
    exact ⟨hi.apart i k hk q hq, rfl⟩
  · intro q hq
    obtain ⟨k, hk⟩ := hi.owned q hq
    by_cases hki : k = i
    · exact .inl (by rw [hptr, ← hki]; exact hk)
    · exact .inr ⟨k, hki, hk⟩
  · rw [denote_put fun _ _ _ _ => rfl, denoteStore, hlive]
    rfl

variable {v : Micro Mem Pc Ret} {w : Answer} {its : List Item}

/-- What an instruction has to leave of a memory that `m` has become. -/
def Goes (m : Mem) (op : Op) (v : Micro Mem Pc Ret) : Prop :=
  v.Ok (At m op) fun m1 r => Inv m1 ∧ exec (denote m) op = (denote m1, r)

lemma goes_ensureCapacity (hi : Inv m) (hw : Accepted table e i)
    (hv : instr m (.ensureCapacity i e a) w = some v) :
    Goes m (.table (.write table (some e) opAdd a)) v := by
  have hcap : ((denote m).tables i).capacity = (m.tables i).items.length := rfl
  have hlen : ((denote m).tables i).items.length = (m.tables i).count := hi.length_items
  unfold instr at hv
  dsimp only at hv
  by_cases h1 : (m.tables i).count < (m.tables i).items.length
  · rw [if_pos h1, Option.some.injEq] at hv
    subst hv
    have hr : Roomy m i a (m.tables i).items := by
      refine ⟨?_, rfl, h1⟩
      rw [CoreTables.ensureCapacity, if_pos (by rw [hlen, hcap]; exact h1)]
      rfl
    have hat := At.malloc hw hr
    rwa [show ({ m.tables i with items := (m.tables i).items } : Store) = m.tables i from rfl,
      put_self] at hat
  rw [if_neg h1] at hv
  generalize hnext : (if (m.tables i).items.length ≠ 0 then (m.tables i).items.length * 2 else 8)
    = next at hv
  have hgrow : (m.tables i).items.length < next := by
    rw [← hnext]
    split_ifs <;> omega
  have hec : CoreTables.ensureCapacity ((denote m).tables i) a.realloc =
      if a.realloc && decide (next * itemSize < 2 ^ 63) then
        some { (denote m).tables i with capacity := next } else none := by
    rw [CoreTables.ensureCapacity, if_neg (by rw [hlen, hcap]; exact h1), ← hnext]
    rfl
  split_ifs at hv with h2 h3
  · cases hv
    have hl : ((m.tables i).items ++ w.places).length = next := by
      rw [List.length_append, h3]
      omega
    refine At.malloc hw ⟨?_, ?_, ?_⟩
    · rw [hec, if_pos h2, hl]
    · exact List.take_append_of_le_length (hi.count i)
    · rw [hl]
      exact (hi.count i).trans_lt hgrow
  · cases hv
    have hadd : ((denote m).tables i).add e a = ((denote m).tables i, false) := by
      rw [TableStore.add, hec, if_neg h2]
    refine ⟨hi, (exec_add hw hi.initialised hadd).trans ?_⟩
    rw [Function.update_eq_self]
    rfl

lemma Roomy.add (hr : Roomy m i a its) : ((denote m).tables i).add e a =
    if a.malloc then ({ (denote m).tables i with
      capacity := its.length, items := ((denote m).tables i).items ++ [e] }, true)
    else ({ (denote m).tables i with capacity := its.length }, false) := by
  rw [TableStore.add, hr.capacity]

lemma goes_malloc (hi : Inv m) (hw : Accepted table e i) (hr : Roomy m i a its)
    (hv : instr (put m i { m.tables i with items := its } m.heap) (.malloc i e a) w = some v) :
    Goes m (.table (.write table (some e) opAdd a)) v := by
  simp only [instr] at hv
  split_ifs at hv with ha hp
  · cases hv
    exact At.setData hw hr ha hp
  · cases hv
    obtain ⟨hi', hden⟩ := hi.grown hr.take hr.room
    have hadd := hr.add (e := e)
    rw [if_neg ha] at hadd
    exact ⟨hi', by rw [hden]; exact exec_add hw hi.initialised hadd⟩

/-- An item written behind those in use. -/
lemma Roomy.set (hr : Roomy m i a its) (it : Item) :
    Roomy m i a (its.set (m.tables i).count it) ∧
      (its.set (m.tables i).count it)[(m.tables i).count]? = some it := by
  refine ⟨⟨?_, ?_, ?_⟩, ?_⟩
  · rw [List.length_set]
    exact hr.capacity
  · rw [List.take_set_of_le le_rfl]
    exact hr.take
  · rw [List.length_set]
    exact hr.room
  · rw [List.getElem?_set_self hr.room]

lemma goes_setData (hw : Accepted table e i) (hr : Roomy m i a its) (ha : a.malloc = true)
    (hp : m.heap p = none)
    (hv : instr (put m i { m.tables i with items := its } (Function.update m.heap p (some e)))
      (.setData i p e.length) w = some v) :
    Goes m (.table (.write table (some e) opAdd a)) v := by
  obtain ⟨it, hit⟩ : ∃ it, its[(m.tables i).count]? = some it :=
    ⟨_, List.getElem?_eq_getElem hr.room⟩
  simp only [instr, put_tables, hit, withStore_put, Option.some.injEq] at hv
  subst hv
  obtain ⟨hr', hg⟩ := hr.set { it with data := p }
  exact At.setSize hw hr' ha hp hg

lemma goes_setSize (hw : Accepted table e i) (hr : Roomy m i a its) (ha : a.malloc = true)
    (hp : m.heap p = none) (hg : its[(m.tables i).count]? = some ⟨p, n⟩)
    (hv : instr (put m i { m.tables i with items := its } (Function.update m.heap p (some e)))
      (.setSize i e.length) w = some v) :
    Goes m (.table (.write table (some e) opAdd a)) v := by
  simp only [instr, put_tables, hg, withStore_put, Option.some.injEq] at hv
  subst hv
  obtain ⟨hr', hg'⟩ := hr.set ⟨p, e.length⟩
  exact At.countUp hw hr' ha hp hg'

lemma goes_countUp (hi : Inv m) (hw : Accepted table e i) (hr : Roomy m i a its)
    (ha : a.malloc = true) (hp : m.heap p = none)
    (hg : its[(m.tables i).count]? = some ⟨p, e.length⟩)
    (hv : instr (put m i { m.tables i with items := its } (Function.update m.heap p (some e)))
      (.countUp i) w = some v) :
    Goes m (.table (.write table (some e) opAdd a)) v := by
  simp only [instr, put_tables, withStore_put, Option.some.injEq] at hv
  subst hv
  obtain ⟨hi', hden⟩ := hi.added hp hr.take hg (m.generation + 1)
  have hadd := hr.add (e := e)
  rw [if_pos ha] at hadd
  refine At.generationUp hi' ((exec_add hw hi.initialised hadd).trans ?_)
  have hx : denote { put m i { m.tables i with items := its, count := (m.tables i).count + 1 }
      (Function.update m.heap p (some e)) with generation := m.generation + 1 } =
      { denote (put m i { m.tables i with items := its, count := (m.tables i).count + 1 }
        (Function.update m.heap p (some e))) with generation := m.generation + 1 } := rfl
  change _ = (denote { put m i _ _ with generation := m.generation + 1 }, _)
  rw [hx, hden]
  rfl

/-! ### `DEL` -/

/-- The item and its block are gone, and those behind it have moved up. -/
lemma Inv.removed (hi : Inv m) {its : List Item} (hj : j < (m.tables i).count)
    (hg : (m.tables i).items[j]? = some it) (hl : its.length = (m.tables i).items.length)
    (ht : its.take ((m.tables i).count - 1) = (live (m.tables i)).eraseIdx j) (c : ℕ) (g : UInt64) :
    let st : Store := ⟨its, (m.tables i).count - 1, c⟩
    let h := Function.update m.heap it.data none
    Inv { put m i st h with generation := g } ∧
      denote (put m i st h) =
        { denote m with
          tables := Function.update (denote m).tables i
            { (denote m).tables i with
              items := ((denote m).tables i).items.eraseIdx j, cursor := c } } := by
  intro st h
  have hlive : live st = (live (m.tables i)).eraseIdx j := ht
  have hptr : pointers st = (pointers (m.tables i)).eraseIdx j := by
    rw [pointers, hlive, pointers, List.eraseIdx_map]
  have hgp : (pointers (m.tables i))[j]? = some it.data := by
    rw [pointers, List.getElem?_map, live, List.getElem?_take_of_lt hj, hg, Option.map_some]
  have hmem : it.data ∈ pointers (m.tables i) := List.mem_of_getElem? hgp
  have hnot : it.data ∉ pointers st := by
    rw [hptr, List.mem_eraseIdx_iff_getElem?]
    rintro ⟨l, hne, hl⟩
    have hlt : j < (pointers (m.tables i)).length := (List.getElem?_eq_some_iff.mp hgp).1
    exact hne ((List.getElem?_inj hlt (hi.nodup i)).mp (hgp.trans hl.symm)).symm
  have hne : ∀ k ≠ i, ∀ q ∈ pointers (m.tables k), q ≠ it.data := fun k hk q hq he =>
    hi.apart i k hk q hq (he ▸ hmem)
  have hsub : ∀ q ∈ pointers st, q ∈ pointers (m.tables i) := fun q hq =>
    List.mem_of_mem_eraseIdx (hptr ▸ hq)
  have hh : ∀ q, q ≠ it.data → h q = m.heap q := fun q hq => Function.update_of_ne hq ..
  refine ⟨inv_put hi ?_ ?_ ?_ ?_ ?_ g, ?_⟩
  · have h1 := hi.count i
    change (m.tables i).count - 1 ≤ its.length
    omega
  · intro it' hm
    have hq : it'.data ≠ it.data := fun he => hnot (he ▸ mem_pointers hm)
    rw [hlive] at hm
    obtain ⟨b, hb, hn⟩ := hi.block i it' (List.mem_of_mem_eraseIdx hm)
    exact ⟨b, (hh _ hq).trans hb, hn⟩
  · rw [hptr]
    exact (hi.nodup i).sublist (List.eraseIdx_sublist ..)
  · intro k hk q hq
    exact ⟨fun hq' => hi.apart i k hk q hq (hsub q hq'), hh q (hne k hk q hq)⟩
  · intro q hq
    have he : q ≠ it.data := fun he => hq (by rw [he]; exact Function.update_self ..)
    rw [hh q he] at hq
    obtain ⟨k, hk⟩ := hi.owned q hq
    by_cases hki : k = i
    · subst hki
      obtain ⟨l, hl⟩ := List.mem_iff_getElem?.mp hk
      have hne : l ≠ j := fun hlj => he (Option.some.inj (hl.symm.trans (hlj ▸ hgp)))
      exact .inl (by rw [hptr]; exact List.mem_eraseIdx_iff_getElem?.mpr ⟨l, hne, hl⟩)
    · exact .inr ⟨k, hki, hk⟩
  · rw [denote_put fun k hk q hq => hh q (hne k hk q hq)]
    have hs : denoteStore h st = { (denote m).tables i with
        items := ((denote m).tables i).items.eraseIdx j, cursor := c } := by
      have hmap : (live st).map (content h) = ((denote m).tables i).items.eraseIdx j := by
        change _ = ((live (m.tables i)).map (content m.heap)).eraseIdx j
        rw [List.eraseIdx_map, ← hlive]
        refine List.map_congr_left fun it' hm => content_congr (hh _ fun he => hnot ?_)
        exact he ▸ mem_pointers hm
      have hcap : st.items.length = (m.tables i).items.length := hl
      rw [denoteStore, hmap, hcap]
      rfl
    rw [hs]

lemma goes_scan (hi : Inv m) (hw : Accepted table e i)
    (hn : ∀ b ∈ ((denote m).tables i).items.take j, b ≠ e)
    (hv : instr m (.scan i e j) w = some v) :
    Goes m (.table (.write table (some e) opDel a)) v := by
  simp only [instr] at hv
  by_cases hj : j < (m.tables i).count
  · obtain ⟨it, b, hit, -, hb, hsz, hget⟩ := hi.getElem? hj
    rw [if_pos hj, hit] at hv
    dsimp only at hv
    have hnext : b ≠ e → Goes m (.table (.write table (some e) opDel a))
        (.next m (.scan i e (j + 1))) := fun hbe => by
      refine At.scan hw fun b' hb' => ?_
      rw [List.take_add_one, hget, Option.toList_some, List.mem_append,
        List.mem_singleton] at hb'
      rcases hb' with hb' | rfl
      · exact hn b' hb'
      · exact hbe
    split_ifs at hv with hs
    · have hbl : b.length = e.length := hsz.trans hs
      rw [bytes_of_block hb hbl.ge, ← hbl, List.take_length] at hv
      dsimp only at hv
      split_ifs at hv with hbe
      · cases hv
        refine At.free hw ⟨hj, ?_, hit⟩
        obtain ⟨hlt, hbj⟩ := List.getElem?_eq_some_iff.mp hget
        refine List.findIdx?_eq_some_iff_getElem.mpr ⟨hlt, ?_, fun k hk => ?_⟩
        · simp [hbj, hbe]
        · have h1 := hn _ (List.mem_take_iff_getElem.mpr ⟨k, by omega, rfl⟩)
          simpa using h1
      · cases hv
        exact hnext hbe
    · cases hv
      exact hnext fun hbe => hs (by rw [← hsz, hbe])
  · rw [if_neg hj] at hv
    cases hv
    have hdel : ((denote m).tables i).del e = none := by
      rw [TableStore.del_eq, if_neg]
      intro hm
      rw [List.take_of_length_le (hi.length_items.trans_le (not_lt.mp hj))] at hn
      exact hn e hm rfl
    refine ⟨hi, (exec_del hw hi.initialised).trans ?_⟩
    rw [hdel]

lemma goes_free (hi : Inv m) (hw : Accepted table e i) (hf : Found m i e j it)
    (hv : instr m (.free i j) w = some v) :
    Goes m (.table (.write table (some e) opDel a)) v := by
  obtain ⟨it', b, hit, -, hb, -, -⟩ := hi.getElem? hf.lt
  obtain rfl : it = it' := Option.some.inj (hf.item.symm.trans hit)
  simp only [instr, hit, hb] at hv
  cases hv
  have hput : m.dealloc it.data =
      put m i (m.tables i) (Function.update m.heap it.data none) := by
    rw [put, Function.update_eq_self]
    rfl
  change At m _ (m.dealloc it.data) _
  rw [hput]
  exact At.move hw hf

/-- Moving the items behind `j` up closes the gap. -/
lemma Found.closed (hi : Inv m) (hf : Found m i e j it) :
    Closed m i j ((m.tables i).items.take j ++
      ((m.tables i).items.drop (j + 1)).take ((m.tables i).count - j - 1) ++
        (m.tables i).items.drop ((m.tables i).count - 1)) := by
  have h1 := hi.count i
  have h2 := hf.lt
  refine ⟨?_, ?_⟩
  · simp only [List.length_append, List.length_take, List.length_drop]
    omega
  · have hlen : ((m.tables i).items.take j ++
        ((m.tables i).items.drop (j + 1)).take ((m.tables i).count - j - 1)).length =
          (m.tables i).count - 1 := by
      simp only [List.length_append, List.length_take, List.length_drop]
      omega
    rw [List.take_append_of_le_length hlen.ge, List.take_of_length_le hlen.le,
      List.eraseIdx_eq_take_drop_succ, live, List.take_take, List.drop_take,
      Nat.min_eq_left h2.le]
    congr 2

lemma goes_move (hi : Inv m) (hw : Accepted table e i) (hf : Found m i e j it)
    (hv : instr (put m i (m.tables i) (Function.update m.heap it.data none)) (.move i j) w =
      some v) :
    Goes m (.table (.write table (some e) opDel a)) v := by
  simp only [instr, put_tables, withStore_put] at hv
  rw [if_pos ⟨hf.lt, hi.count i⟩] at hv
  cases hv
  exact At.countDown hw hf (hf.closed hi)

lemma goes_countDown (hw : Accepted table e i) (hf : Found m i e j it) (hc : Closed m i j its)
    (hv : instr (put m i { m.tables i with items := its } (Function.update m.heap it.data none))
      (.countDown i) w = some v) :
    Goes m (.table (.write table (some e) opDel a)) v := by
  simp only [instr, put_tables, withStore_put, Option.some.injEq] at hv
  subst hv
  exact At.clamp hw hf hc

lemma goes_clamp (hi : Inv m) (hw : Accepted table e i) (hf : Found m i e j it)
    (hc : Closed m i j its)
    (hv : instr (put m i { m.tables i with items := its, count := (m.tables i).count - 1 }
      (Function.update m.heap it.data none)) (.clamp i) w = some v) :
    Goes m (.table (.write table (some e) opDel a)) v := by
  have hlen : (((denote m).tables i).items.eraseIdx j).length = (m.tables i).count - 1 := by
    have h2 := hf.lt
    rw [List.length_eraseIdx_of_lt (by rw [hi.length_items]; exact h2), hi.length_items]
  have hgo : ∀ c, c = min (m.tables i).cursor ((m.tables i).count - 1) →
      At m (.table (.write table (some e) opDel a))
        (put m i ⟨its, (m.tables i).count - 1, c⟩ (Function.update m.heap it.data none))
        .generationUp := by
    intro c hcur
    obtain ⟨hi', hden⟩ := hi.removed hf.lt hf.item hc.length hc.take c (m.generation + 1)
    have hx : denote { put m i ⟨its, (m.tables i).count - 1, c⟩
        (Function.update m.heap it.data none) with generation := m.generation + 1 } =
        { denote (put m i ⟨its, (m.tables i).count - 1, c⟩
          (Function.update m.heap it.data none)) with generation := m.generation + 1 } := rfl
    refine At.generationUp hi' ((exec_del hw hi.initialised).trans ?_)
    change _ = (denote { put m i _ _ with generation := m.generation + 1 }, _)
    rw [hx, hden, TableStore.del, hf.find]
    simp only [hlen, hcur]
    rfl
  simp only [instr, put_tables, withStore_put] at hv
  split_ifs at hv with hlt
  · cases hv
    exact hgo _ (by omega)
  · cases hv
    exact hgo _ (by omega)

/-! ### `daim_table_read` -/

lemma Passed.next_none {entry : Option Entry} (hi : Inv m) (hn : Passed m i entry j)
    (hj : (m.tables i).count ≤ j) : ((denote m).tables i).next entry = none := by
  rw [TableStore.next, Option.map_eq_none_iff, List.findIdx?_eq_none_iff]
  intro b hb
  obtain ⟨k, hk⟩ := List.mem_iff_getElem?.mp hb
  rw [List.getElem?_drop] at hk
  have hlt := (List.getElem?_eq_some_iff.mp hk).1
  have hlen : ((denote m).tables i).items.length = (m.tables i).count := hi.length_items
  have hcur : ((denote m).tables i).cursor = (m.tables i).cursor := rfl
  rw [hlen, hcur] at hlt
  exact hn.2 _ (Nat.le_add_right _ k) (by omega) b hk

lemma Passed.next_some {entry : Option Entry} (hn : Passed m i entry j)
    (hb : ((denote m).tables i).items[j]? = some b) (hs : selects entry b = true) :
    ((denote m).tables i).next entry = some j := by
  have hcur : ((denote m).tables i).cursor = (m.tables i).cursor := rfl
  have hle := hn.1
  have hget : (((denote m).tables i).items.drop (m.tables i).cursor)[j - (m.tables i).cursor]? =
      some b := by
    rw [List.getElem?_drop, Nat.add_sub_cancel' hle]
    exact hb
  rw [TableStore.next, Option.map_eq_some_iff, hcur]
  refine ⟨j - (m.tables i).cursor, ?_, Nat.add_sub_cancel' hle⟩
  obtain ⟨hlt, hbj⟩ := List.getElem?_eq_some_iff.mp hget
  refine List.findIdx?_eq_some_iff_getElem.mpr ⟨hlt, by rw [hbj]; exact hs, fun k hk => ?_⟩
  rw [Bool.not_eq_true, List.getElem_drop]
  exact hn.2 _ (Nat.le_add_right _ k) (by omega) _ (List.getElem?_eq_getElem _)

/-- The comparison of the loop is that of the table. -/
lemma matches_eq (hb : m.heap it.data = some b) (hn : b.length = it.size) (entry : Option Entry) :
    m.matches it entry = some (selects entry b) := by
  cases entry with
  | none => rfl
  | some e =>
    simp only [Mem.matches, selects]
    split_ifs with hlt
    · have hle : ¬e.length ≤ b.length := by omega
      simp [hle]
    · have hle : e.length ≤ b.length := by omega
      simp [bytes_of_block hb hle, hle]

lemma goes_look {entry : Option Entry} {malloc : Bool} (hi : Inv m) (hs : storeFor table = some i)
    (hn : Passed m i entry j) (hv : instr m (.look i entry malloc j) w = some v) :
    Goes m (.table (.read table entry malloc)) v := by
  simp only [instr] at hv
  have hnothing : ∀ r, ((denote m).tables i).read entry malloc = (((denote m).tables i), r) →
      exec (denote m) (.table (.read table entry malloc)) = (denote m, .table (.entry r)) :=
    fun r hr => (exec_read hs hi.initialised hr).trans (by rw [Function.update_eq_self])
  by_cases hj : j < (m.tables i).count
  · obtain ⟨it, b, hit, -, hb, hsz, hget⟩ := hi.getElem? hj
    rw [if_pos hj, hit] at hv
    simp only [matches_eq hb hsz] at hv
    cases hsel : selects entry b with
    | false =>
      rw [hsel] at hv
      cases hv
      refine At.look hs ⟨hn.1.trans j.le_succ, fun k hk hkj b' hb' => ?_⟩
      rcases Nat.lt_succ_iff_lt_or_eq.mp hkj with hlt | rfl
      · exact hn.2 k hk hlt b' hb'
      · obtain rfl : b = b' := Option.some.inj (hget.symm.trans hb')
        exact hsel
    | true =>
      rw [hsel] at hv
      have hnext := hn.next_some hget hsel
      cases malloc with
      | true =>
        cases hv
        exact At.copy hs hj hnext
      | false =>
        cases hv
        refine ⟨hi, hnothing none ?_⟩
        simp only [TableStore.read, hnext, Bool.false_eq_true, if_false]
  · rw [if_neg hj] at hv
    cases hv
    refine ⟨hi, hnothing none ?_⟩
    simp only [TableStore.read, hn.next_none hi (not_lt.mp hj)]

lemma goes_copy {entry : Option Entry} (hi : Inv m) (hs : storeFor table = some i)
    (hj : j < (m.tables i).count) (hf : ((denote m).tables i).next entry = some j)
    (hv : instr m (.copy i j) w = some v) : Goes m (.table (.read table entry true)) v := by
  obtain ⟨it, b, hit, -, hb, hsz, hget⟩ := hi.getElem? hj
  simp only [instr, hit, bytes_of_block hb hsz.ge] at hv
  rw [← hsz, List.take_length] at hv
  cases hv
  exact At.advance hs hget hf

/-- Only a cursor is different. -/
lemma Inv.cursor (hi : Inv m) (c : ℕ) :
    Inv (m.withStore i { m.tables i with cursor := c }) ∧
      denote (m.withStore i { m.tables i with cursor := c }) =
        { denote m with
          tables := Function.update (denote m).tables i
            { (denote m).tables i with cursor := c } } := by
  have hm : m.withStore i { m.tables i with cursor := c } =
      put m i { m.tables i with cursor := c } m.heap := rfl
  rw [hm]
  refine ⟨inv_put hi ?_ ?_ ?_ ?_ ?_ m.generation, ?_⟩
  · exact hi.count i
  · exact hi.block i
  · exact hi.nodup i
  · exact fun k hk q hq => ⟨hi.apart i k hk q hq, rfl⟩
  · intro q hq
    obtain ⟨k, hk⟩ := hi.owned q hq
    by_cases hki : k = i
    · exact .inl (hki ▸ hk)
    · exact .inr ⟨k, hki, hk⟩
  · rw [denote_put fun _ _ _ _ => rfl]
    rfl

lemma goes_advance {entry : Option Entry} (hi : Inv m) (hs : storeFor table = some i)
    (hj : ((denote m).tables i).items[j]? = some b)
    (hf : ((denote m).tables i).next entry = some j) (hv : instr m (.advance i j b) w = some v) :
    Goes m (.table (.read table entry true)) v := by
  cases hv
  obtain ⟨hi', hden⟩ := hi.cursor (i := i) (j + 1)
  refine ⟨hi', ?_⟩
  rw [hden]
  refine exec_read hs hi.initialised ?_
  simp only [TableStore.read, hf, hj, if_true]

end DaimDistributed.CoreBodies
