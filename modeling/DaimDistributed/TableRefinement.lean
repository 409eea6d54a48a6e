import DaimDistributed.CoreTables

/-!
The table store of the core refines a family of independent lists.

The lists are what the successful writes of a run say they are: an `ADD` appends, a `DEL`
removes the first equal entry. What the store adds to them, capacities, cursors and the
generation, is told apart from the contents by one inversion of the write.
-/

namespace DaimDistributed.TableRefinement

open CoreTables Transitions

/-- A call of the table interface. -/
inductive Op
  | init (mutexInit : Bool)
  | write (table : UInt8) (entry : Option Entry) (opCode : UInt8) (a : Alloc)
  | read (table : UInt8) (entry : Option Entry) (malloc : Bool)
  | rewind (table : UInt8)
  | tableCount (table : UInt8)
  | generation
  deriving DecidableEq

/-- What a call returns. -/
inductive Ret
  | status (r : Status)
  | entry (e : Option Entry)
  | count (n : ℕ)
  | generation (g : UInt64)
  | unit
  deriving DecidableEq

def exec (s : State) : Op → State × Ret
  | .init mutexInit => ((daimInit s mutexInit).1, .status (daimInit s mutexInit).2)
  | .write table entry opCode a =>
    ((daimTableWrite s table entry opCode a).1, .status (daimTableWrite s table entry opCode a).2)
  | .read table entry malloc =>
    ((daimTableRead s table entry malloc).1, .entry (daimTableRead s table entry malloc).2)
  | .rewind table => (daimTableRewind s table, .unit)
  | .tableCount table => (s, .count (daimCoreTableCount s table))
  | .generation => (s, .generation (daimCoreGeneration s))

/-- A core from its first `daim_init` on. -/
def core : Lts State Op :=
  ofFun (fun s => ∃ s0, s0.initialised = false ∧ s = (daimInit s0 true).1)
    fun s op => some (exec s op).1

/-- The table a call names. -/
def Op.table : Op → Option UInt8
  | .write table _ _ _ | .read table _ _ | .rewind table | .tableCount table => some table
  | _ => none

/-- `DAIM_CORE_ERROR` or `NULL`. -/
def Ret.Failed (r : Ret) : Prop := r = .status .error ∨ r = .entry none

/-! ### The lists -/

/-- The abstract state: one list of entries for each table. -/
abbrev Lists := UInt8 → List Entry

def Lists.append (l : Lists) (table : UInt8) (e : Entry) : Lists :=
  Function.update l table (l table ++ [e])

def Lists.remove (l : Lists) (table : UInt8) (e : Entry) : Lists :=
  Function.update l table ((l table).erase e)

/-- What a call that returned `r` does to the lists. -/
def Lists.apply (l : Lists) : Op → Ret → Lists
  | .write table (some e) opCode _, .status .ok =>
    if opCode = opAdd then l.append table e else l.remove table e
  | _, _ => l

/-- The lists after the calls of a run. -/
def reference (h : List (State × Op)) : Lists :=
  h.foldl (fun l p => l.apply p.2 (exec p.1 p.2).2) fun _ => []

/-- The store of a table; one that does not exist has nothing in it. -/
def storeOf (s : State) (table : UInt8) : TableStore :=
  match storeFor table with
  | none => {}
  | some i => s.tables i

/-- The contents of the tables of a state. -/
def contents (s : State) : Lists := fun table => (storeOf s table).items

/-- The cursor of a table. -/
def cursorOf (s : State) (table : UInt8) : ℕ := (storeOf s table).cursor

/-- What a caller can see of a state. -/
structure SameView (s t : State) : Prop where
  contents : contents t = contents s
  cursor : cursorOf t = cursorOf s
  count : daimCoreTableCount t = daimCoreTableCount s
  generation : daimCoreGeneration t = daimCoreGeneration s

/-- A write that succeeded. -/
def Op.writes : Op → Ret → Bool
  | .write _ _ _ _, .status .ok => true
  | _, _ => false

/-- A write of `table` with `opCode` that succeeded. -/
def Op.writesTo (opCode table : UInt8) : Op → Ret → Bool
  | .write table' _ opCode' _, .status .ok => decide (table' = table ∧ opCode' = opCode)
  | _, _ => false

def wrote (p : State × Op) : Bool := p.2.writes (exec p.1 p.2).2

def wroteTo (opCode table : UInt8) (p : State × Op) : Bool :=
  p.2.writesTo opCode table (exec p.1 p.2).2

variable {s t : State} {table table' : UInt8} {i : Fin tableSlots} {op : Op}
  {h : List (State × Op)}

lemma storeFor_inj (h : storeFor table = some i) (h' : storeFor table' = some i) :
    table = table' := by
  obtain ⟨hv, hi⟩ := storeFor_eq_some.mp h
  obtain ⟨hv', hi'⟩ := storeFor_eq_some.mp h'
  exact UInt8.toNat_inj.mp (hi.trans hi'.symm)

lemma storeOf_some (h : storeFor table = some i) : storeOf s table = s.tables i := by
  simp [storeOf, h]

lemma contents_some (h : storeFor table = some i) : contents s table = (s.tables i).items := by
  rw [contents, storeOf_some h]

/-- Writing one slot is writing the store of its table. -/
lemma storeOf_update (hi : storeFor table = some i) (st : TableStore) (g : UInt64) :
    storeOf { s with generation := g, tables := Function.update s.tables i st } =
      Function.update (storeOf s) table st := by
  funext table'
  by_cases h : table' = table
  · subst h
    simp [storeOf, hi]
  · rw [Function.update_of_ne h]
    rcases hj : storeFor table' with _ | j
    · simp [storeOf, hj]
    · have hne : j ≠ i := fun he => h (storeFor_inj (he ▸ hj) hi)
      simp [storeOf, hj, hne]

lemma contents_update (hi : storeFor table = some i) (st : TableStore) (g : UInt64) :
    contents { s with generation := g, tables := Function.update s.tables i st } =
      Function.update (contents s) table st.items := by
  funext table'
  rw [contents, storeOf_update hi]
  by_cases h : table' = table
  · subst h
    simp
  · simp [Function.update_of_ne h, contents]

/-! ### What every run keeps -/

structure CoreInv (s : State) : Prop where
  lockReady : s.lockReady = true
  initialised : s.initialised = true
  /-- No entry is empty. -/
  nonempty : ∀ table, [] ∉ contents s table
  /-- Only tables that may be written hold anything. -/
  writable : ∀ table, writableTable table = false → contents s table = []
  /-- The cursor is within the table. -/
  cursor : ∀ i, (s.tables i).cursor ≤ (s.tables i).items.length

/-- An initialised core is left as it is by another `daim_init`. -/
lemma daimInit_again (hl : s.lockReady = true) (hi : s.initialised = true) (m : Bool) :
    daimInit s m = (s, .ok) := by
  obtain ⟨⟨l, n, sg⟩, g, ts⟩ := s
  cases hl
  cases hi
  simp [daimInit, Core.daimInit]

lemma coreInv_init {s0 : State} (h0 : s0.initialised = false) :
    CoreInv (daimInit s0 true).1 ∧ contents (daimInit s0 true).1 = (fun _ => []) ∧
      daimCoreGeneration (daimInit s0 true).1 = 0 := by
  have hd : (daimInit s0 true).1 =
      { toCoreState := Core.daimInit s0.toCoreState, generation := 0, tables := fun _ => {} } := by
    simp [daimInit, h0]
  have hc : contents (daimInit s0 true).1 = fun _ => [] := by
    funext table
    rw [hd, contents, storeOf]
    split <;> rfl
  refine ⟨⟨?_, ?_, ?_, ?_, ?_⟩, hc, ?_⟩
  · simp [hd, Core.daimInit, h0]
  · simp [hd, Core.daimInit, h0]
  · simp [hc]
  · simp [hc]
  · simp [hd]
  · simp [hd, daimCoreGeneration]

/-! ### What one call does -/

/-- The calls of an initialised core by what they do: a write, a move of one cursor, or
nothing at all. -/
inductive Effect (s : State) (op : Op) : State × Ret → Prop
  | same (r : Ret) (hr : r.Failed → r = .entry none)
      (hw : ∀ table entry opCode a, op ≠ .write table entry opCode a) : Effect s op (s, r)
  | cursor {table : UInt8} {i : Fin tableSlots} (ht : op.table = some table)
      (hi : storeFor table = some i) (c : ℕ) (hc : c ≤ (s.tables i).items.length) (r : Ret)
      (hr : ¬ r.Failed) (hw : ∀ table entry opCode a, op ≠ .write table entry opCode a) :
      Effect s op
        ({ s with tables := Function.update s.tables i { s.tables i with cursor := c } }, r)
  | write {table : UInt8} {entry : Option Entry} {opCode : UInt8} {a : Alloc}
      {p : State × Status} (ho : op = .write table entry opCode a)
      (hw : Writes s table entry opCode p) : Effect s op (p.1, .status p.2)

lemma exec_effect (hl : s.lockReady = true) (hi : s.initialised = true) (op : Op) :
    Effect s op (exec s op) := by
  have hn : ¬ (s.lockReady = false ∨ s.initialised = false) := by simp [hl, hi]
  cases op with
  | init m =>
    simp only [exec, daimInit_again hl hi]
    exact .same _ (by simp [Ret.Failed]) (by simp)
  | write table entry opCode a => exact .write rfl (daimTableWrite_writes hl hi _ _ _ _)
  | read table entry malloc =>
    simp only [exec, daimTableRead]
    rcases hs : storeFor table with _ | i
    · exact .same _ (by simp) (by simp)
    simp only [hn, if_false, TableStore.read]
    rcases hj : (s.tables i).next entry with _ | j
    · have he : Function.update s.tables i (s.tables i) = s.tables := Function.update_eq_self i _
      rw [he]
      exact .same _ (by simp) (by simp)
    · have hlt := (TableStore.next_lt hj).2
      cases malloc
      · simp only [Bool.false_eq_true, if_false]
        have he : Function.update s.tables i (s.tables i) = s.tables :=
          Function.update_eq_self i _
        rw [he]
        exact .same _ (by simp) (by simp)
      · refine .cursor rfl hs (j + 1) hlt _ ?_ (by simp)
        simp [Ret.Failed, hlt]
  | rewind table =>
    simp only [exec, daimTableRewind]
    rcases hs : storeFor table with _ | i
    · exact .same _ (by simp [Ret.Failed]) (by simp)
    · simp only [hn, if_false]
      exact .cursor rfl hs 0 (Nat.zero_le _) _ (by simp [Ret.Failed]) (by simp)
  | tableCount table => exact .same _ (by simp [Ret.Failed]) (by simp)
  | generation => exact .same _ (by simp [Ret.Failed]) (by simp)

variable {entry : Option Entry} {opCode : UInt8} {p : State × Status} {q : State × Ret}

lemma opDel_ne_opAdd : opDel ≠ opAdd := by decide

/-- A write does to the contents what it says to the lists. -/
lemma writes_contents (hw : Writes s table entry opCode p) (a : Alloc) :
    contents p.1 =
      (contents s).apply (.write table entry opCode a) (.status p.2) := by
  cases hw with
  | refused => simp [Lists.apply]
  | @noMemory i ho hi c =>
    have he : Function.update (contents s) table (s.tables i).items =
        contents s := by rw [← contents_some hi, Function.update_eq_self]
    have hap : (contents s).apply (.write table entry opCode a) (.status .error) = contents s := by
      cases entry <;> rfl
    rw [hap]
    exact (contents_update hi _ s.generation).trans he
  | added he hne hw ho hi c =>
    rw [contents_update hi, he, ho, Lists.apply, if_pos rfl, Lists.append, contents_some hi]
  | notFound => simp [Lists.apply]
  | deleted he ho hi hm =>
    rw [contents_update hi, he, ho, Lists.apply, if_neg opDel_ne_opAdd, Lists.remove,
      contents_some hi]

/-- **One call keeps the contents equal to the lists.** -/
lemma effect_contents (he : Effect s op q) :
    contents q.1 = (contents s).apply op q.2 := by
  have hsame : ∀ l r, (∀ table entry opCode a, op ≠ .write table entry opCode a) →
      Lists.apply l op r = l := by
    intro l r hw
    cases op with
    | write table entry opCode a => exact absurd rfl (hw _ _ _ _)
    | _ => rfl
  cases he with
  | same r hr hw => rw [hsame _ _ hw]
  | @cursor table i ht hi c hc r hr hw =>
    rw [hsame _ _ hw]
    have he : Function.update (contents s) table (s.tables i).items =
        contents s := by rw [← contents_some hi, Function.update_eq_self]
    exact (contents_update hi _ s.generation).trans he
  | write ho hw =>
    subst ho
    exact writes_contents hw _

/-- What a write leaves of the flags and the other stores. -/
lemma writes_frame (hw : Writes s table entry opCode p) :
    p.1.lockReady = s.lockReady ∧ p.1.initialised = s.initialised ∧
      ∀ table', table' ≠ table → storeOf p.1 table' = storeOf s table' := by
  cases hw with
  | refused | notFound => exact ⟨rfl, rfl, fun _ _ => rfl⟩
  | noMemory ho hi c =>
    exact ⟨rfl, rfl, fun t ht =>
      (congrFun (storeOf_update hi _ s.generation) t).trans (Function.update_of_ne ht _ _)⟩
  | added he hne hw ho hi c =>
    exact ⟨rfl, rfl, fun t ht =>
      (congrFun (storeOf_update hi _ _) t).trans (Function.update_of_ne ht _ _)⟩
  | deleted he ho hi hm =>
    exact ⟨rfl, rfl, fun t ht =>
      (congrFun (storeOf_update hi _ _) t).trans (Function.update_of_ne ht _ _)⟩

lemma effect_frame (he : Effect s op q) :
    q.1.lockReady = s.lockReady ∧ q.1.initialised = s.initialised ∧
      ∀ table', op.table ≠ some table' → storeOf q.1 table' = storeOf s table' := by
  cases he with
  | same => exact ⟨rfl, rfl, fun _ _ => rfl⟩
  | cursor ht hi c hc r hr hw =>
    refine ⟨rfl, rfl, fun t htt => ?_⟩
    have hne : t ≠ _ := fun h => htt (ht.trans (congrArg some h.symm))
    exact (congrFun (storeOf_update hi _ s.generation) t).trans (Function.update_of_ne hne _ _)
  | write ho hw =>
    subst ho
    obtain ⟨h1, h2, h3⟩ := writes_frame hw
    exact ⟨h1, h2, fun t ht => h3 t fun h => ht (congrArg some h.symm)⟩

/-- What a write does to the one store it is about. -/
lemma writes_store (hw : Writes s table entry opCode p) (j : Fin tableSlots) :
    ((p.1.tables j).items = (s.tables j).items ∧ (p.1.tables j).cursor = (s.tables j).cursor) ∨
      (∃ e, e ≠ [] ∧ writableTable table = true ∧ storeFor table = some j ∧
        (p.1.tables j).items = (s.tables j).items ++ [e] ∧
          (p.1.tables j).cursor = (s.tables j).cursor) ∨
      ∃ e ∈ (s.tables j).items, (p.1.tables j).items = (s.tables j).items.erase e ∧
        (p.1.tables j).cursor = min (s.tables j).cursor ((s.tables j).items.erase e).length := by
  cases hw with
  | refused | notFound => exact .inl ⟨rfl, rfl⟩
  | @noMemory i ho hi c =>
    by_cases h : j = i
    · subst h
      exact .inl (by simp)
    · exact .inl (by simp [h])
  | @added e i he hne hw ho hi c =>
    by_cases h : j = i
    · subst h
      exact .inr (.inl ⟨e, hne, hw, hi, by simp, by simp⟩)
    · exact .inl (by simp [h])
  | @deleted e i he ho hi hm =>
    by_cases h : j = i
    · subst h
      exact .inr (.inr ⟨e, hm, by simp, by simp⟩)
    · exact .inl (by simp [h])

/-- What a call does to one store. -/
lemma effect_store (he : Effect s op q) (hc : (s.tables i).cursor ≤ (s.tables i).items.length) :
    ((q.1.tables i).items = (s.tables i).items ∧
        (q.1.tables i).cursor ≤ (s.tables i).items.length) ∨
      (∃ table e, e ≠ [] ∧ writableTable table = true ∧ storeFor table = some i ∧
        (q.1.tables i).items = (s.tables i).items ++ [e] ∧
          (q.1.tables i).cursor = (s.tables i).cursor) ∨
      ∃ e, (q.1.tables i).items = (s.tables i).items.erase e ∧
        (q.1.tables i).cursor = min (s.tables i).cursor ((s.tables i).items.erase e).length := by
  cases he with
  | same => exact .inl ⟨rfl, hc⟩
  | @cursor table j ht hj c hcj r hr hw =>
    by_cases h : i = j
    · subst h
      exact .inl (by simpa using hcj)
    · exact .inl (by simpa [h] using hc)
  | @write table entry opCode a p ho hw =>
    rcases writes_store hw i with ⟨h1, h2⟩ | ⟨e, hne, hwr, hi, h1, h2⟩ | ⟨e, -, h1, h2⟩
    · exact .inl ⟨h1, h2 ▸ hc⟩
    · exact .inr (.inl ⟨table, e, hne, hwr, hi, h1, h2⟩)
    · exact .inr (.inr ⟨e, h1, h2⟩)

lemma CoreInv.effect (hi : CoreInv s) (he : Effect s op q) : CoreInv q.1 := by
  obtain ⟨hl, hn, hf⟩ := effect_frame he
  refine ⟨hl.trans hi.lockReady, hn.trans hi.initialised, fun table hm => ?_, fun table ht => ?_,
    fun i => ?_⟩
  · rcases hs : storeFor table with _ | i
    · simp [contents, storeOf, hs] at hm
    · have h0 := hi.nonempty table
      rw [contents_some hs] at hm h0
      rcases effect_store he (hi.cursor i) with ⟨h1, -⟩ | ⟨_, e, hne, -, -, h1, -⟩ | ⟨e, h1, -⟩
      · exact h0 (h1 ▸ hm)
      · rw [h1, List.mem_append, List.mem_singleton] at hm
        rcases hm with hm | hm
        · exact h0 hm
        · exact hne hm.symm
      · exact h0 (List.mem_of_mem_erase (h1 ▸ hm))
  · rcases hs : storeFor table with _ | i
    · simp [contents, storeOf, hs]
    · have h0 := hi.writable table ht
      rw [contents_some hs] at h0 ⊢
      rcases effect_store he (hi.cursor i) with ⟨h1, -⟩ | ⟨t, e, -, hw, ht', -, -⟩ | ⟨e, h1, -⟩
      · exact h1.trans h0
      · rw [storeFor_inj hs ht', hw] at ht
        simp at ht
      · rw [h1, h0, List.erase_nil]
  · rcases effect_store he (hi.cursor i) with ⟨h1, h2⟩ | ⟨_, e, -, -, -, h1, h2⟩ | ⟨e, h1, h2⟩
    · exact h1 ▸ h2
    · rw [h1, h2, List.length_append]
      exact (hi.cursor i).trans (Nat.le_add_right _ _)
    · rw [h1, h2]
      exact min_le_right _ _

/-- A call that fails moves no cursor and counts nothing. -/
lemma effect_failed (he : Effect s op q) (hf : q.2.Failed) :
    q.1.generation = s.generation ∧ ∀ j, (q.1.tables j).cursor = (s.tables j).cursor := by
  cases he with
  | same => exact ⟨rfl, fun _ => rfl⟩
  | cursor _ _ _ _ _ hr => exact absurd hf hr
  | write ho hw =>
    cases hw with
    | refused | notFound => exact ⟨rfl, fun _ => rfl⟩
    | @noMemory i ho' hi' c =>
      refine ⟨rfl, fun j => ?_⟩
      by_cases h : j = i
      · subst h
        simp
      · simp [h]
    | added | deleted => simp [Ret.Failed] at hf

/-! ### A core with one table in use -/

/-- The slot of the forwarding table. -/
def forwarding : Fin tableSlots := ⟨7, by decide⟩

/-- A core that holds `items` in the forwarding table and nothing else. -/
def holding (items : List Entry) (capacity : ℕ) (g : UInt64) : State where
  lockReady := true
  initialised := true
  generation := g
  tables := Function.update (fun _ => {}) forwarding ⟨items, capacity, 0⟩

/-- One write of one fixed entry. -/
def churn (opCode : UInt8) : Op := .write daimPacketForwardingTable (some [0]) opCode ⟨true, true⟩

lemma churn_add {c : ℕ} (hc : c = 0 ∨ c = 8) (g : UInt64) :
    exec (holding [] c g) (churn opAdd) = (holding [[0]] 8 (g + 1), .status .ok) := by
  have hs : storeFor daimPacketForwardingTable = some forwarding := by decide
  have hw : writableTable daimPacketForwardingTable = true := by decide
  rcases hc with rfl | rfl <;>
    simp [exec, churn, daimTableWrite, hs, hw, holding, State.put, TableStore.add,
      ensureCapacity, itemSize]

lemma churn_del (g : UInt64) :
    exec (holding [[0]] 8 g) (churn opDel) = (holding [] 8 (g + 1), .status .ok) := by
  have hs : storeFor daimPacketForwardingTable = some forwarding := by decide
  have hw : writableTable daimPacketForwardingTable = true := by decide
  simp [exec, churn, daimTableWrite, hs, hw, holding, State.put, TableStore.del_eq,
    opDel_ne_opAdd]

/-! ### The refinement -/

/-- What is said of one call. -/
structure StepOk (s : State) (op : Op) : Prop where
  /-- A `DEL` fails exactly when no entry is equal. -/
  del : ∀ table entry a, op = .write table entry opDel a →
    ((exec s op).2 = .status .error ↔ ∀ e ∈ entry, e ∉ contents s table)
  /-- A call that fails changes nothing a caller can see. -/
  failed : (exec s op).2.Failed → SameView s (exec s op).1
  /-- Other tables are not touched. -/
  frame : ∀ table, op.table ≠ some table → contents (exec s op).1 table = contents s table ∧
    cursorOf (exec s op).1 table = cursorOf s table

lemma Lists.apply_failed {l : Lists} {r : Ret} (hr : r.Failed) : l.apply op r = l := by
  rcases hr with rfl | rfl
  · cases op with
    | write table entry opCode a => cases entry <;> rfl
    | _ => rfl
  · cases op with
    | write table entry opCode a => cases entry <;> rfl
    | _ => rfl

lemma tableCount_eq (hi : CoreInv s) (table : UInt8) :
    daimCoreTableCount s table = (contents s table).length := by
  unfold daimCoreTableCount contents storeOf
  rcases storeFor table with _ | i
  · rfl
  · simp [hi.lockReady, hi.initialised]

lemma CoreInv.stepOk (hi : CoreInv s) (op : Op) : StepOk s op := by
  have he := exec_effect hi.lockReady hi.initialised op
  refine ⟨?_, fun hf => ?_, fun table ht => ?_⟩
  · rintro table entry a rfl
    have hw := daimTableWrite_writes hi.lockReady hi.initialised table entry opDel a
    have hret : (exec s (.write table entry opDel a)).2 =
        .status (daimTableWrite s table entry opDel a).2 := rfl
    rw [hret]
    generalize daimTableWrite s table entry opDel a = p at hw ⊢
    cases hw with
    | refused h =>
      simp only [true_iff]
      intro e hm
      rcases h with h | h | h | ⟨-, h⟩
      · simp [h] at hm
      · rw [h, Option.mem_some_iff] at hm
        exact hm ▸ hi.nonempty table
      · simp [hi.writable table h]
      · exact absurd rfl h
    | noMemory ho => exact absurd ho opDel_ne_opAdd
    | added _ _ _ ho => exact absurd ho opDel_ne_opAdd
    | notFound hee ho hi hn =>
      subst hee
      simpa [contents_some hi] using hn
    | deleted hee ho hi hm =>
      subst hee
      simpa [contents_some hi] using hm
  · have hc := effect_contents he
    rw [Lists.apply_failed hf] at hc
    obtain ⟨hg, hcur⟩ := effect_failed he hf
    refine ⟨hc, ?_, ?_, ?_⟩
    · funext table
      unfold cursorOf storeOf
      rcases storeFor table with _ | i
      · rfl
      · exact hcur i
    · funext table
      rw [tableCount_eq hi, tableCount_eq (hi.effect he), hc]
    · obtain ⟨hl, hn, -⟩ := effect_frame he
      simp only [daimCoreGeneration, hl, hn, hg]
  · have hf := (effect_frame he).2.2 table ht
    exact ⟨congrArg TableStore.items hf, congrArg TableStore.cursor hf⟩

lemma not_write_counts (hw : ∀ table entry opCode a, op ≠ .write table entry opCode a) (r : Ret)
    (opCode table : UInt8) : op.writes r = false ∧ op.writesTo opCode table r = false := by
  cases op with
  | write table entry opCode a => exact absurd rfl (hw _ _ _ _)
  | _ => exact ⟨rfl, rfl⟩

/-- The generation counts the successful writes. -/
lemma effect_generation (he : Effect s op q) :
    q.1.generation = s.generation + UInt64.ofNat (op.writes q.2).toNat := by
  cases he with
  | same r hr hw => simp [(not_write_counts hw r 0 0).1]
  | cursor ht hi c hc r hr hw => simp [(not_write_counts hw r 0 0).1]
  | write ho hw =>
    subst ho
    cases hw with
    | refused | notFound | noMemory => simp [Op.writes]
    | added | deleted => rfl

/-- The length of a list is the number of its successful `ADD`s less that of its `DEL`s. -/
lemma effect_length (he : Effect s op q) (table : UInt8) :
    (contents q.1 table).length + (op.writesTo opDel table q.2).toNat =
      (contents s table).length + (op.writesTo opAdd table q.2).toNat := by
  rw [effect_contents he]
  have hne := opDel_ne_opAdd
  cases he with
  | same r hr hw =>
    simp only [(not_write_counts hw r _ table).2]
    cases op with
    | write table entry opCode a => exact absurd rfl (hw _ _ _ _)
    | _ => rfl
  | cursor ht hi c hc r hr hw =>
    simp only [(not_write_counts hw r _ table).2]
    cases op with
    | write table entry opCode a => exact absurd rfl (hw _ _ _ _)
    | _ => rfl
  | @write t entry opCode a p ho hw =>
    subst ho
    cases hw with
    | refused | notFound | noMemory => cases entry <;> simp [Op.writesTo, Lists.apply]
    | added hee _ _ ho hi c =>
      subst hee ho
      by_cases ht : table = t
      · subst ht
        simp [Op.writesTo, Lists.apply, Lists.append, hne.symm]
      · simp [Op.writesTo, Lists.apply, Lists.append, ht, Ne.symm ht]
    | @deleted e i hee ho hi hm =>
      subst hee ho
      by_cases ht : table = t
      · subst ht
        have hpos : 0 < (contents s table).length := by
          rw [contents_some hi]
          exact List.length_pos_of_mem hm
        have hlen : ((contents s table).erase e).length = (contents s table).length - 1 :=
          List.length_erase_of_mem (by rwa [contents_some hi])
        simp [Op.writesTo, Lists.apply, Lists.remove, hne, hlen]
        omega
      · simp [Op.writesTo, Lists.apply, Lists.remove, hne, ht, Ne.symm ht]

lemma countP_snoc {α : Type*} (f : α → Bool) (l : List α) (x : α) :
    (l ++ [x]).countP f = l.countP f + (f x).toNat := by
  rw [List.countP_append, List.countP_singleton]
  cases f x <;> rfl

/-- The state a run of calls has reached, with what its history says of it. -/
structure Reached (h : List (State × Op)) (s : State) : Prop where
  inv : CoreInv s
  contents : contents s = reference h
  length : ∀ table, (TableRefinement.contents s table).length + h.countP (wroteTo opDel table) =
    h.countP (wroteTo opAdd table)
  generation : s.generation = UInt64.ofNat (h.countP wrote)

lemma run_reached (hr : Run core h s) : Reached h s := by
  induction hr with
  | init h0 =>
    obtain ⟨s0, h0, rfl⟩ := h0
    obtain ⟨hi, hc, hg⟩ := coreInv_init h0
    refine ⟨hi, hc, fun table => by simp [hc], ?_⟩
    simpa [daimCoreGeneration, hi.lockReady, hi.initialised] using hg
  | @step h s t op _ hst ih =>
    cases hst
    have he := exec_effect ih.inv.lockReady ih.inv.initialised op
    refine ⟨ih.inv.effect he, ?_, fun table => ?_, ?_⟩
    · rw [effect_contents he, ih.contents, reference, reference, List.foldl_append]
      rfl
    · have h1 := effect_length he table
      have h2 := ih.length table
      rw [countP_snoc, countP_snoc, wroteTo, wroteTo]
      dsimp only
      omega
    · rw [effect_generation he, ih.generation, countP_snoc, UInt64.ofNat_add]
      rfl

/-- **The table store refines a family of lists.** In every state of a run the tables hold
what the successful writes say; a `DEL` fails exactly when there is no equal entry, a failing
call changes nothing and no call touches another table; the counts are the lengths, and the
generation counts the successful writes, modulo `2 ^ 64`. -/
theorem store_refines_lists (hr : Run core h s) :
    contents s = reference h ∧ (∀ op, StepOk s op) ∧
      (∀ table, daimCoreTableCount s table = (reference h table).length ∧
        daimCoreTableCount s table + h.countP (wroteTo opDel table) =
          h.countP (wroteTo opAdd table)) ∧
      daimCoreGeneration s = UInt64.ofNat (h.countP wrote) := by
  obtain ⟨hi, hc, hl, hg⟩ := run_reached hr
  refine ⟨hc, hi.stepOk, fun table => ⟨?_, ?_⟩, ?_⟩
  · rw [tableCount_eq hi, hc]
  · rw [tableCount_eq hi]
    exact hl table
  · simpa [daimCoreGeneration, hi.lockReady, hi.initialised] using hg

/-- Three `ADD`s to two tables, a `DEL` of the first of them and one that finds nothing. -/
def twoTables : List Op :=
  let alloc : Alloc := ⟨true, true⟩
  [.write daimPacketForwardingTable (some [1]) opAdd alloc,
    .write daimPacketForwardingTable (some [2]) opAdd alloc,
    .write lastTable (some [1]) opAdd alloc,
    .write daimPacketForwardingTable (some [1]) opDel alloc,
    .write lastTable (some [2]) opDel alloc]

theorem store_refines_lists_twoTables : ∃ h s, Run core h s ∧ contents s = reference h ∧
    reference h daimPacketForwardingTable = [[2]] ∧ reference h lastTable = [[1]] ∧
      daimCoreTableCount s daimPacketForwardingTable = 1 ∧ daimCoreGeneration s = 4 := by
  obtain ⟨h, s, hr, h1, h2, hw⟩ := exists_run_of_replay
    (i := fun s => ∃ s0, s0.initialised = false ∧ s = (daimInit s0 true).1)
    (f := fun s op => some (exec s op).1) twoTables ⟨{}, rfl, rfl⟩
    (fun h _ => reference h daimPacketForwardingTable = [[2]] ∧ reference h lastTable = [[1]] ∧
      h.countP wrote = 4) (by decide)
  obtain ⟨hc, -, hcount, hg⟩ := store_refines_lists hr
  refine ⟨h, s, hr, hc, h1, h2, ?_, ?_⟩
  · rw [(hcount daimPacketForwardingTable).1, h1]
    rfl
  · rw [hg, hw]
    rfl

/-! ### The generation wraps -/

/-- Rounds of one `ADD` and one `DEL` of the same entry. -/
lemma exists_churn_run (n : ℕ) : ∃ h c g, (c = 0 ∨ c = 8) ∧ Run core h (holding [] c g) ∧
    h.countP wrote = 2 * n := by
  induction n with
  | zero =>
    refine ⟨[], 0, 0, .inl rfl, .init ⟨{}, rfl, ?_⟩, rfl⟩
    simp [holding, daimInit, Core.daimInit]
  | succ n ih =>
    obtain ⟨h, c, g, hc, hr, hn⟩ := ih
    have h1 := churn_add hc g
    have h2 := churn_del (g + 1)
    have hr1 : Run core _ (holding [[0]] 8 (g + 1)) :=
      hr.step (a := churn opAdd) (congrArg some (congrArg Prod.fst h1))
    have hr2 : Run core _ (holding [] 8 (g + 1 + 1)) :=
      hr1.step (a := churn opDel) (congrArg some (congrArg Prod.fst h2))
    refine ⟨_, 8, _, .inr rfl, hr2, ?_⟩
    rw [countP_snoc, countP_snoc, hn, wrote, wrote, h1, h2]
    rfl

/-- **After `2 ^ 64` successful writes the generation is 0 again.** -/
theorem generation_wraps : ∃ h s, Run core h s ∧ h.countP wrote = 2 ^ 64 ∧
    daimCoreGeneration s = 0 := by
  obtain ⟨h, c, g, -, hr, hn⟩ := exists_churn_run (2 ^ 63)
  obtain ⟨hi, -, -, hg⟩ := run_reached hr
  refine ⟨h, _, hr, hn, ?_⟩
  rw [hn] at hg
  simpa [daimCoreGeneration, hi.lockReady, hi.initialised] using hg

end DaimDistributed.TableRefinement
