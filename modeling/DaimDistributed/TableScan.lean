import DaimDistributed.TableRefinement

/-!
Reading a table from its start while it is written.

Every entry gets a name when it is added, so the names increase along the table and tell
equal entries apart. What a read returns is bytes; it is noted beside the name of the entry
under the cursor, and the two have to agree. A `DEL` in front of the cursor moves the next entry
under it: that entry is passed over, and nothing else is.
-/

namespace DaimDistributed.TableScan

open CoreTables TableRefinement Transitions

/-- A core, with the names of the entries of one table and the bytes that each name was given
to. A read leaves the name of the entry under the cursor, and the bytes that it has returned. -/
structure Scan where
  core : State
  ids : List ℕ
  entries : List Entry
  returned : List ℕ := []
  read : List Entry := []

/-- The next new name. -/
def Scan.next (x : Scan) : ℕ := x.entries.length

variable (table : UInt8)

/-- The calls of a scan: on its table there is no rewind and no filtered read. -/
def Allowed : Op → Bool
  | .rewind table' => decide (table' ≠ table)
  | .read table' (some _) _ => decide (table' ≠ table)
  | _ => true

/-- What one call does to the names. -/
def Scan.note (x : Scan) (op : Op) (r : Ret) : Scan :=
  match op, r with
  | .write table' (some e) opCode _, .status .ok =>
    if table' ≠ table then x
    else if opCode = opAdd then { x with ids := x.ids ++ [x.next], entries := x.entries ++ [e] }
    else { x with ids := x.ids.eraseIdx ((contents x.core table).idxOf e) }
  | .read table' none _, .entry (some e) =>
    if table' ≠ table then x
    else
      { x with
        returned := x.returned ++ (x.ids[cursorOf x.core table]?).toList
        read := x.read ++ [e] }
  | _, _ => x

def step (x : Scan) (op : Op) : Option Scan :=
  if Allowed table op then
    some { x.note table op (exec x.core op).2 with core := (exec x.core op).1 }
  else none

/-- A rewound table, its entries named in their order. -/
def start (s : State) : Scan where
  core := s
  ids := List.range (contents s table).length
  entries := contents s table

/-- The scans of a table from a state of the core on. -/
def scan (s : State) : Lts Scan Op := ofFun (· = start table s) (step table)

/-- The name of the entry a call moves under the cursor without its having been read. -/
def passedOver (x : Scan) : Op → Option ℕ
  | .write table' (some e) opCode _ =>
    if table' = table ∧ opCode = opDel ∧ (contents x.core table).idxOf e < cursorOf x.core table
    then x.ids[cursorOf x.core table]? else none
  | _ => none

/-- What the reads have returned are the bytes of entries of the table, in table order, and those
that were there from the start and are still there are read once. -/
structure Visits (s : State) (x : Scan) : Prop where
  bytes : x.read.map some = x.returned.map (x.entries[·]?)
  ordered : x.returned.Pairwise (· < ·)
  once : ∀ n < (contents s table).length, n ∈ x.ids → x.returned.count n = 1

/-! ### What one call does -/

variable {table} {x y : Scan} {op : Op}

/-- The calls of a scan by what they do to the table it reads. -/
inductive Moves (table : UInt8) (x : Scan) (op : Op) : Scan → Prop
  | idle {c : State} (hc : contents c table = contents x.core table)
      (hcur : cursorOf c table = cursorOf x.core table) (hp : passedOver table x op = none) :
      Moves table x op { x with core := c }
  | add {c : State} {e : Entry} (hc : contents c table = contents x.core table ++ [e])
      (hcur : cursorOf c table = cursorOf x.core table) (hp : passedOver table x op = none) :
      Moves table x op { x with core := c, ids := x.ids ++ [x.next], entries := x.entries ++ [e] }
  | del {c : State} {j : ℕ} (hj : j < (contents x.core table).length)
      (hc : contents c table = (contents x.core table).eraseIdx j)
      (hcur : cursorOf c table =
        min (cursorOf x.core table) ((contents x.core table).length - 1))
      (hp : passedOver table x op =
        if j < cursorOf x.core table then x.ids[cursorOf x.core table]? else none) :
      Moves table x op { x with core := c, ids := x.ids.eraseIdx j }
  | read {c : State} {e : Entry} (he : (contents x.core table)[cursorOf x.core table]? = some e)
      (hc : contents c table = contents x.core table)
      (hcur : cursorOf c table = cursorOf x.core table + 1) (hp : passedOver table x op = none) :
      Moves table x op
        { x with
          core := c
          returned := x.returned ++ (x.ids[cursorOf x.core table]?).toList
          read := x.read ++ [e] }

lemma cursorOf_le {s : State} (hi : CoreInv s) (table : UInt8) :
    cursorOf s table ≤ (contents s table).length := by
  unfold cursorOf contents storeOf
  rcases storeFor table with _ | i
  · exact le_rfl
  · exact hi.cursor i

/-- A `DEL` that finds nothing passes nothing over. -/
lemma passedOver_eq_none (hi : CoreInv x.core)
    (hn : ∀ e a, op = .write table (some e) opDel a → e ∉ contents x.core table) :
    passedOver table x op = none := by
  unfold passedOver
  split
  · rename_i table' e opCode a
    by_cases h : table' = table ∧ opCode = opDel
    · obtain ⟨rfl, rfl⟩ := h
      have hle := cursorOf_le hi table'
      rw [← List.idxOf_eq_length_iff.mpr (hn e a rfl)] at hle
      rw [if_neg (by omega)]
    · rw [if_neg fun hc => h ⟨hc.1, hc.2.1⟩]
  · rfl

/-- The store that was written is the one that is read. -/
lemma storeOf_put {s : State} {i : Fin tableSlots} (hs : storeFor table = some i)
    (st : TableStore) (g : UInt64) :
    storeOf { s with generation := g, tables := Function.update s.tables i st } table = st := by
  rw [storeOf_update hs, Function.update_self]

lemma write_moves (hi : CoreInv x.core) (entry : Option Entry) (opCode : UInt8) (a : Alloc) :
    Moves table x (.write table entry opCode a)
      { x.note table (.write table entry opCode a)
          (exec x.core (.write table entry opCode a)).2 with
        core := (exec x.core (.write table entry opCode a)).1 } := by
  have hw := daimTableWrite_writes hi.lockReady hi.initialised table entry opCode a
  simp only [exec]
  generalize daimTableWrite x.core table entry opCode a = p at hw ⊢
  cases hw with
  | refused h =>
    have hp : passedOver table x (.write table entry opCode a) = none := by
      refine passedOver_eq_none hi fun e a' he => ?_
      cases he
      rcases h with h | h | h | ⟨-, h⟩
      · simp at h
      · cases h
        exact hi.nonempty table
      · simp [hi.writable table h]
      · exact absurd rfl h
    cases entry <;> exact .idle rfl rfl hp
  | @noMemory i ho hs c =>
    have hst : storeOf x.core table = x.core.tables i := storeOf_some hs
    have hp : passedOver table x (.write table entry opCode a) = none := by
      refine passedOver_eq_none hi fun e a' he => ?_
      cases he
      exact absurd ho opDel_ne_opAdd
    have hput := storeOf_put (s := x.core) hs { x.core.tables i with capacity := c }
      x.core.generation
    cases entry <;>
      exact .idle (by rw [contents, hput, contents, hst]) (by rw [cursorOf, hput, cursorOf, hst]) hp
  | @added e i he hne hwr ho hs c =>
    subst he ho
    have hst : storeOf x.core table = x.core.tables i := storeOf_some hs
    have hput := storeOf_put (s := x.core) hs
      { x.core.tables i with capacity := c, items := (x.core.tables i).items ++ [e] }
      (x.core.generation + 1)
    simp only [Scan.note, ne_eq, not_true_eq_false, if_false, if_true]
    refine .add (e := e) ?_ ?_ ?_
    · rw [contents, hput, contents, hst]
    · rw [cursorOf, hput, cursorOf, hst]
    · simp [passedOver, opDel_ne_opAdd.symm]
  | @notFound e i he ho hs hn =>
    subst he ho
    have hp : passedOver table x (.write table (some e) opDel a) = none := by
      refine passedOver_eq_none hi fun e a' he => ?_
      cases he
      rwa [contents_some hs]
    exact .idle rfl rfl hp
  | @deleted e i he ho hs hm =>
    subst he ho
    have hst : storeOf x.core table = x.core.tables i := storeOf_some hs
    have hput := storeOf_put (s := x.core) hs
      { x.core.tables i with
        items := (x.core.tables i).items.erase e
        cursor := min (x.core.tables i).cursor ((x.core.tables i).items.erase e).length }
      (x.core.generation + 1)
    rw [← contents_some hs] at hm
    have hj : (contents x.core table).idxOf e < (contents x.core table).length :=
      List.idxOf_lt_length_of_mem hm
    have hitems : (contents x.core table).erase e = (x.core.tables i).items.erase e := by
      rw [contents, hst]
    simp only [Scan.note, ne_eq, not_true_eq_false, if_false, opDel_ne_opAdd]
    refine .del hj ?_ ?_ ?_
    · rw [contents, hput, ← hitems, List.erase_eq_eraseIdx_of_idxOf rfl]
    · rw [cursorOf, hput, ← List.length_erase_of_mem hm, hitems, cursorOf, hst]
    · simp [passedOver]

/-- An unfiltered read takes the entry under the cursor. -/
lemma TableStore.next_none (st : TableStore) :
    st.next none = if st.cursor < st.items.length then some st.cursor else none := by
  unfold TableStore.next
  by_cases h : st.cursor < st.items.length
  · rw [if_pos h, List.drop_eq_getElem_cons h, List.findIdx?_cons]
    simp [selects]
  · rw [if_neg h, List.drop_eq_nil_of_le (not_lt.mp h)]
    rfl

lemma read_moves (hi : CoreInv x.core) (m : Bool) :
    Moves table x (.read table none m)
      { x.note table (.read table none m) (exec x.core (.read table none m)).2 with
        core := (exec x.core (.read table none m)).1 } := by
  have hn : ¬ (x.core.lockReady = false ∨ x.core.initialised = false) := by
    simp [hi.lockReady, hi.initialised]
  have hidle : ∀ c, storeOf c table = storeOf x.core table →
      Moves table x (.read table none m) { x with core := c } := fun c hc =>
    .idle (congrArg TableStore.items hc) (congrArg TableStore.cursor hc) rfl
  simp only [exec, daimTableRead]
  rcases hs : storeFor table with _ | i
  · exact hidle _ rfl
  have hst : storeOf x.core table = x.core.tables i := storeOf_some hs
  have hput := fun st => storeOf_put (s := x.core) hs st x.core.generation
  simp only [hn, if_false, TableStore.read, TableStore.next_none]
  by_cases hlt : (x.core.tables i).cursor < (x.core.tables i).items.length
  · rw [if_pos hlt]
    cases m
    · exact hidle _ ((hput _).trans hst.symm)
    · simp only [if_true, List.getElem?_eq_getElem hlt, Scan.note, ne_eq, not_true_eq_false,
        if_false]
      refine .read ?_ ?_ ?_ rfl
      · rw [cursorOf, contents, hst, List.getElem?_eq_getElem hlt]
      · rw [contents, hput, contents, hst]
      · rw [cursorOf, hput, cursorOf, hst]
  · rw [if_neg hlt]
    exact hidle _ ((hput _).trans hst.symm)

/-- **Inversion of one call of a scan.** -/
theorem step_moves (hi : CoreInv x.core) (h : step table x op = some y) : Moves table x op y := by
  unfold step at h
  split_ifs at h with ha
  cases h
  by_cases ht : op.table = some table
  · cases op with
    | init m => simp [Op.table] at ht
    | generation => simp [Op.table] at ht
    | write t entry opCode a =>
      cases ht
      exact write_moves hi entry opCode a
    | read t entry m =>
      cases ht
      cases entry with
      | none => exact read_moves hi m
      | some e => simp [Allowed] at ha
    | rewind t =>
      cases ht
      simp [Allowed] at ha
    | tableCount t => exact .idle rfl rfl rfl
  · have hf := (effect_frame (exec_effect hi.lockReady hi.initialised op)).2.2 table ht
    have hnote : x.note table op (exec x.core op).2 = x := by
      generalize (exec x.core op).2 = r
      cases op with
      | write t entry opCode a =>
        have hne : t ≠ table := fun h => ht (congrArg some h)
        rcases entry with _ | e
        · rfl
        · rcases r with (_ | _) | _ | _ | _ | _
          · exact if_pos hne
          all_goals rfl
      | read t entry m =>
        have hne : t ≠ table := fun h => ht (congrArg some h)
        rcases entry with _ | e
        · rcases r with _ | (_ | _) | _ | _ | _
          · rfl
          · rfl
          · exact if_pos hne
          all_goals rfl
        · rfl
      | _ => rfl
    rw [hnote]
    refine .idle (congrArg TableStore.items hf) (congrArg TableStore.cursor hf) ?_
    refine passedOver_eq_none hi fun e a he => ?_
    subst he
    exact absurd rfl ht

/-! ### Names and positions -/

/-- The entry is under the cursor or behind it. -/
def Unread (table : UInt8) (x : Scan) (n : ℕ) : Prop :=
  ∃ i, cursorOf x.core table ≤ i ∧ x.ids[i]? = some n

/-- What every scan of a table with `n₀` entries keeps. -/
structure ScanInv (table : UInt8) (n₀ : ℕ) (x : Scan) : Prop where
  core : CoreInv x.core
  /-- The names stand for what is in the table. -/
  named : (contents x.core table).map some = x.ids.map (x.entries[·]?)
  ordered : x.ids.Pairwise (· < ·)
  fresh : ∀ n ∈ x.ids, n < x.next
  first : n₀ ≤ x.next
  returned : x.returned.Pairwise (· < ·)
  returned_lt : ∀ n ∈ x.returned, n < x.next
  bytes : x.read.map some = x.returned.map (x.entries[·]?)
  /-- What was returned stands before what is unread. -/
  behind : ∀ n ∈ x.returned, ∀ k, Unread table x k → n < k

variable {n₀ n : ℕ}

lemma ScanInv.length (hi : ScanInv table n₀ x) :
    x.ids.length = (contents x.core table).length := by
  simpa using (congrArg List.length hi.named).symm

lemma next_snoc (e : Entry) (c : State) :
    Scan.next { x with core := c, ids := x.ids ++ [x.next], entries := x.entries ++ [e] } =
      x.next + 1 := List.length_append

/-- A new entry leaves the bytes of the others alone. -/
lemma map_entries_append {l : List ℕ} {es : List Entry} (e : Entry) (hl : ∀ n ∈ l, n < es.length) :
    l.map ((es ++ [e])[·]?) = l.map (es[·]?) :=
  List.map_congr_left fun n hn => List.getElem?_append_left (hl n hn)

/-- The name under the cursor is that of the entry under it. -/
lemma ScanInv.under (hi : ScanInv table n₀ x) {e : Entry} {i c : ℕ}
    (he : (contents x.core table)[i]? = some e) (hc : x.ids[i]? = some c) :
    x.entries[c]? = some e := by
  have h := congrArg (·[i]?) hi.named
  simp only [List.getElem?_map, he, hc, Option.map_some, Option.some.injEq] at h
  exact h.symm

lemma nodup_of_ordered {l : List ℕ} (h : l.Pairwise (· < ·)) : l.Nodup :=
  h.imp fun hlt => Nat.ne_of_lt hlt

/-- A removal leaves nothing unread that was not. -/
lemma unread_of_erase {l : List ℕ} {j i c : ℕ} (hj : j < l.length)
    (hi : min c (l.length - 1) ≤ i) (h : (l.eraseIdx j)[i]? = some n) :
    ∃ k, c ≤ k ∧ l[k]? = some n ∧ (j < c → c < k) := by
  have hlt : i < (l.eraseIdx j).length := (List.getElem?_eq_some_iff.mp h).1
  rw [List.length_eraseIdx_of_lt hj] at hlt
  rw [List.getElem?_eraseIdx] at h
  split_ifs at h with hij
  · exact ⟨i, by omega, h, by omega⟩
  · exact ⟨i + 1, by omega, h, by omega⟩

lemma ScanInv.unread_lt (hi : ScanInv table n₀ x) (h : Unread table x n) : n < x.next := by
  obtain ⟨i, -, hg⟩ := h
  exact hi.fresh n (List.mem_of_getElem? hg)

/-- A call leaves nothing unread that was not, a new entry apart. -/
lemma Moves.unread (hm : Moves table x op y) (hi : ScanInv table n₀ x) (h : Unread table y n) :
    Unread table x n ∨ n = x.next := by
  obtain ⟨i, hci, hg⟩ := h
  cases hm with
  | idle hc hcur hp => exact .inl ⟨i, hcur ▸ hci, hg⟩
  | add hc hcur hp =>
    rw [List.getElem?_append] at hg
    split_ifs at hg with hlt
    · exact .inl ⟨i, hcur ▸ hci, hg⟩
    · rw [List.getElem?_singleton] at hg
      split_ifs at hg
      exact .inr (Option.some.inj hg).symm
  | del hj hc hcur hp =>
    rw [hcur, ← hi.length] at hci
    obtain ⟨k, hck, hk, -⟩ := unread_of_erase (hi.length ▸ hj) hci hg
    exact .inl ⟨k, hck, hk⟩
  | read hlt hc hcur hp =>
    refine .inl ⟨i, ?_, hg⟩
    dsimp only at hci
    omega

lemma ScanInv.moves (hi : ScanInv table n₀ x) (hm : Moves table x op y) (hc : CoreInv y.core) :
    ScanInv table n₀ y := by
  have hun := fun k => hm.unread hi (n := k)
  cases hm with
  | idle hc' hcur hp =>
    refine ⟨hc, by rw [← hi.named, ← hc'], hi.ordered, hi.fresh, hi.first, hi.returned,
      hi.returned_lt, hi.bytes, fun n hn k hk => ?_⟩
    rcases hun k hk with h | rfl
    · exact hi.behind n hn k h
    · exact hi.returned_lt n hn
  | @add c e hc' hcur hp =>
    have hnext := next_snoc (x := x) e c
    refine ⟨hc, ?_, ?_, fun n hn => ?_, ?_, hi.returned, fun n hn => ?_, ?_, fun n hn k hk => ?_⟩
    · rw [hc', List.map_append, hi.named, List.map_append, map_entries_append e hi.fresh]
      simp [Scan.next]
    · rw [List.pairwise_append]
      refine ⟨hi.ordered, List.pairwise_singleton _ _, fun a ha b hb => ?_⟩
      rw [List.mem_singleton.mp hb]
      exact hi.fresh a ha
    · rw [hnext]
      rcases List.mem_append.mp hn with hn | hn
      · exact (hi.fresh n hn).trans (Nat.lt_succ_self _)
      · rw [List.mem_singleton.mp hn]
        exact Nat.lt_succ_self _
    · rw [hnext]
      exact hi.first.trans (Nat.le_succ _)
    · rw [hnext]
      exact (hi.returned_lt n hn).trans (Nat.lt_succ_self _)
    · rw [hi.bytes, map_entries_append e hi.returned_lt]
    · rcases hun k hk with h | rfl
      · exact hi.behind n hn k h
      · exact hi.returned_lt n hn
  | del hj hc' hcur hp =>
    refine ⟨hc, ?_, hi.ordered.eraseIdx _, fun n hn => hi.fresh n (List.mem_of_mem_eraseIdx hn),
      hi.first, hi.returned, hi.returned_lt, hi.bytes, fun n hn k hk => ?_⟩
    · rw [hc', ← List.eraseIdx_map, hi.named, List.eraseIdx_map]
    · rcases hun k hk with h | rfl
      · exact hi.behind n hn k h
      · exact hi.returned_lt n hn
  | @read c e he hc' hcur hp =>
    have hlt : cursorOf x.core table < (contents x.core table).length :=
      (List.getElem?_eq_some_iff.mp he).1
    have hlt' : cursorOf x.core table < x.ids.length := hi.length ▸ hlt
    have hg := List.getElem?_eq_getElem hlt'
    generalize x.ids[cursorOf x.core table] = c at hg
    have hc0 : Unread table x c := ⟨_, le_rfl, hg⟩
    simp only [hg, Option.toList_some] at hc hun ⊢
    refine ⟨hc, by rw [← hi.named, ← hc'], hi.ordered, hi.fresh, hi.first, ?_, fun n hn => ?_, ?_,
      fun n hn k hk => ?_⟩
    · rw [List.pairwise_append]
      refine ⟨hi.returned, List.pairwise_singleton _ _, fun a ha b hb => ?_⟩
      rw [List.mem_singleton.mp hb]
      exact hi.behind a ha c hc0
    · rcases List.mem_append.mp hn with hn | hn
      · exact hi.returned_lt n hn
      · rw [List.mem_singleton.mp hn]
        exact hi.unread_lt hc0
    · rw [List.map_append, List.map_append, hi.bytes, List.map_singleton, List.map_singleton,
        hi.under he hg]
    · obtain ⟨i, hci, hgi⟩ := hk
      dsimp only at hci hgi
      rcases List.mem_append.mp hn with hn | hn
      · exact hi.behind n hn k ⟨i, by omega, hgi⟩
      · rw [List.mem_singleton.mp hn]
        have hil := (List.getElem?_eq_some_iff.mp hgi).1
        have hlt2 := List.pairwise_iff_getElem.mp hi.ordered _ i hlt' hil (by omega)
        rw [List.getElem?_eq_getElem hlt', Option.some.injEq] at hg
        rw [List.getElem?_eq_getElem hil, Option.some.injEq] at hgi
        omega

/-! ### Entries that are missed, and entries that are not -/

/-- The entry will never be returned. -/
structure Missed (table : UInt8) (x : Scan) (n : ℕ) : Prop where
  lt : n < x.next
  notReturned : n ∉ x.returned
  notUnread : ¬ Unread table x n

lemma Missed.moves (h : Missed table x n) (hi : ScanInv table n₀ x) (hm : Moves table x op y) :
    Missed table y n := by
  have hnot : ¬ Unread table y n := fun hu => by
    rcases hm.unread hi hu with hu | rfl
    · exact h.notUnread hu
    · exact absurd h.lt (lt_irrefl _)
  cases hm with
  | idle | del => exact ⟨h.lt, h.notReturned, hnot⟩
  | @add c e =>
    refine ⟨?_, h.notReturned, hnot⟩
    rw [next_snoc]
    exact h.lt.trans (Nat.lt_succ_self _)
  | read =>
    refine ⟨h.lt, fun hn => ?_, hnot⟩
    rcases List.mem_append.mp hn with hn | hn
    · exact h.notReturned hn
    · exact h.notUnread ⟨_, le_rfl, by simpa using hn⟩

/-- **A `DEL` in front of the cursor makes the scan miss an entry.** -/
lemma Moves.missed (hm : Moves table x op y) (hi : ScanInv table n₀ x)
    (hp : passedOver table x op = some n) : Missed table y n := by
  cases hm with
  | idle _ _ hp' | add _ _ hp' | read _ _ _ hp' => simp [hp] at hp'
  | @del c j hj hc hcur hp' =>
    rw [hp] at hp'
    split_ifs at hp' with hlt
    have hg := hp'.symm
    have hun : Unread table x n := ⟨_, le_rfl, hg⟩
    refine ⟨hi.unread_lt hun, fun hr => absurd (hi.behind n hr n hun) (lt_irrefl _), ?_⟩
    rintro ⟨i, hci, hgi⟩
    rw [hcur, ← hi.length] at hci
    obtain ⟨k, -, hk, hck⟩ := unread_of_erase (hi.length ▸ hj) hci hgi
    have hk' : x.ids[cursorOf x.core table]? = x.ids[k]? := hg.trans hk.symm
    have heq := (List.getElem?_inj (List.getElem?_eq_some_iff.mp hg).1
      (nodup_of_ordered hi.ordered)).mp hk'
    have := hck hlt
    omega

/-- An entry of the table was returned or is still to come. -/
def Seen (table : UInt8) (x : Scan) (n : ℕ) : Prop :=
  n ∈ x.ids → n ∈ x.returned ∨ Unread table x n

/-- **Any other call keeps it in sight.** -/
lemma Seen.moves (h : Seen table x n) (hi : ScanInv table n₀ x) (hm : Moves table x op y)
    (hn : n < x.next) (hp : passedOver table x op ≠ some n) : Seen table y n := by
  intro hy
  cases hm with
  | idle hc hcur _ =>
    rcases h hy with h | ⟨i, hci, hg⟩
    · exact .inl h
    · exact .inr ⟨i, by rwa [hcur], hg⟩
  | add hc hcur _ =>
    rcases List.mem_append.mp hy with hy | hy
    · rcases h hy with h | ⟨i, hci, hg⟩
      · exact .inl h
      · refine .inr ⟨i, by rwa [hcur], ?_⟩
        rw [List.getElem?_append_left (List.getElem?_eq_some_iff.mp hg).1]
        exact hg
    · rw [List.mem_singleton.mp hy] at hn
      exact absurd hn (lt_irrefl _)
  | @del c j hj hc hcur hp' =>
    rcases h (List.mem_of_mem_eraseIdx hy) with h | ⟨i, hci, hg⟩
    · exact .inl h
    right
    have hil := (List.getElem?_eq_some_iff.mp hg).1
    obtain ⟨k, hkj, hk⟩ := List.mem_eraseIdx_iff_getElem?.mp hy
    have hik : i = k :=
      (List.getElem?_inj hil (nodup_of_ordered hi.ordered)).mp (hg.trans hk.symm)
    subst hik
    rcases Nat.lt_or_ge i j with hij | hij
    · refine ⟨i, by dsimp only; omega, ?_⟩
      rw [List.getElem?_eraseIdx_of_lt hij, hg]
    · -- the entry moves one place down; only the one under the cursor could leave it
      have hne : j < cursorOf x.core table → cursorOf x.core table ≠ i := by
        rintro hlt rfl
        rw [hp', if_pos hlt] at hp
        exact hp hg
      refine ⟨i - 1, by dsimp only; omega, ?_⟩
      rw [List.getElem?_eraseIdx_of_ge (by omega), Nat.sub_add_cancel (by omega), hg]
  | read hlt hc hcur _ =>
    rcases h hy with h | ⟨i, hci, hg⟩
    · exact .inl (List.mem_append_left _ h)
    · rcases Nat.lt_or_ge (cursorOf x.core table) i with hlt' | hge
      · exact .inr ⟨i, by dsimp only; omega, hg⟩
      · obtain rfl : i = cursorOf x.core table := by omega
        exact .inl (by simp [hg])

/-! ### Whole scans -/

variable {s : State} {h : List (Scan × Op)} {g : List (State × Op)} {m : Bool}

lemma scanInv_start (hs : CoreInv s) :
    ScanInv table (contents s table).length (start table s) where
  core := hs
  named := by
    refine List.ext_getElem? fun i => ?_
    rcases Nat.lt_or_ge i (contents s table).length with hi | hi
    · simp [start, hi]
    · simp [start, hi]
  ordered := List.pairwise_lt_range
  fresh n hn := List.mem_range.mp hn
  first := le_rfl
  returned := .nil
  returned_lt n hn := by simp [start] at hn
  bytes := rfl
  behind n hn := by simp [start] at hn

lemma step_core (hi : CoreInv x.core) (hst : step table x op = some y) : CoreInv y.core := by
  unfold step at hst
  split_ifs at hst
  cases hst
  exact hi.effect (exec_effect hi.lockReady hi.initialised op)

lemma run_scanInv (hs : CoreInv s) (hr : Run (scan table s) h x) :
    ScanInv table (contents s table).length x := by
  refine hr.inv _ ?_ fun x op y hi hst => hi.moves (step_moves hi.core hst) (step_core hi.core hst)
  rintro _ rfl
  exact scanInv_start hs

/-- What was passed over at some point of a scan is missed at its end. -/
lemma run_missed (hs : CoreInv s) (hr : Run (scan table s) h x) :
    ∀ p ∈ h, ∀ n, passedOver table p.1 p.2 = some n → Missed table x n := by
  induction hr with
  | init => simp
  | @step h x y op hr hst ih =>
    have hi := run_scanInv hs hr
    have hm := step_moves hi.core hst
    intro p hp n hn
    rcases List.mem_append.mp hp with hp | hp
    · exact (ih p hp n hn).moves hi hm
    · obtain rfl : p = (x, op) := by simpa using hp
      exact hm.missed hi hn

/-- What is not passed over stays in sight. -/
lemma run_seen (hs : CoreInv s) (h0 : cursorOf s table = 0) (hr : Run (scan table s) h x)
    (hn : n < (contents s table).length)
    (hok : ∀ p ∈ h, passedOver table p.1 p.2 ≠ some n) : Seen table x n := by
  refine (hr.inv_of_ok (fun x op => passedOver table x op ≠ some n)
    (fun x => ScanInv table (contents s table).length x ∧ Seen table x n) ?_ ?_ hok).2
  · rintro _ rfl
    refine ⟨scanInv_start hs, fun hm => .inr ⟨n, ?_, ?_⟩⟩
    · exact h0 ▸ Nat.zero_le n
    · exact List.getElem?_range hn
  · rintro x op y ⟨hi, hseen⟩ hp hst
    have hm := step_moves hi.core hst
    exact ⟨hi.moves hm (step_core hi.core hst),
      hseen.moves hi hm (hn.trans_le hi.first) hp⟩

/-- A read returns `NULL` at the end of the table, or when it has no memory for the copy. -/
lemma read_null (hi : CoreInv s) (h : (exec s (.read table none m)).2 = .entry none) :
    m = false ∨ (contents s table).length ≤ cursorOf s table := by
  have hn : ¬ (s.lockReady = false ∨ s.initialised = false) := by
    simp [hi.lockReady, hi.initialised]
  simp only [exec, daimTableRead] at h
  rcases hs : storeFor table with _ | i
  · exact .inr (by simp [contents, storeOf, hs])
  rw [contents, cursorOf, storeOf_some hs]
  simp only [hs, hn, if_false, TableStore.read, TableStore.next_none] at h
  by_cases hlt : (s.tables i).cursor < (s.tables i).items.length
  · cases m
    · exact .inl rfl
    · simp [hlt] at h
  · exact .inr (not_lt.mp hlt)

/-- No `DEL` passes over an entry that was there from the start and stays, and the `NULL` that
ends the scan is not a failed allocation with such an entry still to come. -/
structure ScanOk (table : UInt8) (s : State) (h : List (Scan × Op)) (x : Scan)
    (malloc : Bool) : Prop where
  del : ∀ p ∈ h, ∀ n < (contents s table).length,
    passedOver table p.1 p.2 = some n → n ∉ x.ids
  last : malloc = false → ∀ n, x.ids[cursorOf x.core table]? = some n →
    (contents s table).length ≤ n

/-- **A scan reads what stays exactly once, if and only if nothing that stays is passed
over.** -/
theorem scan_visits_iff (hs : Run core g s) (h0 : cursorOf s table = 0)
    (hr : Run (scan table s) h x) (hend : (exec x.core (.read table none m)).2 = .entry none) :
    Visits table s x ↔ ScanOk table s h x m := by
  have hcore := (run_reached hs).inv
  have hi := run_scanInv hcore hr
  constructor
  · intro hv
    have honce : ∀ n < (contents s table).length, n ∈ x.ids → n ∈ x.returned := fun n hn hm => by
      refine List.count_pos_iff.mp ?_
      rw [hv.once n hn hm]
      exact Nat.one_pos
    refine ⟨fun p hp n hn hpo hm => ?_, fun _ n hg => ?_⟩
    · exact (run_missed hcore hr p hp n hpo).notReturned (honce n hn hm)
    · by_contra hlt
      have hret := honce n (not_le.mp hlt) (List.mem_of_getElem? hg)
      exact lt_irrefl n (hi.behind n hret n ⟨_, le_rfl, hg⟩)
  · intro hok
    refine ⟨hi.bytes, hi.returned, fun n hn hm => ?_⟩
    have hseen := run_seen hcore h0 hr hn fun p hp hpo => hok.del p hp n hn hpo hm
    have hret : n ∈ x.returned := by
      rcases hseen hm with h | ⟨i, hci, hg⟩
      · exact h
      exfalso
      have hil := (List.getElem?_eq_some_iff.mp hg).1
      rcases read_null hi.core hend with rfl | hle
      · -- the entry under the cursor is new, so what is behind it is too
        have hcl : cursorOf x.core table < x.ids.length := by omega
        have hlast := hok.last rfl _ (List.getElem?_eq_getElem hcl)
        rw [List.getElem?_eq_getElem hil, Option.some.injEq] at hg
        rcases Nat.eq_or_lt_of_le hci with rfl | hlt
        · omega
        · have := List.pairwise_iff_getElem.mp hi.ordered _ i hcl hil hlt
          omega
      · rw [← hi.length] at hle
        omega
    exact List.count_eq_one_of_mem (nodup_of_ordered hi.returned) hret

/-- A core with three entries in the forwarding table. -/
def three : State :=
  [1, 2, 3].foldl (fun s b =>
    (exec s (.write daimPacketForwardingTable (some [b]) opAdd ⟨true, true⟩)).1)
    (daimInit {} true).1

lemma run_three : ∃ g, Run core g three :=
  ⟨_, (((Run.init (L := core) ⟨{}, rfl, rfl⟩).step rfl).step rfl).step rfl⟩

/-- An unfiltered read of the forwarding table. -/
def readNext : Op := .read daimPacketForwardingTable none true

theorem scan_visits_iff_three : ∃ h x, Run (scan daimPacketForwardingTable three) h x ∧
    x.read = [[1], [2], [3]] ∧ (Visits daimPacketForwardingTable three x ↔
      ScanOk daimPacketForwardingTable three h x true) := by
  obtain ⟨g, hg⟩ := run_three
  obtain ⟨h, x, hr, hx⟩ := exists_run_of_replay (f := step daimPacketForwardingTable)
    (i := (· = start daimPacketForwardingTable three)) [readNext, readNext, readNext] rfl
    (fun _ x => x.read = [[1], [2], [3]] ∧ (exec x.core readNext).2 = .entry none) (by decide)
  obtain ⟨hread, hend⟩ := hx
  exact ⟨h, x, hr, hread, scan_visits_iff hg rfl hr hend⟩

/-- **A `DEL` of the entry read last skips the next one.** The second of three entries is
never deleted and never read. -/
theorem del_skips_entry : ∃ g h x, Run core g three ∧ cursorOf three daimPacketForwardingTable = 0 ∧
    Run (scan daimPacketForwardingTable three) h x ∧ (exec x.core readNext).2 = .entry none ∧
      1 ∈ x.ids ∧ x.read = [[1], [3]] ∧ ¬ Visits daimPacketForwardingTable three x := by
  obtain ⟨g, hg⟩ := run_three
  obtain ⟨h, x, hr, hx⟩ := exists_run_of_replay (f := step daimPacketForwardingTable)
    (i := (· = start daimPacketForwardingTable three))
    [readNext, .write daimPacketForwardingTable (some [1]) opDel ⟨true, true⟩, readNext] rfl
    (fun _ x => (exec x.core readNext).2 = .entry none ∧ x.ids = [1, 2] ∧
      x.returned = [0, 2] ∧ x.read = [[1], [3]]) (by decide)
  obtain ⟨hend, hids, hret, hread⟩ := hx
  refine ⟨g, h, x, hg, rfl, hr, hend, by simp [hids], hread, fun hv => ?_⟩
  have h1 := hv.once 1 (by decide) (by simp [hids])
  simp [hret] at h1

end DaimDistributed.TableScan
