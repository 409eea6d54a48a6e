import DaimDistributed.CoreBodies

/-!
Every history of the core is one of the atomic table store, every call returns, and the tables
hold what the calls have written.
-/

namespace DaimDistributed.CoreLinearizable

open CoreTables Monitors CoreMonitor CoreBodies Transitions
open DaimDistributed.Core (signalSlots)

variable {m m' : Mem} {w : Answer} {op : Op} {pc : Pc}

/-! ### The refinement -/

lemma goes_of_at (hi : Inv m) (hat : At m op m' pc) (hv : instr m' pc w = some v) :
    Goes m op v := by
  cases hat with
  | initTest =>
    simp only [instr, hi.initialised, if_true, Option.some.injEq] at hv
    subst hv
    have hx := TableRefinement.daimInit_again (s := denote m) rfl hi.initialised
    exact ⟨hi, by simp only [exec, TableRefinement.exec, hx]; rfl⟩
  | ensureCapacity hw => exact goes_ensureCapacity hi hw hv
  | malloc hw hr => exact goes_malloc hi hw hr hv
  | setData hw hr ha hp => exact goes_setData hw hr ha hp hv
  | setSize hw hr ha hp hg => exact goes_setSize hw hr ha hp hg hv
  | countUp hw hr ha hp hg => exact goes_countUp hi hw hr ha hp hg hv
  | scan hw hn => exact goes_scan hi hw hn hv
  | free hw hf => exact goes_free hi hw hf hv
  | move hw hf => exact goes_move hi hw hf hv
  | countDown hw hf hc => exact goes_countDown hw hf hc hv
  | clamp hw hf hc => exact goes_clamp hi hw hf hc hv
  | generationUp hi' hx =>
    cases hv
    exact ⟨hi', hx⟩
  | enter hs =>
    cases hv
    exact At.look hs ⟨le_rfl, fun k h1 h2 => absurd h1 (not_le.mpr h2)⟩
  | look hs hn => exact goes_look hi hs hn hv
  | copy hs hj hf => exact goes_copy hi hs hj hf hv
  | advance hs hj hf => exact goes_advance hi hs hj hf hv
  | rewind hs =>
    cases hv
    obtain ⟨hi', hden⟩ := hi.cursor 0
    refine ⟨hi', ?_⟩
    have hn : ¬((denote m).lockReady = false ∨ (denote m).initialised = false) := by
      simp [denote, hi.initialised]
    rw [hden]
    simp only [exec, TableRefinement.exec, daimTableRewind, hs, if_neg hn]
  | tableCount hs =>
    cases hv
    have hn : ¬((denote m).lockReady = false ∨ (denote m).initialised = false) := by
      simp [denote, hi.initialised]
    refine ⟨hi, ?_⟩
    simp only [exec, TableRefinement.exec, daimCoreTableCount, hs, if_neg hn, hi.length_items]
  | generation =>
    cases hv
    have hn : ¬((denote m).lockReady = false ∨ (denote m).initialised = false) := by
      simp [denote, hi.initialised]
    refine ⟨hi, ?_⟩
    simp only [exec, TableRefinement.exec, daimCoreGeneration, if_neg hn]
    rfl
  | signal hs =>
    simp only [instr, hi.signals, if_pos hs, Option.some.injEq] at hv
    subst hv
    refine ⟨⟨hi.initialised, by simp [hi.signals], hi.count, hi.block, hi.nodup, hi.apart,
      hi.owned⟩, ?_⟩
    simp [exec, Core.daimSignal, denote, hi.initialised, hs]
  | @emit sigType hs =>
    have hlt : sigType < m.signals.length := by rw [hi.signals]; exact hs
    simp only [instr, List.getElem?_eq_getElem hlt] at hv
    cases hv
    exact ⟨hi, by simp [exec, Core.daimCoreEmit, denote, hi.initialised, hs, hlt]⟩

/-- The test without the mutex reads the flag and nothing else. -/
lemma check_congr (hm : m.initialised = m'.initialised) : check m = check m' := by
  funext op
  unfold check
  rw [hm]

lemma exec_of_check (hi : Inv m) {r : Ret} (hc : check m op = some r) :
    exec (denote m) op = (denote m, r) := by
  have hslot : ∀ table, validTable table = false → storeFor table = none := fun table hv => by
    rw [storeFor, dif_neg (by simp [hv])]
  cases op with
  | table op =>
    cases op with
    | init b => cases hc
    | write table entry opCode a =>
      have hbad : daimTableWrite (denote m) table entry opCode a = (denote m, .error) ∧
          r = statusError := by
        simp only [check, hi.initialised, Bool.true_eq_false, false_or] at hc
        unfold daimTableWrite
        split_ifs at hc with h1 h2
        · refine ⟨?_, (Option.some.inj hc).symm⟩
          split
          · rw [if_pos]
            rcases h1 with h1 | h1 | h1
            · exact .inr (.inr (.inl h1))
            · cases h1
            · exact .inr (.inr (.inr (Option.some.inj h1)))
          · rfl
        · refine ⟨?_, (Option.some.inj hc).symm⟩
          split
          · rw [if_pos h2, ite_self]
          · rfl
      obtain ⟨hw, rfl⟩ := hbad
      simp only [exec, TableRefinement.exec, hw]
      rfl
    | read table entry malloc =>
      simp only [check, hi.initialised, Bool.true_eq_false, false_or] at hc
      split_ifs at hc with hv
      cases hc
      simp only [exec, TableRefinement.exec, daimTableRead, hslot table hv]
    | rewind table =>
      simp only [check, hi.initialised, Bool.true_eq_false, false_or] at hc
      split_ifs at hc with hv
      cases hc
      simp only [exec, TableRefinement.exec, daimTableRewind, hslot table hv]
    | tableCount table =>
      simp only [check, hi.initialised, Bool.true_eq_false, false_or] at hc
      split_ifs at hc with hv
      cases hc
      simp only [exec, TableRefinement.exec, daimCoreTableCount, hslot table hv]
    | generation => simp [check, hi.initialised] at hc
  | signal sigType handler =>
    simp only [check, hi.initialised, Bool.true_eq_false, false_or] at hc
    split_ifs at hc with hv
    cases hc
    simp [exec, Core.daimSignal, not_lt.mpr hv]
  | emit sigType =>
    simp only [check, hi.initialised, Bool.true_eq_false, false_or] at hc
    split_ifs at hc with hv
    cases hc
    simp [exec, Core.daimCoreEmit, not_lt.mpr hv]
  | quit => cases hc

lemma at_start (hi : Inv m) (ho : NotQuit op) (hc : check m op = none) :
    At m op m (start op) := by
  have hslot : ∀ table, ¬validTable table = false → ∃ i, storeFor table = some i :=
    fun table hv => ⟨_, dif_pos (by simpa using hv)⟩
  cases op with
  | table op =>
    cases op with
    | init b => exact .initTest
    | write table entry opCode a =>
      simp only [check, hi.initialised, Bool.true_eq_false, false_or] at hc
      split_ifs at hc with h1 h2
      simp only [not_or, Bool.not_eq_false] at h1
      obtain ⟨hwr, hne, hnil⟩ := h1
      obtain ⟨e, rfl⟩ := Option.ne_none_iff_exists'.mp hne
      obtain ⟨i, hs⟩ := storeFor_of_writable hwr
      have hw : Accepted table e i := ⟨hs, hwr, fun h => hnil (congrArg some h)⟩
      simp only [start, hs]
      split_ifs with ho
      · subst ho
        exact .ensureCapacity hw
      · obtain rfl : opCode = opDel := by
          by_contra h
          exact h2 ⟨ho, h⟩
        exact .scan hw (by simp)
    | read table entry malloc =>
      simp only [check, hi.initialised, Bool.true_eq_false, false_or] at hc
      split_ifs at hc with hv
      obtain ⟨i, hs⟩ := hslot table hv
      simp only [start, hs]
      exact .enter hs
    | rewind table =>
      simp only [check, hi.initialised, Bool.true_eq_false, false_or] at hc
      split_ifs at hc with hv
      obtain ⟨i, hs⟩ := hslot table hv
      simp only [start, hs]
      exact .rewind hs
    | tableCount table =>
      simp only [check, hi.initialised, Bool.true_eq_false, false_or] at hc
      split_ifs at hc with hv
      obtain ⟨i, hs⟩ := hslot table hv
      simp only [start, hs]
      exact .tableCount hs
    | generation => exact .generation
  | signal sigType handler =>
    simp only [check, hi.initialised, Bool.true_eq_false, false_or] at hc
    split_ifs at hc with hv
    exact .signal (not_le.mp hv)
  | emit sigType =>
    simp only [check, hi.initialised, Bool.true_eq_false, false_or] at hc
    split_ifs at hc with hv
    exact .emit (not_le.mp hv)
  | quit => exact absurd rfl ho

/-- **The bodies of `daim_core.c` are atomic.** -/
lemma core_refines : Refines exec core NotQuit Inv denote fun op m m' pc => At m op m' pc where
  check _ _ _ hi _ hc := exec_of_check hi hc
  start _ _ hi ho hc := at_start hi ho hc
  body _ _ _ _ _ _ hi _ hat hv := goes_of_at hi hat hv
  stable m op m' pc w v hi _ hat hv := by
    have hg := goes_of_at hi hat hv
    have hm' := hat.initialised hi
    cases v with
    | next m1 l => exact check_congr ((At.initialised hi hg).trans hm'.symm)
    | done m1 r => exact check_congr (hg.1.initialised.trans hm'.symm)
    | fault => exact hg

lemma inv_initial : Inv {} where
  initialised := rfl
  signals := by simp
  count _ := le_rfl
  block _ _ hm := by simp [live] at hm
  nodup _ := List.nodup_nil
  apart _ _ _ _ hp := by simp [pointers, live] at hp
  owned _ hp := absurd rfl hp

/-! ### The bodies come to an end -/

/-- How many instructions a body still runs, at most; those of a core that is being initialised
or shut down are not counted. -/
def rank (m : Mem) : Pc → ℕ
  | .ensureCapacity .. => 6
  | .malloc .. => 5
  | .setData .. => 4
  | .setSize .. => 3
  | .countUp _ => 2
  | .scan i _ j => (m.tables i).count - j + 6
  | .free .. => 5
  | .move .. => 4
  | .countDown _ => 3
  | .clamp _ => 2
  | .generationUp => 1
  | .enter i _ _ => (m.tables i).count - (m.tables i).cursor + 4
  | .look i _ _ j => (m.tables i).count - j + 3
  | .copy .. => 2
  | .advance .. => 1
  | _ => 0

lemma at_rank (hi : Inv m) (hat : At m op m' pc) {m1 : Mem} {pc1 : Pc}
    (hv : instr m' pc w = some (.next m1 pc1)) : rank m1 pc1 < rank m' pc := by
  cases hat with
  | initTest => simp [instr, hi.initialised] at hv
  | generationUp | advance | rewind | tableCount | generation => cases hv
  | signal hs => simp [instr, hi.signals, hs] at hv
  | @emit sigType hs =>
    have hlt : sigType < m.signals.length := by rw [hi.signals]; exact hs
    simp [instr, hlt] at hv
  | countUp | countDown | enter =>
    cases hv
    simp [rank]
  | ensureCapacity =>
    simp only [instr] at hv
    split_ifs at hv <;> cases hv <;> simp [rank]
  | malloc | move =>
    simp only [instr] at hv
    split_ifs at hv <;> cases hv
    simp [rank]
  | setData | setSize =>
    simp only [instr] at hv
    split at hv
    · cases hv
    · cases hv
      simp [rank]
  | clamp =>
    simp only [instr] at hv
    split_ifs at hv <;> cases hv <;> simp [rank]
  | free =>
    simp only [instr] at hv
    split at hv
    · cases hv
    · split_ifs at hv <;> cases hv
      simp [rank]
  | copy =>
    simp only [instr] at hv
    split at hv
    · cases hv
    · split at hv <;> cases hv
      simp [rank]
  | scan =>
    simp only [instr] at hv
    split at hv
    · split at hv
      · cases hv
      · split_ifs at hv
        · split at hv
          · cases hv
          · split_ifs at hv <;> cases hv <;> simp only [rank] <;> omega
        · cases hv
          simp only [rank]
          omega
    · cases hv
  | look =>
    simp only [instr] at hv
    split at hv
    · split at hv
      · cases hv
      · split at hv
        · cases hv
        · cases hv
          simp only [rank]
          omega
        · split_ifs at hv <;> cases hv
          simp only [rank]
          omega
    · cases hv

/-- Only the allocator has to find something. -/
lemma at_answer (hi : Inv m) (hat : At m op m' pc) : ∃ w v, instr m' pc w = some v := by
  cases hat with
  | @ensureCapacity table e i a hw =>
    have hplaces : ∀ n, ∃ places : List Item, places.length = n := fun n =>
      ⟨List.replicate n ⟨0, 0⟩, List.length_replicate⟩
    obtain ⟨places, hl⟩ := hplaces ((if (m.tables i).items.length ≠ 0 then
      (m.tables i).items.length * 2 else 8) - (m.tables i).items.length)
    refine ⟨{ places := places }, ?_⟩
    simp only [instr, if_pos hl]
    split
    · exact ⟨_, rfl⟩
    · by_cases ha : (a.realloc && decide ((if (m.tables i).items.length ≠ 0 then
          (m.tables i).items.length * 2 else 8) * itemSize < 2 ^ 63)) = true
      · exact ⟨_, if_pos ha⟩
      · exact ⟨_, if_neg ha⟩
  | malloc hw hr =>
    obtain ⟨p, hp⟩ := hi.exists_fresh
    refine ⟨{ address := p }, ?_⟩
    simp only [instr, put_heap]
    split
    · exact ⟨_, if_pos hp⟩
    · exact ⟨_, rfl⟩
  | _ =>
    refine ⟨{}, ?_⟩
    simp only [instr]
    repeat' split
    all_goals exact ⟨_, rfl⟩

/-- **Every body of the core comes to an end.** -/
lemma core_terminates : Terminates core NotQuit Inv (fun op m m' pc => At m op m' pc) rank where
  answer _ _ _ _ hi _ hat := at_answer hi hat
  less _ _ _ _ _ _ _ hi _ hat hv := at_rank hi hat hv

variable {ι : Type*} [DecidableEq ι] {x : Monitors.State ι Mem Pc Op Ret}
  {hs : List (Monitors.State ι Mem Pc Op Ret × Label ι Answer Op)}

/-- **The core is linearizable.** From `daim_init` on and until `daim_quit`, whatever the threads
do in whatever order, no access leaves its array or its block, no block is freed twice, and every
history of calls and returns is one of the table store whose calls take effect in one step. -/
theorem core_linearizable (hr : Run (monitor ι core {}) hs x) (hq : ∀ p ∈ hs, p.2.Ok NotQuit) :
    (∀ t, x.phase t ≠ .faulted) ∧ Linearizable exec (denote {}) (shown event hs) :=
  core_refines.linearizable inv_initial hr hq

/-- One thread adds an entry while another reads, and has looked at the flag before. -/
def addAndRead : List (Label Bool Answer Op) :=
  let add : Op := .table (.write lastTable (some [7]) opAdd ⟨true, true⟩)
  let read : Op := .table (.read lastTable none true)
  let run (t : Bool) : Label Bool Answer Op := .run t {}
  let a := false
  let b := true
  [.call a add, .call b read, run b, run a, run a,
    .run a { places := List.replicate 8 ⟨3, 1⟩ }, .run a { address := 5 }, run a, run a, run a,
    run a, run a, run b, run a, run b, run b, run b, run b, run b, run b]

def addAndReadHistory : List (Event Bool Op Ret) :=
  let add : Op := .table (.write lastTable (some [7]) opAdd ⟨true, true⟩)
  let read : Op := .table (.read lastTable none true)
  [.inv false add, .inv true read, .res false add statusOk,
    .res true read (.table (.entry (some [7])))]

lemma run_addAndRead : ∃ hs x, Run (monitor Bool core {}) hs x ∧
    shown event hs = addAndReadHistory ∧ (∀ p ∈ hs, p.2.Ok NotQuit) ∧ ∀ t, x.phase t = .idle :=
  exists_run_of_replay (i := fun x : Monitors.State Bool Mem Pc Op Ret => x = { mem := {} })
    (f := Monitors.step core) addAndRead rfl
    (fun hs x => shown event hs = addAndReadHistory ∧ (∀ p ∈ hs, p.2.Ok NotQuit) ∧
      ∀ t, x.phase t = .idle) (by decide +kernel)

theorem core_linearizable_addAndRead :
    Linearizable exec (denote {}) addAndReadHistory := by
  obtain ⟨hs, x, hr, he, hq, -⟩ := run_addAndRead
  exact he ▸ (core_linearizable hr hq).2

/-- **Every call of the core returns**, from whatever state the threads have reached. -/
theorem core_calls_return [Fintype ι] (hr : Run (monitor ι core {}) hs x)
    (hq : ∀ p ∈ hs, p.2.Ok NotQuit) : Returns core x :=
  have : Nonempty Answer := ⟨{}⟩
  core_refines.returns core_terminates inv_initial hr hq

/-- One thread is about to copy into its block while the other waits for the mutex. -/
theorem core_calls_return_addAndRead : ∃ x : Monitors.State Bool Mem Pc Op Ret,
    x.owner = some false ∧ x.phase true = .waiting (.table (.read lastTable none true)) ∧
      Returns core x := by
  obtain ⟨hs, x, hr, hq, ho, hp⟩ := exists_run_of_replay
    (i := fun x : Monitors.State Bool Mem Pc Op Ret => x = { mem := {} })
    (f := Monitors.step core) (addAndRead.take 7) rfl
    (fun hs x => (∀ p ∈ hs, p.2.Ok NotQuit) ∧ x.owner = some false ∧
      x.phase true = .waiting (.table (.read lastTable none true))) (by decide +kernel)
  exact ⟨x, ho, hp, core_calls_return hr hq⟩

/-! ### What a run has done to the tables -/

/-- A write with `opCode` to `table` that returned `DAIM_CORE_OK`. -/
def writesTo (opCode table : UInt8) : Op → Ret → Bool
  | .table op, .table r => op.writesTo opCode table r
  | _, _ => false

def writes : Op → Ret → Bool
  | .table op, .table r => op.writes r
  | _, _ => false

structure Counted (l : List (CoreTables.State × Op)) (s : CoreTables.State) : Prop where
  inv : TableRefinement.CoreInv s
  length : ∀ table, (TableRefinement.contents s table).length +
    l.countP (fun p => writesTo opDel table p.2 (exec p.1 p.2).2) =
      l.countP (fun p => writesTo opAdd table p.2 (exec p.1 p.2).2)
  generation : s.generation = UInt64.ofNat (l.countP fun p => writes p.2 (exec p.1 p.2).2)

lemma Counted.step {l : List (CoreTables.State × Op)} {s : CoreTables.State} (hc : Counted l s)
    (hop : NotQuit op) : Counted (l ++ [(s, op)]) (exec s op).1 := by
  cases op with
  | table op =>
    have he := TableRefinement.exec_effect hc.inv.lockReady hc.inv.initialised op
    refine ⟨hc.inv.effect he, fun table => ?_, ?_⟩
    · have h1 := TableRefinement.effect_length he table
      have h2 := hc.length table
      rw [TableRefinement.countP_snoc, TableRefinement.countP_snoc]
      change (TableRefinement.contents (TableRefinement.exec s op).1 table).length +
        (_ + (op.writesTo opDel table (TableRefinement.exec s op).2).toNat) =
          _ + (op.writesTo opAdd table (TableRefinement.exec s op).2).toNat
      omega
    · have h1 := TableRefinement.effect_generation he
      rw [TableRefinement.countP_snoc, UInt64.ofNat_add, ← hc.generation]
      exact h1
  | signal sigType handler =>
    have hd : Core.daimSignal s.toCoreState sigType handler =
        { s.toCoreState with
          signals := (Core.daimSignal s.toCoreState sigType handler).signals } := by
      unfold Core.daimSignal
      split_ifs <;> rfl
    have hi : TableRefinement.CoreInv (exec s (.signal sigType handler)).1 := by
      refine ⟨?_, ?_, hc.inv.nonempty, hc.inv.writable, hc.inv.cursor⟩
      · rw [exec, hd]
        exact hc.inv.lockReady
      · rw [exec, hd]
        exact hc.inv.initialised
    refine ⟨hi, fun table => ?_, ?_⟩
    · rw [TableRefinement.countP_snoc, TableRefinement.countP_snoc]
      exact hc.length table
    · rw [TableRefinement.countP_snoc, UInt64.ofNat_add]
      exact hc.generation.trans (add_zero _).symm
  | emit sigType =>
    refine ⟨hc.inv, fun table => ?_, ?_⟩
    · rw [TableRefinement.countP_snoc, TableRefinement.countP_snoc]
      exact hc.length table
    · rw [TableRefinement.countP_snoc, UInt64.ofNat_add]
      exact hc.generation.trans (add_zero _).symm
  | quit => exact absurd rfl hop

end DaimDistributed.CoreLinearizable
