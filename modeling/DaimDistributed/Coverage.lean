import DaimDistributed.LearningApp

/-!
What a node owes its peer.

A record that the node has learned is with the peer, or on the way there, or the node still
has to send it. `Flow` says this of the two host tables and of the records offered in
between; here are the operations on tables and offers that keep it.
-/

namespace DaimDistributed.Coverage

open HostState HostTable HostInv LearningApp

/-- Where the thread is that runs `on_no_rule`. -/
inductive AppPc
  | idle
  | learned (info : NoRulePacketInfo) (assigned : Bool)
  | disseminating (info : NoRulePacketInfo) (loc : HostLocation)
  | sending (info : NoRulePacketInfo) (loc : HostLocation)
  | announced (info : NoRulePacketInfo)
  deriving DecidableEq

/-- A record of the node's own is no newer than the one the node holds now. -/
def Vouched (s : State) (u : HostLocation) : Prop :=
  u.originNodeId = s.nodeId →
    ∃ r ∈ s.table, r.mac = u.mac ∧ r.originNodeId = s.nodeId ∧ ver u ≤ ver r

/-- The table holds the MAC of `r`, under another origin or not older. -/
def Held (s : State) (r : HostLocation) : Prop :=
  ∃ r', find s.table r.mac = some r' ∧ (r'.originNodeId = r.originNodeId → ver r ≤ ver r')

def Carries (u r : HostLocation) : Prop :=
  u.mac = r.mac ∧ u.originNodeId = r.originNodeId ∧ ver r ≤ ver u

/-- `r` is with the peer, or on the way. -/
def Reach (s : State) (os : List HostLocation) (r : HostLocation) : Prop :=
  Held s r ∨ ∃ u ∈ os, Carries u r

/-- The thread has learned `r` and not announced it yet. -/
def Busy : AppPc → HostLocation → Prop
  | .learned info true, r => info.macSrc = r.mac
  | .disseminating _ loc, r => loc = r
  | _, _ => False

/-- What the thread knows of the table, which no other thread takes away. -/
def Knows (s : State) : AppPc → Prop
  | .learned info true => ∃ r ∈ s.table, r.mac = info.macSrc ∧ r.originNodeId = s.nodeId
  | .disseminating _ loc => loc ∈ s.table ∧ loc.originNodeId = s.nodeId
  | _ => True

/-- The counter is ahead of the node's own records, until it wraps. -/
def Ahead (s : State) : Prop :=
  s.nextLocalSequence ≠ 0 → ∀ r ∈ s.table, r.originNodeId = s.nodeId →
    ver r < version s.ownerEpoch s.nextLocalSequence

/-- From a node in state `s`, whose thread is at `pc` and which has exported `ex`, to a peer
in state `s'`, with the records `os` offered in between. -/
structure Flow (s s' : State) (os : List HostLocation) (ex : Option (List HostLocation))
    (pc : AppPc) : Prop where
  nodeId : s.nodeId ≠ 0
  ne : s.nodeId ≠ s'.nodeId
  table : TableInv s.nodeId s.table
  ahead : Ahead s
  held : ∀ r ∈ s'.table, Vouched s r
  offered : ∀ u ∈ os, Vouched s u
  knows : Knows s pc
  cover : ∀ r ∈ s.table, r.originNodeId = s.nodeId → Reach s' os r ∨ ex = none ∨ Busy pc r
  snapshot : ∀ es, ex = some es → ∀ r ∈ es, r.originNodeId = s.nodeId → Reach s' os r

variable {s s' s₁ : State} {os os' : List HostLocation} {ex : Option (List HostLocation)}
  {pc pc' : AppPc} {u r x : HostLocation} {now : UInt64} {p : State × ApplyResult}
  {info : NoRulePacketInfo} {loc : HostLocation}

/-! ### Tables with one record per MAC -/

lemma mem_write_iff {t : List HostLocation} (hn : (t.map HostLocation.mac).Nodup) :
    x ∈ write t r ↔ x = r ∨ x ∈ t ∧ x.mac ≠ r.mac := by
  have hf := find_write t r x.mac
  constructor
  · intro hx
    rw [find_of_mem (nodup_write hn r) hx] at hf
    split_ifs at hf with hm
    · exact .inl (Option.some.inj hf)
    · exact .inr ⟨find_mem hf.symm, fun he => hm he.symm⟩
  · rintro (rfl | ⟨hx, hne⟩)
    · rw [if_pos rfl] at hf
      exact find_mem hf
    · rw [if_neg (Ne.symm hne), find_of_mem hn hx] at hf
      exact find_mem hf

lemma eq_of_mac {t : List HostLocation} (hn : (t.map HostLocation.mac).Nodup) (hx : x ∈ t)
    (hr : r ∈ t) (hm : x.mac = r.mac) : x = r :=
  Option.some.inj ((find_of_mem hn hx).symm.trans (hm ▸ find_of_mem hn hr))

/-- An update leaves the node's own records. -/
lemma own_mem_applies (ha : Applies s u now p) (ht : TableInv s.nodeId s.table)
    (ho : r.originNodeId = s.nodeId) : r ∈ p.1.table ↔ r ∈ s.table := by
  cases ha with
  | new h0 hn hf hl =>
    have hne : r ∈ s.table → r.mac ≠ u.mac := fun hr he => by
      rw [← he, find_of_mem ht.nodup hr] at hf
      cases hf
    refine (mem_write_iff ht.nodup).trans ?_
    exact ⟨fun h => h.elim (fun he => absurd (by rw [he] at ho; exact ho) hn) And.left,
      fun h => .inr ⟨h, hne h⟩⟩
  | updated h0 hn hf hor hv =>
    rename_i r0
    have hne : r ∈ s.table → r.mac ≠ r0.mac := fun hr he => by
      obtain rfl := eq_of_mac ht.nodup hr (find_mem hf) he
      exact hn (hor.symm.trans ho)
    refine (mem_write_iff ht.nodup).trans
      ⟨fun h => h.elim (fun he => ?_) And.left, fun h => .inr ⟨h, hne h⟩⟩
    rw [he] at ho
    exact absurd (hor.symm.trans ho) hn
  | _ => exact Iff.rfl

/-! ### Being vouched for -/

lemma Vouched.mono (h : Vouched s u) (hid : s₁.nodeId = s.nodeId)
    (hs : ∀ r ∈ s.table, r.originNodeId = s.nodeId →
      ∃ r' ∈ s₁.table, r'.mac = r.mac ∧ r'.originNodeId = s.nodeId ∧ ver r ≤ ver r') :
    Vouched s₁ u := by
  intro ho
  rw [hid] at ho ⊢
  obtain ⟨r, hr, hm, hor, hv⟩ := h ho
  obtain ⟨r', hr', hm', ho', hv'⟩ := hs r hr hor
  exact ⟨r', hr', hm'.trans hm, ho', hv.trans hv'⟩

lemma Vouched.congr (h : Vouched s u) (hc : claim r = claim u) : Vouched s r := by
  obtain ⟨hm, ho, -, hv⟩ := fields_of_claim hc
  unfold Vouched
  rw [hm, ho, hv]
  exact h

/-- The node vouches for what it holds. -/
lemma vouched_of_mem (hr : r ∈ s.table) : Vouched s r := fun ho => ⟨r, hr, rfl, ho, le_rfl⟩

/-! ### Being held -/

/-- An update keeps what is held. -/
lemma Held.applies (h : Held s r) (ha : Applies s u now p) : Held p.1 r := by
  obtain ⟨r₁, hf₁, hv₁⟩ := h
  obtain ⟨r₂, hf₂, ho₂, hv₂⟩ := ha.keeps hf₁
  exact ⟨r₂, hf₂, fun ho => (hv₁ (ho₂.symm.trans ho)).trans hv₂⟩

/-- An update is held once it is applied. -/
lemma held_of_carries (ha : Applies s u now p) (h0 : u.originNodeId ≠ 0)
    (hn : u.originNodeId ≠ s.nodeId) (hroom : s.table.length < maxHostEntries)
    (hc : Carries u r) : Held p.1 r := by
  obtain ⟨hm, ho, hv⟩ := hc
  unfold Held
  rw [← hm]
  rcases ha.holds h0 hn hroom with ⟨r', hf, -, hle⟩ | ⟨rfl, r', hf, hne⟩
  · exact ⟨r', hf, fun _ => hv.trans hle⟩
  · exact ⟨r', hf, fun he => absurd (he.trans ho.symm) hne⟩

/-- A write of the peer's own keeps what is held, or puts another origin there. -/
lemma Held.write (h : Held s r) (hx : x.originNodeId ≠ r.originNodeId)
    (ht : s₁.table = HostTable.write s.table x) : Held s₁ r := by
  obtain ⟨r', hf, hv⟩ := h
  unfold Held
  rw [ht]
  by_cases hm : x.mac = r.mac
  · exact ⟨x, (find_write _ _ _).trans (if_pos hm), fun he => absurd he hx⟩
  · exact ⟨r', ((find_write _ _ _).trans (if_neg hm)).trans hf, hv⟩

lemma Reach.mono (h : Reach s os r) (hh : Held s r → Held s₁ r)
    (ho : ∀ u ∈ os, Carries u r → Reach s₁ os' r) : Reach s₁ os' r := by
  rcases h with h | ⟨u, hu, hc⟩
  · exact .inl (hh h)
  · exact ho u hu hc

/-! ### What keeps the flow -/

/-- Other records are offered, and all those that were offered; the thread moves on. -/
lemma Flow.offer (h : Flow s s' os ex pc) (ho : ∀ u ∈ os, u ∈ os') (hv : ∀ u ∈ os', Vouched s u)
    (hk : Knows s pc')
    (hb : ∀ r ∈ s.table, r.originNodeId = s.nodeId → Busy pc r →
      Reach s' os' r ∨ ex = none ∨ Busy pc' r) :
    Flow s s' os' ex pc' := by
  have hreach : ∀ r, Reach s' os r → Reach s' os' r := fun r hr =>
    hr.mono id fun u hu hc => .inr ⟨u, ho u hu, hc⟩
  refine ⟨h.nodeId, h.ne, h.table, h.ahead, h.held, hv, hk, fun r hr hor => ?_,
    fun es he r hr hor => hreach r (h.snapshot es he r hr hor)⟩
  rcases h.cover r hr hor with h1 | h1 | h1
  · exact .inl (hreach r h1)
  · exact .inr (.inl h1)
  · exact hb r hr hor h1

/-- The same records are offered, in another place. -/
lemma Flow.move (h : Flow s s' os ex pc) (ho : ∀ u, u ∈ os' ↔ u ∈ os) : Flow s s' os' ex pc :=
  h.offer (fun u hu => (ho u).mpr hu) (fun u hu => h.offered u ((ho u).mp hu)) h.knows
    fun _ _ _ hb => .inr (.inr hb)

/-- The thread moves on to where nothing is left to announce. -/
lemma Flow.rest (h : Flow s s' os ex pc) (hpc : ∀ r, ¬Busy pc r) (hk : Knows s pc') :
    Flow s s' os ex pc' :=
  h.offer (fun _ => id) h.offered hk fun r _ _ hb => absurd hb (hpc r)

/-- The whole table is offered. -/
lemma Flow.exportTable (h : Flow s s' os ex pc)
    (ho : ∀ u, u ∈ os' ↔ u ∈ os ∨ u ∈ s.table) : Flow s s' os' (some s.table) pc := by
  have hall : ∀ r ∈ s.table, Reach s' os' r := fun r hr =>
    .inr ⟨r, (ho r).mpr (.inr hr), rfl, rfl, le_rfl⟩
  refine ⟨h.nodeId, h.ne, h.table, h.ahead, h.held, fun u hu => ?_, h.knows,
    fun r hr _ => .inl (hall r hr), fun es he r hr _ => ?_⟩
  · rcases (ho u).mp hu with hu | hu
    · exact h.offered u hu
    · exact vouched_of_mem hu
  · cases he
    exact hall r hr

/-- The peer applies the next record offered. -/
lemma Flow.peerApplies (h : Flow s s' (u :: os) ex pc) (ha : Applies s' u now p)
    (hroom : s'.table.length < maxHostEntries) : Flow s p.1 os ex pc := by
  have hreach : ∀ r, r.originNodeId = s.nodeId → Reach s' (u :: os) r → Reach p.1 os r := by
    intro r hor hr
    refine hr.mono (fun hh => hh.applies ha) fun v hv hc => ?_
    rcases List.mem_cons.mp hv with rfl | hv
    · have hvo : v.originNodeId = s.nodeId := hc.2.1.trans hor
      exact .inl (held_of_carries ha (hvo ▸ h.nodeId) (hvo ▸ h.ne) hroom hc)
    · exact .inr ⟨v, hv, hc⟩
  refine ⟨h.nodeId, ha.nodeId ▸ h.ne, h.table, h.ahead, fun r hr => ?_,
    fun v hv => h.offered v (List.mem_cons_of_mem _ hv), h.knows, fun r hr hor => ?_,
    fun es he r hr hor => hreach r hor (h.snapshot es he r hr hor)⟩
  · rcases ha.mem hr with hr | hc
    · exact h.held r hr
    · exact (h.offered u List.mem_cons_self).congr hc
  · exact (h.cover r hr hor).imp_left (hreach r hor)

/-- The node applies a record of the peer's. -/
lemma Flow.ownApplies (h : Flow s s' os ex pc) (ha : Applies s u now p) :
    Flow p.1 s' os ex pc := by
  have hid : p.1.nodeId = s.nodeId := ha.nodeId
  have hmem : ∀ r, r.originNodeId = s.nodeId → (r ∈ p.1.table ↔ r ∈ s.table) := fun r hor =>
    own_mem_applies ha h.table hor
  have hv : ∀ v, Vouched s v → Vouched p.1 v := fun v hv =>
    hv.mono hid fun r hr hor => ⟨r, (hmem r hor).mpr hr, rfl, hor, le_rfl⟩
  refine ⟨hid ▸ h.nodeId, hid ▸ h.ne, hid ▸ tableInv_applies ha h.table, ?_,
    fun r hr => hv r (h.held r hr), fun v hu => hv v (h.offered v hu), ?_,
    fun r hr hor => h.cover r ((hmem r (hid ▸ hor)).mp hr) (hid ▸ hor),
    fun es he r hr hor => h.snapshot es he r hr (hid ▸ hor)⟩
  · intro hn r hr hor
    rw [hid] at hor
    have hfr := ha.frame
    rw [hfr] at hn ⊢
    exact h.ahead hn r ((hmem r hor).mp hr) hor
  · have hk := h.knows
    unfold Knows at hk ⊢
    split
    · obtain ⟨r, hr, hm, hor⟩ := hk
      exact ⟨r, (hmem r hor).mpr hr, hm, hid ▸ hor⟩
    · exact ⟨(hmem _ hk.2).mpr hk.1, hid ▸ hk.2⟩
    · trivial

/-! ### Learning -/

/-- The counter moves past its own value, unless it wraps. -/
lemma version_lt_succ {e q : UInt64} (h : q + 1 ≠ 0) : version e q < version e (q + 1) := by
  refine version_lt.mpr (.inr ⟨rfl, ?_⟩)
  rw [UInt64.lt_iff_toNat_lt, UInt64.toNat_add]
  have hne : (q + 1).toNat ≠ 0 := fun h0 => h (UInt64.toNat_inj.mp h0)
  rw [UInt64.toNat_add] at hne
  have hlt := q.toNat_lt
  simp only [UInt64.toNat_one] at hne ⊢
  omega

/-- The node learns, before its counter has wrapped. -/
lemma Flow.ownLearns {a : AppState} {q : State × Bool} (h : Flow s s' os ex .idle)
    (hl : Sources a s info now q) (h0 : info.inPort = a.hostPort → s.nextLocalSequence ≠ 0) :
    Flow q.1 s' os ex (.learned info q.2) := by
  cases hl with
  | same => exact h.rest (fun _ => id) trivial
  | full hp =>
    refine ⟨h.nodeId, h.ne, h.table, fun hn r hr hor => ?_, h.held, h.offered, trivial, h.cover,
      h.snapshot⟩
    exact (h.ahead (h0 hp) r hr hor).trans (version_lt_succ hn)
  | learned hp hroom =>
    generalize hx : localRecord s info.macSrc a.myDpid info.inPort.toUInt32 now = x
    have hxm : x.mac = info.macSrc := by rw [← hx]; rfl
    have hxo : x.originNodeId = s.nodeId := by rw [← hx]; rfl
    have hxv : ver x = version s.ownerEpoch s.nextLocalSequence := by rw [← hx]; rfl
    have hmem : ∀ r, r ∈ write s.table x ↔ r = x ∨ r ∈ s.table ∧ r.mac ≠ x.mac := fun r =>
      mem_write_iff h.table.nodup
    have hahead := h.ahead (h0 hp)
    -- the new record takes the place of an older one of the node's own
    have hnew : ∀ r ∈ s.table, r.originNodeId = s.nodeId →
        ∃ r' ∈ write s.table x, r'.mac = r.mac ∧ r'.originNodeId = s.nodeId ∧ ver r ≤ ver r' := by
      intro r hr hor
      by_cases hm : r.mac = x.mac
      · exact ⟨x, (hmem x).mpr (.inl rfl), hm.symm, hxo, hxv ▸ (hahead r hr hor).le⟩
      · exact ⟨r, (hmem r).mpr (.inr ⟨hr, hm⟩), rfl, hor, le_rfl⟩
    have hv : ∀ v, Vouched s v → Vouched
        { s with nextLocalSequence := s.nextLocalSequence + 1, table := write s.table x } v :=
      fun v hv => hv.mono rfl hnew
    have hb : decide (s.nextLocalSequence ≠ 0) = true := decide_eq_true (h0 hp)
    rw [hb]
    refine ⟨h.nodeId, h.ne, h.table.write (hxm ▸ hroom) ⟨fun _ => hxo, fun _ => ?_⟩ fun hc => ?_,
      fun hn r hr hor => ?_, fun r hr => hv r (h.held r hr), fun v hu => hv v (h.offered v hu),
      ⟨x, (hmem x).mpr (.inl rfl), hxm, hxo⟩, fun r hr hor => ?_, h.snapshot⟩
    · rw [← hx]
      simp [localRecord]
    · rw [← hx] at hc
      simp [localRecord] at hc
    · refine lt_of_le_of_lt ?_ (version_lt_succ hn)
      rcases (hmem r).mp hr with rfl | ⟨hr, -⟩
      · exact hxv.le
      · exact (hahead r hr hor).le
    · rcases (hmem r).mp hr with rfl | ⟨hr, -⟩
      · exact .inr (.inr hxm.symm)
      · exact (h.cover r hr hor).imp_right fun h1 => .inl (h1.resolve_right id)

/-- The peer learns. -/
lemma Flow.peerLearns {a : AppState} {q : State × Bool} (h : Flow s s' os ex pc)
    (hl : Sources a s' info now q) : Flow s q.1 os ex pc := by
  cases hl with
  | same => exact h
  | full =>
    exact ⟨h.nodeId, h.ne, h.table, h.ahead, h.held, h.offered, h.knows, h.cover, h.snapshot⟩
  | learned hp hroom =>
    generalize hx : localRecord s' info.macSrc a.myDpid info.inPort.toUInt32 now = x
    have hxo : x.originNodeId = s'.nodeId := by rw [← hx]; rfl
    have hreach : ∀ r, r.originNodeId = s.nodeId → Reach s' os r →
        Reach { s' with
          nextLocalSequence := s'.nextLocalSequence + 1, table := write s'.table x } os r :=
      fun r hor hr => hr.mono
        (fun hh => hh.write (fun he => h.ne (hor.symm.trans (he.symm.trans hxo))) rfl)
        fun u hu hc => .inr ⟨u, hu, hc⟩
    refine ⟨h.nodeId, h.ne, h.table, h.ahead, fun r hr => ?_, h.offered, h.knows,
      fun r hr hor => (h.cover r hr hor).imp_left (hreach r hor),
      fun es he r hr hor => hreach r hor (h.snapshot es he r hr hor)⟩
    rcases mem_write hr with rfl | hr
    · exact fun ho => absurd (ho.symm.trans hxo) h.ne
    · exact h.held r hr

/-! ### Announcing -/

/-- The thread looks up what it has learned. -/
lemma Flow.looksUp (h : Flow s s' os ex (.learned info true)) :
    ∃ loc, find s.table info.macSrc = some loc ∧ Flow s s' os ex (.disseminating info loc) := by
  obtain ⟨loc, hloc, hm, hor⟩ := h.knows
  refine ⟨loc, hm ▸ find_of_mem h.table.nodup hloc, ?_⟩
  refine h.offer (fun _ => id) h.offered ⟨hloc, hor⟩ fun r hr _ hb => .inr (.inr ?_)
  exact eq_of_mac h.table.nodup hloc hr (hm.trans hb)

/-- The record the thread announces is offered. -/
lemma Flow.announces (h : Flow s s' os ex (.disseminating info loc))
    (ho : ∀ u, u ∈ os' ↔ u ∈ os ∨ u = loc) (hk : Knows s pc') : Flow s s' os' ex pc' := by
  refine h.offer (fun u hu => (ho u).mpr (.inl hu)) (fun u hu => ?_) hk fun r _ _ hb => .inl ?_
  · rcases (ho u).mp hu with hu | rfl
    · exact h.offered u hu
    · exact vouched_of_mem h.knows.1
  · obtain rfl : loc = r := hb
    exact .inr ⟨loc, (ho loc).mpr (.inr rfl), rfl, rfl, le_rfl⟩

/-- The announcement finds no peer ready; the snapshot takes the record along. -/
lemma Flow.drops (h : Flow s s' os ex (.disseminating info loc)) (he : ∀ es ∈ ex, loc ∈ es)
    (hk : Knows s pc') : Flow s s' os ex pc' := by
  refine h.offer (fun _ => id) h.offered hk fun r _ hor hb => ?_
  obtain rfl : loc = r := hb
  rcases hex : ex with _ | es
  · exact .inr (.inl rfl)
  · exact .inl (h.snapshot es hex loc (he es hex) hor)

/-- **With nothing on the way and nothing to announce, the peer holds what the node has
learned**, or another node's record of that MAC. -/
theorem Flow.delivered (h : Flow s s' [] ex pc) (hex : ex ≠ none) (hpc : ∀ r, ¬Busy pc r)
    (hr : r ∈ s.table) (hl : r.isLocal ≠ 0) :
    ∃ r', find s'.table r.mac = some r' ∧
      (r'.originNodeId = r.originNodeId →
        r'.ownerEpoch = r.ownerEpoch ∧ r'.sequence = r.sequence) := by
  have hor : r.originNodeId = s.nodeId := (h.table.local_iff r hr).mp hl
  rcases h.cover r hr hor with (⟨r', hf, hv⟩ | ⟨u, hu, -⟩) | h1 | h1
  · refine ⟨r', hf, fun ho => version_inj.mp (le_antisymm ?_ (hv ho))⟩
    obtain ⟨r₁, hr₁, hm, -, hv₁⟩ := h.held r' (find_mem hf) (ho.trans hor)
    obtain rfl := eq_of_mac h.table.nodup hr₁ hr (hm.trans (find_mac hf))
    exact hv₁
  · simp at hu
  · exact absurd h1 hex
  · exact absurd h1 (hpc r)

end DaimDistributed.Coverage
