import DaimDistributed.Cluster
import DaimDistributed.HostInv

/-!
What the nodes of a cluster agree on.

A host that is seen by one node only has one owner, and the epochs of a node go up from start
to start. A node's record of such a host is then the newest claim it has heard since it was
started, in whatever order and however often the claims came in; the owner's record is the
newest there is; so every node that has heard the owner's record answers with it, and goes on
doing so until the owner learns the host again.
-/

namespace DaimDistributed.Agreement

open HostState HostTable HostInv LearningApp Merge Registers Protocol Transitions
open Cluster (World Step cluster issued issuedBy boots bootedBy learns Present)

variable {h : List (World × Step)} {c c' : World} {st : Step} {j k e : UInt64} {m : Mac}
  {x : Claim} {s : State}

/-! ### What a node has heard -/

/-- The claim a step tells node `j`: one it makes itself, or one of another node it is handed. -/
def hears (j : UInt64) (c : World) : Step → Option Claim
  | .packetIn k info now => if k = j then issuedBy c (.packetIn k info now) else none
  | .deliver k _ payload _ =>
    if k = j then
      match daimPeerDecodeHostLocation payload with
      | some u => if u.originNodeId = j then none else some (claim u)
      | none => none
    else none
  | _ => none

def hear (j : UInt64) (l : List Claim) (p : World × Step) : List Claim :=
  match p.2 with
  | .boot k _ _ => if k = j then [] else l
  | st => l ++ (hears j p.1 st).toList

/-- The claims node `j` has heard since it was last initialised. -/
def heard (j : UInt64) (h : List (World × Step)) : List Claim := h.foldl (hear j) []

lemma heard_snoc (j : UInt64) (h : List (World × Step)) (c : World) (st : Step) :
    heard j (h ++ [(c, st)]) = hear j (heard j h) (c, st) := by
  rw [heard, List.foldl_append]
  rfl

/-- The step starts node `j`. -/
def starts (j : UInt64) : Step → Bool
  | .boot k _ _ => k = j
  | _ => false

lemma eq_boot (hs : starts j st = true) : ∃ e app, st = .boot j e app := by
  cases st with
  | boot k e app =>
    obtain rfl : k = j := by simpa [starts] using hs
    exact ⟨e, app, rfl⟩
  | _ => cases hs

lemma starts_or (st : Step) (j : UInt64) :
    starts j st = false ∨ ∃ e app, st = .boot j e app := by
  cases hs : starts j st with
  | false => exact .inl rfl
  | true => exact .inr (eq_boot hs)

@[simp] lemma starts_self (e : UInt64) (app : AppState) : starts j (.boot j e app) = true := by
  simp [starts]

/-- A step that does not start the node adds what it tells. -/
lemma heard_of_not_boot (hb : starts j st = false) :
    heard j (h ++ [(c, st)]) = heard j h ++ (hears j c st).toList := by
  rw [heard_snoc]
  cases st with
  | boot k e app =>
    have hk : k ≠ j := by simpa [starts] using hb
    simp [hear, hears, hk]
  | _ => rfl

/-! ### What a step does to one node -/

/-- The state a step leaves node `j` in. -/
inductive Changes (c : World) (j : UInt64) : Step → State → Prop
  | same {st : Step} (hb : starts j st = false) (hh : hears j c st = none) :
      Changes c j st (c.node j).state
  | boot {e : UInt64} {app : AppState} (h0 : j ≠ 0) :
      Changes c j (.boot j e app) (daimHostStateInit {} j e)
  | learn {info : NoRulePacketInfo} {now : UInt64}
      (hport : info.inPort = (c.node j).app.hostPort) :
      Changes c j (.packetIn j info now)
        (daimHostLearnLocal (c.node j).state (some info.macSrc) (c.node j).app.myDpid
          info.inPort.toUInt32 now).1
  | deliver {path : Path} {payload : List UInt8} {now : UInt64} {u : HostLocation}
      (hp : payload ∈ c.net) (hu : daimPeerDecodeHostLocation payload = some u) :
      Changes c j (.deliver j path payload now)
        (Merge.deliver (c.node j).state ⟨path, u, now⟩)

lemma changes_set {y : Cluster.Node} (hk : k ≠ j → hears j c st = none)
    (hb : k ≠ j → starts j st = false) (hy : k = j → Changes c j st y.state) :
    Changes c j st ((c.set k y).node j).state := by
  by_cases he : k = j
  · subst he
    rw [Cluster.set_node_self]
    exact hy rfl
  · rw [Cluster.set_node_of_ne c y (Ne.symm he)]
    exact .same (hb he) (hk he)

/-- **Every step starts a node, lets it learn or hands it an update, or leaves it alone.** -/
lemma step_changes (hst : Cluster.step c st = some c') (j : UInt64) :
    Changes c j st (c'.node j).state := by
  cases st with
  | boot k e app =>
    simp only [Cluster.step] at hst
    split_ifs at hst with hk
    cases hst
    refine changes_set (fun _ => rfl) (fun hne => by simp [starts, hne]) fun he => ?_
    subst he
    exact .boot hk.1
  | packetIn k info now =>
    simp only [Cluster.step] at hst
    split at hst <;> cases hst
    refine changes_set (fun hne => if_neg hne) (fun _ => rfl) fun he => ?_
    subst he
    by_cases hport : info.inPort = (c.node k).app.hostPort
    · have hl : (learnSource (c.node k).app (c.node k).state info now).2.1 =
          (daimHostLearnLocal (c.node k).state (some info.macSrc) (c.node k).app.myDpid
            info.inPort.toUInt32 now).1 := by
        simp only [learnSource, hport, if_true]
        split_ifs <;> rfl
      dsimp only
      rw [hl]
      exact .learn hport
    · have hl : (learnSource (c.node k).app (c.node k).state info now).2.1 = (c.node k).state := by
        simp [learnSource, hport]
      dsimp only
      rw [hl]
      exact .same rfl (by simp [hears, issuedBy, hport])
  | announce k =>
    simp only [Cluster.step] at hst
    split at hst <;> cases hst
    exact changes_set (fun _ => rfl) (fun _ => rfl) fun he => he ▸ .same rfl rfl
  | forward k env =>
    simp only [Cluster.step] at hst
    split at hst <;> cases hst
    exact changes_set (fun _ => rfl) (fun _ => rfl) fun he => he ▸ .same rfl rfl
  | exportSnapshot k =>
    simp only [Cluster.step] at hst
    split at hst <;> cases hst
    exact .same rfl rfl
  | deliver k path payload now =>
    simp only [Cluster.step] at hst
    split_ifs at hst with hmem
    split at hst <;> cases hst
    · rename_i u hu
      refine changes_set (fun hne => if_neg hne) (fun _ => rfl) fun he => ?_
      subst he
      exact .deliver hmem hu
    · rename_i hu
      exact .same rfl (by simp [hears, hu])

/-! ### What an orderly cluster keeps -/

/-- The epochs of a node go up from start to start, no sequence counter wraps, and the hosts
that are learned fit into a table. -/
structure Orderly (h : List (World × Step)) : Prop where
  fenced : (boots h).Pairwise fun a b => a.1 = b.1 → a.2 < b.2
  learns : ∀ k e, learns k e h < 2 ^ 64 - 1
  fits : ((issued h).map Claim.mac).toFinset.card ≤ maxHostEntries

/-- The host `m` is learned by node `k` only. -/
def OwnedBy (k : UInt64) (m : Mac) (h : List (World × Step)) : Prop :=
  ∀ x ∈ issued h, x.mac = m → x.originNodeId = k

lemma issued_subset (h h' : List (World × Step)) : issued h ⊆ issued (h ++ h') := by
  rw [issued, issued, List.filterMap_append]
  exact List.subset_append_left _ _

lemma Orderly.nodup (ho : Orderly h) : (boots h).Nodup := by
  refine ho.fenced.imp ?_
  rintro a _ hab rfl
  exact UInt64.lt_irrefl _ (hab rfl)

lemma Orderly.of_append {h' : List (World × Step)} (ho : Orderly (h ++ h')) : Orderly h where
  fenced := by
    have hf := ho.fenced
    rw [boots, List.filterMap_append] at hf
    exact (List.pairwise_append.mp hf).1
  learns := fun k e => by
    have hl := ho.learns k e
    rw [Cluster.learns, List.countP_append] at hl
    unfold Cluster.learns
    omega
  fits := by
    refine (Finset.card_le_card fun m hm => ?_).trans ho.fits
    rw [List.mem_toFinset] at hm ⊢
    exact List.map_subset _ (issued_subset h h') hm

lemma OwnedBy.of_append {h' : List (World × Step)} (hm : OwnedBy k m (h ++ h')) : OwnedBy k m h :=
  fun x hx => hm x (issued_subset h h' hx)

/-- What node `j` keeps of the host `m`: the newest claim it has heard of it. -/
structure Follows (h : List (World × Step)) (m : Mac) (j : UInt64) (s : State) : Prop where
  table : TableInv j s.table
  latest : IsLatest Claim.ver {x | x ∈ heard j h ∧ x.mac = m} (reg s.table m)

structure Inv (h : List (World × Step)) (k : UInt64) (m : Mac) (c : World) : Prop where
  heard : ∀ j, heard j h ⊆ issued h
  follows : ∀ j, (c.node j).state.ready = true → Follows h m j (c.node j).state
  started : ∀ j e, (j, e) ∈ boots h →
    j ≠ 0 ∧ (c.node j).state.ready = true ∧ e ≤ (c.node j).state.ownerEpoch
  own : ∀ x ∈ issued h, x.mac = m → x.ownerEpoch = (c.node k).state.ownerEpoch →
    x ∈ Agreement.heard k h
  current : ∀ j, ∀ x ∈ Agreement.heard j h, x.originNodeId = j →
    x.ownerEpoch = (c.node j).state.ownerEpoch

/-- The hosts of a table have been learned, so there is room for one that is not in it. -/
lemma room (hi : Cluster.Inv h c) (ho : Orderly h) (ht : TableInv j (c.node j).state.table)
    (hm : m ∈ (issued h).map Claim.mac) (hf : find (c.node j).state.table m = none) :
    (c.node j).state.table.length < maxHostEntries := by
  have hsub : (m :: (c.node j).state.table.map HostLocation.mac).toFinset ⊆
      ((issued h).map Claim.mac).toFinset := by
    intro a ha
    rw [List.mem_toFinset] at ha ⊢
    rcases List.mem_cons.mp ha with rfl | ha
    · exact hm
    · obtain ⟨r, hr, rfl⟩ := List.mem_map.mp ha
      exact List.mem_map.mpr ⟨claim r, hi.present r (.inl ⟨j, hr⟩), rfl⟩
  have hn : (m :: (c.node j).state.table.map HostLocation.mac).Nodup :=
    List.nodup_cons.mpr ⟨find_eq_none.mp hf, ht.nodup⟩
  have hle := (Finset.card_le_card hsub).trans ho.fits
  rw [List.toFinset_card_of_nodup hn, List.length_cons, List.length_map] at hle
  exact hle

/-! ### The steps -/

/-- A claim is issued by a learn of the node it names. -/
lemma issuedBy_origin (hi : Cluster.Inv h c) (hx : issuedBy c st = some x) :
    ∃ info now, st = .packetIn x.originNodeId info now ∧
      x.ownerEpoch = (c.node x.originNodeId).state.ownerEpoch := by
  cases st with
  | packetIn k info now =>
    simp only [issuedBy, Option.ite_none_right_eq_some, Option.some.injEq] at hx
    obtain ⟨⟨-, hq⟩, rfl⟩ := hx
    have hready : (c.node k).state.ready = true := by
      by_contra hn
      have hn' : (c.node k).state.ready = false := by simpa using hn
      simp [daimHostLearnLocal, hn'] at hq
    have hk : (claim (localRecord (c.node k).state info.macSrc (c.node k).app.myDpid
        info.inPort.toUInt32 now)).originNodeId = k := (hi.node k hready).nodeId
    rw [hk]
    exact ⟨info, now, rfl, rfl⟩
  | _ => simp [issuedBy] at hx

/-- What a step tells has been issued by then. -/
lemma hears_issued (hi : Cluster.Inv h c) (hx : hears j c st = some x)
    (hst : Cluster.step c st = some c') : x ∈ issued (h ++ [(c, st)]) := by
  rw [Cluster.issued_snoc, List.mem_append, Option.mem_toList]
  cases st with
  | packetIn k info now =>
    simp only [hears, Option.ite_none_right_eq_some] at hx
    exact .inr hx.2
  | deliver k path payload now =>
    simp only [Cluster.step] at hst
    split_ifs at hst with hmem
    simp only [hears] at hx
    split_ifs at hx
    split at hx
    · rename_i u hu
      split_ifs at hx
      cases hx
      exact .inl (hi.present u (.inr ⟨payload, hmem, hu⟩))
    · cases hx
  | _ => simp [hears] at hx

/-- A node hears its own claims from itself only. -/
lemma hears_own (hx : hears j c st = some x) (hj : x.originNodeId = j) :
    x.ownerEpoch = (c.node j).state.ownerEpoch := by
  cases st with
  | packetIn k info now =>
    simp only [hears, issuedBy, Option.ite_none_right_eq_some, Option.some.injEq] at hx
    obtain ⟨rfl, -, rfl⟩ := hx
    rfl
  | deliver k path payload now =>
    simp only [hears] at hx
    split_ifs at hx
    split at hx
    · split_ifs at hx with hne
      cases hx
      exact absurd hj hne
    · cases hx
  | _ => simp [hears] at hx

lemma heard_step (hi : Cluster.Inv h c) (hh : heard j h ⊆ issued h)
    (hst : Cluster.step c st = some c') :
    heard j (h ++ [(c, st)]) ⊆ issued (h ++ [(c, st)]) := by
  rcases starts_or st j with hb | ⟨e, app, rfl⟩
  · intro x hx
    rw [heard_of_not_boot hb, List.mem_append, Option.mem_toList] at hx
    rcases hx with hx | hx
    · exact issued_subset h _ (hh hx)
    · exact hears_issued hi hx hst
  · simp [heard_snoc, hear]

/-- The claims of `m` that are heard after a step that tells `o`. -/
lemma heard_mac (hb : starts j st = false) :
    {x | x ∈ heard j (h ++ [(c, st)]) ∧ x.mac = m} =
      {x | x ∈ heard j h ∧ x.mac = m} ∪ {x | hears j c st = some x ∧ x.mac = m} := by
  ext x
  simp only [heard_of_not_boot hb, List.mem_append, Option.mem_toList, Set.mem_ofPred_eq,
    Set.mem_union, or_and_right]

lemma heard_mac_of_ne (hb : starts j st = false)
    (hn : ∀ x, hears j c st = some x → x.mac ≠ m) :
    {x | x ∈ heard j (h ++ [(c, st)]) ∧ x.mac = m} = {x | x ∈ heard j h ∧ x.mac = m} := by
  rw [heard_mac hb, Set.union_eq_left]
  exact fun x hx => absurd hx.2 (hn x hx.1)

lemma heard_mac_of_eq (hb : starts j st = false) (hx : hears j c st = some x)
    (hm : x.mac = m) :
    {y | y ∈ heard j (h ++ [(c, st)]) ∧ y.mac = m} =
      insert x {y | y ∈ heard j h ∧ y.mac = m} := by
  rw [heard_mac hb, Set.union_comm, Set.insert_eq]
  congr 1
  ext y
  simp only [hx, Option.some.injEq, Set.mem_ofPred_eq, Set.mem_singleton_iff]
  constructor
  · exact fun hy => hy.1.symm
  · rintro rfl
    exact ⟨rfl, hm⟩

/-- **An update makes the node follow what it is handed.** -/
lemma Follows.deliver {path : Path} {payload : List UInt8} {now : UInt64} {u : HostLocation}
    (hf : Follows h m j (c.node j).state) (hi : Cluster.Inv h c) (ho : Orderly h)
    (hk : ∀ x ∈ issued h, x.originNodeId ≠ 0) (hown : OwnedBy k m h)
    (hready : (c.node j).state.ready = true) (hp : payload ∈ c.net)
    (hu : daimPeerDecodeHostLocation payload = some u) :
    Follows (h ++ [(c, .deliver j path payload now)]) m j
      (Merge.deliver (c.node j).state ⟨path, u, now⟩) := by
  obtain ⟨res, ha⟩ := deliver_applies hready ⟨path, u, now⟩
  have hj : (c.node j).state.nodeId = j := (hi.node j hready).nodeId
  have hiss : claim u ∈ issued h := hi.present u (.inr ⟨payload, hp, hu⟩)
  have hroom := room hi ho hf.table (List.mem_map_of_mem hiss)
  have ht : TableInv j (Merge.deliver (c.node j).state ⟨path, u, now⟩).table := by
    have ht := tableInv_applies ha (by rw [hj]; exact hf.table)
    rwa [hj] at ht
  have hb : starts j (.deliver j path payload now) = false := rfl
  have hhears : hears j c (.deliver j path payload now) =
      if u.originNodeId = j then none else some (claim u) := by simp [hears, hu]
  refine ⟨ht, ?_⟩
  by_cases hm : u.mac = m
  case neg =>
    rw [heard_mac_of_ne hb]
    · have hfind := ha.find hroom m
      rw [if_neg hm] at hfind
      simpa only [reg, hfind] using hf.latest
    · intro x hx
      rw [hhears] at hx
      split_ifs at hx
      cases hx
      exact hm
  case pos =>
    subst hm
    by_cases hown' : u.originNodeId = j
    · -- the node's own claim comes back to it
      rw [heard_mac_of_ne hb (by simp [hhears, hown'])]
      have hfind := ha.find hroom u.mac
      have hback : u.originNodeId = 0 ∨ u.originNodeId = (c.node j).state.nodeId :=
        .inr (hown'.trans hj.symm)
      simp only [merge, if_pos hback, if_true] at hfind
      simpa only [reg, hfind] using hf.latest
    · have hsame : ∀ r, find (c.node j).state.table u.mac = some r →
          r.originNodeId = u.originNodeId := fun r hr => by
        have h1 := hown _ (hi.present r (.inl ⟨j, find_mem hr⟩)) (find_mac hr)
        exact h1.trans (hown _ hiss rfl).symm
      rw [heard_mac_of_eq hb (by rw [hhears, if_neg hown']) (show (claim u).mac = u.mac from rfl),
        reg_applies ha (hk _ hiss) (by rwa [hj]) hroom hsame]
      exact hf.latest.put rfl

/-- **A learn is newer than anything the node has heard of its own host.** -/
lemma Follows.learn {info : NoRulePacketInfo} {now : UInt64}
    (hf : Follows h m j (c.node j).state) (hi : Cluster.Inv h c) (hh : heard j h ⊆ issued h)
    (hs : ∀ e, (j, e) ∈ boots h → e ≤ (c.node j).state.ownerEpoch)
    (hown : OwnedBy k m (h ++ [(c, .packetIn j info now)]))
    (hready : (c.node j).state.ready = true) (hport : info.inPort = (c.node j).app.hostPort) :
    Follows (h ++ [(c, .packetIn j info now)]) m j
      (daimHostLearnLocal (c.node j).state (some info.macSrc) (c.node j).app.myDpid
        info.inPort.toUInt32 now).1 := by
  have hno := hi.node j hready
  have hl := daimHostLearnLocal_learns hready info.macSrc (c.node j).app.myDpid
    info.inPort.toUInt32 now
  have ht := tableInv_learns hl (by rw [hno.nodeId]; exact hf.table)
  rw [hno.nodeId] at ht
  have hb : starts j (.packetIn j info now) = false := rfl
  have hhears : hears j c (.packetIn j info now) =
      if (daimHostLearnLocal (c.node j).state (some info.macSrc) (c.node j).app.myDpid
        info.inPort.toUInt32 now).2 ≠ 0 then
      some (claim (localRecord (c.node j).state info.macSrc (c.node j).app.myDpid
        info.inPort.toUInt32 now)) else none := by simp [hears, issuedBy, hport]
  refine ⟨ht, ?_⟩
  generalize daimHostLearnLocal (c.node j).state (some info.macSrc) (c.node j).app.myDpid
    info.inPort.toUInt32 now = p at hl hhears ⊢
  cases hl with
  | full _ _ =>
    rw [heard_mac_of_ne hb (by simp [hhears])]
    exact hf.latest
  | learned _ =>
    have hq : (c.node j).state.nextLocalSequence ≠ 0 := fun h0 => by
      have := hno.pos
      simp [h0] at this
    rw [if_pos hq] at hhears
    set r := localRecord (c.node j).state info.macSrc (c.node j).app.myDpid
      info.inPort.toUInt32 now
    have hfind := find_write (c.node j).state.table r m
    by_cases hm : info.macSrc = m
    case neg =>
      rw [heard_mac_of_ne hb (by rw [hhears]; rintro _ ⟨⟩; exact hm)]
      rw [if_neg (show ¬r.mac = m from hm)] at hfind
      simpa only [reg, hfind] using hf.latest
    case pos =>
      rw [heard_mac_of_eq hb hhears hm]
      rw [if_pos (show r.mac = m from hm)] at hfind
      simp only [reg, hfind, Option.map_some]
      refine .some (Set.mem_insert _ _) fun y hy => ?_
      rcases Set.mem_insert_iff.mp hy with rfl | ⟨hy, hym⟩
      · exact le_rfl
      have hiss := hh hy
      have hnew : claim r ∈ issued (h ++ [(c, .packetIn j info now)]) := by
        have hr : issuedBy c (.packetIn j info now) = some (claim r) := by
          simpa [hears] using hhears
        simp [Cluster.issued_snoc, hr]
      have hjk : j = k := hno.nodeId.symm.trans (hown _ hnew hm)
      have hyj : y.originNodeId = j := (hown y (issued_subset _ _ hiss) hym).trans hjk.symm
      have hye := hs y.ownerEpoch (hyj ▸ hi.epochs y hiss)
      rw [ver_claim]
      refine (version_lt.mpr ?_).le
      rcases UInt64.lt_or_eq_of_le hye with hlt | heq
      · exact .inl hlt
      · exact .inr ⟨heq, hno.ahead y hiss hyj heq⟩

lemma learns_kept {d now : UInt64} {po : UInt32} {p : State × UInt64}
    (hl : Learns s m d po now p) : p.1.ready = s.ready ∧ p.1.ownerEpoch = s.ownerEpoch := by
  cases hl <;> exact ⟨rfl, rfl⟩

/-- A step other than a start keeps a node's identity. -/
lemma Changes.kept (hch : Changes c j st s) (hb : starts j st = false) :
    s.ready = (c.node j).state.ready ∧ s.ownerEpoch = (c.node j).state.ownerEpoch := by
  cases hch with
  | same _ _ => exact ⟨rfl, rfl⟩
  | boot _ => simp at hb
  | learn hport =>
    by_cases hready : (c.node j).state.ready = true
    · exact learns_kept (daimHostLearnLocal_learns hready _ _ _ _)
    · simp [daimHostLearnLocal, hready]
  | deliver hp hu =>
    obtain ⟨hs, -⟩ := Cluster.deliver_same (c.node j).state ⟨_, _, _⟩
    exact ⟨hs.ready, hs.ownerEpoch⟩

lemma Follows.boot (app : AppState) :
    Follows (h ++ [(c, .boot j e app)]) m j (daimHostStateInit {} j e) := by
  refine ⟨tableInv_nil j, .none fun x hx => ?_⟩
  simp [heard_snoc, hear] at hx

/-- The starts of a node after a step. -/
lemma started_step (hs : ∀ j e, (j, e) ∈ boots h →
      j ≠ 0 ∧ (c.node j).state.ready = true ∧ e ≤ (c.node j).state.ownerEpoch)
    (ho : Orderly (h ++ [(c, st)])) (hch : Changes c j st s)
    (he : (j, e) ∈ boots (h ++ [(c, st)])) : j ≠ 0 ∧ s.ready = true ∧ e ≤ s.ownerEpoch := by
  have hf := ho.fenced
  rw [Cluster.boots_snoc] at hf
  rw [Cluster.boots_snoc, List.mem_append, Option.mem_toList] at he
  have hlt := (List.pairwise_append.mp hf).2.2
  rcases starts_or st j with hb | ⟨e', app, rfl⟩
  · obtain ⟨hr, hoe⟩ := hch.kept hb
    rw [hr, hoe]
    rcases he with he | he
    · exact hs j e he
    · cases st with
      | boot k e' app =>
        cases he
        simp at hb
      | _ => cases he
  · cases hch with
    | same hb _ => simp at hb
    | boot h0 =>
      refine ⟨h0, rfl, ?_⟩
      rcases he with he | he
      · exact UInt64.le_of_lt (hlt _ he (j, e') (by simp [bootedBy]) rfl)
      · cases he
        exact UInt64.le_rfl

/-- **Every step keeps what the nodes follow.** -/
lemma Inv.step (hv : Inv h k m c) (hi : Cluster.Inv h c) (hst : Cluster.step c st = some c')
    (ho : Orderly (h ++ [(c, st)])) (hown : OwnedBy k m (h ++ [(c, st)])) :
    Inv (h ++ [(c, st)]) k m c' := by
  refine ⟨fun j => heard_step hi (hv.heard j) hst, fun j hj => ?_,
    fun j e he => started_step hv.started ho (step_changes hst j) he, ?_, fun j x hx hxj => ?_⟩
  · have hch := step_changes hst j
    generalize (c'.node j).state = s at hch hj ⊢
    cases hch with
    | same hb hh =>
      have hf := hv.follows j hj
      refine ⟨hf.table, ?_⟩
      rw [heard_mac_of_ne hb (by simp [hh])]
      exact hf.latest
    | boot _ => exact .boot _
    | @learn info now hport =>
      by_cases hready : (c.node j).state.ready = true
      · exact (hv.follows j hready).learn hi (hv.heard j) (fun e he => (hv.started j e he).2.2)
          hown hready hport
      · simp [daimHostLearnLocal, hready] at hj
    | deliver hp hu =>
      by_cases hready : (c.node j).state.ready = true
      · exact (hv.follows j hready).deliver hi ho.of_append
          (fun x hx => (hv.started _ _ (hi.epochs x hx)).1) hown.of_append hready hp hu
      · rw [Cluster.deliver_not_ready (by simpa using hready)] at hj
        exact absurd hj hready
  · intro x hx hxm hxe
    rcases starts_or st k with hb | ⟨e, app, rfl⟩
    · rw [((step_changes hst k).kept hb).2] at hxe
      rw [heard_of_not_boot hb, List.mem_append, Option.mem_toList]
      have hxk := hown x hx hxm
      rw [Cluster.issued_snoc, List.mem_append, Option.mem_toList] at hx
      rcases hx with hx | hx
      · exact .inl (hv.own x hx hxm hxe)
      · obtain ⟨info, now, rfl, -⟩ := issuedBy_origin hi hx
        rw [hxk] at hx ⊢
        exact .inr (by simpa [hears] using hx)
    · -- no claim bears the new epoch yet
      have hch := step_changes hst k
      generalize (c'.node k).state = s at hch hxe
      have hxk := hown x hx hxm
      rw [Cluster.issued_snoc, List.mem_append, Option.mem_toList] at hx
      have hx : x ∈ issued h := hx.resolve_right (by simp [issuedBy])
      cases hch with
      | same hb _ => simp at hb
      | boot _ =>
        have hf := ho.fenced
        rw [Cluster.boots_snoc] at hf
        have hlt := (List.pairwise_append.mp hf).2.2 _ (hi.epochs x hx) (k, e)
          (by simp [bootedBy]) hxk
        rw [hxe] at hlt
        exact absurd hlt (UInt64.lt_irrefl _)
  · rcases starts_or st j with hb | ⟨e, app, rfl⟩
    · rw [((step_changes hst j).kept hb).2]
      rw [heard_of_not_boot hb, List.mem_append, Option.mem_toList] at hx
      rcases hx with hx | hx
      · exact hv.current j x hx hxj
      · exact hears_own hx hxj
    · simp [heard_snoc, hear] at hx

lemma inv_empty (k : UInt64) (m : Mac) : Inv [] k m {} := by
  refine ⟨fun j => by simp [heard], fun j hj => ?_, by simp [boots], by simp [issued],
    by simp [heard]⟩
  simp at hj

/-- **Every run keeps what the nodes follow.** -/
theorem run_inv (hr : Run cluster h c) (ho : Orderly h) (hown : OwnedBy k m h) :
    Inv h k m c := by
  induction hr with
  | init h0 =>
    cases h0
    exact inv_empty k m
  | @step h c c' st hr hst ih =>
    have hi := Cluster.run_inv hr ho.of_append.nodup ho.of_append.learns
    exact (ih ho.of_append hown.of_append).step hi hst ho hown

/-! ### Agreement -/

lemma latest_of_lookup {r : HostLocation} (hv : Inv h k m c)
    (hready : (c.node j).state.ready = true)
    (hr : daimHostLookup (c.node j).state (some m) = some r) :
    claim r ∈ heard j h ∧ r.mac = m ∧ ∀ x ∈ heard j h, x.mac = m → x.ver ≤ ver r := by
  have hl := (hv.follows j hready).latest
  rw [daimHostLookup_eq hready] at hr
  rw [reg, hr, Option.map_some] at hl
  obtain - | ⟨hmem, hmax⟩ := hl
  exact ⟨hmem.1, find_mac hr, fun x hx hxm => hmax x ⟨hx, hxm⟩⟩

/-- A node that has heard of a host has an answer, as new as anything it has heard of it. -/
lemma answers (hv : Inv h k m c) (hready : (c.node j).state.ready = true)
    (hx : x ∈ heard j h) (hxm : x.mac = m) :
    ∃ r, daimHostLookup (c.node j).state (some m) = some r ∧ claim r ∈ heard j h ∧ r.mac = m ∧
      x.ver ≤ ver r := by
  rcases hlook : daimHostLookup (c.node j).state (some m) with _ | r
  · have hl := (hv.follows j hready).latest
    rw [daimHostLookup_eq hready] at hlook
    rw [reg, hlook] at hl
    obtain ⟨hnone⟩ := hl
    exact absurd ⟨hx, hxm⟩ (hnone x)
  · obtain ⟨hmem, hmac, hmax⟩ := latest_of_lookup hv hready hlook
    exact ⟨r, rfl, hmem, hmac, hmax x hx hxm⟩

/-- **The owner's record is the newest claim of its host there is, and every node that has
heard it answers with it.** -/
theorem nodes_agree {r : HostLocation} (hr : Run cluster h c) (ho : Orderly h)
    (hown : OwnedBy k m h) (hready : (c.node k).state.ready = true)
    (hrec : daimHostLookup (c.node k).state (some m) = some r) :
    (∀ x ∈ issued h, x.mac = m → x.ver ≤ ver r) ∧
      ∀ j, (c.node j).state.ready = true → claim r ∈ heard j h →
        ∃ r', daimHostLookup (c.node j).state (some m) = some r' ∧ claim r' = claim r ∧
          (r'.isLocal ≠ 0 ↔ j = k) := by
  have hi := Cluster.run_inv hr ho.nodup ho.learns
  have hv := run_inv hr ho hown
  obtain ⟨hmem, hrm, hmax⟩ := latest_of_lookup hv hready hrec
  have hrk : r.originNodeId = k := hown _ (hv.heard k hmem) hrm
  have hre : r.ownerEpoch = (c.node k).state.ownerEpoch := hv.current k _ hmem hrk
  have hnewest : ∀ x ∈ issued h, x.mac = m → x.ver ≤ ver r := by
    intro x hx hxm
    have hxe := (hv.started k x.ownerEpoch (hown x hx hxm ▸ hi.epochs x hx)).2.2
    rcases UInt64.lt_or_eq_of_le hxe with hlt | heq
    · refine (version_lt.mpr (.inl ?_)).le
      rwa [hre]
    · exact hmax x (hv.own x hx hxm heq) hxm
  refine ⟨hnewest, fun j hj hheard => ?_⟩
  obtain ⟨r', hlook, hmem', hmac', hle⟩ := answers hv hj hheard hrm
  have hver : ver r = ver r' := le_antisymm hle (hnewest _ (hv.heard j hmem') hmac')
  have horigin : r'.originNodeId = k := hown _ (hv.heard j hmem') hmac'
  have hkey : Cluster.key (claim r') = Cluster.key (claim r) := by
    obtain ⟨he, hq⟩ := version_inj.mp hver
    simp [Cluster.key, claim, horigin, hrk, he, hq]
  refine ⟨r', hlook, List.inj_on_of_nodup_map hi.keys (hv.heard j hmem') (hv.heard k hmem) hkey,
    ?_⟩
  rw [daimHostLookup_eq hj] at hlook
  rw [(hv.follows j hj).table.find_local hlook, horigin]
  exact eq_comm

/-- Node 1 starts and learns a host twice, and node 2 is handed the second claim and then the
first. -/
def outOfOrder : List Step :=
  let app (k : UInt64) : AppState :=
    { ready := true, transport := true, myNodeId := k, myDpid := k, hostPort := 1 }
  let packetIn (now : UInt64) : Step := .packetIn 1 ⟨1, macOf 1, macOf 2, 0x800⟩ now
  let env : Env := ⟨0, true⟩
  let s := daimHostStateInit {} 1 7
  let first := localRecord s (macOf 1) 1 1 5
  let second := localRecord { s with nextLocalSequence := 2 } (macOf 1) 1 1 6
  [.boot 1 7 (app 1), .boot 2 7 (app 2), packetIn 5, .announce 1, .forward 1 env, packetIn 6,
    .announce 1, .deliver 2 .applyRemote (daimPeerEncodeHostLocation second) 7,
    .deliver 2 .importSnapshotEntry (daimPeerEncodeHostLocation first) 8]

lemma orderly_of_length (hf : (boots h).Pairwise fun a b => a.1 = b.1 → a.2 < b.2)
    (hl : h.length ≤ maxHostEntries) : Orderly h where
  fenced := hf
  learns := fun k e => by
    have hle : learns k e h ≤ h.length := List.countP_le_length
    rw [maxHostEntries] at hl
    omega
  fits := by
    have hle : (issued h).length ≤ h.length := List.length_filterMap_le _ _
    have hcard := List.toFinset_card_le ((issued h).map Claim.mac)
    rw [List.length_map] at hcard
    omega

lemma run_outOfOrder : ∃ h c, Run cluster h c ∧ Orderly h ∧ OwnedBy 1 (macOf 1) h ∧
    ((c.node 1).state.ready = true ∧ (c.node 2).state.ready = true) ∧
      ∃ r ∈ daimHostLookup (c.node 1).state (some (macOf 1)),
        claim r ∈ heard 2 h ∧ r.sequence = 2 := by
  obtain ⟨h, c, hr, hf, hl, hown, hp⟩ := exists_run_of_replay (f := Cluster.step) (i := (· = {}))
    (s := {}) outOfOrder rfl
    (fun h c => ((boots h).Pairwise fun a b => a.1 = b.1 → a.2 < b.2) ∧
      h.length ≤ maxHostEntries ∧ OwnedBy 1 (macOf 1) h ∧
      ((c.node 1).state.ready = true ∧ (c.node 2).state.ready = true) ∧
        ∃ r ∈ daimHostLookup (c.node 1).state (some (macOf 1)),
          claim r ∈ heard 2 h ∧ r.sequence = 2) (by unfold OwnedBy; decide +kernel)
  exact ⟨h, c, hr, orderly_of_length hf hl, hown, hp⟩

theorem nodes_agree_outOfOrder : ∃ (c : World) (r r' : HostLocation),
    daimHostLookup (c.node 1).state (some (macOf 1)) = some r ∧
      daimHostLookup (c.node 2).state (some (macOf 1)) = some r' ∧
        claim r' = claim r ∧ r.sequence = 2 := by
  obtain ⟨h, c, hr, ho, hown, ⟨h1, h2⟩, r, hrec, hheard, hq⟩ := run_outOfOrder
  obtain ⟨-, hagree⟩ := nodes_agree hr ho hown h1 hrec
  obtain ⟨r', hr', hc, -⟩ := hagree 2 h2 hheard
  exact ⟨c, r, r', hrec, hr', hc, hq⟩

/-! ### Successive answers -/

lemma heard_append {h' : List (World × Step)} (hb : ∀ p ∈ h', starts j p.2 = false) :
    heard j h ⊆ heard j (h ++ h') := by
  induction h' using List.reverseRecOn with
  | nil => simp
  | append_singleton h' p ih =>
    have hp := hb p (by simp)
    have h1 := ih fun q hq => hb q (List.mem_append_left _ hq)
    rw [← List.append_assoc]
    exact fun x hx => by
      rw [heard_of_not_boot hp]
      exact List.mem_append_left _ (h1 hx)

/-- **Until it is started again, a node that has an answer keeps having one, from the same
origin and never an older one.** -/
theorem answers_advance {h' : List (World × Step)} {p : World × Step} {r : HostLocation}
    (hr : Run cluster (h ++ p :: h') c) (ho : Orderly (h ++ p :: h'))
    (hown : OwnedBy k m (h ++ p :: h')) (hb : ∀ q ∈ p :: h', starts j q.2 = false)
    (hrec : daimHostLookup (p.1.node j).state (some m) = some r) :
    ∃ r', daimHostLookup (c.node j).state (some m) = some r' ∧
      r'.originNodeId = r.originNodeId ∧ ver r ≤ ver r' := by
  have hr1 : Run cluster h p.1 := (hr.of_append rfl).1
  have hready1 : (p.1.node j).state.ready = true := by
    by_contra hn
    simp [daimHostLookup, hn] at hrec
  have hi1 := Cluster.run_inv hr1 ho.of_append.nodup ho.of_append.learns
  have hv1 := run_inv hr1 ho.of_append hown.of_append
  have hv := run_inv hr ho hown
  have hboot : (j, (p.1.node j).state.ownerEpoch) ∈ boots (h ++ p :: h') := by
    rw [boots, List.filterMap_append]
    exact List.mem_append_left _ (hi1.node j hready1).booted
  have hready := (hv.started j _ hboot).2.1
  obtain ⟨hmem1, hrm, -⟩ := latest_of_lookup hv1 hready1 hrec
  have hmem : claim r ∈ heard j (h ++ p :: h') := heard_append hb hmem1
  obtain ⟨r', hlook, hmem', hmac', hle⟩ := answers hv hready hmem hrm
  have h1 : r.originNodeId = k := hown _ (hv.heard j hmem) hrm
  have h2 : r'.originNodeId = k := hown _ (hv.heard j hmem') hmac'
  exact ⟨r', hlook, h2.trans h1.symm, hle⟩

theorem answers_advance_outOfOrder : ∃ (c c' : World) (r r' : HostLocation),
    daimHostLookup (c.node 2).state (some (macOf 1)) = some r ∧
      daimHostLookup (c'.node 2).state (some (macOf 1)) = some r' ∧
        r.sequence = 2 ∧ ver r ≤ ver r' := by
  obtain ⟨h, c, hr, hf, hl, hown, hb, hp⟩ := exists_run_of_replay (f := Cluster.step)
    (i := (· = {})) (s := {}) outOfOrder rfl
    (fun h _ => ((boots h).Pairwise fun a b => a.1 = b.1 → a.2 < b.2) ∧
      h.length ≤ maxHostEntries ∧ OwnedBy 1 (macOf 1) h ∧
      (∀ q ∈ h.drop 8, starts 2 q.2 = false) ∧
      ∃ p ∈ h[8]?, ∃ r ∈ daimHostLookup (p.1.node 2).state (some (macOf 1)), r.sequence = 2)
    (by unfold OwnedBy; decide +kernel)
  obtain ⟨p, hp8, r, hrec, hq⟩ := hp
  obtain ⟨hlt, hp8⟩ := List.getElem?_eq_some_iff.mp hp8
  have hsplit : h = h.take 8 ++ p :: h.drop 9 := by
    rw [← hp8, ← List.drop_eq_getElem_cons hlt, List.take_append_drop]
  have hdrop : p :: h.drop 9 = h.drop 8 := by rw [← hp8, ← List.drop_eq_getElem_cons hlt]
  rw [hsplit] at hr
  obtain ⟨r', hr', -, hle⟩ := answers_advance hr (hsplit ▸ orderly_of_length hf hl)
    (hsplit ▸ hown) (hdrop ▸ hb) hrec
  exact ⟨p.1, c, r, r', hrec, hr', hq, hle⟩

end DaimDistributed.Agreement
