import DaimDistributed.Framing
import DaimDistributed.Merge

/-!
`exchange_snapshots` of `daim_peer_transport.c`, over the frames it is given.

Entries are imported as they come; a live update is kept until the snapshot has ended, and a
connection with more of them than fit is given up. Other threads use the table in between.
What is handed over does not depend on them, and keeping an update back makes no difference
to what the table ends up with.
-/

namespace DaimDistributed.Deferral

open HostState HostTable HostInv Protocol Transport Framing Merge

def daimPeerMsgHostLocationUpdate : UInt8 := 3
def daimPeerMsgStateSnapshotRequest : UInt8 := 4
def daimPeerMsgStateSnapshotEntry : UInt8 := 6
def daimPeerMsgStateSnapshotEnd : UInt8 := 7

def intMax : ℕ := 2 ^ 31 - 1

/-- A header and the payload behind it, as `recv_framed` delivers them. -/
abbrev Message := Header × List UInt8

/-- How the call stands. The C standard leaves `applied++` past `INT_MAX` undefined. -/
inductive Status
  | reading | done | failed | undefined
  deriving DecidableEq

/-- What the call meets outside: whether its request is sent, whether the requests of the peer
can be served, what other threads do to the table before each of its own calls, and the times
of these. -/
structure Env where
  requestSent : Bool
  serves : ℕ → Bool
  others : ℕ → State → State
  now : ℕ → UInt64

/-- The variables of `exchange_snapshots`, the table and the counters. The calls are kept for
the record only. -/
structure Exchange where
  host : State
  status : Status := .reading
  applied : ℕ := 0
  deferred : List HostLocation := []
  requests : ℕ := 0
  stats : TransportStats := {}
  calls : List Delivery := []

def Exchange.hand (x : Exchange) (env : Env) (path : Path) (loc : HostLocation) : Exchange :=
  let d : Delivery := ⟨path, loc, env.now x.calls.length⟩
  { x with host := deliver (env.others x.calls.length x.host) d, calls := x.calls ++ [d] }

def Exchange.countReceived (x : Exchange) (f : Message) : Exchange :=
  { x with
    stats := { x.stats with
      messagesReceived := x.stats.messagesReceived + 1
      bytesReceived := x.stats.bytesReceived +
        (daimPeerHeaderSize + f.1.payloadLength.toNat) } }

/-- `serve_snapshot_request` inside the exchange. -/
def Exchange.serve (x : Exchange) (env : Env) : Exchange :=
  { x with
    requests := x.requests + 1
    status := if env.serves x.requests then x.status else .failed }

def Exchange.importEntry (x : Exchange) (env : Env) (loc : HostLocation) : Exchange :=
  let x := x.hand env .importSnapshotEntry loc
  if x.applied = intMax then { x with status := .undefined }
  else
    { x with
      applied := x.applied + 1
      stats := { x.stats with
        snapshotEntriesReceived := x.stats.snapshotEntriesReceived + 1 } }

def Exchange.defer (x : Exchange) (loc : HostLocation) : Exchange :=
  if x.deferred.length < maxDeferredUpdates then { x with deferred := x.deferred ++ [loc] }
  else
    { x with
      status := .failed
      stats := { x.stats with
        deferredUpdatesOverflowForcedReconnects :=
          x.stats.deferredUpdatesOverflowForcedReconnects + 1 } }

/-- The `switch` of the loop. -/
def exchangeMessage (env : Env) (x : Exchange) (f : Message) : Exchange :=
  if f.1.messageType = daimPeerMsgStateSnapshotRequest then x.serve env
  else if f.1.messageType = daimPeerMsgStateSnapshotEntry then
    match daimPeerDecodeHostLocation f.2 with
    | none => x
    | some loc => x.importEntry env loc
  else if f.1.messageType = daimPeerMsgStateSnapshotEnd then { x with status := .done }
  else if f.1.messageType = daimPeerMsgHostLocationUpdate then
    match daimPeerDecodeHostLocation f.2 with
    | none => x
    | some loc => x.defer loc
  else x

/-- The loop; `recv_framed` fails when there are no more frames. -/
def exchangeLoop (env : Env) (x : Exchange) : List Message → Exchange
  | [] => { x with status := .failed }
  | f :: fs =>
    let x := exchangeMessage env (x.countReceived f) f
    if x.status = .reading then exchangeLoop env x fs else x

def replayOne (env : Env) (x : Exchange) (loc : HostLocation) : Exchange :=
  let x := x.hand env .applyRemote loc
  { x with
    stats := { x.stats with
      deferredUpdatesReplayed := x.stats.deferredUpdatesReplayed + 1 } }

def exchangeSnapshots (env : Env) (s : State) (fs : List Message) : Exchange :=
  let x : Exchange := { host := s }
  if env.requestSent = false then { x with status := .failed }
  else
    let x := exchangeLoop env x fs
    if x.status = .done then x.deferred.foldl (replayOne env) x else x

/-- What the call returns, if that is defined. -/
def Exchange.ret (x : Exchange) : Option ℤ :=
  match x.status with
  | .done => some x.applied
  | .failed => some (-1)
  | .reading | .undefined => none

/-! ### What has to be handed over -/

def isEnd (f : Message) : Bool := f.1.messageType = daimPeerMsgStateSnapshotEnd

def beforeEnd (fs : List Message) : List Message := fs.takeWhile fun f => !isEnd f

/-- The record of a well-formed `STATE_SNAPSHOT_ENTRY`. -/
def entryOf (f : Message) : Option HostLocation :=
  if f.1.messageType = daimPeerMsgStateSnapshotEntry then daimPeerDecodeHostLocation f.2 else none

/-- The record of a well-formed `HOST_LOCATION_UPDATE`. -/
def updateOf (f : Message) : Option HostLocation :=
  if f.1.messageType = daimPeerMsgHostLocationUpdate then daimPeerDecodeHostLocation f.2 else none

def entries (fs : List Message) : List HostLocation := (beforeEnd fs).filterMap entryOf

def updates (fs : List Message) : List HostLocation := (beforeEnd fs).filterMap updateOf

/-- The record of either, with the path it takes. -/
def arrivalOf (f : Message) : Option (Path × HostLocation) :=
  (entryOf f).map (Path.importSnapshotEntry, ·) <|> (updateOf f).map (Path.applyRemote, ·)

/-- Both in the order of arrival. -/
def arrivals (fs : List Message) : List (Path × HostLocation) :=
  (beforeEnd fs).filterMap arrivalOf

/-- What a delivery hands over, whenever that is. -/
def handed (d : Delivery) : Path × HostLocation := (d.path, d.update)

variable {env : Env} {x y z : Exchange} {f : Message} {fs : List Message} {s : State}
  {es us es' us' : List HostLocation}

/-- The frames are disjoint kinds. -/
lemma arrivalOf_eq (f : Message) :
    entryOf f = none ∧ arrivalOf f = (updateOf f).map (Path.applyRemote, ·) ∨
      updateOf f = none ∧ arrivalOf f = (entryOf f).map (Path.importSnapshotEntry, ·) := by
  by_cases he : f.1.messageType = daimPeerMsgStateSnapshotEntry
  · have hu : updateOf f = none := by
      rw [updateOf, if_neg (by rw [he]; decide)]
    refine .inr ⟨hu, ?_⟩
    rw [arrivalOf, hu]
    cases entryOf f <;> rfl
  · have hn : entryOf f = none := if_neg he
    exact .inl ⟨hn, by rw [arrivalOf, hn]; rfl⟩

/-! ### The calls of the loop -/

/-- No other thread changes the table. -/
def Quiet (env : Env) : Prop := ∀ n s, env.others n s = s

/-- On the way from `x` to `y` the entries `es` are imported and the updates `us` kept back. -/
structure Took (env : Env) (x y : Exchange) (es us : List HostLocation) : Prop where
  calls : ∃ ds, y.calls = x.calls ++ ds ∧ ds.map handed = es.map (Path.importSnapshotEntry, ·) ∧
    (Quiet env → y.host = ds.foldl deliver x.host)
  applied : y.applied = x.applied + es.length
  deferred : y.deferred = x.deferred ++ us

lemma Took.same (hc : y.calls = x.calls) (hh : y.host = x.host) (ha : y.applied = x.applied)
    (hd : y.deferred = x.deferred) : Took env x y [] [] :=
  ⟨⟨[], by simp [hc], rfl, fun _ => hh⟩, by simp [ha], by simp [hd]⟩

lemma Took.trans (h : Took env x y es us) (h' : Took env y z es' us') :
    Took env x z (es ++ es') (us ++ us') := by
  obtain ⟨ds, hc, hm, hh⟩ := h.calls
  obtain ⟨ds', hc', hm', hh'⟩ := h'.calls
  refine ⟨⟨ds ++ ds', by rw [hc', hc, List.append_assoc], by simp [hm, hm'], fun hq => ?_⟩, ?_, ?_⟩
  · rw [hh' hq, hh hq, List.foldl_append]
  · rw [h'.applied, h.applied, List.length_append, Nat.add_assoc]
  · rw [h'.deferred, h.deferred, List.append_assoc]

/-- What handing a record over does. -/
lemma hand_calls (x : Exchange) (env : Env) (path : Path) (loc : HostLocation) :
    ∃ d, handed d = (path, loc) ∧ (x.hand env path loc).calls = x.calls ++ [d] ∧
      (Quiet env → (x.hand env path loc).host = deliver x.host d) := by
  refine ⟨⟨path, loc, env.now x.calls.length⟩, rfl, rfl, fun hq => ?_⟩
  rw [Exchange.hand, hq]

/-- What becomes of a frame: the loop reads on, or stops. -/
inductive Handles (env : Env) (x : Exchange) (f : Message) (y : Exchange) : Prop
  | goesOn (hy : y.status = x.status) (he : isEnd f = false)
      (ht : Took env x y (entryOf f).toList (updateOf f).toList)
      (hl : (updateOf f).toList ≠ [] → x.deferred.length < maxDeferredUpdates)
  | ended (hy : y.status = .done) (he : isEnd f = true) (ht : Took env x y [] [])
  | failed (hy : y.status = .failed) (he : isEnd f = false)
  | undefined (hy : y.status = .undefined) (he : isEnd f = false)
      (hn : (entryOf f).toList.length = 1) (ha : x.applied = intMax)

lemma exchangeMessage_handles (env : Env) (x : Exchange) (f : Message) :
    Handles env x f (exchangeMessage env x f) := by
  unfold exchangeMessage
  split_ifs with h1 h2 h3 h4
  · -- a request is served or not
    have he : isEnd f = false := by simp [isEnd, h1]; decide
    have hn : entryOf f = none := by rw [entryOf, h1]; rfl
    have hu : updateOf f = none := by rw [updateOf, h1]; rfl
    by_cases hs : env.serves x.requests = true
    · refine .goesOn (by simp [Exchange.serve, hs]) he ?_ (by simp [hu])
      rw [hn, hu]
      exact .same rfl rfl rfl rfl
    · exact .failed (by simp [Exchange.serve, hs]) he
  · have he : isEnd f = false := by simp [isEnd, h2]; decide
    have hu : updateOf f = none := by rw [updateOf, h2]; rfl
    have hn : entryOf f = daimPeerDecodeHostLocation f.2 := by rw [entryOf, if_pos h2]
    rw [← hn]
    rcases hloc : entryOf f with _ | loc
    · refine .goesOn rfl he ?_ (by simp [hu])
      rw [hloc, hu]
      exact .same rfl rfl rfl rfl
    · obtain ⟨d, hd, hc, hh⟩ := hand_calls x env .importSnapshotEntry loc
      simp only [Exchange.importEntry]
      by_cases ha : x.applied = intMax
      · exact .undefined (by rw [if_pos (by exact ha)]) he (by rw [hloc]; rfl) ha
      · rw [if_neg (by exact ha)]
        refine .goesOn rfl he ?_ (by simp [hu])
        rw [hloc, hu]
        exact ⟨⟨[d], hc, by simp [hd], hh⟩, rfl, by simp [Exchange.hand]⟩
  · exact .ended rfl (by simp [isEnd, h3]) (.same rfl rfl rfl rfl)
  · have he : isEnd f = false := by simp [isEnd, h4]; decide
    have hn : entryOf f = none := by rw [entryOf, h4]; rfl
    have hu : updateOf f = daimPeerDecodeHostLocation f.2 := by rw [updateOf, if_pos h4]
    rw [← hu]
    rcases hloc : updateOf f with _ | loc
    · refine .goesOn rfl he ?_ (by simp [hloc])
      rw [hloc, hn]
      exact .same rfl rfl rfl rfl
    · simp only [Exchange.defer]
      by_cases hl : x.deferred.length < maxDeferredUpdates
      · rw [if_pos hl]
        refine .goesOn rfl he ?_ fun _ => hl
        rw [hloc, hn]
        exact ⟨⟨[], by simp, rfl, fun _ => rfl⟩, rfl, rfl⟩
      · rw [if_neg hl]
        exact .failed rfl he
  · have he : isEnd f = false := by simp [isEnd, h3]
    have hn : entryOf f = none := if_neg h2
    have hu : updateOf f = none := if_neg h4
    refine .goesOn rfl he ?_ (by simp [hu])
    rw [hn, hu]
    exact .same rfl rfl rfl rfl

/-! ### The loop -/

lemma beforeEnd_cons (f : Message) (fs : List Message) :
    beforeEnd (f :: fs) = if isEnd f then [] else f :: beforeEnd fs := by
  cases h : isEnd f <;> simp [beforeEnd, h]

lemma entries_cons (he : isEnd f = false) (fs : List Message) :
    entries (f :: fs) = (entryOf f).toList ++ entries fs := by
  rw [entries, beforeEnd_cons, he]
  cases h : entryOf f <;> simp [h, entries]

lemma updates_cons (he : isEnd f = false) (fs : List Message) :
    updates (f :: fs) = (updateOf f).toList ++ updates fs := by
  rw [updates, beforeEnd_cons, he]
  cases h : updateOf f <;> simp [h, updates]

/-- How the loop ends. -/
inductive Loops (env : Env) (x : Exchange) (fs : List Message) (y : Exchange) : Prop
  | done (hy : y.status = .done) (ht : Took env x y (entries fs) (updates fs))
      (hl : y.deferred.length ≤ maxDeferredUpdates)
  | failed (hy : y.status = .failed)
  | undefined (hy : y.status = .undefined) (hn : intMax < x.applied + (entries fs).length)

lemma exchangeLoop_loops (hx : x.status = .reading) (hl : x.deferred.length ≤ maxDeferredUpdates) :
    Loops env x fs (exchangeLoop env x fs) := by
  induction fs generalizing x with
  | nil => exact .failed rfl
  | cons f fs ih =>
    have hh := exchangeMessage_handles env (x.countReceived f) f
    have hc : Took env x (x.countReceived f) [] [] := .same rfl rfl rfl rfl
    have hx' : (x.countReceived f).status = .reading := hx
    rw [exchangeLoop]
    generalize exchangeMessage env (x.countReceived f) f = y at hh ⊢
    cases hh with
    | goesOn hy he ht hroom =>
      have hty := hc.trans ht
      rw [if_pos (hy.trans hx')]
      have hly : y.deferred.length ≤ maxDeferredUpdates := by
        rw [ht.deferred, List.length_append]
        cases hu : updateOf f with
        | none => exact hl
        | some loc => exact hroom (by simp [hu])
      have hrest := ih (hy.trans hx') hly
      generalize exchangeLoop env y fs = z at hrest ⊢
      cases hrest with
      | done hz htz hlz =>
        refine .done hz ?_ hlz
        rw [entries_cons he, updates_cons he]
        exact hty.trans htz
      | failed hz => exact .failed hz
      | undefined hz hn =>
        refine .undefined hz ?_
        rw [hty.applied, List.nil_append] at hn
        rw [entries_cons he, List.length_append]
        omega
    | ended hy he ht =>
      rw [if_neg (by simp [hy])]
      refine .done hy ?_ (by rw [(hc.trans ht).deferred]; simpa using hl)
      rw [entries, updates, beforeEnd_cons, he]
      exact hc.trans ht
    | failed hy he =>
      rw [if_neg (by simp [hy])]
      exact .failed hy
    | undefined hy he hn ha =>
      rw [if_neg (by simp [hy])]
      refine .undefined hy ?_
      have ha' : x.applied = intMax := ha
      rw [entries_cons he, List.length_append]
      omega

/-! ### The replay -/

/-- The updates that were kept back are applied in their order. -/
lemma replay_calls (env : Env) (us : List HostLocation) (x : Exchange) :
    (us.foldl (replayOne env) x).status = x.status ∧
      (us.foldl (replayOne env) x).applied = x.applied ∧
      ∃ ds, (us.foldl (replayOne env) x).calls = x.calls ++ ds ∧
        ds.map handed = us.map (Path.applyRemote, ·) ∧
        (Quiet env → (us.foldl (replayOne env) x).host = ds.foldl deliver x.host) := by
  induction us generalizing x with
  | nil => exact ⟨rfl, rfl, [], by simp, rfl, fun _ => rfl⟩
  | cons loc us ih =>
    obtain ⟨d, hd, hc, hh⟩ := hand_calls x env .applyRemote loc
    obtain ⟨h1, h2, ds, h3, h4, h5⟩ := ih (replayOne env x loc)
    refine ⟨h1, h2, d :: ds, ?_, by simp [hd, h4], fun hq => ?_⟩
    · rw [List.foldl_cons, h3, show (replayOne env x loc).calls = x.calls ++ [d] from hc,
        List.append_assoc, List.singleton_append]
    · rw [List.foldl_cons, h5 hq, List.foldl_cons,
        show (replayOne env x loc).host = deliver x.host d from hh hq]

/-- **The outcomes of the call.** -/
inductive Outcome (env : Env) (s : State) (fs : List Message) (y : Exchange) : Prop
  | returned (hr : y.ret = some ((entries fs).length : ℤ))
      (hl : (updates fs).length ≤ maxDeferredUpdates)
      (hc : y.calls.map handed = (entries fs).map (Path.importSnapshotEntry, ·) ++
        (updates fs).map (Path.applyRemote, ·))
      (hh : Quiet env → y.host = y.calls.foldl deliver s)
  | failed (hr : y.ret = some (-1))
  | undefined (hr : y.ret = none) (hn : intMax < (entries fs).length)

lemma exchangeSnapshots_outcome (env : Env) (s : State) (fs : List Message) :
    Outcome env s fs (exchangeSnapshots env s fs) := by
  rw [exchangeSnapshots]
  dsimp only
  by_cases hreq : env.requestSent = false
  · rw [if_pos hreq]
    exact .failed rfl
  rw [if_neg hreq]
  have hloop : Loops env { host := s } fs (exchangeLoop env { host := s } fs) :=
    exchangeLoop_loops rfl (by simp)
  generalize exchangeLoop env { host := s } fs = x at hloop ⊢
  cases hloop with
  | done hx ht hl =>
    rw [if_pos hx]
    obtain ⟨h1, h2, ds, h3, h4, h5⟩ := replay_calls env x.deferred x
    obtain ⟨ds', hc, hm, hh⟩ := ht.calls
    have hd : x.deferred = updates fs := ht.deferred
    have ha : x.applied = (entries fs).length := by rw [ht.applied, Nat.zero_add]
    refine .returned ?_ (hd ▸ hl) ?_ fun hq => ?_
    · rw [Exchange.ret, h1, hx, h2, ha]
    · rw [h3, hc, List.nil_append, List.map_append, hm, h4, hd]
    · rw [h5 hq, hh hq, h3, hc, List.nil_append, List.foldl_append]
  | failed hx =>
    rw [if_neg (by simp [hx])]
    exact .failed (by rw [Exchange.ret, hx])
  | undefined hx hn =>
    rw [if_neg (by simp [hx])]
    refine .undefined (by rw [Exchange.ret, hx]) ?_
    rwa [Nat.zero_add] at hn

/-! ### Keeping an update back makes no difference -/

/-- An update that another node may send to node `i`; any other is rejected. -/
def foreign (i : UInt64) (u : HostLocation) : Bool := u.originNodeId ≠ 0 ∧ u.originNodeId ≠ i

/-- No MAC has two origins among the updates and the table, a version determines the contents,
and there is room. -/
structure Mergeable (s : State) (U : List HostLocation) : Prop where
  ready : s.ready = true
  nodup : (s.table.map HostLocation.mac).Nodup
  owner : ∀ x y, Offered s U x → Offered s U y → x.mac = y.mac →
    x.originNodeId = y.originNodeId
  version : ∀ x y, Offered s U x → Offered s U y → x.mac = y.mac →
    x.originNodeId = y.originNodeId → ver x = ver y → claim x = claim y
  fits : Fits s.table ((U.filter (foreign s.nodeId)).map HostLocation.mac).toFinset

/-- The same records, apart from the times they were applied; the slots they stand in may be
others. -/
def SameTable (t t' : List HostLocation) : Prop :=
  (t.map sansApplied).Perm (t'.map sansApplied) ∧
    ∀ m, (find t m).map sansApplied = (find t' m).map sansApplied

variable {U : List HostLocation} {i : UInt64} {ds ds' : List Delivery}

lemma Mergeable.compatible (h : Mergeable s U) : Compatible s (U.filter (foreign s.nodeId)) := by
  have hoff : ∀ x, Offered s (U.filter (foreign s.nodeId)) x → Offered s U x :=
    fun x hx => hx.imp_right List.mem_of_mem_filter
  refine ⟨h.ready, fun u hu => ?_, fun x y hx hy => h.owner x y (hoff x hx) (hoff y hy),
    fun x y hx hy => h.version x y (hoff x hx) (hoff y hy), h.fits⟩
  simpa [foreign] using (List.mem_filter.mp hu).2

/-- An update that is not another node's is rejected. -/
lemma deliver_own (hs : s.ready = true) {d : Delivery} (hd : foreign s.nodeId d.update = false) :
    ∃ st, deliver s d = { s with stats := st } := by
  obtain ⟨res, ha⟩ := deliver_applies hs d
  have hown : ¬ (d.update.originNodeId ≠ 0 ∧ d.update.originNodeId ≠ s.nodeId) := by
    simpa [foreign] using hd
  generalize hp : (deliver s d, res) = p at ha
  have hp1 : deliver s d = p.1 := congrArg Prod.fst hp
  cases ha with
  | own h => exact ⟨_, hp1⟩
  | _ h0 hn => exact absurd ⟨h0, hn⟩ hown

/-- The rejected updates of a run can be left out. -/
lemma foldl_foreign (h : Running U i s)
    (hU : ∀ u ∈ U, u.originNodeId ≠ 0 ∧ u.originNodeId ≠ i)
    (hown : ∀ u ∈ U, ∀ v ∈ U, u.mac = v.mac → u.originNodeId = v.originNodeId)
    (hds : ∀ d ∈ ds, foreign i d.update = true → d.update ∈ U) :
    reg (ds.foldl deliver s).table =
        (((ds.filter fun d => foreign i d.update).map fun d => claim d.update).foldl
          (Registers.put Claim.mac Claim.ver) (reg s.table)) ∧
      ∀ m, localFlag (ds.foldl deliver s).table m = localFlag s.table m := by
  induction ds generalizing s with
  | nil => exact ⟨rfl, fun _ => rfl⟩
  | cons d ds ih =>
    have hrest : ∀ d' ∈ ds, foreign i d'.update = true → d'.update ∈ U :=
      fun d' hd' => hds d' (by simp [hd'])
    by_cases hf : foreign i d.update = true
    · obtain ⟨h1, hr1, hl1⟩ := h.step hU hown (hds d (by simp) hf)
      obtain ⟨hr2, hl2⟩ := ih h1 hrest
      refine ⟨?_, fun m => (hl2 m).trans (hl1 m)⟩
      rw [List.foldl_cons, hr2, hr1, List.filter_cons, if_pos hf, List.map_cons,
        List.foldl_cons]
    · obtain ⟨st, hst⟩ := deliver_own h.ready (d := d) (by simpa [h.nodeId] using hf)
      have h1 : Running U i (deliver s d) := by
        rw [hst]
        exact ⟨h.ready, h.nodeId, h.fits, h.owner⟩
      obtain ⟨hr2, hl2⟩ := ih h1 hrest
      rw [List.foldl_cons, List.filter_cons, if_neg hf]
      rw [hst] at hr2 hl2 ⊢
      exact ⟨hr2, hl2⟩

/-- Registers and `is_local` bytes are all there is to a record. -/
lemma find_sansApplied {t t' : List HostLocation} (hr : reg t = reg t')
    (hl : ∀ m, localFlag t m = localFlag t' m) (m : Mac) :
    (find t m).map sansApplied = (find t' m).map sansApplied := by
  have hrm := congrFun hr m
  have hlm := hl m
  simp only [reg] at hrm
  rcases hf : find t m with _ | r <;> rcases hf' : find t' m with _ | r' <;>
    simp only [hf, hf', Option.map_none, Option.map_some, reduceCtorEq, localFlag] at hrm hlm ⊢
  rw [sansApplied_eq (Option.some.inj hrm) hlm]

/-- A run of updates answers every lookup as its foreign part does. -/
lemma Mergeable.find_foldl (h : Mergeable s U) (hds : ∀ d ∈ ds, d.update ∈ U) (m : Mac) :
    (find (ds.foldl deliver s).table m).map sansApplied =
      (find ((ds.filter fun d => foreign s.nodeId d.update).foldl deliver s).table m).map
        sansApplied := by
  have hc := h.compatible
  have hown : ∀ u ∈ U.filter (foreign s.nodeId), ∀ v ∈ U.filter (foreign s.nodeId),
      u.mac = v.mac → u.originNodeId = v.originNodeId :=
    fun u hu v hv => hc.owner u v (.inr hu) (.inr hv)
  obtain ⟨hr, hl⟩ := foldl_foreign hc.running hc.foreign hown
    fun d hd hf => List.mem_filter.mpr ⟨hds d hd, hf⟩
  have hfs : ∀ d ∈ ds.filter fun d => foreign s.nodeId d.update,
      d.update ∈ U.filter (foreign s.nodeId) := by
    intro d hd
    obtain ⟨hd, hf⟩ := List.mem_filter.mp hd
    exact List.mem_filter.mpr ⟨hds d hd, hf⟩
  obtain ⟨-, hr', hl'⟩ := hc.running.foldl hc.foreign hown hfs
  exact find_sansApplied (hr.trans hr'.symm) (fun m => (hl m).trans (hl' m).symm) m

lemma deliver_nodup (hs : s.ready = true) (h : (s.table.map HostLocation.mac).Nodup)
    (d : Delivery) :
    (deliver s d).ready = true ∧ ((deliver s d).table.map HostLocation.mac).Nodup := by
  obtain ⟨res, ha⟩ := deliver_applies hs d
  refine ⟨ha.ready.trans hs, ?_⟩
  generalize hp : (deliver s d, res) = p at ha
  rw [show deliver s d = p.1 from congrArg Prod.fst hp]
  cases ha with
  | new h0 hn hf hl => exact nodup_write h _
  | updated h0 hn hf ho hv => exact nodup_write h _
  | _ => exact h

lemma foldl_nodup (hs : s.ready = true) (h : (s.table.map HostLocation.mac).Nodup)
    (ds : List Delivery) :
    (ds.foldl deliver s).ready = true ∧
      ((ds.foldl deliver s).table.map HostLocation.mac).Nodup := by
  induction ds generalizing s with
  | nil => exact ⟨hs, h⟩
  | cons d ds ih =>
    obtain ⟨h1, h2⟩ := deliver_nodup hs h d
    exact ih h1 h2

lemma mem_map_sansApplied {t : List HostLocation} (hn : (t.map HostLocation.mac).Nodup)
    (a : HostLocation) :
    a ∈ t.map sansApplied ↔ (find t a.mac).map sansApplied = some a := by
  constructor
  · intro ha
    obtain ⟨r, hr, rfl⟩ := List.mem_map.mp ha
    rw [show (sansApplied r).mac = r.mac from rfl, find_of_mem hn hr]
    rfl
  · intro ha
    obtain ⟨r, hr, hra⟩ := Option.map_eq_some_iff.mp ha
    exact List.mem_map.mpr ⟨r, find_mem hr, hra⟩

/-- Tables with one record for each MAC are the same when they answer alike. -/
lemma sameTable_of_find {t t' : List HostLocation} (hn : (t.map HostLocation.mac).Nodup)
    (hn' : (t'.map HostLocation.mac).Nodup)
    (h : ∀ m, (find t m).map sansApplied = (find t' m).map sansApplied) : SameTable t t' := by
  have hnodup : ∀ t : List HostLocation, (t.map HostLocation.mac).Nodup →
      (t.map sansApplied).Nodup := by
    intro t ht
    refine List.Nodup.of_map HostLocation.mac ?_
    rw [List.map_map]
    exact ht
  refine ⟨(List.perm_ext_iff_of_nodup (hnodup t hn) (hnodup t' hn')).mpr fun a => ?_, h⟩
  rw [mem_map_sansApplied hn, mem_map_sansApplied hn', h]

/-- **Two orders of the same updates leave the same table.** -/
lemma Mergeable.sameTable (h : Mergeable s U) (hd : ∀ u, u ∈ U ↔ ∃ d ∈ ds, d.update = u)
    (hd' : ∀ u, u ∈ U ↔ ∃ d ∈ ds', d.update = u) :
    SameTable (ds.foldl deliver s).table (ds'.foldl deliver s).table := by
  have hdelivers : ∀ ds : List Delivery, (∀ u, u ∈ U ↔ ∃ d ∈ ds, d.update = u) →
      Delivers (U.filter (foreign s.nodeId))
        (ds.filter fun d => foreign s.nodeId d.update) := by
    intro ds hds
    refine ⟨fun d hd => ?_, fun u hu => ?_⟩
    · obtain ⟨hd, hf⟩ := List.mem_filter.mp hd
      exact List.mem_filter.mpr ⟨(hds _).mpr ⟨d, hd, rfl⟩, hf⟩
    · obtain ⟨hu, hf⟩ := List.mem_filter.mp hu
      obtain ⟨d, hd, rfl⟩ := (hds u).mp hu
      exact ⟨d, List.mem_filter.mpr ⟨hd, hf⟩, rfl⟩
  have hkeep := foldl_nodup h.ready h.nodup
  refine sameTable_of_find (hkeep ds).2 (hkeep ds').2 fun m => ?_
  rw [h.find_foldl (fun d hmem => (hd _).mpr ⟨d, hmem, rfl⟩) m,
    h.find_foldl (fun d hmem => (hd' _).mpr ⟨d, hmem, rfl⟩) m]
  have hagree := (deliveries_agree h.compatible (hdelivers ds hd)).1 _ (hdelivers ds' hd') m
  rwa [daimHostLookup_eq (hkeep _).1, daimHostLookup_eq (hkeep _).1] at hagree

/-- The records that arrive are the entries and the updates. -/
lemma mem_arrivals (u : HostLocation) :
    u ∈ (arrivals fs).map Prod.snd ↔ u ∈ entries fs ∨ u ∈ updates fs := by
  simp only [arrivals, entries, updates, List.mem_map, List.mem_filterMap]
  constructor
  · rintro ⟨a, ⟨f, hf, ha⟩, rfl⟩
    rcases arrivalOf_eq f with ⟨-, he⟩ | ⟨-, he⟩ <;> rw [he, Option.map_eq_some_iff] at ha
    · obtain ⟨u, hu, rfl⟩ := ha
      exact .inr ⟨f, hf, hu⟩
    · obtain ⟨u, hu, rfl⟩ := ha
      exact .inl ⟨f, hf, hu⟩
  · rintro (⟨f, hf, hu⟩ | ⟨f, hf, hu⟩)
    · refine ⟨(.importSnapshotEntry, u), ⟨f, hf, ?_⟩, rfl⟩
      rw [arrivalOf, hu]
      rfl
    · refine ⟨(.applyRemote, u), ⟨f, hf, ?_⟩, rfl⟩
      rcases arrivalOf_eq f with ⟨-, he⟩ | ⟨he, -⟩
      · rw [he, hu]
        rfl
      · rw [he] at hu
        cases hu

lemma mem_handed {ps : List (Path × HostLocation)} (h : ds.map handed = ps) (u : HostLocation) :
    u ∈ ps.map Prod.snd ↔ ∃ d ∈ ds, d.update = u := by
  subst h
  simp [handed]

/-- **Snapshots are exchanged in full.** When the call returns a count, every well-formed entry
and update before the end was handed over once, the entries before the updates; a connection
with too many updates is given up; and the table is the one that immediate application in the
order of arrival would have left. -/
theorem snapshots_exchanged (env : Env) (s : State) (fs : List Message) :
    (∀ n, (exchangeSnapshots env s fs).ret = some n → 0 ≤ n →
      n = (entries fs).length ∧
      (exchangeSnapshots env s fs).calls.map handed =
        (entries fs).map (Path.importSnapshotEntry, ·) ++ (updates fs).map (Path.applyRemote, ·) ∧
      (Mergeable s ((arrivals fs).map Prod.snd) → Quiet env →
        ∀ ds : List Delivery, ds.map handed = arrivals fs →
          SameTable (exchangeSnapshots env s fs).host.table (ds.foldl deliver s).table)) ∧
    (maxDeferredUpdates < (updates fs).length →
      (exchangeSnapshots env s fs).ret = some (-1) ∨
        (exchangeSnapshots env s fs).ret = none ∧ intMax < (entries fs).length) := by
  have hout := exchangeSnapshots_outcome env s fs
  generalize exchangeSnapshots env s fs = y at hout ⊢
  cases hout with
  | returned hr hl hc hh =>
    refine ⟨fun n hn _ => ⟨?_, hc, fun hm hq ds hds => ?_⟩, fun hlt => absurd hl (not_le.mpr hlt)⟩
    · exact (Option.some.inj (hr.symm.trans hn)).symm
    · rw [hh hq]
      refine hm.sameTable (fun u => ?_) (mem_handed hds)
      rw [mem_arrivals, ← mem_handed hc, List.map_append, List.map_map, List.map_map,
        List.mem_append]
      simp
  | failed hr =>
    refine ⟨fun n hn h0 => ?_, fun _ => .inl hr⟩
    have hneg : (-1 : ℤ) = n := Option.some.inj (hr.symm.trans hn)
    omega
  | undefined hr hn =>
    refine ⟨fun n hn' _ => ?_, fun _ => .inr ⟨hr, hn⟩⟩
    rw [hr] at hn'
    cases hn'

/-! ### The frames of a running connection -/

/-- `message_type` on the wire. -/
def typeByte : MsgType → UInt8
  | .hello => 1
  | .heartbeat => 2
  | .hostLocationUpdate => daimPeerMsgHostLocationUpdate
  | .stateSnapshotRequest => daimPeerMsgStateSnapshotRequest
  | .stateSnapshotBegin => 5
  | .stateSnapshotEntry => daimPeerMsgStateSnapshotEntry
  | .stateSnapshotEnd => daimPeerMsgStateSnapshotEnd
  | .ack => 8
  | .error => 9

/-- **The steps of a connection are this loop**: in the exchange, its end does to the table and
the deferred updates what the loop body does. -/
theorem exchangeMessage_endpoint (hq : Quiet env) {c : Endpoint} {g : Frame} {hdr : Header}
    (ht : hdr.messageType = typeByte g.messageType) (hh : x.host = c.host)
    (hd : x.deferred = c.deferred) :
    (exchangeMessage env x (hdr, g.payload)).host =
        (c.exchangeMessage g (env.now x.calls.length)).host ∧
      (exchangeMessage env x (hdr, g.payload)).deferred =
        (c.exchangeMessage g (env.now x.calls.length)).deferred := by
  have hhand : ∀ loc, (x.importEntry env loc).host =
      (daimHostImportSnapshotEntry c.host (some loc) (env.now x.calls.length)).1 ∧
        (x.importEntry env loc).deferred = c.deferred := by
    intro loc
    simp only [Exchange.importEntry, Exchange.hand, hq _ _, deliver, hh, ← hd]
    split_ifs <;> exact ⟨rfl, rfl⟩
  cases hg : g.messageType with
  | stateSnapshotEntry =>
    simp only [exchangeMessage, ht, hg, typeByte, Endpoint.exchangeMessage]
    rw [if_neg (by decide), if_pos trivial]
    cases hdec : daimPeerDecodeHostLocation g.payload with
    | none => exact ⟨hh, hd⟩
    | some loc => exact hhand loc
  | hostLocationUpdate =>
    simp only [exchangeMessage, ht, hg, typeByte, Endpoint.exchangeMessage]
    rw [if_neg (by decide), if_neg (by decide), if_neg (by decide), if_pos trivial]
    cases hdec : daimPeerDecodeHostLocation g.payload with
    | none => exact ⟨hh, hd⟩
    | some loc =>
      simp only [Exchange.defer, hd]
      split_ifs <;> exact ⟨hh, rfl⟩
  | stateSnapshotRequest =>
    simp only [exchangeMessage, ht, hg, typeByte, Endpoint.exchangeMessage]
    exact ⟨hh, hd⟩
  | _ =>
    simp only [exchangeMessage, ht, hg, typeByte, Endpoint.exchangeMessage]
    exact ⟨hh, hd⟩

/-- A live update and then the snapshot entry it is newer than. -/
def roamingFrames : List Message :=
  [(⟨1, 3, 2, 1, 59, 0⟩, daimPeerEncodeHostLocation (roaming 2 5)),
    (⟨1, 6, 2, 2, 59, 0⟩, daimPeerEncodeHostLocation (roaming 1 1)), (⟨1, 7, 2, 3, 0, 0⟩, [])]

def alone : Env := ⟨true, fun _ => true, fun _ s => s, fun _ => 9⟩

theorem snapshots_exchanged_roaming :
    (exchangeSnapshots alone (daimHostStateInit {} 1 7) roamingFrames).ret = some 1 ∧
      SameTable (exchangeSnapshots alone (daimHostStateInit {} 1 7) roamingFrames).host.table
        ([⟨.applyRemote, roaming 2 5, 8⟩, ⟨.importSnapshotEntry, roaming 1 1, 9⟩].foldl deliver
          (daimHostStateInit {} 1 7)).table := by
  have hret : (exchangeSnapshots alone (daimHostStateInit {} 1 7) roamingFrames).ret = some 1 := by
    decide
  refine ⟨hret, ?_⟩
  have harr : (arrivals roamingFrames).map Prod.snd = [roaming 2 5, roaming 1 1] := by decide
  have hoff : ∀ x, Offered (daimHostStateInit {} 1 7) [roaming 2 5, roaming 1 1] x →
      x = roaming 2 5 ∨ x = roaming 1 1 := by
    rintro x (hx | hx)
    · simp [daimHostStateInit, find] at hx
    · simpa using hx
  have hm : Mergeable (daimHostStateInit {} 1 7) ((arrivals roamingFrames).map Prod.snd) := by
    rw [harr]
    refine ⟨rfl, by decide, fun x y hx hy => ?_, fun x y hx hy => ?_, by decide⟩
    all_goals rcases hoff x hx with rfl | rfl <;> rcases hoff y hy with rfl | rfl
    all_goals decide
  exact ((snapshots_exchanged alone _ roamingFrames).1 1 hret (by decide)).2.2 hm
    (fun _ _ => rfl) _ (by decide)

end DaimDistributed.Deferral
