import DaimDistributed.Shutdown

/-!
When `daim_peer_transport_destroy` frees the transport.

Accept and dial threads are registered and joined; accept handlers are detached and counted. The
count is followed by what the threads have still to do: a registered handler is a decrement that
is still ahead, in the code of the handler or in that of the accept thread that starts it.
-/

namespace DaimDistributed.Destroy

open Threads Shutdown Transitions
open Slots (maxConnections)

/-- A handler that is registered, and not counted down. -/
def owed : Op → ℕ
  | .accept (.createHandler _) | .decrement _ => 1
  | _ => 0

/-- The threads that stand between the registration of a handler and its last decrement: the
handlers, and the accept thread where it is about to start one or to give it up. -/
def registered (x : Shutdown.State) : ℕ :=
  ((Finset.range x.count).filter fun t => 0 < weight owed (x.code t)).card

/-- `destroy` is in front of `free`, or behind it. -/
def Freeing (x : Shutdown.State) : Prop :=
  x.mem.freed = true ∨ ∃ d k, x.code d = .op (.destroy .free) :: k

/-- The threads of the transport. -/
def worker : Kind → Bool
  | .dial | .accept | .handler => true
  | _ => false

/-- What `destroy` rests on. -/
structure Safe (x : Shutdown.State) : Prop where
  counted : x.mem.activeAcceptHandlers = registered x
  no_underflow : ∀ t fd k, x.code t = .op (.decrement fd) :: k → 0 < x.mem.activeAcceptHandlers
  no_discard : ∀ t th k, x.code t = .op (.registerThread th) :: k →
    x.mem.threads.length < maxThreads
  finished : Freeing x → ∀ t, worker (x.kind t) = true →
    ∀ e, Threads.step program x (.run t e) = none

/-! ### Which thread does what -/

def fits : Op → Kind → Bool
  | .create _, .create | .registerThread _, .create => true
  | .addPeer _, .addPeer | .registerThread _, .addPeer => true
  | .dial _, .dial | .run _, .dial | .closeFd _, .dial => true
  | .accept _, .accept | .decrement (some _), .accept | .broadcast (some _), .accept
  | .closeFd _, .accept => true
  | .run _, .handler | .closeFd _, .handler | .decrement none, .handler
  | .broadcast none, .handler => true
  | .destroy _, .destroy => true
  | _, _ => false

def misfit (κ : Kind) (o : Op) : ℕ := if fits o κ then 0 else 1

/-- The accept thread has one accepted connection at a time, and a handler one decrement. -/
def turn : Op → ℕ
  | .accept _ | .decrement _ | .broadcast (some _) => 1
  | _ => 0

/-- A thread that is still to be registered, or to be given up. -/
def toRegister : Op → ℕ
  | .create .listen | .create .createAcceptThread | .addPeer (.malloc _)
  | .addPeer (.createDialThread _) | .registerThread _ => 1
  | _ => 0

/-- The thread that is being registered. -/
def registering : Op → Option ℕ
  | .registerThread th => some th
  | _ => none

/-- Where `destroy` waits. -/
inductive Stage
  | joining (threads : List ℕ)
  | waiting
  | finishing

def stage : Op → Option Stage
  | .destroy (.join threads) => some (.joining threads)
  | .destroy .waitHandlers => some .waiting
  | .destroy .destroyLocks | .destroy .free => some .finishing
  | _ => none

/-- What a handler has still to do: everything up to the last decrement, or what is behind it,
under the lock. -/
def HandlerCode (k : Code) : Prop :=
  [.op (.decrement none)] <:+ k ∨ k = [.op (.broadcast none)] ∨ k = [.unlock] ∨ k = []

lemma heads_registering : Heads program registering where
  next x o e r h := by cases does_of_exec h <;> rfl
  starts x o e r c h hc := by cases does_of_exec h <;> cases hc <;> rfl
  calls x c m c' h := by cases calls_of_call h <;> rfl

lemma heads_stage : Heads program stage where
  next x o e r h := by cases does_of_exec h <;> rfl
  starts x o e r c h hc := by cases does_of_exec h <;> cases hc <;> rfl
  calls x c m c' h := by cases calls_of_call h <;> rfl

variable {x y : Shutdown.State} {l : Shutdown.Label} {o : Op} {r : Shutdown.Effect}
  {e : Outcome} {k : Code} {t u v : ℕ} {κ : Kind}

lemma fits_next (h : Does x o r) (hf : misfit κ o = 0) : weight (misfit κ) r.next = 0 := by
  cases h with
  | @decrement fd => cases fd <;> cases κ <;> first | rfl | cases hf
  | _ => cases κ <;> first | rfl | cases hf

lemma fits_starts {c : Kind × Code} (h : Does x o r) (hc : r.starts = some c) :
    weight (misfit c.1) c.2 = 0 := by
  cases h <;> cases hc <;> rfl

lemma fits_calls {c : Call} {m : Transport} {c' : Kind × Code} (h : Calls x c m c') :
    weight (misfit c'.1) c'.2 = 0 := by
  cases h <;> rfl

lemma turn_next (h : Does x o r) : weight turn r.next ≤ turn o := by
  cases h with
  | @decrement fd =>
    cases fd with
    | none => exact Nat.zero_le _
    | some fd => exact Nat.le_refl _
  | _ => first | exact Nat.le_refl _ | exact Nat.zero_le _

lemma turn_starts {c : Kind × Code} (h : Does x o r) (hc : r.starts = some c) :
    weight turn c.2 ≤ 1 := by
  cases h <;> cases hc
  · exact Nat.le_refl _
  · exact Nat.zero_le _
  · exact Nat.le_refl _

lemma turn_calls {c : Call} {m : Transport} {c' : Kind × Code} (h : Calls x c m c') :
    weight turn c'.2 ≤ 1 := by
  cases h <;> exact Nat.zero_le _

lemma owed_le_turn (o : Op) : owed o ≤ turn o := by
  cases o with
  | accept o => cases o <;> first | exact Nat.le_refl _ | exact Nat.zero_le _
  | decrement fd => exact Nat.le_refl _
  | _ => exact Nat.zero_le _

/-! ### What an operation does to the books -/

lemma owed_does (h : Does x o r) (hpos : ∀ fd, o = .decrement fd → 0 < x.mem.activeAcceptHandlers) :
    r.mem.activeAcceptHandlers + owed o =
      x.mem.activeAcceptHandlers + weight owed r.next + started owed r := by
  cases h with
  | @decrement fd =>
    have := hpos fd rfl
    change x.mem.activeAcceptHandlers - 1 + 1 = x.mem.activeAcceptHandlers
    omega
  | shutdown =>
    rw [shutdownFd_eq]
    rfl
  | sweep | lastSweep =>
    rw [sweepSlot_eq]
    rfl
  | register =>
    simp only [registerThread]
    split <;> rfl
  | _ => rfl

/-- A thread is registered at most once for each peer, and once for the accept thread. -/
lemma toRegister_does (h : Does x o r) :
    r.mem.threads.length + weight toRegister r.next + started toRegister r + x.mem.peerCount ≤
      x.mem.threads.length + toRegister o + r.mem.peerCount := by
  cases h with
  | shutdown =>
    rw [shutdownFd_eq]
    exact Nat.le_refl _
  | sweep | lastSweep =>
    rw [sweepSlot_eq]
    exact Nat.le_refl _
  | @register th =>
    simp only [registerThread]
    split
    · rw [List.length_append]
      exact Nat.le_refl _
    · change x.mem.threads.length + 0 + 0 + x.mem.peerCount ≤
        x.mem.threads.length + 1 + x.mem.peerCount
      omega
  | allocate _ =>
    change x.mem.threads.length + 1 + 0 + x.mem.peerCount ≤
      x.mem.threads.length + 0 + (x.mem.peerCount + 1)
    omega
  | noListener | noAcceptThread | noMalloc | noDialThread =>
    change x.mem.threads.length + 0 + 0 + x.mem.peerCount ≤
      x.mem.threads.length + 1 + x.mem.peerCount
    omega
  | _ => exact Nat.le_refl _

lemma peerCount_does (h : Does x o r) (hp : x.mem.peerCount ≤ maxConfiguredPeers) :
    r.mem.peerCount ≤ maxConfiguredPeers := by
  cases h with
  | shutdown =>
    rw [shutdownFd_eq]
    exact hp
  | sweep | lastSweep =>
    rw [sweepSlot_eq]
    exact hp
  | @register th =>
    simp only [registerThread]
    split <;> exact hp
  | allocate hlt => exact hlt
  | _ => exact hp

/-! ### What holds in every run -/

structure Inv (x : Shutdown.State) : Prop where
  fresh : Fresh x
  balanced : Balanced sides x
  fit : ∀ t, weight (misfit (x.kind t)) (x.code t) = 0
  headed : ∀ t, Headed registering (x.code t)
  stageHeaded : ∀ t, Headed stage (x.code t)
  one : ∀ t, weight turn (x.code t) ≤ 1
  handler : ∀ t, x.kind t = .handler → HandlerCode (x.code t)
  counted : x.mem.activeAcceptHandlers = total owed x
  room : x.mem.threads.length + total toRegister x + (if x.mem.creating then 0 else 1) ≤
    1 + x.mem.peerCount
  peers : x.mem.peerCount ≤ maxConfiguredPeers
  creating : x.mem.creating = false →
    x.count = 0 ∧ x.mem.created = false ∧ x.mem.destroyer = none
  called : x.mem.destroyer ≠ none → ∀ t, x.kind t = .create ∨ x.kind t = .addPeer → x.code t = []
  destroyer : ∀ t, x.kind t = .destroy → x.code t ≠ [] → x.mem.destroyer ≠ none
  freed : x.mem.freed = true → x.mem.destroyer ≠ none
  known : ∀ t, x.kind t = .accept ∨ x.kind t = .dial → x.code t ≠ [] →
    t ∈ x.mem.threads ∨ ∃ u, places registering x u = some t
  joining : ∀ d threads, places stage x d = some (.joining threads) →
    ∀ t, x.kind t = .accept ∨ x.kind t = .dial → x.code t ≠ [] → t ∈ threads
  waiting : ∀ d, places stage x d = some .waiting →
    ∀ t, x.kind t = .accept ∨ x.kind t = .dial → x.code t = []
  finishing : (x.mem.freed = true ∨ ∃ d, places stage x d = some .finishing) →
    ∀ t, worker (x.kind t) = true → x.code t = []

lemma fits_of_mem (hi : Inv x) (h : .op o ∈ x.code t) : fits o (x.kind t) = true := by
  have hle : misfit (x.kind t) o ≤ weight (misfit (x.kind t)) (x.code t) := le_weight h
  rw [hi.fit t, misfit] at hle
  by_contra hf
  rw [if_neg hf] at hle
  exact absurd hle (by decide)

lemma Inv.fits_head (hi : Inv x) (h : x.code t = .op o :: k) : fits o (x.kind t) = true :=
  fits_of_mem hi (by simp [h])

lemma kind_of_registerThread (h : fits (.registerThread t) κ = true) :
    κ = .create ∨ κ = .addPeer := by
  cases κ with
  | create => exact .inl rfl
  | addPeer => exact .inr rfl
  | _ => cases h

lemma kind_of_destroy {o : DestroyOp} (h : fits (.destroy o) κ = true) : κ = .destroy := by
  cases κ with
  | destroy => rfl
  | _ => cases h

lemma kind_of_create {o : CreateOp} (h : fits (.create o) κ = true) : κ = .create := by
  cases κ with
  | create => rfl
  | _ => cases h

lemma kind_of_addPeer {o : AddPeerOp} (h : fits (.addPeer o) κ = true) : κ = .addPeer := by
  cases κ with
  | addPeer => rfl
  | _ => cases h

lemma kind_of_accept {o : AcceptOp} (h : fits (.accept o) κ = true) : κ = .accept := by
  cases κ with
  | accept => rfl
  | _ => cases h

lemma Inv.adder_of_registering (hi : Inv x) (h : places registering x u = some v) :
    x.kind u = .create ∨ x.kind u = .addPeer := by
  obtain ⟨o, ho, hr⟩ := mem_of_role h
  cases o with
  | registerThread th => exact kind_of_registerThread (fits_of_mem hi ho)
  | _ => cases hr

lemma Inv.destroy_of_stage (hi : Inv x) {s : Stage} (h : places stage x u = some s) :
    x.mem.destroyer ≠ none := by
  obtain ⟨o, ho, hr⟩ := mem_of_role h
  cases o with
  | destroy o =>
    exact hi.destroyer u (kind_of_destroy (fits_of_mem hi ho)) (List.ne_nil_of_mem ho)
  | _ => cases hr

/-- Who starts a thread of the transport. -/
lemma starter {c : Kind × Code} (h : Does x o r) (hc : r.starts = some c) :
    c.1 = .accept ∧ o = .create .createAcceptThread ∨
      (∃ idx, c.1 = .dial ∧ o = .addPeer (.createDialThread idx)) ∨
      ∃ fd, c.1 = .handler ∧ o = .accept (.createHandler fd) := by
  cases h <;> cases hc
  · exact .inl ⟨rfl, rfl⟩
  · exact .inr (.inl ⟨_, rfl, rfl⟩)
  · exact .inr (.inr ⟨_, rfl, rfl⟩)

/-- **Once `destroy` is called** only an accept thread starts threads, and only handlers. -/
lemma Inv.worker_old (hi : Inv x) (h : Threads.step program x l = some y)
    (hd : x.mem.destroyer ≠ none) (hw : worker (y.kind v) = true) (hv : y.code v ≠ []) :
    x.code v ≠ [] ∧ y.kind v = x.kind v ∨
      y.kind v = .handler ∧ ∃ t, x.kind t = .accept ∧ x.code t ≠ [] := by
  cases alive_step h hv with
  | old hx hk => exact .inl ⟨hx, hk⟩
  | @started t o k e r c ht hex hc hvc hk _ =>
    have hne : x.code t ≠ [] := by simp [ht]
    have hfit := hi.fits_head ht
    rcases starter (does_of_exec hex) hc with ⟨-, rfl⟩ | ⟨idx, -, rfl⟩ | ⟨fd, hc1, rfl⟩
    · exact absurd (hi.called hd t (.inl (kind_of_create hfit))) hne
    · exact absurd (hi.called hd t (.inr (kind_of_addPeer hfit))) hne
    · exact .inr ⟨hk.trans hc1, t, kind_of_accept hfit, hne⟩
  | @called c m c' hca _ hk _ =>
    rw [hk] at hw
    cases calls_of_call hca <;> cases hw

/-- While the accept and dial threads are over, none of them comes back. -/
lemma Inv.joined_step (hi : Inv x) (h : Threads.step program x l = some y)
    (hd : x.mem.destroyer ≠ none)
    (hx : ∀ t, x.kind t = .accept ∨ x.kind t = .dial → x.code t = []) (t : ℕ)
    (ht : y.kind t = .accept ∨ y.kind t = .dial) : y.code t = [] := by
  by_contra hne
  have hw : worker (y.kind t) = true := by rcases ht with ht | ht <;> rw [ht] <;> rfl
  rcases hi.worker_old h hd hw hne with ⟨hold, hk⟩ | ⟨hk, -⟩
  · exact hold (hx t (hk ▸ ht))
  · rcases ht with ht | ht <;> cases hk.symm.trans ht

/-- While all threads of the transport are over, none comes back. -/
lemma Inv.over_step (hi : Inv x) (h : Threads.step program x l = some y)
    (hd : x.mem.destroyer ≠ none) (hx : ∀ t, worker (x.kind t) = true → x.code t = []) (t : ℕ)
    (ht : worker (y.kind t) = true) : y.code t = [] := by
  by_contra hne
  rcases hi.worker_old h hd ht hne with ⟨hold, hk⟩ | ⟨-, u, hu, hune⟩
  · exact hold (hx t (hk ▸ ht))
  · exact hune (hx u (by rw [hu]; rfl))

/-! ### What a step keeps -/

lemma does_frame (h : Does x o r) : r.mem.creating = x.mem.creating ∧
    r.mem.destroyer = x.mem.destroyer ∧ (∀ t ∈ x.mem.threads, t ∈ r.mem.threads) ∧
    (r.mem.freed = true → x.mem.freed = true ∨ o = .destroy .free) := by
  cases h with
  | shutdown =>
    rw [shutdownFd_eq]
    exact ⟨rfl, rfl, fun _ h => h, .inl⟩
  | sweep | lastSweep =>
    rw [sweepSlot_eq]
    exact ⟨rfl, rfl, fun _ h => h, .inl⟩
  | register =>
    simp only [registerThread]
    split
    · exact ⟨rfl, rfl, fun _ h => List.mem_append_left _ h, .inl⟩
    · exact ⟨rfl, rfl, fun _ h => h, .inl⟩
  | free => exact ⟨rfl, rfl, fun _ h => h, fun _ => .inr rfl⟩
  | _ => exact ⟨rfl, rfl, fun _ h => h, .inl⟩

lemma Inv.creating_step (hi : Inv x) (h : Threads.step program x l = some y) :
    y.mem.creating = true := by
  have hrun : ∀ {t i k}, x.code t = i :: k → x.mem.creating = true := by
    intro t i k ht
    by_contra hc
    have hlt := hi.fresh.lt (t := t) (by simp [ht])
    rw [(hi.creating (eq_false_of_ne_true hc)).1] at hlt
    exact absurd hlt (Nat.not_lt_zero t)
  cases steps_of_step h with
  | locks ht _ | unlocks ht => exact hrun ht
  | runs ht hex =>
    rw [apply_mem, (does_frame (does_of_exec hex)).1]
    exact hrun ht
  | calls hca =>
    cases calls_of_call hca with
    | create _ => rfl
    | addPeer hcr _ | destroy hcr _ _ =>
      by_contra hc
      have hno := (hi.creating (eq_false_of_ne_true hc)).2.1
      cases hcr.symm.trans hno

lemma destroyer_step (h : Threads.step program x l = some y) (hd : x.mem.destroyer ≠ none) :
    y.mem.destroyer ≠ none := by
  cases steps_of_step h with
  | locks _ _ | unlocks _ => exact hd
  | runs _ hex =>
    rw [apply_mem, (does_frame (does_of_exec hex)).2.1]
    exact hd
  | calls hca =>
    cases calls_of_call hca with
    | create _ => exact hd
    | addPeer _ _ => exact hd
    | destroy => exact Option.some_ne_none _

lemma Inv.counted_step (hi : Inv x) (h : Threads.step program x l = some y) :
    y.mem.activeAcceptHandlers = total owed y := by
  cases steps_of_step h with
  | locks ht _ => exact hi.counted.trans (total_lock hi.fresh ht).symm
  | unlocks ht => exact hi.counted.trans (total_unlock hi.fresh ht).symm
  | @runs t e o k r ht hex =>
    have hpos : ∀ fd, o = .decrement fd → 0 < x.mem.activeAcceptHandlers := by
      rintro fd rfl
      have hle : weight owed (x.code t) ≤ total owed x := weight_le_total hi.fresh
      rw [ht, ← hi.counted] at hle
      exact Nat.lt_of_lt_of_le (Nat.succ_pos _) (Nat.le_trans (Nat.le_add_right 1 _) hle)
    have hop := owed_does (does_of_exec hex) hpos
    have htot := total_apply (w := owed) (r := r) hi.fresh ht
    have hx := hi.counted
    rw [apply_mem]
    omega
  | @calls c m c' hca =>
    have htot := total_start (w := owed) (x := x) c'
    have hx := hi.counted
    change m.activeAcceptHandlers = total owed (x.start c')
    cases calls_of_call hca <;> exact hx.trans htot.symm

lemma Inv.room_step (hi : Inv x) (h : Threads.step program x l = some y) :
    y.mem.threads.length + total toRegister y + (if y.mem.creating then 0 else 1) ≤
      1 + y.mem.peerCount := by
  have hx := hi.room
  rw [hi.creating_step h, if_pos rfl]
  cases steps_of_step h with
  | @locks t e k ht _ =>
    have htot : total toRegister (x.goto t k) = total toRegister x := total_lock hi.fresh ht
    change x.mem.threads.length + total toRegister (x.goto t k) + 0 ≤ 1 + x.mem.peerCount
    omega
  | @unlocks t e k ht =>
    have htot : total toRegister (x.goto t k) = total toRegister x := total_unlock hi.fresh ht
    change x.mem.threads.length + total toRegister (x.goto t k) + 0 ≤ 1 + x.mem.peerCount
    omega
  | @runs t e o k r ht hex =>
    have hop := toRegister_does (does_of_exec hex)
    have htot := total_apply (w := toRegister) (r := r) hi.fresh ht
    rw [apply_mem]
    omega
  | @calls c m c' hca =>
    have htot := total_start (w := toRegister) (x := x) c'
    change m.threads.length + total toRegister (x.start c') + 0 ≤ 1 + m.peerCount
    cases calls_of_call hca with
    | create hc =>
      rw [hc] at hx
      rw [htot]
      exact hx
    | addPeer _ _ | destroy _ _ _ =>
      rw [htot]
      exact (Nat.le_add_right _ _).trans hx

lemma Inv.peers_step (hi : Inv x) (h : Threads.step program x l = some y) :
    y.mem.peerCount ≤ maxConfiguredPeers := by
  cases steps_of_step h with
  | locks _ _ | unlocks _ => exact hi.peers
  | runs _ hex =>
    rw [apply_mem]
    exact peerCount_does (does_of_exec hex) hi.peers
  | calls hca => cases calls_of_call hca <;> exact hi.peers

/-- **There is room for every thread that is registered.** -/
lemma Inv.no_discard (hi : Inv x) (h : x.code t = .op (.registerThread u) :: k) :
    x.mem.threads.length < maxThreads := by
  have hle : weight toRegister (x.code t) ≤ total toRegister x := weight_le_total hi.fresh
  have hone : 1 ≤ weight toRegister (x.code t) := by
    rw [h]
    exact Nat.le_add_right 1 _
  have hroom := hi.room
  have hpeers := hi.peers
  simp only [maxThreads, maxConnections, maxConfiguredPeers] at hpeers ⊢
  omega

lemma Inv.called_step (hi : Inv x) (h : Threads.step program x l = some y)
    (hd : y.mem.destroyer ≠ none) (t : ℕ) (ht : y.kind t = .create ∨ y.kind t = .addPeer) :
    y.code t = [] := by
  by_contra hne
  cases alive_step h hne with
  | old hx hk =>
    rw [hk] at ht
    by_cases hxd : x.mem.destroyer = none
    · cases steps_of_step h with
      | locks _ _ | unlocks _ => exact hd hxd
      | runs _ hex =>
        rw [apply_mem, (does_frame (does_of_exec hex)).2.1] at hd
        exact hd hxd
      | calls hca =>
        cases calls_of_call hca with
        | create _ => exact hd hxd
        | addPeer _ _ => exact hd hxd
        | destroy _ _ hidle => exact hx (hidle t (hi.fresh.lt hx) ht)
    · exact hx (hi.called hxd t ht)
  | @started t' o k e r c _ hex hc _ hk _ =>
    rw [hk] at ht
    rcases starter (does_of_exec hex) hc with ⟨hc1, -⟩ | ⟨_, hc1, -⟩ | ⟨_, hc1, -⟩ <;>
      rw [hc1] at ht <;> rcases ht with ht | ht <;> cases ht
  | @called c m c' hca _ hk hm =>
    rw [hk] at ht
    rw [hm] at hd
    cases calls_of_call hca with
    | create hcr => exact hd (hi.creating hcr).2.2
    | addPeer _ hnone => exact hd hnone
    | destroy _ _ _ => rcases ht with ht | ht <;> cases ht

lemma Inv.destroyer_called (hi : Inv x) (h : Threads.step program x l = some y) (t : ℕ)
    (ht : y.kind t = .destroy) (hne : y.code t ≠ []) : y.mem.destroyer ≠ none := by
  cases alive_step h hne with
  | old hx hk => exact destroyer_step h (hi.destroyer t (hk.symm.trans ht) hx)
  | @started t' o k e r c _ hex hc _ hk _ =>
    rw [hk] at ht
    rcases starter (does_of_exec hex) hc with ⟨hc1, -⟩ | ⟨_, hc1, -⟩ | ⟨_, hc1, -⟩ <;>
      cases hc1.symm.trans ht
  | @called c m c' hca _ hk hm =>
    rw [hk] at ht
    rw [hm]
    cases calls_of_call hca with
    | destroy => exact Option.some_ne_none _
    | _ => cases ht

lemma Inv.known_step (hi : Inv x) (h : Threads.step program x l = some y) (t : ℕ)
    (ht : y.kind t = .accept ∨ y.kind t = .dial) (hne : y.code t ≠ []) :
    t ∈ y.mem.threads ∨ ∃ u, places registering y u = some t := by
  have hkeep : ∀ t ∈ x.mem.threads, t ∈ y.mem.threads := by
    cases steps_of_step h with
    | locks _ _ | unlocks _ => exact fun _ h => h
    | runs _ hex =>
      rw [apply_mem]
      exact (does_frame (does_of_exec hex)).2.2.1
    | calls hca => cases calls_of_call hca <;> exact fun _ h => h
  cases alive_step h hne with
  | old hx hk =>
    rcases hi.known t (hk ▸ ht) hx with hmem | ⟨u, hu⟩
    · exact .inl (hkeep t hmem)
    · rcases places_keep hi.fresh hi.headed h hu with hu' | ⟨o, k, e, r, hcode, hex, ho, hmem⟩
      · exact .inr ⟨u, hu'⟩
      · -- it is registered now, and there is room
        left
        cases o with
        | registerThread th =>
          cases ho
          cases does_of_exec hex
          rw [hmem]
          simp [registerThread, if_pos (hi.no_discard hcode)]
        | _ => cases ho
  | @started u o k e r c hcode hex hc htc hk hy =>
    have hut : u ≠ x.count := (hi.fresh.lt (by simp [hcode])).ne
    right
    refine ⟨u, ?_⟩
    rw [hy, places_apply_starts hi.headed hcode hc, Function.update_of_ne hut,
      Function.update_self, htc]
    rw [hk] at ht
    have hd := does_of_exec hex
    cases hd <;> cases hc
    · rfl
    · rfl
    · rcases ht with ht | ht <;> cases ht
  | @called c m c' hca _ hk _ =>
    rw [hk] at ht
    cases calls_of_call hca <;> rcases ht with ht | ht <;> cases ht

/-! ### Handlers -/

lemma HandlerCode.tail {i : Instr Op} (h : HandlerCode (i :: k))
    (hi : ∀ o, i ≠ .op o) : HandlerCode k := by
  rcases h with h | h | h | h
  · rcases List.suffix_cons_iff.mp h with he | h
    · cases he
      exact absurd rfl (hi _)
    · exact .inl h
  · cases h
    exact absurd rfl (hi _)
  · cases h
    exact .inr (.inr (.inr rfl))
  · cases h

/-- Behind the last decrement there is nothing but the broadcast and the unlock. -/
lemma HandlerCode.next (h : HandlerCode (.op o :: k)) (hd : Does x o r) :
    HandlerCode (r.next ++ k) := by
  rcases h with h | h | h | h
  · rcases List.suffix_cons_iff.mp h with he | h
    · cases he
      cases hd
      exact .inr (.inl rfl)
    · exact .inl (h.trans (List.suffix_append _ _))
  · cases h
    cases hd
    exact .inr (.inr (.inl rfl))
  · cases h
  · cases h

lemma Inv.handler_step (hi : Inv x) (h : Threads.step program x l = some y) (t : ℕ)
    (ht : y.kind t = .handler) : HandlerCode (y.code t) := by
  refine code_step (P := program) (fun _ κ k => κ = .handler → HandlerCode k)
    (fun u hu => hi.handler u hu) ?_ ?_ ?_ ?_ ?_ h t ht
  · intro u k hu hk
    have hx := hi.handler u hk
    rw [hu] at hx
    exact hx.tail (by simp)
  · intro u k hu hk
    have hx := hi.handler u hk
    rw [hu] at hx
    exact hx.tail (by simp)
  · intro u o k e r hu hex hk
    have hx := hi.handler u hk
    rw [hu] at hx
    exact hx.next (does_of_exec hex)
  · intro u o k e r c _ hex hc hk
    cases does_of_exec hex <;> cases hc
    · cases hk
    · cases hk
    · exact .inl ⟨[.lock, .op (.run (.acquire _)), .lock], rfl⟩
  · intro c m c' hc hk
    cases calls_of_call hc <;> cases hk

/-- **With the count at zero and the lock in other hands** a handler has nothing left to do. -/
lemma Inv.handler_over (hi : Inv x) (hz : x.mem.activeAcceptHandlers = 0)
    (hl : x.lock ≠ some t) (ht : x.kind t = .handler) : x.code t = [] := by
  have hw : weight owed (x.code t) = 0 := by
    have hle : weight owed (x.code t) ≤ total owed x := weight_le_total hi.fresh
    rw [← hi.counted, hz] at hle
    exact Nat.le_zero.mp hle
  rcases hi.handler t ht with h | h | h | h
  · have hmem : .op (.decrement none) ∈ x.code t := h.subset (by simp)
    have hle : owed (.decrement none) ≤ weight owed (x.code t) := le_weight hmem
    rw [hw] at hle
    exact absurd hle (by decide)
  · have hop := hi.balanced.op h
    exact absurd (of_decide_eq_true hop) hl
  · exact absurd (hi.balanced.unlock h) hl
  · exact h

/-! ### The end of `destroy` -/

/-- A thread comes to a stage of `destroy` from the operation before it. -/
lemma stage_arrives {s : Stage} (h : Arrives program stage x u s) :
    places stage x u = some s ∨ ∃ o k e r, x.code u = .op o :: k ∧ program.exec x o e = some r ∧
      Does x o r ∧ role stage r.next = some s := by
  cases h with
  | stays h => exact .inl h
  | @moves o k e r ht hex hr => exact .inr ⟨o, k, e, r, ht, hex, does_of_exec hex, hr⟩
  | started hex hc hr =>
    cases does_of_exec hex <;> cases hc <;> cases hr
  | called hca hr =>
    cases calls_of_call hca <;> cases hr

lemma Inv.joining_step (hi : Inv x) (h : Threads.step program x l = some y) (d : ℕ)
    (threads : List ℕ) (hp : places stage y d = some (.joining threads)) (t : ℕ)
    (ht : y.kind t = .accept ∨ y.kind t = .dial) (hne : y.code t ≠ []) : t ∈ threads := by
  have hw : worker (y.kind t) = true := by rcases ht with ht | ht <;> rw [ht] <;> rfl
  -- `destroy` has been called, so the thread was there before
  have hold : x.mem.destroyer ≠ none → x.code t ≠ [] ∧ y.kind t = x.kind t := by
    intro hd
    rcases hi.worker_old h hd hw hne with hold | ⟨hk, -⟩
    · exact hold
    · rcases ht with ht | ht <;> cases hk.symm.trans ht
  rcases stage_arrives (places_step hi.stageHeaded h hp) with hx | ⟨o, k, e, r, hc, -, hdoes, hr⟩
  · obtain ⟨hx', hk⟩ := hold (hi.destroy_of_stage hx)
    exact hi.joining d threads hx t (hk ▸ ht) hx'
  · have hne' : x.code d ≠ [] := by simp [hc]
    have hfit := hi.fits_head hc
    cases hdoes with
    | copyThreads =>
      cases hr
      have hd := hi.destroyer d (kind_of_destroy hfit) hne'
      obtain ⟨hx', hk⟩ := hold hd
      rcases hi.known t (hk ▸ ht) hx' with hmem | ⟨u, hu⟩
      · exact hmem
      · -- no call of `add_peer` is left that could still register it
        have hcalled := hi.called hd u (hi.adder_of_registering hu)
        rw [places, hcalled] at hu
        cases hu
    | @join th threads' hover =>
      cases hr
      have hpl : places stage x d = some (.joining (th :: threads)) := places_op hi.stageHeaded hc
      obtain ⟨hx', hk⟩ := hold (hi.destroy_of_stage hpl)
      rcases List.mem_cons.mp (hi.joining d _ hpl t (hk ▸ ht) hx') with rfl | hmem
      · exact absurd hover hx'
      · exact hmem
    | _ => cases hr

lemma Inv.waiting_step (hi : Inv x) (h : Threads.step program x l = some y) (d : ℕ)
    (hp : places stage y d = some .waiting) (t : ℕ) (ht : y.kind t = .accept ∨ y.kind t = .dial) :
    y.code t = [] := by
  rcases stage_arrives (places_step hi.stageHeaded h hp) with hx | ⟨o, k, e, r, hc, -, hdoes, hr⟩
  · exact hi.joined_step h (hi.destroy_of_stage hx) (hi.waiting d hx) t ht
  · cases hdoes with
    | joined =>
      have hpl : places stage x d = some (.joining []) := places_op hi.stageHeaded hc
      refine hi.joined_step h (hi.destroy_of_stage hpl) (fun u hu => ?_) t ht
      by_contra hne
      exact absurd (hi.joining d [] hpl u hu hne) List.not_mem_nil
    | waitHandlers _ =>
      have hpl : places stage x d = some .waiting := places_op hi.stageHeaded hc
      exact hi.joined_step h (hi.destroy_of_stage hpl) (hi.waiting d hpl) t ht
    | _ => cases hr

/-- **Behind the wait for the handlers** no thread of the transport has anything left to do. -/
lemma Inv.over_of_waited (hi : Inv x) {d : ℕ} (hc : x.code d = .op (.destroy .waitHandlers) :: k)
    (hz : x.mem.activeAcceptHandlers = 0) (t : ℕ) (ht : worker (x.kind t) = true) :
    x.code t = [] := by
  have hpl : places stage x d = some .waiting := places_op hi.stageHeaded hc
  have hlock : x.lock = some d := of_decide_eq_true (hi.balanced.op hc)
  have hkind : x.kind d = .destroy := kind_of_destroy (hi.fits_head hc)
  rcases hk : x.kind t with _ | _ | _ | _ | _ | _
  · rw [hk] at ht
    cases ht
  · rw [hk] at ht
    cases ht
  · rw [hk] at ht
    cases ht
  · exact hi.waiting d hpl t (.inr hk)
  · exact hi.waiting d hpl t (.inl hk)
  · refine hi.handler_over hz (fun he => ?_) hk
    obtain rfl := Option.some.inj (hlock.symm.trans he)
    cases hkind.symm.trans hk

lemma Inv.freed_step (h : Threads.step program x l = some y) (hf : y.mem.freed = true) :
    x.mem.freed = true ∨ ∃ d k, x.code d = .op (.destroy .free) :: k := by
  cases steps_of_step h with
  | locks _ _ | unlocks _ => exact .inl hf
  | @runs t e o k r ht hex =>
    rw [apply_mem] at hf
    rcases (does_frame (does_of_exec hex)).2.2.2 hf with hx | rfl
    · exact .inl hx
    · exact .inr ⟨t, k, ht⟩
  | calls hca => cases calls_of_call hca <;> exact .inl hf

lemma Inv.over_of_finishing (hi : Inv x)
    (hx : x.mem.freed = true ∨ ∃ d, places stage x d = some .finishing) :
    x.mem.destroyer ≠ none ∧ ∀ t, worker (x.kind t) = true → x.code t = [] := by
  refine ⟨?_, hi.finishing hx⟩
  rcases hx with hx | ⟨d, hx⟩
  · exact hi.freed hx
  · exact hi.destroy_of_stage hx

lemma Inv.finishing_step (hi : Inv x) (h : Threads.step program x l = some y)
    (hy : y.mem.freed = true ∨ ∃ d, places stage y d = some .finishing) (t : ℕ)
    (ht : worker (y.kind t) = true) : y.code t = [] := by
  rcases hy with hf | ⟨d, hp⟩
  · have hx : x.mem.freed = true ∨ ∃ d, places stage x d = some .finishing := by
      rcases Inv.freed_step h hf with hx | ⟨d, k, hc⟩
      · exact .inl hx
      · exact .inr ⟨d, places_op hi.stageHeaded hc⟩
    obtain ⟨hd, hover⟩ := hi.over_of_finishing hx
    exact hi.over_step h hd hover t ht
  · rcases stage_arrives (places_step hi.stageHeaded h hp) with hx | ⟨o, k, e, r, hc, -, hdoes, hr⟩
    · obtain ⟨hd, hover⟩ := hi.over_of_finishing (.inr ⟨d, hx⟩)
      exact hi.over_step h hd hover t ht
    · cases hdoes with
      | noHandlers hz =>
        have hpl : places stage x d = some .waiting := places_op hi.stageHeaded hc
        exact hi.over_step h (hi.destroy_of_stage hpl) (hi.over_of_waited hc hz) t ht
      | destroyLocks =>
        have hpl : places stage x d = some .finishing := places_op hi.stageHeaded hc
        obtain ⟨hd, hover⟩ := hi.over_of_finishing (.inr ⟨d, hpl⟩)
        exact hi.over_step h hd hover t ht
      | _ => cases hr

lemma Inv.freed_called (hi : Inv x) (h : Threads.step program x l = some y)
    (hf : y.mem.freed = true) : y.mem.destroyer ≠ none := by
  refine destroyer_step h ?_
  rcases Inv.freed_step h hf with hx | ⟨d, k, hc⟩
  · exact hi.freed hx
  · exact hi.destroyer d (kind_of_destroy (hi.fits_head hc)) (by simp [hc])

/-! ### Every run -/

lemma Inv.fit_step (hi : Inv x) (h : Threads.step program x l = some y) (t : ℕ) :
    weight (misfit (y.kind t)) (y.code t) = 0 := by
  refine code_step (P := program) (fun _ κ k => weight (misfit κ) k = 0) hi.fit ?_ ?_ ?_ ?_ ?_ h t
  · intro u k hu
    have := hi.fit u
    rwa [hu] at this
  · intro u k hu
    have := hi.fit u
    rwa [hu] at this
  · intro u o k e r hu hex
    have hx := hi.fit u
    rw [hu, weight, Nat.add_eq_zero_iff] at hx
    rw [weight_append, fits_next (does_of_exec hex) hx.1, hx.2]
  · exact fun u o k e r c _ hex hc => fits_starts (does_of_exec hex) hc
  · exact fun c m c' hc => fits_calls (calls_of_call hc)

theorem Inv.step (hi : Inv x) (h : Threads.step program x l = some y) : Inv y where
  fresh := hi.fresh.step h
  balanced := hi.balanced.step disciplined hi.fresh h
  fit := hi.fit_step h
  headed := headed_step heads_registering hi.headed h
  stageHeaded := headed_step heads_stage hi.stageHeaded h
  one := weight_step (fun _ _ _ _ hex => turn_next (does_of_exec hex))
    (fun _ _ _ _ _ hex hc => turn_starts (does_of_exec hex) hc)
    (fun _ _ _ _ hc => turn_calls (calls_of_call hc)) hi.one h
  handler := hi.handler_step h
  counted := hi.counted_step h
  room := hi.room_step h
  peers := hi.peers_step h
  creating hc := by cases (hi.creating_step h).symm.trans hc
  called := hi.called_step h
  destroyer := hi.destroyer_called h
  freed := hi.freed_called h
  known := hi.known_step h
  joining := hi.joining_step h
  waiting := hi.waiting_step h
  finishing := hi.finishing_step h

lemma inv_initial : Inv initial where
  fresh _ _ := rfl
  balanced _ := rfl
  fit _ := rfl
  headed _ := rfl
  stageHeaded _ := rfl
  one _ := Nat.zero_le _
  handler _ h := by cases h
  counted := rfl
  room := Nat.le_refl _
  peers := Nat.zero_le _
  creating _ := ⟨rfl, rfl, rfl⟩
  called h := absurd rfl h
  destroyer _ h := by cases h
  freed h := by cases h
  known _ _ h := absurd rfl h
  joining _ _ h := by cases h
  waiting _ h := by cases h
  finishing _ _ _ := rfl

theorem run_inv {h : List (Shutdown.State × Shutdown.Label)} (hr : Run system h x) : Inv x := by
  refine hr.inv Inv ?_ fun x l y hi hst => hi.step hst
  rintro _ rfl
  exact inv_initial

/-- Every thread has at most one handler to count down, so the sum is a number of threads. -/
lemma Inv.total_eq_registered (hi : Inv x) : total owed x = registered x := by
  rw [registered, Finset.card_filter]
  refine Finset.sum_congr rfl fun t _ => ?_
  have hle : weight owed (x.code t) ≤ weight turn (x.code t) := weight_mono owed_le_turn
  have hone := hi.one t
  split_ifs with hpos
  · omega
  · omega

/-- **`destroy` frees the transport only when all its threads are over.** In every state of a
run the count is the number of handlers between their registration and their last decrement and
is positive where it is decremented, there is room for every thread handle that is registered,
and no accept, dial or handler thread can take a step when `destroy` is in front of `free` or
behind it. -/
theorem frees_last (h : List (Shutdown.State × Shutdown.Label)) (x : Shutdown.State)
    (hr : Run system h x) : Safe x := by
  have hi := run_inv hr
  refine ⟨hi.counted.trans hi.total_eq_registered, ?_, ?_, ?_⟩
  · intro t fd k ht
    have hle : weight owed (x.code t) ≤ total owed x := weight_le_total hi.fresh
    rw [ht, ← hi.counted] at hle
    exact Nat.lt_of_lt_of_le (Nat.succ_pos _) (Nat.le_trans (Nat.le_add_right 1 _) hle)
  · exact fun t th k ht => hi.no_discard ht
  · intro hf t ht e
    refine step_nil (hi.finishing ?_ t ht)
    rcases hf with hf | ⟨d, k, hc⟩
    · exact .inl hf
    · exact .inr ⟨d, places_op hi.stageHeaded hc⟩

/-- A connection is accepted. `destroy` joins the dial and the accept thread and waits for the
handler, whose HELLO fails. -/
def oneHandler : List Shutdown.Label :=
  [onePeer, [.run 1 (.fd 5)], ran 1 8, ran 4 3, [.call .destroy], ran 5 40, ran 3 3, [.run 1 .fail],
    ran 5 6, [.run 4 .fail], ran 4 11, ran 5 4].flatten

/-- The run ends in front of `free`. -/
theorem frees_last_oneHandler : ∃ h x, Run system h x ∧ Freeing x ∧ Safe x := by
  obtain ⟨h, x, hr, hp⟩ := exists_run_of_replay (i := (· = initial))
    (f := Threads.step program) oneHandler rfl
    (fun _ x => x.code 5 = [.op (.destroy .free)]) (by decide +kernel)
  exact ⟨h, x, hr, .inr ⟨5, [], hp⟩, frees_last h x hr⟩

end DaimDistributed.Destroy
