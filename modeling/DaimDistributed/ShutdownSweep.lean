import DaimDistributed.Shutdown

/-!
The sweep of `daim_peer_transport_destroy` over the connection slots, among the threads that
open, acquire, tear down and close connections.

A thread is seen by the descriptor it holds and the slot it has; a step of the transport moves
a thread from one such role to another, or the sweep by one slot.
-/

namespace DaimDistributed.ShutdownSweep

open Threads Shutdown Transitions
open Slots (maxConnections)

/-- A thread with an open descriptor, with a slot, or with a slot whose descriptor it has
closed. -/
inductive Role
  | bare (fd : ℕ)
  | owner (i fd : ℕ)
  | closed (i : ℕ)

def Role.fd : Role → Option ℕ
  | .bare fd | .owner _ fd => some fd
  | .closed _ => none

def Role.slot : Role → Option ℕ
  | .bare _ => none
  | .owner i _ | .closed i => some i

def roleOf : Op → Option Role
  | .dial (.connect fd) | .closeFd fd | .accept (.checkStop fd) | .accept (.malloc fd)
  | .accept (.increment fd) | .accept (.createHandler fd) | .decrement (some fd)
  | .broadcast (some fd) | .run (.acquire fd) => some (.bare fd)
  | .run (.sendHello i fd) | .run (.recvHello i fd) | .run (.exchange i fd)
  | .run (.setReady i fd) | .run (.checkStop i fd) | .run (.recv i fd) | .run (.handle i fd)
  | .run (.takeSendLock i fd) | .run (.shutdown i fd) | .run (.close i fd) =>
    some (.owner i fd)
  | .run (.clear i) => some (.closed i)
  | _ => none

/-- The next slot of the sweep, for the thread that has it before it. -/
def sweepAt : Op → Option ℕ
  | .destroy .requestStop | .destroy .shutdownListener | .destroy .closeListener => some 0
  | .destroy (.sweep i) => some i
  | _ => none

lemma heads_roleOf : Heads program roleOf where
  next x o e r h := by cases does_of_exec h <;> rfl
  starts x o e r c h hc := by cases does_of_exec h <;> cases hc <;> rfl
  calls x c m c' h := by cases calls_of_call h <;> rfl

lemma heads_sweepAt : Heads program sweepAt where
  next x o e r h := by cases does_of_exec h <;> rfl
  starts x o e r c h hc := by cases does_of_exec h <;> cases hc <;> rfl
  calls x c m c' h := by cases calls_of_call h <;> rfl

/-- How many slots the sweep has passed. -/
def swept (x : Shutdown.State) : ℕ :=
  match x.mem.destroyer with
  | none => 0
  | some d => (places sweepAt x d).getD maxConnections

/-! ### What the claimed law speaks of -/

/-- A step of the sweep, or a thread that gets a slot. -/
inductive Event
  | acquire (i : ℕ)
  | sweep (i : ℕ)
  | other
  deriving DecidableEq

def eventOf (m : Transport) : Op → Event
  | .run (.acquire _) => (freeSlot m).elim .other .acquire
  | .destroy (.sweep i) => .sweep i
  | _ => .other

def event (x : Shutdown.State) : Shutdown.Label → Event
  | .call _ => .other
  | .run t _ =>
    match x.code t with
    | .op o :: _ => eventOf x.mem o
    | _ => .other

/-- The descriptor that a thread reads from. -/
def reads : Op → Option ℕ
  | .run (.recvHello _ fd) | .run (.exchange _ fd) | .run (.recv _ fd) => some fd
  | _ => none

/-- Every active slot has a socket that is shut down, and no thread waits for another one. -/
structure Hushed (x : Shutdown.State) : Prop where
  slots : ∀ i, (x.mem.slots i).active = true → x.mem.shut (x.mem.slots i).conn = true
  readers : ∀ t o k fd, x.code t = .op o :: k → reads o = some fd →
    ∃ c, x.mem.fds fd = some c ∧ x.mem.shut c = true

/-- The sweep leaves no live connection behind it, and shuts down no descriptor but that of the
slot's own connection. -/
structure Lawful (x : Shutdown.State) (l : Shutdown.Label) : Prop where
  hushed : ∀ y, Threads.step program x l = some y → swept y = maxConnections → Hushed y
  own : ∀ i, event x l = .sweep i → (x.mem.slots i).active = true →
    x.mem.fds (x.mem.slots i).fd = some (x.mem.slots i).conn

/-- No slot is acquired behind the sweep, and the sweep does not come to a slot between the
`close` of its teardown and the lock under which that clears `active`. -/
structure Quiet (x : Shutdown.State) (l : Shutdown.Label) : Prop where
  acquire : swept x = maxConnections → ∀ i, event x l ≠ .acquire i
  sweep : ∀ i, event x l = .sweep i → (x.mem.slots i).active = true →
    ∀ t k, x.code t ≠ .lock :: .op (.run (.clear i)) :: k

/-! ### The transport by roles -/

structure Occupancy where
  fd : ℕ
  active : Bool
  conn : ℕ

structure View where
  role : ℕ → Option Role
  slots : ℕ → Occupancy
  fds : ℕ → Option ℕ
  shut : ℕ → Bool
  opened : ℕ
  swept : ℕ

def occupancy (s : Shutdown.Slot) : Occupancy := ⟨s.fd, s.active, s.conn⟩

def viewOf (role : ℕ → Option Role) (m : Transport) (n : ℕ) : View where
  role := role
  slots i := occupancy (m.slots i)
  fds := m.fds
  shut := m.shut
  opened := m.opened
  swept := n

def view (x : Shutdown.State) : View := viewOf (places roleOf x) x.mem (swept x)

def View.setRole (v : View) (t : ℕ) (r : Option Role) : View :=
  { v with role := Function.update v.role t r }

def View.shutdownFd (v : View) (fd : ℕ) : View :=
  match v.fds fd with
  | none => v
  | some c => { v with shut := Function.update v.shut c true }

lemma View.shutdownFd_swept (v : View) (fd n : ℕ) :
    { v.shutdownFd fd with swept := n } = { v with swept := n }.shutdownFd fd := by
  unfold View.shutdownFd
  rcases h : v.fds fd with _ | c
  · rfl
  · rfl

/-- What a step does. -/
inductive Move (v : View) : Event → View → Prop
  | stay : Move v .other v
  | openFd {t fd : ℕ} : v.role t = none → v.fds fd = none →
      Move v .other { v.setRole t (some (.bare fd)) with
        fds := Function.update v.fds fd (some v.opened)
        opened := v.opened + 1 }
  | give {t u fd : ℕ} : v.role t = some (.bare fd) → v.role u = none → t ≠ u →
      Move v .other ((v.setRole t none).setRole u (some (.bare fd)))
  | closeFd {t fd : ℕ} : v.role t = some (.bare fd) →
      Move v .other { v.setRole t none with fds := Function.update v.fds fd none }
  | acquire {t fd i : ℕ} : v.role t = some (.bare fd) → (v.slots i).active = false →
      i < maxConnections → v.swept = 0 ∨ v.swept = maxConnections →
      Move v (.acquire i) { v.setRole t (some (.owner i fd)) with
        slots := Function.update v.slots i ⟨fd, true, (v.fds fd).getD 0⟩ }
  | shutdown {t i fd : ℕ} : v.role t = some (.owner i fd) → Move v .other (v.shutdownFd fd)
  | close {t i fd : ℕ} : v.role t = some (.owner i fd) →
      Move v .other { v.setRole t (some (.closed i)) with
        fds := Function.update v.fds fd none }
  | clear {t i : ℕ} : v.role t = some (.closed i) →
      Move v .other { v.setRole t none with
        slots := Function.update v.slots i { v.slots i with active := false } }
  | pass {i : ℕ} : v.swept = i → (v.slots i).active = false →
      Move v (.sweep i) { v with swept := i + 1 }
  | sweep {i : ℕ} : v.swept = i → (v.slots i).active = true →
      Move v (.sweep i) { v.shutdownFd (v.slots i).fd with swept := i + 1 }

/-- Descriptors and slots have one thread each; an open descriptor refers to a connection of its
own, and a slot to the connection it was acquired for. -/
structure Inv (v : View) : Prop where
  fd_unique : ∀ {t u r r' fd}, v.role t = some r → v.role u = some r' → r.fd = some fd →
    r'.fd = some fd → t = u
  slot_unique : ∀ {t u r r' i}, v.role t = some r → v.role u = some r' → r.slot = some i →
    r'.slot = some i → t = u
  bare : ∀ {t fd}, v.role t = some (.bare fd) → v.fds fd ≠ none
  owner : ∀ {t i fd}, v.role t = some (.owner i fd) →
    (v.slots i).active = true ∧ (v.slots i).fd = fd ∧ v.fds fd = some (v.slots i).conn
  closed : ∀ {t i}, v.role t = some (.closed i) →
    (v.slots i).active = true ∧ ∀ fd, v.fds fd ≠ some (v.slots i).conn
  owned : ∀ {i}, (v.slots i).active = true → ∃ t r, v.role t = some r ∧ r.slot = some i
  slot_lt : ∀ {i}, (v.slots i).active = true → i < maxConnections
  fd_inj : ∀ {fd fd' c}, v.fds fd = some c → v.fds fd' = some c → fd = fd'
  fd_lt : ∀ {fd c}, v.fds fd = some c → c < v.opened
  conn_lt : ∀ {i}, (v.slots i).active = true → (v.slots i).conn < v.opened
  shut_lt : ∀ {c}, v.shut c = true → c < v.opened

variable {v v' : View} {e : Event} {t u i fd c : ℕ} {r : Role}

/-! ### What keeps it -/

lemma Inv.fd_open (hi : Inv v) (h : v.role t = some r) (hr : r.fd = some fd) :
    v.fds fd ≠ none := by
  cases r with
  | bare f =>
    cases hr
    exact hi.bare h
  | owner i f =>
    cases hr
    simp [(hi.owner h).2.2]
  | closed i => cases hr

lemma Inv.slot_active (hi : Inv v) (h : v.role t = some r) (hr : r.slot = some i) :
    (v.slots i).active = true := by
  cases r with
  | bare f => cases hr
  | owner j f =>
    cases hr
    exact (hi.owner h).1
  | closed j =>
    cases hr
    exact (hi.closed h).1

lemma Inv.openFd (hi : Inv v) (ht : v.role t = none) (hfd : v.fds fd = none) :
    Inv { v.setRole t (some (.bare fd)) with
      fds := Function.update v.fds fd (some v.opened)
      opened := v.opened + 1 } := by
  have hopen : ∀ {u r}, v.role u = some r → r.fd ≠ some fd := fun h hr => hi.fd_open h hr hfd
  constructor <;> simp only [View.setRole, Function.update_apply]
  case fd_unique =>
    intro a b r r' f ha hb hr hr'
    have := @hi.fd_unique a b r r' f
    have := @hopen a r
    have := @hopen b r'
    grind [Role.fd]
  case slot_unique =>
    intro a b r r' i ha hb hr hr'
    have := @hi.slot_unique a b r r' i
    grind [Role.slot]
  case bare =>
    intro a f ha
    have := @hi.bare a f
    grind
  case owner =>
    intro a i f ha
    have := @hi.owner a i f
    grind
  case closed =>
    intro a i ha
    have := @hi.closed a i
    have := @hi.conn_lt i
    grind
  case owned =>
    intro i ha
    obtain ⟨a, r, hr, hs⟩ := hi.owned ha
    exact ⟨a, r, by grind, hs⟩
  case slot_lt => exact hi.slot_lt
  case fd_inj =>
    intro f f' c h h'
    have := @hi.fd_inj f f' c
    have := @hi.fd_lt f c
    have := @hi.fd_lt f' c
    grind
  case fd_lt =>
    intro f c h
    have := @hi.fd_lt f c
    grind
  case conn_lt =>
    intro i h
    exact Nat.lt_succ_of_lt (hi.conn_lt h)
  case shut_lt =>
    intro c h
    exact Nat.lt_succ_of_lt (hi.shut_lt h)

lemma Inv.give (hi : Inv v) (ht : v.role t = some (.bare fd)) (hu : v.role u = none) :
    Inv ((v.setRole t none).setRole u (some (.bare fd))) := by
  have hfd := hi.bare ht
  have hone : ∀ {a r}, v.role a = some r → r.fd = some fd → a = t :=
    fun h hr => hi.fd_unique h ht hr rfl
  constructor <;> simp only [View.setRole, Function.update_apply]
  case fd_unique =>
    intro a b r r' f ha hb hr hr'
    have := @hi.fd_unique a b r r' f
    have := @hone a r
    have := @hone b r'
    grind [Role.fd]
  case slot_unique =>
    intro a b r r' i ha hb hr hr'
    have := @hi.slot_unique a b r r' i
    grind [Role.slot]
  case bare =>
    intro a f ha
    have := @hi.bare a f
    grind
  case owner =>
    intro a i f ha
    have := @hi.owner a i f
    grind
  case closed =>
    intro a i ha
    have := @hi.closed a i
    grind
  case owned =>
    intro i ha
    obtain ⟨a, r, hr, hs⟩ := hi.owned ha
    exact ⟨a, r, by grind [Role.slot], hs⟩
  case slot_lt => exact hi.slot_lt
  case fd_inj => exact hi.fd_inj
  case fd_lt => exact hi.fd_lt
  case conn_lt => exact hi.conn_lt
  case shut_lt => exact hi.shut_lt

lemma Inv.closeFd (hi : Inv v) (ht : v.role t = some (.bare fd)) :
    Inv { v.setRole t none with fds := Function.update v.fds fd none } := by
  have hone : ∀ {a r}, v.role a = some r → r.fd = some fd → a = t :=
    fun h hr => hi.fd_unique h ht hr rfl
  constructor <;> simp only [View.setRole, Function.update_apply]
  case fd_unique =>
    intro a b r r' f ha hb hr hr'
    have := @hi.fd_unique a b r r' f
    grind
  case slot_unique =>
    intro a b r r' i ha hb hr hr'
    have := @hi.slot_unique a b r r' i
    grind
  case bare =>
    intro a f ha
    have := @hi.bare a f
    have := @hone a (.bare f)
    grind [Role.fd]
  case owner =>
    intro a i f ha
    have := @hi.owner a i f
    have := @hone a (.owner i f)
    grind [Role.fd]
  case closed =>
    intro a i ha
    have := @hi.closed a i
    grind
  case owned =>
    intro i ha
    obtain ⟨a, r, hr, hs⟩ := hi.owned ha
    exact ⟨a, r, by grind [Role.slot], hs⟩
  case slot_lt => exact hi.slot_lt
  case fd_inj =>
    intro f f' c h h'
    have := @hi.fd_inj f f' c
    grind
  case fd_lt =>
    intro f c h
    have := @hi.fd_lt f c
    grind
  case conn_lt => exact hi.conn_lt
  case shut_lt => exact hi.shut_lt

lemma Inv.acquire (hi : Inv v) (ht : v.role t = some (.bare fd))
    (hfree : (v.slots i).active = false) (hlt : i < maxConnections) :
    Inv { v.setRole t (some (.owner i fd)) with
      slots := Function.update v.slots i ⟨fd, true, (v.fds fd).getD 0⟩ } := by
  obtain ⟨c, hc⟩ := Option.ne_none_iff_exists'.mp (hi.bare ht)
  have hone : ∀ {a r}, v.role a = some r → r.fd = some fd → a = t :=
    fun h hr => hi.fd_unique h ht hr rfl
  have hno : ∀ {a r}, v.role a = some r → r.slot ≠ some i := by
    intro a r h hr
    rw [hi.slot_active h hr] at hfree
    cases hfree
  rw [hc, Option.getD_some]
  constructor <;> simp only [View.setRole, Function.update_apply]
  case fd_unique =>
    intro a b r r' f ha hb hr hr'
    have := @hi.fd_unique a b r r' f
    have := @hone a r
    have := @hone b r'
    grind [Role.fd]
  case slot_unique =>
    intro a b r r' j ha hb hr hr'
    have := @hi.slot_unique a b r r' j
    have := @hno a r
    have := @hno b r'
    grind [Role.slot]
  case bare =>
    intro a f ha
    have := @hi.bare a f
    grind
  case owner =>
    intro a j f ha
    have := @hi.owner a j f
    have := @hno a (.owner j f)
    grind [Role.slot]
  case closed =>
    intro a j ha
    have := @hi.closed a j
    have := @hno a (.closed j)
    grind [Role.slot]
  case owned =>
    intro j ha
    by_cases hj : j = i
    · exact ⟨t, .owner i fd, by simp, by rw [hj]; rfl⟩
    · rw [if_neg hj] at ha
      obtain ⟨a, r, hr, hs⟩ := hi.owned ha
      exact ⟨a, r, by grind [Role.slot], hs⟩
  case slot_lt =>
    intro j ha
    have := @hi.slot_lt j
    grind
  case fd_inj => exact hi.fd_inj
  case fd_lt => exact hi.fd_lt
  case conn_lt =>
    intro j ha
    have := @hi.conn_lt j
    have := hi.fd_lt hc
    grind
  case shut_lt => exact hi.shut_lt

lemma Inv.shutdownFd (hi : Inv v) (fd : ℕ) : Inv (v.shutdownFd fd) := by
  unfold View.shutdownFd
  split
  · exact hi
  · rename_i c hc
    refine { hi with shut_lt := ?_ }
    intro d hd
    simp only [Function.update_apply] at hd
    split_ifs at hd with he
    · subst he
      exact hi.fd_lt hc
    · exact hi.shut_lt hd

lemma Inv.close (hi : Inv v) (ht : v.role t = some (.owner i fd)) :
    Inv { v.setRole t (some (.closed i)) with fds := Function.update v.fds fd none } := by
  obtain ⟨hact, hsfd, hconn⟩ := hi.owner ht
  have hone : ∀ {a r}, v.role a = some r → r.fd = some fd → a = t :=
    fun h hr => hi.fd_unique h ht hr rfl
  have hslot : ∀ {a r}, v.role a = some r → r.slot = some i → a = t :=
    fun h hr => hi.slot_unique h ht hr rfl
  constructor <;> simp only [View.setRole, Function.update_apply]
  case fd_unique =>
    intro a b r r' f ha hb hr hr'
    have := @hi.fd_unique a b r r' f
    grind [Role.fd]
  case slot_unique =>
    intro a b r r' j ha hb hr hr'
    have := @hi.slot_unique a b r r' j
    have := @hslot a r
    have := @hslot b r'
    grind [Role.slot]
  case bare =>
    intro a f ha
    have := @hi.bare a f
    have := @hone a (.bare f)
    grind [Role.fd]
  case owner =>
    intro a j f ha
    have := @hi.owner a j f
    have := @hone a (.owner j f)
    grind [Role.fd]
  case closed =>
    intro a j ha
    have := @hi.closed a j
    have := @hi.fd_inj
    grind
  case owned =>
    intro j ha
    obtain ⟨a, r, hr, hs⟩ := hi.owned ha
    by_cases hat : a = t
    · subst hat
      obtain rfl : Role.owner i fd = r := Option.some.inj (ht.symm.trans hr)
      exact ⟨a, .closed i, by simp, hs⟩
    · exact ⟨a, r, by rw [if_neg hat, hr], hs⟩
  case slot_lt => exact hi.slot_lt
  case fd_inj =>
    intro f f' c h h'
    have := @hi.fd_inj f f' c
    grind
  case fd_lt =>
    intro f c h
    have := @hi.fd_lt f c
    grind
  case conn_lt => exact hi.conn_lt
  case shut_lt => exact hi.shut_lt

lemma Inv.clear (hi : Inv v) (ht : v.role t = some (.closed i)) :
    Inv { v.setRole t none with
      slots := Function.update v.slots i { v.slots i with active := false } } := by
  have hslot : ∀ {a r}, v.role a = some r → r.slot = some i → a = t :=
    fun h hr => hi.slot_unique h ht hr rfl
  constructor <;> simp only [View.setRole, Function.update_apply]
  case fd_unique =>
    intro a b r r' f ha hb hr hr'
    have := @hi.fd_unique a b r r' f
    grind
  case slot_unique =>
    intro a b r r' j ha hb hr hr'
    have := @hi.slot_unique a b r r' j
    grind
  case bare =>
    intro a f ha
    have := @hi.bare a f
    grind
  case owner =>
    intro a j f ha
    have := @hi.owner a j f
    have := @hslot a (.owner j f)
    grind [Role.slot]
  case closed =>
    intro a j ha
    have := @hi.closed a j
    have := @hslot a (.closed j)
    grind [Role.slot]
  case owned =>
    intro j ha
    have hj : j ≠ i := by
      rintro rfl
      simp at ha
    rw [if_neg hj] at ha
    obtain ⟨a, r, hr, hs⟩ := hi.owned ha
    exact ⟨a, r, by grind [Role.slot], hs⟩
  case slot_lt =>
    intro j ha
    have := @hi.slot_lt j
    grind
  case fd_inj => exact hi.fd_inj
  case fd_lt => exact hi.fd_lt
  case conn_lt =>
    intro j ha
    have := @hi.conn_lt j
    grind
  case shut_lt => exact hi.shut_lt

theorem Inv.step (hi : Inv v) (hm : Move v e v') : Inv v' := by
  cases hm with
  | stay => exact hi
  | openFd ht hfd => exact hi.openFd ht hfd
  | give ht hu _ => exact hi.give ht hu
  | closeFd ht => exact hi.closeFd ht
  | acquire ht hfree hlt _ => exact hi.acquire ht hfree hlt
  | shutdown _ => exact hi.shutdownFd _
  | close ht => exact hi.close ht
  | clear ht => exact hi.clear ht
  | pass _ _ => exact { hi with }
  | sweep _ _ => exact { hi.shutdownFd _ with }

/-! ### Steps as moves -/

/-- What holds of the code of the threads in every run. -/
structure Good (x : Shutdown.State) : Prop where
  fresh : Fresh x
  balanced : Balanced sides x
  headed : ∀ t, Headed roleOf (x.code t)
  sweepHeaded : ∀ t, Headed sweepAt (x.code t)
  clearing : ∀ t i, places roleOf x t = some (.closed i) →
    ∃ k, x.code t = .lock :: .op (.run (.clear i)) :: k ∨ x.code t = .op (.run (.clear i)) :: k
  sweeping : ∀ t i, places sweepAt x t = some (i + 1) →
    ∃ k, x.code t = .op (.destroy (.sweep (i + 1))) :: k
  sweeper : ∀ t i, places sweepAt x t = some i → x.mem.destroyer = some t ∧ i < maxConnections

variable {x y : Shutdown.State} {l : Shutdown.Label} {o : Op} {r : Shutdown.Effect}
  {oc : Outcome} {k : Code}

lemma next_closed {i : ℕ} (h : Does x o r) (hr : role roleOf r.next = some (.closed i)) :
    r.next = [.lock, .op (.run (.clear i))] := by
  cases h with
  | close =>
    cases hr
    rfl
  | @decrement fd => cases fd <;> cases hr
  | _ => cases hr

lemma next_sweep {i : ℕ} (h : Does x o r) (hr : role sweepAt r.next = some (i + 1)) :
    r.next = [.op (.destroy (.sweep (i + 1)))] := by
  cases h with
  | sweep _ =>
    cases hr
    rfl
  | _ => cases hr

/-- Only a thread that is in front of the sweep or in it comes to a slot, and to a slot that
there is. -/
lemma next_sweeper {i : ℕ} (h : Does x o r) (hr : role sweepAt r.next = some i) :
    sweepAt o ≠ none ∧ i < maxConnections := by
  cases h with
  | sweep hlt =>
    cases hr
    exact ⟨by simp [sweepAt], hlt⟩
  | requestStop | shutdownListener | closeListener =>
    cases hr
    exact ⟨by simp [sweepAt], by decide⟩
  | _ => cases hr

lemma starts_silent {c : Kind × Code} (h : Does x o r) (hc : r.starts = some c) :
    role sweepAt c.2 = none ∧ ∀ i, role roleOf c.2 ≠ some (.closed i) := by
  cases h <;> cases hc <;> exact ⟨rfl, fun _ h => by cases h⟩

lemma calls_silent {c : Call} {m : Transport} {c' : Kind × Code} (h : Calls x c m c') :
    role roleOf c'.2 = none ∧ ∀ i, role sweepAt c'.2 = some i → i = 0 := by
  cases h with
  | destroy =>
    refine ⟨rfl, fun i hi => ?_⟩
    cases hi
    rfl
  | _ => exact ⟨rfl, fun i hi => by cases hi⟩

lemma Good.clearing_step (hg : Good x) (h : Threads.step program x l = some y) (t i : ℕ)
    (ht : places roleOf y t = some (.closed i)) :
    ∃ k, y.code t = .lock :: .op (.run (.clear i)) :: k ∨
      y.code t = .op (.run (.clear i)) :: k := by
  refine code_step (P := program) (fun _ _ c => role roleOf c = some (.closed i) →
    ∃ k, c = .lock :: .op (.run (.clear i)) :: k ∨ c = .op (.run (.clear i)) :: k)
    (fun u => hg.clearing u i) ?_ ?_ ?_ ?_ ?_ h t ht
  · intro u k hu hr
    obtain ⟨k', hk | hk⟩ := hg.clearing u i (by rw [places, hu]; exact hr)
    · rw [hu] at hk
      cases hk
      exact ⟨k', .inr rfl⟩
    · cases hu.symm.trans hk
  · intro u k hu hr
    obtain ⟨k', hk | hk⟩ := hg.clearing u i (by rw [places, hu]; exact hr)
    · cases hu.symm.trans hk
    · cases hu.symm.trans hk
  · intro u o k e r hu hex hr
    have hh := hg.headed u
    rw [hu] at hh
    rw [hh.role_next] at hr
    rw [next_closed (does_of_exec hex) hr]
    exact ⟨k, .inl rfl⟩
  · intro _ o _ e r c _ hex hc hr
    exact absurd hr ((starts_silent (does_of_exec hex) hc).2 i)
  · intro c m c' hc hr
    rw [(calls_silent (calls_of_call hc)).1] at hr
    cases hr

lemma Good.sweeping_step (hg : Good x) (h : Threads.step program x l = some y) (t i : ℕ)
    (ht : places sweepAt y t = some (i + 1)) :
    ∃ k, y.code t = .op (.destroy (.sweep (i + 1))) :: k := by
  refine code_step (P := program) (fun _ _ c => role sweepAt c = some (i + 1) →
    ∃ k, c = .op (.destroy (.sweep (i + 1))) :: k)
    (fun u => hg.sweeping u i) ?_ ?_ ?_ ?_ ?_ h t ht
  · intro u k hu hr
    obtain ⟨k', hk⟩ := hg.sweeping u i (by rw [places, hu]; exact hr)
    cases hu.symm.trans hk
  · intro u k hu hr
    obtain ⟨k', hk⟩ := hg.sweeping u i (by rw [places, hu]; exact hr)
    cases hu.symm.trans hk
  · intro u o k e r hu hex hr
    have hh := hg.sweepHeaded u
    rw [hu] at hh
    rw [hh.role_next] at hr
    rw [next_sweep (does_of_exec hex) hr]
    exact ⟨k, rfl⟩
  · intro _ o _ e r c _ hex hc hr
    rw [(starts_silent (does_of_exec hex) hc).1] at hr
    cases hr
  · intro c m c' hc hr
    exact absurd ((calls_silent (calls_of_call hc)).2 _ hr) (Nat.succ_ne_zero i)

lemma Good.sweeper_step (hg : Good x) (h : Threads.step program x l = some y) (t i : ℕ)
    (ht : places sweepAt y t = some i) : y.mem.destroyer = some t ∧ i < maxConnections := by
  cases steps_of_step h with
  | @locks u e k hu _ =>
    exact hg.sweeper t i (by rw [← places_lock hu]; exact ht)
  | @unlocks u e k hu =>
    exact hg.sweeper t i (by rw [← places_unlock hu]; exact ht)
  | @runs u e o k r hu hex =>
    have hd := does_of_exec hex
    rw [apply_mem, destroyer_does hd]
    have hnext : places sweepAt x t = some i ∨ t = u ∧ role sweepAt r.next = some i := by
      rcases hst : r.starts with _ | c
      · rw [places_apply hg.sweepHeaded hu hst, Function.update_apply] at ht
        split_ifs at ht with he
        · exact .inr ⟨he, ht⟩
        · exact .inl ht
      · rw [places_apply_starts hg.sweepHeaded hu hst, (starts_silent hd hst).1,
          Function.update_apply, Function.update_apply] at ht
        split_ifs at ht with he he'
        · exact .inr ⟨he', ht⟩
        · exact .inl ht
    rcases hnext with hx | ⟨rfl, hx⟩
    · exact hg.sweeper t i hx
    · obtain ⟨hne, hlt⟩ := next_sweeper hd hx
      obtain ⟨j, hj⟩ := Option.ne_none_iff_exists'.mp hne
      exact ⟨(hg.sweeper t j (by rw [places_op hg.sweepHeaded hu, hj])).1, hlt⟩
  | @calls c m c' hca =>
    have hc := calls_of_call hca
    have hp : places sweepAt (x.start c') t = some i := ht
    rw [places_start, Function.update_apply] at hp
    change m.destroyer = some t ∧ _
    split_ifs at hp with he
    · cases hc with
      | destroy =>
        cases hp
        exact ⟨by rw [he], by decide⟩
      | _ => cases hp
    · have hx := hg.sweeper t i hp
      cases hc with
      | destroy _ hnone _ =>
        rw [hnone] at hx
        cases hx.1
      | _ => exact hx

lemma Good.step (hg : Good x) (h : Threads.step program x l = some y) : Good y where
  fresh := hg.fresh.step h
  balanced := hg.balanced.step disciplined hg.fresh h
  headed := headed_step heads_roleOf hg.headed h
  sweepHeaded := headed_step heads_sweepAt hg.sweepHeaded h
  clearing := hg.clearing_step h
  sweeping := hg.sweeping_step h
  sweeper := hg.sweeper_step h

lemma good_initial : Good initial where
  fresh _ _ := rfl
  balanced _ := rfl
  headed _ := rfl
  sweepHeaded _ := rfl
  clearing _ _ h := by cases h
  sweeping _ _ h := by cases h
  sweeper _ _ h := by cases h

/-! #### The view after a step -/

lemma swept_congr (hd : y.mem.destroyer = x.mem.destroyer)
    (hp : places sweepAt y = places sweepAt x) : swept y = swept x := by
  unfold swept
  rw [hd, hp]

lemma swept_apply (hg : Good x) (ht : x.code t = .op o :: k) (h : Does x o r)
    (hs : role sweepAt r.next = sweepAt o) : swept (x.apply t k r) = swept x := by
  refine swept_congr (by rw [apply_mem, destroyer_does h]) ?_
  rcases hst : r.starts with _ | c
  · exact places_stay hg.sweepHeaded ht hst hs
  · have hnew : places sweepAt x x.count = none := places_fresh hg.fresh (Nat.le_refl _)
    rw [places_apply_starts hg.sweepHeaded ht hst, hs, ← places_op hg.sweepHeaded ht,
      Function.update_eq_self, (starts_silent h hst).1, ← hnew, Function.update_eq_self]

lemma view_apply (hg : Good x) (ht : x.code t = .op o :: k) (h : Does x o r)
    (hst : r.starts = none) (hs : role sweepAt r.next = sweepAt o) :
    view (x.apply t k r) =
      viewOf (Function.update (places roleOf x) t (role roleOf r.next)) r.mem (swept x) := by
  rw [view, swept_apply hg ht h hs, apply_mem, places_apply hg.headed ht hst]

lemma view_apply_same (hg : Good x) (ht : x.code t = .op o :: k) (h : Does x o r)
    (hst : r.starts = none) (hs : role sweepAt r.next = sweepAt o)
    (hr : role roleOf r.next = roleOf o) :
    view (x.apply t k r) = viewOf (places roleOf x) r.mem (swept x) := by
  rw [view_apply hg ht h hst hs, hr, ← places_op hg.headed ht, Function.update_eq_self]

/-- A step inside a role is not seen. -/
lemma Move.of_same (hg : Good x) (ht : x.code t = .op o :: k) (h : Does x o r)
    (hst : r.starts = none) (hs : role sweepAt r.next = sweepAt o)
    (hr : role roleOf r.next = roleOf o)
    (hm : ∀ n, viewOf (places roleOf x) r.mem n = viewOf (places roleOf x) x.mem n) :
    Move (view x) .other (view (x.apply t k r)) := by
  rw [view_apply_same hg ht h hst hs hr, hm]
  exact .stay

lemma viewOf_setSlot (f : ℕ → Option Role) (m : Transport) (i n : ℕ) (s : Shutdown.Slot) :
    viewOf f (m.setSlot i s) n = { viewOf f m n with
      slots := Function.update (viewOf f m n).slots i (occupancy s) } := by
  have hslots : (fun j => occupancy ((m.setSlot i s).slots j)) =
      Function.update (fun j => occupancy (m.slots j)) i (occupancy s) := by
    funext j
    simp only [Transport.setSlot, Function.update_apply]
    split_ifs <;> rfl
  rw [viewOf, hslots]
  rfl

lemma viewOf_setSlot_same (f : ℕ → Option Role) (m : Transport) (i n : ℕ) (s : Shutdown.Slot)
    (h : occupancy s = occupancy (m.slots i)) : viewOf f (m.setSlot i s) n = viewOf f m n := by
  have hsame : Function.update (viewOf f m n).slots i (occupancy s) = (viewOf f m n).slots := by
    rw [h]
    exact Function.update_eq_self i _
  rw [viewOf_setSlot, hsame]

lemma viewOf_shutdownFd (f : ℕ → Option Role) (m : Transport) (fd n : ℕ) :
    viewOf f (m.shutdownFd fd) n = (viewOf f m n).shutdownFd fd := by
  rcases h : m.fds fd with _ | c
  · have h' : (viewOf f m n).fds fd = none := h
    rw [Transport.shutdownFd, View.shutdownFd, h, h']
  · have h' : (viewOf f m n).fds fd = some c := h
    rw [Transport.shutdownFd, View.shutdownFd, h, h']
    rfl

/-- The lock is not seen. -/
lemma view_goto (b : Option ℕ) (hr : places roleOf (x.goto t k) = places roleOf x)
    (hs : places sweepAt (x.goto t k) = places sweepAt x) :
    view { x.goto t k with lock := b } = view x := by
  have hsw : swept { x.goto t k with lock := b } = swept x := swept_congr rfl hs
  have hpl : places roleOf { x.goto t k with lock := b } = places roleOf x := hr
  rw [view, hsw, hpl]
  rfl

/-- New code of a thread without a role is not seen. -/
lemma view_start (hg : Good x) {c : Kind × Code} {m : Transport} (hr : role roleOf c.2 = none)
    (hm : ∀ n, viewOf (places roleOf x) m n = viewOf (places roleOf x) x.mem n)
    (hsw : swept { x.start c with mem := m } = swept x) :
    view { x.start c with mem := m } = view x := by
  have hnew : places roleOf x x.count = none := places_fresh hg.fresh (Nat.le_refl _)
  have hpl : places roleOf { x.start c with mem := m } = places roleOf x := by
    change places roleOf (x.start c) = _
    rw [places_start, hr, ← hnew, Function.update_eq_self]
  rw [view, hsw, hpl]
  exact hm _

lemma swept_call (hg : Good x) {c : Shutdown.Call} {c' : Kind × Code} {m : Transport}
    (h : Calls x c m c') : swept { x.start c' with mem := m } = swept x := by
  have hnew : places sweepAt x x.count = none := places_fresh hg.fresh (Nat.le_refl _)
  cases h with
  | destroy _ hnone _ =>
    have hp : places sweepAt (x.start (.destroy, destroyCode)) x.count = some 0 := by
      rw [places_start, Function.update_self]
      rfl
    change ((places sweepAt (x.start (.destroy, destroyCode)) x.count).getD _ : ℕ) = swept x
    rw [hp, swept, hnone]
    rfl
  | create | addPeer =>
    refine swept_congr rfl ?_
    refine (places_start _).trans ?_
    change Function.update (places sweepAt x) x.count none = _
    rw [← hnew, Function.update_eq_self]

/-- The thread that starts a handler hands its descriptor over to it. -/
lemma startHandler_move (hg : Good x) {fd : ℕ}
    (ht : x.code t = .op (.accept (.createHandler fd)) :: k)
    (h : Does x (.accept (.createHandler fd)) r)
    (hst : r.starts = some (.handler, acceptConnThreadMain fd)) (hn : r.next = acceptLoop)
    (hm : r.mem = x.mem) : Move (view x) .other (view (x.apply t k r)) := by
  have hpl : (view x).role t = some (.bare fd) := places_op hg.headed ht
  have hnew : (view x).role x.count = none := places_fresh hg.fresh (Nat.le_refl _)
  have hne : t ≠ x.count := (hg.fresh.lt (by simp [ht])).ne
  have hv : view (x.apply t k r) =
      ((view x).setRole t none).setRole x.count (some (.bare fd)) := by
    rw [view, swept_apply hg ht h (by rw [hn]; rfl), apply_mem, hm,
      places_apply_starts hg.headed ht hst, hn]
    rfl
  rw [hv]
  exact .give hpl hnew hne

/-- The sweep goes on by one slot. -/
lemma sweep_move (hg : Good x) {i : ℕ} (ht : x.code t = .op (.destroy (.sweep i)) :: k)
    (h : Does x (.destroy (.sweep i)) r) (hst : r.starts = none) (hm : r.mem = sweepSlot x.mem i)
    (hr : role roleOf r.next = none)
    (hs : (role sweepAt r.next).getD maxConnections = i + 1) :
    Move (view x) (.sweep i) (view (x.apply t k r)) := by
  have hat : places sweepAt x t = some i := places_op hg.sweepHeaded ht
  obtain ⟨hd, -⟩ := hg.sweeper t i hat
  have hsw : (view x).swept = i := by
    change swept x = i
    unfold swept
    rw [hd]
    exact congrArg (Option.getD · maxConnections) hat
  have hsw' : swept (x.apply t k r) = i + 1 := by
    unfold swept
    rw [apply_mem, destroyer_does h, hd, places_apply hg.sweepHeaded ht hst]
    simp only [Function.update_self, hs]
  have hpl : places roleOf (x.apply t k r) = places roleOf x := places_stay hg.headed ht hst hr
  have hv : view (x.apply t k r) = viewOf (places roleOf x) (sweepSlot x.mem i) (i + 1) := by
    rw [view, hsw', hpl, apply_mem, hm]
  rw [hv, sweepSlot]
  split_ifs with hact
  · rw [viewOf_shutdownFd]
    refine cast ?_ (Move.sweep hsw hact)
    rw [View.shutdownFd_swept]
    rfl
  · exact .pass hsw (eq_false_of_ne_true hact)

lemma startThread_move (hg : Good x) {c : Kind × Code} (ht : x.code t = .op o :: k)
    (h : Does x o r) (hst : r.starts = some c) (hs : role sweepAt r.next = sweepAt o)
    (hr : role roleOf r.next = roleOf o) (hc : role roleOf c.2 = none) (hm : r.mem = x.mem) :
    Move (view x) .other (view (x.apply t k r)) := by
  have hnew : places roleOf x x.count = none := places_fresh hg.fresh (Nat.le_refl _)
  have hv : view (x.apply t k r) = view x := by
    rw [view, swept_apply hg ht h hs, apply_mem, hm, places_apply_starts hg.headed ht hst, hr, hc,
      ← places_op hg.headed ht, Function.update_eq_self, ← hnew, Function.update_eq_self]
    rfl
  rw [hv]
  exact .stay

/-- A slot is acquired while the sweep has not begun, or behind it: its thread has the lock. -/
lemma acquire_move (hg : Good x) {fd i : ℕ} (ht : x.code t = .op (.run (.acquire fd)) :: k)
    (h : Does x (.run (.acquire fd)) r) (hfree : freeSlot x.mem = some i) (hst : r.starts = none)
    (hs : role sweepAt r.next = none) (hr : role roleOf r.next = some (.owner i fd))
    (hm : r.mem = x.mem.setSlot i { x.mem.slots i with
      fd := fd, active := true, ready := false, conn := (x.mem.fds fd).getD 0 }) :
    Move (view x) (.acquire i) (view (x.apply t k r)) := by
  have hpl : (view x).role t = some (.bare fd) := places_op hg.headed ht
  have hact : (x.mem.slots i).active = false := by
    simpa using List.find?_some hfree
  have hlt : i < maxConnections := List.mem_range.mp (List.mem_of_find?_eq_some hfree)
  have hsw : (view x).swept = 0 ∨ (view x).swept = maxConnections := by
    change swept x = 0 ∨ swept x = maxConnections
    unfold swept
    rcases hd : x.mem.destroyer with _ | d
    · exact .inl rfl
    · rcases hp : places sweepAt x d with _ | _ | j
      · exact .inr (congrArg (Option.getD · maxConnections) hp)
      · exact .inl (congrArg (Option.getD · maxConnections) hp)
      · obtain ⟨k', hk'⟩ := hg.sweeping d j hp
        have htd : t = d := hg.balanced.unique ht hk' rfl rfl
        rw [htd, hk'] at ht
        cases ht
  have hv : view (x.apply t k r) = { (view x).setRole t (some (.owner i fd)) with
      slots := Function.update (view x).slots i ⟨fd, true, ((view x).fds fd).getD 0⟩ } := by
    rw [view_apply hg ht h hst hs, hr, hm, viewOf_setSlot]
    rfl
  rw [hv]
  exact .acquire hpl hact hlt hsw

lemma runs_move (hg : Good x) (ht : x.code t = .op o :: k) (h : Does x o r) :
    Move (view x) (eventOf x.mem o) (view (x.apply t k r)) := by
  have hpl : (view x).role t = roleOf o := places_op hg.headed ht
  have hd := h
  cases h with
  | startAccept | startDial => exact startThread_move hg ht hd rfl rfl rfl rfl rfl
  | startHandler => exact startHandler_move hg ht hd rfl rfl rfl
  | socket hfd | accept hfd =>
    rw [view_apply hg ht hd rfl rfl]
    exact .openFd hpl hfd
  | closeFd =>
    rw [view_apply hg ht hd rfl rfl]
    exact .closeFd hpl
  | refuse hfull =>
    rw [eventOf, hfull]
    exact .of_same hg ht hd rfl rfl rfl fun _ => rfl
  | acquire hfree =>
    rw [eventOf, hfree]
    exact acquire_move hg ht hd hfree rfl rfl rfl rfl
  | setReady | takeSendLock | dropSendLock =>
    exact .of_same hg ht hd rfl rfl rfl fun _ => viewOf_setSlot_same _ _ _ _ _ rfl
  | register =>
    refine .of_same hg ht hd rfl rfl rfl fun _ => ?_
    simp only [registerThread]
    split <;> rfl
  | @decrement fd => exact .of_same hg ht hd rfl rfl (by cases fd <;> rfl) fun _ => rfl
  | shutdown =>
    rw [view_apply_same hg ht hd rfl rfl rfl, viewOf_shutdownFd]
    exact .shutdown hpl
  | close =>
    rw [view_apply hg ht hd rfl rfl]
    exact .close hpl
  | clear =>
    rw [view_apply hg ht hd rfl rfl, viewOf_setSlot]
    exact .clear hpl
  | sweep _ => exact sweep_move hg ht hd rfl rfl rfl rfl
  | @lastSweep i hle =>
    have hlt := (hg.sweeper t i (places_op hg.sweepHeaded ht)).2
    exact sweep_move hg ht hd rfl rfl rfl (Nat.le_antisymm hle hlt)
  | _ => exact .of_same hg ht hd rfl rfl rfl fun _ => rfl

/-- **Every step is a move.** -/
theorem step_move (hg : Good x) (h : Threads.step program x l = some y) :
    Move (view x) (event x l) (view y) := by
  cases steps_of_step h with
  | @locks t e k ht _ =>
    have hev : event x (.run t e) = .other := by simp only [event, ht]
    rw [hev, view_goto _ (places_lock ht) (places_lock ht)]
    exact .stay
  | @unlocks t e k ht =>
    have hev : event x (.run t e) = .other := by simp only [event, ht]
    rw [hev, view_goto _ (places_unlock ht) (places_unlock ht)]
    exact .stay
  | @runs t e o k r ht hex =>
    have hev : event x (.run t e) = eventOf x.mem o := by simp only [event, ht]
    rw [hev]
    exact runs_move hg ht (does_of_exec hex)
  | @calls c m c' hca =>
    have hc := calls_of_call hca
    have hv := view_start hg (calls_silent hc).1 (fun n => by cases hc <;> rfl) (swept_call hg hc)
    rw [event, hv]
    exact .stay

/-! ### Behind the sweep -/

/-- The sweep comes to the connection that the slot was acquired for. -/
def Own (v : View) (e : Event) : Prop :=
  ∀ i, e = .sweep i → (v.slots i).active = true → v.fds (v.slots i).fd = some (v.slots i).conn

/-- A connection that has no slot yet is not shut down. -/
def Loud (v : View) : Prop :=
  ∀ t fd c, v.role t = some (.bare fd) → v.fds fd = some c → v.shut c = false

/-- What the sweep has passed is shut down. -/
def Passed (v : View) : Prop :=
  ∀ i < v.swept, (v.slots i).active = true → v.shut (v.slots i).conn = true

lemma shutdownFd_shut (v : View) (fd c : ℕ) :
    (v.shutdownFd fd).shut c = true ↔ v.shut c = true ∨ v.fds fd = some c := by
  unfold View.shutdownFd
  rcases h : v.fds fd with _ | d
  · simp
  · simp only [Function.update_apply, Option.some.injEq]
    by_cases hcd : c = d
    · simp [hcd]
    · simp [hcd, Ne.symm hcd]

lemma role_shutdownFd (v : View) (fd : ℕ) : (v.shutdownFd fd).role = v.role := by
  unfold View.shutdownFd
  split <;> rfl

lemma fds_shutdownFd (v : View) (fd : ℕ) : (v.shutdownFd fd).fds = v.fds := by
  unfold View.shutdownFd
  split <;> rfl

lemma slots_shutdownFd (v : View) (fd : ℕ) : (v.shutdownFd fd).slots = v.slots := by
  unfold View.shutdownFd
  split <;> rfl

lemma swept_shutdownFd (v : View) (fd : ℕ) : (v.shutdownFd fd).swept = v.swept := by
  unfold View.shutdownFd
  split <;> rfl

/-- Shutting down one connection leaves the others as they are. -/
lemma Loud.shutdownFd (hl : Loud v)
    (h : ∀ t f c, v.role t = some (.bare f) → v.fds f = some c → v.fds fd ≠ some c) :
    Loud (v.shutdownFd fd) := by
  intro t f c ht hc
  rw [role_shutdownFd] at ht
  rw [fds_shutdownFd] at hc
  rw [← Bool.not_eq_true, shutdownFd_shut, not_or]
  exact ⟨by simp [hl t f c ht hc], h t f c ht hc⟩

/-- The descriptor of a slot is no descriptor of a thread without a slot. -/
lemma Inv.bare_ne_owner (hi : Inv v) {f : ℕ} (ht : v.role t = some (.bare f))
    (hu : v.role u = some (.owner i fd)) : f ≠ fd := by
  rintro rfl
  obtain rfl := hi.fd_unique ht hu rfl rfl
  cases ht.symm.trans hu

/-- **Until the sweep shuts down a foreign descriptor, a connection without a slot is live.** -/
lemma Loud.step (hi : Inv v) (hl : Loud v) (hm : Move v e v') (hown : Own v e) : Loud v' := by
  cases hm with
  | stay => exact hl
  | openFd ht hfd =>
    intro u f c hu hc
    have := hl u f c
    have := @hi.shut_lt c
    simp only [View.setRole, Function.update_apply] at hu hc ⊢
    grind
  | @give t w fd ht hw _ =>
    intro u f c hu hc
    have := hl u f c
    have := hl t f c
    simp only [View.setRole, Function.update_apply] at hu hc ⊢
    grind
  | closeFd ht | acquire ht _ _ _ | close ht | clear ht =>
    intro u f c hu hc
    have := hl u f c
    simp only [View.setRole, Function.update_apply] at hu hc ⊢
    grind
  | @shutdown t i fd ht =>
    refine hl.shutdownFd fun u f c hu hc hfd => hi.bare_ne_owner hu ht ?_
    exact hi.fd_inj hc hfd
  | pass _ _ => exact hl
  | @sweep i hsw hact =>
    have hconn := hown i rfl hact
    refine hl.shutdownFd fun u f c hu hc hfd => ?_
    obtain ⟨w, r, hw, hr⟩ := hi.owned hact
    cases r with
    | bare f' => cases hr
    | owner j f' =>
      cases hr
      refine hi.bare_ne_owner hu hw ?_
      rw [← (hi.owner hw).2.1]
      exact hi.fd_inj hc hfd
    | closed j =>
      cases hr
      exact (hi.closed hw).2 _ hconn

/-- **What the sweep has passed stays shut down**, if no slot is acquired behind it. -/
lemma Passed.step (hp : Passed v) (hm : Move v e v') (hown : Own v e)
    (hacq : v.swept = maxConnections → ∀ i, e ≠ .acquire i) : Passed v' := by
  cases hm with
  | stay | openFd _ _ | give _ _ _ | closeFd _ | close _ => exact hp
  | acquire ht hfree hlt hsw =>
    rcases hsw with hsw | hsw
    · intro j hj
      change j < v.swept at hj
      rw [hsw] at hj
      exact absurd hj (Nat.not_lt_zero j)
    · exact absurd rfl (hacq hsw _)
  | @shutdown t i fd ht =>
    intro j hj ha
    rw [swept_shutdownFd] at hj
    rw [slots_shutdownFd] at ha ⊢
    exact (shutdownFd_shut ..).mpr (.inl (hp j hj ha))
  | @clear t i ht =>
    intro j hj ha
    have := hp j hj
    simp only [View.setRole, Function.update_apply] at ha ⊢
    grind
  | @pass i hsw hact =>
    intro j hj ha
    have := hp j
    have : j ≠ i := by
      rintro rfl
      cases hact.symm.trans ha
    grind
  | @sweep i hsw hact =>
    intro j hj ha
    change ((v.shutdownFd (v.slots i).fd).slots j).active = true at ha
    change (v.shutdownFd (v.slots i).fd).shut ((v.shutdownFd (v.slots i).fd).slots j).conn = true
    rw [slots_shutdownFd] at ha ⊢
    rw [shutdownFd_shut]
    by_cases hji : j = i
    · exact .inr (hji ▸ hown i rfl hact)
    · refine .inl (hp j ?_ ha)
      change j < i + 1 at hj
      omega

/-- A slot that is acquired has a live connection. -/
lemma Loud.acquire (hi : Inv v) (hl : Loud v) (hm : Move v (.acquire i) v') :
    (v'.slots i).active = true ∧ v'.shut (v'.slots i).conn = false ∧ v'.swept = v.swept := by
  cases hm with
  | @acquire t fd _ ht _ _ _ =>
    obtain ⟨c, hc⟩ := Option.ne_none_iff_exists'.mp (hi.bare ht)
    simp only [Function.update_self, hc, Option.getD_some, View.setRole]
    exact ⟨trivial, hl t fd c ht hc, trivial⟩

/-! ### Runs -/

lemma inv_initial : Inv (view initial) where
  fd_unique h := by cases h
  slot_unique h := by cases h
  bare h := by cases h
  owner h := by cases h
  closed h := by cases h
  owned h := by cases h
  slot_lt h := by cases h
  fd_inj h := by cases h
  fd_lt h := by cases h
  conn_lt h := by cases h
  shut_lt h := by cases h

variable {h : List (Shutdown.State × Shutdown.Label)}

theorem run_good (hr : Run system h x) : Good x ∧ Inv (view x) := by
  refine hr.inv (fun x => Good x ∧ Inv (view x)) ?_ ?_
  · rintro _ rfl
    exact ⟨good_initial, inv_initial⟩
  · rintro x l y ⟨hg, hi⟩ hst
    exact ⟨hg.step hst, hi.step (step_move hg hst)⟩

lemma run_loud (hr : Run system h x) (hown : ∀ p ∈ h, Own (view p.1) (event p.1 p.2)) :
    Loud (view x) := by
  refine (hr.inv_of_ok (fun x l => Own (view x) (event x l))
    (fun x => Good x ∧ Inv (view x) ∧ Loud (view x)) ?_ ?_ hown).2.2
  · rintro _ rfl
    exact ⟨good_initial, inv_initial, fun _ _ _ h => by cases h⟩
  · rintro x l y ⟨hg, hi, hl⟩ ho hst
    have hm := step_move hg hst
    exact ⟨hg.step hst, hi.step hm, hl.step hi hm ho⟩

lemma run_passed (hr : Run system h x) (hown : ∀ p ∈ h, Own (view p.1) (event p.1 p.2))
    (hacq : ∀ p ∈ h, swept p.1 = maxConnections → ∀ i, event p.1 p.2 ≠ .acquire i) :
    Passed (view x) := by
  refine (hr.inv_of_ok (fun x l => Own (view x) (event x l) ∧
    (swept x = maxConnections → ∀ i, event x l ≠ .acquire i))
    (fun x => Good x ∧ Passed (view x)) ?_ ?_ fun p hp => ⟨hown p hp, hacq p hp⟩).2
  · rintro _ rfl
    exact ⟨good_initial, fun i hi => absurd hi (Nat.not_lt_zero i)⟩
  · rintro x l y ⟨hg, hp⟩ ⟨ho, ha⟩ hst
    exact ⟨hg.step hst, hp.step (step_move hg hst) ho ha⟩

/-- The step of the sweep, read back from the event. -/
lemma event_sweep {i : ℕ} (he : event x l = .sweep i) :
    ∃ d k, x.code d = .op (.destroy (.sweep i)) :: k := by
  cases l with
  | call c => cases he
  | run t e =>
    simp only [event] at he
    split at he
    · rename_i o k ht
      unfold eventOf at he
      split at he
      · rcases hf : freeSlot x.mem with _ | j
        · rw [hf] at he
          cases he
        · rw [hf] at he
          cases he
      · cases he
        exact ⟨t, k, ht⟩
      · cases he
    · cases he

/-- The sweep keeps to the slot's own descriptor exactly where no teardown has closed it. -/
lemma own_iff (hg : Good x) (hi : Inv (view x)) : Own (view x) (event x l) ↔
    ∀ i, event x l = .sweep i → (x.mem.slots i).active = true →
      ∀ t k, x.code t ≠ .lock :: .op (.run (.clear i)) :: k := by
  constructor
  · intro hown i he hact t k ht
    have hpl : (view x).role t = some (.closed i) := by
      change places roleOf x t = _
      rw [places, ht]
      rfl
    exact (hi.closed hpl).2 _ (hown i he hact)
  · intro hq i he hact
    obtain ⟨t, r, ht, hr⟩ := hi.owned hact
    cases r with
    | bare f => cases hr
    | owner j f =>
      cases hr
      obtain ⟨-, hfd, hopen⟩ := hi.owner ht
      rw [hfd]
      exact hopen
    | closed j =>
      cases hr
      obtain ⟨k, hk | hk⟩ := hg.clearing t i ht
      · exact absurd hk (hq i he hact t k)
      · -- the thread of the sweep has the lock
        obtain ⟨d, k', hd⟩ := event_sweep he
        have htd : t = d := hg.balanced.unique hk hd rfl rfl
        rw [htd, hd] at hk
        cases hk

lemma roleOf_reads {o : Op} (h : reads o = some fd) : ∃ i, roleOf o = some (.owner i fd) := by
  unfold reads at h
  split at h <;> cases h
  all_goals exact ⟨_, rfl⟩

lemma hushed_of_passed (hg : Good x) (hi : Inv (view x)) (hp : Passed (view x))
    (hsw : swept x = maxConnections) : Hushed x := by
  have hslots : ∀ i, (x.mem.slots i).active = true → x.mem.shut (x.mem.slots i).conn = true := by
    intro i hact
    have hlt : i < swept x := hsw ▸ hi.slot_lt hact
    exact hp i hlt hact
  refine ⟨hslots, fun t o k fd ht ho => ?_⟩
  obtain ⟨i, hrole⟩ := roleOf_reads ho
  obtain ⟨hact, -, hopen⟩ := hi.owner ((places_op hg.headed ht).trans hrole)
  exact ⟨_, hopen, hslots i hact⟩

/-- **When the sweep reaches exactly the live connections.** Every step of a run keeps the law,
that behind the sweep all active slots are shut down and that the sweep shuts down nothing but
the sockets of the slots, if and only if no slot is acquired behind the sweep and the sweep
comes to no slot whose teardown has closed the descriptor and not yet cleared it. -/
theorem sweep_lawful_iff (h : List (Shutdown.State × Shutdown.Label)) (x : Shutdown.State)
    (hr : Run system h x) : (∀ p ∈ h, Lawful p.1 p.2) ↔ ∀ p ∈ h, Quiet p.1 p.2 := by
  constructor
  · intro hall p hp
    obtain ⟨h₁, h₂, y, rfl, hr₁, hst⟩ := hr.split hp
    obtain ⟨hg, hi⟩ := run_good hr₁
    refine ⟨fun hsw i he => ?_, (own_iff hg hi).mp (hall p hp).own⟩
    have hl := run_loud hr₁ fun q hq => (hall q (by simp [hq])).own
    have hm := step_move hg hst
    rw [he] at hm
    obtain ⟨hact, hlive, hsame⟩ := hl.acquire hi hm
    have hshut := ((hall p hp).hushed y hst (hsame.trans hsw)).slots i hact
    cases hshut.symm.trans hlive
  · intro hall p hp
    have hown : ∀ q ∈ h, Own (view q.1) (event q.1 q.2) := by
      intro q hq
      obtain ⟨h₁, -, -, -, hr₁, -⟩ := hr.split hq
      obtain ⟨hg, hi⟩ := run_good hr₁
      exact (own_iff hg hi).mpr (hall q hq).sweep
    refine ⟨fun y hst hsw => ?_, hown p hp⟩
    obtain ⟨h₁, h₂, z, rfl, hr₁, -⟩ := hr.split hp
    have hr₂ : Run system (h₁ ++ [p]) y := hr₁.step hst
    obtain ⟨hg, hi⟩ := run_good hr₂
    have hsub : ∀ q ∈ h₁ ++ [p], q ∈ h₁ ++ p :: h₂ := by
      intro q hq
      rcases List.mem_append.mp hq with hq | hq
      · simp [hq]
      · simp [List.mem_singleton.mp hq]
    have hpass := run_passed hr₂ (fun q hq => hown q (hsub q hq))
      fun q hq => (hall q (hsub q hq)).acquire
    exact hushed_of_passed hg hi hpass hsw

/-! ### Two runs -/

/-- Nothing is acquired behind the sweep, and the sweep comes to a slot's own connection. -/
def calm (p : Shutdown.State × Shutdown.Label) : Bool :=
  match event p.1 p.2 with
  | .acquire _ => decide (swept p.1 ≠ maxConnections)
  | .sweep i => decide ((p.1.mem.slots i).active = true →
      p.1.mem.fds (p.1.mem.slots i).fd = some (p.1.mem.slots i).conn)
  | .other => true

lemma quiet_of_calm (hr : Run system h x) (hc : h.all calm = true) : ∀ p ∈ h, Quiet p.1 p.2 := by
  intro p hp
  have hcalm := List.all_eq_true.mp hc p hp
  unfold calm at hcalm
  obtain ⟨h₁, -, -, -, hr₁, -⟩ := hr.split hp
  obtain ⟨hg, hi⟩ := run_good hr₁
  refine ⟨fun hsw i he => ?_, (own_iff hg hi).mp fun i he => ?_⟩
  · rw [he] at hcalm
    exact of_decide_eq_true hcalm hsw
  · rw [he] at hcalm
    exact of_decide_eq_true hcalm

/-- The dial thread has connected. -/
def connecting : List Shutdown.Label := onePeer ++ ran 3 3 ++ [.run 3 (.fd 5), .run 3 .ok]

/-- `daim_peer_transport_destroy`, as far as the end of the sweep. -/
def destroying : List Shutdown.Label := .call .destroy :: ran 4 38

/-- A connection that waits for the HELLO of its peer is shut down by the sweep. -/
theorem sweep_lawful_waiting : ∃ h x, Run system h x ∧ swept x = maxConnections ∧
    (x.mem.slots 0).active = true ∧ ∀ p ∈ h, Lawful p.1 p.2 := by
  obtain ⟨h, x, hr, hp⟩ := exists_run_of_replay (i := (· = initial))
    (f := Threads.step program) (connecting ++ ran 3 4 ++ destroying) rfl
    (fun h x => swept x = maxConnections ∧ (x.mem.slots 0).active = true ∧ h.all calm = true)
    (by decide +kernel)
  obtain ⟨hsw, hact, hc⟩ := hp
  exact ⟨h, x, hr, hsw, hact, (sweep_lawful_iff h x hr).mpr (quiet_of_calm hr hc)⟩

/-- The dial thread has passed its stop check and connects; behind the sweep it gets a slot, and
nothing shuts its connection down. -/
theorem connects_behind_sweep : ∃ h x, Run system h x ∧ ¬ ∀ p ∈ h, Lawful p.1 p.2 := by
  obtain ⟨h, x, hr, hp⟩ := exists_run_of_replay (i := (· = initial))
    (f := Threads.step program)
    (connecting ++ destroying ++ ran 4 2 ++ ran 3 1) rfl
    (fun _ x => ∃ y ∈ Threads.step program x (.run 3 .ok), swept y = maxConnections ∧
      (y.mem.slots 0).active = true ∧ y.mem.shut (y.mem.slots 0).conn = false)
    (by decide +kernel)
  obtain ⟨y, hy, hsw, hact, hlive⟩ := hp
  have hr' : Run system (h ++ [(x, .run 3 .ok)]) y := hr.step hy
  refine ⟨_, y, hr', fun hall => ?_⟩
  have hshut := ((hall (x, .run 3 .ok) (by simp)).hushed y hy hsw).slots 0 hact
  cases hshut.symm.trans hlive

end DaimDistributed.ShutdownSweep
