import DaimDistributed.SendFramed

/-!
The threads around `send_framed`, by their roles.

What the others need to know of a thread is the `send_lock` it holds, whether it has passed
the active check, the message id it has and what of its frame is written. A step of the
transport is a move of one thread from a role to another.
-/

namespace DaimDistributed.SendRoles

open Framing Transitions SendFramed

/-- What the other threads need to know of a thread. -/
inductive Role
  | free
  | holding (i : ℕ)
  | checked (i c : ℕ)
  | numbered (i c : ℕ) (id : UInt64)
  | sending (i c fd : ℕ) (o : Outgoing) (sentTotal : ℕ)
  | opening
  | leaving (i : ℕ)
  | closing (i : ℕ)
  | closed (i : ℕ)

def roleOf : Pc → Role
  | .idle | .takeSendLock _ _ | .count _ | .counting _ | .dropLock => .free
  | .takeLock i _ | .checkActive i _ | .dropBoth i | .dropSendLock i _ => .holding i
  | .allocate i _ c | .store i _ c _ => .checked i c
  | .allocated i _ c id | .build i _ c id => .numbered i c id
  | .sending i c fd o n => .sending i c fd o n
  | .connected | .acquire | .refused | .refuse => .opening
  | .teardown i => .leaving i
  | .close i => .closing i
  | .closed i | .reset i => .closed i

/-- The slot whose `send_lock` is held. -/
@[simp] def Role.sendLock : Role → Option ℕ
  | .holding i | .checked i _ | .numbered i _ _ | .sending i _ _ _ _ | .closing i | .closed i =>
    some i
  | _ => none

/-- The slot that was found active, and the connection that had it then. -/
@[simp] def Role.target : Role → Option (ℕ × ℕ)
  | .checked i c | .numbered i c _ | .sending i c _ _ _ => some (i, c)
  | _ => none

/-- The slot that is being torn down by its owner. -/
@[simp] def Role.tears : Role → Option ℕ
  | .leaving i | .closing i | .closed i => some i
  | _ => none

/-- A message id of which nothing is written yet, and the connection it is for. -/
@[simp] def Role.unwritten : Role → Option (ℕ × UInt64)
  | .numbered _ c id => some (c, id)
  | .sending _ c _ o 0 => some (c, o.messageId)
  | _ => none

/-- A transport with its program counters read as roles. -/
structure View where
  role : ℕ → Role
  mine : ℕ → Option Mine
  slots : ℕ → Slot
  fds : ℕ → Option ℕ
  streams : ℕ → Stream
  nextMessageId : UInt64
  opened : ℕ
  allocated : ℕ

def view (x : Transport) : View where
  role t := roleOf (x.threads t).pc
  mine t := (x.threads t).mine
  slots := x.slots
  fds := x.fds
  streams := x.streams
  nextMessageId := x.nextMessageId
  opened := x.opened
  allocated := x.allocated

def View.setRole (v : View) (t : ℕ) (r : Role) : View :=
  { v with role := Function.update v.role t r }

def View.setMine (v : View) (t : ℕ) (m : Option Mine) : View :=
  { v with mine := Function.update v.mine t m }

def View.setSlot (v : View) (i : ℕ) (s : Slot) : View :=
  { v with slots := Function.update v.slots i s }

def View.setFd (v : View) (fd : ℕ) (conn : Option ℕ) : View :=
  { v with fds := Function.update v.fds fd conn }

def View.setStream (v : View) (c : ℕ) (s : Stream) : View :=
  { v with streams := Function.update v.streams c s }

lemma View.role_setRole (v : View) (t : ℕ) (r : Role) (u : ℕ) :
    (v.setRole t r).role u = if u = t then r else v.role u := by
  simp [View.setRole, Function.update_apply]

lemma View.mine_setMine (v : View) (t : ℕ) (o : Option Mine) (u : ℕ) :
    (v.setMine t o).mine u = if u = t then o else v.mine u := by
  simp [View.setMine, Function.update_apply]

lemma View.slots_setSlot (v : View) (i : ℕ) (s : Slot) (j : ℕ) :
    (v.setSlot i s).slots j = if j = i then s else v.slots j := by
  simp [View.setSlot, Function.update_apply]

lemma View.fds_setFd (v : View) (fd : ℕ) (o : Option ℕ) (fd' : ℕ) :
    (v.setFd fd o).fds fd' = if fd' = fd then o else v.fds fd' := by
  simp [View.setFd, Function.update_apply]

lemma Role.sendLock_of_target {i c : ℕ} {r : Role} (h : r.target = some (i, c)) :
    r.sendLock = some i := by
  cases r <;> simp_all [Role.target, Role.sendLock]

lemma Role.target_of_unwritten {c : ℕ} {id : UInt64} {r : Role} (h : r.unwritten = some (c, id)) :
    ∃ i, r.target = some (i, c) := by
  cases r with
  | numbered i d id' =>
    cases h
    exact ⟨i, rfl⟩
  | sending i d fd o n =>
    rcases n with _ | n
    · cases h
      exact ⟨i, rfl⟩
    · cases h
  | _ => cases h

/-- What a step of thread `t` does. -/
inductive Move (v : View) (t : ℕ) : View → Prop
  | stay : Move v t v
  | take {i : ℕ} {r : Role} : v.role t = .free ∧ r = .holding i ∨
      v.role t = .leaving i ∧ r = .closing i → (v.slots i).sendLock = none →
      Move v t ((v.setSlot i { v.slots i with sendLock := some t }).setRole t r)
  | drop {i : ℕ} : v.role t = .holding i →
      Move v t ((v.setSlot i { v.slots i with sendLock := none }).setRole t .free)
  | check {i : ℕ} : v.role t = .holding i → (v.slots i).active = true →
      Move v t (v.setRole t (.checked i (v.slots i).conn))
  | allocate {i c : ℕ} : v.role t = .checked i c →
      Move v t ({ v with
        nextMessageId := v.nextMessageId + 1
        allocated := v.allocated + 1 }.setRole t (.numbered i c (v.nextMessageId + 1)))
  | build {i c : ℕ} {o : Outgoing} : v.role t = .numbered i c o.messageId →
      Move v t (v.setRole t (.sending i c (v.slots i).fd o 0))
  | write {i c fd d n k : ℕ} {o : Outgoing} {r : Role} : v.role t = .sending i c fd o n →
      v.fds fd = some d → (v.streams d).broken = false →
      n + (k + 1) < o.bytes.length ∧ r = .sending i c fd o (n + (k + 1)) ∨
        n + (k + 1) = o.bytes.length ∧ r = .holding i →
      Move v t ((v.setStream d ((v.streams d).write o n (k + 1))).setRole t r)
  | fail {i c fd d n : ℕ} {o : Outgoing} : v.role t = .sending i c fd o n →
      v.fds fd = some d →
      Move v t ((v.setStream d { v.streams d with broken := true }).setRole t (.holding i))
  | failClosed {i c fd n : ℕ} {o : Outgoing} : v.role t = .sending i c fd o n →
      v.fds fd = none → Move v t (v.setRole t (.holding i))
  | connect {fd : ℕ} : v.role t = .free → v.mine t = none → v.fds fd = none →
      Move v t ((({ v with opened := v.opened + 1 }.setFd fd (some v.opened)).setMine t
        (some ⟨fd, v.opened, none⟩)).setRole t .opening)
  | giveUp {m : Mine} : v.role t = .opening → v.mine t = some m →
      Move v t (((v.setFd m.fd none).setMine t none).setRole t .free)
  | acquire {i : ℕ} {m : Mine} : v.role t = .opening → v.mine t = some m →
      (v.slots i).active = false →
      Move v t (((v.setSlot i { v.slots i with fd := m.fd, active := true, conn := m.conn }).setMine
        t (some { m with slot := some i })).setRole t .free)
  | leave {i : ℕ} {m : Mine} : v.role t = .free → v.mine t = some m → m.slot = some i →
      Move v t (v.setRole t (.leaving i))
  | close {i : ℕ} {m : Mine} : v.role t = .closing i → v.mine t = some m →
      Move v t ((v.setFd m.fd none).setRole t (.closed i))
  | reset {i : ℕ} : v.role t = .closed i →
      Move v t (((v.setSlot i { v.slots i with active := false }).setMine t none).setRole t
        (.holding i))

variable {x x' : Transport} {v v' : View} {t u i j c d fd : ℕ} {pc : Pc} {m m' : Mine}

lemma Move.allocated_le (h : Move v t v') : v.allocated ≤ v'.allocated := by
  cases h with
  | allocate => exact Nat.le_succ _
  | _ => exact le_rfl

lemma view_goto : view (x.goto t pc) = (view x).setRole t (roleOf pc) := by
  simp only [view, View.setRole, Transport.goto, View.mk.injEq, and_true]
  constructor <;> funext u <;> by_cases h : u = t <;> simp [Function.update, h]

lemma view_hold {o : Option Mine} :
    view (x.hold t o pc) = ((view x).setMine t o).setRole t (roleOf pc) := by
  simp only [view, View.setRole, View.setMine, Transport.hold, View.mk.injEq, and_true]
  constructor <;> funext u <;> by_cases h : u = t <;> simp [Function.update, h]

/-- A step inside a role is not seen. -/
lemma view_goto_same (h : roleOf pc = roleOf (x.threads t).pc) : view (x.goto t pc) = view x := by
  have : Function.update (view x).role t (roleOf pc) = (view x).role := by
    rw [h]
    exact Function.update_eq_self t _
  rw [view_goto, View.setRole, this]

lemma Move.of_same (h : roleOf pc = roleOf (x.threads t).pc) :
    Move (view x) t (view (x.goto t pc)) := by
  rw [view_goto_same h]
  exact .stay

/-! ### The transport's own lock -/

/-- Where `t->lock` is held. -/
def locks : Pc → Bool
  | .checkActive _ _ | .allocate _ _ _ | .store _ _ _ _ | .allocated _ _ _ _ | .dropBoth _
  | .counting _ | .acquire | .refused | .reset _ | .dropLock => true
  | _ => false

/-- The lock has one holder, and the counter is read and written under it. -/
structure Locked (x : Transport) : Prop where
  held : ∀ t, locks (x.threads t).pc = true → x.lock = some t
  loaded : ∀ {t i q c id}, (x.threads t).pc = .store i q c id → id = x.nextMessageId + 1

lemma locked_init {nodeId : UInt64} : Locked { nodeId := nodeId } where
  held t h := by cases h
  loaded h := by cases h

section Locked

variable {th : Thread}

/-- A step of `t` that changes the lock or the counter has found the lock free, or held it. -/
lemma Locked.of_step (hl : Locked x) (hth : x'.threads = Function.update x.threads t th)
    (hlock : x'.lock = x.lock ∨ x.lock = none ∨ locks (x.threads t).pc = true)
    (hid : x'.nextMessageId = x.nextMessageId ∨ locks (x.threads t).pc = true)
    (ht : locks th.pc = true → x'.lock = some t)
    (hst : ∀ {i q c id}, th.pc = .store i q c id → id = x'.nextMessageId + 1) : Locked x' where
  held u hu := by
    by_cases hut : u = t
    · subst hut
      rw [hth, Function.update_self] at hu
      exact ht hu
    rw [hth, Function.update_of_ne hut] at hu
    have hx := hl.held u hu
    rcases hlock with h | h | h
    · rw [h, hx]
    · simp [h] at hx
    · have := hl.held t h
      exact absurd (Option.some.inj (hx.symm.trans this)) hut
  loaded := by
    intro u i q c id hu
    by_cases hut : u = t
    · subst hut
      rw [hth, Function.update_self] at hu
      exact hst hu
    rw [hth, Function.update_of_ne hut] at hu
    have hx := hl.held u (by rw [hu]; rfl)
    rcases hid with h | h
    · rw [h, hl.loaded hu]
    · have := hl.held t h
      exact absurd (Option.some.inj (hx.symm.trans this)) hut

lemma Locked.outside (hl : Locked x) (hth : x'.threads = Function.update x.threads t th)
    (hf : locks th.pc = false) (hlock : x'.lock = x.lock)
    (hid : x'.nextMessageId = x.nextMessageId) : Locked x' :=
  hl.of_step hth (.inl hlock) (.inl hid) (by simp [hf]) (by intro i q c id h; simp [h, locks] at hf)

lemma Locked.take (hl : Locked x) (hth : x'.threads = Function.update x.threads t th)
    (hf : x.lock = none) (hlock : x'.lock = some t) (hid : x'.nextMessageId = x.nextMessageId)
    (hst : ∀ i q c id, th.pc ≠ .store i q c id) : Locked x' :=
  hl.of_step hth (.inr (.inl hf)) (.inl hid) (fun _ => hlock) (fun h => absurd h (hst _ _ _ _))

lemma Locked.inside (hl : Locked x) (hth : x'.threads = Function.update x.threads t th)
    (hpc : locks (x.threads t).pc = true) (hlock : x'.lock = x.lock)
    (hst : ∀ {i q c id}, th.pc = .store i q c id → id = x'.nextMessageId + 1) : Locked x' :=
  hl.of_step hth (.inl hlock) (.inr hpc) (fun _ => hlock.trans (hl.held t hpc)) hst

lemma Locked.give (hl : Locked x) (hth : x'.threads = Function.update x.threads t th)
    (hpc : locks (x.threads t).pc = true) (hf : locks th.pc = false) : Locked x' :=
  hl.of_step hth (.inr (.inr hpc)) (.inr hpc) (by simp [hf])
    (by intro i q c id h; simp [h, locks] at hf)

end Locked

/-! ### Steps as moves -/

lemma role_eq (h : (x.threads t).pc = pc) : (view x).role t = roleOf pc := by
  simp [view, h]

/-- A step keeps the lock to one holder, and is a move. -/
structure Steps (t : ℕ) (x x' : Transport) : Prop where
  locked : Locked x'
  move : Move (view x) t (view x')

lemma breakFd_steps (hl : Locked x) {i c fd n : ℕ} {o : Outgoing}
    (hpc : (x.threads t).pc = .sending i c fd o n) :
    Steps t x ((x.breakFd fd).goto t (.dropSendLock i none)) := by
  have hr := role_eq hpc
  rcases hd : x.fds fd with _ | d
  · have hb : x.breakFd fd = x := by rw [Transport.breakFd, hd]
    rw [hb]
    refine ⟨hl.outside rfl rfl rfl rfl, ?_⟩
    rw [view_goto]
    exact .failClosed hr hd
  · have hb : x.breakFd fd = x.setStream d { x.streams d with broken := true } := by
      rw [Transport.breakFd, hd]
    rw [hb]
    refine ⟨hl.outside rfl rfl rfl rfl, ?_⟩
    rw [view_goto]
    exact .fail hr hd

lemma sendStep_steps (hl : Locked x) {i c fd n : ℕ} {o : Outgoing} {r : SendResult}
    (hpc : (x.threads t).pc = .sending i c fd o n) (h : sendStep x t i c fd o n r = some x') :
    Steps t x x' := by
  unfold sendStep at h
  split at h
  · cases h
    exact ⟨hl, .stay⟩
  · cases h
    exact breakFd_steps hl hpc
  · cases h
    exact breakFd_steps hl hpc
  · rename_i k
    rcases hd : x.fds fd with _ | d
    · simp [hd] at h
    simp only [hd] at h
    split_ifs at h with hbad hmore
    · cases h
      have hb : (x.streams d).broken = false := by simpa using (not_or.mp hbad).1
      refine ⟨hl.outside rfl rfl rfl rfl, ?_⟩
      rw [view_goto]
      exact .write (role_eq hpc) hd hb (.inl ⟨hmore, rfl⟩)
    · cases h
      have hb : (x.streams d).broken = false := by simpa using (not_or.mp hbad).1
      refine ⟨hl.outside rfl rfl rfl rfl, ?_⟩
      rw [view_goto]
      exact .write (role_eq hpc) hd hb (.inr ⟨by omega, rfl⟩)

lemma freeSlot_some (h : freeSlot x = some i) : (x.slots i).active = false := by
  simpa using List.find?_some h

lemma nextStep_steps (hl : Locked x) {now : UInt64} (h : nextStep x t now = some x') :
    Steps t x x' := by
  unfold nextStep at h
  split at h
  case h_1 i q hpc =>
    split_ifs at h with hf
    cases h
    refine ⟨hl.outside rfl rfl rfl rfl, ?_⟩
    rw [view_goto]
    exact .take (.inl ⟨role_eq hpc, rfl⟩) hf
  case h_2 i q hpc =>
    split_ifs at h with hf
    cases h
    exact ⟨hl.take rfl hf rfl rfl (by simp),
      .of_same (x := { x with lock := some t }) (by simp [hpc, roleOf])⟩
  case h_3 i q hpc =>
    split_ifs at h with ha
    · cases h
      refine ⟨hl.inside rfl (by rw [hpc]; rfl) rfl (by simp), ?_⟩
      rw [view_goto]
      exact .check (role_eq hpc) ha
    · cases h
      exact ⟨hl.inside rfl (by rw [hpc]; rfl) rfl (by simp), .of_same (by rw [hpc]; rfl)⟩
  case h_4 i q c hpc =>
    cases h
    refine ⟨hl.inside rfl (by rw [hpc]; rfl) rfl fun he => ?_, .of_same (by rw [hpc]; rfl)⟩
    cases he
    rfl
  case h_5 i q c id hpc =>
    cases h
    refine ⟨hl.inside rfl (by rw [hpc]; rfl) rfl (by simp), ?_⟩
    -- what was read is still the counter
    obtain rfl := hl.loaded hpc
    rw [view_goto]
    exact .allocate (role_eq hpc)
  case h_6 i q c id hpc =>
    cases h
    exact ⟨hl.give rfl (by rw [hpc]; rfl) rfl,
      .of_same (x := { x with lock := none }) (by simp [hpc, roleOf])⟩
  case h_7 i q c id hpc =>
    cases h
    refine ⟨hl.outside rfl rfl rfl rfl, ?_⟩
    rw [view_goto]
    exact .build (o := ⟨q.messageType, x.nodeId, id, now, q.payload, q.fits⟩) (role_eq hpc)
  case h_8 i hpc =>
    cases h
    exact ⟨hl.give rfl (by rw [hpc]; rfl) rfl,
      .of_same (x := { x with lock := none }) (by simp [hpc, roleOf])⟩
  case h_9 i sent hpc =>
    cases h
    rcases sent with _ | n
    · refine ⟨hl.outside rfl rfl rfl rfl, ?_⟩
      rw [view_goto]
      exact .drop (role_eq hpc)
    · refine ⟨hl.outside rfl rfl rfl rfl, ?_⟩
      rw [view_goto]
      exact .drop (role_eq hpc)
  case h_10 n hpc =>
    split_ifs at h with hf
    cases h
    exact ⟨hl.take rfl hf rfl rfl (by simp),
      .of_same (x := { x with lock := some t }) (by simp [hpc, roleOf])⟩
  case h_11 n hpc =>
    cases h
    exact ⟨hl.inside rfl (by rw [hpc]; rfl) rfl (by simp), .of_same (x := { x with
      messagesSent := x.messagesSent + 1, bytesSent := x.bytesSent + n }) (by simp [hpc, roleOf])⟩
  case h_12 hpc =>
    cases h
    exact ⟨hl.give rfl (by rw [hpc]; rfl) rfl,
      .of_same (x := { x with lock := none }) (by simp [hpc, roleOf])⟩
  case h_13 hpc =>
    split_ifs at h with hf
    cases h
    exact ⟨hl.take rfl hf rfl rfl (by simp),
      .of_same (x := { x with lock := some t }) (by simp [hpc, roleOf])⟩
  case h_14 m hpc hm =>
    split at h
    · rename_i i hi
      cases h
      refine ⟨hl.inside rfl (by rw [hpc]; rfl) rfl (by simp), ?_⟩
      rw [view_hold]
      exact .acquire (role_eq hpc) hm (freeSlot_some hi)
    · cases h
      exact ⟨hl.inside rfl (by rw [hpc]; rfl) rfl (by simp), .of_same (by rw [hpc]; rfl)⟩
  case h_15 hpc =>
    cases h
    exact ⟨hl.give rfl (by rw [hpc]; rfl) rfl,
      .of_same (x := { x with lock := none }) (by simp [hpc, roleOf])⟩
  case h_16 m hpc hm =>
    cases h
    refine ⟨hl.outside rfl rfl rfl rfl, ?_⟩
    rw [view_hold]
    exact .giveUp (role_eq hpc) hm
  case h_17 i hpc =>
    split_ifs at h with hf
    cases h
    refine ⟨hl.outside rfl rfl rfl rfl, ?_⟩
    rw [view_goto]
    exact .take (.inr ⟨role_eq hpc, rfl⟩) hf
  case h_18 i m hpc hm =>
    cases h
    refine ⟨hl.outside rfl rfl rfl rfl, ?_⟩
    rw [view_goto]
    exact .close (role_eq hpc) hm
  case h_19 i hpc =>
    split_ifs at h with hf
    cases h
    exact ⟨hl.take rfl hf rfl rfl (by simp),
      .of_same (x := { x with lock := some t }) (by simp [hpc, roleOf])⟩
  case h_20 i hpc =>
    cases h
    refine ⟨hl.inside rfl (by rw [hpc]; rfl) rfl (by simp), ?_⟩
    rw [view_hold]
    exact .reset (role_eq hpc)
  case h_21 => cases h

/-- **Every step is a move.** The counter is only used under the lock, and the lock has one
holder after the step as before. -/
theorem step_steps (hl : Locked x) {a : Act} (h : step x (t, a) = some x') : Steps t x x' := by
  unfold step at h
  split at h
  case h_1 i messageType payload _ hpc =>
    have hpc : (x.threads t).pc = .idle := hpc
    split_ifs at h with hlong
    · cases h
      exact ⟨hl, .stay⟩
    · cases h
      exact ⟨hl.outside rfl rfl rfl rfl, .of_same (by rw [hpc]; rfl)⟩
  case h_2 fd _ hpc hm =>
    split_ifs at h with hf
    cases h
    refine ⟨hl.outside rfl rfl rfl rfl, ?_⟩
    rw [view_hold]
    exact .connect (role_eq hpc) hm hf
  case h_3 m _ hpc hm =>
    cases h
    refine ⟨hl.outside rfl rfl rfl rfl, ?_⟩
    rw [view_hold]
    exact .giveUp (role_eq hpc) hm
  case h_4 m _ hpc hm =>
    obtain ⟨i, hi, rfl⟩ := Option.map_eq_some_iff.mp h
    refine ⟨hl.outside rfl rfl rfl rfl, ?_⟩
    rw [view_goto]
    exact .leave (role_eq hpc) hm hi
  case h_5 r i c fd o n _ hpc => exact sendStep_steps hl hpc h
  case h_6 now _ => exact nextStep_steps hl h
  case h_7 => cases h

end DaimDistributed.SendRoles
