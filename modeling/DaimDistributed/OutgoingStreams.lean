import DaimDistributed.SendRoles

/-!
The byte streams that `send_framed` leaves on the connections: whole frames, and nothing
behind a frame that was cut.
-/

namespace DaimDistributed.OutgoingStreams

open Delimited Framing Transitions SendFramed SendRoles

/-- The locks, the slots and the descriptors. A slot belongs to the one thread that acquired
it; its descriptor is open until that thread has closed it, which it does under the
`send_lock`. -/
structure Inv (v : View) : Prop where
  locked : ∀ {t i}, (v.role t).sendLock = some i → (v.slots i).sendLock = some t
  conn_lt : ∀ {t m}, v.mine t = some m → m.conn < v.opened
  conn_inj : ∀ {t u m m'}, v.mine t = some m → v.mine u = some m' → m.conn = m'.conn → t = u
  occupied : ∀ {t m i}, v.mine t = some m → m.slot = some i →
    (v.slots i).active = true ∧ (v.slots i).fd = m.fd ∧ (v.slots i).conn = m.conn
  owner : ∀ {i}, (v.slots i).active = true → ∃ t m, v.mine t = some m ∧ m.slot = some i
  fd_open : ∀ {t m}, v.mine t = some m → (∃ i, v.role t = .closed i) ∨ v.fds m.fd = some m.conn
  tearing : ∀ {t i}, (v.role t).tears = some i → ∃ m, v.mine t = some m ∧ m.slot = some i
  opening : ∀ {t}, v.role t = .opening → ∃ m, v.mine t = some m ∧ m.slot = none
  target : ∀ {t i c}, (v.role t).target = some (i, c) →
    (v.slots i).active = true ∧ (v.slots i).conn = c
  sending : ∀ {t i c fd o n}, v.role t = .sending i c fd o n →
    (v.slots i).fd = fd ∧ n < o.bytes.length

variable {v v' : View} {t u i j c d fd : ℕ} {m m' : Mine} {r : Role}

lemma bytes_pos (o : Outgoing) : 0 < o.bytes.length := by
  rw [Outgoing.bytes, List.length_append, length_encodeHeader]
  exact Nat.add_pos_left (by decide) _

/-! ### What the invariant rules out -/

lemma Inv.lock_unique (hi : Inv v) (h : (v.role t).sendLock = some i)
    (h' : (v.role u).sendLock = some i) : t = u :=
  Option.some.inj ((hi.locked h).symm.trans (hi.locked h'))

lemma Inv.slot_unique (hi : Inv v) (h : v.mine t = some m) (hs : m.slot = some i)
    (h' : v.mine u = some m') (hs' : m'.slot = some i) : t = u := by
  obtain ⟨-, -, hc⟩ := hi.occupied h hs
  obtain ⟨-, -, hc'⟩ := hi.occupied h' hs'
  exact hi.conn_inj h h' (hc.symm.trans hc')

/-- Two threads past the active check for the same connection are the same. -/
lemma Inv.target_unique (hi : Inv v) (h : (v.role t).target = some (i, c))
    (h' : (v.role u).target = some (j, c)) : t = u := by
  obtain ⟨ha, hc⟩ := hi.target h
  obtain ⟨ha', hc'⟩ := hi.target h'
  obtain ⟨w, m, hm, hs⟩ := hi.owner ha
  obtain ⟨w', m', hm', hs'⟩ := hi.owner ha'
  obtain ⟨-, -, hmc⟩ := hi.occupied hm hs
  obtain ⟨-, -, hmc'⟩ := hi.occupied hm' hs'
  obtain rfl := hi.conn_inj hm hm' (by omega)
  obtain rfl : m = m' := by simpa [hm] using hm'
  obtain rfl : i = j := by simpa [hs] using hs'
  exact hi.lock_unique (Role.sendLock_of_target h) (Role.sendLock_of_target h')

/-- **A send goes to the connection that had the slot at the active check.** -/
theorem Inv.send_open (hi : Inv v) {o : Outgoing} {n : ℕ} (h : v.role t = .sending i c fd o n) :
    v.fds fd = some c := by
  obtain ⟨ha, hc⟩ := hi.target (t := t) (i := i) (c := c) (by rw [h]; rfl)
  obtain ⟨hfd, -⟩ := hi.sending h
  obtain ⟨u, m, hm, hs⟩ := hi.owner ha
  obtain ⟨-, hmfd, hmc⟩ := hi.occupied hm hs
  rcases hi.fd_open hm with ⟨j, hj⟩ | ho
  · -- its owner has closed it, so it has the `send_lock` that the sender has
    obtain ⟨m', hm', hs'⟩ := hi.tearing (t := u) (i := j) (by rw [hj]; rfl)
    obtain rfl : m = m' := by simpa [hm] using hm'
    obtain rfl : i = j := by simpa [hs] using hs'
    have htu : t = u := hi.lock_unique (i := i) (by rw [h]; rfl) (by rw [hj]; rfl)
    subst htu
    cases h.symm.trans hj
  · rw [← hfd, ← hc, hmfd, hmc]
    exact ho

/-! ### What keeps it -/

lemma Inv.setRole (hi : Inv v)
    (hlock : ∀ {i}, r.sendLock = some i → (v.slots i).sendLock = some t)
    (hclosed : ∀ {j}, v.role t = .closed j → ∃ i, r = .closed i)
    (htears : ∀ {i}, r.tears = some i → ∃ m, v.mine t = some m ∧ m.slot = some i)
    (hopening : r = .opening → ∃ m, v.mine t = some m ∧ m.slot = none)
    (htarget : ∀ {i c}, r.target = some (i, c) →
      (v.slots i).active = true ∧ (v.slots i).conn = c)
    (hsending : ∀ {i c fd o n}, r = .sending i c fd o n →
      (v.slots i).fd = fd ∧ n < o.bytes.length) : Inv (v.setRole t r) := by
  refine { hi with
    locked := ?locked, fd_open := ?fd_open, tearing := ?tearing, opening := ?opening
    target := ?target, sending := ?sending }
  case locked =>
    intro u i h
    rw [View.role_setRole] at h
    split_ifs at h with hu
    · exact hu ▸ hlock h
    · exact hi.locked h
  case fd_open =>
    intro u m h
    rw [View.role_setRole]
    split_ifs with hu
    · subst hu
      rcases hi.fd_open h with ⟨j, hj⟩ | ho
      · exact .inl (hclosed hj)
      · exact .inr ho
    · exact hi.fd_open h
  case tearing =>
    intro u i h
    rw [View.role_setRole] at h
    split_ifs at h with hu
    · exact hu ▸ htears h
    · exact hi.tearing h
  case opening =>
    intro u h
    rw [View.role_setRole] at h
    split_ifs at h with hu
    · exact hu ▸ hopening h
    · exact hi.opening h
  case target =>
    intro u i c h
    rw [View.role_setRole] at h
    split_ifs at h with hu
    · exact htarget h
    · exact hi.target h
  case sending =>
    intro u i c fd o n h
    rw [View.role_setRole] at h
    split_ifs at h with hu
    · exact hsending h
    · exact hi.sending h

/-- A step that keeps to the slot and the lock that the thread has. -/
lemma Inv.setSendLock (hi : Inv v) {o : Option ℕ}
    (hfree : ∀ {t}, (v.role t).sendLock = some i → o = some t) :
    Inv (v.setSlot i { v.slots i with sendLock := o }) := by
  have hkeep (j : ℕ) : ((v.setSlot i { v.slots i with sendLock := o }).slots j).active =
      (v.slots j).active ∧ ((v.setSlot i { v.slots i with sendLock := o }).slots j).fd =
      (v.slots j).fd ∧ ((v.setSlot i { v.slots i with sendLock := o }).slots j).conn =
      (v.slots j).conn := by
    rw [View.slots_setSlot]
    split_ifs with hj
    · subst hj
      exact ⟨rfl, rfl, rfl⟩
    · exact ⟨rfl, rfl, rfl⟩
  refine { hi with
    locked := ?locked, occupied := ?occupied, owner := ?owner, target := ?target
    sending := ?sending }
  case locked =>
    intro u j h
    rw [View.slots_setSlot]
    split_ifs with hj
    · exact hfree (hj ▸ h)
    · exact hi.locked h
  case occupied =>
    intro u m j h hs
    obtain ⟨ha, hfd, hc⟩ := hkeep j
    rw [ha, hfd, hc]
    exact hi.occupied h hs
  case owner =>
    intro j h
    rw [(hkeep j).1] at h
    exact hi.owner h
  case target =>
    intro u j c h
    obtain ⟨ha, -, hc⟩ := hkeep j
    rw [ha, hc]
    exact hi.target h
  case sending =>
    intro u j c fd o n h
    rw [(hkeep j).2.1]
    exact hi.sending h

lemma Inv.closeFd (hi : Inv v)
    (hclosed : ∀ {t m}, v.mine t = some m → m.fd = fd → ∃ i, v.role t = .closed i) :
    Inv (v.setFd fd none) := by
  refine { hi with fd_open := ?_ }
  intro t m h
  rw [View.fds_setFd]
  split_ifs with hfd
  · exact .inl (hclosed h hfd)
  · exact hi.fd_open h

lemma Inv.setStream (hi : Inv v) {s : Stream} : Inv (v.setStream c s) := { hi with }

/-- A thread with a target goes on, or is done with it. -/
lemma Inv.setTarget (hi : Inv v) (ht : (v.role t).target = some (i, c))
    (hr : r.target = some (i, c) ∨ r = .holding i)
    (hsending : ∀ {i c fd o n}, r = .sending i c fd o n →
      (v.slots i).fd = fd ∧ n < o.bytes.length) : Inv (v.setRole t r) := by
  have hlock := hi.locked (Role.sendLock_of_target ht)
  have hclosed {j : ℕ} : v.role t ≠ .closed j := by
    intro hj
    rw [hj] at ht
    cases ht
  rcases hr with hr | rfl
  · refine hi.setRole ?_ (fun h => absurd h hclosed) ?_ ?_ ?_ hsending
    · intro j hj
      obtain rfl : i = j := Option.some.inj ((Role.sendLock_of_target hr).symm.trans hj)
      exact hlock
    · intro j hj
      cases r <;> simp_all [Role.target, Role.tears]
    · rintro rfl
      cases hr
    · intro j d hj
      obtain ⟨rfl, rfl⟩ : i = j ∧ c = d := Prod.mk.inj (Option.some.inj (hr.symm.trans hj))
      exact hi.target ht
  · refine hi.setRole ?_ (fun h => absurd h hclosed) (by simp) (by simp) (by simp) (by simp)
    rintro j ⟨⟩
    exact hlock

/-- A thread without a slot gives its descriptor away. -/
lemma Inv.forget (hi : Inv v) (hr : v.role t = .free)
    (hs : ∀ m, v.mine t = some m → m.slot = none) : Inv (v.setMine t none) := by
  have hsub {u : ℕ} {m : Mine} (h : (v.setMine t none).mine u = some m) : v.mine u = some m := by
    rw [View.mine_setMine] at h
    split_ifs at h
    exact h
  have hne {u : ℕ} {m : Mine} (hu : u ≠ t) (h : v.mine u = some m) :
      (v.setMine t none).mine u = some m := by
    rw [View.mine_setMine, if_neg hu, h]
  refine { hi with
    conn_lt := fun h => hi.conn_lt (hsub h)
    conn_inj := fun h h' => hi.conn_inj (hsub h) (hsub h')
    occupied := fun h => hi.occupied (hsub h)
    owner := ?owner
    fd_open := fun h => hi.fd_open (hsub h)
    tearing := ?tearing
    opening := ?opening }
  case owner =>
    intro i ha
    obtain ⟨u, m, hm, hsl⟩ := hi.owner ha
    refine ⟨u, m, hne ?_ hm, hsl⟩
    rintro rfl
    rw [hs m hm] at hsl
    cases hsl
  case tearing =>
    intro u i h
    obtain ⟨m, hm, hsl⟩ := hi.tearing (t := u) h
    refine ⟨m, hne ?_ hm, hsl⟩
    rintro rfl
    have h : (v.role u).tears = some i := h
    rw [hr] at h
    cases h
  case opening =>
    intro u h
    obtain ⟨m, hm, hsl⟩ := hi.opening (t := u) h
    refine ⟨m, hne ?_ hm, hsl⟩
    rintro rfl
    cases hr.symm.trans h

lemma Inv.giveUp (hi : Inv v) (hr : v.role t = .opening) (hm : v.mine t = some m) :
    Inv (((v.setFd m.fd none).setMine t none).setRole t .free) := by
  have hopen : v.fds m.fd = some m.conn := by
    rcases hi.fd_open hm with ⟨j, hj⟩ | h
    · cases hr.symm.trans hj
    · exact h
  have hslot : ∀ m', v.mine t = some m' → m'.slot = none := by
    intro m' hm'
    obtain ⟨m'', hm'', hs⟩ := hi.opening hr
    obtain rfl : m' = m'' := by simpa [hm'] using hm''
    exact hs
  have hfree : Inv (v.setRole t .free) :=
    hi.setRole (by simp) (by simp [hr]) (by simp) (by simp) (by simp) (by simp)
  have hforget : Inv ((v.setRole t .free).setMine t none) :=
    hfree.forget (by rw [View.role_setRole, if_pos rfl]) hslot
  refine hforget.closeFd fun {u m'} h hfd => (hforget.fd_open h).resolve_right fun ho => ?_
  -- another thread whose descriptor this is would have the same connection
  rw [View.mine_setMine] at h
  split_ifs at h with hu
  have hc : m'.conn = m.conn := by
    have ho : v.fds m'.fd = some m'.conn := ho
    rw [hfd, hopen] at ho
    exact (Option.some.inj ho).symm
  exact hu (hi.conn_inj h hm hc)

lemma Inv.connect (hi : Inv v) (hr : v.role t = .free) (hm : v.mine t = none)
    (hfd : v.fds fd = none) :
    Inv ((({ v with opened := v.opened + 1 }.setFd fd (some v.opened)).setMine t
      (some ⟨fd, v.opened, none⟩)).setRole t .opening) := by
  have hne {u : ℕ} {m : Mine} (h : v.mine u = some m) : u ≠ t := by
    rintro rfl
    cases hm.symm.trans h
  have hmine : Inv (({ v with opened := v.opened + 1 }.setFd fd (some v.opened)).setMine t
      (some ⟨fd, v.opened, none⟩)) := by
    refine { hi with
      conn_lt := ?conn_lt, conn_inj := ?conn_inj, occupied := ?occupied, owner := ?owner
      fd_open := ?fd_open, tearing := ?tearing, opening := ?opening }
    all_goals simp only [View.setMine, View.setFd, Function.update_apply]
    case conn_lt =>
      intro u m h
      split_ifs at h
      · cases h
        exact Nat.lt_succ_self _
      · exact (hi.conn_lt h).trans (Nat.lt_succ_self _)
    case conn_inj =>
      intro u w m m' h h' hc
      split_ifs at h h' with hu hw hw
      · rw [hu, hw]
      · cases h
        exact absurd (hi.conn_lt h') hc.le.not_gt
      · cases h'
        exact absurd (hi.conn_lt h) hc.ge.not_gt
      · exact hi.conn_inj h h' hc
    case occupied =>
      intro u m i h hs
      split_ifs at h
      · cases h
        cases hs
      · exact hi.occupied h hs
    case owner =>
      intro i ha
      obtain ⟨u, m, h, hs⟩ := hi.owner ha
      exact ⟨u, m, by rw [if_neg (hne h), h], hs⟩
    case fd_open =>
      intro u m h
      split_ifs at h with hu
      · cases h
        exact .inr (if_pos rfl)
      · refine (hi.fd_open h).imp_right fun ho => ?_
        have hf : m.fd ≠ fd := by
          rintro rfl
          cases hfd.symm.trans ho
        rw [if_neg hf, ho]
    case tearing =>
      intro u i h
      obtain ⟨m, h, hs⟩ := hi.tearing h
      exact ⟨m, by rw [if_neg (hne h), h], hs⟩
    case opening =>
      intro u h
      obtain ⟨m, h, hs⟩ := hi.opening h
      exact ⟨m, by rw [if_neg (hne h), h], hs⟩
  refine hmine.setRole (by simp) ?_ (by simp) ?_ (by simp) (by simp)
  · intro j hj
    cases hr.symm.trans hj
  · exact fun _ => ⟨⟨fd, v.opened, none⟩, by rw [View.mine_setMine, if_pos rfl], rfl⟩

lemma Inv.acquire (hi : Inv v) (hr : v.role t = .opening) (hm : v.mine t = some m)
    (ha : (v.slots i).active = false) :
    Inv (((v.setSlot i { v.slots i with fd := m.fd, active := true, conn := m.conn }).setMine
      t (some { m with slot := some i })).setRole t .free) := by
  have hslot : m.slot = none := by
    obtain ⟨m', hm', hs⟩ := hi.opening hr
    obtain rfl : m = m' := by simpa [hm] using hm'
    exact hs
  have hnone {u : ℕ} {m' : Mine} (h : v.mine u = some m') : m'.slot ≠ some i := by
    intro hs
    rw [(hi.occupied h hs).1] at ha
    cases ha
  constructor
  all_goals simp only [View.setSlot, View.setRole, View.setMine, Function.update_apply]
  case locked =>
    intro u j h
    split_ifs at h
    · cases h
    · split_ifs with hj
      · subst hj
        exact hi.locked h
      · exact hi.locked h
  case conn_lt =>
    intro u m' h
    split_ifs at h
    · cases h
      exact (hi.conn_lt hm : m.conn < v.opened)
    · exact hi.conn_lt h
  case conn_inj =>
    intro u w m' m'' h h' hc
    split_ifs at h h' with hu hw hw
    · rw [hu, hw]
    · cases h
      exact absurd (hi.conn_inj h' hm hc.symm) hw
    · cases h'
      exact absurd (hi.conn_inj h hm hc) hu
    · exact hi.conn_inj h h' hc
  case occupied =>
    intro u m' j h hs
    split_ifs at h
    · cases h
      obtain rfl : i = j := by simpa using hs
      simp
    · have hj : j ≠ i := by
        rintro rfl
        exact hnone h hs
      rw [if_neg hj]
      exact hi.occupied h hs
  case owner =>
    intro j hj
    split_ifs at hj with hji
    · exact ⟨t, { m with slot := some i }, by rw [if_pos rfl], by rw [hji]⟩
    · obtain ⟨u, m', hm', hs⟩ := hi.owner hj
      have hu : u ≠ t := by
        rintro rfl
        obtain rfl : m = m' := by simpa [hm] using hm'
        cases hslot.symm.trans hs
      exact ⟨u, m', by rw [if_neg hu, hm'], hs⟩
  case fd_open =>
    intro u m' h
    split_ifs at h with hu
    · cases h
      refine .inr ((hi.fd_open hm).resolve_left ?_)
      rintro ⟨j, hj⟩
      cases hr.symm.trans hj
    · rw [if_neg hu]
      exact hi.fd_open h
  case tearing =>
    intro u j h
    split_ifs at h with hu
    · cases h
    · rw [if_neg hu]
      exact hi.tearing h
  case opening =>
    intro u h
    split_ifs at h with hu
    rw [if_neg hu]
    exact hi.opening h
  case target =>
    intro u j c h
    split_ifs at h
    · cases h
    · obtain ⟨ha', hc⟩ := hi.target h
      have hj : j ≠ i := by
        rintro rfl
        cases ha.symm.trans ha'
      rw [if_neg hj]
      exact ⟨ha', hc⟩
  case sending =>
    intro u j c fd o n h
    split_ifs at h
    have ha' := (hi.target (t := u) (i := j) (c := c) (by rw [h]; rfl)).1
    have hj : j ≠ i := by
      rintro rfl
      cases ha.symm.trans ha'
    rw [if_neg hj]
    exact hi.sending h

/-- The teardown closes the descriptor while it holds the `send_lock`. -/
lemma Inv.close (hi : Inv v) (hr : v.role t = .closing i) (hm : v.mine t = some m) :
    Inv ((v.setFd m.fd none).setRole t (.closed i)) := by
  have hopen : v.fds m.fd = some m.conn := by
    rcases hi.fd_open hm with ⟨j, hj⟩ | h
    · cases hr.symm.trans hj
    · exact h
  have hclosed : Inv (v.setRole t (.closed i)) := by
    refine hi.setRole ?_ (fun _ => ⟨i, rfl⟩) ?_ (by simp) (by simp) (by simp)
    · intro j hj
      exact hi.locked (by rw [hr]; exact hj)
    · intro j hj
      exact hi.tearing (by rw [hr]; exact hj)
  refine hclosed.closeFd fun {u m'} h hfd => ?_
  rcases hclosed.fd_open h with hc | ho
  · exact hc
  · have hc : m'.conn = m.conn := by
      have ho : v.fds m'.fd = some m'.conn := ho
      rw [hfd, hopen] at ho
      exact (Option.some.inj ho).symm
    obtain rfl := hi.conn_inj h hm hc
    exact ⟨i, by rw [View.role_setRole, if_pos rfl]⟩

lemma Inv.reset (hi : Inv v) (hr : v.role t = .closed i) :
    Inv (((v.setSlot i { v.slots i with active := false }).setMine t none).setRole t
      (.holding i)) := by
  obtain ⟨m, hm, hs⟩ := hi.tearing (t := t) (i := i) (by rw [hr]; rfl)
  have hlock : (v.role t).sendLock = some i := by rw [hr]; rfl
  have htarget {u j c : ℕ} (hu : u ≠ t) (h : (v.role u).target = some (j, c)) : j ≠ i := by
    rintro rfl
    exact hu (hi.lock_unique (Role.sendLock_of_target h) hlock)
  constructor
  all_goals simp only [View.setSlot, View.setRole, View.setMine, Function.update_apply]
  case locked =>
    intro u j h
    split_ifs at h with hu
    · obtain rfl : i = j := by simpa [Role.sendLock] using h
      rw [if_pos rfl, hu]
      exact hi.locked hlock
    · split_ifs with hj
      · subst hj
        exact hi.locked h
      · exact hi.locked h
  case conn_lt =>
    intro u m' h
    split_ifs at h
    exact hi.conn_lt h
  case conn_inj =>
    intro u w m' m'' h h' hc
    split_ifs at h h'
    exact hi.conn_inj h h' hc
  case occupied =>
    intro u m' j h hs'
    split_ifs at h with hu
    have hj : j ≠ i := by
      rintro rfl
      exact hu (hi.slot_unique h hs' hm hs)
    rw [if_neg hj]
    exact hi.occupied h hs'
  case owner =>
    intro j hj
    split_ifs at hj with hji
    obtain ⟨u, m', hm', hs'⟩ := hi.owner hj
    have hu : u ≠ t := by
      rintro rfl
      obtain rfl : m = m' := by simpa [hm] using hm'
      exact hji (Option.some.inj (hs'.symm.trans hs))
    exact ⟨u, m', by rw [if_neg hu, hm'], hs'⟩
  case fd_open =>
    intro u m' h
    split_ifs at h with hu
    rw [if_neg hu]
    exact hi.fd_open h
  case tearing =>
    intro u j h
    split_ifs at h with hu
    · cases h
    · rw [if_neg hu]
      exact hi.tearing h
  case opening =>
    intro u h
    split_ifs at h with hu
    rw [if_neg hu]
    exact hi.opening h
  case target =>
    intro u j c h
    split_ifs at h with hu
    · cases h
    · rw [if_neg (htarget hu h)]
      exact hi.target h
  case sending =>
    intro u j c fd o n h
    split_ifs at h with hu
    rw [if_neg (htarget (c := c) hu (by rw [h]; rfl))]
    exact hi.sending h

/-- **Every move keeps it.** -/
theorem Inv.move (hi : Inv v) (h : Move v t v') : Inv v' := by
  cases h with
  | stay => exact hi
  | @take i r hr hf =>
    have hlock : Inv (v.setSlot i { v.slots i with sendLock := some t }) :=
      hi.setSendLock fun {u} h => by
        rw [hi.locked h] at hf
        cases hf
    have hself : ((v.setSlot i { v.slots i with sendLock := some t }).slots i).sendLock =
        some t := by rw [View.slots_setSlot, if_pos rfl]
    rcases hr with ⟨hr, rfl⟩ | ⟨hr, rfl⟩
    · refine hlock.setRole (by simpa using hself) ?_ (by simp) (by simp) (by simp) (by simp)
      intro j hj
      cases hr.symm.trans hj
    · refine hlock.setRole (by simpa using hself) ?_ ?_ (by simp) (by simp) (by simp)
      · intro j hj
        cases hr.symm.trans hj
      · intro j hj
        exact hi.tearing (t := t) (by rw [hr]; exact hj)
  | @drop i hr =>
    have hfree : Inv (v.setRole t .free) :=
      hi.setRole (by simp) (by simp [hr]) (by simp) (by simp) (by simp) (by simp)
    refine hfree.setSendLock (i := i) (o := none) fun {u} h => ?_
    rw [View.role_setRole] at h
    split_ifs at h with hu
    · cases h
    · exact absurd (hi.lock_unique h (by rw [hr]; rfl)) hu
  | @check i hr ha =>
    refine hi.setRole ?_ (by simp [hr]) (by simp) (by simp) ?_ (by simp)
    · intro j hj
      exact hi.locked (by rw [hr]; exact hj)
    · rintro j c ⟨⟩
      exact ⟨ha, rfl⟩
  | @allocate i c hr =>
    have hcount : Inv { v with
      nextMessageId := v.nextMessageId + 1, allocated := v.allocated + 1 } := { hi with }
    exact hcount.setTarget (i := i) (c := c) (by rw [hr]; rfl) (.inl rfl) (by simp)
  | @build i c o hr =>
    refine hi.setTarget (i := i) (c := c) (by rw [hr]; rfl) (.inl rfl) ?_
    rintro _ _ _ _ _ ⟨⟩
    exact ⟨rfl, bytes_pos o⟩
  | @write i c fd d n k o r hr hd hb hk =>
    have ht : (v.role t).target = some (i, c) := by rw [hr]; rfl
    refine hi.setStream.setTarget ht ?_ ?_
    · rcases hk with ⟨-, rfl⟩ | ⟨-, rfl⟩
      · exact .inl rfl
      · exact .inr rfl
    · rintro _ _ _ _ _ rfl
      rcases hk with ⟨hk, h⟩ | ⟨-, h⟩
      · cases h
        exact ⟨(hi.sending hr).1, hk⟩
      · cases h
  | @fail i c fd d n o hr hd =>
    have ht : (v.role t).target = some (i, c) := by rw [hr]; rfl
    exact hi.setStream.setTarget ht (.inr rfl) (by simp)
  | @failClosed i c fd n o hr hd =>
    exact hi.setTarget (i := i) (c := c) (by rw [hr]; rfl) (.inr rfl) (by simp)
  | connect hr hm hfd => exact hi.connect hr hm hfd
  | giveUp hr hm => exact hi.giveUp hr hm
  | acquire hr hm ha => exact hi.acquire hr hm ha
  | @leave i m hr hm hs =>
    refine hi.setRole (by simp) (by simp [hr]) ?_ (by simp) (by simp) (by simp)
    rintro j ⟨⟩
    exact ⟨m, hm, hs⟩
  | close hr hm => exact hi.close hr hm
  | reset hr => exact hi.reset hr

/-! ### The bytes of one connection -/

/-- The frames that were begun, each of them to its end. -/
def Whole (s : Stream) : Prop := s.written = s.frames.flatMap Outgoing.bytes

/-- The last frame is `o`, and `n` bytes of it are written, but not all. -/
def CutAt (s : Stream) (o : Outgoing) (n : ℕ) : Prop :=
  0 < n ∧ n < o.bytes.length ∧ ∃ os, s.frames = os ++ [o] ∧
    s.written = os.flatMap Outgoing.bytes ++ o.bytes.take n

/-- The stream is ready for the bytes of `o` behind the first `n`. -/
def Ready (s : Stream) (o : Outgoing) (n : ℕ) : Prop := n = 0 ∧ Whole s ∨ CutAt s o n

variable {s : Stream} {o : Outgoing} {n k : ℕ}

/-- The bytes of a send go behind those of the sends before it. -/
lemma Ready.write (h : Ready s o n) : ∃ os, (s.write o n (k + 1)).frames = os ++ [o] ∧
    (s.write o n (k + 1)).written = os.flatMap Outgoing.bytes ++ o.bytes.take (n + (k + 1)) := by
  rcases h with ⟨rfl, h⟩ | ⟨hn, -, os, hf, hw⟩
  · refine ⟨s.frames, by simp [Stream.write], ?_⟩
    rw [Whole] at h
    simp [Stream.write, h]
  · refine ⟨os, by simp [Stream.write, hn.ne', hf], ?_⟩
    simp [Stream.write, hw, List.take_add]

lemma Ready.write_cut (h : Ready s o n) (hk : n + (k + 1) < o.bytes.length) :
    CutAt (s.write o n (k + 1)) o (n + (k + 1)) :=
  ⟨by omega, hk, h.write⟩

lemma Ready.write_whole (h : Ready s o n) (hk : n + (k + 1) = o.bytes.length) :
    Whole (s.write o n (k + 1)) := by
  obtain ⟨os, hf, hw⟩ := h.write (k := k)
  rw [Whole, hf, hw, hk]
  simp

/-- Whole frames, possibly followed by one that is incomplete. -/
def Framed (s : Stream) : Prop := Whole s ∨ ∃ o n, CutAt s o n

/-- Whoever reads such a stream gets its frames, but for the incomplete one. -/
lemma Framed.reads (h : Framed s) : ∃ os r, os <+: s.frames ∧ s.frames.length ≤ os.length + 1 ∧
    Reads (received daimPeerMaxPayloadSize) s.written (os.map Outgoing.frame) r := by
  rcases h with hw | ⟨o, n, -, hlt, os, hf, hw⟩
  · refine ⟨s.frames, [], List.prefix_rfl, Nat.le_succ _, ?_⟩
    rw [hw]
    exact delimits.reads_flatMap s.frames
  · refine ⟨os, o.bytes.take n, ?_, ?_, ?_⟩
    · rw [hf]
      exact List.prefix_append os [o]
    · simp [hf]
    · rw [hw]
      exact delimits.reads_append os (delimits.cut o n hlt)

/-- A stream is whole, or cut in a frame that is still on its way, or cut for good. -/
structure Streams (v : View) : Prop where
  whole : ∀ c, Whole (v.streams c) ∨ ∃ o n, CutAt (v.streams c) o n ∧
    ((v.streams c).broken = true ∨ ∃ t i fd, v.role t = .sending i c fd o n)
  flight : ∀ {t i c fd o n}, v.role t = .sending i c fd o n → 0 < n → CutAt (v.streams c) o n

/-- A thread that sends on an unbroken connection finds its stream ready. -/
lemma Streams.ready (hs : Streams v) (hi : Inv v) (h : v.role t = .sending i c fd o n)
    (hb : (v.streams c).broken = false) : Ready (v.streams c) o n := by
  rcases Nat.eq_zero_or_pos n with rfl | hn
  · rcases hs.whole c with hw | ⟨o', n', hcut, hbr | ⟨u, j, fd', hu⟩⟩
    · exact .inl ⟨rfl, hw⟩
    · cases hb.symm.trans hbr
    · have htu : t = u := hi.target_unique (c := c) (by rw [h]; rfl) (by rw [hu]; rfl)
      subst htu
      cases h.symm.trans hu
      exact absurd hcut.1 (lt_irrefl 0)
  · exact .inr (hs.flight h hn)

/-- A step that leaves the streams and the frames in flight. -/
lemma Streams.keep (hs : Streams v) (hstreams : v'.streams = v.streams)
    (hrole : ∀ {u i c fd o n}, 0 < n →
      (v'.role u = .sending i c fd o n ↔ v.role u = .sending i c fd o n)) : Streams v' where
  whole c := by
    rw [hstreams]
    refine (hs.whole c).imp_right ?_
    rintro ⟨o, n, hcut, hbr⟩
    refine ⟨o, n, hcut, hbr.imp_right ?_⟩
    rintro ⟨u, i, fd, hu⟩
    exact ⟨u, i, fd, (hrole hcut.1).mpr hu⟩
  flight h hn := by
    rw [hstreams]
    exact hs.flight ((hrole hn).mp h) hn

/-- A step between roles that have no part of a frame written. -/
lemma Streams.setRole (hs : Streams v) (hstreams : v'.streams = v.streams)
    (hrole : v'.role = Function.update v.role t r)
    (ht : ∀ {i c fd o n}, 0 < n → v.role t ≠ .sending i c fd o n)
    (hr : ∀ {i c fd o n}, 0 < n → r ≠ .sending i c fd o n) : Streams v' := by
  refine hs.keep hstreams fun {u i c fd o n} hn => ?_
  rw [hrole, Function.update_apply]
  split_ifs with hu
  · subst hu
    exact iff_of_false (hr hn) (ht hn)
  · rfl

/-- The thread that has connection `c` steps, and only that stream changes. -/
lemma Streams.setStream (hs : Streams v) (hi : Inv v) (ht : (v.role t).target = some (i, c))
    (hc : Whole s ∨ ∃ o n, CutAt s o n ∧
      (s.broken = true ∨ ∃ i fd, r = .sending i c fd o n))
    (hr : ∀ {i' c' fd o n}, r = .sending i' c' fd o n → 0 < n → c' = c ∧ CutAt s o n) :
    Streams ((v.setStream c s).setRole t r) := by
  constructor
  all_goals simp only [View.setStream, View.setRole, Function.update_apply]
  case whole =>
    intro d
    split_ifs with hd
    · subst hd
      refine hc.imp_right ?_
      rintro ⟨o, n, hcut, hbr⟩
      refine ⟨o, n, hcut, hbr.imp_right ?_⟩
      rintro ⟨j, fd, rfl⟩
      exact ⟨t, j, fd, by rw [if_pos rfl]⟩
    · refine (hs.whole d).imp_right ?_
      rintro ⟨o, n, hcut, hbr⟩
      refine ⟨o, n, hcut, hbr.imp_right ?_⟩
      rintro ⟨u, j, fd, hu⟩
      refine ⟨u, j, fd, ?_⟩
      have hut : u ≠ t := by
        rintro rfl
        rw [hu] at ht
        cases ht
        exact hd rfl
      rw [if_neg hut, hu]
  case flight =>
    intro u j d fd o n h hn
    split_ifs at h with hu
    · obtain ⟨rfl, hcut⟩ := hr h hn
      rw [if_pos rfl]
      exact hcut
    · have hd : d ≠ c := by
        rintro rfl
        exact hu (hi.target_unique (i := j) (by rw [h]; rfl) ht)
      rw [if_neg hd]
      exact hs.flight h hn

/-- **Every move keeps the streams framed.** -/
theorem Streams.move (hs : Streams v) (hi : Inv v) (h : Move v t v') : Streams v' := by
  cases h with
  | stay => exact hs
  | take hr hf =>
    rcases hr with ⟨hr, rfl⟩ | ⟨hr, rfl⟩
    · exact hs.setRole rfl rfl (by simp [hr]) (by simp)
    · exact hs.setRole rfl rfl (by simp [hr]) (by simp)
  | drop hr => exact hs.setRole rfl rfl (by simp [hr]) (by simp)
  | check hr ha => exact hs.setRole rfl rfl (by simp [hr]) (by simp)
  | allocate hr => exact hs.setRole rfl rfl (by simp [hr]) (by simp)
  | build hr =>
    refine hs.setRole rfl rfl (by simp [hr]) ?_
    rintro _ _ _ _ n hn ⟨⟩
    exact hn.false
  | @write i c fd d n k o r hr hd hb hk =>
    have ht : (v.role t).target = some (i, c) := by rw [hr]; rfl
    obtain rfl : c = d := Option.some.inj ((hi.send_open hr).symm.trans hd)
    have hready := hs.ready hi hr hb
    rcases hk with ⟨hk, rfl⟩ | ⟨hk, rfl⟩
    · have hcut := hready.write_cut hk
      refine hs.setStream hi ht (.inr ⟨o, _, hcut, .inr ⟨i, fd, rfl⟩⟩) ?_
      rintro _ _ _ _ _ ⟨⟩ -
      exact ⟨rfl, hcut⟩
    · exact hs.setStream hi ht (.inl (hready.write_whole hk)) (by simp)
  | @fail i c fd d n o hr hd =>
    have ht : (v.role t).target = some (i, c) := by rw [hr]; rfl
    obtain rfl : c = d := Option.some.inj ((hi.send_open hr).symm.trans hd)
    refine hs.setStream hi ht ?_ (by simp)
    rcases hs.whole c with hw | ⟨o', n', hcut, -⟩
    · exact .inl hw
    · exact .inr ⟨o', n', hcut, .inl rfl⟩
  | failClosed hr hd => cases (hi.send_open hr).symm.trans hd
  | connect hr hm hfd => exact hs.setRole rfl rfl (by simp [hr]) (by simp)
  | giveUp hr hm => exact hs.setRole rfl rfl (by simp [hr]) (by simp)
  | acquire hr hm ha => exact hs.setRole rfl rfl (by simp [hr]) (by simp)
  | leave hr hm hsl => exact hs.setRole rfl rfl (by simp [hr]) (by simp)
  | close hr hm => exact hs.setRole rfl rfl (by simp [hr]) (by simp)
  | reset hr => exact hs.setRole rfl rfl (by simp [hr]) (by simp)

/-! ### The message ids -/

/-- The ids on the connections, and those that threads have and have not written yet. -/
structure Numbered (v : View) : Prop where
  counter : v.nextMessageId.toNat = v.allocated
  issued : ∀ {c o}, o ∈ (v.streams c).frames → o.messageId ≤ v.nextMessageId
  increasing : ∀ c, ((v.streams c).frames.map Outgoing.messageId).Pairwise (· < ·)
  apart : ∀ {c d o o'}, c ≠ d → o ∈ (v.streams c).frames → o' ∈ (v.streams d).frames →
    o.messageId ≠ o'.messageId
  next : ∀ {t c id}, (v.role t).unwritten = some (c, id) → id ≤ v.nextMessageId ∧
    (∀ o ∈ (v.streams c).frames, o.messageId < id) ∧
    ∀ d, ∀ o ∈ (v.streams d).frames, o.messageId ≠ id
  next_inj : ∀ {t u c d id}, (v.role t).unwritten = some (c, id) →
    (v.role u).unwritten = some (d, id) → t = u

/-- A step that numbers and begins no frame. -/
lemma Numbered.keep (hn : Numbered v)
    (hnext : v'.nextMessageId = v.nextMessageId) (hall : v'.allocated = v.allocated)
    (hframes : ∀ c, (v'.streams c).frames = (v.streams c).frames)
    (hrole : ∀ {u c id}, (v'.role u).unwritten = some (c, id) →
      (v.role u).unwritten = some (c, id)) : Numbered v' where
  counter := by rw [hnext, hall, hn.counter]
  issued h := by
    rw [hframes] at h
    rw [hnext]
    exact hn.issued h
  increasing c := by
    rw [hframes]
    exact hn.increasing c
  apart hcd h h' := by
    rw [hframes] at h h'
    exact hn.apart hcd h h'
  next h := by
    simp only [hframes, hnext]
    exact hn.next (hrole h)
  next_inj h h' := hn.next_inj (hrole h) (hrole h')

lemma Numbered.setRole (hn : Numbered v)
    (hnext : v'.nextMessageId = v.nextMessageId) (hall : v'.allocated = v.allocated)
    (hframes : ∀ c, (v'.streams c).frames = (v.streams c).frames)
    (hrole : v'.role = Function.update v.role t r)
    (hr : ∀ {c id}, r.unwritten = some (c, id) → (v.role t).unwritten = some (c, id)) :
    Numbered v' := by
  refine hn.keep hnext hall hframes fun {u c id} h => ?_
  rw [hrole, Function.update_apply] at h
  split_ifs at h with hu
  · exact hu ▸ hr h
  · exact h

/-- The next id is larger than every id so far, until the counter overflows. -/
lemma Numbered.allocate (hn : Numbered v) (hlt : v.allocated + 1 < 2 ^ 64) :
    Numbered ({ v with
      nextMessageId := v.nextMessageId + 1
      allocated := v.allocated + 1 }.setRole t (.numbered i c (v.nextMessageId + 1))) := by
  have hsucc : (v.nextMessageId + 1).toNat = v.nextMessageId.toNat + 1 := by
    have := hn.counter
    rw [UInt64.toNat_add]
    simp
    omega
  have hlt_succ {id : UInt64} (h : id ≤ v.nextMessageId) : id < v.nextMessageId + 1 := by
    rw [UInt64.lt_iff_toNat_lt, hsucc]
    exact Nat.lt_succ_of_le (UInt64.le_iff_toNat_le.mp h)
  constructor
  all_goals simp only [View.setRole, Function.update_apply]
  case counter => rw [hsucc, hn.counter]
  case issued =>
    intro c o h
    exact UInt64.le_of_lt (hlt_succ (hn.issued h))
  case increasing => exact hn.increasing
  case apart => exact hn.apart
  case next =>
    intro u d id h
    split_ifs at h with hu
    · cases h
      refine ⟨UInt64.le_refl _, fun o ho => hlt_succ (hn.issued ho), fun d o ho => ?_⟩
      exact UInt64.ne_of_lt (hlt_succ (hn.issued ho))
    · obtain ⟨hle, hlt, hne⟩ := hn.next h
      exact ⟨UInt64.le_of_lt (hlt_succ hle), hlt, hne⟩
  case next_inj =>
    intro u w d d' id h h'
    split_ifs at h h' with hu hw hw
    · rw [hu, hw]
    · cases h
      exact absurd (hlt_succ (hn.next h').1) (UInt64.lt_irrefl _)
    · cases h'
      exact absurd (hlt_succ (hn.next h).1) (UInt64.lt_irrefl _)
    · exact hn.next_inj h h'

/-- The first bytes of a frame: its id goes onto the stream. -/
lemma Numbered.begin (hn : Numbered v) (hi : Inv v) (hr : v.role t = .sending i c fd o 0)
    (hs : s.frames = (v.streams c).frames ++ [o])
    (hr' : r.unwritten = none) : Numbered ((v.setStream c s).setRole t r) := by
  have hu : (v.role t).unwritten = some (c, o.messageId) := by rw [hr]; rfl
  obtain ⟨hle, hlt, hne⟩ := hn.next hu
  constructor
  all_goals simp only [View.setStream, View.setRole, Function.update_apply]
  case counter => exact hn.counter
  case issued =>
    intro d o' h
    split_ifs at h with hd
    · rw [hs] at h
      rcases List.mem_append.mp h with h | h
      · exact hn.issued h
      · rw [List.mem_singleton.mp h]
        exact hle
    · exact hn.issued h
  case increasing =>
    intro d
    split_ifs with hd
    · rw [hs, List.map_append, List.pairwise_append]
      refine ⟨hn.increasing c, by simp, ?_⟩
      intro id hid id' hid'
      obtain ⟨o', ho', rfl⟩ := List.mem_map.mp hid
      obtain rfl : id' = o.messageId := by simpa using hid'
      exact hlt o' ho'
    · exact hn.increasing d
  case apart =>
    intro d e o' o'' hde h h'
    split_ifs at h h' with hd he he
    · exact absurd (hd.trans he.symm) hde
    · rw [hs] at h
      rcases List.mem_append.mp h with h | h
      · exact hn.apart (hd ▸ hde) h h'
      · rw [List.mem_singleton.mp h]
        exact (hne e o'' h').symm
    · rw [hs] at h'
      rcases List.mem_append.mp h' with h' | h'
      · exact hn.apart (he ▸ hde) h h'
      · rw [List.mem_singleton.mp h']
        exact hne d o' h
    · exact hn.apart hde h h'
  case next =>
    intro u d id h
    split_ifs at h with hut
    · cases hr'.symm.trans h
    obtain ⟨hle', hlt', hne'⟩ := hn.next h
    have hid : o.messageId ≠ id := by
      rintro rfl
      exact hut (hn.next_inj h hu)
    have hd : d ≠ c := by
      rintro rfl
      obtain ⟨j, hj⟩ := Role.target_of_unwritten h
      exact hut (hi.target_unique (i := j) (j := i) (c := d) hj (by rw [hr]; rfl))
    refine ⟨hle', by rwa [if_neg hd], fun e o' ho' => ?_⟩
    split_ifs at ho' with he
    · rw [hs] at ho'
      rcases List.mem_append.mp ho' with ho' | ho'
      · exact hne' c o' ho'
      · rw [List.mem_singleton.mp ho']
        exact hid
    · exact hne' e o' ho'
  case next_inj =>
    intro u w d d' id h h'
    split_ifs at h h' with hu' hw hw
    · cases hr'.symm.trans h
    · cases hr'.symm.trans h
    · cases hr'.symm.trans h'
    · exact hn.next_inj h h'

/-- **Every move keeps the ids distinct**, up to the last id there is. -/
theorem Numbered.move (hn : Numbered v) (hi : Inv v) (h : Move v t v')
    (hlt : v'.allocated < 2 ^ 64) : Numbered v' := by
  cases h with
  | stay => exact hn
  | take hr hf =>
    rcases hr with ⟨hr, rfl⟩ | ⟨hr, rfl⟩
    · exact hn.setRole rfl rfl (fun _ => rfl) rfl (by simp)
    · exact hn.setRole rfl rfl (fun _ => rfl) rfl (by simp)
  | drop hr => exact hn.setRole rfl rfl (fun _ => rfl) rfl (by simp)
  | check hr ha => exact hn.setRole rfl rfl (fun _ => rfl) rfl (by simp)
  | allocate hr => exact hn.allocate hlt
  | build hr =>
    refine hn.setRole rfl rfl (fun _ => rfl) rfl ?_
    rintro _ _ ⟨⟩
    rw [hr]
    rfl
  | @write i c fd d n k o r hr hd hb hk =>
    obtain rfl : c = d := Option.some.inj ((hi.send_open hr).symm.trans hd)
    have hr' : r.unwritten = none := by
      rcases hk with ⟨-, rfl⟩ | ⟨-, rfl⟩
      · rfl
      · rfl
    rcases n with _ | n
    · exact hn.begin hi hr (by simp [Stream.write]) hr'
    · refine hn.setRole rfl rfl (fun e => ?_) rfl (fun h => by cases hr'.symm.trans h)
      simp only [View.setStream, View.setRole, Function.update_apply]
      split_ifs with he
      · rw [he]
        rfl
      · rfl
  | @fail i c fd d n o hr hd =>
    refine hn.setRole rfl rfl (fun e => ?_) rfl (by simp)
    simp only [View.setStream, View.setRole, Function.update_apply]
    split_ifs with he
    · rw [he]
    · rfl
  | failClosed hr hd => exact hn.setRole rfl rfl (fun _ => rfl) rfl (by simp)
  | connect hr hm hfd => exact hn.setRole rfl rfl (fun _ => rfl) rfl (by simp)
  | giveUp hr hm => exact hn.setRole rfl rfl (fun _ => rfl) rfl (by simp)
  | acquire hr hm ha => exact hn.setRole rfl rfl (fun _ => rfl) rfl (by simp)
  | leave hr hm hsl => exact hn.setRole rfl rfl (fun _ => rfl) rfl (by simp)
  | close hr hm => exact hn.setRole rfl rfl (fun _ => rfl) rfl (by simp)
  | reset hr => exact hn.setRole rfl rfl (fun _ => rfl) rfl (by simp)

/-! ### Runs -/

variable {x x' : SendFramed.Transport} {h : List (SendFramed.Transport × (ℕ × Act))}

/-- What holds in every state of a run. -/
structure Reached (x : SendFramed.Transport) : Prop where
  locked : Locked x
  inv : Inv (view x)
  streams : Streams (view x)
  numbered : x.allocated < 2 ^ 64 → Numbered (view x)

lemma reached_init {nodeId : UInt64} : Reached { nodeId := nodeId } where
  locked := locked_init
  inv := by
    constructor
    all_goals intros
    all_goals contradiction
  streams := ⟨fun c => .inl rfl, fun h => by cases h⟩
  numbered _ := by
    constructor
    case counter => rfl
    case increasing => exact fun _ => .nil
    all_goals intros
    all_goals contradiction

/-- **A step keeps all of it.** -/
theorem Reached.step {l : ℕ × Act} (hx : Reached x) (h : SendFramed.step x l = some x') :
    Reached x' := by
  obtain ⟨t, a⟩ := l
  obtain ⟨hl, hm⟩ := step_steps hx.locked h
  exact {
    locked := hl
    inv := hx.inv.move hm
    streams := hx.streams.move hx.inv hm
    numbered := fun hlt =>
      (hx.numbered (hm.allocated_le.trans_lt hlt)).move hx.inv hm hlt }

lemma Reached.framed (hx : Reached x) (c : ℕ) : Framed (x.streams c) := by
  rcases hx.streams.whole c with hw | ⟨o, n, hcut, -⟩
  · exact .inl hw
  · exact .inr ⟨o, n, hcut⟩

lemma reached (hr : Run transport h x) : Reached x :=
  hr.inv _ (by rintro _ ⟨nodeId, rfl⟩; exact reached_init) fun _ _ _ hx h => hx.step h

/-- **A peer gets what was sent.** Reading what a connection has been sent so far gives frames
that were begun on it, each once and in their order, and all of them but the last at least. -/
theorem frames_received (hr : Run transport h x) (c : ℕ) :
    ∃ os r, os <+: (x.streams c).frames ∧ (x.streams c).frames.length ≤ os.length + 1 ∧
      Reads (received daimPeerMaxPayloadSize) (x.streams c).written (os.map Outgoing.frame) r :=
  ((reached hr).framed c).reads

/-- **Outgoing streams stay framed, and no descriptor is stale.** In every state of a run, a
thread about to send has a descriptor that is open and belongs to the connection that had the
slot at its active check; what is written on a connection is whole frames, possibly with an
incomplete one at the very end; and while fewer than 2^64 frames have been numbered, the
message ids increase strictly on each connection and are nowhere repeated. -/
theorem streams_framed (hr : Run transport h x) :
    (∀ t i c fd o n, (x.threads t).pc = .sending i c fd o n →
      x.fds fd = some c ∧ (x.slots i).active = true ∧ (x.slots i).conn = c) ∧
    (∀ c, Framed (x.streams c)) ∧
    (x.allocated < 2 ^ 64 →
      (∀ c, ((x.streams c).frames.map Outgoing.messageId).Pairwise (· < ·)) ∧
      ∀ c d, c ≠ d → ∀ o ∈ (x.streams c).frames, ∀ o' ∈ (x.streams d).frames,
        o.messageId ≠ o'.messageId) := by
  have hx := reached hr
  refine ⟨?_, hx.framed, ?_⟩
  · intro t i c fd o n hpc
    have hrole : (view x).role t = .sending i c fd o n := role_eq hpc
    have htarget : ((view x).role t).target = some (i, c) := by rw [hrole]; rfl
    exact ⟨hx.inv.send_open hrole, hx.inv.target htarget⟩
  · intro hlt
    have hn := hx.numbered hlt
    exact ⟨hn.increasing, fun c d hcd o ho o' ho' => hn.apart hcd ho ho'⟩

/-- Thread 0 connects; thread 1 sends on the connection, in two pieces, and thread 2 begins to
once thread 1 is done. -/
def twoSenders : List (ℕ × Act) :=
  [(0, .connect 5), (0, .next 0), (0, .next 0), (0, .next 0), (1, .call 0 1 []),
    (2, .call 0 2 [7]), (1, .next 0), (1, .next 0), (1, .next 0), (1, .next 0), (1, .next 0),
    (1, .next 0), (1, .next 0), (1, .send (.count 12)), (1, .send .interrupted),
    (1, .send (.count 18)), (1, .next 0), (2, .next 0), (2, .next 0), (2, .next 0), (2, .next 0),
    (2, .next 0), (2, .next 0), (2, .next 0), (2, .send (.count 4))]

theorem streams_framed_twoSenders : ∃ h x, Run transport h x ∧ Framed (x.streams 0) ∧
    ((x.streams 0).frames.map Outgoing.messageId).Pairwise (· < ·) ∧
    (x.streams 0).frames.length = 2 ∧ (x.streams 0).written.length = 34 := by
  obtain ⟨h, x, hr, hp⟩ := exists_run_of_replay (f := SendFramed.step) (s := { nodeId := 1 })
    (i := fun x => ∃ nodeId, x = { nodeId := nodeId }) twoSenders ⟨_, rfl⟩
    (fun _ x => x.allocated = 2 ∧ (x.streams 0).frames.length = 2 ∧
      (x.streams 0).written.length = 34) (by decide +kernel)
  obtain ⟨hall, hframes, hwritten⟩ := hp
  obtain ⟨-, hframed, hids⟩ := streams_framed hr
  exact ⟨h, x, hr, hframed 0, (hids (by omega)).1 0, hframes, hwritten⟩

theorem frames_received_twoSenders : ∃ h x, ∃ os : List Outgoing, ∃ r, Run transport h x ∧
    1 ≤ os.length ∧
    Reads (received daimPeerMaxPayloadSize) (x.streams 0).written (os.map Outgoing.frame) r := by
  obtain ⟨h, x, hr, hframes⟩ := exists_run_of_replay (f := SendFramed.step) (s := { nodeId := 1 })
    (i := fun x => ∃ nodeId, x = { nodeId := nodeId }) twoSenders ⟨_, rfl⟩
    (fun _ x => (x.streams 0).frames.length = 2) (by decide +kernel)
  obtain ⟨os, r, -, hlen, hreads⟩ := frames_received hr 0
  exact ⟨h, x, os, r, hr, by omega, hreads⟩

end DaimDistributed.OutgoingStreams
