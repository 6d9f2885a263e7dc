import SeekingOs.Thread.LockInvariant

/-!
# Between `lock_acquire` and `lock_release`

A function that takes a lock, works and gives it back is for each thread not called, on the way in,
at work or on the way out. Only one thread is at work, whatever the statements of the lock and the
steps of the scheduler are that come between.
-/

namespace SeekingOs.Thread

open Lib

/-- Where a thread is in a function that works under the lock. -/
inductive Stage where
  | out | acquiring | inside | releasing
  deriving DecidableEq, Repr

/-- Where the thread is in the lock's code then, and how deep it holds the lock. -/
def Stage.Fits (g : Stage) (p : LockPoint) (d : Nat) : Prop :=
  match g with
  | .out => p = .out ∧ d = 0
  | .acquiring => (p = .down ∨ p = .taking ∨ p = .taken) ∧ d = 0 ∨ p = .out ∧ d = 1
  | .inside => p = .out ∧ d = 1
  | .releasing => (p = .freeing ∨ p = .freed ∨ p = .up) ∧ d = 0 ∨ p = .out ∧ d = 0

/-- The lock, and a function under it. -/
structure Sectioned (s : LockSched) (owner : Option Addr) (stage : Addr → Stage) : Prop where
  held : Held s owner
  fits : ∀ t, (stage t).Fits (s.point t) (s.depth t)

variable {l l' : LockSched} {owner : Option Addr} {stage : Addr → Stage} {s s' : Sched}

/-- ONE AT A TIME. -/
theorem Sectioned.alone (h : Sectioned l owner stage) {t u : Addr} (ht : stage t = .inside)
    (hu : stage u = .inside) : t = u := by
  have owns (v : Addr) (hv : stage v = .inside) : owner = some v := by
    have fits := h.fits v
    rw [hv] at fits
    refine h.held.owner_of ?_
    rw [fits.1, fits.2]
    exact Nat.one_pos
  exact Option.some.inj ((owns t ht).symm.trans (owns u hu))

/-! ## The steps of the lock -/

/-- A statement of the lock's code moves the current task on in it, and no other. -/
theorem statement_fits (hst : l.statement = .ok l') :
    (∀ t, t ≠ l.sched.cur → l'.point t = l.point t ∧ l'.depth t = l.depth t) ∧
      ∀ g : Stage, g.Fits (l.point l.sched.cur) (l.depth l.sched.cur) →
        g.Fits (l'.point l.sched.cur) (l'.depth l.sched.cur) := by
  have others (p : LockPoint) (t : Addr) (ht : t ≠ l.sched.cur) : (l.goTo p).point t = l.point t ∧
      (l.goTo p).depth t = l.depth t :=
    ⟨goTo_other p ht, rfl⟩
  have others' (p : LockPoint) (d : Nat) (t : Addr) (ht : t ≠ l.sched.cur) :
      ((l.goTo p).setDepth d).point t = l.point t ∧ ((l.goTo p).setDepth d).depth t = l.depth t :=
    ⟨goTo_other p ht, setDepth_other (l := l.goTo p) d ht⟩
  have self (p : LockPoint) : (l.goTo p).point l.sched.cur = p := goTo_self p
  have moves {p : LockPoint} {g : Stage} (fits : g.Fits p (l.depth l.sched.cur)) :
      g.Fits ((l.goTo p).point l.sched.cur) ((l.goTo p).depth l.sched.cur) := by
    rw [self]
    exact fits
  unfold LockSched.statement at hst
  cases hp : l.point l.sched.cur <;> rw [hp] at hst
  case out =>
    cases hst
    exact ⟨fun _ _ => ⟨rfl, rfl⟩, fun _ fits => hp ▸ fits⟩
  case down =>
    obtain ⟨sched, -, ⟨⟩⟩ := bind_eq_ok.mp hst
    refine ⟨others _, fun g fits => moves ?_⟩
    cases g <;> simp [Stage.Fits] at fits ⊢
    exact fits
  case taking =>
    cases hst
    refine ⟨others _, fun g fits => moves ?_⟩
    cases g <;> simp [Stage.Fits] at fits ⊢
    exact fits
  case taken =>
    obtain ⟨_, -, ⟨⟩⟩ := bind_eq_ok.mp hst
    refine ⟨others' _ _, fun g fits => ?_⟩
    have hd : ((l.goTo .out).setDepth 1).depth l.sched.cur = 1 := setDepth_self (l := l.goTo .out) 1
    show g.Fits ((l.goTo .out).point l.sched.cur) (((l.goTo .out).setDepth 1).depth l.sched.cur)
    rw [self, hd]
    cases g <;> simp [Stage.Fits] at fits ⊢
  case freeing =>
    cases hst
    refine ⟨others _, fun g fits => moves ?_⟩
    cases g <;> simp [Stage.Fits] at fits ⊢
    exact fits
  case freed =>
    cases hst
    refine ⟨others _, fun g fits => moves ?_⟩
    cases g <;> simp [Stage.Fits] at fits ⊢
    exact fits
  case up =>
    obtain ⟨sched, -, ⟨⟩⟩ := bind_eq_ok.mp hst
    refine ⟨others _, fun g fits => moves ?_⟩
    cases g <;> simp [Stage.Fits] at fits ⊢
    exact fits
  case again =>
    cases hst
    refine ⟨others _, fun g fits => ?_⟩
    cases g <;> simp [Stage.Fits] at fits
  case more n =>
    cases hst
    refine ⟨others' _ _, fun g fits => ?_⟩
    cases g <;> simp [Stage.Fits] at fits
  case fewer =>
    cases hst
    refine ⟨others _, fun g fits => ?_⟩
    cases g <;> simp [Stage.Fits] at fits
  case less n =>
    cases hst
    refine ⟨others' _ _, fun g fits => ?_⟩
    cases g <;> simp [Stage.Fits] at fits

/-- The events of the lock that are not calls. -/
def Quiet : LockEvent → Prop
  | .statement | .sched _ => True
  | _ => False

instance (e : LockEvent) : Decidable (Quiet e) :=
  match e with
  | .statement | .sched _ => inferInstanceAs (Decidable True)
  | .lockAcquire | .lockRelease => inferInstanceAs (Decidable False)

/-- THE STEPS BETWEEN keep the threads where they are in the function. -/
theorem Sectioned.quiet (h : Sectioned l owner stage) {e : LockEvent} (quiet : Quiet e)
    (en : lockEnabled l e) :
    Ensures (· ∉ syncAsserts) (fun p => ∃ owner', Sectioned p.1 owner' stage) (lockStep l e) := by
  have shallow : Shallow l e := by
    cases e with
    | lockAcquire => exact quiet.elim
    | _ => trivial
  have keeps := lockStep_keeps h.held en shallow
  cases hst : lockStep l e with
  | error f => rw [hst] at keeps; exact keeps
  | ok p =>
    rw [hst] at keeps
    obtain ⟨owner', held⟩ := keeps
    refine ⟨owner', held, fun t => ?_⟩
    cases e with
    | lockAcquire => exact quiet.elim
    | lockRelease => exact quiet.elim
    | sched e =>
      obtain ⟨⟨sched, _⟩, -, ⟨⟩⟩ := bind_eq_ok.mp hst
      exact h.fits t
    | statement =>
      obtain ⟨l', hl', ⟨⟩⟩ := bind_eq_ok.mp hst
      obtain ⟨others, self⟩ := statement_fits hl'
      by_cases ht : t = l.sched.cur
      · rw [ht]
        exact self _ (h.fits _)
      · rw [(others t ht).1, (others t ht).2]
        exact h.fits t

/-! ## The steps of the function -/

/-- The current task goes on in the function. -/
theorem Sectioned.move (h : Sectioned l owner stage) {g : Stage} (held : Held l' owner)
    (others : ∀ t, t ≠ l.sched.cur → l'.point t = l.point t ∧ l'.depth t = l.depth t)
    (fits : g.Fits (l'.point l.sched.cur) (l'.depth l.sched.cur)) :
    Sectioned l' owner (Function.update stage l.sched.cur g) := by
  refine ⟨held, fun t => ?_⟩
  by_cases ht : t = l.sched.cur
  · rw [ht, Function.update_self]
    exact fits
  · rw [Function.update_of_ne ht, (others t ht).1, (others t ht).2]
    exact h.fits t

/-- The call of `lock_acquire`. -/
theorem Sectioned.acquire (h : Sectioned l owner stage)
    (hrun : (l.sched.tasks l.sched.cur).resume = .run) (hidle : l.sched.cur ≠ l.sched.idleThread)
    (hout : stage l.sched.cur = .out) :
    Sectioned l.lockAcquire owner (Function.update stage l.sched.cur .acquiring) := by
  have fits := h.fits l.sched.cur
  rw [hout] at fits
  obtain ⟨hpoint, hdepth⟩ := fits
  have held :=
    lockAcquire_keeps h.held ⟨hrun, hidle, hpoint⟩
      (show l.depth l.sched.cur < 2 ^ 32 - 1 by rw [hdepth]; decide)
  have hholder : l.holder ≠ some l.sched.cur := by
    rw [ne_eq, h.held.holds, hpoint, hdepth]
    exact Nat.lt_irrefl 0
  unfold LockSched.lockAcquire at held ⊢
  rw [if_pos hholder] at held ⊢
  refine h.move held (fun t ht => ⟨goTo_other _ ht, rfl⟩) (.inl ⟨.inl (goTo_self _), hdepth⟩)

/-- The lock is acquired. -/
theorem Sectioned.enter (h : Sectioned l owner stage) (hacq : stage l.sched.cur = .acquiring)
    (hpoint : l.point l.sched.cur = .out) :
    Sectioned l owner (Function.update stage l.sched.cur .inside) := by
  have fits := h.fits l.sched.cur
  rw [hacq] at fits
  refine h.move h.held (fun _ _ => ⟨rfl, rfl⟩) ⟨hpoint, ?_⟩
  rcases fits with ⟨hp, -⟩ | ⟨-, hd⟩
  · rw [hpoint] at hp
    rcases hp with e | e | e <;> cases e
  · exact hd

/-- The call of `lock_release`; its assertions hold. -/
theorem Sectioned.release (h : Sectioned l owner stage)
    (hrun : (l.sched.tasks l.sched.cur).resume = .run) (hin : stage l.sched.cur = .inside) :
    ∃ l', l.lockRelease = .ok l' ∧ l'.sched = l.sched ∧
      Sectioned l' owner (Function.update stage l.sched.cur .releasing) := by
  have fits := h.fits l.sched.cur
  rw [hin] at fits
  obtain ⟨hpoint, hdepth⟩ := fits
  obtain ⟨l', hl', held⟩ :=
    lockRelease_keeps h.held ⟨hrun, hpoint, by rw [hdepth]; exact Nat.one_pos⟩
  have owns : owner = some l.sched.cur := by
    refine h.held.owner_of ?_
    rw [hpoint, hdepth]
    exact Nat.one_pos
  have hnr : l.holderRepeatNr = 1 := by
    rw [h.held.repeats _ owns, hpoint, hdepth]
    rfl
  have hrel := hl'
  unfold LockSched.lockRelease at hrel
  obtain ⟨_, -, hrel⟩ := bind_eq_ok.mp hrel
  rw [if_neg (by omega)] at hrel
  obtain ⟨_, -, ⟨⟩⟩ := bind_eq_ok.mp hrel
  refine ⟨_, hl', rfl, h.move held
    (fun t ht => ⟨goTo_other _ ht, setDepth_other (l := l.goTo .freeing) _ ht⟩)
      (.inl ⟨.inl ?_, ?_⟩)⟩
  · exact goTo_self _
  · exact setDepth_self (l := l.goTo .freeing) 0

/-- The lock is released. -/
theorem Sectioned.leave (h : Sectioned l owner stage) (hrel : stage l.sched.cur = .releasing)
    (hpoint : l.point l.sched.cur = .out) :
    Sectioned l owner (Function.update stage l.sched.cur .out) := by
  have fits := h.fits l.sched.cur
  rw [hrel] at fits
  refine h.move h.held (fun _ _ => ⟨rfl, rfl⟩) ⟨hpoint, ?_⟩
  rcases fits with ⟨-, hd⟩ | ⟨-, hd⟩ <;> exact hd

/-- Nobody is at work when the lock is initialised. -/
theorem lockInit_sectioned {sched : Sched} (held : Held (lockInit sched) none) :
    Sectioned (lockInit sched) none fun _ => .out :=
  ⟨held, fun _ => ⟨rfl, rfl⟩⟩

/-! ## Other semaphores -/

/-- The semaphores but the lock's stay, and nobody begins or ends to wait for one of them. -/
structure Aside (s s' : Sched) : Prop where
  semaphores : ∀ k, k ≠ lockSema → s'.semaphores k = s.semaphores k
  resumes : ∀ t k old, k ≠ lockSema →
    ((s'.tasks t).resume = .semaDown k old ↔ (s.tasks t).resume = .semaDown k old)

/-- Waits for no semaphore but the lock's. -/
def NoOther (r : Resume) : Prop := ∀ k old, k ≠ lockSema → r ≠ .semaDown k old

theorem LockResume.noOther {r : Resume} (h : LockResume r) : NoOther r := by
  rintro k old hk rfl
  exact hk h

theorem aside_of (semaphores : ∀ k, k ≠ lockSema → s'.semaphores k = s.semaphores k)
    (others : ∀ t, t ≠ s.cur → (s'.tasks t).resume = (s.tasks t).resume)
    (before : NoOther (s.tasks s.cur).resume) (after : NoOther (s'.tasks s.cur).resume) :
    Aside s s' := by
  refine ⟨semaphores, fun t k old hk => ?_⟩
  by_cases ht : t = s.cur
  · rw [ht]
    exact iff_of_false (after k old hk) (before k old hk)
  · rw [others t ht]

theorem Leaves.aside {r : Resume} (h : Leaves s s.cur r s')
    (before : NoOther (s.tasks s.cur).resume) (after : NoOther r) : Aside s s' :=
  aside_of (fun k _ => by rw [h.semaphores]) h.others before (by rw [h.self]; exact after)

theorem SameResumes.aside (h : SameResumes s s') : Aside s s' :=
  ⟨fun k _ => by rw [h.semaphores], fun t k old _ => by rw [h.resume]⟩

theorem semaDownLoop_others {k : Nat} {old : Bool} (hs : semaDownLoop s k old = .ok s') {j : Nat}
    (hj : j ≠ k) : s'.semaphores j = s.semaphores j := by
  unfold semaDownLoop at hs
  split at hs
  · obtain ⟨_, -, hs⟩ := bind_eq_ok.mp hs
    rw [((threadBlock_leaves _ _ _).of_ok hs).semaphores, setSema_semaphores, if_neg hj]
  · obtain ⟨_, -, ⟨⟩⟩ := bind_eq_ok.mp hs
    exact Function.update_of_ne hj _ _

theorem semaUp_others {k : Nat} (hs : semaUp s k = .ok s') {j : Nat} (hj : j ≠ k) :
    s'.semaphores j = s.semaphores j := by
  unfold semaUp at hs
  obtain ⟨_, -, hs⟩ := bind_eq_ok.mp hs
  obtain ⟨s₁, hpop, hs⟩ := bind_eq_ok.mp hs
  obtain ⟨_, -, ⟨⟩⟩ := bind_eq_ok.mp hs
  rw [setSema_semaphores, if_neg hj]
  unfold semaPop at hpop
  split at hpop
  · cases hpop
    rfl
  · rw [((threadUnblock_same _ _).of_ok hpop).semaphores, setSema_semaphores, if_neg hj]

/-- The loop of `sema_down` on the lock's semaphore: a thread sleeps on that then, or it goes on. -/
theorem Held.semaDownLoop_aside {sched : Sched} {old : Bool} (held : Held l owner)
    (hidle : l.sched.cur ≠ l.sched.idleThread) (before : NoOther (l.sched.tasks l.sched.cur).resume)
    (hs : semaDownLoop l.sched lockSema old = .ok sched) : Aside l.sched sched := by
  obtain ⟨_, hs', -, -, others, -, way⟩ :=
    held.queues.semaDownLoop hidle lockSema old (by rw [held.value]; split <;> omega)
  cases hs'.symm.trans hs
  refine aside_of (fun k hk => semaDownLoop_others hs hk) others before ?_
  rcases way with ⟨-, -, hr⟩ | ⟨-, -, hr⟩
  · rw [hr]
    rintro k old hk ⟨⟩
    exact hk rfl
  · rw [hr]
    exact fun _ _ _ => nofun

/-- The steps between have no part in the other semaphores. -/
theorem quiet_aside (held : Held l owner) {e : LockEvent} (quiet : Quiet e) (en : lockEnabled l e)
    (hst : lockStep l e = .ok (l', ())) : Aside l.sched l'.sched := by
  have run : NoOther Resume.run := fun _ _ _ => nofun
  have plain {r : Resume} (hr : r = .run) : NoOther r := by
    rw [hr]
    exact run
  cases e with
  | lockAcquire => exact quiet.elim
  | lockRelease => exact quiet.elim
  | statement =>
    obtain ⟨hrun, hout⟩ := en
    obtain ⟨l', hl', ⟨⟩⟩ := bind_eq_ok.mp hst
    have same : Aside l.sched l.sched := SameResumes.aside (.refl _)
    unfold LockSched.statement at hl'
    cases hp : l.point l.sched.cur <;> rw [hp] at hl'
    case out => exact absurd hp hout
    case down =>
      obtain ⟨sched, hs, ⟨⟩⟩ := bind_eq_ok.mp hl'
      exact held.semaDownLoop_aside (held.not_idle (.inl hout)) (plain hrun) hs
    case up =>
      obtain ⟨sched, hs, ⟨⟩⟩ := bind_eq_ok.mp hl'
      have hzero : (l.sched.semaphores lockSema).value = 0 := by
        rw [held.value, if_neg]
        rw [held.owner_of (show Owning (l.point l.sched.cur) _ _ by rw [hp]; trivial)]
        exact nofun
      obtain ⟨_, hs', -, -, -, hresume, -, -⟩ := held.queues.semaUp lockSema hzero
      cases hs'.symm.trans hs
      exact ⟨fun k hk => semaUp_others hs hk, fun t k old _ => by rw [hresume]⟩
    case taken =>
      obtain ⟨_, -, ⟨⟩⟩ := bind_eq_ok.mp hl'
      exact same
    all_goals cases hl'; exact same
  | sched e =>
    obtain ⟨en, hbeside⟩ := en
    obtain ⟨⟨sched, out⟩, hs, ⟨⟩⟩ := bind_eq_ok.mp hst
    show Aside l.sched sched
    unfold step at hs
    cases e <;> dsimp only at hs
    case goOn =>
      have before := LockResume.noOther hbeside
      unfold goOn at hs
      have runs (intr : Bool) :
          Aside l.sched ({ l.sched with intr }.setTask l.sched.cur ({ · with resume := .run })) :=
        Leaves.aside (r := .run) (leaves_setTask rfl rfl rfl) before run
      cases hr : (l.sched.tasks l.sched.cur).resume <;> rw [hr] at hs
      case run => cases hs; exact SameResumes.aside (.refl _)
      case fresh => cases hs; exact runs true
      case ret old => cases hs; exact runs old
      case ioqWait w => cases hs; exact runs false
      case semaDown k old =>
        obtain rfl : k = lockSema := by
          change LockResume _ at hbeside
          rw [hr] at hbeside
          exact hbeside
        obtain ⟨s₁, hs₁, ⟨⟩⟩ := bind_eq_ok.mp hs
        have hpoint : l.point l.sched.cur = .taking := held.waits _ (by rw [hr]; exact rfl)
        exact held.semaDownLoop_aside
          (held.not_idle (t := l.sched.cur) (.inl (by rw [hpoint]; exact nofun))) before hs₁
      case wait =>
        change LockResume _ at hbeside
        rw [hr] at hbeside
        exact hbeside.elim
      case exited =>
        change LockResume _ at hbeside
        rw [hr] at hbeside
        exact hbeside.elim
      case «over» =>
        change LockResume _ at hbeside
        rw [hr] at hbeside
        exact hbeside.elim
    case tick =>
      obtain ⟨_, hs', ⟨⟩⟩ := bind_eq_ok.mp hs
      rcases (intrTimerHandler_leaves _).of_ok hs' with left | left
      · exact left.aside (plain en.1) (plain en.1)
      · exact left.aside (plain en.1) fun _ _ _ => (nofun)
    case yield =>
      obtain ⟨_, hs', ⟨⟩⟩ := bind_eq_ok.mp hs
      exact ((threadYield_leaves _).of_ok hs').aside (plain en.1) fun _ _ _ => (nofun)
    case ioqWait w =>
      obtain ⟨_, hs', ⟨⟩⟩ := bind_eq_ok.mp hs
      exact ((ioqWait_leaves _ w).of_ok hs').aside (plain en.1) fun _ _ _ => (nofun)
    case wakeup w =>
      obtain ⟨_, hs', ⟨⟩⟩ := bind_eq_ok.mp hs
      exact ((wakeup_same _ w).of_ok hs').aside
    case idleBlock =>
      obtain ⟨_, hs', ⟨⟩⟩ := bind_eq_ok.mp hs
      exact ((threadBlock_leaves _ _ _).of_ok hs').aside (plain en.1) fun _ _ _ => (nofun)
    case intrEnable => cases hs; exact ⟨fun _ _ => rfl, fun _ _ _ _ => Iff.rfl⟩
    case intrDisable => cases hs; exact ⟨fun _ _ => rfl, fun _ _ _ _ => Iff.rfl⟩
    case semaDown k => exact hbeside.elim
    case semaUp k => exact hbeside.elim
    case sysWait => exact hbeside.elim
    case sysExit status => exact hbeside.elim
    case sysFork t => exact hbeside.elim
    case sysExecv path => exact hbeside.elim
    case threadStart t name prio => exact hbeside.elim
    case mainExit => exact hbeside.elim

/-- The scheduler and the other semaphores go their way. -/
theorem Sectioned.apart (h : Sectioned l owner stage) {sched : Sched} (queues : Queues sched)
    (tree : SameTree l.sched sched)
    (hsema : sched.semaphores lockSema = l.sched.semaphores lockSema)
    (same : ∀ t, InSemaDown (sched.tasks t).resume ↔ InSemaDown (l.sched.tasks t).resume) :
    Sectioned { l with sched } owner stage := by
  have held := h.held
  refine ⟨⟨queues, ?_, fun t => ?_, held.holds, held.repeats, held.free, fun t ht => ?_, held.depth,
    ?_, fun hnone hne => ?_⟩, h.fits⟩
  · show (sched.semaphores lockSema).value = _
    rw [hsema]
    exact held.value
  · exact (held.owns t).trans (owning_congr (same t).symm)
  · exact held.waits t ((same t).mp ht)
  · show l.point sched.idleThread = .out ∧ l.depth sched.idleThread = 0
    rw [tree.idleThread]
    exact held.idle
  · change (sched.semaphores lockSema).waiters ≠ [] at hne
    rw [hsema] at hne
    obtain ⟨t, hmem, hnot, hin⟩ := held.pending hnone hne
    refine ⟨t, ?_, ?_, (same t).mpr hin⟩
    · show t ∈ sched.allList
      rw [tree.allList]
      exact hmem
    · show t ∉ (sched.semaphores lockSema).waiters
      rw [hsema]
      exact hnot

end SeekingOs.Thread
