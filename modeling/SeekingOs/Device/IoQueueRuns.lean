import SeekingOs.Device.IoQueueInvariant

/-!
# I/O queues are queues, but a waiter can be forgotten

`ioq_first_in_first_out` holds for any number of producers and consumers, in any order of their
steps. Who sleeps is another matter. A task that finds the queue empty tests it *before* it takes
the queue's lock, and taking the lock can block; when it has the lock the queue may have bytes in
it, and nothing is tested again. `ioq_sleepers` says that this is the only way to sleep on a queue
that is ready, and `sleeper_on_ready_queue` is a run that goes it.
-/

namespace SeekingOs.Device

open Lib Thread

variable {q q' : Ioqueue} {c : IoqCall} {e : IoqEvent}

/-! ## What one step does -/

/-- What one step does to the ring and to the waiter variables. -/
inductive Does (q : Ioqueue) (e : IoqEvent) (q' : Ioqueue) : Prop
  | quiet (waiter : q'.lock.sched.waiter = q.lock.sched.waiter) (ring : SameRing q q')
  | waits (c : IoqCall) (statement : e = .statement) (place : q.place q.cur = .locking c)
      (point : q.lock.point q.cur = .out)
      (waiter : q'.lock.sched.waiter = Function.update q.lock.sched.waiter c.waiter (some q.cur))
        (ring : SameRing q q')
  | gets (some : ¬ q.ioqEmpty)
      (waiter : q'.lock.sched.waiter = Function.update q.lock.sched.waiter producer none)
  | puts (room : ¬ q.ioqFull)
      (waiter : q'.lock.sched.waiter = Function.update q.lock.sched.waiter consumer none)

/-- A step keeps the invariant, and neither `ioq_wait` nor `wakeup` fails. -/
abbrev Steps (q : Ioqueue) (e : IoqEvent) (r : Except Fault Ioqueue) : Prop :=
  IoqPasses (fun q' => IoqInv q' ∧ Does q e q') r

/-- The current task is behind the lock's code, or has not entered it, with interrupts off. -/
structure AtTest (q : Ioqueue) : Prop where
  run : (q.lock.sched.tasks q.cur).resume = .run
  point : q.lock.point q.cur = .out
  depth : q.lock.depth q.cur = 0
  intr : q.lock.sched.intr = false

theorem AtTest.notDown (h : AtTest q) : ¬ InSemaDown (q.lock.sched.tasks q.cur).resume := by
  rw [h.run]
  exact id

/-- A task that runs is in no wait. -/
theorem fits_out : Fits .out .out 0 .run := .out id fun _ e => by cases e

/-- `wakeup` at the end of a call: nobody moves. -/
theorem wakeupIf_moves (held : ∃ owner, Held q.lock owner) (h : AtTest q) (w : Nat) :
    IoqPasses (fun q' => (∃ owner, Held q'.lock owner) ∧ q' = { q with lock := q'.lock } ∧
      Moves q.lock .out 0 .run (Function.update q.lock.sched.waiter w none) q'.lock)
      (q.wakeupIf w) := by
  obtain ⟨owner, held⟩ := held
  unfold Ioqueue.wakeupIf
  split
  next some =>
    have frame := wakeup_frame some
    have same := wakeup_same q.lock.sched w
    have keeps := wakeup_keeps held.queues w
    cases hs : wakeup q.lock.sched w with
    | error f => exact frame.of_error hs
    | ok sched =>
      rw [hs] at frame same keeps
      have held' := held.beside keeps.1 keeps.2 (same.beside h.notDown) h.notDown
      refine ⟨⟨owner, held'⟩, rfl, stays h.point, stays h.depth, (same.resume _).trans h.run,
        fun t _ => same.resume t,
        keeps.2.idleThread, frame.1, fun _ => ⟨frame.2.1, frame.2.2.trans h.intr⟩⟩
  next none =>
    refine ⟨⟨owner, held⟩, rfl, stays h.point, stays h.depth, h.run, fun t _ => rfl, rfl, ?_,
      fun _ => ⟨rfl, h.intr⟩⟩
    exact stays (Option.not_isSome_iff_eq_none.mp none)

/-- `ioq_getchar` behind its loop -/
theorem getcharEnd_steps (inv : IoqInv q) (h : AtTest q) (some : ¬ q.ioqEmpty) :
    Steps q e q.getcharEnd := by
  have woken :=
    wakeupIf_moves
      (q := { q.goTo .out with tail := nextPos q.tail, returned := q.returned ++ [q.buf q.tail] })
    inv.held ⟨h.run, h.point, h.depth, h.intr⟩ producer
  apply woken.mono
  rintro q' ⟨held, same, moves⟩
  have ring : Fifo q' := by
    rw [same]
    exact inv.ring.get some rfl rfl rfl rfl rfl
  refine ⟨inv.move held moves fits_out ?_ (.inl rfl) ring, .gets some moves.waiter⟩
  rw [same]
  rfl

/-- `ioq_putchar` behind its loop -/
theorem putcharEnd_steps (inv : IoqInv q) (h : AtTest q) (room : ¬ q.ioqFull) (byte : UInt8) :
    Steps q e (q.putcharEnd byte) := by
  have woken := wakeupIf_moves (q := { q.goTo .out with
    buf := Function.update q.buf q.head byte, head := nextPos q.head, stored :=
      q.stored ++ [byte] })
    inv.held ⟨h.run, h.point, h.depth, h.intr⟩ consumer
  apply woken.mono
  rintro q' ⟨held, same, moves⟩
  have ring : Fifo q' := by
    rw [same]
    exact inv.ring.put room rfl rfl rfl rfl rfl
  refine ⟨inv.move held moves fits_out ?_ (.inl rfl) ring, .puts room moves.waiter⟩
  rw [same]
  rfl

/-- The loop of a call, from its condition on -/
theorem loop_steps (inv : IoqInv q) (h : AtTest q)
    (hidle : q.cur ≠ q.lock.sched.idleThread ∨ ¬ q.MustWait c) : Steps q e (q.loop c) := by
  obtain ⟨owner, held⟩ := inv.held
  unfold Ioqueue.loop
  dsimp only
  rw [assertThat_of h.intr, ok_bind]
  by_cases must : q.MustWait c
  · rw [if_pos must]
    have hidle := hidle.resolve_right (not_not.mpr must)
    have shallow : q.lock.depth q.cur < 2 ^ 32 - 1 := by
      rw [h.depth]
      decide
    have held' := lockAcquire_keeps held ⟨h.run, hidle, h.point⟩ shallow
    have moves := lockAcquire_moves held h.point h.depth h.run h.intr
    have same : SameRing q { q.goTo (.locking c) with lock := q.lock.lockAcquire } :=
      ⟨rfl, rfl, rfl, rfl, rfl⟩
    exact ⟨inv.move ⟨owner, held'⟩ moves (.down c) rfl (.inr hidle) (same.fifo inv.ring),
      .quiet moves.waiter same⟩
  · rw [if_neg must]
    cases c with
    | getchar => exact getcharEnd_steps inv h must
    | putchar byte => exact putcharEnd_steps inv h must byte

/-- A statement of the lock's code -/
theorem inLock_steps (inv : IoqInv q) {place : IoqPlace} {p : LockPoint} {d : Nat}
    (hrun : (q.lock.sched.tasks q.cur).resume = .run) (hplace : q.place q.cur = place)
    (inLock : ∃ c, place = .locking c ∨ place = .unlocking c) (hpoint : q.lock.point q.cur ≠ .out)
    (moves : ∀ owner l', Held q.lock owner → q.lock.statement = .ok l' →
      ∃ r, Moves q.lock p d r q.lock.sched.waiter l' ∧ Fits place p d r) :
    Steps q .statement q.statement := by
  have code : q.statement = do return { q with lock := ← q.lock.statement } := by
    unfold Ioqueue.statement
    obtain ⟨c, e | e⟩ := inLock
    · rw [hplace, e]
      exact if_neg hpoint
    · rw [hplace, e]
      exact if_neg hpoint
  obtain ⟨owner, held⟩ := inv.held
  obtain ⟨l', owner', hl, held'⟩ := statement_keeps held ⟨hrun, hpoint⟩
  obtain ⟨r, moves, fits⟩ := moves owner l' held hl
  have hidle : q.cur ≠ q.lock.sched.idleThread := held.not_idle (.inl hpoint)
  have same : SameRing q { q with lock := l' } := ⟨rfl, rfl, rfl, rfl, rfl⟩
  rw [code, hl]
  exact ⟨inv.move ⟨owner', held'⟩ moves fits (stays hplace) (.inr hidle) (same.fifo inv.ring),
    .quiet moves.waiter same⟩

/-- `ioq_wait`, when the task has the lock. Nobody else waits: he would have the lock too. -/
theorem ioqWait_steps (inv : IoqInv q) (hrun : (q.lock.sched.tasks q.cur).resume = .run)
    (hplace : q.place q.cur = .locking c) (hpoint : q.lock.point q.cur = .out)
    (hdepth : q.lock.depth q.cur = 1) :
    Steps q .statement
      (do return { q.goTo (.waiting c) with lock.sched := ← ioqWait q.lock.sched c.waiter }) := by
  obtain ⟨owner, held⟩ := inv.held
  have hidle : q.cur ≠ q.lock.sched.idleThread :=
    held.not_idle (.inr (by rw [hdepth]; exact Nat.one_ne_zero))
  have hnot : ¬ InSemaDown (q.lock.sched.tasks q.cur).resume := by rw [hrun]; exact id
  have off := (inv.inside q.cur (by rw [hplace]; exact nofun) hrun).2
  have free : q.lock.sched.waiter c.waiter = none := by
    by_contra taken
    obtain ⟨t, ht⟩ := Option.ne_none_iff_exists'.mp taken
    have asleep := (held.queues.waiter _ t ht).2.2
    -- the one who waits is in `ioq_wait`, with the lock
    have deep : 0 < q.lock.depth t := by
      have fits := inv.fits t
      rw [asleep] at fits
      generalize q.place t = place, q.lock.point t = p, q.lock.depth t = d, hr :
        Resume.ioqWait c.waiter = r at fits
      cases fits with
      | out _ notWaiting => exact absurd hr.symm (notWaiting c)
      | asleep => exact Nat.one_pos
      | _ => cases hr
    obtain rfl : t = q.cur := held.safe.excludes t q.cur deep (by rw [hdepth]; exact Nat.one_pos)
    rw [hrun] at asleep
    cases asleep
  have frame := ioqWait_frame free
  have left := ioqWait_leaves q.lock.sched c.waiter
  have keeps := ioqWait_keeps held.queues hidle c.waiter
  cases hs : ioqWait q.lock.sched c.waiter with
  | error f => exact frame.of_error hs
  | ok sched =>
    rw [hs] at frame left keeps
    have held' := held.beside keeps.1 keeps.2 (left.beside id) hnot
    have moves : Moves q.lock .out 1 (.ioqWait c.waiter)
        (Function.update q.lock.sched.waiter c.waiter (some q.cur))
        { q.lock with sched } :=
      ⟨stays hpoint, stays hdepth, left.self, left.others, keeps.2.idleThread, frame,
        fun e => by cases e⟩
    have same : SameRing q { q.goTo (.waiting c) with lock.sched := sched } :=
      ⟨rfl, rfl, rfl, rfl, rfl⟩
    exact ⟨inv.move ⟨owner, held'⟩ moves (.asleep c) rfl (.inr hidle) (same.fifo inv.ring),
      .waits c rfl hplace hpoint moves.waiter same⟩

/-- `lock_release` -/
theorem release_steps (inv : IoqInv q) (hrun : (q.lock.sched.tasks q.cur).resume = .run)
    (hplace : q.place q.cur = .waiting c) (hpoint : q.lock.point q.cur = .out)
    (hdepth : q.lock.depth q.cur = 1) :
    Steps q .statement (do return { q.goTo (.unlocking c) with lock := ← q.lock.lockRelease }) := by
  obtain ⟨owner, held⟩ := inv.held
  have deep : 0 < q.lock.depth q.cur := by rw [hdepth]; exact Nat.one_pos
  obtain ⟨l', hl, held'⟩ := lockRelease_keeps held ⟨hrun, hpoint, deep⟩
  have off := (inv.inside q.cur (by rw [hplace]; exact nofun) hrun).2
  have moves := lockRelease_moves held hdepth hrun off hl
  have hidle : q.cur ≠ q.lock.sched.idleThread :=
    held.not_idle (.inr (by rw [hdepth]; exact Nat.one_ne_zero))
  have same : SameRing q { q.goTo (.unlocking c) with lock := l' } := ⟨rfl, rfl, rfl, rfl, rfl⟩
  rw [hl]
  exact ⟨inv.move ⟨owner, held'⟩ moves (.freeing c) rfl (.inr hidle) (same.fifo inv.ring),
    .quiet moves.waiter same⟩

/-- The current task goes on in its call. -/
theorem statement_steps (inv : IoqInv q) (en : ioqEnabled q .statement) :
    Steps q .statement q.statement := by
  obtain ⟨hrun, hplace⟩ := en
  have off := (inv.inside q.cur hplace hrun).2
  have fits := inv.fits q.cur
  rw [hrun] at fits
  generalize hr : Resume.run = r, hpl : q.place q.cur = place, hp : q.lock.point q.cur = p, hd :
    q.lock.depth q.cur = d at fits
  cases fits with
  | out => exact absurd hpl hplace
  | asking => cases hr
  | asleep => cases hr
  | down c =>
    apply inLock_steps (p := .taking) (d := 0) inv hrun hpl ⟨c, .inl rfl⟩ (by rw [hp]; exact nofun)
    intro owner l' held hl
    unfold LockSched.statement at hl
    rw [hp] at hl
    obtain ⟨sched, hs, hl⟩ := bind_eq_ok.mp hl
    cases hl
    unfold semaDown at hs
    rw [off] at hs
    rcases semaDown_moves held (.inl hp) hd hs with moves | moves
    · exact ⟨_, moves, .taking c⟩
    · exact ⟨_, moves, .asking c⟩
  | taking c =>
    apply inLock_steps inv hrun hpl ⟨c, .inl rfl⟩ (by rw [hp]; exact nofun)
    intro owner l' held hl
    exact ⟨_, taking_moves hp hd hrun off hl, .taken c⟩
  | taken c =>
    apply inLock_steps inv hrun hpl ⟨c, .inl rfl⟩ (by rw [hp]; exact nofun)
    intro owner l' held hl
    exact ⟨_, taken_moves hp hrun off hl, .locked c⟩
  | locked c =>
    have code :
        q.statement = do
          return { q.goTo (.waiting c) with lock.sched := ← ioqWait q.lock.sched c.waiter } := by
      unfold Ioqueue.statement
      rw [hpl]
      exact if_pos hp
    rw [code]
    exact ioqWait_steps inv hrun hpl hp hd
  | awake c =>
    have code :
        q.statement = do return { q.goTo (.unlocking c) with lock := ← q.lock.lockRelease } := by
      unfold Ioqueue.statement
      rw [hpl]
    rw [code]
    exact release_steps inv hrun hpl hp hd
  | freeing c =>
    apply inLock_steps inv hrun hpl ⟨c, .inr rfl⟩ (by rw [hp]; exact nofun)
    intro owner l' held hl
    exact ⟨_, freeing_moves hp hd hrun off hl, .freed c⟩
  | freed c =>
    apply inLock_steps inv hrun hpl ⟨c, .inr rfl⟩ (by rw [hp]; exact nofun)
    intro owner l' held hl
    exact ⟨_, freed_moves hp hd hrun off hl, .up c⟩
  | up c =>
    apply inLock_steps inv hrun hpl ⟨c, .inr rfl⟩ (by rw [hp]; exact nofun)
    intro owner l' held hl
    exact ⟨_, up_moves held hp hd hrun off hl, .unlocked c⟩
  | unlocked c =>
    have code : q.statement = q.loop c := by
      unfold Ioqueue.statement
      rw [hpl]
      exact if_pos hp
    rw [code]
    refine loop_steps inv ⟨hrun, hp, hd, off⟩ (.inl fun e => ?_)
    have idle := inv.idle
    rw [← e] at idle
    exact hplace idle

/-- The scheduler goes its way while the current task is outside. -/
theorem IoqInv.beside (inv : IoqInv q) {sched : Sched} (hplace : q.place q.cur = .out)
    (queues : Queues sched) (tree : SameTree q.lock.sched sched)
    (beside : Beside q.lock.sched sched) (hcur : ¬ InSemaDown (q.lock.sched.tasks q.cur).resume)
    (awake : ∀ c : IoqCall, (sched.tasks q.cur).resume ≠ .ioqWait c.waiter) :
    IoqInv { q with lock.sched := sched } := by
  obtain ⟨owner, held⟩ := inv.held
  have same : SameRing q { q with lock.sched := sched } := ⟨rfl, rfl, rfl, rfl, rfl⟩
  refine ⟨⟨owner, held.beside queues tree beside hcur⟩, fun t => ?_, fun t ht hrun => ?_, ?_,
    same.fifo inv.ring⟩
  · by_cases e : t = q.cur
    · subst e
      have fits := inv.fits q.cur
      have notDown := beside.self
      show Fits (q.place q.cur) (q.lock.point q.cur) (q.lock.depth q.cur) (sched.tasks q.cur).resume
      rw [hplace] at fits ⊢
      generalize q.lock.point q.cur = p, q.lock.depth q.cur = d at fits
      cases fits with
      | out => exact .out notDown awake
    · show Fits (q.place t) (q.lock.point t) (q.lock.depth t) (sched.tasks t).resume
      rw [beside.others t e]
      exact inv.fits t
  · by_cases e : t = q.cur
    · rw [e] at ht
      exact absurd hplace ht
    · have hrun : (sched.tasks t).resume = .run := hrun
      rw [beside.others t e] at hrun
      exact absurd (inv.inside t ht hrun).1 e
  · show q.place sched.idleThread = .out
    rw [tree.idleThread]
    exact inv.idle

/-- A step of the scheduler while the current task is outside. -/
theorem beside_steps (inv : IoqInv q) {r : Except Fault Sched} (hplace : q.place q.cur = .out)
    (keeps : Keeps q.lock.sched r) (waiters : SameWaiters q.lock.sched r)
    (leaves : SyncPasses (fun s' => ∃ r', Leaves q.lock.sched q.cur r' s' ∧ ¬ InSemaDown r' ∧
      ∀ c : IoqCall, r' ≠ .ioqWait c.waiter) r)
    (hcur : ¬ InSemaDown (q.lock.sched.tasks q.cur).resume) :
    IoqPasses (fun p => IoqInv p.1 ∧ Does q e p.1)
      (do
        let (sched, _) ← (do return (← r, Out.none))
        return ({ q with lock.sched := sched }, ())) := by
  cases r with
  | error f => exact waiters
  | ok sched =>
    obtain ⟨r', left, notDown, awake⟩ := leaves
    refine ⟨inv.beside hplace keeps.1 keeps.2 (left.beside notDown) hcur ?_,
      .quiet waiters ⟨rfl, rfl, rfl, rfl, rfl⟩⟩
    rw [left.self]
    exact awake

/-- The current task goes on where it was switched out. -/
theorem goOn_steps (inv : IoqInv q) (hgo : (q.lock.sched.tasks q.cur).resume ≠ .run)
    (hres : LockResume (q.lock.sched.tasks q.cur).resume) :
    IoqPasses (fun p => IoqInv p.1 ∧ Does q e p.1)
      (do let (sched, _) ← goOn q.lock.sched; return ({ q with lock.sched := sched }, ())) := by
  obtain ⟨owner, held⟩ := inv.held
  have fits := inv.fits q.cur
  -- a task outside goes on outside
  have runs (intr : Bool) (hplace : q.place q.cur = .out)
      (hnot : ¬ InSemaDown (q.lock.sched.tasks q.cur).resume) :
      IoqInv { q with
        lock.sched := { q.lock.sched with intr }.setTask q.cur ({ · with resume := .run }) } := by
    obtain ⟨hq, tree⟩ := keeps_run held.queues intr
    apply inv.beside hplace hq tree (Leaves.beside (r := .run) (leaves_setTask rfl rfl rfl) id) hnot
    rw [setTask_self]
    exact nofun
  generalize hr : (q.lock.sched.tasks q.cur).resume = r, hpl : q.place q.cur = place, hp :
    q.lock.point q.cur = p,
    hd : q.lock.depth q.cur = d at fits
  unfold goOn
  rw [hr] at hgo hres ⊢
  cases fits with
  | out notDown notWaiting =>
    have hnot : ¬ InSemaDown (q.lock.sched.tasks q.cur).resume := by rw [hr]; exact notDown
    cases r with
    | run => exact absurd rfl hgo
    | fresh => exact ⟨runs true hpl hnot, .quiet rfl ⟨rfl, rfl, rfl, rfl, rfl⟩⟩
    | ret old => exact ⟨runs old hpl hnot, .quiet rfl ⟨rfl, rfl, rfl, rfl, rfl⟩⟩
    | ioqWait w => exact ⟨runs false hpl hnot, .quiet rfl ⟨rfl, rfl, rfl, rfl, rfl⟩⟩
    | semaDown k old => exact absurd hres notDown
    | wait => exact hres.elim
    | exited => exact hres.elim
    | «over» => exact hres.elim
  | asking c =>
    have hnot :
        ¬ Owning (q.lock.point q.cur) (q.lock.depth q.cur) (q.lock.sched.tasks q.cur).resume := by
      rw [hp, hr]
      exact fun e => e rfl
    obtain ⟨sched, owner', hs, held'⟩ := held.semaDown hnot (.inr hp) false
    -- the task was at `taking` already
    have here : q.lock.goTo .taking = q.lock := by
      unfold LockSched.goTo
      rw [← hp, Function.update_eq_self]
    have way := semaDown_moves held (.inr hp) hd hs
    rw [here] at held' way
    have hidle : q.cur ≠ q.lock.sched.idleThread := held.not_idle (.inl (by rw [hp]; exact nofun))
    have same : SameRing q { q with lock.sched := sched } := ⟨rfl, rfl, rfl, rfl, rfl⟩
    dsimp only
    rw [hs]
    rcases way with moves | moves
    · exact ⟨inv.move ⟨owner', held'⟩ moves (.taking c) (stays hpl) (.inr hidle)
        (same.fifo inv.ring), .quiet moves.waiter same⟩
    · exact ⟨inv.move ⟨owner', held'⟩ moves (.asking c) (stays hpl) (.inr hidle)
        (same.fifo inv.ring), .quiet moves.waiter same⟩
  | asleep c =>
    have hnot : ¬ InSemaDown (q.lock.sched.tasks q.cur).resume := by rw [hr]; exact id
    have hidle : q.cur ≠ q.lock.sched.idleThread :=
      held.not_idle (.inr (by rw [hd]; exact Nat.one_ne_zero))
    obtain ⟨hq, tree⟩ := keeps_run held.queues false
    have left : Leaves q.lock.sched q.cur .run
        ({ q.lock.sched with intr := false }.setTask q.cur ({ · with resume := .run })) :=
      leaves_setTask rfl rfl rfl
    have held' := held.beside hq tree (left.beside id) hnot
    have moves : Moves q.lock .out 1 .run q.lock.sched.waiter
        { q.lock with
          sched :=
            { q.lock.sched with intr := false }.setTask q.cur ({ · with resume := .run }) } :=
      ⟨stays hp, stays hd, left.self, left.others, rfl, rfl, fun _ => ⟨rfl, rfl⟩⟩
    have same :
        SameRing q { q with
          lock.sched :=
            { q.lock.sched with intr := false }.setTask q.cur ({ · with resume := .run }) } :=
      ⟨rfl, rfl, rfl, rfl, rfl⟩
    exact ⟨inv.move ⟨owner, held'⟩ moves (.awake c) (stays hpl) (.inr hidle) (same.fifo inv.ring),
      .quiet rfl same⟩
  | _ => exact absurd rfl hgo

/-- ONE STEP. -/
theorem ioqStep_steps (inv : IoqInv q) (en : ioqEnabled q e) :
    IoqPasses (fun p => IoqInv p.1 ∧ Does q e p.1) (ioqStep q e) := by
  have answers {e : IoqEvent} {r : Except Fault Ioqueue} (h : Steps q e r) :
      IoqPasses (fun p => IoqInv p.1 ∧ Does q e p.1) (do return (← r, ())) := by
    apply Ensures.bind h
    intro q' h
    exact h
  unfold ioqStep
  cases e with
  | call c =>
    obtain ⟨hrun, hplace, off, hidle⟩ := en
    have fits := inv.fits q.cur
    have atTest : AtTest q := by
      rw [hrun, hplace] at fits
      generalize hp : q.lock.point q.cur = p, hd : q.lock.depth q.cur = d at fits
      cases fits with
      | out => exact ⟨hrun, hp, hd, off⟩
    apply answers
    unfold Ioqueue.call
    dsimp only
    rw [assertThat_of off, ok_bind]
    exact loop_steps inv atTest hidle
  | statement => exact answers (statement_steps inv en)
  | sched e =>
    obtain ⟨en, hbeside⟩ := en
    obtain ⟨owner, held⟩ := inv.held
    unfold step
    cases e with
    | goOn => exact goOn_steps inv en hbeside
    | tick =>
      have hnot : ¬ InSemaDown (q.lock.sched.tasks q.cur).resume := by rw [en.1]; exact id
      have hplace : q.place q.cur = .out := by
        by_contra hplace
        have off := (inv.inside q.cur hplace en.1).2
        rw [show q.lock.sched.intr = true from en.2] at off
        cases off
      apply beside_steps inv hplace (intrTimerHandler_keeps held.queues)
        (intrTimerHandler_waiters _) _ hnot
      apply (intrTimerHandler_leaves _).mono
      rintro s' (left | left)
      · rw [en.1] at left
        exact ⟨_, left, id, nofun⟩
      · exact ⟨_, left, id, nofun⟩
    | yield =>
      apply beside_steps inv hbeside (threadYield_keeps held.queues en.2) (threadYield_waiters _) _
        (by rw [en.1]; exact id)
      exact (threadYield_leaves _).mono fun _ left => ⟨_, left, id, nofun⟩
    | idleBlock =>
      apply beside_steps inv hbeside (idleBlock_keeps held.queues) (threadBlock_waiters _ _ _) _
        (by rw [en.1]; exact id)
      exact (threadBlock_leaves _ _ _).mono fun _ left => ⟨_, left, id, nofun⟩
    | intrEnable =>
      have hnot : ¬ InSemaDown (q.lock.sched.tasks q.cur).resume := by rw [en.1]; exact id
      refine ⟨?_, .quiet rfl ⟨rfl, rfl, rfl, rfl, rfl⟩⟩
      apply inv.beside hbeside (held.queues.setIntr true) (.of_tasks rfl rfl rfl rfl rfl rfl)
        ⟨rfl, hnot, fun _ _ => rfl⟩ hnot
      rw [en.1]
      exact nofun
    | intrDisable =>
      have hnot : ¬ InSemaDown (q.lock.sched.tasks q.cur).resume := by rw [en.1]; exact id
      refine ⟨?_, .quiet rfl ⟨rfl, rfl, rfl, rfl, rfl⟩⟩
      apply inv.beside hbeside (held.queues.setIntr false) (.of_tasks rfl rfl rfl rfl rfl rfl)
        ⟨rfl, hnot, fun _ _ => rfl⟩ hnot
      rw [en.1]
      exact nofun
    | semaDown k => exact hbeside.elim
    | semaUp k => exact hbeside.elim
    | ioqWait w => exact hbeside.elim
    | wakeup w => exact hbeside.elim
    | sysWait => exact hbeside.elim
    | sysExit status => exact hbeside.elim
    | sysFork t => exact hbeside.elim
    | sysExecv path => exact hbeside.elim
    | threadStart t name prio => exact hbeside.elim
    | mainExit => exact hbeside.elim

/-! ## Runs -/

variable {sched : Sched} {buf : Nat → UInt8} {tr : List (Entry Ioqueue IoqEvent Unit)}

/-- Nobody is in a wait of the queue or of its lock. -/
def NobodyWaits (sched : Sched) : Prop :=
  ∀ t, ¬ InSemaDown (sched.tasks t).resume ∧
    ∀ c : IoqCall, (sched.tasks t).resume ≠ .ioqWait c.waiter

theorem ioqueueInit_inv (queues : Queues sched) (fresh : NobodyWaits sched) :
    IoqInv (ioqueueInit sched buf) := by
  have emptied : Queues ((sched.setWaiter producer none).setWaiter consumer none) :=
    ⟨(queues.toLinks.setWaiter fun _ e => (by cases e)).setWaiter fun _ e => (by cases e),
      queues.curMem, queues.running⟩
  refine ⟨⟨none, lockInit_held emptied fun t => (fresh t).1⟩, fun t => .out (fresh t).1 (fresh t).2,
    fun t ht => absurd rfl ht, rfl, ?_⟩
  exact ⟨Nat.two_pow_pos 11, Nat.two_pow_pos 11, rfl⟩

/-- THE RUN LEMMA. -/
theorem ioq_inv (queues : Queues sched) (fresh : NobodyWaits sched)
    (path : ioqMachine.Path (ioqueueInit sched buf) tr q) : IoqInv q := by
  apply (path.invariant (ioqueueInit_inv queues fresh) _).1
  intro s e s' o inv en st
  exact ((ioqStep_steps inv en).of_ok st).1

/-- What an I/O queue is for. -/
structure IsQueue (q : Ioqueue) : Prop where
  inOrder : q.returned <+: q.stored
  /-- From `tail` to `head` is what was stored and not returned yet. -/
  rest : q.stored.drop q.returned.length = q.contents
  upTo : (q.tail + q.ioqLenth) % bufsize = q.head
  lenth : q.ioqLenth = q.contents.length
  bounded : q.ioqLenth ≤ 2047

theorem Fifo.isQueue (h : Fifo q) : IsQueue q where
  inOrder := ⟨q.contents, h.fifo.symm⟩
  rest := by
    rw [h.fifo, List.drop_left]
  upTo := ring_head h.head h.tail
  lenth := length_ringItems.symm
  bounded := Nat.le_of_lt_succ (ringLength_lt h.head)

/-- THE I/O QUEUE IS FIRST IN, FIRST OUT and loses nothing, for any tasks and any order of their
steps; and no assertion of `ioq_wait` or `wakeup` fails. -/
theorem ioq_first_in_first_out (queues : Queues sched) (fresh : NobodyWaits sched)
    (path : ioqMachine.Path (ioqueueInit sched buf) tr q) :
    IsQueue q ∧ ∀ e f, ioqEnabled q e → ioqStep q e = .error f → f ∉ ioqAsserts := by
  have inv := ioq_inv queues fresh path
  refine ⟨inv.ring.isQueue, ?_⟩
  intro e f en fault
  exact (ioqStep_steps inv en).of_error fault

theorem boot_nobodyWaits {pcb₁ pcb₃ : Addr} {value : Nat → Nat} :
    NobodyWaits (boot pcb₁ pcb₃ value) := by
  intro t
  refine ⟨boot_fresh t, ?_⟩
  intro c
  show (if t = pcb₁ then bootTask 1 ['i', 'n', 'i', 't'] 30 0 .ready true .fresh
    else if t = pcb₃ then bootTask 3 ['i', 'd', 'l', 'e'] 10 2 .ready false .fresh
    else bootTask 2 ['m', 'a', 'i', 'n'] 30 1 .running false .run).resume ≠ .ioqWait c.waiter
  split
  · exact nofun
  · split <;> exact nofun

/-- The queue that `main` initialises. -/
def bootQueue : Ioqueue := ioqueueInit (boot 0xc0101000 0xc0102000 fun _ => 1) fun _ => 0

/-- `main` waits for a byte, and `init` stores two. -/
theorem ioq_first_in_first_out_waited :
    ∃ tr q, ioqMachine.Path bootQueue tr q ∧
      (q.stored = [7, 8] ∧ q.returned = [7] ∧ q.ioqLenth = 1) ∧ IsQueue q := by
  obtain ⟨tr, q, path, -, -, done⟩ := Machine.replay_path ioqMachine (fun _ _ => True) bootQueue
    [.call .getchar, .statement, .statement, .statement, .statement,
      .sched .goOn, .sched .tick, .sched .intrDisable, .call (.putchar 7), .call (.putchar 8),
      .sched .yield,
      .sched .goOn, .statement, .statement, .statement, .statement, .statement]
    (fun _ q => q.stored = [7, 8] ∧ q.returned = [7] ∧ q.ioqLenth = 1) (by decide +kernel)
  exact ⟨tr, q, path, done,
    (ioq_first_in_first_out (boot_queues (by decide)) boot_nobodyWaits path).1⟩

/-! ## Sleepers -/

/-- No task sleeps on a queue that is ready for it. -/
def NoSleeper (q : Ioqueue) : Prop :=
  q.lock.sched.intr = true →
    (q.lock.sched.waiter consumer ≠ none → q.ioqEmpty) ∧
    (q.lock.sched.waiter producer ≠ none → q.ioqFull)

/-- A task that has just got the queue's lock would still have to wait. -/
def StillMustWait (q : Ioqueue) (e : IoqEvent) : Prop :=
  e = .statement → ∀ c, q.place q.cur = .locking c → q.lock.point q.cur = .out → q.MustWait c

/-- Whoever waits must. -/
def WaitersMust (q : Ioqueue) : Prop :=
  ∀ c : IoqCall, q.lock.sched.waiter c.waiter ≠ none → q.MustWait c

theorem WaitersMust.noSleeper (h : WaitersMust q) : NoSleeper q :=
  fun _ => ⟨h .getchar, h (.putchar 0)⟩

theorem mustWait_congr (head : q'.head = q.head) (tail : q'.tail = q.tail) {c c' : IoqCall}
    (hw : c.waiter = c'.waiter) (h : q.MustWait c) : q'.MustWait c' := by
  cases c with
  | getchar =>
    cases c' with
    | getchar =>
      show q'.head = q'.tail
      rw [head, tail]
      exact h
    | putchar _ => cases hw
  | putchar _ =>
    cases c' with
    | getchar => cases hw
    | putchar _ =>
      show nextPos q'.head = q'.tail
      rw [head, tail]
      exact h

/-- One step: as long as nobody goes to sleep on a ready queue, whoever waits must. -/
theorem WaitersMust.step (h : WaitersMust q) (does : Does q e q') (still : StillMustWait q e) :
    WaitersMust q' := by
  intro c taken
  cases does with
  | quiet waiter ring =>
    rw [waiter] at taken
    exact mustWait_congr ring.head ring.tail rfl (h c taken)
  | waits c₁ statement place point waiter ring =>
    by_cases e₁ : c₁.waiter = c.waiter
    · exact mustWait_congr ring.head ring.tail e₁ (still statement c₁ place point)
    · rw [waiter, Function.update_of_ne (Ne.symm e₁)] at taken
      exact mustWait_congr ring.head ring.tail rfl (h c taken)
  | gets some waiter =>
    cases c with
    | getchar => exact absurd (h .getchar (by rwa [waiter] at taken)) some
    | putchar byte =>
      rw [waiter] at taken
      exact absurd rfl taken
  | puts room waiter =>
    cases c with
    | getchar =>
      rw [waiter] at taken
      exact absurd rfl taken
    | putchar byte => exact absurd (h (.putchar byte) (by rwa [waiter] at taken)) room

/-- NO ONE SLEEPS ON A READY QUEUE, in any run in which every task that gets the queue's lock would
still have to wait. -/
theorem ioq_sleepers (queues : Queues sched) (fresh : NobodyWaits sched)
    (path : ioqMachine.Path (ioqueueInit sched buf) tr q) (still : Machine.Meets StillMustWait tr) :
    Machine.Always NoSleeper tr q := by
  have start : IoqInv (ioqueueInit sched buf) ∧ WaitersMust (ioqueueInit sched buf) := by
    refine ⟨ioqueueInit_inv queues fresh, ?_⟩
    intro c taken
    cases c with
    | getchar => exact absurd rfl taken
    | putchar byte => exact absurd rfl taken
  have all := path.always_of_meets (I := fun q => IoqInv q ∧ WaitersMust q) start still ?_
  · exact ⟨fun entry h => (all.1 entry h).2.noSleeper, all.2.2.noSleeper⟩
  · intro s e s' o inv en st still
    obtain ⟨inv', does⟩ := (ioqStep_steps inv.1 en).of_ok st
    exact ⟨inv', inv.2.step does still⟩

/-- `main` goes to sleep on the empty queue. -/
theorem ioq_sleepers_boot :
    ∃ tr q, ioqMachine.Path bootQueue tr q ∧ q.lock.sched.waiter consumer = some Thread.mainPcb ∧
    Machine.Always NoSleeper tr q := by
  have path₁ : ioqMachine.Path bootQueue _ _ :=
    Machine.Path.start.step (e := .call .getchar) (by decide) rfl
  have path₂ := path₁.step (e := .statement) (by decide) rfl
  have path₃ := path₂.step (e := .statement) (by decide) rfl
  have path₄ := path₃.step (e := .statement) (by decide) rfl
  have path₅ := path₄.step (e := .statement) (by decide) rfl
  refine ⟨_, _, path₅, rfl, ioq_sleepers (boot_queues (by decide)) boot_nobodyWaits path₅ ?_⟩
  have inLock {q : Ioqueue} (h : q.lock.point q.cur ≠ .out) : StillMustWait q .statement :=
    fun _ _ _ out => absurd out h
  refine Machine.meets_append.mpr ⟨?_, ?_⟩
  · refine Machine.meets_append.mpr ⟨?_, inLock (by decide)⟩
    refine Machine.meets_append.mpr ⟨?_, inLock (by decide)⟩
    refine Machine.meets_append.mpr ⟨?_, inLock (by decide)⟩
    exact Machine.meets_append.mpr ⟨fun _ h => absurd h List.not_mem_nil, nofun⟩
  · intro _ c place _
    obtain rfl : IoqCall.getchar = c := IoqPlace.locking.inj place
    decide

/-- Two consumers and two bytes. `main` sleeps in `ioq_wait`, with the lock, and `init` in
`lock_acquire`. Two bytes come, and `main` takes one of them; then `init` gets the lock and goes to
sleep. -/
def twoConsumers : List IoqEvent :=
  [.call .getchar, .statement, .statement, .statement, .statement,
   .sched .goOn, .sched .intrDisable, .call .getchar, .statement,
   .sched .goOn, .sched .intrDisable, .call (.putchar 1), .call (.putchar 2), .sched .idleBlock,
   .sched .goOn, .statement, .statement, .statement, .statement, .statement, .sched .yield,
   .sched .goOn, .statement, .statement, .statement, .sched .goOn, .sched .intrEnable]

theorem sleeper_on_ready_queue :
    ¬ ∀ (sched : Sched) (buf : Nat → UInt8) (tr : List (Entry Ioqueue IoqEvent Unit)) (q : Ioqueue),
    Queues sched →
      NobodyWaits sched → ioqMachine.Path (ioqueueInit sched buf) tr q → NoSleeper q := by
  intro claim
  have run : ioqMachine.exec bootQueue twoConsumers = some _ := rfl
  obtain ⟨tr, path⟩ := Machine.exec_path ioqMachine run
  have awake := claim _ _ tr _ (boot_queues (by decide)) boot_nobodyWaits path rfl
  exact absurd (awake.1 (by decide)) (by decide)

end SeekingOs.Device
