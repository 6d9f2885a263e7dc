import SeekingOs.Thread.LockInvariant
import SeekingOs.Userprog.Runs

/-!
# Locks exclude and do not lose wakeups

What holds in every run of a lock, as long as acquisitions nest at most 2³² - 1 deep, and the run
that nests one deeper: `holder_repeat_nr` is a `uint32_t`.
-/

namespace SeekingOs.Thread

open Lib

/-- What a lock is for. -/
structure LockSafe (s : LockSched) : Prop where
  /-- One thread at most is between the return of its outermost `lock_acquire` and the matching
  `lock_release`. -/
  excludes : ∀ t u, 0 < s.depth t → 0 < s.depth u → t = u
  value : (s.sched.semaphores lockSema).value = 0 ∨ (s.sched.semaphores lockSema).value = 1
  nests : ∀ t, 0 < s.depth t → s.holderRepeatNr = s.depth t
  /-- A thread that was popped from `waiters` has yet to look at the value again. -/
  wakes : (s.sched.semaphores lockSema).value = 1 → (s.sched.semaphores lockSema).waiters ≠ [] →
    ∃ t ∈ s.sched.allList, t ∉ (s.sched.semaphores lockSema).waiters ∧
      InSemaDown (s.sched.tasks t).resume

variable {s : LockSched} {sched : Sched} {owner : Option Addr}
  {tr : List (Entry LockSched LockEvent Unit)}

theorem lockInit_held (q : Queues sched) (fresh : ∀ t, ¬ InSemaDown (sched.tasks t).resume) :
    Held (lockInit sched) none := by
  have hsema : ((lockInit sched).sched.semaphores lockSema) = ⟨1, []⟩ := by
    unfold lockInit
    rw [setSema_semaphores, if_pos rfl]
  have queues : Queues (lockInit sched).sched :=
    q.setSema (g := fun _ => ⟨1, []⟩) (List.nil_sublist _)
  refine ⟨queues, by rw [hsema]; rfl, fun t => ?_, fun t => ?_,
    fun t e => (by cases e), fun _ => rfl,
    fun t ht => absurd ht (fresh t), fun t => Nat.two_pow_pos 32, ⟨rfl, rfl⟩, fun _ hne => ?_⟩
  · exact ⟨fun e => (by cases e), fun e => absurd e (Nat.lt_irrefl 0)⟩
  · exact ⟨fun e => (by cases e), fun e => absurd e (Nat.lt_irrefl 0)⟩
  · rw [hsema] at hne
    exact absurd rfl hne

/-- THE RUN LEMMA. Somebody or nobody owns the lock, and every thread is where that puts it. -/
theorem lock_held (q : Queues sched) (fresh : ∀ t, ¬ InSemaDown (sched.tasks t).resume)
    (path : lockMachine.Path (lockInit sched) tr s) (shallow : Machine.Meets Shallow tr) :
    ∃ owner, Held s owner := by
  refine path.invariant_of_meets (I := fun s => ∃ owner, Held s owner)
    ⟨none, lockInit_held q fresh⟩ shallow ?_
  rintro s e s' o ⟨owner, held⟩ en st hd
  exact (lockStep_keeps held en hd).of_ok st

/-- A thread with the lock owns it, and `holder_repeat_nr` is its depth. -/
theorem Held.nested (h : Held s owner) {t : Addr} (ht : 0 < s.depth t) :
    owner = some t ∧ s.holderRepeatNr = s.depth t := by
  have own := h.owns t
  have depth := h.depth t
  have nr : owner = some t → s.holderRepeatNr = repeatNr (s.point t) (s.depth t) := h.repeats t
  cases hp : s.point t <;> rw [hp] at own depth nr
  case out => exact ⟨own.mpr ht, nr (own.mpr ht)⟩
  case again => exact ⟨own.mpr trivial, nr (own.mpr trivial)⟩
  case more => exact ⟨own.mpr trivial, nr (own.mpr trivial)⟩
  case fewer => exact ⟨own.mpr trivial, nr (own.mpr trivial)⟩
  case less => exact ⟨own.mpr trivial, nr (own.mpr trivial)⟩
  all_goals exact absurd depth (Nat.pos_iff_ne_zero.mp ht)

theorem Held.safe (h : Held s owner) : LockSafe s where
  excludes t u ht hu := Option.some.inj ((h.nested ht).1.symm.trans (h.nested hu).1)
  value := by
    rw [h.value]
    split
    · exact .inr rfl
    · exact .inl rfl
  nests t ht := (h.nested ht).2
  wakes hone hne := by
    refine h.pending ?_ hne
    by_contra ho
    rw [h.value, if_neg ho] at hone
    cases hone

/-- LOCKS EXCLUDE AND DO NOT LOSE WAKEUPS, for any tasks and any order of their steps, as long as no
acquisition nests deeper than `holder_repeat_nr` can count; and no assertion of `sync.c` fails. -/
theorem lock_excludes (q : Queues sched) (fresh : ∀ t, ¬ InSemaDown (sched.tasks t).resume)
    (path : lockMachine.Path (lockInit sched) tr s) (shallow : Machine.Meets Shallow tr) :
    LockSafe s ∧ ∀ e f, lockEnabled s e → lockStep s e = .error f → f ∉ syncAsserts := by
  obtain ⟨owner, held⟩ := lock_held q fresh path shallow
  refine ⟨held.safe, fun e f en fault => ?_⟩
  cases e with
  | lockAcquire => cases fault
  | lockRelease => exact (lockStep_keeps held en trivial).of_error fault
  | statement => exact (lockStep_keeps held en trivial).of_error fault
  | sched e => exact (lockStep_keeps held en trivial).of_error fault

theorem boot_fresh {pcb₁ pcb₃ : Addr} {value : Nat → Nat} (t : Addr) :
    ¬ InSemaDown ((boot pcb₁ pcb₃ value).tasks t).resume := by
  show ¬ InSemaDown (if t = pcb₁ then bootTask 1 ['i', 'n', 'i', 't'] 30 0 .ready true .fresh
    else if t = pcb₃ then bootTask 3 ['i', 'd', 'l', 'e'] 10 2 .ready false .fresh
    else bootTask 2 ['m', 'a', 'i', 'n'] 30 1 .running false .run).resume
  split
  · exact id
  · split <;> exact id

/-- `main` holds the lock twice over while `init` comes and sleeps; its second release wakes `init`,
which has the lock then. -/
theorem lock_excludes_contended :
    ∃ tr s, lockMachine.Path (lockInit (boot 0xc0101000 0xc0102000 fun _ => 1)) tr s ∧
      (s.depth mainPcb = 0 ∧ s.depth 0xc0101000 = 1) ∧ LockSafe s := by
  obtain ⟨tr, s, path, -, meets, done⟩ := Machine.replay_path lockMachine Shallow
    (lockInit (boot 0xc0101000 0xc0102000 fun _ => 1))
    [.lockAcquire, .statement, .statement, .statement, .lockAcquire, .statement, .statement,
      .sched .yield, .sched .goOn, .lockAcquire, .statement, .sched .goOn,
      .sched .idleBlock, .sched .goOn,
      .lockRelease, .statement, .statement, .lockRelease, .statement, .statement, .statement,
      .sched .yield, .sched .goOn, .statement, .statement]
    (fun _ s => s.depth mainPcb = 0 ∧ s.depth 0xc0101000 = 1) (by decide +kernel)
  exact ⟨tr, s, path, done, (lock_excludes (boot_queues (by decide)) boot_fresh path meets).1⟩

/-! ## One acquisition too many -/

/-- The current task holds the lock `n` deep, as far as `holder_repeat_nr` can say. -/
structure Nested (s : LockSched) (n : Nat) : Prop where
  resume : (s.sched.tasks s.sched.cur).resume = .run
  notIdle : s.sched.cur ≠ s.sched.idleThread
  point : s.point s.sched.cur = .out
  holder : s.holder = some s.sched.cur
  depth : s.depth s.sched.cur = n
  repeats : s.holderRepeatNr = u32 n

/-- It acquires the lock once more, in three steps. -/
theorem Nested.again {s₀ : LockSched} {n : Nat} (h : Nested s n)
    (reach : lockMachine.Reachable s₀ s) :
    ∃ s', lockMachine.Reachable s₀ s' ∧ s'.sched = s.sched ∧ Nested s' (n + 1) := by
  have h₁ : lockMachine.step s .lockAcquire = .ok (s.goTo .again, ()) := by
    show Except.ok (s.lockAcquire, ()) = _
    rw [LockSched.lockAcquire, if_neg (not_not.mpr h.holder)]
  have p₁ : (s.goTo .again).point s.sched.cur = .again := goTo_self _
  have h₂ : lockMachine.step (s.goTo .again) .statement =
      .ok ((s.goTo .again).goTo (.more (u32 (s.holderRepeatNr + 1))), ()) := by
    show (do return (← (s.goTo .again).statement, ())) = _
    unfold LockSched.statement
    rw [goTo_sched, p₁]
    rfl
  have p₂ : ((s.goTo .again).goTo (.more (u32 (s.holderRepeatNr + 1)))).point s.sched.cur =
      .more (u32 (s.holderRepeatNr + 1)) :=
    goTo_self _
  generalize hs₂ : (s.goTo .again).goTo (.more (u32 (s.holderRepeatNr + 1))) = s₂ at h₂ p₂
  have sched₂ : s₂.sched = s.sched := by rw [← hs₂]; rfl
  have depth₂ : s₂.depth = s.depth := by rw [← hs₂]; rfl
  have holder₂ : s₂.holder = s.holder := by rw [← hs₂]; rfl
  have h₃ : lockMachine.step s₂ .statement =
      .ok ({ (s₂.goTo .out).setDepth (s₂.depth s₂.sched.cur + 1) with
        holderRepeatNr := u32 (s.holderRepeatNr + 1) }, ()) := by
    show (do return (← s₂.statement, ())) = _
    unfold LockSched.statement
    rw [sched₂, p₂]
    rfl
  have en₁ : lockMachine.enabled s .lockAcquire := And.intro h.resume ⟨h.notIdle, h.point⟩
  have en₂ : lockMachine.enabled (s.goTo .again) .statement :=
    And.intro h.resume (by rw [goTo_sched, p₁]; exact nofun)
  have en₃ : lockMachine.enabled s₂ .statement :=
    And.intro (by rw [sched₂]; exact h.resume) (by rw [sched₂, p₂]; exact nofun)
  refine ⟨_, ((reach.step en₁ h₁).step en₂ h₂).step en₃ h₃, sched₂, ?_, ?_,
    goTo_self (l := s₂) .out, ?_, ?_, ?_⟩
  · show (s₂.sched.tasks s₂.sched.cur).resume = .run
    rw [sched₂]
    exact h.resume
  · show s₂.sched.cur ≠ s₂.sched.idleThread
    rw [sched₂]
    exact h.notIdle
  · show s₂.holder = some s₂.sched.cur
    rw [holder₂, sched₂]
    exact h.holder
  · have set : ((s₂.goTo .out).setDepth (s₂.depth s₂.sched.cur + 1)).depth s₂.sched.cur =
        s₂.depth s₂.sched.cur + 1 :=
      setDepth_self (l := s₂.goTo .out) _
    exact set.trans (by rw [depth₂, sched₂, h.depth])
  · show u32 (s.holderRepeatNr + 1) = u32 (n + 1 : Nat)
    rw [h.repeats]
    unfold u32
    omega

/-- Any depth can be reached. -/
theorem nested_reachable {s₀ s : LockSched} {m : Nat} (h : Nested s m)
    (reach : lockMachine.Reachable s₀ s) (n : Nat) :
    ∃ s', lockMachine.Reachable s₀ s' ∧ s'.sched = s.sched ∧ Nested s' (m + n) := by
  induction n with
  | zero => exact ⟨s, reach, rfl, h⟩
  | succ n ih =>
    obtain ⟨s₁, reach₁, hs₁, h₁⟩ := ih
    obtain ⟨s₂, reach₂, hs₂, h₂⟩ := h₁.again reach₁
    exact ⟨s₂, reach₂, hs₂.trans hs₁, h₂⟩

/-- `main` takes the lock, in four steps. -/
theorem lock_taken : ∃ s, lockMachine.Reachable (lockInit (boot 0xc0101000 0xc0102000 fun _ => 1))
    s ∧ Nested s 1 := by
  let start := lockInit (boot 0xc0101000 0xc0102000 fun _ => 1)
  have run : lockMachine.exec start [.lockAcquire, .statement, .statement, .statement] = some _ :=
    rfl
  exact ⟨_, Machine.exec_path lockMachine run, rfl, by decide, rfl, rfl, rfl, rfl⟩

/-- 2³² nested acquisitions make `holder_repeat_nr` 0. -/
theorem lock_nesting_wraps :
    ¬ ∀ (sched : Sched) (tr : List (Entry LockSched LockEvent Unit)) (s : LockSched), Queues sched →
      (∀ t, ¬ InSemaDown (sched.tasks t).resume) → lockMachine.Path (lockInit sched) tr s →
      LockSafe s := by
  intro claim
  obtain ⟨s₁, reach₁, h₁⟩ := lock_taken
  obtain ⟨s, ⟨tr, path⟩, _, h⟩ := nested_reachable h₁ reach₁ 0xffffffff
  have safe := claim _ tr s (boot_queues (by decide)) boot_fresh path
  have depth : s.depth s.sched.cur = 2 ^ 32 := h.depth
  have repeats : s.holderRepeatNr = 0 := h.repeats
  have nests := safe.nests s.sched.cur (by rw [depth]; decide)
  rw [depth, repeats] at nests
  exact absurd nests (by decide)

end SeekingOs.Thread
