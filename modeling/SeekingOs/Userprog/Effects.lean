import SeekingOs.Thread.Steps

/-!
# What a step does to the process tree

Most steps leave the tree as it is. The others are these: a task is started or
forked, a child is reaped, a parent begins to wait, a task exits, `main` ends.
`Effect` has one constructor for each, with the state as the tree sees it after
the step, and `step_effect` says that every enabled step of a consistent state is
one of them or ends with a fault of `otherStops`. The invariants of the tree are
proved from the constructors, and no later proof unfolds a system call.
-/

namespace SeekingOs.Thread

open Lib

variable {s : Sched} {t : Addr}

/-! ## The states after the steps -/

/-- A new task on both lists, with the pid of bit `i`. -/
def Sched.enter (s : Sched) (t : Addr) (task : Task) (i : Nat) : Sched :=
  { s with
    pidBitmap := bitmapSet s.pidBitmap i true
    nextSerial := s.nextSerial + 1
    readyList := s.readyList ++ [t]
    allList := s.allList ++ [t] }.setTask t fun _ => task

/-- The PCB that `init_task` and `thread_create` fill in. -/
def newThread (s : Sched) (name : List Char) (prio i : Nat) : Task :=
  { pid := 1 + i, status := .ready, name, priority := prio, ticks := prio, elapsedTicks := 0,
    hasPgdir := false,
    parentPid := -1, exitStatus := 0, resume := .fresh, serial := s.nextSerial }

/-- The PCB that `copy_pcb_vaddrbitmap_stack0` fills in. -/
def newChild (s : Sched) (i : Nat) : Task :=
  let parent := s.tasks s.cur
  { parent with
    pid := 1 + i, elapsedTicks := 0, status := .ready, ticks :=
      parent.priority, parentPid := parent.pid
    name := parent.name ++ ['_', 'f', 'o', 'r', 'k'], resume := .fresh, serial := s.nextSerial }

/-- The orphans of the current task go to `init`. -/
def Sched.adopted (s : Sched) (status : Int) : Sched :=
  initAdoptChildren (s.setTask s.cur ({ · with exitStatus := toSigned 8 status }))
    (s.tasks s.cur).pid

/-- The current task has exited and its waiting parent is woken. -/
def Sched.exits (s : Sched) (status : Int) (parent : Addr) : Sched :=
  let woken := if (s.tasks parent).status = .waiting then (s.adopted status).wake parent
    else s.adopted status
  woken.setTask s.cur ({ · with status := .hanging, resume := .exited })

/-- The current task waits for a child. -/
def Sched.waits (s : Sched) : Sched :=
  s.setTask s.cur ({ · with status := .waiting, resume := .wait })

/-! ## Links -/

theorem Queues.enter (q : Queues s) {task : Task} {i : Nat} (ht : t ∉ s.allList)
    (hst : task.status = .ready) (hres : task.resume = .fresh) : Queues (s.enter t task i) := by
  have hready : t ∉ s.readyList := fun h => ht ((q.ready t).mp h).1
  have free : Unqueued s t := q.unqueued_of_not_mem ht
  have ne_of_mem {u : Addr} (h : u ∈ s.allList) : u ≠ t := fun e => ht (e ▸ h)
  have old {u : Addr} (h : u ≠ t) : (s.enter t task i).tasks u = s.tasks u := by
    simp only [Sched.enter, setTask_tasks, h, ↓reduceIte]
  have new : (s.enter t task i).tasks t = task := by simp [Sched.enter]
  refine ⟨⟨nodup_snoc q.allNodup ht, nodup_snoc q.readyNodup hready, q.waitersNodup, fun u => ?_,
    fun k u h => ?_,
    fun w u h => ?_, fun u h => ?_, List.mem_append_left _ q.idleMem, ?_⟩,
    List.mem_append_left _ q.curMem,
    fun u h => ?_⟩
  · show u ∈ s.readyList ++ [t] ↔ u ∈ s.allList ++ [t] ∧ _
    by_cases e : u = t
    · subst e; simp [new, hst]
    · simpa [e, old e] using q.ready u
  · have hu := q.waiters k u h
    rw [old (ne_of_mem hu.1)]
    exact ⟨List.mem_append_left _ hu.1, hu.2⟩
  · have hu := q.waiter w u h
    rw [old (ne_of_mem hu.1)]
    exact ⟨List.mem_append_left _ hu.1, hu.2⟩
  · by_cases e : u = t
    · subst e
      rw [new]
      exact .awake (.inl hst) (by rw [hres]; decide) (by rw [hres]; decide)
    · rw [old e]
      exact q.fits u (by simpa [e] using (List.mem_append.mp h))
  · show IdleResume ((s.enter t task i).tasks s.idleThread).resume
    rw [old (ne_of_mem q.idleMem)]
    exact q.idle
  · show ((s.enter t task i).tasks u).status = .running ↔ u = s.cur
    by_cases e : u = t
    · subst e
      simp [new, hst, (ne_of_mem q.curMem).symm]
    · rw [old e]
      exact q.running u (by simpa [e] using (List.mem_append.mp h))

/-- A task in no wait queue, other than the idle thread, is taken off the lists. -/
theorem Links.threadExit (l : Links s) (free : Unqueued s t) (hidle : s.idleThread ≠ t) :
    Links (threadExit s t) := by
  have mem {u : Addr} : u ∈ s.allList.erase t ↔ u ≠ t ∧ u ∈ s.allList := l.allNodup.mem_erase_iff
  have old {u : Addr} (h : u ≠ t) : (Thread.threadExit s t).tasks u = s.tasks u := by
    simp only [Thread.threadExit, releasePid, setTask_tasks, h, ↓reduceIte]
  refine ⟨l.allNodup.erase t, l.readyNodup.erase t, l.waitersNodup, fun u => ?_, fun k u h => ?_,
    fun w u h => ?_,
    fun u h => ?_, mem.mpr ⟨hidle, l.idleMem⟩, ?_⟩
  · show u ∈ s.readyList.erase t ↔ u ∈ s.allList.erase t ∧ _
    rw [l.readyNodup.mem_erase_iff, mem, l.ready u, and_assoc]
    exact and_congr_right fun e => by rw [old e]
  · have hne : u ≠ t := fun e => free.waiters k (e ▸ h)
    have hu := l.waiters k u h
    rw [old hne]
    exact ⟨mem.mpr ⟨hne, hu.1⟩, hu.2⟩
  · have hne : u ≠ t := fun e => free.waiter w (e ▸ h)
    have hu := l.waiter w u h
    rw [old hne]
    exact ⟨mem.mpr ⟨hne, hu.1⟩, hu.2⟩
  · have hu := mem.mp h
    rw [old hu.1]
    exact l.fits u hu.2
  · show IdleResume ((Thread.threadExit s t).tasks s.idleThread).resume
    rw [old hidle]
    exact l.idle

theorem Queues.adopted (q : Queues s) (status : Int) : Queues (s.adopted status) := by
  refine q.congr rfl rfl rfl (fun _ => rfl) rfl rfl fun t => ?_
  simp only [Sched.adopted, initAdoptChildren, setTask_tasks]
  split <;> split <;> simp_all

/-- `sys_exit` gives the processor away after it has woken the parent. -/
theorem Queues.exits (q : Queues s) {status : Int} {parent : Addr} (hmem : parent ∈ s.allList)
    (hidle : s.cur ≠ s.idleThread) : Between (s.exits status parent) := by
  have fit (old : Task) : TaskFits { old with status := .hanging, resume := .exited } :=
    ⟨⟨by simp, by simp⟩, fun h => (by cases h), by simp⟩
  have leave {s₁ : Sched} (q₁ : Queues s₁) (hcur : s₁.cur = s.cur)
      (hid : s₁.idleThread = s.idleThread) :
      Between (s₁.setTask s.cur ({ · with status := .hanging, resume := .exited })) := by
    rw [← hcur]
    exact q₁.leave q₁.readyNodup (fun _ _ => Iff.rfl) (by simp [q₁.cur_not_ready]) (by simp) (fit _)
      fun e => absurd (hcur ▸ hid ▸ e) hidle
  have hst : ((s.adopted status).tasks parent).status = (s.tasks parent).status := by
    simp only [Sched.adopted, initAdoptChildren, setTask_tasks]
    split <;> split <;> simp_all
  unfold Sched.exits
  dsimp only
  split
  next hw =>
    have woken := (q.adopted status).wake hmem
      ((q.adopted status).unqueued_of_status (by rw [hst, hw]; decide)) (.inr (hst.trans hw))
    exact leave woken rfl rfl
  next => exact leave (q.adopted status) rfl rfl

/-! ## The steps -/

/-- What an event does to the tree. The last state of a constructor is the one that the tree
sees; what else the step does is scheduling. -/
inductive Effect (s : Sched) : Event → Out → Sched → Prop
  /-- Nothing. -/
  | quiet {e : Event} {o : Out} {s' : Sched} : (∀ status, e ≠ .sysExit status) →
      o = .none ∨ o = .noChild →
      SameTree s s' → Effect s e o s'
  /-- A kernel thread is started. -/
  | started {t : Addr} {name : List Char} {prio i : Nat} {s' : Sched} : FreshPage s t →
      i < s.pidBitmap.size → s.pidBitmap.test i = false →
      SameTree (s.enter t (newThread s name prio i) i) s' →
      Effect s (.threadStart t name prio) .none s'
  /-- The current process forks. -/
  | forked {t : Addr} {i : Nat} {pid : Int} {s' : Sched} : FreshPage s t → i < s.pidBitmap.size →
      s.pidBitmap.test i = false →
      (s.tasks s.cur).hasPgdir = true → SameTree (s.enter t (newChild s i) i) s' →
      Effect s (.sysFork t) (.forked pid) s'
  /-- The current task reaps a child, in `sys_wait` or when it goes on there. -/
  | reaped {e : Event} {child : Addr} {s' : Sched} : e = .sysWait ∨ e = .goOn ∧
      (s.tasks s.cur).resume = .wait → child ∈ s.allList →
      (s.tasks child).parentPid = (s.tasks s.cur).pid → (s.tasks child).status = .hanging →
      SameTree (threadExit s child) s' →
      Effect s e (.reaped s.cur child (s.tasks child).serial (s.tasks child).pid
        (s.tasks child).exitStatus) s'
  /-- The current task has children, none of them exited, and waits. -/
  | waits {e : Event} {s' : Sched} : e = .sysWait ∨ e = .goOn ∧ (s.tasks s.cur).resume = .wait →
      (∀ t ∈ s.allList, (s.tasks t).parentPid = (s.tasks s.cur).pid →
        (s.tasks t).status ≠ .hanging) →
      SameTree s.waits s' → Effect s e .none s'
  /-- The current task exits. -/
  | exits {status : Int} {parent : Addr} {s' : Sched} : (s.tasks s.cur).parentPid ≠ -1 →
      parent ∈ s.allList →
      (s.tasks parent).pid = (s.tasks s.cur).parentPid → SameTree (s.exits status parent) s' →
      Effect s (.sysExit status) .none s'
  /-- `main` ends. -/
  | mainEnds {s' : Sched} : s.cur = s.mainThread → SameTree (threadExit s s.cur) s' →
      Effect s .mainExit .none s'

/-- A run of one step ends in a consistent state, and what it did to the tree is known. -/
def Does (s : Sched) (e : Event) (r : Except Fault (Sched × Out)) : Prop :=
  Ensures (· ∈ otherStops) (fun p => Queues p.1 ∧ Effect s e p.2 p.1) r

theorem Keeps.does {r : Except Fault Sched} {e : Event} (k : Keeps s r)
    (he : ∀ status, e ≠ .sysExit status) : Does s e (do return (← r, .none)) :=
  Ensures.bind k fun _ h => ⟨h.1, .quiet he (.inl rfl) h.2⟩

/-- A pid is found or the kernel stops. -/
theorem ensures_allocatePid :
    Ensures (· ∈ otherStops) (fun p => ∃ i : Nat, i < s.pidBitmap.size ∧
      s.pidBitmap.test i = false ∧
      p = ((1 + i : Int), { s with pidBitmap := bitmapSet s.pidBitmap i true }))
      (allocatePid s) := by
  unfold allocatePid
  cases h : bitmapScan false s.pidBitmap 1 with
  | ok r =>
    obtain ⟨i, rfl, hi, hf, _⟩ := bitmapScan_one h
    exact ⟨i, hi, hf, rfl⟩
  | error f =>
    unfold bitmapScan at h
    rw [assertThat_of (by decide), ok_bind] at h
    rw [error_bind, ensures_error]
    unfold assertThat at h
    split at h
    · cases h
    · cases h
      simp [otherStops]

/-- The lists of `enlist` do not hold the new task. -/
theorem Queues.enlist_eq (q : Queues s) {task : Task} (func var : String) (pidBitmap : Bitmap)
    (n : Nat) (ht : t ∉ s.allList) :
    enlist ({ s with pidBitmap, nextSerial := n }.setTask t fun _ => task) func var t =
      .ok ({ s with
        pidBitmap, nextSerial := n, readyList := s.readyList ++ [t],
        allList := s.allList ++ [t] }.setTask t fun _ => task) := by
  have hready : t ∉ s.readyList := fun h => ht ((q.ready t).mp h).1
  unfold enlist
  rw [setTask_readyList, setTask_allList, assertThat_of hready, assertThat_of ht]
  rfl

theorem Queues.threadStart_does (q : Queues s) {name : List Char} {prio : Nat}
    (fresh : FreshPage s t) :
    Does s (.threadStart t name prio) (do return (← threadStart s t name prio, .none)) := by
  unfold threadStart initTask
  simp only [bind_assoc]
  refine Ensures.bind ensures_allocatePid ?_
  rintro _ ⟨i, hi, hf, rfl⟩
  simp only [pure_bind, q.enlist_eq _ _ _ _ fresh.1, ok_bind]
  have entered : Queues (s.enter t (newThread s name prio i) i) := q.enter fresh.1 rfl rfl
  exact ⟨entered, .started fresh hi hf (.refl _)⟩

theorem Queues.sysFork_does (q : Queues s) (fresh : FreshPage s t) :
    Does s (.sysFork t) (sysFork s t) := by
  unfold sysFork copyPcb
  refine Ensures.bind (P := fun _ => (s.tasks s.cur).hasPgdir = true)
    (ensures_assertThat (fun _ => by simp [otherStops]) And.right) fun _ hpg => ?_
  simp only [bind_assoc]
  refine Ensures.bind ensures_allocatePid ?_
  rintro _ ⟨i, hi, hf, rfl⟩
  refine Ensures.bind (P := fun _ => True)
    (ensures_assertThat (fun _ => by simp [otherStops]) fun _ => trivial) fun _ _ => ?_
  simp only [pure_bind, q.enlist_eq _ _ _ _ fresh.1, ok_bind]
  have entered : Queues (s.enter t (newChild s i) i) := q.enter fresh.1 rfl rfl
  exact ⟨entered, .forked fresh hi hf hpg (.refl _)⟩

theorem Queues.sysWait_does (q : Queues s) {e : Event}
    (he : e = .sysWait ∨ e = .goOn ∧ (s.tasks s.cur).resume = .wait)
    (hidle : s.cur ≠ s.idleThread) : Does s e (sysWaitLoop s) := by
  unfold sysWaitLoop
  dsimp only
  split
  next child h =>
    have hmem := List.mem_of_find?_eq_some h
    obtain ⟨hparent, hst⟩ : (s.tasks child).parentPid = (s.tasks s.cur).pid ∧
      (s.tasks child).status = .hanging := by
      simpa [findHangingChild] using List.find?_some h
    have hne : s.cur ≠ child := fun e => by
      rw [← e, q.cur_status] at hst
      cases hst
    have hidle' : s.idleThread ≠ child := fun e => by
      have hres := (q.fits child hmem).hanging.mp hst
      have := q.idle
      rw [e, hres] at this
      exact this
    have links := q.toLinks.threadExit (q.unqueued_of_status (by rw [hst]; decide)) hidle'
    have gone : Queues (threadExit s child) := by
      refine ⟨links, q.allNodup.mem_erase_iff.mpr ⟨hne, q.curMem⟩, fun u hu => ?_⟩
      obtain ⟨hu, hmem⟩ := q.allNodup.mem_erase_iff.mp hu
      have old : (threadExit s child).tasks u = s.tasks u := by
        simp only [threadExit, releasePid, setTask_tasks, hu, ↓reduceIte]
      rw [old]
      exact q.running u hmem
    have ⟨hq, htree⟩ := keeps_run gone (threadExit s child).intr
    exact ⟨hq, .reaped he hmem hparent hst htree⟩
  next h =>
    split
    next =>
      have ⟨hq, htree⟩ := keeps_run q s.intr
      exact ⟨hq, .quiet (by rcases he with rfl | ⟨rfl, _⟩ <;> nofun) (.inr rfl) htree⟩
    next =>
      have fit : TaskFits { s.tasks s.cur with status := .waiting, resume := .wait } :=
        ⟨⟨by simp, by simp⟩, fun _ => rfl, by simp⟩
      obtain ⟨s', hs', hq, htree⟩ := q.threadBlock (.inr (.inr rfl)) fit fun e => absurd e hidle
      rw [hs']
      refine ⟨hq, .waits he (fun t ht hp hst => ?_) htree⟩
      have := List.find?_eq_none.mp h t ht
      simp [findHangingChild, hp, hst] at this

end SeekingOs.Thread
