import SeekingOs.Userprog.Effects

/-!
# The process tree is well formed

Pids are recycled first-fit, a zombie keeps its pid until it is reaped, and a
task changes its parent when the parent exits. `sys_exit` follows the parent's
pid to a PCB without a check. The invariant that makes this safe says of every
task with a parent that the parent is a *living process*: on the list and not
exited, and with a page directory of its own. The last part is what keeps `main`
out: it may end without anyone adopting for it, and it never was a parent.
-/

namespace SeekingOs.Thread

open Lib

/-- The invariant of the process tree. -/
structure Tree (s : Sched) : Prop where
  pids : s.pidBitmap.size = 1024
  pidBit : ∀ t ∈ s.allList, ∃ i : Nat, i < 1024 ∧ (s.tasks t).pid = 1 + i ∧
    s.pidBitmap.test i = true
  pidInj : ∀ t ∈ s.allList, ∀ u ∈ s.allList, (s.tasks t).pid = (s.tasks u).pid → t = u
  init : ∃ t ∈ s.allList, (s.tasks t).pid = 1 ∧ (s.tasks t).parentPid = -1 ∧
    (s.tasks t).hasPgdir = true
  root : ∀ t ∈ s.allList, (s.tasks t).parentPid = -1 → (s.tasks t).status ≠ .hanging
  parent : ∀ t ∈ s.allList, (s.tasks t).parentPid ≠ -1 →
    ∃ p ∈ s.allList, p ≠ t ∧ (s.tasks p).pid = (s.tasks t).parentPid ∧
      (s.tasks p).status ≠ .hanging ∧
      (s.tasks p).hasPgdir = true
  main : (s.tasks s.mainThread).hasPgdir = false
  apart : s.mainThread ≠ s.idleThread
  serial : ∀ t ∈ s.allList, (s.tasks t).serial < s.nextSerial
  serialInj : ∀ t ∈ s.allList, ∀ u ∈ s.allList, (s.tasks t).serial = (s.tasks u).serial → t = u

variable {s s' : Sched} {t : Addr}

theorem Tree.congr (tree : Tree s) (same : SameKin s s') : Tree s' where
  pids := by rw [same.pidBitmap]; exact tree.pids
  pidBit t h := by
    rw [same.allList] at h
    rw [same.pid, same.pidBitmap]
    exact tree.pidBit t h
  pidInj t h u hu := by
    rw [same.allList] at h hu
    rw [same.pid, same.pid]
    exact tree.pidInj t h u hu
  init := by
    obtain ⟨t, h, ht⟩ := tree.init
    exact ⟨t, same.allList ▸ h, by rw [same.pid, same.parentPid, same.hasPgdir]; exact ht⟩
  root t h := by
    rw [same.allList] at h
    rw [same.parentPid, ne_eq, same.hanging t h]
    exact tree.root t h
  parent t h := by
    rw [same.allList] at h
    rw [same.parentPid]
    intro hp
    obtain ⟨p, hmem, hne, hpid, hst, hpg⟩ := tree.parent t h hp
    refine ⟨p, same.allList ▸ hmem, hne, by rw [same.pid, hpid], ?_, by rw [same.hasPgdir, hpg]⟩
    rw [ne_eq, same.hanging p hmem]
    exact hst
  main := by rw [same.mainThread, same.hasPgdir]; exact tree.main
  apart := by rw [same.mainThread, same.idleThread]; exact tree.apart
  serial t h := by
    rw [same.allList] at h
    rw [same.serial, same.nextSerial]
    exact tree.serial t h
  serialInj t h u hu := by
    rw [same.allList] at h hu
    rw [same.serial, same.serial]
    exact tree.serialInj t h u hu

/-- Pids are positive. -/
theorem Tree.pid_pos (tree : Tree s) (h : t ∈ s.allList) : 1 ≤ (s.tasks t).pid := by
  obtain ⟨i, _, hpid, _⟩ := tree.pidBit t h
  omega

/-- `pid2thread` finds the one task with the pid. -/
theorem Tree.pid2thread_eq (tree : Tree s) (h : t ∈ s.allList) {pid : Int}
    (hpid : (s.tasks t).pid = pid) : pid2thread s pid = some t := by
  unfold pid2thread
  cases hf : s.allList.find? fun t => (s.tasks t).pid == pid with
  | none => exact absurd (List.find?_eq_none.mp hf t h) (by simp [hpid])
  | some u =>
    have hu : (s.tasks u).pid = pid := by simpa using List.find?_some hf
    rw [tree.pidInj u (List.mem_of_find?_eq_some hf) t h (hu.trans hpid.symm)]

/-! ## A task comes -/

section Enter

variable {task : Task} {i : Nat}

theorem enter_self : (s.enter t task i).tasks t = task := by simp [Sched.enter]

theorem enter_other {u : Addr} (h : u ≠ t) : (s.enter t task i).tasks u = s.tasks u := by
  simp only [Sched.enter, setTask_tasks, h, ↓reduceIte]

theorem mem_enter {u : Addr} : u ∈ (s.enter t task i).allList ↔ u ∈ s.allList ∨ u = t := by
  show u ∈ s.allList ++ [t] ↔ _
  simp

/-- A task with a free pid and a living process for a parent, if any, joins the tree. -/
theorem Tree.enter (tree : Tree s) (fresh : FreshPage s t) (hi : i < s.pidBitmap.size)
    (hfree : s.pidBitmap.test i = false) (hpid : task.pid = 1 + i) (hst : task.status = .ready)
    (hser : task.serial = s.nextSerial)
    (hparent : task.parentPid ≠ -1 → ∃ p ∈ s.allList, (s.tasks p).pid = task.parentPid ∧
      (s.tasks p).status ≠ .hanging ∧ (s.tasks p).hasPgdir = true) : Tree (s.enter t task i) := by
  have ne {u : Addr} (h : u ∈ s.allList) : u ≠ t := fun e => fresh.1 (e ▸ h)
  -- the bit was clear, so nobody has the pid
  have unused {u : Addr} (h : u ∈ s.allList) : (s.tasks u).pid ≠ task.pid := fun e => by
    obtain ⟨j, _, hj, hbit⟩ := tree.pidBit u h
    rw [show j = i by omega, hfree] at hbit
    cases hbit
  have later {u : Addr} (h : u ∈ s.allList) : (s.tasks u).serial ≠ task.serial := fun e => by
    have := tree.serial u h
    omega
  have size : (bitmapSet s.pidBitmap i true).size = 1024 := by rw [size_bitmapSet, tree.pids]
  refine ⟨size, fun u hu => ?_, fun u hu v hv => ?_, ?_, fun u hu => ?_, fun u hu => ?_, ?_,
    tree.apart, fun u hu => ?_, fun u hu v hv => ?_⟩
  · show ∃ j : Nat, j < 1024 ∧ _ ∧ (bitmapSet s.pidBitmap i true).test j = true
    rcases mem_enter.mp hu with h | rfl
    · obtain ⟨j, hj, hpj, hbit⟩ := tree.pidBit u h
      rw [enter_other (ne h)]
      refine ⟨j, hj, hpj, ?_⟩
      rw [test_bitmapSet hi]
      split
      · rfl
      · exact hbit
    · rw [enter_self]
      exact ⟨i, tree.pids ▸ hi, hpid, by rw [test_bitmapSet hi, if_pos rfl]⟩
  · rcases mem_enter.mp hu with h | rfl <;> rcases mem_enter.mp hv with h' | rfl
    · rw [enter_other (ne h), enter_other (ne h')]
      exact tree.pidInj u h v h'
    · rw [enter_other (ne h), enter_self]
      exact fun e => absurd e (unused h)
    · rw [enter_other (ne h'), enter_self]
      exact fun e => absurd e.symm (unused h')
    · exact fun _ => rfl
  · obtain ⟨u, h, hu⟩ := tree.init
    exact ⟨u, mem_enter.mpr (.inl h), by rw [enter_other (ne h)]; exact hu⟩
  · rcases mem_enter.mp hu with h | rfl
    · rw [enter_other (ne h)]
      exact tree.root u h
    · rw [enter_self, hst]
      exact fun _ => by decide
  · rcases mem_enter.mp hu with h | rfl
    · rw [enter_other (ne h)]
      intro hp
      obtain ⟨p, hmem, hpar⟩ := tree.parent u h hp
      exact ⟨p, mem_enter.mpr (.inl hmem), by rw [enter_other (ne hmem)]; exact hpar⟩
    · rw [enter_self]
      intro hp
      obtain ⟨p, hmem, hpar⟩ := hparent hp
      exact ⟨p, mem_enter.mpr (.inl hmem), ne hmem, by rw [enter_other (ne hmem)]; exact hpar⟩
  · show ((s.enter t task i).tasks s.mainThread).hasPgdir = false
    rw [enter_other fresh.2.symm]
    exact tree.main
  · show _ < s.nextSerial + 1
    rcases mem_enter.mp hu with h | rfl
    · rw [enter_other (ne h)]
      exact Nat.lt_succ_of_lt (tree.serial u h)
    · rw [enter_self, hser]
      exact Nat.lt_succ_self _
  · rcases mem_enter.mp hu with h | rfl <;> rcases mem_enter.mp hv with h' | rfl
    · rw [enter_other (ne h), enter_other (ne h')]
      exact tree.serialInj u h v h'
    · rw [enter_other (ne h), enter_self]
      exact fun e => absurd e (later h)
    · rw [enter_other (ne h'), enter_self]
      exact fun e => absurd e.symm (later h')
    · exact fun _ => rfl

end Enter

/-! ## A task goes -/

theorem threadExit_other {u : Addr} (h : u ≠ t) : (threadExit s t).tasks u = s.tasks u := by
  simp only [threadExit, releasePid, setTask_tasks, h, ↓reduceIte]

theorem mem_threadExit {u : Addr} (hnd : s.allList.Nodup) :
    u ∈ (threadExit s t).allList ↔ u ≠ t ∧ u ∈ s.allList := hnd.mem_erase_iff

/-- The bit that `release_pid` clears. -/
theorem threadExit_pidBitmap (tree : Tree s) {i : Nat} (hi : i < 1024)
    (hpid : (s.tasks t).pid = 1 + i) (j : Nat) :
    (threadExit s t).pidBitmap.test j = if j = i then false else s.pidBitmap.test j := by
  have hbit : u32 ((s.tasks t).pid - 1) = i := by
    rw [hpid, u32]
    omega
  have hthis : (threadExit s t).pidBitmap = bitmapSet s.pidBitmap i false := by
    simp [threadExit, releasePid, hbit]
  rw [hthis, test_bitmapSet (by rw [tree.pids]; exact hi)]

/-- A task without a page directory, or one that has exited: it is nobody's parent, and not `init`.
-/
theorem Tree.childless (tree : Tree s) (hmem : t ∈ s.allList)
    (h : (s.tasks t).hasPgdir = false ∨ (s.tasks t).status = .hanging) {u : Addr}
    (hu : u ∈ s.allList) :
    (s.tasks u).parentPid ≠ (s.tasks t).pid := fun e => by
  have hpos := tree.pid_pos hmem
  obtain ⟨p, hp, _, hpid, hst, hpg⟩ := tree.parent u hu (by omega)
  rw [tree.pidInj p hp t hmem (hpid.trans e)] at hst hpg
  rcases h with h | h
  · rw [h] at hpg
    cases hpg
  · exact hst h

/-- Such a task is taken off the tree. -/
theorem Tree.threadExit (tree : Tree s) (hnd : s.allList.Nodup) (hmem : t ∈ s.allList)
    (h : (s.tasks t).hasPgdir = false ∨ (s.tasks t).status = .hanging) : Tree (threadExit s t) := by
  have mem {u : Addr} : u ∈ (Thread.threadExit s t).allList ↔ u ≠ t ∧ u ∈ s.allList :=
    mem_threadExit hnd
  have old {u : Addr} (h : u ≠ t) : (Thread.threadExit s t).tasks u = s.tasks u :=
    threadExit_other h
  obtain ⟨i, hi, hpid, _⟩ := tree.pidBit t hmem
  refine ⟨?_, fun u hu => ?_, fun u hu v hv => ?_, ?_, fun u hu => ?_, fun u hu hp => ?_,
    ?_, tree.apart,
    fun u hu => ?_, fun u hu v hv => ?_⟩
  · show (bitmapSet _ _ _).size = 1024
    rw [size_bitmapSet]
    exact tree.pids
  · obtain ⟨hne, hu⟩ := mem.mp hu
    obtain ⟨j, hj, hpj, hbit⟩ := tree.pidBit u hu
    rw [old hne]
    refine ⟨j, hj, hpj, ?_⟩
    rw [threadExit_pidBitmap tree hi hpid, if_neg fun e => hne ?_]
    · exact hbit
    · exact tree.pidInj u hu t hmem (by rw [hpj, hpid, e])
  · obtain ⟨hne, hu⟩ := mem.mp hu
    obtain ⟨hne', hv⟩ := mem.mp hv
    rw [old hne, old hne']
    exact tree.pidInj u hu v hv
  · obtain ⟨u, hu, hone, hroot, hpg⟩ := tree.init
    have hne : u ≠ t := by
      rintro rfl
      rcases h with h | h
      · rw [h] at hpg
        cases hpg
      · exact tree.root u hu hroot h
    exact ⟨u, mem.mpr ⟨hne, hu⟩, by rw [old hne]; exact ⟨hone, hroot, hpg⟩⟩
  · obtain ⟨hne, hu⟩ := mem.mp hu
    rw [old hne]
    exact tree.root u hu
  · obtain ⟨hne, hu⟩ := mem.mp hu
    rw [old hne] at hp ⊢
    obtain ⟨p, hp', hpu, hpp, hst, hpg⟩ := tree.parent u hu hp
    have hpt : p ≠ t := fun e => tree.childless hmem h hu (e ▸ hpp.symm)
    exact ⟨p, mem.mpr ⟨hpt, hp'⟩, hpu, by rw [old hpt]; exact ⟨hpp, hst, hpg⟩⟩
  · show ((Thread.threadExit s t).tasks s.mainThread).hasPgdir = false
    by_cases hm : s.mainThread = t
    · have := tree.main
      rw [hm] at this ⊢
      simpa [Thread.threadExit, releasePid] using this
    · rw [old hm]
      exact tree.main
  · obtain ⟨hne, hu⟩ := mem.mp hu
    rw [old hne]
    exact tree.serial u hu
  · obtain ⟨hne, hu⟩ := mem.mp hu
    obtain ⟨hne', hv⟩ := mem.mp hv
    rw [old hne, old hne']
    exact tree.serialInj u hu v hv

/-! ## A task exits -/

section Exits

variable {status : Int} {p u : Addr}

theorem adopted_tasks : (s.adopted status).tasks u =
    let task := if u = s.cur then { s.tasks u with exitStatus := toSigned 8 status } else s.tasks u
    if u ∈ s.allList ∧ (s.tasks u).parentPid = (s.tasks s.cur).pid then { task with parentPid := 1 }
    else task := by
  simp only [Sched.adopted, initAdoptChildren, setTask_tasks, setTask_allList]
  by_cases h : u = s.cur
  · subst h
    simp only [↓reduceIte]
  · simp only [h, ↓reduceIte]

theorem adopted_fields (s : Sched) (status : Int) (u : Addr) :
    ((s.adopted status).tasks u).pid = (s.tasks u).pid ∧
    ((s.adopted status).tasks u).hasPgdir = (s.tasks u).hasPgdir ∧
    ((s.adopted status).tasks u).serial = (s.tasks u).serial ∧
    ((s.adopted status).tasks u).parentPid =
      (if u ∈ s.allList ∧ (s.tasks u).parentPid = (s.tasks s.cur).pid then 1
        else (s.tasks u).parentPid) ∧
    ((s.adopted status).tasks u).status = (s.tasks u).status := by
  have task :
      ∃ e, (if u = s.cur then { s.tasks u with exitStatus := toSigned 8 status } else s.tasks u) =
      { s.tasks u with exitStatus := e } := by
    split
    · exact ⟨_, rfl⟩
    · exact ⟨(s.tasks u).exitStatus, rfl⟩
  obtain ⟨e, he⟩ := task
  rw [adopted_tasks, he]
  by_cases ha : u ∈ s.allList ∧ (s.tasks u).parentPid = (s.tasks s.cur).pid
  · simp only [if_pos ha, and_self]
  · simp only [if_neg ha, and_self]

theorem woken_tasks :
    (if (s.tasks p).status = .waiting then (s.adopted status).wake p
      else s.adopted status).tasks u =
      if u = p ∧ (s.tasks p).status = .waiting then
        { (s.adopted status).tasks u with status := .ready }
      else (s.adopted status).tasks u := by
  split
  next h =>
    simp only [Sched.wake, setTask_tasks, h, and_true]
    split
    next e => rw [e]
    next => rfl
  next h => simp only [h, and_false, ↓reduceIte]

/-- What `sys_exit` does to a PCB, field by field. -/
theorem exits_fields (status : Int) (u : Addr) (hp : p ≠ s.cur) :
    ((s.exits status p).tasks u).pid = (s.tasks u).pid ∧
    ((s.exits status p).tasks u).hasPgdir = (s.tasks u).hasPgdir ∧
    ((s.exits status p).tasks u).serial = (s.tasks u).serial ∧
    ((s.exits status p).tasks u).parentPid =
      (if u ∈ s.allList ∧ (s.tasks u).parentPid = (s.tasks s.cur).pid then 1
        else (s.tasks u).parentPid) ∧
    ((s.exits status p).tasks u).status =
      (if u = s.cur then .hanging else if u = p ∧ (s.tasks p).status = .waiting then .ready
        else (s.tasks u).status) := by
  obtain ⟨hpid, hpg, hser, hpar, hst⟩ := adopted_fields s status u
  unfold Sched.exits
  dsimp only
  rw [setTask_tasks]
  by_cases h : u = s.cur
  · subst h
    simp only [↓reduceIte, woken_tasks, hp.symm, false_and]
    exact ⟨hpid, hpg, hser, hpar, trivial⟩
  · simp only [h, ↓reduceIte, woken_tasks]
    split
    · exact ⟨hpid, hpg, hser, hpar, rfl⟩
    · exact ⟨hpid, hpg, hser, hpar, hst⟩

theorem exits_lists (s : Sched) (status : Int) (p : Addr) :
    (s.exits status p).allList = s.allList ∧ (s.exits status p).pidBitmap = s.pidBitmap ∧
    (s.exits status p).mainThread = s.mainThread ∧ (s.exits status p).idleThread = s.idleThread ∧
    (s.exits status p).nextSerial = s.nextSerial := by
  unfold Sched.exits
  dsimp only
  split <;> exact ⟨rfl, rfl, rfl, rfl, rfl⟩

/-- The exiting task is not its own parent. -/
theorem Tree.parent_ne_cur (tree : Tree s) (hcur : s.cur ∈ s.allList)
    (hpar : (s.tasks s.cur).parentPid ≠ -1) (hmem : p ∈ s.allList)
    (hpid : (s.tasks p).pid = (s.tasks s.cur).parentPid) : p ≠ s.cur := by
  obtain ⟨p', hmem', hne, hpid', _⟩ := tree.parent s.cur hcur hpar
  rw [tree.pidInj p hmem p' hmem' (hpid.trans hpid'.symm)]
  exact hne

/-- The orphans have a living parent again: `init`, which does not exit. -/
theorem Tree.exits (tree : Tree s) (hcur : s.cur ∈ s.allList)
    (hpar : (s.tasks s.cur).parentPid ≠ -1) (hmem : p ∈ s.allList)
    (hpid : (s.tasks p).pid = (s.tasks s.cur).parentPid) : Tree (s.exits status p) := by
  have hne := tree.parent_ne_cur hcur hpar hmem hpid
  obtain ⟨hall, hbits, hmain, hidle, hser⟩ := exits_lists s status p
  have fields (u : Addr) := exits_fields status u hne
  obtain ⟨i, hi, hone, hroot, hipg⟩ := tree.init
  have hic : i ≠ s.cur := fun e => hpar (e ▸ hroot)
  -- a task that is not the exiting one hangs only if it did before
  have hanging {u : Addr} (hu : u ≠ s.cur) (h : (s.tasks u).status ≠ .hanging) :
      ((s.exits status p).tasks u).status ≠ .hanging := by
    rw [(fields u).2.2.2.2, if_neg hu]
    split
    · decide
    · exact h
  refine ⟨by rw [hbits]; exact tree.pids, fun u hu => ?_, fun u hu v hv => ?_, ?_,
    fun u hu hp => ?_,
    fun u hu hp => ?_, ?_, by rw [hmain, hidle]; exact tree.apart, fun u hu => ?_,
    fun u hu v hv => ?_⟩
  · rw [hall] at hu
    rw [(fields u).1, hbits]
    exact tree.pidBit u hu
  · rw [hall] at hu hv
    rw [(fields u).1, (fields v).1]
    exact tree.pidInj u hu v hv
  · refine ⟨i, hall ▸ hi, by rw [(fields i).1, hone], ?_, by rw [(fields i).2.1, hipg]⟩
    have hpos := tree.pid_pos hcur
    rw [(fields i).2.2.2.1, if_neg fun h => ?_]
    · exact hroot
    · have := h.2
      omega
  · rw [hall] at hu
    rw [(fields u).2.2.2.1] at hp
    split at hp
    · cases hp
    · have huc : u ≠ s.cur := fun e => hpar (e ▸ hp)
      exact hanging huc (tree.root u hu hp)
  · rw [hall] at hu ⊢
    rw [(fields u).2.2.2.1] at hp ⊢
    split
    next ha =>
      have hui : i ≠ u := by
        rintro rfl
        have := tree.pid_pos hcur
        have := ha.2
        omega
      exact ⟨i, hi, hui, by rw [(fields i).1, hone], hanging hic (tree.root i hi hroot),
        by rw [(fields i).2.1, hipg]⟩
    next ha =>
      rw [if_neg ha] at hp
      obtain ⟨q, hq, hqu, hqp, hqs, hqg⟩ := tree.parent u hu hp
      have hqc : q ≠ s.cur := fun e => ha ⟨hu, by rw [← e, hqp]⟩
      exact ⟨q, hq, hqu, by rw [(fields q).1, hqp], hanging hqc hqs, by rw [(fields q).2.1, hqg]⟩
  · rw [hmain, (fields _).2.1]
    exact tree.main
  · rw [hall] at hu
    rw [(fields u).2.2.1, hser]
    exact tree.serial u hu
  · rw [hall] at hu hv
    rw [(fields u).2.2.1, (fields v).2.2.1]
    exact tree.serialInj u hu v hv

end Exits

end SeekingOs.Thread
