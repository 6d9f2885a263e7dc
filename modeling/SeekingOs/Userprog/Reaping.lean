import SeekingOs.Userprog.Runs

/-!
# Every exited task is reaped once

What a run says about the process tree from the outside: what `sys_wait` answers.
A PCB page and a pid are used again after a task is gone, so that the history of a
task is told by its serial number, which the model gives out once.
-/

namespace SeekingOs.Thread

open Lib

/-- The serial numbers of the tasks that a run has reaped. -/
def reapedSerials (tr : List (Entry Sched Event Out)) : List Nat :=
  tr.filterMap fun entry => match entry.out with
    | .reaped _ _ serial _ _ => some serial
    | _ => none

/-- The history of a state: what was reaped is below the next serial number, and not on the list. -/
structure History (tr : List (Entry Sched Event Out)) (s : Sched) : Prop where
  old : ∀ n ∈ reapedSerials tr, n < s.nextSerial
  gone : ∀ n ∈ reapedSerials tr, ∀ t ∈ s.allList, (s.tasks t).serial ≠ n
  nodup : (reapedSerials tr).Nodup

variable {s s' : Sched} {e : Event} {o : Out}

theorem SameKin.serials (same : SameKin s s') {n : Nat} :
    (∃ t ∈ s'.allList, (s'.tasks t).serial = n) ↔ ∃ t ∈ s.allList, (s.tasks t).serial = n := by
  simp only [same.allList, same.serial]

theorem enter_serials {t : Addr} {task : Task} {i n : Nat} (hser : task.serial = s.nextSerial)
    (h : ∃ u ∈ (s.enter t task i).allList, ((s.enter t task i).tasks u).serial = n) :
    n = s.nextSerial ∨ ∃ u ∈ s.allList, (s.tasks u).serial = n := by
  obtain ⟨u, hu, hn⟩ := h
  by_cases e : u = t
  · rw [e, enter_self, hser] at hn
    exact .inl hn.symm
  · rw [enter_other e] at hn
    exact .inr ⟨u, (mem_enter.mp hu).resolve_right e, hn⟩

theorem threadExit_serials {t : Addr} {n : Nat} (hnd : s.allList.Nodup)
    (h : ∃ u ∈ (threadExit s t).allList, ((threadExit s t).tasks u).serial = n) :
    ∃ u ∈ s.allList, u ≠ t ∧ (s.tasks u).serial = n := by
  obtain ⟨u, hu, hn⟩ := h
  obtain ⟨hne, hu⟩ := (mem_threadExit hnd).mp hu
  rw [threadExit_other hne] at hn
  exact ⟨u, hu, hne, hn⟩

/-- A step gives out the next serial number or none. -/
theorem Effect.serials (inv : Inv s) (eff : Effect s e o s') :
    s.nextSerial ≤ s'.nextSerial ∧ ∀ n, (∃ t ∈ s'.allList, (s'.tasks t).serial = n) →
      n = s.nextSerial ∨ ∃ t ∈ s.allList, (s.tasks t).serial = n := by
  have hnd := inv.queues.allNodup
  have hcur := inv.queues.curMem
  cases eff with
  | quiet _ _ same => exact ⟨Nat.le_of_eq same.nextSerial.symm, fun n h => .inr (same.serials.mp h)⟩
  | started _ _ _ same =>
    exact ⟨same.nextSerial ▸ Nat.le_succ s.nextSerial,
      fun n h => enter_serials rfl (same.serials.mp h)⟩
  | forked _ _ _ _ same =>
    exact ⟨same.nextSerial ▸ Nat.le_succ s.nextSerial,
      fun n h => enter_serials rfl (same.serials.mp h)⟩
  | reaped _ _ _ _ same =>
    refine ⟨Nat.le_of_eq same.nextSerial.symm, fun n h => .inr ?_⟩
    obtain ⟨u, hu, _, hn⟩ := threadExit_serials hnd (same.serials.mp h)
    exact ⟨u, hu, hn⟩
  | waits _ _ same =>
    have kin : SameKin s s.waits :=
      sameKin_setTask rfl rfl rfl rfl rfl rfl
        ⟨rfl, rfl, rfl, rfl, rfl, by simp [inv.queues.cur_status]⟩
    exact ⟨Nat.le_of_eq same.nextSerial.symm, fun n h => .inr (kin.serials.mp (same.serials.mp h))⟩
  | @exits status parent _ hpar hmem hpid same =>
    obtain ⟨hall, _, _, _, hser⟩ := exits_lists s status parent
    refine ⟨Nat.le_of_eq (same.nextSerial.trans hser).symm, fun n h => .inr ?_⟩
    obtain ⟨u, hu, hn⟩ := same.serials.mp h
    rw [hall] at hu
    rw [(exits_fields status u (inv.tree.parent_ne_cur hcur hpar hmem hpid)).2.2.1] at hn
    exact ⟨u, hu, hn⟩
  | mainEnds _ same =>
    refine ⟨Nat.le_of_eq same.nextSerial.symm, fun n h => .inr ?_⟩
    obtain ⟨u, hu, _, hn⟩ := threadExit_serials hnd (same.serials.mp h)
    exact ⟨u, hu, hn⟩

/-- What `sys_wait` answers, and what is left of the child. -/
structure Reaped (s s' : Sched) (parent child : Addr) (serial : Nat) (pid status : Int) : Prop where
  parent_eq : parent = s.cur
  mem : child ∈ s.allList
  hanging : (s.tasks child).status = .hanging
  kin : (s.tasks child).parentPid = (s.tasks parent).pid
  serial_eq : serial = (s.tasks child).serial
  pid_eq : pid = (s.tasks child).pid
  status_eq : status = (s.tasks child).exitStatus
  gone : child ∉ s'.allList
  pidFree : s'.pidBitmap.test (pid - 1).toNat = false
  noPid : ∀ t ∈ s'.allList, (s'.tasks t).pid ≠ pid
  noParent : ∀ t ∈ s'.allList, (s'.tasks t).parentPid ≠ pid
  noSerial : ∀ t ∈ s'.allList, (s'.tasks t).serial ≠ serial

theorem Effect.reaped_spec (inv : Inv s) {parent child : Addr} {serial : Nat} {pid status : Int}
    (eff : Effect s e (.reaped parent child serial pid status) s') :
    (e = .sysWait ∨ e = .goOn ∧ (s.tasks s.cur).resume = .wait) ∧
    Reaped s s' parent child serial pid status := by
  have hnd := inv.queues.allNodup
  cases eff with
  | quiet _ ho _ => rcases ho with h | h <;> cases h
  | reaped he hmem hkin hst same =>
    refine ⟨he, rfl, hmem, hst, hkin, rfl, rfl, rfl, ?_, ?_, fun t ht => ?_, fun t ht => ?_,
      fun t ht => ?_⟩
    · rw [same.allList, mem_threadExit hnd]
      exact fun h => h.1 rfl
    · obtain ⟨i, hi, hpid, _⟩ := inv.tree.pidBit child hmem
      rw [same.pidBitmap, threadExit_pidBitmap inv.tree hi hpid, if_pos (by omega)]
    all_goals
      rw [same.allList] at ht
      obtain ⟨hne, ht⟩ := (mem_threadExit hnd).mp ht
    · rw [same.pid, threadExit_other hne]
      exact fun h => hne (inv.tree.pidInj t ht child hmem h)
    · rw [same.parentPid, threadExit_other hne]
      exact inv.tree.childless hmem (.inr hst) ht
    · rw [same.serial, threadExit_other hne]
      exact fun h => hne (inv.tree.serialInj t ht child hmem h)

theorem History.next {tr : List (Entry Sched Event Out)} (hist : History tr s) (inv : Inv s)
    (eff : Effect s e o s') : History (tr ++ [⟨s, e, o⟩]) s' := by
  obtain ⟨hle, hnew⟩ := eff.serials inv
  have old : ∀ n ∈ reapedSerials tr, n < s'.nextSerial :=
    fun n hn => Nat.lt_of_lt_of_le (hist.old n hn) hle
  have gone : ∀ n ∈ reapedSerials tr, ∀ t ∈ s'.allList, (s'.tasks t).serial ≠ n :=
    fun n hn t ht hser => by
    rcases hnew n ⟨t, ht, hser⟩ with rfl | ⟨u, hu, hun⟩
    · exact absurd (hist.old _ hn) (Nat.lt_irrefl _)
    · exact hist.gone n hn u hu hun
  have split : reapedSerials (tr ++ [⟨s, e, o⟩]) = reapedSerials tr ++ reapedSerials [⟨s, e, o⟩] :=
    List.filterMap_append
  cases o with
  | reaped parent child serial pid status =>
    have last : reapedSerials [⟨s, e, .reaped parent child serial pid status⟩] = [serial] := rfl
    have r := (eff.reaped_spec inv).2
    have child_old : serial < s.nextSerial := r.serial_eq ▸ inv.tree.serial child r.mem
    rw [last] at split
    refine ⟨fun n hn => ?_, fun n hn => ?_, ?_⟩
    · rw [split] at hn
      rcases List.mem_append.mp hn with hn | hn
      · exact old n hn
      · rw [List.mem_singleton.mp hn]
        exact Nat.lt_of_lt_of_le child_old hle
    · rw [split] at hn
      rcases List.mem_append.mp hn with hn | hn
      · exact gone n hn
      · rw [List.mem_singleton.mp hn]
        exact r.noSerial
    · rw [split]
      exact nodup_snoc hist.nodup fun h => hist.gone serial h child r.mem r.serial_eq.symm
  | _ =>
    have last : reapedSerials (tr ++ [⟨s, e, _⟩]) = reapedSerials tr :=
      split.trans (List.append_nil _)
    rw [← last] at old gone
    exact ⟨old, gone, last ▸ hist.nodup⟩

variable {pcb₁ pcb₃ : Addr} {value : Nat → Nat} {tr : List (Entry Sched Event Out)}

theorem path_history (apart : Apart pcb₁ pcb₃) (path : machine.Path (boot pcb₁ pcb₃ value) tr s) :
    Inv s ∧ History tr s := by
  induction path with
  | start => exact ⟨boot_inv apart, nofun, nofun, List.nodup_nil⟩
  | step _ en st ih =>
    obtain ⟨_, eff⟩ := (ih.1.step_does en).of_ok st
    exact ⟨ih.1.next en st, ih.2.next ih.1 eff⟩

/-- THE PROCESS TREE IS WELL FORMED, in every state of every run. Pids are distinct; a
parent is on the list and alive, so that `sys_exit` finds it; and no task is reaped
twice. A reaped task is an exited child of the task whose `sys_wait` answers its pid and
exit status, and afterwards its pid is free and nobody's parent. -/
theorem process_tree_well_formed (apart : Apart pcb₁ pcb₃)
    (path : machine.Path (boot pcb₁ pcb₃ value) tr s) :
    (∀ t ∈ s.allList, ∀ u ∈ s.allList, (s.tasks t).pid = (s.tasks u).pid → t = u) ∧
    (∀ t ∈ s.allList, (s.tasks t).parentPid ≠ -1 → ∃ p ∈ s.allList,
      pid2thread s (s.tasks t).parentPid = some p ∧ (s.tasks p).pid = (s.tasks t).parentPid ∧
        (s.tasks p).status ≠ .hanging ∧ (s.tasks p).status ≠ .over) ∧
    (∀ status, enabled s (.sysExit status) →
      step s (.sysExit status) ≠ .error (.pageFault "sys_exit")) ∧
    (reapedSerials tr).Nodup ∧
    ∀ e s' parent child serial pid status, enabled s e →
      step s e = .ok (s', .reaped parent child serial pid status) →
        serial ∉ reapedSerials tr ∧ (e = .sysWait ∨ e = .goOn ∧ (s.tasks s.cur).resume = .wait) ∧
          Reaped s s' parent child serial pid status := by
  obtain ⟨inv, hist⟩ := path_history apart path
  refine ⟨inv.tree.pidInj, fun t ht hp => ?_, fun status en fault => ?_, hist.nodup,
    fun e s' parent child serial pid status en st => ?_⟩
  · obtain ⟨p, hmem, _, hpid, hst, _⟩ := inv.tree.parent t ht hp
    exact ⟨p, hmem, inv.tree.pid2thread_eq hmem hpid, hpid, hst, (inv.queues.fits p hmem).notOver.1⟩
  · have := (inv.step_does en).of_error fault
    simp [otherStops] at this
  · obtain ⟨_, eff⟩ := (inv.step_does en).of_ok st
    obtain ⟨he, r⟩ := eff.reaped_spec inv
    exact ⟨fun h => hist.gone serial h child r.mem r.serial_eq.symm, he, r⟩

/-- `init` forks a process and waits for it; the process exits with status 7, and is reaped. -/
def reapedRun : List Event :=
  [.yield, .goOn, .intrDisable, .sysFork 0xc0103000, .sysWait, .goOn, .idleBlock, .goOn, .yield,
   .goOn, .intrDisable, .sysExit 7, .goOn]

/-- After that run the one task reaped is the forked one, with its pid and its status, and it cannot
be reaped again; whoever has a parent is found by `sys_exit`. -/
theorem process_tree_well_formed_reaped : ∃ tr s,
    machine.Path (boot 0xc0101000 0xc0102000 fun _ => 1) tr s ∧ tr.map (·.event) = reapedRun ∧
      .reaped 0xc0101000 0xc0103000 3 4 7 ∈ tr.map (·.out) ∧ 3 ∈ reapedSerials tr ∧
      (reapedSerials tr).Nodup ∧
      (∀ t ∈ s.allList, ∀ u ∈ s.allList, (s.tasks t).pid = (s.tasks u).pid → t = u) ∧
      ∀ e s' parent child serial pid status, enabled s e →
        step s e = .ok (s', .reaped parent child serial pid status) → serial ≠ 3 := by
  obtain ⟨tr, s, path, events, -, out⟩ := Machine.replay_path machine (fun _ _ => True)
    (boot 0xc0101000 0xc0102000 fun _ => 1) reapedRun
    (fun os _ => .reaped 0xc0101000 0xc0103000 3 4 7 ∈ os) (by decide +kernel)
  obtain ⟨pids, -, -, nodup, reaps⟩ := process_tree_well_formed (by decide) path
  have once : 3 ∈ reapedSerials tr := by
    obtain ⟨entry, mem, hout⟩ := List.mem_map.mp out
    exact List.mem_filterMap.mpr ⟨entry, mem, by rw [hout]⟩
  refine ⟨tr, s, path, events, out, once, nodup, pids,
    fun e s' parent child serial pid status en st => ?_⟩
  rintro rfl
  exact (reaps e s' parent child 3 pid status en st).1 once

end SeekingOs.Thread
