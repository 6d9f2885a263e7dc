import SeekingOs.Kernel.Strings
import Mathlib.Data.List.Induction

/-!
# The names of processes

`sys_fork` copies the name with the rest of the task structure and puts `_fork` behind it;
`sys_execv` writes the first bytes of the path over it. What `sys_fork` asserts is that there is
room for `_fork`, and `init` has room for two.

The processes are numbered in the order in which they are made, and a name is the 16 bytes of the
field, by offset.
-/

namespace SeekingOs.Userprog

open Lib

/-- `TASK_NAME_LEN` -/
def taskNameLen : Nat := 16

/-- `"init"` -/
def initName : List Byte := [105, 110, 105, 116]

/-- `"_fork"` -/
def forkSuffix : List Byte := [95, 102, 111, 114, 107]

/-- What `init_task` does to the name: the structure is cleared, and `name` is copied into it. -/
def initTaskName (name : List Byte) : Except Fault (Nat → Byte) :=
  strcpy taskNameLen (fun _ => 0) name

/-- What `copy_pcb_vaddrbitmap_stack0` does to the name that was copied from the parent. -/
def copyPcbName (parentName : Nat → Byte) : Except Fault (Nat → Byte) := do
  let len ← strlen taskNameLen parentName
  assertThat false (len < 11) "copy_pcb_vaddrbitmap_stack0" "strlen(child_thread->name) < 11"
  strcat taskNameLen parentName forkSuffix

/-- What `sys_execv` does to the name; `path` is what is in memory from the path on. -/
def execvName (name path : Nat → Byte) : Nat → Byte :=
  Function.update (fun k => if k < taskNameLen then path k else name k) (taskNameLen - 1) 0

/-- What a process calls. -/
inductive Call where
  /-- `sys_fork`: whether the pages are there that come before the task structure is copied, and
  whether there is a directory. -/
  | fork (parent : Nat) (pages pgdir : Bool)
  /-- `sys_execv`: whether `load` finds a program. -/
  | execv (cur : Nat) (path : Nat → Byte) (loads : Bool)

/-- A call, with the names of the processes. -/
def callStep (names : List (Nat → Byte)) : Call → Except Fault (List (Nat → Byte))
  | .fork parent pages pgdir =>
    match names[parent]? with
    | none => .ok names
    | some name =>
      if pages then do
        let child ← copyPcbName name
        return if pgdir then names ++ [child] else names
      else .ok names
  | .execv cur path loads =>
    match names[cur]? with
    | none => .ok names
    | some name => .ok (if loads then names.set cur (execvName name path) else names)

/-- A chain of calls, after `process_execute(init, "init")`. -/
def callRun (calls : List Call) : Except Fault (List (Nat → Byte)) := do
  let name ← initTaskName initName
  calls.foldlM callStep [name]

/-! ## Where a name comes from -/

/-- The characters that a name was given, and the forks since. -/
structure Lineage where
  given : Nat
  forks : Nat
  deriving DecidableEq, Repr

/-- The length of the path as it is cut for the name. -/
def givenLength (path : Nat → Byte) : Nat :=
  (List.range (taskNameLen - 1)).findIdx (fun k => path k == 0)

/-- The name is as long as that. -/
def Lineage.length (l : Lineage) : Nat := l.given + l.forks * forkSuffix.length

/-- What a call makes of it. -/
def lineageStep (ls : List Lineage) : Call → List Lineage
  | .fork parent pages pgdir =>
    match ls[parent]? with
    | none => ls
    | some l => if pages && pgdir then ls ++ [{ l with forks := l.forks + 1 }] else ls
  | .execv cur path loads => if loads then ls.set cur ⟨givenLength path, 0⟩ else ls

/-- The processes after a chain of calls. -/
def lineages (calls : List Call) : List Lineage := calls.foldl lineageStep [⟨initName.length, 0⟩]

/-- The calls that come to the assertion. -/
def Call.forks (parent : Nat) : Call → Prop
  | .fork parent' pages _ => parent' = parent ∧ pages = true
  | .execv .. => False

/-- At every fork of the chain there is room for `_fork`. -/
def ShortEnough (calls : List Call) : Prop :=
  ∀ done call rest, calls = done ++ call :: rest → ∀ parent, call.forks parent →
    ∀ l, (lineages done)[parent]? = some l → l.length < 11

/-- No call of the chain is the end of the run, and all names are strings inside their bytes the
whole time. -/
def NeverFatal (calls : List Call) : Prop :=
  ∀ done rest, calls = done ++ rest → ∃ names, callRun done = .ok names ∧
    ∀ name ∈ names, ∃ n, HasLength taskNameLen name n

variable {name path : Nat → Byte} {names : List (Nat → Byte)} {ls : List Lineage} {call : Call}
  {calls : List Call} {n parent : Nat}
  {l : Lineage}

/-! ## The name of one process -/

theorem initTaskName_hasLength :
    ∃ name, initTaskName initName = .ok name ∧ HasLength taskNameLen name initName.length :=
  strcpy_hasLength (by decide) (by decide)

/-- With room for `_fork`. -/
theorem copyPcbName_short (h : HasLength taskNameLen name n) (short : n < 11) :
    ∃ child, copyPcbName name = .ok child ∧
      HasLength taskNameLen child (n + forkSuffix.length) := by
  have room : n + forkSuffix.length < taskNameLen := by
    show n + 5 < 16
    omega
  obtain ⟨child, hcat, hchild⟩ := h.strcat_hasLength (by decide) room
  refine ⟨child, ?_, hchild⟩
  unfold copyPcbName
  rw [h.strlen_eq]
  simp only [bind, Except.bind]
  rw [assertThat_of short]
  exact hcat

/-- And without. -/
theorem copyPcbName_long (h : HasLength taskNameLen name n) (long : ¬ n < 11) :
    copyPcbName name = .error
      (.assert "copy_pcb_vaddrbitmap_stack0" "strlen(child_thread->name) < 11") := by
  unfold copyPcbName
  rw [h.strlen_eq]
  simp [bind, Except.bind, assertThat, long]

theorem givenLength_le (path : Nat → Byte) : givenLength path ≤ taskNameLen - 1 := by
  have h : givenLength path ≤ (List.range (taskNameLen - 1)).length := List.findIdx_le_length
  rwa [List.length_range] at h

/-- Whatever the path: the name is the characters before its `NUL`, at most fifteen. -/
theorem execvName_hasLength (name path : Nat → Byte) :
    HasLength taskNameLen (execvName name path) (givenLength path) := by
  have hle := givenLength_le path
  have hlen : taskNameLen = 16 := rfl
  refine ⟨by omega, ?_, ?_⟩
  · intro k hk
    have hlt : k < (List.range (taskNameLen - 1)).length := by rw [List.length_range]; omega
    have hne :=
      List.not_of_lt_findIdx (show k <
        (List.range (taskNameLen - 1)).findIdx (fun k => path k == 0) from hk)
    rw [List.getElem_range] at hne
    unfold execvName
    rw [Function.update_of_ne (by omega), if_pos (by omega)]
    intro hz
    simp [hz] at hne
  · unfold execvName
    by_cases hend : givenLength path = taskNameLen - 1
    · rw [hend, Function.update_self]
    · rw [Function.update_of_ne hend, if_pos (by omega)]
      have hlt : (List.range (taskNameLen - 1)).findIdx (fun k => path k == 0) <
          (List.range (taskNameLen - 1)).length := by
        rw [List.length_range]
        show givenLength path < _
        omega
      have h := List.findIdx_getElem (w := hlt)
      rw [List.getElem_range] at h
      exact beq_iff_eq.mp h

/-! ## A call -/

/-- The names are as long as the calls before have made them. -/
structure Lengths (names : List (Nat → Byte)) (ls : List Lineage) : Prop where
  count : names.length = ls.length
  each : ∀ (i : Nat) (name : Nat → Byte) (l : Lineage), names[i]? = some name → ls[i]? = some l →
    HasLength taskNameLen name l.length

/-- What the assertion asks of a call. -/
def Roomy (ls : List Lineage) (call : Call) : Prop :=
  ∀ parent, call.forks parent → ∀ l, ls[parent]? = some l → l.length < 11

namespace Lengths

/-- A process has a name and a lineage. -/
theorem find (h : Lengths names ls) (i : Nat) :
    names[i]? = none ∧ ls[i]? = none ∨ ∃ name, ∃ l : Lineage, names[i]? = some name ∧
      ls[i]? = some l ∧ HasLength taskNameLen name l.length := by
  by_cases hi : i < names.length
  · have hi' : i < ls.length := h.count ▸ hi
    have hname : names[i]? = some names[i] := List.getElem?_eq_getElem hi
    have hl : ls[i]? = some ls[i] := List.getElem?_eq_getElem hi'
    exact .inr ⟨_, _, hname, hl, h.each i _ _ hname hl⟩
  · have hi' : ¬ i < ls.length := h.count ▸ hi
    exact .inl ⟨List.getElem?_eq_none (by omega), List.getElem?_eq_none (by omega)⟩

theorem concat (h : Lengths names ls) (hname : HasLength taskNameLen name l.length) :
    Lengths (names ++ [name]) (ls ++ [l]) := by
  constructor
  · simp [h.count]
  · intro i name' l' hi hi'
    by_cases hlt : i < names.length
    · rw [List.getElem?_append_left hlt] at hi
      rw [List.getElem?_append_left (h.count ▸ hlt)] at hi'
      exact h.each i name' l' hi hi'
    · rw [List.getElem?_append_right (by omega)] at hi
      rw [List.getElem?_append_right (by have := h.count; omega), ← h.count] at hi'
      rw [List.getElem?_singleton] at hi hi'
      split at hi
      · rename_i hz
        rw [if_pos hz] at hi'
        cases hi
        cases hi'
        exact hname
      · cases hi

theorem set (h : Lengths names ls) (i : Nat) (hname : HasLength taskNameLen name l.length) :
    Lengths (names.set i name) (ls.set i l) := by
  constructor
  · simp [h.count]
  · intro j name' l' hj hj'
    rw [List.getElem?_set] at hj hj'
    by_cases heq : i = j
    · subst heq
      rw [if_pos rfl] at hj hj'
      split at hj
      · rename_i hlt
        rw [if_pos (h.count ▸ hlt)] at hj'
        cases hj
        cases hj'
        exact hname
      · cases hj
    · rw [if_neg heq] at hj hj'
      exact h.each j name' l' hj hj'

/-- A CALL WITH ROOM goes on, and the names are as long as it makes them. -/
theorem callStep_roomy (h : Lengths names ls) (roomy : Roomy ls call) :
    ∃ names', callStep names call = .ok names' ∧ Lengths names' (lineageStep ls call) := by
  cases call with
  | fork parent pages pgdir =>
    obtain ⟨hname, hl⟩ | ⟨name, l, hname, hl, hlen⟩ := h.find parent
    · refine ⟨names, ?_, ?_⟩
      · simp only [callStep, hname]
      · simpa only [lineageStep, hl] using h
    · cases pages with
      | false =>
        refine ⟨names, ?_, ?_⟩
        · simp [callStep, hname]
        · simpa [lineageStep, hl] using h
      | true =>
        obtain ⟨child, hcopy, hchild⟩ := copyPcbName_short hlen (roomy parent ⟨rfl, rfl⟩ l hl)
        refine ⟨if pgdir then names ++ [child] else names, ?_, ?_⟩
        · simp [callStep, hname, hcopy, bind, Except.bind, pure, Except.pure]
        · cases pgdir with
          | false => simpa [lineageStep, hl] using h
          | true =>
            simp only [lineageStep, hl]
            apply h.concat
            have hsucc : l.length + forkSuffix.length =
                ({ l with forks := l.forks + 1 } : Lineage).length := by
              unfold Lineage.length
              dsimp only
              rw [Nat.add_one_mul, Nat.add_assoc]
            rwa [← hsucc]
  | execv cur path loads =>
    obtain ⟨hname, hl⟩ | ⟨name, l, hname, hl, -⟩ := h.find cur
    · refine ⟨names, ?_, ?_⟩
      · simp only [callStep, hname]
      · have hls : ls.length ≤ cur := List.getElem?_eq_none_iff.mp hl
        cases loads with
        | false => exact h
        | true => simpa [lineageStep, List.set_eq_of_length_le hls] using h
    · refine ⟨if loads then names.set cur (execvName name path) else names, ?_, ?_⟩
      · simp only [callStep, hname]
      · cases loads with
        | false => exact h
        | true =>
          simp only [lineageStep]
          apply h.set
          simpa [Lineage.length] using execvName_hasLength name path

/-- A CALL THAT GOES ON had room. -/
theorem roomy_of_callStep (h : Lengths names ls) {names' : List (Nat → Byte)}
    (hstep : callStep names call = .ok names') : Roomy ls call := by
  intro parent hfork l hl
  cases call with
  | execv cur path loads => exact hfork.elim
  | fork parent' pages pgdir =>
    obtain ⟨rfl, rfl⟩ := hfork
    obtain ⟨-, hnone⟩ | ⟨name, l', hname, hl', hlen⟩ := h.find parent'
    · rw [hnone] at hl
      cases hl
    · rw [hl'] at hl
      cases hl
      by_contra long
      simp [callStep, hname, copyPcbName_long hlen long, bind, Except.bind] at hstep

end Lengths

/-! ## A chain of calls -/

theorem callRun_concat (calls : List Call) (call : Call) :
    callRun (calls ++ [call]) = callRun calls >>= (callStep · call) := by
  unfold callRun
  simp [List.foldlM_append]

theorem lineages_concat (calls : List Call) (call : Call) :
    lineages (calls ++ [call]) = lineageStep (lineages calls) call := by
  simp [lineages]

/-- One call more. -/
theorem shortEnough_concat :
    ShortEnough (calls ++ [call]) ↔ ShortEnough calls ∧ Roomy (lineages calls) call := by
  constructor
  · intro h
    constructor
    · intro done call' rest heq
      exact h done call' (rest ++ [call]) (by simp [heq])
    · exact h calls call [] rfl
  · rintro ⟨h, roomy⟩ done call' rest heq
    obtain rfl | ⟨rest', last, rfl⟩ := List.eq_nil_or_concat rest
    · obtain ⟨rfl, hcall⟩ := List.append_inj' heq rfl
      cases hcall
      exact roomy
    · have heq' : calls ++ [call] = (done ++ call' :: rest') ++ [last] := by simpa using heq
      obtain ⟨rfl, -⟩ := List.append_inj' heq' rfl
      exact h done call' rest' rfl

/-- While there is room the names are as the calls make them. -/
theorem callRun_short (h : ShortEnough calls) :
    ∃ names, callRun calls = .ok names ∧ Lengths names (lineages calls) := by
  induction calls using List.reverseRec with
  | nil =>
    obtain ⟨name, hinit, hname⟩ := initTaskName_hasLength
    refine ⟨[name], ?_, ?_⟩
    · unfold callRun
      rw [hinit]
      rfl
    · have hnil : Lengths [] [] := ⟨rfl, by simp⟩
      exact hnil.concat (by simpa [Lineage.length] using hname)
  | append_singleton calls call ih =>
    obtain ⟨hcalls, roomy⟩ := shortEnough_concat.mp h
    obtain ⟨names, hrun, hlen⟩ := ih hcalls
    obtain ⟨names', hstep, hlen'⟩ := hlen.callStep_roomy roomy
    refine ⟨names', ?_, ?_⟩
    · rw [callRun_concat, hrun]
      exact hstep
    · rw [lineages_concat]
      exact hlen'

/-- A chain that has come to its end had room. -/
theorem short_of_callRun (hrun : callRun calls = .ok names) : ShortEnough calls := by
  induction calls using List.reverseRec generalizing names with
  | nil =>
    intro done call rest heq
    simp at heq
  | append_singleton calls call ih =>
    rw [callRun_concat] at hrun
    cases hbefore : callRun calls with
    | error fault =>
      rw [hbefore] at hrun
      cases hrun
    | ok before =>
      rw [hbefore] at hrun
      have hcalls := ih hbefore
      obtain ⟨names₀, hrun₀, hlen⟩ := callRun_short hcalls
      rw [hbefore] at hrun₀
      cases hrun₀
      exact shortEnough_concat.mpr ⟨hcalls, hlen.roomy_of_callStep hrun⟩

/-- FORKING IS NEVER FATAL exactly when each fork is of a process whose name has room. -/
theorem never_fatal_iff (calls : List Call) : NeverFatal calls ↔ ShortEnough calls := by
  constructor
  · intro h
    obtain ⟨names, hrun, -⟩ := h calls [] (List.append_nil calls).symm
    exact short_of_callRun hrun
  · intro h done rest heq
    have hdone : ShortEnough done := by
      intro done' call rest' heq'
      exact h done' call (rest' ++ rest) (by simp [heq, heq'])
    obtain ⟨names, hrun, hlen⟩ := callRun_short hdone
    refine ⟨names, hrun, ?_⟩
    intro name hname
    obtain ⟨i, hi⟩ := List.getElem?_of_mem hname
    obtain ⟨hnone, -⟩ | ⟨name', l, hname', -, hstr⟩ := hlen.find i
    · rw [hnone] at hi
      cases hi
    · rw [hname'] at hi
      cases hi
      exact ⟨l.length, hstr⟩

/-- `init` forks, its child forks, and so does the child of that: `init_fork_fork` has no room. -/
theorem third_generation :
    ¬ NeverFatal [.fork 0 true true, .fork 1 true true, .fork 2 true true] := by
  intro h
  obtain ⟨names, hrun, -⟩ := h _ [] (List.append_nil _).symm
  have hfails : (callRun [.fork 0 true true, .fork 1 true true, .fork 2 true true]).isOk =
      false := by decide
  rw [hrun] at hfails
  cases hfails

end SeekingOs.Userprog
