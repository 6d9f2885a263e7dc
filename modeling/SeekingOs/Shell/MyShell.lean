import Mathlib.Data.List.Forall2
import SeekingOs.Fs.Descriptors
import SeekingOs.Shell.ReadLine

/-!
# `my_shell`: one command line

A line with a `|` in it takes one way through `my_shell`, any other line another. On the first each
segment between the bars is parsed and given to `cmd_excute`, whatever `cmd_parse` has answered; on
the second -1 is noticed, and 0 is not.

What `cmd_excute` does is an argument. It leaves the command line, `argv` and the descriptors of the
shell alone; the slots of `file_table` change, and it may stop the machine. Its calls are kept in a
trace, which a stop does not take away.
-/

namespace SeekingOs.Shell

open Lib Fs

/-- `cmd_len` -/
def cmdLen : Nat := 128

/-- `'|'` -/
def bar : Byte := 124

/-- `' '` -/
def blank : Byte := 32

/-! ## The source -/

/-- What `cmd_excute` is called with, and the command line that `argv` points into. -/
structure Call where
  argc : Int
  argv : Nat → Option Nat
  cmdLine : Nat → Byte

/-- The shell: `cmd_line` with `argv`, `argc`, and its descriptors. -/
structure World where
  mem : CmdLine
  argc : Int
  tbl : Table
  pr : Proc
  /-- Ghost: the calls of `cmd_excute` for this line. -/
  calls : List Call
  printed : List (String × Nat)

/-- A run that is stopped, and what it has done. -/
structure Halted where
  fault : Fault
  world : World

/-- `strchr`, from `p` on; `left` is what there is of the array. -/
def strchr (mem : Nat → Byte) (ch : Byte) : Nat → Nat → Option Nat
  | 0, _ => none
  | left + 1, p =>
    if mem p = 0 then none else if mem p = ch then some p else strchr mem ch left (p + 1)

/-- What a pointer that `strchr` answers is known to be. -/
theorem strchr_bounds {mem : Nat → Byte} {ch : Byte} {left p q : Nat}
    (h : strchr mem ch left p = some q) : p ≤ q ∧ q < p + left := by
  induction left generalizing p with
  | zero => cases h
  | succ left ih =>
    rw [strchr] at h
    split at h
    · cases h
    · split at h
      · cases h
        omega
      · have := ih h
        omega

namespace World

variable (w : World)

/-- A system call of the shell. -/
def call {α : Type} (answer : Except Fault α) : Except Halted α :=
  match answer with
  | .ok a => .ok a
  | .error e => .error ⟨e, w⟩

/-- `argc = cmd_parse(cmd, argv, ' ')` -/
def cmdParse (cmd : Nat) : World :=
  let (argc, mem) :=
    parseLoop blank w.mem.clearArgv 0 cmd (stringFrom w.mem.cmdStr (cmdLen - cmd) cmd)
  { w with argc, mem }

/-- `cmd_excute(argc, argv)`; `excute` is what it makes of `file_table`. -/
def cmdExcute (excute : Call → Table → Except Fault Table) : Except Halted World := do
  let c : Call := ⟨w.argc, w.mem.argv, w.mem.cmdStr⟩
  let w := { w with calls := w.calls ++ [c] }
  let tbl ← w.call (excute c w.tbl)
  return { w with tbl }

/-- `*pipe_symbol = 0` -/
def cut (pipeSymbol : Nat) : World := { w with mem := w.mem.cut pipeSymbol }

/-- `fd_redirect` -/
def fdRedirect (oldFd : Nat) (newFd : Int) : World :=
  { w with pr := sysFdRedirect w.pr oldFd (u32 newFd) }

/-- What `sys_pipe` leaves in `fd`, which is -1 and 0 before. -/
def pipeFds (page : Option Nat) : Int × Int :=
  match getFreeSlot w.tbl, page with
  | some g, some page =>
    let (pr, fd0) := pcbFdInstall w.pr g page
    let (_, fd1) := pcbFdInstall pr g page
    (fd0, fd1)
  | _, _ => (-1, 0)

/-- `pipe(fd)` -/
def pipe (page : Option Nat) : Except Halted World := do
  let (tbl, pr, _) ← w.call (sysPipe w.tbl w.pr page)
  return { w with tbl, pr }

/-- `close` -/
def close (fd : Int) : Except Halted World := do
  let (tbl, pr, _) ← w.call (sysClose w.tbl w.pr fd)
  return { w with tbl, pr }

end World

variable (excute : Call → Table → Except Fault Table)

/-- The commands in the middle, from `eachCmd` on, and where the last one begins. -/
def middleCmds (w : World) (eachCmd : Nat) : Except Halted (World × Nat) :=
  match found : strchr w.mem.cmdStr bar (cmdLen - eachCmd) eachCmd with
  | none => .ok (w, eachCmd)
  | some pipeSymbol => do
    let w ← ((w.cut pipeSymbol).cmdParse eachCmd).cmdExcute excute
    middleCmds w (pipeSymbol + 1)
termination_by cmdLen - eachCmd
decreasing_by
  have := strchr_bounds found
  omega

/-- The commands of a line with a `|` at `pipeSymbol`, up to the end of the last one. -/
def pipeCmds (w : World) (pipeSymbol : Nat) (fd : Int × Int) : Except Halted World := do
  let w := w.fdRedirect 1 fd.2
  let w ← ((w.cut pipeSymbol).cmdParse 0).cmdExcute excute
  let w := w.fdRedirect 0 fd.1
  let (w, eachCmd) ← middleCmds excute w (pipeSymbol + 1)
  let w := w.fdRedirect 1 1
  let w ← (w.cmdParse eachCmd).cmdExcute excute
  return w.fdRedirect 0 0

/-- The body of the loop of `my_shell`, from where `readline` has returned. `get_kernel_pages`
answers `page`. -/
def dispatchLine (page : Option Nat) (w : World) : Except Halted World :=
  if w.mem.cmdStr 0 = 0 then .ok w
  else
    match strchr w.mem.cmdStr bar cmdLen 0 with
    | some pipeSymbol => do
      let fd := w.pipeFds page
      let w ← w.pipe page
      let w ← pipeCmds excute w pipeSymbol fd
      let w ← w.close fd.1
      w.close fd.2
    | none =>
      let w := w.cmdParse 0
      if w.argc = -1 then
        .ok { w with printed := w.printed ++ [("num of arguments exceed %d\n", maxArgNr)] }
      else w.cmdExcute excute

/-! ## The specification -/

/-- The segments between the bars. -/
def segments (line : List Byte) : List (List Byte) := line.splitOn bar

/-- A segment is a command when it has a word, and no more than there is room for. -/
def IsCommand (seg : List Byte) : Prop :=
  1 ≤ (words blank seg).length ∧ (words blank seg).length ≤ maxArgNr

instance (seg : List Byte) : Decidable (IsCommand seg) := inferInstanceAs (Decidable (_ ∧ _))

/-- The commands of a line, in order. -/
def commands (line : List Byte) : List (List Byte) :=
  (segments line).filter fun seg => decide (IsCommand seg)

/-- A call runs a segment: it has the words of the segment for arguments, and no others. -/
structure Runs (seg : List Byte) (c : Call) : Prop where
  argc : c.argc = (words blank seg).length
  args : ∀ i word, (words blank seg)[i]? = some word → ∃ a, c.argv i = some a ∧
    StringAt c.cmdLine a word
  rest : ∀ i, (words blank seg).length ≤ i → i < maxArgNr → c.argv i = none

/-- The calls that a run has made. -/
def callsOf : Except Halted World → List Call
  | .ok w => w.calls
  | .error h => h.world.calls

/-- Only commands are dispatched, in order and all of them unless the run stops, and the keyboard
and the screen are back at the end. -/
structure Dispatches (line : List Byte) (o : Except Halted World) : Prop where
  real : ∀ c ∈ callsOf o, 1 ≤ c.argc ∧ c.argc ≤ maxArgNr ∧ c.argv 0 ≠ none
  inOrder : List.Forall₂ Runs ((commands line).take (callsOf o).length) (callsOf o)
  all : ∀ w, o = .ok w → (callsOf o).length = (commands line).length
  restored : ∀ w, o = .ok w → w.pr.fdTable 0 = 0 ∧ w.pr.fdTable 1 = 1

/-- A line that `readline` can deliver. -/
def CanDeliver (line : List Byte) : Prop := (∀ c ∈ line, c ≠ 0) ∧ line.length < cmdLen

/-- `readline` has delivered a line to a shell with its three standard descriptors. -/
structure Delivered (line : List Byte) (w : World) : Prop where
  string : StringAt w.mem.cmdStr 0 line
  stdin : w.pr.fdTable 0 = 0
  stdout : w.pr.fdTable 1 = 1
  calls : w.calls = []

/-- The line is empty, or its only segment is refused, or all of its segments are commands. -/
def RunsCommands (line : List Byte) : Prop :=
  line = [] ∨ (bar ∉ line ∧ maxArgNr + 1 < (words blank line).length) ∨
    ∀ seg ∈ segments line, IsCommand seg

/-- What `readline` returns of an enter in time is such a line: the one that editing leaves. -/
theorem readline_delivers (ndebug : Bool) (buf : Nat → Byte) {before after : List Byte} {key : Byte}
    (fits : KeysFit cmdLen [] (before ++ key :: after)) (noEnter : NoEnter before)
    (plain : ∀ c ∈ before, c ≠ 0) (enter : editOf key = none) :
    CanDeliver (pendingAfter [] before) ∧ ∃ s, readline ndebug buf 128 (before ++ key :: after) =
      .ok (.returned s) ∧
      ∀ w : World, w.mem.cmdStr = s.buf → w.pr.fdTable 0 = 0 → w.pr.fdTable 1 = 1 → w.calls = [] →
        Delivered (pendingAfter [] before) w := by
  have held : Holding [] ⟨buf, 0, [], []⟩ := holding_nil rfl rfl
  have room := fits before key after rfl noEnter
  obtain ⟨s, run, string, length, -⟩ :=
    @readKeys_enter [] before after key _ 128 held fits.left noEnter plain enter room
  refine ⟨⟨fun c hc => ?_, room⟩, s, ?_, fun w mem stdin stdout calls =>
    ⟨mem ▸ string, stdin, stdout, calls⟩⟩
  · obtain ⟨k, hk, rfl⟩ := List.getElem_of_mem hc
    rw [← string.char_eq hk, Nat.zero_add]
    exact length.chars k hk
  · unfold readline
    rw [assertThat_of (by decide), run]
    rfl

/-! ## Segments -/

variable {excute : Call → Table → Except Fault Table} {page : Option Nat}
  {line seg rest : List Byte} {w w' : World} {cmd : Nat} {c : Call}

theorem segments_one (whole : bar ∉ line) : segments line = [line] := by
  have other : ∀ c ∈ line, (c == bar) = false :=
    fun c hc => beq_false_of_ne (ne_of_mem_of_not_mem hc whole)
  exact List.splitOnP_eq_singleton other

theorem segments_bar (whole : bar ∉ seg) (rest : List Byte) :
    segments (seg ++ bar :: rest) = seg :: segments rest := by
  have other : ∀ c ∈ seg, (c == bar) = false :=
    fun c hc => beq_false_of_ne (ne_of_mem_of_not_mem hc whole)
  exact List.splitOnP_append_cons_of_forall_mem other bar (beq_self_eq_true bar) rest

/-- A line has no bar, or a first segment. -/
theorem bar_split (line : List Byte) :
    bar ∉ line ∨ ∃ seg rest, line = seg ++ bar :: rest ∧ bar ∉ seg := by
  by_cases h : bar ∈ line
  · exact .inr (List.eq_append_cons_of_mem h)
  · exact .inl h

/-- `strchr` finds no bar in a string without one. -/
theorem strchr_none {mem : Nat → Byte} {p left : Nat} (string : StringAt mem p seg)
    (whole : bar ∉ seg) (room : seg.length < left) : strchr mem bar left p = none := by
  induction seg generalizing p left with
  | nil =>
    obtain ⟨left, rfl⟩ := Nat.exists_eq_add_of_lt room
    exact if_pos string.end_eq
  | cons c seg ih =>
    obtain ⟨left, rfl⟩ := Nat.exists_eq_add_of_lt room
    have first : mem p = c := string 0 (Nat.zero_le _)
    rw [List.mem_cons, not_or] at whole
    rw [strchr, first, if_neg (Ne.symm whole.1),
      ih string.tail whole.2 (by rw [List.length_cons]; omega), ite_self]

/-- It finds the first one. -/
theorem strchr_some {mem : Nat → Byte} {p left : Nat} (string : StringAt mem p (seg ++ bar :: rest))
    (plain : ∀ c ∈ seg, c ≠ 0) (whole : bar ∉ seg) (room : seg.length < left) :
    strchr mem bar left p = some (p + seg.length) := by
  induction seg generalizing p left with
  | nil =>
    obtain ⟨left, rfl⟩ := Nat.exists_eq_add_of_lt room
    have here : mem p = bar := string 0 (Nat.zero_le _)
    rw [strchr, here, if_neg (by decide), if_pos rfl]
    rfl
  | cons c seg ih =>
    obtain ⟨left, rfl⟩ := Nat.exists_eq_add_of_lt room
    have first : mem p = c := string 0 (Nat.zero_le _)
    rw [List.mem_cons, not_or] at whole
    rw [strchr, first, if_neg (plain c List.mem_cons_self), if_neg (Ne.symm whole.1),
      ih string.tail (fun c' hc' => plain c' (List.mem_cons_of_mem _ hc')) whole.2
        (by rw [List.length_cons]; omega), List.length_cons,
      Nat.add_assoc, Nat.add_comm 1]

/-- A segment is a string once the bar behind it is cut, and what is behind the bar is one. -/
theorem StringAt.cut_bar {mem : Nat → Byte} {p : Nat}
    (string : StringAt mem p (seg ++ bar :: rest)) :
    StringAt (Function.update mem (p + seg.length) 0) p seg ∧
      StringAt (Function.update mem (p + seg.length) 0) (p + seg.length + 1) rest := by
  constructor
  · intro k hk
    by_cases last : k = seg.length
    · rw [last, Function.update_self, stringMem_end]
    · rw [Function.update_of_ne (by omega), string k (by rw [List.length_append]; omega),
        stringMem_left (by omega)]
  · intro k hk
    rw [Function.update_of_ne (by omega), Nat.add_assoc, Nat.add_assoc,
      string _ (by rw [List.length_append, List.length_cons]; omega),
      stringMem_right, Nat.add_comm 1 k]
    rfl

/-! ## One call -/

/-- What comes of a segment: -1 with two words too many, else the number of its words, and as many
arguments if there is room. -/
structure CallOf (seg : List Byte) (c : Call) : Prop where
  argc : c.argc = if (words blank seg).length ≤ maxArgNr + 1 then ((words blank seg).length : Int)
    else -1
  runs : (words blank seg).length ≤ maxArgNr → Runs seg c

/-- A call of a command is a real one. -/
theorem Runs.real (runs : Runs seg c) (cmd : IsCommand seg) :
    1 ≤ c.argc ∧ c.argc ≤ maxArgNr ∧ c.argv 0 ≠ none := by
  obtain ⟨some, room⟩ := cmd
  obtain ⟨a, ha, -⟩ := runs.args 0 _ (List.getElem?_eq_getElem some)
  refine ⟨?_, ?_, ?_⟩
  · rw [runs.argc]
    omega
  · rw [runs.argc]
    omega
  · rw [ha]
    exact Option.some_ne_none a

/-- A real call is one of a command. -/
theorem CallOf.isCommand (of : CallOf seg c) (least : 1 ≤ c.argc) (most : c.argc ≤ maxArgNr) :
    IsCommand seg := by
  have argc := of.argc
  split at argc
  · constructor <;> omega
  · omega

/-- What `cmd_parse` has made of the segment at `cmd`. -/
structure ParsedAt (w : World) (cmd : Nat) (seg : List Byte) (w' : World) : Prop where
  call : CallOf seg ⟨w'.argc, w'.mem.argv, w'.mem.cmdStr⟩
  behind : ∀ k, cmd + seg.length ≤ k → w'.mem.cmdStr k = w.mem.cmdStr k
  tbl : w'.tbl = w.tbl
  pr : w'.pr = w.pr
  calls : w'.calls = w.calls

theorem cmdParse_parsedAt (string : StringAt w.mem.cmdStr cmd seg) (plain : ∀ c ∈ seg, c ≠ 0)
    (room : cmd + seg.length < cmdLen) : ParsedAt w cmd seg (w.cmdParse cmd) := by
  have read : stringFrom w.mem.cmdStr (cmdLen - cmd) cmd = seg :=
    string.stringFrom_eq plain (by omega)
  have kept : w.mem.clearArgv.cmdStr = w.mem.cmdStr := by rw [clearArgv_eq]
  have parsed : (words blank seg).length ≤ maxArgNr + 1 →
      Parsed blank w.mem.clearArgv 0 cmd seg (parseLoop blank w.mem.clearArgv 0 cmd seg) :=
    fun few => parseLoop_parsed (fun _ => by rwa [kept]) (by rwa [Nat.zero_add])
  have refused : maxArgNr + 1 < (words blank seg).length →
      (parseLoop blank w.mem.clearArgv 0 cmd seg).1 = -1 :=
    fun many => parseLoop_refused (Nat.zero_le _) (by rwa [Nat.zero_add])
  have behind (k : Nat) (hk : cmd + seg.length ≤ k) :
      (parseLoop blank w.mem.clearArgv 0 cmd seg).2.cmdStr k = w.mem.cmdStr k := by
    rw [parseLoop_behind hk, kept]
  unfold World.cmdParse
  rw [read]
  generalize parseLoop blank w.mem.clearArgv 0 cmd seg = r at parsed refused behind
  constructor
  · constructor
    · show r.1 = _
      split
      next few => rw [(parsed few).count, Nat.zero_add]
      next many => exact refused (by omega)
    · intro few
      have done := parsed (Nat.le_succ_of_le few)
      constructor
      · show r.1 = _
        rw [done.count, Nat.zero_add]
      · intro i word hi
        have arg := done.args i word hi
        rwa [Nat.zero_add] at arg
      · intro i above inside
        refine (done.others i (.inr (by omega))).trans ?_
        rw [clearArgv_eq]
        exact if_pos inside
  · exact behind
  · rfl
  · rfl
  · rfl

/-! ## Runs -/

/-- Every command returns to the shell. -/
def Returns (excute : Call → Table → Except Fault Table) : Prop :=
  ∀ c tbl, ∃ tbl', excute c tbl = .ok tbl'

/-- A command has not returned, and the calls up to there are those of the first segments. -/
def Stopped (excute : Call → Table → Except Fault Table) (segs : List (List Byte)) (h : Halted) :
    Prop :=
  ¬ Returns excute ∧ ∃ n, List.Forall₂ CallOf (segs.take n) h.world.calls

variable {segs done later : List (List Byte)} {eachCmd : Nat}

theorem ensures_call {α : Type} {E : Halted → Prop} {Q : α → Prop} {answer : Except Fault α}
    (right : ∀ a, answer = .ok a → Q a) (stops : ∀ e, answer = .error e → E ⟨e, w⟩) :
    Ensures E Q (w.call answer) := by
  cases answer with
  | ok a => exact right a rfl
  | error e => exact stops e rfl

/-- ONE STAGE: the segment at `cmd` is parsed and dispatched. -/
theorem stage_ensures (string : StringAt w.mem.cmdStr cmd seg) (plain : ∀ c ∈ seg, c ≠ 0)
    (room : cmd + seg.length < cmdLen) (traced : List.Forall₂ CallOf done w.calls)
    (split : segs = done ++ seg :: later) :
    Ensures (Stopped excute segs)
      (fun w' => List.Forall₂ CallOf (done ++ [seg]) w'.calls ∧ w'.pr = w.pr ∧
        ∀ k, cmd + seg.length ≤ k → w'.mem.cmdStr k = w.mem.cmdStr k)
      ((w.cmdParse cmd).cmdExcute excute) := by
  have parsed := cmdParse_parsedAt string plain room
  generalize w.cmdParse cmd = w₁ at parsed
  have traced' : List.Forall₂ CallOf (done ++ [seg])
      (w₁.calls ++ [⟨w₁.argc, w₁.mem.argv, w₁.mem.cmdStr⟩]) := by
    rw [parsed.calls]
    exact List.rel_append traced (.cons parsed.call .nil)
  refine Ensures.bind (ensures_call (fun _ _ => trivial) fun e answer =>
    ⟨fun returns => ?_, (done ++ [seg]).length, ?_⟩) fun tbl _ =>
    ⟨traced', parsed.pr, parsed.behind⟩
  · obtain ⟨tbl, ok⟩ := returns ⟨w₁.argc, w₁.mem.argv, w₁.mem.cmdStr⟩ w₁.tbl
    rw [answer] at ok
    cases ok
  · rw [split, List.append_cons done seg later, List.take_left]
    exact traced'

/-- The last segment is ahead, and the others have been dispatched. -/
structure LastAhead (segs : List (List Byte)) (r : World × Nat) : Prop where
  last : ∃ done seg, segs = done ++ [seg] ∧ List.Forall₂ CallOf done r.1.calls ∧
    StringAt r.1.mem.cmdStr r.2 seg ∧
    (∀ c ∈ seg, c ≠ 0) ∧ r.2 + seg.length < cmdLen

/-- THE LOOP over the segments in the middle. -/
theorem middleCmds_ensures (string : StringAt w.mem.cmdStr eachCmd rest) (plain : ∀ c ∈ rest, c ≠ 0)
    (room : eachCmd + rest.length < cmdLen) (traced : List.Forall₂ CallOf done w.calls)
    (split : segs = done ++ segments rest) :
    Ensures (Stopped excute segs) (fun r => LastAhead segs r ∧ r.1.pr = w.pr)
      (middleCmds excute w eachCmd) := by
  induction n : rest.length using Nat.strong_induction_on generalizing w eachCmd rest done with
  | _ n ih =>
    subst n
    rw [middleCmds]
    rcases bar_split rest with whole | ⟨seg, rest, rfl, whole⟩
    · -- no bar is left
      have found : strchr w.mem.cmdStr bar (cmdLen - eachCmd) eachCmd = none :=
        strchr_none string whole (by omega)
      rw [segments_one whole] at split
      split
      next => exact ⟨⟨done, rest, split, traced, string, plain, room⟩, rfl⟩
      next other =>
        rw [found] at other
        cases other
    · have plainSeg : ∀ c ∈ seg, c ≠ 0 := fun c hc => plain c (List.mem_append_left _ hc)
      have plainRest : ∀ c ∈ rest, c ≠ 0 :=
        fun c hc => plain c (List.mem_append_right _ (List.mem_cons_of_mem _ hc))
      rw [List.length_append, List.length_cons] at room
      have found : strchr w.mem.cmdStr bar (cmdLen - eachCmd) eachCmd =
          some (eachCmd + seg.length) :=
        strchr_some string plainSeg whole (by omega)
      rw [segments_bar whole] at split
      split
      next other =>
        rw [found] at other
        cases other
      next pipeSymbol here =>
        obtain rfl : eachCmd + seg.length = pipeSymbol := Option.some.inj (found.symm.trans here)
        obtain ⟨cutSeg, cutRest⟩ := string.cut_bar
        have stage :=
          @stage_ensures excute seg (w.cut (eachCmd + seg.length)) eachCmd segs done (segments rest)
            cutSeg plainSeg
          (by omega) traced split
        refine stage.bind fun w' ⟨traced', pr, behind⟩ => ?_
        have string' : StringAt w'.mem.cmdStr (eachCmd + seg.length + 1) rest := by
          intro k hk
          rw [behind _ (by omega)]
          exact cutRest k hk
        rw [List.append_cons] at split
        have later :=
          ih rest.length (by rw [List.length_append, List.length_cons]; omega) string' plainRest
            (by omega) traced' split rfl
        exact later.mono fun r ⟨ahead, same⟩ => ⟨ahead, same.trans pr⟩

/-- A standard descriptor is given back. -/
theorem fdRedirect_std (w : World) {oldFd : Nat} (std : oldFd < 3) (fd : Nat) :
    (w.fdRedirect oldFd oldFd).pr.fdTable fd = if fd = oldFd then (oldFd : Int)
      else w.pr.fdTable fd := by
  have small : u32 (oldFd : Int) = oldFd := u32_of_lt (by omega)
  unfold World.fdRedirect sysFdRedirect
  rw [small, if_pos std, set_fdTable]

/-- THE COMMANDS OF A PIPELINE: all segments are dispatched, and the standard descriptors given
back. -/
theorem pipeCmds_ensures (fd : Int × Int) (string : StringAt w.mem.cmdStr 0 (seg ++ bar :: rest))
    (can : CanDeliver (seg ++ bar :: rest)) (whole : bar ∉ seg) (fresh : w.calls = [])
    (split : segs = segments (seg ++ bar :: rest)) :
    Ensures (Stopped excute segs)
      (fun w' => List.Forall₂ CallOf segs w'.calls ∧ w'.pr.fdTable 0 = 0 ∧ w'.pr.fdTable 1 = 1)
      (pipeCmds excute w seg.length fd) := by
  obtain ⟨plain, room⟩ := can
  rw [List.length_append, List.length_cons] at room
  rw [segments_bar whole] at split
  have plainSeg : ∀ c ∈ seg, c ≠ 0 := fun c hc => plain c (List.mem_append_left _ hc)
  have plainRest : ∀ c ∈ rest, c ≠ 0 :=
    fun c hc => plain c (List.mem_append_right _ (List.mem_cons_of_mem _ hc))
  obtain ⟨cutSeg, cutRest⟩ := string.cut_bar
  rw [Nat.zero_add] at cutSeg cutRest
  have first :=
    @stage_ensures excute seg ((w.fdRedirect 1 fd.2).cut seg.length) 0 segs [] (segments rest)
      cutSeg plainSeg (by omega)
    (fresh ▸ .nil) split
  refine first.bind fun w₁ ⟨traced, _, behind⟩ => ?_
  have string' : StringAt (w₁.fdRedirect 0 fd.1).mem.cmdStr (seg.length + 1) rest := by
    intro k hk
    exact (behind _ (by omega)).trans (cutRest k hk)
  refine (middleCmds_ensures string' plainRest (by omega) traced split).bind
    fun ⟨w₂, eachCmd⟩ ⟨⟨ahead⟩, _⟩ => ?_
  obtain ⟨done, last, split', traced', string'', plain', room'⟩ := ahead
  have final :=
    @stage_ensures excute last (w₂.fdRedirect 1 1) eachCmd segs done [] string'' plain' room'
      traced' split'
  refine final.bind fun w₃ ⟨traced'', pr, _⟩ => ?_
  refine ⟨split' ▸ traced'', ?_, ?_⟩
  · exact fdRedirect_std w₃ (by omega) 0
  · refine (fdRedirect_std w₃ (by omega) 1).trans ?_
    rw [if_neg Nat.one_ne_zero, pr]
    exact fdRedirect_std w₂ (by omega) 1

/-- `close` leaves the standard descriptors alone. -/
theorem close_ensures (w : World) (fd : Int) :
    Ensures (fun h => h.world.calls = w.calls)
      (fun w' => w'.calls = w.calls ∧ w'.pr.fdTable 0 = w.pr.fdTable 0 ∧
        w'.pr.fdTable 1 = w.pr.fdTable 1) (w.close fd) := by
  refine Ensures.bind (ensures_call (fun a answer => answer) fun _ _ => rfl)
    fun ⟨tbl, pr, r⟩ answer => ⟨rfl, ?_⟩
  rcases sysClose_ok answer with ⟨_, _, rfl⟩ | ⟨above, _, _, rfl, _⟩
  · exact ⟨rfl, rfl⟩
  · constructor
    · exact (set_fdTable ..).trans (if_neg (by omega))
    · exact (set_fdTable ..).trans (if_neg (by omega))

theorem sysPipe_error {tbl : Table} {pr : Proc} {e : Fault} (h : sysPipe tbl pr page = .error e) :
    getFreeSlot tbl = none := by
  unfold sysPipe at h
  split at h
  next full => exact full
  next =>
    split at h
    · cases h
    · cases h

/-- A run of a line with a bar that does not come to its end: a command has not returned, there was
no slot for the pipe, or all segments have been dispatched. -/
structure Broken (excute : Call → Table → Except Fault Table) (tbl : Table)
    (segs : List (List Byte)) (h : Halted) : Prop where
  inOrder : ∃ n, List.Forall₂ CallOf (segs.take n) h.world.calls
  all : Returns excute → getFreeSlot tbl ≠ none → List.Forall₂ CallOf segs h.world.calls

/-- Only the empty line begins with a `NUL`. -/
theorem Delivered.filled (d : Delivered line w) (can : CanDeliver line) (ne : line ≠ []) :
    w.mem.cmdStr 0 ≠ 0 := by
  have pos : 0 < line.length := List.length_pos_iff.mpr ne
  have first := d.string.char_eq pos
  rw [Nat.zero_add] at first
  rw [first]
  exact can.1 _ (List.getElem_mem pos)

/-- A LINE WITH A BAR. -/
theorem dispatchLine_bar (d : Delivered (seg ++ bar :: rest) w)
    (can : CanDeliver (seg ++ bar :: rest)) (whole : bar ∉ seg)
    (split : segs = segments (seg ++ bar :: rest)) :
    Ensures (Broken excute w.tbl segs)
      (fun w' => List.Forall₂ CallOf segs w'.calls ∧ w'.pr.fdTable 0 = 0 ∧ w'.pr.fdTable 1 = 1)
        (dispatchLine excute page w) := by
  have found : strchr w.mem.cmdStr bar cmdLen 0 = some seg.length := by
    have room := can.2
    rw [List.length_append] at room
    have first :=
      strchr_some d.string (fun c hc => can.1 c (List.mem_append_left _ hc)) whole
        (show seg.length < cmdLen by omega)
    rwa [Nat.zero_add] at first
  unfold dispatchLine
  rw [if_neg (d.filled can (List.append_ne_nil_of_right_ne_nil _ (List.cons_ne_nil _ _))), found]
  refine Ensures.bind (P := fun w' => w'.mem = w.mem ∧ w'.calls = w.calls) ?_ fun w₁ ⟨mem, calls⟩ =>
    ?_
  · refine Ensures.bind (ensures_call (fun _ _ => trivial) fun e answer =>
      ⟨⟨0, ?_⟩, fun _ free => ?_⟩) fun ⟨tbl, pr, _⟩ _ => ⟨rfl, rfl⟩
    · exact d.calls ▸ .nil
    · exact absurd (sysPipe_error answer) free
  · have cmds :=
      @pipeCmds_ensures excute seg rest w₁ segs (w.pipeFds page) (mem ▸ d.string) can whole
        (calls.trans d.calls) split
    refine (cmds.weaken fun h ⟨stops, inOrder⟩ =>
      ⟨inOrder, fun returns => absurd returns stops⟩).bind fun w₂ ⟨traced, stdin, stdout⟩ => ?_
    have broken (h : Halted) (same : h.world.calls = w₂.calls) : Broken excute w.tbl segs h := by
      refine ⟨⟨segs.length, ?_⟩, fun _ _ => ?_⟩
      · rw [List.take_length, same]
        exact traced
      · rw [same]
        exact traced
    refine ((close_ensures w₂ _).weaken broken).bind fun w₃ ⟨calls₃, stdin₃, stdout₃⟩ => ?_
    refine ((close_ensures w₃ _).weaken fun h same => broken h (same.trans calls₃)).mono
      fun w₄ ⟨calls₄, stdin₄, stdout₄⟩ => ?_
    refine ⟨?_, ?_, ?_⟩
    · rw [calls₄, calls₃]
      exact traced
    · rw [stdin₄, stdin₃, stdin]
    · rw [stdout₄, stdout₃, stdout]

/-- What there is to a line without a bar: it is parsed. -/
theorem dispatchLine_whole (d : Delivered line w) (can : CanDeliver line) (ne : line ≠ [])
    (whole : bar ∉ line) :
    dispatchLine excute page w =
      if (w.cmdParse 0).argc = -1 then
        .ok { w.cmdParse 0 with
          printed := (w.cmdParse 0).printed ++ [("num of arguments exceed %d\n", maxArgNr)] }
      else (w.cmdParse 0).cmdExcute excute := by
  unfold dispatchLine
  rw [if_neg (d.filled can ne), strchr_none d.string whole can.2]

/-- With two words too many it is refused. -/
theorem dispatchLine_refused (d : Delivered line w) (can : CanDeliver line) (whole : bar ∉ line)
    (many : maxArgNr + 1 < (words blank line).length) :
    ∃ w', dispatchLine excute page w = .ok w' ∧ w'.calls = w.calls ∧ w'.pr = w.pr := by
  have ne : line ≠ [] := by
    rintro rfl
    rw [words_nil] at many
    cases many
  have parsed := cmdParse_parsedAt d.string can.1 (by rw [Nat.zero_add]; exact can.2)
  have argc := parsed.call.argc
  rw [if_neg (by omega)] at argc
  refine ⟨_, (dispatchLine_whole d can ne whole).trans (if_pos argc), parsed.calls, parsed.pr⟩

/-- EVERY OTHER LINE: all its segments are dispatched. -/
theorem dispatchLine_ensures (d : Delivered line w) (can : CanDeliver line) (ne : line ≠ [])
    (taken : ¬ (bar ∉ line ∧ maxArgNr + 1 < (words blank line).length)) :
    Ensures (Broken excute w.tbl (segments line))
      (fun w' => List.Forall₂ CallOf (segments line) w'.calls ∧ w'.pr.fdTable 0 = 0 ∧
        w'.pr.fdTable 1 = 1)
      (dispatchLine excute page w) := by
  rcases bar_split line with whole | ⟨seg, rest, rfl, whole⟩
  · have few : (words blank line).length ≤ maxArgNr + 1 := by
      by_contra many
      exact taken ⟨whole, by omega⟩
    have room : 0 + line.length < cmdLen := by
      rw [Nat.zero_add]
      exact can.2
    have argc := (cmdParse_parsedAt d.string can.1 room).call.argc
    rw [if_pos few] at argc
    have counted : (w.cmdParse 0).argc ≠ -1 := by
      intro refused
      exact absurd (argc.symm.trans refused) (by omega)
    rw [dispatchLine_whole d can ne whole, if_neg counted, segments_one whole]
    have stage :=
      @stage_ensures excute line w 0 [line] [] [] d.string can.1 room (d.calls ▸ .nil) rfl
    refine (stage.weaken fun h ⟨stops, inOrder⟩ =>
      ⟨inOrder, fun returns => absurd returns stops⟩).mono fun w' ⟨traced, pr, _⟩ => ?_
    rw [pr]
    exact ⟨traced, d.stdin, d.stdout⟩
  · exact dispatchLine_bar d can whole rfl

/-- With commands that return and a slot for the pipe nothing is left out. -/
theorem all_dispatched (d : Delivered line w) (can : CanDeliver line) (ne : line ≠ [])
    (taken : ¬ (bar ∉ line ∧ maxArgNr + 1 < (words blank line).length)) (returns : Returns excute)
    (free : getFreeSlot w.tbl ≠ none) :
    List.Forall₂ CallOf (segments line) (callsOf (dispatchLine excute page w)) := by
  have run := @dispatchLine_ensures excute page line w d can ne taken
  generalize dispatchLine excute page w = o at run
  cases o with
  | ok w' => exact run.1
  | error h => exact run.all returns free

/-! ## The whole line -/

/-- Calls of commands are real and in order. -/
theorem runs_of_traced {calls : List Call} (traced : List.Forall₂ CallOf segs calls)
    (cmds : ∀ seg ∈ segs, IsCommand seg) :
    List.Forall₂ Runs segs calls ∧ ∀ c ∈ calls, 1 ≤ c.argc ∧ c.argc ≤ maxArgNr ∧
      c.argv 0 ≠ none := by
  induction traced with
  | nil => exact ⟨.nil, fun c hc => absurd hc List.not_mem_nil⟩
  | cons of _ ih =>
    rw [List.forall_mem_cons] at cmds
    obtain ⟨runs, real⟩ := ih cmds.2
    have run := of.runs cmds.1.2
    exact ⟨.cons run runs, List.forall_mem_cons.mpr ⟨run.real cmds.1, real⟩⟩

/-- Real calls are of commands. -/
theorem commands_of_real {calls : List Call} (traced : List.Forall₂ CallOf segs calls)
    (real : ∀ c ∈ calls, 1 ≤ c.argc ∧ c.argc ≤ maxArgNr ∧ c.argv 0 ≠ none) :
    ∀ seg ∈ segs, IsCommand seg := by
  induction traced with
  | nil => exact fun seg hseg => absurd hseg List.not_mem_nil
  | cons of _ ih =>
    rw [List.forall_mem_cons] at real
    obtain ⟨⟨least, most, _⟩, real⟩ := real
    exact List.forall_mem_cons.mpr ⟨of.isCommand least most, ih real⟩

theorem commands_eq (cmds : ∀ seg ∈ segments line, IsCommand seg) : commands line = segments line :=
  List.filter_eq_self.mpr fun seg hseg => decide_eq_true (cmds seg hseg)

/-- A line of commands is dispatched. -/
theorem dispatches_of_ensures {o : Except Halted World}
    (cmds : ∀ seg ∈ segments line, IsCommand seg)
    (run : Ensures (Broken excute w.tbl (segments line))
      (fun w' => List.Forall₂ CallOf (segments line) w'.calls ∧ w'.pr.fdTable 0 = 0 ∧
      w'.pr.fdTable 1 = 1) o) : Dispatches line o := by
  cases o with
  | ok w' =>
    obtain ⟨traced, stdin, stdout⟩ := run
    obtain ⟨runs, real⟩ := runs_of_traced traced cmds
    have length : w'.calls.length = (commands line).length := by
      rw [commands_eq cmds, traced.length_eq]
    refine ⟨real, ?_, fun _ _ => length, ?_⟩
    · show List.Forall₂ Runs ((commands line).take w'.calls.length) w'.calls
      rw [length, List.take_length, commands_eq cmds]
      exact runs
    · rintro _ ⟨⟩
      exact ⟨stdin, stdout⟩
  | error h =>
    obtain ⟨⟨n, traced⟩, _⟩ := run
    obtain ⟨runs, real⟩ :=
      runs_of_traced traced fun seg hseg => cmds seg (List.mem_of_mem_take hseg)
    refine ⟨real, ?_, nofun, nofun⟩
    show List.Forall₂ Runs ((commands line).take h.world.calls.length) h.world.calls
    have same : (segments line).take ((segments line).take n).length = (segments line).take n := by
      rw [List.length_take]
      exact List.take_eq_take_iff.mpr (by omega)
    rw [commands_eq cmds, ← runs.length_eq, same]
    exact runs

/-- Nor is anything else. -/
theorem dispatches_nothing (none : commands line = []) (calls : w.calls = [])
    (stdin : w.pr.fdTable 0 = 0) (stdout : w.pr.fdTable 1 = 1) :
    Dispatches line (.ok w) where
  real c hc := by
    change c ∈ w.calls at hc
    rw [calls] at hc
    cases hc
  inOrder := by
    show List.Forall₂ Runs ((commands line).take w.calls.length) w.calls
    rw [none, calls]
    exact .nil
  all _ _ := by
    show w.calls.length = _
    rw [none, calls]
    rfl
  restored := by
    rintro _ ⟨⟩
    exact ⟨stdin, stdout⟩

/-- A shell whose commands do nothing, with a line typed. -/
def typed (line : List Byte) : World where
  mem := ⟨stringMem line, fun _ => none, []⟩
  argc := -1
  tbl := (fdStart fun _ => true).tbl
  pr := initProc
  calls := []
  printed := []

theorem typed_delivered (line : List Byte) : Delivered line (typed line) where
  string k _ := by rw [Nat.zero_add]; rfl
  stdin := rfl
  stdout := rfl
  calls := rfl

/-- THE SHELL DISPATCHES ONLY COMMANDS, all of them and in order, if and only if the line is empty,
or is one segment with two words too many, or every segment has at least one word and no more than
there is room for. -/
theorem my_shell_dispatches_iff (can : CanDeliver line) :
    (∀ excute page w, Delivered line w → Dispatches line (dispatchLine excute page w)) ↔
    RunsCommands line := by
  constructor
  · intro dispatches
    by_cases empty : line = []
    · exact .inl empty
    by_cases refused : bar ∉ line ∧ maxArgNr + 1 < (words blank line).length
    · exact .inr (.inl refused)
    refine .inr (.inr ?_)
    have returns : Returns fun _ tbl => .ok tbl := fun _ tbl => ⟨tbl, rfl⟩
    have free : getFreeSlot (typed line).tbl ≠ none := by
      show getFreeSlot (fdStart fun _ => true).tbl ≠ none
      decide
    have traced :=
      @all_dispatched (fun _ tbl => .ok tbl) none line (typed line) (typed_delivered line) can empty
        refused returns free
    exact commands_of_real traced
      (dispatches (fun _ tbl => .ok tbl) none (typed line) (typed_delivered line)).real
  · rintro runs excute page w d
    by_cases empty : line = []
    · -- nothing is done
      subst empty
      have blank : w.mem.cmdStr 0 = 0 := d.string 0 (Nat.le_refl _)
      have done : dispatchLine excute page w = .ok w := if_pos blank
      rw [done]
      exact dispatches_nothing rfl d.calls d.stdin d.stdout
    by_cases refused : bar ∉ line ∧ maxArgNr + 1 < (words blank line).length
    · obtain ⟨whole, many⟩ := refused
      obtain ⟨w', answer, calls, pr⟩ := @dispatchLine_refused excute page line w d can whole many
      have none : commands line = [] := by
        have other : ¬ IsCommand line := fun cmd => by
          have room := cmd.2
          omega
        rw [commands, segments_one whole, List.filter_singleton, decide_eq_false other]
        rfl
      rw [answer]
      exact dispatches_nothing none (calls.trans d.calls) (pr ▸ d.stdin) (pr ▸ d.stdout)
    · have cmds := (runs.resolve_left empty).resolve_left refused
      exact dispatches_of_ensures cmds (dispatchLine_ensures d can empty refused)

/-- `ls|ls` -/
theorem my_shell_dispatches_two : (∀ excute page w, Delivered [108, 115, 124, 108, 115] w →
    Dispatches [108, 115, 124, 108, 115] (dispatchLine excute page w)) ↔
    RunsCommands [108, 115, 124, 108, 115] :=
  my_shell_dispatches_iff ⟨by decide, by decide⟩

/-- A blank and an enter: there is no word, and `cmd_excute` is called. -/
theorem blank_line_dispatched :
    (∃ c, callsOf (dispatchLine (fun _ tbl => .ok tbl) none (typed [blank])) = [c] ∧ c.argc = 0 ∧
      c.argv 0 = none) ∧
      ¬ ∀ line, CanDeliver line → ∀ excute page w, Delivered line w →
        Dispatches line (dispatchLine excute page w) := by
  have can : CanDeliver [blank] := ⟨by decide, by decide⟩
  have noWords : words blank [blank] = [] := by simp
  have taken : ¬ (bar ∉ [blank] ∧ maxArgNr + 1 < (words blank [blank]).length) := by
    rw [noWords]
    exact fun h => absurd h.2 (by decide)
  have returns : Returns fun _ tbl => .ok tbl := fun _ tbl => ⟨tbl, rfl⟩
  have free : getFreeSlot (typed [blank]).tbl ≠ none := by
    show getFreeSlot (fdStart fun _ => true).tbl ≠ none
    decide
  have traced :=
    @all_dispatched (fun _ tbl => .ok tbl) none [blank] (typed [blank]) (typed_delivered [blank])
      can (List.cons_ne_nil _ _)
    taken returns free
  rw [segments_one (by decide)] at traced
  obtain ⟨c, others, of, left, calls⟩ := List.forall₂_cons_left_iff.mp traced
  rw [List.forall₂_nil_left_iff.mp left] at calls
  have runs := of.runs (by rw [noWords]; exact Nat.zero_le _)
  have argc := runs.argc
  rw [noWords] at argc
  refine ⟨⟨c, calls, argc, runs.rest 0 (by rw [noWords]; exact Nat.le_refl _) (by decide)⟩,
    fun claim => ?_⟩
  have real :=
    (claim [blank] can (fun _ tbl => .ok tbl) none (typed [blank]) (typed_delivered [blank])).real
  rw [calls] at real
  have least := (real c List.mem_cons_self).1
  rw [argc] at least
  exact absurd least (by decide)

end SeekingOs.Shell
