import SeekingOs.Fs.Descriptors
import SeekingOs.Fs.File

/-!
# Which descriptor numbers are refused

`sys_close`, `sys_read`, `sys_write` and `sys_lseek` test the number a little, and each in another
way; what comes through goes to `fd_local2global`, which asserts that the entry is a slot. Nothing
tests that the number is an index of `fd_table`. Here every access to `fd_table` and `file_table` is
checked, and an access outside is a fault.

What a call does with a descriptor that it takes is left out; only `sys_lseek` is followed to its
end, since a pipe and a standard stream come that far as well. There `fd_inode` points to a ring, or
nowhere.
-/

namespace SeekingOs.Fs.Indexed

open Lib

variable (inodes : Nat → Inode) (tbl : Table) (pr : Proc)

/-- How a call ends, or to which function it hands the descriptor over. -/
inductive CallEnd where
  | returns (ret : Int) (tbl : Table) (pr : Proc)
  | console
  | keyboard
  | pipeRead (globalFd : Nat)
  | pipeWrite (globalFd : Nat)
  | fileRead (globalFd : Nat)
  | fileWrite (globalFd : Nat)

/-- `cur->fd_table[local_fd]` -/
def fdEntry (fd : Int) : Except Fault Int :=
  if 0 ≤ fd ∧ fd < maxFilesOpenPerProc then .ok (pr.fdTable fd.toNat)
  else .error (.outOfBounds "fd_local2global")

/-- `fd_local2global` -/
def fdLocal2global (fd : Int) : Except Fault Nat := do
  let globalFd ← fdEntry pr fd
  assertThat false (globalFd ≥ 0 ∧ globalFd ≤ maxFilesOpen) "fd_local2global"
    "global_fd >= 0 && global_fd <= MAX_FILES_OPEN"
  return globalFd.toNat

/-- `file_table[global_fd]` -/
def slot (globalFd : Nat) (func : String) : Except Fault File :=
  if globalFd < maxFilesOpen then .ok (tbl.file globalFd) else .error (.outOfBounds func)

/-- `is_pipe` -/
def isPipe (fd : Int) : Except Fault Bool := do
  let globalFd ← fdLocal2global pr fd
  let file ← slot tbl globalFd "is_pipe"
  return file.fdFlag == pipeFlag

/-- `sys_close` -/
def sysClose (fd : Int) : Except Fault CallEnd :=
  if fd > 2 then do
    let globalFd ← fdLocal2global pr fd
    let tbl ← closeSlot tbl (← isPipe tbl pr fd) globalFd
    return .returns 0 tbl (pr.set fd.toNat (-1) none)
  else return .returns (-1) tbl pr

/-- `sys_write` -/
def sysWrite (fd : Int) : Except Fault CallEnd :=
  if fd < 0 then return .returns (-1) tbl pr
  else if fd = 1 then do
    if ← isPipe tbl pr fd then return .pipeWrite (← fdLocal2global pr fd) else return .console
  else do
    if ← isPipe tbl pr fd then return .pipeWrite (← fdLocal2global pr fd)
    else do
      let globalFd ← fdLocal2global pr fd
      let file ← slot tbl globalFd "sys_write"
      if file.fdFlag &&& oWronly ≠ 0 ∨ file.fdFlag &&& oRdwr ≠ 0 then return .fileWrite globalFd
      else return .returns (-1) tbl pr

/-- `sys_read` -/
def sysRead (fd : Int) (buf : Nat) : Except Fault CallEnd := do
  assertThat false (buf ≠ 0) "sys_read" "buf != NULL"
  if fd < 0 ∨ fd = 1 ∨ fd = 2 then return .returns (-1) tbl pr
  else if fd = 0 then do
    if ← isPipe tbl pr fd then return .pipeRead (← fdLocal2global pr fd) else return .keyboard
  else do
    if ← isPipe tbl pr fd then return .pipeRead (← fdLocal2global pr fd)
    else return .fileRead (← fdLocal2global pr fd)

/-- `sys_lseek`; `inodes` is what the memory at an address is as a `struct inode`, also where it is
a ring. -/
def sysLseek (fd offset : Int) (whence : Nat) : Except Fault CallEnd :=
  if fd < 0 then return .returns (-1) tbl pr
  else do
    assertThat false (whence > 0 ∧ whence < 4) "sys_lseek" "whence > 0 && whence < 4"
    let globalFd ← fdLocal2global pr fd
    let pf ← slot tbl globalFd "sys_lseek"
    match pf.fdInode with
    | none => .error (.pageFault "sys_lseek")
    | some inode => do
      let (fdPos, ret) ← Fs.sysLseek (inodes inode) pf.fdPos offset whence
      match ret with
      | none => return .returns (-1) tbl pr
      | some pos => return .returns pos (tbl.setFile globalFd { pf with fdPos }) pr

/-- The calls. -/
inductive FdCall where
  | close (fd : Int)
  | read (fd : Int) (buf : Nat)
  | write (fd : Int)
  | lseek (fd offset : Int) (whence : Nat)

/-- The descriptor that is passed. -/
def FdCall.fd : FdCall → Int
  | .close fd | .read fd _ | .write fd | .lseek fd _ _ => fd

/-- The other arguments are what the function asserts. -/
def FdCall.Proper : FdCall → Prop
  | .read _ buf => buf ≠ 0
  | .lseek _ _ whence => whence > 0 ∧ whence < 4
  | _ => True

/-- The call. -/
def FdCall.run : FdCall → Except Fault CallEnd
  | .close fd => sysClose tbl pr fd
  | .read fd buf => sysRead tbl pr fd buf
  | .write fd => sysWrite tbl pr fd
  | .lseek fd offset whence => sysLseek inodes tbl pr fd offset whence

/-! ## Descriptors that a call should refuse -/

/-- An open descriptor: an index of `fd_table` with a slot of `file_table` in it. -/
def IsOpen (fd : Int) : Prop := (0 ≤ fd ∧ fd < maxFilesOpenPerProc) ∧ 0 ≤ pr.fdTable fd.toNat ∧
  pr.fdTable fd.toNat < maxFilesOpen

/-- The slot of a descriptor. -/
def fileOf (fd : Int) : File := tbl.file (pr.fdTable fd.toNat).toNat

/-- A standard stream, or a pipe. -/
def Unseekable (fd : Int) : Prop := fd < 3 ∨ (fileOf tbl pr fd).fdFlag = pipeFlag

/-- The open descriptors that a call does not apply to: closing a standard stream, reading the
standard outputs, writing without the flag for it, and seeking where there is no file. -/
def FdCall.Unsuited : FdCall → Prop
  | .close fd => fd < 3
  | .read fd _ => fd = 1 ∨ fd = 2
  | .write fd => fd ≠ 1 ∧ (fileOf tbl pr fd).fdFlag ≠ pipeFlag ∧
    (fileOf tbl pr fd).fdFlag &&& oWronly = 0 ∧ (fileOf tbl pr fd).fdFlag &&& oRdwr = 0
  | .lseek fd _ _ => Unseekable tbl pr fd

/-- A bad descriptor for the call. -/
def FdCall.Bad (c : FdCall) : Prop := ¬ IsOpen pr c.fd ∨ c.Unsuited tbl pr

/-- THE REFUSAL: −1, and no state has changed. -/
def FdCall.Refused (c : FdCall) : Prop := c.run inodes tbl pr = .ok (.returns (-1) tbl pr)

/-- The numbers that the call refuses before it looks into `fd_table`. -/
def FdCall.Early : FdCall → Prop
  | .close fd => fd < 3
  | .read fd _ => fd < 0 ∨ fd = 1 ∨ fd = 2
  | .write fd => fd < 0
  | .lseek fd _ _ => fd < 0

/-- The place that is sought: `offset` from the start, from `fd_pos` or from the end, where `size`
is the word that is read as `i_size`. The sums are signed ones of 32 bits. -/
def soughtPlace (fdPos size : Nat) (offset : Int) (whence : Nat) : Int :=
  if whence = seekSet then offset
  else if whence = seekCur then toSigned 32 (fdPos + offset)
  else toSigned 32 (size + offset)

/-- `fd_inode` points to something, and the place lies before 0 or after the last one below the word
there. -/
def MissesSize (file : File) (offset : Int) (whence : Nat) : Prop :=
  ∃ inode, file.fdInode = some inode ∧
    (soughtPlace file.fdPos (inodes inode).iSize offset whence < 0 ∨
      toSigned 32 ((inodes inode).iSize - 1) <
        soughtPlace file.fdPos (inodes inode).iSize offset whence)

/-- What a bad descriptor must be like to be refused. -/
def FdCall.Refusable : FdCall → Prop
  | .lseek fd offset whence => fd < 0 ∨ IsOpen pr fd ∧
      (Unseekable tbl pr fd → MissesSize inodes (fileOf tbl pr fd) offset whence)
  | c => c.Early ∨ IsOpen pr c.fd

/-! ## `fd_local2global` and `is_pipe` -/

variable {inodes tbl pr} {fd : Int}

theorem fdLocal2global_open (isOpen : IsOpen pr fd) :
    fdLocal2global pr fd = .ok (pr.fdTable fd.toNat).toNat := by
  obtain ⟨inside, slot⟩ := isOpen
  unfold fdLocal2global fdEntry
  rw [if_pos inside, ok_bind, assertThat_of ⟨slot.1, Int.le_of_lt slot.2⟩, ok_bind]
  rfl

/-- Inside of `fd_table` the index makes no difference. -/
theorem fdLocal2global_inside (inside : 0 ≤ fd ∧ fd < maxFilesOpenPerProc) :
    fdLocal2global pr fd = Fs.fdLocal2global pr fd.toNat := by
  unfold fdLocal2global fdEntry
  rw [if_pos inside, ok_bind]
  rfl

theorem slot_open (isOpen : IsOpen pr fd) (func : String) :
    slot tbl (pr.fdTable fd.toNat).toNat func = .ok (fileOf tbl pr fd) := by
  obtain ⟨-, slot⟩ := isOpen
  apply if_pos
  omega

theorem isPipe_open (isOpen : IsOpen pr fd) :
    isPipe tbl pr fd = .ok ((fileOf tbl pr fd).fdFlag == pipeFlag) := by
  unfold isPipe
  rw [fdLocal2global_open isOpen, ok_bind, slot_open isOpen, ok_bind]
  rfl

/-- A DESCRIPTOR THAT IS NOT OPEN does not come through to its slot: the index, the assertion or the
slot fails. -/
theorem slot_closed {β : Type} (closed : ¬ IsOpen pr fd) (func : String)
    (next : Nat → File → Except Fault β) :
    ∃ e, (do
      let globalFd ← fdLocal2global pr fd
      let file ← slot tbl globalFd func
      next globalFd file) = .error e := by
  unfold fdLocal2global fdEntry
  by_cases inside : 0 ≤ fd ∧ fd < maxFilesOpenPerProc
  · rw [if_pos inside, ok_bind]
    by_cases entry : pr.fdTable fd.toNat ≥ 0 ∧ pr.fdTable fd.toNat ≤ maxFilesOpen
    · rw [assertThat_of entry, ok_bind]
      -- the entry is 32, which the assertion lets pass
      have beyond : ¬ (pr.fdTable fd.toNat).toNat < maxFilesOpen := by
        intro lt
        apply closed
        refine ⟨inside, entry.1, ?_⟩
        omega
      show ∃ e, (do
        let file ← slot tbl (pr.fdTable fd.toNat).toNat func
        next (pr.fdTable fd.toNat).toNat file) = .error e
      unfold slot
      rw [if_neg beyond]
      exact ⟨_, rfl⟩
    · unfold assertThat
      rw [decide_eq_false entry]
      exact ⟨_, rfl⟩
  · rw [if_neg inside]
    exact ⟨_, rfl⟩

theorem isPipe_closed (tbl : Table) (closed : ¬ IsOpen pr fd) : ∃ e, isPipe tbl pr fd = .error e :=
  slot_closed closed "is_pipe" fun _ file => .ok (file.fdFlag == pipeFlag)

/-! ## The calls -/

theorem not_refused {c : FdCall} {e : Fault} (h : c.run inodes tbl pr = .error e) :
    ¬ c.Refused inodes tbl pr := by
  intro refused
  unfold FdCall.Refused at refused
  rw [h] at refused
  cases refused

/-- Whatever comes after `is_pipe`. -/
theorem bind_closed {β : Type} {next : Bool → Except Fault β} (tbl : Table)
    (closed : ¬ IsOpen pr fd) : ∃ e, (isPipe tbl pr fd >>= next) = .error e := by
  obtain ⟨e, he⟩ := isPipe_closed tbl closed
  exact ⟨e, by rw [he, error_bind]⟩

theorem sysClose_closed (tbl : Table) (closed : ¬ IsOpen pr fd) (hfd : ¬ fd < 3) :
    ∃ e, sysClose tbl pr fd = .error e := by
  unfold sysClose
  rw [if_pos (by omega)]
  cases h : fdLocal2global pr fd with
  | error e => exact ⟨e, rfl⟩
  | ok globalFd =>
    rw [ok_bind]
    exact bind_closed tbl closed

theorem sysWrite_closed (tbl : Table) (closed : ¬ IsOpen pr fd) (hfd : ¬ fd < 0) :
    ∃ e, sysWrite tbl pr fd = .error e := by
  unfold sysWrite
  rw [if_neg hfd]
  split
  · exact bind_closed tbl closed
  · exact bind_closed tbl closed

theorem sysRead_closed {buf : Nat} (tbl : Table) (hbuf : buf ≠ 0) (closed : ¬ IsOpen pr fd)
    (hfd : ¬ (fd < 0 ∨ fd = 1 ∨ fd = 2)) : ∃ e, sysRead tbl pr fd buf = .error e := by
  unfold sysRead
  rw [assertThat_of hbuf, ok_bind, if_neg hfd]
  split
  · exact bind_closed tbl closed
  · exact bind_closed tbl closed

theorem sysLseek_closed {offset : Int} {whence : Nat} (inodes : Nat → Inode) (tbl : Table)
    (hwhence : whence > 0 ∧ whence < 4) (closed : ¬ IsOpen pr fd) (hfd : ¬ fd < 0) :
    ∃ e, sysLseek inodes tbl pr fd offset whence = .error e := by
  unfold sysLseek
  rw [if_neg hfd, assertThat_of hwhence, ok_bind]
  exact slot_closed closed "sys_lseek" _

/-- A file that must not be written. -/
theorem sysWrite_unsuited (isOpen : IsOpen pr fd) (unsuited : (FdCall.write fd).Unsuited tbl pr) :
    sysWrite tbl pr fd = .ok (.returns (-1) tbl pr) := by
  obtain ⟨notStdout, notPipe, noWronly, noRdwr⟩ := unsuited
  have hfd : ¬ fd < 0 := Int.not_lt.mpr isOpen.1.1
  unfold sysWrite
  rw [if_neg hfd, if_neg notStdout, isPipe_open isOpen, ok_bind, beq_eq_false_iff_ne.mpr notPipe,
    if_neg Bool.false_ne_true,
    fdLocal2global_open isOpen, ok_bind, slot_open isOpen, ok_bind, if_neg]
  · rfl
  · rintro (h | h)
    · exact h noWronly
    · exact h noRdwr

/-- The casts before the sums make no difference. -/
theorem lseek_sought (inode : Inode) (fdPos : Nat) (offset : Int) {whence : Nat}
    (hwhence : whence > 0 ∧ whence < 4) :
    Fs.sysLseek inode fdPos offset whence =
      if soughtPlace fdPos inode.iSize offset whence < 0 ∨
        toSigned 32 (inode.iSize - 1) < soughtPlace fdPos inode.iSize offset whence then
          .ok (fdPos, none)
      else .ok ((soughtPlace fdPos inode.iSize offset whence).toNat,
        some (soughtPlace fdPos inode.iSize offset whence).toNat) := by
  have cast (n k : Int) : toSigned 32 (toSigned 32 n + k) = toSigned 32 (n + k) := by
    unfold toSigned
    omega
  unfold Fs.sysLseek soughtPlace
  rw [assertThat_of hwhence, ok_bind]
  dsimp only
  rw [cast, cast, Int.sub_eq_add_neg, cast]
  rfl

/-- Seeking comes to an end exactly where `fd_inode` points to something, and answers −1 for what
lies outside. -/
theorem sysLseek_open {offset : Int} {whence : Nat} (hwhence : whence > 0 ∧ whence < 4)
    (isOpen : IsOpen pr fd) :
    sysLseek inodes tbl pr fd offset whence = .ok (.returns (-1) tbl pr) ↔
    MissesSize inodes (fileOf tbl pr fd) offset whence := by
  have hfd : ¬ fd < 0 := Int.not_lt.mpr isOpen.1.1
  unfold sysLseek MissesSize
  rw [if_neg hfd, assertThat_of hwhence, ok_bind, fdLocal2global_open isOpen, ok_bind,
    slot_open isOpen, ok_bind]
  cases (fileOf tbl pr fd).fdInode with
  | none => exact ⟨fun h => (by cases h), fun ⟨i, h, _⟩ => (by cases h)⟩
  | some inode =>
    dsimp only
    rw [lseek_sought _ _ _ hwhence]
    split
    next outside => exact iff_of_true rfl ⟨inode, rfl, outside⟩
    next inside =>
      apply iff_of_false
      · intro answer
        have same :
            ((soughtPlace (fileOf tbl pr fd).fdPos (inodes inode).iSize offset whence).toNat :
              Int) = -1 :=
          (CallEnd.returns.inj (Except.ok.inj answer)).1
        omega
      · rintro ⟨i, hi, outside⟩
        cases hi
        exact inside outside

/-- THE CALLS. A bad descriptor is refused exactly when the call finds it out before
`fd_local2global`, or when it is an open one; what cannot be sought must also lie outside of the
place that is read for its size. -/
theorem refused_iff {c : FdCall} (proper : c.Proper) (bad : c.Bad tbl pr) :
    c.Refused inodes tbl pr ↔ c.Refusable inodes tbl pr := by
  by_cases isOpen : IsOpen pr c.fd
  · have unsuited := bad.resolve_left (not_not_intro isOpen)
    cases c with
    | close fd =>
      exact iff_of_true (if_neg (Int.not_lt.mpr (Int.lt_add_one_iff.mp unsuited))) (.inr isOpen)
    | read fd buf =>
      apply iff_of_true ?_ (.inr isOpen)
      have hbuf : buf ≠ 0 := proper
      show sysRead tbl pr fd buf = _
      unfold sysRead
      rw [assertThat_of hbuf, ok_bind, if_pos (.inr unsuited)]
      rfl
    | write fd => exact iff_of_true (sysWrite_unsuited isOpen unsuited) (.inr isOpen)
    | lseek fd offset whence =>
      apply (sysLseek_open proper isOpen).trans
      constructor
      · intro misses
        exact .inr ⟨isOpen, fun _ => misses⟩
      · rintro (hfd | ⟨-, h⟩)
        · exact absurd isOpen.1.1 (Int.not_le.mpr hfd)
        · exact h unsuited
  · cases c with
    | close fd =>
      by_cases hfd : fd < 3
      · exact iff_of_true (if_neg (Int.not_lt.mpr (Int.lt_add_one_iff.mp hfd))) (.inl hfd)
      · obtain ⟨e, he⟩ := sysClose_closed tbl isOpen hfd
        exact iff_of_false (not_refused he) (not_or.mpr ⟨hfd, isOpen⟩)
    | read fd buf =>
      by_cases hfd : fd < 0 ∨ fd = 1 ∨ fd = 2
      · apply iff_of_true ?_ (.inl hfd)
        have hbuf : buf ≠ 0 := proper
        show sysRead tbl pr fd buf = _
        unfold sysRead
        rw [assertThat_of hbuf, ok_bind, if_pos hfd]
        rfl
      · obtain ⟨e, he⟩ := sysRead_closed tbl proper isOpen hfd
        exact iff_of_false (not_refused he) (not_or.mpr ⟨hfd, isOpen⟩)
    | write fd =>
      by_cases hfd : fd < 0
      · exact iff_of_true (if_pos hfd) (.inl hfd)
      · obtain ⟨e, he⟩ := sysWrite_closed tbl isOpen hfd
        exact iff_of_false (not_refused he) (not_or.mpr ⟨hfd, isOpen⟩)
    | lseek fd offset whence =>
      by_cases hfd : fd < 0
      · exact iff_of_true (if_pos hfd) (.inl hfd)
      · obtain ⟨e, he⟩ := sysLseek_closed inodes tbl proper isOpen hfd
        exact iff_of_false (not_refused he) (not_or.mpr ⟨hfd, fun h => isOpen h.1⟩)

/-- A descriptor that is not bad is open, and the call applies to it. -/
theorem refusable_of_not_bad {c : FdCall} (fine : ¬ c.Bad tbl pr) : c.Refusable inodes tbl pr := by
  have isOpen := not_not.mp (not_or.mp fine).1
  have suited := (not_or.mp fine).2
  cases c with
  | close fd => exact .inr isOpen
  | read fd buf => exact .inr isOpen
  | write fd => exact .inr isOpen
  | lseek fd offset whence => exact .inr ⟨isOpen, fun unseekable => absurd unseekable suited⟩

/-- BAD DESCRIPTORS. For all tables and every number, a call refuses it if it is bad, exactly under
`Refusable`. -/
theorem bad_descriptor_refused_iff (inodes : Nat → Inode) (tbl : Table) (pr : Proc) (c : FdCall)
    (proper : c.Proper) : (c.Bad tbl pr → c.Refused inodes tbl pr) ↔ c.Refusable inodes tbl pr := by
  constructor
  · intro claim
    by_cases bad : c.Bad tbl pr
    · exact (refused_iff proper bad).mp (claim bad)
    · exact refusable_of_not_bad bad
  · intro refusable bad
    exact (refused_iff proper bad).mpr refusable

/-- What the memory of a ring is as an inode: where `i_size` would be there is the value of the
lock's semaphore. -/
def ringInode : Inode := ⟨0, 1, 0, false, fun _ => 0⟩

/-- A process with a pipe, at descriptor 3. -/
def pipeTable : Table := (fdStart fun _ => true).tbl.setFile 3 ⟨2, pipeFlag, some 0⟩
def pipeProc : Proc := initProc.set 3 3 (some 0)

theorem pipe_bad (offset : Int) (whence : Nat) :
    (FdCall.lseek 3 offset whence).Bad pipeTable pipeProc :=
  .inr (.inr (by decide))

/-- The theorem for two seeks in the pipe: to 5, which is beyond the word, and to 0. -/
theorem bad_descriptor_refused_pipe :
    (FdCall.lseek 3 5 seekSet).Refused (fun _ => ringInode) pipeTable pipeProc ∧
    ¬ (FdCall.lseek 3 0 seekSet).Refused (fun _ => ringInode) pipeTable pipeProc := by
  have isOpen : IsOpen pipeProc 3 := ⟨by decide, by decide, by decide⟩
  constructor
  · refine (bad_descriptor_refused_iff _ _ _ (.lseek 3 5 seekSet) ⟨by decide, by decide⟩).mpr ?_
      (pipe_bad 5 seekSet)
    exact .inr ⟨isOpen, fun _ => ⟨0, rfl, .inr (by decide)⟩⟩
  · intro refused
    have refusable :=
      (bad_descriptor_refused_iff (fun _ => ringInode) pipeTable pipeProc (.lseek 3 0 seekSet)
      ⟨by decide, by decide⟩).mp fun _ => refused
    rcases refusable with early | ⟨-, misses⟩
    · exact absurd early (by decide)
    · obtain ⟨inode, -, outside⟩ := misses (.inr (by decide))
      exact absurd outside
        (show ¬ (soughtPlace (fileOf pipeTable pipeProc 3).fdPos ringInode.iSize 0 seekSet < 0 ∨
        toSigned 32 (ringInode.iSize - 1) <
          soughtPlace (fileOf pipeTable pipeProc 3).fdPos ringInode.iSize 0 seekSet)
        by decide)

/-- `sys_close(3)` of a process that has opened nothing fails the assertion of `fd_local2global`. -/
theorem closed_descriptor_asserts :
    ¬ ∀ (inodes : Nat → Inode) (tbl : Table) (pr : Proc) (c : FdCall), c.Proper → c.Bad tbl pr →
    c.Refused inodes tbl pr := by
  intro claim
  have closed : ¬ IsOpen initProc 3 := by
    intro isOpen
    exact absurd isOpen.2.1 (by decide)
  have refused :=
    claim (fun _ => ringInode) (fdStart fun _ => true).tbl initProc (.close 3) trivial (.inl closed)
  obtain ⟨e, he⟩ := sysClose_closed (fdStart fun _ => true).tbl closed (by decide)
  have fails : (FdCall.close 3).run (fun _ => ringInode) (fdStart fun _ => true).tbl initProc =
      .error e := he
  exact not_refused fails refused

end SeekingOs.Fs.Indexed
