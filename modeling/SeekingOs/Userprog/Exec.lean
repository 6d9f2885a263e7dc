import SeekingOs.Fs.File
import SeekingOs.Lib.Plans
import SeekingOs.Userprog.ExitMemory

/-!
# `userprog/exec.c`: loading a program

`load` goes through the program headers of a file. `segment_load` gives the pages of a segment a
frame where they have none, and `sys_read` reads the segment to them. The record keeps the pages
that go to `get_a_page`, with the bit that it computes, and the addresses that `sys_read`
overwrites, also of a run that ends in a fault. What is written is not kept: `load` reads nothing
that lies in the memory of the process.

The heap of the process is left out. What `sys_open` and `file_read` do there happens before and
between the segments: the pages that `sys_malloc` takes for `file_read` are given back before it
returns, while the page tables that came with them stay, and map nothing; and for a file that is not
in the root `sys_open` keeps the `struct dir` of its directory, which nobody closes. `ExecFailed`
has what stays there of `sys_open`: pages with their bits, and bytes.
-/

namespace SeekingOs.Exec

open Lib Fs

variable {sb : SuperBlock}

/-! ## The file -/

/-- The `uint16_t` at an offset. -/
def rd16 (buf : Buf) (off : Nat) : Nat := (buf off).toNat + 256 * (buf (off + 1)).toNat

/-- `struct Elf32_Ehdr` -/
structure Elf32Ehdr where
  eIdent : Buf
  eType : Nat
  eMachine : Nat
  eVersion : Nat
  eEntry : Nat
  ePhoff : Nat
  ePhentsize : Nat
  ePhnum : Nat

/-- `sizeof(struct Elf32_Ehdr)` -/
def ehdrSize : Nat := 52

/-- The header that memory is. -/
def ehdrAt (buf : Buf) : Elf32Ehdr where
  eIdent := buf
  eType := rd16 buf 16
  eMachine := rd16 buf 18
  eVersion := rd32 buf 20
  eEntry := rd32 buf 24
  ePhoff := rd32 buf 28
  ePhentsize := rd16 buf 42
  ePhnum := rd16 buf 44

/-- `struct Elf32_Phdr` -/
structure Elf32Phdr where
  pType : Nat
  pOffset : Nat
  pVaddr : Nat
  pFilesz : Nat

/-- `sizeof(struct Elf32_Phdr)` -/
def phdrSize : Nat := 32

/-- The program header that memory is. -/
def phdrAt (buf : Buf) : Elf32Phdr where
  pType := rd32 buf 0
  pOffset := rd32 buf 4
  pVaddr := rd32 buf 8
  pFilesz := rd32 buf 16

/-- `PT_LOAD` -/
def ptLoad : Nat := 1

/-- `"\177ELF\1\1\1"` -/
def elfMagic : List Byte := [127, 69, 76, 70, 1, 1, 1]

/-- The header passes the check of `load`. -/
def Elf32Ehdr.Checked (h : Elf32Ehdr) : Prop :=
  (List.range 7).map h.eIdent = elfMagic ∧ h.eType = 2 ∧ h.eMachine = 3 ∧ h.eVersion = 1 ∧
    h.ePhnum ≤ 1024 ∧
    h.ePhentsize = phdrSize

instance (h : Elf32Ehdr) : Decidable h.Checked := inferInstanceAs (Decidable (_ ∧ _))

/-- The opened file, and for each call of `file_read` whether `sys_malloc` answers. -/
structure Program (sb : SuperBlock) where
  part : Part sb
  inode : Inode
  heap : Nat → Bool

/-! ### How many bytes `file_read` copies -/

/-- The bytes that the loop of `file_read` has copied when it ends, or faults. -/
def copiedLoop (p : Part sb) (allBlocks : Blocks) (size : Nat) : Nat → ReadState → Nat
  | 0, s => s.bytesRead
  | fuel + 1, s =>
    if s.bytesRead < size then
      match readChunk p allBlocks size s with
      | .ok s' => copiedLoop p allBlocks size fuel s'
      | .error _ => s.bytesRead
    else s.bytesRead

/-- The bytes that `file_read` has copied, once the size is known. -/
def copiedSized (heap : Bool) (p : Part sb) (inode : Inode) (fdPos size : Nat) : Nat :=
  if heap = false then 0
  else if fdPos / sectorSize < 139 ∧ u32 (fdPos + size) / sectorSize < 139 then
    match collectForRead p inode (fdPos / sectorSize) (u32 (fdPos + size) / sectorSize) with
    | .ok allBlocks => copiedLoop p allBlocks size size ⟨fdPos, 0, zeros⟩
    | .error _ => 0
  else 0

/-- The bytes that `file_read` has copied when it ends, or faults. -/
def copied (heap : Bool) (p : Part sb) (inode : Inode) (fdPos count : Nat) : Nat :=
  if u32 (fdPos + count) > inode.iSize then
    copiedSized heap p inode fdPos (u32 (inode.iSize - fdPos))
  else copiedSized heap p inode fdPos count

/-! ## The memory of the process -/

/-- What is touched: a page that goes to `get_a_page`, and its bit; addresses that are overwritten.
-/
inductive Touch where
  | mapped (vaddr bitIdx : Nat)
  | written (vaddr count : Nat)
  deriving DecidableEq, Repr

/-- The code of `exec.c` works on the memory, and what it touches is recorded. -/
abbrev LoadM := Acts Fault Memory Touch

/-- A page has a frame in the running directory. -/
def There (m : Memory) (v : Nat) : Prop := (m.pageAt m.cr3 v).isSome = true

instance (m : Memory) (v : Nat) : Decidable (There m v) := inferInstanceAs (Decidable (_ = true))

/-- `!(*pde & 0x00000001) || !(*pte & 0x00000001)`, negated -/
def pageThere (vaddrPage : Nat) : LoadM Bool := fun s =>
  (do
    let pde ← s.state.read "segment_load" (pdePtr vaddrPage)
    if present pde then do
      let pte ← s.state.read "segment_load" (ptePtr vaddrPage)
      return present pte
    else return false, s)

/-- What `get_a_page` has answered, with the page on the record. -/
def recordMapped (s : Recorded Memory Touch) (t : Touch) :
    Except Fault (Bool × Memory) → Except Fault Bool × Recorded Memory Touch
  | .ok (mapped, m) => (.ok mapped, ⟨m, s.touched ++ [t]⟩)
  | .error e => (.error e, ⟨s.state, s.touched ++ [t]⟩)

/-- `get_a_page(PF_USER, vaddr_page)` -/
def getAPage (vaddrPage : Nat) : LoadM Bool := fun s =>
  recordMapped s (.mapped vaddrPage (Memory.bitIdxOf vaddrPage userVaddrStart))
    (s.state.getAPage vaddrPage)

/-- How many of the addresses from `vaddr` on are there before one is not. -/
def bytesThere (m : Memory) (vaddr count : Nat) : Nat :=
  ((List.range count).takeWhile fun k : Nat => decide (There m (u32 (vaddr + k) / 4096))).length

/-- The bytes are copied to the process, as far as its pages are there. -/
def copyOut (vaddr count : Nat) : LoadM Unit := fun s =>
  let there := bytesThere s.state vaddr count
  let touched := s.touched ++ [.written vaddr there]
  if there < count then (.error (.pageFault "memcpy"), ⟨s.state, touched⟩)
  else (.ok (), ⟨s.state, touched⟩)

/-- `sys_read(fd, (void*)vaddr, count)`, the `k`-th call: where it leaves `fd_pos`. -/
def sysRead (prog : Program sb) (k fdPos vaddr count : Nat) : LoadM Nat := do
  Acts.of (assertThat false (vaddr ≠ 0) "sys_read" "buf != NULL")
  copyOut vaddr (copied (prog.heap k) prog.part prog.inode fdPos count)
  let r ← Acts.of (fileRead (prog.heap k) prog.part prog.inode fdPos zeros count)
  return r.fdPos

/-- `sys_lseek(fd, offset, SEEK_SET)` -/
def seekTo (inode : Inode) (fdPos offset : Nat) : Except Fault (Nat × Option Nat) :=
  sysLseek inode fdPos (toSigned 32 offset) seekSet

/-! ## `segment_load` -/

/-- A page of a segment: `false` when `get_a_page` answers `NULL`. -/
def servePage (vaddrPage : Nat) : LoadM Bool := do
  let there ← pageThere vaddrPage
  if there = true then return true else getAPage vaddrPage

/-- The loop of `segment_load`. Addresses have 32 bits. -/
def mapSegment (vaddrPage : Nat) : Nat → LoadM Bool
  | 0 => return true
  | left + 1 => do
    let mapped ← servePage vaddrPage
    if mapped = true then mapSegment ((vaddrPage + 1) % 2 ^ 20) left else return false

/-- `occupy_pages` -/
def occupyPages (filesz vaddr : Nat) : Nat :=
  let sizeInFirstPage := 4096 - vaddr % 4096
  if filesz > sizeInFirstPage then 1 + u32 (filesz - sizeInFirstPage + 4095) / 4096 else 1

/-- `segment_load`; `none` is `false`, and else it is where `fd_pos` is left. -/
def segmentLoad (prog : Program sb) (k fdPos : Nat) (ph : Elf32Phdr) : LoadM (Option Nat) := do
  let mapped ← mapSegment (ph.pVaddr / 4096) (occupyPages ph.pFilesz ph.pVaddr)
  if mapped = true then do
    let (fdPos, _) ← Acts.of (seekTo prog.inode fdPos ph.pOffset)
    let fdPos ← sysRead prog k fdPos ph.pVaddr ph.pFilesz
    return some fdPos
  else return none

/-! ## `load` -/

/-- A round of the loop of `load`; `none` is −1, and else it is where `fd_pos` is left. -/
def loadHeader (prog : Program sb) (h : Elf32Ehdr) (progIdx progHeaderOff fdPos : Nat) :
    LoadM (Option Nat) := do
  let (fdPos, _) ← Acts.of (seekTo prog.inode fdPos progHeaderOff)
  let r ← Acts.of (fileRead (prog.heap (2 * progIdx + 1)) prog.part prog.inode fdPos
      zeros h.ePhentsize)
  if r.ret ≠ some h.ePhentsize then return none
  else if (phdrAt r.buf).pType = ptLoad then
    segmentLoad prog (2 * progIdx + 2) r.fdPos (phdrAt r.buf)
  else return some r.fdPos

/-- The loop of `load`, `left` headers before its end. -/
def loadHeaders (prog : Program sb) (h : Elf32Ehdr) :
    (left progIdx progHeaderOff fdPos : Nat) → LoadM Int
  | 0, _, _, _ => return toSigned 32 h.eEntry
  | left + 1, progIdx, progHeaderOff, fdPos => do
    let loaded ← loadHeader prog h progIdx progHeaderOff fdPos
    match loaded with
    | none => return -1
    | some fdPos => loadHeaders prog h left (progIdx + 1) (u32 (progHeaderOff + h.ePhentsize)) fdPos

/-- `load`; `prog` is what `sys_open` answers. -/
def load (prog : Option (Program sb)) : LoadM Int :=
  match prog with
  | none => return -1
  | some prog => do
    let r ← Acts.of (fileRead (prog.heap 0) prog.part prog.inode 0 zeros ehdrSize)
    if r.ret ≠ some ehdrSize then return -1
    else if ¬ (ehdrAt r.buf).Checked then return -1
    else loadHeaders prog (ehdrAt r.buf) (ehdrAt r.buf).ePhnum 0 (ehdrAt r.buf).ePhoff r.fdPos

/-! ## What `file_read` answers is what it has copied -/

theorem copiedLoop_eq {p : Part sb} {allBlocks : Blocks} {size fuel : Nat} {s s' t : ReadState}
    (hpos : t.fdPos = s.fdPos) (hread : t.bytesRead = s.bytesRead)
    (h : readLoop p allBlocks size fuel s = .ok s') :
    copiedLoop p allBlocks size fuel t = s'.bytesRead := by
  induction fuel generalizing s t with
  | zero =>
    cases h
    exact hread
  | succ fuel ih =>
    unfold readLoop at h
    unfold copiedLoop
    rw [hread]
    split at h
    next hlt =>
      rw [if_pos hlt]
      obtain ⟨s₁, hchunk, h⟩ := bind_eq_ok.mp h
      unfold readChunk at hchunk ⊢
      dsimp only at hchunk ⊢
      rw [hpos]
      split at hchunk
      next hsec =>
        rw [if_pos hsec]
        cases hchunk
        apply ih _ _ h
        · dsimp only
          rw [hread]
        · dsimp only
          rw [hread]
      next => cases hchunk
    next hge =>
      rw [if_neg hge]
      cases h
      rfl

theorem copiedSized_eq {heap : Bool} {p : Part sb} {inode : Inode} {fdPos size : Nat} {buf : Buf}
    {r : ReadResult} (h : readSized heap p inode fdPos buf size = .ok r) :
    copiedSized heap p inode fdPos size = r.ret.getD 0 := by
  unfold readSized at h
  unfold copiedSized
  split at h
  next hno =>
    rw [if_pos hno]
    cases h
    rfl
  next hheap =>
    obtain ⟨_, hassert, h⟩ := bind_eq_ok.mp h
    obtain ⟨allBlocks, hcollect, h⟩ := bind_eq_ok.mp h
    obtain ⟨s, hloop, h⟩ := bind_eq_ok.mp h
    obtain ⟨_, _, h⟩ := bind_eq_ok.mp h
    cases h
    rw [if_neg hheap, if_pos (assertThat_ok hassert), hcollect]
    dsimp only
    exact copiedLoop_eq (s := ⟨fdPos, 0, buf⟩) rfl rfl hloop

/-- THE COUNT. What `file_read` answers is the number of bytes that it has copied; none for −1. -/
theorem copied_eq {heap : Bool} {p : Part sb} {inode : Inode} {fdPos count : Nat} {buf : Buf}
    {r : ReadResult} (h : fileRead heap p inode fdPos buf count = .ok r) :
    copied heap p inode fdPos count = r.ret.getD 0 := by
  unfold fileRead at h
  unfold copied
  split at h
  next hbeyond =>
    rw [if_pos hbeyond]
    dsimp only at h
    split at h
    next h0 =>
      cases h
      rw [h0]
      unfold copiedSized
      split
      · rfl
      · split
        · split
          · rfl
          · rfl
        · rfl
    next => exact copiedSized_eq h
  next hwithin =>
    rw [if_neg hwithin]
    exact copiedSized_eq h

end SeekingOs.Exec
