import SeekingOs.Kernel.Release

/-!
# `fork` and the address space

`sys_fork` with what it does to the memory: the pages of the child's task structure, of its bitmap
of virtual addresses and of its page directory, and the copy of the parent's pages through one page
of the kernel, for which the directory is switched to the child's and back with every page.

The run queues and the open files are not part of this state.
-/

namespace SeekingOs

open Lib

namespace Memory

variable (m : Memory)

/-- `page_dir_activate`; `pgdir` is the page of the task's directory, if it has one. -/
def pageDirActivate (pgdir : Option Nat) : Except Fault Memory :=
  match pgdir with
  | none => .ok { m with cr3 := kernelDir }
  | some v => do
    let pageDirPhyaddr ← m.addrV2p v
    return { m with cr3 := pageDirPhyaddr }

/-- The words of a new directory: the upper quarter of the one that is running. -/
def copyHigh (high own : Nat → Nat) (i : Nat) : Nat := if 768 ≤ i ∧ i < 1024 then high i else own i

/-- `create_page_dir`, after the page is there -/
def initPageDir (v : Nat) : Except Fault Memory := do
  let high ← m.readPage "create_page_dir" (pdePtr 0).1
  let own ← m.readPage "create_page_dir" v
  let m ← m.writePage "create_page_dir" v (copyHigh high own)
  let newPageDirPhyaddr ← m.addrV2p v
  m.write "create_page_dir" (v, 1023) (entryWord newPageDirPhyaddr)

/-- `create_page_dir` -/
def createPageDir : Except Fault (Option Nat × Memory) := do
  let (pageDirVaddr, m) ← m.getKernelPages 1
  match pageDirVaddr with
  | none => return (none, m)
  | some v =>
    let m ← m.initPageDir v
    return (some v, m)

/-- One page is copied, from the parent's directory to the child's. -/
def copyPage (childPgdir parentPgdir bufPage progVaddr : Nat) : Except Fault Memory := do
  let words ← m.readPage "copy_body_stack3" progVaddr
  let m ← m.writePage "copy_body_stack3" bufPage words
  let m ← m.pageDirActivate (some childPgdir)
  let (_, m) ← m.getAPageWithoutOpvaddrbitmap .user progVaddr
  let words ← m.readPage "copy_body_stack3" bufPage
  let m ← m.writePage "copy_body_stack3" progVaddr words
  m.pageDirActivate (some parentPgdir)

/-- A turn of the inner loop of `copy_body_stack3`. -/
def copyBit (childPgdir parentPgdir bufPage idxByte : Nat) (byte : Byte) (idxBit : Nat)
    (m : Memory) : Except Fault Memory :=
  if (1#8 <<< idxBit) &&& byte != 0#8 then
    m.copyPage childPgdir parentPgdir bufPage (userVaddrStart + (idxByte * 8 + idxBit))
  else .ok m

/-- A turn of the outer loop. -/
def copyByte (childPgdir parentPgdir bufPage : Nat) (vaddrBitmap : Bitmap) (idxByte : Nat)
    (m : Memory) : Except Fault Memory :=
  let byte := vaddrBitmap.bits.getD idxByte 0
  if byte != 0#8 then upTo (copyBit childPgdir parentPgdir bufPage idxByte byte) 8 m else .ok m

/-- `copy_body_stack3` -/
def copyBodyStack3 (childPgdir parentPgdir bufPage : Nat) (vaddrBitmap : Bitmap) :
    Except Fault Memory :=
  upTo (copyByte childPgdir parentPgdir bufPage vaddrBitmap) vaddrBitmap.btmpBytesLen m

end Memory

/-- What a task structure says about the memory of a process. -/
structure Proc where
  /-- The page that it is in. -/
  pcb : Nat
  name : List Char
  pgdir : Nat
  /-- `userprog_vaddr.vaddr_bitmap.bits` -/
  vaddrBits : Nat
  vaddrBitmap : Bitmap

/-- The pages of a bitmap of user addresses. -/
def bitmapPgCnt : Nat := divRoundUp ((kernelStart - userVaddrStart) / 8) 4096

namespace Memory

variable (m : Memory)

/-- `copy_pcb_vaddrbitmap_stack0`; the child has no directory yet. Through `NULL` the copy would
fault. -/
def copyPcbVaddrbitmapStack0 (childThread : Nat) (parentThread : Proc) :
    Except Fault (Proc × Memory) := do
  let (vaddrBitmap, m) ← m.getKernelPages bitmapPgCnt
  match vaddrBitmap with
  | none => throw (.pageFault "copy_pcb_vaddrbitmap_stack0")
  | some vaddrBits =>
    assertThat false (parentThread.name.length < 11) "copy_pcb_vaddrbitmap_stack0"
      "strlen(child_thread->name) < 11"
    return ({ parentThread with
      pcb := childThread, name := parentThread.name ++ ['_', 'f', 'o', 'r', 'k'], vaddrBits }, m)

/-- `copy_process`, with the buffer page; `none` is −1. -/
def copyProcess (childThread bufPage : Nat) (parentThread : Proc) :
    Except Fault (Option Proc × Memory) := do
  let (child, m) ← m.copyPcbVaddrbitmapStack0 childThread parentThread
  let (pgdir, m) ← m.createPageDir
  match pgdir with
  | none => return (none, m)
  | some pgdir =>
    let m ← m.copyBodyStack3 pgdir parentThread.pgdir bufPage parentThread.vaddrBitmap
    let m ← m.mfreePage .kernel bufPage 1
    return (some { child with pgdir }, m)

/-- `sys_fork`, called by the process `parentThread`; `none` is −1. -/
def sysFork (parentThread : Proc) : Except Fault (Option Proc × Memory) := do
  let (childThread, m) ← m.getKernelPages 1
  match childThread with
  | none => return (none, m)
  | some childThread =>
    let (bufPage, m) ← m.getKernelPages 1
    match bufPage with
    | none => return (none, m)
    | some bufPage => m.copyProcess childThread bufPage parentThread

end Memory

end SeekingOs
