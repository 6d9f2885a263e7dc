import Mathlib.Data.List.Find
import SeekingOs.Fs.FailedWrite
import SeekingOs.Fs.OpenLeaks

/-!
# `file_create` and `sys_mkdir` in a build with `NDEBUG`, and what they roll back

Both take an inode and blocks, insert an entry into the parent directory, and when a step fails go
through a `switch` that undoes the earlier ones. Left out there are the block of a new directory,
and everything when `pcb_fd_install` finds no descriptor. `sync_dir_entry` itself, short of a second
block for the indirect table, clears the bit of the first one in memory and not on the disk. The
functions are those of the other build without their assertions; what the path search answers is an
argument.
-/

namespace SeekingOs.Fs.NoDebug

open Lib

variable {sb : SuperBlock}

/-! ## `sync_dir_entry` -/

/-- The case `block_idx == 12` of `sync_dir_entry`: `tableLba` becomes the indirect table. -/
def syncNewTable (p : Part sb) (dirInode : Inode) (allBlocks : Blocks) (tableLba : Nat)
    (pDe ioBuf : Buf) : Except Fault (DirResult sb) := do
  let dirInode := dirInode.setSector 12 tableLba
  match ← blockBitmapAlloc p with
  | none => return (false, p.setBlock (blockBit sb tableLba) false, dirInode.setSector 12 0)
  | some (blockLba, p) =>
    let p := blockBitmapSync p (blockBit sb blockLba)
    let p := writeTable p (dirInode.iSectors 12) (Function.update allBlocks 12 blockLba)
    return syncNewEntry p dirInode blockLba pDe ioBuf

/-- A block that the directory does not have yet. -/
def syncNewBlock (p : Part sb) (dirInode : Inode) (allBlocks : Blocks) (blockIdx : Nat)
    (pDe ioBuf : Buf) : Except Fault (DirResult sb) := do
  match ← blockBitmapAlloc p with
  | none => return (false, p, dirInode)
  | some (blockLba, p) =>
    let p := blockBitmapSync p (blockBit sb blockLba)
    if blockIdx < 12 then
      return syncNewEntry p (dirInode.setSector blockIdx blockLba) blockLba pDe ioBuf
    else if blockIdx = 12 then syncNewTable p dirInode allBlocks blockLba pDe ioBuf
    else
      let p := writeTable p (dirInode.iSectors 12) (Function.update allBlocks blockIdx blockLba)
      return syncNewEntry p dirInode blockLba pDe ioBuf

/-- The loop of `sync_dir_entry` over the blocks. -/
def syncBlocks (p : Part sb) (dirInode : Inode) (allBlocks : Blocks) (pDe ioBuf : Buf) :
    List Nat → Except Fault (DirResult sb)
  | [] => return (false, p, dirInode)
  | blockIdx :: rest =>
    if allBlocks blockIdx = 0 then syncNewBlock p dirInode allBlocks blockIdx pDe ioBuf
    else
      let buf := ideRead p (allBlocks blockIdx) ioBuf 1
      match findFree buf with
      | some i =>
        return (true, ideWrite p (allBlocks blockIdx)
          (memcpy buf (dirEntrySize * i) pDe dirEntrySize) 1, dirInode.grow)
      | none => syncBlocks p dirInode allBlocks pDe buf rest

/-- `sync_dir_entry` -/
def syncDirEntry (p : Part sb) (dirInode : Inode) (pDe ioBuf : Buf) : Except Fault (DirResult sb) :=
  syncBlocks p dirInode (directBlocks dirInode) pDe ioBuf (List.range 140)

/-! ## `file_create` and `sys_mkdir` -/

/-- `inode_bitmap_alloc`; `none` is −1. -/
def inodeBitmapAlloc (p : Part sb) : Except Fault (Option (Nat × Part sb)) := do
  let bitIdx ← bitmapScan true p.inodeBitmap 1
  return bitIdx.map fun bitIdx => (bitIdx, p.setInode bitIdx true)

/-- `inode_sync` -/
def inodeSync (p : Part sb) (inode : Inode) (ioBuf : Buf) : Part sb :=
  let offSize := inode.iNo * inodeBytesLen
  let secLba := sb.inodeTableLba + offSize / sectorSize
  let secCnt := if sectorSize - offSize % sectorSize < inodeBytesLen then 2 else 1
  ideWrite p secLba (memcpy (ideRead p secLba ioBuf secCnt) (offSize % sectorSize)
    (inodeBytes inode) inodeBytesLen) secCnt

/-- The mounted partition, the inode of the parent directory, `file_table`, and the `fd_table` of
the caller. -/
structure MakeState (sb : SuperBlock) where
  part : Part sb
  parent : Inode
  file : Nat → File
  fdTable : Nat → Int

namespace MakeState

variable (s : MakeState sb)

/-- `get_free_slot_in_global` -/
def getFreeSlotInGlobal : Option Nat :=
  (List.range' 3 29).find? fun fdIdx => (s.file fdIdx).fdInode == none

/-- The loop of `pcb_fd_install`: the first free entry from 3 on. -/
def freeLocalFd : Option Nat := (List.range' 3 5).find? fun localFdIdx => s.fdTable localFdIdx == -1

/-- `pcb_fd_install` -/
def pcbFdInstall (globalFdIdx : Nat) : Int × MakeState sb :=
  match s.freeLocalFd with
  | some localFdIdx =>
    (localFdIdx, { s with fdTable := Function.update s.fdTable localFdIdx globalFdIdx })
  | none => (-1, s)

end MakeState

/-- `file_create`; `newFileInode` is what `sys_malloc` answers for the inode. -/
def fileCreate (ioBuf : Bool) (newFileInode : Option Nat) (s : MakeState sb) (name : Name)
    (flag : Nat) : Except Fault (Int × MakeState sb) :=
  if ioBuf = false then .ok (-1, s)
  else do
    match ← inodeBitmapAlloc s.part with
    | none => return (-1, s)
    | some (inodeNo, p) =>
      match newFileInode with
      | none => return (-1, { s with part := p.setInode inodeNo false })
      | some newFileInode =>
        match s.getFreeSlotInGlobal with
        | none => return (-1, { s with part := p.setInode inodeNo false })
        | some fdIdx =>
          let file := Function.update s.file fdIdx ⟨0, flag, some newFileInode⟩
          match ← syncDirEntry p s.parent (entryBuf name inodeNo ftRegular) zeros with
          | (false, p, parent) =>
            return (-1,
              { s with
                part := p.setInode inodeNo false, parent,
                file := Function.update file fdIdx ⟨0, 0, none⟩ })
          | (true, p, parent) =>
            let p := inodeSync p parent zeros
            let p := inodeSync p (inodeInit inodeNo) zeros
            return { s with part := inodeBitmapSync p inodeNo, parent, file }.pcbFdInstall fdIdx

/-- The block of a new directory, with `.` and `..` in it; `none` is −1. -/
def newDirBlock (p : Part sb) (inodeNo parentNo : Nat) : Except Fault (Option (Nat × Part sb)) := do
  match ← blockBitmapAlloc p with
  | none => return none
  | some (blockLba, p) =>
    let p := blockBitmapSync p (blockBit sb blockLba)
    return some (blockLba, ideWrite p blockLba (dotEntries inodeNo parentNo) 1)

/-- `sys_mkdir`; `missing` says that all names of the path but the last one are found. -/
def sysMkdir (ioBuf missing : Bool) (s : MakeState sb) (dirname : Name) :
    Except Fault (Int × MakeState sb) :=
  if ioBuf = false then .ok (-1, s)
  else if missing = false then .ok (-1, s)
  else do
    match ← inodeBitmapAlloc s.part with
    | none => return (-1, s)
    | some (inodeNo, p) =>
      match ← newDirBlock p inodeNo s.parent.iNo with
      | none => return (-1, { s with part := p.setInode inodeNo false })
      | some (blockLba, p) =>
        let newDirInode :=
          { (inodeInit inodeNo).setSector 0 blockLba with iSize := 2 * dirEntrySize }
        match ← syncDirEntry p s.parent (entryBuf dirname inodeNo ftDirectory) zeros with
        | (false, p, parent) => return (-1, { s with part := p.setInode inodeNo false, parent })
        | (true, p, parent) =>
          let p := inodeSync p parent zeros
          let p := inodeSync p newDirInode zeros
          return (0, { s with part := inodeBitmapSync p inodeNo, parent })

variable {p p' : Part sb} {inode inode' : Inode} {i n : Nat}

/-! ## Where no assertion fails the builds agree -/

theorem dirBlockAlloc_agrees {r : Option (Nat × Part sb)} (h : dirBlockAlloc p = .ok r) :
    ∃ a, blockBitmapAlloc p = .ok a ∧
      r = a.map fun x => (x.1, blockBitmapSync x.2 (blockBit sb x.1)) := by
  unfold dirBlockAlloc at h
  obtain ⟨a, halloc, h⟩ := bind_eq_ok.mp h
  refine ⟨a, blockBitmapAlloc_agrees halloc, ?_⟩
  cases a with
  | none =>
    cases h
    rfl
  | some x =>
    obtain ⟨_, _, h⟩ := bind_eq_ok.mp h
    cases h
    rfl

theorem syncNewTable_agrees {allBlocks : Blocks} {t : Nat} {pDe ioBuf : Buf} {r : DirResult sb}
    (h : Fs.syncNewTable p inode allBlocks t pDe ioBuf = .ok r) :
    syncNewTable p inode allBlocks t pDe ioBuf = .ok r := by
  unfold Fs.syncNewTable at h
  obtain ⟨x, halloc, h⟩ := bind_eq_ok.mp h
  obtain ⟨a, ha, rfl⟩ := dirBlockAlloc_agrees halloc
  unfold syncNewTable
  dsimp only
  rw [ha, ok_bind]
  cases a with
  | none => exact h
  | some x => exact h

theorem syncNewBlock_agrees {allBlocks : Blocks} {k : Nat} {pDe ioBuf : Buf} {r : DirResult sb}
    (h : Fs.syncNewBlock p inode allBlocks k pDe ioBuf = .ok r) :
    syncNewBlock p inode allBlocks k pDe ioBuf = .ok r := by
  unfold Fs.syncNewBlock at h
  obtain ⟨x, halloc, h⟩ := bind_eq_ok.mp h
  obtain ⟨a, ha, rfl⟩ := dirBlockAlloc_agrees halloc
  unfold syncNewBlock
  rw [ha, ok_bind]
  cases a with
  | none => exact h
  | some x =>
    dsimp only [Option.map_some] at h ⊢
    split at h
    next hk =>
      rw [if_pos hk]
      exact h
    next hk =>
      rw [if_neg hk]
      split at h
      next h12 =>
        rw [if_pos h12]
        exact syncNewTable_agrees h
      next h12 =>
        rw [if_neg h12]
        exact h

theorem syncBlocks_agrees {allBlocks : Blocks} {pDe ioBuf : Buf} {ks : List Nat} {r : DirResult sb}
    (h : Fs.syncBlocks p inode allBlocks pDe ioBuf ks = .ok r) :
    syncBlocks p inode allBlocks pDe ioBuf ks = .ok r := by
  induction ks generalizing ioBuf with
  | nil => exact h
  | cons k ks ih =>
    unfold Fs.syncBlocks at h
    unfold syncBlocks
    split at h
    next h0 =>
      rw [if_pos h0]
      exact syncNewBlock_agrees h
    next h0 =>
      rw [if_neg h0]
      dsimp only at h ⊢
      cases hfree : findFree (ideRead p (allBlocks k) ioBuf 1) with
      | some i =>
        rw [hfree] at h
        exact h
      | none =>
        rw [hfree] at h
        exact ih h

/-- THE TWO BUILDS AGREE on an insertion where the one with assertions comes to an end. -/
theorem syncDirEntry_agrees {pDe ioBuf : Buf} {r : DirResult sb}
    (h : Fs.syncDirEntry p inode pDe ioBuf = .ok r) : syncDirEntry p inode pDe ioBuf = .ok r := by
  obtain ⟨_, _, h⟩ := bind_eq_ok.mp h
  exact syncBlocks_agrees h

theorem inodeSync_agrees {ioBuf : Buf} (h : Fs.inodeSync p inode ioBuf = .ok p') :
    inodeSync p inode ioBuf = p' := by
  obtain ⟨pos, hpos, h⟩ := bind_eq_ok.mp h
  obtain ⟨_, _, hpos⟩ := bind_eq_ok.mp hpos
  cases hpos
  obtain ⟨_, _, h⟩ := bind_eq_ok.mp h
  cases h
  unfold inodeSync
  simp

/-! ## The functions, step by step -/

section

variable {s : MakeState sb} {name : Name} {flag newFileInode g b : Nat} {p₁ p₂ : Part sb}
  {parent : Inode}

/-- The inode of a new directory. -/
def newDirInode (inodeNo blockLba : Nat) : Inode :=
  { (inodeInit inodeNo).setSector 0 blockLba with iSize := 2 * dirEntrySize }

theorem sysMkdir_done (hino : inodeBitmapAlloc s.part = .ok (some (n, p)))
    (hnew : newDirBlock p n s.parent.iNo = .ok (some (b, p₁)))
    (hsync : syncDirEntry p₁ s.parent (entryBuf name n ftDirectory) zeros = .ok
      (true, p₂, parent)) :
    sysMkdir true true s name =
      .ok (0,
        { s with
          part := inodeBitmapSync (inodeSync (inodeSync p₂ parent zeros) (newDirInode n b) zeros) n,
          parent }) := by
  unfold sysMkdir
  rw [if_neg Bool.noConfusion, if_neg Bool.noConfusion, hino, ok_bind]
  dsimp only
  rw [hnew, ok_bind]
  dsimp only
  rw [hsync]
  rfl

theorem sysMkdir_undone (hino : inodeBitmapAlloc s.part = .ok (some (n, p)))
    (hnew : newDirBlock p n s.parent.iNo = .ok (some (b, p₁)))
    (hsync : syncDirEntry p₁ s.parent (entryBuf name n ftDirectory) zeros = .ok
      (false, p₂, parent)) :
    sysMkdir true true s name = .ok (-1, { s with part := p₂.setInode n false, parent }) := by
  unfold sysMkdir
  rw [if_neg Bool.noConfusion, if_neg Bool.noConfusion, hino, ok_bind]
  dsimp only
  rw [hnew, ok_bind]
  dsimp only
  rw [hsync]
  rfl

theorem fileCreate_done (hino : inodeBitmapAlloc s.part = .ok (some (n, p)))
    (hslot : s.getFreeSlotInGlobal = some g)
    (hsync : syncDirEntry p s.parent (entryBuf name n ftRegular) zeros = .ok (true, p₂, parent)) :
    fileCreate true (some newFileInode) s name flag =
      .ok (MakeState.pcbFdInstall
        { s with
          part := inodeBitmapSync (inodeSync (inodeSync p₂ parent zeros) (inodeInit n) zeros) n
          parent
          file := Function.update s.file g ⟨0, flag, some newFileInode⟩ } g) := by
  unfold fileCreate
  rw [if_neg Bool.noConfusion, hino, ok_bind]
  dsimp only
  rw [hslot]
  dsimp only
  rw [hsync]
  rfl

theorem fileCreate_undone (hino : inodeBitmapAlloc s.part = .ok (some (n, p)))
    (hslot : s.getFreeSlotInGlobal = some g)
    (hsync : syncDirEntry p s.parent (entryBuf name n ftRegular) zeros = .ok (false, p₂, parent)) :
    fileCreate true (some newFileInode) s name flag =
      .ok (-1,
        { s with
          part := p₂.setInode n false, parent,
          file := Function.update s.file g ⟨0, 0, none⟩ }) := by
  unfold fileCreate
  rw [if_neg Bool.noConfusion, hino, ok_bind]
  dsimp only
  rw [hslot]
  dsimp only
  rw [hsync, ok_bind]
  dsimp only
  rw [Function.update_idem]
  rfl

/-- THE TWO BUILDS AGREE on the making of a directory. -/
theorem sysMkdir_agrees {new : Inode}
    (h : Fs.sysMkdir s.part s.parent name = .ok (some (p', inode', new))) :
    sysMkdir true true s name = .ok (0, { s with part := p', parent := inode' }) := by
  unfold Fs.sysMkdir at h
  obtain ⟨x, halloc, h⟩ := bind_eq_ok.mp h
  obtain ⟨i, hscan, halloc⟩ := bind_eq_ok.mp halloc
  cases halloc
  have hino : inodeBitmapAlloc s.part =
      .ok (i.map fun bitIdx => (bitIdx, s.part.setInode bitIdx true)) := by
    unfold inodeBitmapAlloc
    rw [bitmapScan_agrees hscan]
    rfl
  cases i with
  | none => cases h
  | some n =>
    obtain ⟨x, halloc, h⟩ := bind_eq_ok.mp h
    cases x with
    | none => cases h
    | some x =>
      obtain ⟨_, _, h⟩ := bind_eq_ok.mp h
      obtain ⟨pDe, hcreate, h⟩ := bind_eq_ok.mp h
      obtain ⟨_, _, hcreate⟩ := bind_eq_ok.mp hcreate
      cases hcreate
      obtain ⟨⟨done, p₁, parent⟩, hsync, h⟩ := bind_eq_ok.mp h
      obtain rfl := syncDirEntry_true hsync
      obtain ⟨p₂, hparent, h⟩ := bind_eq_ok.mp h
      obtain ⟨p₃, hnew, h⟩ := bind_eq_ok.mp h
      cases h
      have hblock : newDirBlock (s.part.setInode n true) n s.parent.iNo =
          .ok (some (x.1, ideWrite (blockBitmapSync x.2 (blockBit sb x.1)) x.1
            (dotEntries n s.parent.iNo) 1)) := by
        unfold newDirBlock
        rw [blockBitmapAlloc_agrees halloc]
        rfl
      rw [sysMkdir_done hino hblock (syncDirEntry_agrees hsync), inodeSync_agrees hparent]
      have hlast : inodeSync p₂ (newDirInode n x.1) zeros = p₃ := inodeSync_agrees hnew
      rw [hlast]

end

/-! ## The blocks that an insertion takes -/

theorem findFree_sector (p : Part sb) (b : Nat) (buf : Buf) :
    findFree (ideRead p b buf 1) = findFree (sector p b) := by
  apply List.find?_congr
  intro i hi
  rw [ideRead_entry buf (List.mem_range.mp hi)]
  rfl

/-- How many blocks the insertion of an entry takes, from a block of the directory on. -/
def blocksNeeded (p : Part sb) (allBlocks : Blocks) : List Nat → Nat
  | [] => 0
  | blockIdx :: rest =>
    if allBlocks blockIdx = 0 then if blockIdx = 12 then 2 else 1
    else
      match findFree (sector p (allBlocks blockIdx)) with
      | some _ => 0
      | none => blocksNeeded p allBlocks rest

/-- How many blocks `sync_dir_entry` takes. -/
def insertNeeds (p : Part sb) (dirInode : Inode) : Nat :=
  blocksNeeded p (directBlocks dirInode) (List.range 140)

theorem blocksNeeded_le {allBlocks : Blocks} {ks : List Nat} : blocksNeeded p allBlocks ks ≤ 2 := by
  induction ks with
  | nil => exact Nat.zero_le 2
  | cons k ks ih =>
    unfold blocksNeeded
    split
    · split
      · exact Nat.le_refl 2
      · exact Nat.le_succ 1
    · split
      · exact Nat.zero_le 2
      · exact ih

/-- Only the blocks of the directory matter. -/
theorem insertNeeds_sectors {dirInode : Inode} (h : ∀ k < 12, dirInode.iSectors k ≠ 0 →
      ∀ off < 512, sector p' (dirInode.iSectors k) off = sector p (dirInode.iSectors k) off) :
    insertNeeds p' dirInode = insertNeeds p dirInode := by
  unfold insertNeeds
  generalize List.range 140 = ks
  induction ks with
  | nil => rfl
  | cons k ks ih =>
    unfold blocksNeeded
    split
    next => rfl
    next h0 =>
      have hk : k < 12 := by
        by_contra hge
        exact h0 (if_neg hge)
      have hblock : directBlocks dirInode k = dirInode.iSectors k := if_pos hk
      rw [hblock] at h0 ⊢
      have hfree : findFree (sector p' (dirInode.iSectors k)) =
          findFree (sector p (dirInode.iSectors k)) := by
        apply List.find?_congr
        intro i hi
        have hentry : dirEntryAt (sector p' (dirInode.iSectors k)) (dirEntrySize * i) =
            dirEntryAt (sector p (dirInode.iSectors k)) (dirEntrySize * i) := by
          apply dirEntryAt_congr
          intro j hj
          have hi' := List.mem_range.mp hi
          apply h k hk h0
          unfold dirEntrysPerSec at hi'
          unfold dirEntrySize
          omega
        rw [hentry]
      rw [hfree, ih]

theorem insertNeeds_disk (h : p'.disk = p.disk) (dirInode : Inode) :
    insertNeeds p' dirInode = insertNeeds p dirInode := by
  apply insertNeeds_sectors
  intro k _ _ off _
  unfold sector
  rw [h]

/-- A free bit that is taken and cleared again. -/
theorem bitmapSet_undo {b : Bitmap} (hi : i < b.size) (hclear : b.test i = false) :
    bitmapSet (bitmapSet b i true) i false = b := by
  apply Bitmap.ext_test
  · unfold bitmapSet
    rw [List.length_set, List.length_set]
  · intro j hj
    rw [test_bitmapSet (by rwa [size_bitmapSet]), test_bitmapSet hi]
    by_cases hji : j = i
    · rw [if_pos hji, hji, hclear]
    · rw [if_neg hji, if_neg hji]

/-- The block that is taken, by its bit. -/
theorem blockBitmapAlloc_bit (h : 0 < freeCount p) :
    ∃ i ∈ freeBits p, blockBitmapAlloc p = .ok (some (sb.dataStartLba + i, p.setBlock i true)) ∧
      blockBit sb (sb.dataStartLba + i) = i ∧
      Allocated p (sb.dataStartLba + i) (blockBitmapSync (p.setBlock i true) i) := by
  obtain ⟨b, p₁, halloc, alloc⟩ := blockBitmapAlloc_total h
  obtain ⟨x, hscan, hx⟩ := bind_eq_ok.mp halloc
  cases x with
  | none => cases hx
  | some i =>
    cases hx
    have hbit : blockBit sb (sb.dataStartLba + i) = i := by
      rw [blockBit_eq alloc.self]
      omega
    rw [hbit] at alloc
    refine ⟨i, ?_, blockBitmapAlloc_agrees halloc, hbit, alloc⟩
    rw [mem_freeBits]
    refine ⟨?_, alloc.free⟩
    have hlt := alloc.self.lt
    omega

/-- How an insertion fails: without a change, or, when a block is there for the indirect table and
none for the entry, with the bit of that block synced and then cleared in memory. -/
inductive Refused (p : Part sb) (inode : Inode) : Part sb → Inode → Prop where
  | noBlock : freeCount p = 0 → Refused p inode p inode
  | noSecond (i : Nat) : i ∈ freeBits p → freeCount p = 1 →
    Refused p inode ((blockBitmapSync (p.setBlock i true) i).setBlock i false)
      (inode.setSector 12 0)

/-- Too few blocks. -/
theorem syncNewBlock_short {allBlocks : Blocks} {k : Nat} {pDe ioBuf : Buf}
    (few : freeCount p < if k = 12 then 2 else 1) :
    ∃ p' inode', syncNewBlock p inode allBlocks k pDe ioBuf = .ok (false, p', inode') ∧
      Refused p inode p' inode' := by
  unfold syncNewBlock
  by_cases h0 : freeCount p = 0
  · rw [blockBitmapAlloc_none h0]
    exact ⟨p, inode, rfl, .noBlock h0⟩
  · have h12 : k = 12 := by
      by_contra hne
      rw [if_neg hne] at few
      omega
    rw [if_pos h12] at few
    obtain ⟨i, hi, halloc, hbit, alloc⟩ := blockBitmapAlloc_bit (Nat.pos_of_ne_zero h0)
    have hleft := alloc.freeCount
    have hnone : freeCount (blockBitmapSync (p.setBlock i true) i) = 0 := by omega
    rw [halloc, ok_bind]
    dsimp only
    rw [if_neg (by omega), if_pos h12, hbit]
    unfold syncNewTable
    rw [blockBitmapAlloc_none hnone, ok_bind, hbit]
    refine ⟨_, _, rfl, ?_⟩
    have hzero : (inode.setSector 12 (sb.dataStartLba + i)).setSector 12 0 =
        inode.setSector 12 0 := by
      unfold Inode.setSector
      rw [Function.update_idem]
    rw [hzero]
    exact .noSecond i hi (by omega)

/-- Enough blocks. -/
theorem syncNewBlock_fits {allBlocks : Blocks} {k : Nat} {pDe ioBuf : Buf}
    (enough : (if k = 12 then 2 else 1) ≤ freeCount p) :
    ∃ p' inode', syncNewBlock p inode allBlocks k pDe ioBuf = .ok (true, p', inode') := by
  have hpos : 0 < freeCount p := by
    split at enough
    · omega
    · omega
  obtain ⟨i, hi, halloc, hbit, alloc⟩ := blockBitmapAlloc_bit hpos
  have hleft := alloc.freeCount
  unfold syncNewBlock
  rw [halloc, ok_bind]
  dsimp only
  rw [hbit]
  by_cases hk : k < 12
  · rw [if_pos hk]
    exact ⟨_, _, rfl⟩
  rw [if_neg hk]
  by_cases h12 : k = 12
  · rw [if_pos h12] at enough ⊢
    obtain ⟨j, -, halloc₂, -, -⟩ :=
      blockBitmapAlloc_bit (p := blockBitmapSync (p.setBlock i true) i) (by omega)
    unfold syncNewTable
    rw [halloc₂]
    exact ⟨_, _, rfl⟩
  · rw [if_neg h12]
    exact ⟨_, _, rfl⟩

theorem syncBlocks_short {allBlocks : Blocks} {pDe ioBuf : Buf} {ks : List Nat}
    (few : freeCount p < blocksNeeded p allBlocks ks) :
    ∃ p' inode', syncBlocks p inode allBlocks pDe ioBuf ks = .ok (false, p', inode') ∧
      Refused p inode p' inode' := by
  induction ks generalizing ioBuf with
  | nil => cases few
  | cons k ks ih =>
    unfold blocksNeeded at few
    unfold syncBlocks
    by_cases h0 : allBlocks k = 0
    · rw [if_pos h0] at few ⊢
      exact syncNewBlock_short few
    · rw [if_neg h0] at few ⊢
      dsimp only
      rw [findFree_sector]
      cases hfree : findFree (sector p (allBlocks k)) with
      | some i =>
        rw [hfree] at few
        cases few
      | none =>
        rw [hfree] at few
        exact ih few

theorem syncBlocks_fits {allBlocks : Blocks} {pDe ioBuf : Buf} {ks : List Nat}
    (unused : ∃ k ∈ ks, allBlocks k = 0) (enough : blocksNeeded p allBlocks ks ≤ freeCount p) :
    ∃ p' inode', syncBlocks p inode allBlocks pDe ioBuf ks = .ok (true, p', inode') := by
  induction ks generalizing ioBuf with
  | nil =>
    obtain ⟨k, hk, -⟩ := unused
    cases hk
  | cons k ks ih =>
    unfold blocksNeeded at enough
    unfold syncBlocks
    by_cases h0 : allBlocks k = 0
    · rw [if_pos h0] at enough ⊢
      exact syncNewBlock_fits enough
    · rw [if_neg h0] at enough ⊢
      dsimp only
      rw [findFree_sector]
      cases hfree : findFree (sector p (allBlocks k)) with
      | some i => exact ⟨_, _, rfl⟩
      | none =>
        rw [hfree] at enough
        refine ih ?_ enough
        obtain ⟨j, hj, hj0⟩ := unused
        rcases List.mem_cons.mp hj with rfl | hj
        · exact absurd hj0 h0
        · exact ⟨j, hj, hj0⟩

/-- AN INSERTION FAILS exactly when it finds too few blocks. -/
theorem syncDirEntry_short (few : freeCount p < insertNeeds p inode) (pDe ioBuf : Buf) :
    ∃ p' inode', syncDirEntry p inode pDe ioBuf = .ok (false, p', inode') ∧
      Refused p inode p' inode' :=
  syncBlocks_short few

theorem syncDirEntry_fits (enough : insertNeeds p inode ≤ freeCount p) (pDe ioBuf : Buf) :
    ∃ p' inode', syncDirEntry p inode pDe ioBuf = .ok (true, p', inode') := by
  apply syncBlocks_fits
  · exact ⟨12, by decide, if_neg (by decide)⟩
  · exact enough

/-! ## What is left behind -/

/-- The bitmaps in memory and on the disk, the parent's inode and entries, and the table are what
they were. -/
structure RolledBack (s s' : MakeState sb) : Prop where
  blockBitmap : s'.part.blockBitmap = s.part.blockBitmap
  inodeBitmap : s'.part.inodeBitmap = s.part.inodeBitmap
  onDisk : ∀ lba, BitmapSector sb lba → ∀ off < 512, sector s'.part lba off = sector s.part lba off
  iSize : s'.parent.iSize = s.parent.iSize
  iSectors : s'.parent.iSectors = s.parent.iSectors
  entries : entries s'.part s'.parent = entries s.part s.parent
  file : s'.file = s.file

theorem RolledBack.refl (s : MakeState sb) : RolledBack s s :=
  ⟨rfl, rfl, fun _ _ _ _ => rfl, rfl, rfl, rfl, rfl⟩

/-- On the disk the bit is set already, and the other bits of its sector are as in memory. -/
def SetOnDisk (p : Part sb) (bitIdx : Nat) : Prop :=
  ∀ off < 512, sector p (sb.blockBitmapLba + bitIdx / bitsPerSector) off =
    bitmapBuf (bitmapSet p.blockBitmap bitIdx true) (bitIdx / bitsPerSector * sectorSize) off

/-- Where `sync_dir_entry` fails it changes nothing: there is no block at all, or the directory had
no indirect table and the bit that is set and cleared was set on the disk before. -/
def RefusesCleanly (p : Part sb) (dirInode : Inode) : Prop :=
  freeCount p ≠ 0 → dirInode.iSectors 12 = 0 ∧ ∀ i ∈ freeBits p, SetOnDisk p i

/-- WHEN `file_create` UNDOES what it has done, once an inode and a slot of `file_table` are found:
with enough blocks there is a descriptor, with too few `sync_dir_entry` fails cleanly and the slot
was all zero. -/
def CreateUndoes (ioBuf : Bool) (newFileInode : Option Nat) (s : MakeState sb) : Prop :=
  ioBuf = true → newFileInode ≠ none → (∃ n < 4096, s.part.inodeBitmap.test n = false) →
    ∀ g, s.getFreeSlotInGlobal = some g →
    (freeCount s.part < insertNeeds s.part s.parent → RefusesCleanly s.part s.parent ∧
      s.file g = ⟨0, 0, none⟩) ∧
      (insertNeeds s.part s.parent ≤ freeCount s.part → s.freeLocalFd ≠ none)

/-- WHEN `sys_mkdir` UNDOES what it has done: once the block of the new directory is taken there are
enough for the entry. -/
def MkdirUndoes (ioBuf missing : Bool) (s : MakeState sb) : Prop :=
  ioBuf = true → missing = true → ∀ n p, inodeBitmapAlloc s.part = .ok (some (n, p)) →
    ∀ b p₁, newDirBlock p n s.parent.iNo = .ok (some (b, p₁)) →
      insertNeeds p₁ s.parent ≤ freeCount p₁

theorem Refused.bitmaps (h : Refused p inode p' inode') :
    p'.blockBitmap = p.blockBitmap ∧ p'.inodeBitmap = p.inodeBitmap := by
  cases h with
  | noBlock => exact ⟨rfl, rfl⟩
  | noSecond i hi =>
    unfold freeBits at hi
    rw [Finset.mem_filter, Finset.mem_range, ← p.blockSize] at hi
    exact ⟨bitmapSet_undo hi.1 hi.2, rfl⟩

/-- The sector that is written holds what it held. -/
theorem SetOnDisk.disk (h : SetOnDisk p i) :
    (blockBitmapSync (p.setBlock i true) i).disk = p.disk := by
  funext a
  unfold blockBitmapSync ideWrite
  dsimp only
  split
  next ha =>
    have hoff : a - sectorSize * (sb.blockBitmapLba + i / bitsPerSector) < 512 := by
      unfold sectorSize at ha ⊢
      omega
    have hsame := h _ hoff
    unfold sector at hsame
    rw [Nat.add_sub_cancel' ha.1] at hsame
    exact hsame.symm
  next => rfl

theorem entries_disk {p p' : Part sb} (h : p'.disk = p.disk) (inode : Inode) :
    entries p' inode = entries p inode := by
  obtain ⟨disk, blockBitmap, inodeBitmap, written, blockSize, inodeSize⟩ := p'
  obtain rfl : disk = p.disk := h
  rfl

/-- WHAT A REFUSED INSERTION LEAVES BEHIND, when the inode is given back and the slot of
`file_table` cleared. -/
theorem Refused.rolledBack_iff {s : MakeState sb} {n : Nat} (hn : n < 4096)
    (hclear : s.part.inodeBitmap.test n = false)
    (refused : Refused (s.part.setInode n true) s.parent p' inode') (file : Nat → File) :
    RolledBack s { s with part := p'.setInode n false, parent := inode', file } ↔
      RefusesCleanly s.part s.parent ∧ file = s.file := by
  obtain ⟨hblocks, hinodes⟩ := refused.bitmaps
  have hinodes' : (p'.setInode n false).inodeBitmap = s.part.inodeBitmap := by
    rw [setInode_inodeBitmap, hinodes, setInode_inodeBitmap]
    exact bitmapSet_undo (by rwa [s.part.inodeSize]) hclear
  cases refused with
  | noBlock h0 =>
    constructor
    · intro same
      exact ⟨fun hne => absurd h0 hne, same.file⟩
    · rintro ⟨-, hfile⟩
      exact ⟨hblocks, hinodes', fun _ _ _ _ => rfl, rfl, rfl, rfl, hfile⟩
  | noSecond i hi hone =>
    constructor
    · intro same
      refine ⟨fun _ => ⟨?_, fun j hj => ?_⟩, same.file⟩
      · rw [← same.iSectors]
        exact Function.update_self 12 0 s.parent.iSectors
      · -- there is no other free bit
        obtain rfl : j = i := Finset.card_le_one.mp (Nat.le_of_eq hone) j hj i hi
        have hlt : j < 4096 * sb.blockBitmapSects := by
          unfold freeBits at hi
          rw [Finset.mem_filter, Finset.mem_range] at hi
          exact hi.1
        have hsector : BitmapSector sb (sb.blockBitmapLba + j / bitsPerSector) := by
          unfold BitmapSector SuperBlock.inodeTableLba SuperBlock.inodeBitmapLba bitsPerSector
          omega
        intro off hoff
        rw [← same.onDisk _ hsector off hoff]
        exact ideWrite_disk _ hoff
    · rintro ⟨clean, hfile⟩
      obtain ⟨h12, hset⟩ := clean (by
        show freeCount (s.part.setInode n true) ≠ 0
        omega)
      have hdisk :
          (((blockBitmapSync ((s.part.setInode n true).setBlock i true) i).setBlock i
            false).setInode n false).disk =
          s.part.disk := (hset i hi).disk
      have hinode : (s.parent.setSector 12 0) = s.parent := by
        unfold Inode.setSector
        rw [← h12, Function.update_eq_self]
      refine ⟨hblocks, hinodes', fun lba _ off _ => ?_, rfl, ?_, ?_, hfile⟩
      · show Part.disk _ _ = Part.disk _ _
        rw [hdisk]
      · rw [hinode]
      · dsimp only
        rw [entries_disk hdisk, hinode]

/-! ## `file_create` -/

theorem inodeBitmapAlloc_found (h : ∃ n < 4096, p.inodeBitmap.test n = false) :
    ∃ n < 4096, p.inodeBitmap.test n = false ∧
      inodeBitmapAlloc p = .ok (some (n, p.setInode n true)) := by
  obtain ⟨k, hk, hclear⟩ := h
  have total :=
    @bitmapScan_total false p.inodeBitmap 1 (Nat.le_refl 1) ⟨k, by rwa [p.inodeSize], hclear⟩
  obtain ⟨n, hscan, hlt, hfree, -⟩ := bitmapScan_one total
  rw [p.inodeSize] at hlt
  refine ⟨n, hlt, hfree, ?_⟩
  unfold inodeBitmapAlloc
  rw [bitmapScan_agrees total, hscan]
  rfl

theorem inodeBitmapAlloc_none (h : ¬ ∃ n < 4096, p.inodeBitmap.test n = false) :
    inodeBitmapAlloc p = .ok none := by
  have hspec := scanAnswer_spec p.inodeBitmap (Nat.le_refl 1)
  have hnone : scanAnswer p.inodeBitmap 1 = none := by
    cases hs : scanAnswer p.inodeBitmap 1 with
    | none => rfl
    | some k =>
      rw [hs] at hspec
      have hin := hspec.free.1
      rw [p.inodeSize] at hin
      exact absurd ⟨k, by omega, hspec.free.2 k (Nat.le_refl k) (Nat.lt_succ_self k)⟩ h
  show Except.ok ((scanAnswer p.inodeBitmap 1).map _) = _
  rw [hnone]
  rfl

/-- An inode that is taken and given back. -/
theorem rolledBack_setInode {s : MakeState sb} {n : Nat} (hn : n < 4096)
    (hclear : s.part.inodeBitmap.test n = false) :
    RolledBack s { s with part := (s.part.setInode n true).setInode n false } := by
  refine ⟨rfl, ?_, fun _ _ _ _ => rfl, rfl, rfl, rfl, rfl⟩
  exact bitmapSet_undo (by rwa [s.part.inodeSize]) hclear

theorem getFreeSlot_free {s : MakeState sb} {g : Nat} (h : s.getFreeSlotInGlobal = some g) :
    (s.file g).fdInode = none := by
  have hfree := List.find?_some (p := fun fdIdx => (s.file fdIdx).fdInode == none) h
  exact eq_of_beq hfree

/-- WHAT `file_create` UNDOES. -/
theorem fileCreate_undoes (ioBuf : Bool) (newFileInode : Option Nat) (s : MakeState sb)
    (name : Name) (flag : Nat) :
    ∃ ret s', fileCreate ioBuf newFileInode s name flag = .ok (ret, s') ∧
      ((ret = -1 → RolledBack s s') ↔ CreateUndoes ioBuf newFileInode s) := by
  have nothing {s' : MakeState sb} (same : RolledBack s s')
      (h : CreateUndoes ioBuf newFileInode s) :
      ((-1 : Int) = -1 → RolledBack s s') ↔ CreateUndoes ioBuf newFileInode s :=
    iff_of_true (fun _ => same) h
  cases ioBuf with
  | false => exact ⟨-1, s, if_pos rfl, nothing (.refl s) fun h => absurd h Bool.noConfusion⟩
  | true =>
    by_cases hfree : ∃ n < 4096, s.part.inodeBitmap.test n = false
    · obtain ⟨n, hn, hclear, hino⟩ := inodeBitmapAlloc_found hfree
      have given := rolledBack_setInode hn hclear
      cases newFileInode with
      | none =>
        refine ⟨-1, _, ?_, nothing given fun _ h => absurd rfl h⟩
        unfold fileCreate
        rw [if_neg Bool.noConfusion, hino]
        rfl
      | some newFileInode =>
        cases hslot : s.getFreeSlotInGlobal with
        | none =>
          refine ⟨-1, _, ?_, nothing given fun _ _ _ g hg => ?_⟩
          · unfold fileCreate
            rw [if_neg Bool.noConfusion, hino, ok_bind]
            dsimp only
            rw [hslot]
            rfl
          · rw [hslot] at hg
            cases hg
        | some g =>
          have hundoes : CreateUndoes true (some newFileInode) s ↔
              (freeCount s.part < insertNeeds s.part s.parent → RefusesCleanly s.part s.parent ∧
                s.file g = ⟨0, 0, none⟩) ∧
                (insertNeeds s.part s.parent ≤ freeCount s.part → s.freeLocalFd ≠ none) := by
            constructor
            · intro h
              exact h rfl nofun hfree g hslot
            · intro h _ _ _ g' hg'
              rw [hslot] at hg'
              cases hg'
              exact h
          rw [hundoes]
          have hcount : freeCount (s.part.setInode n true) = freeCount s.part := freeCount_congr rfl
          have hneeds : insertNeeds (s.part.setInode n true) s.parent =
              insertNeeds s.part s.parent :=
            insertNeeds_disk setInode_disk s.parent
          by_cases few : freeCount s.part < insertNeeds s.part s.parent
          · obtain ⟨p', parent, hsync, refused⟩ :=
              @syncDirEntry_short sb (s.part.setInode n true) s.parent (by omega)
              (entryBuf name n ftRegular) zeros
            refine ⟨-1, _, fileCreate_undone hino hslot hsync, ?_⟩
            rw [refused.rolledBack_iff hn hclear, Function.update_eq_self_iff]
            constructor
            · intro h
              exact ⟨fun _ => ⟨(h rfl).1, (h rfl).2.symm⟩, fun enough =>
                absurd few (Nat.not_lt_of_le enough)⟩
            · intro h _
              exact ⟨(h.1 few).1, (h.1 few).2.symm⟩
          · obtain ⟨p', parent, hsync⟩ :=
              @syncDirEntry_fits sb (s.part.setInode n true) s.parent (by omega)
              (entryBuf name n ftRegular) zeros
            have hdone :=
              @fileCreate_done sb _ n s name flag newFileInode g p' parent hino hslot hsync
            unfold MakeState.pcbFdInstall MakeState.freeLocalFd at hdone
            cases hfd : s.freeLocalFd with
            | none =>
              unfold MakeState.freeLocalFd at hfd
              dsimp only at hdone
              rw [hfd] at hdone
              refine ⟨_, _, hdone, ?_⟩
              apply iff_of_false
              · intro same
                -- the slot is in use now
                have hfile := congrArg File.fdInode (congrFun (same rfl).file g)
                dsimp only at hfile
                rw [Function.update_self, getFreeSlot_free hslot] at hfile
                cases hfile
              · intro h
                exact h.2 (Nat.le_of_not_lt few) rfl
            | some i =>
              unfold MakeState.freeLocalFd at hfd
              dsimp only at hdone
              rw [hfd] at hdone
              refine ⟨_, _, hdone, ?_⟩
              apply iff_of_true
              · intro hret
                exfalso
                omega
              · exact ⟨fun h => absurd h few, fun _ => Option.some_ne_none i⟩
    · refine ⟨-1, s, ?_, nothing (.refl s) fun _ _ h => absurd h hfree⟩
      unfold fileCreate
      rw [if_neg Bool.noConfusion, inodeBitmapAlloc_none hfree]
      rfl

/-! ## `sys_mkdir` -/

/-- The block of a new directory. -/
theorem newDirBlock_some (h : 0 < freeCount p) (n parentNo : Nat) :
    ∃ b p₁, newDirBlock p n parentNo = .ok (some (b, ideWrite p₁ b (dotEntries n parentNo) 1)) ∧
      Allocated p b p₁ := by
  obtain ⟨b, p₁, halloc, alloc⟩ := blockBitmapAlloc_some h
  refine ⟨b, _, ?_, alloc⟩
  unfold newDirBlock
  rw [halloc]
  rfl

theorem newDirBlock_none (h : freeCount p = 0) (n parentNo : Nat) :
    newDirBlock p n parentNo = .ok none := by
  unfold newDirBlock
  rw [blockBitmapAlloc_none h]
  rfl

/-- WHAT `sys_mkdir` UNDOES. -/
theorem sysMkdir_undoes (ioBuf missing : Bool) (s : MakeState sb) (dirname : Name) :
    ∃ ret s', sysMkdir ioBuf missing s dirname = .ok (ret, s') ∧
      ((ret = -1 → RolledBack s s') ↔ MkdirUndoes ioBuf missing s) := by
  have nothing {s' : MakeState sb} (same : RolledBack s s') (h : MkdirUndoes ioBuf missing s) :
      ((-1 : Int) = -1 → RolledBack s s') ↔ MkdirUndoes ioBuf missing s :=
    iff_of_true (fun _ => same) h
  cases ioBuf with
  | false => exact ⟨-1, s, if_pos rfl, nothing (.refl s) fun h => absurd h Bool.noConfusion⟩
  | true =>
    cases missing with
    | false =>
      refine ⟨-1, s, ?_, nothing (.refl s) fun _ h => absurd h Bool.noConfusion⟩
      exact (if_neg Bool.noConfusion).trans (if_pos rfl)
    | true =>
      by_cases hfree : ∃ n < 4096, s.part.inodeBitmap.test n = false
      · obtain ⟨n, hn, hclear, hino⟩ := inodeBitmapAlloc_found hfree
        have hcount : freeCount (s.part.setInode n true) = freeCount s.part := freeCount_congr rfl
        by_cases h0 : freeCount s.part = 0
        · have hnone := newDirBlock_none (hcount.trans h0) n s.parent.iNo
          refine ⟨-1, _, ?_, nothing (rolledBack_setInode hn hclear)
            fun _ _ n' p' hino' b p₁ hnew => ?_⟩
          · unfold sysMkdir
            rw [if_neg Bool.noConfusion, if_neg Bool.noConfusion, hino, ok_bind]
            dsimp only
            rw [hnone]
            rfl
          · rw [hino] at hino'
            cases hino'
            rw [hnone] at hnew
            cases hnew
        · obtain ⟨b, p₁, hnew, alloc⟩ :=
            newDirBlock_some (p := s.part.setInode n true) (by omega) n s.parent.iNo
          have hleft := alloc.freeCount
          have hwritten : freeCount (ideWrite p₁ b (dotEntries n s.parent.iNo) 1) = freeCount p₁ :=
            freeCount_congr rfl
          have hundoes : MkdirUndoes true true s ↔
              insertNeeds (ideWrite p₁ b (dotEntries n s.parent.iNo) 1) s.parent ≤
              freeCount (ideWrite p₁ b (dotEntries n s.parent.iNo) 1) := by
            constructor
            · intro h
              exact h rfl rfl n _ hino b _ hnew
            · intro h _ _ n' p' hino' b' p₁' hnew'
              rw [hino] at hino'
              cases hino'
              rw [hnew] at hnew'
              cases hnew'
              exact h
          rw [hundoes]
          by_cases enough : insertNeeds (ideWrite p₁ b (dotEntries n s.parent.iNo) 1) s.parent ≤
              freeCount (ideWrite p₁ b (dotEntries n s.parent.iNo) 1)
          · obtain ⟨p', parent, hsync⟩ :=
              syncDirEntry_fits enough (entryBuf dirname n ftDirectory) zeros
            refine ⟨0, _, sysMkdir_done hino hnew hsync, iff_of_true ?_ enough⟩
            intro hret
            cases hret
          · obtain ⟨p', parent, hsync, refused⟩ :=
              syncDirEntry_short (Nat.lt_of_not_le enough) (entryBuf dirname n ftDirectory) zeros
            refine ⟨-1, _, sysMkdir_undone hino hnew hsync, iff_of_false ?_ enough⟩
            intro same
            -- the block of the directory is still taken
            have hblocks : s.part.blockBitmap = p₁.blockBitmap :=
              (same rfl).blockBitmap.symm.trans refused.bitmaps.1
            have hsame := freeCount_congr hblocks
            omega
      · refine ⟨-1, s, ?_, nothing (.refl s) fun _ _ n' p' hino' => ?_⟩
        · unfold sysMkdir
          rw [if_neg Bool.noConfusion, if_neg Bool.noConfusion, inodeBitmapAlloc_none hfree]
          rfl
        · rw [inodeBitmapAlloc_none hfree] at hino'
          cases hino'

/-- For a directory whose blocks are marked in the bitmap: it fails without a block at all, or there
are more blocks than the entry takes. -/
theorem mkdirUndoes_iff {s : MakeState sb} (blocks : ∀ k < 12, s.parent.iSectors k ≠ 0 →
      Taken s.part (s.parent.iSectors k)) (hfree : ∃ n < 4096, s.part.inodeBitmap.test n = false) :
    MkdirUndoes true true s ↔ freeCount s.part = 0 ∨
    insertNeeds s.part s.parent < freeCount s.part := by
  obtain ⟨n, hn, hclear, hino⟩ := inodeBitmapAlloc_found hfree
  have hcount : freeCount (s.part.setInode n true) = freeCount s.part := freeCount_congr rfl
  by_cases h0 : freeCount s.part = 0
  · apply iff_of_true ?_ (.inl h0)
    intro _ _ n' p' hino' b p₁ hnew
    rw [hino] at hino'
    cases hino'
    rw [newDirBlock_none (hcount.trans h0)] at hnew
    cases hnew
  obtain ⟨b, p₁, hnew, alloc⟩ :=
    newDirBlock_some (p := s.part.setInode n true) (by omega) n s.parent.iNo
  have hleft := alloc.freeCount
  have hwritten : freeCount (ideWrite p₁ b (dotEntries n s.parent.iNo) 1) = freeCount p₁ :=
    freeCount_congr rfl
  have hneeds : insertNeeds (ideWrite p₁ b (dotEntries n s.parent.iNo) 1) s.parent =
      insertNeeds s.part s.parent := by
    apply insertNeeds_sectors
    intro k hk hne off hoff
    have htaken := blocks k hk hne
    obtain ⟨W, hw, hbitmaps⟩ := alloc.wrote
    have hother : s.parent.iSectors k ∉ List.range' b 1 := by
      intro hmem
      rw [List.mem_range'_1] at hmem
      have hb : s.parent.iSectors k = b := by omega
      exact alloc.free (hb ▸ htaken)
    have hdata : s.parent.iSectors k ∉ W := by
      intro hmem
      have := (hbitmaps _ hmem).lt
      have := htaken.1
      omega
    exact ((wrote_ideWrite p₁ b (dotEntries n s.parent.iNo) 1).sector hother hoff).trans
      (hw.sector hdata hoff)
  constructor
  · intro h
    have henough := h rfl rfl n _ hino b _ hnew
    omega
  · intro h _ _ n' p' hino' b' p₁' hnew'
    rw [hino] at hino'
    cases hino'
    rw [hnew] at hnew'
    cases hnew'
    omega

/-- WHEN A FAILED MAKE IS ROLLED BACK: `file_create` and `sys_mkdir` come to an end from every
state, and their −1 leaves no trace exactly under these conditions. -/
theorem failed_make_rolled_back (ioBuf missing : Bool) (newFileInode : Option Nat)
    (s : MakeState sb) (name : Name) (flag : Nat) :
    (∃ ret s', fileCreate ioBuf newFileInode s name flag = .ok (ret, s') ∧
      ((ret = -1 → RolledBack s s') ↔ CreateUndoes ioBuf newFileInode s)) ∧
    ∃ ret s', sysMkdir ioBuf missing s name = .ok (ret, s') ∧
      ((ret = -1 → RolledBack s s') ↔ MkdirUndoes ioBuf missing s) :=
  ⟨fileCreate_undoes ioBuf newFileInode s name flag, sysMkdir_undoes ioBuf missing s name⟩

/-! ### The root of the small disk, for a process with no free descriptor -/

/-- All eight entries of `fd_table` are in use. -/
def crowdedRoot : MakeState smallDisk where
  part := formattedPart
  parent := formattedRoot
  file _ := ⟨0, 0, none⟩
  fdTable i := i

theorem crowdedRoot_room :
    insertNeeds crowdedRoot.part crowdedRoot.parent ≤ freeCount crowdedRoot.part := by
  have hneeds : insertNeeds formattedPart formattedRoot ≤ 2 := blocksNeeded_le
  have hcount : 3376 ≤ freeCount formattedPart := formatted_freeCount
  unfold crowdedRoot
  dsimp only
  omega

theorem crowdedRoot_stuck : ¬ CreateUndoes true (some 0) crowdedRoot := by
  intro h
  have hino : ∃ n < 4096, crowdedRoot.part.inodeBitmap.test n = false :=
    ⟨2, by decide, by decide +kernel⟩
  have hslot : crowdedRoot.getFreeSlotInGlobal = some 3 := rfl
  exact (h rfl nofun hino 3 hslot).2 crowdedRoot_room rfl

/-- A FILE CREATED without a descriptor stays in the directory, and in `file_table`. -/
theorem create_without_descriptor_stays :
    ¬ ∀ (s : MakeState smallDisk) (name : Name) (flag : Nat) (ret : Int) (s' : MakeState smallDisk),
    fileCreate true (some 0) s name flag = .ok (ret, s') → ret = -1 → RolledBack s s' := by
  intro claim
  obtain ⟨ret, s', hrun, undoes⟩ := fileCreate_undoes true (some 0) crowdedRoot [97] 0
  apply crowdedRoot_stuck
  apply undoes.mp
  exact claim crowdedRoot [97] 0 ret s' hrun

end SeekingOs.Fs.NoDebug
