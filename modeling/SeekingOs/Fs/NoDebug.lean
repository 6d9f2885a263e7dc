import SeekingOs.Fs.FileWrite

/-!
# `file_write` in a build with `NDEBUG`

`ASSERT` is compiled out, so that a full bitmap makes `bitmap_scan` answer −1 and the failures of
the callers come to life. The functions are those of the other build without their assertions. A
write that finds too few free blocks answers −1 and frees its buffers, but the blocks that it has
taken by then stay taken, and the inode keeps them.
-/

namespace SeekingOs.Fs.NoDebug

open Lib

variable {sb : SuperBlock}

/-- `block_bitmap_alloc`; `none` is −1. -/
def blockBitmapAlloc (p : Part sb) : Except Fault (Option (Nat × Part sb)) := do
  let bitIdx ← bitmapScan true p.blockBitmap 1
  return bitIdx.map fun bitIdx => (sb.dataStartLba + bitIdx, p.setBlock bitIdx true)

/-- The first write of a file gives it its first block; `none` is −1. -/
def firstBlock (p : Part sb) (inode : Inode) : Except Fault (Option (Part sb × Inode)) :=
  if inode.iSectors 0 = 0 then do
    match ← blockBitmapAlloc p with
    | none => return none
    | some (blockLba, p) =>
      return some (blockBitmapSync p (blockBit sb blockLba), inode.setSector 0 blockLba)
  else return some (p, inode)

/-- Where the address of a new block is noted: a direct block in the inode too. -/
def noteBlock (inode : Inode) (allBlocks : Blocks) (blockIdx blockLba : Nat) : Inode × Blocks :=
  if blockIdx < 12 then
    (inode.setSector blockIdx blockLba, Function.update allBlocks blockIdx blockLba)
  else (inode, Function.update allBlocks blockIdx blockLba)

/-- The loops of `file_write` that allocate, over the block indices; `false` is a failed allocation.
-/
def growBlocks (g : Growth sb) : List Nat → Except Fault (Bool × Growth sb)
  | [] => return (true, g)
  | blockIdx :: rest => do
    match ← blockBitmapAlloc g.part with
    | none => return (false, g)
    | some (blockLba, p) =>
      let (inode, allBlocks) := noteBlock g.inode g.allBlocks blockIdx blockLba
      growBlocks ⟨blockBitmapSync p (blockBit sb blockLba), inode, allBlocks⟩ rest

/-- No new block: the data stays in the last one. -/
def lastBlock (p : Part sb) (inode : Inode) (will : Nat) : Except Fault (Bool × Growth sb) :=
  if will ≤ 12 then
    return (true, ⟨p, inode, Function.update (fun _ => 0) (will - 1) (inode.iSectors (will - 1))⟩)
  else return (true, ⟨p, inode, readTable p (inode.iSectors 12) fun _ => 0⟩)

/-- Situation 1: the direct blocks suffice. -/
def growDirect (p : Part sb) (inode : Inode) (has will : Nat) :
    Except Fault (Bool × Growth sb) := do
  let last ← sectorAt inode (has - 1)
  growBlocks ⟨p, inode, Function.update (fun _ => 0) (has - 1) last⟩ (newBlocks has will)

/-- Situation 2: from the direct blocks into the indirect ones. -/
def growAcross (p : Part sb) (inode : Inode) (has will : Nat) :
    Except Fault (Bool × Growth sb) := do
  let allBlocks := Function.update (fun _ => 0) (has - 1) (inode.iSectors (has - 1))
  match ← blockBitmapAlloc p with
  | none => return (false, ⟨p, inode, allBlocks⟩)
  | some (blockLba, p) =>
    let grown ← growBlocks ⟨blockBitmapSync p (blockBit sb blockLba),
        inode.setSector 12 blockLba, allBlocks⟩
      (newBlocks has will)
    return storeTable blockLba grown

/-- Situation 3: the file has indirect blocks already. -/
def growIndirect (p : Part sb) (inode : Inode) (has will : Nat) :
    Except Fault (Bool × Growth sb) := do
  let grown ← growBlocks ⟨p, inode, readTable p (inode.iSectors 12) fun _ => 0⟩ (newBlocks has will)
  return storeTable (inode.iSectors 12) grown

/-- The blocks of the write are collected in `all_blocks`. -/
def collectForWrite (p : Part sb) (inode : Inode) (has will : Nat) :
    Except Fault (Bool × Growth sb) :=
  if will = has then lastBlock p inode will
  else if will ≤ 12 then growDirect p inode has will
  else if has ≤ 12 then growAcross p inode has will
  else growIndirect p inode has will

/-- The two work buffers of `file_write`. -/
inductive WorkBuffer where
  | ioBuf
  | allBlocks
  deriving DecidableEq, Repr

/-- How `file_write` ends: beside its answer, the buffers that it has not freed. -/
structure WriteEnd (sb : SuperBlock) extends FileResult sb Nat where
  unfreed : List WorkBuffer

/-- `file_write` after the first block is there. -/
def writeGrown (p : Part sb) (inode : Inode) (fdPos : Nat) (src : Buf) (count : Nat) :
    Except Fault (WriteEnd sb) := do
  let fileHasUsedBlocks := inode.iSize / sectorSize + 1
  let fileWillUseBlocks := u32 (inode.iSize + count) / sectorSize + 1
  match ← collectForWrite p inode fileHasUsedBlocks fileWillUseBlocks with
  | (false, g) => return ⟨⟨g.part, g.inode, fdPos, none⟩, []⟩
  | (true, g) =>
    let s ← writeLoop g.allBlocks src count count
        ⟨g.part, g.inode.iSize, u32 (g.inode.iSize - 1), 0, true⟩
    let inode := { g.inode with iSize := s.iSize }
    let p ← inodeSync s.part inode zeros
    return ⟨⟨p, inode, s.fdPos, some s.bytesWritten⟩, []⟩

/-- `file_write`; `ioBuf` and `allBlocks` say whether `sys_malloc` answers. -/
def fileWrite (ioBuf allBlocks : Bool) (p : Part sb) (inode : Inode) (fdPos : Nat) (src : Buf)
    (count : Nat) : Except Fault (WriteEnd sb) := do
  if u32 (inode.iSize + count) > 140 * sectorSize then return ⟨⟨p, inode, fdPos, none⟩, []⟩
  else if ioBuf = false then return ⟨⟨p, inode, fdPos, none⟩, []⟩
  else if allBlocks = false then return ⟨⟨p, inode, fdPos, none⟩, [.ioBuf]⟩
  else
    match ← firstBlock p inode with
    | none => return ⟨⟨p, inode, fdPos, none⟩, []⟩
    | some (p, inode) => writeGrown p inode fdPos src count

variable {p p' : Part sb} {inode : Inode}

/-! ## Where no assertion fails the builds agree -/

theorem bitmapScan_agrees {b : Bitmap} {cnt : Nat} {r : Option Nat}
    (h : bitmapScan false b cnt = .ok r) : bitmapScan true b cnt = .ok r := by
  rw [bitmapScan_ok h]
  rfl

theorem blockBitmapAlloc_agrees {r : Option (Nat × Part sb)} (h : Fs.blockBitmapAlloc p = .ok r) :
    blockBitmapAlloc p = .ok r := by
  obtain ⟨i, hscan, h⟩ := bind_eq_ok.mp h
  unfold blockBitmapAlloc
  rw [bitmapScan_agrees hscan]
  exact h

theorem firstBlock_agrees {r : Option (Part sb × Inode)} (h : Fs.firstBlock p inode = .ok r) :
    firstBlock p inode = .ok r := by
  unfold Fs.firstBlock at h
  unfold firstBlock
  split at h
  next h0 =>
    obtain ⟨a, halloc, h⟩ := bind_eq_ok.mp h
    rw [if_pos h0, blockBitmapAlloc_agrees halloc, ok_bind]
    cases a with
    | none => exact h
    | some a =>
      obtain ⟨_, _, h⟩ := bind_eq_ok.mp h
      exact h
  next h0 =>
    rw [if_neg h0]
    exact h

theorem noteBlock_agrees {allBlocks : Blocks} {k b : Nat} {r : Inode × Blocks}
    (h : Fs.noteBlock inode allBlocks k b = .ok r) : noteBlock inode allBlocks k b = r := by
  unfold Fs.noteBlock at h
  unfold noteBlock
  split at h
  next hk =>
    obtain ⟨_, _, h⟩ := bind_eq_ok.mp h
    rw [if_pos hk]
    exact Except.ok.inj h
  next hk =>
    rw [if_neg hk]
    exact Except.ok.inj h

theorem growBlocks_agrees {g : Growth sb} {ks : List Nat} {r : Bool × Growth sb}
    (h : Fs.growBlocks g ks = .ok r) : growBlocks g ks = .ok r := by
  induction ks generalizing g with
  | nil => exact h
  | cons k ks ih =>
    unfold Fs.growBlocks at h
    unfold growBlocks
    obtain ⟨a, halloc, h⟩ := bind_eq_ok.mp h
    rw [blockBitmapAlloc_agrees halloc, ok_bind]
    cases a with
    | none => exact h
    | some a =>
      obtain ⟨⟨inode, allBlocks⟩, hnote, h⟩ := bind_eq_ok.mp h
      dsimp only
      rw [noteBlock_agrees hnote]
      exact ih h

theorem collectForWrite_agrees {has will : Nat} {r : Bool × Growth sb}
    (h : Fs.collectForWrite p inode has will = .ok r) :
    collectForWrite p inode has will = .ok r := by
  unfold Fs.collectForWrite at h
  unfold collectForWrite
  split at h
  next heq =>
    rw [if_pos heq]
    unfold Fs.lastBlock at h
    unfold lastBlock
    split at h
    next hk =>
      rw [if_pos hk]
      exact h
    next hk =>
      rw [if_neg hk]
      obtain ⟨_, _, h⟩ := bind_eq_ok.mp h
      exact h
  next heq =>
    rw [if_neg heq]
    split at h
    next hdirect =>
      obtain ⟨last, hlast, h⟩ := bind_eq_ok.mp h
      obtain ⟨_, _, h⟩ := bind_eq_ok.mp h
      rw [if_pos hdirect]
      unfold growDirect
      rw [hlast, ok_bind]
      exact growBlocks_agrees h
    next hdirect =>
      rw [if_neg hdirect]
      split at h
      next hacross =>
        obtain ⟨a, halloc, h⟩ := bind_eq_ok.mp h
        rw [if_pos hacross]
        unfold growAcross
        rw [blockBitmapAlloc_agrees halloc, ok_bind]
        cases a with
        | none => exact h
        | some a =>
          obtain ⟨_, _, h⟩ := bind_eq_ok.mp h
          obtain ⟨grown, hgrown, h⟩ := bind_eq_ok.mp h
          dsimp only
          rw [growBlocks_agrees hgrown]
          exact h
      next hacross =>
        obtain ⟨_, _, h⟩ := bind_eq_ok.mp h
        obtain ⟨grown, hgrown, h⟩ := bind_eq_ok.mp h
        rw [if_neg hacross]
        unfold growIndirect
        rw [growBlocks_agrees hgrown]
        exact h

/-- THE TWO BUILDS AGREE where the one with assertions comes to an end. -/
theorem fileWrite_agrees {fdPos count : Nat} {src : Buf} {r : FileResult sb Nat}
    (h : Fs.fileWrite true p inode fdPos src count = .ok r) :
    fileWrite true true p inode fdPos src count = .ok ⟨r, []⟩ := by
  unfold Fs.fileWrite at h
  unfold fileWrite
  split at h
  next hlimit =>
    cases h
    rw [if_pos hlimit]
    rfl
  next hlimit =>
    rw [if_neg Bool.noConfusion] at h
    obtain ⟨first, hfirst, h⟩ := bind_eq_ok.mp h
    rw [if_neg hlimit, if_neg Bool.noConfusion, if_neg Bool.noConfusion,
      firstBlock_agrees hfirst, ok_bind]
    cases first with
    | none =>
      cases h
      rfl
    | some first =>
      obtain ⟨_, _, h⟩ := bind_eq_ok.mp h
      obtain ⟨⟨done, g⟩, hcollect, h⟩ := bind_eq_ok.mp h
      unfold writeGrown
      dsimp only
      rw [collectForWrite_agrees hcollect, ok_bind]
      cases done with
      | false =>
        cases h
        rfl
      | true =>
        obtain ⟨s, hloop, h⟩ := bind_eq_ok.mp h
        obtain ⟨p', hsync, h⟩ := bind_eq_ok.mp h
        cases h
        dsimp only
        rw [hloop, ok_bind, hsync]
        rfl

end SeekingOs.Fs.NoDebug
