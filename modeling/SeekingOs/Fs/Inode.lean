import SeekingOs.Fs.Disk
import SeekingOs.Lib.Ownership

/-!
# Inodes

`struct inode` in memory and its 76 bytes in the inode table, which may lie across two
sectors. On the flat disk that makes no difference: `inode_sync` replaces the 76
bytes at `512 * inode_table_lba + 76 * i_no` and nothing else.

The blocks of an inode are held in its *slots*: 0 to 11 in `i_sectors`, 12 to 139 in
the indirect table on the disk, and the block of the table itself in slot 140.
-/

namespace SeekingOs.Fs

open Lib

/-- `struct inode` -/
structure Inode where
  iNo : Nat
  iSize : Nat
  iOpenCnts : Nat
  writenDeny : Bool
  /-- `i_sectors[0..12]` -/
  iSectors : Nat → Nat

/-- `sizeof(struct inode)` -/
def inodeBytesLen : Nat := 76

/-- `inode_init` -/
def inodeInit (inodeNo : Nat) : Inode :=
  { iNo := inodeNo, iSize := 0, iOpenCnts := 0, writenDeny := false, iSectors := fun _ => 0 }

/-- `inode->i_sectors[k] = v` -/
def Inode.setSector (inode : Inode) (k v : Nat) : Inode :=
  { inode with iSectors := Function.update inode.iSectors k v }

theorem setSector_same (inode : Inode) (k v : Nat) : (inode.setSector k v).iSectors k = v :=
  Function.update_self _ _ _

theorem setSector_other (inode : Inode) {j k : Nat} (v : Nat) (h : j ≠ k) :
    (inode.setSector k v).iSectors j = inode.iSectors j := Function.update_of_ne h _ _

/-- The bytes that `inode_sync` makes of an inode: the open count, `writen_deny` and the list
node are cleared. -/
def inodeBytes (inode : Inode) : Buf := fun k =>
  if k < 4 then le32 inode.iNo k
  else if k < 8 then le32 inode.iSize (k - 4)
  else if 16 ≤ k ∧ k < 68 then le32 (inode.iSectors ((k - 16) / 4)) ((k - 16) % 4)
  else 0

/-- The inode that 76 bytes of memory are. -/
def inodeAt (buf : Buf) : Inode where
  iNo := rd32 buf 0
  iSize := rd32 buf 4
  iOpenCnts := rd32 buf 8
  writenDeny := buf 12 != 0
  iSectors k := if k < 13 then rd32 buf (16 + 4 * k) else 0

/-- `struct inode_position` -/
structure InodePosition where
  twoSec : Bool
  secLba : Nat
  offSize : Nat

/-- `inode_locate` -/
def inodeLocate (sb : SuperBlock) (inodeNo : Nat) : Except Fault InodePosition := do
  assertThat false (inodeNo < maxFilesPerPart) "inode_locate" "inode_no < 4096"
  let offSize := inodeNo * inodeBytesLen
  let offSec := offSize / sectorSize
  let offSizeInSec := offSize % sectorSize
  return { twoSec := sectorSize - offSizeInSec < inodeBytesLen, secLba := sb.inodeTableLba + offSec,
           offSize := offSizeInSec }

variable {sb : SuperBlock}

/-- The sectors of an inode are read, 76 bytes replaced, and the sectors written: the common part
of `inode_sync` and `inode_delete`. -/
def inodeReplace (func : String) (p : Part sb) (inodeNo : Nat) (bytes ioBuf : Buf) :
    Except Fault (Part sb) := do
  let inodePos ← inodeLocate sb inodeNo
  assertThat false (inodePos.secLba ≤ sb.startLba + sb.secCnt) func
    "inode_pos.sec_lba <= (part->start_lba + part->sec_cnt)"
  let secCnt := if inodePos.twoSec then 2 else 1
  let inodeBuf := ideRead p inodePos.secLba ioBuf secCnt
  return ideWrite p inodePos.secLba (memcpy inodeBuf inodePos.offSize bytes inodeBytesLen) secCnt

/-- `inode_sync` -/
def inodeSync (p : Part sb) (inode : Inode) (ioBuf : Buf) : Except Fault (Part sb) :=
  inodeReplace "inode_sync" p inode.iNo (inodeBytes inode) ioBuf

/-- `inode_delete` -/
def inodeDelete (p : Part sb) (inodeNo : Nat) (ioBuf : Buf) : Except Fault (Part sb) :=
  inodeReplace "inode_delete" p inodeNo zeros ioBuf

/-! ## Block addresses -/

/-- `all_blocks`, the array of up to 140 block addresses that many functions build. -/
abbrev Blocks := Nat → Nat

/-- Entry `k` of the indirect table in block `t`. -/
def tableEntry (p : Part sb) (t k : Nat) : Nat :=
  rd32 (fun off => p.disk (sectorSize * t + off)) (4 * k)

/-- `all_blocks[0..11] = i_sectors[0..11]` -/
def directBlocks (inode : Inode) : Blocks := fun k => if k < 12 then inode.iSectors k else 0

/-- `ide_read(disk, t, all_blocks + 12, 1)` -/
def readTable (p : Part sb) (t : Nat) (allBlocks : Blocks) : Blocks := fun k =>
  if 12 ≤ k ∧ k < 140 then tableEntry p t (k - 12) else allBlocks k

/-- The memory at `all_blocks + 12`. -/
def tableBuf (allBlocks : Blocks) : Buf := fun off => le32 (allBlocks (12 + off / 4)) (off % 4)

/-- `ide_write(disk, t, all_blocks + 12, 1)` -/
def writeTable (p : Part sb) (t : Nat) (allBlocks : Blocks) : Part sb :=
  ideWrite p t (tableBuf allBlocks) 1

/-- All block addresses of an inode, from `i_sectors` and, if there is one, from the table. -/
def collectBlocks (p : Part sb) (inode : Inode) : Blocks :=
  if inode.iSectors 12 ≠ 0 then readTable p (inode.iSectors 12) (directBlocks inode)
  else directBlocks inode

/-- The loop of `inode_realse` over the collected blocks. -/
def freeBlocks (p : Part sb) (allBlocks : Blocks) : List Nat → Except Fault (Part sb)
  | [] => return p
  | blockIdx :: rest =>
    if allBlocks blockIdx ≠ 0 then do
      assertThat false (blockBit sb (allBlocks blockIdx) > 0) "inode_realse" "block_bitmap_idx > 0"
      freeBlocks (blockFree p (allBlocks blockIdx)) allBlocks rest
    else freeBlocks p allBlocks rest

/-- The blocks of an inode are given back, the one of the indirect table first. -/
def realseBlocks (p : Part sb) (inode2del : Inode) : Except Fault (Part sb) :=
  let allBlocks := collectBlocks p inode2del
  if inode2del.iSectors 12 ≠ 0 then do
    assertThat false (blockBit sb (inode2del.iSectors 12) > 0) "inode_realse" "block_bitmap_idx > 0"
    freeBlocks (blockFree p (inode2del.iSectors 12)) allBlocks (List.range 140)
  else freeBlocks p allBlocks (List.range 12)

/-- `inode_realse` between `inode_open` and `inode_close`; `inodeNo` is the number it is called
with. -/
def inodeRealse (p : Part sb) (inode2del : Inode) (inodeNo : Nat) : Except Fault (Part sb) := do
  assertThat false (inode2del.iNo = inodeNo) "inode_realse" "inode2del->i_no == inode_no"
  let p ← realseBlocks p inode2del
  let p := inodeBitmapSync (p.setInode inodeNo false) inodeNo
  inodeDelete p inodeNo zeros

/-! ## Slots -/

/-- The block in a slot of an inode; `0` is an empty slot. -/
def slot (p : Part sb) (inode : Inode) (k : Nat) : Nat :=
  if k < 140 then collectBlocks p inode k else if k = 140 then inode.iSectors 12 else 0

variable {p p' : Part sb} {inode : Inode} {t k : Nat} {allBlocks : Blocks}

theorem slot_direct (h : k < 12) : slot p inode k = inode.iSectors k := by
  have hlt : k < 140 := by omega
  have hno : ¬ (12 ≤ k ∧ k < 140) := by omega
  unfold slot collectBlocks
  rw [if_pos hlt]
  split <;> simp only [readTable, directBlocks, hno, h, ↓reduceIte]

theorem slot_indirect (h : 12 ≤ k) (h' : k < 140) :
    slot p inode k = if inode.iSectors 12 = 0 then 0
      else tableEntry p (inode.iSectors 12) (k - 12) := by
  have hin : 12 ≤ k ∧ k < 140 := ⟨h, h'⟩
  have hno : ¬ k < 12 := by omega
  unfold slot collectBlocks
  rw [if_pos h']
  by_cases ht : inode.iSectors 12 = 0 <;>
    simp only [readTable, directBlocks, ht, hin, hno, ne_eq, not_true_eq_false, not_false_eq_true,
      ↓reduceIte, and_self]

@[simp] theorem slot_table : slot p inode 140 = inode.iSectors 12 := by simp [slot]

theorem slot_beyond (h : 140 < k) : slot p inode k = 0 := by
  unfold slot
  rw [if_neg (by omega), if_neg (by omega)]

/-- Without a table only the twelve direct slots hold anything. -/
theorem slot_noTable (h : inode.iSectors 12 = 0) (k : Nat) :
    slot p inode k = if k < 12 then inode.iSectors k else 0 := by
  split
  next h1 => exact slot_direct h1
  next h1 =>
    by_cases h2 : k < 140
    · rw [slot_indirect (by omega) h2, if_pos h]
    by_cases h3 : k = 140
    · rw [h3, slot_table, h]
    · exact slot_beyond (by omega)

theorem slot_lt : k < 140 → slot p inode k = collectBlocks p inode k := fun h => by
  unfold slot
  rw [if_pos h]

theorem tableEntry_lt : tableEntry p t k < 2 ^ 32 := rd32_lt _ _

/-- A table that was just written. -/
theorem tableEntry_writeTable (h : k < 128) (hv : allBlocks (12 + k) < 2 ^ 32) :
    tableEntry (writeTable p t allBlocks) t k = allBlocks (12 + k) := by
  refine rd32_le32 hv fun j hj => ?_
  unfold writeTable
  rw [ideWrite_disk _ (by omega)]
  unfold tableBuf
  rw [show (4 * k + j) / 4 = k by omega, show (4 * k + j) % 4 = j by omega]

/-- A table that was not written. -/
theorem Wrote.tableEntry {W : List Nat} (h : Wrote p W p') (ht : t ∉ W) (hk : k < 128) :
    tableEntry p' t k = tableEntry p t k :=
  rd32_congr fun j hj => h.sector ht (by omega)

/-- The slots of an inode whose table was not written. -/
theorem Wrote.slot {W : List Nat} (h : Wrote p W p')
    (ht : inode.iSectors 12 ∉ W ∨ inode.iSectors 12 = 0) (k : Nat) :
    slot p' inode k = slot p inode k := by
  by_cases h1 : k < 12
  · rw [slot_direct h1, slot_direct h1]
  by_cases h2 : k < 140
  · rw [slot_indirect (by omega) h2, slot_indirect (by omega) h2]
    by_cases h0 : inode.iSectors 12 = 0
    · rw [if_pos h0, if_pos h0]
    · rw [if_neg h0, if_neg h0, h.tableEntry (ht.resolve_right h0) (by omega)]
  by_cases h3 : k = 140
  · rw [h3, slot_table, slot_table]
  · rw [slot_beyond (by omega), slot_beyond (by omega)]

/-! ## The inode table -/

/-- Where the 76 bytes of inode `n` begin on the disk. -/
def inodeAddr (sb : SuperBlock) (n : Nat) : Nat := sectorSize * sb.inodeTableLba + inodeBytesLen * n

/-- The inode that the table on the disk holds. -/
def diskInode (p : Part sb) (n : Nat) : Inode := inodeAt fun k => p.disk (inodeAddr sb n + k)

/-- What a replaced inode leaves behind. -/
structure Replaced (p : Part sb) (n : Nat) (bytes : Buf) (p' : Part sb) : Prop where
  disk : ∀ a, p'.disk a =
    if inodeAddr sb n ≤ a ∧ a < inodeAddr sb n + inodeBytesLen then bytes (a - inodeAddr sb n)
      else p.disk a
  blockBitmap : p'.blockBitmap = p.blockBitmap
  inodeBitmap : p'.inodeBitmap = p.inodeBitmap
  wrote : ∃ W, Wrote p W p' ∧ ∀ lba ∈ W, TableSector sb lba

/-- The sectors that an inode lies in cover it and belong to the table. -/
theorem inodeLocate_ok (sb : SuperBlock) {n : Nat} (hn : n < 4096) :
    ∃ pos, inodeLocate sb n = .ok pos ∧ sectorSize * pos.secLba + pos.offSize = inodeAddr sb n ∧
      pos.offSize + inodeBytesLen ≤ sectorSize * (if pos.twoSec then 2 else 1) ∧
      sb.inodeTableLba ≤ pos.secLba ∧
      pos.secLba + (if pos.twoSec then 2 else 1) ≤ sb.dataStartLba := by
  have hn' : n < maxFilesPerPart := hn
  unfold inodeLocate
  rw [assertThat_of hn', ok_bind]
  refine ⟨_, rfl, ?_⟩
  unfold inodeAddr SuperBlock.dataStartLba sectorSize inodeBytesLen
  dsimp only
  by_cases htwo : 512 - n * 76 % 512 < 76
  · simp only [htwo, decide_true, ↓reduceIte]
    omega
  · simp only [htwo, decide_false, Bool.false_eq_true, ↓reduceIte]
    omega

/-- THE INODE TABLE AS AN ARRAY: whether the inode lies in one sector or in two, its bytes are
replaced and no others. -/
theorem inodeReplace_ok (func : String) (p : Part sb) {n : Nat} (hn : n < 4096)
    (bytes ioBuf : Buf) :
    ∃ p', inodeReplace func p n bytes ioBuf = .ok p' ∧ Replaced p n bytes p' := by
  obtain ⟨pos, hpos, haddr, hcover, hlow, hhigh⟩ := inodeLocate_ok sb hn
  have hholds := sb.holds
  have hmeta : sb.dataStartLba ≤ sb.startLba + sb.secCnt := by
    simp only [SuperBlock.dataStartLba, SuperBlock.inodeTableLba, SuperBlock.inodeBitmapLba,
      SuperBlock.blockBitmapLba]
    omega
  unfold inodeReplace
  rw [hpos, ok_bind, assertThat_of (by split at hhigh <;> omega), ok_bind]
  refine ⟨_, rfl, fun a => ?_, rfl, rfl, _, wrote_ideWrite p _ _ _, fun lba hl => ?_⟩
  · rw [ideReplace_disk _ _ hcover, haddr]
  · rw [List.mem_range'_1] at hl
    unfold TableSector
    omega

theorem inodeReplace_inv {func : String} {n : Nat} {bytes ioBuf : Buf}
    (h : inodeReplace func p n bytes ioBuf = .ok p') : n < 4096 ∧ Replaced p n bytes p' := by
  have hn : n < 4096 := by
    unfold inodeReplace inodeLocate at h
    obtain ⟨_, h, _⟩ := bind_eq_ok.mp h
    obtain ⟨_, h, _⟩ := bind_eq_ok.mp h
    exact assertThat_ok h
  obtain ⟨_, hok, hr⟩ := inodeReplace_ok func p hn bytes ioBuf
  rw [hok] at h
  cases h
  exact ⟨hn, hr⟩

/-- What a synced inode is when it is loaded again. -/
def Inode.pure (inode : Inode) : Inode :=
  { inode with iOpenCnts := 0, writenDeny := false,
               iSectors := fun k => if k < 13 then inode.iSectors k else 0 }

/-- The fields of an inode fit their 32 bits. -/
structure Inode.Fits (inode : Inode) : Prop where
  iNo : inode.iNo < 4096
  iSize : inode.iSize < 2 ^ 32
  iSectors : ∀ k < 13, inode.iSectors k < 2 ^ 32

/-- What `inode_sync` writes `inode_open` loads. -/
theorem inodeAt_inodeBytes {buf : Buf} (fits : inode.Fits)
    (h : ∀ k < 76, buf k = inodeBytes inode k) : inodeAt buf = inode.pure := by
  have hno : rd32 buf 0 = inode.iNo := by
    refine rd32_le32 (by have := fits.iNo; omega) fun k hk => ?_
    rw [Nat.zero_add, h k (by omega), inodeBytes, if_pos hk]
  have hsize : rd32 buf 4 = inode.iSize := by
    refine rd32_le32 fits.iSize fun k hk => ?_
    rw [h _ (by omega), inodeBytes, if_neg (by omega), if_pos (by omega),
      show 4 + k - 4 = k by omega]
  have hopen : rd32 buf 8 = 0 := by
    refine rd32_le32 (by decide) fun k hk => ?_
    rw [h _ (by omega), inodeBytes, if_neg (by omega), if_neg (by omega), if_neg (by omega)]
    simp [le32]
  have hdeny : buf 12 = 0 := by
    rw [h _ (by omega), inodeBytes, if_neg (by omega), if_neg (by omega), if_neg (by omega)]
  have hsec (k : Nat) (hk : k < 13) : rd32 buf (16 + 4 * k) = inode.iSectors k := by
    refine rd32_le32 (fits.iSectors k hk) fun j hj => ?_
    rw [h _ (by omega), inodeBytes, if_neg (by omega), if_neg (by omega), if_pos (by omega),
      show (16 + 4 * k + j - 16) / 4 = k by omega, show (16 + 4 * k + j - 16) % 4 = j by omega]
  have hsecs : (fun k => if k < 13 then rd32 buf (16 + 4 * k) else 0) =
      fun k => if k < 13 then inode.iSectors k else 0 := by
    funext k
    split
    next hk => exact hsec k hk
    next => rfl
  unfold inodeAt Inode.pure
  rw [hno, hsize, hopen, hdeny, hsecs]
  rfl

/-- The synced inode is on the disk. -/
theorem Replaced.diskInode_self (r : Replaced p inode.iNo (inodeBytes inode) p')
    (fits : inode.Fits) : diskInode p' inode.iNo = inode.pure := by
  refine inodeAt_inodeBytes fits fun k hk => ?_
  rw [r.disk, if_pos (by unfold inodeBytesLen; omega)]
  congr 1
  omega

theorem inodeAt_congr {buf buf' : Buf} (h : ∀ k < 76, buf k = buf' k) :
    inodeAt buf = inodeAt buf' := by
  have word (off : Nat) (hoff : off + 4 ≤ 76) : rd32 buf off = rd32 buf' off :=
    rd32_congr fun k hk => h _ (by omega)
  have hsecs : (fun k => if k < 13 then rd32 buf (16 + 4 * k) else 0) =
      fun k => if k < 13 then rd32 buf' (16 + 4 * k) else 0 := by
    funext k
    split
    next hk => exact word _ (by omega)
    next => rfl
  unfold inodeAt
  rw [word 0 (by decide), word 4 (by decide), word 8 (by decide), h 12 (by decide), hsecs]

/-- The other inodes of the table stay as they are. -/
theorem Replaced.diskInode_other {n m : Nat} {bytes : Buf} (r : Replaced p n bytes p') (h : m ≠ n) :
    diskInode p' m = diskInode p m := by
  refine inodeAt_congr fun k hk => ?_
  rw [r.disk, if_neg]
  unfold inodeAddr inodeBytesLen
  omega

/-- The inodes of the table stay as they are when its sectors are not written. -/
theorem Wrote.diskInode {W : List Nat} {m : Nat} (h : Wrote p W p')
    (hW : ∀ lba ∈ W, ¬ TableSector sb lba) (hm : m < 4096) : diskInode p' m = diskInode p m := by
  refine inodeAt_congr fun k hk => h.same _ fun hmem => hW _ hmem ?_
  unfold inodeAddr TableSector SuperBlock.dataStartLba sectorSize inodeBytesLen
  omega

end SeekingOs.Fs
