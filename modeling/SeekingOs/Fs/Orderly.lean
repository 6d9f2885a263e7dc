import SeekingOs.Fs.FileRuns
import SeekingOs.Fs.DirAccounts
import SeekingOs.Fs.Format

/-!
# Operations that lose no block and keep the bitmaps on the disk

`OnDisk` is what the next mount will read: the superblock as `partition_format` wrote it, and the
bitmaps.

An allocation is followed by a sync of its bit, and so is a release. So after each of `file_write`,
`sync_dir_entry`, `delete_dir_entry` and `inode_realse` the block bitmap on the disk is the one in
memory if it was before, and each block that is taken is one of the inode's or was taken by another.
The last is not so for a directory whose direct blocks are full: there `sync_dir_entry` forgets a
table.
-/

namespace SeekingOs.Fs

open Lib

variable {sb : SuperBlock} {p p' p'' : Part sb} {inode inode' inode'' : Inode} {b i : Nat}
  {bits : Bitmap}

/-! ## The bitmaps on the disk -/

/-- The superblock as `partition_format` writes it. -/
def SuperBlock.record (sb : SuperBlock) : DiskSuper where
  magic := 0x20050608
  secCnt := sb.secCnt
  inodeCnt := maxFilesPerPart
  partLbaBase := sb.startLba
  blockBitmapLba := sb.blockBitmapLba
  blockBitmapSects := sb.blockBitmapSects
  inodeBitmapLba := sb.inodeBitmapLba
  inodeBitmapSects := 1
  inodeTableLba := sb.inodeTableLba
  inodeTableSects := 608
  dataStartLba := sb.dataStartLba
  rootInodeNo := 0
  dirEntrySize := Fs.dirEntrySize

/-- What `mount_partition` reads is on the disk: the superblock, the block bitmap that is in memory,
and for the inodes `bits`. -/
structure OnDisk (p : Part sb) (bits : Bitmap) : Prop where
  record : diskSuperAt (fun off => p.disk (sectorSize * (sb.startLba + 1) + off)) = sb.record
  block : ∀ k < sectorSize * sb.blockBitmapSects, p.disk (sectorSize * sb.blockBitmapLba + k) =
    p.blockBitmap.bits.getD k 0
  inode : ∀ k < sectorSize, p.disk (sectorSize * sb.inodeBitmapLba + k) = bits.bits.getD k 0

/-- A sector that `mount_partition` reads. -/
def MetaSector (sb : SuperBlock) (lba : Nat) : Prop := lba = sb.startLba + 1 ∨ BitmapSector sb lba

/-- The superblock depends on its sector. -/
theorem record_congr (h : ∀ off < sectorSize, p'.disk (sectorSize * (sb.startLba + 1) + off) =
      p.disk (sectorSize * (sb.startLba + 1) + off)) :
    diskSuperAt (fun off => p'.disk (sectorSize * (sb.startLba + 1) + off)) = diskSuperAt fun off =>
      p.disk (sectorSize * (sb.startLba + 1) + off) :=
  diskSuperAt_congr fun off hoff => h off (by unfold sectorSize; omega)

/-- A sector of the bitmaps is written by none but their syncs, and the superblock by none. -/
theorem OnDisk.wrote (on : OnDisk p bits) {W : List Nat} (hw : Wrote p W p')
    (hW : ∀ lba ∈ W, ¬ MetaSector sb lba) (hb : p'.blockBitmap = p.blockBitmap) :
    OnDisk p' bits where
  record := by
    rw [← on.record]
    refine record_congr fun off hoff => hw.same _ fun hmem => hW _ hmem (.inl ?_)
    unfold sectorSize at *
    omega
  block k hk := by
    rw [hb, ← on.block k hk]
    refine hw.same _ fun hmem => hW _ hmem (.inr ?_)
    unfold BitmapSector SuperBlock.inodeTableLba SuperBlock.inodeBitmapLba sectorSize at *
    omega
  inode k hk := by
    rw [← on.inode k hk]
    refine hw.same _ fun hmem => hW _ hmem (.inr ?_)
    unfold BitmapSector SuperBlock.inodeTableLba SuperBlock.inodeBitmapLba sectorSize at *
    omega

theorem not_meta_of_le {lba : Nat} (h : sb.inodeTableLba ≤ lba) : ¬ MetaSector sb lba := by
  rintro (rfl | t)
  · unfold SuperBlock.inodeTableLba SuperBlock.inodeBitmapLba SuperBlock.blockBitmapLba at h
    omega
  · exact absurd t.2 (Nat.not_lt.mpr h)

theorem not_meta_zero : ¬ MetaSector sb 0 := by
  rintro (h | t)
  · exact absurd h.symm (Nat.succ_ne_zero _)
  · have := t.1
    unfold SuperBlock.blockBitmapLba at this
    omega

/-- A sector of the data area is written, or sector 0. -/
theorem OnDisk.ideWrite (on : OnDisk p bits) {lba : Nat} (buf : Buf)
    (h : lba = 0 ∨ sb.dataStartLba ≤ lba) : OnDisk (ideWrite p lba buf 1) bits := by
  refine on.wrote (wrote_ideWrite p lba buf 1) (fun l hl => ?_) rfl
  rw [mem_one hl]
  rcases h with rfl | h
  · exact not_meta_zero
  · exact not_meta_of_le (Nat.le_trans (Nat.le_add_right _ _) h)

theorem OnDisk.replaced (on : OnDisk p bits) {n : Nat} {bytes : Buf} (r : Replaced p n bytes p') :
    OnDisk p' bits := by
  obtain ⟨W, hw, hW⟩ := r.wrote
  exact on.wrote hw (fun lba hl => not_meta_of_le (hW lba hl).1) r.blockBitmap

/-- The inode bitmap in memory is another. -/
theorem OnDisk.setInode (on : OnDisk p bits) (n : Nat) (v : Bool) : OnDisk (p.setInode n v) bits :=
  ⟨on.record, on.block, on.inode⟩

/-- The bytes of a bitmap with one bit set or cleared. -/
theorem getD_bitmapSet {m : Bitmap} {v : Bool} {k : Nat} (h : k ≠ i / 8) :
    (bitmapSet m i v).bits.getD k 0 = m.bits.getD k 0 := by
  unfold bitmapSet
  dsimp only
  rw [List.getD_eq_getElem?_getD, List.getElem?_set_ne h.symm, ← List.getD_eq_getElem?_getD]

/-- THE SYNC. One bit of the block bitmap is changed in memory, and its sector is written. -/
theorem OnDisk.setBlock (on : OnDisk p bits) {v : Bool} (hi : i < 4096 * sb.blockBitmapSects) :
    OnDisk (blockBitmapSync (p.setBlock i v) i) bits where
  record := by
    rw [← on.record]
    refine record_congr fun off hoff => ?_
    unfold blockBitmapSync Fs.ideWrite bitsPerSector
    dsimp only
    rw [if_neg]
    · rfl
    unfold SuperBlock.blockBitmapLba sectorSize at *
    omega
  block k hk := by
    show (blockBitmapSync (p.setBlock i v) i).disk _ = (bitmapSet p.blockBitmap i v).bits.getD k 0
    unfold blockBitmapSync Fs.ideWrite bitmapBuf bitsPerSector
    dsimp only
    split
    next hin =>
      congr 1
      unfold sectorSize at *
      omega
    next hout =>
      rw [setBlock_disk, on.block k hk, getD_bitmapSet]
      unfold sectorSize at *
      omega
  inode k hk := by
    show (blockBitmapSync (p.setBlock i v) i).disk _ = bits.bits.getD k 0
    rw [← on.inode k hk]
    unfold blockBitmapSync Fs.ideWrite bitsPerSector
    dsimp only
    rw [if_neg]
    · rfl
    unfold SuperBlock.inodeBitmapLba sectorSize at *
    omega

/-- The inode bitmap has one sector. -/
theorem OnDisk.inodeSync (on : OnDisk p bits) (hi : i < 4096) :
    OnDisk (inodeBitmapSync p i) p.inodeBitmap where
  record := by
    rw [← on.record]
    refine record_congr fun off hoff => ?_
    unfold inodeBitmapSync Fs.ideWrite bitsPerSector
    dsimp only
    rw [if_neg]
    unfold SuperBlock.inodeBitmapLba SuperBlock.blockBitmapLba sectorSize at *
    omega
  block k hk := by
    show (inodeBitmapSync p i).disk _ = p.blockBitmap.bits.getD k 0
    rw [← on.block k hk]
    unfold inodeBitmapSync Fs.ideWrite bitsPerSector
    dsimp only
    rw [if_neg]
    unfold SuperBlock.inodeBitmapLba sectorSize at *
    omega
  inode k hk := by
    unfold inodeBitmapSync Fs.ideWrite bitmapBuf bitsPerSector
    dsimp only
    rw [if_pos]
    · congr 1
      unfold sectorSize at *
      omega
    unfold sectorSize at *
    omega

/-- The bit that `block_bitmap_alloc` answers is synced. -/
theorem OnDisk.alloc (on : OnDisk p bits) {r : Option (Nat × Part sb)}
    (h : blockBitmapAlloc p = .ok r) :
    ∀ b p₁, r = some (b, p₁) → OnDisk (blockBitmapSync p₁ (blockBit sb b)) bits := by
  unfold blockBitmapAlloc at h
  obtain ⟨_, hscan, h⟩ := bind_eq_ok.mp h
  obtain ⟨i, rfl, hi, -, -⟩ := bitmapScan_one hscan
  cases h
  rintro _ _ ⟨⟩
  rw [p.blockSize] at hi
  have hbit : blockBit sb (sb.dataStartLba + i) = i := by
    have := sb.fits.2
    unfold blockBit u32
    omega
  rw [hbit]
  exact on.setBlock hi

/-- A block of the data area, by its number. -/
def InData (sb : SuperBlock) (b : Nat) : Prop :=
  sb.dataStartLba ≤ b ∧ b - sb.dataStartLba < 4096 * sb.blockBitmapSects

theorem Taken.inData (h : Taken p b) : InData sb b := ⟨h.1, h.lt⟩

theorem OnDisk.free (on : OnDisk p bits) (h : InData sb b) : OnDisk (blockFree p b) bits := by
  refine on.setBlock ?_
  have hbit : blockBit sb b = b - sb.dataStartLba := by
    have := h.1
    have := h.2
    have := sb.fits.2
    unfold blockBit u32
    omega
  rw [hbit]
  exact h.2

theorem OnDisk.freeBlocks (on : OnDisk p bits) {allBlocks : Blocks} {ks : List Nat}
    (blocks : ∀ k ∈ ks, allBlocks k ≠ 0 → InData sb (allBlocks k))
    (h : Fs.freeBlocks p allBlocks ks = .ok p') : OnDisk p' bits := by
  induction ks generalizing p with
  | nil =>
    cases h
    exact on
  | cons k ks ih =>
    unfold Fs.freeBlocks at h
    split at h
    next hne =>
      obtain ⟨_, _, h⟩ := bind_eq_ok.mp h
      exact ih (on.free (blocks k List.mem_cons_self hne))
        (fun j hj => blocks j (List.mem_cons_of_mem _ hj)) h
    next => exact ih on (fun j hj => blocks j (List.mem_cons_of_mem _ hj)) h

/-- `inode_realse` syncs both bitmaps. -/
theorem OnDisk.realse (on : OnDisk p bits) (books : InOrder p inode) {n : Nat}
    (h : inodeRealse p inode n = .ok p') : OnDisk p' p'.inodeBitmap := by
  have blocks (k : Nat) (hk : k < 140) (hne : collectBlocks p inode k ≠ 0) :
      InData sb (collectBlocks p inode k) := by
    rw [← slot_lt hk] at hne ⊢
    exact (books.taken k hne).inData
  unfold inodeRealse at h
  obtain ⟨_, _, h⟩ := bind_eq_ok.mp h
  obtain ⟨p₁, hblocks, h⟩ := bind_eq_ok.mp h
  obtain ⟨hn, r⟩ := inodeReplace_inv h
  rw [r.inodeBitmap]
  suffices on₁ : OnDisk p₁ bits from ((on₁.setInode n false).inodeSync hn).replaced r
  unfold realseBlocks at hblocks
  dsimp only at hblocks
  split at hblocks
  next ht =>
    obtain ⟨_, _, hblocks⟩ := bind_eq_ok.mp hblocks
    exact (on.free (books.table.resolve_left ht).inData).freeBlocks
      (fun k hk => blocks k (List.mem_range.mp hk)) hblocks
  next =>
    refine on.freeBlocks (fun k hk => blocks k ?_) hblocks
    have := List.mem_range.mp hk
    omega

/-! ## Operations in order -/

/-- An operation on an inode that loses no block and keeps the bitmaps on the disk. -/
structure Orderly (p : Part sb) (inode : Inode) (p' : Part sb) (inode' : Inode) : Prop where
  settles : Settles (Taken p) (slot p inode) (Taken p') (slot p' inode')
  onDisk : ∀ {bits}, OnDisk p bits → OnDisk p' bits

theorem Orderly.trans (h : Orderly p inode p' inode') (h' : Orderly p' inode' p'' inode'') :
    Orderly p inode p'' inode'' where
  settles := h.settles.trans h'.settles
  onDisk on := h'.onDisk (h.onDisk on)

/-- The blocks stay as they are. -/
theorem orderly_same (bits : p'.blockBitmap = p.blockBitmap) (slots : slot p' inode' = slot p inode)
    (onDisk : ∀ {bits}, OnDisk p bits → OnDisk p' bits) :
    Orderly p inode p' inode' where
  settles := by
    rw [slots, show Taken p' = Taken p from funext fun b => propext (taken_congr bits b)]
    exact .refl _ _
  onDisk on := onDisk on

theorem Orderly.refl (p : Part sb) (inode : Inode) : Orderly p inode p inode :=
  orderly_same rfl rfl id

/-- A block is written, or sector 0. -/
theorem InOrder.orderly_write (books : InOrder p inode) {lba : Nat} (buf : Buf)
    (h : lba = 0 ∨ ∃ k < 140, slot p inode k = lba) :
    Orderly p inode (ideWrite p lba buf 1) inode := by
  refine orderly_same rfl (books.slot_write buf h) fun on => on.ideWrite buf ?_
  rcases h with h | ⟨k, _, rfl⟩
  · exact .inl h
  · exact (Decidable.eq_or_ne (slot p inode k) 0).imp_right fun hne => (books.taken k hne).1

/-- The inode is synced. -/
theorem InOrder.orderly_sync (books : InOrder p inode) {n : Nat} {bytes : Buf}
    (r : Replaced p n bytes p') : Orderly p inode p' inode :=
  orderly_same r.blockBitmap (books.slot_replaced r) fun on => on.replaced r

/-- A new block comes to a direct slot that is empty. -/
theorem InOrder.orderly_take (books : InOrder p inode) {k : Nat} (hk : k < 12)
    (empty : inode.iSectors k = 0) (alloc : Allocated p b p')
    (onDisk : ∀ {bits}, OnDisk p bits → OnDisk p' bits) :
    Orderly p inode p' (inode.setSector k b) where
  settles := by
    rw [slot_setDirect hk, show slot p' inode = slot p inode from
      funext (books.slot_synced alloc.wrote)]
    exact .take alloc.ne_zero (by rwa [slot_direct hk]) alloc.taken
  onDisk on := onDisk on

/-- A direct block is given back. -/
theorem InOrder.orderly_drop (books : InOrder p inode) {k : Nat} (hk : k < 12)
    (hne : slot p inode k ≠ 0) :
    Orderly p inode (blockFree p (slot p inode k)) (inode.setSector k 0) where
  settles := by
    have freed := blockFree_freed (books.taken k hne)
    rw [slot_setDirect hk, show slot _ inode = slot p inode from
      funext (books.slot_synced freed.wrote)]
    exact .drop freed.taken
  onDisk on := on.free (books.taken k hne).inData

/-! ## Directories -/

/-- The new block is synced before the entry is written to it. -/
theorem OnDisk.dirAlloc (on : OnDisk p bits) (h : dirBlockAlloc p = .ok (some (b, p'))) :
    OnDisk p' bits := by
  unfold dirBlockAlloc at h
  obtain ⟨_, halloc, h⟩ := bind_eq_ok.mp h
  obtain ⟨b₁, p₁, rfl, alloc⟩ := blockBitmapAlloc_ok halloc
  obtain ⟨_, _, h⟩ := bind_eq_ok.mp h
  cases h
  exact on.alloc halloc _ _ rfl

/-- How an insertion into the direct blocks ends. -/
inductive InsertCase (p : Part sb) (inode : Inode) (p' : Part sb) (inode' : Inode) : Prop
  | newBlock {k b : Nat} {p₁ : Part sb} {buf : Buf} (hk : k < 12) (empty : inode.iSectors k = 0)
      (halloc : dirBlockAlloc p = .ok (some (b, p₁))) (part : p' = ideWrite p₁ b buf 1)
        (grown : inode' = (inode.setSector k b).grow)
  | oldBlock {k : Nat} {buf : Buf} (hk : k < 12) (part : p' = ideWrite p (slot p inode k) buf 1)
      (grown : inode' = inode.grow)

theorem syncDirEntry_case (room : DirectRoom p inode) {pDe ioBuf : Buf}
    (h : syncDirEntry p inode pDe ioBuf = .ok (true, p', inode')) :
    InsertCase p inode p' inode' := by
  unfold syncDirEntry at h
  obtain ⟨_, _, h⟩ := bind_eq_ok.mp h
  rw [List.range_eq_range'] at h
  obtain ⟨k, buf, _, hk, before, hend⟩ := syncBlocks_ok h
  have direct {j : Nat} (hj : j < 12) : directBlocks inode j = inode.iSectors j := if_pos hj
  -- the blocks before `k` have no room
  have hk12 : k < 12 := by
    by_contra hge
    obtain ⟨j, hj, hroom⟩ := room
    obtain ⟨hne, buf', hfree⟩ := before j (Nat.zero_le _) (by omega)
    rw [direct hj] at hne hfree
    rcases hroom with h0 | ⟨i, hi, h0⟩
    · exact hne h0
    · exact findFree_none buf' hfree hi h0
  rw [direct hk12] at hend
  rcases hend with ⟨h0, hnew⟩ | ⟨hne, i, -, rfl, rfl⟩
  · unfold syncNewBlock at hnew
    obtain ⟨_, halloc, hnew⟩ := bind_eq_ok.mp hnew
    obtain ⟨b, p₁, rfl, alloc⟩ := dirBlockAlloc_ok halloc
    dsimp only at hnew
    rw [if_pos hk12] at hnew
    cases hnew
    exact .newBlock hk12 h0 halloc rfl rfl
  · rw [← slot_direct (p := p) hk12]
    exact .oldBlock hk12 rfl rfl

/-- AN INSERTION into the direct blocks. The blocks that were there stay. -/
theorem syncDirEntry_orderly (books : InOrder p inode) (room : DirectRoom p inode) {pDe ioBuf : Buf}
    (h : syncDirEntry p inode pDe ioBuf = .ok (true, p', inode')) :
    Orderly p inode p' inode' ∧ ∀ k, slot p inode k ≠ 0 → slot p' inode' k = slot p inode k := by
  cases syncDirEntry_case room h with
  | @newBlock k b p₁ buf hk empty halloc part grown =>
    subst part grown
    obtain ⟨_, _, hr, alloc⟩ := dirBlockAlloc_ok halloc
    cases hr
    have taken := books.orderly_take hk empty alloc fun on => on.dirAlloc halloc
    have hslot : slot p₁ (inode.setSector k b) = Function.update (slot p inode) k b := by
      rw [slot_setDirect hk, show slot p₁ inode = slot p inode from
        funext (books.slot_synced alloc.wrote)]
    have own : b = 0 ∨ ∃ j < 140, slot p₁ (inode.setSector k b) j = b :=
      .inr ⟨k, by omega, by rw [hslot, Function.update_self]⟩
    have books₁ := (books.effect_take hk alloc).books
    refine ⟨(taken.trans (books₁.orderly_write buf own)).trans (orderly_same rfl slot_grow id),
      fun j hne => ?_⟩
    rw [slot_grow, books₁.slot_write buf own, hslot, Function.update_of_ne]
    rintro rfl
    rw [slot_direct hk] at hne
    exact hne empty
  | @oldBlock k buf hk part grown =>
    subst part grown
    have own : slot p inode k = 0 ∨ ∃ j < 140, slot p inode j = slot p inode k :=
      .inr ⟨k, by omega, rfl⟩
    refine ⟨(books.orderly_write buf own).trans (orderly_same rfl slot_grow id), fun j _ => ?_⟩
    rw [slot_grow, books.slot_write buf own]

/-- A DELETION in a directory without an indirect table. -/
theorem deleteDirEntry_orderly (books : InOrder p inode) (noTable : inode.iSectors 12 = 0) {n : Nat}
    {done : Bool} (h : deleteDirEntry p inode n = .ok (done, p', inode')) :
    Orderly p inode p' inode' := by
  unfold deleteDirEntry at h
  cases done with
  | false =>
    obtain ⟨rfl, rfl⟩ := deleteBlocks_false h
    exact .refl _ _
  | true =>
  obtain ⟨k, hk, hne, s, found, -, -, h⟩ := deleteBlocks_ok h
  rw [← slot_lt (List.mem_range.mp hk)] at hne
  have hk12 : k < 12 := by
    by_contra hge
    rw [slot_noTable noTable, if_neg hge] at hne
    exact hne rfl
  unfold deleteFound at h
  obtain ⟨_, _, h⟩ := bind_eq_ok.mp h
  obtain ⟨⟨p₁, inode₁⟩, hclear, h⟩ := bind_eq_ok.mp h
  obtain ⟨_, _, h⟩ := bind_eq_ok.mp h
  obtain ⟨p₂, hsync, h⟩ := bind_eq_ok.mp h
  cases h
  have cleared : Orderly p inode p₁ inode₁ ∧ InOrder p₁ inode₁ := by
    unfold clearEntry at hclear
    split at hclear
    · refine ⟨?_,
        (books.effect_dropBlock (List.mem_range.mp hk) (by rwa [← slot_lt (List.mem_range.mp hk)])
          hclear).books⟩
      unfold dropBlock at hclear
      obtain ⟨_, _, hclear⟩ := bind_eq_ok.mp hclear
      rw [if_pos hk12, ← slot_lt (List.mem_range.mp hk)] at hclear
      cases hclear
      exact books.orderly_drop hk12 hne
    · cases hclear
      have own : collectBlocks p inode k = 0 ∨
          ∃ j < 140, slot p inode j = collectBlocks p inode k :=
        .inr ⟨k, List.mem_range.mp hk, slot_lt (List.mem_range.mp hk)⟩
      exact ⟨books.orderly_write _ own, (books.effect_write _ own).books⟩
  refine cleared.1.trans ((orderly_same rfl slot_shrink id).trans
    (InOrder.orderly_sync ?_ (inodeReplace_inv hsync).2))
  rw [InOrder, slot_shrink]
  exact cleared.2

/-! ## Files -/

/-- A file has no block behind the one that the next byte goes to. -/
def Snug (p : Part sb) (inode : Inode) : Prop := ∀ k < 140, usedBlocks inode.iSize ≤ k →
  slot p inode k = 0

theorem firstBlock_orderly (file : IsFile p inode) (snug : Snug p inode)
    {r : Option (Part sb × Inode)} (h : firstBlock p inode = .ok r) :
    ∃ p₁ inode₁, r = some (p₁, inode₁) ∧ Orderly p inode p₁ inode₁ ∧ Snug p₁ inode₁ := by
  unfold firstBlock at h
  split at h
  next h0 =>
    obtain ⟨_, halloc, h⟩ := bind_eq_ok.mp h
    obtain ⟨b, p₁, rfl, alloc⟩ := blockBitmapAlloc_ok halloc
    obtain ⟨_, _, h⟩ := bind_eq_ok.mp h
    cases h
    refine ⟨_, _, rfl, file.books.orderly_take (by decide) h0 alloc fun on =>
      on.alloc halloc _ _ rfl, fun k hk hused => ?_⟩
    have hused : usedBlocks inode.iSize ≤ k := hused
    have hpos := usedBlocks_pos inode.iSize
    rw [slot_setDirect (by decide), Function.update_of_ne (by omega),
      file.books.slot_synced alloc.wrote]
    exact snug k hk hused
  next =>
    cases h
    exact ⟨p, inode, rfl, .refl _ _, snug⟩

theorem OnDisk.growBlocks {g : Growth sb} (on : OnDisk g.part bits) {ks : List Nat}
    {r : Bool × Growth sb} (h : Fs.growBlocks g ks = .ok r) : OnDisk r.2.part bits := by
  induction ks generalizing g with
  | nil =>
    cases h
    exact on
  | cons k ks ih =>
    unfold Fs.growBlocks at h
    obtain ⟨_, halloc, h⟩ := bind_eq_ok.mp h
    obtain ⟨b, p₁, rfl, alloc⟩ := blockBitmapAlloc_ok halloc
    obtain ⟨_, _, h⟩ := bind_eq_ok.mp h
    exact ih (on.alloc halloc _ _ rfl) h

theorem OnDisk.storeTable {t : Nat} (ht : sb.dataStartLba ≤ t) {r : Bool × Growth sb}
    (on : OnDisk r.2.part bits) : OnDisk (Fs.storeTable t r).2.part bits := by
  obtain ⟨b, g⟩ := r
  cases b with
  | false => exact on
  | true => exact on.ideWrite _ (.inr ht)

/-- Collecting the blocks syncs each bit that it sets. -/
theorem OnDisk.collect (on : OnDisk p bits) (books : InOrder p inode) {has will : Nat}
    {r : Bool × Growth sb} (h : collectForWrite p inode has will = .ok r) :
    OnDisk r.2.part bits := by
  unfold collectForWrite at h
  split at h
  · unfold lastBlock at h
    split at h
    · cases h
      exact on
    · obtain ⟨_, _, h⟩ := bind_eq_ok.mp h
      cases h
      exact on
  split at h
  · unfold growDirect at h
    obtain ⟨_, _, h⟩ := bind_eq_ok.mp h
    obtain ⟨_, _, h⟩ := bind_eq_ok.mp h
    exact OnDisk.growBlocks (g := ⟨p, _, _⟩) on h
  split at h
  · unfold growAcross at h
    obtain ⟨_, halloc, h⟩ := bind_eq_ok.mp h
    obtain ⟨t, p₁, rfl, alloc⟩ := blockBitmapAlloc_ok halloc
    obtain ⟨_, _, h⟩ := bind_eq_ok.mp h
    obtain ⟨grown, hgrow, h⟩ := bind_eq_ok.mp h
    cases h
    exact (OnDisk.growBlocks (g := ⟨_, _, _⟩) (on.alloc halloc _ _ rfl) hgrow).storeTable
      alloc.start
  · unfold growIndirect at h
    obtain ⟨_, hassert, h⟩ := bind_eq_ok.mp h
    obtain ⟨grown, hgrow, h⟩ := bind_eq_ok.mp h
    cases h
    exact (OnDisk.growBlocks (g := ⟨p, _, _⟩) on hgrow).storeTable
      (books.table_start.resolve_left (assertThat_ok hassert))

/-- The new blocks come to slots that are empty. -/
theorem Collected.orderly {will : Nat} {new : Nat → Nat} {g : Growth sb}
    (c : Collected p inode (usedBlocks inode.iSize) will new g) (hwill : will ≤ 140)
    (snug : Snug p inode) (table : 12 < usedBlocks inode.iSize ↔ inode.iSectors 12 ≠ 0)
    (onDisk : ∀ {bits}, OnDisk p bits → OnDisk g.part bits) : Orderly p inode g.part g.inode where
  settles := by
    refine .takeMany (fun k => c.acquired.ne_zero) (fun k hk => ?_) c.acquired.taken
      c.at_new c.at_old
    rcases hk with ⟨hle, hlt⟩ | ⟨rfl, hle, -⟩
    · exact snug k (by omega) hle
    · rw [slot_table]
      by_contra hne
      have := table.mpr hne
      omega
  onDisk on := onDisk on

/-- The loop writes blocks of the file. -/
theorem writeLoop_orderly {allBlocks : Blocks} {src : Buf} {count fuel : Nat} {s s' : WriteState sb}
    (h : writeLoop allBlocks src count fuel s = .ok s') (books : InOrder s.part inode)
    (hblocks : ∀ k < 140, allBlocks k = slot s.part inode k ∨ allBlocks k = 0) :
    Orderly s.part inode s'.part inode ∧ slot s'.part inode = slot s.part inode := by
  induction fuel generalizing s with
  | zero =>
    cases h
    exact ⟨.refl _ _, rfl⟩
  | succ fuel ih =>
    unfold writeLoop at h
    split at h
    · obtain ⟨s₁, hchunk, h⟩ := bind_eq_ok.mp h
      obtain ⟨hsec, -, -, buf, hpart⟩ := writeChunk_ok hchunk
      have hmem : allBlocks (s.iSize / sectorSize) = 0 ∨
          ∃ k < 140, slot s.part inode k = allBlocks (s.iSize / sectorSize) :=
        (hblocks _ hsec).symm.imp_right fun hb => ⟨_, hsec, hb.symm⟩
      have hslot := books.slot_write buf hmem
      have first := books.orderly_write buf hmem
      have books' := (books.effect_write buf hmem).books
      rw [← hpart] at hslot first books'
      obtain ⟨rest, hslot'⟩ := ih h books' fun k hk => by
        rw [hslot]
        exact hblocks k hk
      exact ⟨first.trans rest, hslot'.trans hslot⟩
    · cases h
      exact ⟨.refl _ _, rfl⟩

/-- A WRITE to a file. -/
theorem fileWrite_orderly (file : IsFile p inode) (snug : Snug p inode) {heap : Bool}
    {fdPos count : Nat} {src : Buf} {r : FileResult sb Nat}
    (h : fileWrite heap p inode fdPos src count = .ok r) :
    Orderly p inode r.part r.inode ∧ Snug r.part r.inode := by
  have hsmall := file.small
  unfold sectorSize at hsmall
  have answer := fileWrite_answer (by omega) h
  cases answer with
  | failed _ => exact ⟨.refl _ _, snug⟩
  | wrote fits hsize _ _ =>
  unfold fileWrite at h
  split at h
  · cases h
    exact ⟨.refl _ _, snug⟩
  split at h
  · cases h
    exact ⟨.refl _ _, snug⟩
  obtain ⟨_, hfirst, h⟩ := bind_eq_ok.mp h
  obtain ⟨p₁, inode₁, hr, begun⟩ := file.firstBlock_ok hfirst
  obtain ⟨_, _, hr', first, snug₁⟩ := firstBlock_orderly file snug hfirst
  subst hr
  cases hr'
  dsimp only at h
  unfold writeGrown at h
  dsimp only at h
  obtain ⟨_, hwill, h⟩ := bind_eq_ok.mp h
  obtain ⟨⟨b, g⟩, hcollect, h⟩ := bind_eq_ok.mp h
  obtain ⟨rfl, -, -⟩ := collectForWrite_rest hcollect
  dsimp only at h
  obtain ⟨s, hloop, h⟩ := bind_eq_ok.mp h
  obtain ⟨p₂, hsync, h⟩ := bind_eq_ok.mp h
  cases h
  have books₁ := begun.shaped.books
  have hwill := assertThat_ok hwill
  -- the size does not wrap
  have hu : u32 (inode₁.iSize + count) = inode.iSize + count := by
    rw [begun.iSize]
    unfold sectorSize at fits
    unfold u32
    omega
  rw [hu] at hcollect hwill
  have hmono : usedBlocks inode₁.iSize ≤ usedBlocks (inode.iSize + count) := by
    rw [begun.iSize]
    exact usedBlocks_mono (Nat.le_add_right _ _)
  obtain ⟨_, new, collected⟩ :=
    collectForWrite_ok books₁.table_start (fun k hk => books₁.sector_lt (by omega))
    (Nat.le_add_left 1 _) hmono hwill hcollect
  have grown : Orderly p₁ inode₁ g.part g.inode :=
    Collected.orderly collected hwill snug₁ begun.shaped.table fun on => on.collect books₁ hcollect
  have books₂ := (books₁.effect_collected collected).books
  obtain ⟨wrote, hslot⟩ := writeLoop_orderly hloop books₂ collected.blocks
  have books₃ : InOrder s.part { g.inode with iSize := s.iSize } := by
    rw [InOrder, slot_setSize]
    exact (writeLoop_effect hloop books₂ collected.blocks).books
  have r := (inodeReplace_inv hsync).2
  have synced := books₃.orderly_sync r
  refine ⟨first.trans
    (grown.trans (wrote.trans ((orderly_same rfl (slot_setSize _ _ _) id).trans synced))),
      fun k hk hused => ?_⟩
  rw [hsize] at hused
  have hold : ¬ growthSlots (usedBlocks inode₁.iSize) (usedBlocks (inode.iSize + count)) k := by
    unfold growthSlots
    omega
  rw [books₃.slot_replaced r, slot_setSize, hslot, collected.at_old k hold]
  exact snug₁ k hk (hmono.trans hused)

end SeekingOs.Fs
