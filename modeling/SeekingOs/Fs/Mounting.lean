import SeekingOs.Fs.CallTotal
import SeekingOs.Fs.FormatRuns

/-!
# Formatting, mounting, and mounting again

A partition that was just formatted shows the empty store when it is mounted. After any run of calls
all of the store but the descriptors is on the disk: `mount_partition` reads back the very bitmaps
that are in memory, and shows the same tree with the same bytes.
-/

namespace SeekingOs.Fs

open Lib Lib.Machine

variable {sb : SuperBlock} {aside : Nat → Prop} {p : Part sb} {up : FileTree} {s : Session sb}
  {S : Store} {part : Partition} {pad : Buf}
  {disk disk' : Disk} {written : List Nat}

/-! ## Mounting -/

/-- What `mount_partition` leaves in memory: the two bitmaps. The log of the sectors written goes
on. -/
def mountedPart (sb : SuperBlock) (disk : Disk) (written : List Nat) : Part sb where
  disk
  blockBitmap := ⟨disk.read sb.blockBitmapLba sb.blockBitmapSects⟩
  inodeBitmap := ⟨disk.read sb.inodeBitmapLba 1⟩
  written
  blockSize := by
    unfold Bitmap.size
    rw [length_read]
    unfold sectorSize
    omega
  inodeSize := by
    unfold Bitmap.size
    rw [length_read]
    rfl

theorem mountedPart_inodeBitmap :
    (mountedPart sb disk written).inodeBitmap = ⟨disk.read sb.inodeBitmapLba 1⟩ := by
  unfold mountedPart
  rfl

/-- The end of `filesys_init`: `mount_partition`, `open_root_dir`, and an empty `file_table`. The
process has its three descriptors. -/
def Session.mounted (sb : SuperBlock) (disk : Disk) (written : List Nat) :
    Except Fault (Session sb) := do
  let vol : Volume sb := ⟨mountedPart sb disk written, fun _ => none⟩
  let root ← vol.inodeOpen 0
  return { vol := vol.put 0 vol.part root, file := fun _ => ⟨0, 0, none⟩,
           fdTable := fun fd => if fd < 3 then fd else -1 }

/-- The store with no descriptor open. -/
def Store.unopened (S : Store) : Store := { S with fds := fun _ => none }

/-- Nothing is open. -/
theorem descriptors_none :
    Descriptors (fun _ => ⟨0, 0, none⟩) (fun fd => if fd < 3 then fd else -1) fun _ => none where
  std fd hfd := ⟨fd, hfd, if_pos hfd⟩
  reserved _ _ := rfl
  range _ h := absurd rfl h
  closed _ h _ _ := if_neg (Nat.not_lt.mpr h)
  opened _ _ h := nomatch h
  apart _ _ h := absurd rfl h

/-- A PARTITION IN ORDER is mounted, and shows its tree. -/
theorem mounted_shows (fsck : Fsck aside (mountedPart sb disk written) S.up)
    (plain : ∀ n h, S.up n = some h → Plain h.name)
    (data : ∀ n h, S.up n = some h → h.kind = ftRegular →
      S.data n = contents (mountedPart sb disk written)
      (diskInode (mountedPart sb disk written) n)) :
    ∃ s, Session.mounted sb disk written = .ok s ∧ s.vol.part = mountedPart sb disk written ∧
      Shows aside s S.unopened := by
  unfold Session.mounted
  dsimp only
  rw [Volume.inodeOpen_eq (fun inode h => by cases h) (by decide), ok_bind]
  refine ⟨_, rfl, rfl, ?_⟩
  have noFiles {s : Session sb} (h : s.file = fun _ => ⟨0, 0, none⟩) : s.openFiles = [] := by
    unfold Session.openFiles
    rw [h]
    exact List.filterMap_eq_nil_iff.mpr fun _ _ => rfl
  have opened {m : Nat} (hm : m ≠ 0) {q : Part sb} {root : Inode} :
      (Volume.put ⟨q, fun _ => none⟩ 0 q root).openInodes m = none :=
    Volume.put_other hm
  exact {
    loaded := by
      refine ⟨fsck, fun m inode hm => ?_⟩
      by_cases h0 : m = 0
      · subst h0
        rw [Volume.put_self] at hm
        cases hm
        exact ⟨.inl rfl, ⟨rfl, rfl, fun _ _ => rfl⟩, Nat.one_pos⟩
      · rw [opened h0] at hm
        cases hm
    rootOpen := by
      rw [Volume.put_self]
      rfl
    plain
    data
    users n h hn _ := by
      rw [noFiles rfl, Volume.openCnts, opened (fsck.tree.ne_root hn)]
      rfl
    files n hmem := by
      rw [noFiles rfl] at hmem
      cases hmem
    offsets _ _ _ h := nomatch h
    descriptors := descriptors_none }

/-! ## Mounting again -/

/-- The bytes of a bitmap that are on the disk. -/
theorem read_bits {bits : List Byte} {lba n : Nat} (size : bits.length = sectorSize * n)
    (same : ∀ k < sectorSize * n, disk (sectorSize * lba + k) = bits.getD k 0) :
    disk.read lba n = bits := by
  refine List.ext_getElem ((length_read disk lba n).trans size.symm) fun k hk hk' => ?_
  have at' := getD_read disk lba (size ▸ hk')
  rw [same k (size ▸ hk'), List.getD_eq_getElem _ _ hk, List.getD_eq_getElem _ _ hk'] at at'
  exact at'

theorem Part.ext_fields {q : Part sb} (disk : p.disk = q.disk)
    (blocks : p.blockBitmap = q.blockBitmap) (inodes : p.inodeBitmap = q.inodeBitmap)
    (written : p.written = q.written) : p = q := by
  obtain ⟨_, _, _, _, _, _⟩ := p
  obtain ⟨_, _, _, _, _, _⟩ := q
  simp only [Part.mk.injEq]
  exact ⟨disk, blocks, inodes, written⟩

/-- The bitmaps that are read are those in memory. -/
theorem OnDisk.mounted (on : OnDisk p p.inodeBitmap) : mountedPart sb p.disk p.written = p := by
  have blocks : Disk.read p.disk sb.blockBitmapLba sb.blockBitmapSects = p.blockBitmap.bits := by
    refine read_bits ?_ on.block
    have := p.blockSize
    unfold Bitmap.size at this
    unfold sectorSize
    omega
  have inodes : Disk.read p.disk sb.inodeBitmapLba 1 = p.inodeBitmap.bits := by
    refine read_bits ?_ on.inode
    have := p.inodeSize
    unfold Bitmap.size at this
    unfold sectorSize
    omega
  exact Part.ext_fields rfl (congrArg Bitmap.mk blocks) (congrArg Bitmap.mk inodes) rfl

/-- WHAT `mount_partition` READS: the superblock, and the bitmaps that were in memory. -/
theorem OnDisk.mountPartition (on : OnDisk p p.inodeBitmap) (start : part.startLba = sb.startLba) :
    mountPartition part p.disk = ⟨sb.record, p.blockBitmap, p.inodeBitmap⟩ := by
  unfold Fs.mountPartition
  dsimp only
  rw [start, on.record, ← congrArg Part.blockBitmap on.mounted,
    ← congrArg Part.inodeBitmap on.mounted]
  rfl

/-! ## Formatting -/

/-- Where the areas of a formatted partition lie. -/
def Partition.layout (part : Partition) (room : part.Roomy) : SuperBlock where
  startLba := part.startLba
  secCnt := part.secCnt
  blockBitmapSects := part.blockBitmapSects
  fits := by
    have z := sizes room
    have h₁ := z.bound
    have h₂ := z.second
    have h₃ := z.len
    have h₄ := z.free
    omega
  holds := by
    have := (sizes room).room
    omega

/-- The blocks that `partition_format` masks: those behind bit `block_bitmap_bit_len`. -/
def Partition.masked (part : Partition) (room : part.Roomy) (b : Nat) : Prop :=
  (part.layout room).dataStartLba + part.bitLen < b ∧
    b < (part.layout room).dataStartLba + 4096 * part.blockBitmapSects

/-- The tree with nothing but the root, and no descriptor. -/
def Store.empty : Store := ⟨fun _ => none, fun _ => [], fun _ => none⟩

theorem layout_record (room : part.Roomy) : (part.layout room).record = part.superBlock := by
  unfold SuperBlock.record Partition.superBlock
  rw [inodeBitmapSects_eq, inodeTableSects_eq]
  rfl

/-- What `partition_format` writes behind the block bitmap. -/
structure FormattedRoot (part : Partition) (disk : Disk) : Prop where
  inodes : ∀ k < 512, disk (sectorSize * part.superBlock.inodeBitmapLba + k) =
    Function.update zeros 0 0x01 k
  table : ∀ k < 512, disk (sectorSize * part.superBlock.inodeTableLba + k) =
    rootInodeBuf part.superBlock.dataStartLba k
  dir : ∀ k < 512, disk (sectorSize * part.superBlock.dataStartLba + k) = rootDirBuf k

theorem formattedRoot_written (h : partitionFormat part pad disk = .ok disk') :
    FormattedRoot part disk' := by
  unfold partitionFormat at h
  dsimp only at h
  obtain ⟨buf, hbuf, h⟩ := bind_eq_ok.mp h
  obtain rfl := Except.ok.inj h
  have hib := inodeBitmapSects_eq
  have hit := inodeTableSects_eq
  have hibs : part.superBlock.inodeBitmapSects = 1 := hib
  have hits : part.superBlock.inodeTableSects = 608 := hit
  have hibl : part.superBlock.inodeBitmapLba = part.startLba + 2 + part.blockBitmapSects := rfl
  have hitl : part.superBlock.inodeTableLba = part.startLba + 2 + part.blockBitmapSects +
      Partition.inodeBitmapSects := rfl
  have hdsl : part.superBlock.dataStartLba =
    part.startLba + 2 + part.blockBitmapSects + Partition.inodeBitmapSects +
      Partition.inodeTableSects := rfl
  refine ⟨fun k hk => ?_, fun k hk => ?_, fun k hk => ?_⟩
  · rw [write_other (.inl (by omega)) hk, write_other (.inl (by omega)) hk,
      write_same (by rw [hibs]; exact hk)]
    rfl
  · rw [write_other (.inl (by omega)) hk, write_same (by rw [hits]; unfold sectorSize; omega)]
  · rw [write_same (by unfold sectorSize; omega)]

/-- The root's inode. -/
def rootInode (dataStartLba : Nat) : Inode :=
  { (inodeInit 0).setSector 0 dataStartLba with iSize := 2 * dirEntrySize }

theorem rootInode_sectors (b k : Nat) : (rootInode b).iSectors k = if k = 0 then b else 0 :=
  Function.update_apply _ _ _ _

/-- The words of the root's inode in the table. -/
theorem rootInodeBuf_word {dataStartLba : Nat} (h : dataStartLba < 2 ^ 32) (k : Nat) :
    rd32 (rootInodeBuf dataStartLba) (4 * k) = if k = 1 then 2 * dirEntrySize
      else if k = 4 then dataStartLba else 0 := by
  have le_zero (j : Nat) : le32 0 j = 0 := by simp [le32]
  refine rd32_le32 ?_ fun j hj => ?_
  · split
    · decide
    split
    · exact h
    · decide
  unfold rootInodeBuf memcpy
  by_cases h4 : k = 4
  · subst h4
    rw [if_pos (by omega), if_neg (by decide), if_pos rfl]
    congr 1
    omega
  by_cases h1 : k = 1
  · subst h1
    rw [if_neg (by omega), if_neg (by omega), if_pos (by omega), if_pos rfl]
    congr 1
    omega
  · rw [if_neg (by omega), if_neg h1, if_neg h4]
    refine Eq.trans ?_ (le_zero j).symm
    split
    · exact le_zero _
    · rw [if_neg (by omega)]
      rfl

section Formatted

variable (room : part.Roomy) (h : partitionFormat part pad disk = .ok disk')

include h

theorem formatted_blocks {i : Nat} (hi : i < 4096 * part.blockBitmapSects) :
    (mountedPart (part.layout room) disk' []).blockBitmap.test i =
      (decide (i = 0) || decide (part.bitLen < i)) := by
  have f := formatted (sizes room) h
  rw [← mounted_test f hi]
  unfold mountPartition
  dsimp only
  rw [f.sb]
  rfl

theorem formatted_inodes (n : Nat) :
    (mountedPart (part.layout room) disk' []).inodeBitmap.test n = true ↔ n = 0 := by
  have root := formattedRoot_written h
  by_cases hn : n < 4096
  · have byte : (Disk.read disk' (part.layout room).inodeBitmapLba 1).getD (n / 8) 0 =
        Function.update zeros 0 0x01 (n / 8) := by
      rw [getD_read _ _ (by unfold sectorSize; omega)]
      exact root.inodes _ (by omega)
    rw [mountedPart_inodeBitmap]
    unfold Bitmap.test
    rw [byte]
    by_cases h0 : n / 8 = 0
    · rw [h0, Function.update_self]
      have bits : ∀ k < 8, (0x01 : Byte).getLsbD k = true ↔ k = 0 := by decide
      rw [bits _ (Nat.mod_lt _ (by decide))]
      omega
    · rw [Function.update_of_ne h0]
      have : n ≠ 0 := by omega
      simp [zeros, this]
  · rw [test_eq_false_of_size_le (by rw [Part.inodeSize]; omega)]
    simp only [Bool.false_eq_true, false_iff]
    omega

theorem formatted_rootInode : diskInode (mountedPart (part.layout room) disk' []) 0 =
    (rootInode (part.layout room).dataStartLba).pure := by
  have root := formattedRoot_written h
  have hdsl : (part.layout room).dataStartLba < 2 ^ 32 := by
    have h₁ := (part.layout room).holds
    have h₂ := (part.layout room).fits.1
    unfold SuperBlock.dataStartLba SuperBlock.inodeTableLba SuperBlock.inodeBitmapLba
      SuperBlock.blockBitmapLba
    omega
  have byte (j : Nat) (hj : j < 76) : disk' (inodeAddr (part.layout room) 0 + j) =
      rootInodeBuf (part.layout room).dataStartLba j :=
    root.table j (by omega)
  have word (k : Nat) (hk : k < 19) :
      rd32 (fun a => disk' (inodeAddr (part.layout room) 0 + a)) (4 * k) =
      if k = 1 then 2 * dirEntrySize else if k = 4 then (part.layout room).dataStartLba else 0 := by
    rw [← rootInodeBuf_word hdsl]
    exact rd32_congr fun j hj => byte _ (by omega)
  have deny : disk' (inodeAddr (part.layout room) 0 + 12) = 0 := by
    rw [byte 12 (by decide)]
    rfl
  unfold diskInode inodeAt Inode.pure
  simp only [Inode.mk.injEq]
  refine ⟨word 0 (by decide), word 1 (by decide), word 2 (by decide), ?_, ?_⟩
  · show (disk' (inodeAddr (part.layout room) 0 + 12) != 0) = false
    rw [deny]
    rfl
  · funext k
    split
    next hk =>
      have at' := word (k + 4) (by omega)
      rw [show 4 * (k + 4) = 16 + 4 * k by omega, if_neg (by omega)] at at'
      rw [rootInode_sectors]
      exact at'.trans (if_congr (by omega) rfl rfl)
    next => rfl

theorem formatted_made :
    Made (mountedPart (part.layout room) disk' [])
      (rootInode (part.layout room).dataStartLba) 0 := by
  have root := formattedRoot_written h
  refine ⟨show 0 < 4096 by decide, rfl, ?_, fun k hk => ?_, fun off hoff => ?_⟩
  · rw [rootInode_sectors, if_pos rfl]
    refine ⟨Nat.le_refl _, ?_⟩
    have pos : 0 < 4096 * part.blockBitmapSects := by
      have h₁ := (sizes room).data.2
      have h₂ := (sizes room).second
      omega
    rw [Nat.sub_self, formatted_blocks room h pos]
    rfl
  · rw [rootInode_sectors, if_neg hk]
  · rw [rootInode_sectors, if_pos rfl]
    exact root.dir off hoff

/-- The root has one block. -/
theorem formatted_slots (k : Nat) :
    slot (mountedPart (part.layout room) disk' [])
      (diskInode (mountedPart (part.layout room) disk' []) 0) k =
    if k = 0 then (part.layout room).dataStartLba else 0 := by
  have like := (rootInode (part.layout room).dataStartLba).alike_pure
  rw [formatted_rootInode room h, like.slot, slot_noTable (rootInode_sectors _ 12),
    rootInode_sectors]
  split_ifs <;> first | rfl | omega

theorem formatted_holds {b : Nat} :
    Holds (slot (mountedPart (part.layout room) disk' [])
      (diskInode (mountedPart (part.layout room) disk' []) 0)) b ↔
      b = (part.layout room).dataStartLba := by
  constructor
  · rintro ⟨hb, k, rfl⟩
    rw [formatted_slots room h] at hb ⊢
    exact if_pos (by_contra fun hk => hb (if_neg hk))
  · rintro rfl
    exact ⟨(part.layout room).dataStart_pos.ne', 0, by rw [formatted_slots room h, if_pos rfl]⟩

/-- WHICH BLOCKS ARE TAKEN after formatting: the root's and those that are masked. -/
theorem formatted_taken {b : Nat} :
    Taken (mountedPart (part.layout room) disk' []) b ↔ b = (part.layout room).dataStartLba ∨
    part.masked room b := by
  have pos : 0 < 4096 * part.blockBitmapSects := by
    have h₁ := (sizes room).data.2
    have h₂ := (sizes room).second
    omega
  unfold Partition.masked
  constructor
  · intro taken
    have lt : b - (part.layout room).dataStartLba < 4096 * part.blockBitmapSects := taken.lt
    have le := taken.1
    have bit := taken.2
    rw [formatted_blocks room h lt, Bool.or_eq_true, decide_eq_true_iff, decide_eq_true_iff] at bit
    omega
  · intro which
    have lt : b - (part.layout room).dataStartLba < 4096 * part.blockBitmapSects := by omega
    refine ⟨by omega, ?_⟩
    rw [formatted_blocks room h lt, Bool.or_eq_true, decide_eq_true_iff, decide_eq_true_iff]
    omega

/-- A FORMATTED PARTITION IS IN ORDER. -/
theorem formatted_fsck :
    Fsck (part.masked room) (mountedPart (part.layout room) disk' []) fun _ => none := by
  have here (n : Nat) : FileTree.Here (fun _ => none) n ↔ n = 0 := or_iff_left fun h => h rfl
  have books : InOrder (mountedPart (part.layout room) disk' [])
      (diskInode (mountedPart (part.layout room) disk' []) 0) := by
    constructor
    · intro i j hi hij
      have hj := hij ▸ hi
      rw [formatted_slots room h] at hi hj
      rw [by_contra fun hi0 => hi (if_neg hi0), by_contra fun hj0 => hj (if_neg hj0)]
    · intro i hi
      exact (formatted_taken room h).mpr (.inl ((formatted_holds room h).mp ⟨hi, i, rfl⟩))
  refine ⟨rooted_bare _ _, nofun, fun n => (formatted_inodes room h n).trans (here n).symm,
    fun n hn => ?_, ?_, fun d dir => ?_, nofun, ?_, ?_⟩
  · rw [(here n).mp hn, formatted_rootInode room h]
    rfl
  · refine ⟨⟨fun n hn => ?_, fun n m hn hm hne => ?_⟩,
      fun b hb => (formatted_taken room h).mpr (.inr hb), fun b taken => ?_, fun n hn b holds => ?_⟩
    · rw [(here n).mp hn]
      exact books
    · exact absurd (((here n).mp hn).trans ((here m).mp hm).symm) hne
    · exact ((formatted_taken room h).mp taken).symm.imp_right fun e =>
        ⟨0, .inl rfl, (formatted_holds room h).mpr e⟩
    · rw [(here n).mp hn, formatted_holds room h] at holds
      unfold Partition.masked
      omega
  · have hd : d = 0 := (here d).mp dir.here
    obtain ⟨map, acc, dot, dotDot, none⟩ :=
      (formatted_made room h).listed (formatted_rootInode room h) (by decide)
    subst hd
    refine ⟨map, acc, dot, dotDot, fun name n t proper => ?_⟩
    rw [none name proper]
    exact iff_of_false nofun nofun
  · rw [formatted_slots room h, if_pos rfl]
  · have f := formatted (sizes room) h
    refine ⟨f.sb.trans (layout_record room).symm, fun k hk => ?_, fun k hk => ?_⟩
    · exact (getD_read _ _ hk).symm
    · rw [mountedPart_inodeBitmap, getD_read _ _ (by omega)]
      rfl

end Formatted

theorem formatted_freeBlocks (room : part.Roomy) (h : partitionFormat part pad disk = .ok disk') :
    part.bitLen - 1 ≤ freeCount (mountedPart (part.layout room) disk' []) := by
  have first : Finset.Icc 1 (part.bitLen - 1) ⊆
      freeBits (mountedPart (part.layout room) disk' []) := by
    intro i hi
    obtain ⟨low, high⟩ := Finset.mem_Icc.mp hi
    have lt : i < 4096 * part.blockBitmapSects := by
      have h₁ := (sizes room).data.2
      have h₂ := (sizes room).second
      omega
    refine mem_freeBits.mpr ⟨lt, fun taken => ?_⟩
    have which := (formatted_taken room h).mp taken
    unfold Partition.masked at which
    omega
  have card := Finset.card_le_card first
  rw [Nat.card_Icc, Nat.add_sub_cancel] at card
  exact card

/-- The partition as `partition_format` has left it is mounted. -/
theorem formatted_mounts (room : part.Roomy) (h : partitionFormat part pad disk = .ok disk') :
    ∃ s, Session.mounted (part.layout room) disk' [] = .ok s ∧
      s.vol.part = mountedPart (part.layout room) disk' [] ∧
      Shows (part.masked room) s Store.empty :=
  mounted_shows (S := Store.empty) (formatted_fsck room h) nofun nofun

/-- FROM FORMATTING ON. A partition that `partition_format` has formatted is mounted as it was laid
out, and shows the empty store. -/
theorem formatted_shows (room : part.Roomy) (h : partitionFormat part pad disk = .ok disk') :
    ∃ s, mountPartition part disk' =
      ⟨part.superBlock, s.vol.part.blockBitmap, s.vol.part.inodeBitmap⟩ ∧
      Session.mounted (part.layout room) disk' [] = .ok s ∧
      Shows (part.masked room) s Store.empty := by
  obtain ⟨s, mounts, same, shows⟩ := formatted_mounts room h
  refine ⟨s, ?_, mounts, shows⟩
  rw [same, ← layout_record room]
  exact (formatted_fsck room h).onDisk.mountPartition rfl

/-- A small partition behind the first 63 sectors. -/
def firstPartition : Partition := ⟨63, 4709, by decide⟩

theorem firstPartition_roomy : firstPartition.Roomy := by decide

theorem firstPartition_formatted :
    ∃ disk', partitionFormat firstPartition zeros zeros = .ok disk' :=
  (partitionFormat_ok (sizes firstPartition_roomy) zeros zeros).mpr (by decide)

/-- A session on that partition. -/
abbrev FirstSession := Session (firstPartition.layout firstPartition_roomy)

/-- The theorem at that partition. -/
theorem formatted_shows_first : ∃ (disk' : Disk) (s : FirstSession),
    mountPartition firstPartition disk' =
      ⟨firstPartition.superBlock, s.vol.part.blockBitmap, s.vol.part.inodeBitmap⟩ ∧
      Shows (firstPartition.masked firstPartition_roomy) s Store.empty := by
  obtain ⟨disk', h⟩ := firstPartition_formatted
  obtain ⟨s, mounts, -, shows⟩ := formatted_shows firstPartition_roomy h
  exact ⟨disk', s, mounts, shows⟩

/-! ## Runs -/

/-- Only the root is open after mounting. -/
theorem mounted_countable (h : Session.mounted sb disk written = .ok s) : s.vol.Countable := by
  unfold Session.mounted at h
  dsimp only at h
  rw [Volume.inodeOpen_eq (fun inode h => by cases h) (by decide), ok_bind] at h
  cases h
  intro n inode hn
  by_cases h0 : n = 0
  · subst h0
    rw [Volume.put_self] at hn
    cases hn
    exact ⟨Nat.one_pos, show 1 < 2 ^ 32 - 3 by decide⟩
  · rw [Volume.put_other h0] at hn
    cases hn

/-- What `sys_mkdir` is asked for first. -/
def firstMkdir : SysCall := .mkdir true emptyEntry pathA

/-- A NEW PARTITION has what a directory in its root needs. -/
theorem firstPartition_ready :
    ∃ s : FirstSession, Shows (firstPartition.masked firstPartition_roomy) s Store.empty ∧
    Promised s firstMkdir ∧ Provided s Store.empty firstMkdir := by
  obtain ⟨disk', h⟩ := firstPartition_formatted
  obtain ⟨s, mounts, same, shows⟩ := formatted_mounts firstPartition_roomy h
  have given : GivenPath pathA := ⟨⟨⟨[97], rfl⟩, by decide, by decide⟩, by decide⟩
  refine ⟨s, shows, ⟨mounted_countable mounts, given, fun d t hwalk => ?_⟩,
    .inr ⟨⟨1, by decide, ?_⟩, ?_⟩⟩
  · cases hwalk
    have like := shows.loaded.alike 0
    refine ⟨1, by decide, .inl ?_⟩
    rw [like.iSectors 1 (by decide), same, formatted_rootInode firstPartition_roomy h]
    rfl
  · rw [same, Bool.eq_false_iff, ne_eq, formatted_inodes firstPartition_roomy h]
    decide
  · rw [same]
    exact Nat.le_trans (by decide) (formatted_freeBlocks firstPartition_roomy h)

/-- A run of one call on it. -/
theorem firstPartition_run :
    ∃ (s s' : FirstSession) (reply : Reply), Shows (firstPartition.masked firstPartition_roomy)
      s Store.empty ∧
    (sysMachine _).Path s [⟨s, firstMkdir, reply⟩] s' ∧
    Meets Promised [(⟨s, firstMkdir, reply⟩ : Entry FirstSession SysCall Reply)] := by
  obtain ⟨s, shows, promised, provided⟩ := firstPartition_ready
  obtain ⟨s', reply, hcall⟩ := shows.total promised provided
  refine ⟨s, s', reply, shows, .step .start trivial hcall, fun entry h => ?_⟩
  rw [List.mem_singleton.mp h]
  exact promised

/-- THE CALLS REFINE THE STORE. Every run of calls that are promised what they need is a run of the
store, with the same calls and the same replies. -/
theorem calls_refine {s₀ : Session sb} {S₀ : Store} {tr : List (Entry (Session sb) SysCall Reply)}
    (shows : Shows aside s₀ S₀) (path : (sysMachine sb).Path s₀ tr s)
    (promised : Meets Promised tr) : ∃ S, Follows Store.Serves S₀ tr S ∧ Shows aside s S :=
  path.refines shows promised fun shows typed st promised => shows.step typed promised st

/-- The theorem at a run that makes a directory. -/
theorem calls_refine_mkdir :
    ∃ (s : FirstSession) (tr : List (Entry FirstSession SysCall Reply)) (S : Store),
    tr.length = 1 ∧ Follows Store.Serves Store.empty tr S ∧
    Shows (firstPartition.masked firstPartition_roomy) s S := by
  obtain ⟨s, s', reply, shows, path, promised⟩ := firstPartition_run
  obtain ⟨S, follows, shows'⟩ := calls_refine shows path promised
  exact ⟨s', _, S, rfl, follows, shows'⟩

/-- WHAT WAS DONE STAYS DONE. After every such run, `mount_partition` reads from the disk the
bitmaps that are in memory, and mounting shows the store that the run has come to, but for its
descriptors. -/
theorem calls_survive {s₀ : Session sb} {S₀ : Store} {tr : List (Entry (Session sb) SysCall Reply)}
    (shows : Shows aside s₀ S₀) (path : (sysMachine sb).Path s₀ tr s) (promised : Meets Promised tr)
    (start : part.startLba = sb.startLba) :
    ∃ S, Follows Store.Serves S₀ tr S ∧
      mountPartition part s.vol.part.disk =
        ⟨sb.record, s.vol.part.blockBitmap, s.vol.part.inodeBitmap⟩ ∧
      ∃ s', Session.mounted sb s.vol.part.disk s.vol.part.written = .ok s' ∧
        Shows aside s' S.unopened := by
  obtain ⟨S, follows, shows'⟩ :=
    path.refines shows promised fun shows typed st promised => shows.step typed promised st
  have on := shows'.loaded.fsck.onDisk
  obtain ⟨s', mounts, -, shows''⟩ :=
    mounted_shows (S := S) (by rw [on.mounted]; exact shows'.loaded.fsck) shows'.plain
    fun n h hn kind => by
      rw [on.mounted]
      exact shows'.data n h hn kind
  exact ⟨S, follows, on.mountPartition start, s', mounts, shows''⟩

/-- The theorem at that run. -/
theorem calls_survive_mkdir :
    ∃ (s : FirstSession) (tr : List (Entry FirstSession SysCall Reply)) (S : Store), tr.length = 1 ∧
    Follows Store.Serves Store.empty tr S ∧
    ∃ s' : FirstSession, Shows (firstPartition.masked firstPartition_roomy) s' S.unopened ∧
      mountPartition firstPartition s.vol.part.disk =
        ⟨firstPartition.superBlock, s.vol.part.blockBitmap, s.vol.part.inodeBitmap⟩ := by
  obtain ⟨s, s', reply, shows, path, promised⟩ := firstPartition_run
  have start : firstPartition.startLba = (firstPartition.layout firstPartition_roomy).startLba :=
    rfl
  obtain ⟨S, follows, reads, s'', -, shows'⟩ := calls_survive shows path promised start
  rw [layout_record] at reads
  exact ⟨s', _, S, rfl, follows, s'', shows', reads⟩

/-- NO CALL PANICS. After every such run, a call that has what it needs comes to its end, and the
store says what it returns. -/
theorem calls_come_to_an_end {s₀ : Session sb} {S₀ : Store}
    {tr : List (Entry (Session sb) SysCall Reply)} (shows : Shows aside s₀ S₀)
    (path : (sysMachine sb).Path s₀ tr s) (promised : Meets Promised tr) :
    ∃ S, Follows Store.Serves S₀ tr S ∧ ∀ call : SysCall, call.Typed → Promised s call →
      Provided s S call →
      ∃ s' reply S', s.call call = .ok (s', reply) ∧ S.Serves call reply S' ∧
        Shows aside s' S' := by
  obtain ⟨S, follows, shows'⟩ :=
    path.refines shows promised fun shows typed st promised => shows.step typed promised st
  refine ⟨S, follows, fun call typed promised provided => ?_⟩
  obtain ⟨s', reply, hcall⟩ := shows'.total promised provided
  obtain ⟨S', serves, shows''⟩ := shows'.step typed promised hcall
  exact ⟨s', reply, S', hcall, serves, shows''⟩

/-- The theorem at the new partition: the first directory is made. -/
theorem calls_come_to_an_end_mkdir :
    ∃ (s s' : FirstSession) (reply : Reply) (S S' : Store), s.call firstMkdir = .ok (s', reply) ∧
    S.Serves firstMkdir reply S' := by
  obtain ⟨s, shows, promised, provided⟩ := firstPartition_ready
  obtain ⟨S, -, total⟩ := calls_come_to_an_end shows .start (by simp [Meets])
  obtain ⟨s', reply, S', hcall, serves, -⟩ := total firstMkdir trivial promised provided
  exact ⟨s, s', reply, S, S', hcall, serves⟩

end SeekingOs.Fs
