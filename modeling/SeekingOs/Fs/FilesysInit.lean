import SeekingOs.Device.Partitions
import SeekingOs.Fs.FormatRuns

/-!
# The scan loop of `filesys_init`

Each partition that is recorded and has no file system is to be formatted. The index of the
innermost loop is set to 0 once, before all loops, so the loop has its rounds for the first disk and
none for the others.

What `partition_format` makes of a partition that goes beyond sector 2^28 is left open.
-/

namespace SeekingOs.Fs

open Lib

/-- `struct partition`, as far as the loop looks at it. -/
structure PartSlot where
  startLba : Nat
  secCnt : Nat
  deriving DecidableEq, Repr

/-- The sector behind the boot sector. -/
def PartSlot.superLba (slot : PartSlot) : Nat := u32 (slot.startLba + 1 : Nat)

/-- The arrays of a `struct disk`. -/
structure DiskParts where
  primParts : Nat → PartSlot
  logicParts : Nat → PartSlot

/-- What the pointer `part` points at: an array, and the index in it. -/
def DiskParts.deref (parts : DiskParts) (part : Bool × Nat) : PartSlot :=
  if part.1 then parts.logicParts part.2 else parts.primParts part.2

/-- `sb_buf->magic`, after the sector behind the boot sector is read. -/
def superMagic (disk : Disk) (slot : PartSlot) : Nat :=
  (diskSuperAt fun off => disk (sectorSize * u32 (slot.startLba + 1 : Nat) + off)).magic

/-- The magic number of the file system. -/
def superBlockMagic : Nat := 0x20050608

/-- What `ide_write` asserts. -/
def writeCheck (hd : Device.Disk) (lba secCnt : Nat) : Except Fault Unit := do
  let _ ← Device.ideWrite (fun _ => true) hd lba 0 secCnt

section

variable (beyond : PartSlot → Disk → Except Fault Disk) (pad : PartSlot → Buf)

/-- `partition_format`, with what `ide_write` asserts each time. -/
def formatSlot (hd : Device.Disk) (slot : PartSlot) (disk : Disk) : Except Fault Disk :=
  if lba28 : slot.startLba + slot.secCnt ≤ 2 ^ 28 then do
    let part : Partition := ⟨slot.startLba, slot.secCnt, lba28⟩
    let sb := part.superBlock
    writeCheck hd (part.startLba + 1) 1
    writeCheck hd sb.blockBitmapLba sb.blockBitmapSects
    writeCheck hd sb.inodeBitmapLba sb.inodeBitmapSects
    writeCheck hd sb.inodeTableLba sb.inodeTableSects
    writeCheck hd sb.dataStartLba 1
    partitionFormat part (pad slot) disk
  else beyond slot disk

/-- The body of the innermost loop. -/
def initSlot (hd : Device.Disk) (slot : PartSlot) (disk : Disk) : Except Fault Disk :=
  if slot.secCnt ≠ 0 then do
    let _ ← Device.ideRead (fun _ => true) hd (u32 (slot.startLba + 1 : Nat)) 0 1
    if superMagic disk slot = superBlockMagic then return disk
    else formatSlot beyond pad hd slot disk
  else return disk

/-- The innermost loop: `while (part_idx < 12)`. -/
def slotLoop (hd : Device.Disk) (parts : DiskParts) (part : Bool × Nat) (partIdx : Nat)
    (disk : Disk) : Except Fault (Nat × Disk) :=
  if partIdx < 12 then do
    let part := if partIdx = 4 then (true, 0) else part
    let disk ← initSlot beyond pad hd (parts.deref part) disk
    slotLoop hd parts (part.1, part.2 + 1) (partIdx + 1) disk
  else return (partIdx, disk)
termination_by 12 - partIdx

/-- The variables of the loops. -/
structure InitState where
  partIdx : Nat
  disks : Device.Drive → Disk

/-- The body of the loop over the drives; the boot disk is passed by. -/
def initDisk (parts : Device.Drive → DiskParts) (s : InitState) (hd : Device.Drive) :
    Except Fault InitState :=
  if hd.devNo = 0 ∧ hd.channelNo = 0 then return s
  else do
    let (partIdx, disk) ← slotLoop beyond pad ⟨hd.name, hd.devNo⟩ (parts hd) (false, 0)
        s.partIdx (s.disks hd)
    return ⟨partIdx, Function.update s.disks hd disk⟩

/-- The two drives of each channel, in the order of the loops. -/
def drivesOf (channelCnt : Nat) : List Device.Drive :=
  (List.range channelCnt).flatMap fun c => [⟨c, 0⟩, ⟨c, 1⟩]

/-- The scan loop of `filesys_init` -/
def initScan (parts : Device.Drive → DiskParts) (channelCnt : Nat) (disks : Device.Drive → Disk) :
    Except Fault InitState :=
  (drivesOf channelCnt).foldlM (initDisk beyond pad parts) ⟨0, disks⟩

end

/-! ## What the loop is for -/

/-- The elements of the two arrays. -/
def DiskParts.slots (parts : DiskParts) : List PartSlot :=
  (List.range 12).map fun k => if k < 4 then parts.primParts k else parts.logicParts (k - 4)

/-- The byte at `a` is one of the partition's. -/
def PartSlot.Inside (slot : PartSlot) (a : Nat) : Prop :=
  sectorSize * slot.startLba ≤ a ∧ a < sectorSize * (slot.startLba + slot.secCnt)

/-- The partition has a file system afterwards, and the one that it had before. -/
structure PartSlot.Handled (slot : PartSlot) (disk disk' : Disk) : Prop where
  magic : superMagic disk' slot = superBlockMagic
  kept : superMagic disk slot = superBlockMagic → ∀ a, slot.Inside a → disk' a = disk a

/-- A drive that is not passed by. -/
def Visited (channelCnt : Nat) (hd : Device.Drive) : Prop := hd ∈ drivesOf channelCnt ∧ hd ≠ ⟨0, 0⟩

instance (channelCnt : Nat) (hd : Device.Drive) : Decidable (Visited channelCnt hd) :=
  inferInstanceAs (Decidable (_ ∧ _))

section

variable (beyond : PartSlot → Disk → Except Fault Disk) (pad : PartSlot → Buf)
  (parts : Device.Drive → DiskParts) (channelCnt : Nat)
  (disks : Device.Drive → Disk)

/-- EVERY PARTITION ENDS UP WITH A FILE SYSTEM. -/
def AllHandled : Prop := ∃ s, initScan beyond pad parts channelCnt disks = .ok s ∧
  ∀ hd, Visited channelCnt hd → ∀ slot ∈ (parts hd).slots, slot.secCnt ≠ 0 →
    slot.Handled (disks hd) (s.disks hd)

/-- On all disks but the first there is nothing to do. -/
def OthersDone : Prop := ∀ hd, Visited channelCnt hd → hd ≠ ⟨0, 1⟩ →
  ∀ slot ∈ (parts hd).slots, slot.secCnt ≠ 0 →
  superMagic (disks hd) slot = superBlockMagic

end

/-- A partition that is to be formatted. -/
def PartSlot.Fresh (slot : PartSlot) (disk : Disk) : Prop :=
  slot.secCnt ≠ 0 ∧ superMagic disk slot ≠ superBlockMagic

/-- Formatting the first cannot touch the second: neither its sectors nor where its superblock is
read. -/
structure PartSlot.Spares (slot slot' : PartSlot) : Prop where
  sectors : slot.startLba + slot.secCnt ≤ slot'.startLba ∨
    slot'.startLba + slot'.secCnt ≤ slot.startLba
  super : slot.startLba + slot.secCnt ≤ slot'.superLba ∨ slot'.superLba < slot.startLba

/-- Partitions on a disk. The driver reaches their superblocks; and those to be formatted lie apart
from the others, in reach of the driver, with room for a file system. -/
structure WellLaid (slots : List PartSlot) (disk : Disk) : Prop where
  read : ∀ slot ∈ slots, slot.secCnt ≠ 0 → slot.superLba < Device.maxLba
  room : ∀ slot ∈ slots, slot.Fresh disk → slot.startLba + slot.secCnt ≤ Device.maxLba ∧
    ∀ lba28, (⟨slot.startLba, slot.secCnt, lba28⟩ : Partition).Roomy
  apart : slots.Pairwise fun slot slot' =>
    (slot.Fresh disk → slot'.secCnt ≠ 0 → slot.Spares slot') ∧
      (slot'.Fresh disk → slot.secCnt ≠ 0 → slot'.Spares slot)

variable {beyond : PartSlot → Disk → Except Fault Disk} {pad : PartSlot → Buf}
  {parts : Device.Drive → DiskParts} {channelCnt : Nat}
  {disks : Device.Drive → Disk} {hd : Device.Disk} {slot : PartSlot} {slots : List PartSlot}
    {disk disk' : Disk}

/-! ## The loops -/

/-- Where the pointer is at each index. -/
def partAt (partIdx : Nat) : Bool × Nat :=
  if partIdx ≤ 4 then (false, partIdx) else (true, partIdx - 4)

theorem slots_drop (ps : DiskParts) {k : Nat} (hk : k < 12) :
    ps.slots.drop k = ps.deref (if k = 4 then (true, 0) else partAt k) ::
      ps.slots.drop (k + 1) := by
  have hlen : k < ps.slots.length := by simpa [DiskParts.slots] using hk
  have hget : ps.slots[k] = if k < 4 then ps.primParts k else ps.logicParts (k - 4) := by
    simp [DiskParts.slots]
  rw [List.drop_eq_getElem_cons hlen, hget]
  congr 1
  by_cases h4 : k = 4
  · subst h4
    rfl
  · rw [if_neg h4]
    by_cases hlt : k < 4
    · have hpart : partAt k = (false, k) := if_pos (by omega)
      rw [if_pos hlt, hpart]
      rfl
    · have hpart : partAt k = (true, k - 4) := if_neg (by omega)
      rw [if_neg hlt, hpart]
      rfl

/-- THE INNERMOST LOOP goes through the elements of both arrays. -/
theorem slotLoop_eq (ps : DiskParts) {k : Nat} (hk : k ≤ 12) (disk : Disk) :
    slotLoop beyond pad hd ps (partAt k) k disk =
    (ps.slots.drop k).foldlM (fun disk slot => initSlot beyond pad hd slot disk) disk >>=
      fun disk => .ok (12, disk) := by
  induction hleft : 12 - k generalizing k disk with
  | zero =>
    have h12 : k = 12 := by omega
    subst h12
    rw [slotLoop, if_neg (by decide), List.drop_eq_nil_of_le (by simp [DiskParts.slots])]
    rfl
  | succ left ih =>
    have hnext :
        (((if k = 4 then (true, 0) else partAt k) : Bool × Nat).1,
          ((if k = 4 then (true, 0) else partAt k) : Bool × Nat).2 + 1) =
        partAt (k + 1) := by
      unfold partAt
      split
      · rename_i h4
        subst h4
        rfl
      · split
        · rw [if_pos (by omega)]
        · rw [if_neg (by omega)]
          dsimp only
          congr 1
          omega
    rw [slotLoop, if_pos (by omega), slots_drop ps (by omega), List.foldlM_cons, bind_assoc]
    dsimp only
    rw [hnext]
    congr 1
    funext disk
    exact ih (by omega) disk (by omega)

/-- With the index at its end a disk is left as it is. -/
theorem initDisk_done {s : InitState} (h : s.partIdx = 12) (hd : Device.Drive) :
    initDisk beyond pad parts s hd = .ok s := by
  unfold initDisk
  split
  · rfl
  · rw [slotLoop, if_neg (by omega)]
    simp only [pure_bind, Function.update_eq_self]
    rfl

theorem initDisks_done {s : InitState} (h : s.partIdx = 12) (drives : List Device.Drive) :
    drives.foldlM (initDisk beyond pad parts) s = .ok s := by
  induction drives with
  | nil => rfl
  | cons hd drives ih =>
    rw [List.foldlM_cons, initDisk_done h, ok_bind]
    exact ih

/-- THE SCAN LOOP: the rounds of the innermost loop are for the first disk. -/
theorem initScan_eq (n : Nat) : initScan beyond pad parts (n + 1) disks =
    ((parts ⟨0, 1⟩).slots.foldlM
      (fun disk slot => initSlot beyond pad ⟨(Device.Drive.mk 0 1).name, 1⟩ slot disk)
      (disks ⟨0, 1⟩) >>=
      fun disk => .ok ⟨12, Function.update disks ⟨0, 1⟩ disk⟩) := by
  unfold initScan drivesOf
  rw [List.range_succ_eq_map, List.flatMap_cons, List.cons_append, List.cons_append,
    List.nil_append, List.foldlM_cons]
  have hboot : initDisk beyond pad parts ⟨0, disks⟩ ⟨0, 0⟩ = .ok ⟨0, disks⟩ := rfl
  have hfirst : initDisk beyond pad parts ⟨0, disks⟩ ⟨0, 1⟩ =
      (parts ⟨0, 1⟩).slots.foldlM
        (fun disk slot => initSlot beyond pad ⟨(Device.Drive.mk 0 1).name, 1⟩ slot disk)
          (disks ⟨0, 1⟩) >>=
        fun disk => .ok ⟨12, Function.update disks ⟨0, 1⟩ disk⟩ := by
    have h :=
      @slotLoop_eq beyond pad ⟨(Device.Drive.mk 0 1).name, 1⟩ (parts ⟨0, 1⟩) 0 (Nat.zero_le 12)
        (disks ⟨0, 1⟩)
    unfold initDisk
    rw [if_neg (by decide)]
    change (slotLoop beyond pad ⟨(Device.Drive.mk 0 1).name, 1⟩ (parts ⟨0, 1⟩) (partAt 0) 0
      (disks ⟨0, 1⟩) >>= _) = _
    rw [h, bind_assoc]
    rfl
  rw [hboot, ok_bind, List.foldlM_cons, hfirst, bind_assoc]
  congr 1
  funext disk
  exact initDisks_done rfl _

/-! ## One partition -/

theorem writeCheck_ok {lba secCnt : Nat} (pos : 0 < secCnt) (fits : lba + secCnt ≤ Device.maxLba) :
    writeCheck hd lba secCnt = .ok () := by
  obtain ⟨rounds, h, -⟩ :=
    @Device.transferLoop_covers hd lba 0 secCnt 0 Device.cmdWriteSector "ide_write" "write"
      (fun _ => true) fits (fun _ => rfl)
    (Nat.zero_le secCnt)
  unfold writeCheck Device.ideWrite Device.transfer
  rw [assertThat_of (show lba ≤ Device.maxLba by omega), ok_bind, assertThat_of pos, ok_bind, h]
  rfl

theorem readCheck_ok {lba : Nat} (h : lba < Device.maxLba) :
    ∃ rounds, Device.ideRead (fun _ => true) hd lba 0 1 = .ok rounds := by
  obtain ⟨rounds, hloop, -⟩ :=
    @Device.transferLoop_covers hd lba 0 1 0 Device.cmdReadSector "ide_read" "read" (fun _ => true)
      (by omega) (fun _ => rfl)
    (Nat.zero_le 1)
  refine ⟨rounds, ?_⟩
  unfold Device.ideRead Device.transfer
  rw [assertThat_of (show lba ≤ Device.maxLba by omega), ok_bind, assertThat_of (by decide),
    ok_bind, hloop]

theorem write_outside {lba n : Nat} {buf : Buf} {a : Nat}
    (h : a < sectorSize * lba ∨ sectorSize * (lba + n) ≤ a) : disk.write lba buf n a = disk a := by
  unfold Disk.write
  rw [if_neg (by omega)]

/-- FORMATTING writes to no sector of another partition. -/
theorem partitionFormat_outside {part : Partition} {buf : Buf} (room : part.Roomy)
    (h : partitionFormat part buf disk = .ok disk') {a : Nat}
    (ha : a < sectorSize * part.startLba ∨ sectorSize * (part.startLba + part.secCnt) ≤ a) :
    disk' a = disk a := by
  have hroom : 2 + part.blockBitmapSects + 1 + 608 + 16 ≤ part.secCnt := room
  have hib := inodeBitmapSects_eq
  have hit := inodeTableSects_eq
  unfold partitionFormat at h
  dsimp only [Partition.superBlock] at h
  obtain ⟨bits, -, h⟩ := bind_eq_ok.mp h
  obtain rfl := Except.ok.inj h
  unfold sectorSize at ha
  rw [write_outside (by unfold sectorSize; omega), write_outside (by unfold sectorSize; omega),
    write_outside (by unfold sectorSize; omega),
    write_outside (by unfold sectorSize; omega), write_outside (by unfold sectorSize; omega)]

/-- The byte at `a` is one of the partition's, or of the sector where its superblock is read. -/
def PartSlot.Holds (slot : PartSlot) (a : Nat) : Prop :=
  slot.Inside a ∨ sectorSize * slot.superLba ≤ a ∧ a < sectorSize * (slot.superLba + 1)

theorem superMagic_congr (h : ∀ a, slot.Holds a → disk' a = disk a) :
    superMagic disk' slot = superMagic disk slot := by
  unfold superMagic
  congr 1
  apply diskSuperAt_congr
  intro off hoff
  apply h
  unfold PartSlot.Holds PartSlot.superLba sectorSize
  right
  constructor
  · omega
  · omega

theorem PartSlot.Fresh.congr (h : ∀ a, slot.Holds a → disk' a = disk a) :
    slot.Fresh disk' ↔ slot.Fresh disk := by
  unfold PartSlot.Fresh
  rw [superMagic_congr h]

theorem PartSlot.Spares.holds {slot' : PartSlot} (h : slot.Spares slot') {a : Nat}
    (ha : slot'.Holds a) : ¬ slot.Inside a := by
  obtain ⟨sectors, super⟩ := h
  unfold PartSlot.Holds PartSlot.Inside sectorSize at *
  omega

/-- Formatting a partition with room succeeds, and it has the magic number then. -/
theorem formatSlot_handles (fits : slot.startLba + slot.secCnt ≤ Device.maxLba)
    (room : ∀ lba28, (⟨slot.startLba, slot.secCnt, lba28⟩ : Partition).Roomy) :
    ∃ disk', formatSlot beyond pad hd slot disk = .ok disk' ∧
      superMagic disk' slot = superBlockMagic ∧
      ∀ a, ¬ slot.Inside a → disk' a = disk a := by
  have small : slot.startLba + slot.secCnt ≤ 163839 := fits
  have lba28 : slot.startLba + slot.secCnt ≤ 2 ^ 28 := small.trans (by decide)
  have hroom := room lba28
  have z := sizes hroom
  have h₁ := z.free
  have h₂ := z.len
  have h₄ := z.second
  have h₅ := z.room
  have hib := inodeBitmapSects_eq
  have hit := inodeTableSects_eq
  dsimp only at h₁ h₅
  have hbits : 0 < (⟨slot.startLba, slot.secCnt, lba28⟩ : Partition).blockBitmapSects := by
    have := z.data
    omega
  obtain ⟨disk', hformat⟩ := (partitionFormat_ok z (pad slot) disk).mpr (by omega)
  refine ⟨disk', ?_, ?_, ?_⟩
  · unfold formatSlot
    rw [dif_pos lba28]
    dsimp only [Partition.superBlock]
    have reaches : ∀ {lba n : Nat}, 0 < n → lba + n ≤ slot.startLba + slot.secCnt →
        writeCheck hd lba n = .ok () :=
      fun pos hle => writeCheck_ok pos (hle.trans fits)
    rw [reaches Nat.one_pos (by omega), ok_bind, reaches hbits (by omega), ok_bind,
      reaches (by omega) (by omega), ok_bind,
      reaches (by omega) (by omega), ok_bind, reaches Nat.one_pos (by omega), ok_bind]
    exact hformat
  · have lba : u32 (slot.startLba + 1 : Nat) = slot.startLba + 1 := u32_of_lt (by omega)
    unfold superMagic
    rw [lba]
    exact congrArg DiskSuper.magic (formatted z hformat).sb
  · intro a ha
    apply partitionFormat_outside hroom hformat
    unfold PartSlot.Inside at ha
    dsimp only
    omega

/-- THE BODY OF THE LOOP. It writes to a partition that is to be formatted, and to nothing else. -/
theorem initSlot_handles (read : slot.secCnt ≠ 0 → slot.superLba < Device.maxLba)
    (room : slot.Fresh disk → slot.startLba + slot.secCnt ≤ Device.maxLba ∧
      ∀ lba28, (⟨slot.startLba, slot.secCnt, lba28⟩ : Partition).Roomy) :
    ∃ disk', initSlot beyond pad hd slot disk = .ok disk' ∧
      (slot.secCnt ≠ 0 → slot.Handled disk disk') ∧
      ∀ a, (slot.Fresh disk → ¬ slot.Inside a) → disk' a = disk a := by
  unfold initSlot
  by_cases used : slot.secCnt ≠ 0
  · rw [if_pos used]
    obtain ⟨rounds, hread⟩ := @readCheck_ok hd slot.superLba (read used)
    change ∃ disk', (do
      let _ ← Device.ideRead (fun _ => true) hd slot.superLba 0 1
      if superMagic disk slot = superBlockMagic then return disk
      else formatSlot beyond pad hd slot disk) = .ok disk' ∧ _
    rw [hread, ok_bind]
    by_cases magic : superMagic disk slot = superBlockMagic
    · rw [if_pos magic]
      exact ⟨disk, rfl, fun _ => ⟨magic, fun _ _ _ => rfl⟩, fun _ _ => rfl⟩
    · rw [if_neg magic]
      obtain ⟨fits, roomy⟩ := room ⟨used, magic⟩
      obtain ⟨disk', hformat, hmagic, hout⟩ :=
        @formatSlot_handles beyond pad hd slot disk fits roomy
      exact ⟨disk', hformat, fun _ => ⟨hmagic, fun h => absurd h magic⟩,
        fun a ha => hout a (ha ⟨used, magic⟩)⟩
  · rw [if_neg used]
    exact ⟨disk, rfl, fun h => absurd h used, fun _ _ => rfl⟩

/-! ## One disk -/

/-- What is left of the list, when the bytes of its partitions are as they were. -/
theorem WellLaid.tail (h : WellLaid (slot :: slots) disk)
    (same : ∀ slot' ∈ slots, slot'.secCnt ≠ 0 → ∀ a, slot'.Holds a → disk' a = disk a) :
    WellLaid slots disk' := by
  have fresh {slot' : PartSlot} (hmem : slot' ∈ slots) (h' : slot'.Fresh disk') :
      slot'.Fresh disk :=
    (PartSlot.Fresh.congr (same slot' hmem h'.1)).mp h'
  constructor
  · exact fun slot' hmem => h.read slot' (List.mem_cons_of_mem _ hmem)
  · exact fun slot' hmem h' => h.room slot' (List.mem_cons_of_mem _ hmem) (fresh hmem h')
  · refine (List.pairwise_cons.mp h.apart).2.imp_of_mem fun hmem hmem' ⟨first, second⟩ =>
      ⟨fun h' => ?_, fun h' => ?_⟩
    · exact first (fresh hmem h')
    · exact second (fresh hmem' h')

/-- A DISK WHOSE PARTITIONS ARE WELL LAID: each of them is handled. -/
theorem slots_handled (laid : WellLaid slots disk) :
    ∃ disk', slots.foldlM (fun disk slot => initSlot beyond pad hd slot disk) disk = .ok disk' ∧
      (∀ slot ∈ slots, slot.secCnt ≠ 0 → slot.Handled disk disk') ∧
      ∀ a, (∀ slot ∈ slots, slot.Fresh disk → ¬ slot.Inside a) → disk' a = disk a := by
  induction slots generalizing disk with
  | nil => exact ⟨disk, rfl, fun slot hmem => absurd hmem List.not_mem_nil, fun _ _ => rfl⟩
  | cons slot slots ih =>
    obtain ⟨happart, -⟩ := List.pairwise_cons.mp laid.apart
    obtain ⟨disk₁, hslot, hhandled, hout⟩ :=
      @initSlot_handles beyond pad hd slot disk (laid.read slot List.mem_cons_self)
        (laid.room slot List.mem_cons_self)
    -- the other partitions are as they were
    have others : ∀ slot' ∈ slots, slot'.secCnt ≠ 0 → ∀ a, slot'.Holds a → disk₁ a = disk a := by
      intro slot' hmem used' a ha
      apply hout
      intro fresh
      exact ((happart slot' hmem).1 fresh used').holds ha
    obtain ⟨disk', hrest, hhandled', hout'⟩ := ih (laid.tail others)
    have keeps : slot.secCnt ≠ 0 → ∀ a, slot.Holds a → disk' a = disk₁ a := by
      intro used a ha
      apply hout'
      intro slot' hmem fresh
      have fresh := (PartSlot.Fresh.congr (others slot' hmem fresh.1)).mp fresh
      exact ((happart slot' hmem).2 fresh used).holds ha
    refine ⟨disk', ?_, ?_, ?_⟩
    · rw [List.foldlM_cons, hslot, ok_bind]
      exact hrest
    · intro slot' hmem used'
      obtain rfl | hmem := List.mem_cons.mp hmem
      · have h := hhandled used'
        constructor
        · rw [superMagic_congr (keeps used')]
          exact h.magic
        · intro magic a ha
          rw [keeps used' a (.inl ha)]
          exact h.kept magic a ha
      · have h := hhandled' slot' hmem used'
        have magics := superMagic_congr (others slot' hmem used')
        constructor
        · exact h.magic
        · intro magic a ha
          rw [h.kept (magics.trans magic) a ha]
          exact others slot' hmem used' a (.inl ha)
    · intro a ha
      rw [hout' a, hout a (ha slot List.mem_cons_self)]
      intro slot' hmem fresh
      exact ha slot' (List.mem_cons_of_mem _ hmem)
        ((PartSlot.Fresh.congr (others slot' hmem fresh.1)).mp fresh)

/-! ## All disks -/

/-- The other disks are as they were, so they had their file systems before. -/
theorem othersDone_of_allHandled (h : AllHandled beyond pad parts channelCnt disks) :
    OthersDone parts channelCnt disks := by
  obtain ⟨s, hscan, hs⟩ := h
  intro hd hvisited hne slot hmem used
  cases channelCnt with
  | zero => exact absurd hvisited.1 List.not_mem_nil
  | succ n =>
    rw [initScan_eq] at hscan
    obtain ⟨disk, -, heq⟩ := bind_eq_ok.mp hscan
    have hdisks : s.disks = Function.update disks ⟨0, 1⟩ disk :=
      (congrArg InitState.disks (Except.ok.inj heq)).symm
    have hhandled := hs hd hvisited slot hmem used
    rw [hdisks, Function.update_of_ne hne] at hhandled
    exact hhandled.magic

/-- One partition, on the first disk of the second channel. -/
def onePartition (hd : Device.Drive) : DiskParts where
  primParts := fun k => if hd = ⟨1, 0⟩ ∧ k = 0 then ⟨1, 5000⟩ else ⟨0, 0⟩
  logicParts := fun _ => ⟨0, 0⟩

end SeekingOs.Fs
