import SeekingOs.Fs.CrossLinks

/-!
# The inode table, slot by slot

4096 inodes of 76 bytes lie one behind another in 608 sectors. `inode_sync` and `inode_delete`
change one slot, in the one or two sectors that it lies in, and `inode_open` loads it from these.
-/

namespace SeekingOs.Fs

open Lib

variable {sb : SuperBlock} {p p' : Part sb} {n : Nat}

/-- What `inode_open` does with an inode that is not in `open_inodes`; `inodeBuf` is memory for one
sector or two. -/
def inodeLoad (p : Part sb) (inodeNo : Nat) (inodeBuf : Buf) : Except Fault Inode := do
  let inodePos ← inodeLocate sb inodeNo
  let inodeBuf := ideRead p inodePos.secLba inodeBuf (if inodePos.twoSec then 2 else 1)
  return { inodeAt (fun k => inodeBuf (inodePos.offSize + k)) with iOpenCnts := 1 }

/-- THE LOAD. Whether one sector is read or two, the slot is in them. -/
theorem inodeLoad_eq (p : Part sb) (hn : n < 4096) (inodeBuf : Buf) :
    inodeLoad p n inodeBuf = .ok { diskInode p n with iOpenCnts := 1 } := by
  obtain ⟨pos, hpos, haddr, hcover, -⟩ := inodeLocate_ok sb hn
  have same :
      inodeAt (fun k => ideRead p pos.secLba inodeBuf (if pos.twoSec then 2 else 1)
        (pos.offSize + k)) = diskInode p n := by
    refine inodeAt_congr fun k hk => ?_
    unfold inodeBytesLen at hcover
    unfold ideRead
    rw [if_pos (by omega), ← haddr, Nat.add_assoc]
  unfold inodeLoad
  rw [hpos, ok_bind]
  dsimp only
  rw [same]
  rfl

/-- `inode_open` of an inode that is not open. -/
theorem inodeOpen_load (v : Volume sb) (closed : v.openInodes n = none) (hn : n < 4096)
    (inodeBuf : Buf) : v.inodeOpen n = inodeLoad v.part n inodeBuf := by
  obtain ⟨pos, hpos, -⟩ := inodeLocate_ok sb hn
  rw [inodeLoad_eq v.part hn]
  unfold Volume.inodeOpen
  rw [closed]
  dsimp only
  rw [hpos]
  rfl

/-- Sectors outside the table are neither written nor changed. -/
def TableOnly (p p' : Part sb) : Prop :=
  ∀ lba, ¬ TableSector sb lba → (lba ∈ p'.written → lba ∈ p.written) ∧
    ∀ off < sectorSize, p'.disk (sectorSize * lba + off) = p.disk (sectorSize * lba + off)

theorem Replaced.tableOnly {bytes : Buf} (r : Replaced p n bytes p') : TableOnly p p' := by
  obtain ⟨W, hw, table⟩ := r.wrote
  intro lba outside
  have notWritten : lba ∉ W := fun h => outside (table lba h)
  constructor
  · intro h
    rw [hw.log, List.mem_append] at h
    exact h.resolve_right notWritten
  · intro off hoff
    exact hw.sector notWritten hoff

/-- Loading another inode gives what it gave. -/
theorem Replaced.load_other {bytes : Buf} (r : Replaced p n bytes p') {j : Nat} (hj : j < 4096)
    (other : j ≠ n) (inodeBuf : Buf) : inodeLoad p' j inodeBuf = inodeLoad p j inodeBuf := by
  rw [inodeLoad_eq p' hj, inodeLoad_eq p hj, r.diskInode_other other]

/-- Byte `k` of slot `n`. -/
def slotByte (p : Part sb) (n k : Nat) : Byte := p.disk (inodeAddr sb n + k)

/-- `inode_sync` has written the inode to its slot and left the rest alone. -/
structure Synchronised (p : Part sb) (inode : Inode) (p' : Part sb) : Prop where
  self : ∀ inodeBuf, ∃ loaded, inodeLoad p' inode.iNo inodeBuf = .ok loaded ∧
    loaded.iNo = inode.iNo ∧ loaded.iSize = inode.iSize ∧
    (∀ k < 13, loaded.iSectors k = inode.iSectors k) ∧ loaded.writenDeny = false
  others : ∀ j < 4096, j ≠ inode.iNo → ∀ inodeBuf, inodeLoad p' j inodeBuf = inodeLoad p j inodeBuf
  outside : TableOnly p p'

/-- `inode_delete` has cleared the slot and left the rest alone. -/
structure Cleared (p : Part sb) (n : Nat) (p' : Part sb) : Prop where
  self : ∀ k < inodeBytesLen, slotByte p' n k = 0
  others : ∀ j < 4096, j ≠ n → ∀ k < inodeBytesLen, slotByte p' j k = slotByte p j k
  outside : TableOnly p p'

/-- INODE SLOTS are independent of each other and keep what is synced to them. -/
theorem inode_slots_independent (p : Part sb) (inode : Inode) (ioBuf : Buf) (fits : inode.Fits) :
    (∃ p', inodeSync p inode ioBuf = .ok p' ∧ Synchronised p inode p') ∧
      ∃ p', inodeDelete p inode.iNo ioBuf = .ok p' ∧ Cleared p inode.iNo p' := by
  constructor
  · obtain ⟨p', hsync, replaced⟩ := inodeReplace_ok "inode_sync" p fits.iNo (inodeBytes inode) ioBuf
    refine ⟨p', hsync, ?_, fun j hj other => replaced.load_other hj other, replaced.tableOnly⟩
    intro inodeBuf
    refine ⟨_, inodeLoad_eq p' fits.iNo inodeBuf, ?_⟩
    rw [replaced.diskInode_self fits]
    refine ⟨rfl, rfl, ?_, rfl⟩
    intro k hk
    exact if_pos hk
  · obtain ⟨p', hdelete, replaced⟩ := inodeReplace_ok "inode_delete" p fits.iNo zeros ioBuf
    refine ⟨p', hdelete, ?_, ?_, replaced.tableOnly⟩
    · intro k hk
      unfold slotByte
      rw [replaced.disk, if_pos (by omega)]
      rfl
    · intro j _ other k hk
      unfold slotByte
      rw [replaced.disk, if_neg]
      unfold inodeAddr
      unfold inodeBytesLen at hk ⊢
      omega

/-- A file of six sectors in the slot 6, which begins in the last 56 bytes of a sector. -/
def straddling : Inode := ⟨6, 3000, 0, false, fun k => if k < 6 then 700 + k else 0⟩

/-- The theorem for that inode, on a disk that has 0x5a in every byte. -/
theorem inode_slots_independent_straddling :
    (inodeLocate smallDisk 6).map (·.twoSec) = .ok true ∧
      (∃ p', inodeSync { fullPart with disk := fun _ => 0x5a } straddling zeros = .ok p' ∧
        Synchronised { fullPart with disk := fun _ => 0x5a } straddling p') ∧
      ∃ p', inodeDelete { fullPart with disk := fun _ => 0x5a } straddling.iNo zeros = .ok p' ∧
        Cleared { fullPart with disk := fun _ => 0x5a } straddling.iNo p' := by
  have fits : straddling.Fits := by
    refine ⟨by decide, by decide, fun k hk => ?_⟩
    show (if k < 6 then 700 + k else 0) < 2 ^ 32
    split
    · omega
    · decide
  exact ⟨rfl, inode_slots_independent { fullPart with disk := fun _ => 0x5a } straddling zeros fits⟩

end SeekingOs.Fs
