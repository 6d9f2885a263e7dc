import Mathlib.Data.List.Range
import SeekingOs.Kernel.Base

/-!
# How a disk transfer is split

`ide_read` and `ide_write` give the controller at most 256 sectors at a time. The count goes through
a parameter of 8 bits to `select_sector` and to the function that moves the data, and 256 arrives as
0 at both; the address is spread over four registers, the last of which holds the drive too.

The controller honours its registers: a command is for the sectors that they name when it is given.
`busy_wait` answers as it likes. The lock and the semaphore of the channel are not modelled.
-/

namespace SeekingOs.Device

open Lib

/-- `max_lba` -/
def maxLba : Nat := 80 * 1024 * 1024 / 512 - 1

def cmdReadSector : Byte := 0x20

def cmdWriteSector : Byte := 0x30

/-- `struct disk` -/
structure Disk where
  name : String
  devNo : Nat

/-- The registers of a channel that say which sectors a command is for. -/
structure Registers where
  sectCnt : Byte
  lbaL : Byte
  lbaM : Byte
  lbaH : Byte
  dev : Byte

/-- What the controller takes the registers for. -/
def Registers.count (r : Registers) : Nat := if r.sectCnt = 0 then 256 else r.sectCnt.toNat

def Registers.address (r : Registers) : Nat :=
  r.lbaL.toNat + 2 ^ 8 * r.lbaM.toNat + 2 ^ 16 * r.lbaH.toNat + 2 ^ 24 * (r.dev.toNat % 16)

/-- The number of the drive, and whether addresses are linear. -/
def Registers.drive (r : Registers) : Bool := r.dev.getLsbD 4

def Registers.linear (r : Registers) : Bool := r.dev.getLsbD 6

/-- `outb`: the low 8 bits of a value. -/
def outb (value : Nat) : Byte := BitVec.ofNat 8 value

/-- `BIT_DEV_MBS | BIT_DEV_LBA`, with `BIT_DEV_DEV` for the second drive. -/
def devBits (hd : Disk) : Nat := (0xa0 ||| 0x40) ||| (if hd.devNo = 1 then 0x10 else 0)

/-- `select_sector` -/
def selectSector (hd : Disk) (lba : Nat) (secCnt : Byte) : Except Fault Registers := do
  assertThat false (lba < maxLba) "select_sector" "lba < max_lba"
  return ⟨secCnt, outb lba, outb (lba >>> 8), outb (lba >>> 16), outb (devBits hd ||| lba >>> 24)⟩

/-- The bytes that `read_from_sector` and `write2sector` move. -/
def sizeInBytes (secCnt : Byte) : Nat := if secCnt = 0 then 256 * 512 else secCnt.toNat * 512

/-- One round of the loop: a command with the registers as they are, and the data at an address. -/
structure Round where
  regs : Registers
  cmd : Byte
  buf : Nat
  bytes : Nat

/-- `secs_op` -/
def secsOp (secCnt secsDone : Nat) : Nat :=
  if secsDone + 256 ≤ secCnt then 256 else secCnt - secsDone

theorem secsOp_bounds {secCnt secsDone : Nat} (h : secsDone < secCnt) :
    0 < secsOp secCnt secsDone ∧ secsOp secCnt secsDone ≤ 256 ∧
    secsDone + secsOp secCnt secsDone ≤ secCnt := by
  unfold secsOp
  split <;> omega

/-- What `ide_read` and `ide_write` panic with, when `busy_wait` fails; `op` is what they do. -/
def failedText (hd : Disk) (op : String) (lba : Nat) : String :=
  hd.name ++ " " ++ op ++ " sector " ++ toString lba ++ " failed!!!!\n"

/-- The loop of `ide_read` and `ide_write`; `ready` is what `busy_wait` answers when so many sectors
are done. -/
def transferLoop (func op : String) (cmd : Byte) (ready : Nat → Bool) (hd : Disk)
    (lba buf secCnt secsDone : Nat) : Except Fault (List Round) :=
  if _hmore : secsDone < secCnt then do
    let regs ← selectSector hd (lba + secsDone) (BitVec.ofNat 8 (secsOp secCnt secsDone))
    if ready secsDone = false then throw (.panic func (failedText hd op lba))
    let rest ← transferLoop func op cmd ready hd lba buf secCnt (secsDone + secsOp secCnt secsDone)
    return ⟨regs, cmd, u32 (buf + secsDone * 512),
      sizeInBytes (BitVec.ofNat 8 (secsOp secCnt secsDone))⟩ :: rest
  else return []
termination_by secCnt - secsDone
decreasing_by
  have := secsOp_bounds _hmore
  omega

/-- What `ide_read` and `ide_write` do alike. -/
def transfer (func op : String) (cmd : Byte) (ready : Nat → Bool) (hd : Disk)
    (lba buf secCnt : Nat) : Except Fault (List Round) := do
  assertThat false (lba ≤ maxLba) func "lba <= max_lba"
  assertThat false (0 < secCnt) func "sec_cnt > 0"
  transferLoop func op cmd ready hd lba buf secCnt 0

/-- `ide_read` -/
def ideRead (ready : Nat → Bool) (hd : Disk) (lba buf secCnt : Nat) : Except Fault (List Round) :=
  transfer "ide_read" "read" cmdReadSector ready hd lba buf secCnt

/-- `ide_write` -/
def ideWrite (ready : Nat → Bool) (hd : Disk) (lba buf secCnt : Nat) : Except Fault (List Round) :=
  transfer "ide_write" "write" cmdWriteSector ready hd lba buf secCnt

/-! ## What a transfer should be -/

/-- A round is for the sectors that its registers name, and moves them to or from their place in the
buffer. -/
structure Round.Denotes (hd : Disk) (cmd : Byte) (lba buf : Nat) (r : Round) : Prop where
  cmd : r.cmd = cmd
  drive : r.regs.drive = decide (hd.devNo = 1)
  linear : r.regs.linear = true
  most : r.regs.count ≤ 256
  bytes : r.bytes = 512 * r.regs.count
  after : lba ≤ r.regs.address
  place : r.buf = u32 (buf + 512 * (r.regs.address - lba : Nat))

/-- The rounds cover the sectors, each once and in order. -/
structure Covers (hd : Disk) (cmd : Byte) (lba buf secCnt : Nat) (rounds : List Round) : Prop where
  sectors : (rounds.flatMap fun r => List.range' r.regs.address r.regs.count) =
    List.range' lba secCnt
  each : ∀ r ∈ rounds, r.Denotes hd cmd lba buf

/-! ## The registers -/

variable {hd : Disk} {lba buf secCnt secsDone n : Nat} {cmd : Byte} {func op : String}
  {ready : Nat → Bool}

/-- The count register and the size agree on 0. -/
theorem count_register (h : 0 < n) (h' : n ≤ 256) :
    (if (BitVec.ofNat 8 n) = 0 then 256 else (BitVec.ofNat 8 n).toNat) = n ∧
    sizeInBytes (BitVec.ofNat 8 n) = 512 * n := by
  have zero : BitVec.ofNat 8 n = 0 ↔ n = 256 := by
    rw [← BitVec.toNat_inj, BitVec.toNat_ofNat]
    show n % 256 = 0 ↔ n = 256
    omega
  unfold sizeInBytes
  by_cases all : n = 256
  · rw [if_pos (zero.mpr all), if_pos (zero.mpr all)]
    omega
  · rw [if_neg (mt zero.mp all), if_neg (mt zero.mp all), BitVec.toNat_ofNat]
    omega

/-- The address comes out of the registers as it went in. -/
theorem address_registers (hd : Disk) (hlba : lba < maxLba) (secCnt : Byte) :
    ∃ regs, selectSector hd lba secCnt = .ok regs ∧ regs.sectCnt = secCnt ∧ regs.address = lba ∧
      regs.drive = decide (hd.devNo = 1) ∧ regs.linear = true := by
  have small : lba < 2 ^ 24 := Nat.lt_trans hlba (by decide)
  have high : lba >>> 24 = 0 := by
    rw [Nat.shiftRight_eq_div_pow]
    omega
  have dev : (outb (devBits hd ||| lba >>> 24)).toNat % 16 = 0 ∧
      (outb (devBits hd ||| lba >>> 24)).getLsbD 4 = decide (hd.devNo = 1) ∧
      (outb (devBits hd ||| lba >>> 24)).getLsbD 6 = true := by
    rw [high]
    unfold devBits
    by_cases second : hd.devNo = 1
    · rw [if_pos second, decide_eq_true second]
      decide
    · rw [if_neg second, decide_eq_false second]
      decide
  unfold selectSector
  rw [assertThat_of hlba]
  refine ⟨_, rfl, rfl, ?_, dev.2.1, dev.2.2⟩
  unfold Registers.address
  dsimp only
  rw [dev.1]
  unfold outb
  rw [BitVec.toNat_ofNat, BitVec.toNat_ofNat, BitVec.toNat_ofNat, Nat.shiftRight_eq_div_pow,
    Nat.shiftRight_eq_div_pow]
  omega

/-! ## The loop -/

/-- THE LOOP covers what is left. -/
theorem transferLoop_covers (fits : lba + secCnt ≤ maxLba) (answers : ∀ k, ready k = true)
    (done : secsDone ≤ secCnt) :
    ∃ rounds, transferLoop func op cmd ready hd lba buf secCnt secsDone = .ok rounds ∧
      (rounds.flatMap fun r => List.range' r.regs.address r.regs.count) =
        List.range' (lba + secsDone) (secCnt - secsDone) ∧
      ∀ r ∈ rounds, r.Denotes hd cmd lba buf := by
  induction hleft : secCnt - secsDone using Nat.strong_induction_on generalizing secsDone with
  | _ left ih =>
    subst hleft
    rw [transferLoop]
    split
    next more =>
      obtain ⟨pos, most, within⟩ := secsOp_bounds more
      obtain ⟨regs, hselect, sectCnt, address, drive, linear⟩ :=
        address_registers hd (show lba + secsDone < maxLba by omega)
          (BitVec.ofNat 8 (secsOp secCnt secsDone))
      obtain ⟨rounds, hrest, sectors, each⟩ :=
        ih (secCnt - (secsDone + secsOp secCnt secsDone)) (by omega) within rfl
      obtain ⟨number, size⟩ := count_register pos most
      have count : regs.count = secsOp secCnt secsDone := by
        unfold Registers.count
        rw [sectCnt]
        exact number
      rw [hselect, ok_bind, answers, if_neg (by decide), hrest]
      refine ⟨_, rfl, ?_, ?_⟩
      · have left : secCnt - secsDone =
            secsOp secCnt secsDone + (secCnt - (secsDone + secsOp secCnt secsDone)) := by omega
        rw [List.flatMap_cons, sectors]
        dsimp only
        rw [address, count, ← Nat.add_assoc, left]
        exact List.range'_append_1
      · intro r hr
        rcases List.mem_cons.mp hr with rfl | hr
        · constructor
          · rfl
          · exact drive
          · exact linear
          · rw [count]
            exact most
          · rw [size, count]
          · rw [address]
            exact Nat.le_add_right _ _
          · dsimp only
            rw [address, Nat.add_sub_cancel_left]
            congr 1
            omega
        · exact each r hr
    next done' =>
      refine ⟨[], rfl, ?_, nofun⟩
      rw [show secCnt - secsDone = 0 by omega]
      rfl

/-- DISK TRANSFERS ARE SPLIT EXACTLY, when the controller is ready each time. -/
theorem disk_transfers_exact (ready : Nat → Bool) (hd : Disk) (lba buf secCnt : Nat)
    (answers : ∀ k, ready k = true) (some : 1 ≤ secCnt) (fits : lba + secCnt ≤ maxLba) :
    (∃ rounds, ideRead ready hd lba buf secCnt = .ok rounds ∧
      Covers hd cmdReadSector lba buf secCnt rounds) ∧
      ∃ rounds, ideWrite ready hd lba buf secCnt = .ok rounds ∧
        Covers hd cmdWriteSector lba buf secCnt rounds := by
  have both (func op : String) (cmd : Byte) :
      ∃ rounds, transfer func op cmd ready hd lba buf secCnt = .ok rounds ∧
        Covers hd cmd lba buf secCnt rounds := by
    obtain ⟨rounds, hloop, sectors, each⟩ :=
      @transferLoop_covers hd lba buf secCnt 0 cmd func op ready fits answers (Nat.zero_le secCnt)
    refine ⟨rounds, ?_, sectors, each⟩
    unfold transfer
    rw [assertThat_of (show lba ≤ maxLba by omega), ok_bind,
      assertThat_of (show 0 < secCnt by omega), ok_bind, hloop]
  exact ⟨both _ _ _, both _ _ _⟩

/-- The theorem at 300 sectors from the start of the second disk. -/
theorem disk_transfers_exact_300 :
    (∃ rounds, ideRead (fun _ => true) ⟨"sdb", 1⟩ 0 0 300 = .ok rounds ∧
      Covers ⟨"sdb", 1⟩ cmdReadSector 0 0 300 rounds) ∧
      ∃ rounds, ideWrite (fun _ => true) ⟨"sdb", 1⟩ 0 0 300 = .ok rounds ∧
        Covers ⟨"sdb", 1⟩ cmdWriteSector 0 0 300 rounds :=
  disk_transfers_exact (fun _ => true) ⟨"sdb", 1⟩ 0 0 300 (fun _ => rfl) (by decide) (by decide)

end SeekingOs.Device
