import Mathlib.Order.Interval.Finset.Nat
import SeekingOs.Fs.CrossLinks
import SeekingOs.Fs.FileRead

/-!
# A file as a flat list of bytes

A file made by `file_create` is written to, read and sought in any order. Each `file_write` appends
and each `file_read` gives the bytes from `fd_pos` on, as long as the file stays below the size at
which the assertions of the two functions begin to fail; the sizes that the first check of
`file_write` lets through go further than that.
-/

namespace SeekingOs.Fs

open Lib Lib.Machine

variable {sb : SuperBlock}

/-- A regular file with the `fd_pos` of its descriptor. -/
structure OpenFile (sb : SuperBlock) where
  part : Part sb
  inode : Inode
  fdPos : Nat
  /-- Ghost: everything written so far. -/
  data : List Byte

/-- The calls; `heap` says whether `sys_malloc` answers. -/
inductive FileCall where
  | write (heap : Bool) (src : Buf) (count : Nat)
  | read (heap : Bool) (buf : Buf) (count : Nat)
  | lseek (offset : Int) (whence : Nat)

/-- The answers, `none` for −1; a read answers the caller's buffer too. -/
inductive FileReply where
  | wrote (ret : Option Nat)
  | read (ret : Option Nat) (buf : Buf)
  | sought (ret : Option Nat)

/-- The bytes of a buffer. -/
def bytesOf (src : Buf) (count : Nat) : List Byte := (List.range count).map src

/-- The numbers of a call are of their types. -/
def FileCall.Typed : FileCall → Prop
  | .write _ _ count => count < 2 ^ 32
  | .read _ _ count => count < 2 ^ 32
  | .lseek offset whence => -2 ^ 31 ≤ offset ∧ offset < 2 ^ 31 ∧ whence < 2 ^ 8

/-- What a call does. -/
def fileStep (s : OpenFile sb) : FileCall → Except Fault (OpenFile sb × FileReply)
  | .write heap src count => do
    let r ← fileWrite heap s.part s.inode s.fdPos src count
    let data := if r.ret = none then s.data else s.data ++ bytesOf src count
    return (⟨r.part, r.inode, r.fdPos, data⟩, .wrote r.ret)
  | .read heap buf count => do
    let r ← fileRead heap s.part s.inode s.fdPos buf count
    return ({ s with fdPos := r.fdPos }, .read r.ret r.buf)
  | .lseek offset whence => do
    let (fdPos, ret) ← sysLseek s.inode s.fdPos offset whence
    return ({ s with fdPos := fdPos }, .sought ret)

/-- The file system calls on one regular file. -/
def fileMachine (sb : SuperBlock) : Machine (OpenFile sb) FileCall FileReply Fault where
  enabled _ e := e.Typed
  step := fileStep

/-- The file as `file_create` leaves it: a new inode in `open_inodes`, and a descriptor. -/
def createdFile (p : Part sb) (inodeNo : Nat) : OpenFile sb :=
  ⟨p, { inodeInit inodeNo with iOpenCnts := 1 }, 0, []⟩

variable {p : Part sb} {n : Nat} {s s' : OpenFile sb}

/-- The number of the inode was free in the bitmap of 4096 bits. -/
theorem createdFile_fresh (allocated : p.inodeBitmap.test n = true)
    (root : Taken p sb.dataStartLba) :
    Fresh (createdFile p n).part (createdFile p n).inode where
  iNo := by
    by_contra hge
    have hsize : p.inodeBitmap.size ≤ n := by
      rw [p.inodeSize]
      exact Nat.le_of_not_lt hge
    rw [test_eq_false_of_size_le hsize] at allocated
    cases allocated
  iSize := rfl
  iSectors _ _ := rfl
  root := root

/-! ## Every run keeps the file in shape -/

theorem fileWrite_noHeap {inode : Inode} {fdPos count : Nat} {src : Buf} :
    fileWrite false p inode fdPos src count = .ok ⟨p, inode, fdPos, none⟩ := by
  unfold fileWrite
  split <;> rfl

theorem IsFile.write_keeps {inode : Inode} {heap : Bool} {fdPos count : Nat} {src : Buf}
    {r : FileResult sb Nat} (h : IsFile p inode)
    (hr : fileWrite heap p inode fdPos src count = .ok r) : IsFile r.part r.inode := by
  have hsmall := h.small
  unfold sectorSize at hsmall
  cases heap with
  | false =>
    rw [fileWrite_noHeap] at hr
    cases hr
    exact h
  | true =>
    cases fileWrite_answer (by omega) hr with
    | failed _ => exact h
    | wrote fits _ _ _ => exact .inr (h.write_ok fits hr).shaped

theorem fileStep_keeps {e : FileCall} {o : FileReply} (h : IsFile s.part s.inode)
    (st : fileStep s e = .ok (s', o)) : IsFile s'.part s'.inode := by
  cases e with
  | write heap src count =>
    obtain ⟨r, hr, st⟩ := bind_eq_ok.mp st
    cases st
    exact h.write_keeps hr
  | read heap buf count =>
    obtain ⟨r, _, st⟩ := bind_eq_ok.mp st
    cases st
    exact h
  | lseek offset whence =>
    obtain ⟨⟨fdPos, ret⟩, _, st⟩ := bind_eq_ok.mp st
    cases st
    exact h

/-- The indirect table is there when a read needs it. -/
theorem IsFile.table {inode : Inode} (h : IsFile p inode) (hidx : 12 ≤ inode.iSize / sectorSize) :
    inode.iSectors 12 ≠ 0 := by
  rcases h with fresh | shaped
  · rw [fresh.iSize] at hidx
    cases hidx
  · exact shaped.table.mp (Nat.lt_succ_of_le hidx)

theorem reached_isFile {tr : List (Entry (OpenFile sb) FileCall FileReply)}
    (allocated : p.inodeBitmap.test n = true) (root : Taken p sb.dataStartLba)
    (path : (fileMachine sb).Path (createdFile p n) tr s) : IsFile s.part s.inode := by
  apply Reachable.invariant ⟨tr, path⟩
  · exact Or.inl (createdFile_fresh allocated root)
  · intro s e s' o h _ st
    exact fileStep_keeps h st

/-! ## The sizes that are supported -/

/-- WHICH SIZES ARE SUPPORTED. Of the counts that pass the first check of `file_write` those come
through with which the file stays below 140 blocks, so that the sum does not wrap and the block
after the last byte is one of the 140; and a read gives what it should exactly as `ReadsWell` says.
-/
theorem supported_sizes {tr : List (Entry (OpenFile sb) FileCall FileReply)}
    (allocated : p.inodeBitmap.test n = true) (root : Taken p sb.dataStartLba)
    (path : (fileMachine sb).Path (createdFile p n) tr s) :
    (∀ (heap : Bool) (src : Buf) (count : Nat), count < 2 ^ 32 →
      u32 (s.inode.iSize + count) ≤ 140 * sectorSize →
      (s.inode.iSize + count ≤ 140 * sectorSize → neededBlocks s.inode count ≤ freeCount s.part) →
      ((∃ r, fileWrite heap s.part s.inode s.fdPos src count = .ok r ∧ r.ret = some count) ↔
        heap = true ∧ s.inode.iSize + count < 140 * sectorSize)) ∧
    ∀ (heap : Bool) (buf : Buf) (fdPos count : Nat), fdPos ≤ s.inode.iSize → count < 2 ^ 32 →
      ((∃ r, fileRead heap s.part s.inode fdPos buf count = .ok r ∧
        Reads s.part s.inode fdPos count buf r) ↔
        ReadsWell heap s.inode fdPos count) := by
  have file := reached_isFile allocated root path
  have hsmall := file.small
  have h32 : s.inode.iSize < 2 ^ 32 := by
    unfold sectorSize at hsmall
    omega
  refine ⟨?_, ?_⟩
  · intro heap src count _ _ enough
    constructor
    · rintro ⟨r, hr, hret⟩
      cases heap with
      | false =>
        rw [fileWrite_noHeap] at hr
        cases hr
        cases hret
      | true =>
        cases fileWrite_answer h32 hr with
        | failed _ => cases hret
        | wrote fits _ _ _ => exact ⟨rfl, fits⟩
    · rintro ⟨rfl, fits⟩
      obtain ⟨r, hr, written⟩ := file.write_total s.fdPos src fits (enough (Nat.le_of_lt fits))
      exact ⟨r, hr, written.ret⟩
  · intro heap buf fdPos count hpos hcount
    exact fileRead_iff file.table hpos h32 hcount

/-! ## The flat file -/

/-- The calls that the flat file is about: something is written, the file stays below the size that
can be read, and there are blocks enough; the end of a read does not wrap. -/
def Admitted (s : OpenFile sb) : FileCall → Prop
  | .write _ _ count =>
    1 ≤ count ∧ s.inode.iSize + count ≤ 71167 ∧ neededBlocks s.inode count ≤ freeCount s.part
  | .read _ _ count => s.fdPos + count < 2 ^ 32
  | .lseek _ _ => True

/-- How far a read goes. -/
def readEnd (data : List Byte) (pos count : Nat) : Nat := min (pos + count) data.length

/-- What a call does to the list of bytes `data` and to the offset. Without memory a call answers −1
and does nothing. -/
def Serves (data : List Byte) (s : OpenFile sb) (e : FileCall) : Prop :=
  match e with
  | .write heap src count =>
    ∃ s', fileStep s (.write heap src count) =
      .ok (s', .wrote (if heap then some count else none)) ∧
      contents s'.part s'.inode = if heap then data ++ bytesOf src count else data
  | .read heap buf count =>
    let n := if heap then readEnd data s.fdPos count - s.fdPos else 0
    ∃ s', fileStep s (.read heap buf count) =
        .ok (s', .read (if heap = false ∨ 0 < count ∧ s.fdPos = data.length then none else some n)
          (memcpy buf 0 (fun j => data.getD (s.fdPos + j) 0) n)) ∧
      s'.fdPos = s.fdPos + n ∧ contents s'.part s'.inode = data
  | .lseek _ _ => True

/-- What holds between the calls. -/
structure Flat (s : OpenFile sb) : Prop where
  file : IsFile s.part s.inode
  fdPos : s.fdPos ≤ s.inode.iSize
  small : s.inode.iSize ≤ 71167
  data : contents s.part s.inode = s.data

theorem createdFile_flat (allocated : p.inodeBitmap.test n = true)
    (root : Taken p sb.dataStartLba) :
    Flat (createdFile p n) where
  file := .inl (createdFile_fresh allocated root)
  fdPos := Nat.le_refl _
  small := Nat.zero_le _
  data := rfl

theorem Flat.write (flat : Flat s) {src : Buf} {count : Nat}
    (adm : Admitted s (.write true src count)) :
    ∃ r, fileWrite true s.part s.inode s.fdPos src count = .ok r ∧
      Written s.part s.inode src count r := by
  obtain ⟨_, hsmall, hfree⟩ := adm
  apply flat.file.write_total _ _ ?_ hfree
  unfold sectorSize
  omega

/-- `sys_lseek` sets the offset to a byte of the file or leaves it. -/
theorem sysLseek_answer {inode : Inode} {fdPos : Nat} {offset : Int} {whence : Nat}
    {r : Nat × Option Nat} (h : sysLseek inode fdPos offset whence = .ok r) :
    r = (fdPos, none) ∨ ∃ newPos, r = (newPos, some newPos) ∧
      (newPos : Int) ≤ toSigned 32 (toSigned 32 inode.iSize - 1) := by
  unfold sysLseek at h
  obtain ⟨_, _, h⟩ := bind_eq_ok.mp h
  dsimp only at h
  revert h
  generalize (if whence = seekSet then offset else _) = newPos
  intro h
  split at h
  · cases h
    exact .inl rfl
  next hno =>
    cases h
    rw [not_or, Int.not_lt, Int.not_lt] at hno
    refine .inr ⟨_, rfl, ?_⟩
    rw [Int.toNat_of_nonneg hno.1]
    exact hno.2

/-- That is a byte of the file whatever the size is as a signed number. -/
theorem lt_of_le_toSigned {m n : Nat} (h : (m : Int) ≤ toSigned 32 (toSigned 32 n - 1))
    (hn : n < 2 ^ 32) : m ≤ n := by
  unfold toSigned at h
  omega

theorem Flat.step (flat : Flat s) {e : FileCall} {o : FileReply} (typed : e.Typed)
    (adm : Admitted s e) (st : fileStep s e = .ok (s', o)) : Flat s' := by
  have hfd := flat.fdPos
  have hsmall := flat.small
  cases e with
  | write heap src count =>
    obtain ⟨r, hr, st⟩ := bind_eq_ok.mp st
    cases st
    cases heap with
    | false =>
      rw [fileWrite_noHeap] at hr
      cases hr
      exact ⟨flat.file, flat.fdPos, flat.small, flat.data⟩
    | true =>
      obtain ⟨r', hr', written⟩ := flat.write adm
      obtain ⟨hone, hmax, _⟩ := adm
      rw [hr] at hr'
      cases hr'
      have hsize := written.iSize
      have hpos := written.fdPos
      refine ⟨.inr written.shaped, ?_, ?_, ?_⟩
      · dsimp only
        rw [hpos, hsize]
        unfold u32
        omega
      · dsimp only
        rw [hsize]
        exact hmax
      · dsimp only
        rw [written.contents, flat.data, if_neg (by rw [written.ret]; exact Option.some_ne_none _)]
        rfl
  | read heap buf count =>
    obtain ⟨r, hr, st⟩ := bind_eq_ok.mp st
    cases st
    refine ⟨flat.file, ?_, flat.small, flat.data⟩
    dsimp only
    cases fileRead_answer hfd (by omega) typed hr with
    | failed _ => exact hfd
    | read _ _ _ _ hpos =>
      rw [hpos]
      unfold readable
      omega
  | lseek offset whence =>
    obtain ⟨⟨pos, ret⟩, hr, st⟩ := bind_eq_ok.mp st
    cases st
    refine ⟨flat.file, ?_, flat.small, flat.data⟩
    dsimp only
    rcases sysLseek_answer hr with h | ⟨newPos, h, hle⟩
    · cases h
      exact hfd
    · cases h
      exact lt_of_le_toSigned hle (by omega)

/-- What the calls do to the list of bytes. -/
theorem Flat.serves (flat : Flat s) {e : FileCall} (adm : Admitted s e) : Serves s.data s e := by
  have hfd := flat.fdPos
  have hsmall := flat.small
  have hlen : s.data.length = s.inode.iSize := by rw [← flat.data, length_contents]
  cases e with
  | write heap src count =>
    cases heap with
    | false =>
      refine ⟨s, ?_, flat.data⟩
      unfold fileStep
      dsimp only
      rw [fileWrite_noHeap]
      rfl
    | true =>
      obtain ⟨r, hr, written⟩ := flat.write adm
      refine ⟨⟨r.part, r.inode, r.fdPos, s.data ++ bytesOf src count⟩, ?_, ?_⟩
      · unfold fileStep
        dsimp only
        rw [hr, ok_bind, written.ret]
        rfl
      · dsimp only
        rw [written.contents, flat.data]
        rfl
  | read heap buf count =>
    cases heap with
    | false =>
      refine ⟨s, ?_, rfl, flat.data⟩
      have hnone : fileRead false s.part s.inode s.fdPos buf count = .ok ⟨s.fdPos, buf, none⟩ := by
        unfold fileRead readSized
        rw [if_pos rfl]
        split
        · dsimp only
          split <;> rfl
        · rfl
      unfold fileStep
      dsimp only
      rw [hnone]
      simp [memcpy_none]
    | true =>
      have well : ReadsWell true s.inode s.fdPos count :=
        .inr ⟨rfl, adm, by unfold sectorSize; omega⟩
      obtain ⟨r, hr, reads⟩ :=
        @fileRead_total sb s.part s.inode true s.fdPos count buf flat.file.table hfd (by omega) well
      refine ⟨{ s with fdPos := r.fdPos }, ?_, ?_, flat.data⟩
      · unfold fileStep
        dsimp only
        rw [hr, ok_bind, reads.ret, reads.bytes, flat.data]
        simp only [readable, readEnd, hlen, Bool.true_eq_false, false_or, if_true]
        rfl
      · rw [reads.offset]
        simp only [readable, readEnd, hlen, if_true]
  | lseek offset whence => trivial

/-- A FILE IS A FLAT LIST OF BYTES. In every run of admitted calls the file contains what was
written so far, one write behind the other; the next write appends to it whatever the offset is, the
next read gives its bytes from the offset on, and neither comes to an assertion that fails. -/
theorem file_is_flat {tr : List (Entry (OpenFile sb) FileCall FileReply)}
    (allocated : p.inodeBitmap.test n = true) (root : Taken p sb.dataStartLba)
    (path : (fileMachine sb).Path (createdFile p n) tr s) (admitted : Meets Admitted tr) :
    contents s.part s.inode = s.data ∧ ∀ e : FileCall, Admitted s e → Serves s.data s e := by
  have flat : Flat s := by
    apply path.invariant_of_meets (createdFile_flat allocated root) admitted
    intro s e s' o flat typed st adm
    exact flat.step typed adm st
  exact ⟨flat.data, fun e adm => flat.serves adm⟩

/-! ### A small disk after formatting -/

/-- Byte `k` of the block bitmap: block 0 is the root's, and the bits behind the 3388 blocks are
set. -/
def formattedByte (k : Nat) : Byte :=
  if k = 0 then 1 else if k < 423 then 0 else if k = 423 then 0xf0 else 0xff

/-- The root and the file 1 are allocated. -/
def formattedPart : Part smallDisk where
  disk := zeros
  blockBitmap := ⟨(List.range 512).map formattedByte⟩
  inodeBitmap := ⟨(List.range 512).map fun k => if k = 0 then 3 else 0⟩
  written := []
  blockSize := by
    unfold Bitmap.size
    rw [List.length_map, List.length_range]
    rfl
  inodeSize := by
    unfold Bitmap.size
    rw [List.length_map, List.length_range]

theorem formatted_root : Taken formattedPart smallDisk.dataStartLba :=
  ⟨Nat.le_refl _, by decide +kernel⟩

theorem formatted_free {i : Nat} (h₁ : 8 ≤ i) (h₂ : i < 3384) : i ∈ freeBits formattedPart := by
  have hbyte : formattedPart.blockBitmap.bits.getD (i / 8) 0 = 0 := by
    have hlt : i / 8 < 512 := by omega
    unfold formattedPart
    dsimp only
    rw [List.getD_eq_getElem?_getD, List.getElem?_map, List.getElem?_range hlt]
    simp only [Option.map_some, Option.getD_some, formattedByte]
    rw [if_neg (by omega), if_pos (by omega)]
  unfold freeBits
  rw [Finset.mem_filter, Finset.mem_range]
  refine ⟨Nat.lt_of_lt_of_le h₂ (by decide), ?_⟩
  unfold Bitmap.test
  rw [hbyte]
  simp

theorem formatted_freeCount : 3376 ≤ freeCount formattedPart := by
  have hsub : Finset.Ico 8 3384 ⊆ freeBits formattedPart := by
    intro i hi
    rw [Finset.mem_Ico] at hi
    exact formatted_free hi.1 hi.2
  have hcard := Finset.card_le_card hsub
  rw [Nat.card_Ico] at hcard
  exact hcard

/-- Ten bytes are written to the new file of that disk. -/
theorem formatted_written :
    ∃ (s : OpenFile smallDisk) (tr : List (Entry (OpenFile smallDisk) FileCall FileReply)),
    (fileMachine smallDisk).Path (createdFile formattedPart 1) tr s ∧ Meets Admitted tr ∧
    tr.length = 1 ∧
      contents s.part s.inode = bytesOf zeros 10 ∧ s.inode.iSize = 10 ∧ s.fdPos ≤ 10 := by
  have allocated : formattedPart.inodeBitmap.test 1 = true := by decide +kernel
  have adm : Admitted (createdFile formattedPart 1) (.write true zeros 10) :=
    ⟨by decide, by decide, Nat.le_trans (by decide) formatted_freeCount⟩
  have typed :
      (fileMachine smallDisk).enabled (createdFile formattedPart 1) (.write true zeros 10) :=
    (by decide : 10 < 2 ^ 32)
  have flat := createdFile_flat allocated formatted_root
  obtain ⟨s, st, hbytes⟩ := flat.serves adm
  have hall : contents s.part s.inode = bytesOf zeros 10 := hbytes
  have hsize : s.inode.iSize = 10 := by
    have := congrArg List.length hall
    rwa [length_contents] at this
  have hpos := (flat.step (e := .write true zeros 10) typed adm st).fdPos
  exact ⟨s, _, Path.step .start typed st,
    meets_append.mpr ⟨fun _ h => absurd h List.not_mem_nil, adm⟩, rfl, hall, hsize,
    hsize ▸ hpos⟩

/-- The theorem after that write: as many bytes can be written again, and four of the first ones can
be read. -/
theorem supported_sizes_written : ∃ s : OpenFile smallDisk, s.inode.iSize = 10 ∧
    (∃ r, fileWrite true s.part s.inode s.fdPos zeros 10 = .ok r ∧ r.ret = some 10) ∧
    ∃ r, fileRead true s.part s.inode 0 zeros 4 = .ok r ∧ Reads s.part s.inode 0 4 zeros r := by
  obtain ⟨s, tr, path, -, -, -, hsize, -⟩ := formatted_written
  obtain ⟨write, read⟩ := supported_sizes (n := 1) (by decide +kernel) formatted_root path
  have needs : neededBlocks s.inode 10 = 0 := by
    have first : s.inode.iSectors 0 ≠ 0 := by
      rcases reached_isFile (by decide +kernel) formatted_root path with fresh | shaped
      · have empty := fresh.iSize
        omega
      · exact shaped.first
    unfold neededBlocks
    rw [hsize, if_neg first]
    decide
  refine ⟨s, hsize, (write true zeros 10 (by decide) ?_ fun _ => ?_).mpr ⟨rfl, ?_⟩,
    (read true zeros 0 4 (Nat.zero_le _) (by decide)).mpr ?_⟩
  · rw [hsize]
    decide
  · rw [needs]
    exact Nat.zero_le _
  · rw [hsize]
    decide
  · refine .inr ⟨rfl, by decide, ?_⟩
    rw [hsize]
    decide

/-- A count that fills the 140 blocks passes the first check, and an assertion fails. -/
theorem largest_write_asserts :
    u32 ((createdFile formattedPart 1).inode.iSize + 71680) ≤ 140 * sectorSize ∧
    neededBlocks (createdFile formattedPart 1).inode 71680 ≤ freeCount formattedPart ∧
    ¬ ∃ r, fileWrite true formattedPart (createdFile formattedPart 1).inode 0 zeros 71680 = .ok r ∧
      r.ret = some 71680 := by
  refine ⟨by decide, Nat.le_trans (by decide) formatted_freeCount, ?_⟩
  rintro ⟨r, hr, hret⟩
  cases fileWrite_answer (by decide) hr with
  | failed _ => cases hret
  | wrote fits _ _ _ => exact absurd fits (by decide)

/-- The theorem after that write. -/
theorem file_is_flat_formatted :
    ∃ s : OpenFile smallDisk, contents s.part s.inode = bytesOf zeros 10 ∧
    s.data = bytesOf zeros 10 ∧ Serves s.data s (.read true zeros 4) := by
  obtain ⟨s, tr, path, meets, -, hall, hsize, hpos⟩ := formatted_written
  obtain ⟨hdata, serves⟩ := file_is_flat (n := 1) (by decide +kernel) formatted_root path meets
  refine ⟨s, hall, hdata.symm.trans hall, serves _ ?_⟩
  show s.fdPos + 4 < 2 ^ 32
  omega

end SeekingOs.Fs
