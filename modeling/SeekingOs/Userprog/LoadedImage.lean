import SeekingOs.Fs.FileRuns
import SeekingOs.Userprog.ExecFailed

/-!
# `userprog/exec.c`: which program is in memory

`segment_load` maps the pages of the `p_filesz` bytes that the file has of a segment, and reads
these bytes. `p_memsz` is not looked at, frames are not cleared, and `load` does not look at what
`sys_lseek` and `sys_read` answer. Here it is said of a call that has come to its end when the
program is in memory: what has to be there before.

The byte at an address whose page is not there is the one in the frame that the page gets.
-/

namespace SeekingOs.Exec

open Lib Fs Memory

variable {sb : SuperBlock}

/-! ## The program that the file is -/

/-- A file from an offset on, as memory that it is read to. -/
def fileFrom (p : Part sb) (inode : Inode) (off : Nat) : Buf :=
  fun j => (Fs.contents p inode).getD (off + j) 0

namespace Image

variable (img : Image sb)

/-- The ELF header of the file. -/
def ehdr : Elf32Ehdr := ehdrAt (fileFrom img.part img.inode 0)

/-- Where a program header is in the file. -/
def phdrOff (i : Nat) : Nat := img.ehdr.ePhoff + phdrSize * i

/-- A program header of the file. -/
def phdr (i : Nat) : Elf32Phdr := phdrAt (fileFrom img.part img.inode (img.phdrOff i))

/-- `p_memsz`, which `load` does not look at. -/
def pMemsz (i : Nat) : Nat := rd32 (fileFrom img.part img.inode (img.phdrOff i)) 20

/-- A `PT_LOAD` segment. -/
def Loadable (i : Nat) : Prop := i < img.ehdr.ePhnum ∧ (img.phdr i).pType = ptLoad

instance (i : Nat) : Decidable (img.Loadable i) := inferInstanceAs (Decidable (_ ∧ _))

/-- The addresses of a segment. -/
def InSegment (i a : Nat) : Prop := (img.phdr i).pVaddr ≤ a ∧ a < (img.phdr i).pVaddr + img.pMemsz i

/-- The file has a byte for that address of the segment. -/
def InFile (i a : Nat) : Prop :=
  (img.phdr i).pVaddr ≤ a ∧ a < (img.phdr i).pVaddr + (img.phdr i).pFilesz

instance (i a : Nat) : Decidable (img.InFile i a) := inferInstanceAs (Decidable (_ ∧ _))

/-- What the program has at an address of a segment. -/
def byteOf (i a : Nat) : Byte :=
  if img.InFile i a then fileFrom img.part img.inode (img.phdr i).pOffset (a - (img.phdr i).pVaddr)
  else 0

/-- AN ELF FILE that the checks of `load` accept, and that has its program headers. Its segments are
in the range of the process and apart from each other, and `p_filesz ≤ p_memsz`. -/
structure ElfFile : Prop where
  signed : img.inode.iSize < 2 ^ 31
  table : 12 ≤ img.inode.iSize / sectorSize → img.inode.iSectors 12 ≠ 0
  header : ehdrSize ≤ img.inode.iSize
  checked : img.ehdr.Checked
  headers : ∀ i < img.ehdr.ePhnum, img.phdrOff (i + 1) ≤ img.inode.iSize
  user : ∀ i a, img.Loadable i → img.InSegment i a → UserAddr a
  apart : ∀ i j a, img.Loadable i → img.Loadable j → img.InSegment i a → img.InSegment j a → i = j
  sizes : ∀ i, img.Loadable i → (img.phdr i).pFilesz ≤ img.pMemsz i

/-- The file has all the bytes that its segments refer to. -/
def Whole : Prop :=
  ∀ i, img.Loadable i → (img.phdr i).pOffset + (img.phdr i).pFilesz ≤ img.inode.iSize

/-- THE PROGRAM IS IN MEMORY. -/
def InMemory (c : Caller) : Prop := ∀ i a, img.Loadable i → img.InSegment i a →
  There c.memory (a / 4096) ∧ c.byte a = img.byteOf i a

/-! ## What has to be there before -/

/-- The call answers −1 whatever the segments are: there is no descriptor, a header is not read for
want of memory, or the entry point is −1. -/
def Refused (c : Caller) : Prop :=
  c.freeLocalFd = none ∨ img.heap 0 = false ∨
    (∃ i < img.ehdr.ePhnum, img.heap (2 * i + 1) = false) ∨ toSigned 32 img.ehdr.eEntry = -1

/-- A page that a segment takes: there is a byte of the file in it, or it is the one of `p_vaddr`.
-/
def Takes (i v : Nat) : Prop := v = (img.phdr i).pVaddr / 4096 ∨ ∃ a, img.InFile i a ∧ v = a / 4096

/-- What the header `i` leaves in the heap of the caller. -/
def blocksOf (i : Nat) : List Segment :=
  .ofPatch (img.borrowed (2 * i + 1)) :: if img.Loadable i then
    [.ofPatch (img.borrowed (2 * i + 2))] else []

/-- What is left in the heap before the segment `i` is read. -/
def blocksBefore (i : Nat) : List Segment :=
  .ofPatch (img.borrowed 0) ::
    ((List.range i).flatMap img.blocksOf ++ [.ofPatch (img.borrowed (2 * i + 1))])

/-- What is left in the heap from then on. -/
def blocksAfter (i : Nat) : List Segment :=
  .ofPatch (img.borrowed (2 * i + 2)) ::
    (List.range' (i + 1) (img.ehdr.ePhnum - (i + 1))).flatMap img.blocksOf

/-- A byte of the segment `i` once that is read, when memory was that before: `file_read` needs
memory itself. -/
def readOver (byte : Nat → Byte) (i a : Nat) : Byte :=
  if img.InFile i a ∧ img.heap (2 * i + 2) = true then img.byteOf i a else byte a

/-- THE CALLER IS READY for the program: the pages are there, have come with the heap, or are taken;
and the bytes that are not read are there, also where blocks of the heap are. -/
structure Ready (stays : Segment) (c : Caller) : Prop where
  pages : ∀ i a, img.Loadable i → img.InSegment i a →
    There c.memory (a / 4096) ∨ a / 4096 ∈ stays.pages ∨ ∃ j, img.Loadable j ∧
      img.Takes j (a / 4096)
  bytes : ∀ i a, img.Loadable i → img.InSegment i a →
    laidOver (img.blocksAfter i) (img.readOver (laidOver (stays :: img.blocksBefore i) c.byte) i)
      a = img.byteOf i a

end Image

/-! ## The pages of a segment -/

variable {m m' : Memory} {dirs : List Nat} {v : Nat}

theorem mem_pagesFrom {v w left : Nat} (hfit : v + left ≤ 2 ^ 20) :
    w ∈ pagesFrom v left ↔ v ≤ w ∧ w < v + left := by
  induction left generalizing v with
  | zero =>
    constructor
    · intro h
      cases h
    · rintro ⟨h, h'⟩
      exact absurd h (Nat.not_le.mpr h')
  | succ left ih =>
    unfold pagesFrom
    rw [List.mem_cons]
    cases left with
    | zero =>
      constructor
      · rintro (rfl | h)
        · omega
        · cases h
      · intro h
        exact .inl (by omega)
    | succ left =>
      rw [Nat.mod_eq_of_lt (by omega), ih (by omega)]
      omega

/-- `occupy_pages` counts the pages from the one of `p_vaddr` to the one of the last byte. -/
theorem occupyPages_eq {filesz vaddr : Nat} (hfit : vaddr + filesz ≤ 2 ^ 32) (hpos : 0 < filesz) :
    vaddr / 4096 + occupyPages filesz vaddr = (vaddr + filesz - 1) / 4096 + 1 := by
  unfold occupyPages
  dsimp only
  split
  next h =>
    have hsum : u32 ((filesz : Int) - ((4096 - vaddr % 4096 : Nat) : Int) + 4095) =
        filesz - (4096 - vaddr % 4096) + 4095 := by
      unfold u32
      omega
    rw [hsum]
    omega
  next h => omega

namespace Image

variable {img : Image sb} {i a : Nat}

theorem ElfFile.inSegment_of_inFile (elf : img.ElfFile) (hload : img.Loadable i)
    (h : img.InFile i a) : img.InSegment i a := by
  have := elf.sizes i hload
  unfold InFile at h
  unfold InSegment
  omega

/-- A segment does not reach the kernel. -/
theorem ElfFile.fits (elf : img.ElfFile) (hload : img.Loadable i)
    (hpos : 0 < (img.phdr i).pFilesz) :
    (img.phdr i).pVaddr + (img.phdr i).pFilesz ≤ 2 ^ 32 - 4096 := by
  have last := elf.user i ((img.phdr i).pVaddr + (img.phdr i).pFilesz - 1) hload
    (elf.inSegment_of_inFile hload ⟨by omega, by omega⟩)
  unfold UserAddr UserPage kernelStart at last
  omega

/-- The pages of `segment_load`. -/
theorem ElfFile.mem_pages (elf : img.ElfFile) (hload : img.Loadable i) :
    v ∈ pagesFrom ((img.phdr i).pVaddr / 4096)
      (occupyPages (img.phdr i).pFilesz (img.phdr i).pVaddr) ↔ img.Takes i v := by
  have hlow : (img.phdr i).pVaddr < 2 ^ 32 := rd32_lt _ _
  unfold Takes InFile
  by_cases hpos : 0 < (img.phdr i).pFilesz
  · have hfit := elf.fits hload hpos
    have hpages := occupyPages_eq (Nat.le_trans hfit (by omega)) hpos
    revert hfit hpages hlow hpos
    generalize (img.phdr i).pVaddr = vaddr
    generalize (img.phdr i).pFilesz = filesz
    intro hlow hpos hfit hpages
    rw [mem_pagesFrom (by omega), hpages]
    constructor
    · intro hv
      refine .inr ⟨max vaddr (v * 4096), ?_, ?_⟩
      · omega
      · omega
    · rintro (rfl | ⟨a, ha, rfl⟩)
      · omega
      · omega
  · have hzero : (img.phdr i).pFilesz = 0 := by omega
    have hone : occupyPages 0 (img.phdr i).pVaddr = 1 := rfl
    rw [hzero, hone]
    constructor
    · intro h
      exact .inl (List.mem_singleton.mp h)
    · rintro (rfl | ⟨a, ha, rfl⟩)
      · exact List.mem_singleton.mpr rfl
      · omega

end Image

/-! ## No other page comes -/

/-- The pages of the range that are there were there before, or are of these. -/
def Only (m m' : Memory) (pages : List Nat) : Prop :=
  ∀ v, UserPage v → There m' v → There m v ∨ v ∈ pages

theorem Only.trans {m₁ : Memory} {pages pages' : List Nat} (first : Only m m₁ pages)
    (second : Only m₁ m' pages') : Only m m' (pages ++ pages') := by
  intro v user there
  rcases second v user there with h | h
  · exact (first v user h).imp_right (List.mem_append_left _)
  · exact .inr (List.mem_append_right _ h)

theorem Only.refl (m : Memory) : Only m m [] := fun _ _ there => .inl there

/-- A page of a segment. -/
theorem servePage_only {b : Bool} {s : Recorded Memory Touch} {touched : List Touch}
    (ord : m.Ordered dirs) (run : m.cr3 ∈ dirs)
    (size : userVaddrStart + m.userVaddr.size = kernelStart) (hv : v < 2 ^ 20)
    (h : servePage v ⟨m, touched⟩ = (.ok b, s)) : Only m s.state [v] := by
  have test := pageThere_run ord run hv touched
  intro w user there'
  by_cases hne : w = v
  · exact .inr (List.mem_singleton.mpr hne)
  refine .inl ?_
  by_cases there : There m v
  · rw [decide_eq_true there] at test
    rw [servePage_present test] at h
    cases h
    exact there'
  · rw [decide_eq_false there] at test
    rw [servePage_absent test] at h
    unfold Exec.getAPage at h
    dsimp only at h
    cases hcall : m.getAPage v with
    | error e =>
      rw [hcall] at h
      cases h
    | ok r =>
      rw [hcall] at h
      cases h
      by_cases hbit : bitIdxOf v userVaddrStart < m.userVaddr.size
      · have user' : UserPage v := (bitIdxOf_user size hv).mp hbit
        obtain ⟨-, -, -, -, others⟩ := getAPage_user ord run hbit user'.2 hcall
        have hlow : w < 2 ^ 20 := Nat.lt_trans user.2 (by decide)
        refine ((others w hlow hne).mp there').resolve_right ?_
        have := user.2
        unfold kernelStart at this
        omega
      · have refused : m.getAPage v = .error (.outOfBounds "bitmap_set") := if_neg hbit
        rw [refused] at hcall
        cases hcall

/-- Some pages, one after the other. -/
theorem servePages_only {b : Bool} {s : Recorded Memory Touch} {touched : List Touch}
    {pages : List Nat} (ord : m.Ordered dirs) (run : m.cr3 ∈ dirs)
    (size : userVaddrStart + m.userVaddr.size = kernelStart) (low : ∀ v ∈ pages, v < 2 ^ 20)
    (h : servePages pages ⟨m, touched⟩ = (.ok b, s)) : Only m s.state pages := by
  induction pages generalizing m touched with
  | nil =>
    cases h
    exact .refl m
  | cons v rest ih =>
    rw [List.forall_mem_cons] at low
    unfold servePages at h
    rcases hserve : servePage v ⟨m, touched⟩ with ⟨r, s₁⟩
    cases r with
    | error e =>
      rw [Acts.bind_error hserve] at h
      cases h
    | ok mapped =>
      rw [Acts.bind_ok hserve] at h
      obtain ⟨rfl, first⟩ := servePage_serves ord run size low.1 hserve
      have only := servePage_only ord run size low.1 hserve
      rw [if_pos rfl] at h
      exact only.trans (ih first.ordered (first.cr3 ▸ run) (first.size ▸ size) low.2 h)

/-- The pages of a segment. -/
theorem mapSegment_only {b : Bool} {s : Recorded Memory Touch} {touched : List Touch} {left : Nat}
    (ord : m.Ordered dirs) (run : m.cr3 ∈ dirs)
    (size : userVaddrStart + m.userVaddr.size = kernelStart) (hv : v < 2 ^ 20)
    (h : mapSegment v left ⟨m, touched⟩ = (.ok b, s)) : Only m s.state (pagesFrom v left) := by
  rw [mapSegment_eq] at h
  exact servePages_only ord run size (fun w hw => pagesFrom_lt hv hw) h

variable {c c₁ c' : Caller} {segs segs' : List Segment}

/-- Those segments have gone to the caller, and no page besides. -/
structure Fills (dirs : List Nat) (c c' : Caller) (segs : List Segment) :
    Prop extends Loaded dirs c c' segs where
  only : Only c.memory c'.memory (segs.flatMap Segment.pages)

theorem Fills.trans (first : Fills dirs c c₁ segs) (second : Fills dirs c₁ c' segs') :
    Fills dirs c c' (segs ++ segs') where
  toLoaded := first.toLoaded.trans second.toLoaded
  only := by
    rw [List.flatMap_append]
    exact first.only.trans second.only

theorem Fills.put (ord : c.memory.Ordered dirs) (patch : Patch) :
    Fills dirs c (c.put patch) [.ofPatch patch] :=
  ⟨.put ord patch, fun _ _ there => .inl there⟩

/-- What `sys_open` leaves behind, and no page besides. -/
theorem Fills.keep {stays : Segment} (rn : Runnable dirs c) (user : ∀ v ∈ stays.pages, UserPage v)
    (h : c.keep stays = .ok c') : Fills dirs c c' [stays] := by
  refine ⟨keep_loads rn user h, ?_⟩
  unfold Caller.keep at h
  split at h
  next b s hrun =>
    cases h
    rw [List.flatMap_singleton]
    exact servePages_only rn.ordered rn.run rn.size
      (fun v hv => Nat.lt_trans (user v hv).2 (by decide)) hrun
  next => cases h

theorem Fills.refl (ord : c.memory.Ordered dirs) : Fills dirs c c [] := ⟨.refl ord, .refl _⟩

/-- Which pages there are. -/
theorem Fills.there (fills : Fills dirs c c' segs) (user : UserPage v) :
    There c'.memory v ↔ There c.memory v ∨ v ∈ segs.flatMap Segment.pages := by
  constructor
  · exact fills.only v user
  · rintro (h | h)
    · exact fills.served.kept v (Nat.lt_trans user.2 (by decide)) h
    · exact fills.served.there v h

/-- `segment_load` with the pages that it takes. -/
theorem segmentLoad_fills {img : Image sb} {k fdPos : Nat} {ph : Elf32Phdr} {r : Option Nat}
    (rn : Runnable dirs c) (hv : ph.pVaddr < 2 ^ 32)
    (hcall : c.segmentLoad img k fdPos ph = .ok (r, c')) :
    ∃ r', img.segmentAt k fdPos ph = .ok r' ∧ r = some r'.fdPos ∧
      Fills dirs c c' [⟨pagesFrom (ph.pVaddr / 4096) (occupyPages ph.pFilesz ph.pVaddr),
        bytesAt ph.pVaddr r'⟩, .ofPatch (img.borrowed k)] := by
  obtain ⟨r', hsegment, hr, loaded⟩ := segmentLoad_loads rn hv hcall
  refine ⟨r', hsegment, hr, loaded, ?_⟩
  unfold Caller.segmentLoad at hcall
  obtain ⟨⟨mapped, c₁⟩, hmap, hcall⟩ := bind_eq_ok.mp hcall
  have only :
      Only c.memory c₁.memory (pagesFrom (ph.pVaddr / 4096) (occupyPages ph.pFilesz ph.pVaddr) ++
        []) := by
    rw [List.append_nil]
    unfold Caller.mapSegment at hmap
    split at hmap
    next mapped' s hrun =>
      cases hmap
      exact mapSegment_only rn.ordered rn.run rn.size (Nat.div_lt_of_lt_mul hv) hrun
    next => cases hmap
  dsimp only at hcall
  split at hcall
  · obtain ⟨⟨pos, ret⟩, hseek, hcall⟩ := bind_eq_ok.mp hcall
    obtain ⟨⟨pos', c₂⟩, hread, hcall⟩ := bind_eq_ok.mp hcall
    cases hcall
    unfold Caller.sysRead at hread
    obtain ⟨_, -, hread⟩ := bind_eq_ok.mp hread
    obtain ⟨_, -, hread⟩ := bind_eq_ok.mp hread
    obtain ⟨_, -, hread⟩ := bind_eq_ok.mp hread
    cases hread
    exact only
  · cases hcall
    exact only

/-! ## What is read -/

section

variable {p : Part sb} {inode : Inode} {heap : Bool} {fdPos count : Nat} {r : ReadResult}

/-- A read of bytes that the file has. -/
theorem fileRead_whole (signed : inode.iSize < 2 ^ 31) (table : 12 ≤ inode.iSize / sectorSize →
      inode.iSectors 12 ≠ 0) (hpos : 0 < count) (hend : fdPos + count ≤ inode.iSize)
    (h : fileRead heap p inode fdPos zeros count = .ok r) :
    heap = false ∧ r.ret = none ∨ heap = true ∧ r.ret = some count ∧
    ∀ j < count, r.buf j = fileFrom p inode fdPos j := by
  have hsize : inode.iSize < 2 ^ 32 := Nat.lt_trans signed (by decide)
  have hread : readable inode fdPos count = count := by
    unfold readable
    omega
  cases fileRead_answer (by omega) hsize (by omega) h with
  | failed hwhy =>
    refine .inl ⟨hwhy.resolve_right ?_, rfl⟩
    rintro ⟨⟨-, hatEnd⟩, -⟩
    omega
  | read hheap hwrap fits hret hfdPos =>
    obtain ⟨r', h', reads⟩ : ∃ r', fileRead heap p inode fdPos zeros count = .ok r' ∧
      Reads p inode fdPos count zeros r' :=
      fileRead_total table (by omega) hsize (.inr ⟨hheap, hwrap, fits⟩)
    obtain rfl : r = r' := Except.ok.inj (h.symm.trans h')
    refine .inr ⟨hheap, hret.trans (congrArg some hread), ?_⟩
    intro j hj
    rw [reads.bytes, hread]
    unfold memcpy
    rw [if_pos ⟨Nat.zero_le j, by omega⟩]
    rfl

/-- Whatever is read, `fd_pos` stays inside the file, and no more than is asked for is read. -/
theorem fileRead_inside (signed : inode.iSize < 2 ^ 31) (hcount : count < 2 ^ 32)
    (hpos : fdPos ≤ inode.iSize) (h : fileRead heap p inode fdPos zeros count = .ok r) :
    r.fdPos ≤ inode.iSize ∧ r.ret.getD 0 ≤ count := by
  cases fileRead_answer hpos (Nat.lt_trans signed (by decide)) hcount h with
  | failed => exact ⟨hpos, Nat.zero_le count⟩
  | read _ _ _ hret hfdPos =>
    rw [hret, hfdPos]
    unfold readable
    rw [Option.getD_some]
    omega

/-- `sys_lseek` to a byte of the file. -/
theorem seekTo_inside {offset : Nat} (signed : inode.iSize < 2 ^ 31) (h : offset < inode.iSize) :
    seekTo inode fdPos offset = .ok (offset, some offset) := by
  have hoffset : toSigned 32 (offset : Nat) = offset := by
    unfold toSigned
    omega
  have hlast : toSigned 32 (toSigned 32 inode.iSize - 1) = inode.iSize - 1 := by
    unfold toSigned
    omega
  unfold seekTo sysLseek
  rw [assertThat_of (by decide), ok_bind]
  dsimp only
  rw [if_pos rfl, hoffset, hlast, if_neg (by omega)]
  rfl

/-- `sys_lseek` to anywhere. -/
theorem seekTo_stays {offset : Nat} {sought : Nat × Option Nat} (signed : inode.iSize < 2 ^ 31)
    (hpos : fdPos ≤ inode.iSize) (h : seekTo inode fdPos offset = .ok sought) :
    sought.1 ≤ inode.iSize := by
  rcases sysLseek_answer h with rfl | ⟨newPos, rfl, hle⟩
  · exact hpos
  · exact lt_of_le_toSigned hle (Nat.lt_trans signed (by decide))

end

/-! ## The headers -/

theorem rd16_congr {buf buf' : Buf} {off n : Nat} (h : ∀ j < n, buf j = buf' j)
    (hoff : off + 1 < n) : rd16 buf off = rd16 buf' off := by
  unfold rd16
  rw [h off (by omega), h (off + 1) (by omega)]

theorem rd32_congr {buf buf' : Buf} {off n : Nat} (h : ∀ j < n, buf j = buf' j)
    (hoff : off + 3 < n) : rd32 buf off = rd32 buf' off := by
  unfold rd32
  rw [h off (by omega), h (off + 1) (by omega), h (off + 2) (by omega), h (off + 3) (by omega)]

theorem phdrAt_congr {buf buf' : Buf} (h : ∀ j < phdrSize, buf j = buf' j) :
    phdrAt buf = phdrAt buf' := by
  unfold phdrSize at h
  unfold phdrAt
  rw [rd32_congr h (by decide), rd32_congr h (by decide : 4 + 3 < 32),
    rd32_congr h (by decide : 8 + 3 < 32),
    rd32_congr h (by decide : 16 + 3 < 32)]

/-- What `load` looks at in the ELF header. -/
structure SameHeader (h h' : Elf32Ehdr) : Prop where
  checked : h.Checked ↔ h'.Checked
  eEntry : h.eEntry = h'.eEntry
  ePhoff : h.ePhoff = h'.ePhoff
  ePhnum : h.ePhnum = h'.ePhnum

theorem ehdrAt_same {buf buf' : Buf} (h : ∀ j < ehdrSize, buf j = buf' j) :
    SameHeader (ehdrAt buf) (ehdrAt buf') := by
  unfold ehdrSize at h
  have magic : (List.range 7).map buf = (List.range 7).map buf' := by
    apply List.map_congr_left
    intro j hj
    exact h j (Nat.lt_trans (List.mem_range.mp hj) (by decide))
  refine ⟨?_, rd32_congr h (by decide), rd32_congr h (by decide), rd16_congr h (by decide)⟩
  unfold Elf32Ehdr.Checked ehdrAt
  dsimp only
  rw [magic, rd16_congr h (by decide : 16 + 1 < 52), rd16_congr h (by decide : 18 + 1 < 52),
    rd32_congr h (by decide : 20 + 3 < 52),
    rd16_congr h (by decide : 44 + 1 < 52), rd16_congr h (by decide : 42 + 1 < 52)]

namespace Image

variable {img : Image sb} {i a fdPos : Nat} {r : ReadResult}

variable (img) in
/-- The bytes of a segment that are read. -/
def filePatch (i : Nat) : Patch :=
  fun a => if img.InFile i a ∧ img.heap (2 * i + 2) = true then some (img.byteOf i a) else none

theorem ElfFile.phdrOff_lt (elf : img.ElfFile) (hi : i < img.ehdr.ePhnum) :
    img.phdrOff i + phdrSize ≤ img.inode.iSize ∧
    u32 (img.phdrOff i + phdrSize : Nat) = img.phdrOff (i + 1) := by
  have hend := elf.headers i hi
  have signed := elf.signed
  have hnext : img.phdrOff (i + 1) = img.phdrOff i + phdrSize := by
    unfold phdrOff
    rw [Nat.mul_succ, Nat.add_assoc]
  rw [hnext] at hend ⊢
  refine ⟨hend, u32_of_lt ?_⟩
  omega

/-- A header of the file. -/
theorem ElfFile.headerAt (elf : img.ElfFile) (hi : i < img.ehdr.ePhnum)
    (h : fileRead (img.heap (2 * i + 1)) img.part img.inode
      (img.phdrOff i) zeros phdrSize = .ok r) :
    r.fdPos ≤ img.inode.iSize ∧ (img.heap (2 * i + 1) = false ∧ r.ret = none ∨
      img.heap (2 * i + 1) = true ∧ r.ret = some phdrSize ∧ phdrAt r.buf = img.phdr i) := by
  have hend := (elf.phdrOff_lt hi).1
  refine ⟨(fileRead_inside elf.signed (by decide) (by omega) h).1, ?_⟩
  rcases fileRead_whole elf.signed elf.table (by decide) hend h with hno | ⟨hheap, hret, hbytes⟩
  · exact .inl hno
  · exact .inr ⟨hheap, hret, phdrAt_congr hbytes⟩

/-- THE BYTES OF A SEGMENT that the file has. -/
theorem ElfFile.segmentAt (elf : img.ElfFile) (hload : img.Loadable i)
    (whole : (img.phdr i).pOffset + (img.phdr i).pFilesz ≤ img.inode.iSize)
    (hpos : fdPos ≤ img.inode.iSize) (h : img.segmentAt (2 * i + 2) fdPos (img.phdr i) = .ok r) :
    bytesAt (img.phdr i).pVaddr r = img.filePatch i := by
  unfold Image.segmentAt at h
  obtain ⟨sought, hseek, h⟩ := bind_eq_ok.mp h
  have hto := seekTo_stays elf.signed hpos hseek
  funext a
  unfold bytesAt filePatch
  by_cases hzero : (img.phdr i).pFilesz = 0
  · have hnone : r.ret.getD 0 = 0 := by
      rw [hzero] at h
      exact Nat.le_zero.mp (fileRead_inside elf.signed (by decide) hto h).2
    rw [if_neg (by omega), if_neg]
    unfold InFile
    omega
  · have hfits := elf.fits hload (Nat.pos_of_ne_zero hzero)
    rw [seekTo_inside elf.signed (by omega)] at hseek
    cases hseek
    rcases fileRead_whole elf.signed elf.table (Nat.pos_of_ne_zero hzero) whole h
      with ⟨hheap, hret⟩ | ⟨hheap, hret, hbytes⟩
    · rw [hret, if_neg (by intro h; exact Nat.not_lt_zero _ h.2),
        if_neg (by rw [hheap]; intro h; cases h.2)]
    · rw [hret, hheap, Option.getD_some]
      by_cases hin : img.InFile i a
      · have hk : (2 ^ 32 + a - (img.phdr i).pVaddr) % 2 ^ 32 = a - (img.phdr i).pVaddr := by
          unfold InFile at hin
          omega
        rw [hk]
        unfold InFile at hin
        rw [if_pos ⟨by omega, by omega⟩, if_pos ⟨hin, rfl⟩, hbytes _ (by omega)]
        exact congrArg some (if_pos hin).symm
      · rw [if_neg, if_neg fun h => hin h.1]
        rintro ⟨hlow, hk⟩
        apply hin
        unfold InFile
        omega

end Image

/-! ## The loop of `load` -/

section

variable {img : Image sb} {h : Elf32Ehdr} {i fdPos : Nat}

variable (img) in
/-- What a header has for the caller, when the file is whole. -/
def Image.piece (i : Nat) : List Segment :=
  .ofPatch (img.borrowed (2 * i + 1)) ::
    if img.Loadable i then
      [⟨pagesFrom ((img.phdr i).pVaddr / 4096)
        (occupyPages (img.phdr i).pFilesz (img.phdr i).pVaddr), img.filePatch i⟩,
        .ofPatch (img.borrowed (2 * i + 2))]
    else []

/-- What has become of headers: one is not read, or all of them have gone to the caller. -/
inductive Round (dirs : List Nat) (img : Image sb) (is : List Nat) (c c' : Caller) :
    Option Nat → Prop
  | unread {i : Nat} : i ∈ is → img.heap (2 * i + 1) = false → Round dirs img is c c' none
  | loaded {pos : Nat} (segs : List Segment) : (∀ i ∈ is, img.heap (2 * i + 1) = true) →
      Fills dirs c c' segs →
      (img.Whole → segs = is.flatMap img.piece) → Round dirs img is c c' (some pos)

/-- A ROUND of the loop. -/
theorem loadHeader_round (elf : img.ElfFile) (rn : Runnable dirs c) (hi : i < img.ehdr.ePhnum)
    (hsize : h.ePhentsize = phdrSize) {r : Option Nat}
    (hcall : c.loadHeader img h i (img.phdrOff i) fdPos = .ok (r, c')) :
    Round dirs img [i] c c' r := by
  unfold Caller.loadHeader at hcall
  have hend := (elf.phdrOff_lt hi).1
  rw [hsize, seekTo_inside elf.signed (by unfold phdrSize at hend; omega), ok_bind] at hcall
  obtain ⟨rr, hfile, hcall⟩ := bind_eq_ok.mp hcall
  obtain ⟨hin, hheader⟩ := elf.headerAt hi hfile
  have first : Fills dirs c (c.put (img.borrowed (2 * i + 1)))
      [.ofPatch (img.borrowed (2 * i + 1))] := .put rn.ordered _
  dsimp only at hcall
  rcases hheader with ⟨hheap, hret⟩ | ⟨hheap, hret, hphdr⟩
  · rw [hret, if_pos (Option.some_ne_none phdrSize).symm] at hcall
    cases hcall
    exact .unread (List.mem_singleton.mpr rfl) hheap
  have hall : ∀ j ∈ [i], img.heap (2 * j + 1) = true := by
    intro j hj
    rw [List.mem_singleton.mp hj]
    exact hheap
  rw [hret, if_neg (not_not.mpr rfl), hphdr] at hcall
  by_cases isLoad : (img.phdr i).pType = ptLoad
  · rw [if_pos isLoad] at hcall
    have hload : img.Loadable i := ⟨hi, isLoad⟩
    obtain ⟨r', hsegment, rfl, rest⟩ := segmentLoad_fills (first.runnable rn) (rd32_lt _ _) hcall
    refine .loaded _ hall (first.trans rest) ?_
    intro whole
    rw [List.flatMap_singleton, elf.segmentAt hload (whole i hload) hin hsegment]
    unfold Image.piece
    rw [if_pos hload]
    rfl
  · rw [if_neg isLoad] at hcall
    cases hcall
    refine .loaded _ hall first ?_
    intro _
    rw [List.flatMap_singleton]
    unfold Image.piece
    rw [if_neg fun hload => isLoad hload.2]

/-- What the loop answers: −1, or the entry point with all the headers done. -/
inductive Rounds (dirs : List Nat) (img : Image sb) (is : List Nat) (c c' : Caller) : Int → Prop
  | unread {i : Nat} : i ∈ is → img.heap (2 * i + 1) = false → Rounds dirs img is c c' (-1)
  | loaded (segs : List Segment) : (∀ i ∈ is, img.heap (2 * i + 1) = true) → Fills dirs c c' segs →
      (img.Whole → segs = is.flatMap img.piece) →
      Rounds dirs img is c c' (toSigned 32 img.ehdr.eEntry)

/-- THE LOOP, from a header on. -/
theorem loadHeaders_rounds (elf : img.ElfFile) {left : Nat} {ret : Int} (rn : Runnable dirs c)
    (hleft : i + left = img.ehdr.ePhnum) (hsize : h.ePhentsize = phdrSize)
    (hentry : h.eEntry = img.ehdr.eEntry)
    (hcall : Caller.loadHeaders img h left i (img.phdrOff i) fdPos c = .ok (ret, c')) :
    Rounds dirs img (List.range' i left) c c' ret := by
  induction left generalizing i fdPos c with
  | zero =>
    obtain ⟨rfl, rfl⟩ := Prod.mk.inj (Except.ok.inj hcall)
    rw [hentry]
    exact .loaded [] (fun _ hmem => absurd hmem List.not_mem_nil) (.refl rn.ordered) fun _ => rfl
  | succ left ih =>
    unfold Caller.loadHeaders at hcall
    obtain ⟨⟨r, c₁⟩, hheader, hcall⟩ := bind_eq_ok.mp hcall
    have hi : i < img.ehdr.ePhnum := by omega
    have hnext := (elf.phdrOff_lt hi).2
    rw [Int.natCast_add] at hnext
    rw [List.range'_succ]
    cases loadHeader_round elf rn hi hsize hheader with
    | unread hmem hheap =>
      obtain ⟨rfl, rfl⟩ := Prod.mk.inj (Except.ok.inj hcall)
      rw [List.mem_singleton.mp hmem] at hheap
      exact .unread List.mem_cons_self hheap
    | loaded segs hall first hsegs =>
      dsimp only at hcall
      rw [hsize, hnext] at hcall
      cases ih (first.runnable rn) (by omega) hcall with
      | unread hmem hheap => exact .unread (List.mem_cons_of_mem _ hmem) hheap
      | loaded segs' hall' rest hsegs' =>
        refine .loaded (segs ++ segs') ?_ (first.trans rest) ?_
        · intro j hj
          rcases List.mem_cons.mp hj with rfl | hj
          · exact hall j List.mem_cons_self
          · exact hall' j hj
        · intro whole
          rw [hsegs whole, hsegs' whole, List.flatMap_singleton, List.flatMap_cons]

/-- `load` after `sys_open`. -/
inductive Opened (dirs : List Nat) (img : Image sb) (c c' : Caller) : Int → Prop
  | unread : img.heap 0 = false ∨ (∃ i < img.ehdr.ePhnum, img.heap (2 * i + 1) = false) →
      Opened dirs img c c' (-1)
  | loaded (segs : List Segment) : img.heap 0 = true →
      (∀ i < img.ehdr.ePhnum, img.heap (2 * i + 1) = true) → Fills dirs c c' segs →
      (img.Whole → segs = .ofPatch (img.borrowed 0) ::
        (List.range img.ehdr.ePhnum).flatMap img.piece) →
      Opened dirs img c c' (toSigned 32 img.ehdr.eEntry)

theorem loadOpened_opened (elf : img.ElfFile) {ret : Int} (rn : Runnable dirs c)
    (hcall : c.loadOpened img = .ok (ret, c')) : Opened dirs img c c' ret := by
  unfold Caller.loadOpened at hcall
  obtain ⟨r, hfile, hcall⟩ := bind_eq_ok.mp hcall
  have first : Fills dirs c (c.put (img.borrowed 0)) [.ofPatch (img.borrowed 0)] :=
    .put rn.ordered _
  have hend : 0 + ehdrSize ≤ img.inode.iSize := by
    rw [Nat.zero_add]
    exact elf.header
  dsimp only at hcall
  rcases fileRead_whole elf.signed elf.table (by decide) hend hfile
    with ⟨hheap, hret⟩ | ⟨hheap, hret, hbytes⟩
  · rw [hret, if_pos (Option.some_ne_none ehdrSize).symm] at hcall
    cases hcall
    exact .unread (.inl hheap)
  have same : SameHeader (ehdrAt r.buf) img.ehdr := ehdrAt_same hbytes
  have checked := same.checked.mpr elf.checked
  rw [hret, if_neg (not_not.mpr rfl), if_neg (not_not.mpr checked), same.ePhnum,
    same.ePhoff] at hcall
  have hoff : img.ehdr.ePhoff = img.phdrOff 0 := rfl
  rw [hoff] at hcall
  have rounds :=
    loadHeaders_rounds elf (first.runnable rn) (Nat.zero_add _) checked.2.2.2.2.2 same.eEntry hcall
  rw [← List.range_eq_range'] at rounds
  cases rounds with
  | unread hmem hno => exact .unread (.inr ⟨_, List.mem_range.mp hmem, hno⟩)
  | loaded segs hall fills hsegs =>
    refine .loaded (.ofPatch (img.borrowed 0) :: segs) hheap ?_ (first.trans fills) ?_
    · intro i hi
      exact hall i (List.mem_range.mpr hi)
    · intro whole
      rw [hsegs whole]

/-- `load` ANSWERS −1 exactly when it is refused, and else the whole file has gone to the caller. -/
theorem load_opened {opening : Opening sb} (hfile : opening.file = some img) (elf : img.ElfFile)
    {ret : Int} (rn : Runnable dirs c) (hcall : c.load opening = .ok (ret, c')) :
    (ret = -1 ↔ img.Refused c) ∧
      (ret ≠ -1 → img.Whole → Fills dirs c c' (opening.stays :: .ofPatch (img.borrowed 0) ::
        (List.range img.ehdr.ePhnum).flatMap img.piece)) := by
  unfold Caller.load at hcall
  obtain ⟨c₀, hkeep, hcall⟩ := bind_eq_ok.mp hcall
  have first : Fills dirs c c₀ [opening.stays] := .keep rn opening.user hkeep
  have same : c₀.freeLocalFd = c.freeLocalFd := by
    unfold Caller.freeLocalFd
    rw [first.fdTable]
  rw [hfile] at hcall
  dsimp only at hcall
  rw [same] at hcall
  cases hfd : c.freeLocalFd with
  | none =>
    rw [hfd] at hcall
    cases hcall
    exact ⟨iff_of_true rfl (.inl hfd), fun hne => absurd rfl hne⟩
  | some fd =>
    rw [hfd] at hcall
    obtain ⟨⟨ret', c₁⟩, hopened, hcall⟩ := bind_eq_ok.mp hcall
    obtain ⟨c₂, hclose, hcall⟩ := bind_eq_ok.mp hcall
    cases hcall
    unfold Caller.closeFd at hclose
    obtain ⟨_, -, hclose⟩ := bind_eq_ok.mp hclose
    cases hclose
    have rn₁ := first.runnable rn
    have opened :=
      loadOpened_opened (c := c₀.setFd fd img.fdIdx) elf ⟨rn₁.ordered, rn₁.run, rn₁.size⟩ hopened
    have hfree : c.freeLocalFd ≠ none := by
      rw [hfd]
      exact Option.some_ne_none fd
    unfold Image.Refused
    rw [or_iff_right hfree]
    cases opened with
    | unread hno => exact ⟨iff_of_true rfl (hno.imp_right .inl), fun hne => absurd rfl hne⟩
    | loaded segs hheap hall fills hsegs =>
      constructor
      · constructor
        · exact fun hentry => .inr (.inr hentry)
        · rintro (hno | ⟨i, hi, hno⟩ | hentry)
          · rw [hheap] at hno
            cases hno
          · rw [hall i hi] at hno
            cases hno
          · exact hentry
      · intro _ whole
        rw [← hsegs whole]
        have loaded : Loaded dirs c { c₁ with fdTable := (c₁.setFd fd (-1)).fdTable }
            (opening.stays :: segs) := by
          refine first.toLoaded.trans ⟨fills.served, fills.byte, fills.name, ?_⟩
          show Function.update c₁.fdTable fd (-1) = _
          rw [fills.fdTable]
          exact setFd_back (same.trans hfd) _
        have only : Only c.memory c₀.memory opening.stays.pages := by
          have only := first.only
          rwa [List.flatMap_singleton] at only
        exact ⟨loaded, only.trans fills.only⟩

end

/-! ## What is at an address in the end -/

theorem laidOver_append (segs segs' : List Segment) (byte : Nat → Byte) :
    laidOver (segs ++ segs') byte = laidOver segs' (laidOver segs byte) :=
  List.foldl_append

theorem onto_congr {patch : Patch} {byte byte' : Nat → Byte} {a : Nat} (h : byte a = byte' a) :
    patch.onto byte a = patch.onto byte' a := by
  unfold Patch.onto
  rw [h]

/-- What is at an address comes from there. -/
theorem laidOver_congr {byte byte' : Nat → Byte} {a : Nat} (segs : List Segment)
    (h : byte a = byte' a) : laidOver segs byte a = laidOver segs byte' a := by
  induction segs generalizing byte byte' with
  | nil => exact h
  | cons s segs ih => exact @ih (s.patch.onto byte) (s.patch.onto byte') (onto_congr h)

namespace Image

variable {img : Image sb} {i a : Nat} {byte : Nat → Byte}

/-- A header of which no byte goes to the address. -/
theorem laidOver_piece (h : img.Loadable i → ¬ img.InFile i a) :
    laidOver (img.piece i) byte a = laidOver (img.blocksOf i) byte a := by
  unfold piece blocksOf
  by_cases hload : img.Loadable i
  · rw [if_pos hload, if_pos hload]
    have hnone : img.filePatch i a = none := if_neg fun hin => h hload hin.1
    show (img.borrowed (2 * i + 2)).onto
      ((img.filePatch i).onto ((img.borrowed (2 * i + 1)).onto byte)) a = _
    have hsame : (img.filePatch i).onto ((img.borrowed (2 * i + 1)).onto byte) a =
        (img.borrowed (2 * i + 1)).onto byte a := by
      rw [Patch.onto, hnone]
      rfl
    exact onto_congr hsame
  · rw [if_neg hload, if_neg hload]

theorem laidOver_pieces {is : List Nat} (h : ∀ j ∈ is, img.Loadable j → ¬ img.InFile j a) :
    laidOver (is.flatMap img.piece) byte a = laidOver (is.flatMap img.blocksOf) byte a := by
  induction is generalizing byte with
  | nil => rfl
  | cons j is ih =>
    rw [List.flatMap_cons, List.flatMap_cons, laidOver_append, laidOver_append,
      ih fun k hk => h k (List.mem_cons_of_mem _ hk)]
    exact laidOver_congr _ (laidOver_piece (h j List.mem_cons_self))

theorem range_split {i n : Nat} (hi : i < n) :
    List.range n = List.range i ++ i :: List.range' (i + 1) (n - (i + 1)) := by
  obtain ⟨k, rfl⟩ := Nat.exists_eq_add_of_lt hi
  rw [show i + k + 1 = i + (k + 1) by omega, List.range_add,
    show i + (k + 1) - (i + 1) = k by omega, ← List.range'_succ,
    List.range'_eq_map_range]

/-- AN ADDRESS OF A SEGMENT: only its own bytes and blocks of the heap come there. -/
theorem ElfFile.byte_at (elf : img.ElfFile) (hload : img.Loadable i) (hin : img.InSegment i a)
    (stays : Segment) :
    laidOver (stays :: .ofPatch (img.borrowed 0) :: (List.range img.ehdr.ePhnum).flatMap img.piece)
      byte a =
      laidOver (img.blocksAfter i) (img.readOver (laidOver (stays :: img.blocksBefore i) byte) i)
        a := by
  have others : ∀ j, j ≠ i → img.Loadable j → ¬ img.InFile j a := by
    intro j hne hj hfile
    exact hne (elf.apart j i a hj hload (elf.inSegment_of_inFile hj hfile) hin)
  have before : ∀ j ∈ List.range i, img.Loadable j → ¬ img.InFile j a :=
    fun j hj => others j (Nat.ne_of_lt (List.mem_range.mp hj))
  have after : ∀ j ∈ List.range' (i + 1) (img.ehdr.ePhnum - (i + 1)), img.Loadable j →
      ¬ img.InFile j a :=
    fun j hj => others j (Nat.ne_of_gt (List.mem_range'_1.mp hj).1)
  rw [range_split hload.1, List.flatMap_append, List.flatMap_cons]
  show laidOver (_ ++ (_ ++ _)) ((img.borrowed 0).onto (stays.patch.onto byte)) a = _
  rw [laidOver_append, laidOver_append, laidOver_pieces after]
  unfold blocksAfter
  show _ = laidOver _ ((img.borrowed (2 * i + 2)).onto _) a
  apply laidOver_congr
  unfold piece
  rw [if_pos hload]
  show (img.borrowed (2 * i + 2)).onto ((img.filePatch i).onto ((img.borrowed (2 * i + 1)).onto _))
    a = _
  apply onto_congr
  unfold readOver
  rw [Patch.onto, filePatch]
  by_cases hread : img.InFile i a ∧ img.heap (2 * i + 2) = true
  · rw [if_pos hread, if_pos hread]
    rfl
  · rw [if_neg hread, if_neg hread]
    unfold blocksBefore
    show _ = laidOver (_ ++ _) ((img.borrowed 0).onto (stays.patch.onto byte)) a
    rw [laidOver_append]
    exact onto_congr (laidOver_pieces before)

/-- The pages that come, with the heap or with the file. -/
theorem ElfFile.pages_taken (elf : img.ElfFile) (stays : Segment) {v : Nat} :
    v ∈ (stays :: .ofPatch (img.borrowed 0) :: (List.range img.ehdr.ePhnum).flatMap
      img.piece).flatMap Segment.pages ↔
      v ∈ stays.pages ∨ ∃ j, img.Loadable j ∧ img.Takes j v := by
  show v ∈ stays.pages ++ ((List.range img.ehdr.ePhnum).flatMap img.piece).flatMap Segment.pages ↔ _
  rw [List.mem_append, List.flatMap_assoc, List.mem_flatMap]
  apply or_congr_right
  constructor
  · rintro ⟨j, hj, hv⟩
    unfold piece at hv
    by_cases hload : img.Loadable j
    · rw [if_pos hload] at hv
      have hv : v ∈ pagesFrom _ _ ++ ([] ++ []) := hv
      rw [List.append_nil, List.append_nil] at hv
      exact ⟨j, hload, (elf.mem_pages hload).mp hv⟩
    · rw [if_neg hload] at hv
      cases hv
  · rintro ⟨j, hload, htakes⟩
    refine ⟨j, List.mem_range.mpr hload.1, ?_⟩
    unfold piece
    rw [if_pos hload]
    show v ∈ pagesFrom _ _ ++ ([] ++ [])
    rw [List.append_nil, List.append_nil]
    exact (elf.mem_pages hload).mpr htakes

/-- After the whole file has gone to the caller, the program is in memory exactly when the caller
was ready for it. -/
theorem ElfFile.inMemory_iff {stays : Segment} {c c' : Caller} (elf : img.ElfFile)
    (fills : Fills dirs c c' (stays :: .ofPatch
      (img.borrowed 0) :: (List.range img.ehdr.ePhnum).flatMap img.piece)) :
    img.InMemory c' ↔ img.Ready stays c := by
  have there {i a : Nat} (hload : img.Loadable i) (hin : img.InSegment i a) :
      There c'.memory (a / 4096) ↔
        There c.memory (a / 4096) ∨ a / 4096 ∈ stays.pages ∨ ∃ j, img.Loadable j ∧
          img.Takes j (a / 4096) := by
    rw [fills.there (elf.user i a hload hin), elf.pages_taken]
  have byte {i a : Nat} (hload : img.Loadable i) (hin : img.InSegment i a) :
      c'.byte a = laidOver (img.blocksAfter i)
        (img.readOver (laidOver (stays :: img.blocksBefore i) c.byte) i) a := by
    rw [fills.byte]
    exact elf.byte_at hload hin stays
  constructor
  · intro inMemory
    constructor
    · intro i a hload hin
      exact (there hload hin).mp (inMemory i a hload hin).1
    · intro i a hload hin
      rw [← byte hload hin]
      exact (inMemory i a hload hin).2
  · intro ready i a hload hin
    rw [there hload hin, byte hload hin]
    exact ⟨ready.pages i a hload hin, ready.bytes i a hload hin⟩

end Image

/-- THE LOADED IMAGE IS THE PROGRAM'S, and a file that does not have all the bytes of its segments
is refused, exactly when the call answers −1 anyway, or the file has all the bytes and the caller is
ready for the program. -/
theorem loaded_image_iff (dirs : List Nat) (c c' : Caller) (opening : Opening sb) (img : Image sb)
    (ret : Int) (hfile : opening.file = some img) (elf : img.ElfFile) (ag : c.memory.Agrees dirs)
    (run : c.memory.cr3 ∈ dirs) (hcall : c.load opening = .ok (ret, c')) :
    (ret ≠ -1 → img.InMemory c') ∧ (¬ img.Whole → ret = -1) ↔ img.Refused c ∨ img.Whole ∧
    img.Ready opening.stays c := by
  obtain ⟨refused, fills⟩ := load_opened hfile elf ⟨ag.ordered, run, ag.userSize run⟩ hcall
  rw [← refused]
  by_cases hret : ret = -1
  · exact iff_of_true ⟨fun hne => absurd hret hne, fun _ => hret⟩ (.inl hret)
  rw [or_iff_right hret]
  constructor
  · rintro ⟨inMemory, short⟩
    have whole : img.Whole := by
      by_contra hno
      exact hret (short hno)
    exact ⟨whole, (elf.inMemory_iff (fills hret whole)).mp (inMemory hret)⟩
  · rintro ⟨whole, ready⟩
    exact ⟨fun _ => (elf.inMemory_iff (fills hret whole)).mpr ready, fun hno => absurd whole hno⟩

/-! ### A segment that is longer in memory than in the file -/

/-- An ELF header with one program header after it, of a segment that is the whole file, at
`0x8048000`; in memory it has 100 bytes. -/
def bssFile : List Byte :=
  [127, 69, 76, 70, 1, 1, 1, 0, 0, 0, 0, 0, 0, 0, 0, 0, 2, 0, 3, 0, 1, 0, 0, 0, 0, 128, 4, 8, 52, 0,
    0, 0, 0, 0, 0, 0, 0, 0, 0, 0, 52, 0,
    32, 0, 1, 0, 0, 0, 0, 0, 0, 0, 1, 0, 0, 0, 0, 0, 0, 0, 0, 128, 4, 8, 0, 0, 0, 0, 84, 0, 0, 0,
    100, 0, 0, 0, 7, 0, 0, 0, 0, 16, 0, 0]

/-- The file on a disk: its block is 700. -/
def bssImage : Image smallDisk where
  part := { fullPart with disk := fun a => if a / 512 = 700 then bssFile.getD (a % 512) 0 else 0 }
  inode :=
    { iNo := 1, iSize := 84, iOpenCnts := 1, writenDeny := false,
      iSectors := fun k => if k = 0 then 700 else 0 }
  heap := fun _ => true
  fdIdx := 3
  borrowed := fun _ => nothing

theorem bssImage_ehdr : bssImage.ehdr.Checked ∧ bssImage.ehdr.ePhnum = 1 ∧
    bssImage.ehdr.ePhoff = 52 ∧ bssImage.ehdr.eEntry = 0x8048000 := by
  decide +kernel

theorem bssImage_phdr : (bssImage.phdr 0).pType = 1 ∧ (bssImage.phdr 0).pOffset = 0 ∧
    (bssImage.phdr 0).pVaddr = 0x8048000 ∧
    (bssImage.phdr 0).pFilesz = 84 ∧ bssImage.pMemsz 0 = 100 := by
  decide +kernel

theorem bssImage_loadable {i : Nat} (h : bssImage.Loadable i) : i = 0 := by
  have := h.1
  rw [bssImage_ehdr.2.1] at this
  omega

theorem bssImage_elf : bssImage.ElfFile where
  signed := by decide
  table h := absurd h (by decide)
  header := by decide
  checked := bssImage_ehdr.1
  headers i hi := by
    obtain ⟨-, hphnum, hphoff, -⟩ := bssImage_ehdr
    rw [hphnum] at hi
    unfold Image.phdrOff phdrSize
    rw [hphoff]
    show _ ≤ 84
    omega
  user i a hload hin := by
    obtain ⟨-, -, hvaddr, -, hmemsz⟩ := bssImage_phdr
    obtain rfl := bssImage_loadable hload
    unfold Image.InSegment at hin
    rw [hvaddr, hmemsz] at hin
    unfold UserAddr UserPage userVaddrStart kernelStart
    omega
  apart i j a hi hj _ _ := (bssImage_loadable hi).trans (bssImage_loadable hj).symm
  sizes i hload := by
    obtain ⟨-, -, -, hfilesz, hmemsz⟩ := bssImage_phdr
    obtain rfl := bssImage_loadable hload
    rw [hfilesz, hmemsz]
    decide

/-- The first process, and no byte of its memory is 0. -/
def filledCaller (m : Memory) : Caller := { firstCaller m with byte := fun _ => 1 }

/-- A file on that disk is read. -/
theorem bssImage_read {fdPos count : Nat} (hpos : 0 < count) (hend : fdPos + count ≤ 84) :
    ∃ r, fileRead true bssImage.part bssImage.inode fdPos zeros count = .ok r ∧ r.ret = some count ∧
      ∀ j < count, r.buf j = fileFrom bssImage.part bssImage.inode fdPos j := by
  have well : ReadsWell true bssImage.inode fdPos count := by
    refine .inr ⟨rfl, by omega, ?_⟩
    show min _ 84 < 139 * 512
    omega
  obtain ⟨r, hread, -⟩ : ∃ r, fileRead true bssImage.part bssImage.inode fdPos zeros count = .ok r ∧
      Reads bssImage.part bssImage.inode fdPos count zeros r :=
    fileRead_total bssImage_elf.table (show fdPos ≤ 84 by omega) (by decide) well
  refine ⟨r, hread, ?_⟩
  exact ((fileRead_whole bssImage_elf.signed bssImage_elf.table hpos hend hread).resolve_left
    fun h => Bool.noConfusion h.1).2

/-- Its segment is loaded. -/
theorem bssImage_segment {s : Recorded Memory Touch} (c : Caller) (fdPos : Nat)
    (hmap : mapSegment 0x8048 1 ⟨c.memory, []⟩ = (.ok true, s)) (there : There s.state 0x8048) :
    ∃ pos c', c.segmentLoad bssImage 2 fdPos (bssImage.phdr 0) = .ok (some pos, c') := by
  obtain ⟨-, hoffset, hvaddr, hfilesz, -⟩ := bssImage_phdr
  obtain ⟨r, hread, hret, -⟩ := @bssImage_read 0 84 (by decide) (by decide)
  have hcopied : copied true bssImage.part bssImage.inode 0 84 = 84 := by
    rw [copied_eq hread, hret]
    rfl
  have hcopy : (copyOut 0x8048000 84 ⟨s.state, []⟩).1 = .ok () := copyOut_page there (by decide)
  unfold Caller.segmentLoad Caller.mapSegment
  rw [hvaddr, hfilesz, hoffset, show occupyPages 84 0x8048000 = 1 by decide,
    show 0x8048000 / 4096 = 0x8048 by decide, hmap]
  dsimp only
  rw [ok_bind]
  dsimp only
  rw [if_pos rfl, seekTo_inside (show 84 < 2 ^ 31 by decide) (show 0 < 84 by decide), ok_bind]
  dsimp only
  unfold Caller.sysRead
  rw [assertThat_of (by decide), ok_bind, show bssImage.heap 2 = true from rfl, hcopied, hcopy,
    ok_bind, hread]
  exact ⟨_, _, rfl⟩

/-- Its header is read, and the segment is loaded. -/
theorem bssImage_header {s : Recorded Memory Touch} {h : Elf32Ehdr} (c : Caller) (fdPos : Nat)
    (hsize : h.ePhentsize = phdrSize) (hmap : mapSegment 0x8048 1 ⟨c.memory, []⟩ = (.ok true, s))
    (there : There s.state 0x8048) :
    ∃ pos c', c.loadHeader bssImage h 0 52 fdPos = .ok (some pos, c') := by
  obtain ⟨r, hread, hret, hbytes⟩ := @bssImage_read 52 32 (by decide) (by decide)
  have hphdr : phdrAt r.buf = bssImage.phdr 0 := by
    unfold Image.phdr Image.phdrOff
    rw [bssImage_ehdr.2.2.1]
    exact phdrAt_congr hbytes
  unfold Caller.loadHeader
  rw [hsize, seekTo_inside (show 84 < 2 ^ 31 by decide) (show 52 < 84 by decide), ok_bind]
  dsimp only
  rw [show bssImage.heap (2 * 0 + 1) = true from rfl, show phdrSize = 32 from rfl, hread, ok_bind,
    hret, if_neg (not_not.mpr rfl), hphdr,
    if_pos (show (bssImage.phdr 0).pType = ptLoad from bssImage_phdr.1)]
  exact bssImage_segment (c.put _) _ hmap there

/-- `load` returns the entry point. -/
theorem bssImage_run {s : Recorded Memory Touch} (rn : Runnable dirs (filledCaller m))
    (hmap : mapSegment 0x8048 1 ⟨m, []⟩ = (.ok true, s)) (there : There s.state 0x8048) :
    ∃ c', (filledCaller m).load (fromRoot bssImage) = .ok (0x8048000, c') := by
  obtain ⟨checked, hphnum, hphoff, hentry⟩ := bssImage_ehdr
  obtain ⟨r, hread, hret, hbytes⟩ := @bssImage_read 0 52 (by decide) (by decide)
  have same : SameHeader (ehdrAt r.buf) bssImage.ehdr := ehdrAt_same hbytes
  have checked' := same.checked.mpr checked
  obtain ⟨pos, c₁, hheader⟩ :=
    bssImage_header (h := ehdrAt r.buf) ((filledCaller m).setFd 3 3) r.fdPos
      checked'.2.2.2.2.2 hmap there
  have hopened : ((filledCaller m).setFd 3 3).loadOpened bssImage = .ok (0x8048000, c₁) := by
    unfold Caller.loadOpened
    rw [show bssImage.heap 0 = true from rfl, show ehdrSize = 52 from rfl, hread, ok_bind]
    dsimp only
    rw [hret, if_neg (not_not.mpr rfl), if_neg (not_not.mpr checked'), same.ePhnum, same.ePhoff,
      hphnum, hphoff]
    unfold Caller.loadHeaders
    rw [show ((filledCaller m).setFd 3 3).put (bssImage.borrowed 0) = (filledCaller m).setFd 3 3
      from rfl, hheader, ok_bind]
    dsimp only
    unfold Caller.loadHeaders
    have entry : toSigned 32 (0x8048000 : Nat) = 0x8048000 := by decide
    rw [same.eEntry, hentry, entry]
    rfl
  have rn' : Runnable dirs ((filledCaller m).setFd 3 3) := ⟨rn.ordered, rn.run, rn.size⟩
  have kept := (loadOpened_loads rn' hopened).fdTable
  refine ⟨c₁.setFd 3 (-1), ?_⟩
  have opens : ((filledCaller m).setFd 3 bssImage.fdIdx).loadOpened bssImage =
      .ok (0x8048000, c₁) := hopened
  rw [load_fromRoot (show (filledCaller m).freeLocalFd = some 3 from rfl), opens, ok_bind]
  dsimp only
  unfold Caller.closeFd
  have installed : ((filledCaller m).setFd 3 3).fdTable 3 = 3 := rfl
  rw [kept, installed, assertThat_of (by decide), ok_bind]
  rfl

/-- The first process loads the file. -/
theorem bssImage_loads : ∃ (d : Nat) (m : Memory) (c' : Caller), m.Agrees [d] ∧ m.cr3 ∈ [d] ∧
    (filledCaller m).load (fromRoot bssImage) = .ok (0x8048000, c') := by
  obtain ⟨m, d, p, runs, there, hmap⟩ := first_serves
  have rn : Runnable [d] (filledCaller m) :=
    ⟨runs.agrees.ordered, runs.run, runs.agrees.userSize runs.run⟩
  obtain ⟨c', hrun⟩ := bssImage_run rn hmap there
  exact ⟨d, m, c', runs.agrees, runs.run, hrun⟩

/-- The theorem for that process and that file. -/
theorem loaded_image_bss :
    ∃ (m : Memory) (c' : Caller), (filledCaller m).load (fromRoot bssImage) = .ok (0x8048000, c') ∧
    (bssImage.InMemory c' → bssImage.Ready (.ofPatch nothing) (filledCaller m)) := by
  obtain ⟨d, m, c', ag, run, hcall⟩ := bssImage_loads
  refine ⟨m, c', hcall, ?_⟩
  intro inMemory
  have whole : bssImage.Whole := by
    intro i hload
    obtain ⟨-, hoffset, -, hfilesz, -⟩ := bssImage_phdr
    obtain rfl := bssImage_loadable hload
    rw [hoffset, hfilesz]
    decide
  have answers :=
    (loaded_image_iff [d] (filledCaller m) c' (fromRoot bssImage) bssImage 0x8048000 rfl
      bssImage_elf ag run hcall).mp
    ⟨fun _ => inMemory, fun hno => absurd whole hno⟩
  refine (answers.resolve_left ?_).2
  rintro (h | h | ⟨i, -, h⟩ | h)
  · cases h
  · cases h
  · cases h
  · rw [bssImage_ehdr.2.2.2] at h
    exact absurd h (by decide)

/-- THE BYTES AFTER `p_filesz` are not cleared: the last ones are as memory was. -/
theorem bss_not_cleared :
    ¬ ∀ (dirs : List Nat) (c c' : Caller) (opening : Opening smallDisk)
      (img : Image smallDisk) (ret : Int),
    opening.file = some img → img.ElfFile → c.memory.Agrees dirs → c.memory.cr3 ∈ dirs →
    c.load opening = .ok (ret, c') →
    (ret ≠ -1 → img.InMemory c') ∧ (¬ img.Whole → ret = -1) := by
  intro claim
  obtain ⟨d, m, c', ag, run, hcall⟩ := bssImage_loads
  obtain ⟨inMemory, -⟩ :=
    claim [d] (filledCaller m) c' (fromRoot bssImage) bssImage 0x8048000 rfl
      bssImage_elf ag run hcall
  obtain ⟨checked, hphnum, -, -⟩ := bssImage_ehdr
  obtain ⟨isLoad, hoffset, hvaddr, hfilesz, hmemsz⟩ := bssImage_phdr
  have hload : bssImage.Loadable 0 := ⟨by rw [hphnum]; decide, isLoad⟩
  have hin : bssImage.InSegment 0 (0x8048000 + 90) := by
    unfold Image.InSegment
    rw [hvaddr, hmemsz]
    decide
  have hout : ¬ bssImage.InFile 0 (0x8048000 + 90) := by
    unfold Image.InFile
    rw [hvaddr, hfilesz]
    decide
  have hbyte := (inMemory (by decide) 0 _ hload hin).2
  have whole : bssImage.Whole := by
    intro i hload
    obtain rfl := bssImage_loadable hload
    rw [hoffset, hfilesz]
    decide
  have opens : (fromRoot bssImage).file = some bssImage := rfl
  have fills :=
    (load_opened opens bssImage_elf ⟨ag.ordered, run, ag.userSize run⟩ hcall).2 (by decide) whole
  rw [fills.byte, bssImage_elf.byte_at hload hin] at hbyte
  unfold Image.byteOf at hbyte
  rw [if_neg hout] at hbyte
  have hafter : bssImage.blocksAfter 0 = [.ofPatch nothing] := by
    unfold Image.blocksAfter
    rw [hphnum]
    rfl
  rw [hafter] at hbyte
  have hbyte :
      bssImage.readOver (laidOver (.ofPatch nothing :: bssImage.blocksBefore 0)
        (filledCaller m).byte) 0 (0x8048000 + 90) = 0 := hbyte
  unfold Image.readOver at hbyte
  rw [if_neg fun h => hout h.1] at hbyte
  have hbyte : (1 : Byte) = 0 := hbyte
  cases hbyte

end SeekingOs.Exec
