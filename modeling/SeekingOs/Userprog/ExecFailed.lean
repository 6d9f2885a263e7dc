import Mathlib.Data.List.TakeWhile
import SeekingOs.Userprog.ExecRange

/-!
# `userprog/exec.c`: when `sys_execv` answers −1

`load` maps and fills the pages of a segment before it reads the next program header. When that
header is cut off, or the entry point is −1, `sys_execv` answers −1 to a process whose pages have
been mapped and overwritten. It is left as it was when the pages of all the segments so far were
there, and they hold what was there before.

The bytes are kept by their address. The directory, the tables, the bitmap, the name and `fd_table`
lie from `0xc0000000` on; they are kept beside the bytes, and a byte that is changed there counts as
damage.

`sys_open` and `file_read` take blocks from the heap of the caller. `file_read` frees its own, and
bytes stay behind in them. `sys_open` frees all of them but one: when the file is found, nobody
closes the `struct dir` of the directory that holds it, and when that is not the root, the page of
its arena may be a new one, which stays mapped with its bit set. What stays is a parameter, for
segments that do not go over these blocks. Page tables that come with a page stay when it is given
back; they map nothing, and are left out.
-/

namespace SeekingOs.Exec

open Lib Fs Memory

variable {sb : SuperBlock}

/-! ## The caller -/

/-- Bytes, by the addresses they go to. -/
abbrev Patch := Nat → Option Byte

/-- Memory with those bytes. -/
def Patch.onto (patch : Patch) (byte : Nat → Byte) : Nat → Byte := fun a => (patch a).getD (byte a)

/-- What there is of the calling process. -/
structure Caller where
  memory : Memory
  byte : Nat → Byte
  name : Buf
  fdTable : Nat → Int

/-- A file that is opened: its place in `file_table`, and what the calls of `file_read` leave in the
heap of the caller. -/
structure Image (sb : SuperBlock) extends Program sb where
  fdIdx : Nat
  borrowed : Nat → Patch

/-- What goes to the caller: pages that have to be there, and then bytes. -/
structure Segment where
  pages : List Nat
  patch : Patch

/-- Bytes that need no page. -/
def Segment.ofPatch (patch : Patch) : Segment := ⟨[], patch⟩

/-- What comes of `sys_open` before `pcb_fd_install`: what stays in the heap of the caller, arena
pages and bytes, and the file. There is none when the call has answered −1. -/
structure Opening (sb : SuperBlock) where
  stays : Segment
  user : ∀ v ∈ stays.pages, UserPage v
  file : Option (Image sb)

/-- The bytes of the file, from an address on. -/
def bytesAt (vaddr : Nat) (r : ReadResult) : Patch := fun a =>
  if a < 2 ^ 32 ∧ (2 ^ 32 + a - vaddr) % 2 ^ 32 < r.ret.getD 0 then
    some (r.buf ((2 ^ 32 + a - vaddr) % 2 ^ 32)) else none

/-- Pages are given frames where they have none. -/
def servePages : List Nat → LoadM Bool
  | [] => return true
  | vaddrPage :: rest => do
    let mapped ← servePage vaddrPage
    if mapped = true then servePages rest else return false

namespace Caller

variable (c : Caller)

/-- Bytes are written. -/
def put (patch : Patch) : Caller := { c with byte := patch.onto c.byte }

/-- What `sys_open` leaves in the heap: each new page has a frame and its bit, as `malloc_page`
gives them. -/
def keep (stays : Segment) : Except Fault Caller :=
  match servePages stays.pages ⟨c.memory, []⟩ with
  | (.ok _, s) => .ok ({ c with memory := s.state }.put stays.patch)
  | (.error e, _) => .error e

/-- The loop of `segment_load` -/
def mapSegment (vaddrPage occupied : Nat) : Except Fault (Bool × Caller) :=
  match Exec.mapSegment vaddrPage occupied ⟨c.memory, []⟩ with
  | (.ok mapped, s) => .ok (mapped, { c with memory := s.state })
  | (.error e, _) => .error e

/-- `sys_read(fd, (void*)vaddr, count)`, the `k`-th call -/
def sysRead (img : Image sb) (k fdPos vaddr count : Nat) : Except Fault (Nat × Caller) := do
  assertThat false (vaddr ≠ 0) "sys_read" "buf != NULL"
  (copyOut vaddr (copied (img.heap k) img.part img.inode fdPos count) ⟨c.memory, []⟩).1
  let r ← fileRead (img.heap k) img.part img.inode fdPos zeros count
  return (r.fdPos, (c.put (bytesAt vaddr r)).put (img.borrowed k))

/-- `segment_load`; `none` is `false`. -/
def segmentLoad (img : Image sb) (k fdPos : Nat) (ph : Elf32Phdr) :
    Except Fault (Option Nat × Caller) := do
  let (mapped, c) ← c.mapSegment (ph.pVaddr / 4096) (occupyPages ph.pFilesz ph.pVaddr)
  if mapped = true then do
    let (fdPos, _) ← seekTo img.inode fdPos ph.pOffset
    let (fdPos, c) ← c.sysRead img k fdPos ph.pVaddr ph.pFilesz
    return (some fdPos, c)
  else return (none, c)

/-- A round of the loop of `load`; `none` is −1. -/
def loadHeader (img : Image sb) (h : Elf32Ehdr) (progIdx progHeaderOff fdPos : Nat) :
    Except Fault (Option Nat × Caller) := do
  let (fdPos, _) ← seekTo img.inode fdPos progHeaderOff
  let r ← fileRead (img.heap (2 * progIdx + 1)) img.part img.inode fdPos zeros h.ePhentsize
  let c := c.put (img.borrowed (2 * progIdx + 1))
  if r.ret ≠ some h.ePhentsize then return (none, c)
  else if (phdrAt r.buf).pType = ptLoad then
    c.segmentLoad img (2 * progIdx + 2) r.fdPos (phdrAt r.buf)
  else return (some r.fdPos, c)

/-- The loop of `load` -/
def loadHeaders (img : Image sb) (h : Elf32Ehdr) : (left progIdx progHeaderOff fdPos : Nat) →
    Caller → Except Fault (Int × Caller)
  | 0, _, _, _, c => return (toSigned 32 h.eEntry, c)
  | left + 1, progIdx, progHeaderOff, fdPos, c => do
    let (loaded, c) ← c.loadHeader img h progIdx progHeaderOff fdPos
    match loaded with
    | none => return (-1, c)
    | some fdPos =>
      loadHeaders img h left (progIdx + 1) (u32 (progHeaderOff + h.ePhentsize)) fdPos c

/-- `load` after `sys_open`, up to `done` -/
def loadOpened (img : Image sb) : Except Fault (Int × Caller) := do
  let r ← fileRead (img.heap 0) img.part img.inode 0 zeros ehdrSize
  let c := c.put (img.borrowed 0)
  if r.ret ≠ some ehdrSize then return (-1, c)
  else if ¬ (ehdrAt r.buf).Checked then return (-1, c)
  else loadHeaders img (ehdrAt r.buf) (ehdrAt r.buf).ePhnum 0 (ehdrAt r.buf).ePhoff r.fdPos c

/-- The free entry that `pcb_fd_install` finds. -/
def freeLocalFd : Option Nat := (List.range' 3 5).find? fun localFdIdx => c.fdTable localFdIdx == -1

/-- `cur->fd_table[fd] = value` -/
def setFd (fd : Nat) (value : Int) : Caller :=
  { c with fdTable := Function.update c.fdTable fd value }

/-- `sys_close`, for the file that `load` has opened -/
def closeFd (fd : Nat) : Except Fault Caller := do
  assertThat false (0 ≤ c.fdTable fd ∧ c.fdTable fd ≤ 32) "fd_local2global"
    "global_fd >= 0 && global_fd <= MAX_FILES_OPEN"
  return c.setFd fd (-1)

/-- `load` -/
def load (opening : Opening sb) : Except Fault (Int × Caller) := do
  let c ← c.keep opening.stays
  match opening.file with
  | none => return (-1, c)
  | some img =>
    match c.freeLocalFd with
    | none => return (-1, c)
    | some fd =>
      let (ret, c) ← (c.setFd fd img.fdIdx).loadOpened img
      let c ← c.closeFd fd
      return (ret, c)

end Caller

/-- What `sys_execv` sets in `struct intr_stack`. -/
structure IntrStack where
  ebx : Nat
  ecx : Nat
  eip : Int
  esp : Nat

/-- `argc`, from the words of the array on -/
def argcOf (argv : List Nat) : Nat := (argv.takeWhile (· ≠ 0)).length

/-- `sys_execv`: −1 when there is no stack, and else the process goes on with that one. -/
def sysExecv (c : Caller) (path : Buf) (argvPtr : Nat) (argv : List Nat) (opening : Opening sb) :
    Except Fault (Option IntrStack × Caller) := do
  let argc := argcOf argv
  let (entryPoint, c) ← c.load opening
  if entryPoint = -1 then return (none, c)
  else
    let c := { c with name := fun i => if i < 15 then path i else 0 }
    return (some { ebx := argvPtr, ecx := argc, eip := entryPoint, esp := 0xc0000000 }, c)

/-! ## What is in the file -/

/-- What comes of a call, with a value for a fault. -/
def afterwards {α β : Type} (r : Except Fault α) (fault : β) (f : α → β) : β :=
  match r with
  | .ok a => f a
  | .error _ => fault

theorem afterwards_ok {α β : Type} {r : Except Fault α} {a : α} (fault : β) (f : α → β)
    (h : r = .ok a) : afterwards r fault f = f a := by
  rw [h]
  rfl

/-- The pages from one on. -/
def pagesFrom (vaddrPage : Nat) : Nat → List Nat
  | 0 => []
  | left + 1 => vaddrPage :: pagesFrom ((vaddrPage + 1) % 2 ^ 20) left

namespace Image

variable (img : Image sb)

/-- A program header of the file. -/
def headerAt (h : Elf32Ehdr) (progIdx progHeaderOff fdPos : Nat) : Except Fault ReadResult := do
  let (fdPos, _) ← seekTo img.inode fdPos progHeaderOff
  fileRead (img.heap (2 * progIdx + 1)) img.part img.inode fdPos zeros h.ePhentsize

/-- The bytes of the segment with that header. -/
def segmentAt (k fdPos : Nat) (ph : Elf32Phdr) : Except Fault ReadResult := do
  let (fdPos, _) ← seekTo img.inode fdPos ph.pOffset
  fileRead (img.heap k) img.part img.inode fdPos zeros ph.pFilesz

/-- What a header has for the caller, and where it leaves `fd_pos`; the last one is a header that
the file does not have. -/
def roundAt (h : Elf32Ehdr) (progIdx progHeaderOff fdPos : Nat) : List Segment × Option Nat :=
  afterwards (img.headerAt h progIdx progHeaderOff fdPos) ([], none) fun r =>
    if r.ret ≠ some h.ePhentsize then ([.ofPatch (img.borrowed (2 * progIdx + 1))], none)
    else if (phdrAt r.buf).pType = ptLoad then
      afterwards (img.segmentAt (2 * progIdx + 2) r.fdPos (phdrAt r.buf))
        ([.ofPatch (img.borrowed (2 * progIdx + 1))], none) fun r' =>
        ([.ofPatch (img.borrowed (2 * progIdx + 1)),
          ⟨pagesFrom ((phdrAt r.buf).pVaddr / 4096)
            (occupyPages (phdrAt r.buf).pFilesz (phdrAt r.buf).pVaddr),
              bytesAt (phdrAt r.buf).pVaddr r'⟩,
          .ofPatch (img.borrowed (2 * progIdx + 2))], some r'.fdPos)
    else ([.ofPatch (img.borrowed (2 * progIdx + 1))], some r.fdPos)

/-- The segments up to the first header that the file does not have. -/
def segments (h : Elf32Ehdr) : (left progIdx progHeaderOff fdPos : Nat) → List Segment
  | 0, _, _, _ => []
  | left + 1, progIdx, progHeaderOff, fdPos =>
    (img.roundAt h progIdx progHeaderOff fdPos).1 ++
      (img.roundAt h progIdx progHeaderOff fdPos).2.elim []
        (segments h left (progIdx + 1) (u32 (progHeaderOff + h.ePhentsize)))

/-- All that the file has for the caller. -/
def contents : List Segment :=
  afterwards (fileRead (img.heap 0) img.part img.inode 0 zeros ehdrSize) [] fun r =>
    .ofPatch (img.borrowed 0) ::
    if r.ret ≠ some ehdrSize then []
    else if ¬ (ehdrAt r.buf).Checked then []
    else img.segments (ehdrAt r.buf) (ehdrAt r.buf).ePhnum 0 (ehdrAt r.buf).ePhoff r.fdPos

end Image

/-- All that the call has for the caller, when `fd_table` is that one. -/
def Opening.contents (opening : Opening sb) (c : Caller) : List Segment := opening.stays ::
  match opening.file with
  | none => []
  | some img => if c.freeLocalFd = none then [] else img.contents

/-- Memory after the bytes of all of them. -/
def laidOver (segs : List Segment) (byte : Nat → Byte) : Nat → Byte :=
  segs.foldl (fun byte s => s.patch.onto byte) byte

/-- An address has the last byte that is laid there, or what it had. -/
theorem laidOver_at (segs : List Segment) (a : Nat) :
    (∃ b, ∀ byte, laidOver segs byte a = b) ∨ ∀ byte, laidOver segs byte a = byte a := by
  induction segs with
  | nil => exact .inr fun _ => rfl
  | cons s segs ih =>
    rcases ih with ⟨b, last⟩ | under
    · exact .inl ⟨b, fun byte => last _⟩
    · have laid (byte : Nat → Byte) : laidOver (s :: segs) byte a = (s.patch a).getD (byte a) :=
        under (s.patch.onto byte)
      cases h : s.patch a with
      | some b => exact .inl ⟨b, fun byte => (laid byte).trans (by rw [h, Option.getD_some])⟩
      | none => exact .inr fun byte => (laid byte).trans (by rw [h, Option.getD_none])

/-- What has been laid over memory once is there. -/
theorem laidOver_twice (segs : List Segment) (byte : Nat → Byte) :
    laidOver segs (laidOver segs byte) = laidOver segs byte := by
  funext a
  rcases laidOver_at segs a with ⟨b, last⟩ | under
  · rw [last, last]
  · exact under _

/-! ## The caller is as it was -/

/-- What a process has at an address of its range is there when the page is; outside there is the
kernel. -/
def Kept (m : Memory) (a : Nat) : Prop := UserAddr a → There m (a / 4096)

/-- THE CALLER IS LEFT INTACT: its pages, where they are mapped, its bitmap, its name and
`fd_table`. -/
structure Intact (c c' : Caller) : Prop where
  mapped : ∀ v, UserPage v → c'.memory.pageAt c'.memory.cr3 v = c.memory.pageAt c.memory.cr3 v
  bytes : ∀ a, Kept c.memory a → c'.byte a = c.byte a
  bitmap : c'.memory.userVaddr = c.memory.userVaddr
  name : c'.name = c.name
  fdTable : c'.fdTable = c.fdTable

/-- THE CALL IS HARMLESS to the caller: the pages of the segments are there, also those that stay in
the heap, and the bytes at each address are in the end those that are there. -/
structure Harmless (c : Caller) (opening : Opening sb) : Prop where
  there : ∀ s ∈ opening.contents c, ∀ v ∈ s.pages, There c.memory v
  same : ∀ a, Kept c.memory a → laidOver (opening.contents c) c.byte a = c.byte a

/-! ## What a segment does to the memory -/

variable {m m₁ m' : Memory} {dirs pages pages' : List Nat} {v : Nat}

/-- Pages have been served: they are there, and nothing happened when those of the range were there
before. -/
structure Served (dirs : List Nat) (m m' : Memory) (pages : List Nat) : Prop where
  low : ∀ v ∈ pages, v < 2 ^ 20
  ordered : m'.Ordered dirs
  cr3 : m'.cr3 = m.cr3
  size : m'.userVaddr.size = m.userVaddr.size
  kept : ∀ w < 2 ^ 20, There m w → There m' w
  there : ∀ v ∈ pages, There m' v
  still : (∀ v ∈ pages, UserPage v → There m v) → m' = m

theorem Served.refl (ord : m.Ordered dirs) : Served dirs m m [] where
  low _ h := absurd h List.not_mem_nil
  ordered := ord
  cr3 := rfl
  size := rfl
  kept _ _ there := there
  there _ h := absurd h List.not_mem_nil
  still _ := rfl

theorem Served.trans (first : Served dirs m m₁ pages) (second : Served dirs m₁ m' pages') :
    Served dirs m m' (pages ++ pages') where
  low v hv := (List.mem_append.mp hv).elim (first.low v) (second.low v)
  ordered := second.ordered
  cr3 := second.cr3.trans first.cr3
  size := second.size.trans first.size
  kept w hw there := second.kept w hw (first.kept w hw there)
  there v hv := by
    rcases List.mem_append.mp hv with hv | hv
    · exact second.kept v (first.low v hv) (first.there v hv)
    · exact second.there v hv
  still there := by
    obtain rfl : m₁ = m := first.still fun v hv => there v (List.mem_append_left _ hv)
    exact second.still fun v hv => there v (List.mem_append_right _ hv)

/-- `get_a_page` for a page that is not there: it is one of the range, and it is there then. -/
theorem getAPage_serves {b : Bool} (ord : m.Ordered dirs) (run : m.cr3 ∈ dirs)
    (size : userVaddrStart + m.userVaddr.size = kernelStart) (hv : v < 2 ^ 20)
    (absent : ¬ There m v) (h : m.getAPage v = .ok (b, m')) : b = true ∧ Served dirs m m' [v] := by
  by_cases hbit : bitIdxOf v userVaddrStart < m.userVaddr.size
  · have user : UserPage v := (bitIdxOf_user size hv).mp hbit
    obtain ⟨hb, ordered, cr3, hsize, others⟩ := getAPage_user ord run hbit user.2 h
    have hmap : (m.reserve (bitIdxOf v userVaddrStart) true 1 .user).mapPages .user v 1 =
        .ok (b, m') := by
      rw [← reserve_one]
      exact (if_pos hbit).symm.trans h
    have ord₀ : (m.reserve (bitIdxOf v userVaddrStart) true 1 .user).Ordered dirs :=
      reserve_ordered ord
    obtain ⟨-, maps, -⟩ := mapPages_user ord₀ run user.2 hmap
    obtain ⟨frame, hframe, -⟩ := maps.new v (Nat.le_refl v) (Nat.lt_succ_self v)
    have new : There m' v := by
      unfold There
      rw [cr3]
      exact Option.isSome_iff_exists.mpr ⟨frame, hframe⟩
    refine ⟨hb, ?_, ordered, cr3, hsize, ?_, ?_, ?_⟩
    · intro w hw
      rw [List.mem_singleton.mp hw]
      exact hv
    · intro w hw there
      by_cases hne : w = v
      · rw [hne]
        exact new
      · exact (others w hw hne).mpr (.inl there)
    · intro w hw
      rw [List.mem_singleton.mp hw]
      exact new
    · intro there
      exact absurd (there v (List.mem_singleton.mpr rfl) user) absent
  · have refused : m.getAPage v = .error (.outOfBounds "bitmap_set") := if_neg hbit
    rw [refused] at h
    cases h

/-- A page of a segment. -/
theorem servePage_serves {b : Bool} {s : Recorded Memory Touch} {touched : List Touch}
    (ord : m.Ordered dirs) (run : m.cr3 ∈ dirs)
    (size : userVaddrStart + m.userVaddr.size = kernelStart) (hv : v < 2 ^ 20)
    (h : servePage v ⟨m, touched⟩ = (.ok b, s)) : b = true ∧ Served dirs m s.state [v] := by
  have test := pageThere_run ord run hv touched
  by_cases there : There m v
  · rw [decide_eq_true there] at test
    rw [servePage_present test] at h
    cases h
    refine ⟨rfl, ?_, ord, rfl, rfl, fun _ _ there => there, ?_, fun _ => rfl⟩
    · intro w hw
      rw [List.mem_singleton.mp hw]
      exact hv
    · intro w hw
      rw [List.mem_singleton.mp hw]
      exact there
  · rw [decide_eq_false there] at test
    rw [servePage_absent test] at h
    unfold Exec.getAPage at h
    dsimp only at h
    cases hcall : m.getAPage v with
    | error e =>
      rw [hcall] at h
      cases h
    | ok r =>
      rw [hcall] at h
      cases h
      exact getAPage_serves ord run size hv there hcall

/-- Some pages, one after the other. -/
theorem servePages_serves {b : Bool} {s : Recorded Memory Touch} {touched : List Touch}
    (ord : m.Ordered dirs) (run : m.cr3 ∈ dirs)
    (size : userVaddrStart + m.userVaddr.size = kernelStart) (low : ∀ v ∈ pages, v < 2 ^ 20)
    (h : servePages pages ⟨m, touched⟩ = (.ok b, s)) : b = true ∧ Served dirs m s.state pages := by
  induction pages generalizing m touched with
  | nil =>
    cases h
    exact ⟨rfl, .refl ord⟩
  | cons v rest ih =>
    rw [List.forall_mem_cons] at low
    unfold servePages at h
    rcases hserve : servePage v ⟨m, touched⟩ with ⟨r, s₁⟩
    cases r with
    | error e =>
      rw [Acts.bind_error hserve] at h
      cases h
    | ok mapped =>
      rw [Acts.bind_ok hserve] at h
      obtain ⟨rfl, first⟩ := servePage_serves ord run size low.1 hserve
      rw [if_pos rfl] at h
      obtain ⟨hb, rest⟩ := ih first.ordered (first.cr3 ▸ run) (first.size ▸ size) low.2 h
      exact ⟨hb, first.trans rest⟩

theorem mapSegment_eq (v left : Nat) : mapSegment v left = servePages (pagesFrom v left) := by
  induction left generalizing v with
  | zero => rfl
  | succ left ih =>
    unfold mapSegment pagesFrom servePages
    rw [ih]

theorem pagesFrom_lt {w left : Nat} (hv : v < 2 ^ 20) (h : w ∈ pagesFrom v left) : w < 2 ^ 20 := by
  induction left generalizing v with
  | zero => cases h
  | succ left ih =>
    rcases List.mem_cons.mp h with rfl | h
    · exact hv
    · exact ih (Nat.mod_lt _ (by decide)) h

/-- The pages of a segment. -/
theorem mapSegment_serves {b : Bool} {s : Recorded Memory Touch} {touched : List Touch} {left : Nat}
    (ord : m.Ordered dirs) (run : m.cr3 ∈ dirs)
    (size : userVaddrStart + m.userVaddr.size = kernelStart) (hv : v < 2 ^ 20)
    (h : mapSegment v left ⟨m, touched⟩ = (.ok b, s)) :
    b = true ∧ Served dirs m s.state (pagesFrom v left) := by
  rw [mapSegment_eq] at h
  exact servePages_serves ord run size (fun w hw => pagesFrom_lt hv hw) h

/-! ## What `load` does to the caller -/

variable {c c₁ c' : Caller} {segs segs' : List Segment}

/-- Those segments have gone to the caller, one after the other. -/
structure Loaded (dirs : List Nat) (c c' : Caller) (segs : List Segment) : Prop where
  served : Served dirs c.memory c'.memory (segs.flatMap Segment.pages)
  byte : c'.byte = laidOver segs c.byte
  name : c'.name = c.name
  fdTable : c'.fdTable = c.fdTable

theorem Loaded.refl (ord : c.memory.Ordered dirs) : Loaded dirs c c [] := ⟨.refl ord, rfl, rfl, rfl⟩

theorem Loaded.trans (first : Loaded dirs c c₁ segs) (second : Loaded dirs c₁ c' segs') :
    Loaded dirs c c' (segs ++ segs') where
  served := by
    rw [List.flatMap_append]
    exact first.served.trans second.served
  byte := by
    unfold laidOver
    rw [List.foldl_append, second.byte, first.byte]
    rfl
  name := second.name.trans first.name
  fdTable := second.fdTable.trans first.fdTable

/-- Bytes that need no page. -/
theorem Loaded.put (ord : c.memory.Ordered dirs) (patch : Patch) :
    Loaded dirs c (c.put patch) [.ofPatch patch] :=
  ⟨.refl ord, rfl, rfl, rfl⟩

/-- The loads of a process that runs. -/
structure Runnable (dirs : List Nat) (c : Caller) : Prop where
  ordered : c.memory.Ordered dirs
  run : c.memory.cr3 ∈ dirs
  size : userVaddrStart + c.memory.userVaddr.size = kernelStart

theorem Loaded.runnable (loaded : Loaded dirs c c' segs) (r : Runnable dirs c) :
    Runnable dirs c' where
  ordered := loaded.served.ordered
  run := loaded.served.cr3 ▸ r.run
  size := loaded.served.size ▸ r.size

/-- What `sys_open` leaves behind. -/
theorem keep_loads {stays : Segment} (rn : Runnable dirs c) (user : ∀ v ∈ stays.pages, UserPage v)
    (h : c.keep stays = .ok c') : Loaded dirs c c' [stays] := by
  unfold Caller.keep at h
  split at h
  next b s hrun =>
    cases h
    have low (v : Nat) (hv : v ∈ stays.pages) : v < 2 ^ 20 := Nat.lt_trans (user v hv).2 (by decide)
    obtain ⟨-, served⟩ := servePages_serves rn.ordered rn.run rn.size low hrun
    refine ⟨?_, rfl, rfl, rfl⟩
    rw [List.flatMap_singleton]
    exact served
  next => cases h

section

variable {img : Image sb} {h : Elf32Ehdr} {k fdPos : Nat} {ph : Elf32Phdr}

/-- `segment_load` COMES TO ITS END with `true`, and the segment is there. -/
theorem segmentLoad_loads {r : Option Nat} (rn : Runnable dirs c) (hv : ph.pVaddr < 2 ^ 32)
    (hcall : c.segmentLoad img k fdPos ph = .ok (r, c')) :
    ∃ r', img.segmentAt k fdPos ph = .ok r' ∧ r = some r'.fdPos ∧
      Loaded dirs c c' [⟨pagesFrom (ph.pVaddr / 4096) (occupyPages ph.pFilesz ph.pVaddr),
        bytesAt ph.pVaddr r'⟩, .ofPatch (img.borrowed k)] := by
  unfold Caller.segmentLoad at hcall
  obtain ⟨⟨mapped, c₁⟩, hmap, hcall⟩ := bind_eq_ok.mp hcall
  have serves : mapped = true ∧
      Loaded dirs c c₁ [⟨pagesFrom (ph.pVaddr / 4096) (occupyPages ph.pFilesz ph.pVaddr),
        fun _ => none⟩] := by
    unfold Caller.mapSegment at hmap
    split at hmap
    next mapped' s hrun =>
      cases hmap
      obtain ⟨hb, served⟩ :=
        mapSegment_serves rn.ordered rn.run rn.size (Nat.div_lt_of_lt_mul hv) hrun
      refine ⟨hb, ?_, rfl, rfl, rfl⟩
      rw [List.flatMap_singleton]
      exact served
    next => cases hmap
  obtain ⟨rfl, loaded⟩ := serves
  dsimp only at hcall
  rw [if_pos rfl] at hcall
  obtain ⟨⟨pos, ret⟩, hseek, hcall⟩ := bind_eq_ok.mp hcall
  obtain ⟨⟨pos', c₂⟩, hread, hcall⟩ := bind_eq_ok.mp hcall
  cases hcall
  unfold Caller.sysRead at hread
  obtain ⟨_, -, hread⟩ := bind_eq_ok.mp hread
  obtain ⟨_, -, hread⟩ := bind_eq_ok.mp hread
  obtain ⟨r', hfile, hread⟩ := bind_eq_ok.mp hread
  cases hread
  refine ⟨r', ?_, rfl, ?_⟩
  · unfold Image.segmentAt
    rw [hseek]
    exact hfile
  · refine ⟨?_, ?_, loaded.name, loaded.fdTable⟩
    · exact loaded.served
    · show (img.borrowed k).onto ((bytesAt ph.pVaddr r').onto c₁.byte) = _
      rw [loaded.byte]
      rfl

/-- A round of the loop: what its header has has gone to the caller. -/
theorem loadHeader_loads {progIdx progHeaderOff : Nat} {r : Option Nat} (rn : Runnable dirs c)
    (hcall : c.loadHeader img h progIdx progHeaderOff fdPos = .ok (r, c')) :
    ∃ segs, img.roundAt h progIdx progHeaderOff fdPos = (segs, r) ∧ Loaded dirs c c' segs := by
  unfold Caller.loadHeader at hcall
  obtain ⟨⟨pos, ret⟩, hseek, hcall⟩ := bind_eq_ok.mp hcall
  obtain ⟨rr, hfile, hcall⟩ := bind_eq_ok.mp hcall
  have hheader : img.headerAt h progIdx progHeaderOff fdPos = .ok rr := by
    unfold Image.headerAt
    rw [hseek]
    exact hfile
  have first : Loaded dirs c (c.put (img.borrowed (2 * progIdx + 1)))
      [.ofPatch (img.borrowed (2 * progIdx + 1))] := .put rn.ordered _
  unfold Image.roundAt
  rw [afterwards_ok _ _ hheader]
  dsimp only at hcall
  by_cases short : rr.ret ≠ some h.ePhentsize
  · rw [if_pos short] at hcall ⊢
    cases hcall
    exact ⟨_, rfl, first⟩
  rw [if_neg short] at hcall ⊢
  by_cases isLoad : (phdrAt rr.buf).pType = ptLoad
  · rw [if_pos isLoad] at hcall ⊢
    obtain ⟨r', hsegment, rfl, rest⟩ := segmentLoad_loads (first.runnable rn) (rd32_lt _ _) hcall
    rw [afterwards_ok _ _ hsegment]
    exact ⟨_, rfl, first.trans rest⟩
  · rw [if_neg isLoad] at hcall ⊢
    cases hcall
    exact ⟨_, rfl, first⟩

/-- The loop of `load`. -/
theorem loadHeaders_loads {left progIdx progHeaderOff : Nat} {ret : Int} (rn : Runnable dirs c)
    (hcall : Caller.loadHeaders img h left progIdx progHeaderOff fdPos c = .ok (ret, c')) :
    Loaded dirs c c' (img.segments h left progIdx progHeaderOff fdPos) := by
  induction left generalizing progIdx progHeaderOff fdPos c with
  | zero =>
    obtain ⟨-, rfl⟩ := Prod.mk.inj (Except.ok.inj hcall)
    exact .refl rn.ordered
  | succ left ih =>
    unfold Caller.loadHeaders at hcall
    obtain ⟨⟨r, c₁⟩, hheader, hcall⟩ := bind_eq_ok.mp hcall
    obtain ⟨segs, hround, first⟩ := loadHeader_loads rn hheader
    unfold Image.segments
    rw [hround]
    cases r with
    | none =>
      obtain ⟨-, rfl⟩ := Prod.mk.inj (Except.ok.inj hcall)
      rw [Option.elim_none, List.append_nil]
      exact first
    | some fdPos => exact first.trans (ih (first.runnable rn) hcall)

theorem loadOpened_loads {ret : Int} (rn : Runnable dirs c)
    (hcall : c.loadOpened img = .ok (ret, c')) : Loaded dirs c c' img.contents := by
  unfold Caller.loadOpened at hcall
  obtain ⟨r, hfile, hcall⟩ := bind_eq_ok.mp hcall
  have first : Loaded dirs c (c.put (img.borrowed 0)) [.ofPatch (img.borrowed 0)] :=
    .put rn.ordered _
  unfold Image.contents
  rw [afterwards_ok _ _ hfile]
  dsimp only at hcall
  by_cases short : r.ret ≠ some ehdrSize
  · rw [if_pos short] at hcall ⊢
    cases hcall
    exact first
  rw [if_neg short] at hcall ⊢
  by_cases bad : ¬ (ehdrAt r.buf).Checked
  · rw [if_pos bad] at hcall ⊢
    cases hcall
    exact first
  · rw [if_neg bad] at hcall ⊢
    exact first.trans (loadHeaders_loads (first.runnable rn) hcall)

end

/-- The entry that is installed and taken back was free. -/
theorem setFd_back {fd : Nat} {c : Caller} (hfd : c.freeLocalFd = some fd) (g : Int) :
    Function.update (c.setFd fd g).fdTable fd (-1) = c.fdTable := by
  have free : c.fdTable fd = -1 := by
    have := List.find?_some hfd
    exact of_decide_eq_true this
  unfold Caller.setFd
  rw [Function.update_idem, ← free, Function.update_eq_self]

/-- `load` HAS LAID the contents of the file over the caller. -/
theorem load_loads {opening : Opening sb} {ret : Int} (rn : Runnable dirs c)
    (hcall : c.load opening = .ok (ret, c')) : Loaded dirs c c' (opening.contents c) := by
  unfold Caller.load at hcall
  obtain ⟨c₀, hkeep, hcall⟩ := bind_eq_ok.mp hcall
  have first : Loaded dirs c c₀ [opening.stays] := keep_loads rn opening.user hkeep
  have same : c₀.freeLocalFd = c.freeLocalFd := by
    unfold Caller.freeLocalFd
    rw [first.fdTable]
  unfold Opening.contents
  cases hopen : opening.file with
  | none =>
    rw [hopen] at hcall
    cases hcall
    exact first
  | some img =>
    rw [hopen] at hcall
    dsimp only at hcall ⊢
    rw [same] at hcall
    cases hfd : c.freeLocalFd with
    | none =>
      rw [hfd] at hcall
      cases hcall
      exact first
    | some fd =>
      rw [hfd] at hcall
      obtain ⟨⟨ret', c₁⟩, hopened, hcall⟩ := bind_eq_ok.mp hcall
      obtain ⟨c₂, hclose, hcall⟩ := bind_eq_ok.mp hcall
      cases hcall
      unfold Caller.closeFd at hclose
      obtain ⟨_, -, hclose⟩ := bind_eq_ok.mp hclose
      cases hclose
      have rn₁ := first.runnable rn
      have loaded :=
        loadOpened_loads (c := c₀.setFd fd img.fdIdx) ⟨rn₁.ordered, rn₁.run, rn₁.size⟩ hopened
      rw [if_neg (Option.some_ne_none fd)]
      refine first.trans ⟨loaded.served, loaded.byte, loaded.name, ?_⟩
      show Function.update c₁.fdTable fd (-1) = _
      rw [loaded.fdTable]
      exact setFd_back (same.trans hfd) _

/-! ## A failed exec -/

variable {opening : Opening sb}

theorem Loaded.intact (loaded : Loaded dirs c c' (opening.contents c))
    (harmless : Harmless c opening) : Intact c c' := by
  have same : c'.memory = c.memory := by
    apply loaded.served.still
    intro v hv _
    obtain ⟨s, hs, hv⟩ := List.mem_flatMap.mp hv
    exact harmless.there s hs v hv
  refine ⟨?_, ?_, ?_, loaded.name, loaded.fdTable⟩
  · intro v _
    rw [same]
  · intro a kept
    rw [loaded.byte]
    exact harmless.same a kept
  · rw [same]

theorem Loaded.harmless (loaded : Loaded dirs c c' (opening.contents c)) (intact : Intact c c') :
    Harmless c opening := by
  have same : c'.memory = c.memory := by
    apply loaded.served.still
    intro v hv user
    have there := loaded.served.there v hv
    unfold There at there ⊢
    rwa [intact.mapped v user] at there
  constructor
  · intro s hs v hv
    have there := loaded.served.there v (List.mem_flatMap.mpr ⟨s, hs, hv⟩)
    rwa [same] at there
  · intro a kept
    rw [← loaded.byte]
    exact intact.bytes a kept

/-- A FAILED EXEC. When `sys_execv` answers −1 to a process, the process is as it was before the
call exactly when the file is harmless to it. -/
theorem exec_failed_intact (dirs : List Nat) (c c' : Caller) (path : Buf) (argvPtr : Nat)
    (argv : List Nat) (opening : Opening sb) (ag : c.memory.Agrees dirs) (run : c.memory.cr3 ∈ dirs)
    (failed : sysExecv c path argvPtr argv opening = .ok (none, c')) :
    Intact c c' ↔ Harmless c opening := by
  unfold sysExecv at failed
  obtain ⟨⟨entryPoint, c₁⟩, hload, failed⟩ := bind_eq_ok.mp failed
  have loaded := load_loads ⟨ag.ordered, run, ag.userSize run⟩ hload
  dsimp only at failed
  split at failed
  next =>
    cases failed
    constructor
    · exact loaded.harmless
    · exact loaded.intact
  next => cases failed

/-! ### A file that is cut off -/

/-- Nothing is left. -/
def nothing : Patch := fun _ => none

/-- The first process, with memory that is clear. -/
def firstCaller (m : Memory) : Caller where
  memory := m
  byte _ := 0
  name := zeros
  fdTable fd := if fd < 3 then fd else -1

/-- `sys_open` of a file in the root: nothing stays in the heap. -/
def fromRoot (img : Image sb) : Opening sb :=
  ⟨.ofPatch nothing, fun _ h => absurd h List.not_mem_nil, some img⟩

theorem load_fromRoot {c : Caller} {img : Image sb} {fd : Nat} (free : c.freeLocalFd = some fd) :
    c.load (fromRoot img) = (do
      let (ret, c) ← (c.setFd fd img.fdIdx).loadOpened img
      let c ← c.closeFd fd
      return (ret, c)) := by
  have hkeep : c.keep (fromRoot img).stays = .ok c := rfl
  have opens : (fromRoot img).file = some img := rfl
  unfold Caller.load
  rw [hkeep, ok_bind, opens]
  dsimp only
  rw [free]

/-- An ELF header that says two program headers, and the first of them after it, of a segment that
is the whole file, at `0x8048000`. -/
def cutFile : List Byte :=
  [127, 69, 76, 70, 1, 1, 1, 0, 0, 0, 0, 0, 0, 0, 0, 0, 2, 0, 3, 0, 1, 0, 0, 0, 0, 128, 4, 8, 52, 0,
    0, 0, 0, 0, 0, 0, 0, 0, 0, 0, 52, 0,
    32, 0, 2, 0, 0, 0, 0, 0, 0, 0, 1, 0, 0, 0, 0, 0, 0, 0, 0, 128, 4, 8, 0, 0, 0, 0, 84, 0, 0, 0,
    84, 0, 0, 0, 7, 0, 0, 0, 0, 16, 0, 0]

/-- The file on a disk: its block is 700. -/
def cutImage : Image smallDisk where
  part := { fullPart with disk := fun a => if a / 512 = 700 then cutFile.getD (a % 512) 0 else 0 }
  inode :=
    { iNo := 1, iSize := 84, iOpenCnts := 1, writenDeny := false,
      iSectors := fun k => if k = 0 then 700 else 0 }
  heap := fun _ => true
  fdIdx := 3
  borrowed := fun _ => nothing

theorem of_afterwards {α : Type} {r : Except Fault α} {f : α → Bool}
    (h : afterwards r false f = true) : ∃ a, r = .ok a ∧ f a = true := by
  cases r with
  | ok a => exact ⟨a, rfl, h⟩
  | error e => cases h

/-- Its header. -/
theorem cutImage_ehdr : ∃ r, fileRead true cutImage.part cutImage.inode 0 zeros ehdrSize = .ok r ∧
    decide (r.ret = some 52 ∧ r.fdPos = 52 ∧
    (ehdrAt r.buf).Checked ∧ (ehdrAt r.buf).ePhnum = 2 ∧ (ehdrAt r.buf).ePhoff = 52 ∧
    (ehdrAt r.buf).ePhentsize = 32) = true := by
  apply of_afterwards
  decide +kernel

/-- Its program header. -/
theorem cutImage_phdr : ∃ r, fileRead true cutImage.part cutImage.inode 52 zeros 32 = .ok r ∧
    decide (r.ret = some 32 ∧
    (phdrAt r.buf).pType = 1 ∧ (phdrAt r.buf).pOffset = 0 ∧ (phdrAt r.buf).pVaddr = 0x8048000 ∧
    (phdrAt r.buf).pFilesz = 84) = true := by
  apply of_afterwards
  decide +kernel

/-- Its segment. -/
theorem cutImage_segment : ∃ r, fileRead true cutImage.part cutImage.inode 0 zeros 84 = .ok r ∧
    decide (r.ret = some 84 ∧ r.fdPos = 84 ∧ r.buf 0 = 127) = true := by
  apply of_afterwards
  decide +kernel

/-- Where the second program header would be. -/
theorem cutImage_end : ∃ r, fileRead true cutImage.part cutImage.inode 84 zeros 32 = .ok r ∧
    decide (r.ret = none) = true := by
  apply of_afterwards
  decide +kernel

/-- All the addresses are there when they lie on a page that is. -/
theorem copyOut_page {vaddr count : Nat} (there : There m v)
    (onPage : ∀ k < count, u32 (vaddr + k : Nat) / 4096 = v) :
    (copyOut vaddr count ⟨m, []⟩).1 = .ok () := by
  have all : bytesThere m vaddr count = count := by
    unfold bytesThere
    rw [List.takeWhile_eq_self_iff.mpr, List.length_range]
    intro k hk
    apply decide_eq_true
    rw [← Int.natCast_add, onPage k (List.mem_range.mp hk)]
    exact there
  unfold copyOut
  dsimp only
  rw [all, if_neg (Nat.lt_irrefl _)]

/-- `sys_lseek` goes to the places that are in the file, and stays where it is for others. -/
theorem cutImage_seek (fdPos : Nat) {offset : Nat} (h : offset < 2 ^ 31) :
    seekTo cutImage.inode fdPos offset =
      .ok (if offset < 84 then (offset, some offset) else (fdPos, none)) := by
  have signed : toSigned 32 (offset : Nat) = offset := by
    unfold toSigned
    omega
  have last : toSigned 32 (toSigned 32 cutImage.inode.iSize - 1) = 83 := by decide
  unfold seekTo sysLseek
  rw [assertThat_of (by decide), ok_bind]
  dsimp only
  rw [if_pos rfl, signed, last]
  by_cases inside : offset < 84
  · rw [if_pos inside, if_neg (by omega)]
    rfl
  · rw [if_neg inside, if_pos (by omega)]
    rfl

/-- The first round loads the segment. -/
theorem cutImage_first {s : Recorded Memory Touch} {h : Elf32Ehdr} (c : Caller)
    (size : h.ePhentsize = 32) (hmap : mapSegment 0x8048 1 ⟨c.memory, []⟩ = (.ok true, s))
    (there : There s.state 0x8048) :
    ∃ byte, c.loadHeader cutImage h 0 52 52 = .ok (some 84, { c with memory := s.state, byte }) ∧
      byte 0x8048000 = 127 := by
  obtain ⟨rr, hheader, hphdr⟩ := cutImage_phdr
  obtain ⟨rs, hsegment, hbytes⟩ := cutImage_segment
  obtain ⟨hret, isLoad, hoffset, hvaddr, hfilesz⟩ := of_decide_eq_true hphdr
  obtain ⟨hret', hpos', hbyte⟩ := of_decide_eq_true hbytes
  have hcopied : copied true cutImage.part cutImage.inode 0 84 = 84 := by
    rw [copied_eq hsegment, hret']
    rfl
  have hcopy : (copyOut 0x8048000 84 ⟨s.state, []⟩).1 = .ok () := copyOut_page there (by decide)
  have hread (c' : Caller) (h : c'.memory = s.state) : c'.sysRead cutImage 2 0 0x8048000 84 =
      .ok (84, (c'.put (bytesAt 0x8048000 rs)).put nothing) := by
    unfold Caller.sysRead
    rw [assertThat_of (by decide), ok_bind, show cutImage.heap 2 = true from rfl, hcopied, h, hcopy,
      ok_bind, hsegment, ok_bind, hpos']
    rfl
  have hload (c' : Caller) (h : c'.memory = c.memory) :
      c'.segmentLoad cutImage 2 rr.fdPos (phdrAt rr.buf) =
        .ok (some 84, (({ c' with memory := s.state } : Caller).put (bytesAt 0x8048000 rs)).put
          nothing) := by
    unfold Caller.segmentLoad Caller.mapSegment
    rw [hvaddr, hfilesz, hoffset, h, show occupyPages 84 0x8048000 = 1 by decide,
      show 0x8048000 / 4096 = 0x8048 by decide, hmap]
    dsimp only
    rw [ok_bind]
    dsimp only
    rw [if_pos rfl, show cutImage.toProgram.inode = cutImage.inode from rfl,
      cutImage_seek _ (by decide), ok_bind, if_pos (by decide)]
    dsimp only
    rw [hread _ rfl]
    rfl
  refine ⟨(bytesAt 0x8048000 rs).onto c.byte, ?_, ?_⟩
  · unfold Caller.loadHeader
    rw [cutImage_seek _ (by decide), ok_bind, size, if_pos (by decide)]
    dsimp only
    rw [show cutImage.heap (2 * 0 + 1) = true from rfl, hheader, ok_bind]
    rw [if_neg (not_not.mpr hret)]
    exact (if_pos isLoad).trans (hload (c.put nothing) rfl)
  · unfold Patch.onto bytesAt
    rw [if_pos ⟨by decide, by rw [hret']; decide⟩]
    exact hbyte

/-- The run on that file: the segment is loaded, and the second program header is not there. -/
theorem cutImage_run {c : Caller} {s : Recorded Memory Touch}
    (fds : c.fdTable = (firstCaller c.memory).fdTable)
    (hmap : mapSegment 0x8048 1 ⟨c.memory, []⟩ = (.ok true, s)) (there : There s.state 0x8048) :
    ∃ byte, sysExecv c zeros 0 [] (fromRoot cutImage) =
      .ok (none, { c with memory := s.state, byte }) ∧ byte 0x8048000 = 127 := by
  obtain ⟨r, hehdr, hfields⟩ := cutImage_ehdr
  obtain ⟨re, hend, hnone⟩ := cutImage_end
  obtain ⟨hret, hpos, checked, hphnum, hphoff, size⟩ := of_decide_eq_true hfields
  obtain ⟨byte, hfirst, hbyte⟩ := cutImage_first (h := ehdrAt r.buf) (c.setFd 3 3) size hmap there
  refine ⟨byte, ?_, hbyte⟩
  have hsecond (c : Caller) : c.loadHeader cutImage (ehdrAt r.buf) 1 84 84 = .ok (none, c) := by
    unfold Caller.loadHeader
    rw [cutImage_seek _ (by decide), ok_bind, size, if_neg (by decide)]
    dsimp only
    rw [show cutImage.heap (2 * 1 + 1) = true from rfl, hend, ok_bind]
    apply if_pos
    rw [of_decide_eq_true hnone]
    exact nofun
  have hloop : Caller.loadHeaders cutImage (ehdrAt r.buf) 2 0 52 52 (c.setFd 3 3) =
      .ok (-1, { c.setFd 3 3 with memory := s.state, byte }) := by
    unfold Caller.loadHeaders
    rw [hfirst, ok_bind]
    dsimp only
    unfold Caller.loadHeaders
    have next : u32 (((52 : Nat) : Int) + ((ehdrAt r.buf).ePhentsize : Nat)) = 84 := by
      rw [size]
      decide
    rw [next, hsecond, ok_bind]
    rfl
  have hopened : (c.setFd 3 3).loadOpened cutImage =
      .ok (-1, { c.setFd 3 3 with memory := s.state, byte }) := by
    unfold Caller.loadOpened
    rw [show cutImage.heap 0 = true from rfl, hehdr, ok_bind]
    dsimp only
    rw [show r.ret = some ehdrSize from hret, if_neg (not_not.mpr rfl),
      if_neg (not_not.mpr checked), hphnum, hphoff, hpos]
    exact hloop
  have free : c.freeLocalFd = some 3 := by
    unfold Caller.freeLocalFd
    rw [fds]
    rfl
  have hclose : ({ c.setFd 3 3 with memory := s.state, byte } : Caller).closeFd 3 =
      .ok { c with memory := s.state, byte } := by
    have installed : (c.setFd 3 3).fdTable 3 = 3 := Function.update_self 3 3 c.fdTable
    unfold Caller.closeFd
    dsimp only
    rw [installed, assertThat_of (by decide), ok_bind]
    have back : Function.update (c.setFd 3 3).fdTable 3 (-1) = c.fdTable := setFd_back free 3
    unfold Caller.setFd at back ⊢
    dsimp only at back ⊢
    rw [back]
    rfl
  have hload : c.load (fromRoot cutImage) = .ok (-1, { c with memory := s.state, byte }) := by
    rw [load_fromRoot free]
    change (do
      let (ret, c) ← (c.setFd 3 3).loadOpened cutImage
      let c ← c.closeFd 3
      return (ret, c)) = _
    rw [hopened, ok_bind]
    dsimp only
    rw [hclose]
    rfl
  unfold sysExecv
  rw [hload, ok_bind]
  exact if_pos rfl

/-- What the file has for a caller: the segment, and nothing else. -/
theorem cutImage_contents :
    ∃ r, cutImage.contents = [.ofPatch nothing, .ofPatch nothing, ⟨[0x8048], bytesAt 0x8048000 r⟩,
    .ofPatch nothing, .ofPatch nothing] := by
  obtain ⟨r, hehdr, hfields⟩ := cutImage_ehdr
  obtain ⟨rr, hheader, hphdr⟩ := cutImage_phdr
  obtain ⟨rs, hsegment, hbytes⟩ := cutImage_segment
  obtain ⟨re, hend, hnone⟩ := cutImage_end
  obtain ⟨hret, hpos, checked, hphnum, hphoff, size⟩ := of_decide_eq_true hfields
  obtain ⟨hret', isLoad, hoffset, hvaddr, hfilesz⟩ := of_decide_eq_true hphdr
  obtain ⟨-, hpos', -⟩ := of_decide_eq_true hbytes
  have first : cutImage.roundAt (ehdrAt r.buf) 0 52 52 =
      ([.ofPatch nothing, ⟨[0x8048], bytesAt 0x8048000 rs⟩, .ofPatch nothing], some 84) := by
    have headed : cutImage.headerAt (ehdrAt r.buf) 0 52 52 = .ok rr := by
      unfold Image.headerAt
      rw [cutImage_seek _ (by decide), ok_bind, size]
      exact hheader
    have read : cutImage.segmentAt 2 rr.fdPos (phdrAt rr.buf) = .ok rs := by
      unfold Image.segmentAt
      rw [hoffset, hfilesz, cutImage_seek _ (by decide), ok_bind]
      exact hsegment
    unfold Image.roundAt
    rw [afterwards_ok _ _ headed, if_neg (by rw [hret', size]; exact not_not.mpr rfl),
      if_pos (show (phdrAt rr.buf).pType = ptLoad from isLoad), afterwards_ok _ _ read, hvaddr,
      hfilesz, hpos']
    rfl
  have second : cutImage.roundAt (ehdrAt r.buf) 1 84 84 = ([.ofPatch nothing], none) := by
    have headed : cutImage.headerAt (ehdrAt r.buf) 1 84 84 = .ok re := by
      unfold Image.headerAt
      rw [cutImage_seek _ (by decide), ok_bind, size]
      exact hend
    unfold Image.roundAt
    rw [afterwards_ok _ _ headed,
      if_pos (by rw [of_decide_eq_true hnone]; exact (Option.some_ne_none _).symm)]
    rfl
  have next : u32 (((52 : Nat) : Int) + ((ehdrAt r.buf).ePhentsize : Nat)) = 84 := by
    rw [size]
    decide
  refine ⟨rs, ?_⟩
  unfold Image.contents
  rw [show cutImage.heap 0 = true from rfl, afterwards_ok _ _ hehdr,
    if_neg (by rw [hret]; exact not_not.mpr rfl),
    if_neg (not_not.mpr checked), hphnum, hphoff, hpos]
  unfold Image.segments
  rw [first, next, Option.elim_some]
  unfold Image.segments
  rw [second]
  rfl

/-- The first process has its first page. -/
theorem first_serves : ∃ (m : Memory) (d : Nat) (p : Proc), Runs m [d] p ∧ There m 0x8048 ∧
    mapSegment 0x8048 1 ⟨m, []⟩ = (.ok true, ⟨m, []⟩) := by
  obtain ⟨m, d, p, runs, -, there⟩ := first_process
  have test := pageThere_run runs.agrees.ordered runs.run (show 0x8048 < 2 ^ 20 by decide) []
  rw [decide_eq_true (show There m 0x8048 from there)] at test
  refine ⟨m, d, p, runs, there, ?_⟩
  unfold mapSegment
  rw [Acts.bind_ok (servePage_present test)]
  rfl

/-- The theorem for that file, in a process that has its first page, with the bytes of the file
there already: the call fails after the segment has been read, and the process is as it was. -/
theorem exec_failed_intact_reread :
    ∃ c c' : Caller, There c.memory 0x8048 ∧ c.byte 0x8048000 = 127 ∧
    sysExecv c zeros 0 [] (fromRoot cutImage) = .ok (none, c') ∧ Intact c c' := by
  obtain ⟨m, d, p, runs, there, hmap⟩ := first_serves
  obtain ⟨rs, hcontents⟩ := cutImage_contents
  have hsegs (byte : Nat → Byte) : (fromRoot cutImage).contents { firstCaller m with byte } =
      .ofPatch nothing :: cutImage.contents :=
    congrArg (List.cons _) (if_neg (show (firstCaller m).freeLocalFd ≠ none from
      Option.some_ne_none 3))
  generalize hbytes : laidOver (.ofPatch nothing :: cutImage.contents) (fun _ => 0) = bytes
  obtain ⟨byte, hrun, hbyte⟩ := @cutImage_run { firstCaller m with byte := bytes } _ rfl hmap there
  have intact :=
    (exec_failed_intact [d] { firstCaller m with byte := bytes } _ zeros 0 []
      (fromRoot cutImage) runs.agrees
    runs.run hrun).mpr (by
      constructor
      · intro s hs v hv
        rw [hsegs, hcontents] at hs
        simp only [List.mem_cons, List.not_mem_nil, or_false] at hs
        rcases hs with rfl | rfl | rfl | rfl | rfl | rfl <;>
          first
          | cases hv; done
          | exact List.mem_singleton.mp hv ▸ there
      · intro a _
        rw [hsegs, ← hbytes, laidOver_twice])
  exact ⟨_, _, there, (intact.bytes 0x8048000 fun _ => there).symm.trans hbyte, hrun, intact⟩

/-- THE FILE THAT IS CUT OFF. `sys_execv` answers −1, and the first page of the process has been
overwritten. -/
theorem cut_file_damages :
    ¬ ∀ (dirs : List Nat) (c c' : Caller) (path : Buf) (argvPtr : Nat) (argv : List Nat)
      (opening : Opening smallDisk),
    c.memory.Agrees dirs → c.memory.cr3 ∈ dirs →
    sysExecv c path argvPtr argv opening = .ok (none, c') → Intact c c' := by
  intro claim
  obtain ⟨m, d, p, runs, there, hmap⟩ := first_serves
  obtain ⟨byte, hrun, hbyte⟩ := @cutImage_run (firstCaller m) _ rfl hmap there
  have intact :=
    claim [d] (firstCaller m) _ zeros 0 [] (fromRoot cutImage) runs.agrees runs.run hrun
  have same := intact.bytes 0x8048000 fun _ => there
  dsimp only at same
  rw [hbyte] at same
  cases same

end SeekingOs.Exec
