import SeekingOs.Fs.DirAccounts
import SeekingOs.Fs.WholePaths

/-!
# Reading a directory

Each `dir_read` goes through the blocks from the first one on and passes over as many entries in use
as `dir_pos` says were returned before. Only `i_size` ends the loop over the blocks, not their
number. So it depends on `i_size` being the size of the entries in use that the entry number
`dir_pos / dir_entry_size` is found before `all_blocks` ends.
-/

namespace SeekingOs.Fs

open Lib

variable {sb : SuperBlock}

/-- `struct dir`, but for its inode -/
structure DirStream where
  dirPos : Nat
  dirBuf : Buf

/-- `(dir_e + i)->f_type` is not `FT_UNKOWN`. -/
def usedAt (dirE : Buf) (i : Nat) : Bool := (dirEntryAt dirE (dirEntrySize * i)).fType != ftUnkown

/-- The loop of `dir_read` over the entries of a sector: the entry to return, and
`cur_dir_entry_pos`. -/
def readSlots (dirE : Buf) (dirPos : Nat) : List Nat → Nat → Except Fault (Option Nat × Nat)
  | [], cur => return (none, cur)
  | i :: rest, cur =>
    if usedAt dirE i = true then
      if cur < dirPos then readSlots dirE dirPos rest (u32 (cur + dirEntrySize))
      else do
        assertThat false (cur = dirPos) "dir_read" "cur_dir_entry_pos == dir->dir_pos"
        return (some i, cur)
    else readSlots dirE dirPos rest cur

/-- The loop over the blocks. Behind the last one `all_blocks` is left. -/
def readBlocks (p : Part sb) (allBlocks : Blocks) (dirPos : Nat) :
    List Nat → Nat → Buf → Except Fault (DirEntry × Buf)
  | [], _, _ => .error (.outOfBounds "dir_read")
  | blockIdx :: rest, cur, dirBuf =>
    if allBlocks blockIdx = 0 then readBlocks p allBlocks dirPos rest cur dirBuf
    else do
      let dirE := ideRead p (allBlocks blockIdx) (memcpy dirBuf 0 zeros sectorSize) 1
      match ← readSlots dirE dirPos (List.range dirEntrysPerSec) cur with
      | (some i, _) => return (dirEntryAt dirE (dirEntrySize * i), dirE)
      | (none, cur) => readBlocks p allBlocks dirPos rest cur dirE

/-- `dir_read`; `none` is `NULL`. -/
def dirRead (p : Part sb) (dirInode : Inode) (dir : DirStream) :
    Except Fault (Option DirEntry × DirStream) :=
  if dir.dirPos < dirInode.iSize then do
    let (dirE, dirBuf) ← readBlocks p (collectBlocks p dirInode) dir.dirPos
        (List.range 140) 0 dir.dirBuf
    return (some dirE, ⟨u32 (dir.dirPos + dirEntrySize), dirBuf⟩)
  else return (none, dir)

/-- `sys_rewinddir` -/
def sysRewinddir (dir : DirStream) : DirStream := { dir with dirPos := 0 }

/-- `n` calls of `sys_readdir`, one after another. -/
def readdirs (p : Part sb) (dirInode : Inode) :
    (n : Nat) → DirStream → Except Fault (List (Option DirEntry) × DirStream)
  | 0, dir => return ([], dir)
  | n + 1, dir => do
    let (dirE, dir) ← dirRead p dirInode dir
    let (rest, dir) ← readdirs p dirInode n dir
    return (dirE :: rest, dir)

/-! ## The entries in use, in order -/

variable (p : Part sb) (inode : Inode)

/-- The entries in use of a block. -/
def liveSlots (k : Nat) : List Nat :=
  (List.range dirEntrysPerSec).filter fun i => (entries p inode (k, i)).fType ≠ 0

/-- The cells in use of some blocks. -/
def liveIn (ks : List Nat) : List Cell :=
  ks.flatMap fun k => (liveSlots p inode k).map fun i => (k, i)

/-- The cells in use. -/
def liveCells : List Cell := liveIn p inode (List.range 140)

/-- The order of blocks and slots. -/
def Before (c c' : Cell) : Prop := c.1 < c'.1 ∨ c.1 = c'.1 ∧ c.2 < c'.2

variable {p inode} {n m k : Nat}

theorem mem_liveCells {c : Cell} : c ∈ liveCells p inode ↔ (entries p inode c).fType ≠ 0 := by
  unfold liveCells liveIn liveSlots
  rw [List.mem_flatMap]
  constructor
  · rintro ⟨k, -, hc⟩
    obtain ⟨i, hi, rfl⟩ := List.mem_map.mp hc
    exact of_decide_eq_true (List.mem_filter.mp hi).2
  · intro used
    obtain ⟨hk, hi, -⟩ := entries_place used
    refine ⟨c.1, List.mem_range.mpr hk, List.mem_map.mpr ⟨c.2, ?_, rfl⟩⟩
    exact List.mem_filter.mpr ⟨List.mem_range.mpr hi, decide_eq_true used⟩

theorem liveCells_ordered : (liveCells p inode).Pairwise Before := by
  unfold liveCells liveIn
  rw [List.pairwise_flatMap]
  constructor
  · intro k _
    rw [List.pairwise_map]
    apply (List.pairwise_lt_range.filter _).imp
    intro i j hij
    exact .inr ⟨rfl, hij⟩
  · apply List.pairwise_lt_range.imp
    intro k l hkl c hc c' hc'
    obtain ⟨i, -, rfl⟩ := List.mem_map.mp hc
    obtain ⟨j, -, rfl⟩ := List.mem_map.mp hc'
    exact .inl hkl

theorem liveCells_nodup : (liveCells p inode).Nodup := by
  apply liveCells_ordered.imp
  intro c c' before same
  subst same
  rcases before with h | ⟨-, h⟩
  · exact Nat.lt_irrefl _ h
  · exact Nat.lt_irrefl _ h

theorem length_liveCells : (liveCells p inode).length = (live p inode).card := by
  rw [← List.toFinset_card_of_nodup liveCells_nodup]
  congr 1
  ext c
  rw [List.mem_toFinset, mem_liveCells, mem_live]

/-! ## One call -/

/-- THE ENTRIES OF A SECTOR. `m` entries were passed over before, and `n` are to be: the scan comes
to the entry number `n - m`, or has passed over all of them. -/
theorem readSlots_passes {dirE : Buf} (is : List Nat) (hle : m ≤ n)
    (hn : dirEntrySize * n < 2 ^ 31) :
    readSlots dirE (dirEntrySize * n) is (dirEntrySize * m) =
      match (is.filter (usedAt dirE))[n - m]? with
      | some i => .ok (some i, dirEntrySize * n)
      | none => .ok (none, dirEntrySize * (m + (is.filter (usedAt dirE)).length)) := by
  induction is generalizing m with
  | nil => rfl
  | cons i is ih =>
    unfold readSlots
    by_cases used : usedAt dirE i = true
    · rw [List.filter_cons_of_pos used, if_pos used]
      by_cases hlt : m < n
      · have hcur : dirEntrySize * m < dirEntrySize * n :=
          Nat.mul_lt_mul_of_pos_left hlt (by decide)
        have next : u32 ((dirEntrySize * m : Nat) + (dirEntrySize : Nat) : Int) =
            dirEntrySize * (m + 1) := by
          rw [← Int.natCast_add, u32_of_lt, Nat.mul_succ]
          unfold dirEntrySize at *
          omega
        rw [if_pos hcur, next, ih hlt, show n - m = n - (m + 1) + 1 by omega,
          List.getElem?_cons_succ, List.length_cons,
          Nat.add_right_comm m 1, Nat.add_assoc m]
      · obtain rfl : m = n := Nat.le_antisymm hle (Nat.le_of_not_lt hlt)
        rw [if_neg (Nat.lt_irrefl _), assertThat_of rfl, ok_bind, Nat.sub_self,
          List.getElem?_cons_zero]
        rfl
    · rw [List.filter_cons_of_neg used, if_neg used]
      exact ih hle

/-- The entries in use of a block are found where they are. -/
theorem liveSlots_read (hk : k < 140) (h : slot p inode k ≠ 0) (dirBuf : Buf) :
    (List.range dirEntrysPerSec).filter (usedAt (ideRead p (slot p inode k) dirBuf 1)) =
      liveSlots p inode k := by
  unfold liveSlots
  apply List.filter_congr
  intro i hi
  have hi := List.mem_range.mp hi
  unfold usedAt ftUnkown
  rw [ideRead_entry dirBuf hi, ← entries_used hk hi h]
  by_cases h0 : (entries p inode (k, i)).fType = 0
  · simp [h0]
  · simp [h0]

theorem liveSlots_unused (h : slot p inode k = 0) : liveSlots p inode k = [] := by
  unfold liveSlots
  apply List.filter_eq_nil_iff.mpr
  intro i _
  rw [entries_unused h]
  exact Bool.false_ne_true

/-- THE BLOCKS. As long as there is an entry number `n - m` in those to come, the scan ends with it.
-/
theorem readBlocks_finds {ks : List Nat} (hks : ∀ k ∈ ks, k < 140) (hle : m ≤ n)
    (hn : dirEntrySize * n < 2 ^ 31) {c : Cell} (h : (liveIn p inode ks)[n - m]? = some c)
    (dirBuf : Buf) : ∃ dirBuf',
      readBlocks p (collectBlocks p inode) (dirEntrySize * n) ks (dirEntrySize * m) dirBuf =
        .ok (entries p inode c, dirBuf') := by
  induction ks generalizing m dirBuf with
  | nil => cases h
  | cons k ks ih =>
    rw [List.forall_mem_cons] at hks
    have cons : liveIn p inode (k :: ks) = (liveSlots p inode k).map (fun i => (k, i)) ++
        liveIn p inode ks := List.flatMap_cons
    rw [cons] at h
    unfold readBlocks
    rw [← slot_lt hks.1]
    by_cases h0 : slot p inode k = 0
    · rw [liveSlots_unused h0] at h
      rw [if_pos h0]
      exact ih hks.2 hle h dirBuf
    · rw [if_neg h0]
      dsimp only
      rw [readSlots_passes _ hle hn, liveSlots_read hks.1 h0]
      cases found : (liveSlots p inode k)[n - m]? with
      | some i =>
        have hi := List.getElem?_eq_some_iff.mp found
        rw [List.getElem?_append_left (by rw [List.length_map]; exact hi.1),
          List.getElem?_map, found] at h
        cases h
        have hmem : i ∈ liveSlots p inode k := List.mem_of_getElem? found
        have hlt := List.mem_range.mp (List.mem_of_mem_filter hmem)
        have same : dirEntryAt (ideRead p (slot p inode k) (memcpy dirBuf 0 zeros sectorSize) 1)
            (dirEntrySize * i) = entries p inode (k, i) := by
          rw [ideRead_entry _ hlt, entries_used hks.1 hlt h0]
        exact ⟨_,
          congrArg (fun dirE =>
            Except.ok (dirE, ideRead p (slot p inode k) (memcpy dirBuf 0 zeros sectorSize) 1)) same⟩
      | none =>
        have beyond := List.getElem?_eq_none_iff.mp found
        rw [List.getElem?_append_right (by rw [List.length_map]; exact beyond),
          List.length_map] at h
        apply ih hks.2 (by omega)
        rw [← h]
        congr 1
        omega

/-- `i_size` is the size of the entries in use. -/
def SizeCounts (p : Part sb) (inode : Inode) : Prop :=
  inode.iSize = dirEntrySize * (live p inode).card

theorem SizeCounts.eq (size : SizeCounts p inode) :
    inode.iSize = dirEntrySize * (liveCells p inode).length := by
  rw [length_liveCells]
  exact size

theorem SizeCounts.small (size : SizeCounts p inode) : inode.iSize < 2 ^ 31 := by
  have hcard := card_live_le p inode
  rw [size]
  unfold dirEntrySize dirEntrysPerSec at *
  omega

/-- Where the stream is after `n` calls from the start. -/
def After (p : Part sb) (inode : Inode) (n : Nat) (dir : DirStream) : Prop :=
  dir.dirPos = dirEntrySize * min n (liveCells p inode).length

/-- What call number `n` answers. -/
def entryNo (p : Part sb) (inode : Inode) (n : Nat) : Option DirEntry :=
  (liveCells p inode)[n]?.map (entries p inode)

/-- ONE CALL. The next entry is returned, or `NULL` when there is none. -/
theorem dirRead_next (size : SizeCounts p inode) {dir : DirStream} (after : After p inode n dir) :
    ∃ dir', dirRead p inode dir = .ok (entryNo p inode n, dir') ∧ After p inode (n + 1) dir' := by
  have hsize := size.eq
  have hsmall := size.small
  unfold After at after ⊢
  unfold dirRead entryNo
  by_cases hlt : n < (liveCells p inode).length
  · rw [Nat.min_eq_left (Nat.le_of_lt hlt)] at after
    have hpos : dirEntrySize * n < inode.iSize := by
      rw [hsize]
      exact Nat.mul_lt_mul_of_pos_left hlt (by decide)
    have at_n : (liveIn p inode (List.range 140))[n - 0]? = some (liveCells p inode)[n] :=
      List.getElem?_eq_getElem hlt
    obtain ⟨dirBuf', hread⟩ :=
      readBlocks_finds (fun k hk => List.mem_range.mp hk) (Nat.zero_le n) (hpos.trans hsmall)
        at_n dir.dirBuf
    have next : u32 ((dirEntrySize * n : Nat) + (dirEntrySize : Nat) : Int) =
        dirEntrySize * (n + 1) := by
      rw [← Int.natCast_add, u32_of_lt, Nat.mul_succ]
      unfold dirEntrySize at *
      omega
    rw [Nat.mul_zero] at hread
    rw [after, if_pos hpos, hread, ok_bind, List.getElem?_eq_getElem hlt, Nat.min_eq_left hlt]
    exact ⟨_, rfl, next⟩
  · have hge := Nat.le_of_not_lt hlt
    rw [Nat.min_eq_right hge] at after
    rw [after, if_neg (by rw [hsize]; exact Nat.lt_irrefl _), List.getElem?_eq_none hge,
      Nat.min_eq_right (Nat.le_succ_of_le hge)]
    exact ⟨dir, rfl, after⟩

theorem after_rewinddir (dir : DirStream) : After p inode 0 (sysRewinddir dir) := by
  unfold After
  rw [Nat.zero_min, Nat.mul_zero]
  rfl

/-- `m` CALLS. -/
theorem readdirs_next (size : SizeCounts p inode) {dir : DirStream}
    (after : After p inode n dir) (m : Nat) :
    ∃ dir', readdirs p inode m dir = .ok ((List.range' n m).map (entryNo p inode), dir') := by
  induction m generalizing n dir with
  | zero => exact ⟨dir, rfl⟩
  | succ m ih =>
    obtain ⟨dir₁, hread, after₁⟩ := dirRead_next size after
    obtain ⟨dir', hrest⟩ := ih after₁
    unfold readdirs
    rw [hread, ok_bind]
    dsimp only
    rw [hrest, ok_bind, List.range'_succ, List.map_cons]
    exact ⟨dir', rfl⟩

/-- A DIRECTORY IS READ EXACTLY. After `sys_rewinddir` the calls return the entries in use one after
another, each of them once, in the order of the blocks and slots, and `NULL` from then on. -/
theorem readdir_enumerates (p : Part sb) (inode : Inode) (dir : DirStream) (m : Nat)
    (size : SizeCounts p inode) :
    (∃ dir', readdirs p inode m (sysRewinddir dir) =
      .ok ((List.range m).map fun n => (liveCells p inode)[n]?.map (entries p inode), dir')) ∧
      (liveCells p inode).Nodup ∧ (liveCells p inode).Pairwise Before ∧ ∀ c, c ∈ liveCells p inode ↔
        (entries p inode c).fType ≠ 0 := by
  refine ⟨?_, liveCells_nodup, liveCells_ordered, fun c => mem_liveCells⟩
  rw [List.range_eq_range']
  exact readdirs_next size (after_rewinddir dir) m

theorem tree_live_cells : live treePart treeRoot = {(0, 0), (0, 1), (0, 2)} := by
  ext c
  obtain ⟨k, i⟩ := c
  have used : (entries treePart treeRoot (k, i)).fType ≠ 0 ↔
      (if k = 0 then treeEntry i else none) ≠ none := by
    rw [← tree_cells]
    exact not_congr binding_none.symm
  rw [mem_live, used]
  simp only [Finset.mem_insert, Finset.mem_singleton, Prod.mk.injEq]
  by_cases hk : k = 0
  · subst hk
    rw [if_pos rfl]
    unfold treeEntry
    split
    · simp
    · simp
    · simp
    next h0 h1 h2 => simpa using ⟨h0, h1, h2⟩
  · simp [hk]

/-- The theorem for the root of a disk with a file in it, read to its end. -/
theorem readdir_enumerates_tree : (∃ dir', readdirs treePart treeRoot 4 (sysRewinddir ⟨0, zeros⟩) =
    .ok ((List.range 4).map fun n =>
    (liveCells treePart treeRoot)[n]?.map (entries treePart treeRoot), dir')) ∧
      (liveCells treePart treeRoot).Nodup ∧ (liveCells treePart treeRoot).Pairwise Before ∧
        ∀ c, c ∈ liveCells treePart treeRoot ↔ (entries treePart treeRoot c).fType ≠ 0 :=
  readdir_enumerates treePart treeRoot ⟨0, zeros⟩ 4
    (by unfold SizeCounts; rw [tree_live_cells]; rfl)

end SeekingOs.Fs
