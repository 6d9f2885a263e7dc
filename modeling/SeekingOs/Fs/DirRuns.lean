import SeekingOs.Fs.DirAccounts
import SeekingOs.Fs.FileRuns

/-!
# A directory from its making on

`sys_mkdir` takes an inode and a block, puts `.` and `..` into the block, inserts the name into the
parent directory and syncs both inodes. Whoever opens the directory then finds two entries in it,
and its accounts stay right as long as the direct blocks suffice.
-/

namespace SeekingOs.Fs

open Lib Lib.Machine

variable {sb : SuperBlock} {p p' : Part sb} {parent parent' new : Inode} {n m : Nat}

/-- The fields of the entry at an offset; the end of the name is there already. -/
def setEntry (buf : Buf) (off : Nat) (name : Name) (inodeNo fileType : Nat) : Buf :=
  memcpy (memcpy (memcpy buf off (strBuf name) name.length) (off + 16) (le32 inodeNo) 4) (off + 20)
    (le32 fileType) 4

/-- `io_buf` in `sys_mkdir` with the entries `.` and `..` -/
def dotEntries (inodeNo parentNo : Nat) : Buf :=
  setEntry (setEntry zeros 0 dotName inodeNo ftDirectory) dirEntrySize dotDotName
    parentNo ftDirectory

/-- `sys_mkdir` from `inode_bitmap_alloc` on, with the parent directory and the last name of the
path: the partition, the parent's inode and the new one. No allocation fails as long as
`bitmap_scan` asserts that it finds a bit. -/
def sysMkdir (p : Part sb) (parentDir : Inode) (dirname : Name) :
    Except Fault (Option (Part sb × Inode × Inode)) := do
  match ← inodeBitmapAlloc p with
  | none => return none
  | some (inodeNo, p) =>
    match ← blockBitmapAlloc p with
    | none => return none
    | some (blockLba, p) =>
      assertThat false (blockBit sb blockLba ≠ 0) "sys_mkdir" "block_bitmap_idx != 0"
      let p := blockBitmapSync p (blockBit sb blockLba)
      let p := ideWrite p blockLba (dotEntries inodeNo parentDir.iNo) 1
      let newDirInode := { (inodeInit inodeNo).setSector 0 blockLba with iSize := 2 * dirEntrySize }
      let newDirEntry ← createDirEntry dirname inodeNo ftDirectory zeros
      match ← syncDirEntry p parentDir newDirEntry zeros with
      | (false, _, _) => return none
      | (true, p, parentDir) =>
        let p ← inodeSync p parentDir zeros
        let p ← inodeSync p newDirInode zeros
        return some (inodeBitmapSync p inodeNo, parentDir, newDirInode)

/-! ## The new directory -/

/-- The entries of the new block. -/
theorem dotEntries_apply {off : Nat} : dotEntries n m off =
    if off < 24 then entryBuf dotName n ftDirectory off
    else if off < 48 then entryBuf dotDotName m ftDirectory (off - 24) else 0 := by
  unfold dotEntries setEntry entryBuf memcpy dirEntrySize
  rw [show dotName.length = 1 from rfl, show dotDotName.length = 2 from rfl]
  by_cases h₁ : off < 24
  · rw [if_neg (by omega), if_neg (by omega), if_neg (by omega), if_pos h₁]
  rw [if_neg h₁]
  by_cases h₂ : off < 48
  · rw [if_pos h₂]
    by_cases ht : 44 ≤ off
    · rw [if_pos (by omega), if_pos (by omega), Nat.sub_sub]
    rw [if_neg (by omega), if_neg (show ¬ (20 ≤ off - 24 ∧ off - 24 < 20 + 4) by omega)]
    by_cases hn : 40 ≤ off
    · rw [if_pos (by omega), if_pos (by omega), Nat.sub_sub]
    rw [if_neg (by omega), if_neg (show ¬ (16 ≤ off - 24 ∧ off - 24 < 16 + 4) by omega)]
    by_cases hs : off < 26
    · rw [if_pos (by omega), if_pos (by omega), Nat.sub_zero]
    · rw [if_neg (by omega), if_neg (show ¬ (0 ≤ off - 24 ∧ off - 24 < 0 + 2) by omega),
        if_neg (by omega),
        if_neg (by omega), if_neg (by omega)]
      rfl
  · rw [if_neg h₂]
    repeat rw [if_neg (by omega)]
    rfl

/-- What `sys_mkdir` makes: a block with two entries, and an inode that counts them. -/
structure Made (p : Part sb) (new : Inode) (parentNo : Nat) : Prop where
  iNo : new.iNo < 4096
  iSize : new.iSize = 2 * dirEntrySize
  block : Taken p (new.iSectors 0)
  others : ∀ k, k ≠ 0 → new.iSectors k = 0
  dots : ∀ off < 512, sector p (new.iSectors 0) off = dotEntries new.iNo parentNo off

/-- A block that is another's is neither given back nor written. -/
theorem Effect.keeps {inode inode' : Inode} {b off : Nat} (h : Effect p inode p' inode')
    (taken : Taken p b) (notOurs : ¬ Holds (slot p inode) b) (hoff : off < 512) :
    Taken p' b ∧ sector p' b off = sector p b off := by
  constructor
  · exact h.regrants.others b taken notOurs
  · obtain ⟨W, hw, hm⟩ := h.touches.written
    apply hw.sector _ hoff
    intro hmem
    have hstart := taken.1
    rcases hm b hmem with hbit | htab | h0 | hown
    · exact absurd hbit.lt (by omega)
    · exact not_table_of_le hstart htab
    · exact taken.ne_zero h0
    · exact hown.2.elim notOurs fun free => free taken

theorem Replaced.keeps {b off : Nat} {bytes : Buf} (h : Replaced p n bytes p') (taken : Taken p b)
    (hoff : off < 512) : Taken p' b ∧ sector p' b off = sector p b off := by
  constructor
  · exact (taken_congr h.blockBitmap b).mpr taken
  · obtain ⟨W, hw, hm⟩ := h.wrote
    apply hw.sector _ hoff
    intro hmem
    exact not_table_of_le taken.1 (hm b hmem)

/-- A block that was just taken may be written: the blocks of an inode are where they were. -/
theorem InOrder.besides {inode : Inode} {b : Nat} (books : InOrder p inode)
    (alloc : Allocated p b p') (buf : Buf) :
    slot (ideWrite p' b buf 1) inode = slot p inode ∧ InOrder (ideWrite p' b buf 1) inode := by
  have slots : slot (ideWrite p' b buf 1) inode = slot p inode := by
    funext k
    refine Eq.trans ((wrote_ideWrite p' b buf 1).slot ?_ k) (books.slot_synced alloc.wrote k)
    by_cases h0 : inode.iSectors 12 = 0
    · exact .inr h0
    · left
      intro hmem
      have := books.table.resolve_left h0
      rw [mem_one hmem] at this
      exact alloc.free this
  refine ⟨slots, ?_⟩
  constructor
  · rw [slots]
    exact books.inj
  · intro i hi
    rw [slots] at hi ⊢
    exact (alloc.taken _).mpr (.inr (books.taken i hi))

/-- `sys_mkdir` makes a directory, and its inode is on the disk. -/
theorem sysMkdir_made {dirname : Name} (books : InOrder p parent)
    (h : sysMkdir p parent dirname = .ok (some (p', parent', new))) :
    Made p' new parent.iNo ∧ diskInode p' new.iNo = new.pure ∧ parent.iNo < 4096 := by
  unfold sysMkdir at h
  obtain ⟨r, halloc, h⟩ := bind_eq_ok.mp h
  unfold inodeBitmapAlloc at halloc
  obtain ⟨_, hscan, halloc⟩ := bind_eq_ok.mp halloc
  obtain ⟨n, rfl, hn, -, -⟩ := bitmapScan_one hscan
  cases halloc
  rw [p.inodeSize] at hn
  dsimp only [Option.map_some] at h
  obtain ⟨_, halloc, h⟩ := bind_eq_ok.mp h
  obtain ⟨b, p₁, rfl, alloc⟩ := blockBitmapAlloc_ok halloc
  dsimp only at h
  obtain ⟨_, _, h⟩ := bind_eq_ok.mp h
  obtain ⟨pDe, _, h⟩ := bind_eq_ok.mp h
  obtain ⟨⟨done, p₃, parent₃⟩, hsync, h⟩ := bind_eq_ok.mp h
  obtain rfl := syncDirEntry_true hsync
  obtain ⟨p₄, hparent, h⟩ := bind_eq_ok.mp h
  obtain ⟨p₅, hnew, h⟩ := bind_eq_ok.mp h
  cases h
  have books₀ : InOrder (p.setInode n true) parent := books
  obtain ⟨slots, books₂⟩ := books₀.besides alloc (dotEntries n parent.iNo)
  have taken₂ : Taken (ideWrite (blockBitmapSync p₁ (blockBit sb b)) b (dotEntries n parent.iNo) 1)
      b := alloc.self
  have effect := syncDirEntry_effect books₂ hsync
  have notOurs :
      ¬ Holds (slot (ideWrite (blockBitmapSync p₁ (blockBit sb b)) b (dotEntries n parent.iNo) 1)
        parent) b := by
    rw [slots]
    rintro ⟨hb, k, rfl⟩
    exact alloc.free (books₀.taken k hb)
  obtain ⟨hparentNo, replaced⟩ := inodeReplace_inv hparent
  have replaced' := (inodeReplace_inv hnew).2
  obtain ⟨W, bitmaps, hbitmaps⟩ := inodeBitmapSync_wrote p₅ hn
  have frame {off : Nat} (hoff : off < 512) : Taken (inodeBitmapSync p₅ n) b ∧
      sector (inodeBitmapSync p₅ n) b off = dotEntries n parent.iNo off := by
    obtain ⟨t₃, e₃⟩ := effect.keeps taken₂ notOurs hoff
    obtain ⟨t₄, e₄⟩ := replaced.keeps t₃ hoff
    obtain ⟨t₅, e₅⟩ := replaced'.keeps t₄ hoff
    refine ⟨t₅, ?_⟩
    have e₆ : sector (inodeBitmapSync p₅ n) b off = sector p₅ b off := by
      apply bitmaps.sector _ hoff
      intro hmem
      have := (hbitmaps b hmem).lt
      have := t₅.1
      omega
    rw [e₆, e₅, e₄, e₃]
    exact ideWrite_disk _ hoff
  have sectors (k : Nat) :
      ({ (inodeInit n).setSector 0 b with iSize := 2 * dirEntrySize } : Inode).iSectors k =
      if k = 0 then b else 0 := Function.update_apply _ _ _ _
  refine ⟨?_, ?_, by rwa [effect.iNo] at hparentNo⟩
  · refine ⟨hn, rfl, ?_, ?_, ?_⟩
    · exact (frame (show 0 < 512 by decide)).1
    · intro k hk
      rw [sectors, if_neg hk]
    · intro off hoff
      exact (frame hoff).2
  · have hdisk : diskInode p₅ n =
        ({ (inodeInit n).setSector 0 b with iSize := 2 * dirEntrySize } : Inode).pure :=
      replaced'.diskInode_self ⟨hn, show 2 * dirEntrySize < 2 ^ 32 by decide, fun k _ => by
        rw [sectors]
        split
        · exact taken₂.lt_u32
        · decide⟩
    rw [← hdisk]
    refine bitmaps.diskInode (fun lba hl => ?_) hn
    exact (hbitmaps lba hl).not_table

/-- `sys_mkdir` comes to its end when there are an inode and three blocks: one for the directory
and, at most, two for the entry in the parent. -/
theorem sysMkdir_total {dirname : Name} (root : Taken p sb.dataStartLba)
    (hinode : ∃ i < 4096, p.inodeBitmap.test i = false) (hfree : 3 ≤ freeCount p)
    (hname : dirname.length ≤ 16) (hparent : parent.iNo < 4096) (books : InOrder p parent)
    (hsize : parent.iSize % dirEntrySize = 0) :
    ∃ p' parent' new, sysMkdir p parent dirname = .ok (some (p', parent', new)) := by
  obtain ⟨n, hn, hino⟩ := inodeBitmapAlloc_total hinode
  have books₀ : InOrder (p.setInode n true) parent := books
  have hcount : freeCount (p.setInode n true) = freeCount p := freeCount_congr rfl
  obtain ⟨b, p₁, halloc, alloc⟩ := blockBitmapAlloc_total (p := p.setInode n true) (by omega)
  have hleft := alloc.freeCount
  have hbit : blockBit sb b ≠ 0 := by
    have hstart := alloc.start
    rw [blockBit_eq alloc.self]
    intro h0
    apply alloc.free
    rw [show b = sb.dataStartLba by omega]
    exact root
  obtain ⟨-, books₂⟩ := books₀.besides alloc (dotEntries n parent.iNo)
  have hcount₂ :
      freeCount (ideWrite (blockBitmapSync p₁ (blockBit sb b)) b (dotEntries n parent.iNo) 1) =
      freeCount (blockBitmapSync p₁ (blockBit sb b)) := freeCount_congr rfl
  obtain ⟨p₃, parent', hsync⟩ :=
    syncDirEntry_total (p := ideWrite (blockBitmapSync p₁ (blockBit sb b)) b
      (dotEntries n parent.iNo) 1)
    hsize (by omega) (entryBuf dirname n ftDirectory) zeros
  have hno := (syncDirEntry_effect books₂ hsync).iNo
  obtain ⟨p₄, hparent', -⟩ :=
    inodeReplace_ok "inode_sync" p₃ (n := parent'.iNo) (by rwa [hno]) (inodeBytes parent') zeros
  let new : Inode := { (inodeInit n).setSector 0 b with iSize := 2 * dirEntrySize }
  obtain ⟨p₅, hnew, -⟩ := inodeReplace_ok "inode_sync" p₄ (n := new.iNo) hn (inodeBytes new) zeros
  refine ⟨inodeBitmapSync p₅ n, parent', new, ?_⟩
  unfold sysMkdir
  rw [hino, ok_bind]
  dsimp only
  rw [halloc, ok_bind]
  dsimp only
  rw [assertThat_of hbit, ok_bind, createDirEntry_eq _ _ hname, ok_bind, hsync, ok_bind]
  dsimp only
  unfold inodeSync
  rw [hparent', ok_bind, hnew, ok_bind]
  rfl

/-! ## The new directory is in order -/

variable {d d' : Directory sb}

/-- The directory as `dir_open` finds it, with what a lookup finds in it. -/
def openedDir (p : Part sb) (n : Nat) : Directory sb :=
  let inode := { diskInode p n with iOpenCnts := 1 }
  ⟨p, inode, found p inode⟩

/-- A directory with the two entries of `sys_mkdir`. -/
structure TwoDots (p : Part sb) (inode : Inode) (parentNo : Nat) : Prop where
  slots : ∀ k, slot p inode k ≠ 0 ↔ k = 0
  block : Taken p (slot p inode 0)
  iSize : inode.iSize = 2 * dirEntrySize
  entries_eq : ∀ c, entries p inode c = if c = (0, 0) then
    dirEntryAt (entryBuf dotName inode.iNo ftDirectory) 0
    else if c = (0, 1) then dirEntryAt (entryBuf dotDotName parentNo ftDirectory) 0 else emptyEntry

theorem Made.twoDots (made : Made p new m) (h : diskInode p new.iNo = new.pure) :
    TwoDots (openedDir p new.iNo).part (openedDir p new.iNo).inode m := by
  have sectors (k : Nat) : (openedDir p new.iNo).inode.iSectors k = if k = 0 then
      new.iSectors 0 else 0 := by
    show (diskInode p new.iNo).iSectors k = _
    rw [h]
    show (if k < 13 then new.iSectors k else 0) = _
    by_cases hk : k = 0
    · rw [hk]
      rfl
    · rw [if_neg hk]
      split
      · exact made.others k hk
      · rfl
  have hslot (k : Nat) : slot p (openedDir p new.iNo).inode k = if k = 0 then
      new.iSectors 0 else 0 := by
    rw [slot_noTable (sectors 12)]
    split
    next => exact sectors k
    next hk => exact (if_neg (by omega)).symm
  have hblock : slot p (openedDir p new.iNo).inode 0 = new.iSectors 0 := hslot 0
  have hne := made.block.ne_zero
  have hino : (openedDir p new.iNo).inode.iNo = new.iNo := by
    show (diskInode p new.iNo).iNo = _
    rw [h]
    rfl
  refine ⟨fun k => ?_, ?_, ?_, fun c => ?_⟩
  · show slot p (openedDir p new.iNo).inode k ≠ 0 ↔ k = 0
    rw [hslot]
    split <;> simp [*]
  · show Taken p (slot p (openedDir p new.iNo).inode 0)
    rw [hblock]
    exact made.block
  · show (diskInode p new.iNo).iSize = _
    rw [h]
    exact made.iSize
  · obtain ⟨k, i⟩ := c
    rw [hino]
    show entries p (openedDir p new.iNo).inode (k, i) = _
    by_cases hplace : k = 0 ∧ i < dirEntrysPerSec
    · obtain ⟨rfl, hi⟩ := hplace
      rw [entries_used (by decide) hi (by rwa [hblock]), hblock]
      unfold dirEntrysPerSec at hi
      have hat {j : Nat} (hj : j < 24) : sector p (new.iSectors 0) (dirEntrySize * i + j) =
          dotEntries new.iNo m (dirEntrySize * i + j) := by
        apply made.dots
        unfold dirEntrySize
        omega
      by_cases h0 : i = 0
      · rw [h0] at hat ⊢
        rw [if_pos rfl]
        refine dirEntryAt_congr fun j hj => ?_
        rw [hat hj, dotEntries_apply, if_pos (by unfold dirEntrySize; omega)]
        rfl
      by_cases h1 : i = 1
      · rw [h1] at hat ⊢
        rw [if_neg (by decide), if_pos rfl]
        refine dirEntryAt_congr fun j hj => ?_
        rw [hat hj, dotEntries_apply, if_neg (by unfold dirEntrySize; omega),
          if_pos (by unfold dirEntrySize; omega)]
        congr 1
        unfold dirEntrySize
        omega
      · rw [if_neg fun e => h0 (Prod.mk.inj e).2, if_neg fun e => h1 (Prod.mk.inj e).2]
        refine dirEntryAt_congr fun j hj => ?_
        rw [hat hj, dotEntries_apply, if_neg (by unfold dirEntrySize; omega),
          if_neg (by unfold dirEntrySize; omega)]
        rfl
    · have hfree : entries p (openedDir p new.iNo).inode (k, i) = emptyEntry := by
        refine if_neg fun hc => hplace ⟨?_, hc.2.1⟩
        by_contra hk
        exact hc.2.2 (by rw [hslot, if_neg hk])
      rw [hfree, if_neg, if_neg]
      · intro e
        exact hplace ⟨(Prod.mk.inj e).1, by rw [(Prod.mk.inj e).2]; decide⟩
      · intro e
        exact hplace ⟨(Prod.mk.inj e).1, by rw [(Prod.mk.inj e).2]; decide⟩

section TwoDots

variable {inode : Inode}

theorem TwoDots.cells_eq (two : TwoDots p inode m) (hn : inode.iNo < 2 ^ 32)
    (hm : m < 2 ^ 32) (c : Cell) :
    cells p inode c = if c = (0, 0) then some (dotName, inode.iNo, ftDirectory)
      else if c = (0, 1) then some (dotDotName, m, ftDirectory) else none := by
  unfold cells
  rw [two.entries_eq]
  split
  · exact entryBuf_binding (by decide) hn (by decide) (by decide)
  split
  · exact entryBuf_binding (by decide) hm (by decide) (by decide)
  · rfl

theorem TwoDots.live_eq (two : TwoDots p inode m) (hn : inode.iNo < 2 ^ 32)
    (hm : m < 2 ^ 32) (c : Cell) : (entries p inode c).fType ≠ 0 ↔ c = (0, 0) ∨ c = (0, 1) := by
  have hcells := two.cells_eq hn hm c
  rw [ne_eq, ← binding_none]
  show ¬ cells p inode c = none ↔ _
  rw [hcells]
  by_cases h0 : c = (0, 0)
  · simp [h0]
  by_cases h1 : c = (0, 1)
  · simp [h1]
  · simp [h0, h1]

theorem TwoDots.accounts (two : TwoDots p inode m) (hn : inode.iNo < 2 ^ 32) (hm : m < 2 ^ 32) :
    Accounts p inode := by
  have hlive : live p inode = {(0, 0), (0, 1)} := by
    ext c
    rw [mem_live, two.live_eq hn hm, Finset.mem_insert, Finset.mem_singleton]
  refine ⟨?_, ⟨_, two.cells_eq hn hm (0, 0)⟩, ⟨_, two.cells_eq hn hm (0, 1)⟩, fun k _ hk => ?_, ?_⟩
  · rw [two.iSize, hlive]
    rfl
  · obtain rfl := (two.slots k).mp hk
    exact ⟨0, (two.live_eq hn hm (0, 0)).mpr (.inl rfl)⟩
  · rw [← slot_table (p := p)]
    by_contra hne
    exact absurd ((two.slots 140).mp hne) (by decide)

end TwoDots

/-- The directory that was just made is in order and its accounts are right. -/
theorem Made.accounted (made : Made p new m) (h : diskInode p new.iNo = new.pure)
    (hm : m < 2 ^ 32) : Accounted (openedDir p new.iNo) := by
  have two := made.twoDots h
  have hn : (openedDir p new.iNo).inode.iNo < 2 ^ 32 := by
    show (diskInode p new.iNo).iNo < _
    rw [h]
    exact Nat.lt_trans made.iNo (by decide)
  have hcells := two.cells_eq hn hm
  have names (c : Cell) (name : Name) (v : Nat × Nat)
      (hc : cells (openedDir p new.iNo).part (openedDir p new.iNo).inode c = some (name, v)) :
      name = dotName ∧ c = (0, 0) ∨ name = dotDotName ∧ c = (0, 1) := by
    rw [hcells] at hc
    split_ifs at hc with h0 h1
    · exact .inl ⟨(Prod.mk.inj (Option.some.inj hc)).1.symm, h0⟩
    · exact .inr ⟨(Prod.mk.inj (Option.some.inj hc)).1.symm, h1⟩
  have zeroed : Zeroed (openedDir p new.iNo).part (openedDir p new.iNo).inode := by
    intro c h0
    have hfree := mt (two.live_eq hn hm c).mpr (not_not.mpr h0)
    rw [not_or] at hfree
    rw [two.entries_eq, if_neg hfree.1, if_neg hfree.2, emptyEntry_name]
  have represents : Represents (cells (openedDir p new.iNo).part (openedDir p new.iNo).inode)
      (openedDir p new.iNo).map := by
    apply found_represents zeroed
    · intro c name v hc
      rcases names c name v hc with ⟨rfl, -⟩ | ⟨rfl, -⟩
      · decide
      · decide
    · intro c c' name v w hc hc'
      rcases names c name v hc with ⟨rfl, rfl⟩ | ⟨rfl, rfl⟩
      · rcases names c' _ w hc' with ⟨-, rfl⟩ | ⟨heq, -⟩
        · rfl
        · exact absurd heq (by decide)
      · rcases names c' _ w hc' with ⟨heq, -⟩ | ⟨-, rfl⟩
        · exact absurd heq (by decide)
        · rfl
  have bound (name : Name) (v : Nat × Nat) (h : (openedDir p new.iNo).map name = some v) :
      name = dotName ∨ name = dotDotName := by
    obtain ⟨c, hc⟩ := represents.complete name v h
    exact (names c name v hc).imp And.left And.left
  refine ⟨⟨?_, represents, zeroed, fun name v hv => ?_, fun name _ v _ hv _ hp _ _ => ?_, ?_,
    fun k hk _ hs => ?_, fun hs => ?_⟩,
    two.accounts hn hm⟩
  · constructor
    · intro i j hi hij
      have hj := hij ▸ hi
      rw [(two.slots i).mp hi, (two.slots j).mp hj]
    · intro i hi
      rw [(two.slots i).mp hi]
      exact two.block
  · rcases bound name v hv with rfl | rfl
    · decide
    · decide
  · rcases bound name v hv with rfl | rfl
    · exact absurd rfl hp.1
    · exact absurd rfl hp.2
  · exact ⟨0, 0, 1, _, _, hcells (0, 0), hcells (0, 1)⟩
  · have := (two.slots k).mp hs
    omega
  · have := (two.slots 140).mp hs
    omega

/-- With a free entry in its first block a directory takes one more. -/
theorem syncDirEntry_first {inode : Inode} {i : Nat} (hsize : inode.iSize % dirEntrySize = 0)
    (hne : inode.iSectors 0 ≠ 0) (hi : i < dirEntrysPerSec)
    (free : (entryOf p (inode.iSectors 0) i).fType = 0) (pDe ioBuf : Buf) :
    ∃ p' inode', syncDirEntry p inode pDe ioBuf = .ok (true, p', inode') := by
  have hfound : ∃ j, findFree (ideRead p (inode.iSectors 0) ioBuf 1) = some j := by
    cases h : findFree (ideRead p (inode.iSectors 0) ioBuf 1) with
    | none => exact absurd free (findFree_none ioBuf h hi)
    | some j => exact ⟨j, rfl⟩
  obtain ⟨j, hj⟩ := hfound
  have hblock : directBlocks inode 0 = inode.iSectors 0 := rfl
  refine ⟨ideWrite p (inode.iSectors 0)
    (memcpy (ideRead p (inode.iSectors 0) ioBuf 1) (dirEntrySize * j) pDe dirEntrySize) 1,
    inode.grow, ?_⟩
  unfold syncDirEntry
  rw [assertThat_of hsize, ok_bind, List.range_eq_range', List.range'_succ]
  unfold syncBlocks
  rw [hblock, if_neg hne]
  dsimp only
  rw [hj]
  rfl

/-- A new directory takes an entry, under a name and a number that it does not have. -/
theorem Made.insert (made : Made p new m) (h : diskInode p new.iNo = new.pure) (hm : m < 2 ^ 32)
    {name : Name} (hname : ValidName name) (proper : Proper name) (hself : n ≠ new.iNo)
    (hparent : n ≠ m) (hn : 0 < n) (hn' : n < 2 ^ 32) :
    (openedDir p new.iNo).Fresh name n ftRegular ∧
      ∃ d', (openedDir p new.iNo).call (.syncDirEntry name n ftRegular zeros) = .ok (d', true) := by
  have two := made.twoDots h
  have hino : (openedDir p new.iNo).inode.iNo = new.iNo := by
    show (diskInode p new.iNo).iNo = _
    rw [h]
    rfl
  have hno : (openedDir p new.iNo).inode.iNo < 2 ^ 32 := by
    rw [hino]
    exact Nat.lt_trans made.iNo (by decide)
  have holds (other : Name) (v : Nat × Nat) (hv : (openedDir p new.iNo).map other = some v) :
      ¬ Proper other ∧ (v.1 = new.iNo ∨ v.1 = m) := by
    obtain ⟨c, hc⟩ := (made.accounted h hm).good.represents.complete other v hv
    rw [two.cells_eq hno hm] at hc
    split_ifs at hc with h0 h1
    · obtain ⟨rfl, rfl⟩ := Prod.mk.inj (Option.some.inj hc)
      exact ⟨fun hp => hp.1 rfl, .inl hino⟩
    · obtain ⟨rfl, rfl⟩ := Prod.mk.inj (Option.some.inj hc)
      exact ⟨fun hp => hp.2 rfl, .inr rfl⟩
  constructor
  · refine ⟨hname, ?_, fun other v hv hvn => ?_, Nat.ne_of_gt hn, hn', .inl rfl⟩
    · cases hv : (openedDir p new.iNo).map name with
      | none => rfl
      | some v => exact absurd proper (holds name v hv).1
    · rcases (holds other v hv).2 with hv' | hv'
      · exact hself (hvn.symm.trans hv')
      · exact hparent (hvn.symm.trans hv')
  · have hslot := (two.slots 0).mpr rfl
    have hfree : (entries (openedDir p new.iNo).part (openedDir p new.iNo).inode (0, 2)).fType =
        0 := by
      rw [two.entries_eq, if_neg (by decide), if_neg (by decide), emptyEntry_fType]
    rw [entries_used (by decide) (by decide) hslot, slot_direct (by decide)] at hfree
    rw [slot_direct (by decide)] at hslot
    obtain ⟨p', inode', hsync⟩ :=
      syncDirEntry_first (by rw [two.iSize]; decide) hslot (by decide) hfree
        (entryBuf name n ftRegular) zeros
    have hlen := hname.2.1
    refine ⟨⟨p', inode', Function.update (openedDir p new.iNo).map name (some (n, ftRegular))⟩, ?_⟩
    unfold Directory.call
    dsimp only
    rw [createDirEntry_eq _ _ (by omega), ok_bind, hsync]
    rfl

/-! ## Runs -/

/-- A deletion gives back the block that it empties. -/
theorem Accounted.frees (acc : Accounted d) (h : d.call (.deleteDirEntry n) = .ok (d', true))
    {k : Nat} (hk : k < 12) (had : slot d.part d.inode k ≠ 0)
    (gone : ∀ i, (entries d'.part d'.inode (k, i)).fType = 0) :
    slot d'.part d'.inode k = 0 ∧ ¬ Taken d'.part (slot d.part d.inode k) := by
  have after := acc.step (e := .deleteDirEntry n) trivial h trivial
  have hslot : slot d'.part d'.inode k = 0 := by
    by_contra hne
    obtain ⟨i, hi⟩ := after.accounts.blocks k hk hne
    exact hi (gone i)
  refine ⟨hslot, ?_⟩
  obtain ⟨⟨done, p', inode'⟩, hdelete, h⟩ := bind_eq_ok.mp h
  cases h
  exact (deleteDirEntry_frees acc.good.books hdelete).2 k hk had hslot

/-- DIRECTORY ACCOUNTING. From `sys_mkdir` on, insertions that fit the direct blocks and deletions
keep the accounts of the directory; what `dir_is_empty` reads off them is right, and `dir_remove`
can rely on it. -/
theorem directory_accounts {dirname : Name} {tr : List (Entry (Directory sb) DirCall Bool)}
    (books : InOrder p parent) (made : sysMkdir p parent dirname = .ok (some (p', parent', new)))
    (path : (dirMachine sb).Path (openedDir p' new.iNo) tr d) (fits : Machine.Meets FitsDirect tr) :
    Accounts d.part d.inode ∧
    (dirIsEmpty d.inode = true ↔ ∀ c, (entries d.part d.inode c).fType ≠ 0 →
      c = (0, 0) ∨ c = (0, 1)) ∧
    (dirIsEmpty d.inode = true → ∀ k, 1 ≤ k → k ≤ 12 → d.inode.iSectors k = 0) ∧
    ∀ n d', d.call (.deleteDirEntry n) = .ok (d', true) → ∀ k < 12, slot d.part d.inode k ≠ 0 →
      (∀ i, (entries d'.part d'.inode (k, i)).fType = 0) →
      slot d'.part d'.inode k = 0 ∧ ¬ Taken d'.part (slot d.part d.inode k) := by
  obtain ⟨hmade, hdisk, hparent⟩ := sysMkdir_made books made
  have acc : Accounted d := by
    have base := hmade.accounted hdisk (Nat.lt_trans hparent (by decide))
    apply path.invariant_of_meets base fits
    intro s e s' o acc en st meets
    exact acc.step en st meets
  refine ⟨acc.accounts, acc.accounts.isEmpty_iff, fun h k hk hk' => acc.accounts.one_block h hk hk',
    fun n d' h k hk had gone => ?_⟩
  exact acc.frees h hk had gone

/-! ### A directory of the small disk -/

/-- The root directory of the small disk. -/
def formattedRoot : Inode where
  iNo := 0
  iSize := 48
  iOpenCnts := 1
  writenDeny := false
  iSectors k := if k = 0 then smallDisk.dataStartLba else 0

theorem formattedRoot_slot {k : Nat} (h : slot formattedPart formattedRoot k ≠ 0) :
    k = 0 ∧ slot formattedPart formattedRoot k = smallDisk.dataStartLba := by
  have h12 : formattedRoot.iSectors 12 = 0 := rfl
  rw [slot_noTable h12] at h ⊢
  split at h
  next h1 =>
    rw [if_pos h1]
    by_cases h0 : k = 0
    · exact ⟨h0, if_pos h0⟩
    · exact absurd (if_neg h0) h
  next => exact absurd rfl h

theorem formattedRoot_books : InOrder formattedPart formattedRoot := by
  constructor
  · intro i j hi hij
    have hj := hij ▸ hi
    rw [(formattedRoot_slot hi).1, (formattedRoot_slot hj).1]
  · intro i hi
    rw [(formattedRoot_slot hi).2]
    exact formatted_root

/-- The theorem at the directory `/a` of the small disk, with an entry `b` inserted. -/
theorem directory_accounts_formatted :
    ∃ p' parent' new, sysMkdir formattedPart formattedRoot [97] = .ok (some (p', parent', new)) ∧
    ∃ n d', (openedDir p' new.iNo).call (.syncDirEntry [98] n ftRegular zeros) = .ok (d', true) ∧
      Accounts d'.part d'.inode := by
  have hfree : 3 ≤ freeCount formattedPart := Nat.le_trans (by decide) formatted_freeCount
  obtain ⟨p', parent', new, made⟩ : ∃ p' parent' new, sysMkdir formattedPart formattedRoot [97] =
    .ok (some (p', parent', new)) :=
    sysMkdir_total formatted_root ⟨2, by decide, by decide +kernel⟩ hfree (by decide) (by decide)
      formattedRoot_books (by decide)
  refine ⟨p', parent', new, made, ?_⟩
  obtain ⟨hmade, hdisk, -⟩ := sysMkdir_made formattedRoot_books made
  obtain ⟨n, hself, hn, hlt⟩ : ∃ n, n ≠ new.iNo ∧ 0 < n ∧ n < 2 ^ 32 := by
    by_cases h : 7 = new.iNo
    · exact ⟨8, by omega, by decide, by decide⟩
    · exact ⟨7, h, by decide, by decide⟩
  have hname : ValidName [98] := by decide
  have proper : Proper [98] := by decide
  obtain ⟨fresh, d', hcall⟩ :=
    hmade.insert hdisk (by decide) hname proper hself (Nat.ne_of_gt hn) hn hlt
  refine ⟨n, d', hcall, ?_⟩
  have path : (dirMachine smallDisk).Path (openedDir p' new.iNo)
      ([] ++ [⟨_, .syncDirEntry [98] n ftRegular zeros, true⟩]) d' :=
    .step .start fresh hcall
  refine (directory_accounts formattedRoot_books made path ?_).1
  intro entry hentry
  obtain rfl := List.mem_singleton.mp hentry
  have two := hmade.twoDots hdisk
  refine ⟨0, by decide, .inr ⟨2, by decide, ?_⟩⟩
  have hfree := two.entries_eq (0, 2)
  rw [entries_used (by decide) (by decide) ((two.slots 0).mpr rfl),
    slot_direct (by decide)] at hfree
  rw [hfree]
  rfl

end SeekingOs.Fs
