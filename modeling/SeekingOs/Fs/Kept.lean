import SeekingOs.Fs.Orderly

/-!
# What stays of the other inodes

An operation on one directory and perhaps one file writes the bitmaps, the inode table, and blocks
that no other inode holds. So every other inode is what it was on the disk, and so is all that its
blocks say: a directory its entries, a file its bytes.

An inode in memory and its copy on the disk are alike: they differ in the number of users and in
`writen_deny`.
-/

namespace SeekingOs.Fs

open Lib

variable {sb : SuperBlock} {p p' p'' : Part sb} {inode inode' : Inode} {b n : Nat}
  {own S : Nat → Prop}

/-! ## The same blocks -/

/-- Two inodes with the same number, size and blocks. -/
structure Alike (inode' inode : Inode) : Prop where
  iNo : inode'.iNo = inode.iNo
  iSize : inode'.iSize = inode.iSize
  iSectors : ∀ k < 13, inode'.iSectors k = inode.iSectors k

theorem Alike.refl (inode : Inode) : Alike inode inode := ⟨rfl, rfl, fun _ _ => rfl⟩

theorem Alike.symm (h : Alike inode' inode) : Alike inode inode' :=
  ⟨h.iNo.symm, h.iSize.symm, fun k hk => (h.iSectors k hk).symm⟩

theorem Alike.trans {inode'' : Inode} (h : Alike inode'' inode') (h' : Alike inode' inode) :
    Alike inode'' inode :=
  ⟨h.iNo.trans h'.iNo, h.iSize.trans h'.iSize,
    fun k hk => (h.iSectors k hk).trans (h'.iSectors k hk)⟩

theorem Inode.alike_pure (inode : Inode) : Alike inode.pure inode :=
  ⟨rfl, rfl, fun _ hk => if_pos hk⟩

theorem Alike.slot (h : Alike inode' inode) : slot p inode' = slot p inode :=
  funext (slot_congr h.iSectors)

/-- The entries are where the slots are. -/
theorem entries_congr (h : slot p inode' = slot p inode) : entries p inode' = entries p inode := by
  ext c : 1
  unfold entries
  rw [h]

theorem Alike.entries (h : Alike inode' inode) : entries p inode' = entries p inode :=
  entries_congr h.slot

theorem Alike.contents (h : Alike inode' inode) : contents p inode' = contents p inode := by
  unfold Fs.contents byteAt
  rw [h.iSize, h.slot]

/-- A directory depends on its slots and its entries. -/
theorem Directory.Good.congr {d d' : Directory sb} (good : d.Good) (map : d'.map = d.map)
    (books : InOrder d'.part d'.inode) (slots : slot d'.part d'.inode = slot d.part d.inode)
    (entry : entries d'.part d'.inode = entries d.part d.inode) : d'.Good := by
  have hcells : cells d'.part d'.inode = cells d.part d.inode := by
    ext c : 1
    unfold cells
    rw [entry]
  obtain ⟨_, represents, zeroed, names, inodes, dots, blocks, table⟩ := good
  refine ⟨books, by rwa [hcells, map], fun c => ?_, by rwa [map], by rwa [map],
    by rwa [hcells], ?_, ?_⟩
  · rw [entry]
    exact zeroed c
  · rwa [slots, entry]
  · rwa [slots]

theorem Accounts.congr (acc : Accounts p inode) (slots : slot p' inode' = slot p inode)
    (entry : entries p' inode' = entries p inode) (iSize : inode'.iSize = inode.iSize) :
    Accounts p' inode' := by
  obtain ⟨size, dot, dotDot, blocks, noTable⟩ := acc
  have hcells (c : Cell) : cells p' inode' c = cells p inode c := by
    unfold cells
    rw [entry]
  refine ⟨?_, by rwa [hcells], by rwa [hcells], by rwa [slots, entry], ?_⟩
  · rw [iSize, size]
    unfold live
    rw [entry]
  · rw [← slot_table (p := p'), slots, slot_table, noTable]

theorem Accounted.congr {d d' : Directory sb} (acc : Accounted d) (map : d'.map = d.map)
    (books : InOrder d'.part d'.inode) (slots : slot d'.part d'.inode = slot d.part d.inode)
    (entry : entries d'.part d'.inode = entries d.part d.inode)
    (iSize : d'.inode.iSize = d.inode.iSize) : Accounted d' :=
  ⟨acc.good.congr map books slots entry, acc.accounts.congr slots entry iSize⟩

theorem Alike.accounted {map : Name → Option (Nat × Nat)} (h : Alike inode' inode)
    (acc : Accounted ⟨p, inode, map⟩) : Accounted ⟨p, inode', map⟩ := by
  have books : InOrder p inode' := by
    rw [InOrder, h.slot]
    exact acc.good.books
  exact acc.congr rfl books h.slot h.entries h.iSize

/-- A file depends on its slots. -/
theorem IsFile.congr (h : IsFile p inode) (books : InOrder p' inode')
    (slots : slot p' inode' = slot p inode) (iNo : inode'.iNo = inode.iNo)
    (iSize : inode'.iSize = inode.iSize) (root : Taken p' sb.dataStartLba) : IsFile p' inode' := by
  rcases h with fresh | shaped
  · refine .inl ⟨by rw [iNo]; exact fresh.iNo, by rw [iSize]; exact fresh.iSize,
      fun k hk => ?_, root⟩
    by_cases hk12 : k < 12
    · rw [← slot_direct (p := p') hk12, slots, slot_direct hk12]
      exact fresh.iSectors k hk
    · obtain rfl : k = 12 := by omega
      rw [← slot_table (p := p'), slots, slot_table]
      exact fresh.iSectors 12 hk
  · exact .inr (shaped.congr books slots iNo iSize)

theorem Snug.congr (h : Snug p inode) (slots : slot p' inode' = slot p inode)
    (iSize : inode'.iSize = inode.iSize) : Snug p' inode' := by
  unfold Snug
  rw [slots, iSize]
  exact h

theorem IsFile.alike (h : IsFile p inode) (root : Taken p sb.dataStartLba)
    (like : Alike inode' inode) : IsFile p inode' := by
  have books : InOrder p inode' := by
    rw [InOrder, like.slot]
    exact h.books
  exact h.congr books like.slot like.iNo like.iSize root

/-! ## The same content -/

/-- The blocks of an inode stay taken, with what is in them. -/
structure Kept (p : Part sb) (inode : Inode) (p' : Part sb) : Prop where
  taken : ∀ k, slot p inode k ≠ 0 → Taken p' (slot p inode k)
  content : ∀ k, slot p inode k ≠ 0 →
    ∀ off < 512, sector p' (slot p inode k) off = sector p (slot p inode k) off

theorem Kept.slot (h : Kept p inode p') : slot p' inode = slot p inode := by
  ext k
  by_cases hk : k < 12
  · rw [slot_direct hk, slot_direct hk]
  by_cases hk' : k < 140
  · rw [slot_indirect (by omega) hk', slot_indirect (by omega) hk']
    by_cases ht : inode.iSectors 12 = 0
    · rw [if_pos ht, if_pos ht]
    · rw [if_neg ht, if_neg ht]
      refine rd32_congr fun j hj => ?_
      have content := h.content 140 (by rwa [slot_table]) (4 * (k - 12) + j) (by omega)
      rwa [slot_table] at content
  · by_cases hk140 : k = 140
    · subst hk140
      rw [slot_table, slot_table]
    · rw [slot_beyond (by omega), slot_beyond (by omega)]

theorem Kept.trans (h : Kept p inode p') (h' : Kept p' inode p'') : Kept p inode p'' where
  taken k hne := by
    have taken := h'.taken k
    rw [h.slot] at taken
    exact taken hne
  content k hne off hoff := by
    have content := h'.content k
    rw [h.slot] at content
    exact (content hne off hoff).trans (h.content k hne off hoff)

theorem Kept.entries (h : Kept p inode p') : entries p' inode = entries p inode := by
  ext c : 1
  unfold Fs.entries
  rw [h.slot]
  by_cases hc : c.1 < 140 ∧ c.2 < dirEntrysPerSec ∧ Fs.slot p inode c.1 ≠ 0
  · rw [if_pos hc, if_pos hc]
    refine dirEntryAt_congr fun k hk => h.content c.1 hc.2.2 _ ?_
    have := hc.2.1
    unfold dirEntrySize dirEntrysPerSec at *
    omega
  · rw [if_neg hc, if_neg hc]

theorem Kept.books (h : Kept p inode p') (books : InOrder p inode) : InOrder p' inode := by
  rw [InOrder, h.slot]
  exact ⟨books.inj, h.taken⟩

theorem Kept.accounted {map : Name → Option (Nat × Nat)} (h : Kept p inode p')
    (acc : Accounted ⟨p, inode, map⟩) :
    Accounted ⟨p', inode, map⟩ := acc.congr rfl (h.books acc.good.books) h.slot h.entries rfl

theorem Kept.isFile (h : Kept p inode p') (file : IsFile p inode)
    (root : Taken p' sb.dataStartLba) : IsFile p' inode :=
  file.congr (h.books file.books) h.slot rfl rfl root

/-- The bytes of a file are in blocks that it has. -/
theorem IsFile.block (file : IsFile p inode) {i : Nat} (hi : i < inode.iSize) :
    Fs.slot p inode (i / sectorSize) ≠ 0 := by
  rcases file with fresh | shaped
  · rw [fresh.iSize] at hi
    omega
  · exact shaped.used _ (div_lt_usedBlocks hi.le)

theorem Kept.contents (h : Kept p inode p') (file : IsFile p inode) :
    contents p' inode = contents p inode := by
  refine List.map_congr_left fun i hi => ?_
  have hne := file.block (List.mem_range.mp hi)
  have content := h.content _ hne (i % sectorSize) (Nat.mod_lt _ sectorSize_pos)
  unfold byteAt laid
  rw [h.slot]
  exact content

/-! ## What moves -/

/-- From `p` to `p'` only sectors of the bitmaps, of the inode table and `own` ones are written,
sector 0 apart; of the inodes on the disk only those in `S` change; and other blocks stay taken. -/
structure Moves (own S : Nat → Prop) (p p' : Part sb) : Prop where
  written : ∃ W, Wrote p W p' ∧ ∀ lba ∈ W, BitmapSector sb lba ∨ TableSector sb lba ∨
    lba = 0 ∨ own lba
  inodes : ∀ m < 4096, ¬ S m → diskInode p' m = diskInode p m
  taken : ∀ b, Taken p b → ¬ own b → Taken p' b

theorem Moves.trans (h : Moves own S p p') (h' : Moves own S p' p'') : Moves own S p p'' where
  written := by
    obtain ⟨W, hw, hW⟩ := h.written
    obtain ⟨W', hw', hW'⟩ := h'.written
    exact ⟨_, hw.trans hw', fun lba hl => (List.mem_append.mp hl).elim (hW lba) (hW' lba)⟩
  inodes m hm hS := (h'.inodes m hm hS).trans (h.inodes m hm hS)
  taken b hb hno := h'.taken b (h.taken b hb hno) hno

/-- Only the bitmaps are written. -/
theorem Allocated.moves (h : Allocated p b p') : Moves own S p p' where
  written := h.wrote.imp fun _ hW => ⟨hW.1, fun lba hl => .inl (hW.2 lba hl)⟩
  inodes m hm _ := by
    obtain ⟨W, hw, hW⟩ := h.wrote
    exact hw.diskInode (fun lba hl => (hW lba hl).not_table) hm
  taken c hc _ := (h.taken c).mpr (.inr hc)

theorem moves_ideWrite {lba : Nat} (hlba : own lba) (start : sb.dataStartLba ≤ lba) (buf : Buf) :
    Moves own S p (ideWrite p lba buf 1) where
  written := by
    refine ⟨_, wrote_ideWrite p lba buf 1, fun l hl => ?_⟩
    rw [mem_one hl]
    exact .inr (.inr (.inr hlba))
  inodes m hm _ := by
    refine (wrote_ideWrite p lba buf 1).diskInode (fun l hl => ?_) hm
    rw [mem_one hl]
    exact not_table_of_le start
  taken _ hc _ := hc

theorem Replaced.moves {bytes : Buf} (h : Replaced p n bytes p') (hn : S n) : Moves own S p p' where
  written := h.wrote.imp fun _ hW => ⟨hW.1, fun lba hl => .inr (.inl (hW.2 lba hl))⟩
  inodes _ _ hS := h.diskInode_other fun e => hS (e ▸ hn)
  taken b hb _ := (taken_congr h.blockBitmap b).mpr hb

theorem moves_setInode {v : Bool} : Moves own S p (p.setInode n v) where
  written := ⟨[], .none rfl rfl, fun _ hl => absurd hl List.not_mem_nil⟩
  inodes _ _ _ := rfl
  taken _ hb _ := hb

theorem moves_inodeSync (hn : n < 4096) : Moves own S p (inodeBitmapSync p n) where
  written := (inodeBitmapSync_wrote p hn).imp fun _ hW => ⟨hW.1, fun lba hl => .inl (hW.2 lba hl)⟩
  inodes m hm _ := by
    obtain ⟨W, hw, hW⟩ := inodeBitmapSync_wrote p hn
    exact hw.diskInode (fun lba hl => (hW lba hl).not_table) hm
  taken _ hb _ := hb

theorem Touches.moves {own' : Nat → Prop} (h : Touches p n own' p') (hn : S n)
    (hown : ∀ b, own' b → own b) (taken : ∀ b, Taken p b → ¬ own b → Taken p' b) :
    Moves own S p p' where
  written :=
    h.written.imp fun _ hW =>
      ⟨hW.1, fun lba hl => (hW.2 lba hl).imp_right (·.imp_right (·.imp_right (hown lba)))⟩
  inodes m hm hS := h.inodes m hm fun e => hS (e ▸ hn)
  taken := taken

/-- An operation on an inode whose blocks are `own`, as the free ones are. -/
theorem Effect.moves (h : Effect p inode p' inode') (hn : S inode.iNo)
    (hown : ∀ b, Holds (slot p inode) b ∨ ¬ Taken p b → own b) : Moves own S p p' :=
  h.touches.moves hn (fun b hb => hown b hb.2) fun b hb hno => h.regrants.others b hb fun hold =>
    hno (hown b (.inl hold))

theorem Realsed.moves (h : Realsed p inode p') (hn : S inode.iNo)
    (hown : ∀ b, Holds (slot p inode) b ∨ ¬ Taken p b → own b) : Moves own S p p' :=
  h.touches.moves hn (fun b hb => hown b hb.2) fun b hb hno =>
    (h.taken b).mpr ⟨hb, fun hold => hno (hown b (.inl hold))⟩

/-- THE FRAME. An inode that holds none of the `own` blocks keeps what it has. -/
theorem Moves.kept (h : Moves own S p p') (books : InOrder p inode)
    (foreign : ∀ b, Holds (slot p inode) b → ¬ own b) :
    Kept p inode p' where
  taken k hne := h.taken _ (books.taken k hne) (foreign _ ⟨hne, k, rfl⟩)
  content k hne off hoff := by
    obtain ⟨W, hw, hW⟩ := h.written
    refine hw.sector (fun hmem => ?_) hoff
    have start := (books.taken k hne).1
    rcases hW _ hmem with hb | ht | h0 | hown
    · exact absurd hb.lt (by omega)
    · exact not_table_of_le start ht
    · exact hne h0
    · exact foreign _ ⟨hne, k, rfl⟩ hown

end SeekingOs.Fs
