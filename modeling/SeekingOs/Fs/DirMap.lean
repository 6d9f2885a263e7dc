import SeekingOs.Fs.Cells
import SeekingOs.Fs.CrossLinks
import SeekingOs.Lib.Machine

/-!
# A directory as a map

Names are inserted into a directory and deleted from it. Beside the disk the state keeps the
map that this should make of the directory, and the question is whether `search_dir_entry` agrees
with the map.

It does as long as `sync_dir_entry` finds room in the direct blocks, or makes the first
indirect table. With the direct blocks full and a table there it makes another table, and what
the first one led to is lost.
-/

namespace SeekingOs.Fs

open Lib

variable {sb : SuperBlock}

/-- A directory, and the map that it should be. -/
structure Directory (sb : SuperBlock) where
  part : Part sb
  inode : Inode
  /-- Ghost: what was inserted and not deleted since, with inode number and type. -/
  map : Name → Option (Nat × Nat)

/-- The calls. -/
inductive DirCall where
  | syncDirEntry (name : Name) (inodeNo fileType : Nat) (ioBuf : Buf)
  | deleteDirEntry (inodeNo : Nat)

/-- A name other than `.` and `..`. -/
def Proper (name : Name) : Prop := name ≠ dotName ∧ name ≠ dotDotName

instance (name : Name) : Decidable (Proper name) :=
  inferInstanceAs (Decidable (name ≠ dotName ∧ name ≠ dotDotName))

namespace Directory

variable (d : Directory sb)

/-- The map without the entries of an inode; `.` and `..` stay. -/
def without (n : Nat) (name : Name) : Option (Nat × Nat) :=
  if Proper name then (d.map name).filter fun v => v.1 ≠ n else d.map name

/-- The name and the inode number are fresh, and the name fits. -/
def Fresh (name : Name) (inodeNo fileType : Nat) : Prop :=
  ValidName name ∧ d.map name = none ∧ (∀ other v, d.map other = some v → v.1 ≠ inodeNo) ∧
    inodeNo ≠ 0 ∧
    inodeNo < 2 ^ 32 ∧ (fileType = ftRegular ∨ fileType = ftDirectory)

/-- What a call does to the directory and to the map. -/
def call : DirCall → Except Fault (Directory sb × Bool)
  | .syncDirEntry name inodeNo fileType ioBuf => do
    let newDirEntry ← createDirEntry name inodeNo fileType zeros
    let (done, p, inode) ← syncDirEntry d.part d.inode newDirEntry ioBuf
    return (⟨p, inode, if done then Function.update d.map name (some (inodeNo, fileType))
      else d.map⟩, done)
  | .deleteDirEntry inodeNo => do
    let (done, p, inode) ← deleteDirEntry d.part d.inode inodeNo
    return (⟨p, inode, if done then d.without inodeNo else d.map⟩, done)

/-- `search_dir_entry` finds what the map holds, and nothing else. -/
def Agrees : Prop :=
  ∀ name, ValidName name → (searchDirEntry true d.part d.inode name).map
    (fun e => (e.iNo, e.fType)) = d.map name

/-- `sync_dir_entry` does not lose anything: a direct block is unused or has a free entry, or there
is no indirect table yet. -/
def Room : Prop :=
  (∃ k < 12, d.inode.iSectors k = 0 ∨
    ∃ i < dirEntrysPerSec, (entryOf d.part (d.inode.iSectors k) i).fType = 0) ∨
    d.inode.iSectors 12 = 0

end Directory

/-- Insertions of fresh names and deletions; the output is what the call returns. -/
def dirMachine (sb : SuperBlock) : Machine (Directory sb) DirCall Bool Fault where
  enabled d e :=
    match e with
    | .syncDirEntry name inodeNo fileType _ => d.Fresh name inodeNo fileType
    | .deleteDirEntry _ => True
  step d e := d.call e

/-- The condition on a step. -/
def KeepsRoom (d : Directory sb) : DirCall → Prop
  | .syncDirEntry _ _ _ _ => d.Room
  | .deleteDirEntry _ => True

/-! ## The invariant -/

/-- A directory in order. -/
structure Directory.Good (d : Directory sb) : Prop where
  books : InOrder d.part d.inode
  represents : Represents (cells d.part d.inode) d.map
  zeroed : Zeroed d.part d.inode
  names : ∀ name v, d.map name = some v → ValidName name
  /-- An inode has one name besides `.` and `..`. -/
  inodes : ∀ name name' v v', d.map name = some v → d.map name' = some v' → Proper name →
    Proper name' → v.1 = v'.1 →
    name = name'
  /-- `.` and `..` are there, in one block. -/
  dots : ∃ k i j v v', cells d.part d.inode (k, i) = some (dotName, v) ∧
    cells d.part d.inode (k, j) = some (dotDotName, v')
  /-- An indirect block is there for an entry, and the table for an indirect block. -/
  blocks : ∀ k, 12 ≤ k → k < 140 → slot d.part d.inode k ≠ 0 →
    ∃ i, (entries d.part d.inode (k, i)).fType ≠ 0
  table : slot d.part d.inode 140 ≠ 0 → ∃ k, 12 ≤ k ∧ k < 140 ∧ slot d.part d.inode k ≠ 0

variable {d d' : Directory sb}

/-- LOOKUP. In a directory in order `search_dir_entry` agrees with the map. -/
theorem Directory.Good.agrees (good : d.Good) : d.Agrees := by
  intro name hname
  cases h : searchDirEntry true d.part d.inode name with
  | none =>
    cases hm : d.map name with
    | none => rfl
    | some v =>
      obtain ⟨c, hc⟩ := good.represents.complete name v hm
      exact absurd hc (searchDirEntry_none hname h c v)
  | some e =>
    obtain ⟨c, hc⟩ := searchDirEntry_some hname good.zeroed h
    exact (good.represents.sound c name _ hc).symm

/-- The bytes of an entry that `create_dir_entry` makes. -/
def entryBuf (name : Name) (n t : Nat) : Buf :=
  memcpy (memcpy (memcpy zeros 0 (strBuf name) name.length) 16 (le32 n) 4) 20 (le32 t) 4

theorem createDirEntry_eq {name : Name} (n t : Nat) (h : name.length ≤ 16) :
    createDirEntry name n t zeros = .ok (entryBuf name n t) := by
  unfold createDirEntry
  rw [assertThat_of h]
  rfl

/-- What such an entry holds. -/
theorem entryBuf_fields {name : Name} {n t : Nat} (hname : ValidName name) (hn : n < 2 ^ 32)
    (ht : t < 2 ^ 32) :
    (dirEntryAt (entryBuf name n t) 0).name = name ∧ (dirEntryAt (entryBuf name n t) 0).iNo = n ∧
      (dirEntryAt (entryBuf name n t) 0).fType = t := by
  have hlen := hname.2.1
  refine ⟨cStr_of_bytes hname.2.2 (by omega) fun k hk => ?_, ?_, ?_⟩
  · show (if 0 + k < 16 then _ else _) = _
    unfold entryBuf memcpy
    rw [if_pos (by omega), if_neg (by omega), if_neg (by omega)]
    by_cases hkl : k < name.length
    · rw [if_pos (by omega)]
      congr 1
      omega
    · rw [if_neg (by omega)]
      unfold strBuf
      rw [List.getD_eq_getElem?_getD, List.getElem?_eq_none (by omega)]
      rfl
  · refine rd32_le32 hn fun k hk => ?_
    unfold entryBuf memcpy
    rw [if_neg (by omega), if_pos (by omega), show 0 + 16 + k - 16 = k by omega]
  · refine rd32_le32 ht fun k hk => ?_
    unfold entryBuf memcpy
    rw [if_pos (by omega), show 0 + 20 + k - 20 = k by omega]

/-- The binding that it is. -/
theorem entryBuf_binding {name : Name} {n t : Nat} (hname : ValidName name) (hn : n < 2 ^ 32)
    (ht : t < 2 ^ 32) (ht0 : t ≠ 0) :
    (dirEntryAt (entryBuf name n t) 0).binding = some (name, n, t) := by
  obtain ⟨held, number, type⟩ := entryBuf_fields hname hn ht
  exact binding_some.mpr ⟨by rwa [type], held, number, type⟩

/-! ## Insertion -/

theorem cells_update {p p' : Part sb} {inode inode' : Inode} {c : Cell} {e : DirEntry}
    (h : entries p' inode' = Function.update (entries p inode) c e) :
    cells p' inode' = Function.update (cells p inode) c e.binding := by
  ext1 c'
  unfold cells
  rw [h]
  by_cases hc : c' = c
  · rw [hc, Function.update_self, Function.update_self]
  · rw [Function.update_of_ne hc, Function.update_of_ne hc]

/-- A new entry in a free cell, with slots that it accounts for. -/
theorem Directory.Good.insert (good : d.Good) {name : Name} {n t : Nat} (fresh : d.Fresh name n t)
    {c : Cell} {e : DirEntry} (hd : d'.map = Function.update d.map name (some (n, t)))
    (books : InOrder d'.part d'.inode) (he : e.binding = some (name, n, t))
    (free : (entries d.part d.inode c).fType = 0)
    (hentries : entries d'.part d'.inode = Function.update (entries d.part d.inode) c e)
    (hblocks : ∀ k, 12 ≤ k → k < 140 → slot d'.part d'.inode k ≠ 0 → slot d.part d.inode k ≠ 0 ∨
      k = c.1) (htable : slot d'.part d'.inode 140 ≠ 0 → ∃ k, 12 ≤ k ∧ k < 140 ∧
      slot d'.part d'.inode k ≠ 0) : d'.Good := by
  obtain ⟨hname, hfresh, hino, -⟩ := fresh
  have hcells := cells_update hentries
  rw [he] at hcells
  have hne : e.fType ≠ 0 := (binding_some.mp he).1
  refine ⟨books, ?_, fun c' h0 => ?_, fun m v hm => ?_, fun m m' v v' hm hm' hp hp' hv => ?_, ?_,
    fun k hk hk' hs => ?_, htable⟩
  · rw [hcells, hd]
    exact good.represents.put _ (binding_none.mpr free) hfresh
  · rw [hentries] at h0 ⊢
    by_cases hc : c' = c
    · rw [hc, Function.update_self] at h0
      exact absurd h0 hne
    · rw [Function.update_of_ne hc] at h0 ⊢
      exact good.zeroed c' h0
  · rw [hd] at hm
    by_cases hmn : m = name
    · rwa [hmn]
    · rw [Function.update_of_ne hmn] at hm
      exact good.names m v hm
  · rw [hd] at hm hm'
    by_cases e₁ : m = name <;> by_cases e₂ : m' = name
    · rw [e₁, e₂]
    · rw [e₁, Function.update_self] at hm
      rw [Function.update_of_ne e₂] at hm'
      cases hm
      exact absurd hv.symm (hino m' v' hm')
    · rw [e₂, Function.update_self] at hm'
      rw [Function.update_of_ne e₁] at hm
      cases hm'
      exact absurd hv (hino m v hm)
    · rw [Function.update_of_ne e₁] at hm
      rw [Function.update_of_ne e₂] at hm'
      exact good.inodes m m' v v' hm hm' hp hp' hv
  · obtain ⟨k, i, j, v, v', h₁, h₂⟩ := good.dots
    have keep {l : Nat} {b : Name × Nat × Nat} (h : cells d.part d.inode (k, l) = some b) :
        cells d'.part d'.inode (k, l) = some b := by
      rw [hcells, Function.update_of_ne, h]
      rintro rfl
      have := binding_none.mpr free
      unfold cells at h
      rw [this] at h
      cases h
    exact ⟨k, i, j, v, v', keep h₁, keep h₂⟩
  · rw [hentries]
    rcases hblocks k hk hk' hs with hold | rfl
    · obtain ⟨i, hi⟩ := good.blocks k hk hk' hold
      refine ⟨i, ?_⟩
      by_cases hc : (k, i) = c
      · rwa [hc, Function.update_self]
      · rwa [Function.update_of_ne hc]
    · exact ⟨c.2, by rwa [Function.update_self]⟩

/-- What an insertion comes to. -/
theorem Directory.call_sync {name : Name} {n t : Nat} {ioBuf : Buf} {b : Bool} (good : d.Good)
    (fresh : d.Fresh name n t) (h : d.call (.syncDirEntry name n t ioBuf) = .ok (d', b)) :
    d'.map = Function.update d.map name (some (n, t)) ∧ InOrder d'.part d'.inode ∧
      ∃ e, e.binding = some (name, n, t) ∧ Inserted d.part d.inode e d'.part d'.inode := by
  obtain ⟨pDe, hcreate, h⟩ := bind_eq_ok.mp h
  obtain ⟨⟨done, p', inode'⟩, hsync, h⟩ := bind_eq_ok.mp h
  cases h
  obtain rfl := syncDirEntry_true hsync
  obtain ⟨hname, _, _, _, hn, ht⟩ := fresh
  have ht32 : t < 2 ^ 32 ∧ t ≠ 0 := by
    rcases ht with rfl | rfl <;> decide
  have hlen := hname.2.1
  rw [createDirEntry_eq n t (by omega)] at hcreate
  cases hcreate
  exact ⟨rfl, (syncDirEntry_effect good.books hsync).books, _,
    entryBuf_binding hname hn ht32.1 ht32.2,
    syncDirEntry_inserted good.books hsync⟩

/-- AN INSERTION WITH ROOM. -/
theorem Directory.Good.sync (good : d.Good) {name : Name} {n t : Nat} {ioBuf : Buf} {b : Bool}
    (fresh : d.Fresh name n t) (h : d.call (.syncDirEntry name n t ioBuf) = .ok (d', b))
    (room : d.Room) : d'.Good := by
  obtain ⟨hmap, books, e, he, inserted⟩ := Directory.call_sync good fresh h
  cases inserted with
  | direct k i hk hi free entries_eq slots =>
    refine good.insert fresh hmap books he free entries_eq (fun j hj _ hs => .inl ?_) fun hs => ?_
    · rwa [slots j hj] at hs
    · rw [slots 140 (by decide)] at hs
      obtain ⟨j, hj, hj', hs⟩ := good.table hs
      exact ⟨j, hj, hj', by rwa [slots j hj]⟩
  | table full entries_eq slots =>
    -- the direct blocks are full, so there was no table
    have h0 : d.inode.iSectors 12 = 0 := by
      refine room.resolve_left ?_
      rintro ⟨k, hk, hfree⟩
      obtain ⟨hne, hfull⟩ := full k hk
      rw [← slot_direct (p := d.part) hk] at hfree
      rcases hfree with hfree | ⟨i, hi, hfree⟩
      · exact hne hfree
      · have := hfull i hi
        rw [entries_used (by omega) hi hne] at this
        exact this hfree
    have hnone {j i : Nat} (hj : ¬ j < 12) : entries d.part d.inode (j, i) = emptyEntry := by
      by_cases hj' : j < 140
      · exact entries_unused (by rw [slot_indirect (by omega) hj', if_pos h0])
      · exact if_neg fun hc => hj' hc.1
    refine good.insert (c := (12, 0)) fresh hmap books he ?_ ?_
      (fun j hj hj' hs => .inr ((slots j hj hj').mp hs)) fun _ => ?_
    · rw [hnone (by decide), emptyEntry_fType]
    · ext1 c
      obtain ⟨j, i⟩ := c
      rw [entries_eq]
      dsimp only
      by_cases hj : j < 12
      · rw [if_pos hj, Function.update_of_ne]
        intro heq
        rw [(Prod.mk.inj heq).1] at hj
        omega
      · rw [if_neg hj]
        by_cases hc : (j, i) = (12, 0)
        · rw [if_pos hc, hc, Function.update_self]
        · rw [if_neg hc, Function.update_of_ne hc, hnone hj]
    · exact ⟨12, by decide, by decide, (slots 12 (by decide) (by decide)).mpr rfl⟩

/-- AN INSERTION WITHOUT ROOM. An entry of the older table is not found any more. -/
theorem Directory.Good.sync_loses (good : d.Good) {name : Name} {n t : Nat} {ioBuf : Buf} {b : Bool}
    (fresh : d.Fresh name n t) (h : d.call (.syncDirEntry name n t ioBuf) = .ok (d', b))
    (full : ¬ d.Room) : ¬ d'.Agrees := by
  obtain ⟨hmap, books, e, he, inserted⟩ := Directory.call_sync good fresh h
  have htable : slot d.part d.inode 140 ≠ 0 := by
    rw [slot_table]
    exact fun h0 => full (.inr h0)
  cases inserted with
  | direct k i hk hi free entries_eq slots =>
    refine absurd (.inl ⟨k, hk, ?_⟩) full
    rw [← slot_direct (p := d.part) hk]
    by_cases h0 : slot d.part d.inode k = 0
    · exact .inl h0
    · rw [entries_used (by omega) hi h0] at free
      exact .inr ⟨i, hi, free⟩
  | table filled entries_eq slots =>
    intro agrees
    obtain ⟨k, hk, hk', hne⟩ := good.table htable
    obtain ⟨i, hi⟩ := good.blocks k hk hk' hne
    -- the entry that is lost
    obtain ⟨lost, v, hcell⟩ : ∃ lost v, cells d.part d.inode (k, i) = some (lost, v) :=
      ⟨_, _, binding_some.mpr ⟨hi, rfl, rfl, rfl⟩⟩
    have hm := good.represents.sound _ _ _ hcell
    have hne : lost ≠ name := by
      rintro rfl
      rw [fresh.2.1] at hm
      cases hm
    have hfound := agrees lost (good.names lost v hm)
    rw [hmap, Function.update_of_ne hne, hm] at hfound
    obtain ⟨f, hf, _⟩ := Option.map_eq_some_iff.mp hfound
    obtain ⟨⟨j, l⟩, hc, hsame⟩ :=
      searchBlocks_some (good.names lost v hm) (fun k hk => List.mem_range.mp hk) hf
    have hempty : f ≠ emptyEntry := by
      rintro rfl
      have := (good.names lost v hm).1
      rw [← hsame, emptyEntry_name] at this
      exact absurd this (by decide)
    rw [entries_eq] at hc
    dsimp only at hc
    split at hc
    next hj =>
      -- the direct blocks are as before, and the entry was not there
      have hused : (entries d.part d.inode (j, l)).fType ≠ 0 := by
        by_cases hl : l < dirEntrysPerSec
        · exact (filled j hj).2 l hl
        · exact absurd (hc.symm.trans (if_neg fun h => hl h.2.1)) hempty
      have := good.represents.once (j, l) (k, i) lost (f.iNo, f.fType) v
        (binding_some.mpr ⟨hused, by rw [hc, hsame], by rw [hc], by rw [hc]⟩) hcell
      have := (Prod.mk.inj this).1
      omega
    next =>
      split at hc
      · rw [← hc, (binding_some.mp he).2.1] at hsame
        exact hne hsame.symm
      · exact hempty hc.symm

/-! ## Deletion -/

/-- A cell of a directory in order that the map has under a proper name. -/
theorem Directory.Good.cell (good : d.Good) {c : Cell}
    (counted : (entries d.part d.inode c).Counted) :
    ValidName (entries d.part d.inode c).name ∧ Proper (entries d.part d.inode c).name ∧
      cells d.part d.inode c = some
        ((entries d.part d.inode c).name, (entries d.part d.inode c).iNo,
          (entries d.part d.inode c).fType) ∧
      d.map (entries d.part d.inode c).name =
        some ((entries d.part d.inode c).iNo, (entries d.part d.inode c).fType) := by
  have hcell : cells d.part d.inode c =
      some ((entries d.part d.inode c).name, (entries d.part d.inode c).iNo,
        (entries d.part d.inode c).fType) :=
    binding_some.mpr ⟨counted.1, rfl, rfl, rfl⟩
  have hm := good.represents.sound _ _ _ hcell
  exact ⟨good.names _ _ hm, counted.2, hcell, hm⟩

/-- Without the entries of an inode: one name goes. -/
theorem Directory.Good.without_eq (good : d.Good) {name : Name} {n t : Nat} (proper : Proper name)
    (hm : d.map name = some (n, t)) : d.without n = Function.update d.map name none := by
  ext1 other
  unfold Directory.without
  by_cases ho : other = name
  · rw [ho, if_pos proper, hm, Function.update_self]
    simp
  · rw [Function.update_of_ne ho]
    split
    next hp =>
      cases ho' : d.map other with
      | none => rfl
      | some v =>
        have : v.1 ≠ n := fun hv => ho (good.inodes other name v (n, t) ho' hm hp proper hv)
        simp [this]
    next => rfl

/-- A cell with a proper name is emptied. -/
theorem Directory.Good.remove (good : d.Good) {c : Cell}
    (counted : (entries d.part d.inode c).Counted)
    (hd : d'.map = d.without (entries d.part d.inode c).iNo) (books : InOrder d'.part d'.inode)
    (hentries : ∀ c', entries d'.part d'.inode c' = entries d.part d.inode c' ∨
      entries d'.part d'.inode c' = emptyEntry ∧ (c' = c ∨ (entries d.part d.inode c').fType = 0))
    (gone : entries d'.part d'.inode c = emptyEntry)
    (hblocks : ∀ k, 12 ≤ k → k < 140 → slot d'.part d'.inode k ≠ 0 →
      ∃ i, (entries d'.part d'.inode (k, i)).fType ≠ 0) (htable : slot d'.part d'.inode 140 ≠ 0 →
      ∃ k, 12 ≤ k ∧ k < 140 ∧ slot d'.part d'.inode k ≠ 0) : d'.Good := by
  obtain ⟨_, proper, hcell, hm⟩ := good.cell counted
  rw [good.without_eq proper hm] at hd
  have hcells : cells d'.part d'.inode = Function.update (cells d.part d.inode) c none := by
    ext1 c'
    by_cases hc : c' = c
    · rw [hc, Function.update_self]
      exact binding_none.mpr (by rw [gone, emptyEntry_fType])
    · rw [Function.update_of_ne hc]
      unfold cells
      rcases hentries c' with h | ⟨h, h' | h'⟩
      · rw [h]
      · exact absurd h' hc
      · rw [h, emptyEntry_binding, binding_none.mpr h']
  have sub {m : Name} {v : Nat × Nat} (h : d'.map m = some v) : d.map m = some v := by
    rw [hd] at h
    by_cases hmn : m = (entries d.part d.inode c).name
    · rw [hmn, Function.update_self] at h
      cases h
    · rwa [Function.update_of_ne hmn] at h
  refine ⟨books, ?_, fun c' h0 => ?_, fun m v h => good.names m v (sub h),
    fun m m' v v' h h' => good.inodes m m' v v' (sub h) (sub h'), ?_, hblocks, htable⟩
  · rw [hcells, hd]
    exact good.represents.clear hcell
  · rcases hentries c' with h | ⟨h, _⟩
    · rw [h] at h0 ⊢
      exact good.zeroed c' h0
    · rw [h, emptyEntry_name]
  · obtain ⟨k, i, j, v, v', h₁, h₂⟩ := good.dots
    have keep {c' : Cell} {b : Name × Nat × Nat} (h : cells d.part d.inode c' = some b)
        (hb : ¬ Proper b.1) :
        cells d'.part d'.inode c' = some b := by
      rw [hcells, Function.update_of_ne, h]
      rintro rfl
      rw [hcell, Option.some_inj] at h
      exact hb (h ▸ proper)
    exact ⟨k, i, j, v, v', keep h₁ (show ¬ Proper dotName by decide),
      keep h₂ (show ¬ Proper dotDotName by decide)⟩

/-- A DELETION. -/
theorem Directory.Good.delete (good : d.Good) {n : Nat} {b : Bool}
    (h : d.call (.deleteDirEntry n) = .ok (d', b)) : d'.Good := by
  obtain ⟨⟨done, p', inode'⟩, hdelete, h⟩ := bind_eq_ok.mp h
  cases h
  cases b with
  | false =>
    obtain ⟨rfl, rfl⟩ := deleteBlocks_false hdelete
    exact good
  | true =>
    have books := (deleteDirEntry_effect good.books hdelete).books
    have hdeleted := deleteDirEntry_deleted good.books hdelete
    cases hdeleted with
    | cleared k i j hk counted hno other entries_eq slots =>
      subst hno
      refine good.remove counted rfl books (fun c => ?_) ?_ (fun l hl hl' hs => ?_) fun hs => ?_
      · by_cases hc : c = (k, i)
        · exact .inr ⟨by rw [entries_eq, hc, Function.update_self], .inl hc⟩
        · exact .inl (by rw [entries_eq, Function.update_of_ne hc])
      · rw [entries_eq, Function.update_self]
      · -- the block of the entry keeps another one
        dsimp only at hs ⊢
        rw [slots] at hs
        rw [entries_eq]
        by_cases hlk : l = k
        · subst hlk
          refine ⟨j, ?_⟩
          rw [Function.update_of_ne fun e => other.1 (Prod.mk.inj e).2]
          exact other.2
        · obtain ⟨m, hm⟩ := good.blocks l hl hl' hs
          refine ⟨m, ?_⟩
          rwa [Function.update_of_ne fun e => hlk (Prod.mk.inj e).1]
      · dsimp only at hs ⊢
        rw [slots] at hs ⊢
        exact good.table hs
    | dropped k i hk counted hno alone drop =>
      subst hno
      refine good.remove counted rfl books (fun c => ?_) ?_ (fun l hl hl' hs => ?_) fun hs => ?_
      · have hdrop := drop.entries_eq c
        split at hdrop
        next hck =>
          refine .inr ⟨hdrop, ?_⟩
          by_contra hno
          obtain ⟨hci, hne⟩ := not_or.mp hno
          obtain ⟨l, m⟩ := c
          dsimp only at hck
          subst hck
          rcases alone m hne with rfl | hdd
          · exact hci rfl
          · -- `..` has `.` beside it, and `.` would not be alone
            obtain ⟨q, a, b, v, v', hdot, hdotdot⟩ := good.dots
            have hsame :=
              good.represents.once (l, m) (q, b) dotDotName _ v'
                (binding_some.mpr ⟨hne, hdd, rfl, rfl⟩) hdotdot
            obtain ⟨rfl, rfl⟩ := Prod.mk.inj hsame
            obtain ⟨hne', hname, _, _⟩ := binding_some.mp hdot
            rcases alone a hne' with rfl | hdd'
            · exact counted.2.1 hname
            · rw [hname] at hdd'
              exact absurd hdd' (by decide)
        next => exact .inl hdrop
      · exact (drop.entries_eq (k, i)).trans (if_pos rfl)
      · have hslot := drop.slots l hl'
        dsimp only at hs ⊢
        split at hslot
        · exact absurd hslot hs
        next hlk =>
          rw [hslot] at hs
          obtain ⟨m, hm⟩ := good.blocks l hl hl' hs
          refine ⟨m, ?_⟩
          rwa [drop.entries_eq, if_neg hlk]
      · dsimp only at hs ⊢
        have other : ∃ j, 12 ≤ j ∧ j < 140 ∧ j ≠ k ∧ slot d.part d.inode j ≠ 0 := by
          by_cases h12 : k < 12
          · rw [drop.tableDirect h12] at hs
            obtain ⟨j, hj, hj', hjs⟩ := good.table hs
            exact ⟨j, hj, hj', by omega, hjs⟩
          · exact drop.table (by omega) hs
        obtain ⟨j, hj, hj', hjk, hjs⟩ := other
        exact ⟨j, hj, hj', by rwa [drop.slots j hj', if_neg hjk]⟩

/-! ## Runs -/

/-- A DIRECTORY IS A MAP. On every run from a directory in order, `search_dir_entry` agrees with the
map all the time exactly if every insertion finds room in the direct blocks or makes the first
table. -/
theorem directory_map_iff (d₀ d : Directory sb) (tr : List (Entry (Directory sb) DirCall Bool))
    (path : (dirMachine sb).Path d₀ tr d) (good : d₀.Good) :
    Machine.Always Directory.Agrees tr d ↔ Machine.Meets KeepsRoom tr := by
  refine path.always_iff_of_good good Directory.Good.agrees (fun {s e s' o} hs en h hc => ?_)
    fun {s e s' o} hs en h hc => ?_
  · cases e with
    | syncDirEntry name n t ioBuf => exact hs.sync en h hc
    | deleteDirEntry n => exact hs.delete h
  · cases e with
    | syncDirEntry name n t ioBuf => exact hs.sync_loses en h hc
    | deleteDirEntry n => exact absurd trivial hc

/-! ## The map of a directory on the disk -/

/-- What a lookup finds, as a map. -/
def found (p : Part sb) (inode : Inode) (name : Name) : Option (Nat × Nat) :=
  if ValidName name then (searchDirEntry true p inode name).map fun e => (e.iNo, e.fType) else none

/-- A directory with names that are valid and apart is the map that a lookup makes of it. -/
theorem found_represents {p : Part sb} {inode : Inode} (hz : Zeroed p inode)
    (names : ∀ c m v, cells p inode c = some (m, v) → ValidName m)
    (once : ∀ c c' m v w, cells p inode c = some (m, v) → cells p inode c' = some (m, w) → c = c') :
    Represents (cells p inode) (found p inode) := by
  refine ⟨fun c m v hc => ?_, fun m v h => ?_, once⟩
  · have hm := names c m v hc
    unfold found
    rw [if_pos hm]
    cases hsearch : searchDirEntry true p inode m with
    | none => exact absurd hc (searchDirEntry_none hm hsearch c v)
    | some e =>
      obtain ⟨c', hc'⟩ := searchDirEntry_some hm hz hsearch
      have := once c' c m _ v hc' hc
      rw [← this, hc'] at hc
      rw [Option.map_some, (Prod.mk.inj (Option.some.inj hc)).2]
  · unfold found at h
    split at h
    next hm =>
      obtain ⟨e, he, rfl⟩ := Option.map_eq_some_iff.mp h
      exact searchDirEntry_some hm hz he
    next => cases h

/-! ## A directory with full direct blocks -/

/-- Whether the full directory has an entry at a place: 12 direct blocks, and the first entry of the
first indirect one. -/
def Filled (k i : Nat) : Prop := i < dirEntrysPerSec ∧ (k < 12 ∨ k = 12 ∧ i = 0)

instance (k i : Nat) : Decidable (Filled k i) :=
  inferInstanceAs (Decidable (i < dirEntrysPerSec ∧ (k < 12 ∨ k = 12 ∧ i = 0)))

def filledName (k i : Nat) : Name :=
  if k = 0 ∧ i = 0 then dotName else if k = 0 ∧ i = 1 then dotDotName
  else [BitVec.ofNat 8 (k + 1), BitVec.ofNat 8 (i + 1)]

def filledNo (k i : Nat) : Nat := 100 + 21 * k + i

def filledType (k i : Nat) : Nat := if k = 0 ∧ i < 2 then ftDirectory else ftRegular

/-- The disk: the blocks are 700 to 712, and the table is 713. -/
def filledDisk (a : Nat) : Byte :=
  if a / 512 = 713 then (if a % 512 < 4 then le32 712 (a % 512) else 0)
  else if 700 ≤ a / 512 ∧ Filled (a / 512 - 700) (a % 512 / 24) then
    entryBuf (filledName (a / 512 - 700) (a % 512 / 24)) (filledNo (a / 512 - 700) (a % 512 / 24))
      (filledType (a / 512 - 700) (a % 512 / 24)) (a % 512 % 24)
  else 0

/-- All blocks but eight are taken. -/
def filledPart : Part smallDisk where
  disk := filledDisk
  blockBitmap := ⟨List.replicate 511 255 ++ [0]⟩
  inodeBitmap := fullBitmap 512
  written := []
  blockSize := by
    unfold Bitmap.size
    rw [List.length_append, List.length_replicate]
    rfl
  inodeSize := fullPart.inodeSize

def filledInode : Inode where
  iNo := 100
  iSize := 24 * 253
  iOpenCnts := 1
  writenDeny := false
  iSectors k := if k < 12 then 700 + k else if k = 12 then 713 else 0

def filledDir : Directory smallDisk := ⟨filledPart, filledInode, found filledPart filledInode⟩

theorem filled_tableEntry {k : Nat} (hk : k < 128) :
    tableEntry filledPart 713 k = if k = 0 then 712 else 0 := by
  have hat {j : Nat} (hj : j < 512) : filledPart.disk (sectorSize * 713 + j) = if j < 4 then
      le32 712 j else 0 := by
    show filledDisk _ = _
    unfold filledDisk sectorSize
    rw [if_pos (by omega), show (512 * 713 + j) % 512 = j by omega]
  by_cases h0 : k = 0
  · rw [if_pos h0, h0]
    refine rd32_le32 (by decide) fun j hj => ?_
    show filledPart.disk _ = _
    rw [hat (by omega), if_pos (by omega), show 4 * 0 + j = j by omega]
  · rw [if_neg h0]
    refine rd32_le32 (by decide) fun j hj => ?_
    show filledPart.disk _ = _
    rw [hat (by omega), if_neg (by omega)]
    simp [le32]

/-- The blocks of the directory. -/
theorem filled_slot (k : Nat) :
    slot filledPart filledInode k = if k ≤ 12 then 700 + k else if k = 140 then 713 else 0 := by
  have htable : filledInode.iSectors 12 = 713 := rfl
  by_cases h1 : k < 12
  · rw [slot_direct h1, if_pos (by omega)]
    exact if_pos h1
  by_cases h2 : k < 140
  · rw [slot_indirect (by omega) h2, htable, if_neg (by decide), filled_tableEntry (by omega)]
    by_cases h12 : k = 12
    · rw [if_pos (by omega), if_pos (by omega), h12]
    · rw [if_neg (by omega), if_neg (by omega), if_neg (by omega)]
  by_cases h3 : k = 140
  · rw [h3, slot_table, htable]
    rfl
  · rw [slot_beyond (by omega), if_neg (by omega), if_neg h3]

theorem filled_taken {b : Nat} (h : 700 ≤ b) (h' : b ≤ 713) : Taken filledPart b := by
  refine ⟨show 612 ≤ b by omega, ?_⟩
  have hlt : (b - 612) / 8 < 511 := by omega
  have bit : ∀ j < 8, (255#8).getLsbD j = true := by decide
  show (((List.replicate 511 255 ++ [0] : List Byte)).getD ((b - 612) / 8) 0).getLsbD
    ((b - 612) % 8) = true
  rw [List.getD_eq_getElem?_getD, List.getElem?_append_left (by rwa [List.length_replicate]),
    List.getElem?_replicate, if_pos hlt]
  exact bit _ (Nat.mod_lt _ (by decide))

theorem filled_free {i : Nat} (h : i / 8 = 511) : filledPart.blockBitmap.test i = false := by
  show (((List.replicate 511 255 ++ [0] : List Byte)).getD (i / 8) 0).getLsbD (i % 8) = false
  rw [h, List.getD_eq_getElem?_getD, List.getElem?_append_right (by rw [List.length_replicate]),
    List.length_replicate]
  exact BitVec.getLsbD_zero

theorem filled_books : InOrder filledPart filledInode := by
  refine ⟨fun i j hi heq => ?_, fun i hi => ?_⟩
  · rw [filled_slot] at hi heq
    rw [filled_slot] at heq
    split_ifs at hi heq <;> omega
  · rw [filled_slot] at hi ⊢
    refine filled_taken ?_ ?_ <;> split_ifs at hi ⊢ <;> omega

/-- The entries of the directory. -/
theorem filled_entries (k i : Nat) : entries filledPart filledInode (k, i) =
    if Filled k i then dirEntryAt (entryBuf (filledName k i) (filledNo k i) (filledType k i)) 0
    else emptyEntry := by
  by_cases hk : k ≤ 12
  · by_cases hi : i < dirEntrysPerSec
    · have hslot := filled_slot k
      rw [if_pos hk] at hslot
      rw [entries_used (by omega) hi (by rw [hslot]; omega), hslot]
      have hat {j : Nat} (hj : j < 24) : sector filledPart (700 + k) (dirEntrySize * i + j) =
          if Filled k i then entryBuf (filledName k i) (filledNo k i) (filledType k i) j
            else 0 := by
        show filledDisk _ = _
        unfold dirEntrysPerSec at hi
        unfold filledDisk sectorSize dirEntrySize
        rw [if_neg (by omega), show (512 * (700 + k) + (24 * i + j)) / 512 - 700 = k by omega,
          show (512 * (700 + k) + (24 * i + j)) % 512 = 24 * i + j by omega,
          show (24 * i + j) / 24 = i by omega, show (24 * i + j) % 24 = j by omega]
        by_cases hf : Filled k i
        · rw [if_pos ⟨by omega, hf⟩, if_pos hf]
        · rw [if_neg fun h => hf h.2, if_neg hf]
      by_cases hf : Filled k i
      · rw [if_pos hf]
        refine dirEntryAt_congr fun j hj => ?_
        rw [hat hj, if_pos hf, Nat.zero_add]
      · rw [if_neg hf]
        refine dirEntryAt_congr fun j hj => ?_
        rw [hat hj, if_neg hf]
        rfl
    · rw [if_neg fun hf => hi hf.1]
      exact if_neg fun hc => hi hc.2.1
  · rw [if_neg fun hf => by have := hf.2; omega]
    by_cases h140 : k < 140
    · exact entries_unused (by rw [filled_slot, if_neg hk, if_neg (by omega)])
    · exact if_neg fun hc => h140 hc.1

theorem filledName_valid {k i : Nat} (h : Filled k i) : ValidName (filledName k i) := by
  obtain ⟨hi, hk⟩ := h
  unfold dirEntrysPerSec at hi
  have byte {n : Nat} (hn : n < 21) : BitVec.ofNat 8 (n + 1) ≠ 0 := fun h0 => by
    have := congrArg BitVec.toNat h0
    rw [BitVec.toNat_ofNat] at this
    simp at this
    omega
  unfold filledName
  split
  · decide
  split
  · decide
  · refine ⟨show 1 ≤ 2 by decide, show 2 ≤ 15 by decide, fun c hc => ?_⟩
    rcases List.mem_cons.mp hc with rfl | hc
    · exact byte (by omega)
    · rw [List.mem_singleton.mp hc]
      exact byte hi

/-- The names are apart. -/
theorem filledName_inj {k i k' i' : Nat} (h : Filled k i) (h' : Filled k' i')
    (heq : filledName k i = filledName k' i') : (k, i) = (k', i') := by
  obtain ⟨hi, hk⟩ := h
  obtain ⟨hi', hk'⟩ := h'
  unfold dirEntrysPerSec at hi hi'
  have byte {n m : Nat} (hn : n < 21) (hm : m < 256)
      (h0 : BitVec.ofNat 8 (n + 1) = BitVec.ofNat 8 m) : n + 1 = m := by
    have := congrArg BitVec.toNat h0
    rw [BitVec.toNat_ofNat, BitVec.toNat_ofNat] at this
    omega
  have dot {n m : Nat} (hn : n < 21) :
      dotDotName ≠ [BitVec.ofNat 8 (n + 1), BitVec.ofNat 8 (m + 1)] := fun h0 => by
    have := byte (m := 46) hn (by decide) (List.cons.inj h0).1.symm
    omega
  unfold filledName at heq
  split_ifs at heq with h₁ h₂ h₃ h₄ h₅ h₆
  · rw [h₁.1, h₁.2, h₂.1, h₂.2]
  · exact absurd heq (by decide)
  · exact absurd (congrArg List.length heq) (show ¬ 1 = 2 by decide)
  · exact absurd heq (by decide)
  · rw [h₄.1, h₄.2, h₆.1, h₆.2]
  · exact absurd heq (dot (by omega))
  · exact absurd (congrArg List.length heq) (show ¬ 2 = 1 by decide)
  · exact absurd heq.symm (dot (by omega))
  · obtain ⟨hfst, hsnd⟩ := List.cons.inj heq
    have hsnd := (List.cons.inj hsnd).1
    have h1 := byte (by omega) (by omega) hfst
    have h2 := byte (by omega) (by omega) hsnd
    have hkk : k = k' := by omega
    have hii : i = i' := by omega
    rw [hkk, hii]

theorem filled_binding {k i : Nat} (h : Filled k i) :
    (dirEntryAt (entryBuf (filledName k i) (filledNo k i) (filledType k i)) 0).binding =
      some (filledName k i, filledNo k i, filledType k i) := by
  have hlt : filledNo k i < 2 ^ 32 := by
    have hi := h.1
    have hk := h.2
    unfold dirEntrysPerSec at hi
    unfold filledNo
    omega
  have htype : filledType k i < 2 ^ 32 ∧ filledType k i ≠ 0 := by
    unfold filledType
    split <;> decide
  exact entryBuf_binding (filledName_valid h) hlt htype.1 htype.2

/-- What the cells of the directory hold. -/
theorem filled_cells (k i : Nat) : cells filledPart filledInode (k, i) =
    if Filled k i then some (filledName k i, filledNo k i, filledType k i) else none := by
  unfold cells
  rw [filled_entries]
  split
  next h => exact filled_binding h
  next => exact emptyEntry_binding

theorem filled_cell {c : Cell} {m : Name} {v : Nat × Nat}
    (h : cells filledPart filledInode c = some (m, v)) :
    Filled c.1 c.2 ∧ m = filledName c.1 c.2 ∧ v = (filledNo c.1 c.2, filledType c.1 c.2) := by
  rw [show c = (c.1, c.2) from rfl, filled_cells] at h
  split at h
  next hf =>
    cases h
    exact ⟨hf, rfl, rfl⟩
  next => cases h

theorem filledDir_good : filledDir.Good := by
  have zeroed : Zeroed filledPart filledInode := by
    rintro ⟨k, i⟩ h0
    rw [filled_entries] at h0 ⊢
    split at h0
    next hf => exact absurd h0 (binding_some.mp (filled_binding hf)).1
    next hf => rw [if_neg hf, emptyEntry_name]
  have names (c : Cell) (m : Name) (v : Nat × Nat)
      (h : cells filledPart filledInode c = some (m, v)) : ValidName m := by
    obtain ⟨hf, rfl, _⟩ := filled_cell h
    exact filledName_valid hf
  have represents : Represents (cells filledPart filledInode) (found filledPart filledInode) := by
    refine found_represents zeroed names fun c c' m v w h h' => ?_
    obtain ⟨hf, rfl, _⟩ := filled_cell h
    obtain ⟨hf', heq, _⟩ := filled_cell h'
    exact filledName_inj hf hf' heq
  have holds {k i : Nat} (hf : Filled k i) : (entries filledPart filledInode (k, i)).fType ≠ 0 := by
    rw [filled_entries, if_pos hf]
    exact (binding_some.mp (filled_binding hf)).1
  refine ⟨filled_books, represents, zeroed, fun m v hm => ?_, fun m m' v v' hm hm' _ _ hv => ?_, ?_,
    fun k hk hk' hs => ?_, fun _ => ?_⟩
  · obtain ⟨c, hc⟩ := represents.complete m v hm
    exact names c m v hc
  · obtain ⟨c, hc⟩ := represents.complete m v hm
    obtain ⟨c', hc'⟩ := represents.complete m' v' hm'
    obtain ⟨hf, rfl, rfl⟩ := filled_cell hc
    obtain ⟨hf', rfl, rfl⟩ := filled_cell hc'
    have hi := hf.1
    have hi' := hf'.1
    unfold dirEntrysPerSec at hi hi'
    unfold filledNo at hv
    dsimp only at hv
    rw [show c.1 = c'.1 by omega, show c.2 = c'.2 by omega]
  · have first : Filled 0 0 := by decide
    have second : Filled 0 1 := by decide
    refine ⟨0, 0, 1, (filledNo 0 0, filledType 0 0), (filledNo 0 1, filledType 0 1), ?_, ?_⟩
    · show cells filledPart filledInode (0, 0) = _
      rw [filled_cells, if_pos first]
      rfl
    · show cells filledPart filledInode (0, 1) = _
      rw [filled_cells, if_pos second]
      rfl
  · have hk12 : k = 12 := by
      by_contra hne
      refine hs ?_
      show slot filledPart filledInode k = 0
      rw [filled_slot, if_neg (by omega), if_neg (by omega)]
    rw [hk12]
    exact ⟨0, holds (by decide)⟩
  · refine ⟨12, by decide, by decide, ?_⟩
    show slot filledPart filledInode 12 ≠ 0
    rw [filled_slot]
    decide

/-- A name that the directory does not have. -/
def newName : Name := [200]

theorem filledDir_fresh : filledDir.Fresh newName 4000 ftRegular := by
  have hmap {m : Name} {v : Nat × Nat} (h : filledDir.map m = some v) :
      ∃ k i, Filled k i ∧ m = filledName k i ∧ v.1 = filledNo k i := by
    obtain ⟨c, hc⟩ := filledDir_good.represents.complete m v h
    obtain ⟨hf, hm, rfl⟩ := filled_cell hc
    exact ⟨c.1, c.2, hf, hm, rfl⟩
  refine ⟨by decide, ?_, fun m v h => ?_, by decide, by decide, .inl rfl⟩
  · cases h : filledDir.map newName with
    | none => rfl
    | some v =>
      obtain ⟨k, i, _, hm, _⟩ := hmap h
      unfold filledName at hm
      split_ifs at hm
      · exact absurd hm (by decide)
      · exact absurd hm (by decide)
      · exact absurd (congrArg List.length hm) (show ¬ 1 = 2 by decide)
  · obtain ⟨k, i, hf, _, hv⟩ := hmap h
    have hi := hf.1
    have hk := hf.2
    unfold dirEntrysPerSec at hi
    unfold filledNo at hv
    omega

/-- One more insertion, as a run of the machine. -/
theorem filledDir_run :
    ∃ d', filledDir.call (.syncDirEntry newName 4000 ftRegular zeros) = .ok (d', true) ∧
    (dirMachine smallDisk).Path filledDir
      ([] ++ [⟨filledDir, .syncDirEntry newName 4000 ftRegular zeros, true⟩]) d' := by
  have hfree : 2 ≤ freeCount filledPart := by
    have hsub : {4088, 4089} ⊆ freeBits filledPart := by
      intro i hi
      rw [Finset.mem_insert, Finset.mem_singleton] at hi
      unfold freeBits
      rw [Finset.mem_filter, Finset.mem_range]
      rcases hi with rfl | rfl
      · exact ⟨by decide, filled_free rfl⟩
      · exact ⟨by decide, filled_free rfl⟩
    exact Finset.card_le_card hsub
  obtain ⟨p', inode', hsync⟩ : ∃ p' inode', syncDirEntry filledPart filledInode
    (entryBuf newName 4000 ftRegular) zeros = .ok (true, p', inode') :=
    syncDirEntry_total (by decide) hfree (entryBuf newName 4000 ftRegular) zeros
  have hcall : filledDir.call (.syncDirEntry newName 4000 ftRegular zeros) =
      .ok (⟨p', inode', Function.update filledDir.map newName (some (4000, ftRegular))⟩, true) := by
    unfold Directory.call
    dsimp only
    rw [createDirEntry_eq _ _ (by decide), ok_bind]
    show (syncDirEntry filledPart filledInode _ zeros >>= _) = _
    rw [hsync]
    rfl
  exact ⟨_, hcall, .step .start filledDir_fresh hcall⟩

theorem filledDir_full : ¬ filledDir.Room := by
  rintro (⟨k, hk, h0 | ⟨i, hi, h0⟩⟩ | h0)
  · rw [← slot_direct (p := filledPart) hk] at h0
    have := filled_slot k
    rw [if_pos (by omega)] at this
    have h0 : slot filledPart filledInode k = 0 := h0
    omega
  · have hf : Filled k i := ⟨hi, .inl hk⟩
    have hne : (entries filledPart filledInode (k, i)).fType ≠ 0 := by
      rw [filled_entries, if_pos hf]
      exact (binding_some.mp (filled_binding hf)).1
    have hslot : slot filledPart filledInode k ≠ 0 := by
      rw [filled_slot, if_pos (by omega)]
      omega
    rw [entries_used (by omega) hi hslot, slot_direct hk] at hne
    exact hne h0
  · exact absurd h0 (by decide)

/-- The insertion succeeds, and an entry is not found any more. -/
theorem directory_map_broken :
    ¬ ∀ (sb : SuperBlock) (d₀ d : Directory sb) (tr : List (Entry (Directory sb) DirCall Bool)),
    (dirMachine sb).Path d₀ tr d → d₀.Good → (∀ entry ∈ tr, entry.out = true) → d.Agrees := by
  intro claim
  obtain ⟨d', hcall, path⟩ := filledDir_run
  refine filledDir_good.sync_loses filledDir_fresh hcall filledDir_full ?_
  exact claim smallDisk _ _ _ path filledDir_good (by simp)

/-- The theorem at this run. -/
theorem directory_map_iff_filled : ∃ d' tr, tr.length = 1 ∧
    (Machine.Always Directory.Agrees (tr : List (Entry (Directory smallDisk) DirCall Bool)) d' ↔
      Machine.Meets KeepsRoom tr) := by
  obtain ⟨d', _, path⟩ := filledDir_run
  exact ⟨_, _, rfl, directory_map_iff _ _ _ path filledDir_good⟩

end SeekingOs.Fs
