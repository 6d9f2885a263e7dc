import Mathlib.Data.List.Nodup
import SeekingOs.Fs.DirEffect
import SeekingOs.Lib.CellMap

/-!
# The entries of a directory

A directory has 140 times 21 cells, one for each place of an entry in each of its slots. A cell
holds a name, an inode number and a type, or nothing: when its slot has no block, and when the entry
is free. Insertion and deletion change one cell, and lookup looks at all of them.
-/

namespace SeekingOs.Fs

open Lib

variable {sb : SuperBlock} {p p' p'' : Part sb} {inode inode' : Inode}

/-! ## Names -/

/-- A name, without the end of the string. -/
abbrev Name := List Byte

/-- The string in `n` bytes of memory. -/
def cStr (a : Buf) (off : Nat) : Nat → Name
  | 0 => []
  | n + 1 => if a off = 0 then [] else a off :: cStr a (off + 1) n

/-- A name that fits its field with the end of the string. -/
def ValidName (name : Name) : Prop := 1 ≤ name.length ∧ name.length ≤ 15 ∧ ∀ c ∈ name, c ≠ 0

instance (name : Name) : Decidable (ValidName name) :=
  inferInstanceAs (Decidable (1 ≤ name.length ∧ name.length ≤ 15 ∧ ∀ c ∈ name, c ≠ 0))

/-- `strcmp` compares with the string that is there. -/
theorem strSame_iff {a : Buf} {off n : Nat} {name : Name} (hname : ∀ c ∈ name, c ≠ 0)
    (hn : name.length < n) : strSame a off name = true ↔ cStr a off n = name := by
  induction name generalizing off n with
  | nil =>
    obtain ⟨n, rfl⟩ :=
      Nat.exists_eq_succ_of_ne_zero (show n ≠ 0 by rw [List.length_nil] at hn; omega)
    simp [strSame, cStr]
  | cons c rest ih =>
    rw [List.length_cons] at hn
    obtain ⟨n, rfl⟩ := Nat.exists_eq_succ_of_ne_zero (show n ≠ 0 by omega)
    rw [List.forall_mem_cons] at hname
    unfold strSame cStr
    by_cases hc : a off = c
    · rw [if_pos ⟨hc ▸ hname.1, hc⟩, if_neg (hc ▸ hname.1), hc, List.cons.injEq]
      rw [ih (n := n) hname.2 (by omega)]
      exact ⟨fun h => ⟨rfl, h⟩, fun h => h.2⟩
    · rw [if_neg fun h => hc h.2, beq_iff_eq]
      refine ⟨fun h => absurd h hc, fun h => ?_⟩
      split at h
      · cases h
      · rw [List.cons.injEq] at h
        exact h.1

theorem cStr_congr {a b : Buf} {off off' n : Nat} (h : ∀ k < n, a (off + k) = b (off' + k)) :
    cStr a off n = cStr b off' n := by
  induction n generalizing off off' with
  | zero => rfl
  | succ n ih =>
    have h0 := h 0 (by omega)
    rw [Nat.add_zero, Nat.add_zero] at h0
    unfold cStr
    rw [h0, ih fun k hk => by
      have := h (k + 1) (by omega)
      rwa [← Nat.add_assoc, ← Nat.add_assoc, Nat.add_right_comm off,
        Nat.add_right_comm off'] at this]

/-- What a string written to memory is read as. -/
theorem cStr_of_bytes {a : Buf} {off n : Nat} {name : Name} (hname : ∀ c ∈ name, c ≠ 0)
    (hn : name.length < n) (h : ∀ k ≤ name.length, a (off + k) = strBuf name k) :
    cStr a off n = name := by
  induction name generalizing off n with
  | nil =>
    obtain ⟨n, rfl⟩ :=
      Nat.exists_eq_succ_of_ne_zero (show n ≠ 0 by rw [List.length_nil] at hn; omega)
    have h0 : a off = 0 := h 0 (Nat.le_refl _)
    unfold cStr
    rw [if_pos h0]
  | cons c rest ih =>
    rw [List.length_cons] at hn h
    obtain ⟨n, rfl⟩ := Nat.exists_eq_succ_of_ne_zero (show n ≠ 0 by omega)
    rw [List.forall_mem_cons] at hname
    have h0 : a off = c := h 0 (by omega)
    unfold cStr
    rw [h0, if_neg hname.1, ih (n := n) hname.2 (by omega) fun k hk => ?_]
    have := h (k + 1) (by omega)
    rw [← Nat.add_assoc, Nat.add_right_comm] at this
    exact this

/-! ## Cells -/

/-- Sector `b`, as a buffer. -/
def sector (p : Part sb) (b : Nat) : Buf := fun off => p.disk (sectorSize * b + off)

/-- Entry `i` of sector `b`. -/
def entryOf (p : Part sb) (b i : Nat) : DirEntry := dirEntryAt (sector p b) (dirEntrySize * i)

/-- The name in an entry. -/
def DirEntry.name (e : DirEntry) : Name := cStr e.filename 0 16

/-- The binding that an entry is. -/
def DirEntry.binding (e : DirEntry) : Option (Name × Nat × Nat) :=
  if e.fType = ftUnkown then none else some (e.name, e.iNo, e.fType)

/-- A free entry. -/
def emptyEntry : DirEntry := dirEntryAt zeros 0

/-- The place of an entry: a slot and an index. -/
abbrev Cell := Nat × Nat

/-- The entries of a directory; there are none where a slot has no block. -/
def entries (p : Part sb) (inode : Inode) (c : Cell) : DirEntry :=
  if c.1 < 140 ∧ c.2 < dirEntrysPerSec ∧ slot p inode c.1 ≠ 0 then entryOf p (slot p inode c.1) c.2
  else emptyEntry

/-- What the cells of a directory hold. -/
def cells (p : Part sb) (inode : Inode) (c : Cell) : Option (Name × Nat × Nat) :=
  (entries p inode c).binding

/-- The entries of a slot with a block. -/
theorem entries_used {k i : Nat} (hk : k < 140) (hi : i < dirEntrysPerSec)
    (h : slot p inode k ≠ 0) :
    entries p inode (k, i) = entryOf p (slot p inode k) i := if_pos ⟨hk, hi, h⟩

theorem entries_unused {k i : Nat} (h : slot p inode k = 0) : entries p inode (k, i) = emptyEntry :=
  if_neg fun hc => hc.2.2 h

@[simp] theorem emptyEntry_fType : emptyEntry.fType = 0 := rfl

@[simp] theorem emptyEntry_name : emptyEntry.name = [] := rfl

@[simp] theorem emptyEntry_binding : emptyEntry.binding = none := rfl

/-- An entry in use has a place. -/
theorem entries_place {c : Cell} (h : (entries p inode c).fType ≠ 0) :
    c.1 < 140 ∧ c.2 < dirEntrysPerSec ∧ slot p inode c.1 ≠ 0 := by
  by_contra hc
  unfold entries at h
  rw [if_neg hc] at h
  exact h rfl

theorem binding_some {e : DirEntry} {name : Name} {n t : Nat} :
    e.binding = some (name, n, t) ↔ e.fType ≠ 0 ∧ e.name = name ∧ e.iNo = n ∧ e.fType = t := by
  unfold DirEntry.binding ftUnkown
  split
  next h => simp [h]
  next h => simp [h]

theorem binding_none {e : DirEntry} : e.binding = none ↔ e.fType = 0 := by
  unfold DirEntry.binding ftUnkown
  split
  next h => simp [h]
  next h => simp [h]

/-- The free entries of a directory have empty names, so that a lookup does not take them for one.
-/
def Zeroed (p : Part sb) (inode : Inode) : Prop := ∀ c, (entries p inode c).fType = 0 →
  (entries p inode c).name = []

theorem dirEntryAt_congr {a b : Buf} {off off' : Nat} (h : ∀ k < 24, a (off + k) = b (off' + k)) :
    dirEntryAt a off = dirEntryAt b off' := by
  have hname : (fun k => if k < 16 then a (off + k) else 0) = fun k => if k < 16 then
      b (off' + k) else 0 := by
    ext k
    split
    · rw [h k (by omega)]
    · rfl
  have word (j : Nat) (hj : j + 4 ≤ 24) : rd32 a (off + j) = rd32 b (off' + j) :=
    rd32_congr fun k hk => by
    rw [Nat.add_assoc, Nat.add_assoc]
    exact h (j + k) (by omega)
  unfold dirEntryAt
  rw [hname, word 16 (by decide), word 20 (by decide)]

/-- The entries of a sector that was not written. -/
theorem Wrote.entryOf {W : List Nat} {b i : Nat} (h : Wrote p W p') (hb : b ∉ W)
    (hi : i < dirEntrysPerSec) : entryOf p' b i = entryOf p b i :=
  dirEntryAt_congr fun k hk =>
    h.sector hb (by unfold dirEntrysPerSec at hi; unfold dirEntrySize; omega)

/-- A sector that was read. -/
theorem ideRead_entry {b i : Nat} (buf : Buf) (hi : i < dirEntrysPerSec) :
    dirEntryAt (ideRead p b buf 1) (dirEntrySize * i) = entryOf p b i :=
  dirEntryAt_congr fun k hk =>
    ideRead_apply buf (by unfold dirEntrysPerSec at hi; unfold dirEntrySize; omega)

theorem ideRead_cStr {b i : Nat} (buf : Buf) (hi : i < dirEntrysPerSec) :
    cStr (ideRead p b buf 1) (dirEntrySize * i) 16 = (entryOf p b i).name := by
  rw [← ideRead_entry buf hi]
  refine cStr_congr fun k hk => ?_
  show _ = if 0 + k < 16 then _ else _
  rw [if_pos (by omega), Nat.zero_add]

/-- One entry of a sector is written. -/
theorem entryOf_replace {b b' i j : Nat} (src buf : Buf) (hi : i < dirEntrysPerSec)
    (hj : j < dirEntrysPerSec) :
    entryOf (ideWrite p b (memcpy (ideRead p b buf 1) (dirEntrySize * i) src dirEntrySize) 1) b' j =
      if b' = b ∧ j = i then dirEntryAt src 0 else entryOf p b' j := by
  have hcover : dirEntrySize * i + dirEntrySize ≤ sectorSize * 1 := by
    unfold dirEntrysPerSec at hi
    unfold dirEntrySize sectorSize
    omega
  have hat (k : Nat) (hk : k < 24) :
      sector (ideWrite p b (memcpy (ideRead p b buf 1) (dirEntrySize * i) src dirEntrySize) 1) b'
      (dirEntrySize * j + k) = if b' = b ∧ j = i then src (0 + k)
        else sector p b' (dirEntrySize * j + k) := by
    unfold sector
    rw [ideReplace_disk _ _ hcover]
    unfold dirEntrysPerSec at hi hj
    unfold sectorSize dirEntrySize
    by_cases hsame : b' = b ∧ j = i
    · obtain ⟨rfl, rfl⟩ := hsame
      rw [if_pos (by omega), if_pos ⟨rfl, rfl⟩]
      congr 1
      omega
    · rw [if_neg hsame, if_neg]
      by_cases hb : b' = b
      · have hji : j ≠ i := fun e => hsame ⟨hb, e⟩
        omega
      · omega
  by_cases hsame : b' = b ∧ j = i
  · rw [if_pos hsame]
    refine dirEntryAt_congr fun k hk => ?_
    rw [hat k hk, if_pos hsame]
  · rw [if_neg hsame]
    refine dirEntryAt_congr fun k hk => ?_
    rw [hat k hk, if_neg hsame]

/-- A new block: the entry at its start, and free entries. -/
theorem entryOf_newEntry {b j : Nat} (pDe ioBuf : Buf) (hj : j < dirEntrysPerSec) :
    entryOf (ideWrite p b (memcpy (memcpy ioBuf 0 zeros sectorSize) 0 pDe dirEntrySize) 1) b j =
      if j = 0 then dirEntryAt pDe 0 else dirEntryAt zeros 0 := by
  have hat (k : Nat) (hk : k < 24) :
      sector (ideWrite p b (memcpy (memcpy ioBuf 0 zeros sectorSize) 0 pDe dirEntrySize) 1) b
      (dirEntrySize * j + k) = if j = 0 then pDe (0 + k) else zeros (0 + k) := by
    unfold sector
    unfold dirEntrysPerSec at hj
    rw [ideWrite_disk _ (by unfold dirEntrySize; omega)]
    unfold memcpy dirEntrySize sectorSize
    by_cases h0 : j = 0
    · rw [if_pos (by omega), if_pos h0]
      congr 1
      omega
    · rw [if_neg (by omega), if_pos (by omega), if_neg h0]
      rfl
  split
  next h0 => exact dirEntryAt_congr fun k hk => (hat k hk).trans (if_pos h0)
  next h0 => exact dirEntryAt_congr fun k hk => (hat k hk).trans (if_neg h0)

/-! ## Lookup -/

theorem findName_some {b i : Nat} {name : Name} (hname : ValidName name) (buf : Buf)
    (h : findName (ideRead p b buf 1) name = some i) :
    i < dirEntrysPerSec ∧ (entryOf p b i).name = name := by
  have hi := List.mem_range.mp (List.mem_of_find?_eq_some h)
  have hsame := List.find?_some h
  have hlen := hname.2.1
  rw [strSame_iff (n := 16) hname.2.2 (by omega), ideRead_cStr buf hi] at hsame
  exact ⟨hi, hsame⟩

theorem findName_none {b i : Nat} {name : Name} (hname : ValidName name) (buf : Buf)
    (h : findName (ideRead p b buf 1) name = none) (hi : i < dirEntrysPerSec) :
    (entryOf p b i).name ≠ name := by
  intro heq
  have hlen := hname.2.1
  have hno := List.find?_eq_none.mp h i (List.mem_range.mpr hi)
  rw [strSame_iff (n := 16) hname.2.2 (by omega), ideRead_cStr buf hi] at hno
  exact hno heq

theorem searchBlocks_some {name : Name} (hname : ValidName name) {ks : List Nat}
    (hks : ∀ k ∈ ks, k < 140) {e : DirEntry}
    (h : searchBlocks p (collectBlocks p inode) name ks = some e) :
    ∃ c, entries p inode c = e ∧ e.name = name := by
  induction ks with
  | nil => cases h
  | cons k ks ih =>
    rw [List.forall_mem_cons] at hks
    unfold searchBlocks at h
    split at h
    · exact ih hks.2 h
    next hne =>
      dsimp only at h
      split at h
      next i hfind =>
        cases h
        obtain ⟨hi, hsame⟩ := findName_some hname zeros hfind
        rw [← slot_lt hks.1] at hne hsame ⊢
        refine ⟨(k, i), ?_, ?_⟩
        · rw [entries_used hks.1 hi hne, ideRead_entry zeros hi]
        · rw [ideRead_entry zeros hi, hsame]
      next => exact ih hks.2 h

theorem searchBlocks_none {name : Name} (hname : ValidName name) {ks : List Nat}
    (hks : ∀ k ∈ ks, k < 140) (h : searchBlocks p (collectBlocks p inode) name ks = none)
    {k i : Nat} (hk : k ∈ ks) (hi : i < dirEntrysPerSec) (hne : slot p inode k ≠ 0) :
    (entryOf p (slot p inode k) i).name ≠ name := by
  induction ks with
  | nil => cases hk
  | cons j ks ih =>
    rw [List.forall_mem_cons] at hks
    unfold searchBlocks at h
    rw [← slot_lt hks.1] at h
    split at h
    next h0 =>
      rcases List.mem_cons.mp hk with rfl | hk
      · exact absurd h0 hne
      · exact ih hks.2 h hk
    next =>
      dsimp only at h
      split at h
      · cases h
      next hfind =>
        rcases List.mem_cons.mp hk with rfl | hk
        · exact findName_none hname zeros hfind hi
        · exact ih hks.2 h hk

/-- WHAT `search_dir_entry` FINDS. -/
theorem searchDirEntry_some {name : Name} (hname : ValidName name) (hz : Zeroed p inode)
    {e : DirEntry} (h : searchDirEntry true p inode name = some e) :
    ∃ c, cells p inode c = some (name, e.iNo, e.fType) := by
  obtain ⟨c, rfl, hsame⟩ := searchBlocks_some hname (fun k hk => List.mem_range.mp hk) h
  refine ⟨c, binding_some.mpr ⟨fun h0 => ?_, hsame, rfl, rfl⟩⟩
  have hlen := hname.1
  rw [← hsame, hz c h0, List.length_nil] at hlen
  omega

/-- WHAT `search_dir_entry` DOES NOT FIND. -/
theorem searchDirEntry_none {name : Name} (hname : ValidName name)
    (h : searchDirEntry true p inode name = none) (c : Cell) (v : Nat × Nat) :
    cells p inode c ≠ some (name, v) := by
  intro hc
  obtain ⟨hne, hsame, _, _⟩ := binding_some.mp hc
  obtain ⟨hk, hi, hslot⟩ := entries_place hne
  have :=
    searchBlocks_none hname (fun k hk => List.mem_range.mp hk) h (List.mem_range.mpr hk) hi hslot
  rw [entries_used hk hi hslot] at hsame
  exact this hsame

/-! ## Insertion -/

theorem findFree_some {b i : Nat} (buf : Buf) (h : findFree (ideRead p b buf 1) = some i) :
    i < dirEntrysPerSec ∧ (entryOf p b i).fType = 0 := by
  have hi := List.mem_range.mp (List.mem_of_find?_eq_some h)
  have hfree := List.find?_some h
  rw [ideRead_entry buf hi, beq_iff_eq] at hfree
  exact ⟨hi, hfree⟩

theorem findFree_none {b i : Nat} (buf : Buf) (h : findFree (ideRead p b buf 1) = none)
    (hi : i < dirEntrysPerSec) : (entryOf p b i).fType ≠ 0 := by
  have hno := List.find?_eq_none.mp h i (List.mem_range.mpr hi)
  rw [ideRead_entry buf hi, beq_iff_eq] at hno
  exact hno

/-- Entries are kept where the slots are, in sectors that are not written. -/
theorem entries_kept {W : List Nat} {c : Cell} (hw : Wrote p W p')
    (hslot : slot p' inode' c.1 = slot p inode c.1) (hW : slot p inode c.1 ∉ W) :
    entries p' inode' c = entries p inode c := by
  unfold entries
  rw [hslot]
  split
  next hc => exact hw.entryOf hW hc.2.1
  next => rfl

/-- Sectors of the bitmaps hold no entries. -/
theorem InOrder.entries_synced (books : InOrder p inode) {c : Cell} (h : Synced p p')
    (hslot : slot p' inode' c.1 = slot p inode c.1) : entries p' inode' c = entries p inode c := by
  obtain ⟨W, hw, hm⟩ := h
  by_cases h0 : slot p inode c.1 = 0
  · unfold entries
    rw [hslot, if_neg fun hc => hc.2.2 h0, if_neg fun hc => hc.2.2 h0]
  · refine entries_kept hw hslot fun hmem => ?_
    have h₁ := (hm _ hmem).lt
    have h₂ := (books.taken _ h0).1
    omega

theorem slot_fields (h : inode'.iSectors = inode.iSectors) : slot p inode' = slot p inode :=
  funext (slot_congr fun _ _ => by rw [h])

theorem entries_fields (h : inode'.iSectors = inode.iSectors) :
    entries p inode' = entries p inode := by
  unfold entries
  rw [slot_fields h]

@[simp] theorem slot_grow : slot p inode.grow = slot p inode := slot_fields rfl

@[simp] theorem slot_shrink : slot p inode.shrink = slot p inode := slot_fields rfl

@[simp] theorem entries_shrink : entries p inode.shrink = entries p inode := entries_fields rfl

@[simp] theorem entries_grow : entries p inode.grow = entries p inode := entries_fields rfl

/-- One entry of a block of the directory is written. -/
theorem InOrder.entries_write (books : InOrder p inode) {k i : Nat} (hk : k < 140)
    (hi : i < dirEntrysPerSec) (hne : slot p inode k ≠ 0) (src buf : Buf) :
    entries (ideWrite p (slot p inode k)
        (memcpy (ideRead p (slot p inode k) buf 1) (dirEntrySize * i) src dirEntrySize) 1) inode =
      Function.update (entries p inode) (k, i) (dirEntryAt src 0) := by
  have hslot :=
    books.slot_write (memcpy (ideRead p (slot p inode k) buf 1) (dirEntrySize * i) src dirEntrySize)
    (.inr ⟨k, hk, rfl⟩)
  ext1 c
  obtain ⟨j, l⟩ := c
  by_cases hc : j < 140 ∧ l < dirEntrysPerSec ∧ slot p inode j ≠ 0
  · obtain ⟨hj, hl, hjne⟩ := hc
    rw [entries_used hj hl (by rwa [hslot]), hslot, entryOf_replace src buf hi hl]
    by_cases hcell : (j, l) = (k, i)
    · cases hcell
      rw [if_pos ⟨rfl, rfl⟩, Function.update_self]
    · rw [Function.update_of_ne hcell, entries_used hj hl hjne, if_neg]
      rintro ⟨heq, rfl⟩
      exact hcell (by rw [books.inj j k hjne heq])
  · have hcell : (j, l) ≠ (k, i) := by
      rintro ⟨⟩
      exact hc ⟨hk, hi, hne⟩
    rw [Function.update_of_ne hcell]
    unfold entries
    rw [hslot, if_neg hc, if_neg hc]

/-- A new block of the directory gets the entry at its start. -/
theorem InOrder.entries_newEntry (books : InOrder p inode) {k : Nat} (hk : k < 140)
    (hne : slot p inode k ≠ 0) (pDe ioBuf : Buf) (c : Cell) :
    entries (syncNewEntry p inode (slot p inode k) pDe ioBuf).2.1
      (syncNewEntry p inode (slot p inode k) pDe ioBuf).2.2 c =
      if c.1 = k then (if c.2 = 0 then dirEntryAt pDe 0 else emptyEntry)
      else entries p inode c := by
  unfold syncNewEntry
  dsimp only
  rw [entries_grow]
  have hslot :=
    books.slot_write (memcpy (memcpy ioBuf 0 zeros sectorSize) 0 pDe dirEntrySize)
      (.inr ⟨k, hk, rfl⟩)
  obtain ⟨j, l⟩ := c
  dsimp only
  by_cases hjk : j = k
  · subst hjk
    rw [if_pos rfl]
    by_cases hl : l < dirEntrysPerSec
    · rw [entries_used hk hl (by rwa [hslot]), hslot, entryOf_newEntry pDe ioBuf hl]
      rfl
    · unfold dirEntrysPerSec at hl
      rw [if_neg (by omega)]
      exact if_neg fun hc => hl hc.2.1
  · rw [if_neg hjk]
    by_cases hj0 : slot p inode j = 0
    · rw [entries_unused hj0, entries_unused (by rwa [hslot])]
    · refine entries_kept (wrote_ideWrite _ _ _ _) (by rw [hslot]) fun hmem => hjk ?_
      exact books.inj j k hj0 (mem_one hmem)

/-- How an insertion changes the entries. -/
inductive Inserted (p : Part sb) (inode : Inode) (e : DirEntry) (p' : Part sb) (inode' : Inode) :
    Prop
  /-- A free entry of a direct block, or the first of a new one, becomes the new entry. -/
  | direct (k i : Nat) (hk : k < 12) (hi : i < dirEntrysPerSec)
      (free : (entries p inode (k, i)).fType = 0)
      (entries_eq : entries p' inode' = Function.update (entries p inode) (k, i) e)
      (slots : ∀ j, 12 ≤ j → slot p' inode' j = slot p inode j)
  /-- The direct blocks are full, and the directory gets a table with one block. What an older table
  led to is gone. -/
  | table (full : ∀ k < 12, slot p inode k ≠ 0 ∧
      ∀ i < dirEntrysPerSec, (entries p inode (k, i)).fType ≠ 0)
      (entries_eq : ∀ c, entries p' inode' c =
        if c.1 < 12 then entries p inode c else if c = (12, 0) then e else emptyEntry)
      (slots : ∀ j, 12 ≤ j → j < 140 → (slot p' inode' j ≠ 0 ↔ j = 12))

/-- A new direct block has the entry, and the other slots stay. -/
theorem InOrder.newDirect (books : InOrder p inode) {k b : Nat} (hk : k < 12)
    (h0 : slot p inode k = 0) (alloc : Allocated p b p') (pDe buf : Buf) :
    entries (syncNewEntry p' (inode.setSector k b) b pDe buf).2.1
      (syncNewEntry p' (inode.setSector k b) b pDe buf).2.2 =
        Function.update (entries p inode) (k, 0) (dirEntryAt pDe 0) ∧
      ∀ j, j ≠ k → slot (syncNewEntry p' (inode.setSector k b) b pDe buf).2.1
        (syncNewEntry p' (inode.setSector k b) b pDe buf).2.2 j = slot p inode j := by
  have taken := books.effect_take hk alloc
  have hslots : slot p' (inode.setSector k b) = Function.update (slot p inode) k b := by
    rw [slot_setDirect hk, show slot p' inode = slot p inode from
      funext (books.slot_synced alloc.wrote)]
  have hb : slot p' (inode.setSector k b) k = b := by
    rw [hslots, Function.update_self]
  have written :=
    taken.books.entries_newEntry (show k < 140 by omega) (hb.symm ▸ alloc.ne_zero) pDe buf
  have slots := taken.books.slot_write (memcpy (memcpy buf 0 zeros sectorSize) 0 pDe dirEntrySize)
    (.inr ⟨k, show k < 140 by omega, rfl⟩)
  rw [hb] at written slots
  refine ⟨?_, fun j hj => ?_⟩
  · ext1 c
    rw [written]
    obtain ⟨j, l⟩ := c
    by_cases hjk : j = k
    · subst hjk
      rw [if_pos rfl]
      by_cases hl : l = 0
      · subst hl
        rw [Function.update_self, if_pos rfl]
      · rw [Function.update_of_ne (fun e => hl (Prod.mk.inj e).2), if_neg hl, entries_unused h0]
    · rw [if_neg hjk, Function.update_of_ne fun e => hjk (Prod.mk.inj e).1]
      exact books.entries_synced alloc.wrote (by rw [hslots, Function.update_of_ne hjk])
  · show slot (ideWrite p' b _ 1) (inode.setSector k b).grow j = _
    rw [slot_grow, slots, hslots, Function.update_of_ne hj]

theorem InOrder.inserted_direct (books : InOrder p inode) {k b : Nat} (hk : k < 12)
    (h0 : slot p inode k = 0) (alloc : Allocated p b p') (pDe buf : Buf) :
    Inserted p inode (dirEntryAt pDe 0) (syncNewEntry p' (inode.setSector k b) b pDe buf).2.1
      (syncNewEntry p' (inode.setSector k b) b pDe buf).2.2 := by
  obtain ⟨entries_eq, slots⟩ := books.newDirect hk h0 alloc pDe buf
  refine .direct k 0 hk (by decide) ?_ entries_eq fun j hj => slots j (by omega)
  rw [entries_unused h0, emptyEntry_fType]

/-- The first indirect block, with a new table. -/
theorem InOrder.inserted_table (books : InOrder p inode) {t b : Nat}
    (full : ∀ k < 12, slot p inode k ≠ 0 ∧ ∀ i < dirEntrysPerSec, (entries p inode (k, i)).fType ≠
      0) (ht : Allocated p t p') (hb : Allocated p' b p'') (pDe buf : Buf) :
    Inserted p inode (dirEntryAt pDe 0)
      (syncNewEntry (writeTable p'' t (Function.update (directBlocks inode) 12 b))
        (inode.setSector 12 t) b pDe buf).2.1
      (syncNewEntry (writeTable p'' t (Function.update (directBlocks inode) 12 b))
        (inode.setSector 12 t) b pDe buf).2.2 := by
  have made := books.effect_newTable ht hb
  have hslots (j : Nat) :
      slot (writeTable p'' t (Function.update (directBlocks inode) 12 b)) (inode.setSector 12 t) j =
      if j < 12 then slot p inode j else if j = 12 then b else if j = 140 then t else 0 :=
        slot_newTable p ht.ne_zero hb.self.lt_u32
  have hslot : slot (writeTable p'' t (Function.update (directBlocks inode) 12 b))
      (inode.setSector 12 t) 12 = b := hslots 12
  have written :=
    made.books.entries_newEntry (show 12 < 140 by decide) (hslot.symm ▸ hb.ne_zero) pDe buf
  have slots :=
    made.books.slot_write (memcpy (memcpy buf 0 zeros sectorSize) 0 pDe dirEntrySize)
      (.inr ⟨12, by decide, rfl⟩)
  rw [hslot] at written slots
  refine .table full (fun c => ?_) fun j hj hj' => ?_
  · rw [written]
    obtain ⟨j, l⟩ := c
    dsimp only
    by_cases hj : j < 12
    · rw [if_neg (show j ≠ 12 by omega), if_pos hj]
      obtain ⟨W, hw, hm⟩ := Synced.trans ht.wrote hb.wrote
      have hne := (full j hj).1
      have htaken := books.taken j hne
      refine entries_kept (hw.trans (wrote_ideWrite _ _ _ _)) (by rw [hslots, if_pos hj])
        fun hmem => ?_
      rcases List.mem_append.mp hmem with hmem | hmem
      · have h₁ := (hm _ hmem).lt
        have h₂ := htaken.1
        dsimp only at h₁
        omega
      · exact ht.free (mem_one hmem ▸ htaken)
    · rw [if_neg hj]
      by_cases hj12 : j = 12
      · subst hj12
        simp only [Prod.mk.injEq, true_and, ↓reduceIte]
      · rw [if_neg hj12, if_neg fun e => hj12 (Prod.mk.inj e).1]
        by_cases h140 : j < 140
        · exact entries_unused (by rw [hslots, if_neg hj, if_neg hj12, if_neg (by omega)])
        · exact if_neg fun hc => h140 hc.1
  · show slot (ideWrite (writeTable p'' t _) b _ 1) (inode.setSector 12 t).grow j ≠ 0 ↔ j = 12
    rw [slot_grow, slots, hslots, if_neg (by omega)]
    by_cases hj12 : j = 12
    · rw [if_pos hj12]
      exact ⟨fun _ => hj12, fun _ => hb.ne_zero⟩
    · rw [if_neg hj12, if_neg (by omega)]
      exact ⟨fun h => absurd rfl h, fun h => absurd h hj12⟩

/-- WHAT `sync_dir_entry` DOES to the entries. -/
theorem syncDirEntry_inserted (books : InOrder p inode) {pDe ioBuf : Buf}
    (h : syncDirEntry p inode pDe ioBuf = .ok (true, p', inode')) :
    Inserted p inode (dirEntryAt pDe 0) p' inode' := by
  unfold syncDirEntry at h
  obtain ⟨_, _, h⟩ := bind_eq_ok.mp h
  rw [List.range_eq_range'] at h
  obtain ⟨k, buf, _, hk, before, hend⟩ := syncBlocks_ok h
  have hdirect {j : Nat} (hj : directBlocks inode j ≠ 0) : j < 12 := by
    by_contra hge
    exact hj (if_neg hge)
  have slot_eq {j : Nat} (hj : j < 12) : directBlocks inode j = slot p inode j := by
    rw [slot_direct hj]
    exact if_pos hj
  have hk12 : k ≤ 12 := by
    by_contra hgt
    have := hdirect (before 12 (by omega) (by omega)).1
    omega
  rcases hend with ⟨h0, hnew⟩ | ⟨hne, i, hfree, rfl, rfl⟩
  · unfold syncNewBlock at hnew
    obtain ⟨_, halloc, hnew⟩ := bind_eq_ok.mp hnew
    obtain ⟨b, p₁, rfl, alloc⟩ := dirBlockAlloc_ok halloc
    dsimp only at hnew
    split at hnew
    next hlt =>
      cases hnew
      exact books.inserted_direct hlt (slot_eq hlt ▸ h0) alloc pDe buf
    next hge =>
      obtain rfl : k = 12 := by omega
      rw [if_pos rfl] at hnew
      unfold syncNewTable at hnew
      obtain ⟨_, halloc₂, hnew⟩ := bind_eq_ok.mp hnew
      obtain ⟨b₂, p₂, rfl, alloc₂⟩ := dirBlockAlloc_ok halloc₂
      dsimp only at hnew
      rw [setSector_same] at hnew
      cases hnew
      refine books.inserted_table (fun k hk => ?_) alloc alloc₂ pDe buf
      obtain ⟨hne, buf', hfree⟩ := before k (by omega) hk
      rw [slot_eq hk] at hne hfree
      refine ⟨hne, fun i hi => ?_⟩
      rw [entries_used (by omega) hi hne]
      exact findFree_none buf' hfree hi
  · have hlt := hdirect hne
    rw [slot_eq hlt] at hne hfree ⊢
    obtain ⟨hi, hfree⟩ := findFree_some buf hfree
    refine .direct k i hlt hi ?_ ?_ fun j hj => ?_
    · rwa [entries_used (by omega) hi hne]
    · rw [entries_grow]
      exact books.entries_write (by omega) hi hne pDe buf
    · rw [slot_grow, books.slot_write _ (.inr ⟨k, by omega, rfl⟩)]

/-! ## Deletion -/

/-- An entry that `delete_dir_entry` counts: in use, and neither `.` nor `..`. -/
def DirEntry.Counted (e : DirEntry) : Prop := e.fType ≠ 0 ∧ e.name ≠ dotName ∧ e.name ≠ dotDotName

instance (e : DirEntry) : Decidable e.Counted :=
  inferInstanceAs (Decidable (e.fType ≠ 0 ∧ e.name ≠ dotName ∧ e.name ≠ dotDotName))

/-- What the scan of a sector finds out. -/
structure Scanned (p : Part sb) (b n : Nat) (s : EntryScan) (ks : List Nat) (s' : EntryScan) :
    Prop where
  first : s'.isDirFirstBlock = true ↔
    s.isDirFirstBlock = true ∨ ∃ i ∈ ks, (entryOf p b i).fType ≠ 0 ∧ (entryOf p b i).name = dotName
  count : s'.dirEntryCnt = s.dirEntryCnt + (ks.filter fun i => (entryOf p b i).Counted).length
  found : s'.dirEntryFound = s.dirEntryFound ∨
    ∃ i ∈ ks, s'.dirEntryFound = some i ∧ (entryOf p b i).Counted ∧ (entryOf p b i).iNo = n

/-- An entry that is neither `.` nor counted makes no difference. -/
theorem Scanned.skip {b n i : Nat} {s s' : EntryScan} {ks : List Nat} (h : Scanned p b n s ks s')
    (hfirst : ¬ ((entryOf p b i).fType ≠ 0 ∧ (entryOf p b i).name = dotName))
    (hcount : ¬ (entryOf p b i).Counted) :
    Scanned p b n s (i :: ks) s' where
  first := by
    rw [h.first, List.exists_mem_cons_iff]
    simp only [hfirst, false_or]
  count := by
    rw [h.count, List.filter_cons_of_neg (by simpa using hcount)]
  found := h.found.imp_right fun ⟨j, hj, hrest⟩ => ⟨j, List.mem_cons_of_mem _ hj, hrest⟩

theorem scanEntries_ok {b n : Nat} (buf : Buf) {s s' : EntryScan} {ks : List Nat}
    (hks : ∀ i ∈ ks, i < dirEntrysPerSec) (h : scanEntries (ideRead p b buf 1) n s ks = .ok s') :
    Scanned p b n s ks s' := by
  induction ks generalizing s with
  | nil =>
    cases h
    exact ⟨by simp, by simp, .inl rfl⟩
  | cons i ks ih =>
    obtain ⟨hi, hks⟩ := List.forall_mem_cons.mp hks
    have dot : strSame (ideRead p b buf 1) (dirEntrySize * i) dotName = true ↔
        (entryOf p b i).name = dotName := by
      rw [strSame_iff (n := 16) (by decide) (by decide), ideRead_cStr buf hi]
    have dotDot : strSame (ideRead p b buf 1) (dirEntrySize * i) dotDotName = true ↔
        (entryOf p b i).name = dotDotName := by
      rw [strSame_iff (n := 16) (by decide) (by decide), ideRead_cStr buf hi]
    unfold scanEntries at h
    rw [ideRead_entry buf hi] at h
    by_cases hfree : (entryOf p b i).fType = ftUnkown
    · rw [if_pos hfree] at h
      exact (ih hks h).skip (fun hd => hd.1 hfree) fun hc => hc.1 hfree
    rw [if_neg hfree] at h
    by_cases hdot : (entryOf p b i).name = dotName
    · rw [if_pos (dot.mpr hdot)] at h
      have rest := ih hks h
      refine ⟨?_, ?_, rest.found.imp_right fun ⟨j, hj, hrest⟩ =>
        ⟨j, List.mem_cons_of_mem _ hj, hrest⟩⟩
      · rw [rest.first, List.exists_mem_cons_iff]
        exact ⟨fun _ => .inr (.inl ⟨hfree, hdot⟩), fun _ => .inl rfl⟩
      · rw [rest.count, List.filter_cons_of_neg (by simp [DirEntry.Counted, hdot])]
    rw [if_neg (fun h => hdot (dot.mp h))] at h
    by_cases hdd : (entryOf p b i).name = dotDotName
    · rw [if_pos (dotDot.mpr hdd)] at h
      exact (ih hks h).skip (fun hd => hdot hd.2) fun hc => hc.2.2 hdd
    rw [if_neg (fun h => hdd (dotDot.mp h))] at h
    have counted : (entryOf p b i).Counted := ⟨hfree, hdot, hdd⟩
    have nofirst : ¬ ((entryOf p b i).fType ≠ 0 ∧ (entryOf p b i).name = dotName) :=
      fun hd => hdot hd.2
    dsimp only at h
    split at h
    next hno =>
      obtain ⟨_, _, h⟩ := bind_eq_ok.mp h
      have rest := ih hks h
      refine ⟨?_, ?_, .inr ?_⟩
      · rw [rest.first, List.exists_mem_cons_iff]
        simp only [nofirst, false_or]
      · rw [rest.count, List.filter_cons_of_pos (by simpa using counted), List.length_cons]
        dsimp only
        omega
      · rcases rest.found with hf | ⟨j, hj, hrest⟩
        · exact ⟨i, List.mem_cons_self, hf, counted, hno⟩
        · exact ⟨j, List.mem_cons_of_mem _ hj, hrest⟩
    next =>
      have rest := ih hks h
      refine ⟨?_, ?_, rest.found.imp_right fun ⟨j, hj, hrest⟩ =>
        ⟨j, List.mem_cons_of_mem _ hj, hrest⟩⟩
      · rw [rest.first, List.exists_mem_cons_iff]
        simp only [nofirst, false_or]
      · rw [rest.count, List.filter_cons_of_pos (by simpa using counted), List.length_cons]
        dsimp only
        omega

/-- What giving a block back leaves of the slots and the entries. -/
structure Dropped (p : Part sb) (inode : Inode) (k : Nat) (p' : Part sb) (inode' : Inode) :
    Prop where
  slots : ∀ j < 140, slot p' inode' j = if j = k then 0 else slot p inode j
  entries_eq : ∀ c, entries p' inode' c = if c.1 = k then emptyEntry else entries p inode c
  /-- The table goes with its last block. -/
  table : 12 ≤ k → slot p' inode' 140 ≠ 0 → ∃ j, 12 ≤ j ∧ j < 140 ∧ j ≠ k ∧ slot p inode j ≠ 0
  tableDirect : k < 12 → slot p' inode' 140 = slot p inode 140

/-- With more than one indirect block, there is another. -/
theorem indirectBlocks_more {allBlocks : Blocks} {k : Nat} (h : indirectBlocks allBlocks > 1) :
    ∃ j, 12 ≤ j ∧ j < 140 ∧ j ≠ k ∧ allBlocks j ≠ 0 := by
  by_contra hno
  have hsub : (List.range' 12 128).filter (fun k => allBlocks k != 0) ⊆ [k] := by
    intro j hj
    rw [List.mem_filter, List.mem_range'_1] at hj
    rw [List.mem_singleton]
    by_contra hjk
    exact hno ⟨j, hj.1.1, by omega, hjk, by simpa using hj.2⟩
  have hnodup : ((List.range' 12 128).filter fun k => allBlocks k != 0).Nodup :=
    List.Nodup.filter _ List.nodup_range'
  have := (hnodup.subperm hsub).length_le
  unfold indirectBlocks at h
  rw [List.length_singleton] at this
  omega

/-- The entries of the other blocks are kept. -/
theorem InOrder.entries_drop (books : InOrder p inode) {k : Nat}
    (slots : ∀ j < 140, slot p' inode' j = if j = k then 0 else slot p inode j)
    (wrote : ∃ W, Wrote p W p' ∧ ∀ lba ∈ W, BitmapSector sb lba ∨ lba = slot p inode 140 ∧ lba ≠ 0)
    (c : Cell) : entries p' inode' c = if c.1 = k then emptyEntry else entries p inode c := by
  obtain ⟨W, hw, hm⟩ := wrote
  obtain ⟨j, l⟩ := c
  dsimp only
  by_cases hj : j < 140
  · have hslot := slots j hj
    by_cases hjk : j = k
    · rw [if_pos hjk] at hslot ⊢
      exact entries_unused hslot
    · rw [if_neg hjk] at hslot ⊢
      by_cases h0 : slot p inode j = 0
      · rw [entries_unused h0, entries_unused (by rw [hslot, h0])]
      · refine entries_kept hw hslot fun hmem => ?_
        rcases hm _ hmem with hb | ⟨ht, _⟩
        · have h₁ := hb.lt
          have h₂ := (books.taken j h0).1
          dsimp only at h₁
          omega
        · have := books.inj j 140 h0 ht
          omega
  · have hout (q : Part sb) (i : Inode) : entries q i (j, l) = emptyEntry :=
      if_neg fun hc => hj hc.1
    rw [hout, hout, ite_self]

theorem InOrder.dropped (books : InOrder p inode) {k : Nat} (hk : k < 140)
    (hne : slot p inode k ≠ 0)
    (h : dropBlock p inode (collectBlocks p inode) k = .ok (p', inode')) :
    Dropped p inode k p' inode' := by
  unfold dropBlock at h
  rw [← slot_lt hk] at h
  obtain ⟨_, _, h⟩ := bind_eq_ok.mp h
  have freed := blockFree_freed (books.taken k hne)
  obtain ⟨W, hw, hm⟩ := freed.wrote
  split at h
  next h12 =>
    cases h
    have hslots : slot (blockFree p (slot p inode k)) (inode.setSector k 0) =
        Function.update (slot p inode) k 0 := by
      rw [slot_setDirect h12, show slot _ inode = slot p inode from
        funext (books.slot_synced freed.wrote)]
    have slots (j : Nat) (_ : j < 140) :
        slot (blockFree p (slot p inode k)) (inode.setSector k 0) j = if j = k then 0
          else slot p inode j := by
      rw [hslots, Function.update_apply]
    refine ⟨slots, books.entries_drop slots ⟨W, hw, fun lba hl => .inl (hm lba hl)⟩,
      fun h => by omega, fun _ => ?_⟩
    rw [hslots, Function.update_of_ne (by omega)]
  next h12 =>
    obtain ⟨_, _, h⟩ := bind_eq_ok.mp h
    have ht : inode.iSectors 12 ≠ 0 :=
      fun h0 => hne (by rw [slot_indirect (by omega) hk, if_pos h0])
    have h140 : slot p inode 140 = inode.iSectors 12 := slot_table
    have dropped := books.effect_dropIndirect (by omega) hk hne freed
    have hslots := slot_clearEntry (blockFree p (slot p inode k)) p (by omega) hk ht
    have hwt : ∃ W, Wrote p W (writeTable (blockFree p (slot p inode k)) (inode.iSectors 12)
        (Function.update (collectBlocks p inode) k 0)) ∧ ∀ lba ∈ W, BitmapSector sb lba ∨
          lba = slot p inode 140 ∧ lba ≠ 0 := by
      refine ⟨_, hw.trans (wrote_ideWrite _ _ _ _), fun lba hl => ?_⟩
      rcases List.mem_append.mp hl with hl | hl
      · exact .inl (hm lba hl)
      · rw [h140, mem_one hl]
        exact .inr ⟨rfl, ht⟩
    dsimp only at h
    split at h
    next hmore =>
      cases h
      have slots (j : Nat) (_ : j < 140) :
          slot (writeTable (blockFree p (slot p inode k)) (inode.iSectors 12)
          (Function.update (collectBlocks p inode) k 0)) inode j = if j = k then 0
            else slot p inode j := by
        rw [hslots, Function.update_apply]
      refine ⟨slots, books.entries_drop slots hwt, fun _ _ => ?_, fun h => absurd h h12⟩
      obtain ⟨j, hj, hj', hjk, hj0⟩ := indirectBlocks_more (k := k) hmore
      exact ⟨j, hj, hj', hjk, by rwa [slot_lt hj']⟩
    next hone =>
      have htaken := dropped.books.taken 140
      rw [slot_table] at htaken
      obtain ⟨W₂, hw₂, hm₂⟩ := (blockFree_freed (htaken ht)).wrote
      cases h
      refine Dropped.mk ?slots (books.entries_drop ?slots ?wrote) (fun _ h => ?_) fun h =>
        absurd h h12
      case slots =>
        intro j hj
        by_cases hj12 : j < 12
        · rw [slot_direct hj12, setSector_other _ _ (by omega), if_neg (by omega), slot_direct hj12]
        · rw [slot_indirect (by omega) hj, setSector_same, if_pos rfl]
          by_cases hjk : j = k
          · rw [if_pos hjk]
          · rw [if_neg hjk, slot_lt hj]
            rw [slot_lt hk] at hne
            exact (indirectBlocks_one hone (by omega) hk hne (by omega) hj hjk).symm
      case wrote =>
        obtain ⟨W₁, hw₁, hm₁⟩ := hwt
        refine ⟨_, hw₁.trans hw₂, fun lba hl => ?_⟩
        rcases List.mem_append.mp hl with hl | hl
        · exact hm₁ lba hl
        · exact .inl (hm₂ lba hl)
      · rw [slot_table, setSector_same] at h
        exact absurd rfl h

theorem Dropped.congr {k : Nat} {inode'' : Inode} (h : Dropped p inode k p' inode')
    (hslots : slot p'' inode'' = slot p' inode')
    (hentries : entries p'' inode'' = entries p' inode') :
    Dropped p inode k p'' inode'' where
  slots := hslots ▸ h.slots
  entries_eq := hentries ▸ h.entries_eq
  table := hslots ▸ h.table
  tableDirect := hslots ▸ h.tableDirect

/-- How a deletion changes the entries. -/
inductive Deleted (p : Part sb) (inode : Inode) (n : Nat) (p' : Part sb) (inode' : Inode) : Prop
  /-- The entry is cleared; its block has another one. -/
  | cleared (k i j : Nat) (hk : k < 140) (counted : (entries p inode (k, i)).Counted)
      (hno : (entries p inode (k, i)).iNo = n)
      (other : j ≠ i ∧ (entries p inode (k, j)).fType ≠ 0)
      (entries_eq : entries p' inode' = Function.update (entries p inode) (k, i) emptyEntry)
      (slots : slot p' inode' = slot p inode)
  /-- The block is given back: it had no other entry, `..` at most. -/
  | dropped (k i : Nat) (hk : k < 140) (counted : (entries p inode (k, i)).Counted)
      (hno : (entries p inode (k, i)).iNo = n)
      (alone : ∀ j, (entries p inode (k, j)).fType ≠ 0 →
        j = i ∨ (entries p inode (k, j)).name = dotDotName)
      (drop : Dropped p inode k p' inode')

/-- The entry found is the only one that counts, when the count is one. -/
theorem Scanned.alone {b n i j : Nat} {s' : EntryScan}
    (h : Scanned p b n ⟨false, 0, none⟩ (List.range dirEntrysPerSec) s') (hone : s'.dirEntryCnt = 1)
    (hi : i < dirEntrysPerSec) (hj : j < dirEntrysPerSec) (ci : (entryOf p b i).Counted)
    (cj : (entryOf p b j).Counted) : j = i := by
  by_contra hji
  have hsub : [j, i] ⊆ (List.range dirEntrysPerSec).filter fun i => (entryOf p b i).Counted := by
    intro l hl
    rw [List.mem_filter, List.mem_range]
    rcases List.mem_cons.mp hl with rfl | hl
    · exact ⟨hj, by simpa using cj⟩
    · rw [List.mem_singleton.mp hl]
      exact ⟨hi, by simpa using ci⟩
  have hnodup : [j, i].Nodup := by simp [hji]
  have hle := (hnodup.subperm hsub).length_le
  have hcount := h.count
  rw [hone, Nat.zero_add] at hcount
  rw [← hcount] at hle
  simp at hle

/-- With a greater count there is another. -/
theorem Scanned.other {b n i : Nat} {s' : EntryScan}
    (h : Scanned p b n ⟨false, 0, none⟩ (List.range dirEntrysPerSec) s')
    (ci : (entryOf p b i).Counted) (hmore : ¬ (s'.dirEntryCnt = 1 ∧ s'.isDirFirstBlock = false))
    (hpos : s'.dirEntryCnt ≥ 1) : ∃ j < dirEntrysPerSec, j ≠ i ∧ (entryOf p b j).fType ≠ 0 := by
  by_cases hfirst : s'.isDirFirstBlock = true
  · obtain ⟨j, hj, hne, hdot⟩ := (h.first.mp hfirst).resolve_left Bool.false_ne_true
    refine ⟨j, List.mem_range.mp hj, ?_, hne⟩
    rintro rfl
    exact ci.2.1 hdot
  · have hcnt : 2 ≤ s'.dirEntryCnt := by
      rw [Bool.not_eq_true] at hfirst
      have : s'.dirEntryCnt ≠ 1 := fun h1 => hmore ⟨h1, hfirst⟩
      omega
    rw [h.count, Nat.zero_add] at hcnt
    by_contra hno
    have hsub : (List.range dirEntrysPerSec).filter (fun i => (entryOf p b i).Counted) ⊆ [i] := by
      intro j hj
      rw [List.mem_filter, List.mem_range, decide_eq_true_eq] at hj
      rw [List.mem_singleton]
      by_contra hji
      exact hno ⟨j, hj.1, hji, hj.2.1⟩
    have hnodup : ((List.range dirEntrysPerSec).filter fun i => (entryOf p b i).Counted).Nodup :=
      List.Nodup.filter _ List.nodup_range
    have := (hnodup.subperm hsub).length_le
    rw [List.length_singleton] at this
    omega

/-- Sectors of the inode table hold no entries. -/
theorem InOrder.entries_replaced (books : InOrder p inode) {n : Nat} {bytes : Buf}
    (h : Replaced p n bytes p') : entries p' inode = entries p inode := by
  obtain ⟨W, hw, hm⟩ := h.wrote
  ext1 c
  by_cases h0 : slot p inode c.1 = 0
  · unfold entries
    rw [books.slot_replaced h, if_neg fun hc => hc.2.2 h0, if_neg fun hc => hc.2.2 h0]
  · refine entries_kept hw (by rw [books.slot_replaced h]) fun hmem => ?_
    exact not_table_of_le (books.taken _ h0).1 (hm _ hmem)

/-- WHAT `delete_dir_entry` DOES to the entries. -/
theorem deleteDirEntry_deleted (books : InOrder p inode) {n : Nat}
    (h : deleteDirEntry p inode n = .ok (true, p', inode')) : Deleted p inode n p' inode' := by
  obtain ⟨k, hk, hne, s, found, hscan, hfound, h⟩ := deleteBlocks_ok h
  have hk140 := List.mem_range.mp hk
  rw [← slot_lt hk140] at hne hscan
  have scanned := scanEntries_ok zeros (fun i hi => List.mem_range.mp hi) hscan
  obtain ⟨i, hi, hsome, counted, hno⟩ := scanned.found.resolve_left fun h0 => by
    rw [hfound] at h0
    cases h0
  obtain rfl : found = i := Option.some.inj (hfound.symm.trans hsome)
  rw [List.mem_range] at hi
  have hentry {j : Nat} (hj : j < dirEntrysPerSec) : entryOf p (slot p inode k) j =
      entries p inode (k, j) :=
    (entries_used hk140 hj hne).symm
  unfold deleteFound at h
  obtain ⟨_, hcnt, h⟩ := bind_eq_ok.mp h
  obtain ⟨⟨p₁, inode₁⟩, hclear, h⟩ := bind_eq_ok.mp h
  obtain ⟨_, _, h⟩ := bind_eq_ok.mp h
  obtain ⟨p₂, hsync, h⟩ := bind_eq_ok.mp h
  cases h
  have hsync := (inodeReplace_inv hsync).2
  -- the last step writes the inode alone
  have last (books₁ : InOrder p₁ inode₁) :
      slot p' inode₁.shrink = slot p₁ inode₁ ∧ entries p' inode₁.shrink = entries p₁ inode₁ := by
    have books₂ : InOrder p₁ inode₁.shrink := by
      unfold InOrder
      rwa [slot_shrink]
    rw [books₂.slot_replaced hsync, books₂.entries_replaced hsync, slot_shrink, entries_shrink]
    exact ⟨rfl, rfl⟩
  have hcounted : (entries p inode (k, found)).Counted := hentry hi ▸ counted
  have hno' : (entries p inode (k, found)).iNo = n := hentry hi ▸ hno
  unfold clearEntry at hclear
  split at hclear
  next hone =>
    have cleared := books.effect_dropBlock hk140 (slot_lt hk140 ▸ hne) hclear
    have drop := books.dropped hk140 hne hclear
    obtain ⟨hslots, hentries⟩ := last cleared.books
    refine .dropped k found hk140 hcounted hno' (fun j hj => ?_) (drop.congr hslots hentries)
    · obtain ⟨_, hlt, _⟩ := entries_place hj
      rw [← hentry hlt] at hj ⊢
      by_cases hdd : (entryOf p (slot p inode k) j).name = dotDotName
      · exact .inr hdd
      · refine .inl (scanned.alone hone.1 hi hlt counted ⟨hj, fun hdot => ?_, hdd⟩)
        have := scanned.first.mpr (.inr ⟨j, List.mem_range.mpr hlt, hj, hdot⟩)
        rw [hone.2] at this
        cases this
  next hmore =>
    obtain ⟨j, hj, hji, hjne⟩ := scanned.other counted hmore (assertThat_ok hcnt)
    cases hclear
    rw [← slot_lt hk140] at last
    have books₁ := (books.effect_write
      (memcpy (ideRead p (slot p inode k) zeros 1) (dirEntrySize * found) zeros dirEntrySize)
        (.inr ⟨k, hk140, rfl⟩)).books
    obtain ⟨hslots, hentries⟩ := last books₁
    refine .cleared k found j hk140 hcounted hno' ⟨hji, hentry hj ▸ hjne⟩ ?_ ?_
    · rw [hentries]
      exact books.entries_write hk140 hi hne zeros zeros
    · rw [hslots]
      exact books.slot_write _ (.inr ⟨k, hk140, rfl⟩)

end SeekingOs.Fs
