import SeekingOs.Fs.FileBytes

/-!
# `file_write` appends

A file that was written to has blocks for all of its bytes and for the next byte, and no direct
block behind that one; the indirect table is there when slot 12 is. This is what the assertions of
`file_write` rely on and what it leaves behind. With blocks enough on the disk it comes to its end,
and the file is the old one with the new bytes at its end.
-/

namespace SeekingOs.Fs

open Lib

variable {sb : SuperBlock} {p p' : Part sb} {inode inode' : Inode}

/-- `file_has_used_blocks`, for a file of `n` bytes -/
def usedBlocks (n : Nat) : Nat := n / sectorSize + 1

/-- How many blocks `file_write` takes for `count` bytes more. -/
def neededBlocks (inode : Inode) (count : Nat) : Nat :=
  (if inode.iSectors 0 = 0 then 1 else 0) +
    (usedBlocks (inode.iSize + count) - usedBlocks inode.iSize) +
    (if usedBlocks inode.iSize ≤ 12 ∧ 12 < usedBlocks (inode.iSize + count) then 1 else 0)

/-- A file that was never written to. -/
structure Fresh (p : Part sb) (inode : Inode) : Prop where
  iNo : inode.iNo < 4096
  iSize : inode.iSize = 0
  iSectors : ∀ k < 13, inode.iSectors k = 0
  /-- Block 0 of the data belongs to the root directory. -/
  root : Taken p sb.dataStartLba

/-- A file that was written to. -/
structure Shaped (p : Part sb) (inode : Inode) : Prop where
  books : InOrder p inode
  iNo : inode.iNo < 4096
  small : inode.iSize < 140 * sectorSize
  used : ∀ k < usedBlocks inode.iSize, slot p inode k ≠ 0
  unused : ∀ k < 12, usedBlocks inode.iSize ≤ k → inode.iSectors k = 0
  table : 12 < usedBlocks inode.iSize ↔ inode.iSectors 12 ≠ 0

@[simp] theorem slot_setSize (p : Part sb) (inode : Inode) (n : Nat) :
    slot p { inode with iSize := n } = slot p inode :=
  funext (slot_congr fun _ _ => rfl)

theorem usedBlocks_pos (n : Nat) : 1 ≤ usedBlocks n := Nat.le_add_left 1 _

theorem usedBlocks_mono {m n : Nat} (h : m ≤ n) : usedBlocks m ≤ usedBlocks n := by
  unfold usedBlocks
  exact Nat.add_le_add_right (Nat.div_le_div_right h) 1

theorem usedBlocks_le {n : Nat} (h : n < 140 * sectorSize) : usedBlocks n ≤ 140 := by
  unfold usedBlocks sectorSize at *
  omega

/-- The block of a byte is used. -/
theorem div_lt_usedBlocks {i n : Nat} (h : i ≤ n) : i / sectorSize < usedBlocks n := by
  unfold usedBlocks
  exact Nat.lt_succ_of_le (Nat.div_le_div_right h)

theorem Shaped.first (h : Shaped p inode) : inode.iSectors 0 ≠ 0 := by
  have := h.used 0 (usedBlocks_pos _)
  rwa [slot_direct (by decide)] at this

/-! ## Collecting the blocks comes to its end -/

theorem length_newBlocks (has will : Nat) : (newBlocks has will).length = will - has :=
  List.length_range'

theorem noteBlock_total {allBlocks : Blocks} {k b : Nat} (empty : k < 12 → inode.iSectors k = 0) :
    ∃ r, noteBlock inode allBlocks k b = .ok r := by
  unfold noteBlock
  by_cases h : k < 12
  · rw [if_pos h, assertThat_of (empty h)]
    exact ⟨_, rfl⟩
  · rw [if_neg h]
    exact ⟨_, rfl⟩

theorem growBlocks_total {g : Growth sb} {ks : List Nat} (nodup : ks.Nodup)
    (free : ks.length ≤ freeCount g.part) (empty : ∀ k ∈ ks, k < 12 → g.inode.iSectors k = 0) :
    ∃ r, growBlocks g ks = .ok r := by
  induction ks generalizing g with
  | nil => exact ⟨_, rfl⟩
  | cons k ks ih =>
    obtain ⟨hk, nodup⟩ := List.nodup_cons.mp nodup
    rw [List.length_cons] at free
    obtain ⟨b, p₁, halloc, alloc⟩ := blockBitmapAlloc_total (p := g.part) (by omega)
    have hfree := alloc.freeCount
    obtain ⟨⟨inode₁, all₁⟩, hnote⟩ :=
      @noteBlock_total g.inode g.allBlocks k b (empty k List.mem_cons_self)
    obtain ⟨-, -, hinode⟩ := noteBlock_ok hnote
    unfold growBlocks
    rw [halloc, ok_bind]
    dsimp only
    rw [hnote, ok_bind]
    apply ih nodup
    · dsimp only
      omega
    · intro j hj hlt
      have hne : j ≠ k := by
        rintro rfl
        exact hk hj
      have hold := empty j (List.mem_cons_of_mem _ hj) hlt
      dsimp only at hinode ⊢
      rw [hinode]
      split
      · rw [setSector_other _ _ hne]
        exact hold
      · exact hold

variable {count : Nat}

/-- With blocks enough, collecting them comes to its end. -/
theorem Shaped.collect_total (h : Shaped p inode) (fits : inode.iSize + count < 140 * sectorSize)
    (free : neededBlocks inode count ≤ freeCount p) :
    ∃ r, collectForWrite p inode (usedBlocks inode.iSize) (usedBlocks (inode.iSize + count)) =
      .ok r := by
  have hhas := usedBlocks_pos inode.iSize
  have hle : usedBlocks inode.iSize ≤ usedBlocks (inode.iSize + count) :=
    usedBlocks_mono (Nat.le_add_right _ _)
  have hwill := usedBlocks_le fits
  have hneed := h.first
  have hunused := h.unused
  have hused := h.used
  have htable := h.table
  unfold neededBlocks at free
  rw [if_neg hneed] at free
  revert free hhas hle hwill hunused hused htable
  generalize usedBlocks inode.iSize = has
  generalize usedBlocks (inode.iSize + count) = will
  intro free hhas hle hwill hunused hused htable
  unfold collectForWrite
  by_cases heq : will = has
  · rw [if_pos heq]
    unfold lastBlock
    by_cases h12 : will ≤ 12
    · rw [if_pos h12]
      exact ⟨_, rfl⟩
    · rw [if_neg h12, assertThat_of (htable.mp (by omega))]
      exact ⟨_, rfl⟩
  rw [if_neg heq]
  have hlen := length_newBlocks has will
  by_cases h12 : will ≤ 12
  · rw [if_pos h12]
    rw [if_neg (by omega)] at free
    have hlast : inode.iSectors (has - 1) ≠ 0 := by
      have := hused (has - 1) (by omega)
      rwa [slot_direct (by omega)] at this
    unfold growDirect sectorAt
    rw [if_pos (by omega)]
    change ∃ r, (assertThat false (inode.iSectors (has - 1) ≠ 0) _ _ >>= _) = .ok r
    rw [assertThat_of hlast, ok_bind]
    apply growBlocks_total nodup_newBlocks
    · dsimp only
      omega
    · intro k hk hlt
      rw [mem_newBlocks] at hk
      exact hunused k hlt hk.1
  rw [if_neg h12]
  by_cases hhas12 : has ≤ 12
  · rw [if_pos hhas12]
    rw [if_pos (by omega)] at free
    have h0 : inode.iSectors 12 = 0 := by
      by_contra hne
      have := htable.mpr hne
      omega
    obtain ⟨b, p₁, halloc, alloc⟩ := blockBitmapAlloc_total (p := p) (by omega)
    have hfree := alloc.freeCount
    unfold growAcross
    dsimp only
    rw [halloc, ok_bind]
    dsimp only
    rw [assertThat_of h0, ok_bind]
    obtain ⟨r, hgrow⟩ :=
      @growBlocks_total sb ⟨blockBitmapSync p₁ (blockBit sb b), inode.setSector 12 b,
      Function.update (fun _ => 0) (has - 1) (inode.iSectors (has - 1))⟩ (newBlocks has will)
        nodup_newBlocks
      (by dsimp only; omega) fun k hk hlt => by
        rw [mem_newBlocks] at hk
        dsimp only
        rw [setSector_other _ _ (by omega)]
        exact hunused k hlt hk.1
    rw [hgrow]
    exact ⟨_, rfl⟩
  · rw [if_neg hhas12]
    rw [if_neg (by omega)] at free
    unfold growIndirect
    rw [assertThat_of (htable.mp (by omega)), ok_bind]
    obtain ⟨r, hgrow⟩ :=
      @growBlocks_total sb ⟨p, inode, readTable p (inode.iSectors 12) fun _ => 0⟩
        (newBlocks has will)
      nodup_newBlocks (by dsimp only; omega) fun k hk hlt => by
        rw [mem_newBlocks] at hk
        omega
    rw [hgrow]
    exact ⟨_, rfl⟩

/-! ## Appending -/

/-- A byte whose sector was not written. -/
theorem byteAt_kept {W : List Nat} {i : Nat} (h : Wrote p W p')
    (hslot : slot p' inode' (i / sectorSize) = slot p inode (i / sectorSize))
    (hW : slot p inode (i / sectorSize) ∉ W) : byteAt p' inode' i = byteAt p inode i := by
  unfold byteAt laid
  rw [hslot]
  exact h.sector hW (Nat.mod_lt i (by decide))

/-- The shape of a file is that of its slots. -/
theorem Shaped.congr (h : Shaped p inode) (books : InOrder p' inode')
    (slots : slot p' inode' = slot p inode) (iNo : inode'.iNo = inode.iNo)
    (iSize : inode'.iSize = inode.iSize) : Shaped p' inode' where
  books := books
  iNo := by
    rw [iNo]
    exact h.iNo
  small := by
    rw [iSize]
    exact h.small
  used := by
    rw [iSize, slots]
    exact h.used
  unused k hk hle := by
    rw [iSize] at hle
    have := h.unused k hk hle
    rwa [← slot_direct (p := p') hk, slots, slot_direct hk]
  table := by
    have h12 : inode'.iSectors 12 = inode.iSectors 12 := by
      rw [← @slot_table sb p', slots, slot_table]
    rw [iSize, h12]
    exact h.table

/-- The file with its new blocks has the shape of the larger file. -/
theorem Shaped.grown (h : Shaped p inode) (fits : inode.iSize + count < 140 * sectorSize)
    {new : Nat → Nat} {g : Growth sb}
    (c : Collected p inode (usedBlocks inode.iSize) (usedBlocks (inode.iSize + count)) new g) :
    Shaped g.part { g.inode with iSize := inode.iSize + count } := by
  have hhas := usedBlocks_pos inode.iSize
  have hle : usedBlocks inode.iSize ≤ usedBlocks (inode.iSize + count) :=
    usedBlocks_mono (Nat.le_add_right _ _)
  have hslots := slot_setSize g.part g.inode (inode.iSize + count)
  have hno : g.inode.iNo = inode.iNo := by rw [c.inode]
  have htable := h.table
  refine ⟨?_, hno ▸ h.iNo, fits, ?_, ?_, ?_⟩
  · unfold InOrder
    rw [hslots]
    exact (h.books.effect_collected c).books
  · intro k hk
    dsimp only at hk
    rw [hslots]
    by_cases hS : growthSlots (usedBlocks inode.iSize) (usedBlocks (inode.iSize + count)) k
    · rw [c.at_new k hS]
      exact c.acquired.ne_zero hS
    · rw [c.at_old k hS]
      apply h.used
      unfold growthSlots at hS
      omega
  · intro k hk hk'
    dsimp only at hk' ⊢
    have hS : ¬ growthSlots (usedBlocks inode.iSize) (usedBlocks (inode.iSize + count)) k := by
      unfold growthSlots
      omega
    have hold := c.at_old k hS
    rw [slot_direct hk, slot_direct hk] at hold
    rw [hold]
    apply h.unused k hk
    omega
  · dsimp only
    by_cases hS : growthSlots (usedBlocks inode.iSize) (usedBlocks (inode.iSize + count)) 140
    · have hnew := c.at_new 140 hS
      rw [slot_table] at hnew
      rw [hnew]
      refine ⟨fun _ => c.acquired.ne_zero hS, fun _ => ?_⟩
      have hwill := usedBlocks_le fits
      unfold growthSlots at hS
      omega
    · have hold := c.at_old 140 hS
      rw [slot_table, slot_table] at hold
      rw [hold, ← htable]
      have hwill := usedBlocks_le fits
      unfold growthSlots at hS
      omega

/-- Collecting blocks changes no byte of the file. -/
theorem Shaped.bytes_collected (h : Shaped p inode) {will : Nat}
    (hle : usedBlocks inode.iSize ≤ will) (hwill : will ≤ 140) {new : Nat → Nat} {g : Growth sb}
    (c : Collected p inode (usedBlocks inode.iSize) will new g) {i : Nat} (hi : i < inode.iSize) :
    byteAt g.part g.inode i = byteAt p inode i := by
  have hk := div_lt_usedBlocks (Nat.le_of_lt hi)
  have hS : ¬ growthSlots (usedBlocks inode.iSize) will (i / sectorSize) := by
    unfold growthSlots
    omega
  have hold := c.at_old _ hS
  have hne := h.used _ hk
  obtain ⟨W, hw, hm⟩ := c.wrote
  refine byteAt_kept hw hold fun hmem => ?_
  rcases hm _ hmem with hbit | ⟨htable, -⟩
  · have h₁ := hbit.lt
    have h₂ := (h.books.taken _ hne).1
    omega
  · rw [← hold] at htable hne
    have := (h.books.effect_collected c).books.inj _ _ hne htable
    omega

/-- What a write leaves behind. -/
structure Written (p : Part sb) (inode : Inode) (src : Buf) (count : Nat) (r : FileResult sb Nat) :
    Prop where
  shaped : Shaped r.part r.inode
  iSize : r.inode.iSize = inode.iSize + count
  fdPos : r.fdPos = u32 (inode.iSize + count - 1 : Int)
  ret : r.ret = some count
  contents : contents r.part r.inode = contents p inode ++ (List.range count).map src

theorem contents_append {src : Buf} (hsize : inode'.iSize = inode.iSize + count)
    (h : ∀ i < inode.iSize + count, byteAt p' inode' i = if i < inode.iSize then byteAt p inode i
      else src (i - inode.iSize)) :
    contents p' inode' = contents p inode ++ (List.range count).map src := by
  apply List.ext_getElem
  · simp [hsize]
  · intro i hi hi'
    rw [length_contents, hsize] at hi
    rw [getElem_contents, h i hi]
    by_cases hlt : i < inode.iSize
    · rw [if_pos hlt, List.getElem_append_left (by simpa using hlt), getElem_contents]
    · rw [if_neg hlt, List.getElem_append_right (by simpa using hlt)]
      simp

variable {fdPos : Nat} {src : Buf}

/-- The loop can start once the blocks are collected. -/
theorem Shaped.can_write (h : Shaped p inode) (fits : inode.iSize + count < 140 * sectorSize)
    {new : Nat → Nat} {g : Growth sb}
    (c : Collected p inode (usedBlocks inode.iSize) (usedBlocks (inode.iSize + count)) new g)
    (fd : Int) :
    CanWrite g.inode g.allBlocks count ⟨g.part, g.inode.iSize, u32 fd, 0, true⟩ where
  books := (h.books.effect_collected c).books
  blocks := c.blocks
  used k hk hk' := by
    have hsize : g.inode.iSize = inode.iSize := by rw [c.inode]
    have hgrown := (h.grown fits c).used k
    rw [slot_setSize] at hgrown
    dsimp only [WriteState.left] at hk hk' hgrown
    rw [hsize, Nat.sub_zero] at hk'
    rw [hsize] at hk
    have hwill : k < usedBlocks (inode.iSize + count) := Nat.lt_succ_of_le hk'
    exact ⟨c.used k hwill (Nat.succ_le_succ hk), hgrown hwill⟩
  fits := by
    have hsize : g.inode.iSize = inode.iSize := by rw [c.inode]
    dsimp only [WriteState.left]
    rw [hsize]
    exact fits
  fdPos := u32_lt _
  whole := .inl rfl

/-- Once the blocks are collected the write comes to its end. -/
theorem Shaped.write_collected (h : Shaped p inode) (fdPos : Nat) (src : Buf)
    (fits : inode.iSize + count < 140 * sectorSize) {r : Bool × Growth sb}
    (hcollect : collectForWrite p inode (usedBlocks inode.iSize)
      (usedBlocks (inode.iSize + count)) = .ok r) :
    ∃ res, writeGrown p inode fdPos src count = .ok res ∧ Written p inode src count res := by
  have hle : usedBlocks inode.iSize ≤ usedBlocks (inode.iSize + count) :=
    usedBlocks_mono (Nat.le_add_right _ _)
  have hwill := usedBlocks_le fits
  obtain ⟨hr, new, c⟩ :=
    collectForWrite_ok h.books.table_start (fun k hk => h.books.sector_lt (by omega))
      (usedBlocks_pos _)
    hle hwill hcollect
  obtain ⟨b, g⟩ := r
  dsimp only at hr c
  subst hr
  have hsize : g.inode.iSize = inode.iSize := by rw [c.inode]
  have hno : g.inode.iNo = inode.iNo := by rw [c.inode]
  obtain ⟨s, hloop, app⟩ :=
    writeLoop_appends src (h.can_write fits c (g.inode.iSize - 1)) (Nat.le_refl _)
  dsimp only [WriteState.left] at hloop app
  rw [Nat.sub_zero] at hloop app
  have hsum : u32 (inode.iSize + count : Nat) = inode.iSize + count := by
    apply u32_of_lt
    unfold sectorSize at fits
    omega
  obtain ⟨p₂, hsync, replaced⟩ :=
    inodeReplace_ok "inode_sync" s.part (n := g.inode.iNo) (hno ▸ h.iNo)
    (inodeBytes { g.inode with iSize := s.iSize }) zeros
  refine ⟨⟨p₂, { g.inode with iSize := s.iSize }, s.fdPos, some s.bytesWritten⟩, ?_, ?_⟩
  · unfold writeGrown
    dsimp only
    have hfirst : u32 (inode.iSize + count) / sectorSize + 1 =
        usedBlocks (inode.iSize + count) := by
      unfold usedBlocks
      rw [← Int.natCast_add, hsum]
    rw [hfirst, assertThat_of hwill, ok_bind]
    change (collectForWrite p inode (usedBlocks inode.iSize) _ >>= _) = _
    rw [hcollect, ok_bind]
    dsimp only
    rw [hloop, ok_bind]
    unfold inodeSync
    rw [hsync, ok_bind]
    rfl
  · have grown := h.grown fits c
    have wrote := writeLoop_effect hloop (h.books.effect_collected c).books c.blocks
    have hend : s.iSize = inode.iSize + count := by rw [app.iSize, hsize]
    have hslots : slot p₂ { g.inode with iSize := s.iSize } = slot g.part g.inode := by
      rw [slot_setSize, wrote.books.slot_replaced replaced, app.slots]
    have books : InOrder p₂ { g.inode with iSize := s.iSize } := by
      have last := wrote.books.effect_sync replaced
      unfold InOrder
      rw [slot_setSize]
      exact last.books
    refine ⟨?_, hend, ?_, ?_, ?_⟩
    · refine grown.congr books ?_ rfl hend
      rw [hslots]
      exact (slot_setSize _ _ _).symm
    · have := app.fdPos
      dsimp only at this ⊢
      rw [this, hsize]
      unfold u32
      omega
    · have := app.bytesWritten
      dsimp only at this ⊢
      rw [this, Nat.zero_add]
    · apply contents_append hend
      intro i hi
      have hk := grown.used _ (div_lt_usedBlocks (Nat.le_of_lt hi))
      rw [slot_setSize] at hk
      -- the inode table is apart from the data
      have hsynced : byteAt p₂ { g.inode with iSize := s.iSize } i = byteAt s.part g.inode i := by
        obtain ⟨W, hw, hm⟩ := replaced.wrote
        refine byteAt_kept hw ?_ fun hmem => ?_
        · rw [hslots, app.slots]
        · rw [app.slots] at hmem
          exact not_table_of_le ((h.books.effect_collected c).books.taken _ hk).1 (hm _ hmem)
      have happ := app.bytes i (by dsimp only; omega)
      dsimp only at happ
      rw [hsynced, happ, hsize]
      by_cases hlt : i < inode.iSize
      · rw [if_pos hlt, if_pos hlt]
        exact h.bytes_collected hle hwill c hlt
      · rw [if_neg hlt, if_neg hlt, Nat.zero_add]

/-! ## The first block -/

theorem Fresh.slot_eq (h : Fresh p inode) (k : Nat) : slot p inode k = 0 := by
  rw [slot_noTable (h.iSectors 12 (by decide))]
  split
  next hk => exact h.iSectors k (by omega)
  next => rfl

theorem Fresh.books (h : Fresh p inode) : InOrder p inode :=
  ⟨fun i _ hi => absurd (h.slot_eq i) hi, fun i hi => absurd (h.slot_eq i) hi⟩

/-- The first block makes a file that was written to, of no bytes. -/
theorem Fresh.shaped (h : Fresh p inode) {b : Nat} (alloc : Allocated p b p') :
    Shaped p' (inode.setSector 0 b) := by
  have eff := h.books.effect_take (k := 0) (by decide) alloc
  have hsize : (inode.setSector 0 b).iSize = 0 := h.iSize
  refine ⟨eff.books, h.iNo, ?_, ?_, ?_, ?_⟩
  · rw [hsize]
    decide
  · rw [hsize]
    intro k hk
    obtain rfl : k = 0 := Nat.lt_one_iff.mp hk
    rw [slot_direct (by decide), setSector_same]
    exact alloc.ne_zero
  · rw [hsize]
    intro k hk hle
    have hne : k ≠ 0 := Nat.ne_of_gt hle
    rw [setSector_other _ _ hne]
    exact h.iSectors k (by omega)
  · rw [hsize, setSector_other _ _ (by decide)]
    refine ⟨fun h => absurd h (by decide), fun hne => ?_⟩
    exact absurd (h.iSectors 12 (by decide)) hne

/-- A regular file. -/
def IsFile (p : Part sb) (inode : Inode) : Prop := Fresh p inode ∨ Shaped p inode

theorem IsFile.books (h : IsFile p inode) : InOrder p inode := by
  rcases h with fresh | shaped
  · exact fresh.books
  · exact shaped.books

theorem IsFile.small (h : IsFile p inode) : inode.iSize < 140 * sectorSize := by
  rcases h with fresh | shaped
  · rw [fresh.iSize]
    decide
  · exact shaped.small

/-- What the first block leaves behind. -/
structure Begun (p : Part sb) (inode : Inode) (p' : Part sb) (inode' : Inode) : Prop where
  shaped : Shaped p' inode'
  iSize : inode'.iSize = inode.iSize
  contents : contents p' inode' = contents p inode
  needed : ∀ count, neededBlocks inode' count + freeCount p ≤
    neededBlocks inode count + freeCount p'

theorem Shaped.begun (h : Shaped p inode) : Begun p inode p inode :=
  ⟨h, rfl, rfl, fun _ => Nat.le_refl _⟩

theorem Fresh.begun (h : Fresh p inode) {b : Nat} (alloc : Allocated p b p') :
    Begun p inode p' (inode.setSector 0 b) where
  shaped := h.shaped alloc
  iSize := rfl
  contents := by
    have hsize : (inode.setSector 0 b).iSize = 0 := h.iSize
    unfold Fs.contents
    rw [hsize, h.iSize]
    rfl
  needed count := by
    have hfree := alloc.freeCount
    have hne := (h.shaped alloc).first
    unfold neededBlocks
    rw [if_neg hne, if_pos (h.iSectors 0 (by decide))]
    change 0 + (usedBlocks (inode.iSize + count) - usedBlocks inode.iSize) + _ + _ ≤ _
    change _ + (if usedBlocks inode.iSize ≤ 12 ∧ 12 < usedBlocks (inode.iSize + count) then 1
      else 0) + _ ≤ _
    omega

theorem Shaped.firstBlock_eq (h : Shaped p inode) : firstBlock p inode = .ok (some (p, inode)) := by
  unfold firstBlock
  rw [if_neg h.first]
  rfl

theorem IsFile.firstBlock_ok (h : IsFile p inode) {r : Option (Part sb × Inode)}
    (hr : firstBlock p inode = .ok r) :
    ∃ p₁ inode₁, r = some (p₁, inode₁) ∧ Begun p inode p₁ inode₁ := by
  rcases h with fresh | shaped
  · unfold firstBlock at hr
    rw [if_pos (fresh.iSectors 0 (by decide))] at hr
    obtain ⟨_, halloc, hr⟩ := bind_eq_ok.mp hr
    obtain ⟨b, p₁, rfl, alloc⟩ := blockBitmapAlloc_ok halloc
    obtain ⟨_, _, hr⟩ := bind_eq_ok.mp hr
    cases hr
    exact ⟨_, _, rfl, fresh.begun alloc⟩
  · rw [shaped.firstBlock_eq] at hr
    cases hr
    exact ⟨p, inode, rfl, shaped.begun⟩

/-- With a free block the first block is there; it is not the root's, which is taken. -/
theorem IsFile.firstBlock_total (h : IsFile p inode) (free : neededBlocks inode 0 ≤ freeCount p) :
    ∃ r, firstBlock p inode = .ok r := by
  rcases h with fresh | shaped
  · have h0 := fresh.iSectors 0 (by decide)
    have hfree : 0 < freeCount p := by
      unfold neededBlocks at free
      rw [if_pos h0] at free
      omega
    obtain ⟨b, p₁, halloc, alloc⟩ := blockBitmapAlloc_total hfree
    have hbit : blockBit sb b ≠ 0 := by
      rw [blockBit_eq alloc.self]
      intro heq
      have hstart := alloc.start
      apply alloc.free
      rw [show b = sb.dataStartLba by omega]
      exact fresh.root
    unfold firstBlock
    rw [if_pos h0, halloc, ok_bind]
    dsimp only
    rw [assertThat_of hbit]
    exact ⟨_, rfl⟩
  · exact ⟨_, shaped.firstBlock_eq⟩

theorem neededBlocks_zero_le (inode : Inode) (count : Nat) :
    neededBlocks inode 0 ≤ neededBlocks inode count := by
  have hno : ¬ (usedBlocks inode.iSize ≤ 12 ∧ 12 < usedBlocks inode.iSize) := by omega
  unfold neededBlocks
  rw [Nat.add_zero, if_neg hno]
  omega

/-! ## `file_write` as a whole -/

theorem Written.of_begun {p₁ : Part sb} {inode₁ : Inode} {r : FileResult sb Nat}
    (b : Begun p inode p₁ inode₁) (w : Written p₁ inode₁ src count r) :
    Written p inode src count r where
  shaped := w.shaped
  iSize := by rw [w.iSize, b.iSize]
  fdPos := by rw [w.fdPos, b.iSize]
  ret := w.ret
  contents := by rw [w.contents, b.contents]

theorem fileWrite_admitted (h : u32 (inode.iSize + count) ≤ 140 * sectorSize) :
    fileWrite true p inode fdPos src count =
    (firstBlock p inode >>= fun r => match r with
      | none => return ⟨p, inode, fdPos, none⟩
      | some (p, inode) => writeGrown p inode fdPos src count) := by
  unfold fileWrite
  exact (if_neg (Nat.not_lt.mpr h)).trans (if_neg Bool.noConfusion)

/-- A write that stays below the largest size appends. -/
theorem IsFile.write_ok (h : IsFile p inode) (fits : inode.iSize + count < 140 * sectorSize)
    {r : FileResult sb Nat} (hr : fileWrite true p inode fdPos src count = .ok r) :
    Written p inode src count r := by
  have hsum : u32 (inode.iSize + count : Nat) = inode.iSize + count := by
    apply u32_of_lt
    unfold sectorSize at fits
    omega
  rw [Int.natCast_add] at hsum
  rw [fileWrite_admitted (by omega)] at hr
  obtain ⟨_, hfirst, hr⟩ := bind_eq_ok.mp hr
  obtain ⟨p₁, inode₁, rfl, begun⟩ := h.firstBlock_ok hfirst
  have hsize := begun.iSize
  dsimp only at hr
  have hcollect : ∃ c, collectForWrite p₁ inode₁ (usedBlocks inode₁.iSize)
      (usedBlocks (inode₁.iSize + count)) = .ok c := by
    unfold writeGrown at hr
    dsimp only at hr
    obtain ⟨_, _, hr⟩ := bind_eq_ok.mp hr
    obtain ⟨c, hc, _⟩ := bind_eq_ok.mp hr
    rw [hsize, hsum, ← hsize] at hc
    exact ⟨c, hc⟩
  obtain ⟨c, hcollect⟩ := hcollect
  obtain ⟨res, hres, written⟩ := begun.shaped.write_collected fdPos src (hsize ▸ fits) hcollect
  rw [hres] at hr
  cases hr
  exact written.of_begun begun

/-- With blocks enough it comes to its end. -/
theorem IsFile.write_total (h : IsFile p inode) (fdPos : Nat) (src : Buf)
    (fits : inode.iSize + count < 140 * sectorSize)
    (free : neededBlocks inode count ≤ freeCount p) :
    ∃ r, fileWrite true p inode fdPos src count = .ok r ∧ Written p inode src count r := by
  have hsum : u32 (inode.iSize + count : Nat) = inode.iSize + count := by
    apply u32_of_lt
    unfold sectorSize at fits
    omega
  rw [Int.natCast_add] at hsum
  obtain ⟨r, hfirst⟩ := h.firstBlock_total (Nat.le_trans (neededBlocks_zero_le inode count) free)
  obtain ⟨p₁, inode₁, rfl, begun⟩ := h.firstBlock_ok hfirst
  have hsize := begun.iSize
  have hneed := begun.needed count
  obtain ⟨c, hcollect⟩ := begun.shaped.collect_total (hsize ▸ fits) (by omega)
  obtain ⟨res, hres, written⟩ := begun.shaped.write_collected fdPos src (hsize ▸ fits) hcollect
  refine ⟨res, ?_, written.of_begun begun⟩
  rw [fileWrite_admitted (by omega), hfirst, ok_bind]
  exact hres

/-! ## What every answer of `file_write` says -/

/-- A round that comes to its end adds its turn to the numbers, whatever the blocks are. -/
theorem writeLoop_adds {allBlocks : Blocks} {fuel : Nat} {s s' : WriteState sb}
    (hle : s.bytesWritten ≤ count) (hfuel : count ≤ s.bytesWritten + fuel)
    (hsize : s.iSize < 2 ^ 32) (hpos : s.fdPos < 2 ^ 32)
    (h : writeLoop allBlocks src count fuel s = .ok s') :
    s'.bytesWritten = count ∧ s'.iSize = u32 (s.iSize + s.left count) ∧
    s'.fdPos = u32 (s.fdPos + s.left count) := by
  induction fuel generalizing s with
  | zero =>
    cases h
    unfold WriteState.left u32
    omega
  | succ fuel ih =>
    unfold writeLoop at h
    by_cases hlt : s.bytesWritten < count
    · rw [if_pos hlt] at h
      obtain ⟨s₁, hchunk, h⟩ := bind_eq_ok.mp h
      have hnext : s₁.bytesWritten = s.bytesWritten + turn sectorSize s.iSize (s.left count) ∧
          s₁.iSize = u32 (s.iSize + turn sectorSize s.iSize (s.left count)) ∧
          s₁.fdPos = u32 (s.fdPos + turn sectorSize s.iSize (s.left count)) := by
        unfold writeChunk at hchunk
        dsimp only at hchunk
        split at hchunk
        · cases hchunk
          exact ⟨rfl, rfl, rfl⟩
        · cases hchunk
      have hturn := turn_le sectorSize s.iSize (s.left count)
      have hone : 0 < turn sectorSize s.iSize (s.left count) := by
        apply turn_pos sectorSize_pos
        unfold WriteState.left
        omega
      revert hnext hturn hone
      generalize turn sectorSize s.iSize (s.left count) = n
      intro hnext hturn hone
      obtain ⟨hbytes, hsize₁, hpos₁⟩ := hnext
      unfold WriteState.left at hturn ih ⊢
      obtain ⟨e₁, e₂, e₃⟩ := ih (by omega) (by omega) (hsize₁ ▸ u32_lt _) (hpos₁ ▸ u32_lt _) h
      refine ⟨e₁, ?_, ?_⟩
      · rw [e₂, hsize₁]
        unfold u32
        omega
      · rw [e₃, hpos₁]
        unfold u32
        omega
    · rw [if_neg hlt] at h
      cases h
      unfold WriteState.left u32
      omega

/-- AN ANSWER OF `file_write`, for any inode: −1 with nothing changed, or the number of bytes and a
file larger by it that ends below the largest size. -/
inductive WriteAnswer (heap : Bool) (p : Part sb) (inode : Inode) (fdPos count : Nat) :
    FileResult sb Nat → Prop
  | failed : heap = false ∨ 140 * sectorSize < u32 (inode.iSize + count) →
      WriteAnswer heap p inode fdPos count ⟨p, inode, fdPos, none⟩
  | wrote {r : FileResult sb Nat} : inode.iSize + count < 140 * sectorSize →
      r.inode.iSize = inode.iSize + count →
      r.fdPos = u32 (inode.iSize + count - 1 : Int) → r.ret = some count →
      WriteAnswer heap p inode fdPos count r

theorem firstBlock_iSize {r : Option (Part sb × Inode)} (h : firstBlock p inode = .ok r) :
    ∃ p₁ inode₁, r = some (p₁, inode₁) ∧ inode₁.iSize = inode.iSize ∧ inode₁.iNo = inode.iNo := by
  unfold firstBlock at h
  split at h
  · obtain ⟨_, halloc, h⟩ := bind_eq_ok.mp h
    obtain ⟨b, p₁, rfl, -⟩ := blockBitmapAlloc_ok halloc
    obtain ⟨_, _, h⟩ := bind_eq_ok.mp h
    cases h
    exact ⟨_, _, rfl, rfl, rfl⟩
  · cases h
    exact ⟨_, _, rfl, rfl, rfl⟩

theorem fileWrite_answer {heap : Bool} (hsize : inode.iSize < 2 ^ 32) {r : FileResult sb Nat}
    (h : fileWrite heap p inode fdPos src count = .ok r) :
    WriteAnswer heap p inode fdPos count r := by
  unfold fileWrite at h
  split at h
  next hbig =>
    cases h
    exact .failed (.inr hbig)
  split at h
  next hno =>
    cases h
    exact .failed (.inl hno)
  obtain ⟨_, hfirst, h⟩ := bind_eq_ok.mp h
  obtain ⟨p₁, inode₁, rfl, hsize₁, -⟩ := firstBlock_iSize hfirst
  dsimp only at h
  unfold writeGrown at h
  dsimp only at h
  obtain ⟨_, hwill, h⟩ := bind_eq_ok.mp h
  obtain ⟨⟨b, g⟩, hcollect, h⟩ := bind_eq_ok.mp h
  have hrest := collectForWrite_rest hcollect
  obtain rfl : b = true := hrest.1
  dsimp only at h
  obtain ⟨s, hloop, h⟩ := bind_eq_ok.mp h
  obtain ⟨p₂, _, h⟩ := bind_eq_ok.mp h
  cases h
  have hg : g.inode.iSize = inode.iSize := by rw [hrest.2.2, hsize₁]
  have hfits := writeLoop_size (Nat.zero_le _) (by omega) hloop
  have hadds := writeLoop_adds (Nat.zero_le _) (by omega) (hg ▸ hsize) (u32_lt _) hloop
  have hwill' := assertThat_ok hwill
  unfold WriteState.left at hadds
  dsimp only at hfits hadds hwill'
  rw [hg] at hfits hadds
  rw [hsize₁] at hwill'
  obtain ⟨e₁, e₂, e₃⟩ := hadds
  have hbound : inode.iSize + count < 140 * sectorSize := by
    unfold u32 sectorSize at hwill'
    unfold sectorSize at hfits ⊢
    omega
  refine .wrote hbound ?_ ?_ ?_
  · dsimp only
    rw [e₂]
    unfold u32
    unfold sectorSize at hbound
    omega
  · dsimp only
    rw [e₃]
    unfold u32
    omega
  · dsimp only
    rw [e₁]

end SeekingOs.Fs
