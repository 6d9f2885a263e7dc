import SeekingOs.Fs.FileRuns
import SeekingOs.Fs.OneWriter

/-!
# The offset stays inside the file

Descriptors of regular files, several of them on one inode: a write through one lets the file grow
under the others. `file_write` sets `fd_pos` to the size minus one before it adds the bytes, which
comes out at a byte of the file unless there is none: a write of no bytes to an empty file.
-/

namespace SeekingOs.Fs

open Lib Lib.Machine

variable {sb : SuperBlock}

/-- A used slot of `file_table`. -/
structure Slot where
  fdInode : Nat
  fdPos : Nat
  fdFlag : Nat

/-- The mounted volume and the used slots of `file_table`. -/
structure OpenSlots (sb : SuperBlock) where
  vol : Volume sb
  slots : Nat → Option Slot

/-- The calls, with the slot that the descriptor leads to. What `file_create` leaves on the disk is
`p`. -/
inductive OffsetCall (sb : SuperBlock) where
  | open (g inodeNo flag : Nat)
  | create (g inodeNo flag : Nat) (p : Part sb)
  | write (g : Nat) (heap : Bool) (src : Buf) (count : Nat)
  | read (g : Nat) (heap : Bool) (buf : Buf) (count : Nat)
  | lseek (g : Nat) (offset : Int) (whence : Nat)

/-- The answer of a call on a slot, `none` for −1. -/
inductive OffsetReply where
  | opened
  | ret (r : Option Nat)
  deriving DecidableEq

/-- The slot that `sys_open` fills is free, and the numbers are of their types. -/
def offsetEnabled (s : OpenSlots sb) : OffsetCall sb → Prop
  | .open g _ _ => s.slots g = none
  | .create g inodeNo _ _ => s.slots g = none ∧ s.vol.openInodes inodeNo = none
  | .write g _ _ count => s.slots g ≠ none ∧ count < 2 ^ 32
  | .read g _ _ count => s.slots g ≠ none ∧ count < 2 ^ 32
  | .lseek g offset whence => s.slots g ≠ none ∧ -2 ^ 31 ≤ offset ∧ offset < 2 ^ 31 ∧ whence < 2 ^ 8

/-- `file_table[g].fd_pos = fdPos` -/
def OpenSlots.seek (s : OpenSlots sb) (g : Nat) (slot : Slot) (fdPos : Nat) : OpenSlots sb :=
  { s with slots := Function.update s.slots g (some { slot with fdPos := fdPos }) }

/-- What a call does. `sys_open` leaves the slot filled whichever way it answers once it has found
the file. -/
def offsetStep (s : OpenSlots sb) : OffsetCall sb → Except Fault (OpenSlots sb × OffsetReply)
  | .open g inodeNo flag => do
    let inode ← s.vol.inodeOpen inodeNo
    return (⟨s.vol.put inodeNo s.vol.part inode,
      Function.update s.slots g (some ⟨inodeNo, 0, flag⟩)⟩, .opened)
  | .create g inodeNo flag p =>
    let inode := { inodeInit inodeNo with iOpenCnts := 1 }
    return (⟨s.vol.put inodeNo p inode, Function.update s.slots g (some ⟨inodeNo, 0, flag⟩)⟩,
      .opened)
  | .write g heap src count =>
    match s.slots g with
    | none => return (s, .ret none)
    | some slot =>
      if Writing slot.fdFlag then do
        let r ← fileWrite heap s.vol.part (s.vol.inode slot.fdInode) slot.fdPos src count
        return ({ s with vol := s.vol.put slot.fdInode r.part r.inode }.seek g slot r.fdPos,
          .ret r.ret)
      else return (s, .ret none)
  | .read g heap buf count =>
    match s.slots g with
    | none => return (s, .ret none)
    | some slot => do
      let r ← fileRead heap s.vol.part (s.vol.inode slot.fdInode) slot.fdPos buf count
      return (s.seek g slot r.fdPos, .ret r.ret)
  | .lseek g offset whence =>
    match s.slots g with
    | none => return (s, .ret none)
    | some slot => do
      let (fdPos, ret) ← sysLseek (s.vol.inode slot.fdInode) slot.fdPos offset whence
      return (s.seek g slot fdPos, .ret ret)

/-- `sys_open`, `sys_write`, `sys_read` and `sys_lseek` on regular files. -/
def offsetMachine (sb : SuperBlock) : Machine (OpenSlots sb) (OffsetCall sb) OffsetReply Fault where
  enabled := offsetEnabled
  step := offsetStep

/-- Every `fd_pos` is inside its file. -/
def Inside (s : OpenSlots sb) : Prop :=
  ∀ g slot, s.slots g = some slot → slot.fdPos ≤ (s.vol.inode slot.fdInode).iSize

/-- The call is no write of no bytes to an empty file that `file_write` goes through with. -/
def WritesSome (s : OpenSlots sb) : OffsetCall sb → Prop
  | .write g heap _ count => ∀ slot, s.slots g = some slot →
      ¬ (heap = true ∧ Writing slot.fdFlag ∧ count = 0 ∧ (s.vol.inode slot.fdInode).iSize = 0)
  | _ => True

/-! ## The steps -/

/-- The files of the slots are open; sizes are 32-bit numbers. -/
structure SlotsOpen (s : OpenSlots sb) : Prop where
  opened : ∀ g slot, s.slots g = some slot → ∃ inode, s.vol.openInodes slot.fdInode = some inode
  size : ∀ n inode, s.vol.openInodes n = some inode → inode.iSize < 2 ^ 32

variable {s s' : OpenSlots sb} {g : Nat} {slot : Slot} {inode : Inode} {p : Part sb} {fdPos : Nat}

theorem SlotsOpen.inode_lt (h : SlotsOpen s) (n : Nat) : (s.vol.inode n).iSize < 2 ^ 32 := by
  cases hopen : s.vol.openInodes n with
  | none =>
    rw [Volume.inode_closed hopen]
    exact rd32_lt _ _
  | some inode =>
    rw [Volume.inode_open hopen]
    exact h.size n inode hopen

/-- An inode is put into `open_inodes` and a slot is set. -/
theorem SlotsOpen.put (h : SlotsOpen s) (slot : Slot) (hsize : inode.iSize < 2 ^ 32) :
    SlotsOpen ⟨s.vol.put slot.fdInode p inode, Function.update s.slots g (some slot)⟩ where
  opened g' slot' hs' := by
    have known : slot'.fdInode = slot.fdInode ∨ ∃ i, s.vol.openInodes slot'.fdInode = some i := by
      dsimp only at hs'
      by_cases hg : g' = g
      · subst hg
        rw [Function.update_self] at hs'
        cases hs'
        exact .inl rfl
      · rw [Function.update_of_ne hg] at hs'
        exact .inr (h.opened g' slot' hs')
    by_cases hn : slot'.fdInode = slot.fdInode
    · rw [hn]
      exact ⟨inode, Volume.put_self⟩
    · obtain ⟨i, hi⟩ := known.resolve_left hn
      exact ⟨i, (Volume.put_other hn).trans hi⟩
  size n i hi := by
    dsimp only at hi
    by_cases hn : n = slot.fdInode
    · subst hn
      rw [Volume.put_self] at hi
      cases hi
      exact hsize
    · rw [Volume.put_other hn] at hi
      exact h.size n i hi

theorem SlotsOpen.seek (h : SlotsOpen s) (hs : s.slots g = some slot) :
    SlotsOpen (s.seek g slot fdPos) where
  opened g' slot' hs' := by
    unfold OpenSlots.seek at hs'
    dsimp only at hs'
    by_cases hg : g' = g
    · subst hg
      rw [Function.update_self] at hs'
      cases hs'
      exact h.opened g' slot hs
    · rw [Function.update_of_ne hg] at hs'
      exact h.opened g' slot' hs'
  size := h.size

/-- Setting one offset, in a file that has not shrunk, keeps the others inside. -/
theorem inside_put (slot : Slot) (before : Inside s) (open' : SlotsOpen s)
    (hgrow : (s.vol.inode slot.fdInode).iSize ≤ inode.iSize) :
    Inside ⟨s.vol.put slot.fdInode p inode, Function.update s.slots g (some slot)⟩ ↔
    slot.fdPos ≤ inode.iSize := by
  have self : (s.vol.put slot.fdInode p inode).inode slot.fdInode = inode :=
    Volume.inode_open Volume.put_self
  constructor
  · intro h
    have := h g slot (Function.update_self _ _ _)
    rwa [self] at this
  · intro h g' slot' hs'
    dsimp only at hs' ⊢
    by_cases hg : g' = g
    · subst hg
      rw [Function.update_self] at hs'
      cases hs'
      rw [self]
      exact h
    · rw [Function.update_of_ne hg] at hs'
      have hold := before g' slot' hs'
      by_cases hn : slot'.fdInode = slot.fdInode
      · rw [hn] at hold ⊢
        rw [self]
        exact Nat.le_trans hold hgrow
      · obtain ⟨i, hi⟩ := open'.opened g' slot' hs'
        rw [Volume.inode_open hi] at hold
        rw [Volume.inode_open ((Volume.put_other hn).trans hi)]
        exact hold

theorem inside_seek (before : Inside s) :
    Inside (s.seek g slot fdPos) ↔ fdPos ≤ (s.vol.inode slot.fdInode).iSize := by
  constructor
  · intro h
    exact h g { slot with fdPos := fdPos } (Function.update_self _ _ _)
  · intro h g' slot' hs'
    unfold OpenSlots.seek at hs' ⊢
    dsimp only at hs' ⊢
    by_cases hg : g' = g
    · subst hg
      rw [Function.update_self] at hs'
      cases hs'
      exact h
    · rw [Function.update_of_ne hg] at hs'
      exact before g' slot' hs'

theorem Volume.inodeOpen_iSize {v : Volume sb} {n : Nat} (h : v.inodeOpen n = .ok inode) :
    inode.iSize = (v.inode n).iSize := by
  rw [Volume.inodeOpen_ok h]

variable {e : OffsetCall sb} {o : OffsetReply}

theorem offsetStep_opens (h : SlotsOpen s) (st : offsetStep s e = .ok (s', o)) : SlotsOpen s' := by
  cases e with
  | «open» g n flag =>
    obtain ⟨inode, hinode, st⟩ := bind_eq_ok.mp st
    cases st
    apply h.put ⟨n, 0, flag⟩
    rw [Volume.inodeOpen_iSize hinode]
    exact h.inode_lt n
  | create g n flag p =>
    cases st
    exact h.put ⟨n, 0, flag⟩ (show 0 < 2 ^ 32 by decide)
  | write g heap src count =>
    unfold offsetStep at st
    dsimp only at st
    cases hs : s.slots g with
    | none =>
      rw [hs] at st
      cases st
      exact h
    | some slot =>
      rw [hs] at st
      dsimp only at st
      split at st
      · obtain ⟨r, hr, st⟩ := bind_eq_ok.mp st
        cases st
        have hlt := h.inode_lt slot.fdInode
        apply h.put { slot with fdPos := r.fdPos }
        cases fileWrite_answer hlt hr with
        | failed _ => exact hlt
        | wrote fits hsize _ _ =>
          rw [hsize]
          unfold sectorSize at fits
          omega
      · cases st
        exact h
  | read g heap buf count =>
    unfold offsetStep at st
    dsimp only at st
    cases hs : s.slots g with
    | none =>
      rw [hs] at st
      cases st
      exact h
    | some slot =>
      rw [hs] at st
      obtain ⟨r, hr, st⟩ := bind_eq_ok.mp st
      cases st
      exact h.seek hs
  | lseek g offset whence =>
    unfold offsetStep at st
    dsimp only at st
    cases hs : s.slots g with
    | none =>
      rw [hs] at st
      cases st
      exact h
    | some slot =>
      rw [hs] at st
      obtain ⟨⟨fdPos, ret⟩, hr, st⟩ := bind_eq_ok.mp st
      cases st
      exact h.seek hs

theorem writesSome_write {heap : Bool} {src : Buf} {count : Nat} (hs : s.slots g = some slot) :
    WritesSome s (.write g heap src count) ↔
      ¬ (heap = true ∧ Writing slot.fdFlag ∧ count = 0 ∧ (s.vol.inode slot.fdInode).iSize = 0) := by
  unfold WritesSome
  dsimp only
  rw [hs]
  constructor
  · intro h
    exact h slot rfl
  · intro h slot' heq
    cases heq
    exact h

/-- The new offset is inside the larger file unless both are nothing. -/
theorem write_inside {heap : Bool} {src : Buf} {count : Nat} {r : FileResult sb Nat}
    (h : SlotsOpen s) (inside : Inside s) (hs : s.slots g = some slot)
    (hwriting : Writing slot.fdFlag)
    (hr : fileWrite heap s.vol.part (s.vol.inode slot.fdInode) slot.fdPos src count = .ok r) :
    Inside ⟨s.vol.put slot.fdInode r.part r.inode,
      Function.update s.slots g (some { slot with fdPos := r.fdPos })⟩ ↔
      ¬ (heap = true ∧ Writing slot.fdFlag ∧ count = 0 ∧ (s.vol.inode slot.fdInode).iSize = 0) := by
  have hlt := h.inode_lt slot.fdInode
  have hpos := inside g slot hs
  cases fileWrite_answer hlt hr with
  | failed hwhy =>
    rw [inside_put { slot with fdPos := slot.fdPos } inside h (Nat.le_refl _)]
    refine ⟨fun _ => ?_, fun _ => hpos⟩
    rintro ⟨rfl, -, rfl, hzero⟩
    rw [hzero] at hwhy
    revert hwhy
    decide
  | wrote fits hsize hfd hret =>
    rw [inside_put { slot with fdPos := r.fdPos } inside h
      (by rw [hsize]; exact Nat.le_add_right _ _)]
    dsimp only
    rw [hfd, hsize]
    unfold sectorSize at fits
    unfold u32
    constructor
    · rintro hle ⟨-, -, rfl, hzero⟩
      rw [hzero] at hle
      revert hle
      decide
    · intro hsome
      have hheap : heap = true := by
        cases heap with
        | false =>
          rw [fileWrite_noHeap] at hr
          cases hr
          cases hret
        | true => rfl
      by_cases hzero : (s.vol.inode slot.fdInode).iSize + count = 0
      · exact absurd ⟨hheap, hwriting, by omega, by omega⟩ hsome
      · omega

/-- THE STEP LEMMA. A call keeps the offsets inside exactly when it writes something or writes to a
file that is not empty. -/
theorem offsetStep_inside (h : SlotsOpen s) (inside : Inside s) (en : offsetEnabled s e)
    (st : offsetStep s e = .ok (s', o)) : Inside s' ↔ WritesSome s e := by
  cases e with
  | «open» g n flag =>
    obtain ⟨inode, hinode, st⟩ := bind_eq_ok.mp st
    cases st
    rw [inside_put ⟨n, 0, flag⟩ inside h (Nat.le_of_eq (Volume.inodeOpen_iSize hinode).symm)]
    exact ⟨fun _ => trivial, fun _ => Nat.zero_le _⟩
  | create g n flag p =>
    cases st
    -- no slot leads to the new inode yet
    refine ⟨fun _ => trivial, fun _ => ?_⟩
    intro g' slot' hs'
    dsimp only at hs' ⊢
    by_cases hg : g' = g
    · subst hg
      rw [Function.update_self] at hs'
      cases hs'
      exact Nat.zero_le _
    · rw [Function.update_of_ne hg] at hs'
      obtain ⟨i, hi⟩ := h.opened g' slot' hs'
      have hn : slot'.fdInode ≠ n := by
        rintro rfl
        rw [en.2] at hi
        cases hi
      have hold := inside g' slot' hs'
      rw [Volume.inode_open hi] at hold
      rw [Volume.inode_open ((Volume.put_other hn).trans hi)]
      exact hold
  | write g heap src count =>
    unfold offsetStep at st
    dsimp only at st
    cases hs : s.slots g with
    | none => exact absurd hs en.1
    | some slot =>
      rw [writesSome_write hs]
      rw [hs] at st
      dsimp only at st
      split at st
      next hwriting =>
        obtain ⟨r, hr, st⟩ := bind_eq_ok.mp st
        cases st
        exact write_inside h inside hs hwriting hr
      next hno =>
        cases st
        exact ⟨fun _ h => hno h.2.1, fun _ => inside⟩
  | read g heap buf count =>
    unfold offsetStep at st
    dsimp only at st
    cases hs : s.slots g with
    | none => exact absurd hs en.1
    | some slot =>
      rw [hs] at st
      obtain ⟨r, hr, st⟩ := bind_eq_ok.mp st
      cases st
      rw [inside_seek inside]
      refine ⟨fun _ => trivial, fun _ => ?_⟩
      cases fileRead_answer (inside g slot hs) (h.inode_lt _) en.2 hr with
      | failed _ => exact inside g slot hs
      | read _ _ _ _ hpos =>
        have := inside g slot hs
        rw [hpos]
        unfold readable
        omega
  | lseek g offset whence =>
    unfold offsetStep at st
    dsimp only at st
    cases hs : s.slots g with
    | none => exact absurd hs en.1
    | some slot =>
      rw [hs] at st
      obtain ⟨⟨fdPos, ret⟩, hr, st⟩ := bind_eq_ok.mp st
      cases st
      rw [inside_seek inside]
      refine ⟨fun _ => trivial, fun _ => ?_⟩
      rcases sysLseek_answer hr with hans | ⟨newPos, hans, hle⟩
      · cases hans
        exact inside g slot hs
      · cases hans
        exact lt_of_le_toSigned hle (h.inode_lt _)

/-- A `sys_lseek` that answers −1 changes nothing. -/
theorem lseek_failed {offset : Int} {whence : Nat}
    (st : offsetStep s (.lseek g offset whence) = .ok (s', .ret none)) : s' = s := by
  unfold offsetStep at st
  dsimp only at st
  cases hs : s.slots g with
  | none =>
    rw [hs] at st
    cases st
    rfl
  | some slot =>
    rw [hs] at st
    obtain ⟨⟨fdPos, ret⟩, hr, st⟩ := bind_eq_ok.mp st
    rcases sysLseek_answer hr with hans | ⟨newPos, hans, -⟩
    · cases hans
      cases st
      unfold OpenSlots.seek
      rw [show ({ slot with fdPos := slot.fdPos } : Slot) = slot from rfl, ← hs,
        Function.update_eq_self]
    · cases hans
      cases st

/-- No slot is used yet. -/
structure NoneUsed (s : OpenSlots sb) : Prop where
  slots : ∀ g, s.slots g = none
  size : ∀ n inode, s.vol.openInodes n = some inode → inode.iSize < 2 ^ 32

/-- WHERE THE OFFSETS ARE. In a run from a state without used slots every offset stays inside its
file exactly when no step of the run writes nothing to an empty file; and a `sys_lseek` that answers
−1 leaves all offsets. -/
theorem offsets_inside {s₀ : OpenSlots sb}
    {tr : List (Entry (OpenSlots sb) (OffsetCall sb) OffsetReply)} (start : NoneUsed s₀)
    (path : (offsetMachine sb).Path s₀ tr s) :
    (Always Inside tr s ↔ Meets WritesSome tr) ∧
      ∀ g offset whence s', offsetStep s (.lseek g offset whence) = .ok (s', .ret none) →
        s' = s := by
  have none' {g : Nat} {slot : Slot} (h : s₀.slots g = some slot) : False := by
    rw [start.slots g] at h
    cases h
  have base : SlotsOpen s₀ := ⟨fun g slot h => (none' h).elim, start.size⟩
  constructor
  · apply path.always_iff base (fun g slot h => (none' h).elim)
    · intro s e s' o h _ st
      exact offsetStep_opens h st
    · intro s e s' o h inside en st
      exact offsetStep_inside h inside en st
  · intro g offset whence s' st
    exact lseek_failed st

/-! ## The small disk -/

/-- The formatted disk, and no slot used. -/
def formattedSlots : OpenSlots smallDisk := ⟨⟨formattedPart, fun _ => none⟩, fun _ => none⟩

theorem formattedSlots_noneUsed : NoneUsed formattedSlots := ⟨fun _ => rfl, fun _ _ h => nomatch h⟩

/-- The file 1 is created for writing and written to. -/
theorem formattedSlots_run (count : Nat) (hcount : count < 71680) :
    ∃ r s tr, Written formattedPart (createdFile formattedPart 1).inode zeros count r ∧
      (offsetMachine smallDisk).Path formattedSlots tr s ∧ s.slots 3 = some ⟨1, r.fdPos, oWronly⟩ ∧
      s.vol.inode 1 = r.inode ∧
      tr.map (·.event) = [.create 3 1 oWronly formattedPart, .write 3 true zeros count] := by
  obtain ⟨s₁, hs₁⟩ : ∃ s₁ : OpenSlots smallDisk,
      s₁ = ⟨formattedSlots.vol.put 1 formattedPart (createdFile formattedPart 1).inode,
        Function.update formattedSlots.slots 3 (some ⟨1, 0, oWronly⟩)⟩ := ⟨_, rfl⟩
  have file : IsFile formattedPart (createdFile formattedPart 1).inode :=
    .inl (createdFile_fresh (by decide +kernel) formatted_root)
  have hneeded : neededBlocks (createdFile formattedPart 1).inode count ≤
      freeCount formattedPart := by
    refine Nat.le_trans ?_ formatted_freeCount
    have hused := usedBlocks_le (n := 0 + count) (by unfold sectorSize; omega)
    unfold neededBlocks
    change (if (0 : Nat) = 0 then 1 else 0) + (usedBlocks (0 + count) - usedBlocks 0) + _ ≤ 3376
    split <;> split <;> omega
  obtain ⟨r, hr, written⟩ := @IsFile.write_total _ _ _ count file 0 zeros
    (show 0 + count < 140 * 512 by omega) hneeded
  have first : (offsetMachine smallDisk).Path formattedSlots
      ([] ++ [⟨formattedSlots, .create 3 1 oWronly formattedPart, .opened⟩]) s₁ := by
    apply Path.step .start
    · exact ⟨rfl, rfl⟩
    · rw [hs₁]
      rfl
  have hslot : s₁.slots 3 = some ⟨1, 0, oWronly⟩ := by
    rw [hs₁]
    rfl
  refine ⟨r, ⟨s₁.vol.put 1 r.part r.inode, Function.update s₁.slots 3 (some ⟨1, r.fdPos, oWronly⟩)⟩,
    _, written,
    first.step (e := .write 3 true zeros count) (o := .ret r.ret) ?_ ?_, rfl,
    Volume.inode_open Volume.put_self, rfl⟩
  · refine ⟨?_, by omega⟩
    rw [hslot]
    exact Option.some_ne_none _
  · change offsetStep s₁ (.write 3 true zeros count) = .ok (_, .ret r.ret)
    unfold offsetStep
    dsimp only
    rw [hslot]
    dsimp only
    rw [if_pos (by decide)]
    have hinode : s₁.vol.inode 1 = (createdFile formattedPart 1).inode := by
      rw [hs₁]
      rfl
    have hpart : s₁.vol.part = formattedPart := by
      rw [hs₁]
      rfl
    rw [hinode, hpart, hr]
    rfl

/-- The theorem at such a run: after ten bytes all offsets are inside. -/
theorem offsets_inside_formatted : ∃ (s : OpenSlots smallDisk)
    (tr : List (Entry (OpenSlots smallDisk) (OffsetCall smallDisk) OffsetReply)), tr.length = 2 ∧
    Always Inside tr s := by
  obtain ⟨r, s, tr, -, path, -, -, hevents⟩ := formattedSlots_run 10 (by decide)
  refine ⟨s, tr, ?_, (offsets_inside formattedSlots_noneUsed path).1.mpr ?_⟩
  · have := congrArg List.length hevents
    rwa [List.length_map] at this
  · intro entry hmem
    have hevent : entry.event ∈ tr.map (·.event) := List.mem_map_of_mem hmem
    rw [hevents] at hevent
    rcases List.mem_cons.mp hevent with h | h
    · rw [h]
      trivial
    · rw [List.mem_singleton.mp h]
      rintro slot - ⟨-, -, h, -⟩
      cases h

/-- After a write of no bytes to the new file its offset is 4294967295. -/
theorem empty_write_escapes : ¬ ∀ (s : OpenSlots smallDisk)
    (tr : List (Entry (OpenSlots smallDisk) (OffsetCall smallDisk) OffsetReply)),
    (offsetMachine smallDisk).Path formattedSlots tr s → Always Inside tr s := by
  intro claim
  obtain ⟨r, s, tr, written, path, hslot, hinode, -⟩ := formattedSlots_run 0 (by decide)
  have hle := (claim s tr path).2 3 _ hslot
  have hpos : r.fdPos = 4294967295 := written.fdPos
  have hsize : r.inode.iSize = 0 := written.iSize
  dsimp only at hle
  rw [hinode, hpos, hsize] at hle
  omega

end SeekingOs.Fs
