import Mathlib.Data.Nat.Count
import Mathlib.Order.Interval.Finset.Nat
import SeekingOs.Userprog.AddressSpace

/-!
# `fork` copies the address space

`Copying` is the invariant of the loops of `copy_body_stack3`: the pages that have been passed are
mapped in the child's directory, with the words of the parent's pages; no other page has moved, and
but for the buffer no page that was there has changed.
-/

namespace SeekingOs

open Lib

namespace Memory

variable {m m' m₁ : Memory} {dirs : List Nat}
  {c d i j o v w f g t n k buf childPgdir parentPgdir bufPage : Nat} {pf : PoolFlags}
  {S T : Nat → Prop} {b : Bitmap}

/-! ## One page -/

/-- What the copy works with: the running directory is the parent's, and the two directories and the
buffer are pages of the kernel. -/
structure Workplace (m : Memory) (dirs : List Nat) (c buf childPgdir parentPgdir bufPage : Nat) :
    Prop where
  ordered : m.Ordered dirs
  run : m.cr3 ∈ dirs
  child : c ∈ dirs
  apart : m.cr3 ≠ c
  childPage : m.Addr dirs .kernel childPgdir ∧ m.pageAt kernelDir childPgdir = some c
  parentPage : m.Addr dirs .kernel parentPgdir ∧ m.pageAt kernelDir parentPgdir = some m.cr3
  buffer : m.Addr dirs .kernel bufPage ∧ m.pageAt kernelDir bufPage = some buf
  notDir : buf ∉ dirs

/-- The buffer is no page of a process. -/
theorem Workplace.user (wp : Workplace m dirs c buf childPgdir parentPgdir bufPage) (hd : d ∈ dirs)
    (hw : w < kernelStart) (h : m.pageAt d w = some g) : g ∉ dirs ∧ g ≠ buf := by
  refine ⟨wp.ordered.user_not_dir hd hw h, ?_⟩
  rintro rfl
  have valid : m.Valid dirs (.page d w) := Or.inl ⟨hd, hw⟩
  have same := wp.ordered.inj valid wp.buffer.1.valid h wp.buffer.2
  rw [(Place.page.inj same).1] at hd
  exact wp.ordered.kernelDir_not_mem hd

/-- The pages of `S` have been copied into the directory `c`, at the cost of at most `n` frames of
each pool. -/
structure Copying (m m' : Memory) (dirs : List Nat) (c buf : Nat) (S : Nat → Prop) (n : Nat) :
    Prop where
  ordered : m'.Ordered dirs
  shape : SameShape m m'
  cr3 : m'.cr3 = m.cr3
  kernelVaddr : m'.kernelVaddr = m.kernelVaddr
  userVaddr : m'.userVaddr = m.userVaddr
  low : ∀ w, S w → w < kernelStart
  empty : ∀ w, S w → m.pageAt c w = none
  copied : ∀ w, S w → ∃ f g, m'.pageAt c w = some f ∧ m.pageAt m.cr3 w = some g ∧ m'.ram f = m.ram g
  pages : ∀ d w, m.Valid dirs (.page d w) → ¬ (d = c ∧ S w) → m'.pageAt d w = m.pageAt d w
  words : ∀ d w g, m.Valid dirs (.page d w) → m.pageAt d w = some g → g ∉ dirs → g ≠ buf →
    m'.ram g = m.ram g
  spent : ∀ pf, (m.pool pf).freeCount ≤ (m'.pool pf).freeCount + n

theorem Copying.refl (ord : m.Ordered dirs) (hS : ∀ w, ¬ S w) : Copying m m dirs c buf S 0 where
  ordered := ord
  shape := SameShape.refl m
  cr3 := rfl
  kernelVaddr := rfl
  userVaddr := rfl
  low w h := absurd h (hS w)
  empty w h := absurd h (hS w)
  copied w h := absurd h (hS w)
  pages _ _ _ _ := rfl
  words _ _ _ _ _ _ _ := rfl
  spent _ := Nat.le_refl _

theorem Copying.congr (cp : Copying m m' dirs c buf S n) (h : ∀ w, S w ↔ T w) (hn : n = k) :
    Copying m m' dirs c buf T k := by
  have same : S = T := funext fun w => propext (h w)
  rw [← same, ← hn]
  exact cp

/-- A page that is there stays where it is. -/
theorem Copying.stays (cp : Copying m m' dirs c buf S n) (hw : m.Valid dirs (.page d w))
    (h : m.pageAt d w = some g) : m'.pageAt d w = some g := by
  rw [cp.pages d w hw, h]
  rintro ⟨rfl, hs⟩
  rw [cp.empty w hs] at h
  cases h

theorem Copying.addr (cp : Copying m m' dirs c buf S n) : m'.Addr dirs pf w ↔ m.Addr dirs pf w := by
  unfold Addr
  rw [cp.kernelVaddr, cp.cr3]

theorem Workplace.copying (wp : Workplace m dirs c buf childPgdir parentPgdir bufPage)
    (cp : Copying m m' dirs c buf S n) :
    Workplace m' dirs c buf childPgdir parentPgdir bufPage where
  ordered := cp.ordered
  run := cp.cr3 ▸ wp.run
  child := wp.child
  apart := cp.cr3 ▸ wp.apart
  childPage := ⟨cp.addr.mpr wp.childPage.1, cp.stays wp.childPage.1.valid wp.childPage.2⟩
  parentPage :=
    ⟨cp.addr.mpr wp.parentPage.1, cp.cr3 ▸ cp.stays wp.parentPage.1.valid wp.parentPage.2⟩
  buffer := ⟨cp.addr.mpr wp.buffer.1, cp.stays wp.buffer.1.valid wp.buffer.2⟩
  notDir := wp.notDir

/-- The copies add up. -/
theorem Copying.trans (wp : Workplace m dirs c buf childPgdir parentPgdir bufPage)
    (first : Copying m m₁ dirs c buf S n) (second : Copying m₁ m' dirs c buf T k) :
    Copying m m' dirs c buf (fun w => S w ∨ T w) (n + k) := by
  have wp₁ := wp.copying first
  have valid {d w : Nat} (hd : d ∈ dirs) (hw : w < kernelStart) : m.Valid dirs (.page d w) :=
    Or.inl ⟨hd, hw⟩
  have apart (w : Nat) (hs : S w) : ¬ T w := by
    intro ht
    obtain ⟨f, -, hf, -⟩ := first.copied w hs
    rw [second.empty w ht] at hf
    cases hf
  refine
    { ordered := second.ordered, shape := first.shape.trans second.shape,
      cr3 := second.cr3.trans first.cr3,
      kernelVaddr := second.kernelVaddr.trans first.kernelVaddr,
      userVaddr := second.userVaddr.trans first.userVaddr,
      low := fun w h => h.elim (first.low w) (second.low w), empty := fun w h => ?_,
      copied := fun w h => ?_, pages := fun d w hw out => ?_,
      words := fun d w g hw h notDir notBuf => ?_, spent := fun pf => ?_ }
  · rcases h with hs | ht
    · exact first.empty w hs
    · have hs : ¬ S w := fun hs => apart w hs ht
      rw [← first.pages c w (valid wp.child (second.low w ht)) fun h => hs h.2]
      exact second.empty w ht
  · rcases h with hs | ht
    · obtain ⟨f, g, hf, hg, words⟩ := first.copied w hs
      have hw := first.low w hs
      obtain ⟨notDir, notBuf⟩ := wp₁.user wp.child hw hf
      have there : m₁.Valid dirs (.page c w) := first.shape.valid.mpr (valid wp.child hw)
      exact ⟨f, g, second.stays there hf, hg,
        (second.words c w f there hf notDir notBuf).trans words⟩
    · obtain ⟨f, g, hf, hg, words⟩ := second.copied w ht
      have hw := second.low w ht
      have here := valid wp.run hw
      rw [first.cr3, first.pages m.cr3 w here fun h => wp.apart h.1] at hg
      obtain ⟨notDir, notBuf⟩ := wp.user wp.run hw hg
      exact ⟨f, g, hf, hg, words.trans (first.words _ w g here hg notDir notBuf)⟩
  · rw [second.pages d w (first.shape.valid.mpr hw) fun h => out ⟨h.1, .inr h.2⟩,
      first.pages d w hw fun h => out ⟨h.1, .inl h.2⟩]
  · rw [second.words d w g (first.shape.valid.mpr hw) (first.stays hw h) notDir notBuf,
      first.words d w g hw h notDir notBuf]
  · have := first.spent pf
    have := second.spent pf
    omega

/-- The two ends of the copy of a page: the frame that was mapped is written, and the directories
are switched back. -/
theorem Maps.copying (wp : Workplace m dirs c buf childPgdir parentPgdir bufPage)
    (hw : w < kernelStart) (hg : m.pageAt m.cr3 w = some g) (fresh : m.pageAt c w = none)
    (maps : Maps { m.fill buf (m.ram g) with cr3 := c } m₁ dirs c w 1)
    (hf : m₁.pageAt c w = some f) :
    Copying m { m₁.fill f (m.ram g) with cr3 := m.cr3 } dirs c buf (· = w) 1 := by
  have before := wp.ordered.fill wp.buffer.1.valid wp.buffer.2 wp.notDir (m.ram g)
  have here : m.Valid dirs (.page c w) := Or.inl ⟨wp.child, hw⟩
  have here₁ : m₁.Valid dirs (.page c w) := maps.shape.valid.mpr (before.shape.valid.mpr here)
  have after := maps.ordered.fill here₁ hf (maps.ordered.user_not_dir wp.child hw hf) (m.ram g)
  have valid₁ {d v : Nat} (hv : m.Valid dirs (.page d v)) : m₁.Valid dirs (.page d v) :=
    maps.shape.valid.mpr (before.shape.valid.mpr hv)
  have pages (d v : Nat) (hv : m.Valid dirs (.page d v)) (out : ¬ (d = c ∧ v = w)) :
      m₁.pageAt d v = m.pageAt d v :=
    (maps.pages d v (before.shape.valid.mpr hv) fun h => out ⟨h.1, by omega⟩).trans
      (before.frames _ hv)
  refine
    { ordered := after.ordered.switch m.cr3, shape := ?_, cr3 := rfl,
      kernelVaddr := after.kernelVaddr.trans maps.kernelVaddr,
      userVaddr := after.userVaddr.trans maps.userVaddr, low := fun v h => by rw [h]; exact hw,
      empty := fun v h => by rw [h]; exact fresh,
      copied := fun v h => ?_, pages := fun d v hv out => ?_,
      words := fun d v g' hv h notDir notBuf => ?_, spent := maps.spent }
  · have := maps.shape
    exact ⟨this.kernelStart, this.kernelSize, this.userStart, this.userSize, this.heap, this.user⟩
  · subst h
    refine ⟨f, g, (after.frames _ here₁).trans hf, hg, ?_⟩
    exact Function.update_self _ _ _
  · exact (after.frames (.page d v) (valid₁ hv)).trans (pages d v hv out)
  · have out : ¬ (d = c ∧ v = w) := by
      rintro ⟨rfl, rfl⟩
      rw [fresh] at h
      cases h
    have h₁ := (pages d v hv out).trans h
    have notNew : g' ≠ f := by
      rintro rfl
      have same := Place.page.inj (maps.ordered.inj (valid₁ hv) here₁ h₁ hf)
      exact out same
    show (m₁.fill f (m.ram g)).ram g' = m.ram g'
    rw [after.words g' notNew,
      maps.content d v g' (before.shape.valid.mpr hv) ((before.frames _ hv).trans h) notDir]
    exact before.words g' notBuf

/-- ONE PAGE: the turn of the inner loop for a bit that is set. -/
theorem copyPage_ensures (wp : Workplace m dirs c buf childPgdir parentPgdir bufPage)
    (hw : w < kernelStart) (hg : m.pageAt m.cr3 w = some g) (fresh : m.pageAt c w = none) :
    Ensures (fun _ => ¬ ∀ pf, 0 < (m.pool pf).freeCount)
      (fun m' => Copying m m' dirs c buf (· = w) 1)
      (m.copyPage childPgdir parentPgdir bufPage w) := by
  have here : m.Addr dirs .user w := ⟨wp.run, hw⟩
  have run : IsDir dirs m.cr3 := .inr wp.run
  have before := wp.ordered.fill wp.buffer.1.valid wp.buffer.2 wp.notDir (m.ram g)
  unfold copyPage
  rw [wp.ordered.readPage_eq run here hg, ok_bind,
    wp.ordered.writePage_eq run wp.buffer.1 wp.buffer.2, ok_bind,
    before.ordered.pageDirActivate_eq (.inl run) wp.childPage.1
      ((before.frames _ wp.childPage.1.valid).trans wp.childPage.2), ok_bind]
  have ord₂ := before.ordered.switch c
  have run₂ : IsDir dirs c := .inr wp.child
  have addr (v : Nat) (h : w ≤ v) (h' : v < w + 1) :
      ({ m.fill buf (m.ram g) with cr3 := c } : Memory).Addr dirs .user v :=
    ⟨wp.child, by omega⟩
  have valid : m.Valid dirs (.page c w) := Or.inl ⟨wp.child, hw⟩
  have fresh₂ : ({ m.fill buf (m.ram g) with cr3 := c } : Memory).pageAt c w = none :=
    (before.frames _ valid).trans fresh
  refine (ensures_of (Q := fun r => Maps { m.fill buf (m.ram g) with cr3 := c } r.2 dirs c w 1)
    (fun r h => ?_) fun room => ?_).bind
    ?_
  · exact (mapPages_ok ord₂ run₂ addr h).2
  · obtain ⟨m', h⟩ := mapPages_total ord₂ run₂ addr
      (fun v h h' => by
        obtain rfl : v = w := by omega
        exact fresh₂)
      (room .user) fun _ => room .kernel
    exact ⟨_, h⟩
  · rintro ⟨_, m₁⟩ maps
    have maps : Maps { m.fill buf (m.ram g) with cr3 := c } m₁ dirs c w 1 := maps
    obtain ⟨f, hf, -⟩ := maps.new w (Nat.le_refl w) (by omega)
    have cr3 : m₁.cr3 = c := maps.cr3
    have run₁ : IsDir dirs m₁.cr3 := cr3 ▸ run₂
    have there {v g : Nat} (addr : m.Addr dirs .kernel v) (h : m.pageAt kernelDir v = some g) :
        m₁.Addr dirs .kernel v ∧ m₁.pageAt kernelDir v = some g := by
      refine ⟨?_, maps.stays (before.shape.valid.mpr addr.valid)
        ((before.frames _ addr.valid).trans h)⟩
      unfold Addr at addr ⊢
      rw [maps.kernelVaddr]
      exact addr
    obtain ⟨addr₁, held⟩ := there wp.buffer.1 wp.buffer.2
    have words : m₁.ram buf = m.ram g := by
      rw [maps.content kernelDir bufPage buf (before.shape.valid.mpr wp.buffer.1.valid)
        ((before.frames _ wp.buffer.1.valid).trans wp.buffer.2) wp.notDir]
      exact Function.update_self _ _ _
    have child : m₁.cr3 ∈ dirs := cr3 ▸ wp.child
    have here₁ : m₁.Addr dirs .user w := ⟨child, hw⟩
    have hf' : m₁.pageAt (m₁.base .user) w = some f := by
      rw [show m₁.base .user = m₁.cr3 from rfl, cr3]
      exact hf
    have after :=
      maps.ordered.fill here₁.valid hf' (maps.ordered.user_not_dir child hw hf') (m.ram g)
    obtain ⟨addr₃, held₃⟩ := there wp.parentPage.1 wp.parentPage.2
    dsimp only
    rw [maps.ordered.readPage_eq run₁ addr₁ held, ok_bind, words,
      maps.ordered.writePage_eq run₁ here₁ hf', ok_bind,
      after.ordered.pageDirActivate_eq (.inl run₁) (after.addr.mpr addr₃)
        ((after.frames _ addr₃.valid).trans held₃)]
    exact maps.copying wp hw hg fresh hf

/-! ## The loops -/

/-- A page whose bit is set, among the first `j`. -/
def Marked (b : Bitmap) (j w : Nat) : Prop :=
  userVaddrStart ≤ w ∧ w < userVaddrStart + j ∧ b.test (w - userVaddrStart) = true

/-- How many they are. -/
def markedBelow (b : Bitmap) (j : Nat) : Nat := Nat.count (fun i => b.test i = true) j

theorem marked_succ_set (h : b.test j = true) (w : Nat) :
    Marked b (j + 1) w ↔ Marked b j w ∨ w = userVaddrStart + j := by
  unfold Marked
  constructor
  · rintro ⟨hle, hlt, hset⟩
    by_cases hw : w = userVaddrStart + j
    · exact .inr hw
    · exact .inl ⟨hle, by omega, hset⟩
  · rintro (⟨hle, hlt, hset⟩ | rfl)
    · exact ⟨hle, by omega, hset⟩
    · exact ⟨Nat.le_add_right _ _, by omega, by rw [Nat.add_sub_cancel_left]; exact h⟩

theorem marked_succ_clear (h : b.test j = false) (w : Nat) : Marked b (j + 1) w ↔ Marked b j w := by
  refine ⟨fun ⟨hle, hlt, hset⟩ => ⟨hle, ?_, hset⟩, fun ⟨hle, hlt, hset⟩ => ⟨hle, by omega, hset⟩⟩
  by_contra hc
  obtain rfl : w = userVaddrStart + j := by omega
  rw [Nat.add_sub_cancel_left, h] at hset
  cases hset

theorem markedBelow_succ_set (h : b.test j = true) :
    markedBelow b (j + 1) = markedBelow b j + 1 := by
  unfold markedBelow
  rw [Nat.count_succ, if_pos h]

theorem markedBelow_succ_clear (h : b.test j = false) :
    markedBelow b (j + 1) = markedBelow b j := by
  unfold markedBelow
  rw [Nat.count_succ, if_neg (by rw [h]; exact Bool.false_ne_true), Nat.add_zero]

/-- What is copied: the pages of the bits are mapped in the running directory, and none is in the
child's. -/
structure Source (m : Memory) (c : Nat) (b : Bitmap) : Prop where
  fits : userVaddrStart + b.size ≤ kernelStart
  mapped : ∀ w, Marked b b.size w → (m.pageAt m.cr3 w).isSome = true
  empty : ∀ w < kernelStart, m.pageAt c w = none

/-- The frames that the copy may need. -/
def CopyRoom (m : Memory) (b : Bitmap) : Prop := ∀ pf, markedBelow b b.size ≤ (m.pool pf).freeCount

/-- THE LOOP INVARIANT: the first `j` bits have been passed. -/
def Passed (m m' : Memory) (dirs : List Nat) (c buf : Nat) (b : Bitmap) (j : Nat) : Prop :=
  Copying m m' dirs c buf (Marked b j) (markedBelow b j)

theorem Passed.clear (ps : Passed m m' dirs c buf b j) (h : b.test j = false) :
    Passed m m' dirs c buf b (j + 1) :=
  Copying.congr ps (fun w => (marked_succ_clear h w).symm) (markedBelow_succ_clear h).symm

/-- A bit that is set. -/
theorem Passed.set (wp : Workplace m dirs c buf childPgdir parentPgdir bufPage) (src : Source m c b)
    (hj : j < b.size) (h : b.test j = true) (ps : Passed m m₁ dirs c buf b j) :
    Ensures (fun _ => ¬ m.CopyRoom b) (fun m' => Passed m m' dirs c buf b (j + 1))
      (m₁.copyPage childPgdir parentPgdir bufPage (userVaddrStart + j)) := by
  have hw : userVaddrStart + j < kernelStart :=
    Nat.lt_of_lt_of_le (Nat.add_lt_add_left hj _) src.fits
  have marked : Marked b b.size (userVaddrStart + j) :=
    ⟨Nat.le_add_right _ _, Nat.add_lt_add_left hj _, by rw [Nat.add_sub_cancel_left]; exact h⟩
  obtain ⟨g, hg⟩ := Option.isSome_iff_exists.mp (src.mapped _ marked)
  have parent : m.Valid dirs (.page m.cr3 (userVaddrStart + j)) := Or.inl ⟨wp.run, hw⟩
  have child : m.Valid dirs (.page c (userVaddrStart + j)) := Or.inl ⟨wp.child, hw⟩
  have hg₁ : m₁.pageAt m₁.cr3 (userVaddrStart + j) = some g := ps.cr3 ▸ ps.stays parent hg
  have fresh : m₁.pageAt c (userVaddrStart + j) = none := by
    rw [ps.pages c _ child fun hc => Nat.lt_irrefl _ hc.2.2.1]
    exact src.empty _ hw
  have here := copyPage_ensures (wp.copying ps) hw hg₁ fresh
  refine (here.weaken fun _ none room => none fun pf => ?_).mono fun m' cp => ?_
  · have step : markedBelow b (j + 1) ≤ markedBelow b b.size := Nat.count_monotone _ hj
    have enough := room pf
    have spent := ps.spent pf
    rw [markedBelow_succ_set h] at step
    omega
  · exact (ps.trans wp cp).congr (fun w => (marked_succ_set h w).symm) (markedBelow_succ_set h).symm

theorem test_byte (b : Bitmap) (i : Nat) (hk : k < 8) :
    ((1#8 <<< k) &&& b.bits.getD i 0 != 0#8) = b.test (i * 8 + k) := by
  rw [BitVec.and_comm, and_mask_ne_zero _ k hk]
  unfold Bitmap.test
  rw [show (i * 8 + k) / 8 = i by omega, show (i * 8 + k) % 8 = k by omega]

/-- A byte that is zero is passed at once. -/
theorem Passed.zeroByte (ps : Passed m m' dirs c buf b (i * 8)) (h : b.bits.getD i 0 = 0#8) :
    ∀ k ≤ 8, Passed m m' dirs c buf b (i * 8 + k) := by
  intro k hk
  induction k with
  | zero => exact ps
  | succ k ih =>
    refine (ih (by omega)).clear ?_
    unfold Bitmap.test
    rw [show (i * 8 + k) / 8 = i by omega, h]
    exact BitVec.getLsbD_zero

/-- THE COPY. `copy_body_stack3` copies every page whose bit is set. -/
theorem copyBodyStack3_ensures (wp : Workplace m dirs c buf childPgdir parentPgdir bufPage)
    (src : Source m c b) :
    Ensures (fun _ => ¬ m.CopyRoom b) (fun m' => Passed m m' dirs c buf b b.size)
      (m.copyBodyStack3 childPgdir parentPgdir bufPage b) := by
  have start : Passed m m dirs c buf b (0 * 8) :=
    Copying.refl wp.ordered fun w h => absurd h.2.1 (Nat.not_lt.mpr h.1)
  unfold copyBodyStack3
  refine (Ensures.upTo (I := fun i m' => Passed m m' dirs c buf b (i * 8)) start fun i hi m₁ ps =>
    ?_).mono fun m' ps => ?_
  · unfold copyByte
    dsimp only
    split
    next =>
      refine (Ensures.upTo (I := fun k m' => Passed m m' dirs c buf b (i * 8 + k)) ps
        fun k hk m₂ ps => ?_).mono fun m' ps => ?_
      · unfold copyBit
        rw [test_byte b i hk]
        cases h : b.test (i * 8 + k) with
        | true =>
          have inside : i * 8 + k < b.size := by
            unfold Bitmap.btmpBytesLen at hi
            unfold Bitmap.size
            omega
          rw [if_pos rfl]
          exact ps.set wp src inside h
        | false =>
          rw [if_neg Bool.false_ne_true]
          exact ps.clear h
      · rw [Nat.succ_mul]
        exact ps
    next h =>
      rw [bne_iff_ne, ne_eq, not_not] at h
      show Passed m m₁ dirs c buf b ((i + 1) * 8)
      rw [Nat.succ_mul]
      exact ps.zeroByte h 8 (Nat.le_refl 8)
  · have size : b.btmpBytesLen * 8 = b.size := by
      unfold Bitmap.btmpBytesLen Bitmap.size
      omega
    rw [← size]
    exact ps

theorem Copying.agrees (cp : Copying m m' dirs c buf S n) (ag : m.Agrees dirs) (apart : m.cr3 ≠ c)
    (child : c ∈ dirs) :
    m'.Agrees dirs where
  ordered := cp.ordered
  run := cp.cr3 ▸ ag.run
  userSize h := by
    rw [cp.userVaddr]
    exact ag.userSize (cp.cr3 ▸ h)
  bits pf w h := by
    rw [heap_same cp.shape cp.cr3] at h
    rw [base_same cp.cr3, cp.pages _ w (ag.addr h).valid]
    · show m'.bit pf w = true ↔ _
      rw [bit_same cp.kernelVaddr cp.userVaddr]
      exact ag.bits pf w h
    · rintro ⟨e, -⟩
      cases pf with
      | kernel =>
        have e : kernelDir = c := e
        exact ag.ordered.kernelDir_not_mem (e.symm ▸ child)
      | user => exact apart e

theorem Copying.leaves (wp : Workplace m (c :: dirs) c buf childPgdir parentPgdir bufPage)
    (cp : Copying m m' (c :: dirs) c buf S n) (hc : c ∉ dirs) : Leaves m m' dirs where
  pages d hd w hw := cp.pages d w (Or.inl ⟨List.mem_cons_of_mem c hd, hw⟩) fun h => hc (h.1 ▸ hd)
  words d hd w hw g h := by
    obtain ⟨notDir, notBuf⟩ := wp.user (List.mem_cons_of_mem c hd) hw h
    exact cp.words d w g (Or.inl ⟨List.mem_cons_of_mem c hd, hw⟩) h notDir notBuf

end Memory

/-! ## `sys_fork` -/

open Memory

/-- The pages of the kernel heap that belong to a process: its task structure, its bitmap and its
directory. -/
def Proc.Owns (p : Proc) (v : Nat) : Prop :=
  v = p.pcb ∨ InRange p.vaddrBits bitmapPgCnt v ∨ v = p.pgdir

/-- They are different pages. -/
structure Proc.Separate (p : Proc) : Prop where
  pcb : ¬ InRange p.vaddrBits bitmapPgCnt p.pcb
  pgdir : ¬ InRange p.vaddrBits bitmapPgCnt p.pgdir
  ne : p.pcb ≠ p.pgdir

variable {m m' m₁ : Memory} {dirs : List Nat} {c buf bufPage : Nat} {parent child : Proc}

/-- The process `p` is running, and its bitmap marks exactly the pages below the kernel that are
mapped. -/
structure Runs (m : Memory) (dirs : List Nat) (p : Proc) : Prop where
  agrees : m.Agrees dirs
  run : m.cr3 ∈ dirs
  pgdir : m.Heap dirs .kernel p.pgdir ∧ m.pageAt kernelDir p.pgdir = some m.cr3
  bitmap : p.vaddrBitmap = m.userVaddr
  marks : ∀ w < kernelStart, (m.pageAt m.cr3 w).isSome = true ↔
    userVaddrStart ≤ w ∧ m.userVaddr.test (w - userVaddrStart) = true

/-- What a `fork` has done: a process with the directory `c` has been added. -/
structure Forked (m m' : Memory) (dirs : List Nat) (parent child : Proc) (c : Nat) : Prop where
  agrees : m'.Agrees (c :: dirs)
  new : c ∉ dirs
  pgdir : m'.pageAt kernelDir child.pgdir = some c
  shape : SameShape m m'
  cr3 : m'.cr3 = m.cr3
  userVaddr : m'.userVaddr = m.userVaddr
  bitmap : child.vaddrBitmap = parent.vaddrBitmap
  mapped : ∀ w < kernelStart, (m'.pageAt c w).isSome = (m.pageAt m.cr3 w).isSome
  copied : ∀ w < kernelStart, ∀ f g, m'.pageAt c w = some f → m.pageAt m.cr3 w = some g →
    m'.ram f = m.ram g
  leaves : Leaves m m' dirs
  stays : ∀ v g, m.Heap dirs .kernel v → m.pageAt kernelDir v = some g →
    m'.pageAt kernelDir v = some g
  unused : ∀ v, child.Owns v → m.Heap dirs .kernel v ∧ m.bit .kernel v = false
  bits : ∀ v, kHeapStart ≤ v → (m'.bit .kernel v = true ↔ m.bit .kernel v = true ∨ child.Owns v)
  separate : child.Separate
  notDir : ∀ v f, child.Owns v → m'.pageAt kernelDir v = some f → f ∉ dirs

/-- The end of `copy_process`: the copy, and the buffer is given back. -/
theorem copyAndFree_ensures (rn : Runs m dirs parent)
    (grew : Grew m m₁ dirs fun v => child.Owns v ∨ v = bufPage) (nd : NewDir m₁ dirs c)
    (hc : m₁.pageAt kernelDir child.pgdir = some c) (apart : ¬ child.Owns bufPage)
    (bitmap : child.vaddrBitmap = parent.vaddrBitmap) (separate : child.Separate) :
    Ensures (fun _ => ¬ m₁.CopyRoom parent.vaddrBitmap) (fun m' => Forked m m' dirs parent child c)
      (m₁.copyBodyStack3 child.pgdir parent.pgdir bufPage parent.vaddrBitmap >>= fun m =>
        m.mfreePage .kernel bufPage 1) := by
  have ag₁ := grew.agrees.addDir nd
  have addr {v : Nat} (h : m.Heap dirs .kernel v) : m₁.Addr (c :: dirs) .kernel v := by
    refine ⟨h.1, ?_⟩
    rw [grew.shape.heap]
    exact h.2.1
  have own : child.Owns child.pgdir := .inr (.inr rfl)
  obtain ⟨heapBuf, clearBuf⟩ := grew.unused bufPage (.inr rfl)
  have setBuf : m₁.bit .kernel bufPage = true := (grew.bits bufPage heapBuf.1).mpr (.inr (.inr rfl))
  obtain ⟨buf, hbuf⟩ := Option.isSome_iff_exists.mp
    ((grew.agrees.bits .kernel bufPage ((heap_same grew.shape grew.cr3).mpr heapBuf)).mp setBuf)
  have hbuf : m₁.pageAt kernelDir bufPage = some buf := hbuf
  have ne : bufPage ≠ child.pgdir := by
    rintro rfl
    exact apart own
  have notDir : buf ∉ c :: dirs := by
    rw [List.mem_cons, not_or]
    refine ⟨?_, grew.not_dir rn.agrees (.inr rfl) hbuf⟩
    rintro rfl
    exact ne
      (Place.page.inj (ag₁.ordered.inj (addr heapBuf).valid
        (addr (grew.unused _ (.inl own)).1).valid hbuf hc)).2
  have wp : Workplace m₁ (c :: dirs) c buf child.pgdir parent.pgdir bufPage :=
    { ordered := ag₁.ordered, run := List.mem_cons_of_mem c (grew.cr3 ▸ rn.run),
      child := List.mem_cons_self,
      apart := nd.ne_running grew.agrees.ordered grew.agrees.run,
      childPage := ⟨addr (grew.unused _ (.inl own)).1, hc⟩,
      parentPage := ⟨addr rn.pgdir.1, grew.cr3 ▸ grew.stays _ _ rn.pgdir.1 rn.pgdir.2⟩,
      buffer := ⟨addr heapBuf, hbuf⟩, notDir }
  have size : userVaddrStart + parent.vaddrBitmap.size = kernelStart := by
    rw [rn.bitmap]
    exact rn.agrees.userSize rn.run
  -- the parent's pages are where they were before the call
  have parentPage {w : Nat} (hw : w < kernelStart) : m₁.pageAt m₁.cr3 w = m.pageAt m.cr3 w := by
    rw [grew.cr3]
    exact grew.leaves.pages _ rn.run w hw
  have marked {w : Nat} (hw : w < kernelStart) :
      Marked parent.vaddrBitmap parent.vaddrBitmap.size w ↔ (m.pageAt m.cr3 w).isSome = true := by
    rw [rn.marks w hw, ← rn.bitmap]
    exact ⟨fun h => ⟨h.1, h.2.2⟩, fun h => ⟨h.1, by omega, h.2⟩⟩
  have src : Source m₁ c parent.vaddrBitmap := by
    refine ⟨Nat.le_of_eq size, fun w h => ?_, fun w hw => nd.pageAt hw⟩
    have hw : w < kernelStart := by
      have := h.2.1
      omega
    rw [parentPage hw]
    exact (marked hw).mp h
  refine (copyBodyStack3_ensures wp src).bind fun m₂ ps => ?_
  have wp₂ := wp.copying ps
  have ag₂ : m₂.Agrees (c :: dirs) := Copying.agrees ps ag₁ wp.apart wp.child
  have heap₂ : m₂.Heap (c :: dirs) .kernel bufPage := ⟨wp₂.buffer.1.1, wp₂.buffer.1.2, nofun⟩
  have range (w : Nat) (h : bufPage ≤ w) (h' : w < bufPage + 1) :
      m₂.Heap (c :: dirs) .kernel w := by
    obtain rfl : w = bufPage := by omega
    exact heap₂
  obtain ⟨m₃, un, hfree⟩ := mfreePage_total ag₂ Nat.one_pos range fun w h h' => by
    obtain rfl : w = bufPage := by omega
    exact ⟨buf, wp₂.buffer.2, notDir⟩
  obtain ⟨ag₃, -⟩ := mfreePage_agrees ag₂ Nat.one_pos range un
  rw [hfree]
  have childPages {w : Nat} (hw : w < kernelStart) : m₃.pageAt c w = m₂.pageAt c w :=
    (un.leaves ag₂.ordered).pages c wp₂.child w hw
  have valid {w : Nat} (hw : w < kernelStart) : m₁.Valid (c :: dirs) (.page c w) :=
    Or.inl ⟨wp.child, hw⟩
  have unmarked {w : Nat} (hw : w < kernelStart)
      (h : ¬ Marked parent.vaddrBitmap parent.vaddrBitmap.size w) : m₂.pageAt c w = none := by
    rw [ps.pages c w (valid hw) fun hc => h hc.2]
    exact nd.pageAt hw
  refine
    { agrees := ag₃, new := nd.new, pgdir := ?_, shape := ?_, cr3 := ?_, userVaddr := ?_, bitmap,
      mapped := fun w hw => ?_,
      copied := fun w hw f g hf hg => ?_, leaves := ?_, stays := fun v g hv hg => ?_,
      unused := fun v hv => grew.unused v (.inl hv), bits := fun v hv => ?_,
      separate, notDir := fun v f hv hf => ?_ }
  · refine (reserve_frameIn (p := .page kernelDir child.pgdir)).trans ?_
    exact (un.pages kernelDir child.pgdir wp₂.childPage.1.valid fun h => ne (by omega)).trans
      wp₂.childPage.2
  · exact ((grew.shape.trans ps.shape).trans un.shape).trans reserve_shape
  · exact reserve_cr3.trans (un.cr3.trans (ps.cr3.trans grew.cr3))
  · exact un.userVaddr.trans (ps.userVaddr.trans grew.userVaddr)
  · refine (congrArg Option.isSome ((reserve_frameIn (p := .page c w)).trans (childPages hw))).trans
      ?_
    rw [Bool.eq_iff_iff, ← marked hw]
    constructor
    · intro there
      by_contra h
      rw [unmarked hw h] at there
      cases there
    · intro h
      obtain ⟨f, g, hf, -, -⟩ := ps.copied w h
      rw [hf]
      rfl
  · have hf : m₂.pageAt c w = some f :=
      (childPages hw).symm.trans ((reserve_frameIn (p := .page c w)).symm.trans hf)
    have h : Marked parent.vaddrBitmap parent.vaddrBitmap.size w := by
      rw [marked hw, hg]
      rfl
    obtain ⟨f', g', hf', hg', words⟩ := ps.copied w h
    obtain rfl : f = f' := Option.some.inj (hf.symm.trans hf')
    obtain rfl : g = g' := Option.some.inj ((parentPage hw ▸ hg).symm.trans hg')
    have after := (un.leaves ag₂.ordered).words c wp₂.child w hw f hf
    exact after.trans (words.trans (grew.leaves.words _ rn.run w hw g hg))
  · have last : Leaves m₂ m₃ dirs :=
      ⟨fun d hd => (un.leaves ag₂.ordered).pages d (List.mem_cons_of_mem c hd),
        fun d hd => (un.leaves ag₂.ordered).words d (List.mem_cons_of_mem c hd)⟩
    exact ((grew.leaves.trans (Copying.leaves wp ps nd.new)).trans last).trans reserve_leaves
  · have set : m.bit .kernel v = true :=
      (rn.agrees.bits .kernel v hv).mpr (Option.isSome_iff_exists.mpr ⟨g, hg⟩)
    have other : v ≠ bufPage := by
      rintro rfl
      rw [clearBuf] at set
      cases set
    refine (reserve_frameIn (p := .page kernelDir v)).trans ?_
    refine (un.pages kernelDir v (ps.shape.valid.mpr (addr hv).valid) fun h =>
      other (by omega)).trans ?_
    exact ps.stays (addr hv).valid (grew.stays v g hv hg)
  · have fits := heapBuf.2.1
    have same : m₃.kernelVaddr = m₁.kernelVaddr := un.kernelVaddr.trans ps.kernelVaddr
    have low := heapBuf.1
    change kHeapStart ≤ bufPage at low
    change bufPage < kHeapStart + m.kernelVaddr.size at fits
    have after : (m₃.reserve (bufPage - kHeapStart) false 1 .kernel).bit .kernel v = if v =
        bufPage then false else m₁.bit .kernel v := by
      show (setBits m₃.kernelVaddr (bufPage - kHeapStart) false 1).test (v - kHeapStart) = if _ then
        _ else m₁.kernelVaddr.test (v - kHeapStart)
      rw [same, test_setBits (by rw [grew.shape.heap]; omega)]
      by_cases h : v = bufPage
      · rw [if_pos h, if_pos (by omega)]
      · rw [if_neg h, if_neg (by omega)]
    refine (iff_of_eq (congrArg (· = true) after)).trans ?_
    by_cases h : v = bufPage
    · rw [if_pos h, h, clearBuf]
      exact iff_of_false Bool.false_ne_true fun hc => hc.elim Bool.false_ne_true apart
    · rw [if_neg h, grew.bits v hv, or_iff_left h]
  · -- the page holds what it held before the copy
    have heap := (grew.unused v (.inl hv)).1
    have set : m₁.bit .kernel v = true := (grew.bits v heap.1).mpr (.inr (.inl hv))
    obtain ⟨g, hg⟩ :=
      Option.isSome_iff_exists.mp
        ((grew.agrees.bits .kernel v ((heap_same grew.shape grew.cr3).mpr heap)).mp set)
    have hg : m₁.pageAt kernelDir v = some g := hg
    have other : v ≠ bufPage := by
      rintro rfl
      exact apart hv
    have stays : m₃.pageAt kernelDir v = some g :=
      (un.pages kernelDir v (ps.shape.valid.mpr (addr heap).valid) fun h => other (by omega)).trans
        (ps.stays (addr heap).valid hg)
    obtain rfl : g = f :=
      Option.some.inj (stays.symm.trans ((reserve_frameIn (p := .page kernelDir v)).symm.trans hf))
    exact grew.not_dir rn.agrees (.inl hv) hg

/-- What a `fork` needs: a short name, pages of the kernel for the child and the buffer, and frames
for the copy. -/
def ForkRoom (m : Memory) (parent : Proc) : Prop :=
  parent.name.length < 11 ∧
    m.Spacious (3 + bitmapPgCnt) (markedBelow parent.vaddrBitmap parent.vaddrBitmap.size)

/-- What `sys_fork` answers, and that it answers a child where there is room. -/
def Forks (m : Memory) (dirs : List Nat) (parent : Proc) : Option Proc × Memory → Prop
  | (none, _) => ¬ ForkRoom m parent
  | (some child, m') => ∃ c, Forked m m' dirs parent child c

/-- From the child's page on, with the buffer. -/
theorem copyProcess_ensures (rn : Runs m dirs parent) {childThread : Nat}
    (grew : Grew m m₁ dirs fun v => v = childThread ∨ v = bufPage) (ne : childThread ≠ bufPage)
    (sp : ForkRoom m parent →
      m₁.Spacious (1 + bitmapPgCnt) (markedBelow parent.vaddrBitmap parent.vaddrBitmap.size)) :
    Ensures (fun _ => ¬ ForkRoom m parent) (Forks m dirs parent)
      (m₁.copyProcess childThread bufPage parent) := by
  unfold copyProcess copyPcbVaddrbitmapStack0
  rw [bind_assoc]
  refine ((getKernelPages_ensures grew.agrees).weaken fun _ none room => none ?_).bind ?_
  · exact (sp room).room (by decide) (by omega) (by decide)
  rintro ⟨r, m₂⟩ h
  cases r with
  | none => exact fun room => h ((sp room).room (by decide) (by omega) (by decide))
  | some v =>
    obtain ⟨i, rfl, gets, -⟩ := h
    dsimp only
    rw [bind_assoc]
    refine (ensures_assertThat (fun long room => long room.1) fun _ =>
      trivial : Ensures _ (fun _ => True) _).bind fun _ _ => ?_
    have grew₂ := grew.trans (gets.grew grew.agrees.ordered)
    have sp₂ (room : ForkRoom m parent) :
        m₂.Spacious 1 (markedBelow parent.vaddrBitmap parent.vaddrBitmap.size) :=
      gets.spacious (Nat.add_comm 1 bitmapPgCnt ▸ sp room)
    have room₂ (room : ForkRoom m parent) : m₂.Room .kernel 1 :=
      (sp₂ room).room Nat.one_pos (Nat.le_refl 1) (by decide)
    show Ensures _ _ (m₂.createPageDir >>= _)
    refine ((createPageDir_ensures gets.agrees).weaken fun _ none room => none (room₂ room)).bind ?_
    rintro ⟨r, m₃⟩ h
    cases r with
    | none => exact fun room => h (room₂ room)
    | some pgdir =>
      obtain ⟨j, c, rfl, gets', there, nd⟩ := h
      have last := gets'.grew gets.agrees.ordered
      have here (v w : Nat) : InRange v 1 w ↔ w = v :=
        ⟨fun h => by unfold InRange at h; omega, fun h => ⟨by omega, by omega⟩⟩
      generalize hchild : ({ parent with
        pcb := childThread, name := parent.name ++ ['_', 'f', 'o', 'r', 'k'], vaddrBits :=
          kHeapStart + i, pgdir := kHeapStart + j } : Proc) = child
      have owns (v : Nat) : child.Owns v ↔
          v = childThread ∨ InRange (kHeapStart + i) bitmapPgCnt v ∨ v = kHeapStart + j := by
        rw [← hchild]
        exact Iff.rfl
      have grew₃ : Grew m m₃ dirs fun v => child.Owns v ∨ v = bufPage := by
        refine (grew₂.trans last).congr fun v => ?_
        rw [owns, here]
        tauto
      have apart : ¬ child.Owns bufPage := by
        rw [owns, ← here (kHeapStart + j)]
        rintro (h | h | h)
        · exact ne h.symm
        · exact grew.apart (gets.grew grew.agrees.ordered) (.inr rfl) h
        · exact grew₂.apart last (.inl (.inr rfl)) h
      have separate : child.Separate := by
        rw [← hchild]
        refine ⟨fun h => ?_, fun h => ?_, fun h => ?_⟩
        · exact grew.apart (gets.grew grew.agrees.ordered) (.inl rfl) h
        · exact grew₂.apart last (.inr h) ((here _ _).mpr rfl)
        · exact grew₂.apart last (.inl (.inl rfl)) ((here _ _).mpr h)
      have copy :=
        copyAndFree_ensures rn grew₃ nd (by rw [← hchild]; exact there) apart
          (by rw [← hchild]) separate
      show Ensures _ _ (m₃.copyBodyStack3 (kHeapStart + j) parent.pgdir bufPage
        parent.vaddrBitmap >>= fun m => m.mfreePage .kernel bufPage 1 >>= _)
      rw [← bind_assoc, show kHeapStart + j = child.pgdir by rw [← hchild]]
      refine (copy.weaken fun _ none room => none fun pf => ?_).bind fun m₄ forked => ⟨c, ?_⟩
      · have enough := (gets'.spacious (k := 0) (sp₂ room)).frames pf
        omega
      · subst hchild
        exact forked

/-- `fork` gives the child a copy of the parent's pages. -/
theorem sysFork_ensures (rn : Runs m dirs parent) :
    Ensures (fun _ => ¬ ForkRoom m parent) (Forks m dirs parent) (m.sysFork parent) := by
  have here (v w : Nat) : InRange v 1 w ↔ w = v :=
    ⟨fun h => by unfold InRange at h; omega, fun h => ⟨by omega, by omega⟩⟩
  have ag := rn.agrees
  have room (h : ForkRoom m parent) : m.Room .kernel 1 :=
    h.2.room Nat.one_pos (by omega) (by decide)
  unfold sysFork
  refine ((getKernelPages_ensures ag).weaken fun _ none h => none (room h)).bind ?_
  rintro ⟨r, m₁⟩ h
  cases r with
  | none => exact fun enough => h (room enough)
  | some v =>
    obtain ⟨i, rfl, gets, -⟩ := h
    have grew := gets.grew ag.ordered
    have sp₁ (h : ForkRoom m parent) :
        m₁.Spacious (2 + bitmapPgCnt) (markedBelow parent.vaddrBitmap parent.vaddrBitmap.size) :=
      gets.spacious (by rw [show 1 + (2 + bitmapPgCnt) = 3 + bitmapPgCnt by omega]; exact h.2)
    have room₁ (h : ForkRoom m parent) : m₁.Room .kernel 1 :=
      (sp₁ h).room Nat.one_pos (by omega) (by decide)
    dsimp only
    refine ((getKernelPages_ensures gets.agrees).weaken fun _ none h => none (room₁ h)).bind ?_
    rintro ⟨r, m₂⟩ h
    cases r with
    | none => exact fun enough => h (room₁ enough)
    | some v =>
      obtain ⟨j, rfl, gets', -⟩ := h
      have grew' := gets'.grew gets.agrees.ordered
      refine copyProcess_ensures rn ((grew.trans grew').congr fun v => by rw [here, here])
        (fun e => ?_) fun h => ?_
      · exact grew.apart grew' ((here _ _).mpr rfl) ((here _ _).mpr e)
      · exact gets'.spacious
          (by rw [show 1 + (1 + bitmapPgCnt) = 2 + bitmapPgCnt by omega]; exact sp₁ h)

/-- FORK COPIES THE ADDRESS SPACE. For every process that is running with a bitmap that marks
exactly its pages: when `sys_fork` answers a child, the child has the parent's bitmap, the same
pages are mapped in its directory with the words they had at the call, in frames that are in no
place of another process, and the pages of the parent and of all others are as they were. Where
there is room, it answers a child. -/
theorem fork_copies (dirs : List Nat) (m : Memory) (parent : Proc) (runs : Runs m dirs parent) :
    (∀ child m', m.sysFork parent = .ok (some child, m') →
      ∃ c, c ∉ dirs ∧ m'.pageAt kernelDir child.pgdir = some c ∧
      child.vaddrBitmap = parent.vaddrBitmap ∧
      (∀ w < kernelStart, (m'.pageAt c w).isSome = (m.pageAt m.cr3 w).isSome) ∧
      (∀ w < kernelStart, ∀ f g, m'.pageAt c w = some f → m.pageAt m.cr3 w = some g →
      m'.ram f = m.ram g) ∧
      (∀ w < kernelStart, ∀ f, m'.pageAt c w = some f → ∀ p, m'.Valid dirs p →
      m'.frameIn p ≠ some f) ∧
      m'.cr3 = m.cr3 ∧ m'.userVaddr = m.userVaddr ∧
      ∀ d ∈ dirs, ∀ w < kernelStart, m'.pageAt d w = m.pageAt d w ∧ ∀ g, m.pageAt d w = some g →
      m'.ram g = m.ram g) ∧
    (ForkRoom m parent → ∃ child m', m.sysFork parent = .ok (some child, m')) := by
  have post := sysFork_ensures runs
  refine ⟨fun child m' h => ?_, fun room => ?_⟩
  · obtain ⟨c, forked⟩ := post.of_ok h
    refine ⟨c, forked.new, forked.pgdir, forked.bitmap, forked.mapped, forked.copied,
      fun w hw f hf p hp held => ?_, forked.cr3,
      forked.userVaddr, fun d hd w hw =>
        ⟨forked.leaves.pages d hd w hw, forked.leaves.words d hd w hw⟩⟩
    have own : m'.Valid (c :: dirs) (.page c w) := Or.inl ⟨List.mem_cons_self, hw⟩
    obtain rfl := forked.agrees.ordered.inj own (valid_cons hp) hf held
    rcases hp with ⟨hc, -⟩ | ⟨hc, high, -⟩
    · exact forked.new hc
    · unfold kHeapStart at high
      unfold kernelStart at hw
      omega
  · cases h : m.sysFork parent with
    | error e => exact absurd room (post.of_error h)
    | ok r =>
      obtain ⟨r, m'⟩ := r
      cases r with
      | none => exact absurd room (post.of_ok h)
      | some child => exact ⟨child, m', rfl⟩

/-! ## A process after the start of the kernel -/

/-- A bitmap that agrees with the tables marks exactly the pages, when there are none below its
first address. -/
theorem marks_of_agrees (ag : m.Agrees dirs) (run : m.cr3 ∈ dirs)
    (low : ∀ w < userVaddrStart, m.pageAt m.cr3 w = none) :
    ∀ w < kernelStart, (m.pageAt m.cr3 w).isSome = true ↔
      userVaddrStart ≤ w ∧ m.userVaddr.test (w - userVaddrStart) = true := by
  intro w hw
  by_cases h : userVaddrStart ≤ w
  · have size := ag.userSize run
    have heap : m.Heap dirs .user w :=
      ⟨h, by show w < userVaddrStart + m.userVaddr.size; omega, fun _ => run⟩
    rw [and_iff_right h]
    exact (ag.bits .user w heap).symm
  · rw [low w (Nat.not_le.mp h)]
    exact iff_of_false Bool.false_ne_true fun hc => h hc.1

/-- A new directory runs, with a bitmap that is clear. -/
theorem Memory.NewDir.agrees (nd : NewDir m dirs c) (ag : m.Agrees dirs)
    (size : userVaddrStart + m.userVaddr.size = kernelStart)
    (clear : ∀ i, m.userVaddr.test i = false) :
    ({ m with cr3 := c } : Memory).Agrees (c :: dirs) where
  ordered := (ag.ordered.addDir nd).switch c
  run := .inr List.mem_cons_self
  userSize _ := size
  bits pf w h := by
    cases pf with
    | kernel => exact ag.bits .kernel w ⟨h.1, h.2.1, nofun⟩
    | user =>
      have hw : w < userVaddrStart + m.userVaddr.size := h.2.1
      show m.userVaddr.test (w - userVaddrStart) = true ↔ (m.pageAt c w).isSome = true
      rw [clear, nd.pageAt (size ▸ hw)]
      exact iff_of_false Bool.false_ne_true Bool.false_ne_true

theorem bitmapPgCnt_eq : bitmapPgCnt = 23 := rfl

theorem boot_spacious : bootMemory.Spacious (1 + (3 + bitmapPgCnt)) 2 := by
  rw [bitmapPgCnt_eq]
  refine ⟨⟨0, freeRun_clearBitmap (by omega)⟩, fun pf => ?_⟩
  cases pf with
  | kernel =>
    rw [show (bootMemory.pool .kernel).freeCount = _ from freeCount_clearBitmap 480 512]
    omega
  | user =>
    rw [show (bootMemory.pool .user).freeCount = _ from freeCount_clearBitmap 480 (512 + 3840)]
    omega

theorem markedBelow_setBits_clear (len i n j : Nat) (fits : i + n ≤ 8 * len) :
    markedBelow (setBits (clearBitmap len) i true n) j ≤ n := by
  have sub : (Finset.range j).filter (fun k => (setBits (clearBitmap len) i true n).test k = true) ⊆
      Finset.Ico i (i + n) := by
    intro k hk
    have set := (Finset.mem_filter.mp hk).2
    rw [test_setBits (by rw [size_clearBitmap]; exact fits), test_clearBitmap] at set
    rw [Finset.mem_Ico]
    by_contra hc
    rw [if_neg hc] at set
    cases set
  unfold markedBelow
  rw [Nat.count_eq_card_filter_range]
  refine (Finset.card_le_card sub).trans ?_
  rw [Nat.card_Ico, Nat.add_sub_cancel_left]

/-- After the start of the kernel a directory can be made, and the process that gets it can be given
its first page. -/
theorem first_process : ∃ (m : Memory) (c : Nat) (p : Proc), Runs m [c] p ∧ ForkRoom m p ∧
    (m.pageAt m.cr3 userVaddrStart).isSome = true := by
  obtain ⟨i, c, m₁, -, gets, there, nd⟩ :=
    createPageDir_total boot_agrees (boot_spacious.room Nat.one_pos (by omega) (by omega))
  have sp := gets.spacious boot_spacious
  have user : m₁.userVaddr = clearBitmap 94199 := gets.userVaddr
  have size : userVaddrStart + m₁.userVaddr.size = kernelStart := by
    rw [user, size_clearBitmap]
    rfl
  have ag₂ := nd.agrees gets.agrees size fun k => by rw [user]; exact test_clearBitmap _ k
  generalize hm₂ : ({ m₁ with cr3 := c } : Memory) = m₂ at ag₂
  have run : m₂.cr3 ∈ [c] := by
    rw [← hm₂]
    exact List.mem_cons_self
  have user₂ : m₂.userVaddr = clearBitmap 94199 := by rw [← hm₂, ← user]
  have kernel₂ : m₂.kernelVaddr = m₁.kernelVaddr := by rw [← hm₂]
  have pool₂ (pf : PoolFlags) : m₂.pool pf = m₁.pool pf := by
    rw [← hm₂]
    cases pf <;> rfl
  have pages₂ (d w : Nat) : m₂.pageAt d w = m₁.pageAt d w := by
    rw [← hm₂]
    rfl
  -- one page for the process
  have room : m₂.Room .user 1 := by
    have := sp.frames .user
    have := sp.frames .kernel
    refine ⟨by decide, ⟨0, ?_, fun _ => by decide⟩, ?_, fun _ => ?_⟩
    · rw [show m₂.vaddrBitmap .user = _ from user₂]
      exact freeRun_clearBitmap (by decide)
    · rw [pool₂]
      omega
    · rw [show m₂.kernelPool = _ from pool₂ .kernel]
      omega
  obtain ⟨j, m₃, -, hcall⟩ := mallocPage_total ag₂ (fun _ => run) room
  rcases mallocPage_ok ag₂ (fun _ => run) hcall with ⟨hno, -⟩ | ⟨k, -, first, maps⟩
  · cases hno
  obtain rfl : k = 0 := by
    refine Nat.eq_zero_of_not_pos fun pos => first.least 0 pos ?_
    rw [show m₂.vaddrBitmap .user = _ from user₂]
    exact freeRun_clearBitmap (by decide)
  obtain ⟨ag₃, hands⟩ := mallocPage_agrees ag₂ (fun _ => run) first.free maps
  have cr3 : m₃.cr3 = m₂.cr3 := maps.cr3
  have isC : m₂.cr3 = c := List.mem_singleton.mp run
  have run₃ : m₃.cr3 ∈ [c] := cr3 ▸ run
  have bitmap : m₃.userVaddr = setBits (clearBitmap 94199) 0 true 1 :=
    maps.userVaddr.trans (congrArg (setBits · 0 true 1) user₂)
  have fits := first.free.1
  rw [show m₂.vaddrBitmap .user = _ from user₂, size_clearBitmap] at fits
  have low (w : Nat) (hw : w < userVaddrStart) : m₃.pageAt m₃.cr3 w = none := by
    have below : w < kernelStart := Nat.lt_of_lt_of_le hw (by decide)
    rw [cr3, maps.pages m₂.cr3 w (Or.inl ⟨run, below⟩) fun h =>
      absurd h.2.1 (Nat.not_le.mpr (Nat.lt_of_lt_of_le hw (Nat.le_add_right _ _)))]
    refine (reserve_frameIn (p := .page m₂.cr3 w)).trans ?_
    exact (pages₂ _ w).trans (isC ▸ nd.pageAt below)
  have heap : m₂.Heap [c] .kernel (kHeapStart + i) := by
    have := gets.first.free.1
    refine heap_kernel.mpr ⟨Nat.le_add_right _ _, ?_⟩
    rw [kernel₂, gets.shape.heap]
    omega
  refine ⟨m₃, c, ⟨0, ['i', 'n', 'i', 't'], kHeapStart + i, 0, m₃.userVaddr⟩, ?_, ⟨?_, ?_⟩, ?_⟩
  · refine ⟨ag₃, run₃, ⟨(heap_same (reserve_shape.trans maps.shape) cr3).mpr heap, ?_⟩, rfl,
      marks_of_agrees ag₃ run₃ low⟩
    have held : m₂.pageAt kernelDir (kHeapStart + i) = some m₂.cr3 :=
      (pages₂ _ _).trans (isC ▸ there)
    have valid : m₂.Valid [c] (.page kernelDir (kHeapStart + i)) := (ag₂.addr heap).valid
    rw [cr3]
    exact maps.stays (reserve_shape.valid.mpr valid)
      ((reserve_frameIn (p := .page kernelDir (kHeapStart + i))).trans held)
  · show ['i', 'n', 'i', 't'].length < 11
    decide
  · have few : markedBelow m₃.userVaddr m₃.userVaddr.size ≤ 1 := by
      rw [bitmap]
      exact markedBelow_setBits_clear _ 0 1 _ fits
    obtain ⟨t, free⟩ := sp.addresses
    refine ⟨⟨t, ?_⟩, fun pf => ?_⟩
    · rw [show m₃.kernelVaddr = m₂.kernelVaddr from maps.kernelVaddr, kernel₂]
      exact free
    · have spent := maps.spent pf
      have := sp.frames pf
      rw [reserve_pool, pool₂] at spent
      show _ + markedBelow m₃.userVaddr m₃.userVaddr.size ≤ _
      omega
  · exact (hands.used userVaddrStart (Nat.le_refl _) (Nat.lt_succ_self _)).2

/-- The theorem for that process: its page is copied. -/
theorem fork_copies_first :
    ∃ (m : Memory) (c : Nat) (parent child : Proc) (m' : Memory) (d w f : Nat),
    m.sysFork parent = .ok (some child, m') ∧ d ∉ [c] ∧
    (m.pageAt m.cr3 w).isSome = true ∧ m'.pageAt d w = some f := by
  obtain ⟨m, c, parent, runs, room, mapped⟩ := first_process
  obtain ⟨copies, succeeds⟩ := fork_copies [c] m parent runs
  obtain ⟨child, m', h⟩ := succeeds room
  obtain ⟨d, new, -, -, same, -⟩ := copies child m' h
  obtain ⟨f, hf⟩ := Option.isSome_iff_exists.mp ((same userVaddrStart (by decide)).trans mapped)
  exact ⟨m, c, parent, child, m', d, userVaddrStart, f, h, new, mapped, hf⟩

end SeekingOs
