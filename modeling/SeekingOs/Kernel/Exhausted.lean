import Mathlib.Order.Interval.Finset.Nat
import SeekingOs.Kernel.KernelPages
import SeekingOs.Kernel.Malloc
import SeekingOs.Kernel.PageRuns
import SeekingOs.Kernel.TableWords

/-!
# When memory is exhausted

`palloc` and `malloc_page` answer `NULL` when `bitmap_scan` answers −1, but `bitmap_scan` asserts
that there is a byte with a bit that is clear. So a full bitmap stops the kernel, and no `NULL`
comes out of `palloc`: `malloc_page` gives nothing back because it never has to. What is left is the
request for which the bitmap of the virtual addresses has no run, although it is not full; that one
leaves everything as it was. `malloc_page` also asserts that there are fewer than 3840 pages.
-/

namespace SeekingOs

open Lib

namespace Memory

variable {m m' m₁ : Memory} {dirs : List Nat} {v f i n w : Nat} {pf : PoolFlags}

/-! ## The frames that a range takes -/

/-- The tables that the range needs and that are not there. -/
def missingTables (m : Memory) (v n : Nat) : Finset Nat :=
  ((Finset.Ico v (v + n)).image (· / 1024)).filter fun i => m.tableAt m.cr3 i = none

/-- There are the frames that the range takes. -/
def Enough (m : Memory) (v n : Nat) : PoolFlags → Prop
  | .kernel => n ≤ m.kernelPool.freeCount
  | .user => n ≤ m.userPool.freeCount ∧ (m.missingTables v n).card ≤ m.kernelPool.freeCount

theorem missingTables_none (m : Memory) (v : Nat) : m.missingTables v 0 = ∅ := by
  unfold missingTables
  simp

/-- The tables that are missing after the first page of the range is mapped: those of before but its
own. -/
theorem missingTables_succ (there : m'.tableAt m'.cr3 (v / 1024) ≠ none)
    (others : ∀ i, i ≠ v / 1024 → m'.tableAt m'.cr3 i = m.tableAt m.cr3 i) :
    m'.missingTables (v + 1) n = (m.missingTables v (n + 1)).erase (v / 1024) := by
  unfold missingTables
  ext i
  rw [Finset.mem_erase, Finset.mem_filter, Finset.mem_filter, Finset.mem_image, Finset.mem_image]
  constructor
  · rintro ⟨⟨w, hw, rfl⟩, none⟩
    have hne : w / 1024 ≠ v / 1024 := by
      intro e
      rw [e] at none
      exact there none
    rw [others _ hne] at none
    rw [Finset.mem_Ico] at hw
    exact ⟨hne, ⟨w, Finset.mem_Ico.mpr ⟨by omega, by omega⟩, rfl⟩, none⟩
  · rintro ⟨hne, ⟨w, hw, rfl⟩, none⟩
    rw [Finset.mem_Ico] at hw
    have hwv : w ≠ v := by
      rintro rfl
      exact hne rfl
    rw [← others _ hne] at none
    exact ⟨⟨w, Finset.mem_Ico.mpr ⟨by omega, by omega⟩, rfl⟩, none⟩

theorem mem_missingTables_first : v / 1024 ∈ m.missingTables v (n + 1) ↔
    m.tableAt m.cr3 (v / 1024) = none := by
  unfold missingTables
  rw [Finset.mem_filter, and_iff_right]
  exact Finset.mem_image.mpr ⟨v, Finset.mem_Ico.mpr ⟨Nat.le_refl v, by omega⟩, rfl⟩

/-- So one table less is missing when there was none for the first page, and as many as before
otherwise. -/
theorem card_missingTables_succ (there : m'.tableAt m'.cr3 (v / 1024) ≠ none)
    (others : ∀ i, i ≠ v / 1024 → m'.tableAt m'.cr3 i = m.tableAt m.cr3 i) :
    (m'.missingTables (v + 1) n).card + (if m.tableAt m.cr3 (v / 1024) = none then 1 else 0) =
      (m.missingTables v (n + 1)).card := by
  rw [missingTables_succ there others]
  split
  next none => exact Finset.card_erase_add_one (mem_missingTables_first.mpr none)
  next some =>
    rw [Finset.erase_eq_of_notMem fun h => some (mem_missingTables_first.mp h), Nat.add_zero]

/-! ## The loop of `malloc_page` -/

/-- One page of the range: it takes its share, and the rest has to suffice for the rest. -/
theorem enough_succ (ord : m.Ordered dirs) (run : IsDir dirs m.cr3) (here : m.Addr dirs pf v)
    (grant : Granted m pf f m₁) (hadd : m₁.pageTableAdd v f = .ok m') :
    m'.Enough (v + 1) n pf ↔ m.Enough v (n + 1) pf := by
  have keeps := grant.keeps ord
  have run₁ : IsDir dirs m₁.cr3 := keeps.cr3 ▸ run
  have here₁ := keeps.addr.mpr here
  have suits : m₁.Suits (.page (m₁.owner v) v) f := by
    rw [keeps.shape.suits, keeps.owner, here.owner, ord.suits_addr here]
    exact grant.inPool
  have one := pageTableAdd_ok keeps.ordered run₁ here₁.mappable (grant.spare ord) suits hadd
  have own : m₁.owner v = m.base pf := (keeps.owner v).trans here.owner
  have count := grant.count
  have tableAt (d i : Nat) : m₁.tableAt d i = m.tableAt d i := grant.frameIn (.table d i)
  rw [own] at one
  cases pf with
  | kernel =>
    have there : (m₁.tableAt kernelDir (v / 1024)).isSome = true := by
      rw [tableAt]
      exact ord.table_there here
    have same : m'.kernelPool = m₁.kernelPool := one.spared there
    have count : m₁.kernelPool.freeCount + 1 = m.kernelPool.freeCount := count
    unfold Enough
    dsimp only
    rw [same]
    omega
  | user =>
    obtain ⟨isDir, below⟩ := here
    have count : m₁.userPool.freeCount + 1 = m.userPool.freeCount := count
    have user : m'.userPool = m₁.userPool := one.spent.2
    have other : m₁.kernelPool = m.kernelPool := grant.other .kernel nofun
    have cr3 : m'.cr3 = m.cr3 := one.cr3.trans keeps.cr3
    have words := pageTableAdd_words keeps.ordered (keeps.cr3 ▸ isDir) below hadd
    have new : m'.pageAt m.cr3 v = some f :=
      (one.pages m.cr3 v (keeps.shape.valid.mpr (.inl ⟨isDir, below⟩))).trans (if_pos ⟨rfl, rfl⟩)
    obtain ⟨t, table, -⟩ := pageAt_some.mp new
    have tables :=
      @card_missingTables_succ m m' v n (by rw [cr3, table]; exact Option.some_ne_none t)
        (fun i hi => by
      rw [← tableAt]
      unfold Memory.tableAt
      rw [cr3, ← keeps.cr3, words.dir i hi])
    have spent : m'.kernelPool.freeCount + (if m.tableAt m.cr3 (v / 1024) = none then 1 else 0) =
        m.kernelPool.freeCount := by
      split
      next none =>
        rw [← other]
        apply pageTableAdd_spends keeps.ordered run₁ ?_ hadd
        rw [tableAt, keeps.cr3]
        exact none
      next some =>
        rw [one.spared, other, Nat.add_zero]
        rw [tableAt]
        exact Option.isSome_iff_ne_none.mpr some
    unfold Enough
    dsimp only
    rw [user]
    omega

/-- Where there is enough, the first page gets its table. -/
theorem Enough.table (enough : m.Enough v (n + 1) pf) (ord : m.Ordered dirs)
    (here : m.Addr dirs pf v) (none : m.tableAt (m.base pf) (v / 1024) = none) :
    0 < m.kernelPool.freeCount := by
  cases pf with
  | kernel =>
    have there := ord.table_there here
    rw [show m.tableAt kernelDir (v / 1024) = Option.none from none] at there
    cases there
  | user =>
    exact Nat.lt_of_lt_of_le (Finset.card_pos.mpr ⟨_, mem_missingTables_first.mpr none⟩) enough.2

/-- And a frame. -/
theorem Enough.frame (enough : m.Enough v (n + 1) pf) : 0 < (m.pool pf).freeCount := by
  cases pf with
  | kernel => exact Nat.lt_of_lt_of_le (Nat.succ_pos n) enough
  | user => exact Nat.lt_of_lt_of_le (Nat.succ_pos n) enough.1

/-- THE LOOP OF `malloc_page` comes to its end exactly when there are frames enough. -/
theorem mapPages_iff (ord : m.Ordered dirs) (run : IsDir dirs m.cr3)
    (addr : ∀ w, v ≤ w → w < v + n → m.Addr dirs pf w)
    (fresh : ∀ w, v ≤ w → w < v + n → m.pageAt (m.base pf) w = none) :
    (∃ r, m.mapPages pf v n = .ok r) ↔ m.Enough v n pf := by
  induction n generalizing m v with
  | zero =>
    refine iff_of_true ⟨(true, m), rfl⟩ ?_
    cases pf with
    | kernel => exact Nat.zero_le _
    | user =>
      refine ⟨Nat.zero_le _, ?_⟩
      rw [missingTables_none]
      exact Nat.zero_le _
  | succ n ih =>
    have here := addr v (Nat.le_refl v) (by omega)
    cases hpalloc : m.palloc pf with
    | error e =>
      refine iff_of_false ?_ ?_
      · rintro ⟨r, h⟩
        unfold mapPages at h
        rw [hpalloc] at h
        cases h
      · intro enough
        obtain ⟨f, m₁, h, -⟩ := palloc_total ord.layout enough.frame
        rw [hpalloc] at h
        cases h
    | ok r =>
      obtain ⟨f, m₁⟩ := r
      have grant := palloc_ok ord.layout hpalloc
      have keeps := grant.keeps ord
      have here₁ := keeps.addr.mpr here
      have own : m₁.owner v = m.base pf := (keeps.owner v).trans here.owner
      have unfolded :
          m.mapPages pf v (n + 1) = (m₁.pageTableAdd v f >>= fun m => m.mapPages pf (v + 1) n) := by
        rw [mapPages, hpalloc, ok_bind]
        exact if_neg (grant.ne_zero ord.layout)
      rw [unfolded]
      cases hadd : m₁.pageTableAdd v f with
      | error e =>
        refine iff_of_false ?_ ?_
        · rintro ⟨r, h⟩
          cases h
        · intro enough
          have fresh₁ : m₁.pageAt (m₁.owner v) v = none := by
            rw [own]
            exact (grant.frameIn (.page _ v)).trans (fresh v (Nat.le_refl v) (by omega))
          obtain ⟨m', h⟩ :=
            pageTableAdd_total keeps.ordered (keeps.cr3 ▸ run) here₁.mappable fresh₁ (fun none => by
            rw [own, show m₁.tableAt _ (v / 1024) = _ from grant.frameIn (.table _ _)] at none
            have frame := enough.table ord here none
            cases pf with
            | kernel =>
              have there := ord.table_there here
              rw [show m.tableAt kernelDir (v / 1024) = Option.none from none] at there
              cases there
            | user =>
              rw [show m₁.kernelPool = m.kernelPool from grant.other .kernel nofun]
              exact frame) f
          rw [hadd] at h
          cases h
      | ok m₂ =>
        have suits : m₁.Suits (.page (m₁.owner v) v) f := by
          rw [keeps.shape.suits, keeps.owner, here.owner, ord.suits_addr here]
          exact grant.inPool
        have first :=
          grant.maps ord here (pageTableAdd_ok keeps.ordered (keeps.cr3 ▸ run) here₁.mappable
            (grant.spare ord) suits hadd)
        rw [← enough_succ ord run here grant hadd, ok_bind]
        apply ih first.ordered (first.cr3 ▸ run)
        · intro w hw hw'
          exact first.addr.mpr (addr w (by omega) (by omega))
        · intro w hw hw'
          rw [first.base, first.pages _ _ (addr w (by omega) (by omega)).valid fun hc => by omega]
          exact fresh w (by omega) (by omega)

/-! ## `malloc_page` -/

/-- A bit is clear. -/
def NotFull (b : Bitmap) : Prop := ∃ i, i < b.size ∧ b.test i = false

/-- The first run may be taken: for a process it does not start with the page of its stack, and
there are frames enough. -/
def Takes (m : Memory) (pf : PoolFlags) (n i : Nat) : Prop :=
  (pf = .user → userVaddrStart + i < kernelStart - 1) ∧ m.Enough (vaddrStart pf + i) n pf

/-- WHAT `malloc_page` COPES WITH: fewer than 3840 pages, a bitmap that is not full, and frames
enough for the run, when there is one. -/
structure PageFits (m : Memory) (pf : PoolFlags) (n : Nat) : Prop where
  count : 0 < n ∧ n < 3840
  notFull : NotFull (m.vaddrBitmap pf)
  takes : ∀ i, (m.vaddrBitmap pf).FirstRun n i → m.Takes pf n i

/-- A scan that comes to its end has found a byte with a bit that is clear. -/
theorem bitmapScan_notFull {b : Bitmap} {r : Option Nat} (h : bitmapScan false b n = .ok r) :
    NotFull b := by
  unfold bitmapScan at h
  obtain ⟨_, _, h⟩ := bind_eq_ok.mp h
  obtain ⟨_, hlt, h⟩ := bind_eq_ok.mp h
  have first := (firstZero_spec b (assertThat_ok hlt)).free
  exact ⟨_, first.1, first.2 _ (Nat.le_refl _) (Nat.lt_succ_self _)⟩

theorem firstRun_unique {b : Bitmap} {i j : Nat} (h : b.FirstRun n i) (h' : b.FirstRun n j) :
    i = j := by
  apply Nat.le_antisymm
  · by_contra hlt
    exact h.least j (by omega) h'.free
  · by_contra hlt
    exact h'.least i (by omega) h.free

/-- `vaddr_get` comes to its end when the bitmap is not full, and the first run does not start with
the stack. -/
theorem vaddrGet_iff (hn : 1 ≤ n) (r : Option (Nat × Memory)) : m.vaddrGet pf n = .ok r ↔
    NotFull (m.vaddrBitmap pf) ∧ ((r = none ∧ ∀ t, ¬ (m.vaddrBitmap pf).FreeRun n t) ∨
      ∃ i, (m.vaddrBitmap pf).FirstRun n i ∧ (pf = .user → userVaddrStart + i < kernelStart - 1) ∧
        r = some (vaddrStart pf + i, m.reserve i true n pf)) := by
  have spec := scanAnswer_spec (m.vaddrBitmap pf) hn
  by_cases notFull : NotFull (m.vaddrBitmap pf)
  · have scan : bitmapScan false (m.vaddrBitmap pf) n = .ok (scanAnswer (m.vaddrBitmap pf) n) :=
      bitmapScan_total hn notFull
    rw [and_iff_right notFull]
    cases hanswer : scanAnswer (m.vaddrBitmap pf) n with
    | none =>
      rw [hanswer] at scan spec
      have answer : m.vaddrGet pf n = .ok none := by
        cases pf with
        | kernel => exact congrArg (· >>= _) scan
        | user => exact congrArg (· >>= _) scan
      rw [answer, Except.ok.injEq]
      constructor
      · rintro rfl
        exact .inl ⟨rfl, spec⟩
      · rintro (⟨rfl, -⟩ | ⟨i, first, -⟩)
        · rfl
        · exact absurd first.free (spec i)
    | some i =>
      rw [hanswer] at scan spec
      have alone : (r = none ∧ ∀ t, ¬ (m.vaddrBitmap pf).FreeRun n t) ↔ False :=
        iff_false_intro fun h => h.2 i spec.free
      rw [alone, false_or]
      by_cases stack : pf = .user → userVaddrStart + i < kernelStart - 1
      · have answer : m.vaddrGet pf n = .ok (some (vaddrStart pf + i, m.reserve i true n pf)) := by
          cases pf with
          | kernel => exact congrArg (· >>= _) scan
          | user =>
            refine (congrArg (· >>= _) scan).trans ?_
            rw [ok_bind]
            dsimp only
            rw [assertThat_of (stack rfl)]
            rfl
        rw [answer, Except.ok.injEq]
        constructor
        · rintro rfl
          exact ⟨i, spec, stack, rfl⟩
        · rintro ⟨j, first, -, rfl⟩
          rw [firstRun_unique first spec]
      · refine iff_of_false ?_ ?_
        · intro h
          cases pf with
          | kernel => exact stack nofun
          | user =>
            obtain ⟨scan', hscan, h⟩ := bind_eq_ok.mp h
            obtain rfl := Except.ok.inj (hscan.symm.trans scan)
            obtain ⟨_, below, -⟩ := bind_eq_ok.mp h
            exact stack fun _ => assertThat_ok below
        · rintro ⟨j, first, stack', -⟩
          rw [firstRun_unique first spec] at stack'
          exact stack stack'
  · refine iff_of_false ?_ fun h => notFull h.1
    intro h
    cases pf with
    | kernel =>
      obtain ⟨scan, hscan, -⟩ := bind_eq_ok.mp h
      exact notFull (bitmapScan_notFull hscan)
    | user =>
      obtain ⟨scan, hscan, -⟩ := bind_eq_ok.mp h
      exact notFull (bitmapScan_notFull hscan)

/-- Taking addresses takes no frames. -/
theorem reserve_enough {value : Bool} {pf' : PoolFlags} : (m.reserve i value n pf).Enough v w pf' ↔
    m.Enough v w pf' := by
  have tables : (m.reserve i value n pf).missingTables v w = m.missingTables v w := by
    cases pf <;> rfl
  cases pf' with
  | kernel =>
    unfold Enough
    dsimp only
    rw [show (m.reserve i value n pf).kernelPool = m.kernelPool by cases pf <;> rfl]
  | user =>
    unfold Enough
    dsimp only
    rw [tables, show (m.reserve i value n pf).kernelPool = m.kernelPool by cases pf <;> rfl,
      show (m.reserve i value n pf).userPool = m.userPool by cases pf <;> rfl]

/-- The pages of a free run of addresses can be mapped. -/
theorem freeRun_pages (ag : m.Agrees dirs) (user : pf = .user → m.cr3 ∈ dirs)
    (free : (m.vaddrBitmap pf).FreeRun n i) (hw : vaddrStart pf + i ≤ w)
    (hw' : w < vaddrStart pf + i + n) :
    (m.reserve i true n pf).Addr dirs pf w ∧
    (m.reserve i true n pf).pageAt ((m.reserve i true n pf).base pf) w = none := by
  have heap : m.Heap dirs pf w := heap_freeRun free rfl user hw hw'
  constructor
  · have here := ag.addr heap
    cases pf with
    | kernel =>
      unfold Addr at here ⊢
      rwa [reserve_shape.heap]
    | user => exact here
  · have clear := free.2 (w - vaddrStart pf) (by omega) (by omega)
    have iff := ag.bits pf w heap
    rw [clear] at iff
    rw [reserve_base, show (m.reserve i true n pf).pageAt (m.base pf) w =
      m.pageAt (m.base pf) w from reserve_frameIn (p := .page _ w)]
    exact Option.not_isSome_iff_eq_none.mp fun h => Bool.false_ne_true (iff.mpr h)

/-- `malloc_page` COMES TO ITS END exactly for the requests that it copes with. -/
theorem mallocPage_iff (ag : m.Agrees dirs) (user : pf = .user → m.cr3 ∈ dirs) :
    (∃ r, m.mallocPage pf n = .ok r) ↔ m.PageFits pf n := by
  have loop (i : Nat) (first : (m.vaddrBitmap pf).FirstRun n i) :
      (∃ r, (m.reserve i true n pf).mapPages pf (vaddrStart pf + i) n = .ok r) ↔
        m.Enough (vaddrStart pf + i) n pf := by
    rw [← reserve_enough]
    have cr3 : (m.reserve i true n pf).cr3 = m.cr3 := by cases pf <;> rfl
    apply mapPages_iff (reserve_ordered ag.ordered) (cr3 ▸ ag.run)
    · intro w hw hw'
      exact (freeRun_pages ag user first.free hw hw').1
    · intro w hw hw'
      exact (freeRun_pages ag user first.free hw hw').2
  constructor
  · rintro ⟨r, h⟩
    unfold mallocPage at h
    obtain ⟨_, hcount, h⟩ := bind_eq_ok.mp h
    have count := assertThat_ok hcount
    obtain ⟨r', hvaddr, h⟩ := bind_eq_ok.mp h
    obtain ⟨notFull, answer⟩ := (vaddrGet_iff count.1 r').mp hvaddr
    refine ⟨count, notFull, ?_⟩
    intro i first
    rcases answer with ⟨rfl, no⟩ | ⟨j, first', stack, rfl⟩
    · exact absurd first.free (no i)
    · obtain rfl := firstRun_unique first first'
      obtain ⟨r'', hmap, -⟩ := bind_eq_ok.mp h
      exact ⟨stack, (loop i first).mp ⟨r'', hmap⟩⟩
  · intro fits
    unfold mallocPage
    rw [assertThat_of fits.count, ok_bind]
    by_cases some : ∃ t, (m.vaddrBitmap pf).FreeRun n t
    · obtain ⟨t, free⟩ := some
      obtain ⟨i, -, first⟩ : ∃ i, bitmapScan false (m.vaddrBitmap pf) n = .ok (some i) ∧ _ :=
        bitmapScan_some fits.count.1 free
      obtain ⟨stack, enough⟩ := fits.takes i first
      obtain ⟨r, hmap⟩ := (loop i first).mpr enough
      rw [(vaddrGet_iff fits.count.1 _).mpr ⟨fits.notFull, .inr ⟨i, first, stack, rfl⟩⟩, ok_bind]
      dsimp only
      rw [hmap]
      exact ⟨_, rfl⟩
    · rw [(vaddrGet_iff fits.count.1 none).mpr ⟨fits.notFull, .inl ⟨rfl, not_exists.mp some⟩⟩]
      exact ⟨_, rfl⟩

/-- Where there is room, pages of the kernel heap are handed out. -/
theorem Room.gets (room : m.Room .kernel n) (ag : m.Agrees dirs) : ∃ i m', Gets m m' dirs i n := by
  have user : PoolFlags.kernel = .user → m.cr3 ∈ dirs := nofun
  obtain ⟨i, m', -, alloc⟩ := mallocPage_total ag user room
  rcases mallocPage_ok ag user alloc with ⟨hno, -⟩ | ⟨j, -, first, maps⟩
  · cases hno
  · exact ⟨j, m', mallocPage_gets ag first maps⟩

/-- The pages that `malloc_page` answers can be cleared, and read after that. -/
theorem mallocPage_clear {a : Nat} (ag : m.Agrees dirs) (user : pf = .user → m.cr3 ∈ dirs)
    (func : String) (h : m.mallocPage pf n = .ok (some a, m')) :
    ∃ m₂, m'.clearPages func a n = .ok m₂ ∧ ∀ w, a ≤ w → w < a + n →
      ∃ words, m₂.readPage func w = .ok words := by
  rcases mallocPage_ok ag user h with ⟨hno, -⟩ | ⟨i, ha, first, maps⟩
  · cases hno
  · cases ha
    have ord : (m.reserve i true n pf).Ordered dirs := reserve_ordered ag.ordered
    have cr3 : m'.cr3 = m.cr3 := by
      rw [maps.cr3]
      cases pf <;> rfl
    have base : m'.base pf = m.base pf := maps.toKeeps.base.trans reserve_base
    have addr (w : Nat) (hw : vaddrStart pf + i ≤ w) (hw' : w < vaddrStart pf + i + n) :
        m'.Addr dirs pf w :=
      maps.toKeeps.addr.mpr (freeRun_pages ag user first.free hw hw').1
    have there (w : Nat) (hw : vaddrStart pf + i ≤ w) (hw' : w < vaddrStart pf + i + n) :
        ∃ f, m'.pageAt (m'.base pf) w = some f ∧ f ∉ dirs := by
      obtain ⟨f, hf, free⟩ := maps.new w hw hw'
      rw [base]
      refine ⟨f, hf, fun hd => free ?_⟩
      obtain ⟨q, hq, held, -⟩ := ord.heldDir (.inr hd)
      exact ord.taken hq held
    obtain ⟨m₂, hclear, writes, -⟩ := clearPages_total func maps.ordered (cr3 ▸ ag.run) addr there
    refine ⟨m₂, hclear, ?_⟩
    intro w hw hw'
    obtain ⟨f, hf, -⟩ := there w hw hw'
    have held : m₂.pageAt (m₂.base pf) w = some f := by
      rw [writes.base]
      exact (writes.frames _ (addr w hw hw').valid).trans hf
    exact ⟨_, writes.ordered.readPage_eq (writes.cr3 ▸ cr3 ▸ ag.run)
      (writes.addr.mpr (addr w hw hw')) held⟩

end Memory

/-! ## The blocks of an arena -/

theorem blockSize_pos (i : Nat) : 0 < blockSize i := Nat.mul_pos (by decide) (Nat.two_pow_pos i)

/-- A block lies in its page, after the header. -/
theorem arena2block_page {page i idx : Nat} (h : idx < blocksPerArena i) :
    arena2block page i idx / 4096 = page ∧
    (arena2block page i idx + blockSize i - 1) / 4096 = page := by
  have pos := blockSize_pos i
  have fits : (idx + 1) * blockSize i ≤ 4096 - arenaSize :=
    Nat.le_trans (Nat.mul_le_mul_right _ h) (Nat.div_mul_le_self _ _)
  rw [Nat.add_mul, Nat.one_mul] at fits
  unfold arena2block arenaSize at *
  omega

theorem arena2block_inj {page i j k : Nat} (h : arena2block page i j = arena2block page i k) :
    j = k := by
  unfold arena2block at h
  exact Nat.eq_of_mul_eq_mul_right (blockSize_pos i) (Nat.add_left_cancel h)

/-- The smallest blocks that a small request fits. -/
theorem matchDesc_spec {size : Nat} (h : size ≤ 1024) :
    matchDesc size < descCnt ∧ size ≤ blockSize (matchDesc size) := by
  unfold matchDesc
  have some : ((List.range descCnt).find? fun descIdx => size ≤ blockSize descIdx).isSome =
      true := by
    rw [List.find?_isSome]
    exact ⟨6, by decide, decide_eq_true h⟩
  obtain ⟨i, hi⟩ := Option.isSome_iff_exists.mp some
  have fits := List.find?_some hi
  rw [hi, Option.getD_some]
  exact ⟨List.mem_range.mp (List.mem_of_find?_eq_some hi), of_decide_eq_true fits⟩

theorem matchDesc_lt {size : Nat} (h : size ≤ 1024) : matchDesc size < descCnt :=
  (matchDesc_spec h).1

theorem blocksPerArena_pos {i : Nat} (h : i < descCnt) : 0 < blocksPerArena i := by
  revert i
  decide

/-- An arena is cut into blocks, none of which is on the list before. -/
theorem splitArena_eq {page i left k : Nat} {d : BlockDescs}
    (h : ∀ b ∈ d.freeList i, ∃ j < k, b = arena2block page i j) :
    d.splitArena page i left k =
      .ok (d.setFreeList i (d.freeList i ++ (List.range' k left).map (arena2block page i))) := by
  induction left generalizing k d with
  | zero =>
    rw [List.range'_zero, List.map_nil, List.append_nil, BlockDescs.setFreeList_same]
    rfl
  | succ left ih =>
    have new : arena2block page i k ∉ d.freeList i := by
      intro hmem
      obtain ⟨j, hj, e⟩ := h _ hmem
      have := arena2block_inj e
      omega
    unfold BlockDescs.splitArena
    dsimp only
    rw [assertThat_of new, ok_bind, ih]
    · rw [BlockDescs.setFreeList_freeList_self, BlockDescs.setFreeList_twice, List.append_assoc,
        List.range'_succ, List.map_cons]
      rfl
    · intro b hb
      rw [BlockDescs.setFreeList_freeList_self] at hb
      rcases List.mem_append.mp hb with hb | hb
      · obtain ⟨j, hj, e⟩ := h b hb
        exact ⟨j, by omega, e⟩
      · exact ⟨k, Nat.lt_succ_self k, List.mem_singleton.mp hb⟩

/-- The blocks of an arena. -/
def arenaBlocks (page i : Nat) : List Nat :=
  (List.range (blocksPerArena i)).map (arena2block page i)

theorem arenaBlocks_first {i : Nat} (page : Nat) (hi : i < descCnt) :
    ∃ rest, arenaBlocks page i = arena2block page i 0 :: rest := by
  obtain ⟨left, hleft⟩ := Nat.exists_eq_succ_of_ne_zero (Nat.ne_of_gt (blocksPerArena_pos hi))
  unfold arenaBlocks
  rw [hleft, List.range_succ_eq_map]
  exact ⟨_, rfl⟩

/-- An arena whose blocks are all that the list has. -/
def BlockDescs.cutArena (d : BlockDescs) (page i : Nat) : BlockDescs :=
  (d.setArena page ⟨some i, blocksPerArena i, false⟩).setFreeList i (arenaBlocks page i)

/-! ## `sys_malloc` -/

/-- NO ASSERTION FAILS, AND `NULL` MEANS NO CHANGE. -/
def Orderly {σ : Type} (s : σ) : Except Fault (Option Nat × σ) → Prop
  | .ok (none, s') => s' = s
  | .ok (some _, _) => True
  | .error _ => False

namespace Allocator

variable {s : Allocator} {dirs : List Nat} {pf : PoolFlags} {i size : Nat}

/-- The blocks on the lists are blocks of pages of the heap that are there. -/
def BlocksThere (s : Allocator) (dirs : List Nat) (pf : PoolFlags) : Prop :=
  ∀ i < descCnt, ∀ b ∈ s.descs.freeList i, ∃ page idx, idx < blocksPerArena i ∧
    b = arena2block page i idx ∧
    s.memory.Heap dirs pf page ∧ (s.memory.pageAt (s.memory.base pf) page).isSome = true

/-- What a request asks of `malloc_page`, if anything, is something that it copes with. -/
def Copes (s : Allocator) (pf : PoolFlags) (size : Nat) : Prop :=
  ∀ n, s.pagesAsked pf size = some n → s.memory.PageFits pf n

/-- A list that has a block in a page that is there gives one. -/
theorem takeBlock_total {b page idx : Nat} {rest : List Nat}
    (hlist : s.descs.freeList i = b :: rest) (hidx : idx < blocksPerArena i)
    (hb : b = arena2block page i idx)
    (hread : ∃ words, s.memory.readPage "sys_malloc" page = .ok words) :
    ∃ r, s.takeBlock i = .ok r := by
  obtain ⟨first, last⟩ := @arena2block_page page i idx hidx
  obtain ⟨words, hread⟩ := hread
  unfold takeBlock
  rw [hlist]
  dsimp only
  rw [hb, first, last, hread]
  exact ⟨_, rfl⟩

/-- A page is cut into the blocks of a list that is empty. -/
theorem cutArena_eq {d : BlockDescs} (page : Nat) (empty : d.freeList i = []) :
    (d.setArena page ⟨some i, blocksPerArena i, false⟩).splitArena page i (blocksPerArena i) 0 =
      .ok (d.cutArena page i) := by
  rw [splitArena_eq fun b hb => ?_]
  · rw [BlockDescs.setArena_freeList, empty, List.nil_append, ← List.range_eq_range']
    rfl
  · rw [BlockDescs.setArena_freeList, empty] at hb
    cases hb

/-- A new arena, when `malloc_page` has answered: all of its blocks are on the list. -/
theorem newArena_eq {a : Nat} {m m₂ : Memory} (empty : s.descs.freeList i = [])
    (hpage : s.memory.mallocPage pf 1 = .ok (some a, m))
    (hclear : m.clearPages "sys_malloc" a 1 = .ok m₂) :
    s.newArena pf i = .ok (true, { s with memory := m₂, descs := s.descs.cutArena a i }) := by
  unfold newArena
  rw [hpage, ok_bind]
  dsimp only
  rw [hclear, ok_bind, cutArena_eq a empty]
  rfl

/-- So it gives one. -/
theorem newArena_total {a : Nat} {m : Memory} (ag : s.memory.Agrees dirs)
    (user : pf = .user → s.memory.cr3 ∈ dirs) (hi : i < descCnt) (empty : s.descs.freeList i = [])
    (hpage : s.memory.mallocPage pf 1 = .ok (some a, m)) :
    ∃ s' r, s.newArena pf i = .ok (true, s') ∧ s'.takeBlock i = .ok r := by
  obtain ⟨m₂, hclear, hread⟩ := Memory.mallocPage_clear ag user "sys_malloc" hpage
  obtain ⟨rest, hrest⟩ := arenaBlocks_first a hi
  obtain ⟨r, htake⟩ :=
    @takeBlock_total { s with memory := m₂, descs := s.descs.cutArena a i } i _ a 0 rest
    (BlockDescs.setFreeList_freeList_self.trans hrest) (blocksPerArena_pos hi) rfl
      (hread a (Nat.le_refl a) (Nat.lt_succ_self a))
  exact ⟨_, r, newArena_eq empty hpage hclear, htake⟩

/-- A large request comes to its end when `malloc_page` does, and leaves everything alone when that
answers `NULL`. -/
theorem mallocLarge_orderly (ag : s.memory.Agrees dirs) (user : pf = .user → s.memory.cr3 ∈ dirs) :
    Orderly s (s.mallocLarge pf size) ↔ ∃ r, s.memory.mallocPage pf (largePages size) = .ok r := by
  unfold mallocLarge
  dsimp only
  cases hpage : s.memory.mallocPage pf (largePages size) with
  | error e =>
    refine iff_of_false id ?_
    rintro ⟨r, h⟩
    cases h
  | ok r =>
    refine iff_of_true ?_ ⟨r, rfl⟩
    obtain ⟨a, m⟩ := r
    rw [ok_bind]
    cases a with
    | none =>
      rcases Memory.mallocPage_ok ag user hpage with ⟨-, rfl⟩ | ⟨i, hno, -⟩
      · rfl
      · cases hno
    | some a =>
      obtain ⟨m₂, hclear, -⟩ := Memory.mallocPage_clear ag user "sys_malloc" hpage
      dsimp only
      rw [hclear]
      trivial

/-- A small request for which there is a block. -/
theorem mallocSmall_block (ag : s.memory.Agrees dirs) (blocks : s.BlocksThere dirs pf)
    (hsize : size ≤ 1024) (some : s.descs.freeList (matchDesc size) ≠ []) :
    Orderly s (s.mallocSmall pf size) := by
  obtain ⟨b, rest, hlist⟩ := List.exists_cons_of_ne_nil some
  obtain ⟨page, idx, hidx, hb, heap, there⟩ :=
    blocks _ (matchDesc_lt hsize) b (hlist ▸ List.mem_cons_self)
  obtain ⟨f, hf⟩ := Option.isSome_iff_exists.mp there
  have hread : s.memory.readPage "sys_malloc" page = .ok (s.memory.ram f) :=
    ag.ordered.readPage_eq ag.run (ag.addr heap) hf
  obtain ⟨r, htake⟩ := takeBlock_total hlist hidx hb ⟨_, hread⟩
  unfold mallocSmall
  dsimp only
  rw [if_neg some]
  show Orderly s (s.takeBlock (matchDesc size) >>= _)
  rw [htake]
  trivial

/-- A small request that needs an arena. -/
theorem mallocSmall_arena (ag : s.memory.Agrees dirs) (user : pf = .user → s.memory.cr3 ∈ dirs)
    (hsize : size ≤ 1024) (empty : s.descs.freeList (matchDesc size) = []) :
    Orderly s (s.mallocSmall pf size) ↔ ∃ r, s.memory.mallocPage pf 1 = .ok r := by
  unfold mallocSmall
  dsimp only
  rw [if_pos empty]
  cases hpage : s.memory.mallocPage pf 1 with
  | error e =>
    refine iff_of_false ?_ ?_
    · unfold newArena
      rw [hpage]
      exact id
    · rintro ⟨r, h⟩
      cases h
  | ok r =>
    refine iff_of_true ?_ ⟨r, rfl⟩
    obtain ⟨a, m⟩ := r
    cases a with
    | none =>
      unfold newArena
      rw [hpage]
      rcases Memory.mallocPage_ok ag user hpage with ⟨-, rfl⟩ | ⟨i, hno, -⟩
      · rfl
      · cases hno
    | some a =>
      obtain ⟨s', r, hnew, htake⟩ := newArena_total ag user (matchDesc_lt hsize) empty hpage
      rw [hnew, ok_bind]
      show Orderly s (s'.takeBlock (matchDesc size) >>= _)
      rw [htake]
      trivial

theorem mallocPage_orderly {m : Memory} {n : Nat} (ag : m.Agrees dirs)
    (user : pf = .user → m.cr3 ∈ dirs) : Orderly m (m.mallocPage pf n) ↔ m.PageFits pf n := by
  rw [← Memory.mallocPage_iff ag user]
  cases hpage : m.mallocPage pf n with
  | error e =>
    refine iff_of_false id ?_
    rintro ⟨r, h⟩
    cases h
  | ok r =>
    refine iff_of_true ?_ ⟨r, rfl⟩
    obtain ⟨a, m'⟩ := r
    cases a with
    | none =>
      rcases Memory.mallocPage_ok ag user hpage with ⟨-, rfl⟩ | ⟨i, hno, -⟩
      · rfl
      · cases hno
    | some a => trivial

/-- MEMORY EXHAUSTION. A request fails no assertion, and leaves everything as it was when it answers
`NULL`, exactly when `malloc_page` copes with what it is asked for; and so does that call by itself.
-/
theorem malloc_orderly_iff (dirs : List Nat) (s : Allocator) (pf : PoolFlags) (size : Nat)
    (ag : s.memory.Agrees dirs) (user : pf = .user → s.memory.cr3 ∈ dirs)
    (blocks : s.BlocksThere dirs pf) :
    (Orderly s (s.sysMalloc pf size) ↔ s.Copes pf size) ∧
      ∀ n, s.pagesAsked pf size = some n →
        (Orderly s.memory (s.memory.mallocPage pf n) ↔ s.memory.PageFits pf n) := by
  refine ⟨?_, fun n _ => mallocPage_orderly ag user⟩
  unfold sysMalloc Copes pagesAsked
  by_cases refused : ¬ (size > 0 ∧ size < s.poolSize pf)
  · rw [if_pos refused, if_pos refused]
    exact iff_of_true rfl nofun
  rw [if_neg refused, if_neg refused]
  by_cases large : size > 1024
  · rw [if_pos large, if_pos large, mallocLarge_orderly ag user, Memory.mallocPage_iff ag user]
    constructor
    · rintro fits n h
      cases h
      exact fits
    · intro copes
      exact copes _ rfl
  rw [if_neg large, if_neg large]
  by_cases empty : s.descs.freeList (matchDesc size) = []
  · rw [if_pos empty, mallocSmall_arena ag user (Nat.le_of_not_lt large) empty,
      Memory.mallocPage_iff ag user]
    constructor
    · rintro fits n h
      cases h
      exact fits
    · intro copes
      exact copes _ rfl
  · rw [if_neg empty]
    exact iff_of_true (mallocSmall_block ag blocks (Nat.le_of_not_lt large) empty) nofun

/-! ### After the start of the kernel -/

/-- The allocator of the kernel after its start: no block is on a list. -/
def boot : Allocator where
  memory := bootMemory
  descs := { freeList := fun _ => [], arena := fun _ => ⟨none, 0, false⟩ }
  poolSize _ := 3840 * 4096

theorem boot_blocks : boot.BlocksThere [] .kernel := by
  intro i _ b hb
  cases hb

theorem boot_asked : boot.pagesAsked .kernel 5000 = some 2 := by
  unfold pagesAsked
  rw [if_neg (by decide), if_pos (by decide), show largePages 5000 = 2 by decide]

theorem boot_copes : boot.Copes .kernel 5000 := by
  intro n h
  rw [boot_asked] at h
  cases h
  refine ⟨by decide, ⟨0, ?_, test_clearBitmap 480 0⟩, fun i _ => ⟨nofun, ?_⟩⟩
  · rw [show boot.memory.vaddrBitmap .kernel = clearBitmap 480 from rfl, size_clearBitmap]
    decide
  · show 2 ≤ boot.memory.kernelPool.freeCount
    rw [show boot.memory.kernelPool.freeCount = _ from freeCount_clearBitmap 480 512]
    decide

/-- The theorem for a request for two pages, which there are. -/
theorem malloc_orderly_two : (Orderly boot (boot.sysMalloc .kernel 5000) ↔
      boot.Copes .kernel 5000) ∧ boot.Copes .kernel 5000 :=
  ⟨(malloc_orderly_iff [] boot .kernel 5000 boot_agrees nofun boot_blocks).1, boot_copes⟩

/-- Two requests take all pages: 3839 and then the last one. -/
theorem boot_exhausted :
    ∃ m : Memory, m.Agrees [] ∧ ∀ i < m.kernelVaddr.size, m.kernelVaddr.test i = true := by
  have size : bootMemory.kernelVaddr.size = 3840 := size_clearBitmap 480
  have free : (bootMemory.pool .kernel).freeCount = 3840 := freeCount_clearBitmap 480 512
  obtain ⟨i₁, m₁, gets₁⟩ := (boot_room (n := 3839) (by decide) (by decide)).gets boot_agrees
  have size₁ : m₁.kernelVaddr.size = 3840 := gets₁.shape.heap.trans size
  have low₁ : i₁ + 3839 ≤ 3840 := by
    rw [← size]
    exact gets₁.first.free.1
  have bits₁ (j : Nat) : m₁.kernelVaddr.test j = if i₁ ≤ j ∧ j < i₁ + 3839 then true
      else false := by
    rw [gets₁.kernelVaddr, Memory.test_setBits gets₁.first.free.1,
      show bootMemory.kernelVaddr.test j = false from test_clearBitmap 480 j]
  -- the run starts at bit 0 or at bit 1, and so one bit is left
  have room : m₁.Room .kernel 1 := by
    refine ⟨by decide, ⟨if i₁ = 0 then 3839 else 0, ⟨?_, fun j hj hj' => ?_⟩, nofun⟩, ?_, nofun⟩
    · rw [show m₁.vaddrBitmap .kernel = m₁.kernelVaddr from rfl, size₁]
      split <;> omega
    · show m₁.kernelVaddr.test j = false
      rw [bits₁, if_neg]
      split at hj
      · split at hj' <;> omega
      · split at hj' <;> omega
    · have spent := gets₁.spent .kernel
      omega
  obtain ⟨i₂, m₂, gets₂⟩ := room.gets gets₁.agrees
  have low₂ : i₂ + 1 ≤ 3840 := by
    rw [← size₁]
    exact gets₂.first.free.1
  have clear : m₁.kernelVaddr.test i₂ = false :=
    gets₂.first.free.2 i₂ (Nat.le_refl _) (Nat.lt_succ_self _)
  refine ⟨m₂, gets₂.agrees, fun j hj => ?_⟩
  rw [gets₂.shape.heap, size₁] at hj
  rw [bits₁] at clear
  rw [gets₂.kernelVaddr, Memory.test_setBits gets₂.first.free.1, bits₁]
  split at clear
  · cases clear
  · split_ifs
    · rfl
    · rfl
    · omega

/-- NOTHING IS LEFT. With all pages of the kernel handed out, a small request fails the assertion of
`bitmap_scan`. -/
theorem last_page_stops :
    ¬ ∀ (dirs : List Nat) (s : Allocator) (pf : PoolFlags) (size : Nat), s.memory.Agrees dirs →
    (pf = .user → s.memory.cr3 ∈ dirs) → s.BlocksThere dirs pf →
    Orderly s (s.sysMalloc pf size) := by
  intro claim
  obtain ⟨m, ag, full⟩ := boot_exhausted
  have user : PoolFlags.kernel = .user → m.cr3 ∈ [] := nofun
  have orderly :=
    claim [] { boot with memory := m } .kernel 16 ag user fun _ _ _ hb => absurd hb List.not_mem_nil
  unfold sysMalloc at orderly
  rw [if_neg (fun h => h (show 16 > 0 ∧ 16 < 3840 * 4096 by decide)), if_neg (by decide)] at orderly
  obtain ⟨i, hi, clear⟩ :=
    ((Memory.mallocPage_iff ag user).mp
      ((mallocSmall_arena ag user (by decide) rfl).mp orderly)).notFull
  have set : m.kernelVaddr.test i = true := full i hi
  rw [show m.kernelVaddr.test i = false from clear] at set
  cases set

end Allocator

end SeekingOs
