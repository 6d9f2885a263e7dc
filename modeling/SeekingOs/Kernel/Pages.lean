import SeekingOs.Kernel.Mapping

/-!
# Ranges of pages

`malloc_page` takes virtual addresses first and then maps page after page to frames as they come;
`mfree_page` looks up each frame before it removes the entry.
-/

namespace SeekingOs

open Lib

namespace Memory

variable {m m' m₁ : Memory} {dirs : List Nat} {p q : Place} {d i j o v w f g t n k : Nat}
  {pf : PoolFlags} {b : Bool}

/-! ## Mapping a range -/

/-- Pages `v` to `v + n - 1` of `o` have been mapped to frames that were free, and no other page
has. -/
structure Maps (m m' : Memory) (dirs : List Nat) (o v n : Nat) : Prop extends Keeps m m' dirs where
  valid : ∀ w, v ≤ w → w < v + n → m.Valid dirs (.page o w)
  fresh : ∀ w, v ≤ w → w < v + n → m.pageAt o w = none
  new : ∀ w, v ≤ w → w < v + n → ∃ f, m'.pageAt o w = some f ∧ ¬ m.Taken f
  pages : ∀ d w, m.Valid dirs (.page d w) → ¬ (d = o ∧ v ≤ w ∧ w < v + n) →
    m'.pageAt d w = m.pageAt d w
  spent : ∀ pf, (m.pool pf).freeCount ≤ (m'.pool pf).freeCount + n

theorem Keeps.refl (ord : m.Ordered dirs) : Keeps m m dirs :=
  ⟨ord, SameShape.refl m, rfl, rfl, rfl, fun _ _ _ _ h => h, fun _ _ _ _ _ _ => rfl, fun _ h => h⟩

theorem Maps.refl (ord : m.Ordered dirs) (o v : Nat) : Maps m m dirs o v 0 where
  toKeeps := Keeps.refl ord
  valid _ h h' := absurd h' (Nat.not_lt.mpr h)
  fresh _ h h' := absurd h' (Nat.not_lt.mpr h)
  new _ h h' := absurd h' (Nat.not_lt.mpr h)
  pages _ _ _ _ := rfl
  spent _ := Nat.le_refl _

/-- A page that is there stays where it is. -/
theorem Maps.stays (maps : Maps m m' dirs o v n) (hw : m.Valid dirs (.page d w))
    (h : m.pageAt d w = some g) : m'.pageAt d w = some g := by
  rw [maps.pages d w hw, h]
  rintro ⟨rfl, hle, hlt⟩
  rw [maps.fresh w hle hlt] at h
  cases h

theorem Maps.append (first : Maps m m₁ dirs o v n) (second : Maps m₁ m' dirs o (v + n) k) :
    Maps m m' dirs o v (n + k) := by
  have valid₂ (w : Nat) (h : v + n ≤ w) (h' : w < v + (n + k)) : m.Valid dirs (.page o w) :=
    first.shape.valid.mp (second.valid w h (by omega))
  refine
    { toKeeps := first.toKeeps.trans second.toKeeps fun d w g hw h => first.stays hw h,
      valid := fun w h h' => ?_, fresh := fun w h h' => ?_,
      new := fun w h h' => ?_, pages := fun d w hw out => ?_, spent := fun pf => ?_ }
  · by_cases hw : w < v + n
    · exact first.valid w h hw
    · exact valid₂ w (by omega) h'
  · by_cases hw : w < v + n
    · exact first.fresh w h hw
    · rw [← first.pages o w (valid₂ w (by omega) h') fun hc => hw hc.2.2]
      exact second.fresh w (by omega) (by omega)
  · by_cases hw : w < v + n
    · obtain ⟨f, hf, free⟩ := first.new w h hw
      exact ⟨f, second.stays (first.shape.valid.mpr (first.valid w h hw)) hf, free⟩
    · obtain ⟨f, hf, free⟩ := second.new w (by omega) (by omega)
      exact ⟨f, hf, fun ht => free (first.taken f ht)⟩
  · rw [second.pages d w (first.shape.valid.mpr hw) fun hc => out ⟨hc.1, by omega, by omega⟩,
      first.pages d w hw fun hc => out ⟨hc.1, hc.2.1, by omega⟩]
  · have := first.spent pf
    have := second.spent pf
    omega

/-- The directory that the pages of a pool are counted under. -/
def base (m : Memory) : PoolFlags → Nat
  | .kernel => kernelDir
  | .user => m.cr3

/-- The pages that may be of a pool. -/
def Addr (m : Memory) (dirs : List Nat) : PoolFlags → Nat → Prop
  | .kernel, w => kHeapStart ≤ w ∧ w < kHeapStart + m.kernelVaddr.size
  | .user, w => m.cr3 ∈ dirs ∧ w < kernelStart

theorem Addr.owner (h : m.Addr dirs pf w) : m.owner w = m.base pf := by
  cases pf with
  | kernel =>
    have low := h.1
    unfold kHeapStart at low
    exact if_neg (by unfold kernelStart; omega)
  | user => exact if_pos h.2

theorem Addr.valid (h : m.Addr dirs pf w) : m.Valid dirs (.page (m.base pf) w) := by
  cases pf with
  | kernel => exact .inr ⟨rfl, h⟩
  | user => exact .inl h

theorem Addr.mappable (h : m.Addr dirs pf w) : m.Mappable dirs w := by
  unfold Mappable
  rw [h.owner]
  exact h.valid

/-- A frame of the pool suits a page of the pool. -/
theorem Ordered.suits_addr (ord : m.Ordered dirs) (h : m.Addr dirs pf w) :
    m.Suits (.page (m.base pf) w) f ↔ m.InPool f pf := by
  cases pf with
  | kernel =>
    unfold Suits base
    dsimp only
    rw [if_pos rfl]
  | user =>
    have notKernel : m.cr3 ≠ kernelDir := fun e => ord.kernelDir_not_mem (e ▸ h.1)
    unfold Suits base
    dsimp only
    rw [if_neg notKernel]

theorem Keeps.addr (k : Keeps m m' dirs) : m'.Addr dirs pf w ↔ m.Addr dirs pf w := by
  unfold Addr
  rw [k.kernelVaddr, k.cr3]

theorem Keeps.base (k : Keeps m m' dirs) : m'.base pf = m.base pf := by
  cases pf with
  | kernel => rfl
  | user => exact k.cr3

/-- A page of the kernel has its table. -/
theorem Ordered.table_there (ord : m.Ordered dirs) (addr : m.Addr dirs .kernel v) :
    (m.tableAt kernelDir (v / 1024)).isSome = true := by
  obtain ⟨-, hi⟩ := ord.layout.valid_table addr.valid
  have low := addr.1
  unfold kHeapStart at low
  exact ord.tables _ (by omega) hi

/-- A page costs a frame of its pool, and a page of a process may cost a table. -/
theorem Granted.spent_one (grant : Granted m pf f m₁) (ord : m.Ordered dirs)
    (addr : m.Addr dirs pf v) (one : MapsOne m₁ m' dirs (m.base pf) v f) (pf' : PoolFlags) :
    (m.pool pf').freeCount ≤ (m'.pool pf').freeCount + 1 := by
  have count := grant.count
  cases pf with
  | kernel =>
    have there : (m₁.tableAt kernelDir (v / 1024)).isSome = true := by
      rw [show m₁.tableAt kernelDir (v / 1024) = _ from grant.frameIn (.table kernelDir (v / 1024))]
      exact ord.table_there addr
    cases pf' with
    | kernel => rw [show m'.pool .kernel = m₁.pool .kernel from one.spared there]; omega
    | user =>
      rw [show m'.pool .user = m₁.pool .user from one.spent.2, grant.other .user nofun]; omega
  | user =>
    cases pf' with
    | kernel => rw [← grant.other .kernel nofun]; exact one.spent.1
    | user => rw [show m'.pool .user = m₁.pool .user from one.spent.2]; omega

/-- A frame that has come out of the pool is mapped. -/
theorem Granted.maps (grant : Granted m pf f m₁) (ord : m.Ordered dirs) (addr : m.Addr dirs pf v)
    (one : MapsOne m₁ m' dirs (m₁.owner v) v f) : Maps m m' dirs (m.base pf) v 1 := by
  have keeps := grant.keeps ord
  have pages (d w : Nat) : m₁.pageAt d w = m.pageAt d w := grant.frameIn (.page d w)
  rw [(keeps.owner v).trans addr.owner] at one
  refine
    { toKeeps := keeps.trans one.toKeeps fun d w g _ h => (pages d w).trans h,
      valid := fun w h h' => ?_, fresh := fun w h h' => ?_,
      new := fun w h h' => ?_, pages := fun d w hw out => ?_, spent := fun pf' => ?_ }
  · obtain rfl : w = v := by omega
    exact addr.valid
  · obtain rfl : w = v := by omega
    rw [← pages]
    exact one.fresh
  · obtain rfl : w = v := by omega
    exact ⟨f, (one.pages _ _ (keeps.shape.valid.mpr addr.valid)).trans (if_pos ⟨rfl, rfl⟩),
      grant.free⟩
  · rw [one.pages d w (keeps.shape.valid.mpr hw), pages, if_neg]
    rintro ⟨rfl, rfl⟩
    exact out ⟨rfl, Nat.le_refl _, Nat.lt_succ_self _⟩
  · exact grant.spent_one ord addr one pf'

/-- A RANGE. The loop of `malloc_page` maps every page of it. -/
theorem mapPages_ok (ord : m.Ordered dirs) (run : IsDir dirs m.cr3)
    (addr : ∀ w, v ≤ w → w < v + n → m.Addr dirs pf w) (h : m.mapPages pf v n = .ok (b, m')) :
    b = true ∧ Maps m m' dirs (m.base pf) v n := by
  induction n generalizing m v with
  | zero =>
    cases h
    exact ⟨rfl, Maps.refl ord _ v⟩
  | succ n ih =>
    unfold mapPages at h
    obtain ⟨⟨f, m₁⟩, hpalloc, h⟩ := bind_eq_ok.mp h
    have grant := palloc_ok ord.layout hpalloc
    dsimp only at h
    rw [if_neg (grant.ne_zero ord.layout)] at h
    obtain ⟨m₂, hadd, h⟩ := bind_eq_ok.mp h
    have here := addr v (Nat.le_refl v) (by omega)
    have keeps := grant.keeps ord
    have suits : m₁.Suits (.page (m₁.owner v) v) f := by
      rw [keeps.shape.suits, keeps.owner, here.owner, ord.suits_addr here]
      exact grant.inPool
    have one :=
      pageTableAdd_ok keeps.ordered (keeps.cr3 ▸ run) (keeps.addr.mpr here).mappable
        (grant.spare ord) suits hadd
    have first := grant.maps ord here one
    obtain ⟨hb, second⟩ :=
      ih first.ordered (first.cr3 ▸ run)
        (fun w hw hw' => first.addr.mpr (addr w (by omega) (by omega))) h
    rw [first.base] at second
    refine ⟨hb, ?_⟩
    rw [Nat.add_comm n 1]
    exact first.append second

/-- With frames enough it comes to its end; the tables that are missing are at most as many as the
pages. -/
theorem mapPages_total (ord : m.Ordered dirs) (run : IsDir dirs m.cr3)
    (addr : ∀ w, v ≤ w → w < v + n → m.Addr dirs pf w)
    (fresh : ∀ w, v ≤ w → w < v + n → m.pageAt (m.base pf) w = none)
    (room : n ≤ (m.pool pf).freeCount) (tables : pf = .user → n ≤ m.kernelPool.freeCount) :
    ∃ m', m.mapPages pf v n = .ok (true, m') := by
  induction n generalizing m v with
  | zero => exact ⟨m, rfl⟩
  | succ n ih =>
    have here := addr v (Nat.le_refl v) (by omega)
    obtain ⟨f, m₁, hpalloc, grant⟩ :=
      palloc_total ord.layout (show 0 < (m.pool pf).freeCount by omega)
    have keeps := grant.keeps ord
    have run₁ : IsDir dirs m₁.cr3 := keeps.cr3 ▸ run
    have here₁ := keeps.addr.mpr here
    have own : m₁.owner v = m.base pf := (keeps.owner v).trans here.owner
    have fresh₁ : m₁.pageAt (m₁.owner v) v = none := by
      rw [own, show m₁.pageAt _ v = m.pageAt (m.base pf) v from grant.frameIn (.page _ v)]
      exact fresh v (Nat.le_refl v) (by omega)
    obtain ⟨m₂, hadd⟩ := pageTableAdd_total keeps.ordered run₁ here₁.mappable fresh₁ (fun none => by
      cases pf with
      | kernel =>
        have there := keeps.ordered.table_there here₁
        rw [own] at none
        rw [show m₁.tableAt kernelDir (v / 1024) = _ from none] at there
        cases there
      | user =>
        have same : m₁.kernelPool = m.kernelPool := grant.other .kernel nofun
        have := tables rfl
        rw [same]
        omega) f
    have suits : m₁.Suits (.page (m₁.owner v) v) f := by
      rw [keeps.shape.suits, keeps.owner, here.owner, ord.suits_addr here]
      exact grant.inPool
    have one := pageTableAdd_ok keeps.ordered run₁ here₁.mappable (grant.spare ord) suits hadd
    have first := grant.maps ord here one
    obtain ⟨m', h⟩ :=
      ih (v := v + 1) first.ordered (first.cr3 ▸ run)
        (fun w hw hw' => first.addr.mpr (addr w (by omega) (by omega)))
      (fun w hw hw' => by
        rw [first.base, first.pages _ _ (addr w (by omega) (by omega)).valid fun hc => by omega]
        exact fresh w (by omega) (by omega))
      (by
        have := first.spent pf
        omega)
      (fun hpf => by
        have spent : m.kernelPool.freeCount ≤ m₂.kernelPool.freeCount + 1 := first.spent .kernel
        have := tables hpf
        omega)
    refine ⟨m', ?_⟩
    unfold mapPages
    rw [hpalloc, ok_bind]
    dsimp only
    rw [if_neg (grant.ne_zero ord.layout), hadd, ok_bind]
    exact h

/-! ## Virtual addresses -/

/-- The bitmap of the virtual addresses of a pool. -/
def vaddrBitmap (m : Memory) : PoolFlags → Bitmap
  | .kernel => m.kernelVaddr
  | .user => m.userVaddr

/-- `vaddr_start` -/
def vaddrStart : PoolFlags → Nat
  | .kernel => kHeapStart
  | .user => userVaddrStart

/-- Bits of virtual addresses are written. -/
def reserve (m : Memory) (i : Nat) (value : Bool) (n : Nat) : PoolFlags → Memory
  | .kernel => { m with kernelVaddr := setBits m.kernelVaddr i value n }
  | .user => { m with userVaddr := setBits m.userVaddr i value n }

/-- A page of the heap. -/
def Heap (m : Memory) (dirs : List Nat) (pf : PoolFlags) (w : Nat) : Prop :=
  vaddrStart pf ≤ w ∧ w < vaddrStart pf + (m.vaddrBitmap pf).size ∧ (pf = .user → m.cr3 ∈ dirs)

/-- THE BITMAPS AGREE WITH THE TABLES: a page of the heap has its bit set when its entry is present.
-/
structure Agrees (m : Memory) (dirs : List Nat) : Prop where
  ordered : m.Ordered dirs
  run : IsDir dirs m.cr3
  userSize : m.cr3 ∈ dirs → userVaddrStart + m.userVaddr.size = kernelStart
  bits : ∀ pf w, m.Heap dirs pf w →
    ((m.vaddrBitmap pf).test (w - vaddrStart pf) = true ↔ (m.pageAt (m.base pf) w).isSome = true)

theorem reserve_frameIn {value : Bool} : (m.reserve i value n pf).frameIn p = m.frameIn p := by
  cases pf <;> rfl

theorem reserve_base {value : Bool} {pf' : PoolFlags} :
    (m.reserve i value n pf).base pf' = m.base pf' := by
  cases pf <;> cases pf' <;> rfl

theorem reserve_shape {value : Bool} : SameShape m (m.reserve i value n pf) := by
  cases pf with
  | kernel => exact ⟨rfl, rfl, rfl, rfl, size_setBits _ _ _ _, rfl⟩
  | user => exact ⟨rfl, rfl, rfl, rfl, rfl, size_setBits _ _ _ _⟩

theorem reserve_vaddrBitmap {value : Bool} {pf' : PoolFlags} :
    (m.reserve i value n pf).vaddrBitmap pf' = if pf' = pf then setBits (m.vaddrBitmap pf) i value n
      else m.vaddrBitmap pf' := by
  cases pf <;> cases pf' <;> rfl

/-- Virtual addresses are no frames. -/
theorem reserve_ordered {value : Bool} (ord : m.Ordered dirs) :
    (m.reserve i value n pf).Ordered dirs := by
  have ram : (m.reserve i value n pf).ram = m.ram := by cases pf <;> rfl
  have taken : (m.reserve i value n pf).TakenBlock = m.TakenBlock := by cases pf <;> rfl
  refine ord.change reserve_shape (fun d _ j _ _ => by rw [ram]) ?_
    (fun q f _ h => .inl (reserve_frameIn.symm.trans h))
    fun d _ v _ h => (reserve_frameIn (p := .page kernelDir v)).trans h
  rw [hold_same reserve_shape fun q _ => reserve_frameIn, taken]
  exact ord.books

theorem heap_addr (size : m.cr3 ∈ dirs → userVaddrStart + m.userVaddr.size = kernelStart)
    (h : m.Heap dirs pf w) : m.Addr dirs pf w := by
  obtain ⟨hle, hlt, hu⟩ := h
  cases pf with
  | kernel => exact ⟨hle, hlt⟩
  | user =>
    have size := size (hu rfl)
    refine ⟨hu rfl, ?_⟩
    change w < userVaddrStart + m.userVaddr.size at hlt
    omega

theorem Agrees.addr (ag : m.Agrees dirs) (h : m.Heap dirs pf w) : m.Addr dirs pf w :=
  heap_addr ag.userSize h

theorem vaddrGet_ok {r : Option (Nat × Memory)} (hn : 1 ≤ n) (h : m.vaddrGet pf n = .ok r) :
    r = none ∨ ∃ i, (m.vaddrBitmap pf).FirstRun n i ∧
      r = some (vaddrStart pf + i, m.reserve i true n pf) := by
  have spec := scanAnswer_spec (m.vaddrBitmap pf) hn
  cases pf with
  | kernel =>
    obtain ⟨scan, hscan, h⟩ := bind_eq_ok.mp h
    rw [show m.vaddrBitmap .kernel = m.kernelVaddr from rfl, ← bitmapScan_ok hscan] at spec
    cases scan with
    | none =>
      cases h
      exact .inl rfl
    | some i =>
      cases h
      exact .inr ⟨i, spec, rfl⟩
  | user =>
    obtain ⟨scan, hscan, h⟩ := bind_eq_ok.mp h
    rw [show m.vaddrBitmap .user = m.userVaddr from rfl, ← bitmapScan_ok hscan] at spec
    cases scan with
    | none =>
      cases h
      exact .inl rfl
    | some i =>
      obtain ⟨_, _, h⟩ := bind_eq_ok.mp h
      cases h
      exact .inr ⟨i, spec, rfl⟩

/-- The first run of addresses that are free is taken; for a process it must not start with the page
of its stack. -/
theorem vaddrGet_total (hn : 1 ≤ n) {t : Nat} (free : (m.vaddrBitmap pf).FreeRun n t)
    (stack : pf = .user → userVaddrStart + t < kernelStart - 1) :
    ∃ i, (m.vaddrBitmap pf).FirstRun n i ∧
      m.vaddrGet pf n = .ok (some (vaddrStart pf + i, m.reserve i true n pf)) := by
  obtain ⟨i, scan, first⟩ : ∃ i, bitmapScan false (m.vaddrBitmap pf) n = .ok (some i) ∧ _ :=
    bitmapScan_some hn free
  refine ⟨i, first, ?_⟩
  cases pf with
  | kernel =>
    unfold vaddrGet
    dsimp only
    rw [show m.kernelVaddr = m.vaddrBitmap .kernel from rfl, scan]
    rfl
  | user =>
    have le : i ≤ t := by
      by_contra hc
      exact first.least t (by omega) free
    have below : userVaddrStart + i < kernelStart - 1 := by
      have := stack rfl
      omega
    unfold vaddrGet
    dsimp only
    rw [show m.userVaddr = m.vaddrBitmap .user from rfl, scan, ok_bind]
    dsimp only
    rw [assertThat_of below]
    rfl

/-! ## `malloc_page` -/

/-- A free run of addresses lies in the heap. -/
theorem heap_freeRun {b : Bitmap} {i : Nat} (free : b.FreeRun n i) (hb : m.vaddrBitmap pf = b)
    (user : pf = .user → m.cr3 ∈ dirs) (h : vaddrStart pf + i ≤ w)
    (h' : w < vaddrStart pf + i + n) : m.Heap dirs pf w := by
  have hlt := free.1
  subst hb
  exact ⟨by omega, by omega, user⟩

theorem mallocPage_ok {r : Option Nat} (ag : m.Agrees dirs) (user : pf = .user → m.cr3 ∈ dirs)
    (h : m.mallocPage pf n = .ok (r, m')) :
    r = none ∧ m' = m ∨ ∃ i, r = some (vaddrStart pf + i) ∧ (m.vaddrBitmap pf).FirstRun n i ∧
      Maps (m.reserve i true n pf) m' dirs (m.base pf) (vaddrStart pf + i) n := by
  unfold mallocPage at h
  obtain ⟨_, hcnt, h⟩ := bind_eq_ok.mp h
  obtain ⟨r', hvaddr, h⟩ := bind_eq_ok.mp h
  rcases vaddrGet_ok (assertThat_ok hcnt).1 hvaddr with rfl | ⟨i, first, rfl⟩
  · cases h
    exact .inl ⟨rfl, rfl⟩
  · obtain ⟨⟨b, m₂⟩, hmap, h⟩ := bind_eq_ok.mp h
    have cr3 : (m.reserve i true n pf).cr3 = m.cr3 := by cases pf <;> rfl
    have addr (w : Nat) (hw : vaddrStart pf + i ≤ w) (hw' : w < vaddrStart pf + i + n) :
        (m.reserve i true n pf).Addr dirs pf w := by
      have here := ag.addr (heap_freeRun first.free rfl user hw hw')
      cases pf with
      | kernel =>
        unfold Addr at here ⊢
        rwa [reserve_shape.heap]
      | user => exact here
    obtain ⟨rfl, maps⟩ := mapPages_ok (reserve_ordered ag.ordered) (cr3 ▸ ag.run) addr hmap
    rw [reserve_base] at maps
    cases h
    exact .inr ⟨i, rfl, first, maps⟩

/-- What an allocation needs: addresses, and frames for the pages and for tables. -/
structure Room (m : Memory) (pf : PoolFlags) (n : Nat) : Prop where
  count : 0 < n ∧ n < 3840
  addresses : ∃ t, (m.vaddrBitmap pf).FreeRun n t ∧
    (pf = .user → userVaddrStart + t < kernelStart - 1)
  frames : n ≤ (m.pool pf).freeCount
  tables : pf = .user → n ≤ m.kernelPool.freeCount

theorem mallocPage_total (ag : m.Agrees dirs) (user : pf = .user → m.cr3 ∈ dirs)
    (room : m.Room pf n) :
    ∃ i m', (m.vaddrBitmap pf).FirstRun n i ∧
      m.mallocPage pf n = .ok (some (vaddrStart pf + i), m') := by
  obtain ⟨t, free, stack⟩ := room.addresses
  obtain ⟨i, first, hvaddr⟩ := vaddrGet_total room.count.1 free stack
  have cr3 : (m.reserve i true n pf).cr3 = m.cr3 := by cases pf <;> rfl
  have pool (pf' : PoolFlags) : (m.reserve i true n pf).pool pf' = m.pool pf' := by
    cases pf <;> cases pf' <;> rfl
  have heap (w : Nat) (hw : vaddrStart pf + i ≤ w) (hw' : w < vaddrStart pf + i + n) :
      m.Heap dirs pf w :=
    heap_freeRun first.free rfl user hw hw'
  obtain ⟨m', hmap⟩ :=
    @mapPages_total (m.reserve i true n pf) dirs (vaddrStart pf + i) n pf
      (reserve_ordered ag.ordered) (cr3 ▸ ag.run)
    (fun w hw hw' => by
      have here := ag.addr (heap w hw hw')
      cases pf with
      | kernel =>
        unfold Addr at here ⊢
        rwa [reserve_shape.heap]
      | user => exact here)
    (fun w hw hw' => by
      have clear := first.free.2 (w - vaddrStart pf) (by omega) (by omega)
      have iff := ag.bits pf w (heap w hw hw')
      rw [clear] at iff
      rw [reserve_base, show (m.reserve i true n pf).pageAt (m.base pf) w =
        m.pageAt (m.base pf) w from reserve_frameIn (p := .page _ w)]
      exact Option.not_isSome_iff_eq_none.mp fun h => Bool.false_ne_true (iff.mpr h))
    (by rw [pool]; exact room.frames)
      (fun h => by rw [show Memory.kernelPool _ = _ from pool .kernel]; exact room.tables h)
  refine ⟨i, m', first, ?_⟩
  unfold mallocPage
  rw [assertThat_of room.count, ok_bind, hvaddr, ok_bind]
  dsimp only
  rw [hmap]
  rfl

end Memory

end SeekingOs
