import SeekingOs.Kernel.Pages

/-!
# Giving pages back

`mfree_page` takes the frames of a range back one by one: the entry is looked up, the bit in the
pool cleared, the entry removed, and at the end the bits of the virtual addresses are cleared.
`Unmaps` says what the loop does.
-/

namespace SeekingOs

open Lib

namespace Memory

variable {m m' m₁ : Memory} {dirs : List Nat} {p q : Place} {d i j o v w f g t n k : Nat}
  {pf : PoolFlags} {b : Bool}

/-! ## The loop -/

/-- Pages `v` to `v + n - 1` of `o` are mapped no more, and their frames have gone back to the
pools. -/
structure Unmaps (m m' : Memory) (dirs : List Nat) (o v n : Nat) : Prop where
  ordered : m'.Ordered dirs
  shape : SameShape m m'
  cr3 : m'.cr3 = m.cr3
  kernelVaddr : m'.kernelVaddr = m.kernelVaddr
  userVaddr : m'.userVaddr = m.userVaddr
  tables : ∀ d i, m.Valid dirs (.table d i) → m'.tableAt d i = m.tableAt d i
  gone : ∀ w, v ≤ w → w < v + n → m'.pageAt o w = none
  pages : ∀ d w, m.Valid dirs (.page d w) → ¬ (d = o ∧ v ≤ w ∧ w < v + n) →
    m'.pageAt d w = m.pageAt d w
  words : ∀ g, (∀ d i, m.Valid dirs (.table d i) → m.tableAt d i ≠ some g) → m'.ram g = m.ram g
  taken : ∀ g, m'.Taken g ↔ m.Taken g ∧ ¬ ∃ w, v ≤ w ∧ w < v + n ∧ m.pageAt o w = some g

theorem Unmaps.refl (ord : m.Ordered dirs) (o v : Nat) : Unmaps m m dirs o v 0 where
  ordered := ord
  shape := SameShape.refl m
  cr3 := rfl
  kernelVaddr := rfl
  userVaddr := rfl
  tables _ _ _ := rfl
  gone _ h h' := absurd h' (Nat.not_lt.mpr h)
  pages _ _ _ _ := rfl
  words _ _ := rfl
  taken g := by
    refine (and_iff_left ?_).symm
    rintro ⟨w, h, h', -⟩
    exact absurd h' (Nat.not_lt.mpr h)

theorem Unmaps.append (first : Unmaps m m₁ dirs o v n) (second : Unmaps m₁ m' dirs o (v + n) k)
    (valid : ∀ w, v ≤ w → w < v + (n + k) → m.Valid dirs (.page o w)) :
    Unmaps m m' dirs o v (n + k) := by
  have apart (w : Nat) (h : v + n ≤ w) (h' : w < v + (n + k)) : m₁.pageAt o w = m.pageAt o w :=
    first.pages o w (valid w (by omega) h') fun hc => absurd hc.2.2 (by omega)
  refine
    { ordered := second.ordered, shape := first.shape.trans second.shape,
      cr3 := second.cr3.trans first.cr3,
      kernelVaddr := second.kernelVaddr.trans first.kernelVaddr,
      userVaddr := second.userVaddr.trans first.userVaddr,
      tables := fun d i h => (second.tables d i (first.shape.valid.mpr h)).trans
        (first.tables d i h), gone := fun w h h' => ?_,
      pages := fun d w hw out => ?_, words := fun g hg => ?_, taken := fun g => ?_ }
  · by_cases hw : w < v + n
    · rw [second.pages o w (first.shape.valid.mpr (valid w h h')) fun hc =>
        absurd hc.2.1 (by omega)]
      exact first.gone w h hw
    · exact second.gone w (by omega) (by omega)
  · rw [second.pages d w (first.shape.valid.mpr hw) fun hc => out ⟨hc.1, by omega, by omega⟩,
      first.pages d w hw fun hc => out ⟨hc.1, hc.2.1, by omega⟩]
  · refine (second.words g fun d i h => ?_).trans (first.words g hg)
    have h := first.shape.valid.mp h
    rw [first.tables d i h]
    exact hg d i h
  · rw [second.taken, first.taken, and_assoc, ← not_or]
    refine and_congr_right fun _ => not_congr ?_
    constructor
    · rintro (⟨w, h, h', hw⟩ | ⟨w, h, h', hw⟩)
      · exact ⟨w, h, by omega, hw⟩
      · exact ⟨w, by omega, by omega, (apart w h (by omega)).symm.trans hw⟩
    · rintro ⟨w, h, h', hw⟩
      by_cases hlt : w < v + n
      · exact .inl ⟨w, h, hlt, hw⟩
      · exact .inr ⟨w, by omega, by omega, (apart w (by omega) h').trans hw⟩

/-- A frame of the pool that is taken has its bit there. -/
theorem Layout.has_of_taken (lay : m.Layout) (h : m.Taken f) (hin : m.InPool f pf) :
    (m.pool pf).Has f := by
  have apart := lay.apart
  cases pf with
  | kernel =>
    obtain ⟨hle, hlt⟩ := hin
    rcases h with h | h | h
    · omega
    · exact h
    · exact absurd (has_lt h).1 (by omega)
  | user =>
    change m.userPool.phyAddrStart ≤ f at hin
    rcases h with h | h | h
    · omega
    · exact absurd (has_lt h).2 (by omega)
    · exact h

theorem Layout.pfree_at (lay : m.Layout) (lo : (m.pool pf).phyAddrStart ≤ f)
    (hi : f < (m.pool pf).phyAddrStart + (m.pool pf).poolBitmap.size) :
    m.pfree f = .ok (m.setPoolBit (f - (m.pool pf).phyAddrStart) false pf) := by
  have fits := lay.fits
  have apart := lay.apart
  have index : bitIdxOf f (m.pool pf).phyAddrStart = f - (m.pool pf).phyAddrStart := by
    have small : f < 2 ^ 20 := by
      cases pf with
      | kernel =>
        change f < m.kernelPool.phyAddrStart + m.kernelPool.poolBitmap.size at hi
        omega
      | user =>
        change f < m.userPool.phyAddrStart + m.userPool.poolBitmap.size at hi
        omega
    unfold bitIdxOf
    omega
  have which : (if m.userPool.phyAddrStart ≤ f then PoolFlags.user else .kernel) = pf := by
    cases pf with
    | kernel =>
      change f < m.kernelPool.phyAddrStart + m.kernelPool.poolBitmap.size at hi
      exact if_neg (by omega)
    | user => exact if_pos lo
  unfold pfree
  dsimp only
  rw [which, index, if_pos (by omega)]

theorem Layout.pfree_eq (lay : m.Layout) (h : m.Taken f) (hin : m.InPool f pf) :
    m.pfree f = .ok (m.setPoolBit (f - (m.pool pf).phyAddrStart) false pf) ∧
    f - (m.pool pf).phyAddrStart < (m.pool pf).poolBitmap.size ∧
      (m.pool pf).phyAddrStart + (f - (m.pool pf).phyAddrStart) = f := by
  obtain ⟨hle, hlt⟩ := has_lt (lay.has_of_taken h hin)
  exact ⟨lay.pfree_at hle hlt, by omega, by omega⟩

/-- ONE PAGE is given back: its bit in the pool is cleared, and then its entry. -/
theorem freePage_unmaps (ord : m.Ordered dirs) (addr : m.Addr dirs pf v)
    (table : m.tableAt (m.base pf) (v / 1024) = some t) (mapped : m.pageAt (m.base pf) v = some f)
    (hf : f ∉ dirs) :
    Unmaps m ((m.setPoolBit (f - (m.pool pf).phyAddrStart) false pf).poke t (v % 1024)
      (m.ram t (v % 1024) - m.ram t (v % 1024) % 2))
      dirs (m.base pf) v 1 := by
  have hin : m.InPool f pf := (ord.suits_addr addr).mp (ord.suits _ f addr.valid mapped)
  obtain ⟨-, hlt, hadd⟩ := ord.layout.pfree_eq (ord.taken addr.valid mapped) hin
  obtain ⟨valid, hi⟩ := ord.layout.valid_table addr.valid
  generalize hm' : (m.setPoolBit (f - (m.pool pf).phyAddrStart) false pf).poke t (v % 1024)
    (m.ram t (v % 1024) - m.ram t (v % 1024) % 2) = m'
  have ram : m'.ram = (m.poke t (v % 1024) (m.ram t (v % 1024) - m.ram t (v % 1024) % 2)).ram := by
    rw [← hm']
    unfold poke
    rw [setPoolBit_ram]
  have shape : SameShape m m' := by
    have := @setPoolBit_shape m (f - (m.pool pf).phyAddrStart) pf false
    rw [← hm']
    exact ⟨this.kernelStart, this.kernelSize, this.userStart, this.userSize, this.heap, this.user⟩
  have index : 1024 * (v / 1024) + v % 1024 = v := by omega
  have frames {q : Place} (hq : m.Valid dirs q) : m'.frameIn q = if q = .page (m.base pf) v then
      none else m.frameIn q := by
    have same : m'.frameIn q =
        (m.poke t (v % 1024) (m.ram t (v % 1024) - m.ram t (v % 1024) % 2)).frameIn q := by
      cases q with
      | table o i => unfold frameIn tableAt; rw [ram]
      | page o w => unfold frameIn pageAt tableAt; rw [ram]
    rw [same, ord.frameIn_poke valid hi table _ hq, index, target_removed]
    by_cases hq' : q = .page (m.base pf) v
    · rw [if_pos ⟨hq', by omega⟩, if_pos hq']
    · rw [if_neg fun hc => hq' hc.1, if_neg hq']
  have pages (d w : Nat) (hw : m.Valid dirs (.page d w)) : m'.pageAt d w = if d = m.base pf ∧
      w = v then none else m.pageAt d w := by
    refine (frames hw).trans ?_
    by_cases h : d = m.base pf ∧ w = v
    · rw [if_pos h, if_pos (by rw [h.1, h.2])]
    · rw [if_neg h, if_neg fun e => h (Place.page.inj e)]
      rfl
  have taken (g : Nat) : m'.Taken g ↔ g ≠ f ∧ m.Taken g := by
    have bit := @Layout.taken_setPoolBit m (f - (m.pool pf).phyAddrStart) pf false ord.layout hlt g
    have same : m'.Taken g ↔ (m.setPoolBit (f - (m.pool pf).phyAddrStart) false pf).Taken g := by
      rw [← hm']
      rfl
    rw [same, bit, hadd]
    by_cases hg : g = f
    · rw [if_pos hg]
      exact iff_of_false Bool.false_ne_true fun hc => hc.1 hg
    · rw [if_neg hg, and_iff_right hg]
  have words (g : Nat) (hg : g ≠ t) : m'.ram g = m.ram g := by
    rw [ram]
    exact Function.update_of_ne hg _ _
  have notDir := ord.table_not_dir valid hi table
  refine
    { ordered := ?_, shape, cr3 := by rw [← hm']; exact setPoolBit_cr3,
      kernelVaddr := by rw [← hm']; exact setPoolBit_kernelVaddr,
      userVaddr := by rw [← hm']; exact setPoolBit_userVaddr, tables := fun d i ht =>
        (frames ht).trans (if_neg nofun), gone := fun w h h' => ?_,
      pages := fun d w hw out => ?_, words := fun g hg => words g fun e => hg _ _ valid (e ▸ table),
      taken := fun g => ?_ }
  · refine ord.change shape (fun d hd i _ _ => by rw [words d]; rintro rfl; exact notDir hd) ?_
      (fun q g hq h => ?_) fun d hd w hw h => ?_
    · rw [hold_update shape addr.valid fun q hq => frames hq]
      have held : m.hold dirs (.page (m.base pf) v) = block (some f) := by
        rw [hold_valid addr.valid]
        exact congrArg block mapped
      refine (ord.books.drop (by rw [held]; exact block_some_ne f) fun c => ?_).books
      rw [held]
      constructor
      · intro hc
        refine ⟨?_, fun g hg => ((taken g).mp (hc g hg)).2⟩
        rintro rfl
        exact ((taken f).mp (hc f rfl)).1 rfl
      · rintro ⟨hne, hc⟩ g rfl
        exact (taken g).mpr ⟨fun e => hne (e ▸ rfl), hc g rfl⟩
    · rw [frames hq] at h
      split at h
      next => cases h
      next => exact .inl h
    · rw [pages _ _ hw, if_neg]
      · exact h
      · rintro ⟨e, rfl⟩
        rw [e, mapped] at h
        exact hf (Option.some.inj h ▸ hd)
  · obtain rfl : w = v := by omega
    rw [pages _ _ addr.valid, if_pos ⟨rfl, rfl⟩]
  · rw [pages d w hw, if_neg]
    rintro ⟨rfl, rfl⟩
    exact out ⟨rfl, Nat.le_refl _, Nat.lt_succ_self _⟩
  · rw [taken, and_comm]
    refine and_congr_right fun _ => ?_
    constructor
    · rintro hne ⟨w, hle, hlt', hw⟩
      obtain rfl : w = v := by omega
      exact hne (Option.some.inj (hw.symm.trans mapped))
    · rintro hno rfl
      exact hno ⟨v, Nat.le_refl v, Nat.lt_succ_self v, mapped⟩

theorem Layout.whichPool (lay : m.Layout) (hin : m.InPool f pf) :
    (if m.userPool.phyAddrStart ≤ f then PoolFlags.user else .kernel) = pf ∧ 0x102 ≤ f := by
  have low := lay.low
  have apart := lay.apart
  cases pf with
  | kernel =>
    obtain ⟨hle, hlt⟩ := hin
    exact ⟨if_neg (by omega), by omega⟩
  | user =>
    change m.userPool.phyAddrStart ≤ f at hin
    exact ⟨if_pos hin, by omega⟩

/-- The directory that runs is one of those that are counted, or it is given up: it still shows
itself and the tables of the kernel, and is none of them. -/
def Active (m : Memory) (dirs : List Nat) : Prop :=
  IsDir dirs m.cr3 ∨ m.tableAt m.cr3 1023 = some m.cr3 ∧
    (∀ i, 768 ≤ i → i < 1023 → m.tableAt m.cr3 i = m.tableAt kernelDir i) ∧
    ∀ d i, m.Valid dirs (.table d i) → m.tableAt d i ≠ some m.cr3

/-- The table of a page is seen through the directory that runs. -/
theorem Ordered.pageAt_active (ord : m.Ordered dirs) (act : m.Active dirs)
    (addr : m.Addr dirs pf v) : m.pageAt m.cr3 (ptePtr v).1 = m.tableAt (m.base pf) (v / 1024) := by
  obtain ⟨-, hi⟩ := ord.layout.valid_table addr.valid
  rcases act with run | ⟨self, same, -⟩
  · rw [ord.pageAt_tables run hi, addr.owner]
  · cases pf with
    | user => rw [ord.pageAt_tables (.inr addr.1) hi, addr.owner]
    | kernel =>
      have low := addr.1
      unfold kHeapStart at low
      have last : m.tableAt m.cr3 ((1023 * 1024 + v / 1024) / 1024) = some m.cr3 := by
        rw [show (1023 * 1024 + v / 1024) / 1024 = 1023 by omega]
        exact self
      refine (pageAt_table last).trans ?_
      rw [show (1023 * 1024 + v / 1024) % 1024 = v / 1024 by omega]
      exact same _ (by omega) hi

theorem Unmaps.active (un : Unmaps m m' dirs o v n) (act : m.Active dirs) : m'.Active dirs := by
  refine act.imp (fun run => un.cr3 ▸ run) fun ⟨self, same, apart⟩ => ?_
  have words (i : Nat) : m'.tableAt m'.cr3 i = m.tableAt m.cr3 i := by
    unfold tableAt
    rw [un.cr3, un.words m.cr3 apart]
  refine ⟨(words 1023).trans (un.cr3 ▸ self), fun i h h' => ?_, fun d i h => ?_⟩
  · rw [words, un.tables kernelDir i (Or.inr ⟨rfl, h, by omega⟩)]
    exact same i h h'
  · have h := un.shape.valid.mp h
    rw [un.tables d i h, un.cr3]
    exact apart d i h

/-- The frame of a page that is mapped is read from its entry. -/
theorem Ordered.addrV2p_eq (ord : m.Ordered dirs) (act : m.Active dirs) (addr : m.Addr dirs pf v)
    (mapped : m.pageAt (m.base pf) v = some f) : m.addrV2p v = .ok f := by
  obtain ⟨t, table, entry⟩ := pageAt_some.mp mapped
  unfold addrV2p read
  rw [ord.pageAt_active act addr, table]
  exact congrArg Except.ok (target_eq_some entry).2

/-- THE LOOP comes to its end where all the pages are mapped. -/
theorem freePages_total (ord : m.Ordered dirs) (act : m.Active dirs)
    (addr : ∀ w, v ≤ w → w < v + n → m.Addr dirs pf w)
    (mapped : ∀ w, v ≤ w → w < v + n → ∃ f, m.pageAt (m.base pf) w = some f ∧ f ∉ dirs) :
    ∃ m', m.freePages pf v n = .ok m' ∧ Unmaps m m' dirs (m.base pf) v n := by
  induction n generalizing m v with
  | zero => exact ⟨m, rfl, Unmaps.refl ord _ v⟩
  | succ n ih =>
    have here := addr v (Nat.le_refl v) (by omega)
    obtain ⟨f, hf, notDir⟩ := mapped v (Nat.le_refl v) (by omega)
    have hin : m.InPool f pf := (ord.suits_addr here).mp (ord.suits _ f here.valid hf)
    obtain ⟨hpfree, -, -⟩ := ord.layout.pfree_eq (ord.taken here.valid hf) hin
    obtain ⟨t, table, -⟩ := pageAt_some.mp hf
    have first := freePage_unmaps ord here table hf notDir
    have tables : m.pageAt m.cr3 (ptePtr v).1 = some t := (ord.pageAt_active act here).trans table
    have remove : (m.setPoolBit (f - (m.pool pf).phyAddrStart) false pf).pageTablePteRemove v =
        .ok ((m.setPoolBit (f - (m.pool pf).phyAddrStart) false pf).poke t (v % 1024)
          (m.ram t (v % 1024) - m.ram t (v % 1024) % 2)) := by
      have tables' : (m.setPoolBit (f - (m.pool pf).phyAddrStart) false pf).pageAt
          (m.setPoolBit (f - (m.pool pf).phyAddrStart) false pf).cr3 (ptePtr v).1 = some t := by
        rw [setPoolBit_cr3]
        exact (setPoolBit_frameIn (p := .page m.cr3 (ptePtr v).1)).trans tables
      unfold pageTablePteRemove read write
      rw [tables']
      dsimp only
      rw [ok_bind, setPoolBit_ram]
      rfl
    have base : ((m.setPoolBit (f - (m.pool pf).phyAddrStart) false pf).poke t (v % 1024)
        (m.ram t (v % 1024) - m.ram t (v % 1024) % 2)).base pf = m.base pf := by cases pf <;> rfl
    obtain ⟨m', hfree, second⟩ := ih (v := v + 1) first.ordered (first.active act)
      (fun w hw hw' => by
        have := addr w (by omega) (by omega)
        unfold Addr at this ⊢
        rwa [first.kernelVaddr, first.cr3])
      (fun w hw hw' => by
        rw [base, first.pages _ _ (addr w (by omega) (by omega)).valid fun hc =>
          absurd hc.2.2 (by omega)]
        exact mapped w (by omega) (by omega))
    rw [base] at second
    refine ⟨m', ?_, ?_⟩
    · unfold freePages
      rw [ord.addrV2p_eq act here hf, ok_bind, assertThat_of hin, ok_bind, hpfree, ok_bind,
        remove, ok_bind]
      exact hfree
    · rw [Nat.add_comm n 1]
      exact first.append second fun w hw hw' => (addr w hw (by omega)).valid

/-- `mfree_page` on pages of the heap that are mapped comes to its end. -/
theorem Ordered.mfreePage_eq (ord : m.Ordered dirs) (act : m.Active dirs)
    (size : m.cr3 ∈ dirs → userVaddrStart + m.userVaddr.size = kernelStart) (hn : 0 < n)
    (heap : ∀ w, v ≤ w → w < v + n → m.Heap dirs pf w)
    (mapped : ∀ w, v ≤ w → w < v + n → ∃ f, m.pageAt (m.base pf) w = some f ∧ f ∉ dirs) :
    ∃ m', Unmaps m m' dirs (m.base pf) v n ∧
      m.mfreePage pf v n = .ok (m'.reserve (v - vaddrStart pf) false n pf) := by
  have addr (w : Nat) (h : v ≤ w) (h' : w < v + n) : m.Addr dirs pf w :=
    heap_addr size (heap w h h')
  obtain ⟨f, hf, -⟩ := mapped v (Nat.le_refl v) (by omega)
  have here := addr v (Nat.le_refl v) (by omega)
  have hin : m.InPool f pf := (ord.suits_addr here).mp (ord.suits _ f here.valid hf)
  obtain ⟨which, low⟩ := ord.layout.whichPool hin
  obtain ⟨m', hfree, unmaps⟩ := freePages_total ord act addr mapped
  refine ⟨m', unmaps, ?_⟩
  unfold mfreePage
  rw [assertThat_of hn, ok_bind, ord.addrV2p_eq act here hf, ok_bind, assertThat_of low, ok_bind,
    which, hfree, ok_bind]
  have first := heap v (Nat.le_refl v) (by omega)
  have last := heap (v + n - 1) (by omega) (by omega)
  cases pf with
  | kernel =>
    obtain ⟨hle, -, -⟩ := first
    obtain ⟨-, hlt, -⟩ := last
    have bound := ord.layout.heap
    change kHeapStart ≤ v at hle
    change v + n - 1 < kHeapStart + m.kernelVaddr.size at hlt
    have index : bitIdxOf v kHeapStart = v - kHeapStart := by
      unfold bitIdxOf
      omega
    unfold vaddrRemove
    dsimp only
    rw [index, if_pos (by rw [unmaps.kernelVaddr]; omega)]
    rfl
  | user =>
    obtain ⟨hle, -, run⟩ := first
    obtain ⟨-, hlt, -⟩ := last
    have size := size (run rfl)
    change userVaddrStart ≤ v at hle
    change v + n - 1 < userVaddrStart + m.userVaddr.size at hlt
    have index : bitIdxOf v userVaddrStart = v - userVaddrStart := by
      unfold bitIdxOf
      unfold kernelStart at size
      omega
    unfold vaddrRemove
    dsimp only
    rw [index, if_pos (by rw [unmaps.userVaddr]; omega)]
    rfl

theorem mfreePage_total (ag : m.Agrees dirs) (hn : 0 < n)
    (heap : ∀ w, v ≤ w → w < v + n → m.Heap dirs pf w)
    (mapped : ∀ w, v ≤ w → w < v + n → ∃ f, m.pageAt (m.base pf) w = some f ∧ f ∉ dirs) :
    ∃ m', Unmaps m m' dirs (m.base pf) v n ∧
      m.mfreePage pf v n = .ok (m'.reserve (v - vaddrStart pf) false n pf) :=
  ag.ordered.mfreePage_eq (.inl ag.run) ag.userSize hn heap mapped

end Memory

end SeekingOs
