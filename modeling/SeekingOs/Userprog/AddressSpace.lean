import SeekingOs.Kernel.KernelPages
import SeekingOs.Userprog.Fork

/-!
# A new address space

`create_page_dir` makes a page directory in which no page of the process is mapped; switching
directories changes nothing but the directory that runs.
-/

namespace SeekingOs

open Lib

namespace Memory

variable {m m' m₁ : Memory} {dirs : List Nat} {c d i j o v w f g t n k : Nat} {pf : PoolFlags}
  {func : String}

/-! ## Switching -/

/-- Which directory and which bitmap of user addresses are current is of no concern to the frames.
-/
theorem Ordered.activate (ord : m.Ordered dirs) (d : Nat) (b : Bitmap) :
    ({ m with cr3 := d, userVaddr := b } : Memory).Ordered dirs where
  layout := ⟨ord.layout.low, ord.layout.apart, ord.layout.fits, ord.layout.heap⟩
  self := ord.self
  shared := ord.shared
  tables := ord.tables
  books := ord.books
  suits := ord.suits
  dirs := ord.dirs

theorem Ordered.switch (ord : m.Ordered dirs) (d : Nat) :
    ({ m with cr3 := d } : Memory).Ordered dirs := ord.activate d m.userVaddr

/-- `page_dir_activate` on a task with a directory. -/
theorem Ordered.pageDirActivate_eq (ord : m.Ordered dirs) (act : m.Active dirs)
    (addr : m.Addr dirs .kernel v) (h : m.pageAt kernelDir v = some d) :
    m.pageDirActivate (some v) = .ok { m with cr3 := d } := by
  unfold pageDirActivate
  dsimp only
  rw [ord.addrV2p_eq act addr h]
  rfl

/-! ## `create_page_dir` -/

/-- The words of the new directory. -/
def newDirWords (m : Memory) (c : Nat) : Nat → Nat :=
  Function.update (copyHigh (m.ram m.cr3) fun _ => 0) 1023 (entryWord c)

theorem newDirWords_low (h : i < 768) : m.newDirWords c i = 0 := by
  unfold newDirWords copyHigh
  rw [Function.update_of_ne (by omega), if_neg (by omega)]

theorem newDirWords_high (ord : m.Ordered dirs) (run : IsDir dirs m.cr3) (h : 768 ≤ i)
    (h' : i < 1023) : m.newDirWords c i = m.ram kernelDir i := by
  unfold newDirWords copyHigh
  rw [Function.update_of_ne (by omega), if_pos (by omega)]
  rcases run with e | hd
  · rw [e]
  · exact ord.shared _ hd i h h'

/-- The copy of the kernel's entries, and the entry of the directory itself. -/
theorem initPageDir_eq (ord : m.Ordered dirs) (run : IsDir dirs m.cr3)
    (addr : m.Addr dirs .kernel v) (h : m.pageAt kernelDir v = some c) (hc : c ∉ dirs)
    (clear : m.ram c = fun _ => 0) : m.initPageDir v = .ok (m.fill c (m.newDirWords c)) := by
  obtain ⟨-, hi⟩ := ord.layout.valid_table addr.valid
  have wr := ord.fill addr.valid h hc (copyHigh (m.ram m.cr3) fun _ => 0)
  generalize hm₁ : m.fill c (copyHigh (m.ram m.cr3) fun _ => 0) = m₁ at wr
  have run₁ : IsDir dirs m₁.cr3 := wr.cr3 ▸ run
  have addr₁ : m₁.Addr dirs .kernel v := wr.addr.mpr addr
  have there : m₁.pageAt kernelDir v = some c := (wr.frames _ addr.valid).trans h
  have high : m.readPage "create_page_dir" (pdePtr 0).1 = .ok (m.ram m.cr3) := by
    unfold readPage
    rw [ord.pageAt_dir run]
  have last : m₁.write "create_page_dir" (v, 1023) (entryWord c) =
      .ok (m₁.poke c 1023 (entryWord c)) := by
    unfold write
    dsimp only
    rw [wr.ordered.pageAt_owner run₁ hi, addr₁.owner,
      show m₁.base .kernel = kernelDir from rfl, there]
  unfold initPageDir
  rw [high, ok_bind, ord.readPage_eq run addr h, ok_bind, clear,
    ord.writePage_eq run addr h, ok_bind, hm₁,
    wr.ordered.addrV2p_eq (.inl run₁) addr₁ there, ok_bind, last, ← hm₁]
  unfold poke fill newDirWords
  dsimp only
  rw [Function.update_idem, Function.update_self]

/-- What `create_page_dir` answers: a page, as `get_kernel_pages` does, with a directory in it. -/
def MakesDir (m : Memory) (dirs : List Nat) : Option Nat × Memory → Prop
  | (none, _) => ¬ m.Room .kernel 1
  | (some v, m') => ∃ i c, v = kHeapStart + i ∧ Gets m m' dirs i 1 ∧
      m'.pageAt kernelDir v = some c ∧ NewDir m' dirs c

theorem createPageDir_ensures (ag : m.Agrees dirs) :
    Ensures (fun _ => ¬ m.Room .kernel 1) (m.MakesDir dirs) m.createPageDir := by
  refine (getKernelPages_ensures ag).bind fun r h => ?_
  obtain ⟨r, m₁⟩ := r
  cases r with
  | none => exact h
  | some v =>
    obtain ⟨i, rfl, gets, zero⟩ := h
    have low : i + 1 ≤ m₁.kernelVaddr.size := by
      rw [gets.shape.heap]
      exact gets.first.free.1
    obtain ⟨c, hc, free⟩ := gets.new (kHeapStart + i) (Nat.le_refl _) (by omega)
    have ord := gets.agrees.ordered
    have addr : m₁.Addr dirs .kernel (kHeapStart + i) := ⟨by omega, by omega⟩
    have notDir : c ∉ dirs := by
      intro hd
      obtain ⟨q, hq, held, -⟩ := ag.ordered.heldDir (.inr hd)
      exact free (ag.ordered.taken hq held)
    have clear := zero (kHeapStart + i) c (Nat.le_refl _) (by omega) hc
    have wr := ord.fill addr.valid hc notDir (m₁.newDirWords c)
    have words : (m₁.fill c (m₁.newDirWords c)).ram c = m₁.newDirWords c :=
      Function.update_self _ _ _
    have other {g : Nat} (hg : g ≠ c) : (m₁.fill c (m₁.newDirWords c)).ram g = m₁.ram g :=
      Function.update_of_ne hg _ _
    have notKernel : kernelDir ≠ c := by
      rintro rfl
      exact ord.page_not_kernelDir addr.valid hc
    have there : (m₁.fill c (m₁.newDirWords c)).pageAt kernelDir (kHeapStart + i) = some c :=
      (wr.frames _ addr.valid).trans hc
    show Ensures _ _ (m₁.initPageDir (kHeapStart + i) >>= _)
    rw [initPageDir_eq ord gets.agrees.run addr hc notDir clear, ok_bind]
    refine ⟨i, c, rfl, gets.write ag.ordered wr (by rintro g rfl; exact free), there, ?_⟩
    refine ⟨notDir, ⟨kHeapStart + i, by omega, ?_, there⟩, fun k hk => ?_, fun k hk hk' => ?_, ?_⟩
    · rw [wr.kernelVaddr]
      omega
    · rw [words, newDirWords_low hk]
      rfl
    · rw [words, other notKernel, newDirWords_high ord gets.agrees.run hk hk']
    · rw [words]
      exact Function.update_self _ _ _

/-- Where there is room, there is a new directory. -/
theorem createPageDir_total (ag : m.Agrees dirs) (room : m.Room .kernel 1) :
    ∃ i c m', m.createPageDir = .ok (some (kHeapStart + i), m') ∧
    Gets m m' dirs i 1 ∧ m'.pageAt kernelDir (kHeapStart + i) = some c ∧ NewDir m' dirs c := by
  have made := createPageDir_ensures ag
  cases h : m.createPageDir with
  | error e => exact absurd room (made.of_error h)
  | ok r =>
    obtain ⟨r, m'⟩ := r
    cases r with
    | none => exact absurd room (made.of_ok h)
    | some v =>
      obtain ⟨i, c, rfl, gets, there, nd⟩ := made.of_ok h
      exact ⟨i, c, m', rfl, gets, there, nd⟩

end Memory

end SeekingOs
