import SeekingOs.Kernel.Bitmap

/-!
# Pages and frames

`kernel/memory.c` up to `sys_malloc`: two pools of frames, the virtual addresses of the kernel heap
and of the running task, and the page tables that map the one to the other. Addresses are
counted in pages: page `v` is the memory from `4096 * v` on, and frame `f` the memory from the
physical address `4096 * f` on. `ram` is what the frames hold, in words.

A page directory has itself as its last entry, so that its tables are pages of every address space.
`pde_ptr` and `pte_ptr` are addresses of such words; they go through the directory like any other.

`kernelVaddr` and `userVaddr` are the bitmaps of the kernel heap and of the running task. They and
the task structures are kept beside `ram`.
-/

namespace SeekingOs

open Lib

/-! ## Words of directories and tables -/

/-- `PG_P_1` is set. -/
def present (w : Nat) : Bool := w % 2 == 1

/-- `w & 0xfffff000`, as a frame -/
def frameOf (w : Nat) : Nat := w / 4096

/-- `phyaddr | PG_US_U | PG_RW_W | PG_P_1` -/
def entryWord (frame : Nat) : Nat := 4096 * frame + 7

/-- The frame that a word leads to. -/
def target (w : Nat) : Option Nat := if present w then some (frameOf w) else none

/-- The page directory of the kernel, at `0x100000`. -/
def kernelDir : Nat := 0x100

/-- `K_HEAP_START` -/
def kHeapStart : Nat := 0xc0100

/-- `USER_VADDR_START` -/
def userVaddrStart : Nat := 0x8048

/-- The first page of the kernel. -/
def kernelStart : Nat := 0xc0000

/-- `pde_ptr`: the page and the word of the directory's entry. -/
def pdePtr (v : Nat) : Nat × Nat := (1023 * 1024 + 1023, v / 1024)

/-- `pte_ptr`: the page and the word of the table's entry. -/
def ptePtr (v : Nat) : Nat × Nat := (1023 * 1024 + v / 1024, v % 1024)

/-! ## The state -/

/-- `enum pool_flags` -/
inductive PoolFlags where
  | kernel
  | user
  deriving DecidableEq, Repr

/-- `struct pool` -/
structure Pool where
  poolBitmap : Bitmap
  phyAddrStart : Nat

/-- What the memory functions work on. -/
structure Memory where
  ram : Nat → Nat → Nat
  cr3 : Nat
  kernelPool : Pool
  userPool : Pool
  kernelVaddr : Bitmap
  userVaddr : Bitmap

namespace Memory

/-- The table behind an entry of a directory. -/
def tableAt (m : Memory) (dir i : Nat) : Option Nat := target (m.ram dir i)

/-- The frame that a directory maps a page to. -/
def pageAt (m : Memory) (dir v : Nat) : Option Nat :=
  (m.tableAt dir (v / 1024)).bind fun table => target (m.ram table (v % 1024))

/-- A word of a page. -/
def read (m : Memory) (func : String) (at' : Nat × Nat) : Except Fault Nat :=
  match m.pageAt m.cr3 at'.1 with
  | none => .error (.pageFault func)
  | some frame => .ok (m.ram frame at'.2)

/-- A word of a frame is written. -/
def poke (m : Memory) (frame i w : Nat) : Memory :=
  { m with ram := Function.update m.ram frame (Function.update (m.ram frame) i w) }

/-- A word of a page is written. -/
def write (m : Memory) (func : String) (at' : Nat × Nat) (w : Nat) : Except Fault Memory :=
  match m.pageAt m.cr3 at'.1 with
  | none => .error (.pageFault func)
  | some frame => .ok (m.poke frame at'.2 w)

/-- A whole frame is written. -/
def fill (m : Memory) (frame : Nat) (words : Nat → Nat) : Memory :=
  { m with ram := Function.update m.ram frame words }

/-- A whole page is read. -/
def readPage (m : Memory) (func : String) (v : Nat) : Except Fault (Nat → Nat) :=
  match m.pageAt m.cr3 v with
  | none => .error (.pageFault func)
  | some frame => .ok (m.ram frame)

/-- A whole page is written. -/
def writePage (m : Memory) (func : String) (v : Nat) (words : Nat → Nat) : Except Fault Memory :=
  match m.pageAt m.cr3 v with
  | none => .error (.pageFault func)
  | some frame => .ok (m.fill frame words)

theorem writePage_of {m : Memory} {func : String} {v frame : Nat} {words : Nat → Nat}
    (h : m.pageAt m.cr3 v = some frame) : m.writePage func v words = .ok (m.fill frame words) := by
  unfold writePage
  rw [h]

/-- `memset(vaddr, 0, pg_cnt * PG_SIZE)` -/
def clearPages (m : Memory) (func : String) (v : Nat) : Nat → Except Fault Memory
  | 0 => .ok m
  | cnt + 1 => do
    let m ← m.writePage func v fun _ => 0
    clearPages m func (v + 1) cnt

/-- `&kernel_pool` or `&user_pool` -/
def pool (m : Memory) : PoolFlags → Pool
  | .kernel => m.kernelPool
  | .user => m.userPool

/-- A bit of a pool is written. -/
def setPoolBit (m : Memory) (bitIdx : Nat) (value : Bool) : PoolFlags → Memory
  | .kernel =>
    { m with kernelPool :=
      { m.kernelPool with poolBitmap := bitmapSet m.kernelPool.poolBitmap bitIdx value } }
  | .user =>
    { m with userPool :=
      { m.userPool with poolBitmap := bitmapSet m.userPool.poolBitmap bitIdx value } }

/-! ## Allocation -/

/-- `cnt` bits from `start` on are written. -/
def setBits (b : Bitmap) (start : Nat) (value : Bool) : Nat → Bitmap
  | 0 => b
  | cnt + 1 => bitmapSet (setBits b start value cnt) (start + cnt) value

/-- `vaddr_get`; `none` is `NULL`. -/
def vaddrGet (m : Memory) (pf : PoolFlags) (pgCnt : Nat) : Except Fault (Option (Nat × Memory)) :=
  match pf with
  | .kernel => do
    match ← bitmapScan false m.kernelVaddr pgCnt with
    | none => return none
    | some bitIdxStart =>
      return some (kHeapStart + bitIdxStart,
        { m with kernelVaddr := setBits m.kernelVaddr bitIdxStart true pgCnt })
  | .user => do
    match ← bitmapScan false m.userVaddr pgCnt with
    | none => return none
    | some bitIdxStart =>
      assertThat false (userVaddrStart + bitIdxStart < kernelStart - 1) "vaddr_get"
        "(uint32_t)vaddr_start < (0xc0000000 - PG_SIZE)"
      return some (userVaddrStart + bitIdxStart,
        { m with userVaddr := setBits m.userVaddr bitIdxStart true pgCnt })

/-- `palloc`; frame `0` is `NULL`. -/
def palloc (m : Memory) (pf : PoolFlags) : Except Fault (Nat × Memory) := do
  match ← bitmapScan false (m.pool pf).poolBitmap 1 with
  | none => return (0, m)
  | some bitIdx => return ((m.pool pf).phyAddrStart + bitIdx, m.setPoolBit bitIdx true pf)

/-- The entry of a table that is there. The branch after the assertion is taken. -/
def addToTable (m : Memory) (v frame : Nat) : Except Fault Memory := do
  let pte ← m.read "page_table_add" (ptePtr v)
  assertThat false (present pte = false) "page_table_add" "!(*pte & 0x00000001)"
  m.write "page_table_add" (ptePtr v) (entryWord frame)

/-- `page_table_add` -/
def pageTableAdd (m : Memory) (v frame : Nat) : Except Fault Memory := do
  let pde ← m.read "page_table_add" (pdePtr v)
  if present pde then m.addToTable v frame
  else
    let (table, m) ← m.palloc .kernel
    let m ← m.write "page_table_add" (pdePtr v) (entryWord table)
    let m ← m.writePage "page_table_add" (ptePtr v).1 fun _ => 0
    m.addToTable v frame

/-- The loop of `malloc_page`; `false` when a frame was not to be had. -/
def mapPages (m : Memory) (pf : PoolFlags) (v : Nat) : Nat → Except Fault (Bool × Memory)
  | 0 => .ok (true, m)
  | cnt + 1 => do
    let (frame, m) ← m.palloc pf
    if frame = 0 then return (false, m)
    else
      let m ← m.pageTableAdd v frame
      mapPages m pf (v + 1) cnt

/-- `malloc_page` -/
def mallocPage (m : Memory) (pf : PoolFlags) (pgCnt : Nat) :
    Except Fault (Option Nat × Memory) := do
  assertThat false (0 < pgCnt ∧ pgCnt < 3840) "malloc_page" "pg_cnt > 0 && pg_cnt < 3840"
  match ← m.vaddrGet pf pgCnt with
  | none => return (none, m)
  | some (v, m) =>
    let (mapped, m) ← m.mapPages pf v pgCnt
    return (if mapped then some v else none, m)

/-- `memset` after an allocation that has answered. -/
def clearIfAny (m : Memory) (func : String) (pgCnt : Nat) : Option Nat → Except Fault Memory
  | none => .ok m
  | some v => m.clearPages func v pgCnt

/-- `get_kernel_pages` -/
def getKernelPages (m : Memory) (pgCnt : Nat) : Except Fault (Option Nat × Memory) := do
  let (vaddr, m) ← m.mallocPage .kernel pgCnt
  let m ← m.clearIfAny "get_kernel_pages" pgCnt vaddr
  return (vaddr, m)

/-- `get_user_pages` -/
def getUserPages (m : Memory) (pgCnt : Nat) : Except Fault (Option Nat × Memory) := do
  let (vaddr, m) ← m.mallocPage .user pgCnt
  let m ← m.clearIfAny "get_user_pages" pgCnt vaddr
  return (vaddr, m)

/-- `get_a_page_without_opvaddrbitmap`; `false` is `NULL`. -/
def getAPageWithoutOpvaddrbitmap (m : Memory) (pf : PoolFlags) (v : Nat) :
    Except Fault (Bool × Memory) := m.mapPages pf v 1

/-! ## Release -/

/-- `addr_v2p` -/
def addrV2p (m : Memory) (v : Nat) : Except Fault Nat := do
  let pte ← m.read "addr_v2p" (ptePtr v)
  return frameOf pte

/-- `(addr - start) / PG_SIZE`, in 32 bits -/
def bitIdxOf (addr start : Nat) : Nat := (2 ^ 20 + addr - start) % 2 ^ 20

/-- The bit of a frame is cleared, in the pool that its address belongs to: `pfree` and
`free_a_phy_addr`. -/
def pfree (m : Memory) (frame : Nat) : Except Fault Memory :=
  let pf := if m.userPool.phyAddrStart ≤ frame then PoolFlags.user else .kernel
  let bitIdx := bitIdxOf frame (m.pool pf).phyAddrStart
  if bitIdx < (m.pool pf).poolBitmap.size then .ok (m.setPoolBit bitIdx false pf)
  else .error (.outOfBounds "bitmap_set")

/-- `page_table_pte_remove` -/
def pageTablePteRemove (m : Memory) (v : Nat) : Except Fault Memory := do
  let pte ← m.read "page_table_pte_remove" (ptePtr v)
  m.write "page_table_pte_remove" (ptePtr v) (pte - pte % 2)

/-- `vaddr_remove` -/
def vaddrRemove (m : Memory) (pf : PoolFlags) (v pgCnt : Nat) : Except Fault Memory :=
  match pf with
  | .kernel =>
    let bitIdxStart := bitIdxOf v kHeapStart
    if bitIdxStart + pgCnt ≤ m.kernelVaddr.size then
      .ok { m with kernelVaddr := setBits m.kernelVaddr bitIdxStart false pgCnt }
    else .error (.outOfBounds "vaddr_remove")
  | .user =>
    let bitIdxStart := bitIdxOf v userVaddrStart
    if bitIdxStart + pgCnt ≤ m.userVaddr.size then
      .ok { m with userVaddr := setBits m.userVaddr bitIdxStart false pgCnt }
    else .error (.outOfBounds "vaddr_remove")

/-- The frame is one of the pool, as `mfree_page` checks it. -/
def InPool (m : Memory) (frame : Nat) : PoolFlags → Prop
  | .kernel => m.kernelPool.phyAddrStart ≤ frame ∧ frame < m.userPool.phyAddrStart
  | .user => m.userPool.phyAddrStart ≤ frame

instance (m : Memory) (frame : Nat) : (pf : PoolFlags) → Decidable (m.InPool frame pf)
  | .kernel => inferInstanceAs (Decidable (_ ∧ _))
  | .user => inferInstanceAs (Decidable (_ ≤ _))

/-- The text of that assertion. -/
def inPoolText : PoolFlags → String
  | .kernel =>
    "(pg_phyaddr % PG_SIZE) == 0 && pg_phyaddr >= kernel_pool.phy_addr_start && pg_phyaddr < user_pool.phy_addr_start"
  | .user => "(pg_phyaddr % PG_SIZE) == 0 && pg_phyaddr >= user_pool.phy_addr_start"

/-- One of the loops of `mfree_page`. -/
def freePages (m : Memory) (pf : PoolFlags) (v : Nat) : Nat → Except Fault Memory
  | 0 => .ok m
  | cnt + 1 => do
    let frame ← m.addrV2p v
    assertThat false (m.InPool frame pf) "mfree_page" (inPoolText pf)
    let m ← m.pfree frame
    let m ← m.pageTablePteRemove v
    freePages m pf (v + 1) cnt

/-- `mfree_page` -/
def mfreePage (m : Memory) (pf : PoolFlags) (v pgCnt : Nat) : Except Fault Memory := do
  assertThat false (0 < pgCnt) "mfree_page" "((uint32_t)_vaddr % PG_SIZE == 0) && pg_cnt > 0"
  let frame ← m.addrV2p v
  assertThat false (0x102 ≤ frame) "mfree_page"
    "(pg_phyaddr % PG_SIZE == 0) && (pg_phyaddr >= 0x102000)"
  let m ← m.freePages (if m.userPool.phyAddrStart ≤ frame then .user else .kernel) v pgCnt
  m.vaddrRemove pf v pgCnt

end Memory

end SeekingOs
