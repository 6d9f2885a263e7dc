import SeekingOs.Device.Transfers
import SeekingOs.Lib.Serial
import SeekingOs.Thread.Section

/-!
# A channel, its controller and the threads

`ide_read` and `ide_write` hold the lock of the channel. They set `expecting_intr`, give a command
and sleep on `disk_done` until `intr_hd_handler` wakes them; a read sleeps before its data is moved,
a write after it. All of this runs with interrupts on or off, as the caller has them, so the
controller's interrupt may come before the thread is asleep.

The controller works by itself, as ATA has it for READ SECTORS and WRITE SECTORS: one sector after
another. It asks for each with DRQ, and raises its interrupt when it has read the sector or written
it; it takes the interrupt back when its status is read or a command is given. A command that it is
given while it is at work is lost, and what is moved without DRQ too.

A command for several sectors raises an interrupt for each, but `ide_read` and `ide_write` sleep
once, wait for DRQ once and move all the data: they are right about a controller of that kind when a
command is for one sector.
-/

namespace SeekingOs.Device

open Lib Thread

variable {α : Type}

/-- The semaphore `disk_done` of the channel. -/
def diskDone : Nat := 1

/-! ## The controller -/

/-- The sectors of the two drives. -/
abbrev Image (α : Type) := Bool → Nat → α

/-- What is read where `n` sectors are: a sector is `none` where the bus carries no data. -/
def loaded (img : Image α) (drive : Bool) (lba n : Nat) : List (Option α) :=
  (List.range' lba n).map fun k => some (img drive k)

/-- Some sectors are written. -/
def stored (img : Image α) (drive : Bool) (lba : Nat) (data : List α) : Image α := fun d k =>
  if d = drive ∧ lba ≤ k then data[k - lba]?.getD (img d k) else img d k

/-- The sectors that a command is still to be carried out for. -/
structure SectorSpan where
  drive : Bool
  lba : Nat
  count : Nat

/-- The sectors behind the first. -/
def SectorSpan.next (secs : SectorSpan) : SectorSpan :=
  { secs with lba := secs.lba + 1, count := secs.count - 1 }

/-- The sectors that the registers name. -/
def Registers.sectors (r : Registers) : SectorSpan := ⟨r.drive, r.address, r.count⟩

/-- What the controller is doing with the first of its sectors. -/
inductive DriveState (α : Type) where
  | idle
  /-- BSY: it reads it. -/
  | reading (secs : SectorSpan)
  /-- DRQ: it has read it, for the processor to take. -/
  | full (sector : α) (secs : SectorSpan)
  /-- BSY: it gets ready to take what is to be written. -/
  | preparing (secs : SectorSpan)
  /-- DRQ: it takes what is to be written. -/
  | empty (secs : SectorSpan)
  /-- BSY: it writes it. -/
  | writing (sector : α) (secs : SectorSpan)

/-- The controller of a channel. -/
structure Controller (α : Type) where
  regs : Registers
  state : DriveState α
  /-- The line of its interrupt. -/
  intrq : Bool
  image : Image α

namespace Controller

variable (c : Controller α)

/-- `BIT_ALT_STAT_BSY` of the status -/
def bsy : Bool :=
  match c.state with
  | .reading _ | .preparing _ | .writing _ _ => true
  | _ => false

/-- `BIT_ALT_STAT_DRQ` of the status -/
def drq : Bool :=
  match c.state with
  | .full _ _ | .empty _ => true
  | _ => false

/-- `inb(reg_status(channel))` -/
def readStatus : Controller α := { c with intrq := false }

/-- `outb(reg_cmd(channel), cmd)` -/
def command (cmd : Byte) : Controller α :=
  match c.state with
  | .idle =>
    if cmd = cmdReadSector then { c with state := .reading c.regs.sectors, intrq := false }
    else if cmd = cmdWriteSector then { c with state := .preparing c.regs.sectors, intrq := false }
    else c
  | _ => c

/-- The controller gets on by itself. -/
def work : Controller α :=
  match c.state with
  | .reading secs => { c with state := .full (c.image secs.drive secs.lba) secs, intrq := true }
  | .preparing secs => { c with state := .empty secs }
  | .writing sector secs =>
    { c with
      state := if secs.count ≤ 1 then .idle else .empty secs.next
      intrq := true
      image := stored c.image secs.drive secs.lba [sector] }
  | _ => c

/-- `insw`, of one sector -/
def insw : Option α × Controller α :=
  match c.state with
  | .full sector secs =>
    (some sector, { c with state := if secs.count ≤ 1 then .idle else .reading secs.next })
  | _ => (none, c)

/-- `outsw`, of one sector -/
def outsw (sector : α) : Controller α :=
  match c.state with
  | .empty secs => { c with state := .writing sector secs }
  | _ => c

end Controller

/-! ## The threads -/

/-- A call of `ide_read` or `ide_write`. A buffer that is written from holds a sector at each
number. -/
structure Transfer (α : Type) where
  write : Bool
  hd : Disk
  lba : Nat
  secCnt : Nat
  buf : Nat → α

namespace Transfer

/-- The name of the function. -/
def func (t : Transfer α) : String := if t.write then "ide_write" else "ide_read"

def op (t : Transfer α) : String := if t.write then "write" else "read"

def cmd (t : Transfer α) : Byte := if t.write then cmdWriteSector else cmdReadSector

/-- The drive, by its number. -/
def drive (t : Transfer α) : Bool := decide (t.hd.devNo = 1)

/-- What is written to `n` sectors. -/
def data (t : Transfer α) (done n : Nat) : List α := (List.range' done n).map t.buf

end Transfer

/-- Where a thread is in `ide_read` or `ide_write`. -/
inductive ChannelPoint where
  | out
  /-- In `lock_acquire`. -/
  | acquire
  /-- `select_disk` comes next. -/
  | selectDisk
  /-- The test of the loop comes next, and `select_sector` or `lock_release`. -/
  | loop
  /-- In `cmd_out`: `expecting_intr` is set next. -/
  | expect
  /-- In `cmd_out`: the command is given next. -/
  | command
  /-- `sema_down` comes next. -/
  | sleep
  /-- In `sema_down`, or behind it. -/
  | asleep
  /-- In the loop of `busy_wait`. -/
  | busyWait (timeLimit : Nat)
  /-- In `read_from_sector` or `write2sector`, where so many sectors are moved. -/
  | move (moved : Nat)
  /-- In `lock_release`. -/
  | release
  deriving DecidableEq, Repr

def ChannelPoint.stage : ChannelPoint → Stage
  | .out => .out
  | .acquire => .acquiring
  | .release => .releasing
  | _ => .inside

/-- The parameters and the local variables of `ide_read` and `ide_write`. -/
structure Job (α : Type) extends Transfer α where
  secsDone : Nat
  /-- What has been read into the buffer. -/
  got : List (Option α)

/-- `secs_op` -/
def Job.secsOp (j : Job α) : Nat := Device.secsOp j.secCnt j.secsDone

/-- `struct ide_channel`, and the threads that use it. -/
structure Channel (α : Type) where
  /-- The scheduler, and the channel's lock. -/
  lock : LockSched
  expectingIntr : Bool
  controller : Controller α
  point : Addr → ChannelPoint
  job : Addr → Job α
  /-- Ghost: the calls with what they have read, in the order of the releases. -/
  history : List (Transfer α × List (Option α))

namespace Channel

variable (s : Channel α)

/-- The current thread. -/
def cur : Addr := s.lock.sched.cur

/-- The current thread goes on at `p`. -/
def goTo (p : ChannelPoint) : Channel α := { s with point := Function.update s.point s.cur p }

/-- The call of the current thread. -/
def curJob : Job α := s.job s.cur

/-- Its local variables change. -/
def setJob (j : Job α) : Channel α := { s with job := Function.update s.job s.cur j }

/-- The next statement of `ide_read` or `ide_write`. -/
def go : Except Fault (Channel α) :=
  let j := s.curJob
  match s.point s.cur with
  | .out => .ok s
  | .acquire => .ok (s.goTo .selectDisk)
  | .selectDisk =>
    .ok { s.goTo .loop with
      controller := { s.controller with
        regs := { s.controller.regs with dev := outb (devBits j.hd) } } }
  | .loop =>
    if j.secsDone < j.secCnt then do
      let regs ← selectSector j.hd (j.lba + j.secsDone) (BitVec.ofNat 8 j.secsOp)
      return { s.goTo .expect with controller := { s.controller with regs } }
    else do
      let lock ← s.lock.lockRelease
      return { s.goTo .release with lock, history := s.history ++ [(j.toTransfer, j.got)] }
  | .expect => .ok { s.goTo .command with expectingIntr := true }
  | .command =>
    .ok { s.goTo (if j.write then .busyWait (30 * 1000) else .sleep) with
      controller := s.controller.command j.cmd }
  | .sleep => do
    let sched ← semaDown s.lock.sched diskDone
    return { s.goTo .asleep with lock := { s.lock with sched } }
  | .asleep =>
    if j.write then .ok ((s.goTo .loop).setJob { j with secsDone := j.secsDone + j.secsOp })
    else .ok (s.goTo (.busyWait (30 * 1000)))
  | .busyWait n =>
    -- `time_limit -= 10 >= 0` takes 1 away
    if n - 1 = 0 then .error (.panic j.func (failedText j.hd j.op j.lba))
    else if s.controller.bsy then
      .ok { s.goTo (.busyWait (n - 1)) with controller := s.controller.readStatus }
    else if s.controller.drq then
      .ok { s.goTo (.move 0) with controller := s.controller.readStatus }
    else .error (.panic j.func (failedText j.hd j.op j.lba))
  | .move moved =>
    -- one sector of `insw` or `outsw`
    let more := decide (moved + 1 < sizeInBytes (BitVec.ofNat 8 j.secsOp) / 512)
    if j.write then
      .ok { s.goTo (if more then .move (moved + 1) else .sleep) with
        controller := s.controller.outsw (j.buf (j.secsDone + moved)) }
    else
      .ok { (s.goTo (if more then .move (moved + 1) else .loop)).setJob
          { j with
            secsDone := if more then j.secsDone else j.secsDone + j.secsOp
            got := j.got ++ [s.controller.insw.1] } with
        controller := s.controller.insw.2 }
  | .release => .ok (s.goTo .out)

/-- The beginning of `ide_read` and `ide_write` -/
def call (t : Transfer α) : Except Fault (Channel α) := do
  assertThat false (t.lba ≤ maxLba) t.func "lba <= max_lba"
  assertThat false (0 < t.secCnt) t.func "sec_cnt > 0"
  return { (s.goTo .acquire).setJob { t with secsDone := 0, got := [] } with
    lock := s.lock.lockAcquire }

/-- `intr_hd_handler` -/
def intrHdHandler : Except Fault (Channel α) :=
  if s.expectingIntr then do
    let sched ← semaUp s.lock.sched diskDone
    return { s with expectingIntr := false, lock := { s.lock with sched },
                    controller := s.controller.readStatus }
  else .ok { s with controller := s.controller.readStatus }

end Channel

/-- What can happen next. -/
inductive ChannelEvent (α : Type) where
  /-- The current thread calls `ide_read` or `ide_write`. -/
  | call (t : Transfer α)
  /-- It executes the next statement of that. -/
  | go
  /-- It goes on in `sema_down` on `disk_done`. -/
  | wake
  /-- The interrupt of the controller. -/
  | intr
  /-- The controller gets on. -/
  | work
  /-- A statement of the lock's code, or a step of the scheduler. -/
  | lock (e : LockEvent)

/-- In the loop of `sema_down` on `disk_done`. -/
def InDiskDone : Resume → Prop
  | .semaDown k _ => k = diskDone
  | _ => False

instance (r : Resume) : Decidable (InDiskDone r) :=
  match r with
  | .semaDown k _ => inferInstanceAs (Decidable (k = diskDone))
  | .run | .fresh | .ret _ | .ioqWait _ | .wait | .exited | .over =>
    inferInstanceAs (Decidable False)

/-- Whether an event can come next. `mtime_sleep` in `busy_wait` gives the processor away as often
as it likes: a step of the scheduler like any other. -/
def channelEnabled (s : Channel α) : ChannelEvent α → Prop
  | .call _ => (s.lock.sched.tasks s.cur).resume = .run ∧ s.cur ≠ s.lock.sched.idleThread ∧
      s.point s.cur = .out
  | .go => (s.lock.sched.tasks s.cur).resume = .run ∧ s.point s.cur ≠ .out ∧
      s.lock.point s.cur = .out
  | .wake => InDiskDone (s.lock.sched.tasks s.cur).resume
  | .intr => (s.lock.sched.tasks s.cur).resume = .run ∧ s.lock.sched.intr = true ∧
      s.controller.intrq = true
  | .work => True
  | .lock e => Quiet e ∧ lockEnabled s.lock e

instance (s : Channel α) (e : ChannelEvent α) : Decidable (channelEnabled s e) := by
  cases e <;> unfold channelEnabled <;> exact inferInstance

/-- One step. -/
def channelStep (s : Channel α) : ChannelEvent α → Except Fault (Channel α × Unit)
  | .call t => do return (← s.call t, ())
  | .go => do return (← s.go, ())
  | .wake => do
    let (sched, _) ← goOn s.lock.sched
    return ({ s with lock := { s.lock with sched } }, ())
  | .intr => do return (← s.intrHdHandler, ())
  | .work => .ok ({ s with controller := s.controller.work }, ())
  | .lock e => do
    let (lock, _) ← lockStep s.lock e
    return ({ s with lock }, ())

/-- A channel under the scheduler. -/
def channelMachine (α : Type) : Machine (Channel α) (ChannelEvent α) Unit Fault :=
  ⟨channelEnabled, channelStep⟩

instance (s : Channel α) (e : ChannelEvent α) : Decidable ((channelMachine α).enabled s e) :=
  inferInstanceAs (Decidable (channelEnabled s e))

/-- A transfer is of one sector. -/
def OneSector (_ : Channel α) : ChannelEvent α → Prop
  | .call t => t.secCnt = 1
  | _ => True

instance (s : Channel α) (e : ChannelEvent α) : Decidable (OneSector s e) := by
  cases e <;> unfold OneSector <;> exact inferInstance

/-- What `ide_init` leaves of a channel: `lock_init`, `sema_init(&channel->disk_done, 0)`, and a
controller that has nothing to do. -/
def channelInit (sched : Sched) (regs : Registers) (image : Image α) (job : Addr → Job α) :
    Channel α where
  lock := lockInit (sched.setSema diskDone fun _ => ⟨0, []⟩)
  expectingIntr := false
  controller := ⟨regs, .idle, false, image⟩
  point _ := .out
  job := job
  history := []

/-! ## One call after another -/

/-- A whole call: what it makes of the drives, and what it reads. -/
def Transfer.perform (t : Transfer α) (img : Image α) : Image α × List (Option α) :=
  if t.write then (stored img t.drive t.lba (t.data 0 t.secCnt), [])
  else (img, loaded img t.drive t.lba t.secCnt)

/-- `disk_done` carries at most one interrupt, and who sleeps on it is expecting one that is yet to
come: the controller is at work, or has it raised. -/
structure Wakes (s : Channel α) : Prop where
  value : (s.lock.sched.semaphores diskDone).value = 0 ∨
    (s.lock.sched.semaphores diskDone).value = 1
  sleeps : (s.lock.sched.semaphores diskDone).waiters ≠ [] →
    s.expectingIntr = true ∧ (s.controller.bsy = true ∨ s.controller.intrq = true)

/-- What the disk interface is for. -/
structure ChannelSafe (image : Image α) (s : Channel α) : Prop extends Wakes s where
  /-- One thread at most is between the lock's acquisition and its release. -/
  alone : ∀ t u, (s.point t).stage = .inside → (s.point u).stage = .inside → t = u
  /-- A command is only given to a controller that has nothing to do and is not about to raise an
  interrupt. -/
  commands : ∀ t, s.point t = .command → s.controller.bsy = false ∧ s.controller.drq = false ∧
    s.controller.intrq = false
  /-- Nothing of a call is left behind. -/
  rests : (∀ t, (s.point t).stage ≠ .inside) →
    s.expectingIntr = false ∧ s.lock.sched.semaphores diskDone = ⟨0, []⟩ ∧
    s.controller.bsy = false ∧ s.controller.intrq = false
  /-- The calls that are over have read and written as if they had been carried out one after
  another, and the drives hold what they leave, when nobody is at work. -/
  serial : ∃ before, Serial Transfer.perform image s.history before ∧
    ((∀ t, (s.point t).stage ≠ .inside) → s.controller.image = before)

end SeekingOs.Device
