import SeekingOs.Device.IoQueueRuns

/-!
# `shell/pipe.c`: the transfers

`pipe_read` and `pipe_write` ask once how many bytes the ring holds and call `ioq_getchar` and
`ioq_putchar` so often that no call should wait. One position of the ring is never used, so a full
ring holds one byte less than `bufsize`; `pipe_write` counts with `bufsize`.

The ring is given: which slot of `file_table` it belongs to is not looked at here. A transfer ends
when it returns, or when a call of the queue does not come back to it: the task then has the lock to
acquire, and waits behind that.
-/

namespace SeekingOs.Shell

open Lib Thread Device

/-- What comes of a transfer, with the bytes that went through it. -/
inductive TransferEnd where
  | returned (bytes : List UInt8) (q : Ioqueue)
  | waits (bytes : List UInt8) (q : Ioqueue)

/-- The loop of `pipe_read` with `left` rounds to go, and what is in the caller's buffer. -/
def pipeReadLoop : (left : Nat) → Ioqueue → List UInt8 → Except Fault TransferEnd
  | 0, q, buffer => return .returned buffer q
  | left + 1, q, buffer => do
    let q ← q.call .getchar
    if q.place q.cur = .out then pipeReadLoop left q (buffer ++ [q.returned.getLastD 0])
    else return .waits buffer q

/-- `pipe_read` -/
def pipeRead (q : Ioqueue) (count : Nat) : Except Fault TransferEnd :=
  let ioqLen := q.ioqLenth
  let size := if ioqLen > count then count else ioqLen
  pipeReadLoop size q []

/-- The loop of `pipe_write`, and what has been stored of the caller's buffer. -/
def pipeWriteLoop (buffer : Nat → UInt8) :
    (left : Nat) → Ioqueue → List UInt8 → Except Fault TransferEnd
  | 0, q, stored => return .returned stored q
  | left + 1, q, stored => do
    let byte := buffer stored.length
    let q ← q.call (.putchar byte)
    if q.place q.cur = .out then pipeWriteLoop buffer left q (stored ++ [byte])
    else return .waits stored q

/-- `pipe_write` -/
def pipeWrite (q : Ioqueue) (buffer : Nat → UInt8) (count : Nat) : Except Fault TransferEnd :=
  let ioqLeft := bufsize - q.ioqLenth
  let size := if ioqLeft > count then count else ioqLeft
  pipeWriteLoop buffer size q []

/-! ## One byte -/

variable {q q' : Ioqueue}

/-- A pipe before a call on its queue: any ring, and the task that calls is in no other call and has
interrupts off. -/
structure Idle (q : Ioqueue) : Prop where
  queues : Queues q.lock.sched
  off : q.lock.sched.intr = false
  out : q.place q.cur = .out
  head : q.head < bufsize
  tail : q.tail < bufsize

theorem wakeup_total {s : Sched} {w : Nat} (queues : Queues s) (some : (s.waiter w).isSome) :
    ∃ s', wakeup s w = .ok s' ∧ Queues s' ∧ s'.cur = s.cur ∧ s'.intr = s.intr := by
  have keeps := wakeup_keeps queues w
  have frame := wakeup_frame some
  obtain ⟨t, ht⟩ := Option.isSome_iff_exists.mp some
  unfold wakeup at keeps frame ⊢
  rw [ht] at keeps frame ⊢
  dsimp only at keeps frame ⊢
  rw [threadUnblock_eq queues.toLinks (.inl (queues.waiter w t ht).2.1), ok_bind] at keeps frame ⊢
  exact ⟨_, rfl, keeps.1, frame.2⟩

/-- `wakeup` or not, the ring is as the call left it. -/
theorem wakeupIf_total {w : Nat} (queues : Queues q.lock.sched) :
    ∃ q', q.wakeupIf w = .ok q' ∧ Queues q'.lock.sched ∧ q'.cur = q.cur ∧
      q'.lock.sched.intr = q.lock.sched.intr ∧
      q' = { q with lock := q'.lock } := by
  unfold Ioqueue.wakeupIf
  split
  next some =>
    obtain ⟨s, hs, queues', cur, intr⟩ := wakeup_total queues some
    rw [hs, ok_bind]
    exact ⟨_, rfl, queues', cur, intr, rfl⟩
  next => exact ⟨q, rfl, queues, rfl, rfl, rfl⟩

theorem call_off (idle : Idle q) (c : IoqCall) : q.call c = q.loop c := by
  unfold Ioqueue.call
  dsimp only
  rw [assertThat_of idle.off, ok_bind]

theorem loop_goes (idle : Idle q) (c : IoqCall) (must : ¬ q.MustWait c) : q.loop c = match c with
    | .getchar => q.getcharEnd
    | .putchar byte => q.putcharEnd byte := by
  unfold Ioqueue.loop
  dsimp only
  rw [assertThat_of idle.off, ok_bind, if_neg must]
  cases c with
  | getchar => rfl
  | putchar byte => rfl

/-- `ioq_getchar` ON A RING THAT IS NOT EMPTY takes the first byte. -/
theorem call_getchar (idle : Idle q) (some : ¬ q.ioqEmpty) :
    ∃ q', q.call .getchar = .ok q' ∧ Idle q' ∧
      q.contents = q'.returned.getLastD 0 :: q'.contents := by
  rw [call_off idle, loop_goes idle .getchar some]
  obtain ⟨q', hq', queues, cur, intr, rest⟩ :=
    wakeupIf_total
      (q := { q.goTo .out with tail := nextPos q.tail, returned := q.returned ++ [q.buf q.tail] })
        (w := producer) idle.queues
  refine ⟨q', hq', ?_, ?_⟩
  · constructor
    · exact queues
    · exact intr.trans idle.off
    · rw [cur, rest]
      exact Function.update_self _ _ _
    · rw [rest]
      exact idle.head
    · rw [rest]
      exact nextPos_lt _
  · have byte : q'.returned.getLastD 0 = q.buf q.tail := by
      rw [rest]
      simp
    rw [byte]
    apply contents_get idle.head idle.tail some
    · rw [rest]
      rfl
    · rw [rest]
      rfl
    · rw [rest]

/-- `ioq_putchar` ON A RING THAT IS NOT FULL stores the byte behind the others. -/
theorem call_putchar (idle : Idle q) (room : ¬ q.ioqFull) (byte : UInt8) :
    ∃ q', q.call (.putchar byte) = .ok q' ∧ Idle q' ∧ q'.contents = q.contents ++ [byte] := by
  rw [call_off idle, loop_goes idle (.putchar byte) room]
  obtain ⟨q', hq', queues, cur, intr, rest⟩ := wakeupIf_total
    (q := { q.goTo .out with
      buf := Function.update q.buf q.head byte, head := nextPos q.head, stored :=
        q.stored ++ [byte] }) (w := consumer) idle.queues
  refine ⟨q', hq', ?_, ?_⟩
  · constructor
    · exact queues
    · exact intr.trans idle.off
    · rw [cur, rest]
      exact Function.update_self _ _ _
    · rw [rest]
      exact nextPos_lt _
    · rw [rest]
      exact idle.tail
  · apply contents_put idle.head idle.tail room
    · rw [rest]
    · rw [rest]
    · rw [rest]
      rfl

/-- `ioq_putchar` ON A FULL RING goes for the lock, to wait behind it. -/
theorem call_putchar_full (idle : Idle q) (full : q.ioqFull) (byte : UInt8) :
    ∃ q', q.call (.putchar byte) = .ok q' ∧ q'.place q'.cur ≠ .out := by
  rw [call_off idle]
  unfold Ioqueue.loop
  dsimp only
  rw [assertThat_of idle.off, ok_bind]
  refine ⟨{ q.goTo (.locking (.putchar byte)) with lock := q.lock.lockAcquire }, if_pos full, ?_⟩
  have cur : q.lock.lockAcquire.sched.cur = q.cur := by
    unfold LockSched.lockAcquire
    split
    · rfl
    · rfl
  show Function.update q.place q.cur _ q.lock.lockAcquire.sched.cur ≠ .out
  rw [cur, Function.update_self]
  exact nofun

/-! ## The loops -/

theorem length_contents : q.contents.length = q.ioqLenth := length_ringItems

theorem empty_iff (idle : Idle q) : q.ioqEmpty ↔ q.contents = [] := by
  rw [← List.length_eq_zero_iff, length_contents]
  exact (ringLength_eq_zero idle.tail).symm

theorem full_iff (idle : Idle q) : q.ioqFull ↔ q.contents.length + 1 = bufsize := by
  rw [length_contents]
  exact (ringLength_full idle.head idle.tail).symm

theorem contents_lt (idle : Idle q) : q.contents.length < bufsize := by
  rw [length_contents]
  exact ringLength_lt idle.head

/-- `pipe_read` never asks for more bytes than there are. -/
theorem pipeReadLoop_returns (idle : Idle q) (buffer : List UInt8) {left : Nat}
    (enough : left ≤ q.contents.length) :
    ∃ q', pipeReadLoop left q buffer = .ok (.returned (buffer ++ q.contents.take left) q') ∧
      q'.contents = q.contents.drop left := by
  induction left generalizing q buffer with
  | zero => exact ⟨q, by rw [List.take_zero, List.append_nil]; rfl, rfl⟩
  | succ left ih =>
    have some : ¬ q.ioqEmpty := by
      rw [empty_iff idle]
      intro none
      rw [none] at enough
      exact Nat.not_succ_le_zero _ enough
    obtain ⟨q₁, hcall, idle₁, first⟩ := call_getchar idle some
    rw [first, List.length_cons] at enough
    obtain ⟨q', hloop, rest⟩ :=
      ih idle₁ (buffer ++ [q₁.returned.getLastD 0]) (Nat.le_of_succ_le_succ enough)
    refine ⟨q', ?_, ?_⟩
    · unfold pipeReadLoop
      rw [hcall, ok_bind, if_pos idle₁.out, hloop, first, List.take_succ_cons, List.append_assoc]
      rfl
    · rw [rest, first, List.drop_succ_cons]

/-- The bytes of the caller's buffer from `i` on. -/
def bytesFrom (buffer : Nat → UInt8) (i n : Nat) : List UInt8 := (List.range' i n).map buffer

/-- `pipe_write` while there is room. -/
theorem pipeWriteLoop_returns (idle : Idle q) (buffer : Nat → UInt8) (stored : List UInt8)
    {left : Nat} (room : q.contents.length + left < bufsize) :
    ∃ q', pipeWriteLoop buffer left q stored =
      .ok (.returned (stored ++ bytesFrom buffer stored.length left) q') ∧
      q'.contents = q.contents ++ bytesFrom buffer stored.length left := by
  induction left generalizing q stored with
  | zero => exact ⟨q, by simp [bytesFrom, pipeWriteLoop]; rfl, by simp [bytesFrom]⟩
  | succ left ih =>
    have notFull : ¬ q.ioqFull := by
      rw [full_iff idle]
      omega
    obtain ⟨q₁, hcall, idle₁, last⟩ := call_putchar idle notFull (buffer stored.length)
    have longer : (stored ++ [buffer stored.length]).length = stored.length + 1 := by simp
    have split : bytesFrom buffer stored.length (left + 1) =
        [buffer stored.length] ++ bytesFrom buffer (stored.length + 1) left := by
      simp [bytesFrom, List.range'_succ]
    obtain ⟨q', hloop, rest⟩ :=
      ih idle₁ (stored ++ [buffer stored.length]) (by rw [last]; simp; omega)
    rw [longer] at hloop rest
    refine ⟨q', ?_, ?_⟩
    · unfold pipeWriteLoop
      dsimp only
      rw [hcall, ok_bind, if_pos idle₁.out, hloop, split, List.append_assoc]
    · rw [rest, last, split, List.append_assoc]

/-- `pipe_write` with more bytes than there is room for: the one that finds the ring full waits. -/
theorem pipeWriteLoop_waits (idle : Idle q) (buffer : Nat → UInt8) (stored : List UInt8)
    {left : Nat} (beyond : bufsize ≤ q.contents.length + left) :
    ∃ bytes q', pipeWriteLoop buffer left q stored = .ok (.waits bytes q') := by
  induction left generalizing q stored with
  | zero =>
    have := contents_lt idle
    omega
  | succ left ih =>
    unfold pipeWriteLoop
    dsimp only
    by_cases full : q.ioqFull
    · obtain ⟨q₁, hcall, inside⟩ := call_putchar_full idle full (buffer stored.length)
      rw [hcall, ok_bind, if_neg inside]
      exact ⟨stored, q₁, rfl⟩
    · obtain ⟨q₁, hcall, idle₁, last⟩ := call_putchar idle full (buffer stored.length)
      rw [hcall, ok_bind, if_pos idle₁.out]
      apply ih idle₁
      rw [last]
      simp
      omega

/-! ## The two transfers -/

/-- The positions that are left. -/
def freeSpace (q : Ioqueue) : Nat := bufsize - 1 - q.ioqLenth

/-- `pipe_read` returns, with the first bytes of the ring: as many as were asked for and are there.
-/
def Reads (q : Ioqueue) (count : Nat) : Prop :=
  ∃ bytes q', pipeRead q count = .ok (.returned bytes q') ∧ bytes.length = min count q.ioqLenth ∧
    q.contents = bytes ++ q'.contents

/-- `pipe_write` returns, and has stored the first bytes of the buffer: as many as were asked for
and have room. -/
def Writes (q : Ioqueue) (buffer : Nat → UInt8) (count : Nat) : Prop :=
  ∃ q', pipeWrite q buffer count =
    .ok (.returned (bytesFrom buffer 0 (min count (freeSpace q))) q') ∧
    q'.contents = q.contents ++ bytesFrom buffer 0 (min count (freeSpace q))

theorem pipe_reads (idle : Idle q) (count : Nat) : Reads q count := by
  have size : (if q.ioqLenth > count then count else q.ioqLenth) = min count q.ioqLenth := by
    split
    · omega
    · omega
  have enough : min count q.ioqLenth ≤ q.contents.length := by
    rw [length_contents]
    exact Nat.min_le_right _ _
  obtain ⟨q', hloop, rest⟩ := pipeReadLoop_returns idle [] enough
  refine ⟨q.contents.take (min count q.ioqLenth), q', ?_, ?_, ?_⟩
  · unfold pipeRead
    dsimp only
    rw [size, hloop, List.nil_append]
  · rw [List.length_take, length_contents]
    omega
  · rw [rest, List.take_append_drop]

theorem pipe_writes_iff (idle : Idle q) (buffer : Nat → UInt8) (count : Nat) :
    Writes q buffer count ↔ count ≤ freeSpace q := by
  have hlt := contents_lt idle
  rw [length_contents] at hlt
  unfold Writes pipeWrite freeSpace
  dsimp only
  constructor
  · rintro ⟨q', h, -⟩
    by_contra more
    have beyond : bufsize ≤ q.contents.length + if bufsize - q.ioqLenth > count then count
        else bufsize - q.ioqLenth := by
      rw [length_contents]
      split
      · omega
      · omega
    obtain ⟨bytes, q₁, hwaits⟩ := pipeWriteLoop_waits idle buffer [] beyond
    rw [hwaits] at h
    cases h
  · intro fits
    have size : (if bufsize - q.ioqLenth > count then count else bufsize - q.ioqLenth) = count :=
      if_pos (by omega)
    have asked : min count (bufsize - 1 - q.ioqLenth) = count := by omega
    have room : q.contents.length + count < bufsize := by
      rw [length_contents]
      omega
    obtain ⟨q', hloop, rest⟩ := pipeWriteLoop_returns idle buffer [] room
    rw [size, asked, hloop]
    exact ⟨q', rfl, rest⟩

/-- PIPE TRANSFERS. For every ring and every count, both return with as many bytes as there are and
as there is room for exactly when no more is to be written than there is room for. -/
theorem pipe_transfers_iff (q : Ioqueue) (buffer : Nat → UInt8) (count : Nat) (idle : Idle q) :
    Reads q count ∧ Writes q buffer count ↔ count ≤ freeSpace q := by
  constructor
  · intro both
    exact (pipe_writes_iff idle buffer count).mp both.2
  · intro fits
    exact ⟨pipe_reads idle count, (pipe_writes_iff idle buffer count).mpr fits⟩

/-- A queue that nothing was written to, after the boot. -/
theorem bootQueue_idle : Idle bootQueue := by
  have inv : IoqInv bootQueue := ioqueueInit_inv (boot_queues (by decide)) boot_nobodyWaits
  obtain ⟨owner, held⟩ := inv.held
  exact ⟨held.queues, rfl, rfl, by decide, by decide⟩

/-- The ring wraps round: it holds six bytes from 2045 on. -/
def wrappedQueue : Ioqueue :=
  { bootQueue with buf := fun i => UInt8.ofNat (i % 251), head := 3, tail := 2045 }

/-- The theorem for that ring: 100 bytes can be written to it, and a read of 100 gets the six. -/
theorem pipe_transfers_wrapped :
    (wrappedQueue.ioqLenth = 6 ∧ freeSpace wrappedQueue = 2041) ∧
      Reads wrappedQueue 100 ∧ Writes wrappedQueue (fun i => UInt8.ofNat i) 100 := by
  have idle : Idle wrappedQueue := ⟨bootQueue_idle.queues, rfl, rfl, by decide, by decide⟩
  exact ⟨by decide, (pipe_transfers_iff wrappedQueue (fun i => UInt8.ofNat i) 100 idle).mpr
    (by decide)⟩

/-- 2048 BYTES for the empty pipe: there is room for 2047, and `pipe_write` does not come back. -/
theorem full_pipe_waits : ¬ ∀ (q : Ioqueue) (buffer : Nat → UInt8) (count : Nat), Idle q →
    Reads q count ∧ Writes q buffer count := by
  intro claim
  have room :=
    (pipe_writes_iff bootQueue_idle _ _).mp (claim bootQueue (fun _ => 7) 2048 bootQueue_idle).2
  revert room
  decide

end SeekingOs.Shell
