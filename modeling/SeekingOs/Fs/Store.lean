import SeekingOs.Fs.Calls
import SeekingOs.Fs.Places

/-!
# A store of files

What the file system is for: a tree of directories with files in it, each a list of bytes, and for
each descriptor the file that it was opened on and an offset. Nothing is said here of blocks, of
bitmaps or of inodes in memory, nor of how often something is open. `Serves` says what each call
does to the store and what it answers; `Shows` which store a session shows.
-/

namespace SeekingOs.Fs

open Lib

/-- What a descriptor was opened on, and how. -/
structure FileHandle where
  file : Nat
  offset : Nat
  flag : Nat

/-- The tree, what is in each file, and what the descriptors lead to. -/
structure Store where
  up : FileTree
  data : Nat → List Byte
  fds : Nat → Option FileHandle

/-- What a call that is refused returns. -/
def SysCall.refusal : SysCall → Reply
  | .read _ _ buf _ => ⟨-1, some buf⟩
  | _ => ⟨-1, none⟩

/-- Where `sys_lseek` should set the offset. -/
def seekTarget (size pos : Nat) (offset : Int) (whence : Nat) : Int :=
  if whence = seekSet then offset else if whence = seekCur then pos + offset else size + offset

namespace Store

variable (S : Store)

/-- The names lead to a place in directory `d`, and nothing is there. -/
def Vacant (names : List Name) (d : Nat) (name : Name) : Prop :=
  ∃ before, names = before ++ [name] ∧ S.up.Leads 0 before d ∧ ∀ n t, ¬ S.up.Has d name n t

/-- The names lead to what hangs in directory `d`. -/
def Named (names : List Name) (d : Nat) (name : Name) (n t : Nat) : Prop :=
  ∃ before, names = before ++ [name] ∧ S.up.Leads 0 before d ∧ S.up n = some ⟨d, name, t⟩

/-- The names lead to a file, or through it. -/
def Meets (names : List Name) (d : Nat) (name : Name) (n : Nat) : Prop :=
  ∃ before rest, names = before ++ name :: rest ∧ S.up.Leads 0 before d ∧
    S.up n = some ⟨d, name, ftRegular⟩

/-- The descriptor is free. -/
def FreeFd (fd : Nat) : Prop := 3 ≤ fd ∧ fd < 8 ∧ S.fds fd = none

/-- The descriptor leads to a file of some length, at some offset. -/
def At (fd : Int) (file offset flag length : Nat) : Prop :=
  S.fds fd.toNat = some ⟨file, offset, flag⟩ ∧ (S.data file).length = length

/-- WHEN A CALL IS REFUSED. The store does not know of the slots of `file_table`: it does not say
when a file is not opened or not removed. -/
def Refuses : SysCall → Prop
  | .close fd => fd ≤ 2
  | .write heap fd _ count => fd ≤ 2 ∨ heap = false ∨
      ∃ n pos flag length, S.At fd n pos flag length ∧
        (¬ Writing flag ∨ 140 * sectorSize < length + count)
  | .read heap fd _ count => fd ≤ 2 ∨ heap = false ∨
      ∃ n pos flag length, S.At fd n pos flag length ∧ 0 < count ∧ pos = length
  | .lseek fd offset whence => fd ≤ 2 ∨ ∃ n pos flag length, S.At fd n pos flag length ∧
      ¬ (0 ≤ seekTarget length pos offset whence ∧ seekTarget length pos offset whence < length)
  | .mkdir heap _ pathName => heap = false ∨ ∀ d name, ¬ S.Vacant (components pathName) d name
  | .rmdir ioBuf _ pathName => ioBuf = false ∨
      ∀ d name n, S.Named (components pathName) d name n ftDirectory →
        ∃ m g, S.up m = some g ∧ g.parent = n
  | _ => True

/-- What is made has a new number. -/
structure New (names : List Name) (d : Nat) (name : Name) (n : Nat) : Prop where
  vacant : S.Vacant names d name
  free : n ≠ 0 ∧ S.up n = none

/-- Something is hung into the tree. -/
def hang (n d : Nat) (name : Name) (t : Nat) : Store :=
  { S with up := Lib.hang S.up n ⟨d, name, t⟩ }

/-- Something is cut off. -/
def cut (n : Nat) : Store := { S with up := Lib.cut S.up n }

def setData (n : Nat) (bytes : List Byte) : Store :=
  { S with data := Function.update S.data n bytes }

def setFd (fd : Nat) (o : Option FileHandle) : Store := { S with fds := Function.update S.fds fd o }

/-- WHAT A CALL DOES to the store, and what it returns. -/
inductive Serves : SysCall → Reply → Store → Prop
  | refused {call : SysCall} : S.Refuses call → Serves call call.refusal S
  | opened {heap : CreateHeap} {dirE : DirEntry} {path : List Byte} {flags d n fd : Nat}
      {name : Name} : flags &&& oCreate = 0 →
      S.Named (components path) d name n ftRegular → S.FreeFd fd →
      Serves (.open heap dirE path flags) ⟨fd, none⟩ (S.setFd fd (some ⟨n, 0, flags⟩))
  | created {heap : CreateHeap} {dirE : DirEntry} {path : List Byte} {flags d n fd : Nat}
      {name : Name} : flags &&& oCreate ≠ 0 →
      S.New (components path) d name n → S.FreeFd fd →
      Serves (.open heap dirE path flags) ⟨fd, none⟩
        (((S.hang n d name ftRegular).setData n []).setFd fd (some ⟨n, 0, flags⟩))
  | unheld {heap : CreateHeap} {dirE : DirEntry} {path : List Byte} {flags d n : Nat}
      {name : Name} : flags &&& oCreate ≠ 0 →
      S.New (components path) d name n → (∀ fd, ¬ S.FreeFd fd) →
      Serves (.open heap dirE path flags) ⟨-1, none⟩ ((S.hang n d name ftRegular).setData n [])
  | closed {fd : Nat} : S.fds fd ≠ none → Serves (.close fd) ⟨0, none⟩ (S.setFd fd none)
  | printed {heap : Bool} {buf : Buf} {count : Nat} :
      Serves (.write heap 1 buf count) ⟨count, none⟩ S
  | wrote {buf : Buf} {fd count n pos flag length : Nat} : S.At fd n pos flag length →
      Writing flag →
      Serves (.write true fd buf count) ⟨count, none⟩
        ((S.setData n (S.data n ++ bytesOf buf count)).setFd fd
          (some ⟨n, length + count - 1, flag⟩))
  | read {buf : Buf} {fd count n pos flag length k : Nat} : S.At fd n pos flag length →
      k = min (pos + count) length - pos →
      Serves (.read true fd buf count)
        ⟨k, some (memcpy buf 0 (fun j => (S.data n).getD (pos + j) 0) k)⟩
        (S.setFd fd (some ⟨n, pos + k, flag⟩))
  | sought {fd n pos flag length pos' whence : Nat} {offset : Int} : S.At fd n pos flag length →
      (pos' : Int) = seekTarget length pos offset whence → pos' < length →
      Serves (.lseek fd offset whence) ⟨pos', none⟩ (S.setFd fd (some ⟨n, pos', flag⟩))
  | made {dirE : DirEntry} {path : List Byte} {d n : Nat} {name : Name} :
      S.New (components path) d name n →
      Serves (.mkdir true dirE path) ⟨0, none⟩ (S.hang n d name ftDirectory)
  | removed {dirE : DirEntry} {path : List Byte} {d n : Nat} {name : Name} :
      S.Named (components path) d name n ftDirectory →
      (∀ m g, S.up m = some g → g.parent ≠ n) → Serves (.rmdir true dirE path) ⟨0, none⟩ (S.cut n)
  | unlinked {dirE : DirEntry} {path : List Byte} {d n : Nat} {name : Name} :
      S.Meets (components path) d name n →
      (∀ fd o, S.fds fd = some o → o.file ≠ n) → Serves (.unlink true dirE path) ⟨0, none⟩ (S.cut n)

end Store

/-! ## Descriptors -/

/-- What is said of `file_table` and `fd_table`: a descriptor that is open leads to a slot of its
own. -/
structure Descriptors (file : Nat → File) (fdTable : Nat → Int) (fds : Nat → Option FileHandle) :
    Prop where
  std : ∀ fd < 3, ∃ g : Nat, g < 3 ∧ fdTable fd = g
  reserved : ∀ g < 3, (file g).fdInode = none
  range : ∀ fd, fds fd ≠ none → 3 ≤ fd ∧ fd < 8
  closed : ∀ fd, 3 ≤ fd → fd < 8 → fds fd = none → fdTable fd = -1
  opened : ∀ fd o, fds fd = some o → ∃ g : Nat, g < 32 ∧ fdTable fd = g ∧
    file g = ⟨o.offset, o.flag, some o.file⟩
  apart : ∀ fd fd', fds fd ≠ none → fds fd' ≠ none → fdTable fd = fdTable fd' → fd = fd'

namespace Descriptors

variable {file : Nat → File} {fdTable : Nat → Int} {fds : Nat → Option FileHandle}
  {g fd n pos flag : Nat} {o : FileHandle} {f : File}

/-- A free slot has no descriptor. -/
theorem other (desc : Descriptors file fdTable fds) (free : (file g).fdInode = none) {g' : Nat}
    (hopen : fds fd ≠ none) (h : fdTable fd = g') : g' ≠ g := by
  obtain ⟨o, hfd⟩ := Option.ne_none_iff_exists'.mp hopen
  obtain ⟨g₁, -, h₁, slot⟩ := desc.opened fd o hfd
  rintro rfl
  rw [h] at h₁
  rw [Int.ofNat_inj.mp h₁, slot] at free
  cases free

/-- A free slot is filled. -/
theorem fill (desc : Descriptors file fdTable fds) (free : (file g).fdInode = none) (hg : 3 ≤ g) :
    Descriptors (Function.update file g f) fdTable fds where
  std := desc.std
  reserved k hk := by
    rw [Function.update_of_ne (by omega)]
    exact desc.reserved k hk
  range := desc.range
  closed := desc.closed
  opened fd o h := by
    obtain ⟨g', hlt, hg', slot⟩ := desc.opened fd o h
    refine ⟨g', hlt, hg', ?_⟩
    rw [Function.update_of_ne (desc.other free (by rw [h]; exact Option.some_ne_none _) hg')]
    exact slot
  apart := desc.apart

/-- A free descriptor is given the slot. -/
theorem install (desc : Descriptors file fdTable fds) (free : (file g).fdInode = none) (hg : 3 ≤ g)
    (hg' : g < 32) (hfd : 3 ≤ fd) (hfd' : fd < 8) (o : FileHandle) :
    Descriptors (Function.update file g ⟨o.offset, o.flag, some o.file⟩)
      (Function.update fdTable fd g) (Function.update fds fd (some o)) where
  std k hk := by
    rw [Function.update_of_ne (by omega)]
    exact desc.std k hk
  reserved := (desc.fill free hg).reserved
  range k hk := by
    by_cases h : k = fd
    · exact h ▸ ⟨hfd, hfd'⟩
    · rw [Function.update_of_ne h] at hk
      exact desc.range k hk
  closed k h₁ h₂ hk := by
    by_cases h : k = fd
    · subst h
      rw [Function.update_self] at hk
      cases hk
    · rw [Function.update_of_ne h] at hk ⊢
      exact desc.closed k h₁ h₂ hk
  opened k o' hk := by
    by_cases h : k = fd
    · subst h
      rw [Function.update_self, Option.some.injEq] at hk
      subst hk
      exact ⟨g, hg', Function.update_self .., Function.update_self ..⟩
    · rw [Function.update_of_ne h] at hk ⊢
      exact (desc.fill free hg).opened k o' hk
  apart k k' hk hk' h := by
    by_cases e : k = fd
    · by_cases e' : k' = fd
      · exact e.trans e'.symm
      · rw [Function.update_of_ne e'] at hk' h
        rw [e, Function.update_self] at h
        exact absurd rfl (desc.other free hk' h.symm)
    · rw [Function.update_of_ne e] at hk h
      by_cases e' : k' = fd
      · rw [e', Function.update_self] at h
        exact absurd rfl (desc.other free hk h)
      · rw [Function.update_of_ne e'] at hk' h
        exact desc.apart k k' hk hk' h

/-- A descriptor is closed, and its slot emptied. -/
theorem close (desc : Descriptors file fdTable fds) (hopen : fds fd = some o)
    (hg : fdTable fd = g) :
    Descriptors (Function.update file g { file g with fdInode := none })
      (Function.update fdTable fd (-1)) (Function.update fds fd none) where
  std k hk := by
    have := (desc.range fd (by rw [hopen]; exact Option.some_ne_none _)).1
    rw [Function.update_of_ne (by omega)]
    exact desc.std k hk
  reserved k hk := by
    by_cases h : k = g
    · rw [h, Function.update_self]
    · rw [Function.update_of_ne h]
      exact desc.reserved k hk
  range k hk := by
    by_cases h : k = fd
    · rw [h, Function.update_self] at hk
      exact absurd rfl hk
    · rw [Function.update_of_ne h] at hk
      exact desc.range k hk
  closed k h₁ h₂ hk := by
    by_cases h : k = fd
    · rw [h, Function.update_self]
    · rw [Function.update_of_ne h] at hk ⊢
      exact desc.closed k h₁ h₂ hk
  opened k o' hk := by
    by_cases h : k = fd
    · rw [h, Function.update_self] at hk
      cases hk
    · rw [Function.update_of_ne h] at hk ⊢
      obtain ⟨g', hlt, hg', slot⟩ := desc.opened k o' hk
      have hne : g' ≠ g := by
        rintro rfl
        exact h (desc.apart k fd (by rw [hk]; exact Option.some_ne_none _)
          (by rw [hopen]; exact Option.some_ne_none _) (hg'.trans hg.symm))
      exact ⟨g', hlt, hg', by rw [Function.update_of_ne hne]; exact slot⟩
  apart k k' hk hk' h := by
    have ne (j : Nat) (hj : Function.update fds fd none j ≠ none) : j ≠ fd := by
      rintro rfl
      rw [Function.update_self] at hj
      exact hj rfl
    rw [Function.update_of_ne (ne k hk), Function.update_of_ne (ne k' hk')] at h
    rw [Function.update_of_ne (ne k hk)] at hk
    rw [Function.update_of_ne (ne k' hk')] at hk'
    exact desc.apart k k' hk hk' h

/-- The offset of a descriptor is set. -/
theorem seek (desc : Descriptors file fdTable fds) (hopen : fds fd = some ⟨n, pos, flag⟩)
    (hg : fdTable fd = g) (pos' : Nat) :
    Descriptors (Function.update file g { file g with fdPos := pos' }) fdTable
      (Function.update fds fd (some ⟨n, pos', flag⟩)) where
  std := desc.std
  reserved k hk := by
    by_cases h : k = g
    · rw [h, Function.update_self]
      exact desc.reserved g (h ▸ hk)
    · rw [Function.update_of_ne h]
      exact desc.reserved k hk
  range k hk := by
    by_cases h : k = fd
    · exact h ▸ desc.range fd (by rw [hopen]; exact Option.some_ne_none _)
    · rw [Function.update_of_ne h] at hk
      exact desc.range k hk
  closed k h₁ h₂ hk := by
    by_cases h : k = fd
    · rw [h, Function.update_self] at hk
      cases hk
    · rw [Function.update_of_ne h] at hk
      exact desc.closed k h₁ h₂ hk
  opened k o hk := by
    by_cases h : k = fd
    · rw [h, Function.update_self, Option.some.injEq] at hk
      subst hk
      obtain ⟨g', hlt, hg', slot⟩ := desc.opened fd _ hopen
      obtain rfl : g' = g := Int.ofNat_inj.mp (hg'.symm.trans hg)
      exact ⟨g', hlt, h ▸ hg', by rw [Function.update_self, slot]⟩
    · rw [Function.update_of_ne h] at hk
      obtain ⟨g', hlt, hg', slot⟩ := desc.opened k o hk
      have hne : g' ≠ g := by
        rintro rfl
        exact h (desc.apart k fd (by rw [hk]; exact Option.some_ne_none _)
          (by rw [hopen]; exact Option.some_ne_none _) (hg'.trans hg.symm))
      exact ⟨g', hlt, hg', by rw [Function.update_of_ne hne]; exact slot⟩
  apart k k' hk hk' h := by
    have some (j : Nat) (hj : Function.update fds fd (some ⟨n, pos', flag⟩) j ≠ none) :
        fds j ≠ none := by
      by_cases e : j = fd
      · rw [e, hopen]
        exact Option.some_ne_none _
      · rwa [Function.update_of_ne e] at hj
    exact desc.apart k k' (some k hk) (some k' hk') h

end Descriptors

end SeekingOs.Fs
