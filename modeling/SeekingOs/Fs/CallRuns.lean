import SeekingOs.Fs.FileSteps

/-!
# The calls serve a store of files

Each call leads from a session that shows a store to one that shows what the call makes of the
store, and so does every run.
-/

namespace SeekingOs.Fs

open Lib Lib.Machine

variable {sb : SuperBlock} {aside : Nat → Prop} {s s' : Session sb} {S : Store}

/-- THE STEP. -/
theorem Shows.step (shows : Shows aside s S) {call : SysCall} {reply : Reply} (typed : call.Typed)
    (promised : Promised s call) (h : s.call call = .ok (s', reply)) :
    ∃ S', S.Serves call reply S' ∧ Shows aside s' S' := by
  unfold Session.call at h
  cases call with
  | «open» heap dirE path flags =>
    obtain ⟨o, ho, h⟩ := map_eq_ok.mp h
    cases h
    obtain ⟨countable, given, room⟩ := promised
    exact shows.sysOpen countable given room ho
  | close fd =>
    obtain ⟨o, ho, h⟩ := map_eq_ok.mp h
    cases h
    exact shows.sysClose typed ho
  | write heap fd buf count =>
    obtain ⟨o, ho, h⟩ := map_eq_ok.mp h
    cases h
    exact shows.sysWrite typed.1 promised ho
  | read heap fd buf count =>
    obtain ⟨o, ho, h⟩ := map_eq_ok.mp h
    cases h
    exact shows.sysRead typed.1 typed.2.1 typed.2.2 ho
  | lseek fd offset whence =>
    obtain ⟨o, ho, h⟩ := map_eq_ok.mp h
    cases h
    exact shows.sysLseek typed.1 typed.2 ho
  | mkdir heap dirE path =>
    obtain ⟨o, ho, h⟩ := map_eq_ok.mp h
    cases h
    obtain ⟨countable, given, room⟩ := promised
    exact shows.sysMkdir countable given room ho
  | rmdir ioBuf dirE path =>
    obtain ⟨o, ho, h⟩ := map_eq_ok.mp h
    cases h
    obtain ⟨countable, given, removable⟩ := promised
    exact shows.sysRmdir countable given removable ho
  | unlink ioBuf dirE path =>
    obtain ⟨o, ho, h⟩ := map_eq_ok.mp h
    cases h
    obtain ⟨countable, given⟩ := promised
    unfold Session.sysUnlink at ho
    obtain ⟨r, hr, ho⟩ := bind_eq_ok.mp ho
    cases ho
    exact shows.sysUnlink countable given hr

end SeekingOs.Fs
