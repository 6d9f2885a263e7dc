import Mathlib.Algebra.Notation.Defs
import Mathlib.Logic.Function.Basic

/-!
# Exclusive ownership

Owners hold blocks in places; a block is taken or free. A place that holds `0` is
empty. The books of an owner are in order when no block is in two of its places and
all of its blocks are taken; they are exclusive when in addition no two owners hold
the same block.

An operation of one owner `Regrants` its places: each block it holds afterwards it
held before, or the block was free; and blocks of nobody's concern stay taken. Such
operations compose, and they keep exclusive books exclusive, whatever the other
owners hold.

A `Ledger` accounts for every block: what is taken is held by an owner that lives, or
was set aside for good. Owners join it and retire from it.
-/

namespace SeekingOs.Lib

variable {κ β ι : Type} [Zero β]

/-- The books of one owner are in order. -/
structure Books (taken : β → Prop) (hold : κ → β) : Prop where
  inj : ∀ i j, hold i ≠ 0 → hold i = hold j → i = j
  taken : ∀ i, hold i ≠ 0 → taken (hold i)

/-- The owner holds the block. -/
def Holds (hold : κ → β) (b : β) : Prop := b ≠ 0 ∧ ∃ i, hold i = b

/-- What an operation of the owner may do to the books. -/
structure Regrants (taken : β → Prop) (hold : κ → β) (taken' : β → Prop) (hold' : κ → β) :
    Prop where
  origin : ∀ b, Holds hold' b → Holds hold b ∨ ¬ taken b
  others : ∀ b, taken b → ¬ Holds hold b → taken' b
  books : Books taken' hold'

variable {taken taken' taken'' : β → Prop} {hold hold' hold'' : κ → β}

theorem Books.regrants (books : Books taken hold) : Regrants taken hold taken hold where
  origin _ h := .inl h
  others _ h _ := h
  books := books

theorem Regrants.trans (a : Regrants taken hold taken' hold')
    (b : Regrants taken' hold' taken'' hold'') :
    Regrants taken hold taken'' hold'' where
  origin blk h := by
    rcases b.origin blk h with h | h
    · exact a.origin blk h
    · by_contra hno
      rw [not_or, not_not] at hno
      exact h (a.others blk hno.2 hno.1)
  others blk ht hno := by
    refine b.others blk (a.others blk ht hno) fun h => ?_
    rcases a.origin blk h with h | h
    · exact hno h
    · exact h ht
  books := b.books

/-- A block that is free or the owner's own stays so under a regrant read backwards. -/
theorem Regrants.own_or_free (a : Regrants taken hold taken' hold') {b : β}
    (h : Holds hold' b ∨ ¬ taken' b) : Holds hold b ∨ ¬ taken b := by
  rcases h with h | h
  · exact a.origin b h
  · by_contra hno
    rw [not_or, not_not] at hno
    exact h (a.others b hno.2 hno.1)

/-- Free blocks are taken, each put into a place of its own; what these places held is forgotten. -/
theorem Books.takeMany (books : Books taken hold) {S : κ → Prop} {new : κ → β}
    (hnew : ∀ i, S i → new i ≠ 0 ∧ ¬ taken (new i)) (inj : ∀ i j, S i → S j → new i = new j → i = j)
    (ht : ∀ c, taken' c ↔ taken c ∨ ∃ i, S i ∧ new i = c) (at_new : ∀ i, S i → hold' i = new i)
    (at_old : ∀ i, ¬ S i → hold' i = hold i) :
    Regrants taken hold taken' hold' where
  origin c := by
    rintro ⟨hc, i, hi⟩
    by_cases hS : S i
    · rw [at_new i hS] at hi
      exact .inr (hi ▸ (hnew i hS).2)
    · rw [at_old i hS] at hi
      exact .inl ⟨hc, i, hi⟩
  others c hc _ := (ht c).mpr (.inl hc)
  books := by
    -- what was held was taken, and so is none of the new blocks
    have apart {i j : κ} (hi : S i) (hj : hold j ≠ 0) : new i ≠ hold j := fun e =>
      (hnew i hi).2 (e ▸ books.taken j hj)
    refine ⟨fun i j hne heq => ?_, fun i hne => (ht _).mpr ?_⟩
    · by_cases hi : S i <;> by_cases hj : S j
      · rw [at_new i hi, at_new j hj] at heq
        exact inj i j hi hj heq
      · rw [at_new i hi] at hne heq
        rw [at_old j hj] at heq
        exact absurd heq (apart hi (heq ▸ hne))
      · rw [at_old i hi] at hne heq
        rw [at_new j hj] at heq
        exact absurd heq.symm (apart hj hne)
      · rw [at_old i hi] at hne heq
        rw [at_old j hj] at heq
        exact books.inj i j hne heq
    · by_cases hi : S i
      · exact .inr ⟨i, hi, (at_new i hi).symm⟩
      · rw [at_old i hi] at hne ⊢
        exact .inl (books.taken i hne)

section Update

variable [DecidableEq κ] {i : κ} {b : β}

/-- A free block is taken and put into a place; what the place held is forgotten. -/
theorem Books.take (books : Books taken hold) (hb : b ≠ 0) (free : ¬ taken b)
    (ht : ∀ c, taken' c ↔ c = b ∨ taken c) :
    Regrants taken hold taken' (Function.update hold i b) := by
  refine @Books.takeMany κ β _ taken taken' hold _ books (· = i) (fun _ => b)
    (fun _ _ => ⟨hb, free⟩) (fun _ _ hj hk _ => hj.trans hk.symm)
    (fun c => ?_) (fun j hj => ?_) fun j hj => Function.update_of_ne hj _ _
  · rw [ht]
    constructor
    · rintro (rfl | hc)
      · exact .inr ⟨i, rfl, rfl⟩
      · exact .inl hc
    · rintro (hc | ⟨_, _, rfl⟩)
      · exact .inr hc
      · exact .inl rfl
  · subst hj
    exact Function.update_self _ _ _

/-- The block of a place is given back. -/
theorem Books.drop (books : Books taken hold) (hb : hold i ≠ 0)
    (ht : ∀ c, taken' c ↔ c ≠ hold i ∧ taken c) :
    Regrants taken hold taken' (Function.update hold i 0) where
  origin c := by
    rintro ⟨hc, j, hj⟩
    by_cases hji : j = i
    · rw [hji, Function.update_self] at hj
      exact absurd hj.symm hc
    · rw [Function.update_of_ne hji] at hj
      exact .inl ⟨hc, j, hj⟩
  others c hc hno := (ht c).mpr ⟨fun e => hno ⟨e ▸ hb, i, e.symm⟩, hc⟩
  books := by
    refine ⟨fun j k hne heq => ?_, fun j hne => ?_⟩
    · by_cases hj : j = i
      · rw [hj, Function.update_self] at hne
        exact absurd rfl hne
      · rw [Function.update_of_ne hj] at hne heq
        by_cases hk : k = i
        · rw [hk, Function.update_self] at heq
          exact absurd heq hne
        · rw [Function.update_of_ne hk] at heq
          exact books.inj j k hne heq
    · by_cases hj : j = i
      · rw [hj, Function.update_self] at hne
        exact absurd rfl hne
      · rw [Function.update_of_ne hj] at hne ⊢
        exact (ht _).mpr ⟨fun e => hj (books.inj j i hne e), books.taken j hne⟩

/-- A block that is taken, but in no place, is put into one. -/
theorem Books.place (books : Books taken hold) (ht : taken b) (unheld : ∀ j, hold j ≠ b) :
    Books taken (Function.update hold i b) := by
  refine ⟨fun j k hne heq => ?_, fun j hne => ?_⟩
  · by_cases hj : j = i <;> by_cases hk : k = i
    · rw [hj, hk]
    · rw [hj, Function.update_self, Function.update_of_ne hk] at heq
      exact absurd heq.symm (unheld k)
    · rw [hk, Function.update_self, Function.update_of_ne hj] at heq
      exact absurd heq (unheld j)
    · rw [Function.update_of_ne hj] at hne heq
      rw [Function.update_of_ne hk] at heq
      exact books.inj j k hne heq
  · by_cases hj : j = i
    · rw [hj, Function.update_self]
      exact ht
    · rw [Function.update_of_ne hj] at hne ⊢
      exact books.taken j hne

end Update

/-- More blocks are taken. -/
theorem Books.mono (books : Books taken hold) (h : ∀ b, taken b → taken' b) : Books taken' hold :=
  ⟨books.inj, fun i hi => h _ (books.taken i hi)⟩

/-- Places that are emptied, or keep what they hold, with the blocks still taken. -/
theorem Books.forget (books : Books taken hold) (h : ∀ i, hold' i = hold i ∨ hold' i = 0) :
    Regrants taken hold taken hold' where
  origin c := by
    rintro ⟨hc, j, hj⟩
    rcases h j with e | e
    · exact .inl ⟨hc, j, e ▸ hj⟩
    · exact absurd (hj ▸ e) hc
  others _ hc _ := hc
  books := by
    have keep {j : κ} (hne : hold' j ≠ 0) : hold' j = hold j := (h j).resolve_right hne
    refine ⟨fun j k hne heq => ?_, fun j hne => ?_⟩
    · have hk : hold' k ≠ 0 := heq ▸ hne
      exact books.inj j k (keep hne ▸ hne) ((keep hne).symm.trans (heq.trans (keep hk)))
    · rw [keep hne]
      exact books.taken j (keep hne ▸ hne)

/-! ## Many owners -/

/-- The books of all living owners are in order, and no two of them hold the same block. -/
structure Exclusive (live : ι → Prop) (taken : β → Prop) (hold : ι → κ → β) : Prop where
  books : ∀ o, live o → Books taken (hold o)
  apart : ∀ o o', live o → live o' → o ≠ o' → ∀ b, Holds (hold o) b → ¬ Holds (hold o') b

variable {live : ι → Prop} {books books' : ι → κ → β} {o : ι}

/-- THE REGRANT RULE. One owner regrants its places and the others hold what they held:
the books stay exclusive. -/
theorem Exclusive.regrant (ex : Exclusive live taken books) (ho : live o)
    (own : Regrants taken (books o) taken' (books' o))
    (same : ∀ o', live o' → o' ≠ o → books' o' = books o') : Exclusive live taken' books' := by
  -- a block of another owner is taken and not `o`'s, so it stays taken
  have stays {o' : ι} (ho' : live o') (hne : o' ≠ o) {b : β} (h : Holds (books o') b) :
      taken' b := by
    obtain ⟨hb, i, hi⟩ := h
    refine own.others b (hi ▸ (ex.books o' ho').taken i (hi ▸ hb)) fun hown => ?_
    exact ex.apart o' o ho' ho hne b ⟨hb, i, hi⟩ hown
  have foreign {o' : ι} (ho' : live o') (hne : o' ≠ o) {b : β} (h : Holds (books o') b) :
      ¬ Holds (books' o) b := by
    intro hown
    rcases own.origin b hown with hold | free
    · exact ex.apart o' o ho' ho hne b h hold
    · obtain ⟨hb, i, hi⟩ := h
      exact free (hi ▸ (ex.books o' ho').taken i (hi ▸ hb))
  refine ⟨fun o' ho' => ?_, fun o₁ o₂ h₁ h₂ hne b hb => ?_⟩
  · by_cases hne : o' = o
    · rw [hne]
      exact own.books
    · rw [same o' ho' hne]
      exact ⟨(ex.books o' ho').inj, fun i hi => stays ho' hne ⟨hi, i, rfl⟩⟩
  · by_cases e₁ : o₁ = o <;> by_cases e₂ : o₂ = o
    · exact absurd (e₁.trans e₂.symm) hne
    · rw [same o₂ h₂ e₂]
      rw [e₁] at hb
      exact fun h => foreign h₂ e₂ h hb
    · rw [same o₁ h₁ e₁] at hb
      rw [e₂]
      exact foreign h₁ e₁ hb
    · rw [same o₁ h₁ e₁] at hb
      rw [same o₂ h₂ e₂]
      exact ex.apart o₁ o₂ h₁ h₂ hne b hb

/-- An owner that is live no more may have given back anything. -/
theorem Exclusive.retire (ex : Exclusive live taken books) (ho : live o) {live' : ι → Prop}
    (hlive : ∀ o', live' o' ↔ live o' ∧ o' ≠ o) (others : ∀ b, taken b → ¬ Holds (books o) b →
      taken' b) (same : ∀ o', live' o' → books' o' = books o') : Exclusive live' taken' books' := by
  refine ⟨fun o' ho' => ?_, fun o₁ o₂ h₁ h₂ hne b hb => ?_⟩
  · obtain ⟨hl, hne⟩ := (hlive o').mp ho'
    rw [same o' ho']
    refine ⟨(ex.books o' hl).inj, fun i hi => others _ ((ex.books o' hl).taken i hi) fun h => ?_⟩
    exact ex.apart o' o hl ho hne _ ⟨hi, i, rfl⟩ h
  · rw [same o₁ h₁] at hb
    rw [same o₂ h₂]
    exact ex.apart o₁ o₂ ((hlive o₁).mp h₁).1 ((hlive o₂).mp h₂).1 hne b hb

/-! ## Nothing is lost -/

/-- Each block that is taken afterwards is held by the owner, or was taken and not the owner's. -/
def Settles (taken : β → Prop) (hold : κ → β) (taken' : β → Prop) (hold' : κ → β) : Prop :=
  ∀ b, taken' b → Holds hold' b ∨ taken b ∧ ¬ Holds hold b

theorem Settles.refl (taken : β → Prop) (hold : κ → β) : Settles taken hold taken hold := by
  intro b hb
  by_cases h : Holds hold b
  · exact .inl h
  · exact .inr ⟨hb, h⟩

theorem Settles.trans (a : Settles taken hold taken' hold')
    (c : Settles taken' hold' taken'' hold'') : Settles taken hold taken'' hold'' := by
  intro b hb
  rcases c b hb with h | ⟨ht, hno⟩
  · exact .inl h
  · exact .inr ((a b ht).resolve_left hno)

/-- Free blocks are taken, each put into an empty place of its own. -/
theorem Settles.takeMany {S : κ → Prop} {new : κ → β} (hnew : ∀ i, S i → new i ≠ 0)
    (empty : ∀ i, S i → hold i = 0) (ht : ∀ c, taken' c ↔ taken c ∨ ∃ i, S i ∧ new i = c)
    (at_new : ∀ i, S i → hold' i = new i) (at_old : ∀ i, ¬ S i → hold' i = hold i) :
    Settles taken hold taken' hold' := by
  intro c hc
  rcases (ht c).mp hc with hc | ⟨i, hi, rfl⟩
  · by_cases had : Holds hold c
    · obtain ⟨hne, i, hi⟩ := had
      refine .inl ⟨hne, i, ?_⟩
      rw [at_old i, hi]
      exact fun hS => hne (hi ▸ empty i hS)
    · exact .inr ⟨hc, had⟩
  · exact .inl ⟨hnew i hi, i, at_new i hi⟩

section Update

variable [DecidableEq κ] {i : κ} {b : β}

/-- A free block is taken and put into an empty place. -/
theorem Settles.take (hb : b ≠ 0) (empty : hold i = 0) (ht : ∀ c, taken' c ↔ c = b ∨ taken c) :
    Settles taken hold taken' (Function.update hold i b) := by
  refine Settles.takeMany (fun j (_ : j = i) => hb) (fun j hj => hj ▸ empty) (fun c => ?_)
    (fun j hj => ?_)
    fun j hj => Function.update_of_ne hj _ _
  · rw [ht c, exists_eq_left, or_comm, eq_comm]
  · rw [hj, Function.update_self]

/-- The block of a place is given back. -/
theorem Settles.drop (ht : ∀ c, taken' c ↔ c ≠ hold i ∧ taken c) :
    Settles taken hold taken' (Function.update hold i 0) := by
  intro c hc
  obtain ⟨hne, hc⟩ := (ht c).mp hc
  by_cases had : Holds hold c
  · obtain ⟨h0, j, hj⟩ := had
    refine .inl ⟨h0, j, ?_⟩
    rw [Function.update_of_ne, hj]
    rintro rfl
    exact hne hj.symm
  · exact .inr ⟨hc, had⟩

end Update

/-! ## Books that account for every block -/

/-- The books are exclusive, and every taken block is held by an owner that lives, or set aside for
good. -/
structure Ledger (live : ι → Prop) (taken aside : β → Prop) (hold : ι → κ → β) :
    Prop extends Exclusive live taken hold where
  masked : ∀ b, aside b → taken b
  complete : ∀ b, taken b → aside b ∨ ∃ o, live o ∧ Holds (hold o) b
  inside : ∀ o, live o → ∀ b, Holds (hold o) b → ¬ aside b

variable {aside : β → Prop} {live' : ι → Prop}

/-- WHICH BLOCKS ARE TAKEN. -/
theorem Ledger.taken_iff (led : Ledger live taken aside books) {b : β} :
    taken b ↔ aside b ∨ ∃ o, live o ∧ Holds (books o) b := by
  refine ⟨led.complete b, ?_⟩
  rintro (h | ⟨o, ho, hne, i, rfl⟩)
  · exact led.masked b h
  · exact (led.books o ho).taken i hne

/-- One owner regrants its places and loses no block. -/
theorem Ledger.regrant (led : Ledger live taken aside books) (ho : live o)
    (own : Regrants taken (books o) taken' (books' o))
    (settles : Settles taken (books o) taken' (books' o))
    (same : ∀ o', live o' → o' ≠ o → books' o' = books o') :
    Ledger live taken' aside books' where
  toExclusive := led.toExclusive.regrant ho own same
  masked b hb := own.others b (led.masked b hb) fun h => led.inside o ho b h hb
  complete b hb := by
    rcases settles b hb with h | ⟨ht, hno⟩
    · exact .inr ⟨o, ho, h⟩
    · refine (led.complete b ht).imp_right ?_
      rintro ⟨o', ho', h⟩
      have hne : o' ≠ o := by
        rintro rfl
        exact hno h
      exact ⟨o', ho', same o' ho' hne ▸ h⟩
  inside o' ho' b h := by
    by_cases hne : o' = o
    · subst hne
      rcases own.origin b h with h | free
      · exact led.inside o' ho b h
      · exact fun hb => free (led.masked b hb)
    · rw [same o' ho' hne] at h
      exact led.inside o' ho' b h

/-- A new owner takes free blocks. -/
theorem Ledger.join (led : Ledger live taken aside books) (new : ¬ live o)
    (hlive : ∀ o', live' o' ↔ live o' ∨ o' = o) (own : Books taken' (books' o))
    (ht : ∀ b, taken' b ↔ taken b ∨ Holds (books' o) b)
    (fresh : ∀ b, Holds (books' o) b → ¬ taken b) (same : ∀ o', live o' → books' o' = books o') :
    Ledger live' taken' aside books' where
  books o' ho' := by
    rcases (hlive o').mp ho' with hl | rfl
    · rw [same o' hl]
      exact (led.books o' hl).mono fun b hb => (ht b).mpr (.inl hb)
    · exact own
  apart o₁ o₂ h₁ h₂ hne b hb hb' := by
    -- a block of an owner that was there is taken, and so none of the new ones
    have old {o' : ι} (hl : live o') {c : β} (hc : Holds (books' o') c) : taken c := by
      rw [same o' hl] at hc
      obtain ⟨hne, i, rfl⟩ := hc
      exact (led.books o' hl).taken i hne
    rcases (hlive o₁).mp h₁ with hl₁ | rfl <;> rcases (hlive o₂).mp h₂ with hl₂ | rfl
    · rw [same o₁ hl₁] at hb
      rw [same o₂ hl₂] at hb'
      exact led.apart o₁ o₂ hl₁ hl₂ hne b hb hb'
    · exact fresh b hb' (old hl₁ hb)
    · exact fresh b hb (old hl₂ hb')
    · exact hne rfl
  masked b hb := (ht b).mpr (.inl (led.masked b hb))
  complete b hb := by
    rcases (ht b).mp hb with hb | hb
    · refine (led.complete b hb).imp_right ?_
      rintro ⟨o', hl, h⟩
      exact ⟨o', (hlive o').mpr (.inl hl), same o' hl ▸ h⟩
    · exact .inr ⟨o, (hlive o).mpr (.inr rfl), hb⟩
  inside o' ho' b h := by
    rcases (hlive o').mp ho' with hl | rfl
    · rw [same o' hl] at h
      exact led.inside o' hl b h
    · exact fun hb => fresh b h (led.masked b hb)

/-- An owner gives back all of its blocks and lives no more. -/
theorem Ledger.retire (led : Ledger live taken aside books) (ho : live o)
    (hlive : ∀ o', live' o' ↔ live o' ∧ o' ≠ o) (ht : ∀ b, taken' b ↔ taken b ∧ ¬ Holds (books o) b)
    (same : ∀ o', live' o' → books' o' = books o') :
    Ledger live' taken' aside books' where
  toExclusive := led.toExclusive.retire ho hlive (fun b hb hno => (ht b).mpr ⟨hb, hno⟩) same
  masked b hb := (ht b).mpr ⟨led.masked b hb, fun h => led.inside o ho b h hb⟩
  complete b hb := by
    obtain ⟨hb, hno⟩ := (ht b).mp hb
    refine (led.complete b hb).imp_right ?_
    rintro ⟨o', hl, h⟩
    have hl' : live' o' := (hlive o').mpr ⟨hl, by rintro rfl; exact hno h⟩
    exact ⟨o', hl', same o' hl' ▸ h⟩
  inside o' ho' b h := by
    rw [same o' ho'] at h
    exact led.inside o' ((hlive o').mp ho').1 b h

end SeekingOs.Lib
