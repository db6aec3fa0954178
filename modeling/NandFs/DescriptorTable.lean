import Mathlib.Algebra.BigOperators.Group.Finset.Piecewise

/-! # Tables of descriptors

A table of descriptors says of each whether it is open, on which file, for which user and
whether it may write.  `refs` counts the descriptors of a set that are open on a file: opening
a descriptor adds one reference to its file and closing it takes one away.  In a `SingleWriter`
table a file that is open for writing is open for one user, and by one writing descriptor.
Nothing here depends on how a table is stored.
-/
namespace DescriptorTable

/-- One use of a file. -/
structure Open (F U : Type) where
  file : F
  user : U
  writes : Bool

variable {D F U : Type}

/-- What each descriptor is open on. -/
abbrev Opens (D F U : Type) := D → Option (Open F U)

/-! ## References -/

section Refs

/-- The descriptor is open on the file. -/
def IsOn (o : Option (Open F U)) (f : F) : Prop := o.map Open.file = some f

@[simp] theorem isOn_none (f : F) : ¬IsOn (none : Option (Open F U)) f := by simp [IsOn]

@[simp] theorem isOn_some (o : Open F U) (f : F) : IsOn (some o) f ↔ o.file = f := by simp [IsOn]

variable [DecidableEq F]

instance (o : Option (Open F U)) (f : F) : Decidable (IsOn o f) :=
  inferInstanceAs (Decidable (o.map Open.file = some f))

/-- The number of descriptors of `s` open on the file. -/
def refs (s : Finset D) (t : Opens D F U) (f : F) : Nat := (s.filter fun d => IsOn (t d) f).card

variable {s : Finset D} {t : Opens D F U} {f : F}

theorem refs_le : refs s t f ≤ s.card := Finset.card_filter_le _ _

theorem refs_eq_zero : refs s t f = 0 ↔ ∀ d ∈ s, ¬IsOn (t d) f := by
  rw [refs, Finset.card_eq_zero, Finset.filter_eq_empty_iff]

theorem refs_pos {d : D} (hd : d ∈ s) (h : IsOn (t d) f) : 0 < refs s t f := by
  rw [Nat.pos_iff_ne_zero]
  intro h0
  exact refs_eq_zero.mp h0 d hd h

variable [DecidableEq D]

/-- One descriptor counts for what it is open on, the others are as they were. -/
theorem refs_update {d : D} (hd : d ∈ s) (o : Option (Open F U)) :
    refs s (Function.update t d o) f + (if IsOn (t d) f then 1 else 0) =
      refs s t f + (if IsOn o f then 1 else 0) := by
  have hsplit : ∀ u : Opens D F U, refs s u f =
      (if IsOn (u d) f then 1 else 0) + ∑ e ∈ s.erase d, if IsOn (u e) f then 1 else 0 := by
    intro u
    rw [refs, Finset.card_filter]
    exact (Finset.add_sum_erase s (fun e => if IsOn (u e) f then 1 else 0) hd).symm
  have hrest : ∀ e ∈ s.erase d,
      (if IsOn (Function.update t d o e) f then 1 else 0) = if IsOn (t e) f then 1 else 0 := by
    intro e he
    rw [Function.update_of_ne (Finset.ne_of_mem_erase he)]
  rw [hsplit, hsplit t, Finset.sum_congr rfl hrest, Function.update_self]
  omega

theorem refs_open {d : D} (hd : d ∈ s) (hnone : t d = none) (o : Open F U) :
    refs s (Function.update t d (some o)) f = refs s t f + if o.file = f then 1 else 0 := by
  have h := refs_update (f := f) (t := t) hd (some o)
  rw [hnone] at h
  simpa using h

theorem refs_close {d : D} (hd : d ∈ s) {o : Open F U} (ho : t d = some o) :
    refs s (Function.update t d none) f + (if o.file = f then 1 else 0) = refs s t f := by
  have h := refs_update (f := f) (t := t) hd none
  rw [ho] at h
  simpa using h

end Refs

/-! ## Readers and writers -/

/-- Two uses may stand side by side: where one writes the file of both, they are the same
user's and the other only reads. -/
def Compatible (o p : Open F U) : Prop :=
  o.file = p.file → (o.writes = true ∨ p.writes = true) →
    o.user = p.user ∧ ¬(o.writes = true ∧ p.writes = true)

theorem Compatible.symm {o p : Open F U} (h : Compatible o p) : Compatible p o := by
  intro hfile hwrites
  obtain ⟨huser, hnot⟩ := h hfile.symm hwrites.symm
  exact ⟨huser.symm, fun ⟨hp, ho⟩ => hnot ⟨ho, hp⟩⟩

/-- Any two open descriptors may stand side by side. -/
def SingleWriter (t : Opens D F U) : Prop :=
  ∀ d e, d ≠ e → ∀ o p, t d = some o → t e = some p → Compatible o p

section SingleWriter
variable {t : Opens D F U}

/-- Of two writers of one file there is but one. -/
theorem SingleWriter.eq_of_writes (h : SingleWriter t) {d e : D} {o p : Open F U}
    (ho : t d = some o) (hp : t e = some p) (hfile : o.file = p.file) (hwo : o.writes = true)
    (hwp : p.writes = true) : d = e := by
  by_contra hne
  exact (h d e hne o p ho hp hfile (.inl hwo)).2 ⟨hwo, hwp⟩

/-- Whoever has a file open that is open for writing is the user who writes it. -/
theorem SingleWriter.user_eq (h : SingleWriter t) {d e : D} {o p : Open F U}
    (ho : t d = some o) (hp : t e = some p) (hfile : o.file = p.file) (hwo : o.writes = true) :
    o.user = p.user := by
  by_cases hde : d = e
  · subst hde
    rw [ho] at hp
    cases hp
    rfl
  · exact (h d e hde o p ho hp hfile (.inl hwo)).1

variable [DecidableEq D]

theorem SingleWriter.close (h : SingleWriter t) (d : D) :
    SingleWriter (Function.update t d none) := by
  intro a b hab o p ho hp
  have hne : ∀ c q, Function.update t d none c = some q → t c = some q := by
    intro c q hq
    by_cases hc : c = d
    · subst hc
      rw [Function.update_self] at hq
      cases hq
    · rwa [Function.update_of_ne hc] at hq
  exact h a b hab o p (hne a o ho) (hne b p hp)

/-- A use that is compatible with every other may be added. -/
theorem SingleWriter.open (h : SingleWriter t) {d : D} {o : Open F U}
    (hc : ∀ e, e ≠ d → ∀ p, t e = some p → Compatible o p) :
    SingleWriter (Function.update t d (some o)) := by
  intro a b hab x y hx hy
  by_cases ha : a = d
  · subst ha
    rw [Function.update_self] at hx
    rw [Function.update_of_ne hab.symm] at hy
    cases hx
    exact hc b hab.symm y hy
  · rw [Function.update_of_ne ha] at hx
    by_cases hb : b = d
    · subst hb
      rw [Function.update_self] at hy
      cases hy
      exact (hc a hab x hx).symm
    · rw [Function.update_of_ne hb] at hy
      exact h a b hab x y hx hy

end SingleWriter

end DescriptorTable
