import Mathlib.Data.List.Perm.Basic
import Mathlib.Data.List.Nodup
import Mathlib.Data.List.Pairwise
import Mathlib.Data.Nat.Find

/-! # Cursors over a sequence of blocks

A cursor is a state `S` and a function that answers either with an element and the next
state, or that there is none.  `Enumerates` says that asking it again and again gives every
element of a list once and then the end.  `enumerates_blocks_iff` is the rule for a cursor
over numbered blocks, of which any may be empty: it enumerates them if and only if at the end
of each block it goes on with the next block that is not empty.
-/
namespace Cursor

variable {S α : Type} (next : S → Option (α × S))

/-- The answers to `n` questions.  Where there is none, the cursor stays where it is. -/
def answers : Nat → S → List (Option α)
  | 0, _ => []
  | n + 1, s =>
    match next s with
    | some (a, t) => some a :: answers n t
    | none => none :: answers n s

/-- Asked from `s`, the cursor answers with each of the list and is then at `t`. -/
inductive Yields : S → List α → S → Prop
  | refl (s : S) : Yields s [] s
  | step {s t u : S} {a : α} {as : List α} : next s = some (a, t) → Yields t as u →
      Yields s (a :: as) u

/-- Asked once more than the list is long, the cursor answers with each element of the list
once and then that there is none. -/
def Enumerates (s : S) (as : List α) : Prop :=
  ∃ bs : List α, bs.Perm as ∧ answers next (as.length + 1) s = bs.map some ++ [none]

section
variable {next} {s t u : S} {as bs : List α}

theorem Yields.append (h : Yields next s as t) (h' : Yields next t bs u) :
    Yields next s (as ++ bs) u := by
  induction h with
  | refl s => exact h'
  | step hs _ ih => exact .step hs (ih h')

theorem Yields.answers_eq (h : Yields next s as t) (n : Nat) :
    answers next (as.length + n) s = as.map some ++ answers next n t := by
  induction h with
  | refl s => simp
  | @step s t u a as hs _ ih =>
    rw [List.length_cons, Nat.succ_add, answers, hs]
    simp [ih]

theorem yields_of_answers (h : answers next (as.length + 1) s = as.map some ++ [none]) :
    ∃ t, Yields next s as t ∧ next t = none := by
  induction as generalizing s with
  | nil =>
    refine ⟨s, .refl s, ?_⟩
    cases hs : next s with
    | none => rfl
    | some a => simp [answers, hs] at h
  | cons a as ih =>
    rw [List.length_cons, answers] at h
    cases hs : next s with
    | none => rw [hs] at h; simp at h
    | some p =>
      rw [hs] at h
      simp only [List.map_cons, List.cons_append, List.cons.injEq, Option.some.injEq] at h
      obtain ⟨t, ht, hend⟩ := ih h.2
      exact ⟨t, .step (by rw [hs, ← h.1]) ht, hend⟩

theorem enumerates_iff :
    Enumerates next s bs ↔ ∃ as t, as.Perm bs ∧ Yields next s as t ∧ next t = none := by
  constructor
  · rintro ⟨as, hp, h⟩
    rw [← hp.length_eq] at h
    obtain ⟨t, ht, hend⟩ := yields_of_answers h
    exact ⟨as, t, hp, ht, hend⟩
  · rintro ⟨as, t, hp, h, hend⟩
    refine ⟨as, hp, ?_⟩
    rw [← hp.length_eq, h.answers_eq]
    simp [answers, hend]

/-- What a cursor answers on its way to the end begins with what it answers on any way. -/
theorem Yields.prefix_of_end (h : Yields next s as t) (hend : next t = none)
    (h' : Yields next s bs u) : ∃ cs, as = bs ++ cs ∧ Yields next u cs t := by
  induction h' generalizing as with
  | refl s => exact ⟨as, rfl, h⟩
  | step hs _ ih =>
    cases h with
    | refl => rw [hend] at hs; cases hs
    | step hs' h =>
      obtain ⟨rfl, rfl⟩ := Prod.mk.inj (Option.some.inj (hs'.symm.trans hs))
      obtain ⟨cs, rfl, hcs⟩ := ih h
      exact ⟨cs, rfl, hcs⟩

end

/-! ## Blocks -/

section Blocks
variable (records : Nat → List α)

/-- `n'` is the first block after `n` that is not empty. -/
def Follows (n n' : Nat) : Prop :=
  n < n' ∧ records n' ≠ [] ∧ ∀ k, n < k → k < n' → records k = []

/-- The elements of the blocks before `n`. -/
def upTo (n : Nat) : List α := (List.range n).flatMap records

variable {records} {n n' : Nat}

theorem exists_follows (h : ∃ k, n < k ∧ records k ≠ []) : ∃ n', Follows records n n' := by
  classical
  obtain ⟨hlt, hne⟩ := Nat.find_spec h
  refine ⟨Nat.find h, hlt, hne, fun k hk hlt' => ?_⟩
  by_contra hk'
  exact Nat.find_min h hlt' ⟨hk, hk'⟩

theorem Follows.unique {m : Nat} (h : Follows records n m) (h' : Follows records n n') :
    m = n' := by
  rcases Nat.lt_trichotomy m n' with hlt | heq | hlt
  · exact absurd (h'.2.2 m h.1 hlt) h.2.1
  · exact heq
  · exact absurd (h.2.2 n' h'.1 hlt) h'.2.1

/-- The last block before `n` that is not empty, or else the first. -/
theorem exists_followed (h : records n ≠ []) (hn : 0 < n) :
    ∃ m, m < n ∧ (records m ≠ [] ∨ m = 0) ∧ Follows records m n := by
  classical
  have hzero : records 0 ≠ [] ∨ 0 = 0 := .inr rfl
  have hle := Nat.findGreatest_le (P := fun m => records m ≠ [] ∨ m = 0) (n - 1)
  refine ⟨_, by omega, Nat.findGreatest_spec (P := fun m => records m ≠ [] ∨ m = 0)
    (Nat.zero_le (n - 1)) hzero, by omega, h, fun k hk hkn => ?_⟩
  by_contra hk'
  exact Nat.findGreatest_is_greatest hk (by omega) (.inl hk')

theorem upTo_succ (n : Nat) : upTo records (n + 1) = upTo records n ++ records n := by
  simp [upTo, List.range_succ]

theorem upTo_eq_of_empty {m : Nat} (hm : n ≤ m) (h : ∀ k, n ≤ k → k < m → records k = []) :
    upTo records m = upTo records n := by
  induction m, hm using Nat.le_induction with
  | base => rfl
  | succ m hm ih =>
    rw [upTo_succ, ih fun k hk hlt => h k hk (by omega), h m hm (Nat.lt_succ_self m),
      List.append_nil]

theorem Follows.upTo_eq (h : Follows records n n') :
    upTo records (n' + 1) = upTo records (n + 1) ++ records n' := by
  rw [upTo_succ, upTo_eq_of_empty h.1 fun k hk hlt => h.2.2 k hk hlt]

theorem length_upTo_le {m : Nat} (h : n ≤ m) :
    (upTo records n).length ≤ (upTo records m).length := by
  induction m, h using Nat.le_induction with
  | base => exact Nat.le_refl _
  | succ m hm ih => rw [upTo_succ, List.length_append]; omega

/-- Where no element is there twice, each is in one block only. -/
theorem block_unique {bound : Nat} {a : α} (hbound : ∀ k, bound ≤ k → records k = [])
    (hnodup : (upTo records bound).Nodup) (h : a ∈ records n) (h' : a ∈ records n') : n = n' := by
  have hlt : ∀ {k}, a ∈ records k → k < bound := by
    intro k hk
    by_contra hge
    rw [hbound k (by omega)] at hk
    cases hk
  by_contra hne
  rw [upTo, List.nodup_flatMap] at hnodup
  have hsymm : Std.Symm (Function.onFun List.Disjoint records) :=
    ⟨fun _ _ hdis => fun _ hx hy => hdis hy hx⟩
  exact hnodup.2.forall (List.mem_range.mpr (hlt h)) (List.mem_range.mpr (hlt h')) hne h h'

variable (records) (stop : Nat → S)

/-- From the end of block `n` the cursor goes through the next block that is not empty, or
says that there is none. -/
def RightAt (n : Nat) : Prop :=
  (∃ n', Follows records n n' ∧ Yields next (stop n) (records n') (stop n')) ∨
    ((∀ k, n < k → records k = []) ∧ next (stop n) = none)

variable {next records stop} {start : S} {bound : Nat}

theorem yields_all (hbound : ∀ k, bound ≤ k → records k = [])
    (h : ∀ n, records n ≠ [] ∨ n = 0 → RightAt next records stop n) :
    ∀ d n, bound ≤ n + d → (records n ≠ [] ∨ n = 0) →
      Yields next start (upTo records (n + 1)) (stop n) →
      ∃ t, Yields next start (upTo records bound) t ∧ next t = none := by
  intro d
  induction d using Nat.strong_induction_on with
  | _ d ih =>
    intro n hd hn hy
    rcases h n hn with ⟨n', hf, hy'⟩ | ⟨hlast, hend⟩
    · have hlt : n' < bound := by
        by_contra hge
        exact hf.2.1 (hbound n' (by omega))
      have hfar := hf.1
      refine ih (d - (n' - n)) (by omega) n' (by omega) (.inl hf.2.1) ?_
      rw [hf.upTo_eq]
      exact hy.append hy'
    · have hall : upTo records bound = upTo records (n + 1) := by
        rcases Nat.le_total (n + 1) bound with hle | hle
        · exact upTo_eq_of_empty hle fun k hk _ => hlast k hk
        · exact (upTo_eq_of_empty hle fun k hk _ => hbound k hk).symm
      rw [hall]
      exact ⟨stop n, hy, hend⟩

/-- At the end of a block a cursor on its way through all elements, each met once, is right,
if it otherwise stops or comes back to what it has already answered with. -/
theorem rightAt_of_enumerates (hbound : ∀ k, bound ≤ k → records k = [])
    (hnodup : (upTo records bound).Nodup) (h : Enumerates next start (upTo records bound))
    (hn : Yields next start (upTo records (n + 1)) (stop n))
    (hcases : RightAt next records stop n ∨ next (stop n) = none ∨
      ∃ a t, next (stop n) = some (a, t) ∧ a ∈ upTo records (n + 1)) :
    RightAt next records stop n := by
  obtain ⟨as, t, hp, hy, hend⟩ := enumerates_iff.mp h
  obtain ⟨cs, rfl, hcs⟩ := hy.prefix_of_end hend hn
  rcases hcases with hright | hnone | ⟨a, u, hagain, hmem⟩
  · exact hright
  · refine .inr ⟨fun k hk => ?_, hnone⟩
    cases hcs with
    | step hs => rw [hnone] at hs; cases hs
    | refl =>
      rw [List.append_nil] at hp
      by_contra hk'
      have hlt : k < bound := by
        by_contra hge
        exact hk' (hbound k (by omega))
      have hle : (upTo records (n + 1)).length ≤ (upTo records k).length := length_upTo_le hk
      have hle' : (upTo records (k + 1)).length ≤ (upTo records bound).length :=
        length_upTo_le hlt
      have hpos := List.length_pos_iff.mpr hk'
      rw [upTo_succ, List.length_append] at hle'
      have := hp.length_eq
      omega
  · cases hcs with
    | refl => rw [hend] at hagain; cases hagain
    | step hs _ =>
      obtain ⟨rfl, -⟩ := Prod.mk.inj (Option.some.inj (hs.symm.trans hagain))
      have hdup := (hp.nodup_iff.mpr hnodup)
      rw [List.nodup_append] at hdup
      exact absurd rfl (hdup.2.2 _ hmem _ List.mem_cons_self)

/-- The rule for a cursor over numbered blocks. -/
theorem enumerates_blocks_iff (hbound : ∀ k, bound ≤ k → records k = [])
    (hnodup : (upTo records bound).Nodup) (hstart : Yields next start (records 0) (stop 0))
    (hcases : ∀ n, records n ≠ [] ∨ n = 0 → RightAt next records stop n ∨
      next (stop n) = none ∨ ∃ a t, next (stop n) = some (a, t) ∧ a ∈ upTo records (n + 1)) :
    Enumerates next start (upTo records bound) ↔
      ∀ n, records n ≠ [] ∨ n = 0 → RightAt next records stop n := by
  have hzero : Yields next start (upTo records 1) (stop 0) := by
    rw [upTo_succ]
    exact hstart
  constructor
  · intro h n hn
    have hreach : Yields next start (upTo records (n + 1)) (stop n) := by
      induction n using Nat.strong_induction_on with
      | _ n ih =>
        rcases Nat.eq_zero_or_pos n with rfl | hpos
        · exact hzero
        · obtain ⟨m, hm, hne, hf⟩ := exists_followed (hn.resolve_right (by omega)) hpos
          have hy := ih m hm hne
          rcases rightAt_of_enumerates hbound hnodup h hy (hcases m hne) with
            ⟨n', hf', hy'⟩ | ⟨hlast, -⟩
          · obtain rfl := hf.unique hf'
            rw [hf.upTo_eq]
            exact hy.append hy'
          · exact absurd (hlast n hm) hf.2.1
    exact rightAt_of_enumerates hbound hnodup h hreach (hcases n hn)
  · intro h
    obtain ⟨t, ht, hend⟩ := yields_all hbound h bound 0 (by omega) (.inr rfl) hzero
    exact enumerates_iff.mpr ⟨_, t, .refl _, ht, hend⟩

end Blocks

end Cursor
