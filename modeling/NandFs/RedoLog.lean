import Mathlib.Data.List.Basic

/-! # Redo logs

A redo log is a list of records, each of which changes a state.  Where the changes commute and
each of them, done again, changes nothing more, the log can be replayed as often as one likes:
a replay that follows any number of interrupted ones leaves what one replay would have left.
-/
namespace RedoLog

variable {κ σ : Type*}

/-- The state after the records have been redone, the first one first. -/
def replay (act : κ → σ → σ) : List κ → σ → σ
  | [], s => s
  | k :: ks, s => replay act ks (act k s)

/-- The records can be redone in any order and more than once. -/
structure Redo (act : κ → σ → σ) : Prop where
  again : ∀ k s, act k (act k s) = act k s
  comm : ∀ k l s, act k (act l s) = act l (act k s)

variable {act : κ → σ → σ} {k : κ} {ks ls : List κ} {s : σ}

theorem replay_append : replay act (ks ++ ls) s = replay act ls (replay act ks s) := by
  induction ks generalizing s with
  | nil => rfl
  | cons k ks ih => exact ih

namespace Redo

/-- A record of the log that was redone before makes no difference to the replay. -/
theorem replay_of_mem (h : Redo act) (hk : k ∈ ks) :
    replay act ks (act k s) = replay act ks s := by
  induction ks generalizing s with
  | nil => exact absurd hk List.not_mem_nil
  | cons l ks ih =>
    show replay act ks (act l (act k s)) = replay act ks (act l s)
    rcases List.mem_cons.mp hk with rfl | hk
    · rw [h.again]
    · rw [h.comm l k s]
      exact ih hk

/-- Nor do any number of them. -/
theorem replay_replay (h : Redo act) (hsub : ∀ k ∈ ls, k ∈ ks) :
    replay act ks (replay act ls s) = replay act ks s := by
  induction ls generalizing s with
  | nil => rfl
  | cons l ls ih =>
    obtain ⟨hl, hls⟩ := List.forall_mem_cons.mp hsub
    show replay act ks (replay act ls (act l s)) = replay act ks s
    rw [ih hls, h.replay_of_mem hl]

end Redo

/-! ## Records that each change one entry of a table -/

section Table
variable {ι α : Type*} [DecidableEq ι] {f : α → α}

/-- The entry at `i` is changed. -/
def touch (f : α → α) (i : ι) (table : ι → α) : ι → α := Function.update table i (f (table i))

theorem redo_touch (hf : ∀ a, f (f a) = f a) : Redo (touch f : ι → (ι → α) → ι → α) where
  again i table := by
    rw [touch, touch, Function.update_self, Function.update_idem, hf]
  comm i j table := by
    by_cases hij : i = j
    · rw [hij]
    · unfold touch
      rw [Function.update_of_ne hij, Function.update_of_ne (Ne.symm hij), Function.update_comm hij]

/-- The entries of the log are changed, and no others. -/
theorem replay_touch (hf : ∀ a, f (f a) = f a) (is : List ι) (table : ι → α) (i : ι) :
    replay (touch f) is table i = if i ∈ is then f (table i) else table i := by
  induction is generalizing table with
  | nil => rfl
  | cons j is ih =>
    show replay (touch f) is (touch f j table) i = _
    rw [ih]
    unfold touch
    by_cases hij : i = j
    · subst hij
      rw [Function.update_self, if_pos List.mem_cons_self, hf, ite_self]
    · rw [Function.update_of_ne hij]
      by_cases hi : i ∈ is
      · rw [if_pos hi, if_pos (List.mem_cons_of_mem j hi)]
      · rw [if_neg hi, if_neg fun h => (List.mem_cons.mp h).elim hij hi]

/-- What becomes of an entry depends on no other. -/
theorem replay_touch_congr (hf : ∀ a, f (f a) = f a) (is : List ι) {table table' : ι → α} {i : ι}
    (h : table i = table' i) : replay (touch f) is table i = replay (touch f) is table' i := by
  rw [replay_touch hf, replay_touch hf, h]

/-- Where the entries have been moved, each to a place of its own, the log is redone at their
places. -/
theorem replay_touch_moved {κ : Type*} [DecidableEq κ] (hf : ∀ a, f (f a) = f a) {place : ι → κ}
    {moved is : List ι} (hinj : ∀ i ∈ moved, ∀ j ∈ moved, place i = place j → i = j)
    (his : ∀ i ∈ is, i ∈ moved) (table : κ → α) {i : ι} (hi : i ∈ moved) :
    replay (touch f) (is.map place) table (place i) =
      replay (touch f) is (fun j => table (place j)) i := by
  have hmem : place i ∈ is.map place ↔ i ∈ is := by
    refine ⟨fun h => ?_, fun h => List.mem_map_of_mem h⟩
    obtain ⟨j, hj, hplace⟩ := List.mem_map.mp h
    rwa [hinj i hi j (his j hj) hplace.symm]
  rw [replay_touch hf, replay_touch hf]
  simp only [hmem]

end Table

end RedoLog
