import Mathlib.Data.Finset.Card
import Mathlib.Data.Finset.Image
import Mathlib.Data.Set.Function

/-! # Assignments with one free value

A finite set of holders each has a value of its own, and one value is free.  Giving the free
value to a holder, whose old value is then the free one, keeps it so; and where there is one
value more than there are holders, every other value is taken.
-/
namespace FreeValue

variable {ι α : Type}

/-- `f` gives the members of `s` values of their own in `v`, and `free` is another one. -/
structure Assigned (s : Finset ι) (v : Finset α) (f : ι → α) (free : α) : Prop where
  mapsTo : ∀ i ∈ s, f i ∈ v
  injOn : Set.InjOn f s
  free_mem : free ∈ v
  unused : ∀ i ∈ s, f i ≠ free

variable {s : Finset ι} {v : Finset α} {f : ι → α} {free : α}

/-- Only the values of the holders count. -/
theorem Assigned.congr {g : ι → α} (h : Assigned s v f free) (hg : ∀ i ∈ s, g i = f i) :
    Assigned s v g free where
  mapsTo i hi := by rw [hg i hi]; exact h.mapsTo i hi
  injOn i hi j hj he := h.injOn hi hj (by rw [← hg i hi, ← hg j hj, he])
  free_mem := h.free_mem
  unused i hi := by rw [hg i hi]; exact h.unused i hi

/-- A holder takes the free value and leaves its own free. -/
theorem Assigned.exchange [DecidableEq ι] (h : Assigned s v f free) {i : ι} (hi : i ∈ s) :
    Assigned s v (Function.update f i free) (f i) where
  mapsTo j hj := by
    by_cases hji : j = i
    · subst hji; rw [Function.update_self]; exact h.free_mem
    · rw [Function.update_of_ne hji]; exact h.mapsTo j hj
  injOn j hj k hk he := by
    by_cases hji : j = i
    · by_cases hki : k = i
      · rw [hji, hki]
      · subst hji
        rw [Function.update_self, Function.update_of_ne hki] at he
        exact absurd he.symm (h.unused k hk)
    · by_cases hki : k = i
      · subst hki
        rw [Function.update_self, Function.update_of_ne hji] at he
        exact absurd he (h.unused j hj)
      · rw [Function.update_of_ne hji, Function.update_of_ne hki] at he
        exact h.injOn hj hk he
  free_mem := h.mapsTo i hi
  unused j hj he := by
    by_cases hji : j = i
    · subst hji
      rw [Function.update_self] at he
      exact h.unused j hj he.symm
    · rw [Function.update_of_ne hji] at he
      exact hji (h.injOn hj hi he)

/-- With one value more than holders, a value that is not free has a holder. -/
theorem Assigned.exists_holder [DecidableEq α] (h : Assigned s v f free)
    (hcard : v.card = s.card + 1) {a : α} (ha : a ∈ v) (hne : a ≠ free) : ∃ i ∈ s, f i = a := by
  have hsub : s.image f ⊆ v.erase free := by
    intro b hb
    obtain ⟨i, hi, rfl⟩ := Finset.mem_image.mp hb
    exact Finset.mem_erase.mpr ⟨h.unused i hi, h.mapsTo i hi⟩
  have hsize : (v.erase free).card ≤ (s.image f).card := by
    rw [Finset.card_erase_of_mem h.free_mem, Finset.card_image_of_injOn h.injOn, hcard]
    omega
  have heq := Finset.eq_of_subset_of_card_le hsub hsize
  have hmem : a ∈ s.image f := by
    rw [heq]
    exact Finset.mem_erase.mpr ⟨hne, ha⟩
  exact Finset.mem_image.mp hmem

end FreeValue
