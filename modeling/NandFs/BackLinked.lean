import Mathlib.Logic.Function.Basic

/-! # Trails of records in a shared store

Several writers append records to one store, in any order among them.  Each record holds the
address of the record that its writer wrote before, so that from the address of its last record a
writer's trail can be walked back to the first.  A trail is kept here as a list, the last record
first; a step of the store keeps the trails if it keeps what they hold.
-/
namespace BackLinked

variable {Writer Addr Rec : Type} {nil : Addr}

/-- The address of the last record of a trail. -/
def last (nil : Addr) (trail : List (Addr × Rec)) : Addr := (trail.head?.map Prod.fst).getD nil

@[simp] theorem last_nil : last nil ([] : List (Addr × Rec)) = nil := rfl

@[simp] theorem last_cons (p : Addr × Rec) (trail : List (Addr × Rec)) :
    last nil (p :: trail) = p.1 := rfl

/-- The store, of which `holds a r prev` says that it holds at `a` the record `r` and the address
`prev`, holds the records of the trail, each with the address of the one before it. -/
def Linked (nil : Addr) (holds : Addr → Rec → Addr → Prop) : List (Addr × Rec) → Prop
  | [] => True
  | p :: trail => holds p.1 p.2 (last nil trail) ∧ Linked nil holds trail

section Linked
variable {holds holds' : Addr → Rec → Addr → Prop} {trail trail' : List (Addr × Rec)}

theorem Linked.mono (h : Linked nil holds trail)
    (hkept : ∀ p ∈ trail, ∀ prev, holds p.1 p.2 prev → holds' p.1 p.2 prev) :
    Linked nil holds' trail := by
  induction trail with
  | nil => trivial
  | cons p trail ih =>
    obtain ⟨hp, hrest⟩ := h
    exact ⟨hkept p List.mem_cons_self _ hp,
      ih hrest fun q hq => hkept q (List.mem_cons_of_mem _ hq)⟩

/-- What was written up to some record is a trail. -/
theorem Linked.suffix (h : Linked nil holds trail) (hsub : trail' <:+ trail) :
    Linked nil holds trail' := by
  induction trail with
  | nil =>
    rw [List.suffix_nil.mp hsub]
    exact h
  | cons p trail ih =>
    rcases List.suffix_cons_iff.mp hsub with rfl | hsub
    · exact h
    · exact ih h.2 hsub

end Linked

/-- The trails of the writers are in the store, and no record is on two of them. -/
structure Trails (nil : Addr) (holds : Addr → Rec → Addr → Prop)
    (trails : Writer → List (Addr × Rec)) : Prop where
  linked : ∀ w, Linked nil holds (trails w)
  apart : ∀ w w', ∀ p ∈ trails w, ∀ q ∈ trails w', p.1 = q.1 → w = w'

namespace Trails
variable {holds holds' : Addr → Rec → Addr → Prop} {trails : Writer → List (Addr × Rec)}

theorem none (nil : Addr) (holds : Addr → Rec → Addr → Prop) :
    Trails nil holds fun _ : Writer => [] :=
  ⟨fun _ => trivial, fun _ _ _ hp => absurd hp List.not_mem_nil⟩

/-- A step of the store that keeps what the trails hold keeps them. -/
theorem mono (h : Trails nil holds trails)
    (hkept : ∀ w, ∀ p ∈ trails w, ∀ prev, holds p.1 p.2 prev → holds' p.1 p.2 prev) :
    Trails nil holds' trails :=
  ⟨fun w => (h.linked w).mono (hkept w), h.apart⟩

/-- The address of the last record tells which writer wrote it, if any did. -/
theorem last_eq_last (h : Trails nil holds trails) (hne : ∀ w, ∀ p ∈ trails w, p.1 ≠ nil)
    {w w' : Writer} (hlast : last nil (trails w) = last nil (trails w')) :
    w = w' ∨ trails w = [] ∧ trails w' = [] := by
  cases hw : trails w with
  | nil =>
    cases hw' : trails w' with
    | nil => exact .inr ⟨rfl, rfl⟩
    | cons q rest' =>
      have hq : q ∈ trails w' := by simp [hw']
      rw [hw, hw'] at hlast
      exact absurd hlast.symm (hne w' q hq)
  | cons p rest =>
    have hp : p ∈ trails w := by simp [hw]
    cases hw' : trails w' with
    | nil =>
      rw [hw, hw'] at hlast
      exact absurd hlast (hne w p hp)
    | cons q rest' =>
      have hq : q ∈ trails w' := by simp [hw']
      rw [hw, hw'] at hlast
      exact .inl (h.apart w w' p hp q hq hlast)

variable [DecidableEq Writer] {w : Writer}

/-- A writer appends a record at an address that no trail has. -/
theorem push {a : Addr} {r : Rec} (h : Trails nil holds trails)
    (hfresh : ∀ w', ∀ p ∈ trails w', p.1 ≠ a) (hnew : holds a r (last nil (trails w))) :
    Trails nil holds (Function.update trails w ((a, r) :: trails w)) := by
  have hmem : ∀ w' p, p ∈ Function.update trails w ((a, r) :: trails w) w' →
      p ∈ trails w' ∨ w' = w ∧ p = (a, r) := by
    intro w' p hp
    by_cases hw : w' = w
    · subst hw
      rw [Function.update_self] at hp
      rcases List.mem_cons.mp hp with rfl | hp
      · exact .inr ⟨rfl, rfl⟩
      · exact .inl hp
    · rw [Function.update_of_ne hw] at hp
      exact .inl hp
  refine ⟨fun w' => ?_, fun w₁ w₂ p hp q hq hpq => ?_⟩
  · by_cases hw : w' = w
    · subst hw
      rw [Function.update_self]
      exact ⟨hnew, h.linked w'⟩
    · rw [Function.update_of_ne hw]
      exact h.linked w'
  · rcases hmem w₁ p hp with hold | ⟨hw, hnew₁⟩
    · rcases hmem w₂ q hq with hold' | ⟨-, hnew₂⟩
      · exact h.apart w₁ w₂ p hold q hold' hpq
      · exact absurd (by rw [hpq, hnew₂]) (hfresh w₁ p hold)
    · rcases hmem w₂ q hq with hold' | ⟨hw', -⟩
      · exact absurd (by rw [← hpq, hnew₁]) (hfresh w₂ q hold')
      · rw [hw, hw']

/-- A writer begins again. -/
theorem forget (h : Trails nil holds trails) (w : Writer) :
    Trails nil holds (Function.update trails w []) := by
  have hmem : ∀ w' p, p ∈ Function.update trails w [] w' → p ∈ trails w' := by
    intro w' p hp
    by_cases hw : w' = w
    · rw [hw, Function.update_self] at hp
      exact absurd hp List.not_mem_nil
    · rwa [Function.update_of_ne hw] at hp
  refine ⟨fun w' => ?_, fun w₁ w₂ p hp q hq hpq =>
    h.apart w₁ w₂ p (hmem w₁ p hp) q (hmem w₂ q hq) hpq⟩
  by_cases hw : w' = w
  · rw [hw, Function.update_self]
    trivial
  · rw [Function.update_of_ne hw]
    exact h.linked w'

end Trails

end BackLinked
