import Mathlib.Data.Finset.Card
import Mathlib.Data.Int.Basic

/-! # Counted children

Some of finitely many slots are alive, and some of these have another one as their parent.  Each
slot counts the children it has.  What happens to slots is that one leaves, that one adopts others,
and that a group of them leaves together.
-/
namespace Parents

variable {ι : Type*} [DecidableEq ι]

/-- The slots whose parent is `b`. -/
def children (alive : Finset ι) (parent : ι → Option ι) (b : ι) : Finset ι :=
  alive.filter fun i => parent i = some b

theorem mem_children {alive : Finset ι} {parent : ι → Option ι} {b i : ι} :
    i ∈ children alive parent b ↔ i ∈ alive ∧ parent i = some b :=
  Finset.mem_filter

/-- A slot that is not alive any more is no child any more. -/
theorem children_erase {alive : Finset ι} {parent parent' : ι → Option ι} {c : ι} (b : ι)
    (hparent : ∀ i ∈ alive, i ≠ c → parent' i = parent i) :
    children (alive.erase c) parent' b = (children alive parent b).erase c := by
  ext i
  rw [mem_children, Finset.mem_erase, Finset.mem_erase, mem_children]
  constructor
  · rintro ⟨⟨hic, hi⟩, hchild⟩
    exact ⟨hic, hi, (hparent i hi hic).symm.trans hchild⟩
  · rintro ⟨hic, hi, hchild⟩
    exact ⟨⟨hic, hi⟩, (hparent i hi hic).trans hchild⟩

/-- Each slot counts its children, and a slot with a parent is alive as its parent is. -/
structure Counted (slots alive : Finset ι) (parent : ι → Option ι) (count : ι → ℤ) : Prop where
  subset : alive ⊆ slots
  count_eq : ∀ b ∈ slots, count b = (children alive parent b).card
  alive_of_parent : ∀ i ∈ slots, ∀ b, parent i = some b → i ∈ alive ∧ b ∈ alive

namespace Counted
variable {slots alive alive' : Finset ι} {parent parent' : ι → Option ι} {count count' : ι → ℤ}
  {c : ι}

/-- What counts no child has none. -/
theorem parent_ne (h : Counted slots alive parent count) (hc : c ∈ slots) (hcount : count c ≤ 0)
    {i : ι} (hi : i ∈ slots) : parent i ≠ some c := by
  intro hparent
  have hmem : i ∈ children alive parent c :=
    mem_children.mpr ⟨(h.alive_of_parent i hi c hparent).1, hparent⟩
  have hpos := Finset.card_pos.mpr ⟨i, hmem⟩
  have := h.count_eq c hc
  omega

/-- What is not alive has no children. -/
theorem parent_ne_of_notMem (h : Counted slots alive parent count) (hc : c ∉ alive) {i : ι}
    (hi : i ∈ slots) : parent i ≠ some c :=
  fun hparent => hc (h.alive_of_parent i hi c hparent).2

/-- What is not alive has no parent. -/
theorem parent_eq_none (h : Counted slots alive parent count) (hc : c ∈ slots) (hdead : c ∉ alive) :
    parent c = none := by
  cases hparent : parent c with
  | none => rfl
  | some b => exact absurd (h.alive_of_parent c hc b hparent).1 hdead

theorem congr (h : Counted slots alive parent count) (halive : alive' = alive)
    (hparent : ∀ i ∈ slots, parent' i = parent i) (hcount : ∀ b ∈ slots, count' b = count b) :
    Counted slots alive' parent' count' := by
  subst halive
  refine ⟨h.subset, fun b hb => ?_, fun i hi b hb => h.alive_of_parent i hi b ?_⟩
  · rw [hcount b hb, h.count_eq b hb]
    refine congrArg _ (congrArg _ (Finset.filter_congr fun i hi => ?_))
    rw [hparent i (h.subset hi)]
  · rw [← hparent i hi]
    exact hb

/-- A slot leaves: its parent counts one child less, and its own children have no parent any more. -/
theorem leave (h : Counted slots alive parent count) (hc : c ∈ slots)
    (halive : alive' = alive.erase c)
    (hparent : ∀ i ∈ slots, parent' i = if i = c ∨ parent i = some c then none else parent i)
    (hcount : ∀ b ∈ slots, b ≠ c → count' b = if parent c = some b then count b - 1 else count b)
    (hself : count' c = 0) : Counted slots alive' parent' count' := by
  subst halive
  have hiff : ∀ i ∈ slots, ∀ b, parent' i = some b ↔ i ≠ c ∧ b ≠ c ∧ parent i = some b := by
    intro i hi b
    rw [hparent i hi]
    by_cases hic : i = c
    · simp [hic]
    · by_cases hchild : parent i = some c
      · rw [if_pos (.inr hchild), hchild]
        simp only [Option.some.injEq, reduceCtorEq, false_iff]
        exact fun hb => hb.2.1 hb.2.2.symm
      · rw [if_neg (not_or.mpr ⟨hic, hchild⟩)]
        exact ⟨fun hb => ⟨hic, fun he => hchild (he ▸ hb), hb⟩, fun hb => hb.2.2⟩
  refine ⟨(Finset.erase_subset c alive).trans h.subset, fun b hb => ?_, fun i hi b hb => ?_⟩
  · by_cases hbc : b = c
    · have hnone : children (alive.erase c) parent' c = ∅ := by
        refine Finset.eq_empty_of_forall_notMem fun i hi => ?_
        obtain ⟨hmem, hchild⟩ := mem_children.mp hi
        exact ((hiff i (h.subset (Finset.mem_of_mem_erase hmem)) c).mp hchild).2.1 rfl
      rw [hbc, hself, hnone, Finset.card_empty, Int.natCast_zero]
    · have hchildren : children (alive.erase c) parent' b = (children alive parent b).erase c := by
        ext i
        rw [mem_children, Finset.mem_erase, Finset.mem_erase, mem_children]
        constructor
        · rintro ⟨⟨hic, hi⟩, hchild⟩
          exact ⟨hic, hi, ((hiff i (h.subset hi) b).mp hchild).2.2⟩
        · rintro ⟨hic, hi, hchild⟩
          exact ⟨⟨hic, hi⟩, (hiff i (h.subset hi) b).mpr ⟨hic, hbc, hchild⟩⟩
      rw [hcount b hb hbc, hchildren, h.count_eq b hb]
      by_cases hchild : parent c = some b
      · have hmem : c ∈ children alive parent b :=
          mem_children.mpr ⟨(h.alive_of_parent c hc b hchild).1, hchild⟩
        have hpos := Finset.card_pos.mpr ⟨c, hmem⟩
        rw [if_pos hchild, Finset.card_erase_of_mem hmem]
        omega
      · rw [if_neg hchild, Finset.erase_eq_of_notMem fun hmem => hchild (mem_children.mp hmem).2]
  · obtain ⟨hic, hbc, hchild⟩ := (hiff i hi b).mp hb
    obtain ⟨hi', hb'⟩ := h.alive_of_parent i hi b hchild
    exact ⟨Finset.mem_erase.mpr ⟨hic, hi'⟩, Finset.mem_erase.mpr ⟨hbc, hb'⟩⟩

/-- A slot comes alive, if it is not, and adopts others that no other slot loses; those it had are
among them. -/
theorem adopt (h : Counted slots alive parent count) (hc : c ∈ slots) (named : Finset ι)
    (halive : alive' = insert c alive)
    (hparent : ∀ i ∈ slots, parent' i = if i ∈ named then some c else parent i)
    (hcount : ∀ b ∈ slots, b ≠ c → count' b = count b) (hself : count' c = named.card)
    (hnamed : ∀ i ∈ named, i ∈ insert c alive ∧ ∀ b, parent i = some b → b = c)
    (hold : ∀ i ∈ slots, parent i = some c → i ∈ named) : Counted slots alive' parent' count' := by
  subst halive
  have hsub : insert c alive ⊆ slots := Finset.insert_subset hc h.subset
  refine ⟨hsub, fun b hb => ?_, fun i hi b hb => ?_⟩
  · by_cases hbc : b = c
    · have hchildren : children (insert c alive) parent' c = named := by
        ext i
        rw [mem_children]
        constructor
        · rintro ⟨hi, hchild⟩
          rw [hparent i (hsub hi)] at hchild
          by_contra hne
          rw [if_neg hne] at hchild
          exact hne (hold i (hsub hi) hchild)
        · intro hi
          have hmem := (hnamed i hi).1
          exact ⟨hmem, by rw [hparent i (hsub hmem), if_pos hi]⟩
      rw [hbc, hself, hchildren]
    · have hchildren : children (insert c alive) parent' b = children alive parent b := by
        ext i
        rw [mem_children, mem_children]
        constructor
        · rintro ⟨hi, hchild⟩
          rw [hparent i (hsub hi)] at hchild
          by_cases hmem : i ∈ named
          · rw [if_pos hmem] at hchild
            exact absurd (Option.some.inj hchild).symm hbc
          · rw [if_neg hmem] at hchild
            exact ⟨(h.alive_of_parent i (hsub hi) b hchild).1, hchild⟩
        · rintro ⟨hi, hchild⟩
          have hmem : i ∉ named := fun hmem => hbc ((hnamed i hmem).2 b hchild)
          exact ⟨Finset.mem_insert_of_mem hi, by rw [hparent i (h.subset hi), if_neg hmem, hchild]⟩
      rw [hcount b hb hbc, hchildren, h.count_eq b hb]
  · rw [hparent i hi] at hb
    by_cases hmem : i ∈ named
    · rw [if_pos hmem] at hb
      rw [← Option.some.inj hb]
      exact ⟨(hnamed i hmem).1, Finset.mem_insert_self c alive⟩
    · rw [if_neg hmem] at hb
      obtain ⟨hi', hb'⟩ := h.alive_of_parent i hi b hb
      exact ⟨Finset.mem_insert_of_mem hi', Finset.mem_insert_of_mem hb'⟩

/-- A group of slots leaves together, each with its parent and its children. -/
theorem leaveAll (h : Counted slots alive parent count) (dead : Finset ι)
    (halive : alive' = alive \ dead)
    (hparent : ∀ i ∈ slots, parent' i = if i ∈ dead then none else parent i)
    (hcount : ∀ b ∈ slots, count' b = if b ∈ dead then 0 else count b)
    (hclosed : ∀ i ∈ slots, ∀ b, parent i = some b → (i ∈ dead ↔ b ∈ dead)) :
    Counted slots alive' parent' count' := by
  subst halive
  have hiff : ∀ i ∈ slots, ∀ b, parent' i = some b ↔ i ∉ dead ∧ parent i = some b := by
    intro i hi b
    rw [hparent i hi]
    by_cases hdead : i ∈ dead
    · simp [hdead]
    · simp [hdead]
  refine ⟨Finset.sdiff_subset.trans h.subset, fun b hb => ?_, fun i hi b hb => ?_⟩
  · rw [hcount b hb]
    by_cases hdead : b ∈ dead
    · have hnone : children (alive \ dead) parent' b = ∅ := by
        refine Finset.eq_empty_of_forall_notMem fun i hi => ?_
        obtain ⟨hmem, hchild⟩ := mem_children.mp hi
        have hslot := h.subset (Finset.mem_sdiff.mp hmem).1
        obtain ⟨hni, hchild⟩ := (hiff i hslot b).mp hchild
        exact hni ((hclosed i hslot b hchild).mpr hdead)
      rw [if_pos hdead, hnone, Finset.card_empty, Int.natCast_zero]
    · have hchildren : children (alive \ dead) parent' b = children alive parent b := by
        ext i
        rw [mem_children, mem_children, Finset.mem_sdiff]
        constructor
        · rintro ⟨⟨hi, -⟩, hchild⟩
          exact ⟨hi, ((hiff i (h.subset hi) b).mp hchild).2⟩
        · rintro ⟨hi, hchild⟩
          have hni : i ∉ dead := fun hi' => hdead ((hclosed i (h.subset hi) b hchild).mp hi')
          exact ⟨⟨hi, hni⟩, (hiff i (h.subset hi) b).mpr ⟨hni, hchild⟩⟩
      rw [if_neg hdead, hchildren, h.count_eq b hb]
  · obtain ⟨hni, hchild⟩ := (hiff i hi b).mp hb
    obtain ⟨hi', hb'⟩ := h.alive_of_parent i hi b hchild
    exact ⟨Finset.mem_sdiff.mpr ⟨hi', hni⟩,
      Finset.mem_sdiff.mpr ⟨hb', fun hb'' => hni ((hclosed i hi b hchild).mpr hb'')⟩⟩

end Counted

end Parents
