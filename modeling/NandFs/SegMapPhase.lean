import NandFs.SegMapFrame
import NandFs.FreeValue
import Mathlib.Order.Interval.Finset.Nat

/-! # The two phases of the segment map

While the log grows, the segments take the slots of their own numbers one after the other,
and the current segment is the last of them.  From the allocation of the last segment on the
slots are exchanged: one slot is free, the current segment is written to it, and it changes
places with the slot of a segment when that segment is finished or moved by wear leveling.
Every operation keeps the map in one of the two (`Phase`).
-/
namespace NandFs

open Program

variable [Config]

namespace Mapping

/-- The segments that have a slot: the data segments allocated so far, and the reserve
segments. -/
def existing (m : Mapping) : Finset Nat :=
  Finset.range m.nSegments ∪ Finset.Ico firstReserveSegment nSlots

/-- The log still grows. -/
structure Growing (m : Mapping) : Prop where
  le : m.nSegments ≤ segmentsCount
  current : m.recSegment + 1 = m.nSegments
  newSlot : m.newSlotId = m.recSegment
  identity : ∀ seg ∈ m.existing, m.segToSlot seg = seg
  spare : m.segToSlot newSegment = noSlot

/-- All segments are allocated.  The entry `SEQ_NEW_SEGMENT`, which wear leveling sets to a
slot that was free then, never shows the slot of a reserve segment. -/
structure Reclaiming (m : Mapping) : Prop where
  all : m.nSegments = segmentsCount
  current : m.recSegment < segmentsCount
  assigned : FreeValue.Assigned m.existing (Finset.range nSlots) m.segToSlot m.newSlotId
  spare : ∀ seg, firstReserveSegment ≤ seg → seg < nSlots →
    m.segToSlot newSegment ≠ m.segToSlot seg

def Phase (m : Mapping) : Prop := m.Growing ∨ m.Reclaiming

variable {m : Mapping}

theorem mem_existing {seg : Nat} :
    seg ∈ m.existing ↔ seg < m.nSegments ∨ firstReserveSegment ≤ seg ∧ seg < nSlots := by
  simp only [existing, Finset.mem_union, Finset.mem_range, Finset.mem_Ico]

/-- With all segments allocated, `SEQ_NEW_SEGMENT` is the only entry that is no segment's. -/
theorem mem_existing_iff_ne (hall : m.nSegments = segmentsCount) {seg : Nat} (hlt : seg < nSlots) :
    seg ∈ m.existing ↔ seg ≠ newSegment := by
  have := firstReserveSegment_eq
  have := newSegment_eq
  rw [mem_existing, hall]
  omega

theorem lt_of_mem_existing (hle : m.nSegments ≤ segmentsCount) {seg : Nat}
    (h : seg ∈ m.existing) : seg < nSlots := by
  have := segmentsCount_add
  rcases mem_existing.mp h with h | h <;> omega

/-- There is one slot more than segments. -/
theorem card_existing (hall : m.nSegments = segmentsCount) :
    (Finset.range nSlots).card = m.existing.card + 1 := by
  have h : m.existing = (Finset.range nSlots).erase newSegment := by
    ext seg
    rw [Finset.mem_erase, Finset.mem_range]
    constructor
    · intro hs
      have hlt := lt_of_mem_existing hall.le hs
      exact ⟨(mem_existing_iff_ne hall hlt).mp hs, hlt⟩
    · exact fun hs => (mem_existing_iff_ne hall hs.2).mpr hs.1
  have hmem : newSegment ∈ Finset.range nSlots := by
    have := newSegment_eq
    have := segmentsCount_add
    rw [Finset.mem_range]
    omega
  rw [h, Finset.card_erase_of_mem hmem, Finset.card_range]
  have := nSlots_ge
  omega

/-! ## The current segment -/

theorem Growing.current_mem (h : m.Growing) : m.recSegment ∈ m.existing :=
  mem_existing.mpr (.inl (by have := h.current; omega))

theorem Growing.newSlot_eq (h : m.Growing) : m.newSlotId = m.segToSlot m.recSegment := by
  rw [h.identity _ h.current_mem, h.newSlot]

theorem Reclaiming.current_mem (h : m.Reclaiming) : m.recSegment ∈ m.existing :=
  mem_existing.mpr (.inl (by rw [h.all]; exact h.current))

theorem Reclaiming.newSlot_ne (h : m.Reclaiming) : m.newSlotId ≠ m.segToSlot m.recSegment :=
  (h.assigned.unused _ h.current_mem).symm

end Mapping

theorem Mapping.Growing.not_reclamation {m : SegMap} (h : m.mapping.Growing) :
    m.isStateReclamation = false := by
  have heq : m.newSlotId = m.segToSlot m.reclaimed.segment := h.newSlot_eq
  simp [SegMap.isStateReclamation, SegMap.reclaimedSegmentSlot, heq]

theorem Mapping.Reclaiming.reclamation {m : SegMap} (h : m.mapping.Reclaiming) :
    m.isStateReclamation = true := by
  have hall : m.nSegments = segmentsCount := h.all
  have hne : m.newSlotId ≠ m.segToSlot m.reclaimed.segment := h.newSlot_ne
  simp [SegMap.isStateReclamation, SegMap.reclaimedSegmentSlot, hall, hne]

/-! ## The exchange of slots -/

namespace Mapping

variable {m : Mapping}

/-- The last segment allocated, slot `SEQ_SEGMENTS_COUNT` becomes the free one. -/
theorem Growing.reclaiming (h : m.Growing) (hall : m.nSegments = segmentsCount) :
    ({ m with newSlotId := segmentsCount } : Mapping).Reclaiming where
  all := hall
  current := by have := h.current; show m.recSegment < segmentsCount; omega
  assigned := {
    mapsTo := fun seg hs => by
      rw [Finset.mem_range, h.identity seg hs]
      exact lt_of_mem_existing h.le hs
    injOn := fun i hi j hj he => by
      rw [← h.identity i hi, ← h.identity j hj]
      exact he
    free_mem := by
      have := segmentsCount_add
      exact Finset.mem_range.mpr (show segmentsCount < nSlots by omega)
    unused := fun seg hs he => by
      have hid : m.segToSlot seg = seg := h.identity seg hs
      have hne := (mem_existing_iff_ne hall (lt_of_mem_existing h.le hs)).mp hs
      rw [newSegment_eq] at hne
      exact hne (hid.symm.trans he) }
  spare := fun seg hle hlt he => by
    have hid : m.segToSlot seg = seg := h.identity seg (mem_existing.mpr (.inr ⟨hle, hlt⟩))
    have hno : m.segToSlot newSegment = noSlot := h.spare
    have := nSlots_le
    have hval : noSlot = seg := by rw [← hno, ← hid]; exact he
    unfold noSlot at hval
    omega

/-- One more segment is allocated. -/
theorem Growing.next (h : m.Growing) (hlt : m.nSegments < segmentsCount) :
    Growing {
      segToSlot := Function.update m.segToSlot (m.recSegment + 1) (m.recSegment + 1)
      newSlotId := m.newSlotId + 1
      recSegment := m.recSegment + 1
      nSegments := m.nSegments + 1 } where
  le := hlt
  current := by have := h.current; show m.recSegment + 1 + 1 = m.nSegments + 1; omega
  newSlot := by show m.newSlotId + 1 = _; rw [h.newSlot]
  identity := fun seg hs => by
    show Function.update m.segToSlot (m.recSegment + 1) (m.recSegment + 1) seg = seg
    by_cases he : seg = m.recSegment + 1
    · rw [he, Function.update_self]
    · rw [Function.update_of_ne he]
      refine h.identity seg (mem_existing.mpr ?_)
      rcases mem_existing.mp hs with hs | hs
      · have hs : seg < m.nSegments + 1 := hs
        have := h.current
        exact .inl (by omega)
      · exact .inr hs
  spare := by
    have := newSegment_eq
    have := h.current
    show Function.update m.segToSlot (m.recSegment + 1) (m.recSegment + 1) _ = noSlot
    rw [Function.update_of_ne (by omega)]
    exact h.spare

/-- The segment that was reclaimed gets the free slot, and its old one is free. -/
theorem Reclaiming.finish (h : m.Reclaiming) :
    Reclaiming { m with
      segToSlot := Function.update m.segToSlot m.recSegment m.newSlotId
      newSlotId := m.segToSlot m.recSegment } where
  all := h.all
  current := h.current
  assigned := h.assigned.exchange h.current_mem
  spare := fun seg hle hlt => by
    have := newSegment_eq
    have := firstReserveSegment_eq
    have := h.current
    show Function.update m.segToSlot m.recSegment m.newSlotId _ ≠
      Function.update m.segToSlot m.recSegment m.newSlotId seg
    rw [Function.update_of_ne (by omega), Function.update_of_ne (by omega)]
    exact h.spare seg hle hlt

/-- Wear leveling gives the free slot to the segment `seg`, whose slot is free then, and
notes that slot in the entry `SEQ_NEW_SEGMENT`. -/
theorem Reclaiming.move (h : m.Reclaiming) {seg : Nat} (hseg : seg ∈ m.existing) :
    Reclaiming { m with
      segToSlot := Function.update (Function.update m.segToSlot newSegment (m.segToSlot seg))
        seg m.newSlotId
      newSlotId := m.segToSlot seg } where
  all := h.all
  current := h.current
  assigned := by
    refine (h.assigned.exchange hseg).congr fun i hi => ?_
    have hne : i ≠ newSegment :=
      (mem_existing_iff_ne h.all (lt_of_mem_existing h.all.le hi)).mp hi
    show Function.update (Function.update m.segToSlot newSegment (m.segToSlot seg)) seg
        m.newSlotId i = Function.update m.segToSlot seg m.newSlotId i
    by_cases he : i = seg
    · rw [he, Function.update_self, Function.update_self]
    · rw [Function.update_of_ne he, Function.update_of_ne he, Function.update_of_ne hne]
  spare := fun i hle hlt => by
    have hsne : seg ≠ newSegment :=
      (mem_existing_iff_ne h.all (lt_of_mem_existing h.all.le hseg)).mp hseg
    have hi : i ∈ m.existing := mem_existing.mpr (.inr ⟨hle, hlt⟩)
    have hine : i ≠ newSegment := (mem_existing_iff_ne h.all hlt).mp hi
    show Function.update (Function.update m.segToSlot newSegment (m.segToSlot seg)) seg
        m.newSlotId newSegment ≠
      Function.update (Function.update m.segToSlot newSegment (m.segToSlot seg)) seg
        m.newSlotId i
    rw [Function.update_of_ne hsne.symm, Function.update_self]
    by_cases he : i = seg
    · rw [he, Function.update_self]
      exact h.assigned.unused seg hseg
    · rw [Function.update_of_ne he, Function.update_of_ne hine]
      exact fun heq => he (h.assigned.injOn hi hseg heq.symm)

end Mapping

end NandFs
