import NandFs.LogHead
import NandFs.SegMapSteps
import NandFs.Format

/-! # The segments of the log

Every segment but the current one has a slot that is written to its end.  While the log
grows, the slots after the current one are blank; while a segment is reclaimed, its old slot
is full and the new one is written up to the head.  A logical address names a page of one of
these slots (`SegMap.stored`), and a page that is live is found there whatever has been
reclaimed since.
-/
namespace NandFs

open Program

variable [Config]

/-- What the slots of the segments hold. -/
structure Segments (m : SegMap) (c : Contents) : Prop where
  phase : m.mapping.Phase
  full : ∀ seg < m.nSegments, seg ≠ m.reclaimed.segment → ∀ o < pagesPerSlot,
    c (m.segToSlot seg) o ≠ none
  old : m.isStateReclamation = true → ∀ o < pagesPerSlot, c m.reclaimedSegmentSlot o ≠ none
  fresh : m.isStateReclamation = false → ∀ slot, m.reclaimed.segment < slot →
    slot ≤ segmentsCount → ∀ o < pagesPerSlot, c slot o = none

/-- What a logical address holds. -/
def SegMap.stored (m : SegMap) (c : Contents) (a : LogAddr) : Option Stored :=
  if m.isStateReclamation ∧ a.segment = m.reclaimed.segment ∧ a.offset < m.reclaimed.offset
  then c m.newSlotId a.offset else c (m.segToSlot a.segment) a.offset

/-! ## Slots of segments -/

section Phase
variable {m : SegMap}

theorem mem_existing_of_lt {seg : Nat} (h : seg < m.nSegments) : seg ∈ m.mapping.existing :=
  Mapping.mem_existing.mpr (.inl h)

theorem mem_existing_reserve {seg : Nat} (h : seg ∈ reserveSegments) :
    seg ∈ m.mapping.existing :=
  Mapping.mem_existing.mpr (.inr (mem_reserveSegments.mp h))

theorem Mapping.Phase.le (h : m.mapping.Phase) : m.nSegments ≤ segmentsCount := by
  rcases h with h | h
  · exact h.le
  · exact h.all.le

theorem Mapping.Phase.current_lt (h : m.mapping.Phase) : m.reclaimed.segment < m.nSegments := by
  rcases h with h | h
  · have hcur : m.reclaimed.segment + 1 = m.nSegments := h.current
    omega
  · have hcur : m.reclaimed.segment < segmentsCount := h.current
    have hall : m.nSegments = segmentsCount := h.all
    omega

/-- Segments that exist have slots of the chip, different ones. -/
theorem Mapping.Phase.slot_lt (h : m.mapping.Phase) {seg : Nat} (hs : seg ∈ m.mapping.existing) :
    m.segToSlot seg < nSlots := by
  rcases h with h | h
  · have hid : m.segToSlot seg = seg := h.identity seg hs
    rw [hid]
    exact Mapping.lt_of_mem_existing h.le hs
  · exact Finset.mem_range.mp (h.assigned.mapsTo seg hs)

theorem Mapping.Phase.slot_inj (h : m.mapping.Phase) {seg seg' : Nat}
    (hs : seg ∈ m.mapping.existing) (hs' : seg' ∈ m.mapping.existing)
    (he : m.segToSlot seg = m.segToSlot seg') : seg = seg' := by
  rcases h with h | h
  · have hid : m.segToSlot seg = seg := h.identity seg hs
    have hid' : m.segToSlot seg' = seg' := h.identity seg' hs'
    rw [← hid, he, hid']
  · exact h.assigned.injOn hs hs' he

theorem Mapping.Phase.data_slot (h : m.mapping.Phase) {seg : Nat} (hs : seg < m.nSegments) :
    m.IsDataSlot (m.segToSlot seg) where
  lt := h.slot_lt (mem_existing_of_lt hs)
  data := by
    intro seg' hres he
    have heq := h.slot_inj (mem_existing_reserve hres) (mem_existing_of_lt hs) he
    have := mem_reserveSegments.mp hres
    have := firstReserveSegment_eq
    have := h.le
    omega

theorem Mapping.Phase.slot_ne_noSlot (h : m.mapping.Phase) {seg : Nat} (hs : seg < m.nSegments) :
    m.segToSlot seg ≠ noSlot := by
  have := h.slot_lt (mem_existing_of_lt hs)
  have := nSlots_le
  unfold noSlot
  omega

/-- In reclamation the new slot is no segment's. -/
theorem Mapping.Phase.newSlot_ne (h : m.mapping.Phase) (hrec : m.isStateReclamation = true)
    {seg : Nat} (hs : seg ∈ m.mapping.existing) : m.segToSlot seg ≠ m.newSlotId := by
  rcases h with h | h
  · rw [h.not_reclamation] at hrec
    exact absurd hrec Bool.false_ne_true
  · exact h.assigned.unused seg hs

/-- While the log grows the new slot is that of the current segment. -/
theorem Mapping.Phase.newSlot_eq (h : m.mapping.Phase) (hgrow : m.isStateReclamation = false) :
    m.segToSlot m.reclaimed.segment = m.newSlotId := by
  rcases h with h | h
  · exact h.newSlot_eq.symm
  · rw [h.reclamation] at hgrow
    exact absurd hgrow.symm Bool.false_ne_true

theorem Mapping.Phase.newSlot_data (h : m.mapping.Phase) : m.IsDataSlot m.newSlotId := by
  cases hrec : m.isStateReclamation with
  | false =>
    rw [← h.newSlot_eq hrec]
    exact h.data_slot h.current_lt
  | true =>
    refine ⟨?_, fun seg hseg => h.newSlot_ne hrec (mem_existing_reserve hseg)⟩
    rcases h with h | h
    · rw [h.not_reclamation] at hrec
      exact absurd hrec Bool.false_ne_true
    · exact Finset.mem_range.mp h.assigned.free_mem

end Phase

/-! ## Writing a page of the current segment -/

section Write
variable {m : SegMap} {c : Contents} {st : Stored}

/-- The map once the page at the head is written. -/
theorem increment_mapping (ho : m.headOffset < pagesPerSlot) :
    m.incrementReclaimedOffset.mapping = m.mapping := by
  rw [incrementReclaimedOffset_eq ho]
  rfl

theorem isStateReclamation_congr {m' : SegMap} (h : m'.mapping = m.mapping) :
    m'.isStateReclamation = m.isStateReclamation := by
  have h1 : m'.segToSlot = m.segToSlot := congrArg Mapping.segToSlot h
  have h2 : m'.newSlotId = m.newSlotId := congrArg Mapping.newSlotId h
  have h3 : m'.reclaimed.segment = m.reclaimed.segment := congrArg Mapping.recSegment h
  have h4 : m'.nSegments = m.nSegments := congrArg Mapping.nSegments h
  unfold SegMap.isStateReclamation SegMap.reclaimedSegmentSlot
  rw [h1, h2, h3, h4]

theorem Segments.congr {m' : SegMap} (h : Segments m c) (hm : m'.mapping = m.mapping) :
    Segments m' c := by
  have h1 : m'.segToSlot = m.segToSlot := congrArg Mapping.segToSlot hm
  have h3 : m'.reclaimed.segment = m.reclaimed.segment := congrArg Mapping.recSegment hm
  have h4 : m'.nSegments = m.nSegments := congrArg Mapping.nSegments hm
  have hrec := isStateReclamation_congr hm
  constructor
  · rw [hm]
    exact h.phase
  · rw [h1, h3, h4]
    exact h.full
  · rw [hrec, SegMap.reclaimedSegmentSlot, h1, h3]
    exact h.old
  · rw [hrec, h3]
    exact h.fresh

/-- A page of the new slot is written. -/
theorem Segments.write (h : Segments m c) (o : Nat) : Segments m (c.set m.newSlotId o st) := by
  have hkeep : ∀ slot o', c slot o' ≠ none → c.set m.newSlotId o st slot o' ≠ none := by
    intro slot o' hne
    by_cases hs : slot = m.newSlotId
    · subst hs
      by_cases ho : o' = o
      · subst ho
        rw [Contents.set_self]
        exact Option.some_ne_none _
      · rwa [Contents.set_of_ne ho]
    · rwa [Contents.set_of_ne_slot hs]
  constructor
  · exact h.phase
  · intro seg hs hne o' ho'
    exact hkeep _ _ (h.full seg hs hne o' ho')
  · intro hrec o' ho'
    exact hkeep _ _ (h.old hrec o' ho')
  · intro hgrow slot hlt hle o' ho'
    have hns : m.newSlotId = m.reclaimed.segment := by
      rcases h.phase with hg | hr
      · exact hg.newSlot
      · rw [hr.reclamation] at hgrow
        exact absurd hgrow.symm Bool.false_ne_true
    rw [Contents.set_of_ne_slot (by omega)]
    exact h.fresh hgrow slot hlt hle o' ho'

/-- The page written at the head is found at its logical address, and all others where they
were. -/
theorem Segments.stored_write (h : Segments m c) (ho : m.headOffset < pagesPerSlot)
    {a : LogAddr} (hseg : a.segment < m.nSegments) :
    m.incrementReclaimedOffset.stored (c.set m.newSlotId m.headOffset st) a =
      if a = m.reclaimed then some st else m.stored c a := by
  have hrec := isStateReclamation_congr (increment_mapping ho)
  have hinc := incrementReclaimedOffset_eq ho
  have hcur := mem_existing_of_lt h.phase.current_lt
  have hmem := mem_existing_of_lt hseg
  unfold SegMap.stored
  rw [hrec, hinc]
  show (if _ ∧ a.segment = m.reclaimed.segment ∧ a.offset < m.headOffset + 1 then
    c.set m.newSlotId m.headOffset st m.newSlotId a.offset
    else c.set m.newSlotId m.headOffset st (m.segToSlot a.segment) a.offset) = _
  by_cases ha : a = m.reclaimed
  · subst ha
    rw [if_pos rfl]
    cases hr : m.isStateReclamation with
    | true => rw [if_pos ⟨rfl, rfl, Nat.lt_succ_self _⟩, Contents.set_self]
    | false =>
      rw [if_neg fun hc => absurd hc.1 Bool.false_ne_true, h.phase.newSlot_eq hr,
        Contents.set_self]
  · rw [if_neg ha]
    have hne : a.segment = m.reclaimed.segment → a.offset ≠ m.headOffset := by
      intro hs hoff
      exact ha (by cases a; cases hm : m.reclaimed; simp_all [SegMap.headOffset])
    cases hr : m.isStateReclamation with
    | true =>
      by_cases hs : a.segment = m.reclaimed.segment
      · have hoff := hne hs
        by_cases hlt : a.offset < m.headOffset
        · rw [if_pos ⟨rfl, hs, by omega⟩, if_pos ⟨rfl, hs, hlt⟩, Contents.set_of_ne hoff]
        · rw [if_neg fun hc => by omega, if_neg fun hc => hlt hc.2.2,
            Contents.set_of_ne_slot (h.phase.newSlot_ne hr hmem)]
      · rw [if_neg fun hc => hs hc.2.1, if_neg fun hc => hs hc.2.1,
          Contents.set_of_ne_slot (h.phase.newSlot_ne hr hmem)]
    | false =>
      rw [if_neg fun hc => absurd hc.1 Bool.false_ne_true,
        if_neg fun hc => absurd hc.1 Bool.false_ne_true]
      by_cases hs : a.segment = m.reclaimed.segment
      · rw [hs, h.phase.newSlot_eq hr, Contents.set_of_ne (hne hs)]
      · refine Contents.set_of_ne_slot (fun he => hs ?_) _
        rw [← h.phase.newSlot_eq hr] at he
        exact h.phase.slot_inj hmem hcur he

end Write

end NandFs
