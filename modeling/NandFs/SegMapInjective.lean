import NandFs.Format
import NandFs.SegMapSteps

/-! # The segment map is injective

The states a sequencing layer goes through from formatting on, and what the phase of the
segment map says of each of them: no two segments share a slot.
-/
namespace NandFs

open Program

section Runs
variable [Config]

/-- The states reached by the operations of the layer that return, from a chip that was
erased and formatted; the layer above has any checkpoint data at each step.  Wear leveling
assumes that segments are being reclaimed. -/
inductive Reachable : World → Prop
  | format {w t : World} {data data' : Nat → UInt8} {nBytes : Nat} {pending : Bool}
      (erased : AllPages (· = initBuf) w)
      (run : sequencingBooting data nBytes (checkpointWriter data nBytes) w
        = .ok (0, data', pending) t) : Reachable t
  | allocAndWriteBlock {w t : World} {r : AllocResult} {logAddr prev : LogAddr} {page : Page}
      {onlyVOTs : Bool} {isCommit : IsCommit} {data : Nat → UInt8} {nBytes : Nat}
      (h : Reachable w)
      (run : NandFs.allocAndWriteBlock logAddr page onlyVOTs prev (checkpointWriter data nBytes)
        isCommit w = .ok r t) : Reachable t
  | commit {w t : World} {res : Nat} {data : Nat → UInt8} {nBytes : Nat} {isPartOfHeader : Bool}
      (h : Reachable w)
      (run : NandFs.commit (checkpointWriter data nBytes) data nBytes isPartOfHeader w
        = .ok res t) : Reachable t
  | markAsObsolete {w t : World} {res : Nat} {b : LogAddr} {isAfterReboot : Bool}
      (h : Reachable w) (run : NandFs.markAsObsolete b isAfterReboot w = .ok res t) : Reachable t
  | readBlock {w t : World} {block : Option Block} {b : LogAddr}
      (h : Reachable w) (run : NandFs.readBlock b w = .ok block t) : Reachable t
  | performWearLeveling {w t : World} {res : Nat} (h : Reachable w)
      (reclaiming : w.segMap.isStateReclamation = true)
      (run : NandFs.performWearLeveling w = .ok res t) : Reachable t

theorem frame_checkpointWriter (data : Nat → UInt8) (nBytes : Nat) :
    Frame World.mapping (checkpointWriter data nBytes true) :=
  frame_commit_header _ _ _

/-- The phase of the segment map is an invariant of every run. -/
theorem Reachable.phase {w : World} (h : Reachable w) : w.mapping.Phase := by
  induction h with
  | format erased run =>
    exact .inl (of_wp_ok (sequencingBooting_erased _ _ (frame_checkpointWriter _ _) erased) run rfl)
  | allocAndWriteBlock _ run ih =>
    exact (preserves_allocAndWriteBlock (frame_checkpointWriter _ _) _ _ _ _ _).ok ih run
  | commit _ run ih => exact (preserves_commit (frame_checkpointWriter _ _) _ _ _).ok ih run
  | markAsObsolete _ run ih =>
    exact ((frame_mapping (frame_markAsObsolete _ _)).preserves Mapping.Phase).ok ih run
  | readBlock _ run ih => exact ((frame_readBlock _).preserves Mapping.Phase).ok ih run
  | performWearLeveling _ hrec run ih =>
    rcases ih with hgrow | ih
    · rw [hgrow.not_reclamation] at hrec
      exact absurd hrec Bool.false_ne_true
    · exact .inr (preserves_performWearLeveling.ok ih run)

/-- Segments that exist have slots of the chip, different ones, and the new slot is that of
the current segment or, in reclamation, a slot of the chip that no segment has. -/
theorem segToSlot_injective {w : World} (h : Reachable w) :
    (∀ seg ∈ w.mapping.existing, w.segMap.segToSlot seg < nSlots) ∧
    (∀ seg ∈ w.mapping.existing, ∀ seg' ∈ w.mapping.existing,
      w.segMap.segToSlot seg = w.segMap.segToSlot seg' → seg = seg') ∧
    (w.segMap.newSlotId = w.segMap.segToSlot w.segMap.reclaimed.segment ∨
      w.segMap.isStateReclamation = true ∧ w.segMap.newSlotId < nSlots ∧
        ∀ seg ∈ w.mapping.existing, w.segMap.segToSlot seg ≠ w.segMap.newSlotId) := by
  rcases h.phase with hgrow | hrec
  · refine ⟨fun seg hseg => ?_, fun seg hseg seg' hseg' he => ?_, .inl hgrow.newSlot_eq⟩
    · have hid : w.segMap.segToSlot seg = seg := hgrow.identity seg hseg
      rw [hid]
      exact Mapping.lt_of_mem_existing hgrow.le hseg
    · have hid : w.segMap.segToSlot seg = seg := hgrow.identity seg hseg
      have hid' : w.segMap.segToSlot seg' = seg' := hgrow.identity seg' hseg'
      rw [← hid, he, hid']
  · exact ⟨fun seg hseg => Finset.mem_range.mp (hrec.assigned.mapsTo seg hseg),
      fun seg hseg seg' hseg' he => hrec.assigned.injOn hseg hseg' he,
      .inr ⟨hrec.reclamation, Finset.mem_range.mp hrec.assigned.free_mem, hrec.assigned.unused⟩⟩

end Runs

section TinyPage
attribute [local instance] tinyPage

/-- The same block is written `n` times. -/
def writeTimes : Nat → SeqM Unit
  | 0 => pure ()
  | n + 1 => do
    let _ ← allocAndWriteBlock LogAddr.empty initBuf false LogAddr.empty
      (checkpointWriter (fun _ => 0) 0) .not
    writeTimes n

theorem Reachable.writeTimes {n : Nat} {w t : World} {u : Unit} (h : Reachable w)
    (run : NandFs.writeTimes n w = .ok u t) : Reachable t := by
  induction n generalizing w with
  | zero =>
    cases run
    exact h
  | succ n ih =>
    obtain ⟨r, v, hwrite, hrest⟩ := exists_of_bind run
    exact ih (.allocAndWriteBlock h hwrite) hrest

/-- The first erase unit of slot 1 is bad.  All segments are written and a page of segment 1 and of
segment 2 are marked.  Segment 1 is reclaimed and filled, wear leveling moves segment 0 to the slot
that it leaves, and segment 2 is reclaimed next. -/
theorem segToSlot_injective_tinyPage : ∃ w : World, Reachable w ∧
    (List.range nSlots).map w.segMap.segToSlot = [1, 5, 2, 3, 4, 0, 6, 7] ∧
    (w.segMap.reclaimed.segment = 2 ∧ w.segMap.newSlotId = 0) ∧
    (∀ seg ∈ w.mapping.existing, w.segMap.segToSlot seg < nSlots) ∧
    (∀ seg ∈ w.mapping.existing, ∀ seg' ∈ w.mapping.existing,
      w.segMap.segToSlot seg = w.segMap.segToSlot seg' → seg = seg') ∧
    (w.segMap.newSlotId = w.segMap.segToSlot w.segMap.reclaimed.segment ∨
      w.segMap.isStateReclamation = true ∧ w.segMap.newSlotId < nSlots ∧
        ∀ seg ∈ w.mapping.existing, w.segMap.segToSlot seg ≠ w.segMap.newSlotId) := by
  have hcheck : okAnd (sequencingBooting (fun _ => 0) 0 (checkpointWriter (fun _ => 0) 0))
      (seededWorld (· == 2)) (fun r w => decide (r.1 = 0) && okAnd (writeTimes 24) w fun _ w =>
        okAnd (markAsObsolete ⟨1, 7⟩ false) w fun _ w =>
        okAnd (markAsObsolete ⟨2, 7⟩ false) w fun _ w => okAnd (writeTimes 2) w fun _ w =>
          decide ((List.range nSlots).map w.segMap.segToSlot = [1, 5, 2, 3, 4, 0, 6, 7] ∧
            w.segMap.reclaimed.segment = 2 ∧ w.segMap.newSlotId = 0)) = true := by
    decide +kernel
  obtain ⟨⟨res, data, pending⟩, formatted, hboot, hcheck⟩ := exists_of_okAnd hcheck
  obtain ⟨hres, hcheck⟩ := (Bool.and_eq_true _ _).mp hcheck
  obtain rfl : res = 0 := of_decide_eq_true hres
  obtain ⟨_, full, hfull, hcheck⟩ := exists_of_okAnd hcheck
  obtain ⟨_, marked, hmarked, hcheck⟩ := exists_of_okAnd hcheck
  obtain ⟨_, twice, htwice, hcheck⟩ := exists_of_okAnd hcheck
  obtain ⟨_, w, hw, hcheck⟩ := exists_of_okAnd hcheck
  obtain ⟨hmap, hsegment, hslot⟩ := of_decide_eq_true hcheck
  have hformatted : Reachable formatted := .format (fun _ => rfl) hboot
  have htwice : Reachable twice :=
    .markAsObsolete (.markAsObsolete (hformatted.writeTimes hfull) hmarked) htwice
  have hreach : Reachable w := htwice.writeTimes hw
  exact ⟨w, hreach, hmap, ⟨hsegment, hslot⟩, segToSlot_injective hreach⟩

end TinyPage

end NandFs
