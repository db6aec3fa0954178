import NandFs.ChipSteps
import NandFs.VoteReplay

/-! # Each obsolete byte is programmed once

The driver asserts, before it programs the spare area of a page, that it was not programmed since
the last erase.  Marking reads the obsolete byte first, so it comes to the assertion only at a page
that is not marked: on a chip that was erased once, whatever calls of the layer were made since,
and wherever they halted, the spare area of such a page is as the erase left it.
-/
namespace NandFs

open Program Config

section Runs
variable [Config]

/-! ## The runs -/

/-- A call of the sequencing layer, for any data of the layer above. -/
inductive SeqCall
  | sequencingBooting (data : Nat → UInt8) (nBytes : Nat)
  | allocAndWriteBlock (logAddr : LogAddr) (page : Page) (onlyVOTs : Bool) (prev : LogAddr)
      (isCommit : IsCommit) (data : Nat → UInt8) (nBytes : Nat)
  | commit (data : Nat → UInt8) (nBytes : Nat) (isPartOfHeader : Bool)
  | findNextFreePage (okErrorCode : Nat) (data : Nat → UInt8) (nBytes : Nat)
  | performWearLeveling
  | markAsObsolete (b : LogAddr) (isAfterReboot : Bool)
  | readBlock (b : LogAddr)

def SeqCall.exec : SeqCall → SeqM Unit
  | .sequencingBooting data nBytes => do
    let _ ← NandFs.sequencingBooting data nBytes (checkpointWriter data nBytes)
  | .allocAndWriteBlock logAddr page onlyVOTs prev isCommit data nBytes => do
    let _ ← NandFs.allocAndWriteBlock logAddr page onlyVOTs prev (checkpointWriter data nBytes)
      isCommit
  | .commit data nBytes isPartOfHeader => do
    let _ ← NandFs.commit (checkpointWriter data nBytes) data nBytes isPartOfHeader
  | .findNextFreePage okErrorCode data nBytes => do
    let _ ← NandFs.findNextFreePage (checkpointWriter data nBytes) okErrorCode
  | .performWearLeveling => do
    let _ ← NandFs.performWearLeveling
  | .markAsObsolete b isAfterReboot => do
    let _ ← NandFs.markAsObsolete b isAfterReboot
  | .readBlock b => do
    let _ ← NandFs.readBlock b

/-- What is reached from an erased chip, whatever is in memory, by calls that return or halt.  A
restart leaves the chip, and any power. -/
inductive ChipRun : World → Prop
  | erased {w : World} (h : ∀ a, w.flash.spareWrites a = false) : ChipRun w
  | returned {w t : World} {call : SeqCall} (h : ChipRun w) (run : call.exec w = .ok () t) :
      ChipRun t
  | halted {w t : World} {call : SeqCall} {e : Halt} (h : ChipRun w)
      (run : call.exec w = .error e t) : ChipRun t
  | restart {w t : World} (h : ChipRun w) (power : Option Nat)
      (same : t.flash = { w.flash with power := power }) : ChipRun t

section Invariant
variable {I : Flash → Prop} (hI : ChipInvariant I)
include hI

theorem SeqCall.keeps (call : SeqCall) : KeepsChip I call.exec := by
  cases call with
  | sequencingBooting data nBytes =>
    exact preserves_bind (keeps_sequencingBooting hI (keeps_checkpointWriter hI _ _) _ _) fun _ =>
      preserves_pure _
  | allocAndWriteBlock logAddr page onlyVOTs prev isCommit data nBytes =>
    exact preserves_bind
      (keeps_allocAndWriteBlock hI (keeps_checkpointWriter hI _ _) _ _ _ _ _) fun _ =>
      preserves_pure _
  | commit data nBytes isPartOfHeader =>
    exact preserves_bind (keeps_commit hI (keeps_checkpointWriter hI _ _) _ _ _) fun _ =>
      preserves_pure _
  | findNextFreePage okErrorCode data nBytes =>
    exact preserves_bind (keeps_findNextFreePage hI (keeps_checkpointWriter hI _ _) _) fun _ =>
      preserves_pure _
  | performWearLeveling =>
    exact preserves_bind (keeps_performWearLeveling hI) fun _ => preserves_pure _
  | markAsObsolete b isAfterReboot =>
    exact preserves_bind (keeps_markAsObsolete hI _ _) fun _ => preserves_pure _
  | readBlock b => exact preserves_bind (keeps_reads (frame_readBlock b)) fun _ => preserves_pure _

/-- What holds of an erased chip and is kept by its operations holds in every run. -/
theorem ChipRun.invariant {w : World} (h : ChipRun w)
    (hstart : ∀ f : Flash, (∀ a, f.spareWrites a = false) → I f) : I w.flash := by
  induction h with
  | erased h => exact hstart _ h
  | returned _ run ih => exact (SeqCall.keeps hI _).ok ih run
  | halted _ run ih => exact of_wp_error (SeqCall.keeps hI _ _ ih) run
  | restart _ power same ih =>
    rw [same]
    exact hI _ _ (.spend power) ih

end Invariant

/-! ## The spare areas -/

/-- A spare area programmed since the last erase is that of an obsolete page, or has the bad-block
byte of its erase unit. -/
def Flash.SpareMarked (f : Flash) : Prop := ∀ a, f.spareWrites a = true →
  (f.page a).flags.obsolete = true ∨ f.good a = false

section Spare
variable {f : Flash} (h : f.SpareMarked)
include h

theorem Flash.SpareMarked.program (page : Page) (a : Nat) :
    (f.program page a page.flags.obsolete).SpareMarked := by
  intro b hb
  by_cases hba : b = a
  · subst hba
    have hwrites : (Function.update f.spareWrites b (f.spareWrites b || page.flags.obsolete)) b
        = true := hb
    rw [Function.update_self] at hwrites
    have hpage : ((f.program page b page.flags.obsolete).page b).flags.obsolete =
        if page.flags.obsolete then page.flags.obsolete else (f.page b).flags.obsolete := by
      show (Function.update f.page b _ b).flags.obsolete = _
      rw [Function.update_self]
    rw [hpage]
    by_cases hobs : page.flags.obsolete = true
    · rw [if_pos hobs]
      exact .inl hobs
    · rw [if_neg hobs]
      rw [Bool.eq_false_of_not_eq_true hobs, Bool.or_false] at hwrites
      exact h b hwrites
  · have hwrites : Function.update f.spareWrites a _ b = true := hb
    rw [Function.update_of_ne hba] at hwrites
    have hpage : (f.program page a page.flags.obsolete).page b = f.page b :=
      Function.update_of_ne hba _ _
    rw [hpage]
    exact h b hwrites

theorem Flash.SpareMarked.programObsolete (a : Nat) : (f.programObsolete a).SpareMarked := by
  intro b hb
  by_cases hba : b = a
  · subst hba
    left
    show (Function.update f.page b _ b).flags.obsolete = true
    rw [Function.update_self]
  · have hwrites : Function.update f.spareWrites a true b = true := hb
    rw [Function.update_of_ne hba] at hwrites
    have hpage : (f.programObsolete a).page b = f.page b := Function.update_of_ne hba _ _
    rw [hpage]
    exact h b hwrites

theorem Flash.SpareMarked.erase (eu : Nat) : (f.erase eu).SpareMarked := by
  intro b hb
  have hwrites : (if calcEuStart b = eu then false else f.spareWrites b) = true := hb
  by_cases heu : calcEuStart b = eu
  · rw [if_pos heu] at hwrites
    exact absurd hwrites Bool.false_ne_true
  · rw [if_neg heu] at hwrites
    have hpage : (f.erase eu).page b = f.page b := if_neg heu
    rw [hpage]
    exact h b hwrites

theorem Flash.SpareMarked.programBadByte (eu : Nat) : (f.programBadByte eu).SpareMarked := by
  intro b hb
  have hbad : (f.programBadByte eu).good b = !(if b / pagesPerEu = eu / pagesPerEu then true
      else f.badEu (b / pagesPerEu)) := by
    show (!Function.update f.badEu (eu / pagesPerEu) true (b / pagesPerEu)) = _
    rw [Function.update_apply]
  rw [hbad]
  by_cases heu : b / pagesPerEu = eu / pagesPerEu
  · rw [if_pos heu]
    exact .inr rfl
  · rw [if_neg heu]
    have hne : b ≠ eu := fun hbe => heu (by rw [hbe])
    have hwrites : Function.update f.spareWrites eu true b = true := hb
    rw [Function.update_of_ne hne] at hwrites
    exact h b hwrites

end Spare

theorem spareMarked_invariant : ChipInvariant Flash.SpareMarked := by
  intro f g hstep h
  cases hstep with
  | spend power => exact h
  | program page a fresh => exact h.program page a
  | obsolete a fresh => exact h.programObsolete a
  | erase a good => exact h.erase _
  | bad a fresh => exact h.programBadByte _

theorem ChipRun.spareMarked {w : World} (h : ChipRun w) : w.flash.SpareMarked :=
  h.invariant spareMarked_invariant fun _ hstart a ha => by
    rw [hstart a] at ha
    exact absurd ha Bool.false_ne_true

/-! ## What an address is translated to -/

section Translated
variable {w : World} {b : LogAddr} {phy : Nat}

theorem SegMap.offset_of_mem_reserveEus (m : SegMap) {euOffset eu : Nat}
    (h : eu ∈ m.reserveEus euOffset) : calcOffsetInEu eu = 0 := by
  obtain ⟨seg, -, hmem⟩ := List.mem_flatMap.mp h
  obtain ⟨k, -, rfl⟩ := List.mem_map.mp hmem
  rw [calcOffsetInEu, calcAddress, pagesPerSlot_eq, Nat.add_zero, ← Nat.mul_assoc, ← Nat.add_mul,
    Nat.mul_mod_left]

theorem findReserveEu_good {expected : Nat} {eus : List Nat} :
    wp (findReserveEu expected eus) (fun found _ => ∀ eu ∈ found, eu ∈ eus ∧ eu < pageCount ∧
      w.flash.good eu = true) (fun _ _ => True) w := by
  induction eus with
  | nil => exact fun _ h => absurd h (Option.not_mem_none _)
  | cons eu eus ih =>
    have hrest : wp (findReserveEu expected eus) (fun found _ => ∀ e ∈ found, e ∈ eu :: eus ∧
        e < pageCount ∧ w.flash.good e = true) (fun _ _ => True) w :=
      wp_mono ih (fun _ _ h e he => ⟨List.mem_cons_of_mem _ (h e he).1, (h e he).2⟩)
        fun _ _ _ => trivial
    unfold findReserveEu
    rw [wp_bind]
    refine wp_nandCheckEuStatus (fun hlt => ?_) trivial
    refine wp_ite (fun hgood => ?_) fun _ => hrest
    rw [wp_bind]
    refine wp_nandReadPageFlags (fun hlt => ?_) trivial
    refine wp_ite (fun _ => ?_) fun _ => hrest
    rintro e he
    obtain rfl := Option.mem_some.mp he
    exact ⟨List.mem_cons_self, hlt, hgood⟩

/-- A translated address is a page of a valid erase unit. -/
theorem logicalAddressToPhysical_good (h : logicalAddressToPhysical b w = .ok phy w)
    (hne : phy ≠ phyAddressEmpty) : phy < pageCount ∧ w.flash.good phy = true := by
  have hwp : wp (logicalAddressToPhysical b) (fun phy _ => phy ≠ phyAddressEmpty →
      phy < pageCount ∧ w.flash.good phy = true) (fun _ _ => True) w := by
    unfold logicalAddressToPhysical
    rw [wp_bind, wp_getSegMap, wp_bind]
    refine wp_assert (fun _ => ?_) trivial
    rw [wp_bind]
    refine wp_assert (fun _ => ?_) trivial
    rw [wp_bind]
    refine wp_nandCheckEuStatus (fun hlt => ?_) trivial
    rw [calcEuStart_lt_iff, calcEuStart_lt_iff] at hlt
    refine wp_ite (fun hgood _ => ⟨hlt, ?_⟩) fun _ => ?_
    · rw [calcEuStart_eq, Nat.mul_div_cancel _ pagesPerEu_pos] at hgood
      exact hgood
    · unfold logicalAddressToReservePhysical
      rw [wp_bind, wp_getSegMap, wp_bind]
      refine wp_mono findReserveEu_good (fun found t hfound => ?_) fun _ _ _ => trivial
      cases found with
      | none => exact fun hne => absurd rfl hne
      | some eu =>
        obtain ⟨hmem, heu, hgood⟩ := hfound eu rfl
        have hisEu : IsEu eu := ⟨w.segMap.offset_of_mem_reserveEus hmem, heu⟩
        have hoff : calcOffsetInEu (w.segMap.expectedPage b) < pagesPerEu :=
          Nat.mod_lt _ pagesPerEu_pos
        refine fun _ => ⟨hisEu.add_lt hoff, ?_⟩
        show (!w.flash.badEu ((eu + _) / pagesPerEu)) = true
        rw [hisEu.div_add hoff]
        exact hgood
  rw [wp_ok_iff h] at hwp
  exact hwp hne

/-- In every run the page of an address that is found can be marked. -/
theorem ChipRun.markable (h : ChipRun w) (found : logicalAddressToPhysical b w = .ok phy w)
    (hne : phy ≠ phyAddressEmpty) : Markable w (b, phy) := by
  obtain ⟨hlt, hgood⟩ := logicalAddressToPhysical_good found hne
  refine ⟨found, hlt, fun hobs => ?_⟩
  by_contra hspare
  rcases h.spareMarked phy (Bool.eq_true_of_not_eq_false hspare) with hmarked | hbad
  · rw [hobs] at hmarked
    exact Bool.false_ne_true hmarked
  · rw [hgood] at hbad
    exact Bool.false_ne_true hbad.symm

/-- In every run, marking an address that is found programs the obsolete byte of its page, if it
is not programmed, and nothing else of the chip; it stops only where the power is lost. -/
theorem markAsObsolete_programsOnce (h : ChipRun w)
    (found : logicalAddressToPhysical b w = .ok phy w) (isAfterReboot : Bool) :
    wp (markAsObsolete b isAfterReboot)
      (fun res t => if phy = phyAddressEmpty then res = 1 ∧ t = w
        else res = 0 ∧ PagesMarked isAfterReboot [phy] w t)
      (fun e t => e = .powerLoss ∧ t = w ∧ w.flash.power ≠ none) w := by
  by_cases hempty : phy = phyAddressEmpty
  · unfold markAsObsolete
    rw [wp_bind, wp_ok_iff found, if_pos hempty, wp_pure, if_pos hempty]
    exact ⟨rfl, rfl⟩
  · refine wp_mono (wp_markAsObsolete_marks isAfterReboot (h.markable found hempty))
      (fun res t hmarked => ?_) fun _ _ hlost => hlost
    rw [if_neg hempty]
    exact hmarked

end Translated

end Runs

section TinyPage
attribute [local instance] tinyPage

/-- The tiny chip, booted until the power is lost after six operations. -/
def cutBoot : World :=
  { erasedWorld (· == 3) with flash := { (erasedWorld (· == 3)).flash with power := some 6 } }

/-- After a boot that was cut off and a second one, marking a page marks it. -/
theorem markAsObsolete_programsOnce_tinyPage : ∃ (w : World) (phy : Nat), ChipRun w ∧
    phy ≠ phyAddressEmpty ∧ wp (markAsObsolete ⟨0, 1⟩ false)
      (fun res t => if phy = phyAddressEmpty then res = 1 ∧ t = w
        else res = 0 ∧ PagesMarked false [phy] w t)
      (fun e t => e = .powerLoss ∧ t = w ∧ w.flash.power ≠ none) w := by
  have hcut : errorAnd (SeqCall.sequencingBooting (fun _ => 0) 0).exec cutBoot (fun _ v =>
      okAnd (SeqCall.sequencingBooting (fun _ => 0) 0).exec
        { v with flash := { v.flash with power := none } } fun _ w =>
          okAnd (logicalAddressToPhysical ⟨0, 1⟩) w fun phy _ => phy != phyAddressEmpty) =
            true := by
    decide +kernel
  obtain ⟨e, v, hhalted, hboot⟩ := exists_of_errorAnd hcut
  obtain ⟨⟨⟩, w, hbooted, hfound⟩ := exists_of_okAnd hboot
  obtain ⟨phy, u, hphy, hne⟩ := exists_of_okAnd hfound
  have hrestart : ChipRun { v with flash := { v.flash with power := none } } :=
    ((ChipRun.erased fun _ => rfl).halted hhalted).restart none rfl
  have hrun : ChipRun w := hrestart.returned hbooted
  obtain rfl : u = w := (frame_logicalAddressToPhysical _ : Frame id _).ok hphy
  have hne : phy ≠ phyAddressEmpty := bne_iff_ne.mp hne
  exact ⟨u, phy, hrun, hne, markAsObsolete_programsOnce hrun hphy false⟩

end TinyPage

end NandFs
