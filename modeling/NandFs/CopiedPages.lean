import NandFs.SlotContents
import NandFs.WearRuns

/-! # The pages that reclamation copies

`findNextFreePage` passes `copyValidBlock` the address of the source page if that lies in a
reserve erase unit and zero if it does not, and zero is an address like any other there: it is
not `SEQ_PHY_ADDRESS_EMPTY`.  A copy to a reserve erase unit gets its flag from `writeBlock`
afterwards; a copy to a regular one keeps what `copyValidBlock` set.
-/
namespace NandFs

open Program Config

section Copies
variable [Config]

/-- In `findNextFreePage`, from the state `s` at the start of a turn of its loop, the live page at
`phyAddr` is about to be copied to `targetPhyAddr` in the state `w`. -/
structure CopiesAt (s w : World) (targetPhyAddr phyAddr : Nat) : Prop where
  inside : s.segMap.isPageOffsetOverflowing = false
  placed : placePage s = .ok (0, targetPhyAddr) w
  reclaims : w.segMap.isStateReclamation = true
  found : logicalAddressToPhysical w.segMap.reclaimed w = .ok phyAddr w
  live : isPageToCopy phyAddr w = .ok true w

/-- What `findNextFreePage` passes as the original physical address. -/
def SegMap.orgPhyAddr (m : SegMap) (phyAddr : Nat) : Nat :=
  if m.isAddressReserve phyAddr then phyAddr else 0

/-- Where `writeBlock` programs what is meant for `phyAddr`. -/
def SegMap.landing (m : SegMap) (phyAddr : Nat) : Nat :=
  if m.isEuReserve then m.reserveEuAddr + calcOffsetInEu phyAddr else phyAddr

/-- The flag for a page at the head of the new slot: none in a regular erase unit, in a reserve
one the place of the erase unit of the slot that it replaces. -/
def SegMap.placeFlag (m : SegMap) : Nat :=
  if m.isEuReserve then
    calculateSlotIdAndEuOffset (calcAddress m.newSlotId (m.reclaimed.offset / pagesPerEu) 0) % 2 ^ 24
  else noSlotAndEuOffset

/-- The copy has the data of the source, its PREV address and its type, and the flag of its own
place. -/
structure CopiedRight (m : SegMap) (source copy : Page) : Prop where
  main : copy.main = source.main
  prev : copy.flags.prev = source.flags.prev
  vots : copy.flags.vots = source.flags.vots
  checkpoint : copy.flags.checkpoint = source.flags.checkpoint
  slotEuOffset : copy.flags.slotEuOffset = m.placeFlag

section Steps
variable {s w : World} {targetPhyAddr phyAddr : Nat}

/-- The loop goes on with the copy. -/
theorem CopiesAt.nextFreeInSegment (h : CopiesAt s w targetPhyAddr phyAddr)
    (okErrorCode n : Nat) : NandFs.nextFreeInSegment okErrorCode (n + 1) s = (do
      if (← copyValidBlock targetPhyAddr (w.segMap.orgPhyAddr phyAddr)) ≠ 0 then pure (some 1)
      else do
        modifySegMap SegMap.incrementReclaimedOffset
        NandFs.nextFreeInSegment okErrorCode n : SeqM (Option Nat)) w := by
  have hmap : ∀ v : World, getSegMap v = .ok v.segMap v := fun _ => rfl
  rw [NandFs.nextFreeInSegment, bind_ok (hmap s), h.inside, if_neg Bool.false_ne_true,
    bind_ok h.placed]
  dsimp only
  rw [if_neg (not_not_intro rfl), bind_ok (hmap w), h.reclaims, Bool.not_true,
    if_neg Bool.false_ne_true, bind_ok h.found, bind_ok h.live, if_pos rfl]
  rfl

/-- A program that succeeds leaves the page, but for its obsolete byte. -/
theorem wp_programmed (page : Page) (a : Nat) : wp (nandProgramTotalPage page a)
    (fun res t => res = 0 → ∃ obsolete, t.flash.page a =
      { page with flags := { page.flags with obsolete := obsolete } }) (fun _ _ => True) s := by
  have hpage : ∀ total, wp (seqVerify (nandProgramPageA page a total) (pure 0))
      (fun res t => res = 0 → ∃ obsolete, t.flash.page a =
        { page with flags := { page.flags with obsolete := obsolete } }) (fun _ _ => True) s := by
    intro total
    refine wp_seqVerify ?_
    unfold nandProgramPageA
    rw [wp_bind]
    refine wp_getFp (fun _ => ?_) trivial
    refine wp_ite (fun _ => fun h => absurd h Nat.one_ne_zero) fun _ => ?_
    rw [wp_bind, wp_get, wp_bind]
    refine wp_assert (fun _ => ?_) trivial
    rw [wp_bind]
    refine wp_spendPower (fun _ => ?_) fun _ => trivial
    intro _
    exact ⟨_, Function.update_self _ _ _⟩
  unfold nandProgramTotalPage
  exact wp_ite (fun _ => hpage true) fun _ => hpage false

/-- The copy as it lands. -/
theorem wp_copied (hfound : logicalAddressToPhysical w.segMap.reclaimed w = .ok phyAddr w)
    (orgPhyAddr : Nat) : wp (copyValidBlock targetPhyAddr orgPhyAddr)
    (fun res t => res = 0 → phyAddr < pageCount ∧ ∃ obsolete,
      t.flash.page (w.segMap.landing targetPhyAddr) = { w.flash.page phyAddr with
        flags := { (w.flash.page phyAddr).flags with
          copied := true
          segType := if w.segMap.isEuReserve then .reserve else .used
          slotEuOffset :=
            if w.segMap.isEuReserve then
              calculateSlotIdAndEuOffset
                (calcAddress w.segMap.newSlotId 0 w.segMap.reclaimed.offset) % 2 ^ 24
            else if orgPhyAddr ≠ phyAddressEmpty then
              calculateSlotIdAndEuOffset orgPhyAddr % 2 ^ 24
            else noSlotAndEuOffset % 2 ^ 24
          obsolete := obsolete } }) (fun _ _ => True) w := by
  unfold copyValidBlock
  rw [wp_bind, wp_getSegMap, wp_bind, wp_ok_iff hfound, wp_bind]
  refine wp_nandReadPageTotal (fun hlt => ?_) (fun _ h => absurd h Nat.one_ne_zero) trivial
  unfold writeBlock
  dsimp only
  rw [wp_bind, wp_bind, wp_getSegMap, wp_bind]
  refine wp_mono (wp_programmed _ _) (fun res t ht => ?_) fun _ _ _ => trivial
  refine wp_ite (fun _ h => absurd h Nat.one_ne_zero) fun hres _ => ⟨hlt, ?_⟩
  obtain ⟨obsolete, hpage⟩ := ht (not_not.mp hres)
  refine ⟨obsolete, ?_⟩
  unfold SegMap.landing
  rw [hpage]
  by_cases hr : w.segMap.isEuReserve = true
  · rw [if_pos hr, if_pos hr, if_pos hr]
    rfl
  · rw [if_neg hr, if_neg hr, if_neg hr]
    by_cases horg : orgPhyAddr ≠ phyAddressEmpty
    · rw [if_pos horg, if_pos horg]
      rfl
    · rw [if_neg horg, if_neg horg]
      rfl

theorem calcEuOffset_calcAddress {slot eu off : Nat} (h : eu * pagesPerEu + off < pagesPerSlot) :
    calcEuOffset (calcAddress slot eu off) = (eu * pagesPerEu + off) / pagesPerEu := by
  unfold calcEuOffset calcOffsetInSlot
  rw [calcAddress_eq, Nat.mul_add_mod_self_right, Nat.mod_eq_of_lt h]

/-- The place of a page is that of its erase unit. -/
theorem place_page {slot off : Nat} (h : off < pagesPerSlot) :
    calculateSlotIdAndEuOffset (calcAddress slot 0 off) =
      calculateSlotIdAndEuOffset (calcAddress slot (off / pagesPerEu) 0) := by
  have hle := Nat.div_mul_le_self off pagesPerEu
  have hpage : 0 * pagesPerEu + off < pagesPerSlot := by rwa [Nat.zero_mul, Nat.zero_add]
  have heu : off / pagesPerEu * pagesPerEu + 0 < pagesPerSlot := by omega
  unfold calculateSlotIdAndEuOffset
  rw [getSlot_calcAddress hpage, getSlot_calcAddress heu, calcEuOffset_calcAddress hpage,
    calcEuOffset_calcAddress heu, Nat.zero_mul, Nat.zero_add, Nat.add_zero,
    Nat.mul_div_cancel _ pagesPerEu_pos]

theorem frame_reclaimed_placePage : Frame (fun w : World => w.segMap.reclaimed) placePage := by
  have hmodify : ∀ {f : SegMap → SegMap}, (∀ m, (f m).reclaimed = m.reclaimed) →
      Frame (fun w : World => w.segMap.reclaimed) (modifySegMap f) :=
    fun h => frame_modify fun w => h w.segMap
  refine frame_bind frame_getSegMap fun _ => frame_ite ?_
    (frame_bind frame_calcTargetPhyAddr fun _ => frame_pure _)
  refine frame_bind (hmodify fun _ => rfl) fun _ =>
    frame_bind frame_calcTargetPhyAddr fun _ => frame_bind (frame_nandCheckEuStatus _) fun _ => ?_
  refine frame_ite (frame_pure _) (frame_bind (frame_allocReserveEU _) fun _ => ?_)
  refine frame_bind (hmodify fun _ => rfl) fun _ => frame_ite (frame_pure _) ?_
  exact frame_bind (hmodify fun _ => rfl) fun _ => frame_pure _

theorem CopiesAt.offset_lt (h : CopiesAt s w targetPhyAddr phyAddr) :
    w.segMap.reclaimed.offset < pagesPerSlot := by
  have hsame : w.segMap.reclaimed = s.segMap.reclaimed := frame_reclaimed_placePage.ok h.placed
  have hinside := (Bool.or_eq_false_iff.mp h.inside).1
  rw [hsame]
  exact Nat.lt_of_not_le (of_decide_eq_false hinside)

/-- A copy carries the right flag if and only if it lands in a reserve erase unit; everything else
it carries over. -/
theorem copiedRight_iff (h : CopiesAt s w targetPhyAddr phyAddr) {t : World}
    (hrun : copyValidBlock targetPhyAddr (w.segMap.orgPhyAddr phyAddr) w = .ok 0 t) :
    CopiedRight w.segMap (w.flash.page phyAddr)
      (t.flash.page (w.segMap.landing targetPhyAddr)) ↔ w.segMap.isEuReserve = true := by
  obtain ⟨hlt, obsolete, hcopy⟩ := of_wp_ok (wp_copied h.found (w.segMap.orgPhyAddr phyAddr)) hrun rfl
  rw [hcopy]
  by_cases hr : w.segMap.isEuReserve = true
  · refine iff_of_true ⟨rfl, rfl, rfl, rfl, ?_⟩ hr
    unfold SegMap.placeFlag
    dsimp only
    rw [if_pos hr, if_pos hr, place_page h.offset_lt]
  · refine iff_of_false (fun hright => ?_) hr
    have hflag := hright.slotEuOffset
    unfold SegMap.placeFlag at hflag
    dsimp only at hflag
    have horg : w.segMap.orgPhyAddr phyAddr < pageCount := by
      unfold SegMap.orgPhyAddr
      by_cases ha : w.segMap.isAddressReserve phyAddr = true
      · rwa [if_pos ha]
      · rw [if_neg ha]
        exact Nat.two_pow_pos _
    have hplace := calculateSlotIdAndEuOffset_lt horg
    have hne := ne_empty_of_lt horg
    rw [if_neg hr, if_neg hr, if_pos hne, Nat.mod_eq_of_lt (by omega)] at hflag
    exact place_ne_empty hplace hflag

/-! ## A copy to evaluate -/

theorem isPageToCopy_run (hlt : phyAddr < pageCount)
    (hobsolete : (w.flash.page phyAddr).flags.obsolete = false)
    (hcheckpoint : (w.flash.page phyAddr).flags.checkpoint = .notPart) :
    isPageToCopy phyAddr w = .ok true w := by
  unfold isPageToCopy
  rw [bind_ok (nandReadPageFlags_run hlt), hobsolete, if_neg Bool.false_ne_true, hcheckpoint,
    if_neg (not_not_intro rfl)]
  rfl

/-- The copy of one turn of the loop: the state before it, its target and source, and the state
after it. -/
def copyTurn (s : World) : Option (World × Nat × Nat × World) :=
  match placePage s with
  | .ok (0, targetPhyAddr) w =>
    match logicalAddressToPhysical w.segMap.reclaimed w with
    | .ok phyAddr _ =>
      match copyValidBlock targetPhyAddr (w.segMap.orgPhyAddr phyAddr) w with
      | .ok 0 t =>
        let flags := (w.flash.page phyAddr).flags
        if !s.segMap.isPageOffsetOverflowing && w.segMap.isStateReclamation &&
            decide (phyAddr < pageCount) && !flags.obsolete && flags.checkpoint == .notPart then
          some (w, targetPhyAddr, phyAddr, t)
        else none
      | _ => none
    | _ => none
  | _ => none

theorem copyTurn_spec {t : World} (h : copyTurn s = some (w, targetPhyAddr, phyAddr, t)) :
    CopiesAt s w targetPhyAddr phyAddr ∧
      copyValidBlock targetPhyAddr (w.segMap.orgPhyAddr phyAddr) w = .ok 0 t := by
  unfold copyTurn at h
  split at h <;> try exact absurd h (Option.some_ne_none _).symm
  rename_i target' w' hplaced
  split at h <;> try exact absurd h (Option.some_ne_none _).symm
  rename_i phy' u hfound
  split at h <;> try exact absurd h (Option.some_ne_none _).symm
  rename_i t' hcopy
  dsimp only at h
  split at h <;> try exact absurd h (Option.some_ne_none _).symm
  rename_i htests
  cases Option.some.inj h
  have hsame : Frame id (logicalAddressToPhysical w.segMap.reclaimed) :=
    frame_logicalAddressToPhysical _
  obtain rfl : u = w := hsame.ok hfound
  simp only [Bool.and_eq_true, Bool.not_eq_true', decide_eq_true_eq, beq_iff_eq] at htests
  obtain ⟨⟨⟨⟨hinside, hreclaims⟩, hlt⟩, hobsolete⟩, hcheckpoint⟩ := htests
  exact ⟨⟨hinside, hplaced, hreclaims, hfound, isPageToCopy_run hlt hobsolete hcheckpoint⟩, hcopy⟩

end Steps

/-- In a run a page is written, and in the state `s` the first turn of the loop of
`findNextFreePage` begins. -/
inductive TurnsAt (nBytes : Nat) (s : World) : Prop
  | intro {w v : World} {data : Nat → UInt8} {logAddr prev : LogAddr} {page : Page}
      {onlyVOTs isNew : Bool} {r : AllocResult}
      (run : StoreRun nBytes (StartFits nBytes) (fun _ => False) (fun _ _ _ => True) w)
      (write : allocAndWriteBlock logAddr (allocatedPage page .not) onlyVOTs prev
        (checkpointWriter data nBytes) .last w = .ok r v) (written : r.err = 0)
      (move : moveAtSegmentEnd (checkpointWriter data nBytes) v = .ok (0, isNew) s)

end Copies

section TinyPage
attribute [local instance] tinyPage

/-- What the first turn of the loop copies when one more block is written after the calls. -/
def firstCopy (calls : List LogCall) (badEu : Nat → Bool)
    (test : World → Nat → World → Bool) : Bool :=
  let cpWriter := checkpointWriter (fun _ => 0) 0
  (((LogState.booted 0 (fun _ => 0) (erasedWorld badEu)).map LogState.world).bind
    (World.afterCalls (fun _ _ => true) 0 (fun _ => 0) calls)).any fun w =>
      okAnd (allocAndWriteBlock LogAddr.empty (allocatedPage (tinyBlock 0) .not) false LogAddr.empty
          cpWriter .last) w fun r v =>
        decide (r.err = 0) && okAnd (moveAtSegmentEnd cpWriter) v fun moved s =>
          decide (moved.1 = 0) && (copyTurn s).any fun (w, targetPhyAddr, _, t) =>
            test w targetPhyAddr t

theorem exists_firstCopy {calls : List LogCall} {badEu : Nat → Bool}
    {test : World → Nat → World → Bool} (hcheck : firstCopy calls badEu test = true) :
    ∃ s w t targetPhyAddr phyAddr, TurnsAt 0 s ∧ CopiesAt s w targetPhyAddr phyAddr ∧
      copyValidBlock targetPhyAddr (w.segMap.orgPhyAddr phyAddr) w = .ok 0 t ∧
        test w targetPhyAddr t = true := by
  obtain ⟨w, hw, hcheck⟩ := (Option.any_eq_true _ _).mp hcheck
  obtain ⟨u, hu, hw⟩ := Option.bind_eq_some_iff.mp hw
  obtain ⟨b, hb, rfl⟩ := Option.map_eq_some_iff.mp hu
  obtain ⟨r, v, hwrite, hcheck⟩ := exists_of_okAnd hcheck
  obtain ⟨herr, hcheck⟩ := (Bool.and_eq_true _ _).mp hcheck
  obtain ⟨⟨res, isNew⟩, s, hmove, hcheck⟩ := exists_of_okAnd hcheck
  obtain ⟨hres, hcheck⟩ := (Bool.and_eq_true _ _).mp hcheck
  obtain rfl : res = 0 := of_decide_eq_true hres
  obtain ⟨⟨w', target, phy, t⟩, hturn, htest⟩ := (Option.any_eq_true _ _).mp hcheck
  obtain ⟨hcopies, hrun⟩ := copyTurn_spec hturn
  have hfits : StartFits 0 (erasedWorld badEu).flash := by
    refine ⟨by decide, fun e hpos hlt => ?_⟩
    have hlt : e * 4 < 3 := hlt
    omega
  have hstore : StoreRun 0 (StartFits 0) (fun _ => False) (fun _ _ _ => True) w :=
    .afterCalls (fun _ _ _ => trivial) (.booted (fun _ => ⟨rfl, rfl⟩) hfits hb) hw
  exact ⟨s, w', t, target, phy, .intro hstore hwrite (of_decide_eq_true herr) hmove, hcopies, hrun,
    htest⟩

/-- The last segment is filled and segment 1 is reclaimed, whose first page is marked.  The second
erase unit of its new slot is bad, and a page is copied for it. -/
theorem copiedRight_tinyPage : ∃ s w t : World, ∃ targetPhyAddr phyAddr : Nat, TurnsAt 0 s ∧
    CopiesAt s w targetPhyAddr phyAddr ∧ CopiedRight w.segMap (w.flash.page phyAddr)
      (t.flash.page (w.segMap.landing targetPhyAddr)) := by
  have hcheck : firstCopy ((List.range 24).map writeTiny ++ [.markAsObsolete ⟨1, 3⟩ false,
      writeTiny 24]) (· == 11) (fun w _ _ => w.segMap.isEuReserve) = true := by
    decide +kernel
  obtain ⟨s, w, t, target, phy, hturns, hcopies, hrun, hreserve⟩ := exists_firstCopy hcheck
  exact ⟨s, w, t, target, phy, hturns, hcopies, (copiedRight_iff hcopies hrun).mpr hreserve⟩

/-- No erase unit is bad, and the first page of segment 1 is live.  Its copy says that it replaces
the first erase unit of slot 0. -/
theorem copiedRight_fails : ¬∀ (s w t : World) (targetPhyAddr phyAddr : Nat), TurnsAt 0 s →
    CopiesAt s w targetPhyAddr phyAddr →
      copyValidBlock targetPhyAddr (w.segMap.orgPhyAddr phyAddr) w = .ok 0 t →
        CopiedRight w.segMap (w.flash.page phyAddr)
          (t.flash.page (w.segMap.landing targetPhyAddr)) := by
  intro h
  have hcheck : firstCopy ((List.range 24).map writeTiny ++ [.markAsObsolete ⟨1, 7⟩ false])
      (fun _ => false) (fun w target t =>
        (t.flash.page (w.segMap.landing target)).flags.slotEuOffset != w.segMap.placeFlag) =
          true := by
    decide +kernel
  obtain ⟨s, w, t, target, phy, hturns, hcopies, hrun, hflag⟩ := exists_firstCopy hcheck
  exact bne_iff_ne.mp hflag (h s w t target phy hturns hcopies hrun).slotEuOffset

end TinyPage

end NandFs
