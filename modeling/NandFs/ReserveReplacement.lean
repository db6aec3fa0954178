import NandFs.MediaRuns

/-! # Reserve erase units replace bad ones

A bad erase unit is replaced by the reserve erase unit whose first page names its place.  In a run
that moves reserve slots whole this is a function: the unit that `allocReserveEU` finds is blank and
replaces none, once its first page is written every address of the bad unit is found in it, and no
two bad units share one.  Past a bad erase unit wear leveling of a reserve slot counts pages instead
of erase units, and then programs pages of a unit that `allocReserveEU` still takes for free.
-/
namespace NandFs

open Program

section Runs
variable [Config]

/-- The reserve erase unit `r` can be given to a bad one: it is valid and no page of it was
programmed since it was erased, it holds no header and is not the copy-back unit, and no place is
named by it. -/
structure FreshReserve (w : World) (r : Nat) : Prop where
  mem : w.segMap.IsReserveEu r
  good : w.flash.good r = true
  blank : ∀ i < pagesPerEu, PageHolds w.flash (r + i) none
  notHeader : (w.flash.page r).flags.slotEuOffset ≠ reserveEuIsHeader
  notCopyBack : ∀ cb, getCopybackEu w = .ok cb w → r ≠ cb
  replacesNone : ∀ place < 2 ^ 23, w.flash.standsFor place r = false

/-- The store when the first page of erase unit `eu` of `slot` is about to be written to the reserve
erase unit `r`. -/
def World.replacing (w : World) (slot eu r : Nat) : World :=
  { w with segMap := { w.segMap with
      newSlotId := slot
      reclaimed := ⟨w.segMap.reclaimed.segment, eu * pagesPerEu⟩
      isEuReserve := true
      reserveEuAddr := r } }

/-- Reserve replacement is a function: `allocReserveEU` finds fresh erase units, an erase unit that
is not replaced yet is so by its first page, what is replaced is found page by page, and at a page of
one bad erase unit only. -/
structure ReplacesWell (w : World) : Prop where
  fresh : ∀ slot eu r, w.segMap.IsDataSlot slot → eu < eusPerSlot →
    allocReserveEU (euAt slot eu) w = .ok r w → r ≠ phyAddressEmpty → FreshReserve w r
  replaces : ∀ slot eu r (data : Page), w.segMap.IsDataSlot slot → eu < eusPerSlot →
    w.flash.good (euAt slot eu) = false → (∀ home, ¬IsHome w.flash w.segMap slot eu home) →
    allocReserveEU (euAt slot eu) w = .ok r w → r ≠ phyAddressEmpty → data.flags.copyBack = false →
    wp (writeBlock data r)
      (fun _ t => ∀ i < pagesPerEu,
        logicalAddressToReservePhysical (euAt slot eu + i) t = .ok (r + i) t)
      (fun e _ => e = .powerLoss) (w.replacing slot eu r)
  found : ∀ slot eu home, w.segMap.IsDataSlot slot → eu < eusPerSlot →
    w.flash.good (euAt slot eu) = false → IsHome w.flash w.segMap slot eu home →
    ∀ i < pagesPerEu, logicalAddressToReservePhysical (euAt slot eu + i) w = .ok (home + i) w
  injective : ∀ slot slot' eu eu' i i' phy, w.segMap.IsDataSlot slot → w.segMap.IsDataSlot slot' →
    eu < eusPerSlot → eu' < eusPerSlot → i < pagesPerEu → i' < pagesPerEu →
    w.flash.good (euAt slot eu) = false → w.flash.good (euAt slot' eu') = false →
    logicalAddressToReservePhysical (euAt slot eu + i) w = .ok phy w →
    logicalAddressToReservePhysical (euAt slot' eu' + i') w = .ok phy w → phy ≠ phyAddressEmpty →
    slot = slot' ∧ eu = eu' ∧ i = i'

section Layout
variable {w : World} {c : Contents} {slot eu r : Nat} (h : Layout w.flash w.segMap c)
  (hcb : w.flash.validEuAt (w.segMap.segToSlot firstReserveSegment) 2 ≠ phyAddressEmpty)
include h

/-- A reserve erase unit is found for an address of a bad erase unit where it is its home. -/
theorem Layout.home_of_found (hslot : w.segMap.IsDataSlot slot) (heu : eu < eusPerSlot)
    (hbad : w.flash.good (euAt slot eu) = false) {i phy : Nat} (hi : i < pagesPerEu)
    (hrun : logicalAddressToReservePhysical (euAt slot eu + i) w = .ok phy w)
    (hne : phy ≠ phyAddressEmpty) : ∃ home, IsHome w.flash w.segMap slot eu home ∧ phy = home + i := by
  by_cases hhome : ∃ home, IsHome w.flash w.segMap slot eu home
  · obtain ⟨home, hh⟩ := hhome
    rw [h.reservePhysical_run hslot hbad heu hh hi] at hrun
    exact ⟨home, hh, (EStateM.Result.ok.inj hrun).1.symm⟩
  · have hblank : c.EuBlank slot eu := by
      by_contra hno
      exact hhome ((h.replaced hslot heu hbad).mpr hno)
    rw [h.reservePhysical_run_blank hslot hbad heu hblank hi] at hrun
    exact absurd (EStateM.Result.ok.inj hrun).1.symm hne

include hcb

theorem Layout.freshReserve (hslot : w.segMap.IsDataSlot slot) (heu : eu < eusPerSlot)
    (halloc : allocReserveEU (euAt slot eu) w = .ok r w) (hne : r ≠ phyAddressEmpty) :
    FreshReserve w r := by
  obtain ⟨r', hrun, hr⟩ := allocReserveEU_free h.reserves rfl hcb (isEu_euAt hslot.lt heu)
  obtain rfl : r' = r := (EStateM.Result.ok.inj (hrun.symm.trans halloc)).1
  obtain ⟨mem, hfree⟩ := hr.resolve_left hne
  obtain ⟨hgood, hnecb, hflag⟩ := Flash.freeEu_iff.mp hfree
  refine ⟨mem, hgood, h.free mem ⟨hgood, hflag⟩, ?_, fun cb hcbrun => ?_, fun place hplace => ?_⟩
  · rw [hflag]
    decide
  · rw [getCopybackEu_run h.reserves] at hcbrun
    rw [← (EStateM.Result.ok.inj hcbrun).1]
    exact Ne.symm hnecb
  · rw [← Bool.not_eq_true]
    intro hst
    have hnamed := (Flash.standsFor_iff.mp hst).2.1
    exact place_ne_empty hplace (hnamed.symm.trans hflag)

/-- The first page that is written to the reserve erase unit names the place of the bad one. -/
theorem Layout.writeBlock_replaces (hslot : w.segMap.IsDataSlot slot) (heu : eu < eusPerSlot)
    (hbad : w.flash.good (euAt slot eu) = false) (hnone : ∀ home, ¬IsHome w.flash w.segMap slot eu home)
    (halloc : allocReserveEU (euAt slot eu) w = .ok r w) (hne : r ≠ phyAddressEmpty) {data : Page}
    (hdata : data.flags.copyBack = false) :
    wp (writeBlock data r)
      (fun _ t => ∀ i < pagesPerEu,
        logicalAddressToReservePhysical (euAt slot eu + i) t = .ok (r + i) t)
      (fun e _ => e = .powerLoss) (w.replacing slot eu r) := by
  have hfresh := h.freshReserve hcb hslot heu halloc hne
  have hpos := pagesPerEu_pos
  have hdiv : eu * pagesPerEu / pagesPerEu = eu := Nat.mul_div_cancel _ hpos
  have hmod : eu * pagesPerEu % pagesPerEu = 0 := Nat.mul_mod_left _ _
  have ho : eu * pagesPerEu < pagesPerSlot := offset_lt heu hpos
  have hisr := h.reserves.isEu_reserve hfresh.mem
  have hfirst : PageHolds w.flash r none := hfresh.blank 0 hpos
  have hblank : c slot (eu * pagesPerEu) = none := by
    have hblank : c.EuBlank slot eu := by
      by_contra hno
      obtain ⟨home, hh⟩ := (h.replaced hslot heu hbad).mpr hno
      exact hnone home hh
    exact hblank 0 hpos
  have hlay : Layout (w.replacing slot eu r).flash (w.replacing slot eu r).segMap c :=
    h.congr fun _ _ => rfl
  have htarget : IsTarget (w.replacing slot eu r).flash (w.replacing slot eu r).segMap slot
      (eu * pagesPerEu) r := by
    refine IsTarget.congr (m := w.segMap) (.fresh ?_ hfresh.mem ⟨hfresh.good, ?_⟩ hmod fun home hh => ?_)
      fun _ _ => rfl
    · rw [hdiv]
      exact hbad
    · exact congrArg (fun page => page.flags.slotEuOffset) hfirst.1
    · rw [hdiv] at hh
      exact hnone home hh
  have hplace : calculateSlotIdAndEuOffset (calcAddress slot 0 (eu * pagesPerEu)) % 2 ^ 24
      = calculateSlotIdAndEuOffset (euAt slot eu) := by
    rw [calcAddress_eq_euAt, hdiv, hmod, Nat.add_zero]
    have := place_lt hslot.lt heu
    exact Nat.mod_eq_of_lt (by omega)
  have haddr : r + calcOffsetInEu r = r := by
    have := hisr.calcOffsetInEu_add hpos
    rw [Nat.add_zero] at this
    rw [this, Nat.add_zero]
  have hprog : ∀ page : Page, page.Written →
      page.flags.slotEuOffset = calculateSlotIdAndEuOffset (euAt slot eu) →
      wp (do
        if (← nandProgramTotalPage page (r + calcOffsetInEu r)) ≠ 0 then pure LogAddr.empty
        else pure (w.replacing slot eu r).segMap.reclaimed)
        (fun _ t => ∀ i < pagesPerEu,
          logicalAddressToReservePhysical (euAt slot eu + i) t = .ok (r + i) t)
        (fun e _ => e = .powerLoss) (w.replacing slot eu r) := by
    intro page hw hppl
    rw [wp_bind, haddr]
    refine wp_programAt (E := fun e _ => e = .powerLoss) (fun _ => rfl) hlay
      ⟨hslot.lt, hslot.data⟩ ho hblank htarget (fun hs => hs.notHead rfl) hw (fun _ _ => ?_)
      fun t hon _ ht hhome _ => ?_
    · rw [hdiv]
      exact hppl
    · rw [if_neg (not_not_intro rfl), wp_pure]
      intro i hi
      obtain ⟨home, hr, hh⟩ := hhome
      rw [hmod, Nat.add_zero] at hr
      rw [hdiv] at hh
      subst hr
      have hdata : t.segMap.IsDataSlot slot := by
        rw [hon.segMap]
        exact ⟨hslot.lt, hslot.data⟩
      refine ht.reservePhysical_run hdata ?_ heu hh hi
      rw [hon.good]
      exact hbad
  exact hprog _ ⟨hdata, rfl⟩ hplace

theorem Layout.replacesWell : ReplacesWell w where
  fresh _ _ _ hslot heu halloc hne := h.freshReserve hcb hslot heu halloc hne
  replaces _ _ _ _ hslot heu hbad hnone halloc hne hdata :=
    h.writeBlock_replaces hcb hslot heu hbad hnone halloc hne hdata
  found _ _ _ hslot heu hbad hh _ hi := h.reservePhysical_run hslot hbad heu hh hi
  injective slot slot' eu eu' i i' phy hslot hslot' heu heu' hi hi' hbad hbad' hrun hrun' hne := by
    obtain ⟨home, hh, hphy⟩ := h.home_of_found hslot heu hbad hi hrun hne
    obtain ⟨home', hh', hphy'⟩ := h.home_of_found hslot' heu' hbad' hi' hrun' hne
    obtain ⟨rfl, rfl⟩ := IsEu.add_inj (h.isEu_home hslot heu hh) (h.isEu_home hslot' heu' hh') hi hi'
      (hphy.symm.trans hphy')
    obtain ⟨rfl, rfl⟩ := hh.inj hh' hslot hslot' heu heu'
    exact ⟨rfl, rfl, rfl⟩

end Layout

/-- In every run of safe calls reserve erase units replace bad ones well. -/
theorem replacesWell_of_run {nBytes : Nat} {s : LogState} (h : HeadRun nBytes s) :
    ReplacesWell s.world := by
  obtain ⟨c, hlog, -⟩ := h.keepsLog
  exact hlog.head.layout.replacesWell hlog.head.copyBack

end Runs

section TinyPage
attribute [local instance] tinyPage

/-- The first erase unit of the chip is bad.  When it is formatted, the header of the first segment
goes to a reserve erase unit, where its pages are found. -/
theorem replacesWell_of_run_tinyPage : ∃ s : LogState,
    (∃ phy, logicalAddressToReservePhysical (euAt 0 0) s.world = .ok phy s.world ∧
      phy ≠ phyAddressEmpty) ∧ ReplacesWell s.world := by
  have hcheck : (LogState.booted 0 (fun _ => 0) (erasedWorld (· == 0))).any (fun s =>
      match logicalAddressToReservePhysical (euAt 0 0) s.world with
      | .ok phy _ => phy != phyAddressEmpty
      | .error _ _ => false) = true := by
    decide +kernel
  obtain ⟨s, hs, hcheck⟩ := (Option.any_eq_true _ _).mp hcheck
  have hrun : HeadRun 0 s := by
    refine .booted (fun _ => ⟨rfl, rfl⟩) ⟨by decide, ?_⟩ hs
    intro e hpos hlt
    have hlt : e * 4 < 3 := hlt
    omega
  refine ⟨s, ?_, replacesWell_of_run hrun⟩
  split at hcheck
  · rename_i phy t hphy
    have hframe : Frame (fun w : World => w) (logicalAddressToReservePhysical (euAt 0 0)) :=
      frame_logicalAddressToReservePhysical (euAt 0 0)
    obtain rfl : t = s.world := hframe.ok hphy
    exact ⟨phy, hphy, bne_iff_ne.mp hcheck⟩
  · exact absurd hcheck Bool.false_ne_true

end TinyPage

section WidePage

attribute [local instance] widePage

def writeWide (n : Nat) : LogCall :=
  .allocAndWriteBlock LogAddr.empty { initBuf with main := fun _ => UInt8.ofNat n } false
    LogAddr.empty

/-- All segments are filled, then the rest of the first segment is written again, and the second
one is reclaimed. -/
def wideCalls : List LogCall :=
  (List.range 64).map writeWide ++
    (List.range 12).map (fun i => .markAsObsolete ⟨0, 4 + i⟩ false) ++
    (List.range 12).map writeWide ++
    (List.range 9).map (fun i => .markAsObsolete ⟨1, 7 + i⟩ false) ++ [writeWide 0]

/-- `allocReserveEU` returns a programmed erase unit for one of a data slot. -/
def World.allocatesWritten (slot eu : Nat) (w : World) : Bool :=
  decide (slot < nSlots) && reserveSegments.all (fun seg => w.segMap.segToSlot seg != slot) &&
    match allocReserveEU (euAt slot eu) w with
    | .ok r _ => r != phyAddressEmpty && w.flash.mainAreaWrites r
    | .error _ _ => false

theorem World.not_replacesWell {w : World} {slot eu : Nat} (heu : eu < eusPerSlot)
    (h : w.allocatesWritten slot eu = true) : ¬ReplacesWell w := by
  intro hw
  unfold World.allocatesWritten at h
  obtain ⟨hslot, h⟩ := (Bool.and_eq_true _ _).mp h
  obtain ⟨hlt, hdata⟩ := (Bool.and_eq_true _ _).mp hslot
  split at h
  · rename_i r t halloc
    obtain ⟨hne, hwrites⟩ := (Bool.and_eq_true _ _).mp h
    have hframe : Frame (fun w : World => w) (allocReserveEU (euAt slot eu)) :=
      frame_allocReserveEU (euAt slot eu)
    obtain rfl : t = w := hframe.ok halloc
    have hslot : t.segMap.IsDataSlot slot :=
      ⟨of_decide_eq_true hlt, fun seg hseg => bne_iff_ne.mp (List.all_eq_true.mp hdata seg hseg)⟩
    have hblank := (hw.fresh slot eu r hslot heu halloc (bne_iff_ne.mp hne)).blank 0 pagesPerEu_pos
    rw [Nat.add_zero] at hblank
    exact Bool.false_ne_true (hblank.2.symm.trans hwrites)
  · exact absurd h Bool.false_ne_true

/-- Erase units of two reserve slots and of the free slot that their wear is leveled to are bad.
When the second segment is reclaimed the slot of a reserve segment moves to a slot whose second erase
unit is bad, and the loop over the pages of the other goes wrong there: `allocReserveEU` then returns
a programmed erase unit for the bad one that the head comes to next. -/
theorem replacesWell_of_run_fails : ¬∀ s : LogState,
    MediaRun 0 (StartFits 0) (fun d _ _ _ => d.Sound) s → ReplacesWell s.world := by
  intro h
  have hcheck : ((LogState.booted 0 (fun _ => 0)
        (erasedWorld fun eu => eu == 1 || eu == 26 || eu == 27 || eu == 30)).bind
      (LogState.afterOn (fun _ _ _ => true) 0 (fun _ => 0)
        (wideCalls.map (Prod.mk .reliable)))).any
          (fun s => !s.world.flash.good (euAt 7 2) && s.world.allocatesWritten 7 2) = true := by
    decide +kernel
  obtain ⟨s, hs, hcheck⟩ := (Option.any_eq_true _ _).mp hcheck
  obtain ⟨-, hcheck⟩ := (Bool.and_eq_true _ _).mp hcheck
  obtain ⟨r, hr, hs⟩ := Option.bind_eq_some_iff.mp hs
  refine World.not_replacesWell (by decide) hcheck (h s ?_)
  refine .afterOn (fun p hp _ _ => ?_) (.booted (fun _ => ⟨rfl, rfl⟩) ⟨by decide, ?_⟩ hr) hs
  · obtain ⟨call, -, rfl⟩ := List.mem_map.mp hp
    exact CopyMedia.sound_reliable
  · intro e hpos hlt
    have hlt : e * 4 < 3 := hlt
    omega

end WidePage

end NandFs
