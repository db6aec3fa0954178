import NandFs.LastValidPage
import NandFs.LogMove

/-! # The scan of the data slots

After a crash `handleRegularSegments` looks at every slot, passes over the reserve ones and those
that nothing is written to, and enters the header of each other one in the segment map.  As long as
no segment is met twice this is a fold over the slots, and the contents stay as they are.
-/
namespace NandFs

open Program

variable [Config]

/-! ## What the scan reads -/

/-- The segment in the header of the slot. -/
def Contents.segOf (c : Contents) (slot : Nat) : Nat :=
  match c slot 0 with
  | some st => getHeaderSegmentId st.main
  | none => noSegmentNum

/-- The sequence number in the header of the slot. -/
def Contents.seqOf (c : Contents) (slot : Nat) : Nat :=
  match c slot 0 with
  | some st => getHeaderSequenceNum st.main
  | none => 0

/-- The header of the slot was written to the last page of its checkpoint. -/
def Contents.HeaderComplete (c : Contents) (nBytes slot : Nat) : Prop :=
  ∃ st, c slot (calculateInPages (seqCheckpointSize + nBytes)) = some st ∧ st.checkpoint ≠ .notPart

/-- The segment map after the header of the slot is entered in it. -/
def Contents.marked (c : Contents) (slot : Nat) (m : SegMap) : SegMap :=
  if c slot 0 = none then m else markFirstSlot (c.segOf slot) (c.seqOf slot % 2 ^ 32) slot m

/-- The segment map after the headers of the slots are entered in it, one by one. -/
def Contents.markedAll (c : Contents) (slots : List Nat) (m : SegMap) : SegMap :=
  slots.foldl (fun m slot => c.marked slot m) m

/-- What a scan relies on of the first pages of the slots: that of a data slot is no reserve header,
that of a reserve slot is one unless its erase unit is bad. -/
structure FirstPages (f : Flash) (m : SegMap) : Prop where
  data : ∀ slot, m.IsDataSlot slot → (f.page (euAt slot 0)).flags.segType ≠ .reserve
  reserve : ∀ seg ∈ reserveSegments, f.good (euAt (m.segToSlot seg) 0) = true →
    (f.page (euAt (m.segToSlot seg) 0)).flags.segType = .reserve ∧
      (f.page (euAt (m.segToSlot seg) 0)).flags.slotEuOffset = reserveEuIsHeader

/-- A chip that can be scanned: it holds the contents `c`, every slot has a valid erase unit, and the
headers fit in their slots. -/
structure Scannable (nBytes : Nat) (f : Flash) (m : SegMap) (c : Contents) : Prop where
  layout : Layout f m c
  first : FirstPages f m
  fits : headerPages nBytes ≤ pagesPerSlot
  valid : ∀ slot < nSlots, f.validEuAt slot 1 ≠ phyAddressEmpty
  header : ∀ slot, m.IsDataSlot slot → c slot 0 ≠ none → HeaderFits nBytes f slot
  reserve : ∀ slot, ¬m.IsDataSlot slot → c slot 0 = none

section Scannable
variable {nBytes : Nat} {f t : Flash} {m m' : SegMap} {c : Contents} {slot e home : Nat}

theorem SegMap.isDataSlot_congr (hm : ∀ seg ∈ reserveSegments, m'.segToSlot seg = m.segToSlot seg) :
    m'.IsDataSlot slot ↔ m.IsDataSlot slot :=
  ⟨fun h => ⟨h.lt, fun seg hseg => by rw [← hm seg hseg]; exact h.data seg hseg⟩,
    fun h => ⟨h.lt, fun seg hseg => by rw [hm seg hseg]; exact h.data seg hseg⟩⟩

/-- A scan depends on the reserve segments of the map only. -/
theorem Scannable.congr (h : Scannable nBytes f m c)
    (hm : ∀ seg ∈ reserveSegments, m'.segToSlot seg = m.segToSlot seg) :
    Scannable nBytes f m' c where
  layout := h.layout.congr hm
  first := ⟨fun slot hs => h.first.data slot ((SegMap.isDataSlot_congr hm).mp hs), fun seg hseg => by
    rw [hm seg hseg]
    exact h.first.reserve seg hseg⟩
  fits := h.fits
  valid := h.valid
  header slot hs := h.header slot ((SegMap.isDataSlot_congr hm).mp hs)
  reserve slot hs := h.reserve slot fun hdata => hs ((SegMap.isDataSlot_congr hm).mpr hdata)

/-- The erase of a home leaves the headers of the reserve slots alone. -/
theorem FirstPages.erase (h : FirstPages f m) (hres : m.ReservesInChip) (hslot : m.IsDataSlot slot)
    (he : e < eusPerSlot) (hh : IsHome f m slot e home) (ht : f.Erased home t) : FirstPages t m where
  data x hx := by
    rw [ht.page_eq]
    split
    · exact SegType.noConfusion
    · exact h.data x hx
  reserve seg hseg hgood := by
    have heu := isEu_euAt (hres seg hseg) eusPerSlot_pos
    rw [ht.good] at hgood
    have hheader := h.reserve seg hseg hgood
    have hne : euAt (m.segToSlot seg) 0 ≠ home := by
      intro hhome
      cases hh with
      | self => exact hslot.data seg hseg (euAt_inj eusPerSlot_pos he hhome).1
      | reserve _ _ stands =>
        -- a header names no place
        have hflag := (Flash.standsFor_iff.mp stands).2.1
        have hplace := place_lt hslot.lt he
        rw [← hhome, hheader.2] at hflag
        rw [← hflag] at hplace
        exact absurd hplace (by decide)
    rw [ht.first_of_ne heu hne]
    exact hheader

/-- One erase unit of a data slot is erased. -/
theorem Scannable.erase (h : Scannable nBytes f m c) (hslot : m.IsDataSlot slot)
    (he : e < eusPerSlot) (hh : IsHome f m slot e home) (ht : f.Erased home t) :
    Scannable nBytes t m (c.clearEus slot [e]) where
  layout := h.layout.erase hslot he hh ht
  first := h.first.erase h.layout.reserves hslot he hh ht
  fits := h.fits
  valid x hx := by
    rw [Flash.validEuAt_congr ht.badEu]
    exact h.valid x hx
  header x hx hc eu hpos hlt := by
    rw [ht.good, ht.good]
    refine h.header x hx (fun hnone => hc ?_) eu hpos hlt
    by_cases hs : x = slot
    · subst hs
      by_cases hmem : 0 / pagesPerEu ∈ [e]
      · exact Contents.clearEus_of_mem hmem
      · exact (Contents.clearEus_of_not_mem hmem).trans hnone
    · exact (Contents.clearEus_of_ne hs 0).trans hnone
  reserve x hx := by
    have hne : x ≠ slot := fun heq => hx (heq ▸ hslot)
    rw [Contents.clearEus_of_ne hne]
    exact h.reserve x hx

theorem Scannable.congr_contents {c' : Contents} (h : Scannable nBytes f m c)
    (hc : ∀ slot, ∀ o < pagesPerSlot, c' slot o = c slot o) : Scannable nBytes f m c' where
  layout := h.layout.congr_contents fun slot _ o ho => hc slot o ho
  first := h.first
  fits := h.fits
  valid := h.valid
  header slot hs hne := h.header slot hs fun hnone => hne ((hc slot 0 pagesPerSlot_pos).trans hnone)
  reserve slot hs := (hc slot 0 pagesPerSlot_pos).trans (h.reserve slot hs)

end Scannable

/-- The erase units of the data slots have the homes that they had. -/
def SameHomes (w t : World) : Prop :=
  ∀ slot e home, w.segMap.IsDataSlot slot → e < eusPerSlot →
    (IsHome t.flash t.segMap slot e home ↔ IsHome w.flash w.segMap slot e home)

theorem SameHomes.refl (w : World) : SameHomes w w := fun _ _ _ _ _ => Iff.rfl

/-- The homes depend on the reserve segments of the map only. -/
theorem SameHomes.of_map {w : World} {m : SegMap}
    (hm : ∀ seg ∈ reserveSegments, m.segToSlot seg = w.segMap.segToSlot seg) :
    SameHomes w { w with segMap := m } := fun _ _ _ _ _ =>
  ⟨fun hh => hh.congr fun seg hseg => (hm seg hseg).symm, fun hh => hh.congr hm⟩

theorem SameHomes.trans {w t u : World} (h : SameHomes w t) (h' : SameHomes t u)
    (hm : ∀ seg ∈ reserveSegments, t.segMap.segToSlot seg = w.segMap.segToSlot seg) :
    SameHomes w u := fun slot e home hslot he =>
  (h' slot e home ((SegMap.isDataSlot_congr hm).mpr hslot) he).trans (h slot e home hslot he)

/-- The erase of an erase unit of a data slot that is not bad. -/
theorem SameHomes.of_erased {w : World} {t : Flash} {x e : Nat} (hres : w.segMap.ReservesInChip)
    (hx : w.segMap.IsDataSlot x) (he : e < eusPerSlot) (ht : w.flash.Erased (euAt x e) t) :
    SameHomes w { w with flash := t } := by
  intro slot e' home hslot he'
  have hplace := place_lt hslot.lt he'
  constructor
  · rintro (good | ⟨bad, mem, stands⟩)
    · exact .self (ht.good _ ▸ good)
    · exact .reserve (ht.good _ ▸ bad) mem
        ((ht.standsFor_iff hplace (hres.isEu_reserve mem)).mp stands).1
  · rintro (good | ⟨bad, mem, stands⟩)
    · exact .self ((ht.good _).trans good)
    · refine .reserve ((ht.good _).trans bad) mem
        ((ht.standsFor_iff hplace (hres.isEu_reserve mem)).mpr ⟨stands, ?_⟩)
      rintro rfl
      exact hx.not_reserve he mem

/-! ## A slot without a header -/

section Steps
variable {E : Halt → World → Prop} (hE : ∀ t, E .powerLoss t) {Q : Nat → World → Prop} {w : World}
  {c : Contents} {nBytes x : Nat} {slots : List Nat}
include hE

omit hE in
/-- What the scan of a slot begins with. -/
theorem wp_scan_cons (hx : x < nSlots) (hvalid : w.flash.validEuAt x 1 ≠ phyAddressEmpty)
    (hres : (w.flash.page (euAt x 0)).flags.segType = .reserve →
      wp (scanRegularSlots nBytes slots) Q E w)
    (hdata : (w.flash.page (euAt x 0)).flags.segType ≠ .reserve → ∃ a,
      validOrReserveEu (euAt x 0) w = .ok a w ∧ (a = phyAddressEmpty →
        wp (scanRegularSlots nBytes slots) Q E w) ∧ (a ≠ phyAddressEmpty → a < pageCount ∧
          if isPageUsed (w.flash.page a).flags then
            wp (seqVerify (markSegmentInSegMap (w.flash.page a) a x nBytes)
              (scanRegularSlots nBytes slots)) Q E w
          else wp (nandErase a) (fun _ t => wp (scanRegularSlots nBytes slots) Q E t) E w)) :
    wp (scanRegularSlots nBytes (x :: slots)) Q E w := by
  have heu := isEu_euAt hx eusPerSlot_pos
  have hstart : calcAddress x 0 0 = euAt x 0 := rfl
  unfold scanRegularSlots
  rw [wp_bind, wp_ok_iff (getValidEuAddrInLocation_run hx Nat.one_pos), wp_bind,
    wp_ok_iff (assert_run (decide_eq_true hvalid))]
  dsimp only
  rw [hstart, wp_bind, wp_ok_iff (nandReadPageTotal_run heu.lt)]
  refine wp_ite hres fun htype => ?_
  obtain ⟨a, hrun, hempty, hpage⟩ := hdata htype
  rw [wp_bind, wp_ok_iff hrun]
  refine wp_ite hempty fun hne => ?_
  obtain ⟨hlt, hpage⟩ := hpage hne
  rw [wp_bind, wp_ok_iff (nandReadPageTotal_run hlt)]
  cases hused : isPageUsed (w.flash.page a).flags with
  | true =>
    rw [hused, if_pos rfl] at hpage
    exact wp_ite (fun _ => hpage) fun hno => absurd hused hno
  | false =>
    rw [hused, if_neg Bool.false_ne_true] at hpage
    refine wp_ite (fun hyes => ?_) fun _ => ?_
    · rw [hused] at hyes
      exact absurd hyes Bool.false_ne_true
    · rw [wp_bind]
      exact hpage

omit hE in
/-- The scan passes over a reserve slot. -/
theorem wp_scan_reserve (h : Scannable nBytes w.flash w.segMap c) {seg : Nat}
    (hseg : seg ∈ reserveSegments) (hq : wp (scanRegularSlots nBytes slots) Q E w) :
    wp (scanRegularSlots nBytes (w.segMap.segToSlot seg :: slots)) Q E w := by
  have hlt := h.layout.reserves seg hseg
  have heu := isEu_euAt hlt eusPerSlot_pos
  refine wp_scan_cons hlt (h.valid _ hlt) (fun _ => hq) fun htype => ?_
  have hbad : w.flash.good (euAt (w.segMap.segToSlot seg) 0) = false := by
    rw [← Bool.not_eq_true]
    exact fun hgood => htype (h.first.reserve seg hseg hgood).1
  -- a bad erase unit of a reserve slot is not replaced
  have hnone := logicalAddressToReservePhysical_add h.layout.reserves heu pagesPerEu_pos
  rw [reserveOf_eq_none fun home hmem => by
    rw [← Bool.not_eq_true]
    exact fun hst => h.layout.unreplaced hseg eusPerSlot_pos hbad (.reserve hbad hmem hst)] at hnone
  refine ⟨phyAddressEmpty, ?_, fun _ => hq, fun hne => absurd rfl hne⟩
  unfold validOrReserveEu
  rw [bind_ok (nandCheckEuStatus_run heu.lt), if_neg (Bool.eq_false_iff.mp hbad)]
  exact hnone

/-- The scan passes over a slot that nothing is written to. -/
theorem wp_scan_blank (h : Scannable nBytes w.flash w.segMap c) (hx : w.segMap.IsDataSlot x)
    (hblank : ∀ o < pagesPerSlot, c x o = none)
    (hq : ∀ t, OnChip w t → Scannable nBytes t.flash t.segMap c → SameHomes w t →
      wp (scanRegularSlots nBytes slots) Q E t) :
    wp (scanRegularSlots nBytes (x :: slots)) Q E w := by
  have hpos := eusPerSlot_pos
  have heu := isEu_euAt hx.lt hpos
  have heuBlank : c.EuBlank x 0 := fun i hi => hblank _ (offset_lt hpos hi)
  have hrun := h.layout.validOrReserveEu_blank hx hpos heuBlank
  refine wp_scan_cons hx.lt (h.valid _ hx.lt) (fun htype => absurd htype (h.first.data x hx))
    fun _ => ⟨_, hrun, fun _ => hq w (OnChip.refl w) h (SameHomes.refl w), fun hne => ?_⟩
  cases hgood : w.flash.good (euAt x 0) with
  | false =>
    rw [hgood, if_neg Bool.false_ne_true] at hne
    exact absurd rfl hne
  | true =>
    have hpage := h.layout.holds hx hpos (.self hgood) 0 pagesPerEu_pos
    rw [heuBlank 0 pagesPerEu_pos, Nat.add_zero] at hpage
    rw [if_pos rfl]
    refine ⟨heu.lt, ?_⟩
    rw [if_neg (by rw [hpage.1]; exact Bool.false_ne_true)]
    refine wp_nandErase heu hgood (fun t ht _ => ?_) fun _ => hE w
    refine hq { w with flash := t } (.erase ht) ?_
      (SameHomes.of_erased h.layout.reserves hx hpos ht)
    refine (h.erase hx hpos (.self hgood) ht).congr_contents fun slot o ho => ?_
    by_cases hs : slot = x
    · subst hs
      by_cases hmem : o / pagesPerEu ∈ [0]
      · rw [Contents.clearEus_of_mem hmem, hblank o ho]
      · rw [Contents.clearEus_of_not_mem hmem]
    · rw [Contents.clearEus_of_ne hs]

omit hE in
/-- The scan reads the header of a slot that has one. -/
theorem wp_scan_header (h : Scannable nBytes w.flash w.segMap c) (hx : w.segMap.IsDataSlot x)
    (hne : c x 0 ≠ none)
    (hq : ∀ home, IsHome w.flash w.segMap x 0 home →
      wp (seqVerify (markSegmentInSegMap (w.flash.page home) home x nBytes)
        (scanRegularSlots nBytes slots)) Q E w) :
    wp (scanRegularSlots nBytes (x :: slots)) Q E w := by
  have hpos := eusPerSlot_pos
  obtain ⟨home, hh⟩ := h.layout.exists_home hx pagesPerSlot_pos hne
  rw [Nat.zero_div] at hh
  have heu := h.layout.isEu_home hx hpos hh
  have hpage := h.layout.holds hx hpos hh 0 pagesPerEu_pos
  rw [Nat.add_zero, Nat.zero_mul, Nat.add_zero] at hpage
  refine wp_scan_cons hx.lt (h.valid _ hx.lt) (fun htype => absurd htype (h.first.data x hx))
    fun _ => ⟨home, h.layout.validOrReserveEu_home hx hpos hh, fun hno => absurd hno heu.ne_empty,
      fun _ => ⟨heu.lt, ?_⟩⟩
  rw [if_pos (hpage.used_iff.mpr hne)]
  exact hq home hh

/-! ## A slot with a header -/

omit hE in
/-- Where the last page of the checkpoint of a header is. -/
theorem Scannable.holds_header (h : Scannable nBytes w.flash w.segMap c) (hx : w.segMap.IsDataSlot x)
    (hne : c x 0 ≠ none) {home : Nat} (hh : IsHome w.flash w.segMap x 0 home) :
    home + calculateInPages (seqCheckpointSize + nBytes) < pageCount ∧
      PageHolds w.flash (home + calculateInPages (seqCheckpointSize + nBytes))
        (c x (calculateInPages (seqCheckpointSize + nBytes))) := by
  have hpos := eusPerSlot_pos
  have hppe := pagesPerEu_pos
  have hfits : 1 + calculateInPages (seqCheckpointSize + nBytes) ≤ pagesPerSlot := h.fits
  have hheader : ∀ eu, 0 < eu →
      eu * pagesPerEu < 1 + calculateInPages (seqCheckpointSize + nBytes) →
      w.flash.good (euAt x 0) = true ∧ w.flash.good (euAt x eu) = true := h.header x hx hne
  generalize calculateInPages (seqCheckpointSize + nBytes) = k at hfits hheader ⊢
  by_cases hk : k < pagesPerEu
  · have hpage := h.layout.holds hx hpos hh k hk
    rw [Nat.zero_mul, Nat.zero_add] at hpage
    exact ⟨(h.layout.isEu_home hx hpos hh).add_lt hk, hpage⟩
  · -- the erase units of a header that does not fit in one are all good
    have hdiv : k / pagesPerEu < eusPerSlot := div_lt_eusPerSlot (by omega)
    have hmod := Nat.mod_lt k hppe
    have hsplit := div_mul_add_mod k
    have hquot : 0 < k / pagesPerEu := Nat.div_pos (by omega) hppe
    obtain ⟨hgood, hgoodK⟩ := hheader (k / pagesPerEu) hquot (by omega)
    obtain rfl := h.layout.home_unique hx hpos hh (.self hgood)
    have haddr : euAt x 0 + k = euAt x (k / pagesPerEu) + k % pagesPerEu := by
      rw [← Nat.zero_add (k / pagesPerEu), euAt_add]
      omega
    have hpage := h.layout.holds hx hdiv (.self hgoodK) _ hmod
    rw [hsplit] at hpage
    rw [haddr]
    exact ⟨(isEu_euAt hx.lt hdiv).add_lt hmod, hpage⟩

omit hE in
theorem Scannable.verifyComplete_run (h : Scannable nBytes w.flash w.segMap c)
    (hx : w.segMap.IsDataSlot x) (hne : c x 0 ≠ none) {home : Nat}
    (hh : IsHome w.flash w.segMap x 0 home) (hcomplete : c.HeaderComplete nBytes x) :
    verifyCompleteSegmentHeader home nBytes w = .ok true w := by
  obtain ⟨hlt, hpage⟩ := h.holds_header hx hne hh
  obtain ⟨st, hst, hcp⟩ := hcomplete
  rw [hst] at hpage
  have hflag : (w.flash.page (home + calculateInPages (seqCheckpointSize + nBytes))).flags.checkpoint
      ≠ .notPart := fun hno => hcp ((congrArg Stored.checkpoint hpage.1).symm.trans hno)
  unfold verifyCompleteSegmentHeader
  rw [bind_ok (nandReadPageTotal_run hlt)]
  dsimp only
  rw [if_neg hflag]
  rfl

theorem Scannable.wp_verifyComplete_torn {Q : Bool → World → Prop}
    (h : Scannable nBytes w.flash w.segMap c) (hx : w.segMap.IsDataSlot x) (hne : c x 0 ≠ none)
    {home : Nat} (hh : IsHome w.flash w.segMap x 0 home) (htorn : ¬c.HeaderComplete nBytes x)
    (hq : ∀ t, OnChip w t → Scannable nBytes t.flash t.segMap (c.clearEus x [0]) → Q false t) :
    wp (verifyCompleteSegmentHeader home nBytes) Q E w := by
  obtain ⟨hlt, hpage⟩ := h.holds_header hx hne hh
  have hflag : (w.flash.page (home + calculateInPages (seqCheckpointSize + nBytes))).flags.checkpoint
      = .notPart := by
    cases hst : c x (calculateInPages (seqCheckpointSize + nBytes)) with
    | none =>
      rw [hst] at hpage
      rw [hpage.1]
      rfl
    | some st =>
      rw [hst] at hpage
      by_contra hcp
      exact htorn ⟨st, hst, fun hno => hcp ((congrArg Stored.checkpoint hpage.1).trans hno)⟩
  have heu := h.layout.isEu_home hx eusPerSlot_pos hh
  unfold verifyCompleteSegmentHeader
  rw [wp_bind, wp_ok_iff (nandReadPageTotal_run hlt)]
  dsimp only
  rw [if_pos hflag, wp_bind]
  refine wp_nandErase heu hh.good (fun t ht _ => ?_) fun _ => hE w
  exact hq { w with flash := t } (.erase ht) (h.erase hx eusPerSlot_pos hh ht)

omit hE in
/-- The header page of a slot. -/
theorem Scannable.header_page (h : Scannable nBytes w.flash w.segMap c) (hx : w.segMap.IsDataSlot x)
    (hne : c x 0 ≠ none) {home : Nat} (hh : IsHome w.flash w.segMap x 0 home) :
    getHeaderSegmentId (w.flash.page home).main = c.segOf x ∧
      getHeaderSequenceNum (w.flash.page home).main = c.seqOf x := by
  obtain ⟨st, hst⟩ := Option.ne_none_iff_exists'.mp hne
  have hpage := h.layout.holds hx eusPerSlot_pos hh 0 pagesPerEu_pos
  rw [Nat.add_zero, Nat.zero_mul, Nat.add_zero, hst] at hpage
  have hmain : (w.flash.page home).main = st.main := congrArg Stored.main hpage.1
  rw [hmain, Contents.segOf, Contents.seqOf, hst]
  exact ⟨rfl, rfl⟩

omit hE in
/-- The first slot that is met of a segment is entered in the map. -/
theorem wp_scan_first (h : Scannable nBytes w.flash w.segMap c) (hx : w.segMap.IsDataSlot x)
    (hne : c x 0 ≠ none) (hcomplete : c.HeaderComplete nBytes x)
    (hunmapped : w.segMap.segToSlot (c.segOf x) = noSlot)
    (hq : wp (scanRegularSlots nBytes slots) Q E { w with segMap := c.marked x w.segMap }) :
    wp (scanRegularSlots nBytes (x :: slots)) Q E w := by
  refine wp_scan_header h hx hne fun home hh => wp_seqVerify ?_
  obtain ⟨hseg, hseq⟩ := h.header_page hx hne hh
  unfold markSegmentInSegMap
  dsimp only
  rw [hseg, hseq, wp_bind, wp_ok_iff (h.verifyComplete_run hx hne hh hcomplete)]
  refine wp_ite (fun hno => absurd hno (by decide)) fun _ => ?_
  rw [wp_bind, wp_getSegMap, if_pos hunmapped, wp_bind, wp_modifySegMap, wp_pure,
    if_neg (not_not_intro rfl)]
  rw [Contents.marked, if_neg hne] at hq
  exact hq

/-- A header that is not complete is erased. -/
theorem wp_scan_torn (h : Scannable nBytes w.flash w.segMap c) (hx : w.segMap.IsDataSlot x)
    (hne : c x 0 ≠ none) (htorn : ¬c.HeaderComplete nBytes x)
    (hq : ∀ t, OnChip w t → Scannable nBytes t.flash t.segMap (c.clearEus x [0]) →
      wp (scanRegularSlots nBytes slots) Q E t) :
    wp (scanRegularSlots nBytes (x :: slots)) Q E w := by
  refine wp_scan_header h hx hne fun home hh => wp_seqVerify ?_
  unfold markSegmentInSegMap
  dsimp only
  rw [wp_bind]
  refine h.wp_verifyComplete_torn hE hx hne hh htorn fun t hon ht => ?_
  refine wp_ite (fun _ => ?_) fun hno => absurd rfl hno
  rw [wp_pure, if_neg (not_not_intro rfl)]
  exact hq t hon ht

end Steps

/-! ## The map while the slots are entered -/

section Marked
variable {c : Contents} {m : SegMap} {x y seg : Nat} {xs : List Nat}

theorem Contents.marked_segToSlot (hne : c x 0 ≠ none → c.segOf x ≠ seg) :
    (c.marked x m).segToSlot seg = m.segToSlot seg := by
  rw [Contents.marked]
  by_cases hx : c x 0 = none
  · rw [if_pos hx]
  · have hseg : seg ≠ c.segOf x := (hne hx).symm
    rw [if_neg hx, markFirstSlot]
    split <;> exact Function.update_of_ne hseg _ _

theorem Contents.marked_self (hx : c x 0 ≠ none) : (c.marked x m).segToSlot (c.segOf x) = x := by
  rw [Contents.marked, if_neg hx, markFirstSlot]
  split <;> exact Function.update_self _ _ _

theorem Contents.markedAll_segToSlot (hne : ∀ x ∈ xs, c x 0 ≠ none → c.segOf x ≠ seg) :
    (c.markedAll xs m).segToSlot seg = m.segToSlot seg := by
  induction xs generalizing m with
  | nil => rfl
  | cons x xs ih =>
    have htail := ih (m := c.marked x m) fun y hy => hne y (List.mem_cons_of_mem x hy)
    exact htail.trans (Contents.marked_segToSlot (hne x List.mem_cons_self))

theorem Contents.markedAll_congr {c' : Contents} (hc : ∀ x ∈ xs, c' x 0 = c x 0) :
    c'.markedAll xs m = c.markedAll xs m := by
  induction xs generalizing m with
  | nil => rfl
  | cons x xs ih =>
    have hx := hc x List.mem_cons_self
    have hmarked : c'.marked x m = c.marked x m := by
      rw [Contents.marked, Contents.marked, Contents.segOf, Contents.segOf, Contents.seqOf,
        Contents.seqOf, hx]
    show c'.markedAll xs (c'.marked x m) = c.markedAll xs (c.marked x m)
    rw [hmarked]
    exact ih fun y hy => hc y (List.mem_cons_of_mem x hy)

/-- The header of `x` makes it the current slot. -/
def Contents.Takes (c : Contents) (x : Nat) (m : SegMap) : Prop :=
  c x 0 ≠ none ∧ (m.sequenceNum < c.seqOf x % 2 ^ 32 ∨ m.sequenceNum = 0xffffffffffffffff)

theorem Contents.marked_of_takes (h : c.Takes x m) :
    (c.marked x m).newSlotId = x ∧
      (c.marked x m).reclaimed = m.reclaimed.setSegment (c.segOf x) := by
  rw [Contents.marked, if_neg h.1, markFirstSlot]
  split
  · exact ⟨rfl, rfl⟩
  · rename_i hno
    exact absurd h.2 hno

theorem Contents.marked_of_not_takes (h : ¬c.Takes x m) :
    (c.marked x m).newSlotId = m.newSlotId ∧ (c.marked x m).sequenceNum = m.sequenceNum ∧
      (c.marked x m).reclaimed = m.reclaimed := by
  rw [Contents.marked]
  by_cases hx : c x 0 = none
  · rw [if_pos hx]
    exact ⟨rfl, rfl, rfl⟩
  · rw [if_neg hx, markFirstSlot]
    split
    · rename_i hyes
      exact absurd ⟨hx, hyes⟩ h
    · exact ⟨rfl, rfl, rfl⟩

/-- A slot that is not entered does not become the current one. -/
theorem Contents.markedAll_newSlotId_ne (hy : y ∉ xs) (hm : m.newSlotId ≠ y) :
    (c.markedAll xs m).newSlotId ≠ y := by
  induction xs generalizing m with
  | nil => exact hm
  | cons x xs ih =>
    obtain ⟨hyx, hy⟩ := not_or.mp (fun hmem => hy (List.mem_cons.mpr hmem))
    refine ih hy ?_
    by_cases htakes : c.Takes x m
    · rw [(Contents.marked_of_takes htakes).1]
      exact Ne.symm hyx
    · rw [(Contents.marked_of_not_takes htakes).1]
      exact hm

/-- The current slot stays so as long as no later number is met. -/
theorem Contents.markedAll_newSlotId_iff (hy : y ∉ xs) (hm : m.newSlotId = y) :
    (c.markedAll xs m).newSlotId = y ↔ ∀ x ∈ xs, ¬c.Takes x m := by
  induction xs generalizing m with
  | nil => exact iff_of_true hm fun _ hx => absurd hx List.not_mem_nil
  | cons x xs ih =>
    obtain ⟨hyx, hy⟩ := not_or.mp (fun hmem => hy (List.mem_cons.mpr hmem))
    by_cases htakes : c.Takes x m
    · refine iff_of_false (Contents.markedAll_newSlotId_ne (m := c.marked x m) hy ?_) fun h =>
        h x List.mem_cons_self htakes
      rw [(Contents.marked_of_takes htakes).1]
      exact Ne.symm hyx
    · obtain ⟨hnew, hseq, -⟩ := Contents.marked_of_not_takes htakes
      have hsame : ∀ z, c.Takes z (c.marked x m) ↔ c.Takes z m := by
        intro z
        rw [Contents.Takes, Contents.Takes, hseq]
      refine (ih (m := c.marked x m) hy (hnew.trans hm)).trans ?_
      simp only [hsame, List.mem_cons, forall_eq_or_imp, htakes, not_false_eq_true, true_and]

/-- The current segment is the one in the current slot, or there is none yet. -/
def SegMap.CurrentInSlot (m : SegMap) : Prop :=
  segmentsCount ≤ m.reclaimed.segment ∨
    m.segToSlot m.reclaimed.segment = m.newSlotId ∧ m.newSlotId ≠ noSlot

theorem SegMap.CurrentInSlot.marked (h : m.CurrentInSlot) (hx : x < nSlots)
    (hseg : c x 0 ≠ none → c.segOf x < segmentsCount ∧ m.segToSlot (c.segOf x) = noSlot) :
    (c.marked x m).CurrentInSlot := by
  have hslots := nSlots_le
  by_cases htakes : c.Takes x m
  · obtain ⟨hnew, hrec⟩ := Contents.marked_of_takes htakes
    have hlt := (hseg htakes.1).1
    have hcount := segmentsCount_add
    have hmod : c.segOf x % 4096 = c.segOf x := Nat.mod_eq_of_lt (by omega)
    refine .inr ?_
    rw [hnew, hrec]
    show (c.marked x m).segToSlot (c.segOf x % 4096) = x ∧ x ≠ noSlot
    rw [hmod]
    refine ⟨Contents.marked_self htakes.1, ?_⟩
    unfold noSlot
    omega
  · obtain ⟨hnew, -, hrec⟩ := Contents.marked_of_not_takes htakes
    rw [SegMap.CurrentInSlot, hnew, hrec]
    refine h.imp_right fun hcur => ⟨?_, hcur.2⟩
    rw [Contents.marked_segToSlot fun hne heq => ?_]
    · exact hcur.1
    · rw [← heq, (hseg hne).2] at hcur
      exact hcur.2 hcur.1.symm

/-- During the scan the header of a segment is read from the slot that the map says. -/
theorem SegMap.CurrentInSlot.expectedPage (h : m.CurrentInSlot) (hseg : seg < segmentsCount) :
    m.expectedPage ⟨seg, 0⟩ = calcAddress (m.segToSlot seg) 0 0 := by
  unfold SegMap.expectedPage
  refine if_neg ?_
  rintro ⟨hrec, hsegment, -⟩
  have hsegment : seg = m.reclaimed.segment := hsegment
  rcases h with hno | ⟨hcur, -⟩
  · omega
  · obtain ⟨-, hne⟩ := (Bool.and_eq_true _ _).mp hrec
    exact bne_iff_ne.mp hne hcur.symm

end Marked

/-! ## The slots of the other segments -/

/-- Slots that are met once: each is blank, or has a complete header with a segment of its own. -/
structure OtherSlots (nBytes : Nat) (c : Contents) (xs : List Nat) : Prop where
  lt : ∀ x ∈ xs, x < nSlots
  nodup : xs.Nodup
  header : ∀ x ∈ xs, c x 0 ≠ none → c.HeaderComplete nBytes x ∧ c.segOf x < segmentsCount
  distinct : ∀ x ∈ xs, ∀ y ∈ xs, c x 0 ≠ none → c y 0 ≠ none → c.segOf x = c.segOf y → x = y
  blank : ∀ x ∈ xs, c x 0 = none → ∀ o < pagesPerSlot, c x o = none

theorem OtherSlots.of_sublist {nBytes : Nat} {c : Contents} {xs ys : List Nat}
    (h : OtherSlots nBytes c ys) (hsub : xs.Sublist ys) : OtherSlots nBytes c xs where
  lt x hx := h.lt x (hsub.subset hx)
  nodup := h.nodup.sublist hsub
  header x hx := h.header x (hsub.subset hx)
  distinct x hx y hy := h.distinct x (hsub.subset hx) y (hsub.subset hy)
  blank x hx := h.blank x (hsub.subset hx)

theorem OtherSlots.congr {nBytes : Nat} {c c' : Contents} {xs : List Nat}
    (h : OtherSlots nBytes c xs) (hc : ∀ x ∈ xs, ∀ o, c' x o = c x o) : OtherSlots nBytes c' xs where
  lt := h.lt
  nodup := h.nodup
  header x hx hne := by
    rw [hc x hx] at hne
    obtain ⟨⟨st, hst, hcp⟩, hseg⟩ := h.header x hx hne
    refine ⟨⟨st, (hc x hx _).trans hst, hcp⟩, ?_⟩
    rw [Contents.segOf, hc x hx]
    exact hseg
  distinct x hx y hy hnex hney hseg := by
    rw [hc x hx] at hnex
    rw [hc y hy] at hney
    rw [Contents.segOf, Contents.segOf, hc x hx, hc y hy] at hseg
    exact h.distinct x hx y hy hnex hney hseg
  blank x hx hnone o ho := (hc x hx o).trans (h.blank x hx ((hc x hx 0).symm.trans hnone) o ho)

theorem segmentsCount_lt_reserve {seg : Nat} (h : seg ∈ reserveSegments) : segmentsCount < seg := by
  have hge := (mem_reserveSegments.mp h).1
  have := firstReserveSegment_eq
  omega

/-- An entry of a data segment leaves the reserve segments alone. -/
theorem Contents.marked_reserve {c : Contents} {x : Nat} (hseg : c x 0 ≠ none → c.segOf x < segmentsCount)
    (m : SegMap) : ∀ seg ∈ reserveSegments, (c.marked x m).segToSlot seg = m.segToSlot seg := by
  intro seg hmem
  have hlt := segmentsCount_lt_reserve hmem
  refine Contents.marked_segToSlot fun hne heq => ?_
  have := hseg hne
  omega

/-- The scan enters slots that are met once, and leaves the contents alone. -/
theorem wp_scan_others {E : Halt → World → Prop} (hE : ∀ t, E .powerLoss t) {Q : Nat → World → Prop}
    {w : World} {c : Contents} {nBytes : Nat} {xs slots : List Nat}
    (h : Scannable nBytes w.flash w.segMap c) (hxs : OtherSlots nBytes c xs)
    (hun : ∀ x ∈ xs, c x 0 ≠ none → w.segMap.segToSlot (c.segOf x) = noSlot)
    (hq : ∀ t, Scannable nBytes t.flash t.segMap c → t.segMap = c.markedAll xs w.segMap →
      SameHomes w t → wp (scanRegularSlots nBytes slots) Q E t) :
    wp (scanRegularSlots nBytes (xs ++ slots)) Q E w := by
  induction xs generalizing w with
  | nil => exact hq w h rfl (SameHomes.refl w)
  | cons x xs ih =>
    have htail := hxs.of_sublist (List.sublist_cons_self x xs)
    have hmem : x ∈ x :: xs := List.mem_cons_self
    have hnot : x ∉ xs := (List.nodup_cons.mp hxs.nodup).1
    by_cases hdata : w.segMap.IsDataSlot x
    · by_cases hx : c x 0 = none
      · refine wp_scan_blank hE h hdata (hxs.blank x hmem hx) fun t hon ht hhomes => ?_
        have hmarked : c.marked x w.segMap = w.segMap := if_pos hx
        refine ih ht htail (fun y hy hne => ?_) fun u hu hmap hhomes' => hq u hu ?_
          (hhomes.trans hhomes' fun seg _ => by rw [hon.segMap])
        · rw [hon.segMap]
          exact hun y (List.mem_cons_of_mem x hy) hne
        · show u.segMap = c.markedAll xs (c.marked x w.segMap)
          rw [hmarked, hmap, hon.segMap]
      · obtain ⟨hcomplete, hseg⟩ := hxs.header x hmem hx
        have hreserve := Contents.marked_reserve (c := c) (x := x) (fun _ => hseg) w.segMap
        refine wp_scan_first h hdata hx hcomplete (hun x hmem hx) ?_
        refine ih (h.congr hreserve) htail (fun y hy hne => ?_) fun u hu hmap hhomes => hq u hu hmap
          ((SameHomes.of_map hreserve).trans hhomes hreserve)
        have hsegs : c.segOf x ≠ c.segOf y := fun heq => hnot
          (hxs.distinct x hmem y (List.mem_cons_of_mem x hy) hx hne heq ▸ hy)
        exact (Contents.marked_segToSlot fun _ => hsegs).trans
          (hun y (List.mem_cons_of_mem x hy) hne)
    · have hx := h.reserve x hdata
      obtain ⟨seg, hseg, rfl⟩ : ∃ seg ∈ reserveSegments, w.segMap.segToSlot seg = x := by
        by_contra hno
        exact hdata ⟨hxs.lt x hmem, fun seg hseg heq => hno ⟨seg, hseg, heq⟩⟩
      have hmarked : c.marked (w.segMap.segToSlot seg) w.segMap = w.segMap := if_pos hx
      refine wp_scan_reserve h hseg (ih h htail
        (fun y hy hne => hun y (List.mem_cons_of_mem _ hy) hne) fun u hu hmap => hq u hu ?_)
      show u.segMap = c.markedAll xs (c.marked (w.segMap.segToSlot seg) w.segMap)
      rw [hmarked]
      exact hmap

end NandFs
