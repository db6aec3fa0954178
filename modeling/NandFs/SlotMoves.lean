import NandFs.LogSegments

/-! # Moving a data slot

The copying loop of `performWearLeveling`, for a slot of a data segment: page by page the
free slot gets the contents of the slot that is moved, which stays as it is.  If there is no
reserve erase unit left for a bad one of the free slot, that is erased again.
-/
namespace NandFs

open Program

variable [Config]

/-- The first `o` pages of `slot` have been copied to `newSlot`. -/
structure Copied (w : World) (c₀ : Contents) (newSlot slot o : Nat) (c : Contents) : Prop where
  layout : Layout w.flash w.segMap c
  done : ∀ i < o, c newSlot i = c₀ slot i
  blank : ∀ i, o ≤ i → i < pagesPerSlot → c newSlot i = none
  others : ∀ slot', slot' ≠ newSlot → c slot' = c₀ slot'

/-- The variables of the loop before page `o`: inside an erase unit the addresses are those of
the page, and a valid one is not taken for a reserve. -/
structure WearAt (w : World) (newSlot slot o : Nat) (ws : WearState) : Prop where
  fromPageOffset : ws.fromPageOffset = o
  toPageOffset : ws.toPageOffset = o
  inside : o % pagesPerEu ≠ 0 → ∃ home org,
    IsHome w.flash w.segMap newSlot (o / pagesPerEu) home ∧
    IsHome w.flash w.segMap slot (o / pagesPerEu) org ∧
    ws.toPhyAddr = home + o % pagesPerEu ∧ ws.fromPhyAddr = org + o % pagesPerEu
  toReserve : o % pagesPerEu ≠ 0 → w.flash.good (euAt newSlot (o / pagesPerEu)) = true →
    ws.isToReserve = false

/-- The marks once the first `o` pages were copied: those in valid erase units of the new slot
name no place, and what was put into a reserve erase unit was put into one that was free. -/
structure CopiedMarks (f t : Flash) (m : SegMap) (cb newSlot o : Nat) : Prop where
  badEu : t.badEu = f.badEu
  noPlace : ∀ i < o, f.good (euAt newSlot (i / pagesPerEu)) = true →
    (t.page (euAt newSlot (i / pagesPerEu) + i % pagesPerEu)).flags.slotEuOffset
      = noSlotAndEuOffset
  fresh : ∀ {eu}, m.IsReserveEu eu → t.page eu = f.page eu ∨ f.freeEu cb eu = true

/-- One more page is copied. -/
theorem CopiedMarks.program {f g t : Flash} {m : SegMap} {cb newSlot o a : Nat} {page : Page}
    (h : CopiedMarks f g m cb newSlot o) (hp : g.Programmed page a t)
    (hnew : m.IsDataSlot newSlot) (ho : o < pagesPerSlot)
    (hhome : ∃ home, a = home + o % pagesPerEu ∧ IsEu home ∧
      IsHome t m newSlot (o / pagesPerEu) home)
    (hplace : f.good (euAt newSlot (o / pagesPerEu)) = true →
      page.flags.slotEuOffset = noSlotAndEuOffset)
    (hfresh : m.IsReserveEu a → g.freeEu cb a = true) :
    CopiedMarks f t m cb newSlot (o + 1) := by
  have hgood : ∀ b, t.good b = f.good b :=
    Flash.good_congr (hp.badEu.trans h.badEu)
  obtain ⟨home, ha, heu, hh⟩ := hhome
  have hmod := Nat.mod_lt o pagesPerEu_pos
  refine ⟨hp.badEu.trans h.badEu, fun i hi hi' => ?_, fun {eu} hmem => ?_⟩
  · have hself : IsHome t m newSlot (i / pagesPerEu) (euAt newSlot (i / pagesPerEu)) :=
      .self (by rw [hgood]; exact hi')
    have hdiv := div_lt_eusPerSlot (show i < pagesPerSlot by omega)
    by_cases hio : i = o
    · subst hio
      cases hh with
      | self =>
        rw [← ha, hp.page_self]
        exact hplace hi'
      | reserve bad =>
        rw [hgood, hi'] at bad
        exact absurd bad Bool.true_eq_false.mp
    · have hne : euAt newSlot (i / pagesPerEu) + i % pagesPerEu ≠ a := by
        intro heq
        obtain ⟨hsame, hmods⟩ := (isEu_euAt hnew.lt hdiv).add_inj heu (Nat.mod_lt _ pagesPerEu_pos)
          hmod (heq.trans ha)
        rw [hsame] at hself
        have hdivs := (hself.inj hh hnew hnew hdiv (div_lt_eusPerSlot ho)).2
        have hi := div_mul_add_mod i
        have ho := div_mul_add_mod o
        rw [hdivs, hmods] at hi
        exact hio (hi.symm.trans ho)
      rw [hp.page_of_ne hne]
      exact h.noPlace i (by omega) hi'
  · by_cases hea : eu = a
    · subst hea
      have hfree := hfresh hmem
      rcases h.fresh hmem with hsame | hfree'
      · rw [Flash.freeEu, hsame, Flash.good, h.badEu] at hfree
        exact .inr hfree
      · exact .inr hfree'
    · rw [hp.page_of_ne hea]
      exact h.fresh hmem

section Copy
variable {E : Halt → World → Prop} (hE : ∀ t, E .powerLoss t) {s : World} {c c₀ : Contents}
  {f : Flash} {cb newSlot slot o : Nat} (hslot : s.segMap.IsDataSlot slot) (hne : slot ≠ newSlot)
  (hnew : s.segMap.IsDataSlot newSlot) (hfull : ∀ i < pagesPerSlot, c₀ slot i ≠ none)
include hslot hne

/-- The page that is copied next. -/
theorem Copied.source (h : Copied s c₀ newSlot slot o c) (ho : o < pagesPerSlot) {org : Nat}
    (horg : IsHome s.flash s.segMap slot (o / pagesPerEu) org) :
    PageHolds s.flash (org + o % pagesPerEu) (c₀ slot o) ∧
      org + o % pagesPerEu < pageCount := by
  have hpage := h.layout.holds_at hslot ho horg
  rw [h.others slot hne] at hpage
  exact ⟨hpage, (h.layout.isEu_home hslot (div_lt_eusPerSlot ho) horg).add_lt
    (Nat.mod_lt _ pagesPerEu_pos)⟩

include hE hnew hfull

/-- `copyPage` of page `o` to its target. -/
theorem wp_copyPage {Q : Nat → World → Prop} (h : Copied s c₀ newSlot slot o c)
    (hmarks : CopiedMarks f s.flash s.segMap cb newSlot o)
    (ho : o < pagesPerSlot) {a org originalToAddress : Nat} {isToReserve : Bool}
    (ht : IsTarget s.flash s.segMap newSlot o a)
    (horg : IsHome s.flash s.segMap slot (o / pagesPerEu) org)
    (hto : s.flash.good (euAt newSlot (o / pagesPerEu)) = true → isToReserve = false)
    (hfresh : s.segMap.IsReserveEu a → s.flash.freeEu cb a = true)
    (hcb : s.flash.copyBackEu s.segMap = cb)
    (hplace : s.flash.good (euAt newSlot (o / pagesPerEu)) = false → o % pagesPerEu = 0 →
      isToReserve = true ∧ calculateSlotIdAndEuOffset originalToAddress =
        calculateSlotIdAndEuOffset (euAt newSlot (o / pagesPerEu)))
    (hq : ∀ t c', OnChip s t → Copied t c₀ newSlot slot (o + 1) c' →
      CopiedMarks f t.flash t.segMap cb newSlot (o + 1) →
      (∃ home, a = home + o % pagesPerEu ∧
        IsHome t.flash t.segMap newSlot (o / pagesPerEu) home) →
      IsHome t.flash t.segMap slot (o / pagesPerEu) org → Q 0 t) :
    wp (copyPage a (org + o % pagesPerEu) isToReserve originalToAddress false) Q E s := by
  obtain ⟨hsource, hlt⟩ := h.source hslot hne ho horg
  obtain ⟨st, hst⟩ := Option.ne_none_iff_exists'.mp (hfull o ho)
  rw [hst] at hsource
  have hstored : (copiedPage (s.flash.page (org + o % pagesPerEu)) isToReserve originalToAddress
      false).stored = st ∧ (copiedPage (s.flash.page (org + o % pagesPerEu)) isToReserve
        originalToAddress false).Written := by
    unfold copiedPage
    cases isToReserve with
    | true => exact ⟨hsource.1, hsource.2.copyBack, hsource.2.used⟩
    | false => exact ⟨hsource.1, hsource.2.copyBack, hsource.2.used⟩
  have hblank := h.blank o (Nat.le_refl _) ho
  unfold copyPage
  rw [wp_bind, wp_ok_iff (nandReadPageTotal_run hlt)]
  have hspared : CopyBackSpared s.flash s.segMap → a ≠ s.flash.copyBackEu s.segMap := by
    rintro hspared rfl
    exact (Flash.freeEu_iff.mp (hfresh hspared.mem)).2.1 hcb.symm
  refine wp_seqVerify (wp_programAt hE h.layout hnew ho hblank ht hspared hstored.2
    (fun hbad h0 => ?_) fun t hon hprog hlay hhome hkeep => ?_)
  · obtain ⟨rfl, heq⟩ := hplace hbad h0
    have := place_lt hnew.lt (div_lt_eusPerSlot ho)
    show calculateSlotIdAndEuOffset originalToAddress % 2 ^ 24 = _
    rw [heq]
    exact Nat.mod_eq_of_lt (by omega)
  · rw [if_neg (not_not_intro rfl), wp_pure]
    rw [hstored.1] at hlay
    have hm := hon.segMap
    have hmarks' : CopiedMarks f t.flash t.segMap cb newSlot (o + 1) := by
      obtain ⟨home, ha, hh⟩ := hhome
      rw [hm]
      refine hmarks.program hprog hnew ho ⟨home, ha, ?_, by rw [← hm]; exact hh⟩
        (fun hgood => ?_) hfresh
      · exact hlay.isEu_home (by rw [hm]; exact hnew) (div_lt_eusPerSlot ho) hh
      · rw [hto (by rw [Flash.good, hmarks.badEu]; exact hgood)]
        rfl
    refine hq t _ hon ⟨hlay, fun i hi => ?_, fun i hge hi => ?_, fun slot' hs => ?_⟩ hmarks' hhome ?_
    · by_cases hio : i = o
      · subst hio
        rw [Contents.set_self, hst]
      · rw [Contents.set_of_ne hio]
        exact h.done i (by omega)
    · rw [Contents.set_of_ne (by omega)]
      exact h.blank i (by omega) hi
    · funext i
      rw [Contents.set_of_ne_slot hs, h.others slot' hs]
    · exact hkeep hslot (div_lt_eusPerSlot ho) horg

omit hfull in
/-- The start of an erase unit: where it is copied from and to, or the end of the move if
there is no reserve erase unit left. -/
theorem wp_chooseEus {Q : WearChoice → World → Prop} (h : Copied s c₀ newSlot slot o c)
    (ho : o < pagesPerSlot) (h0 : o % pagesPerEu = 0) {ws : WearState}
    (hat : WearAt s newSlot slot o ws)
    (hcb : s.flash.validEuAt (s.segMap.segToSlot firstReserveSegment) 2 = cb)
    (hcbne : cb ≠ phyAddressEmpty) (hfull : ∀ i < pagesPerSlot, c₀ slot i ≠ none)
    (hcopy : ∀ a org isToReserve, IsTarget s.flash s.segMap newSlot o a →
      IsHome s.flash s.segMap slot (o / pagesPerEu) org →
      isToReserve = !s.flash.good (euAt newSlot (o / pagesPerEu)) →
      (s.segMap.IsReserveEu a → s.flash.freeEu cb a = true) →
      Q (.copy ⟨org, a, o, o, isToReserve⟩) s)
    (hstop : ∀ t, OnChip s t → Layout t.flash t.segMap (c.clear newSlot) → Q (.stop 0) t) :
    wp (chooseEus newSlot slot false ws) Q E s := by
  have heu := div_lt_eusPerSlot ho
  have hfrom := isEu_euAt hslot.lt heu
  have hto := isEu_euAt hnew.lt heu
  have haddr : ∀ slot', calcAddress slot' 0 o = euAt slot' (o / pagesPerEu) := fun slot' => by
    rw [calcAddress_eq_euAt, h0, Nat.add_zero]
  obtain ⟨org, horg⟩ := h.layout.exists_home hslot ho (by
    rw [h.others slot hne]
    exact hfull o ho)
  -- the erase unit that is copied is found at its home
  have hsource : sourceEu (s.flash.good (euAt slot (o / pagesPerEu)))
      (euAt slot (o / pagesPerEu)) s = .ok org s := by
    unfold sourceEu
    cases hgood : s.flash.good (euAt slot (o / pagesPerEu)) with
    | true =>
      rw [if_pos rfl]
      cases horg with
      | self => rfl
      | reserve bad => rw [hgood] at bad; exact absurd bad Bool.true_eq_false.mp
    | false =>
      have hrun := h.layout.reservePhysical_run hslot hgood heu horg pagesPerEu_pos
      rw [Nat.add_zero, Nat.add_zero] at hrun
      have hne := (h.layout.isEu_home hslot heu horg).ne_empty
      rw [if_neg Bool.false_ne_true, bind_ok hrun, bind_ok (assert_run (decide_eq_true hne))]
      rfl
  have hblank : c.EuBlank newSlot (o / pagesPerEu) := by
    intro i hi
    refine h.blank _ ?_ (offset_lt heu hi)
    have := div_mul_add_mod o
    omega
  unfold chooseEus
  rw [hat.fromPageOffset, hat.toPageOffset, haddr, haddr, wp_bind,
    wp_ok_iff (nandCheckEuStatus_run hfrom.lt), Bool.and_false, if_neg Bool.false_ne_true, wp_bind,
    wp_ok_iff hsource]
  unfold isSourceUnused
  rw [if_neg Bool.false_ne_true, wp_bind, wp_pure, if_neg Bool.false_ne_true]
  unfold chooseTarget
  rw [wp_bind, wp_ok_iff (nandCheckEuStatus_run hto.lt)]
  cases hgood : s.flash.good (euAt newSlot (o / pagesPerEu)) with
  | true =>
    rw [if_pos rfl, wp_pure]
    refine hcopy _ org false ?_ horg (by rw [hgood]; rfl) fun hmem => ?_
    · have htarget : IsTarget s.flash s.segMap newSlot o
          (euAt newSlot (o / pagesPerEu) + o % pagesPerEu) := .home (.self hgood)
      rwa [h0, Nat.add_zero] at htarget
    · exact absurd hmem (hnew.not_reserve heu)
  | false =>
    obtain ⟨r, halloc, hr⟩ := allocReserveEU_free h.layout.reserves hcb hcbne hto
    rw [if_neg Bool.false_ne_true, if_neg Bool.false_ne_true, wp_bind, wp_ok_iff halloc]
    rcases hr with rfl | ⟨mem, free⟩
    · rw [if_pos rfl, wp_bind]
      exact wp_truncateSlot hE h.layout hnew fun t hon ht _ => hstop t hon ht
    · rw [if_neg (h.layout.reserves.isEu_reserve mem).ne_empty, wp_pure]
      refine hcopy r org true (.fresh hgood mem (Flash.isFree_of_freeEu free) h0
        fun home hh => ?_) horg (by rw [hgood]; rfl) fun _ => free
      exact (h.layout.replaced hnew heu hgood).mp ⟨home, hh⟩ hblank

/-- What the copying loop of a data slot comes to: all pages were copied, or there was no
reserve erase unit left for one of the new slot, which is blank again. -/
def DataCopied (f : Flash) (c₀ : Contents) (cb newSlot slot : Nat) (r : Option Nat) (t : World) :
    Prop :=
  r = none ∧ (∃ c', Copied t c₀ newSlot slot pagesPerSlot c') ∧
      CopiedMarks f t.flash t.segMap cb newSlot pagesPerSlot ∨
    r = some 0 ∧ ∃ c', Layout t.flash t.segMap c' ∧ (∀ i, c' newSlot i = none) ∧
      ∀ slot', slot' ≠ newSlot → c' slot' = c₀ slot'

/-- The copying loop of a data slot, from page `o` on. -/
theorem copySlotLoop_spec (n : Nat) {ws : WearState} (h : Copied s c₀ newSlot slot o c)
    (hmarks : CopiedMarks f s.flash s.segMap cb newSlot o)
    (hat : WearAt s newSlot slot o ws) (hn : pagesPerSlot ≤ o + n) (ho : o ≤ pagesPerSlot)
    (hcb : s.flash.validEuAt (s.segMap.segToSlot firstReserveSegment) 2 = cb)
    (hcbne : cb ≠ phyAddressEmpty) :
    wp (copySlotLoop newSlot slot false n ws)
      (fun r t => OnChip s t ∧ DataCopied f c₀ cb newSlot slot r t) E s := by
  induction n generalizing s c o ws with
  | zero =>
    obtain rfl : o = pagesPerSlot := by omega
    exact ⟨OnChip.refl s, .inl ⟨rfl, ⟨c, h⟩, hmarks⟩⟩
  | succ n ih =>
    unfold copySlotLoop
    rw [hat.fromPageOffset, hat.toPageOffset]
    refine wp_ite (fun hlt => ?_) fun hge => ?_
    swap
    · obtain rfl : o = pagesPerSlot := by
        have : ¬o < pagesPerSlot := fun hlt => hge ⟨hlt, hlt⟩
        omega
      exact ⟨OnChip.refl s, .inl ⟨rfl, ⟨c, h⟩, hmarks⟩⟩
    have ho := hlt.1
    have hpos := pagesPerEu_pos
    -- the loop goes on after page `o`, wherever that was copied to
    have hnext : ∀ (us : WearState) {t : World} {c' : Contents} {org : Nat}, OnChip s t →
        Copied t c₀ newSlot slot (o + 1) c' →
        CopiedMarks f t.flash t.segMap cb newSlot (o + 1) →
        us.fromPageOffset = o → us.toPageOffset = o →
        us.fromPhyAddr = org + o % pagesPerEu →
        (s.flash.good (euAt newSlot (o / pagesPerEu)) = true → us.isToReserve = false) →
        (∃ home, us.toPhyAddr = home + o % pagesPerEu ∧
          IsHome t.flash t.segMap newSlot (o / pagesPerEu) home) →
        IsHome t.flash t.segMap slot (o / pagesPerEu) org →
        wp (copySlotLoop newSlot slot false n us.advance)
          (fun r u => OnChip s u ∧ DataCopied f c₀ cb newSlot slot r u) E t := by
      intro us t c' org hon hc hmarks' hfrom hto haddr hres hhome horg
      have hm := hon.segMap
      have hsame : (o + 1) % pagesPerEu ≠ 0 → (o + 1) / pagesPerEu = o / pagesPerEu := by
        intro hin
        rw [Nat.succ_div, if_neg fun hdvd => hin (Nat.mod_eq_zero_of_dvd hdvd), Nat.add_zero]
      have hadv : WearAt t newSlot slot (o + 1) us.advance := by
        refine ⟨congrArg (· + 1) hfrom, congrArg (· + 1) hto, fun hin => ?_, fun hin hgood => ?_⟩
        · have hdiv := hsame hin
          have hmod : (o + 1) % pagesPerEu = o % pagesPerEu + 1 := by
            have h1 := div_mul_add_mod o
            have h2 := div_mul_add_mod (o + 1)
            rw [hdiv] at h2
            omega
          obtain ⟨home, hhaddr, hh⟩ := hhome
          refine ⟨home, org, by rw [hdiv]; exact hh, by rw [hdiv]; exact horg, ?_, ?_⟩
          · show us.toPhyAddr + 1 = _
            rw [hhaddr, hmod, Nat.add_assoc]
          · show us.fromPhyAddr + 1 = _
            rw [haddr, hmod, Nat.add_assoc]
        · rw [hsame hin, hon.good] at hgood
          exact hres hgood
      have hcb' : t.flash.validEuAt (t.segMap.segToSlot firstReserveSegment) 2 = cb := by
        rw [hm, Flash.validEuAt_congr hon.badEu]
        exact hcb
      have hih := ih (by rw [hm]; exact hslot) (by rw [hm]; exact hnew) hc hmarks' hadv (by omega)
        ho hcb'
      exact wp_mono hih (fun r u hu => ⟨hon.trans hu.1, hu.2⟩) fun _ _ he => he
    by_cases hin : o % pagesPerEu = 0
    · rw [if_neg (show ¬calcOffsetInEu o ≠ 0 from not_not_intro hin), wp_bind]
      refine wp_chooseEus hE hslot hne hnew h ho hin hat hcb hcbne hfull
        (fun a org isToReserve ht horg hres hfresh => ?_) fun t hon hlay => ?_
      · have haddr : org = org + o % pagesPerEu := by rw [hin, Nat.add_zero]
        have hto : s.flash.good (euAt newSlot (o / pagesPerEu)) = true → isToReserve = false := by
          intro hgood
          rw [hres, hgood]
          rfl
        rw [wp_bind]
        show wp (copyPage a org isToReserve (calcAddress newSlot 0 o) false) _ E s
        rw [haddr]
        refine wp_copyPage hE hslot hne hnew hfull h hmarks ho ht horg hto hfresh hcb
          (fun hbad _ => ⟨by rw [hres, hbad]; rfl, ?_⟩) fun t c' hon hc hmarks' hhome horg' => ?_
        · rw [calcAddress_eq_euAt, hin, Nat.add_zero]
        · exact hnext ⟨org + o % pagesPerEu, a, o, o, isToReserve⟩ hon hc hmarks' rfl rfl rfl hto
            hhome horg'
      · refine ⟨hon, .inr ⟨rfl, c.clear newSlot, hlay, fun i => Contents.clear_self i,
          fun slot' hs => ?_⟩⟩
        funext i
        rw [Contents.clear_of_ne hs, h.others slot' hs]
    · rw [if_pos (show calcOffsetInEu o ≠ 0 from hin), wp_bind]
      obtain ⟨home, org, hh, horg, hto, hfrom⟩ := hat.inside hin
      rw [hto, hfrom]
      refine wp_copyPage hE hslot hne hnew hfull h hmarks ho (.home hh) horg (hat.toReserve hin)
        (fun hmem => ?_) hcb (fun _ h0 => absurd h0 hin) fun t c' hon hc hmarks' hhome horg' => ?_
      · -- a page inside an erase unit is not the first of one
        have hiseu := h.layout.isEu_home hnew (div_lt_eusPerSlot ho) hh
        have hzero := ((h.layout.reserves.isEu_reserve hmem).add_inj hiseu hpos
          (Nat.mod_lt o hpos) (Nat.add_zero _)).2
        exact absurd hzero.symm hin
      · exact hnext _ hon hc hmarks' hat.fromPageOffset hat.toPageOffset hfrom (hat.toReserve hin)
          (by rw [hto]; exact hhome) horg'

end Copy

end NandFs
