import NandFs.SlotWrites

/-! # The driver on slots

The programs, erases and searches of the layer, as what they do to the contents of the
slots: a page is written at its target, `truncateSlot` clears a slot, and `allocReserveEU`
finds a target for the first page of a bad erase unit.
-/
namespace NandFs

open Program

variable [Config]

/-! ## The copy-back unit -/

/-- The valid erase units of a slot depend on the bad-block bytes only. -/
theorem Flash.validEuAt_congr {f t : Flash} (h : t.badEu = f.badEu) (slot location : Nat) :
    t.validEuAt slot location = f.validEuAt slot location := by
  have hgood : t.good = f.good := funext (Flash.good_congr h)
  unfold Flash.validEuAt
  rw [hgood]

/-- The copy-back unit: the second valid erase unit of the first reserve segment. -/
abbrev Flash.copyBackEu (f : Flash) (m : SegMap) : Nat :=
  f.validEuAt (m.segToSlot firstReserveSegment) 2

/-- The copy-back unit is there, and free. -/
structure CopyBackFree (f : Flash) (m : SegMap) : Prop where
  valid : f.copyBackEu m ≠ phyAddressEmpty
  free : f.IsFree (f.copyBackEu m)

/-- The copy-back unit is free, and the page at the head is not in it. -/
structure CopyBackSpared (f : Flash) (m : SegMap) : Prop extends CopyBackFree f m where
  notHead : m.isEuReserve = true → m.reserveEuAddr ≠ f.copyBackEu m

section CopyBack
variable {f t : Flash} {m m' : SegMap} {slot e home a : Nat} {page : Page}

/-- It depends on the slots of the segments only. -/
theorem copyBackFree_congr (hm : m'.segToSlot = m.segToSlot) :
    CopyBackFree f m' ↔ CopyBackFree f m := by
  have hcb : f.copyBackEu m' = f.copyBackEu m := by rw [Flash.copyBackEu, hm]
  constructor
  · exact fun h => ⟨hcb ▸ h.valid, hcb ▸ h.free⟩
  · exact fun h => ⟨hcb.symm ▸ h.valid, hcb.symm ▸ h.free⟩

theorem Flash.copyBackEu_eq (h : f.copyBackEu m ≠ phyAddressEmpty) : ∃ k < eusPerSlot,
    f.copyBackEu m = euAt (m.segToSlot firstReserveSegment) k := by
  obtain ⟨hmem, -⟩ := Flash.validEuAt_spec h
  obtain ⟨k, hk, heq⟩ := List.mem_map.mp hmem
  exact ⟨k, List.mem_range.mp hk, heq.symm⟩

theorem Flash.copyBackEu_mem (h : f.copyBackEu m ≠ phyAddressEmpty) :
    m.IsReserveEu (f.copyBackEu m) := by
  obtain ⟨k, hk, heq⟩ := Flash.copyBackEu_eq h
  exact ⟨_, firstReserveSegment_mem, k, hk, heq⟩

theorem CopyBackFree.mem (h : CopyBackFree f m) : m.IsReserveEu (f.copyBackEu m) :=
  Flash.copyBackEu_mem h.valid

/-- It is no home of an erase unit of a data slot. -/
theorem CopyBackFree.ne_home (h : CopyBackFree f m) (hslot : m.IsDataSlot slot)
    (he : e < eusPerSlot) (hh : IsHome f m slot e home) : home ≠ f.copyBackEu m := by
  rintro rfl
  exact hh.not_free hslot he h.mem h.free

theorem CopyBackFree.getSlot (h : CopyBackFree f m) :
    getSlot (f.copyBackEu m) = m.segToSlot firstReserveSegment := by
  obtain ⟨k, hk, heq⟩ := Flash.copyBackEu_eq h.valid
  rw [heq, ← Nat.add_zero (euAt _ k), getSlot_euAt hk pagesPerEu_pos]

/-- It is in no data slot. -/
theorem CopyBackFree.ne_data (h : CopyBackFree f m) (hslot : m.IsDataSlot slot)
    (he : e < eusPerSlot) {i : Nat} (hi : i < pagesPerEu) : euAt slot e + i ≠ f.copyBackEu m := by
  intro heq
  have hin := (getSlot_euAt he hi : NandFs.getSlot (euAt slot e + i) = slot)
  rw [heq, h.getSlot] at hin
  exact hslot.data _ firstReserveSegment_mem hin

/-- It stays free where its first page keeps its mark. -/
theorem CopyBackFree.of_flag (h : CopyBackFree f m) (hbad : t.badEu = f.badEu)
    (hslot : m'.segToSlot firstReserveSegment = m.segToSlot firstReserveSegment)
    (hflag : (t.page (f.copyBackEu m)).flags.slotEuOffset =
      (f.page (f.copyBackEu m)).flags.slotEuOffset) : CopyBackFree t m' := by
  have hcb : t.copyBackEu m' = f.copyBackEu m := by
    rw [Flash.copyBackEu, hslot, Flash.validEuAt_congr hbad]
  refine ⟨by rw [hcb]; exact h.valid, ?_⟩
  rw [hcb]
  exact ⟨(Flash.good_congr hbad _).trans h.free.1, hflag.trans h.free.2⟩

/-- Of the map only the slots and the place of the head are looked at. -/
theorem CopyBackSpared.congr (h : CopyBackSpared f m)
    (hslot : m'.segToSlot firstReserveSegment = m.segToSlot firstReserveSegment)
    (hres : m'.isEuReserve = m.isEuReserve) (haddr : m'.reserveEuAddr = m.reserveEuAddr) :
    CopyBackSpared f m' where
  toCopyBackFree := h.of_flag rfl hslot rfl
  notHead := by
    rw [Flash.copyBackEu, hslot, hres, haddr]
    exact h.notHead

/-- A program outside it leaves it free. -/
theorem CopyBackSpared.program (h : CopyBackSpared f m) (ht : f.Programmed page a t)
    (ha : a ≠ f.copyBackEu m) : CopyBackSpared t m where
  toCopyBackFree := h.of_flag ht.badEu rfl (by rw [ht.page_of_ne ha.symm])
  notHead := by
    rw [Flash.copyBackEu, Flash.validEuAt_congr ht.badEu]
    exact h.notHead

/-- An erase leaves it free. -/
theorem CopyBackSpared.erase (h : CopyBackSpared f m) (ht : f.Erased e t) : CopyBackSpared t m where
  toCopyBackFree := by
    refine h.of_flag ht.badEu rfl ?_
    rw [ht.page_eq]
    split
    · exact h.free.2.symm
    · rfl
  notHead := by
    rw [Flash.copyBackEu, Flash.validEuAt_congr ht.badEu]
    exact h.notHead

end CopyBack

/-- Only the pages of the chip differ.  A copy-back unit that is free stays so. -/
structure OnChip (s t : World) : Prop where
  segMap : t.segMap = s.segMap
  obsCountersMap : t.obsCountersMap = s.obsCountersMap
  lfsrState : t.lfsrState = s.lfsrState
  badEu : t.flash.badEu = s.flash.badEu
  spared : CopyBackSpared s.flash s.segMap → CopyBackSpared t.flash t.segMap

theorem OnChip.refl (s : World) : OnChip s s := ⟨rfl, rfl, rfl, rfl, id⟩

theorem OnChip.trans {s t u : World} (h : OnChip s t) (h' : OnChip t u) : OnChip s u where
  segMap := h'.segMap.trans h.segMap
  obsCountersMap := h'.obsCountersMap.trans h.obsCountersMap
  lfsrState := h'.lfsrState.trans h.lfsrState
  badEu := h'.badEu.trans h.badEu
  spared hs := h'.spared (h.spared hs)

/-- An erase. -/
theorem OnChip.erase {s : World} {t : Flash} {eu : Nat} (h : s.flash.Erased eu t) :
    OnChip s { s with flash := t } :=
  ⟨rfl, rfl, rfl, h.badEu, fun hs => hs.erase h⟩

theorem OnChip.good {s t : World} (h : OnChip s t) (eu : Nat) :
    t.flash.good eu = s.flash.good eu :=
  Flash.good_congr h.badEu _

section Driver
variable {E : Halt → World → Prop} (hE : ∀ t, E .powerLoss t) {Q : Nat → World → Prop} {s : World}
  {c : Contents} {slot o eu home a : Nat} {page : Page}

theorem IsTarget.lt (h : Layout s.flash s.segMap c) (hslot : s.segMap.IsDataSlot slot)
    (ho : o < pagesPerSlot) (ht : IsTarget s.flash s.segMap slot o a) : a < pageCount := by
  cases ht with
  | home hh =>
    exact (h.isEu_home hslot (div_lt_eusPerSlot ho) hh).add_lt (Nat.mod_lt _ pagesPerEu_pos)
  | fresh _ mem => exact (h.reserves.isEu_reserve mem).lt

include hE

theorem wp_programAt (h : Layout s.flash s.segMap c) (hslot : s.segMap.IsDataSlot slot)
    (ho : o < pagesPerSlot) (hnone : c slot o = none)
    (ht : IsTarget s.flash s.segMap slot o a)
    (hcb : CopyBackSpared s.flash s.segMap → a ≠ s.flash.copyBackEu s.segMap) (hw : page.Written)
    (hplace : s.flash.good (euAt slot (o / pagesPerEu)) = false → o % pagesPerEu = 0 →
      page.flags.slotEuOffset = calculateSlotIdAndEuOffset (euAt slot (o / pagesPerEu)))
    (hq : ∀ t, OnChip s t → s.flash.Programmed page a t.flash →
      Layout t.flash t.segMap (c.set slot o page.stored) →
      (∃ home, a = home + o % pagesPerEu ∧ IsHome t.flash t.segMap slot (o / pagesPerEu) home) →
      (∀ {slot' e home}, s.segMap.IsDataSlot slot' → e < eusPerSlot →
        IsHome s.flash s.segMap slot' e home → IsHome t.flash t.segMap slot' e home) →
      Q 0 t) :
    wp (nandProgramTotalPage page a) Q E s := by
  obtain ⟨hblank, hclean⟩ := h.blank_at_target hslot ho hnone ht
  refine wp_nandProgramTotalPage (ht.lt h hslot ho) hclean hblank (fun t hp _ => ?_)
    fun _ => hE s
  exact hq { s with flash := t } ⟨rfl, rfl, rfl, hp.badEu, fun h => h.program hp (hcb h)⟩ hp
    (h.program hslot ho hnone ht hp hw hplace)
    (ht.home_of_programmed hp hw hplace)
    fun hs he hh => hh.of_programmed hs he hblank hp

omit hE in
/-- An erase of an erase unit of a slot leaves the other slots as they are. -/
theorem Flash.Erased.other_slot {f t : Flash} {e a : Nat} (h : f.Erased (euAt slot e) t)
    (he : e < eusPerSlot) (ha : getSlot a ≠ slot) :
    t.page a = f.page a ∧ t.mainAreaWrites a = f.mainAreaWrites a := by
  have hne : calcEuStart a ≠ euAt slot e := by
    intro hstart
    refine ha ?_
    have hsum : euAt slot e + a % pagesPerEu = a := by
      have := Nat.mod_le a pagesPerEu
      rw [← hstart, calcEuStart]
      omega
    rw [← hsum]
    exact getSlot_euAt he (Nat.mod_lt a pagesPerEu_pos)
  rw [h.page_eq, h.writes, if_neg hne, if_neg hne]
  exact ⟨rfl, rfl⟩

/-- Only pages of the slot, and of reserve slots, differ. -/
def SameBeside (m : SegMap) (slot : Nat) (f t : Flash) : Prop :=
  ∀ a, getSlot a ≠ slot → (∀ seg ∈ reserveSegments, getSlot a ≠ m.segToSlot seg) →
    t.page a = f.page a

omit hE in
/-- The erase of a home. -/
theorem IsHome.sameBeside {f t : Flash} {m : SegMap} (hh : IsHome f m slot eu home)
    (heu : eu < eusPerSlot) (ht : f.Erased home t) : SameBeside m slot f t := by
  intro a ha hres
  cases hh with
  | self => exact (ht.other_slot heu ha).1
  | reserve _ mem =>
    obtain ⟨seg, hseg, k, hk, rfl⟩ := mem
    exact (ht.other_slot hk (hres seg hseg)).1

/-- An erase at any page of an erase unit that is not bad. -/
theorem wp_nandErase_add (heu : IsEu eu) (hgood : s.flash.good eu = true) {i : Nat}
    (hi : i < pagesPerEu)
    (hq : ∀ t, s.flash.Erased eu t → Q 0 { s with flash := t }) :
    wp (nandErase (eu + i)) Q E s := by
  have hstart : nandErase (eu + i) s = nandErase eu s := by
    have hlt := heu.add_lt hi
    have := heu.lt
    unfold nandErase
    rw [bind_ok (getFp_run hlt), bind_ok (getFp_run heu.lt), if_neg (by omega),
      if_neg (by omega), heu.calcEuStart_add hi, heu.calcEuStart_self]
  unfold wp
  rw [hstart]
  exact wp_nandErase heu hgood (fun t ht _ => hq t ht) fun _ => hE s

/-- The erase units `eus` of a data slot are erased, each at its home if it has one. -/
theorem wp_truncateEus {K : Flash → Prop}
    (hK : ∀ {f t : Flash} {eu home : Nat}, eu < eusPerSlot → IsHome f s.segMap slot eu home →
      f.Erased home t → K f → K t) (eus : List Nat) (heus : ∀ eu ∈ eus, eu < eusPerSlot)
    (h : Layout s.flash s.segMap c) (hslot : s.segMap.IsDataSlot slot) (hkeep : K s.flash)
    (hq : ∀ t, OnChip s t → Layout t.flash t.segMap (c.clearEus slot eus) → K t.flash → Q 0 t) :
    wp (truncateEus false (eus.map fun eu => euAt slot eu + maxEuOffset)) Q E s := by
  induction eus generalizing s c with
  | nil =>
    refine hq s (OnChip.refl s) (h.congr_contents fun slot' _ o _ => ?_) hkeep
    by_cases hs : slot' = slot
    · subst hs
      exact Contents.clearEus_of_not_mem List.not_mem_nil
    · exact Contents.clearEus_of_ne hs o
  | cons eu eus ih =>
    have heu := heus eu List.mem_cons_self
    have hlast : maxEuOffset < pagesPerEu := Nat.sub_lt pagesPerEu_pos Nat.one_pos
    have hiseu := isEu_euAt hslot.lt heu
    -- one erase unit after the other
    have hclear : (c.clearEus slot [eu]).clearEus slot eus = c.clearEus slot (eu :: eus) :=
      c.clearEus_clearEus slot fun e => by rw [List.mem_cons, List.mem_singleton]
    have hrest : ∀ t, OnChip s t → Layout t.flash t.segMap (c.clearEus slot [eu]) → K t.flash →
        wp (truncateEus false (eus.map fun eu => euAt slot eu + maxEuOffset)) Q E t := by
      intro t hst hlay hkeep
      refine ih (fun he hh ht hk => hK he (by rwa [hst.segMap] at hh) ht hk)
        (fun e he => heus e (List.mem_cons_of_mem _ he)) hlay (by rw [hst.segMap]; exact hslot) hkeep
        fun u htu hu hkeep' => hq u (hst.trans htu) (hclear ▸ hu) hkeep'
    have herase : ∀ home, IsHome s.flash s.segMap slot eu home →
        wp (seqVerify (nandErase (home + maxEuOffset))
          (truncateEus false (eus.map fun eu => euAt slot eu + maxEuOffset))) Q E s := by
      intro home hh
      refine wp_seqVerify (wp_nandErase_add hE (h.isEu_home hslot heu hh) hh.good hlast
        fun t ht => ?_)
      rw [if_neg (not_not_intro rfl)]
      exact hrest _ (.erase ht) (h.erase hslot heu hh ht) (hK heu hh ht hkeep)
    rw [List.map_cons]
    unfold truncateEus
    rw [wp_bind, wp_ok_iff (nandCheckEuStatus_run (hiseu.add_lt hlast)), hiseu.good_add hlast]
    cases hgood : s.flash.good (euAt slot eu) with
    | true =>
      rw [if_pos rfl]
      exact herase _ (.self hgood)
    | false =>
      rw [if_neg Bool.false_ne_true, if_neg Bool.false_ne_true]
      by_cases hhome : ∃ home, IsHome s.flash s.segMap slot eu home
      · obtain ⟨home, hh⟩ := hhome
        have hne := ne_empty_of_lt ((h.isEu_home hslot heu hh).add_lt hlast)
        rw [wp_bind, wp_ok_iff (h.reservePhysical_run hslot hgood heu hh hlast), if_pos hne]
        exact herase home hh
      · have hblank : c.EuBlank slot eu := by
          by_contra hnb
          exact hhome ((h.replaced hslot heu hgood).mpr hnb)
        rw [wp_bind, wp_ok_iff (h.reservePhysical_run_blank hslot hgood heu hblank hlast),
          if_neg (not_not_intro rfl)]
        refine hrest s (OnChip.refl s) (h.congr_contents fun slot' _ o _ => ?_) hkeep
        by_cases hs : slot' = slot
        · subst hs
          by_cases hm : o / pagesPerEu ∈ [eu]
          · have hno := hblank _ (Nat.mod_lt o pagesPerEu_pos)
            rw [← List.mem_singleton.mp hm, div_mul_add_mod] at hno
            rw [Contents.clearEus_of_mem hm, hno]
          · exact Contents.clearEus_of_not_mem hm
        · exact Contents.clearEus_of_ne hs o

/-- `truncateSlot` clears a data slot, and keeps what the erases keep. -/
theorem wp_truncateSlot_keeps {K : Flash → Prop}
    (hK : ∀ {f t : Flash} {eu home : Nat}, eu < eusPerSlot → IsHome f s.segMap slot eu home →
      f.Erased home t → K f → K t) (h : Layout s.flash s.segMap c)
    (hslot : s.segMap.IsDataSlot slot) (hkeep : K s.flash)
    (hq : ∀ t, OnChip s t → Layout t.flash t.segMap (c.clear slot) → K t.flash → Q 0 t) :
    wp (truncateSlot slot false) Q E s := by
  have hlist : (slotEus slot).reverse.map (· + maxEuOffset)
      = (List.range eusPerSlot).reverse.map fun eu => euAt slot eu + maxEuOffset := by
    rw [slotEus, ← List.map_reverse, List.map_map]
    rfl
  unfold truncateSlot
  rw [if_pos hslot.lt, hlist]
  refine wp_truncateEus hE hK _ (fun eu hmem => List.mem_range.mp (List.mem_reverse.mp hmem)) h
    hslot hkeep fun t hst ht hkeep => hq t hst (ht.congr_contents fun slot' _ o ho => ?_) hkeep
  by_cases hs : slot' = slot
  · subst hs
    rw [Contents.clear_self, Contents.clearEus_of_mem]
    exact List.mem_reverse.mpr (List.mem_range.mpr (div_lt_eusPerSlot ho))
  · rw [Contents.clear_of_ne hs, Contents.clearEus_of_ne hs]

/-- `truncateSlot` clears a data slot. -/
theorem wp_truncateSlot (h : Layout s.flash s.segMap c) (hslot : s.segMap.IsDataSlot slot)
    (hq : ∀ t, OnChip s t → Layout t.flash t.segMap (c.clear slot) →
      SameBeside s.segMap slot s.flash t.flash → Q 0 t) :
    wp (truncateSlot slot false) Q E s :=
  wp_truncateSlot_keeps hE (K := SameBeside s.segMap slot s.flash)
    (fun heu hh ht hsame a ha hres => (hh.sameBeside heu ht a ha hres).trans (hsame a ha hres)) h hslot
    (fun _ _ _ => rfl) hq

omit hE in
/-- The search for a free reserve erase unit finds one that is not the copy-back one, or there
is none left. -/
theorem allocReserveEU_free {cb : Nat} (h : s.segMap.ReservesInChip)
    (hcb : s.flash.validEuAt (s.segMap.segToSlot firstReserveSegment) 2 = cb)
    (hne : cb ≠ phyAddressEmpty) (hiseu : IsEu eu) : ∃ r, allocReserveEU eu s = .ok r s ∧
      (r = phyAddressEmpty ∨ s.segMap.IsReserveEu r ∧ s.flash.freeEu cb r = true) := by
  subst hcb
  refine ⟨_, allocReserveEU_run h hiseu hne, ?_⟩
  cases hfind : (s.segMap.reserveEus (calcEuOffset eu)).find? (s.flash.freeEu
      (s.flash.validEuAt (s.segMap.segToSlot firstReserveSegment) 2)) with
  | none => exact .inl rfl
  | some r =>
    exact .inr ⟨SegMap.mem_reserveEus.mp (List.mem_of_find?_eq_some hfind),
      List.find?_some hfind⟩

omit hE in
theorem Flash.isFree_of_freeEu {f : Flash} {cb eu : Nat} (h : f.freeEu cb eu = true) :
    f.IsFree eu := by
  obtain ⟨hgood, -, hflag⟩ := Flash.freeEu_iff.mp h
  exact ⟨hgood, hflag⟩

end Driver

end NandFs
