import NandFs.CopyBackRun
import NandFs.Boot

/-! # Recovering from a copy-back that was interrupted

`handleCopyBack` on a chip whose copy-back unit holds pages.  The search for the last valid
page answers the same for a copy that is complete and one that is not, so whatever the
original erase unit still holds, it is erased and gets what the copy-back unit holds.
-/
namespace NandFs

open Program

variable [Config]

open Config

/-! ## Writing back what the copy-back unit holds -/

section WriteBack
variable {w : World} {home cb orgFrom : Nat} {saved : Nat → Page} {q : Nat}

/-- The pages in the copy-back unit are written to an erase unit, and the copy-back unit is
erased. -/
theorem writeBack_spec (hhome : IsEu home) (hcb : IsEu cb) (hne : home ≠ cb)
    (hgood : w.flash.good home = true) (hgoodCb : w.flash.good cb = true)
    (hused : ∀ i < q, isPageUsed (saved i).flags = true) (hq : q < pagesPerEu)
    (hpages : EuPages w.flash cb saved q) (hpower : w.flash.power = none) :
    wp (copyBackSimple cb (home + (pagesPerEu - 1)) true orgFrom)
      (fun res t => res = 0 ∧ EuPages t.flash home (copyBackImage saved cb false orgFrom) q ∧
        (∀ i < pagesPerEu, t.flash.page (cb + i) = initBuf) ∧ Elsewhere w home cb t)
      (fun _ _ => False) w := by
  have hlt : pagesPerEu - 1 < pagesPerEu := by omega
  unfold copyBackSimple
  rw [hhome.calcOffsetInEu_add hlt, hhome.calcEuStart_add hlt]
  refine wp_seqVerify ?_
  show wp (pure 0) _ _ w
  rw [wp_pure, if_neg (not_not_intro rfl)]
  refine wp_mono (restore_spec hhome hcb hne hgood hgoodCb hused (by omega) hlt hpages
    ⟨fun _ _ _ => rfl, rfl, rfl⟩ (Spent.zero w)) ?_ ?_
  · rintro res t ⟨rfl, ht⟩
    exact ⟨rfl, ht.pages_home, ht.blank_cb, ht.elsewhere⟩
  · -- with power there is no loss of it
    rintro e t ⟨-, hpow, rfl | ⟨k, -, ht⟩⟩
    · rw [hpower] at hpow
      exact absurd hpow (by simp)
    · have hspent := ht.spent
      rw [Spent, hpow, hpower] at hspent
      exact absurd hspent (by simp)

end WriteBack

/-- The search of `erasePossibleEUReplacement` erases an erase unit that is not used, and finds one
if there is one. -/
theorem eraseFirstUnused_spec {w : World} {expectedCbEu org : Nat} (hpower : w.flash.power = none)
    (hgood : w.flash.good org = true) (hunused : isPageUsed (w.flash.page org).flags = false)
    (eus : List Nat) (heus : ∀ eu ∈ eus, IsEu eu) :
    wp (eraseFirstUnused expectedCbEu eus)
      (fun res t => (org ∈ eus → org ≠ expectedCbEu → res = 0) ∧ (res = 0 → ∃ eu f,
        isPageUsed (w.flash.page eu).flags = false ∧ w.flash.Erased eu f ∧
          t = { w with flash := f }))
      (fun _ _ => False) w := by
  induction eus with
  | nil => exact ⟨fun hmem => absurd hmem List.not_mem_nil, fun hno => absurd hno Nat.one_ne_zero⟩
  | cons eu eus ih =>
    have heu := heus eu List.mem_cons_self
    -- an erase unit that is passed over is not the one that can be erased
    have hrest : (eu = org → org = expectedCbEu) → wp (eraseFirstUnused expectedCbEu eus)
        (fun res t => (org ∈ eu :: eus → org ≠ expectedCbEu → res = 0) ∧ (res = 0 → ∃ eu f,
          isPageUsed (w.flash.page eu).flags = false ∧ w.flash.Erased eu f ∧
            t = { w with flash := f })) (fun _ _ => False) w := by
      intro hne
      refine wp_mono (ih fun e he => heus e (List.mem_cons_of_mem _ he)) ?_ fun _ _ hf => hf
      rintro res t ⟨hfound, herased⟩
      refine ⟨fun hmem hcb => hfound ?_ hcb, herased⟩
      exact (List.mem_cons.mp hmem).resolve_left fun h => hcb (hne h.symm)
    unfold eraseFirstUnused
    by_cases hcb : eu ≠ expectedCbEu
    · rw [if_pos hcb, wp_bind, wp_ok_iff (nandCheckEuStatus_run heu.lt)]
      cases hvalid : w.flash.good eu with
      | true =>
        rw [if_pos rfl, wp_bind, wp_ok_iff (nandReadPageFlags_run heu.lt)]
        refine wp_ite (fun hused => hrest ?_) fun hused => ?_
        · rintro rfl
          rw [hunused] at hused
          exact absurd hused Bool.false_ne_true
        · refine wp_nandErase heu hvalid (fun f hf _ => ?_) fun hp => ?_
          · exact ⟨fun _ _ => rfl, fun _ => ⟨eu, f, Bool.eq_false_of_not_eq_true hused, hf, rfl⟩⟩
          · rw [hpower] at hp
            exact absurd hp (by simp)
      | false =>
        rw [if_neg Bool.false_ne_true, wp_bind, wp_ok_iff (nandErase_run_bad heu hvalid), wp_bind,
          wp_ok_iff (nandCheckEuStatus_run heu.lt), hvalid, if_neg Bool.false_ne_true]
        refine hrest ?_
        rintro rfl
        rw [hgood] at hvalid
        exact absurd hvalid.symm Bool.false_ne_true
    · rw [if_neg hcb]
      refine hrest ?_
      rintro rfl
      exact not_not.mp hcb

/-! ## Recovery of an interrupted copy-back -/

/-- Where the pages of the erase unit `eu` are to go in a world: `home` is `eu` itself or,
where that is bad, the one reserve erase unit that stands for it. -/
structure Interrupted (w : World) (eu cb : Nat) (saved : Nat → Page) (q : Nat) : Prop where
  reserves : w.segMap.ReservesInChip
  power : w.flash.power = none
  isEu : IsEu eu
  cb_eq : w.flash.validEuAt (w.segMap.segToSlot firstReserveSegment) 2 = cb
  cb_ne : cb ≠ phyAddressEmpty
  pages : EuPages w.flash cb saved q
  pos : 0 < q
  lt : q < pagesPerEu
  used : ∀ i < q, isPageUsed (saved i).flags = true
  copyBack : (saved 0).flags.copyBack = true
  place : (saved 0).flags.slotEuOffset = calculateSlotIdAndEuOffset eu

/-- The recovery is complete: the copy-back unit is empty, and the erase unit `eu`, or the one
that replaces it, holds `pages`. -/
def RecoveredTo (eu cb : Nat) (pages : Nat → Page) (count : Nat) (w : World) : Prop :=
  (∀ i < pagesPerEu, w.flash.page (cb + i) = initBuf) ∧
    ∃ home, validOrReserveEu eu w = .ok home w ∧ EuPages w.flash home pages count

theorem validOrReserveEu_run_good {w : World} {eu : Nat} (heu : IsEu eu)
    (hgood : w.flash.good eu = true) : validOrReserveEu eu w = .ok eu w := by
  unfold validOrReserveEu
  rw [bind_ok (nandCheckEuStatus_run heu.lt), hgood]
  rfl

theorem validOrReserveEu_run_bad {w : World} {eu home : Nat} (heu : IsEu eu)
    (hbad : w.flash.good eu = false) (hres : w.segMap.ReservesInChip)
    (hhome : w.reserveOf eu = some home) : validOrReserveEu eu w = .ok home w := by
  unfold validOrReserveEu
  rw [bind_ok (nandCheckEuStatus_run heu.lt), hbad, if_neg Bool.false_ne_true,
    logicalAddressToReservePhysical_run hres heu, hhome]
  rfl

namespace Interrupted
variable {w : World} {eu cb : Nat} {saved : Nat → Page} {q : Nat}
  (h : Interrupted w eu cb saved q)
include h

theorem cb_mem : cb ∈ slotEus (w.segMap.segToSlot firstReserveSegment) ∧ w.flash.good cb = true := by
  have hne := h.cb_ne
  rw [← h.cb_eq] at hne ⊢
  exact Flash.validEuAt_spec hne

theorem isEu_cb : IsEu cb := isEu_of_mem_slotEus (h.reserves _ firstReserveSegment_mem) h.cb_mem.1

theorem cb_used : isPageUsed (w.flash.page cb).flags = true := by
  rw [h.pages.first h.pos]
  exact h.used 0 h.pos

theorem getCopybackEu_eq : getCopybackEu w = .ok cb w := by
  rw [getCopybackEu_run h.reserves, h.cb_eq]

theorem lastOffset_cb : getLastValidEuPage cb w = .ok (cb + (pagesPerEu - 1)) w := by
  rw [getLastValidEuPage_offset h.isEu_cb, if_pos h.cb_used]

/-- The test for a copy that is not complete always fails. -/
theorem looks_complete (a : Nat) : ¬(pageCount ≤ calcOffsetInEu (cb + (pagesPerEu - 1)) ∨
    calcOffsetInEu (cb + (pagesPerEu - 1)) < calcOffsetInEu a) := by
  have hpos := pagesPerEu_pos
  have hlt : pagesPerEu - 1 < pagesPerEu := by omega
  have hchip := h.isEu_cb.add_lt hlt
  have hmod : calcOffsetInEu a < pagesPerEu := Nat.mod_lt _ hpos
  rw [h.isEu_cb.calcOffsetInEu_add hlt]
  omega

/-- The original erase unit is not bad: it is erased, and written with what the copy-back
unit holds. -/
theorem recover_good (hgood : w.flash.good eu = true) (hne : eu ≠ cb) :
    wp handleCopyBack (fun r t => r.1 = 0 ∧
        RecoveredTo eu cb (copyBackImage saved cb false phyAddressEmpty) q t)
      (fun _ _ => False) w := by
  have hlt : pagesPerEu - 1 < pagesPerEu := by have := pagesPerEu_pos; omega
  unfold handleCopyBack
  rw [wp_bind, wp_ok_iff h.getCopybackEu_eq, wp_bind,
    wp_ok_iff (assert_run (decide_eq_true h.cb_ne)), wp_bind,
    wp_ok_iff (nandReadPageTotal_run h.isEu_cb.lt), h.pages.first h.pos]
  show wp (if (saved 0).flags.copyBack = true then _ else _) _ _ w
  rw [if_pos h.copyBack, h.place, h.isEu.extractAddr_calculate, wp_bind,
    wp_ok_iff (nandCheckEuStatus_run h.isEu.lt), hgood, if_pos rfl, wp_bind,
    wp_ok_iff (getLastValidEuPage_offset h.isEu), wp_bind, wp_ok_iff h.lastOffset_cb]
  refine wp_ite (fun hc => absurd hc (h.looks_complete _)) fun _ => ?_
  rw [wp_bind, h.isEu_cb.calcOffsetInEu_add hlt]
  refine wp_seqVerify (wp_nandErase h.isEu hgood (fun f hf _ => ?_) fun hp => ?_)
  · rw [if_neg (not_not_intro rfl)]
    have hgoodf : ∀ a, f.good a = w.flash.good a := Flash.good_congr hf.badEu
    refine wp_mono (writeBack_spec h.isEu h.isEu_cb hne ((hgoodf eu).trans hgood)
      ((hgoodf cb).trans h.cb_mem.2) h.used h.lt (h.pages.erase_other h.isEu_cb hne.symm hf)
      (by rw [hf.power, h.power]; rfl)) ?_ fun _ _ hf => hf
    rintro res t ⟨rfl, hhome, hblank, helse⟩
    refine ⟨rfl, hblank, eu, validOrReserveEu_run_good h.isEu ?_, hhome⟩
    rw [helse.good, hgoodf, hgood]
  · rw [h.power] at hp
    exact absurd hp (by simp)

/-- A reserve erase unit that was written back is the one that stands for `eu`. -/
theorem reserveOf_written {t u : World} {home : Nat}
    (hmem : home ∈ u.segMap.reserveEus (calcEuOffset eu)) (hgood : u.flash.good home = true)
    (hpages : EuPages u.flash home (copyBackImage saved cb false eu) q)
    (hblank : ∀ i < pagesPerEu, u.flash.page (cb + i) = initBuf) (helse : Elsewhere t home cb u)
    (hunique : ∀ e ∈ u.segMap.reserveEus (calcEuOffset eu), e ≠ cb →
      t.flash.standsFor (calculateSlotIdAndEuOffset eu) e = true → e = home)
    (hres : u.segMap.ReservesInChip) : u.reserveOf eu = some home := by
  have hplace := calculateSlotIdAndEuOffset_lt h.isEu.lt
  have hfirst : (u.flash.page home).flags.slotEuOffset = calculateSlotIdAndEuOffset eu ∧
      (u.flash.page home).flags.copyBack = false := by
    rw [hpages.first h.pos]
    unfold copyBackImage copyBackFlags
    rw [if_neg Bool.false_ne_true, if_neg h.isEu.ne_empty]
    exact ⟨h.place, rfl⟩
  refine find?_eq_some_of_unique hmem (Flash.standsFor_iff.mpr ⟨hgood, hfirst⟩) fun e he hst => ?_
  by_contra hne
  have hecb : e ≠ cb := by
    rintro rfl
    have hpage : u.flash.page e = initBuf := hblank 0 pagesPerEu_pos
    have hslot := (Flash.standsFor_iff.mp hst).2.1
    rw [hpage] at hslot
    have hslot : noSlotAndEuOffset = _ := hslot
    unfold noSlotAndEuOffset at hslot
    omega
  refine hne (hunique e he hecb ?_)
  have hstart := (hres.isEu he).calcEuStart_self
  rw [Flash.standsFor, ← helse.good, ← helse.page e (by rw [hstart]; exact hne)
    (by rw [hstart]; exact hecb)]
  exact hst

section Bad
variable {org : Nat} (hbad : w.flash.good eu = false)
  (horg : org ∈ w.segMap.reserveEus (calcEuOffset eu)) (hgood : w.flash.good org = true)
  (hne : org ≠ cb)
  (hunique : ∀ e ∈ w.segMap.reserveEus (calcEuOffset eu),
    w.flash.standsFor (calculateSlotIdAndEuOffset eu) e = true → e = org)
include hbad horg hgood hne hunique

/-- The erase unit is bad and one of the reserve slots stands for it: that is erased, and
written with what the copy-back unit holds. -/
theorem recoverSpecial_found
    (hstands : w.flash.standsFor (calculateSlotIdAndEuOffset eu) org = true) :
    wp (handleCopyBackSpecial eu cb) (fun res t => res = 0 ∧
        RecoveredTo eu cb (copyBackImage saved cb false eu) q t)
      (fun _ _ => False) w := by
  have hlt : pagesPerEu - 1 < pagesPerEu := by have := pagesPerEu_pos; omega
  have heu : IsEu org := h.reserves.isEu horg
  have hfound : w.reserveOf eu = some org := find?_eq_some_of_unique horg hstands hunique
  unfold handleCopyBackSpecial
  rw [wp_bind, wp_ok_iff (logicalAddressToReservePhysical_run h.reserves h.isEu), hfound, wp_bind,
    wp_ok_iff h.lastOffset_cb]
  show wp (if org = phyAddressEmpty then _ else _) _ _ w
  rw [if_neg heu.ne_empty]
  show wp (getLastValidEuPage org >>= _) _ _ w
  rw [wp_bind, wp_ok_iff (getLastValidEuPage_offset heu)]
  refine wp_ite (fun hc => absurd hc (h.looks_complete _)) fun _ => ?_
  rw [h.isEu_cb.calcOffsetInEu_add hlt]
  refine wp_mono (writeBack_spec heu h.isEu_cb hne hgood h.cb_mem.2 h.used h.lt h.pages h.power)
    ?_ fun _ _ hf => hf
  rintro res t ⟨rfl, hhome, hblank, helse⟩
  have hres : t.segMap.ReservesInChip := by rw [helse.segMap]; exact h.reserves
  refine ⟨rfl, hblank, org, validOrReserveEu_run_bad h.isEu ?_ hres ?_, hhome⟩
  · rw [helse.good, hbad]
  · refine h.reserveOf_written ?_ ?_ hhome hblank helse (fun e he _ hst => ?_) hres
    · rw [helse.segMap]; exact horg
    · rw [helse.good, hgood]
    · rw [helse.segMap] at he
      exact hunique e he hst

/-- The erase unit is bad and the one that stood for it was erased: a free one is erased and
written with what the copy-back unit holds, and stands for it from then on. -/
theorem recoverSpecial_erased (hblank : w.flash.page org = initBuf) :
    wp (handleCopyBackSpecial eu cb) (fun res t =>
        (org ≠ w.flash.validEuAt (w.segMap.segToSlot firstReserveSegment) 1 → res = 0) ∧
        (res = 0 → RecoveredTo eu cb (copyBackImage saved cb false eu) q t))
      (fun _ _ => False) w := by
  have hlt : pagesPerEu - 1 < pagesPerEu := by have := pagesPerEu_pos; omega
  have heu : IsEu org := h.reserves.isEu horg
  have hslot : w.segMap.segToSlot firstReserveSegment < nSlots :=
    h.reserves _ firstReserveSegment_mem
  have hplace := calculateSlotIdAndEuOffset_lt h.isEu.lt
  -- a blank page stands for no erase unit
  have hno : ∀ f : Flash, ∀ e, f.page e = initBuf →
      ¬ f.standsFor (calculateSlotIdAndEuOffset eu) e = true := by
    intro f e he hst
    have hflags := (Flash.standsFor_iff.mp hst).2.1
    rw [he] at hflags
    have hflags : noSlotAndEuOffset = _ := hflags
    unfold noSlotAndEuOffset at hflags
    omega
  have hnone : w.reserveOf eu = none := by
    refine List.find?_eq_none.mpr fun e he hst => ?_
    obtain rfl := hunique e he hst
    exact hno _ _ hblank hst
  have hcbEu : w.flash.validEuAt (w.segMap.segToSlot firstReserveSegment) 2 ≠ phyAddressEmpty := by
    rw [h.cb_eq]
    exact h.cb_ne
  have hunused : isPageUsed (w.flash.page org).flags = false := by rw [hblank]; rfl
  unfold handleCopyBackSpecial
  rw [wp_bind, wp_ok_iff (logicalAddressToReservePhysical_run h.reserves h.isEu), hnone, wp_bind,
    wp_ok_iff h.lastOffset_cb]
  show wp (if phyAddressEmpty = phyAddressEmpty then _ else _) _ _ w
  rw [if_pos rfl, h.isEu_cb.calcOffsetInEu_add hlt]
  refine wp_seqVerify ?_
  unfold erasePossibleEUReplacement
  rw [wp_bind, wp_getSegMap, wp_bind,
    wp_ok_iff (getValidEuAddrInLocation_run hslot (by decide)),
    if_neg (Flash.validEuAt_one_ne hcbEu hslot)]
  refine wp_mono (eraseFirstUnused_spec h.power hgood hunused _
    fun e he => h.reserves.isEu he) ?_ fun _ _ hf => hf
  rintro res t ⟨hfinds, herased⟩
  by_cases hres : res = 0
  swap
  · rw [if_pos hres]
    exact ⟨fun hheader => absurd (hfinds horg hheader) hres, fun hno => absurd hno Nat.one_ne_zero⟩
  obtain ⟨x, f, hx, hf, rfl⟩ := herased hres
  rw [if_neg (not_not_intro hres)]
  have hgoodf : ∀ a, f.good a = w.flash.good a := Flash.good_congr hf.badEu
  have hvalid : ∀ location, f.validEuAt (w.segMap.segToSlot firstReserveSegment) location =
      w.flash.validEuAt (w.segMap.segToSlot firstReserveSegment) location := fun location => by
    rw [Flash.validEuAt, Flash.validEuAt, funext hgoodf]
  have hxcb : cb ≠ x := by
    rintro rfl
    rw [h.cb_used] at hx
    exact absurd hx (by decide)
  have hfree : f.freeEu cb org = true := by
    refine Flash.freeEu_iff.mpr ⟨(hgoodf org).trans hgood, hne.symm, ?_⟩
    rw [hf.page_eq, hblank, ite_self]
    rfl
  have halloc : allocReserveEU eu { w with flash := f } =
      .ok (((w.segMap.reserveEus (calcEuOffset eu)).find? (f.freeEu cb)).getD phyAddressEmpty)
        { w with flash := f } := by
    have hcbf : f.validEuAt (w.segMap.segToSlot firstReserveSegment) 2 ≠ phyAddressEmpty := by
      rw [hvalid]
      exact hcbEu
    have hrun := allocReserveEU_run (s := { w with flash := f }) h.reserves h.isEu hcbf
    rw [hrun]
    show EStateM.Result.ok (((w.segMap.reserveEus _).find? (f.freeEu (f.validEuAt _ 2))).getD _) _ = _
    rw [hvalid, h.cb_eq]
  rw [wp_bind, wp_ok_iff halloc]
  -- there is a free erase unit: the one that was erased, at least
  cases hfound : (w.segMap.reserveEus (calcEuOffset eu)).find? (f.freeEu cb) with
  | none => exact absurd hfree (List.find?_eq_none.mp hfound org horg)
  | some home =>
    have hhomeMem := List.mem_of_find?_eq_some hfound
    obtain ⟨hhomeGood, hhomeNe, -⟩ := Flash.freeEu_iff.mp (List.find?_some hfound)
    have hhome : IsEu home := h.reserves.isEu hhomeMem
    show wp (if home = phyAddressEmpty then _ else _) _ _ _
    rw [if_neg hhome.ne_empty]
    refine wp_mono (writeBack_spec hhome h.isEu_cb hhomeNe.symm hhomeGood
      ((hgoodf cb).trans h.cb_mem.2) h.used h.lt (h.pages.erase_other h.isEu_cb hxcb hf)
      (by rw [hf.power, h.power]; rfl)) ?_ fun _ _ hf => hf
    rintro res u ⟨rfl, hpages, hcbBlank, helse⟩
    have hres : u.segMap.ReservesInChip := by rw [helse.segMap]; exact h.reserves
    refine ⟨fun _ => rfl, fun _ => ⟨hcbBlank, home, validOrReserveEu_run_bad h.isEu ?_ hres ?_,
      hpages⟩⟩
    · rw [helse.good]
      exact (hgoodf eu).trans hbad
    · refine h.reserveOf_written ?_ ?_ hpages hcbBlank helse (fun e he _ hst => ?_) hres
      · rw [helse.segMap]; exact hhomeMem
      · rw [helse.good, hhomeGood]
      · rw [helse.segMap] at he
        by_cases hxe : calcEuStart e = x
        · exact absurd hst (hno _ _ (by rw [hf.page_eq, if_pos hxe]))
        · have hst' : w.flash.standsFor (calculateSlotIdAndEuOffset eu) e = true := by
            have hpage : f.page e = w.flash.page e := by rw [hf.page_eq, if_neg hxe]
            rw [Flash.standsFor, ← hgoodf, ← hpage]
            exact hst
          obtain rfl := hunique e he hst'
          exact absurd hst' (hno _ _ hblank)

end Bad

/-- The erase unit is bad: `handleCopyBackSpecial` recovers it, whether or not the erase unit
that stood for it was erased; where that was the one of a header it may find none to erase. -/
theorem recover_bad {org : Nat} (hbad : w.flash.good eu = false)
    (horg : org ∈ w.segMap.reserveEus (calcEuOffset eu)) (hgood : w.flash.good org = true)
    (hne : org ≠ cb)
    (hunique : ∀ e ∈ w.segMap.reserveEus (calcEuOffset eu),
      w.flash.standsFor (calculateSlotIdAndEuOffset eu) e = true → e = org)
    (hstands : w.flash.standsFor (calculateSlotIdAndEuOffset eu) org = true ∨
      w.flash.page org = initBuf) :
    wp handleCopyBack (fun r t =>
        (org ≠ w.flash.validEuAt (w.segMap.segToSlot firstReserveSegment) 1 → r.1 = 0) ∧
        (r.1 = 0 → RecoveredTo eu cb (copyBackImage saved cb false eu) q t))
      (fun _ _ => False) w := by
  have hspecial : wp (handleCopyBackSpecial eu cb) (fun res t =>
      (org ≠ w.flash.validEuAt (w.segMap.segToSlot firstReserveSegment) 1 → res = 0) ∧
      (res = 0 → RecoveredTo eu cb (copyBackImage saved cb false eu) q t))
      (fun _ _ => False) w := by
    rcases hstands with hstands | hblank
    · refine wp_mono (h.recoverSpecial_found hbad horg hgood hne hunique hstands) ?_
        fun _ _ hf => hf
      exact fun res t ⟨hres, hrec⟩ => ⟨fun _ => hres, fun _ => hrec⟩
    · exact h.recoverSpecial_erased hbad horg hgood hne hunique hblank
  unfold handleCopyBack
  rw [wp_bind, wp_ok_iff h.getCopybackEu_eq, wp_bind,
    wp_ok_iff (assert_run (decide_eq_true h.cb_ne)), wp_bind,
    wp_ok_iff (nandReadPageTotal_run h.isEu_cb.lt), h.pages.first h.pos]
  show wp (if (saved 0).flags.copyBack = true then _ else _) _ _ w
  rw [if_pos h.copyBack, h.place, h.isEu.extractAddr_calculate, wp_bind,
    wp_ok_iff (nandCheckEuStatus_run h.isEu.lt), hbad, if_neg Bool.false_ne_true]
  exact wp_seq hspecial fun res t ht => ht

end Interrupted

/-- With a blank copy-back unit there is nothing to recover. -/
theorem handleCopyBack_idle {w : World} {cb : Nat} (hres : w.segMap.ReservesInChip)
    (hcb : w.flash.validEuAt (w.segMap.segToSlot firstReserveSegment) 2 = cb)
    (hne : cb ≠ phyAddressEmpty) (hblank : w.flash.page cb = initBuf) :
    handleCopyBack w = .ok (0, false) w := by
  have hmem : cb ∈ slotEus (w.segMap.segToSlot firstReserveSegment) := by
    rw [← hcb] at hne ⊢
    exact (Flash.validEuAt_spec hne).1
  have heu := isEu_of_mem_slotEus (hres _ firstReserveSegment_mem) hmem
  unfold handleCopyBack
  rw [bind_ok (getCopybackEu_run hres), hcb, bind_ok (assert_run (decide_eq_true hne)),
    bind_ok (nandReadPageTotal_run heu.lt), hblank]
  rfl

end NandFs
