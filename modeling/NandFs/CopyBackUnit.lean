import NandFs.WearRuns

/-! # What a copy-back keeps

`copyBackEU` of a page is to leave its erase unit with the pages up to that one, as they were, and
every other erase unit alone.  The number of pages to keep is passed to `copyBackSimple` in the low
bits of an address.  For the last page of an erase unit that is the address of the next one, and the
next one is erased; and the mark of the place that a page stands for is written anew.
-/
namespace NandFs

open Program

section CopyBackEU
variable [Config]

/-- `copyBackEU` is called for the page `a`: the erase unit `home`, which holds it, has the first `p`
pages `src`, and the copy-back unit `cb` is empty and valid. -/
structure CopyBackStart (w : World) (a : LogAddr) (home cb : Nat) (src : Nat → Page) (p : Nat) :
    Prop where
  translated : logicalAddressToPhysical (a.setOffset (calcEuStart a.offset)) w = .ok home w
  isEu : IsEu home
  good : w.flash.good home = true
  copybackEu : getCopybackEu w = .ok cb w
  isEu_cb : IsEu cb
  good_cb : w.flash.good cb = true
  ne : home ≠ cb
  le : p ≤ pagesPerEu
  used : ∀ i < p, isPageUsed (src i).flags = true
  pages : EuPages w.flash home src p
  blank : EuPages w.flash cb src 0
  clean : EuClean w.flash cb 0

/-- From `w` to `t` the erase unit `home` was cut to its first `n` pages and nothing else
happened. -/
structure CutTo (w t : World) (home cb : Nat) (src : Nat → Page) (n : Nat) : Prop where
  kept : EuPages t.flash home src n
  blank : EuPages t.flash cb src 0
  others : ∀ a, calcEuStart a ≠ home → calcEuStart a ≠ cb → t.flash.page a = w.flash.page a

/-- The erase unit that `copyBackEU` takes the reserve erase unit `home` to stand for. -/
def World.realOf (w : World) (home : Nat) : Nat :=
  if w.segMap.isAddressReserve home then
    calcEuStart (extractAddrFromSlotIdAndEuOffset (w.flash.page home).flags.slotEuOffset)
  else phyAddressEmpty

/-- The mark of the place that a page of the erase unit has after a copy-back. -/
def World.placeMark (w : World) (home : Nat) : Nat :=
  if w.segMap.isAddressReserve home then calculateSlotIdAndEuOffset (w.realOf home) % 2 ^ 24
  else noSlotAndEuOffset

/-- The page is not the last of its erase unit, and the pages up to it have the marks that a
copy-back gives them; or it is the last, and the next erase unit is bad or blank. -/
def World.CopiesBack (w : World) (a : LogAddr) (home : Nat) (src : Nat → Page) (p : Nat) : Prop :=
  if a.offset % pagesPerEu + 1 < pagesPerEu then
    ∀ j < min (a.offset % pagesPerEu + 1) p, (src j).flags.copyBack = false ∧
      (src j).flags.slotEuOffset = w.placeMark home
  else w.flash.good (home + pagesPerEu) = true →
    ∀ i < pagesPerEu, w.flash.page (home + pagesPerEu + i) = initBuf

section Marks
variable {w t : World} {a : LogAddr} {home cb p : Nat} {src : Nat → Page}

/-- No erase unit starts at the address that stands for none. -/
theorem calcEuStart_ne_empty (phy : Nat) : calcEuStart phy ≠ phyAddressEmpty := by
  obtain ⟨k, -, hk⟩ := pagesPerEu_even
  intro h
  rw [calcEuStart_eq, hk, Nat.mul_left_comm] at h
  unfold phyAddressEmpty at h
  omega

/-- A page comes back with the marks of a copy-back. -/
theorem returned_flags (w : World) (src : Nat → Page) (home cb j : Nat) :
    (returned src home cb (w.realOf home) j).flags =
      { (src j).flags with copyBack := false, slotEuOffset := w.placeMark home } := by
  show copyBackFlags (copyBackFlags (src j).flags (home + j) true (w.realOf home)) (cb + j) false
    (w.realOf home) = _
  unfold World.placeMark
  by_cases hres : w.segMap.isAddressReserve home = true
  · have hne : w.realOf home ≠ phyAddressEmpty := by
      unfold World.realOf
      rw [if_pos hres]
      exact calcEuStart_ne_empty _
    simp only [copyBackFlags, if_neg hne, if_pos hres, if_true, Bool.false_eq_true, if_false]
    rfl
  · have he : w.realOf home = phyAddressEmpty := if_neg hres
    simp only [copyBackFlags, if_pos he, if_neg hres, if_true, Bool.false_eq_true, if_false]
    rfl

/-- A page comes back as it was if its marks are those of a copy-back. -/
theorem returned_eq_iff (w : World) (src : Nat → Page) (home cb j : Nat) :
    returned src home cb (w.realOf home) j = src j ↔
      (src j).flags.copyBack = false ∧ (src j).flags.slotEuOffset = w.placeMark home := by
  have hmark := returned_flags w src home cb j
  constructor
  · intro h
    rw [h] at hmark
    exact ⟨congrArg Flags.copyBack hmark, congrArg Flags.slotEuOffset hmark⟩
  · rintro ⟨hcb, hplace⟩
    have hflags : (returned src home cb (w.realOf home) j).flags = (src j).flags := by
      rw [hmark, ← hcb, ← hplace]
    show Page.mk _ (returned src home cb (w.realOf home) j).flags = src j
    rw [hflags]
    rfl

/-- Before a page is copied `copyBackEU` only reads. -/
theorem copyBackEU_run (h : CopyBackStart w a home cb src p) :
    copyBackEU a w =
      copyBackSimple cb (home + (a.offset % pagesPerEu + 1)) false (w.realOf home) w := by
  unfold copyBackEU
  dsimp only
  rw [bind_ok h.translated, bind_ok h.copybackEu,
    bind_ok (assert_run (decide_eq_true h.isEu_cb.lt)),
    bind_ok (show getSegMap w = .ok w.segMap w from rfl), h.isEu.calcEuStart_self]
  unfold World.realOf
  by_cases hres : w.segMap.isAddressReserve home = true
  · rw [if_pos hres, if_pos hres, bind_ok (nandReadPageFlags_run h.isEu.lt)]
    rfl
  · rw [if_neg hres, if_neg hres]
    rfl

/-- A page that is not the last: its erase unit is cut behind it, and each page that stays is
written anew. -/
theorem copyBackEU_within (h : CopyBackStart w a home cb src p)
    (hin : a.offset % pagesPerEu + 1 < pagesPerEu) (hrun : copyBackEU a w = .ok 0 t) :
    Restored w home cb (returned src home cb (w.realOf home))
      (min (a.offset % pagesPerEu + 1) p) (2 * min (a.offset % pagesPerEu + 1) p + 2) t := by
  rw [copyBackEU_run h] at hrun
  obtain ⟨-, k, -, hstate, hk⟩ := of_wp_ok (copyBackSimple_spec w (w.realOf home) h.isEu h.isEu_cb
    h.ne h.good h.good_cb h.used h.le hin h.pages h.blank h.clean) hrun
  cases hstate with
  | copying hq _ => omega
  | restoring hq _ => omega
  | done hdone => exact hdone

/-- The last page of an erase unit: the next one is erased if it is valid, and the copy-back unit
once more. -/
theorem copyBackEU_last (h : CopyBackStart w a home cb src p)
    (hlast : ¬a.offset % pagesPerEu + 1 < pagesPerEu) (hrun : copyBackEU a w = .ok 0 t) :
    ∀ b, t.flash.page b =
      if w.flash.good (home + pagesPerEu) = true ∧ calcEuStart b = home + pagesPerEu ∨
        calcEuStart b = cb then initBuf else w.flash.page b := by
  have hlt := Nat.mod_lt a.offset pagesPerEu_pos
  have hoff : a.offset % pagesPerEu + 1 = pagesPerEu := by omega
  have hzero : calcOffsetInEu (home + pagesPerEu) = 0 := by
    rw [calcOffsetInEu, Nat.add_mod_right]
    exact h.isEu.offset
  have hstart : calcEuStart (home + pagesPerEu) = home + pagesPerEu := by
    rw [calcEuStart]
    rw [calcOffsetInEu] at hzero
    omega
  rw [copyBackEU_run h, hoff] at hrun
  refine of_wp_ok (Q := fun r t => r = 0 → ∀ b, t.flash.page b =
    if w.flash.good (home + pagesPerEu) = true ∧ calcEuStart b = home + pagesPerEu ∨
      calcEuStart b = cb then initBuf else w.flash.page b) (E := fun _ _ => True) ?_ hrun rfl
  -- no page is copied
  unfold copyBackSimple
  dsimp only
  rw [hzero, hstart]
  refine wp_seqVerify ?_
  show wp (seqVerify (nandErase (home + pagesPerEu)) _) _ _ w
  -- the copy-back unit is erased last
  have hend : ∀ u : World, u.flash.badEu = w.flash.badEu →
      (∀ b, u.flash.page b = if w.flash.good (home + pagesPerEu) = true ∧
        calcEuStart b = home + pagesPerEu then initBuf else w.flash.page b) →
      wp (seqVerify (copyBackPages (home + pagesPerEu) cb false (w.realOf home) 0 0) (do
        let _ ← nandErase cb
        pure 0)) (fun r t => r = 0 → ∀ b, t.flash.page b =
          if w.flash.good (home + pagesPerEu) = true ∧ calcEuStart b = home + pagesPerEu ∨
            calcEuStart b = cb then initBuf else w.flash.page b) (fun _ _ => True) u := by
    intro u hbad hu
    refine wp_seqVerify ?_
    show wp (do
      let _ ← nandErase cb
      pure 0) _ _ u
    rw [wp_bind]
    refine wp_nandErase h.isEu_cb (by rw [Flash.good_congr hbad]; exact h.good_cb)
      (fun v hv _ _ b => ?_) fun _ => trivial
    show v.page b = _
    rw [hv.page_eq]
    by_cases hb : calcEuStart b = cb
    · rw [if_pos hb, if_pos (.inr hb)]
    · rw [if_neg hb, hu b]
      simp only [hb, or_false]
  by_cases hnext : home + pagesPerEu < pageCount
  · have hisnext : IsEu (home + pagesPerEu) := ⟨hzero, hnext⟩
    rcases Bool.eq_false_or_eq_true (w.flash.good (home + pagesPerEu)) with hgood | hgood
    · refine wp_seqVerify (wp_nandErase hisnext hgood (fun v hv _ => ?_) fun _ => trivial)
      rw [if_neg (not_not_intro rfl)]
      refine hend { w with flash := v } hv.badEu fun b => ?_
      show v.page b = _
      rw [hv.page_eq]
      simp only [hgood, true_and]
    · refine wp_seqVerify ((wp_ok_iff (nandErase_run_bad hisnext hgood)).mpr ?_)
      rw [if_neg (not_not_intro rfl)]
      refine hend w rfl fun b => ?_
      simp only [hgood, Bool.false_eq_true, false_and, if_false]
  · -- there is no erase unit behind the last one of the chip
    refine wp_seqVerify ?_
    unfold nandErase
    rw [wp_bind]
    refine wp_getFp (fun _ => ?_) trivial
    rw [if_pos (Nat.le_of_not_lt hnext), wp_pure, if_pos Nat.one_ne_zero]
    exact fun h1 => absurd h1 Nat.one_ne_zero

/-- `copyBackEU` cuts the erase unit behind the page, and does nothing else, exactly where it copies
the pages and they have the marks that it gives them, or has nothing to erase. -/
theorem copyBackEU_cuts_iff (h : CopyBackStart w a home cb src p) (hrun : copyBackEU a w = .ok 0 t) :
    CutTo w t home cb src (min (a.offset % pagesPerEu + 1) p) ↔ w.CopiesBack a home src p := by
  unfold World.CopiesBack
  by_cases hin : a.offset % pagesPerEu + 1 < pagesPerEu
  · rw [if_pos hin]
    have hdone := copyBackEU_within h hin hrun
    constructor
    · intro hcut j hj
      rw [← returned_eq_iff w src home cb j]
      have hlt : j < pagesPerEu := by omega
      rw [← hdone.pages_home.page_of_lt hlt hj, hcut.kept.page_of_lt hlt hj]
    · intro hmarks
      refine ⟨fun i hi => ?_, fun i hi => ?_, hdone.elsewhere.page⟩
      · rw [hdone.pages_home i hi]
        by_cases hlt : i < min (a.offset % pagesPerEu + 1) p
        · rw [if_pos hlt, if_pos hlt]
          exact (returned_eq_iff w src home cb i).mpr (hmarks i hlt)
        · rw [if_neg hlt, if_neg hlt]
      · rw [hdone.blank_cb i hi, if_neg (Nat.not_lt_zero i)]
  · rw [if_neg hin]
    have hpage := copyBackEU_last h hin hrun
    have hall : min (a.offset % pagesPerEu + 1) p = p := by
      have := h.le
      have := Nat.mod_lt a.offset pagesPerEu_pos
      omega
    have hpos := pagesPerEu_pos
    have hstart : ∀ i < pagesPerEu, calcEuStart (home + pagesPerEu + i) = home + pagesPerEu := by
      intro i hi
      have hmod := h.isEu.offset
      rw [calcOffsetInEu] at hmod
      have hnext : (home + pagesPerEu + i) % pagesPerEu = i := by
        rw [Nat.add_mod, Nat.add_mod_right, hmod, Nat.zero_add, Nat.mod_mod, Nat.mod_eq_of_lt hi]
      rw [calcEuStart, hnext, Nat.add_sub_cancel]
    rw [hall]
    constructor
    · intro hcut hgood i hi
      by_cases hcb : home + pagesPerEu = cb
      · rw [hcb, h.blank i hi, if_neg (Nat.not_lt_zero i)]
      · have hsame := hcut.others (home + pagesPerEu + i) (by rw [hstart i hi]; omega)
          (by rw [hstart i hi]; exact hcb)
        rw [← hsame, hpage, if_pos (.inl ⟨hgood, hstart i hi⟩)]
    · intro hblank
      refine ⟨fun i hi => ?_, fun i hi => ?_, fun b hhome hcb => ?_⟩
      · have hb := h.isEu.calcEuStart_add hi
        have hnext : home ≠ home + pagesPerEu := by omega
        rw [hpage, hb, if_neg, h.pages i hi]
        rintro (⟨-, hno⟩ | hno)
        · exact hnext hno
        · exact h.ne hno
      · rw [hpage, h.isEu_cb.calcEuStart_add hi, if_pos (.inr rfl), if_neg (Nat.not_lt_zero i)]
      · rw [hpage]
        by_cases hnext : w.flash.good (home + pagesPerEu) = true ∧
            calcEuStart b = home + pagesPerEu
        · have hle := Nat.mod_le b pagesPerEu
          have hb : b = home + pagesPerEu + b % pagesPerEu := by
            rw [← hnext.2, calcEuStart]
            omega
          rw [if_pos (.inl hnext), hb, hblank hnext.1 _ (Nat.mod_lt b hpos)]
        · rw [if_neg (not_or_intro hnext hcb)]

end Marks


/-- The page reads as an erased one. -/
def Page.isBlank (page : Page) : Bool :=
  page.flags == initFlags && (List.finRange pageSize).all fun j => page.main j == 0xff

theorem Page.eq_of_isBlank {page : Page} (h : page.isBlank = true) : page = initBuf := by
  obtain ⟨hflags, hmain⟩ := (Bool.and_eq_true _ _).mp h
  have hmain : page.main = fun _ => 0xff := funext fun j =>
    beq_iff_eq.mp (List.all_eq_true.mp hmain j (List.mem_finRange j))
  show Page.mk page.main page.flags = initBuf
  rw [hmain, beq_iff_eq.mp hflags]
  rfl

/-- `CopyBackStart` of an erase unit whose pages are all programmed. -/
def World.startTest (w : World) (a : LogAddr) (home cb : Nat) : Bool :=
  (match logicalAddressToPhysical (a.setOffset (calcEuStart a.offset)) w with
    | .ok phy _ => phy == home
    | .error _ _ => false) &&
  (match getCopybackEu w with
    | .ok eu _ => eu == cb
    | .error _ _ => false) &&
  [home, cb].all (fun eu => calcOffsetInEu eu == 0 && decide (eu < pageCount) && w.flash.good eu) &&
  home != cb && (List.range pagesPerEu).all fun i =>
    isPageUsed (w.flash.page (home + i)).flags && (w.flash.page (cb + i)).isBlank &&
      !w.flash.mainAreaWrites (cb + i)

theorem CopyBackStart.of_test {w : World} {a : LogAddr} {home cb : Nat}
    (h : w.startTest a home cb = true) :
    CopyBackStart w a home cb (fun i => w.flash.page (home + i)) pagesPerEu := by
  unfold World.startTest at h
  simp only [Bool.and_eq_true, List.all_cons, List.all_nil, Bool.and_true, beq_iff_eq,
    decide_eq_true_eq, bne_iff_ne, ne_eq, List.all_eq_true, List.mem_range, Bool.not_eq_true'] at h
  obtain ⟨⟨⟨⟨htrans, hcb⟩, ⟨⟨hoff, hlt⟩, hgood⟩, ⟨hoffCb, hltCb⟩, hgoodCb⟩, hne⟩, hpages⟩ := h
  refine ⟨?_, ⟨hoff, hlt⟩, hgood, ?_, ⟨hoffCb, hltCb⟩, hgoodCb, hne, Nat.le_refl _,
    fun i hi => (hpages i hi).1.1, fun i hi => (if_pos hi).symm, fun i hi => ?_,
    fun i _ hi => (hpages i hi).2⟩
  · rcases (frame_logicalAddressToPhysical _).reads w with ⟨phy, hrun⟩ | ⟨e, hrun⟩
    · rw [hrun] at htrans ⊢
      rw [beq_iff_eq.mp htrans]
    · rw [hrun] at htrans
      exact absurd htrans Bool.false_ne_true
  · rcases frame_getCopybackEu.reads w with ⟨eu, hrun⟩ | ⟨e, hrun⟩
    · rw [hrun] at hcb ⊢
      rw [beq_iff_eq.mp hcb]
    · rw [hrun] at hcb
      exact absurd hcb Bool.false_ne_true
  · rw [if_neg (Nat.not_lt_zero i)]
    exact Page.eq_of_isBlank (hpages i hi).1.2

end CopyBackEU

section TinyPage
attribute [local instance] tinyPage

/-- A tiny chip is formatted: the header and the checkpoint of the first segment fill its first
erase unit and half of the second.  A copy-back for the third page cuts the first erase unit. -/
theorem copyBackEU_cuts_tinyPage : ∃ (w t : World) (src : Nat → Page),
    copyBackEU ⟨0, 2⟩ w = .ok 0 t ∧ CutTo w t 0 52 src 3 := by
  have hcheck : (LogState.booted 48 (fun _ => 0) (erasedWorld fun _ => false)).any (fun s =>
      s.world.startTest ⟨0, 2⟩ 0 52 && !s.world.segMap.isAddressReserve 0 &&
      (List.range 3).all (fun j => !(s.world.flash.page (0 + j)).flags.copyBack &&
        (s.world.flash.page (0 + j)).flags.slotEuOffset == noSlotAndEuOffset) &&
      match copyBackEU ⟨0, 2⟩ s.world with
      | .ok r _ => r == 0
      | .error _ _ => false) = true := by
    decide +kernel
  obtain ⟨s, -, hcheck⟩ := (Option.any_eq_true _ _).mp hcheck
  simp only [Bool.and_eq_true, Bool.not_eq_true', List.all_eq_true, List.mem_range,
    beq_iff_eq] at hcheck
  obtain ⟨⟨⟨hstart, hres⟩, hmarks⟩, hreturns⟩ := hcheck
  split at hreturns
  · rename_i r t hrun
    rw [beq_iff_eq.mp hreturns] at hrun
    refine ⟨s.world, t, _, hrun, (copyBackEU_cuts_iff (CopyBackStart.of_test hstart) hrun).mpr ?_⟩
    show ∀ j < min (2 % 4 + 1) 4, _
    intro j hj
    refine ⟨(hmarks j hj).1, (hmarks j hj).2.trans ?_⟩
    unfold World.placeMark
    rw [if_neg (by rw [hres]; exact Bool.false_ne_true)]
  · exact absurd hreturns Bool.false_ne_true

/-- A copy-back for the last page of the first erase unit erases the second, with the rest of the
checkpoint. -/
theorem copyBackEU_cuts_fails : ¬∀ (w t : World) (a : LogAddr) (home cb p : Nat) (src : Nat → Page),
    CopyBackStart w a home cb src p → copyBackEU a w = .ok 0 t →
      CutTo w t home cb src (min (a.offset % pagesPerEu + 1) p) := by
  intro hall
  have hcheck : (LogState.booted 48 (fun _ => 0) (erasedWorld fun _ => false)).any (fun s =>
      s.world.startTest ⟨0, 3⟩ 0 52 && isPageUsed (s.world.flash.page 4).flags &&
      match copyBackEU ⟨0, 3⟩ s.world with
      | .ok r t => r == 0 && !isPageUsed (t.flash.page 4).flags
      | .error _ _ => false) = true := by
    decide +kernel
  obtain ⟨s, -, hcheck⟩ := (Option.any_eq_true _ _).mp hcheck
  simp only [Bool.and_eq_true] at hcheck
  obtain ⟨⟨hstart, hused⟩, hlost⟩ := hcheck
  split at hlost
  · rename_i r t hrun
    simp only [Bool.and_eq_true, beq_iff_eq, Bool.not_eq_true'] at hlost
    rw [hlost.1] at hrun
    have hcut := hall s.world t ⟨0, 3⟩ 0 52 _ _ (CopyBackStart.of_test hstart) hrun
    have hsame := hcut.others 4 (by decide) (by decide)
    rw [← hsame, hlost.2] at hused
    exact absurd hused Bool.false_ne_true
  · exact absurd hlost Bool.false_ne_true

end TinyPage

end NandFs
