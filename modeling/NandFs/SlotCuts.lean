import NandFs.CheckpointSearch
import NandFs.CopyBackUnit

/-! # Cutting the end of a slot

The pages of a slot behind a given one are erased: whole erase units at their homes, and the rest of
the one that holds the page by a copy-back.  The other pages keep what they hold, in this slot and in
the others.
-/
namespace NandFs

open Program

variable [Config]

/-- The pages of the slot from `n` on are erased. -/
def Contents.cut (c : Contents) (slot n : Nat) : Contents :=
  Function.update c slot fun o => if o < n then c slot o else none

section Cut
variable {c : Contents} {slot n o : Nat}

theorem Contents.cut_of_lt (h : o < n) : c.cut slot n slot o = c slot o := by
  rw [cut, Function.update_self, if_pos h]

theorem Contents.cut_of_le (h : n ≤ o) : c.cut slot n slot o = none := by
  rw [cut, Function.update_self, if_neg (Nat.not_lt_of_le h)]

theorem Contents.cut_of_ne {slot' : Nat} (h : slot' ≠ slot) (o : Nat) :
    c.cut slot n slot' o = c slot' o := by
  rw [cut, Function.update_of_ne h]

end Cut

section Layouts
variable {f t : Flash} {m : SegMap} {c c' : Contents} {slot e home : Nat}

/-- The pages change, but the reserve erase units stand for what they stood for. -/
theorem Layout.revise (h : Layout f m c) (hbad : t.badEu = f.badEu)
    (hstands : ∀ eu, m.IsReserveEu eu → ∀ p < 2 ^ 23, t.standsFor p eu = f.standsFor p eu)
    (hholds : ∀ slot e home, m.IsDataSlot slot → e < eusPerSlot → IsHome f m slot e home →
      ∀ i < pagesPerEu, PageHolds t (home + i) (c' slot (e * pagesPerEu + i)))
    (hblank : ∀ slot e, m.IsDataSlot slot → e < eusPerSlot →
      (c'.EuBlank slot e ↔ c.EuBlank slot e))
    (hfree : ∀ eu, m.IsReserveEu eu → t.IsFree eu → ∀ i < pagesPerEu, PageHolds t (eu + i) none) :
    Layout t m c' := by
  have hgood := Flash.good_congr hbad
  have hhome : ∀ {slot e home}, slot < nSlots → e < eusPerSlot →
      (IsHome t m slot e home ↔ IsHome f m slot e home) := by
    intro slot e home hs he
    constructor
    · rintro (good | ⟨bad, mem, stands⟩)
      · exact .self (by rwa [← hgood])
      · exact .reserve (by rwa [← hgood]) mem (by rwa [← hstands _ mem _ (place_lt hs he)])
    · rintro (good | ⟨bad, mem, stands⟩)
      · exact .self (by rwa [hgood])
      · exact .reserve (by rwa [hgood]) mem (by rwa [hstands _ mem _ (place_lt hs he)])
  constructor
  · exact h.reserves
  · intro slot e home hs he hh
    exact hholds slot e home hs he ((hhome hs.lt he).mp hh)
  · intro slot e hs he hb
    rw [hgood] at hb
    rw [hblank slot e hs he, ← h.replaced hs he hb]
    exact exists_congr fun home => hhome hs.lt he
  · intro eu hmem hf
    exact hfree eu hmem hf
  · intro p eu eu' hp hmem hmem' hst hst'
    rw [hstands eu hmem p hp] at hst
    rw [hstands eu' hmem' p hp] at hst'
    exact h.unique hp hmem hmem' hst hst'
  · intro seg e home hseg he hb hh
    rw [hgood] at hb
    exact h.unreplaced hseg he hb ((hhome (h.reserves seg hseg) he).mp hh)

end Layouts

/-! ## The marks of the driver -/

/-- What a copy-back between two erase units keeps: no unused page of them was programmed since the
last erase, and the marks of all other pages are the same. -/
def SameWrites (f : Flash) (eu eu' : Nat) (t : Flash) : Prop :=
  ∀ a, if calcEuStart a = eu ∨ calcEuStart a = eu'
    then isPageUsed (t.page a).flags = false → t.mainAreaWrites a = false
    else t.mainAreaWrites a = f.mainAreaWrites a

section Writes
variable {f : Flash} {eu eu' a : Nat}

theorem SameWrites.keeps_of_frame {α : Type} {m : SeqM α} (h : Frame (fun w : World => w.flash) m) :
    Preserves (fun w : World => SameWrites f eu eu' w.flash) m :=
  h.preserves fun t => SameWrites f eu eu' t

theorem SameWrites.keeps_spendPower :
    Preserves (fun w : World => SameWrites f eu eu' w.flash) spendPower :=
  preserves_spendPower fun _ _ h => h

theorem SameWrites.keeps_nandErase (ha : calcEuStart a = eu ∨ calcEuStart a = eu') :
    Preserves (fun w : World => SameWrites f eu eu' w.flash) (nandErase a) := by
  refine preserves_bind (keeps_of_frame (frame_getFp a)) fun _ =>
    preserves_ite (fun _ => preserves_pure _) fun _ => ?_
  refine preserves_bind (keeps_of_frame (frame_nandCheckEuStatus _)) fun _ =>
    preserves_ite (fun _ => ?_) fun _ => preserves_pure _
  refine preserves_bind keeps_spendPower fun _ =>
    preserves_bind (preserves_modify fun w hw b => ?_) fun _ => preserves_pure _
  have hb := hw b
  show if calcEuStart b = eu ∨ calcEuStart b = eu' then
      isPageUsed (if calcEuStart b = calcEuStart a then initBuf else w.flash.page b).flags = false →
        (if calcEuStart b = calcEuStart a then false else w.flash.mainAreaWrites b) = false
    else (if calcEuStart b = calcEuStart a then false else w.flash.mainAreaWrites b) =
      f.mainAreaWrites b
  by_cases hba : calcEuStart b = calcEuStart a
  · rw [if_pos hba, if_pos hba, if_pos (by rwa [hba])]
    exact fun _ => rfl
  · rw [if_neg hba, if_neg hba]
    exact hb

theorem SameWrites.keeps_nandProgramTotalPage {page : Page} (hused : isPageUsed page.flags = true)
    (ha : calcEuStart a = eu ∨ calcEuStart a = eu') :
    Preserves (fun w : World => SameWrites f eu eu' w.flash) (nandProgramTotalPage page a) := by
  have hprog : ∀ total, Preserves (fun w : World => SameWrites f eu eu' w.flash)
      (nandProgramPageA page a total) := by
    intro total
    refine preserves_bind (keeps_of_frame (frame_getFp a)) fun _ =>
      preserves_ite (fun _ => preserves_pure _) fun _ => preserves_bind preserves_get fun w => ?_
    refine preserves_bind (keeps_of_frame (frame_assert _)) fun _ =>
      preserves_bind keeps_spendPower fun _ =>
        preserves_bind (preserves_modify fun w hw b => ?_) fun _ => preserves_pure _
    have hb := hw b
    by_cases hba : b = a
    · subst hba
      rw [if_pos ha]
      intro hno
      have hsame : isPageUsed ((w.flash.program page b total).page b).flags = true := by
        show isPageUsed (Function.update w.flash.page b _ b).flags = true
        rw [Function.update_self]
        exact hused
      rw [hsame] at hno
      exact absurd hno Bool.true_eq_false.mp
    · show if calcEuStart b = eu ∨ calcEuStart b = eu' then
          isPageUsed (Function.update w.flash.page a _ b).flags = false →
            Function.update w.flash.mainAreaWrites a true b = false
        else Function.update w.flash.mainAreaWrites a true b = f.mainAreaWrites b
      rw [Function.update_of_ne hba, Function.update_of_ne hba]
      exact hb
  have hverify : ∀ total, Preserves (fun w : World => SameWrites f eu eu' w.flash)
      (seqVerify (nandProgramPageA page a total) (pure 0)) := fun total =>
    preserves_bind (hprog total) fun _ =>
      preserves_ite (fun _ => preserves_pure _) fun _ => preserves_pure _
  exact preserves_ite (fun _ => hverify true) fun _ => hverify false

/-- A copy-back programs used pages of its two erase units, and erases no other. -/
theorem SameWrites.keeps_copyBackPages {toEu fromEu : Nat} (hto : IsEu toEu)
    (hmem : toEu = eu ∨ toEu = eu') (withCopyBackFlags : Bool) (orgFrom : Nat) {n i : Nat}
    (hn : i + n ≤ pagesPerEu) : Preserves (fun w : World => SameWrites f eu eu' w.flash)
      (copyBackPages toEu fromEu withCopyBackFlags orgFrom n i) := by
  induction n generalizing i with
  | zero => exact preserves_pure _
  | succ n ih =>
    have hpage : Preserves (fun w : World => SameWrites f eu eu' w.flash)
        (copyBackPage (toEu + i) (fromEu + i) withCopyBackFlags orgFrom) := by
      refine preserves_bind (keeps_of_frame (frame_nandReadPageTotal _)) fun page => ?_
      cases page with
      | none => exact preserves_pure _
      | some page =>
        refine preserves_ite (fun hused => ?_) fun _ => preserves_pure _
        refine preserves_bind (keeps_nandProgramTotalPage ?_ ?_) fun _ =>
          preserves_ite (fun _ => preserves_pure _) fun _ => preserves_pure _
        · rw [← hused]
          exact isPageUsed_copyBackImage (fun _ => page) (fromEu + i) withCopyBackFlags orgFrom 0
        · rw [hto.calcEuStart_add (by omega)]
          exact hmem
    exact preserves_bind hpage fun _ =>
      preserves_ite (fun _ => preserves_pure _) fun _ => ih (by omega)

theorem SameWrites.keeps_copyBackSimple (heu : IsEu eu) (heu' : IsEu eu') {n : Nat}
    (hn : n < pagesPerEu) (realOrgEu : Nat) :
    Preserves (fun w : World => SameWrites f eu eu' w.flash)
      (copyBackSimple eu' (eu + n) false realOrgEu) := by
  unfold copyBackSimple
  rw [heu.calcOffsetInEu_add hn, heu.calcEuStart_add hn]
  have hself : calcEuStart eu = eu := heu.calcEuStart_self
  have hself' : calcEuStart eu' = eu' := heu'.calcEuStart_self
  refine preserves_bind (keeps_copyBackPages heu' (.inr rfl) true realOrgEu (by omega)) fun _ =>
    preserves_ite (fun _ => preserves_pure _) fun _ => ?_
  refine preserves_bind (keeps_nandErase (.inl hself)) fun _ =>
    preserves_ite (fun _ => preserves_pure _) fun _ => ?_
  refine preserves_bind (keeps_copyBackPages heu (.inl rfl) false realOrgEu (by omega)) fun _ =>
    preserves_ite (fun _ => preserves_pure _) fun _ => ?_
  exact preserves_bind (keeps_nandErase (.inr hself')) fun _ => preserves_pure _

end Writes

/-! ## Several erases -/

/-- From `f` to `t` the erase units `eus` were erased, and no other page changed. -/
structure Flash.ErasedUnits (f : Flash) (eus : Set Nat) (t : Flash) : Prop where
  badEu : t.badEu = f.badEu
  erased : ∀ a, calcEuStart a ∈ eus → t.page a = initBuf
  kept : ∀ a, calcEuStart a ∉ eus →
    t.page a = f.page a ∧ t.mainAreaWrites a = f.mainAreaWrites a

/-- The homes of the erase units `es` of a slot. -/
def HomesOf (f : Flash) (m : SegMap) (slot : Nat) (es : Set Nat) : Set Nat :=
  {home | ∃ e ∈ es, e < eusPerSlot ∧ IsHome f m slot e home}

section ErasedUnits
variable {f t u : Flash} {m : SegMap} {c : Contents} {eus eus' es : Set Nat} {slot e eu home : Nat}

/-- They are erased already. -/
theorem Flash.ErasedUnits.of_blank (h : ∀ a, calcEuStart a ∈ eus → f.page a = initBuf) :
    f.ErasedUnits eus f :=
  ⟨rfl, h, fun _ _ => ⟨rfl, rfl⟩⟩

theorem Flash.ErasedUnits.trans (h : f.ErasedUnits eus t) (h' : t.ErasedUnits eus' u) :
    f.ErasedUnits (eus ∪ eus') u := by
  refine ⟨h'.badEu.trans h.badEu, fun a ha => ?_, fun a ha => ?_⟩
  · by_cases ha' : calcEuStart a ∈ eus'
    · exact h'.erased a ha'
    · rw [(h'.kept a ha').1]
      exact h.erased a (ha.resolve_right ha')
  · obtain ⟨hno, hno'⟩ := not_or.mp ha
    exact ⟨(h'.kept a hno').1.trans (h.kept a hno).1, (h'.kept a hno').2.trans (h.kept a hno).2⟩

theorem Flash.Erased.erasedUnits (h : f.Erased eu t) : f.ErasedUnits {eu} t := by
  refine ⟨h.badEu, fun a ha => ?_, fun a ha => ?_⟩
  · rw [h.page_eq, if_pos (Set.mem_singleton_iff.mp ha)]
  · have hne : calcEuStart a ≠ eu := ha
    rw [h.page_eq, h.writes, if_neg hne, if_neg hne]
    exact ⟨rfl, rfl⟩

/-- The first page of another erase unit. -/
theorem Flash.ErasedUnits.first (h : f.ErasedUnits eus t) (heu : IsEu eu) (hno : eu ∉ eus) :
    t.page eu = f.page eu ∧ t.mainAreaWrites eu = f.mainAreaWrites eu :=
  h.kept eu (by rwa [heu.calcEuStart_self])

/-- What is no erased unit is a home as before. -/
theorem Flash.ErasedUnits.isHome_iff (h : f.ErasedUnits eus t) (hres : m.ReservesInChip)
    (hno : home ∉ eus) : IsHome t m slot e home ↔ IsHome f m slot e home := by
  have hgood := Flash.good_congr h.badEu
  have hstands : m.IsReserveEu home → ∀ p, t.standsFor p home = f.standsFor p home := by
    intro mem p
    rw [Flash.standsFor, hgood, (h.first (hres.isEu_reserve mem) hno).1, Flash.standsFor]
  constructor
  · rintro (good | ⟨bad, mem, stands⟩)
    · exact .self (by rwa [← hgood])
    · exact .reserve (by rwa [← hgood]) mem (by rwa [← hstands mem])
  · rintro (good | ⟨bad, mem, stands⟩)
    · exact .self (by rwa [hgood])
    · exact .reserve (by rwa [hgood]) mem (by rwa [hstands mem])

/-- The copy-back unit is free where it was, or was erased. -/
theorem Flash.ErasedUnits.copyBackFree_iff (h : f.ErasedUnits eus t) (hres : m.ReservesInChip)
    (hvalid : f.copyBackEu m ≠ phyAddressEmpty) :
    CopyBackFree t m ↔ CopyBackFree f m ∨ f.copyBackEu m ∈ eus := by
  have hcb := Flash.validEuAt_congr h.badEu (m.segToSlot firstReserveSegment) 2
  have hiseu := hres.isEu_reserve (Flash.copyBackEu_mem hvalid)
  have hgood : f.good (f.copyBackEu m) = true := (Flash.validEuAt_spec hvalid).2
  have hiff : CopyBackFree t m ↔ t.IsFree (f.copyBackEu m) := by
    constructor
    · rintro ⟨-, hfree⟩
      rwa [Flash.copyBackEu, hcb] at hfree
    · intro hfree
      exact ⟨by rwa [Flash.copyBackEu, hcb], by rwa [Flash.copyBackEu, hcb]⟩
  rw [hiff]
  by_cases hmem : f.copyBackEu m ∈ eus
  · refine iff_of_true ⟨?_, ?_⟩ (.inr hmem)
    · rwa [Flash.good_congr h.badEu]
    · rw [h.erased _ (by rwa [hiseu.calcEuStart_self])]
      rfl
  · rw [Flash.IsFree, Flash.good_congr h.badEu, (h.first hiseu hmem).1, ← Flash.IsFree]
    exact ⟨fun hfree => .inl ⟨hvalid, hfree⟩, fun hfree => (hfree.resolve_right hmem).free⟩

/-- The homes depend on the reserve segments of the map only. -/
theorem homesOf_congr {m' : SegMap} (hm : ∀ seg ∈ reserveSegments, m'.segToSlot seg = m.segToSlot seg) :
    HomesOf f m' slot es = HomesOf f m slot es := by
  ext b
  refine exists_congr fun e => and_congr_right fun _ => and_congr_right fun _ => ?_
  exact ⟨fun hh => hh.congr fun seg hseg => (hm seg hseg).symm, fun hh => hh.congr hm⟩

/-- A home is that of one erase unit only. -/
theorem IsHome.not_mem_homesOf {slot' : Nat} (hh : IsHome f m slot e home) (es : Set Nat)
    (hslot : m.IsDataSlot slot) (hslot' : m.IsDataSlot slot') (he : e < eusPerSlot)
    (hno : slot = slot' → e ∉ es) :
    home ∉ HomesOf f m slot' es := by
  rintro ⟨d, hd, hlt, hh'⟩
  obtain ⟨rfl, rfl⟩ := hh.inj hh' hslot hslot' he hlt
  exact hno rfl hd

/-- The homes of a slot, one of which is erased first. -/
theorem Layout.homesOf_insert (h : Layout f m c) (es : Set Nat) (hslot : m.IsDataSlot slot)
    (he : e < eusPerSlot) (hh : IsHome f m slot e home) (ht : f.Erased home t) :
    {home} ∪ HomesOf t m slot es = HomesOf f m slot (insert e es) := by
  ext b
  constructor
  · rintro (rfl | ⟨d, hd, hlt, hb⟩)
    · exact ⟨e, Set.mem_insert e es, he, hh⟩
    · exact ⟨d, Set.mem_insert_of_mem e hd, hlt, ((ht.isHome_iff h.reserves hslot hlt).mp hb).1⟩
  · rintro ⟨d, hd, hlt, hb⟩
    by_cases hbh : b = home
    · exact .inl hbh
    · refine .inr ⟨d, hd.resolve_left ?_, hlt,
        (ht.isHome_iff h.reserves hslot hlt).mpr ⟨hb, .inr hbh⟩⟩
      rintro rfl
      exact hbh (h.home_unique hslot he hb hh)

/-- The homes of blank erase units are erased already. -/
theorem Layout.homesOf_blank (h : Layout f m c) (hslot : m.IsDataSlot slot)
    (hblank : ∀ e ∈ es, e < eusPerSlot → c.EuBlank slot e) : f.ErasedUnits (HomesOf f m slot es) f := by
  refine .of_blank fun a ha => ?_
  obtain ⟨e, hmem, he, hh⟩ := ha
  have hoff := Nat.mod_lt a pagesPerEu_pos
  have hsum : calcEuStart a + a % pagesPerEu = a := by
    have := Nat.mod_le a pagesPerEu
    rw [calcEuStart]
    omega
  have hpage := h.holds hslot he hh _ hoff
  rw [hblank e hmem he _ hoff, hsum] at hpage
  exact hpage.1

end ErasedUnits

/-! ## A copy-back in a slot -/

section CopyBack
variable {w t : World} {c : Contents} {slot e home cb q k : Nat}

/-- The mark that a copy-back gives the pages of a reserve erase unit: the place that it has. -/
theorem IsHome.placeMark (hslot : w.segMap.IsDataSlot slot) (he : e < eusPerSlot)
    (hmem : w.segMap.IsReserveEu home)
    (hst : w.flash.standsFor (calculateSlotIdAndEuOffset (euAt slot e)) home = true) :
    w.placeMark home = calculateSlotIdAndEuOffset (euAt slot e) := by
  have hiseu := isEu_euAt hslot.lt he
  have hflag := (Flash.standsFor_iff.mp hst).2.1
  have hplace := place_lt hslot.lt he
  rw [World.placeMark, if_pos hmem.isAddressReserve, World.realOf, if_pos hmem.isAddressReserve, hflag,
    hiseu.extractAddr_calculate, hiseu.calcEuStart_self, Nat.mod_eq_of_lt (by omega)]

/-- From `w` to `t` a copy-back kept the first `q` pages of the erase unit `e` of a slot, which is
written no further than that erase unit. -/
structure CopiedBack (w : World) (c : Contents) (slot e home cb q k : Nat) (t : World) : Prop where
  layout : Layout w.flash w.segMap c
  dataSlot : w.segMap.IsDataSlot slot
  inSlot : e < eusPerSlot
  isHome : IsHome w.flash w.segMap slot e home
  reserve : w.segMap.IsReserveEu cb
  free : w.flash.IsFree cb
  pos : 0 < q
  le : q ≤ pagesPerEu
  written : ∀ i < q, c slot (e * pagesPerEu + i) ≠ none
  last : ∀ o < pagesPerSlot, e < o / pagesPerEu → c slot o = none
  restored : Restored w home cb
    (returned (fun i => w.flash.page (home + i)) home cb (w.realOf home)) q k t
  writes : SameWrites w.flash home cb t.flash

namespace CopiedBack
variable (h : CopiedBack w c slot e home cb q k t)
include h

theorem ne : home ≠ cb := by
  intro heq
  have hfree := h.free
  rw [← heq] at hfree
  exact h.isHome.not_free h.dataSlot h.inSlot (heq ▸ h.reserve) hfree

theorem kept {i : Nat} (hi : i < q) : t.flash.page (home + i) =
    returned (fun i => w.flash.page (home + i)) home cb (w.realOf home) i := by
  have hle := h.le
  exact h.restored.pages_home.page_of_lt (by omega) hi

/-- The first pages of other erase units are the same. -/
theorem first {eu : Nat} (heu : IsEu eu) (hnh : eu ≠ home) (hnc : eu ≠ cb) :
    t.flash.page eu = w.flash.page eu :=
  h.restored.elsewhere.page eu (by rwa [heu.calcEuStart_self]) (by rwa [heu.calcEuStart_self])

/-- The pages of other erase units hold what they held. -/
theorem holds_other {eu i : Nat} {st : Option Stored} (heu : IsEu eu) (hnh : eu ≠ home)
    (hnc : eu ≠ cb) (hi : i < pagesPerEu) (hst : PageHolds w.flash (eu + i) st) :
    PageHolds t.flash (eu + i) st := by
  have hstart := heu.calcEuStart_add hi
  have hpage := h.restored.elsewhere.page (eu + i) (by rwa [hstart]) (by rwa [hstart])
  have hw := h.writes (eu + i)
  rw [hstart, if_neg (not_or_intro hnh hnc)] at hw
  cases st with
  | none => exact ⟨hpage.trans hst.1, hw.trans hst.2⟩
  | some st => exact ⟨by rw [hpage]; exact hst.1, by rw [hpage]; exact hst.2⟩

/-- The unused pages of the two erase units are blank. -/
theorem holds_blank {eu i : Nat} (heu : IsEu eu) (hor : eu = home ∨ eu = cb) (hi : i < pagesPerEu)
    (hpage : t.flash.page (eu + i) = initBuf) : PageHolds t.flash (eu + i) none := by
  have hw := h.writes (eu + i)
  rw [heu.calcEuStart_add hi, if_pos hor, hpage] at hw
  exact ⟨hpage, hw rfl⟩

/-- The pages that are kept hold what they held. -/
theorem holds_kept {i : Nat} (hi : i < q) {st : Stored}
    (hst : PageHolds w.flash (home + i) (some st)) : PageHolds t.flash (home + i) (some st) := by
  have hflags := returned_flags w (fun i => w.flash.page (home + i)) home cb i
  refine ⟨?_, ?_, ?_⟩
  · rw [h.kept hi, Page.stored, hflags]
    exact hst.1
  · rw [h.kept hi, hflags]
  · rw [h.kept hi, hflags]
    exact hst.2.used

/-- A reserve erase unit that is a home says what it stands for as before. -/
theorem standsFor_home (hmem : w.segMap.IsReserveEu home) :
    w.flash.standsFor (calculateSlotIdAndEuOffset (euAt slot e)) home = true ∧
      (t.flash.page home).flags.slotEuOffset = (w.flash.page home).flags.slotEuOffset ∧
      (t.flash.page home).flags.copyBack = (w.flash.page home).flags.copyBack := by
  have hst : w.flash.standsFor (calculateSlotIdAndEuOffset (euAt slot e)) home = true := by
    cases h.isHome with
    | self => exact absurd hmem (h.dataSlot.not_reserve h.inSlot)
    | reserve _ _ stands => exact stands
  obtain ⟨-, hflag, hcopy⟩ := Flash.standsFor_iff.mp hst
  have hpage := h.kept h.pos
  rw [Nat.add_zero] at hpage
  rw [hpage, returned_flags]
  exact ⟨hst, (IsHome.placeMark h.dataSlot h.inSlot hmem hst).trans hflag.symm, hcopy.symm⟩

/-- The reserve erase units stand for what they stood for. -/
theorem standsFor {eu : Nat} (hmem : w.segMap.IsReserveEu eu) {p : Nat} (hp : p < 2 ^ 23) :
    t.flash.standsFor p eu = w.flash.standsFor p eu := by
  have heu := h.layout.reserves.isEu_reserve hmem
  by_cases hcb : eu = cb
  · -- the copy-back unit stands for nothing
    have hpage := h.restored.blank_cb 0 pagesPerEu_pos
    have hflag := h.free.2
    rw [Nat.add_zero, ← hcb] at hpage
    rw [← hcb] at hflag
    have hnever : ∀ {f : Flash}, (f.page eu).flags.slotEuOffset = noSlotAndEuOffset →
        f.standsFor p eu = false := by
      intro f hno
      refine Bool.eq_false_iff.mpr fun hst => place_ne_empty hp ?_
      exact (Flash.standsFor_iff.mp hst).2.1.symm.trans hno
    rw [hnever hflag, hnever (by rw [hpage]; rfl)]
  · rw [Flash.standsFor, Flash.standsFor, h.restored.elsewhere.good]
    by_cases hhome : eu = home
    · subst hhome
      obtain ⟨-, hflag, hcopy⟩ := h.standsFor_home hmem
      rw [hflag, hcopy]
    · rw [h.first heu hhome hcb]

/-- Every home holds what the slot, cut, holds. -/
theorem holds {s d a i : Nat} (hs : w.segMap.IsDataSlot s) (hd : d < eusPerSlot)
    (ha : IsHome w.flash w.segMap s d a) (hi : i < pagesPerEu) :
    PageHolds t.flash (a + i) (c.cut slot (e * pagesPerEu + q) s (d * pagesPerEu + i)) := by
  have hle := h.le
  have hnc : a ≠ cb := by
    rintro rfl
    exact ha.not_free hs hd h.reserve h.free
  by_cases hsame : s = slot ∧ d = e
  · obtain ⟨rfl, rfl⟩ := hsame
    obtain rfl := h.layout.home_unique hs hd ha h.isHome
    by_cases hlt : i < q
    · rw [Contents.cut_of_lt (by omega)]
      have hold := h.layout.holds hs hd ha i hi
      cases hst : c s (d * pagesPerEu + i) with
      | none => exact absurd hst (h.written i hlt)
      | some st =>
        rw [hst] at hold
        exact h.holds_kept hlt hold
    · rw [Contents.cut_of_le (by omega)]
      exact h.holds_blank (h.layout.isEu_home hs hd ha) (.inl rfl) hi
        (h.restored.pages_home.blank_of_le hi (by omega))
  · have hnh : a ≠ home := by
      rintro rfl
      exact hsame (ha.inj h.isHome hs h.dataSlot hd h.inSlot)
    have hold := h.holds_other (h.layout.isEu_home hs hd ha) hnh hnc hi (h.layout.holds hs hd ha i hi)
    by_cases hs' : s = slot
    · subst hs'
      rcases Nat.lt_or_gt_of_ne fun heq => hsame ⟨rfl, heq⟩ with hlt | hgt
      · have hmul := Nat.mul_le_mul_right pagesPerEu (show d + 1 ≤ e from hlt)
        rw [Nat.add_mul, Nat.one_mul] at hmul
        rwa [Contents.cut_of_lt (by omega)]
      · have hmul := Nat.mul_le_mul_right pagesPerEu (show e + 1 ≤ d from hgt)
        rw [Nat.add_mul, Nat.one_mul] at hmul
        rw [h.last _ (offset_lt hd hi) (by rw [div_of_eq hi rfl]; exact hgt)] at hold
        rwa [Contents.cut_of_le (by omega)]
    · rwa [Contents.cut_of_ne hs']

/-- The erase units with pages are the same. -/
theorem euBlank_iff {s d : Nat} (hd : d < eusPerSlot) :
    (c.cut slot (e * pagesPerEu + q)).EuBlank s d ↔ c.EuBlank s d := by
  have hle := h.le
  have hpos := h.pos
  by_cases hs' : s = slot
  swap
  · exact forall₂_congr fun i hi => by rw [Contents.cut_of_ne hs']
  subst hs'
  rcases Nat.lt_trichotomy d e with hlt | rfl | hgt
  · have hmul := Nat.mul_le_mul_right pagesPerEu (show d + 1 ≤ e from hlt)
    rw [Nat.add_mul, Nat.one_mul] at hmul
    exact forall₂_congr fun i hi => by rw [Contents.cut_of_lt (by omega)]
  · have hwritten := h.written 0 hpos
    refine iff_of_false (fun hb => hwritten ?_) fun hb => hwritten (hb 0 pagesPerEu_pos)
    have hnone := hb 0 pagesPerEu_pos
    rwa [Contents.cut_of_lt (by omega)] at hnone
  · have hmul := Nat.mul_le_mul_right pagesPerEu (show e + 1 ≤ d from hgt)
    rw [Nat.add_mul, Nat.one_mul] at hmul
    refine iff_of_true (fun i hi => Contents.cut_of_le (by omega)) fun i hi => ?_
    exact h.last _ (offset_lt hd hi) (by rw [div_of_eq hi rfl]; exact hgt)

/-- The slot is cut behind the pages that are kept. -/
theorem cut : Layout t.flash t.segMap (c.cut slot (e * pagesPerEu + q)) := by
  rw [h.restored.elsewhere.segMap]
  refine h.layout.revise h.restored.elsewhere.badEu (fun eu hmem p hp => h.standsFor hmem hp)
    (fun s d a hs hd ha i hi => h.holds hs hd ha hi) (fun s d _ hd => h.euBlank_iff hd)
    fun eu hmem hf i hi => ?_
  have heu := h.layout.reserves.isEu_reserve hmem
  by_cases hcb : eu = cb
  · subst hcb
    exact h.holds_blank heu (.inr rfl) hi (h.restored.blank_cb i hi)
  by_cases hhome : eu = home
  · -- a home is not free
    subst hhome
    obtain ⟨hst, hflag, -⟩ := h.standsFor_home hmem
    have hplace := (Flash.standsFor_iff.mp hst).2.1
    exact absurd (hplace.symm.trans (hflag.symm.trans hf.2))
      (place_ne_empty (place_lt h.dataSlot.lt h.inSlot))
  · refine h.holds_other heu hhome hcb hi (h.layout.free hmem ⟨?_, ?_⟩ i hi)
    · rw [← h.restored.elsewhere.good]
      exact hf.1
    · rw [← h.first heu hhome hcb]
      exact hf.2

/-- The home stays one. -/
theorem isHome_kept : IsHome t.flash t.segMap slot e home := by
  rw [h.restored.elsewhere.segMap]
  cases h.isHome with
  | self good => exact .self (by rwa [h.restored.elsewhere.good])
  | reserve bad mem stands =>
    refine .reserve (by rwa [h.restored.elsewhere.good]) mem ?_
    rwa [h.standsFor mem (place_lt h.dataSlot.lt h.inSlot)]

end CopiedBack

/-- From `w` to `t` the erase unit of a slot stayed where it was. -/
structure KeepsUnit (w t : World) (slot e : Nat) : Prop where
  badEu : t.flash.badEu = w.flash.badEu
  isHome : ∀ home, IsHome w.flash w.segMap slot e home → IsHome t.flash t.segMap slot e home

theorem KeepsUnit.trans {u : World} (h : KeepsUnit w t slot e) (h' : KeepsUnit t u slot e) :
    KeepsUnit w u slot e :=
  ⟨h'.badEu.trans h.badEu, fun home hh => h'.isHome home (h.isHome home hh)⟩

/-- The first page of the erase unit of a page that is written is looked up. -/
theorem Layout.euStart_run {segment n : Nat} (h : Layout w.flash w.segMap c)
    (hslot : w.segMap.IsDataSlot slot) (hlook : w.segMap.LooksUp segment slot n)
    (hw : c.WrittenTo slot n) (hle : n ≤ pagesPerSlot) (hk : k < n)
    (hh : IsHome w.flash w.segMap slot (k / pagesPerEu) home) :
    logicalAddressToPhysical ⟨segment, k / pagesPerEu * pagesPerEu⟩ w = .ok home w := by
  have hdiv := div_mul_add_mod k
  have he : k / pagesPerEu < eusPerSlot := div_lt_eusPerSlot (by omega)
  obtain ⟨a, ha, hrun⟩ := h.written_run hslot hlook hw hle (o := k / pagesPerEu * pagesPerEu)
    (by omega)
  rw [Nat.mul_div_cancel _ pagesPerEu_pos] at ha
  obtain rfl := h.home_unique hslot he ha hh
  rwa [Nat.mul_mod_left, Nat.add_zero] at hrun

/-- What `copyBackEU` starts from when the page is in the last erase unit that is written. -/
theorem Layout.copyBackStart {segment n : Nat} (h : Layout w.flash w.segMap c)
    (hslot : w.segMap.IsDataSlot slot) (hlook : w.segMap.LooksUp segment slot n)
    (hw : c.WrittenTo slot n) (hle : n ≤ pagesPerSlot) (hready : CopyBackFree w.flash w.segMap)
    (hk : k < n) (hlast : n ≤ (k / pagesPerEu + 1) * pagesPerEu)
    (hh : IsHome w.flash w.segMap slot (k / pagesPerEu) home) :
    CopyBackStart w ⟨segment, k⟩ home (w.flash.copyBackEu w.segMap)
      (fun i => w.flash.page (home + i)) (n - k / pagesPerEu * pagesPerEu) := by
  have hppe := pagesPerEu_pos
  have hsmall := pagesPerSlot_le
  have hdiv := div_mul_add_mod k
  have he : k / pagesPerEu < eusPerSlot := div_lt_eusPerSlot (by omega)
  rw [Nat.add_mul, Nat.one_mul] at hlast
  have hfree := h.free hready.mem hready.free
  have hcb := h.reserves.isEu_reserve hready.mem
  obtain ⟨hused, hpages⟩ := h.writtenPages hslot he hw hh
  have hcount : min (n - k / pagesPerEu * pagesPerEu) pagesPerEu =
      n - k / pagesPerEu * pagesPerEu := by omega
  rw [hcount] at hused hpages
  refine ⟨?_, h.isEu_home hslot he hh, hh.good, getCopybackEu_run h.reserves, hcb, hready.free.1,
    hready.ne_home hslot he hh, by omega, hused, hpages, fun i hi => ?_, fun i _ hi => (hfree i hi).2⟩
  · have hstart : (⟨segment, k⟩ : LogAddr).setOffset (calcEuStart k) =
        ⟨segment, k / pagesPerEu * pagesPerEu⟩ := by
      rw [LogAddr.setOffset, calcEuStart_eq, Nat.mod_eq_of_lt (by omega)]
    rw [hstart]
    exact h.euStart_run hslot hlook hw hle hk hh
  · rw [if_neg (Nat.not_lt_zero i)]
    exact (hfree i hi).1

/-- `copyBackEU` of a page in the last erase unit that is written, before the last page: the slot is
cut behind it. -/
theorem Layout.copyBackEU_spec {segment n : Nat} (h : Layout w.flash w.segMap c)
    (hslot : w.segMap.IsDataSlot slot) (hlook : w.segMap.LooksUp segment slot n)
    (hw : c.WrittenTo slot n) (hle : n ≤ pagesPerSlot) (hready : CopyBackFree w.flash w.segMap)
    (hk : k + 1 < n) (hlast : n ≤ (k / pagesPerEu + 1) * pagesPerEu) :
    wp (copyBackEU ⟨segment, k⟩) (fun r t => r = 0 ∧ t.segMap = w.segMap ∧
      Layout t.flash t.segMap (c.cut slot (k + 1)) ∧ KeepsUnit w t slot (k / pagesPerEu))
      (fun e _ => e = .powerLoss) w := by
  have hdiv := div_mul_add_mod k
  have hmod := Nat.mod_lt k pagesPerEu_pos
  have he : k / pagesPerEu < eusPerSlot := div_lt_eusPerSlot (by omega)
  obtain ⟨home, hh, -⟩ := h.written_run hslot hlook hw hle (o := k) (by omega)
  have hstart := h.copyBackStart hslot hlook hw hle hready (by omega) hlast hh
  rw [Nat.add_mul, Nat.one_mul] at hlast
  have hin : k % pagesPerEu + 1 < pagesPerEu := by omega
  have hcount : min (k % pagesPerEu + 1) (n - k / pagesPerEu * pagesPerEu) = k % pagesPerEu + 1 := by
    omega
  have hsum : k / pagesPerEu * pagesPerEu + (k % pagesPerEu + 1) = k + 1 := by omega
  refine wp_run_congr (copyBackEU_run hstart) ?_
  refine wp_mono (wp_and (copyBackSimple_spec w (w.realOf home) hstart.isEu hstart.isEu_cb hstart.ne
    hstart.good hstart.good_cb hstart.used hstart.le hin hstart.pages hstart.blank hstart.clean)
    (SameWrites.keeps_copyBackSimple (f := w.flash) hstart.isEu hstart.isEu_cb hin (w.realOf home) w
      ?_)) ?_ ?_
  · -- at the start the unused pages of the two erase units are clean
    intro a
    split
    · rename_i hor
      intro hunused
      have hoff := Nat.mod_lt a pagesPerEu_pos
      have hsum : calcEuStart a + a % pagesPerEu = a := by
        have := Nat.mod_le a pagesPerEu
        rw [calcEuStart]
        omega
      have hpage : ∃ st, PageHolds w.flash a st := by
        rw [← hsum]
        rcases hor with hor | hor
        · rw [hor]
          exact ⟨_, h.holds hslot he hh _ hoff⟩
        · rw [hor]
          exact ⟨_, h.free hready.mem hready.free _ hoff⟩
      obtain ⟨st, hst⟩ := hpage
      cases st with
      | none => exact hst.2
      | some st =>
        have hused := hst.2.used
        rw [hunused] at hused
        exact absurd hused Bool.false_ne_true
    · rfl
  · rintro r t ⟨⟨hr, j, -, hstate, hj⟩, hwrites⟩
    rw [hcount] at hstate hj
    cases hstate with
    | copying hq _ => omega
    | restoring hq _ => omega
    | done hdone =>
      have hend : ∀ o < pagesPerSlot, k / pagesPerEu < o / pagesPerEu → c slot o = none := by
        intro o ho hlt
        by_contra hne
        have hon := (hw o ho).mp hne
        have hmul := Nat.mul_le_mul_right pagesPerEu (show k / pagesPerEu + 1 ≤ o / pagesPerEu from hlt)
        have := div_mul_add_mod o
        rw [Nat.add_mul, Nat.one_mul] at hmul
        omega
      have hcopied : CopiedBack w c slot (k / pagesPerEu) home _ _ _ t :=
        ⟨h, hslot, he, hh, hready.mem, hready.free, Nat.succ_pos _, hin.le,
          fun i hi => (hw _ (offset_lt he (by omega))).mpr (by omega), hend, hdone, hwrites⟩
      have hcut := hcopied.cut
      rw [hsum] at hcut
      refine ⟨hr, hdone.elsewhere.segMap, hcut, hdone.elsewhere.badEu, fun home' hh' => ?_⟩
      obtain rfl := h.home_unique hslot he hh' hh
      exact hcopied.isHome_kept
  · rintro e t ⟨⟨rfl, -⟩, -⟩
    rfl

/-- The driver asserts that a page is not programmed twice. -/
theorem nandProgramTotalPage_halts {page : Page} {a : Nat} (hused : w.flash.mainAreaWrites a = true)
    (ha : a < pageCount) : wp (nandProgramTotalPage page a) (fun _ _ => False) (fun _ _ => True) w := by
  have hprogram : ∀ total, wp (seqVerify (nandProgramPageA page a total) (pure 0)) (fun _ _ => False)
      (fun _ _ => True) w := by
    intro total
    refine wp_seqVerify ?_
    unfold nandProgramPageA
    rw [wp_bind]
    refine wp_getFp (fun _ => ?_) trivial
    rw [if_neg (Nat.not_le_of_lt ha), wp_bind, wp_get, wp_bind]
    refine wp_assert (fun hno => ?_) trivial
    rw [hused] at hno
    exact absurd hno Bool.false_ne_true
  unfold nandProgramTotalPage
  exact wp_ite (fun _ => hprogram true) fun _ => hprogram false

/-- `copyBackEU` of a page before the last one of its erase unit halts where the copy-back unit is in
use. -/
theorem Layout.copyBackEU_halts {segment n : Nat} (h : Layout w.flash w.segMap c)
    (hslot : w.segMap.IsDataSlot slot) (hlook : w.segMap.LooksUp segment slot n)
    (hw : c.WrittenTo slot n) (hle : n ≤ pagesPerSlot)
    (hvalid : w.flash.copyBackEu w.segMap ≠ phyAddressEmpty)
    (hused : w.flash.mainAreaWrites (w.flash.copyBackEu w.segMap) = true)
    (hk : k < n) (hin : k % pagesPerEu + 1 < pagesPerEu) :
    wp (copyBackEU ⟨segment, k⟩) (fun _ _ => False) (fun _ _ => True) w := by
  have hsmall := pagesPerSlot_le
  have hdiv := div_mul_add_mod k
  have he : k / pagesPerEu < eusPerSlot := div_lt_eusPerSlot (by omega)
  obtain ⟨home, hh, -⟩ := h.written_run hslot hlook hw hle hk
  have hrun := h.euStart_run hslot hlook hw hle hk hh
  have hiseu := h.isEu_home hslot he hh
  have hcb := h.reserves.isEu_reserve (Flash.copyBackEu_mem hvalid)
  have hstart : (⟨segment, k⟩ : LogAddr).setOffset (calcEuStart k) =
      ⟨segment, k / pagesPerEu * pagesPerEu⟩ := by
    rw [LogAddr.setOffset, calcEuStart_eq, Nat.mod_eq_of_lt (by omega)]
  have hpage : isPageUsed (w.flash.page home).flags = true := by
    have hholds := h.holds hslot he hh 0 pagesPerEu_pos
    rw [Nat.add_zero, Nat.add_zero] at hholds
    exact hholds.used_iff.mpr ((hw _ (by omega)).mpr (by omega))
  -- the first page that is copied
  have hcopy : ∀ org, wp (copyBackSimple (w.flash.copyBackEu w.segMap)
      (calcEuStart home + calcOffsetInEu k + 1) false org) (fun _ _ => False) (fun _ _ => True) w := by
    intro org
    unfold copyBackSimple
    rw [hiseu.calcEuStart_self, Nat.add_assoc, show calcOffsetInEu k + 1 = k % pagesPerEu + 1 from rfl,
      hiseu.calcOffsetInEu_add hin, hiseu.calcEuStart_add hin]
    refine wp_seqVerify ?_
    show wp (seqVerify (copyBackPage (_ + 0) (home + 0) true org) _) _ _ w
    refine wp_seqVerify ?_
    unfold copyBackPage
    rw [Nat.add_zero, Nat.add_zero, wp_bind, wp_ok_iff (nandReadPageTotal_run hiseu.lt)]
    dsimp only
    rw [if_pos hpage]
    refine wp_seqVerify (wp_mono (nandProgramTotalPage_halts hused hcb.lt) ?_ fun _ _ _ => trivial)
    exact fun _ _ hfalse => hfalse.elim
  unfold copyBackEU
  dsimp only
  rw [hstart, wp_bind, wp_ok_iff hrun, wp_bind, wp_ok_iff (getCopybackEu_run h.reserves), wp_bind,
    wp_ok_iff (assert_run (decide_eq_true hcb.lt)), wp_bind, wp_getSegMap]
  cases w.segMap.isAddressReserve home with
  | true =>
    rw [if_pos rfl, wp_bind, wp_ok_iff (nandReadPageFlags_run hiseu.lt), wp_bind, wp_pure]
    exact hcopy _
  | false =>
    rw [if_neg Bool.false_ne_true, wp_bind, wp_pure]
    exact hcopy _

end CopyBack

end NandFs
