import NandFs.SlotPrograms

/-! # The head of the log

The next page is written at the reclaimed offset of the new slot.  Up to there the slot is
written, from there on it is blank (`Head`), and where the offset is inside an erase unit the
segment map knows whether that is bad and which one replaces it (`HeadPlaced`).  Writing a
page moves the head on; at the start of an erase unit `placeEu` finds where it is written.
-/
namespace NandFs

open Program

variable [Config]

/-- The offset of the next page to be written. -/
abbrev SegMap.headOffset (m : SegMap) : Nat := m.reclaimed.offset

/-- The segment map says where the erase unit of the head is written. -/
inductive HeadPlaced (f : Flash) (m : SegMap) : Prop
  | home (notReserve : m.isEuReserve = false)
      (good : f.good (euAt m.newSlotId (m.headOffset / pagesPerEu)) = true)
  | reserve (isReserve : m.isEuReserve = true)
      (bad : f.good (euAt m.newSlotId (m.headOffset / pagesPerEu)) = false)
      (mem : m.IsReserveEu m.reserveEuAddr)
      (target : IsTarget f m m.newSlotId m.headOffset
        (m.reserveEuAddr + m.headOffset % pagesPerEu))

/-- Where the head is written depends on a part of the segment map only. -/
theorem HeadPlaced.congr {f : Flash} {m m' : SegMap} (h : HeadPlaced f m)
    (hslots : m'.segToSlot = m.segToSlot) (hnew : m'.newSlotId = m.newSlotId)
    (hoff : m'.headOffset = m.headOffset) (hres : m'.isEuReserve = m.isEuReserve)
    (haddr : m'.reserveEuAddr = m.reserveEuAddr) : HeadPlaced f m' := by
  have hm : ∀ seg ∈ reserveSegments, m'.segToSlot seg = m.segToSlot seg := fun seg _ => by
    rw [hslots]
  cases h with
  | home notReserve good => exact .home (by rw [hres]; exact notReserve) (by rw [hnew, hoff]; exact good)
  | reserve isReserve bad mem target =>
    refine .reserve (by rw [hres]; exact isReserve) (by rw [hnew, hoff]; exact bad)
      (by rw [haddr]; exact mem.congr hm) ?_
    rw [haddr, hnew, hoff]
    exact target.congr hm

/-- The new slot is written up to the head, and the map is fit to go on from there. -/
structure Head (f : Flash) (m : SegMap) (c : Contents) : Prop where
  layout : Layout f m c
  copyBack : f.validEuAt (m.segToSlot firstReserveSegment) 2 ≠ phyAddressEmpty
  notReserve : m.isEuReserve = false → m.reserveEuAddr = phyAddressEmpty
  newSlot : m.IsDataSlot m.newSlotId
  growing : m.isStateReclamation = false → m.reclaimedSegmentSlot = m.newSlotId
  le : m.headOffset ≤ pagesPerSlot
  written : ∀ o < pagesPerSlot, c m.newSlotId o ≠ none ↔ o < m.headOffset
  placed : m.headOffset % pagesPerEu ≠ 0 → HeadPlaced f m

section Head
variable {f : Flash} {m : SegMap} {c : Contents}

theorem Head.blank (h : Head f m c) (ho : m.headOffset < pagesPerSlot) :
    c m.newSlotId m.headOffset = none := by
  by_contra hne
  exact Nat.lt_irrefl _ ((h.written _ ho).mp hne)

theorem HeadPlaced.target (h : HeadPlaced f m) (hres : m.isEuReserve = false) :
    IsTarget f m m.newSlotId m.headOffset (calcAddress m.newSlotId 0 m.headOffset) := by
  cases h with
  | home _ good =>
    rw [calcAddress_eq_euAt]
    exact .home (.self good)
  | reserve isReserve =>
    rw [hres] at isReserve
    exact absurd isReserve Bool.false_ne_true

theorem incrementReclaimedOffset_eq (ho : m.headOffset < pagesPerSlot) :
    m.incrementReclaimedOffset = { m with reclaimed := ⟨m.reclaimed.segment, m.headOffset + 1⟩ } := by
  have := pagesPerSlot_le
  have hmod : (m.headOffset + 1) % 4096 = m.headOffset + 1 := Nat.mod_eq_of_lt (by omega)
  unfold SegMap.incrementReclaimedOffset SegMap.setReclaimedOffset LogAddr.setOffset
  rw [hmod]

end Head

/-! ## Writing at the head -/

section Write
variable {E : Halt → World → Prop} (hE : ∀ t, E .powerLoss t) {s : World} {c : Contents}

/-- Where `calc_target_phy_addr` points. -/
def SegMap.target (m : SegMap) : Nat :=
  if m.isEuReserve then m.reserveEuAddr + m.headOffset % pagesPerEu
  else calcAddress m.newSlotId 0 m.headOffset

theorem Head.calcTargetPhyAddr_run (h : Head s.flash s.segMap c)
    (hne : s.segMap.isEuReserve = true → s.segMap.reserveEuAddr ≠ phyAddressEmpty) :
    calcTargetPhyAddr s = .ok s.segMap.target s := by
  unfold calcTargetPhyAddr SegMap.target
  rw [bind_ok (show getSegMap s = .ok s.segMap s from rfl)]
  cases hres : s.segMap.isEuReserve with
  | true =>
    rw [if_pos (hne hres), if_pos rfl]
    rfl
  | false =>
    rw [if_neg (not_not_intro (h.notReserve hres)), if_neg Bool.false_ne_true]
    cases hrec : s.segMap.isStateReclamation with
    | true => rw [if_pos rfl]; rfl
    | false => rw [if_neg Bool.false_ne_true, h.growing hrec]; rfl

theorem HeadPlaced.isTarget {f : Flash} {m : SegMap} (h : HeadPlaced f m) :
    IsTarget f m m.newSlotId m.headOffset m.target := by
  unfold SegMap.target
  cases h with
  | home notReserve good =>
    rw [notReserve, if_neg Bool.false_ne_true, calcAddress_eq_euAt]
    exact .home (.self good)
  | reserve isReserve _ _ target =>
    rw [isReserve, if_pos rfl]
    exact target

theorem Head.target_run (h : Head s.flash s.segMap c) (hp : HeadPlaced s.flash s.segMap) :
    calcTargetPhyAddr s = .ok s.segMap.target s := by
  refine h.calcTargetPhyAddr_run fun hres => ?_
  cases hp with
  | home notReserve => rw [notReserve] at hres; exact absurd hres Bool.false_ne_true
  | reserve _ _ mem => exact (h.layout.reserves.isEu_reserve mem).ne_empty

/-- Once the page at the head is written, the head is one page further on. -/
theorem Head.advance {t : World} {stored : Stored} (h : Head s.flash s.segMap c)
    (hp : HeadPlaced s.flash s.segMap) (ho : s.segMap.headOffset < pagesPerSlot)
    (hst : OnChip s t)
    (hlay : Layout t.flash t.segMap (c.set s.segMap.newSlotId s.segMap.headOffset stored))
    (hhome : ∃ home, s.segMap.target = home + s.segMap.headOffset % pagesPerEu ∧
      IsHome t.flash t.segMap s.segMap.newSlotId (s.segMap.headOffset / pagesPerEu) home) :
    Head t.flash t.segMap.incrementReclaimedOffset
      (c.set s.segMap.newSlotId s.segMap.headOffset stored) := by
  have hm := hst.segMap
  have hinc := incrementReclaimedOffset_eq ho
  rw [hm] at hlay hhome ⊢
  rw [hinc]
  constructor
  · exact hlay.congr fun _ _ => rfl
  · have hcb := h.copyBack
    unfold Flash.validEuAt at hcb ⊢
    rw [show t.flash.good = s.flash.good from funext hst.good]
    exact hcb
  · exact h.notReserve
  · exact ⟨h.newSlot.lt, h.newSlot.data⟩
  · exact h.growing
  · exact ho
  · intro o hlt
    show c.set _ _ _ s.segMap.newSlotId o ≠ none ↔ o < s.segMap.headOffset + 1
    by_cases ho' : o = s.segMap.headOffset
    · subst ho'
      rw [Contents.set_self]
      exact iff_of_true (Option.some_ne_none _) (Nat.lt_succ_self _)
    · rw [Contents.set_of_ne ho', h.written o hlt]
      omega
  · intro hin
    have hin : (s.segMap.headOffset + 1) % pagesPerEu ≠ 0 := hin
    have hpos := pagesPerEu_pos
    have hdiv : (s.segMap.headOffset + 1) / pagesPerEu = s.segMap.headOffset / pagesPerEu := by
      rw [Nat.succ_div, if_neg fun hdvd => hin (Nat.mod_eq_zero_of_dvd hdvd), Nat.add_zero]
    cases hp with
    | home notReserve good =>
      refine .home notReserve ?_
      show t.flash.good (euAt _ ((s.segMap.headOffset + 1) / pagesPerEu)) = true
      rw [hdiv, hst.good]
      exact good
    | reserve isReserve bad mem target =>
      obtain ⟨home, heq, hh⟩ := hhome
      rw [SegMap.target, if_pos isReserve] at heq
      obtain rfl : s.segMap.reserveEuAddr = home := by omega
      refine .reserve isReserve ?_ mem (.home ?_)
      · show t.flash.good (euAt _ ((s.segMap.headOffset + 1) / pagesPerEu)) = false
        rw [hdiv, hst.good]
        exact bad
      · show IsHome _ _ _ ((s.segMap.headOffset + 1) / pagesPerEu) _
        rw [hdiv]
        exact hh.congr fun _ _ => rfl

/-- The head is not written to a copy-back unit that is spared. -/
theorem HeadPlaced.target_ne {f : Flash} {m : SegMap} (h : HeadPlaced f m)
    (hres : m.ReservesInChip) (hslot : m.IsDataSlot m.newSlotId) (ho : m.headOffset < pagesPerSlot)
    (hcb : CopyBackSpared f m) : m.target ≠ f.copyBackEu m := by
  have hmod := Nat.mod_lt m.headOffset pagesPerEu_pos
  have hiseu := hres.isEu_reserve hcb.mem
  have hstart : ∀ {eu}, IsEu eu → eu + m.headOffset % pagesPerEu = f.copyBackEu m →
      eu = f.copyBackEu m := fun heu heq =>
    (heu.add_inj hiseu hmod pagesPerEu_pos heq).1
  intro heq
  unfold SegMap.target at heq
  cases h with
  | home notReserve =>
    have heu := div_lt_eusPerSlot ho
    rw [notReserve, if_neg Bool.false_ne_true, calcAddress_eq_euAt] at heq
    have hself := hstart (isEu_euAt hslot.lt heu) heq
    exact hslot.not_reserve heu (hself ▸ hcb.mem)
  | reserve isReserve _ mem =>
    rw [isReserve, if_pos rfl] at heq
    exact hcb.notHead isReserve (hstart (hres.isEu_reserve mem) heq)

include hE

/-- A page is programmed at the head.  In a reserve erase unit it carries the place that the
erase unit stands for. -/
theorem wp_programHead {Q : Nat → World → Prop} {page : Page} (h : Head s.flash s.segMap c)
    (hp : HeadPlaced s.flash s.segMap) (ho : s.segMap.headOffset < pagesPerSlot)
    (hw : page.Written)
    (hplace : s.segMap.isEuReserve = true → page.flags.slotEuOffset =
      calculateSlotIdAndEuOffset (euAt s.segMap.newSlotId (s.segMap.headOffset / pagesPerEu)))
    (hq : ∀ t, OnChip s t → Head t.flash t.segMap.incrementReclaimedOffset
      (c.set s.segMap.newSlotId s.segMap.headOffset page.stored) → Q 0 t) :
    wp (nandProgramTotalPage page s.segMap.target) Q E s := by
  refine wp_programAt hE h.layout h.newSlot ho (h.blank ho) hp.isTarget
    (fun hcb => hp.target_ne h.layout.reserves h.newSlot ho hcb) hw (fun hbad _ => ?_)
    fun t hst _ hlay hhome _ => hq t hst (h.advance hp ho hst hlay hhome)
  cases hp with
  | home _ good => rw [good] at hbad; exact absurd hbad Bool.true_eq_false.mp
  | reserve isReserve => exact hplace isReserve

/-- `writeBlock` at the head. -/
theorem wp_writeBlock {Q : LogAddr → World → Prop} {data : Page} (h : Head s.flash s.segMap c)
    (hp : HeadPlaced s.flash s.segMap) (ho : s.segMap.headOffset < pagesPerSlot)
    (hcb : data.flags.copyBack = false)
    (hq : ∀ t, OnChip s t → Head t.flash t.segMap.incrementReclaimedOffset
      (c.set s.segMap.newSlotId s.segMap.headOffset data.stored) → Q s.segMap.reclaimed t) :
    wp (writeBlock data s.segMap.target) Q E s := by
  have heu := div_lt_eusPerSlot ho
  have hmod := Nat.mod_lt s.segMap.headOffset pagesPerEu_pos
  have hiseu := isEu_euAt h.newSlot.lt heu
  have hplace : calculateSlotIdAndEuOffset (calcAddress s.segMap.newSlotId 0 s.segMap.headOffset)
      % 2 ^ 24 = calculateSlotIdAndEuOffset
        (euAt s.segMap.newSlotId (s.segMap.headOffset / pagesPerEu)) := by
    rw [calcAddress_eq_euAt, hiseu.calculateSlotIdAndEuOffset_add hmod]
    have := place_lt h.newSlot.lt heu
    exact Nat.mod_eq_of_lt (by omega)
  -- the address that is programmed is the target in both cases
  have haddr : (if s.segMap.isEuReserve then
      s.segMap.reserveEuAddr + calcOffsetInEu s.segMap.target else s.segMap.target)
        = s.segMap.target := by
    cases hp with
    | home notReserve => rw [notReserve, if_neg Bool.false_ne_true]
    | reserve isReserve bad mem target =>
      have hr := h.layout.reserves.isEu_reserve mem
      rw [isReserve, if_pos rfl, SegMap.target, if_pos isReserve, hr.calcOffsetInEu_add hmod]
  have hprog : ∀ page : Page, page.stored = data.stored → page.Written →
      (s.segMap.isEuReserve = true → page.flags.slotEuOffset = calculateSlotIdAndEuOffset
        (euAt s.segMap.newSlotId (s.segMap.headOffset / pagesPerEu))) →
      wp (do
        if (← nandProgramTotalPage page s.segMap.target) ≠ 0 then pure LogAddr.empty
        else pure s.segMap.reclaimed) Q E s := by
    intro page hstored hpw hppl
    rw [wp_bind]
    refine wp_programHead hE h hp ho hpw hppl fun t hst ht => ?_
    rw [if_neg (not_not_intro rfl), wp_pure]
    rw [hstored] at ht
    exact hq t hst ht
  unfold writeBlock
  rw [wp_bind, wp_getSegMap, haddr]
  cases hres : s.segMap.isEuReserve with
  | true =>
    refine hprog _ ?_ ⟨hcb, rfl⟩ fun _ => hplace
    rw [if_pos rfl]
    rfl
  | false =>
    refine hprog _ ?_ ⟨hcb, rfl⟩ fun hno => ?_
    · rw [if_neg Bool.false_ne_true]
      rfl
    · rw [hres] at hno
      exact absurd hno Bool.false_ne_true

end Write

/-! ## Placing the head -/

/-- The map with another answer to where the erase unit of the head is. -/
def SegMap.placing (m : SegMap) (isEuReserve : Bool) (reserveEuAddr : Nat) : SegMap :=
  { m with isEuReserve := isEuReserve, reserveEuAddr := reserveEuAddr }

theorem Head.placing {f : Flash} {m : SegMap} {c : Contents} (h : Head f m c) {isEuReserve : Bool}
    {reserveEuAddr : Nat} (hno : isEuReserve = false → reserveEuAddr = phyAddressEmpty)
    (hplaced : m.headOffset % pagesPerEu ≠ 0 → HeadPlaced f (m.placing isEuReserve reserveEuAddr)) :
    Head f (m.placing isEuReserve reserveEuAddr) c where
  layout := h.layout.congr fun _ _ => rfl
  copyBack := h.copyBack
  notReserve := hno
  newSlot := ⟨h.newSlot.lt, h.newSlot.data⟩
  growing := h.growing
  le := h.le
  written := h.written
  placed := hplaced

/-- A copy-back unit that is free is spared where the head is placed elsewhere. -/
theorem CopyBackFree.placing {f : Flash} {m : SegMap} (h : CopyBackFree f m) {isEuReserve : Bool}
    {reserveEuAddr : Nat} (hne : isEuReserve = true → reserveEuAddr ≠ f.copyBackEu m) :
    CopyBackSpared f (m.placing isEuReserve reserveEuAddr) :=
  ⟨h.of_flag rfl rfl rfl, hne⟩

section Place
variable {s : World} {c : Contents}

/-- At the start of an erase unit none of its pages is written. -/
theorem Head.euBlank {f : Flash} {m : SegMap} (h : Head f m c) (ho : m.headOffset < pagesPerSlot)
    (hstart : m.headOffset % pagesPerEu = 0) :
    c.EuBlank m.newSlotId (m.headOffset / pagesPerEu) := by
  intro i hi
  by_contra hne
  have hlt := offset_lt (div_lt_eusPerSlot ho) hi
  have := (h.written _ hlt).mp hne
  have := div_mul_add_mod m.headOffset
  omega

/-- A free reserve erase unit is where the head goes if its erase unit is bad. -/
theorem Head.placed_reserve {f : Flash} {m : SegMap} (h : Head f m c)
    (ho : m.headOffset < pagesPerSlot) (hstart : m.headOffset % pagesPerEu = 0)
    (bad : f.good (euAt m.newSlotId (m.headOffset / pagesPerEu)) = false) {eu : Nat}
    (mem : m.IsReserveEu eu) (free : f.IsFree eu) : HeadPlaced f (m.placing true eu) := by
  have hblank := h.euBlank ho hstart
  refine .reserve rfl bad (mem.congr fun _ _ => rfl) ?_
  show IsTarget f _ m.newSlotId m.headOffset (eu + m.headOffset % pagesPerEu)
  rw [hstart, Nat.add_zero]
  refine IsTarget.congr (.fresh bad mem free hstart fun home hh => ?_) fun _ _ => rfl
  exact (h.layout.replaced h.newSlot (div_lt_eusPerSlot ho) bad).mp ⟨home, hh⟩ hblank

/-- `placeEu` at the start of an erase unit. -/
theorem placeEu_spec (h : Head s.flash s.segMap c) (ho : s.segMap.headOffset < pagesPerSlot)
    (hstart : s.segMap.headOffset % pagesPerEu = 0) :
    ∃ res a x y, placeEu s = .ok (res, a) { s with segMap := s.segMap.placing x y } ∧
      Head s.flash (s.segMap.placing x y) c ∧
      (res = 0 ∧ a = (s.segMap.placing x y).target ∧ HeadPlaced s.flash (s.segMap.placing x y) ∨
        res = errorNoReserveEu) ∧
      (CopyBackSpared s.flash s.segMap → CopyBackSpared s.flash (s.segMap.placing x y)) := by
  have hiseu := isEu_euAt h.newSlot.lt (div_lt_eusPerSlot ho)
  have hreset : Head s.flash (s.segMap.placing false phyAddressEmpty) c :=
    h.placing (fun _ => rfl) fun hne => absurd hstart hne
  have haddr : calcAddress s.segMap.newSlotId 0 s.segMap.headOffset
      = euAt s.segMap.newSlotId (s.segMap.headOffset / pagesPerEu) := by
    rw [calcAddress_eq_euAt, hstart, Nat.add_zero]
  have htarget : (s.segMap.placing false phyAddressEmpty).target
      = euAt s.segMap.newSlotId (s.segMap.headOffset / pagesPerEu) := by
    rw [← haddr]
    exact if_neg Bool.false_ne_true
  have hrun := hreset.calcTargetPhyAddr_run
    (s := { s with segMap := s.segMap.placing false phyAddressEmpty })
    fun hres => absurd hres Bool.false_ne_true
  unfold placeEu
  rw [bind_ok (show modifySegMap _ s = .ok () { s with
    segMap := s.segMap.placing false phyAddressEmpty } from rfl), bind_ok hrun, htarget,
    bind_ok (nandCheckEuStatus_run hiseu.lt)]
  cases hgood : s.flash.good (euAt s.segMap.newSlotId (s.segMap.headOffset / pagesPerEu)) with
  | true =>
    exact ⟨0, _, false, phyAddressEmpty, rfl, hreset, .inl ⟨rfl, htarget.symm, .home rfl hgood⟩,
      fun hcb => hcb.placing fun h => absurd h Bool.false_ne_true⟩
  | false =>
    obtain ⟨r, halloc, hr⟩ := allocReserveEU_free
      (s := { s with segMap := s.segMap.placing false phyAddressEmpty })
      (h.layout.congr fun _ _ => rfl).reserves rfl h.copyBack hiseu
    rw [if_neg Bool.false_ne_true, bind_ok halloc]
    rcases hr with rfl | ⟨mem, hfree⟩
    · refine ⟨errorNoReserveEu, _, true, phyAddressEmpty, rfl, ?_, .inr rfl,
        fun hcb => hcb.placing fun _ => hcb.valid.symm⟩
      exact h.placing (fun hno => absurd hno.symm Bool.false_ne_true) fun hne => absurd hstart hne
    · have free := Flash.isFree_of_freeEu hfree
      have hne : r ≠ phyAddressEmpty := ((h.layout.congr fun _ _ => rfl).reserves.isEu_reserve
        mem).ne_empty
      have hplaced := h.placed_reserve ho hstart hgood (mem.congr fun _ _ => rfl) free
      refine ⟨0, r, true, r, ?_, ?_, .inl ⟨rfl, ?_, hplaced⟩,
        fun hcb => hcb.placing fun _ => (Flash.freeEu_iff.mp hfree).2.1.symm⟩
      · rw [bind_ok (show modifySegMap _ _ = .ok () _ from rfl), if_neg hne]
        rfl
      · exact h.placing (fun hno => absurd hno.symm Bool.false_ne_true) fun _ => hplaced
      · show r = r + s.segMap.headOffset % pagesPerEu
        rw [hstart, Nat.add_zero]

/-- `placePage` finds where the page at the head is written, if there is a place for it. -/
theorem placePage_spec (h : Head s.flash s.segMap c) (ho : s.segMap.headOffset < pagesPerSlot) :
    ∃ res a x y, placePage s = .ok (res, a) { s with segMap := s.segMap.placing x y } ∧
      Head s.flash (s.segMap.placing x y) c ∧
      (res = 0 ∧ a = (s.segMap.placing x y).target ∧ HeadPlaced s.flash (s.segMap.placing x y) ∨
        res = errorNoReserveEu) ∧
      (CopyBackSpared s.flash s.segMap → CopyBackSpared s.flash (s.segMap.placing x y)) := by
  unfold placePage
  rw [bind_ok (show getSegMap s = .ok s.segMap s from rfl)]
  by_cases hstart : s.segMap.headOffset % pagesPerEu = 0
  · rw [if_pos (show calcOffsetInEu s.segMap.reclaimed.offset = 0 from hstart)]
    exact placeEu_spec h ho hstart
  · rw [if_neg (show ¬calcOffsetInEu s.segMap.reclaimed.offset = 0 from hstart),
      bind_ok (h.target_run (h.placed hstart))]
    exact ⟨0, _, s.segMap.isEuReserve, s.segMap.reserveEuAddr, rfl, h,
      .inl ⟨rfl, rfl, h.placed hstart⟩, id⟩

end Place

end NandFs
