import NandFs.LogSteps

/-! # Reading and marking a page

A logical address of a segment that exists is looked up at the home of its page
(`Log.lookup`): `readBlock` reads a live page there, and `markAsObsolete` marks a page that is
written there and no other.
-/
namespace NandFs

open Program

variable [Config]

/-- The slot in which a logical address is looked up. -/
def SegMap.slotOf (m : SegMap) (a : LogAddr) : Nat :=
  if m.isStateReclamation ∧ a.segment = m.reclaimed.segment ∧ a.offset < m.reclaimed.offset
  then m.newSlotId else m.segToSlot a.segment

section Lookup
variable {f : Flash} {m : SegMap} {c : Contents} {nBytes : Nat} {live : LogAddr → Option Block}

theorem SegMap.stored_eq (a : LogAddr) : m.stored c a = c (m.slotOf a) a.offset := by
  unfold SegMap.stored SegMap.slotOf
  split <;> rfl

theorem SegMap.expectedPage_eq (a : LogAddr) :
    m.expectedPage a = calcAddress (m.slotOf a) 0 a.offset := by
  unfold SegMap.expectedPage SegMap.slotOf
  split <;> rfl

theorem Mapping.Phase.slotOf_data (h : m.mapping.Phase) {a : LogAddr}
    (ha : a.segment < m.nSegments) : m.IsDataSlot (m.slotOf a) := by
  unfold SegMap.slotOf
  split
  · exact h.newSlot_data
  · exact h.data_slot ha

/-- Different logical addresses are looked up at different pages. -/
theorem Mapping.Phase.slotOf_inj (h : m.mapping.Phase) {a b : LogAddr}
    (ha : a.segment < m.nSegments) (hb : b.segment < m.nSegments)
    (hslot : m.slotOf a = m.slotOf b) (ho : a.offset = b.offset) : a = b := by
  have hseg : a.segment = b.segment := by
    unfold SegMap.slotOf at hslot
    split at hslot
    · rename_i hca
      split at hslot
      · rename_i hcb
        exact hca.2.1.trans hcb.2.1.symm
      · exact absurd hslot.symm (h.newSlot_ne hca.1 (mem_existing_of_lt hb))
    · split at hslot
      · rename_i hcb
        exact absurd hslot (h.newSlot_ne hcb.1 (mem_existing_of_lt ha))
      · exact h.slot_inj (mem_existing_of_lt ha) (mem_existing_of_lt hb) hslot
  cases a
  cases b
  exact congrArg₂ LogAddr.mk hseg ho

end Lookup

section World
variable {w : World} {c : Contents} {nBytes : Nat} {live : LogAddr → Option Block} {a : LogAddr}

/-- A logical address is found at the home of its page, or nowhere. -/
theorem Log.lookup (h : Log nBytes w.flash w.segMap c) (ha : a.segment < w.segMap.nSegments)
    (ho : a.offset < pagesPerSlot) :
    (∃ home, IsHome w.flash w.segMap (w.segMap.slotOf a) (a.offset / pagesPerEu) home ∧
      logicalAddressToPhysical a w = .ok (home + a.offset % pagesPerEu) w) ∨
    w.segMap.stored c a = none ∧ logicalAddressToPhysical a w = .ok phyAddressEmpty w := by
  have hphase := h.segments.phase
  have hslot := hphase.slotOf_data ha
  have hne := hphase.slot_ne_noSlot ha
  by_cases hhome : ∃ home, IsHome w.flash w.segMap (w.segMap.slotOf a) (a.offset / pagesPerEu) home
  · obtain ⟨home, hh⟩ := hhome
    exact .inl ⟨home, hh, h.head.layout.logicalAddressToPhysical_run hslot hne ho
      (SegMap.expectedPage_eq a) hh⟩
  · have heu := div_lt_eusPerSlot ho
    have hi := Nat.mod_lt a.offset pagesPerEu_pos
    have hstart := isEu_euAt hslot.lt heu
    have hbad : w.flash.good (euAt (w.segMap.slotOf a) (a.offset / pagesPerEu)) = false := by
      cases hgood : w.flash.good (euAt (w.segMap.slotOf a) (a.offset / pagesPerEu)) with
      | false => rfl
      | true => exact absurd ⟨_, .self hgood⟩ hhome
    have hblank : c.EuBlank (w.segMap.slotOf a) (a.offset / pagesPerEu) := by
      by_contra hnb
      exact hhome ((h.head.layout.replaced hslot heu hbad).mpr hnb)
    refine .inr ⟨?_, ?_⟩
    · have hpage := hblank _ hi
      rw [div_mul_add_mod] at hpage
      rw [SegMap.stored_eq, hpage]
    · unfold logicalAddressToPhysical
      rw [bind_ok (show getSegMap w = .ok w.segMap w from rfl),
        bind_ok (assert_run (bne_iff_ne.mpr hne)), bind_ok (assert_run (decide_eq_true ho)),
        SegMap.expectedPage_eq, calcAddress_eq_euAt, hstart.calcEuStart_add hi,
        bind_ok (nandCheckEuStatus_run hstart.lt), hbad, if_neg Bool.false_ne_true]
      exact h.head.layout.reservePhysical_run_blank hslot hbad heu hblank hi

/-- What a page that was written holds. -/
theorem Log.holds (h : Log nBytes w.flash w.segMap c) (ha : a.segment < w.segMap.nSegments)
    (ho : a.offset < pagesPerSlot) {st : Stored} (hst : w.segMap.stored c a = some st) :
    ∃ phy, logicalAddressToPhysical a w = .ok phy w ∧ phy < pageCount ∧
      (w.flash.page phy).stored = st := by
  have hslot := h.segments.phase.slotOf_data ha
  rcases h.lookup ha ho with ⟨home, hh, hrun⟩ | ⟨hno, -⟩
  · have hpage := h.head.layout.holds_at hslot ho hh
    rw [SegMap.stored_eq] at hst
    rw [hst] at hpage
    exact ⟨_, hrun, (h.head.layout.isEu_home hslot (div_lt_eusPerSlot ho) hh).add_lt
      (Nat.mod_lt _ pagesPerEu_pos), hpage.1⟩
  · rw [hno] at hst
    exact absurd hst (Option.some_ne_none st).symm

/-- A live page is read. -/
theorem KeepsLive.readBlock_run (h : KeepsLive nBytes live w) {b : Block}
    (hab : live a = some b) : readBlock a w = .ok (some b) w := by
  obtain ⟨c, hlog, hlive⟩ := h
  obtain ⟨ha, -, ho, st, hst, hvalid⟩ := hlive a b hab
  obtain ⟨phy, hrun, hlt, hpage⟩ := hlog.holds ha ho hst
  have hne := ne_empty_of_lt hlt
  have hmain : (w.flash.page phy).main = b := (congrArg Stored.main hpage).trans hvalid.main
  unfold readBlock
  rw [bind_ok hrun, bind_ok (assert_run (decide_eq_true hne)),
    bind_ok (nandReadPageTotal_run hlt)]
  show EStateM.Result.ok (some (w.flash.page phy).main) w = _
  rw [hmain]

/-- The page of the address, if it is on the chip, was written. -/
structure CanMark (b : LogAddr) (w : World) : Prop where
  segment : b.segment < w.segMap.nSegments
  written : ∀ phy, logicalAddressToPhysical b w = .ok phy w → phy < pageCount →
    w.flash.mainAreaWrites phy = true

/-- The counters of the segments are neither on the chip nor in the segment map. -/
theorem frame_countObsolete (b : LogAddr) : Frame (fun w : World => (w.flash, w.segMap)) (do
    increaseObsCount
    if getCounterLevel (← get).obsCountersMap b.segment = obsCountNoObsoletes then do
      changeCounterLevel obsCountLevel0 b.segment
      pure 0
    else if ← genRandBit (powPagesPerSlot - 3) then do
      incrementCounter b.segment
      pure 0
    else pure 0 : SeqM Nat) := by
  have hlevel : ∀ level, Frame (fun w : World => (w.flash, w.segMap))
      (changeCounterLevel level b.segment) := fun _ => frame_modify fun _ => rfl
  refine frame_bind (frame_modify fun _ => rfl) fun _ => frame_bind frame_get fun _ => ?_
  refine frame_ite (frame_bind (hlevel _) fun _ => frame_pure _) (frame_bind ?_ fun _ => ?_)
  · exact frame_bind frame_get fun _ => frame_bind (frame_modify fun _ => rfl) fun _ => frame_pure _
  · refine frame_ite (frame_bind ?_ fun _ => frame_pure _) (frame_pure _)
    exact frame_bind frame_get fun _ => frame_ite (frame_pure _) (hlevel _)

theorem HeadPlaced.marks {f t : Flash} {m : SegMap} (h : HeadPlaced f m) (hm : SameMarks f t) :
    HeadPlaced t m := by
  cases h with
  | home notReserve good => exact .home notReserve (by rwa [hm.good])
  | reserve isReserve bad mem target =>
    exact .reserve isReserve (by rwa [hm.good]) mem (hm.isTarget target)

/-- A page that is marked stays written. -/
theorem Contents.mark_ne_none {slot o : Nat} {st st' : Stored} (h : c slot o = some st) {slot' o' : Nat} :
    c.set slot o st' slot' o' ≠ none ↔ c slot' o' ≠ none := by
  by_cases hs : slot' = slot
  · subst hs
    by_cases ho : o' = o
    · subst ho
      rw [Contents.set_self, h]
      exact iff_of_true (Option.some_ne_none _) (Option.some_ne_none _)
    · rw [Contents.set_of_ne ho]
  · rw [Contents.set_of_ne_slot hs]

/-- The log once a page is marked. -/
theorem Log.mark {slot o home : Nat} {st : Stored} (h : Log nBytes w.flash w.segMap c)
    (hslot : w.segMap.IsDataSlot slot) (ho : o < pagesPerSlot)
    (hh : IsHome w.flash w.segMap slot (o / pagesPerEu) home) (hst : c slot o = some st)
    (power : Option Nat) :
    Log nBytes ({ w.flash with power := power }.programObsolete (home + o % pagesPerEu)) w.segMap
      (c.set slot o { st with obsolete := true }) := by
  have hm : SameMarks w.flash { w.flash with power := power } := ⟨rfl, fun _ => rfl, fun _ => rfl⟩
  have hm' := Flash.programObsolete_marks { w.flash with power := power } (home + o % pagesPerEu)
  have hlay := (h.head.layout.power power).mark hslot ho (hm.isHome hh) hst
  have hne : ∀ slot' o', c.set slot o { st with obsolete := true } slot' o' ≠ none ↔
      c slot' o' ≠ none := fun _ _ => Contents.mark_ne_none hst
  refine ⟨⟨hlay, ?_, h.head.notReserve, h.head.newSlot, h.head.growing, h.head.le, fun o' ho' => ?_,
    fun hin => ((h.head.placed hin).marks hm).marks hm'⟩, ⟨h.segments.phase, fun seg hs hcur o' ho' => ?_,
    fun hrec o' ho' => ?_, fun hgrow slot' hlt hle o' ho' => ?_⟩, h.fits, h.opened⟩
  · exact h.head.copyBack
  · rw [hne]
    exact h.head.written o' ho'
  · rw [hne]
    exact h.segments.full seg hs hcur o' ho'
  · rw [hne]
    exact h.segments.old hrec o' ho'
  · by_contra hno
    exact (hne _ _).mp hno (h.segments.fresh hgrow slot' hlt hle o' ho')

/-- The obsolete byte of a page is programmed. -/
theorem wp_nandProgramObsoleteByte {Q : Nat → World → Prop} {E : Halt → World → Prop} {phy : Nat}
    (hE : ∀ e t, E e t) (hlt : phy < pageCount)
    (hq : w.flash.spareWrites phy = false → w.flash.power ≠ some 0 → ∀ power, Q 0 { w with
      flash := { w.flash with power := power }.programObsolete phy }) :
    wp (nandProgramObsoleteByte phy) Q E w := by
  unfold nandProgramObsoleteByte
  rw [wp_bind, wp_ok_iff (getFp_run hlt)]
  refine wp_ite (fun hge => absurd hge (by omega)) fun _ => ?_
  rw [wp_bind, wp_get, wp_bind]
  refine wp_assert (fun hspare => ?_) (hE _ _)
  rw [wp_bind]
  exact wp_spendPower (fun hpower => hq (by simpa using hspare) hpower _) fun _ => hE _ _

/-- From `s` to `t` the page at `b` was marked, and counted, or nothing was. -/
structure LogMarked (b : LogAddr) (s : World) (c : Contents) (t : World) (c' : Contents) :
    Prop where
  segMap : t.segMap = s.segMap
  others : ∀ a, a.segment < s.segMap.nSegments → a ≠ b →
    t.segMap.stored c' a = s.segMap.stored c a
  counted : t.obsCountersMap.counters = s.obsCountersMap.counters ∧ c' = c ∨
    MarksPage b s ∧ (getCounterLevel s.obsCountersMap b.segment ≤ obsCountFull →
      LevelSet b.segment (markedLevel s b.segment) s t)

theorem LogMarked.nothing {b : LogAddr} {t : World} (hm : t.segMap = w.segMap)
    (hc : t.obsCountersMap.counters = w.obsCountersMap.counters) : LogMarked b w c t c :=
  ⟨hm, fun _ _ _ => by rw [hm], .inl ⟨hc, rfl⟩⟩

/-- `markAsObsolete` marks a page and no other. -/
theorem Log.markAsObsolete_spec {b : LogAddr} (isAfterReboot : Bool)
    (hlog : Log nBytes w.flash w.segMap c) (hmark : CanMark b w) :
    wp (markAsObsolete b isAfterReboot)
      (fun _ t => ∃ c', Log nBytes t.flash t.segMap c' ∧ LogMarked b w c t c')
      (fun _ _ => True) w := by
  unfold markAsObsolete
  rw [wp_bind]
  by_cases ho : b.offset < pagesPerSlot
  swap
  · -- the translation of the address asserts
    unfold logicalAddressToPhysical
    rw [wp_bind, wp_getSegMap, wp_bind]
    refine wp_assert (fun _ => ?_) trivial
    rw [wp_bind]
    exact wp_assert (fun hlt => absurd (of_decide_eq_true hlt) ho) trivial
  have hslot := hlog.segments.phase.slotOf_data hmark.segment
  rcases hlog.lookup hmark.segment ho with ⟨home, hh, hrun⟩ | ⟨-, hrun⟩
  swap
  · rw [wp_ok_iff hrun, if_pos rfl]
    exact ⟨c, hlog, .nothing rfl rfl⟩
  have hlt : home + b.offset % pagesPerEu < pageCount :=
    (hlog.head.layout.isEu_home hslot (div_lt_eusPerSlot ho) hh).add_lt
      (Nat.mod_lt _ pagesPerEu_pos)
  have hne := ne_empty_of_lt hlt
  -- the page is written, so it has contents
  obtain ⟨st, hst⟩ : ∃ st, c (w.segMap.slotOf b) b.offset = some st := by
    have hpage := hlog.head.layout.holds_at hslot ho hh
    cases hc : c (w.segMap.slotOf b) b.offset with
    | some st => exact ⟨st, rfl⟩
    | none =>
      rw [hc] at hpage
      have hblank : w.flash.mainAreaWrites (home + b.offset % pagesPerEu) = false := hpage.2
      rw [hmark.written _ hrun hlt] at hblank
      exact absurd hblank Bool.true_eq_false.mp
  unfold isPageMarkedObsolete
  rw [wp_ok_iff hrun, if_neg hne, wp_bind, wp_bind, wp_ok_iff (nandReadPageFlags_run hlt), wp_pure]
  refine wp_ite (fun _ => wp_ite (fun _ => ?_) fun _ => ?_) fun hobs => ?_
  · rw [wp_bind]
    refine wp_addObsCount _ fun t hflash hmap hcount => ?_
    exact ⟨c, by rw [hflash, hmap]; exact hlog, .nothing hmap hcount⟩
  · exact ⟨c, hlog, .nothing rfl rfl⟩
  refine wp_seqVerify (wp_nandProgramObsoleteByte (fun _ _ => trivial) hlt
    fun hspare hpower power => ?_)
  rw [if_neg (not_not_intro rfl)]
  refine wp_countMarked fun t hflash hmap hset => ?_
  have hmarked := hlog.mark hslot ho hh hst power
  refine ⟨_, by rw [hflash, hmap]; exact hmarked, hmap, fun a hseg ha => ?_, .inr ⟨?_, hset⟩⟩
  · rw [hmap]
    show w.segMap.stored _ a = _
    rw [SegMap.stored_eq, SegMap.stored_eq]
    by_cases hs : w.segMap.slotOf a = w.segMap.slotOf b
    · have hoff : a.offset ≠ b.offset := fun he =>
        ha (hlog.segments.phase.slotOf_inj hseg hmark.segment hs he)
      rw [hs, Contents.set_of_ne hoff]
    · rw [Contents.set_of_ne_slot hs]
  · exact ⟨_, hrun, hlt, Bool.eq_false_of_not_eq_true hobs, hspare, hpower⟩

/-- The pages that are live, but the one that was marked. -/
theorem LogMarked.rest {b : LogAddr} {t : World} {c' : Contents} (h : LogMarked b w c t c')
    (hlive : Live nBytes w.segMap c live) :
    Live nBytes t.segMap c' (Function.update live b none) := by
  intro a d hab
  have ha : a ≠ b := by
    rintro rfl
    rw [Function.update_self] at hab
    exact absurd hab (Option.some_ne_none d).symm
  rw [Function.update_of_ne ha] at hab
  obtain ⟨hseg, hge, hoff, hpage⟩ := hlive a d hab
  rw [h.others a hseg ha]
  exact ⟨by rw [h.segMap]; exact hseg, hge, hoff, hpage⟩

/-- `markAsObsolete` takes a page out of the live ones, and no other. -/
theorem markAsObsolete_spec {b : LogAddr} (isAfterReboot : Bool) (h : KeepsLive nBytes live w)
    (hmark : CanMark b w) : wp (markAsObsolete b isAfterReboot)
      (fun _ t => KeepsLive nBytes (Function.update live b none) t) (fun _ _ => True) w := by
  obtain ⟨c, hlog, hlive⟩ := h
  refine wp_mono (hlog.markAsObsolete_spec isAfterReboot hmark) ?_ fun _ _ _ => trivial
  rintro _ t ⟨c', hlog', hmarked⟩
  exact ⟨c', hlog', hmarked.rest hlive⟩

end World

end NandFs
