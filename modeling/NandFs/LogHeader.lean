import NandFs.LogMove

/-! # Opening a segment

The header of a segment is its first page and a checkpoint after it.  It is written to one
erase unit or to erase units that are all good (`Opening`), and of the contents only the pages
of the header change (`SegmentOpened`).
-/
namespace NandFs

open Program

variable [Config]

open Config

/-- The header of the current segment is being written. -/
structure Opening (nBytes : Nat) (f : Flash) (m : SegMap) (c : Contents) : Prop where
  head : Head f m c
  fits : headerPages nBytes ≤ pagesPerSlot
  segment : m.reclaimed.segment ≠ noSegmentNum
  placed : m.isEuReserve = true → f.good (euAt m.newSlotId 0) = false
  good : HeaderFits nBytes f m.newSlotId

/-- Nothing was written but some of the first `n` pages of the slot, and none of them is
obsolete. -/
def Contents.Extends (c c' : Contents) (slot n : Nat) : Prop :=
  ∀ slot' o, c' slot' o = c slot' o ∨
    slot' = slot ∧ o < n ∧ ∃ st, c' slot' o = some st ∧ st.obsolete = false

/-- From `s` to `t`, pages of the header were written. -/
structure SegmentOpened (nBytes : Nat) (s : World) (c : Contents) (t : World) (c' : Contents) :
    Prop where
  opening : Opening nBytes t.flash t.segMap c'
  mapping : t.segMap.mapping = s.segMap.mapping
  obsCountersMap : t.obsCountersMap = s.obsCountersMap
  extended : c.Extends c' s.segMap.newSlotId (headerPages nBytes)
  le : t.segMap.headOffset ≤ headerPages nBytes
  spared : CopyBackSpared s.flash s.segMap → CopyBackSpared t.flash t.segMap

theorem Contents.Extends.refl (c : Contents) (slot n : Nat) : c.Extends c slot n :=
  fun _ _ => .inl rfl

theorem Contents.Extends.trans {c c' c'' : Contents} {slot n : Nat} (h : c.Extends c' slot n)
    (h' : c'.Extends c'' slot n) : c.Extends c'' slot n := by
  intro slot' o
  rcases h' slot' o with heq | hnew
  · rw [heq]
    exact h slot' o
  · exact .inr hnew

theorem Contents.Extends.set {c : Contents} {slot n o : Nat} (ho : o < n) {st : Stored}
    (hobs : st.obsolete = false) : c.Extends (c.set slot o st) slot n := by
  intro slot' o'
  by_cases hs : slot' = slot
  · subst hs
    by_cases hoff : o' = o
    · subst hoff
      exact .inr ⟨rfl, ho, st, Contents.set_self, hobs⟩
    · exact .inl (Contents.set_of_ne hoff)
  · exact .inl (Contents.set_of_ne_slot hs _)

theorem Contents.Extends.ne_none {c c' : Contents} {slot n slot' o : Nat}
    (h : c.Extends c' slot n) (hne : c slot' o ≠ none) : c' slot' o ≠ none := by
  rcases h slot' o with heq | ⟨-, -, st, hnew, -⟩
  · rwa [heq]
  · rw [hnew]
    exact Option.some_ne_none st

theorem Contents.Extends.eq_of_le {c c' : Contents} {slot n slot' o : Nat}
    (h : c.Extends c' slot n) (ho : n ≤ o) : c' slot' o = c slot' o := by
  rcases h slot' o with heq | ⟨-, hlt, -⟩
  · exact heq
  · omega

theorem SegmentOpened.trans {nBytes : Nat} {s t u : World} {c c' c'' : Contents}
    (h : SegmentOpened nBytes s c t c') (h' : SegmentOpened nBytes t c' u c'') :
    SegmentOpened nBytes s c u c'' where
  opening := h'.opening
  mapping := h'.mapping.trans h.mapping
  obsCountersMap := h'.obsCountersMap.trans h.obsCountersMap
  extended := by
    have hslot : t.segMap.newSlotId = s.segMap.newSlotId :=
      congrArg Mapping.newSlotId h.mapping
    have hext := h'.extended
    rw [hslot] at hext
    exact h.extended.trans hext
  le := h'.le
  spared hcb := h'.spared (h.spared hcb)

theorem Log.segment_ne {nBytes : Nat} {f : Flash} {m : SegMap} {c : Contents}
    (h : Log nBytes f m c) : m.reclaimed.segment ≠ noSegmentNum := by
  have := h.segments.phase.current_lt
  have := h.segments.phase.le
  have := segmentsCount_add
  have := nSlots_le
  unfold noSegmentNum
  omega

/-- Page `i` of a checkpoint with the bytes `data` of the layer above. -/
structure Stored.IsCheckpointPage (st : Stored) (data : Nat → UInt8) (nBytes i : Nat) : Prop where
  checkpoint : st.checkpoint = setCpPageFlag i (calculateInPages (seqCheckpointSize + nBytes) - 1)
  data : ∀ j : Fin pageSize, i * pageSize + j.val < nBytes →
    st.main j = data (i * pageSize + j.val)

/-- `n` pages of a checkpoint, from page `idx` on, are in the slot from the offset `o` on. -/
def Contents.HoldsPages (c : Contents) (slot o n : Nat) (data : Nat → UInt8) (nBytes idx : Nat) :
    Prop :=
  ∀ i < n, ∃ st, c slot (o + i) = some st ∧ st.IsCheckpointPage data nBytes (idx + i)

section CheckpointPages
variable {data : Nat → UInt8} {nBytes : Nat}

theorem isCheckpointPage_checkpointPage (w : World) (data : Nat → UInt8) (nBytes i : Nat) :
    (checkpointPage w data nBytes i).stored.IsCheckpointPage data nBytes i := by
  refine ⟨rfl, fun j hj => ?_⟩
  show (if i * pageSize + j.val < seqCheckpointSize + nBytes then _ else _) = _
  rw [if_pos (by omega), checkpointByte, if_pos hj]

/-- A checkpoint of less than a page is one page. -/
theorem calculateInPages_checkpoint (h : seqCheckpointSize + nBytes < pageSize) :
    calculateInPages (seqCheckpointSize + nBytes) = 1 := by
  have hsize : 0 < seqCheckpointSize + nBytes := by
    unfold seqCheckpointSize
    omega
  unfold calculateInPages
  rw [Nat.div_eq_of_lt h, Nat.mod_eq_of_lt h, if_neg (by omega)]

theorem isCheckpointPage_single (w : World) (data : Nat → UInt8)
    (h : seqCheckpointSize + nBytes < pageSize) :
    (singleCheckpointPage w data nBytes).stored.IsCheckpointPage data nBytes 0 := by
  refine ⟨?_, fun j hj => ?_⟩
  · rw [calculateInPages_checkpoint h]
    rfl
  · rw [Nat.zero_mul, Nat.zero_add] at hj ⊢
    exact if_pos hj

end CheckpointPages

section Header
variable {f : Flash} {m : SegMap} {c : Contents} {nBytes : Nat} {live : LogAddr → Option Block}

/-- Past its first page, the header knows where it is written. -/
theorem Opening.headPlaced (h : Opening nBytes f m c) (h0 : m.headOffset ≠ 0)
    (hlt : m.headOffset < headerPages nBytes) : HeadPlaced f m := by
  by_cases hin : m.headOffset % pagesPerEu = 0
  · -- a header that goes on in another erase unit has only good ones
    have hmul := div_mul_add_mod m.headOffset
    have hpos : 0 < m.headOffset / pagesPerEu := by
      by_contra hno
      have hz : m.headOffset / pagesPerEu = 0 := Nat.eq_zero_of_not_pos hno
      rw [hz, Nat.zero_mul] at hmul
      omega
    obtain ⟨hfirst, hgood⟩ := h.good _ hpos (by omega)
    refine .home ?_ hgood
    cases hres : m.isEuReserve with
    | false => rfl
    | true =>
      have hbad := h.placed hres
      rw [hfirst] at hbad
      exact absurd hbad.symm Bool.false_ne_true
  · exact h.head.placed hin

/-- The log once pages of a header were written. -/
theorem SegmentOpened.log {s t : World} {c' : Contents} (h : SegmentOpened nBytes s c t c')
    (hlog : Log nBytes s.flash s.segMap c) (hend : t.segMap.headOffset = headerPages nBytes) :
    Log nBytes t.flash t.segMap c' := by
  refine ⟨h.opening.head, Segments.congr ?_ h.mapping, hlog.fits, .inr hend.ge⟩
  have hseg := hlog.segments
  refine ⟨hseg.phase, fun seg hs hne o ho => h.extended.ne_none (hseg.full seg hs hne o ho),
    fun hrec o ho => h.extended.ne_none (hseg.old hrec o ho), fun hgrow slot hlt hle o ho => ?_⟩
  have hns : s.segMap.newSlotId = s.segMap.reclaimed.segment := by
    rcases hseg.phase with hg | hr
    · exact hg.newSlot
    · rw [hr.reclamation] at hgrow
      exact absurd hgrow.symm Bool.false_ne_true
  rcases h.extended slot o with heq | ⟨hslot, -, -⟩
  · rw [heq]
    exact hseg.fresh hgrow slot hlt hle o ho
  · omega

/-- No page of a header is live. -/
theorem SegmentOpened.inView {s t : World} {c' : Contents} (h : SegmentOpened nBytes s c t c')
    (hs : s.segMap.headOffset ≤ headerPages nBytes) (hlive : Live nBytes s.segMap c live) :
    Live nBytes t.segMap c' live := by
  have h1 : t.segMap.segToSlot = s.segMap.segToSlot := congrArg Mapping.segToSlot h.mapping
  have h2 : t.segMap.nSegments = s.segMap.nSegments := congrArg Mapping.nSegments h.mapping
  have hle := h.le
  refine hlive.congr h2.ge fun a _ hge _ => ?_
  unfold SegMap.headOffset at hs hle
  unfold SegMap.stored
  rw [if_neg fun hc => by omega, if_neg fun hc => by omega, h1]
  exact h.extended.eq_of_le hge

/-- The page at a place that was not written before, or is not in the header. -/
theorem Contents.Extends.eq_of_marked {c c' : Contents} {slot n slot' o : Nat} {st : Stored}
    (h : c.Extends c' slot n) (hst : c' slot' o = some st) (hobs : st.obsolete = true) :
    c slot' o = some st := by
  rcases h slot' o with heq | ⟨-, -, st', hnew, hfree⟩
  · rw [← heq]
    exact hst
  · obtain rfl : st = st' := Option.some.inj (hst.symm.trans hnew)
    rw [hfree] at hobs
    exact absurd hobs Bool.false_ne_true

/-- The pages of a header hold nothing that is live, and none of them is marked. -/
theorem SegmentOpened.kept {s t : World} {c' : Contents} (h : SegmentOpened nBytes s c t c')
    (hlog : Log nBytes s.flash s.segMap c) (h0 : s.segMap.headOffset = 0)
    (hlive : Live nBytes s.segMap c live) : LogKept live s c t c' := by
  have h1 : t.segMap.segToSlot = s.segMap.segToSlot := congrArg Mapping.segToSlot h.mapping
  have h2 : t.segMap.nSegments = s.segMap.nSegments := congrArg Mapping.nSegments h.mapping
  have h3 : t.segMap.newSlotId = s.segMap.newSlotId := congrArg Mapping.newSlotId h.mapping
  have h4 : t.segMap.reclaimed.segment = s.segMap.reclaimed.segment :=
    congrArg Mapping.recSegment h.mapping
  have hle := h.le
  have hslot : s.segMap.isStateReclamation = false →
      s.segMap.segToSlot s.segMap.reclaimed.segment = s.segMap.newSlotId :=
    fun hgrow => hlog.segments.phase.newSlot_eq hgrow
  unfold SegMap.headOffset at h0 hle
  refine ⟨fun a b hab => ?_, fun a ha => ?_, fun hlegal => ?_⟩
  · obtain ⟨-, hge, -⟩ := hlive a b hab
    unfold SegMap.stored
    rw [if_neg fun hc => by omega, if_neg fun hc => by omega, h1]
    exact h.extended.eq_of_le hge
  · -- the new slot was blank, so a page before the head is one of the header
    obtain ⟨hlt, hoff, hbehind, st, hst, hobs⟩ := ha
    rw [h2] at hlt
    rw [h4] at hbehind
    have hblank : c s.segMap.newSlotId a.offset = none := by
      by_contra hne
      have hw := (hlog.head.written a.offset hoff).mp hne
      unfold SegMap.headOffset at hw
      omega
    have hne : a.segment ≠ s.segMap.reclaimed.segment := by
      intro hs
      have hnew : c' s.segMap.newSlotId a.offset = some st := by
        unfold SegMap.stored at hst
        rw [isStateReclamation_congr h.mapping, h1, h3, h4] at hst
        by_cases hrec : s.segMap.isStateReclamation = true
        · rwa [if_pos ⟨hrec, hs, hbehind hs⟩] at hst
        · rwa [if_neg fun hc => hrec hc.1, hs,
            hslot (Bool.eq_false_of_not_eq_true hrec)] at hst
      have hold := h.extended.eq_of_marked hnew hobs
      rw [hblank] at hold
      cases hold
    refine ⟨⟨hlt, hoff, fun hs => absurd hs hne, st, ?_, hobs⟩, by rw [h.obsCountersMap]⟩
    unfold SegMap.stored at hst ⊢
    rw [h1, h4, if_neg fun hc => hne hc.2.1] at hst
    rw [if_neg fun hc => hne hc.2.1]
    exact h.extended.eq_of_marked hst hobs
  · rw [h.obsCountersMap]
    exact hlegal

/-- Behind a new header no page of the segment is marked. -/
theorem LogKept.unmarked_start {s t : World} {c' : Contents} (h : LogKept live s c t c')
    (h0 : s.segMap.headOffset = 0)
    (hs : t.segMap.reclaimed.segment = s.segMap.reclaimed.segment) : Unmarked t.segMap c' := by
  refine h.unmarked (fun a ha hcur => ?_) hs
  have := ha.behind hcur
  omega

end Header

section Write
variable {E : Halt → World → Prop} (hE : ∀ t, E .powerLoss t) {s : World} {c : Contents}
  {nBytes : Nat}

/-- A page of the header is written at the head. -/
theorem Opening.advance {t : World} {st : Stored} (h : Opening nBytes s.flash s.segMap c)
    (hlt : s.segMap.headOffset < headerPages nBytes) (hobs : st.obsolete = false) (hon : OnChip s t)
    (ht : Head t.flash t.segMap.incrementReclaimedOffset
      (c.set s.segMap.newSlotId s.segMap.headOffset st)) :
    SegmentOpened nBytes s c { t with segMap := t.segMap.incrementReclaimedOffset }
      (c.set s.segMap.newSlotId s.segMap.headOffset st) := by
  have ho : s.segMap.headOffset < pagesPerSlot := by
    have := h.fits
    omega
  have hinc := incrementReclaimedOffset_eq ho
  have hm := hon.segMap
  rw [hm] at ht ⊢
  refine ⟨⟨ht, h.fits, ?_, fun hres => ?_, fun eu hpos heu => ?_⟩, increment_mapping ho,
    hon.obsCountersMap, .set hlt hobs, ?_, fun hcb => ?_⟩
  · rw [hinc]
    exact h.segment
  · show t.flash.good (euAt s.segMap.newSlotId 0) = false
    rw [hon.good]
    exact h.placed hres
  · show t.flash.good (euAt s.segMap.newSlotId 0) = true ∧ t.flash.good _ = true
    rw [hon.good, hon.good]
    exact h.good eu hpos heu
  · rw [hinc]
    exact hlt
  · have hspared := hon.spared hcb
    rw [hm] at hspared
    exact hspared.congr rfl rfl rfl

theorem Opening.headOffset_advance {t : World} (h : Opening nBytes s.flash s.segMap c)
    (hlt : s.segMap.headOffset < headerPages nBytes) (hon : OnChip s t) :
    t.segMap.incrementReclaimedOffset.headOffset = s.segMap.headOffset + 1 := by
  have := h.fits
  rw [hon.segMap, incrementReclaimedOffset_eq (by omega)]

theorem sequenceNum_advance {t : World} (hon : OnChip s t) :
    t.segMap.incrementReclaimedOffset.sequenceNum = s.segMap.sequenceNum := by
  rw [hon.segMap]
  rfl

include hE

/-- A checkpoint page of the header is written. -/
theorem wp_headerPage {Q : LogAddr → World → Prop} (data : Page)
    (h : Opening nBytes s.flash s.segMap c) (h0 : s.segMap.headOffset ≠ 0)
    (hlt : s.segMap.headOffset < headerPages nBytes) (hcb : data.flags.copyBack = false)
    (hobs : data.flags.obsolete = false)
    (hq : ∀ t, SegmentOpened nBytes s c { t with segMap := t.segMap.incrementReclaimedOffset }
        (c.set s.segMap.newSlotId s.segMap.headOffset data.stored) →
      t.segMap.incrementReclaimedOffset.headOffset = s.segMap.headOffset + 1 →
      t.segMap.incrementReclaimedOffset.sequenceNum = s.segMap.sequenceNum →
      Q s.segMap.reclaimed t) :
    wp (do writeBlock data (← calcTargetPhyAddr)) Q E s := by
  have ho : s.segMap.headOffset < pagesPerSlot := by
    have := h.fits
    omega
  have hp := h.headPlaced h0 hlt
  rw [wp_bind, wp_ok_iff (h.head.target_run hp)]
  refine wp_writeBlock hE h.head hp ho hcb fun t hon ht => ?_
  exact hq t (h.advance hlt hobs hon ht) (h.headOffset_advance hlt hon) (sequenceNum_advance hon)

/-- The checkpoint in the header, page by page. -/
theorem wp_commitPages_header {cpWriter : CheckpointWriter} {data : Nat → UInt8} {k : Nat}
    {Q : Nat → World → Prop} (n idx : Nat) (h : Opening nBytes s.flash s.segMap c)
    (h0 : s.segMap.headOffset ≠ 0) (hn : s.segMap.headOffset + n = headerPages nBytes)
    (hq : ∀ t c', SegmentOpened nBytes s c t c' → t.segMap.headOffset = headerPages nBytes →
      t.segMap.sequenceNum = s.segMap.sequenceNum →
      (∀ o < s.segMap.headOffset, c' s.segMap.newSlotId o = c s.segMap.newSlotId o) →
      c'.HoldsPages s.segMap.newSlotId s.segMap.headOffset n data k idx → Q 0 t) :
    wp (commitPages cpWriter data k true n idx) Q E s := by
  induction n generalizing s c idx with
  | zero =>
    exact hq s c ⟨h, rfl, rfl, .refl _ _ _, by omega, id⟩ (by omega) rfl (fun _ _ => rfl)
      fun i hi => absurd hi (Nat.not_lt_zero i)
  | succ n ih =>
    unfold commitPages
    refine wp_ite (fun hno => absurd hno Bool.false_ne_true) fun _ => ?_
    rw [wp_bind, wp_get, if_pos rfl]
    have hpage := wp_headerPage hE (Q := fun logAddr t => wp (if logAddr.segment = noSegmentNum then
        pure 1 else do
          modifySegMap SegMap.incrementReclaimedOffset
          commitPages cpWriter data k true n (idx + 1)) Q E t)
      (checkpointPage s data k idx) h h0 (by omega) rfl rfl fun t ht hoff hseq => ?_
    · rw [wp_bind] at hpage ⊢
      exact wp_mono hpage (fun a t ht => by rw [wp_bind]; exact ht) fun _ _ he => he
    · have hslot : t.segMap.incrementReclaimedOffset.newSlotId = s.segMap.newSlotId :=
        congrArg Mapping.newSlotId ht.mapping
      rw [if_neg h.segment, wp_bind, wp_modifySegMap]
      refine ih (idx + 1) ht.opening ?_ ?_ fun u c'' hu hend hsequ hkept hholds =>
        hq u c'' (ht.trans hu) hend (hsequ.trans hseq) ?_ ?_
      · show t.segMap.incrementReclaimedOffset.headOffset ≠ 0
        omega
      · show t.segMap.incrementReclaimedOffset.headOffset + n = headerPages nBytes
        omega
      · intro o ho
        have hkept := hkept o (by rw [hoff]; omega)
        rw [hslot, Contents.set_of_ne (by omega)] at hkept
        exact hkept
      · rintro (_ | i) hi
        · have hkept := hkept s.segMap.headOffset (by rw [hoff]; omega)
          rw [hslot, Contents.set_self] at hkept
          exact ⟨_, hkept, isCheckpointPage_checkpointPage s data k idx⟩
        · obtain ⟨st, hst, hpage⟩ := hholds i (by omega)
          rw [hslot, hoff] at hst
          refine ⟨st, ?_, ?_⟩
          · rw [show s.segMap.headOffset + (i + 1) = s.segMap.headOffset + 1 + i by omega]
            exact hst
          · rw [show idx + (i + 1) = idx + 1 + i by omega]
            exact hpage

/-- The checkpoint in the header. -/
theorem wp_checkpointWriter_header {data : Nat → UInt8} {Q : Nat → World → Prop}
    (h : Opening nBytes s.flash s.segMap c) (h1 : s.segMap.headOffset = 1)
    (hq : ∀ t c', SegmentOpened nBytes s c t c' → t.segMap.headOffset = headerPages nBytes →
      t.segMap.sequenceNum = s.segMap.sequenceNum →
      c'.HoldsPages s.segMap.newSlotId 1 (calculateInPages (seqCheckpointSize + nBytes)) data
        nBytes 0 → Q 0 t) :
    wp (checkpointWriter data nBytes true) Q E s := by
  have hpages : headerPages nBytes = 1 + calculateInPages (seqCheckpointSize + nBytes) := rfl
  unfold checkpointWriter commit
  refine wp_ite (fun _ => ?_) fun hone => ?_
  · refine wp_commitPages_header hE _ _ h (by omega) (by omega) fun t c' ht hend hseq _ hholds => ?_
    rw [h1] at hholds
    exact hq t c' ht hend hseq hholds
  · have hcount := @calculateInPages_checkpoint _ nBytes (by omega)
    refine wp_ite (fun hno => absurd hno Bool.false_ne_true) fun _ => ?_
    rw [wp_bind, wp_get, if_pos rfl]
    have hpage := wp_headerPage hE (Q := fun _ t => wp (do
        modifySegMap SegMap.incrementReclaimedOffset
        pure 0) Q E t)
      (singleCheckpointPage s data nBytes) h (by omega) (by omega) rfl rfl
      fun t ht hoff hseq => ?_
    · rw [wp_bind] at hpage ⊢
      exact wp_mono hpage (fun a t ht => by rw [wp_bind]; exact ht) fun _ _ he => he
    · rw [wp_bind, wp_modifySegMap, wp_pure]
      refine hq _ _ ht ?_ hseq fun i hi => ?_
      · show t.segMap.incrementReclaimedOffset.headOffset = headerPages nBytes
        omega
      · obtain rfl : i = 0 := by omega
        rw [h1]
        exact ⟨_, Contents.set_self, isCheckpointPage_single s data (by omega)⟩

/-- `writeSegmentHeader` -/
theorem wp_writeSegmentHeader {data : Nat → UInt8} {Q : Nat → World → Prop}
    (h : Opening nBytes s.flash s.segMap c) (h0 : s.segMap.headOffset = 0)
    (hp : HeadPlaced s.flash s.segMap)
    (hq : ∀ t c', SegmentOpened nBytes s c t c' → t.segMap.headOffset = headerPages nBytes →
      t.segMap.sequenceNum = s.segMap.incrementSequenceNum.sequenceNum →
      c'.HoldsPages s.segMap.newSlotId 1 (calculateInPages (seqCheckpointSize + nBytes)) data
        nBytes 0 → Q 0 t) :
    wp (writeSegmentHeader (checkpointWriter data nBytes)) Q E s := by
  have hslot : 0 < pagesPerSlot := pagesPerSlot_pos
  have hpages : headerPages nBytes = 1 + calculateInPages (seqCheckpointSize + nBytes) := rfl
  -- the sequence number of the map is not looked at
  have hs : Opening nBytes s.flash s.segMap.incrementSequenceNum c :=
    ⟨⟨h.head.layout.congr fun _ _ => rfl, h.head.copyBack, h.head.notReserve,
      ⟨h.head.newSlot.lt, h.head.newSlot.data⟩, h.head.growing, h.head.le, h.head.written,
      fun hne => absurd (by rw [show s.segMap.incrementSequenceNum.headOffset = 0 from h0,
        Nat.zero_mod]) hne⟩, h.fits, h.segment, h.placed, h.good⟩
  have hp' : HeadPlaced s.flash s.segMap.incrementSequenceNum := hp.congr rfl rfl rfl rfl rfl
  have htarget : (if s.segMap.incrementSequenceNum.isEuReserve then
      s.segMap.incrementSequenceNum.reserveEuAddr
      else calcAddress s.segMap.incrementSequenceNum.newSlotId 0 0)
      = s.segMap.incrementSequenceNum.target := by
    unfold SegMap.target
    rw [show s.segMap.incrementSequenceNum.headOffset = 0 from h0, Nat.zero_mod, Nat.add_zero]
  unfold writeSegmentHeader
  rw [wp_bind, wp_modifySegMap, wp_bind, wp_getSegMap]
  dsimp only
  rw [htarget]
  refine wp_seqVerify (wp_programHead hE
    (s := { s with segMap := s.segMap.incrementSequenceNum }) hs.head hp'
    (by show s.segMap.headOffset < _; omega) ?_ (fun hres => ?_) fun t hon ht => ?_)
  · cases s.segMap.incrementSequenceNum.isEuReserve <;> exact ⟨rfl, rfl⟩
  · -- a header in a reserve erase unit carries the place of the first erase unit
    have hlt := place_lt hs.head.newSlot.lt eusPerSlot_pos
    have hzero : s.segMap.incrementSequenceNum.headOffset / pagesPerEu = 0 := by
      rw [show s.segMap.incrementSequenceNum.headOffset = 0 from h0, Nat.zero_div]
    rw [hres, if_pos rfl, hzero]
    unfold euAt at hlt ⊢
    exact Nat.mod_eq_of_lt (by omega)
  · have hadv := hs.advance (by show s.segMap.headOffset < _; omega)
      (by cases s.segMap.incrementSequenceNum.isEuReserve <;> rfl) hon ht
    rw [if_neg (not_not_intro rfl), wp_bind, wp_modifySegMap]
    refine wp_seqVerify (wp_checkpointWriter_header hE hadv.opening ?_
      fun u c'' hu hend hsequ hholds => ?_)
    · show t.segMap.incrementReclaimedOffset.headOffset = 1
      rw [hs.headOffset_advance (by show s.segMap.headOffset < _; omega) hon]
      show s.segMap.headOffset + 1 = 1
      omega
    · rw [if_neg (not_not_intro rfl), wp_pure]
      have htrans := hadv.trans hu
      have hslot : t.segMap.incrementReclaimedOffset.newSlotId = s.segMap.newSlotId :=
        congrArg Mapping.newSlotId hadv.mapping
      have hholds : c''.HoldsPages t.segMap.incrementReclaimedOffset.newSlotId 1 _ data nBytes 0 :=
        hholds
      rw [hslot] at hholds
      exact hq u c'' ⟨htrans.opening, htrans.mapping, htrans.obsCountersMap, htrans.extended,
        htrans.le, fun hcb => htrans.spared (hcb.congr rfl rfl rfl)⟩ hend
        (hsequ.trans (sequenceNum_advance hon)) hholds

end Write

/-- The current segment has its header and nothing else, `prev` being the sequence number of the
segment written before it. -/
structure HeaderWritten (data : Nat → UInt8) (nBytes prev : Nat) (m : SegMap) (c : Contents) :
    Prop where
  head : m.headOffset = headerPages nBytes
  sequenceNum : m.sequenceNum = (prev + 1) % 2 ^ 64
  holds : c.HoldsPages m.newSlotId 1 (calculateInPages (seqCheckpointSize + nBytes)) data nBytes 0

/-! ## Moving -/

/-- What `moveToNextSegment` does before it opens the next segment. -/
def chooseSegment : SeqM Nat := do
  let (res, newSlot) ← finishSegment
  if res ≠ 0 then pure res else nextSegment newSlot

theorem moveToNextSegment_eq (cpWriter : CheckpointWriter) :
    moveToNextSegment cpWriter = (do
      let res ← chooseSegment
      if res ≠ 0 then pure res else openSegment cpWriter) := by
  unfold moveToNextSegment chooseSegment
  rw [bind_assoc]
  refine bind_congr fun ⟨res, newSlot⟩ => ?_
  show (if res ≠ 0 then _ else _) = (if res ≠ 0 then _ else _) >>= _
  by_cases hres : res ≠ 0
  · rw [if_pos hres, if_pos hres, pure_bind, if_pos hres]
  · rw [if_neg hres, if_neg hres]

/-- From `s` to `t` the segment that is written next was chosen, and its slot is blank. -/
structure Chosen (nBytes : Nat) (live : LogAddr → Option Block) (s : World) (c : Contents)
    (t : World) (c' : Contents) : Prop where
  log : Log nBytes t.flash (t.segMap.setReclaimedOffset 0) c'
  kept : LogKept live s c { t with segMap := t.segMap.setReclaimedOffset 0 } c'
  live : Live nBytes (t.segMap.setReclaimedOffset 0) c' live
  badEu : t.flash.badEu = s.flash.badEu
  isEuReserve : t.segMap.isEuReserve = s.segMap.isEuReserve
  sequenceNum : t.segMap.sequenceNum = s.segMap.sequenceNum
  next : s.NextSlot t.segMap.newSlotId
  spared : s.MoveSpares → CopyBackSpared s.flash s.segMap →
    CopyBackFree t.flash t.segMap

section Chosen
variable {nBytes : Nat} {live : LogAddr → Option Block} {s t : World} {c c' : Contents}

theorem Chosen.placed (h : Chosen nBytes live s c t c') (hmove : CanMove nBytes s)
    (hres : t.segMap.isEuReserve = true) :
    t.flash.good (euAt t.segMap.newSlotId 0) = false := by
  rw [Flash.good_congr h.badEu]
  rw [h.isEuReserve] at hres
  exact hmove.placed hres _ h.next

theorem Chosen.fits (h : Chosen nBytes live s c t c') (hmove : CanMove nBytes s) :
    HeaderFits nBytes t.flash t.segMap.newSlotId := by
  intro eu hpos hlt
  rw [Flash.good_congr h.badEu, Flash.good_congr h.badEu]
  exact hmove.fits _ h.next eu hpos hlt

end Chosen

section Move
variable {E : Halt → World → Prop} (hE : ∀ t, E .powerLoss t) {s : World} {c : Contents}
  {nBytes : Nat} {live : LogAddr → Option Block}

/-- In a good erase unit the header needs no other place. -/
theorem placeHeader_good (hiseu : IsEu (euAt s.segMap.newSlotId 0))
    (hgood : s.flash.good (euAt s.segMap.newSlotId 0) = true) : placeHeader s = .ok 0 s := by
  unfold placeHeader
  rw [bind_ok (show getSegMap s = .ok s.segMap s from rfl),
    show calcAddress s.segMap.newSlotId 0 0 = euAt s.segMap.newSlotId 0 from rfl,
    bind_ok (nandCheckEuStatus_run hiseu.lt), hgood]
  rfl

/-- For a bad erase unit a reserve one is searched, and found if one is free. -/
theorem placeHeader_bad (h : Head s.flash s.segMap c)
    (hbad : s.flash.good (euAt s.segMap.newSlotId 0) = false) :
    ∃ r, allocReserveEU (euAt s.segMap.newSlotId 0) s = .ok r s ∧
      (r = phyAddressEmpty ∧ placeHeader s = .ok errorNoReserveEu { s with
          segMap := s.segMap.placing true s.segMap.reserveEuAddr } ∨
        (s.segMap.IsReserveEu r ∧ s.flash.freeEu (s.flash.copyBackEu s.segMap) r = true) ∧
          placeHeader s = .ok 0 { s with segMap := s.segMap.placing true r }) := by
  have hiseu := isEu_euAt h.newSlot.lt eusPerSlot_pos
  obtain ⟨r, halloc, hr⟩ := allocReserveEU_free h.layout.reserves rfl h.copyBack hiseu
  -- the search does not look at the place of the header
  have halloc' := allocReserveEU_congr (t := { s with
    segMap := s.segMap.placing true s.segMap.reserveEuAddr }) h.layout.reserves hiseu h.copyBack rfl
    rfl halloc
  have hrun : placeHeader s = (do
      let reservePhyAddr ← allocReserveEU (euAt s.segMap.newSlotId 0)
      if reservePhyAddr = phyAddressEmpty then pure errorNoReserveEu
      else do
        modifySegMap fun m => m.setReserveEu reservePhyAddr
        pure 0 : SeqM Nat) { s with
          segMap := s.segMap.placing true s.segMap.reserveEuAddr } := by
    unfold placeHeader
    rw [bind_ok (show getSegMap s = .ok s.segMap s from rfl),
      show calcAddress s.segMap.newSlotId 0 0 = euAt s.segMap.newSlotId 0 from rfl,
      bind_ok (nandCheckEuStatus_run hiseu.lt), hbad, if_neg Bool.false_ne_true]
    rfl
  refine ⟨r, halloc, ?_⟩
  rw [hrun, bind_ok halloc']
  refine hr.imp (fun he => ⟨he, ?_⟩) fun hfree => ⟨hfree, ?_⟩
  · rw [if_pos he]
    rfl
  · rw [if_neg (h.layout.reserves.isEu_reserve hfree.1).ne_empty]
    rfl

/-- `placeHeader` finds where the header is written, if there is a place for it. -/
theorem placeHeader_spec (h : Head s.flash s.segMap c) (h0 : s.segMap.headOffset = 0)
    (hbad : s.segMap.isEuReserve = true → s.flash.good (euAt s.segMap.newSlotId 0) = false) :
    ∃ res x y, placeHeader s = .ok res { s with segMap := s.segMap.placing x y } ∧
      Head s.flash (s.segMap.placing x y) c ∧
      (x = true → s.flash.good (euAt s.segMap.newSlotId 0) = false) ∧
      (res = 0 → HeadPlaced s.flash (s.segMap.placing x y)) ∧
      (res = 0 → CopyBackFree s.flash s.segMap →
        CopyBackSpared s.flash (s.segMap.placing x y)) := by
  have hzero : s.segMap.headOffset / pagesPerEu = 0 := by rw [h0, Nat.zero_div]
  have hstart : s.segMap.headOffset % pagesPerEu = 0 := by rw [h0, Nat.zero_mod]
  cases hgood : s.flash.good (euAt s.segMap.newSlotId 0) with
  | true =>
    have hres : s.segMap.isEuReserve = false := by
      cases hr : s.segMap.isEuReserve with
      | false => rfl
      | true =>
        rw [hbad hr] at hgood
        exact absurd hgood Bool.false_ne_true
    refine ⟨0, s.segMap.isEuReserve, s.segMap.reserveEuAddr,
      placeHeader_good (isEu_euAt h.newSlot.lt eusPerSlot_pos) hgood, h, fun hr => ?_, fun _ => ?_,
      fun _ hcb => hcb.placing fun hr => ?_⟩
    · rw [hres] at hr
      exact absurd hr Bool.false_ne_true
    · refine .home hres ?_
      show s.flash.good (euAt s.segMap.newSlotId (s.segMap.headOffset / pagesPerEu)) = true
      rw [hzero, hgood]
    · rw [hres] at hr
      exact absurd hr Bool.false_ne_true
  | false =>
    have hh : ∀ y, Head s.flash (s.segMap.placing true y) c := fun y =>
      h.placing (fun hno => absurd hno.symm Bool.false_ne_true) fun hne => absurd hstart hne
    obtain ⟨r, -, ⟨-, hrun⟩ | ⟨⟨mem, free⟩, hrun⟩⟩ := placeHeader_bad h hgood
    · exact ⟨errorNoReserveEu, true, s.segMap.reserveEuAddr, hrun, hh _, fun _ => rfl,
        fun h => absurd h (by decide), fun h => absurd h (by decide)⟩
    · refine ⟨0, true, r, hrun, hh r, fun _ => rfl, fun _ => ?_,
        fun _ hcb => hcb.placing fun _ => (Flash.freeEu_iff.mp free).2.1.symm⟩
      refine h.placed_reserve ?_ hstart (by rw [hzero]; exact hgood) mem (Flash.isFree_of_freeEu free)
      rw [h0]
      exact pagesPerSlot_pos

include hE

/-- The segment chosen is opened. -/
theorem wp_openSegment {data : Nat → UInt8} {Q : Nat → World → Prop}
    (h : Log nBytes s.flash (s.segMap.setReclaimedOffset 0) c)
    (hlive : Live nBytes (s.segMap.setReclaimedOffset 0) c live)
    (hbad : s.segMap.isEuReserve = true → s.flash.good (euAt s.segMap.newSlotId 0) = false)
    (hfits : HeaderFits nBytes s.flash s.segMap.newSlotId)
    (hq : ∀ r t c', Log nBytes t.flash t.segMap c' → Live nBytes t.segMap c' live →
      (r = 0 → HeaderWritten data nBytes s.segMap.sequenceNum t.segMap c' ∧
        Unmarked t.segMap c') →
      LogKept live { s with segMap := s.segMap.setReclaimedOffset 0 } c t c' →
      (CopyBackFree s.flash s.segMap → SparesCopyBack t.flash t.segMap) → Q r t) :
    wp (openSegment (checkpointWriter data nBytes)) Q E s := by
  obtain ⟨res, x, y, hrun, hhead, hx, hplaced, hspared⟩ := placeHeader_spec
    (s := { s with segMap := s.segMap.setReclaimedOffset 0 }) h.head (Nat.zero_mod _) hbad
  have hlog := h.placing hhead
  unfold openSegment
  rw [wp_bind, wp_modifySegMap, wp_bind, wp_ok_iff hrun]
  have hplacing : LogKept live { s with segMap := s.segMap.setReclaimedOffset 0 } c
      { s with segMap := (s.segMap.setReclaimedOffset 0).placing x y } c := .of_eq rfl rfl rfl
  refine wp_ite (fun hres => hq res _ c hlog hlive (fun h0 => absurd h0 hres) hplacing fun hcb =>
    ⟨hcb.of_flag rfl rfl rfl, fun h0 => absurd (Nat.zero_mod _) h0⟩) fun hres => ?_
  have hres : res = 0 := not_not.mp hres
  have hopening : Opening nBytes s.flash ((s.segMap.setReclaimedOffset 0).placing x y) c :=
    ⟨hhead, h.fits, hlog.segment_ne, hx, hfits⟩
  refine wp_seqVerify (wp_writeSegmentHeader hE (s := { s with
    segMap := (s.segMap.setReclaimedOffset 0).placing x y }) hopening (Nat.zero_mod _)
    (hplaced hres) fun t c' ht hend hseq hholds => ?_)
  have hlog' := ht.log hlog hend
  have hlive' := ht.inView (Nat.zero_le _) hlive
  have hslot : t.segMap.newSlotId = s.segMap.newSlotId := congrArg Mapping.newSlotId ht.mapping
  have hheader : HeaderWritten data nBytes s.segMap.sequenceNum t.segMap c' := by
    refine ⟨hend, hseq, ?_⟩
    rw [hslot]
    exact hholds
  have hkept := hplacing.trans (ht.kept hlog (Nat.zero_mod _) hlive)
  have hspares : CopyBackFree s.flash s.segMap → CopyBackSpared t.flash t.segMap := fun hcb =>
    ht.spared (hspared hres (hcb.of_flag rfl rfl rfl))
  have hunmarked := hkept.unmarked_start (Nat.zero_mod _) (congrArg Mapping.recSegment ht.mapping)
  rw [if_neg (not_not_intro rfl), wp_bind, wp_getSegMap]
  refine wp_ite (fun _ => ?_) fun _ => ?_
  · rw [wp_bind]
    refine wp_changeCounterLevel (by decide) fun u hflash hmap hset => ?_
    rw [wp_pure]
    refine hq 0 u c' (by rw [hflash, hmap]; exact hlog') (by rw [hmap]; exact hlive')
      (fun _ => by rw [hmap]; exact ⟨hheader, hunmarked⟩) (hkept.trans ?_)
      fun hcb => by rw [hflash, hmap]; exact (hspares hcb).spares
    exact .setLevel (by decide) hset hmap hunmarked
  · exact hq 0 t c' hlog' hlive' (fun _ => ⟨hheader, hunmarked⟩) hkept fun hcb =>
      (hspares hcb).spares

/-- At the end of a segment the next one is chosen. -/
theorem wp_chooseSegment (h : Log nBytes s.flash s.segMap c) (hlive : Live nBytes s.segMap c live)
    (hmove : CanMove nBytes s) (hend : s.segMap.headOffset = pagesPerSlot) :
    wp chooseSegment (fun r t => r = 0 ∧ ∃ c', Chosen nBytes live s c t c') E s := by
  unfold chooseSegment
  rw [wp_bind]
  cases hrun : finishSegment s with
  | error e t => exact (wp_error_iff hrun).mpr (of_wp_error (wp_finishSegment hE h hend) hrun)
  | ok r t =>
    obtain ⟨res, newSlot⟩ := r
    obtain ⟨hres, ht⟩ := of_wp_ok (wp_finishSegment hE h hend) hrun
    obtain rfl : res = 0 := hres
    obtain rfl : newSlot = s.segMap.freedSlot := ht.freed
    rw [wp_ok_iff hrun]
    refine wp_ite (fun hno => absurd rfl hno) fun _ => ?_
    have htossed : t.tossed = s.tossed := by
      unfold World.tossed
      rw [ht.lfsrState]
    have hallt : t.segMap.allSegmentsAllocated = s.segMap.allSegmentsAllocated := by
      rw [SegMap.allSegmentsAllocated, SegMap.allSegmentsAllocated, ht.nSegments]
    cases hall : s.segMap.allSegmentsAllocated with
    | true =>
      obtain ⟨c', hbetween, hlay, hcb, hplain⟩ := ht.between hall
      rw [hall] at hallt
      refine wp_nextSegment_all hE (m := t.segMap.freeing s.segMap.freedSlot) rfl hallt hbetween
        hlay hcb ?_ h.fits ?_ _ rfl (fun htoss => ?_) (hlive.congr ?_ fun a ha _ ho => ?_)
        fun u c' hlog hlive' hbad hmres hmseq hslot hn hcount hview hspares => ?_
      · show t.segMap.isEuReserve = false → t.segMap.reserveEuAddr = phyAddressEmpty
        rw [ht.isEuReserve, ht.reserveEuAddr]
        exact h.head.notReserve
      · show segmentToReclaim t.obsCountersMap t.segMap.reclaimed.segment ≠ none
        rw [ht.obsCountersMap, ht.reclaimed]
        exact hmove.reclaim hall
      · exact hmove.wear _ (.intro hrun hallt htoss)
      · exact ht.nSegments.ge
      · exact hplain a ha ho
      · have hkept : LogKept live s c { u with segMap := u.segMap.setReclaimedOffset 0 } c' := by
          refine .move hlive hend (Nat.zero_mod _) (fun seg hseg _ => ?_) (fun a ha ho => ?_)
            (by rw [hcount, ht.obsCountersMap])
          · rw [← ht.nSegments]
            exact hn ▸ hseg
          · exact (hview a (ht.nSegments.symm ▸ ha) ho).trans (hplain a ha ho)
        refine ⟨rfl, c', hlog, hkept, hlive', hbad.trans ht.badEu, hmres.trans ht.isEuReserve,
          hmseq.trans ht.sequenceNum, ?_, fun hwear hcb => ?_⟩
        swap
        · exact hspares (fun htoss => hwear _ (.intro hrun hallt htoss)) (ht.spared hcb)
        unfold World.NextSlot
        rw [if_pos hall, ← htossed]
        refine hslot.imp id fun hs => ⟨hs.1, hs.2.trans ?_⟩
        unfold World.slotToMove World.pickedSlot
        rw [ht.lfsrState]
        rfl
    | false =>
      obtain rfl := ht.growing hall
      refine wp_nextSegment_growing h hlive hall hend
        (fun u hflash hmap hlog hlive' hcount hview => ?_) _
      have hres : u.segMap.isEuReserve = t.segMap.grown.isEuReserve := by rw [← hmap]; rfl
      have hseq : u.segMap.sequenceNum = t.segMap.grown.sequenceNum := by rw [← hmap]; rfl
      have hslot : u.segMap.newSlotId = t.segMap.grown.newSlotId := by rw [← hmap]; rfl
      have hcur : t.segMap.reclaimed.segment + 1 = t.segMap.nSegments := by
        rcases h.segments.phase with hg | hr
        · exact hg.current
        · have hn : t.segMap.nSegments = segmentsCount := hr.all
          rw [SegMap.allSegmentsAllocated, hn, beq_self_eq_true] at hall
          exact absurd hall.symm Bool.false_ne_true
      have hkept : LogKept live t c { u with segMap := u.segMap.setReclaimedOffset 0 } c := by
        refine .move hlive hend (Nat.zero_mod _) (fun seg hseg hne => ?_) (fun a ha _ => ?_)
          (by rw [hcount])
        · dsimp only at hseg hne
          rw [hmap] at hseg hne
          have hseg : seg < t.segMap.nSegments + 1 := hseg
          have hne : seg ≠ t.segMap.reclaimed.segment + 1 := hne
          omega
        · dsimp only
          rw [hmap]
          exact hview a ha
      refine ⟨rfl, c, by rw [hmap]; exact hlog, hkept, by rw [hmap]; exact hlive',
        by rw [hflash], hres, hseq, ?_, fun _ hcb => ?_⟩
      swap
      · refine hcb.of_flag (by rw [hflash]) ?_ (by rw [hflash])
        rw [show u.segMap.segToSlot = t.segMap.grown.segToSlot by rw [← hmap]; rfl]
        exact h.grown_reserve firstReserveSegment_mem
      unfold World.NextSlot
      rw [if_neg (by rw [hall]; exact Bool.false_ne_true), hslot]
      rfl

/-- The end of a segment: whatever `moveToNextSegment` returns, every page that is live stays
so.  If it returns 0 no page of the current segment is marked. -/
theorem moveToNextSegment_spec {data : Nat → UInt8} (h : Log nBytes s.flash s.segMap c)
    (hlive : Live nBytes s.segMap c live) (hmove : CanMove nBytes s)
    (hend : s.segMap.headOffset = pagesPerSlot) :
    wp (moveToNextSegment (checkpointWriter data nBytes))
      (fun r t => ∃ c', Log nBytes t.flash t.segMap c' ∧ Live nBytes t.segMap c' live ∧
        (r = 0 → HeaderWritten data nBytes s.segMap.sequenceNum t.segMap c' ∧
          Unmarked t.segMap c') ∧ LogKept live s c t c' ∧
        (s.MoveSpares → KeepsSpared s t)) E s := by
  rw [moveToNextSegment_eq]
  refine wp_seq (wp_chooseSegment hE h hlive hmove hend) ?_
  rintro r t ⟨rfl, c', ht⟩
  rw [if_neg (not_not_intro rfl), ← ht.sequenceNum]
  exact wp_openSegment hE ht.log ht.live (ht.placed hmove) (ht.fits hmove)
    fun r u c'' hu hl hheader hkept hspares => ⟨c'', hu, hl, hheader, ht.kept.trans hkept,
      fun hwear hs => hspares (ht.spared hwear (hs.head hmove.opened))⟩

end Move

end NandFs
