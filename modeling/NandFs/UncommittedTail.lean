import NandFs.TailErase
import NandFs.TwoGenerations

/-! # Cutting the uncommitted tail

`findCheckpointAndTruncate` finds the newest checkpoint of the current segment, or of the one written
before it where the current one has none, and cuts what was written after it.  It does so where the
current segment has a checkpoint, unless a checkpoint takes one page exactly.  Where the header of
the current segment is torn it has to erase the slot that the segment is written to; in reclamation
it erases the old one.  The segment map keeps a reserve erase unit that the last page was found in,
also where the checkpoint is in a good erase unit: the next page would be written to the wrong one.
-/
namespace NandFs

open Program

section Tail
variable [Config]

/-- The segment written before the current one: it is full. -/
structure PreviousFull (nBytes : Nat) (m : SegMap) (c : Contents) : Prop where
  segment_lt : m.previouslyWrittenSegment < noSegmentNum
  data : m.IsDataSlot (m.segToSlot m.previouslyWrittenSegment)
  ne_new : m.segToSlot m.previouslyWrittenSegment ≠ m.newSlotId
  ne_old : m.segToSlot m.previouslyWrittenSegment ≠ m.reclaimedSegmentSlot
  logged : c.Logged nBytes (m.segToSlot m.previouslyWrittenSegment) pagesPerSlot

/-- No page of the chip is the last one of a checkpoint. -/
def World.NoLastPage (w : World) : Prop :=
  ∀ a < pageCount, (w.flash.page a).flags.checkpoint ≠ .last

/-- A boot has found the head of the log: the current segment is written to the slot `newSlotId`. -/
structure TailStart (nBytes : Nat) (w : World) (c : Contents) : Prop where
  layout : Layout w.flash w.segMap c
  copyBack : w.flash.copyBackEu w.segMap ≠ phyAddressEmpty
  /-- Where the copy-back unit is in use its first page was programmed. -/
  programmed : ¬w.flash.IsFree (w.flash.copyBackEu w.segMap) →
    w.flash.mainAreaWrites (w.flash.copyBackEu w.segMap) = true
  notReserve : w.segMap.isEuReserve = false → w.segMap.reserveEuAddr = phyAddressEmpty
  fits : headerPages nBytes ≤ pagesPerSlot
  segment_lt : w.segMap.reclaimed.segment < noSegmentNum
  segments_pos : 0 < w.segMap.nSegments
  segments_le : w.segMap.nSegments ≤ segmentsCount
  data : w.segMap.IsDataSlot w.segMap.newSlotId
  pos : 0 < w.segMap.headOffset
  le : w.segMap.headOffset ≤ pagesPerSlot
  logged : c.Logged nBytes w.segMap.newSlotId w.segMap.headOffset
  /-- A segment that is not reclaimed is looked up in the slot that it is written to. -/
  growing : w.segMap.isStateReclamation = false → w.segMap.reclaimedSegmentSlot = w.segMap.newSlotId
  /-- A segment that is reclaimed is full. -/
  old : w.segMap.isStateReclamation = true → w.segMap.IsDataSlot w.segMap.reclaimedSegmentSlot ∧
    c.WrittenTo w.segMap.reclaimedSegmentSlot pagesPerSlot
  previous : w.segMap.headOffset < headerPages nBytes → w.segMap.nSegments ≠ 1 →
    PreviousFull nBytes w.segMap c
  /-- A checkpoint of one page has no last page. -/
  onePage : checkpointPages nBytes = 1 → w.NoLastPage

/-- How `findCheckpointAndTruncate` ends when it cuts exactly the uncommitted tail.  Where there is a
checkpoint the log can go on at the page behind it (`Head`): the segment map says in which erase unit
that page is written. -/
inductive CutsTail (nBytes : Nat) (w : World) (c : Contents) : Nat → World → Prop
  /-- Behind the newest checkpoint of the current segment. -/
  | current {t : World} {k : Nat}
      (newest : c.NewestAt nBytes w.segMap.newSlotId w.segMap.headOffset k)
      (head : t.segMap.reclaimed = ⟨w.segMap.reclaimed.segment, k + 1⟩)
      (newSlot : t.segMap.newSlotId = w.segMap.newSlotId)
      (mapped : t.segMap.segToSlot = w.segMap.segToSlot)
      (segments : t.segMap.nSegments = w.segMap.nSegments)
      (cut : Head t.flash t.segMap (c.cut w.segMap.newSlotId (k + 1))) : CutsTail nBytes w c 0 t
  /-- The current segment has none: behind the newest one of the segment written before. -/
  | previous {t : World} {k : Nat}
      (none : ∀ k' < w.segMap.headOffset, ¬c.CheckpointAt nBytes w.segMap.newSlotId k')
      (more : w.segMap.nSegments ≠ 1)
      (newest : c.NewestAt nBytes (w.segMap.segToSlot w.segMap.previouslyWrittenSegment)
        pagesPerSlot k)
      (head : t.segMap.reclaimed = ⟨w.segMap.previouslyWrittenSegment, k + 1⟩)
      (newSlot : t.segMap.newSlotId = w.segMap.segToSlot w.segMap.previouslyWrittenSegment)
      (mapped : t.segMap.segToSlot = w.segMap.segToSlot)
      (segments : t.segMap.nSegments =
        if w.segMap.isStateReclamation then w.segMap.nSegments else w.segMap.nSegments - 1)
      (cut : Head t.flash t.segMap ((c.cut w.segMap.newSlotId 0).cut
        (w.segMap.segToSlot w.segMap.previouslyWrittenSegment) (k + 1))) : CutsTail nBytes w c 0 t
  /-- There is no other segment, and no checkpoint. -/
  | first {t : World}
      (none : ∀ k' < w.segMap.headOffset, ¬c.CheckpointAt nBytes w.segMap.newSlotId k')
      (one : w.segMap.nSegments = 1)
      (cut : Layout t.flash t.segMap (c.cut w.segMap.newSlotId 0)) : CutsTail nBytes w c errorNoCp t

/-- Page `k` of the slot ends the newest checkpoint that there is to find: that of the current
segment, or of the one written before it where the header is torn.  The slot has `n` pages. -/
inductive NewestFound (nBytes : Nat) (w : World) (c : Contents) : Nat → Nat → Nat → Prop
  | current {k : Nat} (header : headerPages nBytes ≤ w.segMap.headOffset)
      (newest : c.NewestAt nBytes w.segMap.newSlotId w.segMap.headOffset k) :
      NewestFound nBytes w c w.segMap.newSlotId w.segMap.headOffset k
  | previous {k : Nat} (torn : w.segMap.headOffset < headerPages nBytes)
      (more : w.segMap.nSegments ≠ 1)
      (newest : c.NewestAt nBytes (w.segMap.segToSlot w.segMap.previouslyWrittenSegment)
        pagesPerSlot k) :
      NewestFound nBytes w c (w.segMap.segToSlot w.segMap.previouslyWrittenSegment) pagesPerSlot k

/-- The torn header of the current segment is in the erase unit. -/
def World.TornIn (nBytes : Nat) (w : World) (eu : Nat) : Prop :=
  w.segMap.headOffset < headerPages nBytes ∧ eu ∈ HomesOf w.flash w.segMap w.segMap.newSlotId
    (Set.Iic (w.segMap.headOffset / pagesPerEu))

/-- Behind page `k` of the slot, which has `n` pages, the log can go on in the same erase unit: a good
one is not taken for a bad one, and what is to be cut with a copy-back can be. -/
def World.GoesOn (nBytes : Nat) (w : World) (slot n k : Nat) : Prop :=
  (k + 1) % pagesPerEu ≠ 0 →
    (w.flash.good (euAt slot (k / pagesPerEu)) = true → w.segMap.isEuReserve = false) ∧
    (k + 1 ≠ n → w.CopyBackComesFree slot k ∨ w.TornIn nBytes (w.flash.copyBackEu w.segMap))

/-- Where `findCheckpointAndTruncate` cuts the tail: a torn header is not in a segment that is
reclaimed, and at the start of an erase unit the head is in a good one; a checkpoint does not take
one page exactly, unless there is none to look for; and behind the newest one the log can go on. -/
def World.Truncates (nBytes : Nat) (w : World) (c : Contents) : Prop :=
  (w.segMap.headOffset < headerPages nBytes → w.segMap.isStateReclamation = false ∧
    (w.segMap.headOffset % pagesPerEu = 0 →
      w.flash.good (euAt w.segMap.newSlotId (w.segMap.headOffset / pagesPerEu)) = true)) ∧
  (Fitting nBytes ∨ w.segMap.nSegments = 1 ∧ w.segMap.headOffset < headerPages nBytes) ∧
  ∀ slot n k, NewestFound nBytes w c slot n k → w.GoesOn nBytes slot n k

/-! ## The place of the head -/

/-- From `w` to `t` the map learned from the search where the erase unit of the checkpoint is replaced;
of a good one it learned nothing. -/
inductive HeadFound (w t : World) (slot e : Nat) : Prop
  | good (good : t.flash.good (euAt slot e) = true)
      (isEuReserve : t.segMap.isEuReserve = w.segMap.isEuReserve)
      (reserveEuAddr : t.segMap.reserveEuAddr = w.segMap.reserveEuAddr)
  | bad (bad : t.flash.good (euAt slot e) = false) (isReserve : t.segMap.isEuReserve = true)
      (isHome : IsHome t.flash t.segMap slot e t.segMap.reserveEuAddr)

section HeadFound
variable {w t u : World} {c : Contents} {segment slot e k y : Nat}

theorem IsHome.isReserveEu {f : Flash} {m : SegMap} {home : Nat} (h : IsHome f m slot e home)
    (hbad : f.good (euAt slot e) = false) : m.IsReserveEu home := by
  cases h with
  | self good =>
    rw [hbad] at good
    exact absurd good Bool.false_ne_true
  | reserve _ mem => exact mem

theorem HeadFound.of_foundIn {x : Bool} (h : FoundIn w slot (some k) x y)
    (hres : u.segMap.isEuReserve = w.segMap.isEuReserve)
    (haddr : u.segMap.reserveEuAddr = w.segMap.reserveEuAddr) :
    HeadFound u { w with segMap := w.segMap.placing x y } slot (k / pagesPerEu) := by
  cases h with
  | good good => exact .good good hres.symm haddr.symm
  | bad bad isHome => exact .bad bad rfl (isHome.congr fun _ _ => rfl)

/-- What is cut then leaves the head where it is. -/
theorem HeadFound.keep (h : HeadFound w u slot e) (hkeeps : KeepsUnit u t slot e)
    (hres : t.segMap.isEuReserve = u.segMap.isEuReserve)
    (haddr : t.segMap.reserveEuAddr = u.segMap.reserveEuAddr) : HeadFound w t slot e := by
  have hgood := Flash.good_congr hkeeps.badEu (euAt slot e)
  cases h with
  | good good isEuReserve reserveEuAddr =>
    exact .good (hgood.trans good) (hres.trans isEuReserve) (haddr.trans reserveEuAddr)
  | bad bad isReserve isHome =>
    refine .bad (hgood.trans bad) (hres.trans isReserve) ?_
    rw [haddr]
    exact hkeeps.isHome _ isHome

/-- Behind page `k` the log can go on where the map does not take a good erase unit for a bad one. -/
theorem WritesTo.head_iff (h : WritesTo t c segment slot) (hfound : HeadFound w t slot (k / pagesPerEu))
    (hhead : t.segMap.headOffset = k + 1) (hcb : t.flash.copyBackEu t.segMap ≠ phyAddressEmpty)
    (hnot : w.segMap.isEuReserve = false → w.segMap.reserveEuAddr = phyAddressEmpty) :
    Head t.flash t.segMap c ↔ ((k + 1) % pagesPerEu ≠ 0 →
      t.flash.good (euAt slot (k / pagesPerEu)) = true → w.segMap.isEuReserve = false) := by
  have hsame : (k + 1) % pagesPerEu ≠ 0 → (k + 1) / pagesPerEu = k / pagesPerEu := by
    intro hin
    refine div_of_eq (mod_succ_lt hin) ?_
    have := div_mul_add_mod k
    omega
  constructor
  · intro hh hin hgood
    have hplaced := hh.placed (by rwa [hhead])
    cases hfound with
    | bad bad =>
      rw [hgood] at bad
      exact absurd bad Bool.true_eq_false.mp
    | good _ isEuReserve =>
      rw [← isEuReserve]
      cases hplaced with
      | home notReserve => exact notReserve
      | reserve _ bad =>
        rw [h.newSlot, hhead, hsame hin, hgood] at bad
        exact absurd bad Bool.true_eq_false.mp
  · intro hclear
    refine ⟨h.layout, hcb, fun hres => ?_, by rw [h.newSlot]; exact h.data, fun hrec => ?_, h.le, ?_,
      fun hin => ?_⟩
    · cases hfound with
      | good _ isEuReserve reserveEuAddr =>
        rw [reserveEuAddr]
        exact hnot (isEuReserve.symm.trans hres)
      | bad _ isReserve =>
        rw [hres] at isReserve
        exact absurd isReserve Bool.false_ne_true
    · rw [SegMap.reclaimedSegmentSlot, h.current, h.newSlot]
      exact h.growing hrec
    · rw [h.newSlot]
      exact h.written
    · rw [hhead] at hin
      have hdiv := hsame hin
      cases hfound with
      | good good isEuReserve =>
        refine .home (isEuReserve.trans (hclear hin good)) ?_
        rw [h.newSlot, hhead, hdiv]
        exact good
      | bad bad isReserve isHome =>
        refine .reserve isReserve ?_ (isHome.isReserveEu bad) ?_
        · rw [h.newSlot, hhead, hdiv]
          exact bad
        · rw [h.newSlot]
          refine .home ?_
          rw [hhead, hdiv]
          exact isHome

/-- The slot was cut behind page `k`, and the head is there. -/
theorem WritesTo.headAt (h : WritesTo w c segment slot) (hk : k < w.segMap.headOffset)
    (hmap : t.segMap = { w.segMap with reclaimed := ⟨segment, k + 1⟩ })
    (hlay : Layout t.flash t.segMap (c.cut slot (k + 1))) :
    WritesTo t (c.cut slot (k + 1)) segment slot := by
  have hstate : t.segMap.isStateReclamation = w.segMap.isStateReclamation := by
    unfold SegMap.isStateReclamation SegMap.reclaimedSegmentSlot
    rw [hmap, h.current]
  have hhead : t.segMap.headOffset = k + 1 := by rw [hmap]
  have hle := h.le
  refine ⟨hlay, ?_, by rw [hmap], by rw [hmap]; exact h.newSlot, by rw [hmap]; exact h.mapped, ?_, ?_, ?_⟩
  · rw [hmap]
    exact ⟨h.data.lt, h.data.data⟩
  · rw [hstate, hmap]
    exact h.growing
  · rw [hhead]
    omega
  · rw [hhead]
    exact h.written.cut (by omega)

end HeadFound

/-! ## Back to the segment before -/

/-- The segment map that goes back to the segment written before, which ends at `n`. -/
def SegMap.rolledBack (m : SegMap) (n : Nat) : SegMap :=
  { m with
    nSegments := if m.isStateReclamation then m.nSegments else m.nSegments - 1
    newSlotId := m.segToSlot m.previouslyWrittenSegment
    reclaimed := ⟨m.previouslyWrittenSegment, n⟩
    previouslyWrittenSegment := noSegmentNum }

/-- The steps of `returnToPrevCheckpoint` roll the map back. -/
theorem SegMap.rolledBack_eq {m : SegMap} (hprev : m.previouslyWrittenSegment < noSegmentNum)
    (hpos : 0 < m.nSegments) (hle : m.nSegments ≤ segmentsCount) :
    let m₁ := if m.isStateReclamation then m
      else { m with nSegments := (m.nSegments + (2 ^ 32 - 1)) % 2 ^ 32 }
    let m₂ := { m₁ with newSlotId := m₁.segToSlot m₁.previouslyWrittenSegment }
    { m₂.setReclaimedSegment m₂.previouslyWrittenSegment with
      previouslyWrittenSegment := noSegmentNum } = m.rolledBack m.headOffset := by
  have hseg : m.previouslyWrittenSegment % 4096 = m.previouslyWrittenSegment :=
    Nat.mod_eq_of_lt (Nat.lt_trans hprev (by decide))
  have hcount : (m.nSegments + (2 ^ 32 - 1)) % 2 ^ 32 = m.nSegments - 1 := by
    have := nSlots_le
    have : segmentsCount ≤ nSlots := Nat.le_trans (Nat.sub_le _ _) (Nat.sub_le _ _)
    omega
  unfold SegMap.rolledBack
  cases m.isStateReclamation with
  | true => simp only [if_true, SegMap.setReclaimedSegment, LogAddr.setSegment, hseg]
  | false =>
    simp only [Bool.false_eq_true, if_false, SegMap.setReclaimedSegment, LogAddr.setSegment, hseg, hcount]

section Back
variable {nBytes : Nat} {w t : World} {c c' : Contents} {slot n : Nat}

/-- What a slot has of checkpoints depends on its pages only. -/
theorem Contents.flagAt_congr (hsame : c' slot = c slot) : c'.flagAt slot = c.flagAt slot := by
  funext o
  rw [flagAt, flagAt, hsame]

theorem Contents.checkpointAt_congr (hsame : c' slot = c slot) (k : Nat) :
    c'.CheckpointAt nBytes slot k ↔ c.CheckpointAt nBytes slot k := by
  rw [CheckpointAt, CheckpointAt, flagAt_congr hsame]

theorem Contents.Logged.congr (h : c.Logged nBytes slot n) (hsame : c' slot = c slot) :
    c'.Logged nBytes slot n := by
  refine ⟨fun o ho => ?_, fun i hi hlt => ?_, fun k hk hpos hlast => ?_⟩
  · rw [hsame]
    exact h.written o ho
  · rw [flagAt_congr hsame]
    exact h.header i hi hlt
  · rw [flagAt_congr hsame] at hlast
    exact (checkpointAt_congr hsame k).mpr (h.complete k hk hpos hlast)

theorem Contents.newestAt_congr (hsame : c' slot = c slot) (k : Nat) :
    c'.NewestAt nBytes slot n k ↔ c.NewestAt nBytes slot n k := by
  unfold NewestAt
  simp only [checkpointAt_congr hsame]

theorem WritesTo.placing {segment : Nat} (h : WritesTo w c segment slot) (x : Bool) (y : Nat) :
    WritesTo { w with segMap := w.segMap.placing x y } c segment slot := by
  exact ⟨h.layout.congr fun _ _ => rfl, ⟨h.data.lt, h.data.data⟩, h.current, h.newSlot, h.mapped,
    h.growing, h.le, h.written⟩

/-- After the roll back the head is at the end of the segment written before. -/
theorem PreviousFull.writesTo {m : SegMap} (h : PreviousFull nBytes m c) (hlay : Layout t.flash m c')
    (hsame : c' (m.segToSlot m.previouslyWrittenSegment) =
      c (m.segToSlot m.previouslyWrittenSegment)) :
    WritesTo { t with segMap := m.rolledBack pagesPerSlot } c' m.previouslyWrittenSegment
      (m.segToSlot m.previouslyWrittenSegment) := by
  exact ⟨hlay.congr fun _ _ => rfl, ⟨h.data.lt, h.data.data⟩, rfl, rfl, h.data.ne_noSlot, fun _ => rfl,
    Nat.le_refl _, (h.logged.congr hsame).written⟩

/-- `truncateCurrentSegment` erases the erase units `eus`, which leaves the contents `c'`, and the head
in the first erase unit. -/
def World.TruncatesTo (w : World) (c' : Contents) (eus : Set Nat) : Prop :=
  wp truncateCurrentSegment (fun r t => r = 0 ∧
      t.segMap = { w.segMap with reclaimed :=
        ⟨w.segMap.reclaimed.segment, w.segMap.headOffset % pagesPerEu⟩ } ∧
      Layout t.flash t.segMap c' ∧ w.flash.ErasedUnits eus t.flash)
    (fun e _ => e = .powerLoss) w

/-- The current segment is erased, and the checkpoint at page `k` of the one written before it is
found. -/
structure WentBack (w : World) (c' : Contents) (eus : Set Nat) (k : Nat) (t : World) : Prop where
  map : ∃ x y, t.segMap = (w.segMap.rolledBack pagesPerSlot).placing x y
  writes : WritesTo t c' w.segMap.previouslyWrittenSegment
    (w.segMap.segToSlot w.segMap.previouslyWrittenSegment)
  erased : w.flash.ErasedUnits eus t.flash
  found : HeadFound w t (w.segMap.segToSlot w.segMap.previouslyWrittenSegment) (k / pagesPerEu)

/-- `returnToPrevCheckpoint`: once the current segment is erased, the newest checkpoint of the segment
written before is found. -/
theorem returnToPrevCheckpoint_spec {eus : Set Nat} (htruncate : w.TruncatesTo c' eus)
    (hprev : PreviousFull nBytes w.segMap c)
    (hsame : c' (w.segMap.segToSlot w.segMap.previouslyWrittenSegment) =
      c (w.segMap.segToSlot w.segMap.previouslyWrittenSegment))
    (hfit : Fitting nBytes) (hfits : headerPages nBytes ≤ pagesPerSlot)
    (hmore : 1 < w.segMap.nSegments) (hle : w.segMap.nSegments ≤ segmentsCount) :
    wp (returnToPrevCheckpoint (isCheckpointMoreThanOnePage nBytes)) (fun r t => ∃ k,
        r = some ⟨w.segMap.previouslyWrittenSegment, k⟩ ∧
        c.NewestAt nBytes (w.segMap.segToSlot w.segMap.previouslyWrittenSegment) pagesPerSlot k ∧
        WentBack w c' eus k t)
      (fun e _ => e = .powerLoss) w := by
  unfold returnToPrevCheckpoint
  refine wp_seq htruncate ?_
  rintro r t ⟨-, hmap, hlay, herased⟩
  have hroll : t.segMap.rolledBack t.segMap.headOffset =
      w.segMap.rolledBack (w.segMap.headOffset % pagesPerEu) := by
    rw [hmap]
    rfl
  have hsteps := SegMap.rolledBack_eq (m := t.segMap) (by rw [hmap]; exact hprev.segment_lt)
    (by rw [hmap]; exact Nat.lt_trans Nat.one_pos hmore) (by rw [hmap]; exact hle)
  rw [wp_bind, wp_modifySegMap, wp_bind, wp_modifySegMap, wp_bind, wp_modifySegMap]
  dsimp only at hsteps ⊢
  rw [hsteps, hroll]
  have hpos : (w.segMap.rolledBack (w.segMap.headOffset % pagesPerEu)).nSegments ≠ 0 := by
    unfold SegMap.rolledBack
    dsimp only
    split
    · omega
    · omega
  have hmoved : (w.segMap.rolledBack (w.segMap.headOffset % pagesPerEu)).setReclaimedOffset
      pagesPerSlot = w.segMap.rolledBack pagesPerSlot := by
    have := pagesPerSlot_le
    have hmod : pagesPerSlot % 4096 = pagesPerSlot := Nat.mod_eq_of_lt (by omega)
    unfold SegMap.setReclaimedOffset LogAddr.setOffset
    rw [hmod]
    rfl
  rw [wp_bind, wp_getSegMap, if_neg hpos, wp_bind, wp_modifySegMap]
  dsimp only
  rw [hmoved, wp_bind, wp_getSegMap]
  have hwrites : WritesTo { t with segMap := w.segMap.rolledBack pagesPerSlot } c'
      w.segMap.previouslyWrittenSegment (w.segMap.segToSlot w.segMap.previouslyWrittenSegment) := by
    rw [hmap] at hlay
    exact hprev.writesTo (hlay.congr fun _ _ => rfl) hsame
  have hlog := hprev.logged.congr hsame
  obtain ⟨found, x, y, hrun, hfound, hplace⟩ := hlog.search_run hwrites.layout hwrites.data
    hwrites.looksUp hwrites.written (Nat.le_refl _) pagesPerSlot_pos hfit
  obtain ⟨k, hk⟩ := hlog.exists_newest_iff.mpr hfits
  obtain rfl := (hfound k).mpr hk
  rw [wp_bind]
  refine wp_of_ok hrun ?_
  rw [wp_bind, wp_ok_iff (assert_run (Option.isSome_some (a := k))), wp_pure]
  exact ⟨k, rfl, (Contents.newestAt_congr hsame k).mp hk, ⟨x, y, rfl⟩, hwrites.placing x y, herased,
    .of_foundIn hplace rfl rfl⟩

/-- What the copy-back unit is still in use for was programmed. -/
theorem WentBack.programmed {eus : Set Nat} {k : Nat} (h : WentBack w c' eus k t)
    (hres : w.segMap.ReservesInChip) (hvalid : w.flash.copyBackEu w.segMap ≠ phyAddressEmpty)
    (hused : ¬w.flash.IsFree (w.flash.copyBackEu w.segMap) →
      w.flash.mainAreaWrites (w.flash.copyBackEu w.segMap) = true) :
    ¬t.flash.IsFree (t.flash.copyBackEu t.segMap) →
      t.flash.mainAreaWrites (t.flash.copyBackEu t.segMap) = true := by
  obtain ⟨x, y, hmap⟩ := h.map
  have hcb : t.flash.copyBackEu t.segMap = t.flash.copyBackEu w.segMap := by
    rw [hmap]
    rfl
  have hsame : t.flash.copyBackEu w.segMap = w.flash.copyBackEu w.segMap :=
    Flash.validEuAt_congr h.erased.badEu _ _
  rw [hcb]
  intro hbusy
  have hno := mt (h.erased.copyBackFree_iff hres hvalid).mpr fun hfree => hbusy hfree.free
  obtain ⟨hbefore, hkept⟩ := not_or.mp hno
  rw [hsame, (h.erased.first (hres.isEu_reserve (Flash.copyBackEu_mem hvalid)) hkept).2]
  exact hused fun hfree => hbefore ⟨hvalid, hfree⟩

/-- Once the current segment is erased the copy-back unit comes free as it did before, or it was
erased too. -/
theorem WentBack.comesFree_iff {eus : Set Nat} {k : Nat} (h : WentBack w c' eus k t)
    (hres : w.segMap.ReservesInChip) (hvalid : w.flash.copyBackEu w.segMap ≠ phyAddressEmpty)
    (slot : Nat) : t.CopyBackComesFree slot k ↔
      w.CopyBackComesFree slot k ∨ w.flash.copyBackEu w.segMap ∈ eus := by
  obtain ⟨x, y, hmap⟩ := h.map
  have hcb : t.flash.copyBackEu t.segMap = w.flash.copyBackEu w.segMap := by
    rw [hmap]
    exact Flash.validEuAt_congr h.erased.badEu _ _
  have hfree : CopyBackFree t.flash t.segMap ↔
      CopyBackFree w.flash w.segMap ∨ w.flash.copyBackEu w.segMap ∈ eus := by
    rw [← h.erased.copyBackFree_iff hres hvalid]
    exact copyBackFree_congr (by rw [hmap]; rfl)
  have hhomes : HomesOf t.flash t.segMap slot (Set.Ioi (k / pagesPerEu)) =
      HomesOf t.flash w.segMap slot (Set.Ioi (k / pagesPerEu)) := by
    rw [hmap]
    exact homesOf_congr fun _ _ => rfl
  unfold World.CopyBackComesFree
  rw [hfree, hcb, hhomes]
  by_cases hmem : w.flash.copyBackEu w.segMap ∈ eus
  · exact iff_of_true (.inl (.inr hmem)) (.inr hmem)
  · have hhome : w.flash.copyBackEu w.segMap ∈ HomesOf t.flash w.segMap slot (Set.Ioi (k / pagesPerEu)) ↔
        w.flash.copyBackEu w.segMap ∈ HomesOf w.flash w.segMap slot (Set.Ioi (k / pagesPerEu)) :=
      exists_congr fun e => and_congr_right fun _ => and_congr_right fun _ =>
        h.erased.isHome_iff hres hmem
    rw [hhome, or_iff_left hmem, or_iff_left hmem]

end Back

/-! ## A checkpoint of one page exactly -/

section OnePage
variable {w : World}

theorem Frame.noLastPage {α : Type} {m : SeqM α} (h : Frame (fun w : World => w.flash.page) m) :
    Preserves World.NoLastPage m :=
  h.preserves fun page => ∀ a < pageCount, (page a).flags.checkpoint ≠ .last

theorem preserves_noLastPage_nandErase (a : Nat) : Preserves World.NoLastPage (nandErase a) := by
  refine preserves_bind (Frame.noLastPage (frame_getFp a)) fun _ =>
    preserves_ite (fun _ => preserves_pure _) fun _ => ?_
  refine preserves_bind (Frame.noLastPage (frame_nandCheckEuStatus _)) fun _ =>
    preserves_ite (fun _ => ?_) fun _ => preserves_pure _
  refine preserves_bind (Frame.noLastPage frame_page_spendPower) fun _ =>
    preserves_bind (preserves_modify fun w hw b hb => ?_) fun _ => preserves_pure _
  show (if calcEuStart b = calcEuStart a then initBuf else w.flash.page b).flags.checkpoint ≠ .last
  split
  · exact CpLocation.noConfusion
  · exact hw b hb

theorem preserves_noLastPage_truncateCurrentSegment :
    Preserves World.NoLastPage truncateCurrentSegment := by
  have hmodify : ∀ f, Preserves World.NoLastPage (modifySegMap f) := fun f =>
    preserves_modify fun _ hw => hw
  have hloop : ∀ n, Preserves World.NoLastPage (truncateCurrentSegmentLoop n) := by
    intro n
    induction n with
    | zero => exact preserves_pure 0
    | succ n ih =>
      refine preserves_bind (Frame.noLastPage frame_getSegMap) fun m => ?_
      refine preserves_bind (Frame.noLastPage (frame_logicalAddressToPhysical _)) fun a => ?_
      refine preserves_bind (preserves_noLastPage_nandErase a) fun res => ?_
      refine preserves_ite (fun _ => preserves_bind (hmodify _) fun _ => preserves_pure 1) fun _ => ?_
      exact preserves_ite (fun _ => preserves_bind (hmodify _) fun _ => ih) fun _ => preserves_pure 0
  exact preserves_bind (Frame.noLastPage frame_getSegMap) fun m => hloop _

/-- Then the search for a last page finds nothing. -/
theorem World.NoLastPage.search (h : w.NoLastPage) (segment o : Nat) :
    wp (findCheckpointInSegment segment true o) (fun r t => r = none ∧ t.NoLastPage)
      (fun _ _ => True) w := by
  induction o with
  | zero => exact ⟨rfl, h⟩
  | succ o ih =>
    have hreads : Frame id (logicalAddressToPhysical ⟨segment, o + 1⟩) :=
      frame_logicalAddressToPhysical _
    unfold findCheckpointInSegment
    rw [wp_bind]
    refine hreads.wp (fun a t ht => ?_) fun _ _ _ => trivial
    obtain rfl : t = w := ht
    rw [wp_bind]
    refine wp_assert (fun _ => ?_) trivial
    rw [wp_bind]
    refine wp_nandReadPageFlags (fun ha => ?_) trivial
    rw [if_pos rfl, if_neg (h a ha)]
    exact ih

/-- And `returnToPrevCheckpoint` either halts or has no segment left to go back to. -/
theorem World.NoLastPage.returnToPrevCheckpoint (h : w.NoLastPage) :
    wp (returnToPrevCheckpoint true) (fun r _ => r = none) (fun _ _ => True) w := by
  unfold NandFs.returnToPrevCheckpoint
  refine preserves_noLastPage_truncateCurrentSegment.wp_bind h (fun _ t ht => ?_) fun _ _ _ => trivial
  rw [wp_bind, wp_modifySegMap, wp_bind, wp_modifySegMap, wp_bind, wp_modifySegMap, wp_bind,
    wp_getSegMap]
  refine wp_ite (fun _ => rfl) fun _ => ?_
  rw [wp_bind, wp_modifySegMap, wp_bind, wp_getSegMap]
  refine wp_seq (World.NoLastPage.search (by exact ht) _ _) ?_
  rintro r u ⟨rfl, -⟩
  rw [wp_bind]
  exact wp_assert (fun hsome => absurd hsome Bool.false_ne_true) trivial

end OnePage

/-! ## The whole search -/

section Start
variable {nBytes : Nat} {w : World} {c : Contents} (h : TailStart nBytes w c)
include h

theorem TailStart.data_current : w.segMap.IsDataSlot w.segMap.reclaimedSegmentSlot := by
  cases hrec : w.segMap.isStateReclamation with
  | true => exact (h.old hrec).1
  | false =>
    rw [h.growing hrec]
    exact h.data

/-- The head is in the current segment. -/
theorem TailStart.writesTo : WritesTo w c w.segMap.reclaimed.segment w.segMap.newSlotId where
  layout := h.layout
  data := h.data
  current := rfl
  newSlot := rfl
  mapped := h.data_current.ne_noSlot
  growing := h.growing
  le := h.le
  written := h.logged.written

/-- A torn header has no checkpoint. -/
theorem TailStart.torn (htorn : w.segMap.headOffset < headerPages nBytes) :
    ∀ k < w.segMap.headOffset, ¬c.CheckpointAt nBytes w.segMap.newSlotId k := by
  intro k hk hcp
  have := h.logged.exists_checkpoint_iff.mp ⟨k, hk, hcp⟩
  omega

/-- A segment that is not reclaimed is erased. -/
theorem TailStart.truncate_growing (htorn : w.segMap.headOffset < headerPages nBytes)
    (hrec : w.segMap.isStateReclamation = false)
    (hgood : w.segMap.headOffset % pagesPerEu = 0 →
      w.flash.good (euAt w.segMap.newSlotId (w.segMap.headOffset / pagesPerEu)) = true) :
    w.TruncatesTo (c.cut w.segMap.newSlotId 0) (HomesOf w.flash w.segMap w.segMap.newSlotId
      (Set.Iic (w.segMap.headOffset / pagesPerEu))) := by
  have hfits := h.fits
  have hl : w.segMap.headOffset < pagesPerSlot := by omega
  have hspec := truncateCurrentSegment_spec h.layout h.data (h.growing hrec) rfl hl fun e he => ?_
  · refine wp_mono hspec ?_ fun _ _ he => he
    rintro r t ⟨hr, hmap, hlay, herased⟩
    refine ⟨hr, hmap, hlay.congr_contents fun s _ o ho => ?_, herased⟩
    by_cases hs : s = w.segMap.newSlotId
    · subst hs
      rw [Contents.cut_of_le (Nat.zero_le o)]
      by_cases hmem : o / pagesPerEu ∈ List.range (w.segMap.headOffset / pagesPerEu + 1)
      · rw [Contents.clearEus_of_mem hmem]
      · rw [Contents.clearEus_of_not_mem hmem]
        by_contra hne
        have hlt := (h.logged.written o ho).mp (Ne.symm hne)
        refine hmem (List.mem_range.mpr (Nat.lt_succ_of_le ?_))
        exact Nat.div_le_div_right hlt.le
    · rw [Contents.cut_of_ne hs, Contents.clearEus_of_ne hs]
  · -- an erase unit behind whose start the head is has pages
    have he : e ≤ w.segMap.headOffset / pagesPerEu := he
    have hdiv := div_mul_add_mod w.segMap.headOffset
    have hmul := Nat.mul_le_mul_right pagesPerEu he
    by_cases hlt : e * pagesPerEu < w.segMap.headOffset
    · refine .inr fun hblank => ?_
      exact (h.logged.written _ (by omega)).mpr hlt (hblank 0 pagesPerEu_pos)
    · have hzero : w.segMap.headOffset % pagesPerEu = 0 := by omega
      obtain rfl : e = w.segMap.headOffset / pagesPerEu := by
        refine Nat.le_antisymm he ?_
        rw [Nat.div_le_iff_le_mul_add_pred pagesPerEu_pos, Nat.mul_comm]
        omega
      exact .inl (hgood hzero)

/-- In reclamation the old slot is erased. -/
theorem TailStart.truncate_reclaimed (htorn : w.segMap.headOffset < headerPages nBytes)
    (hrec : w.segMap.isStateReclamation = true) :
    w.TruncatesTo (c.clearEus w.segMap.reclaimedSegmentSlot
        (List.range (w.segMap.headOffset / pagesPerEu + 1)))
      (HomesOf w.flash w.segMap w.segMap.reclaimedSegmentSlot
        (Set.Iic (w.segMap.headOffset / pagesPerEu))) := by
  have hfits := h.fits
  obtain ⟨hdata, hfull⟩ := h.old hrec
  have hl : w.segMap.headOffset < pagesPerSlot := by omega
  refine truncateCurrentSegment_spec h.layout hdata rfl rfl hl fun e he => .inr fun hblank => ?_
  have hlt := offset_lt (Nat.lt_of_le_of_lt he (div_lt_eusPerSlot hl)) pagesPerEu_pos
  exact (hfull _ hlt).mpr hlt (hblank 0 pagesPerEu_pos)

/-- The test for a log that has one segment only, whose header is torn. -/
theorem TailStart.first_iff : (w.segMap.nSegments = 1 ∧
      (w.segMap.reclaimed.offset + (2 ^ 32 - 1)) % 2 ^ 32 <
        1 + calculateInPages (seqCheckpointSize + nBytes) - 1) ↔
    w.segMap.nSegments = 1 ∧ w.segMap.headOffset < headerPages nBytes := by
  have hpos : 0 < w.segMap.reclaimed.offset := h.pos
  have hle : w.segMap.reclaimed.offset ≤ pagesPerSlot := h.le
  have := pagesPerSlot_le
  have hmod : (w.segMap.reclaimed.offset + (2 ^ 32 - 1)) % 2 ^ 32 = w.segMap.reclaimed.offset - 1 := by
    omega
  rw [hmod, headerPages_eq]
  refine and_congr_right fun _ => ?_
  show w.segMap.reclaimed.offset - 1 < 1 + checkpointPages nBytes - 1 ↔
    w.segMap.reclaimed.offset < checkpointPages nBytes + 1
  omega

/-- The last page before the head. -/
theorem TailStart.lastValid_eq : w.segMap.reclaimed.decOffset =
    ⟨w.segMap.reclaimed.segment, w.segMap.headOffset - 1⟩ := by
  have hpos : 0 < w.segMap.reclaimed.offset := h.pos
  have hle : w.segMap.reclaimed.offset ≤ pagesPerSlot := h.le
  have := pagesPerSlot_le
  have hmod : (w.segMap.reclaimed.offset + 4095) % 4096 = w.segMap.reclaimed.offset - 1 := by omega
  rw [LogAddr.decOffset, LogAddr.setOffset, hmod]

/-- The first search, where a checkpoint does not take one page exactly. -/
theorem TailStart.search_run (hfit : Fitting nBytes) :
    ∃ found x y, findCheckpointInSegment w.segMap.reclaimed.segment
        (isCheckpointMoreThanOnePage nBytes) (w.segMap.headOffset - 1) w =
        .ok found { w with segMap := w.segMap.placing x y } ∧
      (∀ k, found = some k ↔ c.NewestAt nBytes w.segMap.newSlotId w.segMap.headOffset k) ∧
      FoundIn w w.segMap.newSlotId found x y :=
  h.logged.search_run h.layout h.data h.writesTo.looksUp h.logged.written h.le h.pos hfit

/-- Where the first search finds a checkpoint the rest of `findCheckpointAndTruncate` cuts behind it. -/
theorem TailStart.current_run {k : Nat} (hfit : Fitting nBytes)
    (hk : c.NewestAt nBytes w.segMap.newSlotId w.segMap.headOffset k) (data : Nat → UInt8) :
    ∃ x y pending, findCheckpointAndTruncate data nBytes w =
        truncateAfterCheckpoint nBytes data pending w.segMap.reclaimed.segment k
          (w.segMap.headOffset - 1) { w with segMap := w.segMap.placing x y } ∧
      FoundIn w w.segMap.newSlotId (some k) x y := by
  have hcur : w.segMap.reclaimed.segment ≠ noSegmentNum := Nat.ne_of_lt h.segment_lt
  have hheader := h.logged.exists_newest_iff.mp ⟨k, hk⟩
  obtain ⟨found, x, y, hrun, hfound, hplace⟩ := h.search_run hfit
  obtain rfl := (hfound k).mpr hk
  have hrest : ∃ pending, findCheckpointAndTruncate data nBytes w =
      truncateAfterCheckpoint nBytes data pending w.segMap.reclaimed.segment k
        (w.segMap.headOffset - 1) { w with segMap := w.segMap.placing x y } := by
    unfold findCheckpointAndTruncate
    rw [bind_ok (show getSegMap w = .ok w.segMap w from rfl)]
    dsimp only
    rw [if_neg hcur, if_neg (mt h.first_iff.mp fun hfirst => Nat.not_lt_of_le hheader hfirst.2),
      h.lastValid_eq, bind_ok hrun]
    exact ⟨_, rfl⟩
  obtain ⟨pending, hrest⟩ := hrest
  exact ⟨x, y, pending, hrest, hplace⟩

/-- What comes of it: the tail is cut, or halfway the copy-back unit is in use. -/
theorem TailStart.current_spec {k : Nat} (hfit : Fitting nBytes)
    (hk : c.NewestAt nBytes w.segMap.newSlotId w.segMap.headOffset k) (data : Nat → UInt8) :
    wp (findCheckpointAndTruncate data nBytes) (fun r t =>
        w.CutsRest w.segMap.newSlotId k (w.segMap.headOffset - 1) ∧ r.1 = 0 ∧
        t.segMap.reclaimed = ⟨w.segMap.reclaimed.segment, k + 1⟩ ∧
        t.segMap.newSlotId = w.segMap.newSlotId ∧ t.segMap.segToSlot = w.segMap.segToSlot ∧
        t.segMap.nSegments = w.segMap.nSegments ∧
        (Head t.flash t.segMap (c.cut w.segMap.newSlotId (k + 1)) ↔ ((k + 1) % pagesPerEu ≠ 0 →
          w.flash.good (euAt w.segMap.newSlotId (k / pagesPerEu)) = true →
            w.segMap.isEuReserve = false)))
      (fun e _ => w.CutsRest w.segMap.newSlotId k (w.segMap.headOffset - 1) → e = .powerLoss) w := by
  obtain ⟨x, y, pending, hrun, hplace⟩ := h.current_run hfit hk data
  have hpos := h.pos
  have hlt := hk.1
  have hwrites := h.writesTo.placing x y
  have hfree : World.CutsRest { w with segMap := w.segMap.placing x y } w.segMap.newSlotId k
      (w.segMap.headOffset - 1) ↔ w.CutsRest w.segMap.newSlotId k (w.segMap.headOffset - 1) := by
    have hhomes : HomesOf w.flash (w.segMap.placing x y) w.segMap.newSlotId (Set.Ioi (k / pagesPerEu)) =
        HomesOf w.flash w.segMap w.segMap.newSlotId (Set.Ioi (k / pagesPerEu)) :=
      homesOf_congr fun _ _ => rfl
    unfold World.CutsRest World.CopyBackComesFree
    rw [hhomes, copyBackFree_congr
      (show (w.segMap.placing x y).segToSlot = w.segMap.segToSlot from rfl)]
    exact Iff.rfl
  unfold wp
  rw [hrun]
  refine wp_mono (hwrites.truncate_cases hfit ?_ (by omega) hk.2.1 h.copyBack h.programmed data
    pending) ?_ ?_
  · show w.segMap.headOffset = _
    omega
  · rintro r t ⟨hcb, hr, hmap, hcut, hkeeps⟩
    have hfound := HeadFound.of_foundIn hplace (u := w) rfl rfl
    have hfound := hfound.keep hkeeps (by rw [hmap]) (by rw [hmap])
    have hwrites' := hwrites.headAt hlt hmap hcut
    have hvalid : t.flash.copyBackEu t.segMap ≠ phyAddressEmpty := by
      rw [hmap, Flash.copyBackEu, Flash.validEuAt_congr hkeeps.badEu]
      exact h.copyBack
    refine ⟨hfree.mp hcb, hr, by rw [hmap], by rw [hmap]; rfl, by rw [hmap]; rfl, by rw [hmap]; rfl, ?_⟩
    rw [hwrites'.head_iff hfound (by rw [hmap]) hvalid h.notReserve, Flash.good_congr hkeeps.badEu]
  · exact fun _ _ he hcb => he (hfree.mpr hcb)

/-- Where the header is torn the first search finds nothing, and the map stays as it is. -/
theorem TailStart.torn_run (hfit : Fitting nBytes) (htorn : w.segMap.headOffset < headerPages nBytes) :
    findCheckpointInSegment w.segMap.reclaimed.segment (isCheckpointMoreThanOnePage nBytes)
      (w.segMap.headOffset - 1) w = .ok none w := by
  obtain ⟨found, x, y, hrun, hfound, hplace⟩ := h.search_run hfit
  cases hplace with
  | none => exact hrun
  | good => exact absurd (h.logged.exists_newest_iff.mp ⟨_, (hfound _).mp rfl⟩) (Nat.not_le_of_lt htorn)
  | bad => exact absurd (h.logged.exists_newest_iff.mp ⟨_, (hfound _).mp rfl⟩) (Nat.not_le_of_lt htorn)

/-- What is left to do once the current segment is erased. -/
theorem TailStart.previous_run {eus : Set Nat} {c' : Contents} (hfit : Fitting nBytes)
    (htorn : w.segMap.headOffset < headerPages nBytes) (hone : w.segMap.nSegments ≠ 1)
    (htruncate : w.TruncatesTo c' eus)
    (hsame : c' (w.segMap.segToSlot w.segMap.previouslyWrittenSegment) =
      c (w.segMap.segToSlot w.segMap.previouslyWrittenSegment)) (data : Nat → UInt8)
    {Q : Nat × (Nat → UInt8) × Bool → World → Prop} {E : Halt → World → Prop}
    (hE : ∀ t, E .powerLoss t)
    (hq : ∀ t k pending,
      c.NewestAt nBytes (w.segMap.segToSlot w.segMap.previouslyWrittenSegment) pagesPerSlot k →
      WentBack w c' eus k t →
      wp (truncateAfterCheckpoint nBytes data pending w.segMap.previouslyWrittenSegment k
        (pagesPerSlot - 1)) Q E t) : wp (findCheckpointAndTruncate data nBytes) Q E w := by
  have hcur : w.segMap.reclaimed.segment ≠ noSegmentNum := Nat.ne_of_lt h.segment_lt
  have hmore : 1 < w.segMap.nSegments := by
    have := h.segments_pos
    omega
  have hback := returnToPrevCheckpoint_spec htruncate (h.previous htorn hone) hsame hfit h.fits hmore
    h.segments_le
  unfold findCheckpointAndTruncate
  rw [wp_bind, wp_getSegMap]
  dsimp only
  rw [if_neg hcur, if_neg fun hfirst => hone hfirst.1, h.lastValid_eq, wp_bind,
    wp_ok_iff (h.torn_run hfit htorn)]
  dsimp only
  refine wp_seq (wp_mono hback (fun _ _ hr => hr) fun e t he => he ▸ hE t) ?_
  rintro r t ⟨k, rfl, hk, hwent⟩
  dsimp only
  rw [wp_bind, wp_getSegMap,
    if_neg (show ¬(none : Option Nat).isSome = true from Bool.false_ne_true)]
  exact hq t k _ hk hwent

/-- Where the header is torn the current segment is erased, and the one written before it is cut
behind its newest checkpoint; or halfway the copy-back unit is in use. -/
theorem TailStart.previous_spec {eus : Set Nat} {c' : Contents} (hfit : Fitting nBytes)
    (htorn : w.segMap.headOffset < headerPages nBytes) (hone : w.segMap.nSegments ≠ 1)
    (htruncate : w.TruncatesTo c' eus)
    (hsame : c' (w.segMap.segToSlot w.segMap.previouslyWrittenSegment) =
      c (w.segMap.segToSlot w.segMap.previouslyWrittenSegment)) (data : Nat → UInt8)
    {slot : Nat} (hslot : slot = w.segMap.segToSlot w.segMap.previouslyWrittenSegment) {k : Nat}
    (hk : c.NewestAt nBytes slot pagesPerSlot k) {ready : Prop}
    (hready : ready ↔ (k + 1 ≠ pagesPerSlot → (k + 1) % pagesPerEu ≠ 0 →
      w.CopyBackComesFree slot k ∨ w.flash.copyBackEu w.segMap ∈ eus)) :
    wp (findCheckpointAndTruncate data nBytes) (fun r t => ready ∧ r.1 = 0 ∧
        (∃ x y, t.segMap = { (w.segMap.rolledBack pagesPerSlot).placing x y with
          reclaimed := ⟨w.segMap.previouslyWrittenSegment, k + 1⟩ }) ∧
        Layout t.flash t.segMap (c'.cut slot (k + 1)) ∧
        (Head t.flash t.segMap (c'.cut slot (k + 1)) ↔ ((k + 1) % pagesPerEu ≠ 0 →
          w.flash.good (euAt slot (k / pagesPerEu)) = true → w.segMap.isEuReserve = false)))
      (fun e _ => ready → e = .powerLoss) w := by
  subst hslot
  have hpps := pagesPerSlot_pos
  refine h.previous_run (E := fun e _ => ready → e = .powerLoss) hfit htorn hone htruncate hsame data
    (fun _ _ => rfl) ?_
  intro t k' pending hk' hwent
  obtain rfl := hk'.unique hk
  obtain ⟨x, y, hmap⟩ := hwent.map
  have hlt := hk.1
  have hcb : t.flash.copyBackEu t.segMap = w.flash.copyBackEu w.segMap := by
    rw [hmap]
    exact Flash.validEuAt_congr hwent.erased.badEu _ _
  have hrest : t.CutsRest (w.segMap.segToSlot w.segMap.previouslyWrittenSegment) k' (pagesPerSlot - 1) ↔
      ready := by
    rw [hready, World.CutsRest, hwent.comesFree_iff h.layout.reserves h.copyBack]
    have hne : k' ≠ pagesPerSlot - 1 ↔ k' + 1 ≠ pagesPerSlot := by omega
    rw [hne]
  refine wp_mono (hwent.writes.truncate_cases hfit (l := pagesPerSlot - 1) ?_ (by omega)
    ((Contents.checkpointAt_congr hsame k').mpr hk.2.1) (by rw [hcb]; exact h.copyBack) ?_ data
    pending) ?_ ?_
  · rw [hmap]
    exact (Nat.sub_add_cancel hpps).symm
  · exact hwent.programmed h.layout.reserves h.copyBack h.programmed
  · rintro r u ⟨hrest', hr, humap, hcut, hkeeps⟩
    have hwrites := hwent.writes.headAt (by rw [hmap]; exact hlt) humap hcut
    have hfound := hwent.found.keep hkeeps (by rw [humap]) (by rw [humap])
    have hbad := hkeeps.badEu.trans hwent.erased.badEu
    have hvalid : u.flash.copyBackEu u.segMap ≠ phyAddressEmpty := by
      rw [humap, hmap, Flash.copyBackEu, Flash.validEuAt_congr hbad]
      exact h.copyBack
    have hhead := hwrites.head_iff hfound (by rw [humap]) hvalid h.notReserve
    rw [Flash.good_congr hbad] at hhead
    rw [hmap] at humap
    exact ⟨hrest.mp hrest', hr, ⟨x, y, humap⟩, hcut, hhead⟩
  · exact fun _ _ he hr => he (hrest.mpr hr)

/-- Where there is no other segment a torn one is erased, and that is all. -/
theorem TailStart.first_spec (hone : w.segMap.nSegments = 1)
    (htorn : w.segMap.headOffset < headerPages nBytes) (data : Nat → UInt8)
    {Q : Nat → World → Prop} {E : Halt → World → Prop}
    (htruncate : wp truncateCurrentSegment (fun _ t => Q errorNoCp t) E w) :
    wp (findCheckpointAndTruncate data nBytes) (fun r t => Q r.1 t) E w := by
  have hcur : w.segMap.reclaimed.segment ≠ noSegmentNum := Nat.ne_of_lt h.segment_lt
  unfold findCheckpointAndTruncate
  rw [wp_bind, wp_getSegMap]
  dsimp only
  rw [if_neg hcur, if_pos (h.first_iff.mpr ⟨hone, htorn⟩)]
  refine wp_seq htruncate fun r t hq => ?_
  rw [wp_pure]
  exact hq

/-- Where neither search finds a checkpoint there is none. -/
theorem TailStart.none_spec (hfirst : ¬(w.segMap.nSegments = 1 ∧
      w.segMap.headOffset < headerPages nBytes)) (data : Nat → UInt8)
    {P : World → Prop} {Q : Nat → World → Prop} {E : Halt → World → Prop}
    (hsearch : wp (findCheckpointInSegment w.segMap.reclaimed.segment
      (isCheckpointMoreThanOnePage nBytes) (w.segMap.headOffset - 1))
      (fun found t => found = none ∧ P t) E w)
    (hback : ∀ t, P t → wp (returnToPrevCheckpoint (isCheckpointMoreThanOnePage nBytes))
      (fun found u => found = none ∧ Q errorNoCp u) E t) :
    wp (findCheckpointAndTruncate data nBytes) (fun r t => Q r.1 t) E w := by
  have hcur : w.segMap.reclaimed.segment ≠ noSegmentNum := Nat.ne_of_lt h.segment_lt
  unfold findCheckpointAndTruncate
  rw [wp_bind, wp_getSegMap]
  dsimp only
  rw [if_neg hcur, if_neg (mt h.first_iff.mp hfirst), h.lastValid_eq]
  refine wp_seq hsearch ?_
  rintro found t ⟨rfl, ht⟩
  dsimp only
  refine wp_seq (hback t ht) ?_
  rintro found u ⟨rfl, hu⟩
  dsimp only
  rw [wp_pure]
  exact hu

/-- At the start of an erase unit that is bad `truncateCurrentSegment` halts. -/
theorem TailStart.truncate_halts (htorn : w.segMap.headOffset < headerPages nBytes)
    (hrec : w.segMap.isStateReclamation = false) (hstart : w.segMap.headOffset % pagesPerEu = 0)
    (hbad : w.flash.good (euAt w.segMap.newSlotId (w.segMap.headOffset / pagesPerEu)) = false) :
    wp truncateCurrentSegment (fun _ _ => False) (fun _ _ => True) w := by
  have hfits := h.fits
  have hl : w.segMap.headOffset < pagesPerSlot := by omega
  refine truncateCurrentSegment_halts h.layout h.data (h.growing hrec) rfl hl hbad fun i hi => ?_
  have hdiv := div_mul_add_mod w.segMap.headOffset
  by_contra hne
  have hlt := (h.logged.written _ (offset_lt (div_lt_eusPerSlot hl) hi)).mp hne
  have hlt : w.segMap.headOffset / pagesPerEu * pagesPerEu + i < w.segMap.headOffset := hlt
  omega

/-- What erases the first page of the old slot does not cut the tail. -/
theorem TailStart.not_cutsTail (htorn : w.segMap.headOffset < headerPages nBytes)
    (hrec : w.segMap.isStateReclamation = true) {t : World} {c' : Contents} {r : Nat}
    (hlay : Layout t.flash t.segMap c') (hnone : c' w.segMap.reclaimedSegmentSlot 0 = none)
    (hmap : t.segMap.segToSlot = w.segMap.segToSlot) : ¬CutsTail nBytes w c r t := by
  obtain ⟨hdata, hfull⟩ := h.old hrec
  have hpps := pagesPerSlot_pos
  have hpage : c w.segMap.reclaimedSegmentSlot 0 ≠ none := (hfull 0 hpps).mpr hpps
  have hnew : w.segMap.reclaimedSegmentSlot ≠ w.segMap.newSlotId := by
    unfold SegMap.isStateReclamation at hrec
    exact (bne_iff_ne.mp ((Bool.and_eq_true _ _).mp hrec).2).symm
  have hdata' : t.segMap.IsDataSlot w.segMap.reclaimedSegmentSlot := by
    refine ⟨hdata.lt, fun seg hseg => ?_⟩
    rw [hmap]
    exact hdata.data seg hseg
  -- a layout has the page in one way
  have hkept : ∀ {c'' : Contents}, Layout t.flash t.segMap c'' →
      c'' w.segMap.reclaimedSegmentSlot 0 = none := by
    intro c'' hlay'
    rw [hlay'.contents_unique hlay hdata' hpps, hnone]
  intro hcuts
  cases hcuts with
  | current newest head newSlot mapped segments cut =>
    exact h.torn htorn _ newest.1 newest.2.1
  | previous none more newest head newSlot mapped segments cut =>
    refine hpage ?_
    have hkeep := hkept cut.layout
    rwa [Contents.cut_of_ne (h.previous htorn more).ne_old.symm, Contents.cut_of_ne hnew] at hkeep
  | first none one cut =>
    refine hpage ?_
    have hkeep := hkept cut
    rwa [Contents.cut_of_ne hnew] at hkeep

/-- In reclamation a torn header is not erased, but the old generation is. -/
theorem TailStart.loses_old (hsize : Fitting nBytes ∨ w.segMap.nSegments = 1)
    (htorn : w.segMap.headOffset < headerPages nBytes)
    (hrec : w.segMap.isStateReclamation = true) (data : Nat → UInt8) :
    wp (findCheckpointAndTruncate data nBytes) (fun r t => ¬CutsTail nBytes w c r.1 t)
      (fun _ _ => True) w := by
  have hnone : c.clearEus w.segMap.reclaimedSegmentSlot
      (List.range (w.segMap.headOffset / pagesPerEu + 1)) w.segMap.reclaimedSegmentSlot 0 = none := by
    refine Contents.clearEus_of_mem ?_
    rw [Nat.zero_div]
    exact List.mem_range.mpr (Nat.succ_pos _)
  by_cases hone : w.segMap.nSegments = 1
  · refine h.first_spec hone htorn data (Q := fun r t => ¬CutsTail nBytes w c r t)
      (wp_mono (h.truncate_reclaimed htorn hrec) ?_ ?_)
    · rintro r t ⟨-, hmap, hlay, -⟩
      exact h.not_cutsTail htorn hrec hlay hnone (by rw [hmap])
    · exact fun _ _ _ => trivial
  · have hprev := h.previous htorn hone
    obtain ⟨k, hk⟩ := hprev.logged.exists_newest_iff.mpr h.fits
    refine wp_mono (h.previous_spec (hsize.resolve_right hone) htorn hone
      (h.truncate_reclaimed htorn hrec) ?_ data rfl hk Iff.rfl) ?_ ?_
    · funext o
      exact Contents.clearEus_of_ne hprev.ne_old o
    · rintro r t ⟨-, -, ⟨x, y, hmap⟩, hlay, -⟩
      refine h.not_cutsTail htorn hrec hlay ?_ (by rw [hmap]; rfl)
      rw [Contents.cut_of_ne hprev.ne_old.symm, hnone]
    · exact fun _ _ _ => trivial

/-- A torn header that ends where a bad erase unit begins is not erased. -/
theorem TailStart.halts (hsize : Fitting nBytes ∨ w.segMap.nSegments = 1)
    (htorn : w.segMap.headOffset < headerPages nBytes)
    (hrec : w.segMap.isStateReclamation = false) (hstart : w.segMap.headOffset % pagesPerEu = 0)
    (hbad : w.flash.good (euAt w.segMap.newSlotId (w.segMap.headOffset / pagesPerEu)) = false)
    (data : Nat → UInt8) :
    wp (findCheckpointAndTruncate data nBytes) (fun r t => ¬CutsTail nBytes w c r.1 t)
      (fun _ _ => True) w := by
  by_cases hone : w.segMap.nSegments = 1
  · refine h.first_spec hone htorn data (Q := fun r t => ¬CutsTail nBytes w c r t)
      (wp_mono (h.truncate_halts htorn hrec hstart hbad) ?_ ?_)
    · exact fun _ _ hfalse => hfalse.elim
    · exact fun _ _ _ => trivial
  · have hsearch := h.torn_run (hsize.resolve_right hone) htorn
    refine h.none_spec (fun hfirst => hone hfirst.1) data (Q := fun r t => ¬CutsTail nBytes w c r t)
      (P := fun t => t = w) (wp_of_ok hsearch ⟨rfl, rfl⟩) ?_
    rintro t rfl
    unfold returnToPrevCheckpoint
    refine wp_seq (h.truncate_halts htorn hrec hstart hbad) ?_
    exact fun _ _ hfalse => hfalse.elim

/-- A checkpoint that takes one page exactly is not found. -/
theorem TailStart.finds_none (hfit : ¬Fitting nBytes) (hfirst : ¬(w.segMap.nSegments = 1 ∧
      w.segMap.headOffset < headerPages nBytes)) (data : Nat → UInt8) :
    wp (findCheckpointAndTruncate data nBytes) (fun r t => ¬CutsTail nBytes w c r.1 t)
      (fun _ _ => True) w := by
  have hsize : seqCheckpointSize + nBytes = pageSize := not_not.mp hfit
  have hmore : isCheckpointMoreThanOnePage nBytes = true :=
    decide_eq_true (by omega)
  have hpages : checkpointPages nBytes = 1 := by
    have hno : ¬1 < checkpointPages nBytes := by
      rw [lt_checkpointPages_iff]
      omega
    have := checkpointPages_pos nBytes
    omega
  refine h.none_spec hfirst data (Q := fun r t => ¬CutsTail nBytes w c r t) (P := World.NoLastPage) ?_
    fun t ht => ?_
  · rw [hmore]
    exact (h.onePage hpages).search _ _
  · rw [hmore]
    refine wp_mono ht.returnToPrevCheckpoint (fun r u hr => ⟨hr, fun hcuts => ?_⟩) fun _ _ _ => trivial
    -- an error, though the current segment has a checkpoint or there is another one
    cases hcuts with
    | first none one cut =>
      refine hfirst ⟨one, Nat.lt_of_not_le fun hle => ?_⟩
      obtain ⟨k, hk, hcp⟩ := h.logged.exists_checkpoint_iff.mpr hle
      exact none k hk hcp

/-- Where the log cannot go on behind the newest checkpoint the tail is not cut. -/
theorem TailStart.stays (hhead : w.segMap.headOffset < headerPages nBytes →
      w.segMap.isStateReclamation = false ∧ (w.segMap.headOffset % pagesPerEu = 0 →
        w.flash.good (euAt w.segMap.newSlotId (w.segMap.headOffset / pagesPerEu)) = true))
    (hsize : Fitting nBytes ∨ w.segMap.nSegments = 1 ∧ w.segMap.headOffset < headerPages nBytes)
    {slot n k : Nat} (hfound : NewestFound nBytes w c slot n k) (hno : ¬w.GoesOn nBytes slot n k)
    (data : Nat → UInt8) :
    wp (findCheckpointAndTruncate data nBytes) (fun r t => ¬CutsTail nBytes w c r.1 t)
      (fun _ _ => True) w := by
  cases hfound with
  | current header newest =>
    have hfit := hsize.resolve_right fun hfirst => Nat.not_lt_of_le header hfirst.2
    refine wp_mono (h.current_spec hfit newest data) ?_ fun _ _ _ => trivial
    rintro r t ⟨hcb, -, -, -, -, -, hplaced⟩ hcuts
    generalize r.1 = res at hcuts
    cases hcuts with
    | current newest' _ _ _ _ cut =>
      obtain rfl := newest'.unique newest
      refine hno fun hin => ⟨hplaced.mp cut hin, fun hne => .inl (hcb ?_ hin)⟩
      have := newest.1
      omega
    | previous none => exact none _ newest.1 newest.2.1
    | first none => exact none _ newest.1 newest.2.1
  | previous torn more newest =>
    have hfit := hsize.resolve_right fun hfirst => more hfirst.1
    have hprev := h.previous torn more
    obtain ⟨hrec, hgood⟩ := hhead torn
    refine wp_mono (h.previous_spec hfit torn more (h.truncate_growing torn hrec hgood) ?_ data rfl
      newest Iff.rfl) ?_ fun _ _ _ => trivial
    · funext o
      exact Contents.cut_of_ne hprev.ne_new o
    · rintro r t ⟨hcb, -, -, -, hplaced⟩ hcuts
      generalize r.1 = res at hcuts
      cases hcuts with
      | current newest' => exact h.torn torn _ newest'.1 newest'.2.1
      | previous _ _ newest' _ _ _ _ cut =>
        obtain rfl := newest'.unique newest
        exact hno fun hin => ⟨hplaced.mp cut hin, fun hne => (hcb hne hin).imp_right fun hmem =>
          ⟨torn, hmem⟩⟩
      | first _ one => exact more one

/-- `findCheckpointAndTruncate` cuts exactly the uncommitted tail where `World.Truncates` says so, and
stops only where the power is lost.  Where it does not say so the tail is not cut, whatever comes of
it. -/
theorem findCheckpointAndTruncate_cuts_iff (data : Nat → UInt8) :
    (w.Truncates nBytes c → wp (findCheckpointAndTruncate data nBytes)
      (fun r t => CutsTail nBytes w c r.1 t) (fun e _ => e = .powerLoss) w) ∧
    (¬w.Truncates nBytes c → wp (findCheckpointAndTruncate data nBytes)
      (fun r t => ¬CutsTail nBytes w c r.1 t) (fun _ _ => True) w) := by
  constructor
  · rintro ⟨hhead, hsize, hgoes⟩
    by_cases htorn : w.segMap.headOffset < headerPages nBytes
    · obtain ⟨hrec, hgood⟩ := hhead htorn
      by_cases hone : w.segMap.nSegments = 1
      · refine h.first_spec hone htorn data (wp_mono (h.truncate_growing htorn hrec hgood) ?_ ?_)
        · rintro r t ⟨-, -, hlay, -⟩
          exact .first (h.torn htorn) hone hlay
        · exact fun _ _ he => he
      · obtain ⟨k, hk⟩ := (h.previous htorn hone).logged.exists_newest_iff.mpr h.fits
        have hgoes := hgoes _ _ _ (.previous htorn hone hk)
        refine wp_mono (h.previous_spec (hsize.resolve_right fun hfirst => hone hfirst.1) htorn hone
          (h.truncate_growing htorn hrec hgood) ?_ data rfl hk Iff.rfl) ?_ ?_
        · funext o
          exact Contents.cut_of_ne (h.previous htorn hone).ne_new o
        · rintro r t ⟨-, hr, ⟨x, y, hmap⟩, -, hplaced⟩
          rw [hr]
          exact .previous (h.torn htorn) hone hk (by rw [hmap]) (by rw [hmap]; rfl) (by rw [hmap]; rfl)
            (by rw [hmap]; rfl) (hplaced.mpr fun hin => (hgoes hin).1)
        · exact fun _ _ he => he fun hne hin =>
            ((hgoes hin).2 hne).imp_right And.right
    · have hheader := Nat.le_of_not_lt htorn
      obtain ⟨k, hk⟩ := h.logged.exists_newest_iff.mpr hheader
      have hgoes := hgoes _ _ _ (.current hheader hk)
      refine wp_mono (h.current_spec (hsize.resolve_right fun hfirst => htorn hfirst.2) hk data) ?_ ?_
      · rintro r t ⟨-, hr, hhead, hnew, hmapped, hsegments, hplaced⟩
        rw [hr]
        exact .current hk hhead hnew hmapped hsegments (hplaced.mpr fun hin => (hgoes hin).1)
      · refine fun _ _ he => he fun hne hin => ?_
        have hlt := hk.1
        exact ((hgoes hin).2 (by omega)).resolve_right fun hin => htorn hin.1
  · intro hno
    by_cases hsize : Fitting nBytes ∨ w.segMap.nSegments = 1 ∧ w.segMap.headOffset < headerPages nBytes
    swap
    · obtain ⟨hfit, hfirst⟩ := not_or.mp hsize
      exact h.finds_none hfit hfirst data
    by_cases hhead : w.segMap.headOffset < headerPages nBytes → w.segMap.isStateReclamation = false ∧
        (w.segMap.headOffset % pagesPerEu = 0 →
          w.flash.good (euAt w.segMap.newSlotId (w.segMap.headOffset / pagesPerEu)) = true)
    · -- the log cannot go on behind the checkpoint
      have hgoes : ¬∀ slot n k, NewestFound nBytes w c slot n k → w.GoesOn nBytes slot n k :=
        fun hgoes => hno ⟨hhead, hsize, hgoes⟩
      simp only [not_forall] at hgoes
      obtain ⟨slot, n, k, hfound, hgoes⟩ := hgoes
      exact h.stays hhead hsize hfound hgoes data
    · -- the header is torn
      obtain ⟨htorn, hhead⟩ := Classical.not_imp.mp hhead
      have hsize := hsize.imp_right And.left
      cases hrec : w.segMap.isStateReclamation with
      | true => exact h.loses_old hsize htorn hrec data
      | false =>
        obtain ⟨hstart, hbad⟩ := Classical.not_imp.mp fun hgood => hhead ⟨hrec, hgood⟩
        exact h.halts hsize htorn hrec hstart (Bool.eq_false_iff.mpr hbad) data

end Start

/-! ## A test for the start -/

section Test

/-- The pages up to one with the flag of a last page are those of a checkpoint. -/
def Contents.lastTest (c : Contents) (nBytes slot n : Nat) : Bool :=
  let p := checkpointPages nBytes
  decide (∀ k < n, 0 < k → c.flagAt slot k = .last →
    p ≤ k ∧ ∀ i < p, c.flagAt slot (k + 1 - p + i) = setCpPageFlag i (p - 1))

/-- `TailStart` on a chip without bad erase units, for a segment with a header that is not
reclaimed. -/
def World.tailTest (nBytes : Nat) (w : World) : Bool :=
  let c := w.flash.contents w.segMap
  let m := w.segMap
  w.scanTest nBytes && c.lastTest nBytes m.newSlotId m.headOffset &&
  decide (w.flash.copyBackEu m ≠ phyAddressEmpty ∧ w.flash.good (w.flash.copyBackEu m) = true ∧
    (w.flash.page (w.flash.copyBackEu m)).flags.slotEuOffset = noSlotAndEuOffset ∧
    (m.isEuReserve = false → m.reserveEuAddr = phyAddressEmpty)) &&
  decide (m.reclaimed.segment < noSegmentNum ∧ 0 < m.nSegments ∧ m.nSegments ≤ segmentsCount ∧
    m.IsDataSlot m.newSlotId ∧ headerPages nBytes ≤ m.headOffset ∧ m.headOffset ≤ pagesPerSlot ∧
    m.isStateReclamation = false ∧ m.reclaimedSegmentSlot = m.newSlotId) &&
  decide (c.WrittenTo m.newSlotId m.headOffset ∧
    (∀ i < checkpointPages nBytes, i + 1 < m.headOffset →
      c.flagAt m.newSlotId (i + 1) = setCpPageFlag i (checkpointPages nBytes - 1)) ∧
    (checkpointPages nBytes = 1 → ∀ a < pageCount, (w.flash.page a).flags.checkpoint ≠ .last))

theorem Contents.lastTest_complete {c : Contents} {nBytes slot n : Nat}
    (h : c.lastTest nBytes slot n = true) :
    ∀ k < n, 0 < k → c.flagAt slot k = .last → c.CheckpointAt nBytes slot k := by
  intro k hk hpos hflag
  obtain ⟨hle, hpages⟩ := of_decide_eq_true h k hk hpos hflag
  have hp := checkpointPages_pos nBytes
  have hrun : CheckpointPages (c.flagAt slot) (checkpointPages nBytes) (k + 1 - checkpointPages nBytes)
      0 (k + 1 - checkpointPages nBytes + (checkpointPages nBytes - 1)) :=
    .of_consecutive (by omega) fun j hj => by
      have hpage := hpages j (by omega)
      rwa [Nat.zero_add]
  refine ⟨k + 1 - checkpointPages nBytes, by omega, ?_⟩
  rwa [show k + 1 - checkpointPages nBytes + (checkpointPages nBytes - 1) = k by omega] at hrun

theorem CopyBackFree.of_test {nBytes : Nat} {w : World} (h : w.tailTest nBytes = true) :
    CopyBackFree w.flash w.segMap := by
  unfold World.tailTest at h
  simp only [Bool.and_eq_true, decide_eq_true_eq] at h
  obtain ⟨⟨⟨-, hvalid, hgood, hflag, -⟩, -⟩, -⟩ := h
  exact ⟨hvalid, hgood, hflag⟩

theorem TailStart.of_test {nBytes : Nat} {w : World} (h : w.tailTest nBytes = true) :
    TailStart nBytes w (w.flash.contents w.segMap) := by
  unfold World.tailTest at h
  simp only [Bool.and_eq_true, decide_eq_true_eq] at h
  obtain ⟨⟨⟨⟨hscan, hlast⟩, hvalid, hgood, hflag, hnot⟩, hseg, hpos, hle, hdata, hheader, hfull, hrec,
    hslot⟩, hwritten, hpages, hone⟩ := h
  have hscan := Scannable.of_test hscan
  have hheaderPages := headerPages_eq nBytes
  exact ⟨hscan.layout, hvalid, fun hbusy => absurd ⟨hgood, hflag⟩ hbusy, hnot, hscan.fits, hseg, hpos,
    hle, hdata, by omega, hfull, ⟨hwritten, hpages, Contents.lastTest_complete hlast⟩, fun _ => hslot,
    fun hreclaim => absurd (hrec.symm.trans hreclaim) Bool.false_ne_true,
    fun htorn => absurd hheader (Nat.not_le_of_lt htorn), hone⟩

/-- A boot up to `findCheckpointAndTruncate`. -/
def World.beforeTruncate (nBytes : Nat) (w : World) : Option World :=
  match (do
    modifySegMap fun _ => initSegMap
    let (_, found) ← handleReserveSegments
    let _ ← handleDoubly found
    let _ ← handleCopyBack
    let _ ← handleRegularSegments nBytes
    let lastValid ← findLastValidPageInSlot (← getSegMap).newSlotId
    modifySegMap fun m => m.setReclaimedOffset (calcOffsetInSlot lastValid)
    handleInvalidPrograms lastValid (calculateInPages (nBytes + seqCheckpointSize) + 1) : SeqM Nat) w with
  | .ok _ t => some t
  | .error _ _ => none

end Test

end Tail

section TinyPage
attribute [local instance] tinyPage

/-- A page is written after the header, and the power is lost: the page is erased. -/
theorem findCheckpointAndTruncate_cuts_tinyPage : ∃ (w : World) (c : Contents),
    w.Truncates 48 c ∧ wp (findCheckpointAndTruncate (fun _ => 0) 48)
      (fun r t => CutsTail 48 w c r.1 t) (fun e _ => e = .powerLoss) w := by
  have hcheck : (((LogState.booted 48 (fun _ => 0) (erasedWorld fun _ => false)).bind
      (LogState.after 48 (fun _ => 0) [writeTiny 0])).bind fun s =>
        s.world.beforeTruncate 48).any (fun w => w.tailTest 48 && decide (w.segMap.headOffset = 7) &&
          !w.segMap.isEuReserve) = true := by
    decide +kernel
  obtain ⟨w, -, hcheck⟩ := (Option.any_eq_true _ _).mp hcheck
  simp only [Bool.and_eq_true, decide_eq_true_eq, Bool.not_eq_true'] at hcheck
  obtain ⟨⟨htest, hhead⟩, hgood⟩ := hcheck
  have htruncates : w.Truncates 48 (w.flash.contents w.segMap) := by
    refine ⟨fun htorn => ?_, .inl (show seqCheckpointSize + 48 ≠ pageSize by decide),
      fun slot n k _ _ => ⟨fun _ => hgood, fun _ => .inl (.inl (.of_test htest))⟩⟩
    rw [hhead] at htorn
    exact absurd htorn (by decide)
  exact ⟨w, _, htruncates,
    (findCheckpointAndTruncate_cuts_iff (TailStart.of_test htest) fun _ => 0).1 htruncates⟩

end TinyPage

section Page32

attribute [local instance] page32

/-- The chip is formatted with a checkpoint that takes one page exactly, and the power is lost: the
checkpoint is not found. -/
theorem findCheckpointAndTruncate_cuts_fails : ¬∀ (nBytes : Nat) (w : World) (c : Contents)
    (data : Nat → UInt8), TailStart nBytes w c →
    wp (findCheckpointAndTruncate data nBytes) (fun r t => CutsTail nBytes w c r.1 t)
      (fun e _ => e = .powerLoss) w := by
  intro hall
  have hcheck : ((LogState.booted 12 (fun _ => 0) (erasedWorld fun _ => false)).bind fun s =>
      s.world.beforeTruncate 12).any (fun w => w.tailTest 12 &&
        decide (w.segMap.headOffset = 2) &&
        match findCheckpointAndTruncate (fun _ => 0) 12 w with
        | .ok _ _ => true
        | .error _ _ => false) = true := by
    decide +kernel
  obtain ⟨w, -, hcheck⟩ := (Option.any_eq_true _ _).mp hcheck
  obtain ⟨hcheck, hends⟩ := (Bool.and_eq_true _ _).mp hcheck
  obtain ⟨htest, hhead⟩ := (Bool.and_eq_true _ _).mp hcheck
  have hhead : w.segMap.headOffset = 2 := of_decide_eq_true hhead
  have hstart : TailStart 12 w _ := .of_test htest
  split at hends
  · rename_i r t hrun
    have hsize : ¬Fitting 12 := not_not_intro (show seqCheckpointSize + 12 = pageSize by decide)
    have hmiss := hstart.finds_none hsize (fun hfirst => ?_) fun _ => 0
    · have hno := of_wp_ok hmiss hrun
      have hcuts := of_wp_ok (hall 12 w _ (fun _ => 0) hstart) hrun
      exact hno hcuts
    · rw [hhead] at hfirst
      exact absurd hfirst.2 (by decide)
  · exact absurd hends Bool.false_ne_true

end Page32

end NandFs
