import NandFs.CopyBackUnit
import NandFs.SlotScan
import NandFs.WearRuns

/-! # Two slots of one segment

A crash while a segment is reclaimed leaves two slots with its header: the older one, and the newer
one that its pages were being copied to.  `markSegmentInSegMap` tells them apart by their sequence
numbers when it meets the second one, and finishes the reclamation if the newer slot is complete.
The number in the second header is cut to 32 bits, the slot that is entered in the end is the one met
second, and a slot is taken for complete by where its last page lies on the chip.
-/
namespace NandFs

open Program

section Generations
variable [Config]

/-- The last of the `n` pages written to the slot lies at the end of a slot on the chip. -/
def World.EndsSlot (w : World) (slot n : Nat) : Prop :=
  ∃ home, IsHome w.flash w.segMap slot ((n - 1) / pagesPerEu) home ∧
    calcOffsetInSlot (home + (n - 1) % pagesPerEu) = maxLogicalOffset

/-- A chip with two generations of a segment, as a crash leaves it, before its slots are scanned:
the newer slot is written up to `n` pages and the older one is whole, or the newer slot is complete
and the older one erased from some erase unit on. -/
structure TwoGenerations (nBytes : Nat) (w : World) (c : Contents) (older newer n : Nat)
    (others : List Nat) : Prop where
  scannable : Scannable nBytes w.flash w.segMap c
  slots : OtherSlots nBytes c others
  older_data : w.segMap.IsDataSlot older
  newer_data : w.segMap.IsDataSlot newer
  ne : older ≠ newer
  older_not_mem : older ∉ others
  newer_not_mem : newer ∉ others
  segment : c.segOf older = c.segOf newer
  segment_lt : c.segOf newer < segmentsCount
  own : ∀ x ∈ others, c x 0 ≠ none → c.segOf x ≠ c.segOf newer
  older_seq : c.seqOf older < c.seqOf newer
  newest : ∀ x ∈ others, c x 0 ≠ none → c.seqOf x < c.seqOf newer
  pos : 0 < n
  le : n ≤ pagesPerSlot
  newer_written : c.WrittenTo newer n
  older_written : ∃ e, 0 < e ∧ e ≤ eusPerSlot ∧ c.WrittenTo older (e * pagesPerEu) ∧
    (n < pagesPerSlot → e = eusPerSlot)
  checkpoint : ∀ slot ∈ [older, newer], ∀ st,
    c slot (calculateInPages (seqCheckpointSize + nBytes)) = some st → st.checkpoint ≠ .notPart
  unmapped : ∀ seg < segmentsCount, w.segMap.segToSlot seg = noSlot
  reclaimed : segmentsCount ≤ w.segMap.reclaimed.segment
  newSlot : w.segMap.newSlotId ≠ newer

/-- The two generations are resolved: the segment has its older slot, and the newer one is the
current slot; or, if that was complete, it has its newer slot, and the older one is erased. -/
def Resolved (c : Contents) (older newer n : Nat) (t : World) : Prop :=
  if n < pagesPerSlot then
    t.segMap.segToSlot (c.segOf newer) = older ∧ t.segMap.newSlotId = newer ∧
      Layout t.flash t.segMap c
  else t.segMap.segToSlot (c.segOf newer) = newer ∧ Layout t.flash t.segMap (c.clear older)

/-- Where the scan resolves the two generations, by the order in which it meets them and the slots
`after` both. -/
def World.Resolves (w : World) (nBytes : Nat) (c : Contents) (older newer n : Nat) (olderFirst : Prop)
    (after : List Nat) : Prop :=
  if n < pagesPerSlot then
    c.HeaderComplete nBytes newer ∧ ¬w.EndsSlot newer n ∧
      (olderFirst → c.seqOf older < c.seqOf newer % 2 ^ 32 ∧
        ∀ x ∈ after, c x 0 ≠ none → c.seqOf x % 2 ^ 32 ≤ c.seqOf newer % 2 ^ 32) ∧
      (¬olderFirst → c.seqOf newer ≠ 0xffffffffffffffff ∨ ∀ x ∈ after, c x 0 = none)
  else
    (c.HeaderComplete nBytes older → olderFirst ∧ c.seqOf older < c.seqOf newer % 2 ^ 32 ∧
      w.EndsSlot newer n) ∧
    (¬c.HeaderComplete nBytes older → ∀ o < pagesPerSlot, pagesPerEu ≤ o → c older o = none)

/-! ## The second slot -/

section Second
variable {E : Halt → World → Prop} (hE : ∀ t, E .powerLoss t) {Q : Nat → World → Prop} {w : World}
  {c : Contents} {nBytes : Nat}

/-- The test by which `markSegmentInSegMap` takes a slot for complete. -/
theorem Scannable.lastValid_run {slot n : Nat} (h : Scannable nBytes w.flash w.segMap c)
    (hslot : w.segMap.IsDataSlot slot) (hw : c.WrittenTo slot n) (hpos : 0 < n)
    (hle : n ≤ pagesPerSlot) : ∃ a, findLastValidPageInSlot slot w = .ok a w ∧
      (calcOffsetInSlot a = maxLogicalOffset ↔ w.EndsSlot slot n) := by
  obtain ⟨home, hh, hrun⟩ := h.layout.findLastValidPageInSlot_run hslot hw hpos hle
  refine ⟨_, hrun, fun hend => ⟨home, hh, hend⟩, fun hends => ?_⟩
  obtain ⟨home', hh', hend⟩ := hends
  rwa [h.layout.home_unique hslot (div_lt_eusPerSlot (by omega)) hh hh']

include hE

/-- `truncateSlot` leaves a chip that can be scanned. -/
theorem Scannable.wp_truncateSlot {slot : Nat} (h : Scannable nBytes w.flash w.segMap c)
    (hslot : w.segMap.IsDataSlot slot)
    (hq : ∀ t, OnChip w t → Scannable nBytes t.flash t.segMap (c.clear slot) → Q 0 t) :
    wp (truncateSlot slot false) Q E w := by
  refine wp_truncateSlot_keeps hE (K := fun f => FirstPages f w.segMap)
    (fun he hh ht hkeep => hkeep.erase h.layout.reserves hslot he hh ht) h.layout hslot h.first
    fun t hon hlay hfirst => hq t hon ⟨hlay, ?_, h.fits, fun x hx => ?_, fun x hx hne eu hpos hlt => ?_,
      fun x hx => ?_⟩
  · rw [hon.segMap]
    exact hfirst
  · rw [Flash.validEuAt_congr hon.badEu]
    exact h.valid x hx
  · rw [hon.good, hon.good]
    rw [hon.segMap] at hx
    have hxs : x ≠ slot := by
      rintro rfl
      exact hne (Contents.clear_self 0)
    rw [Contents.clear_of_ne hxs] at hne
    exact h.header x hx hne eu hpos hlt
  · rw [hon.segMap] at hx
    have hxs : x ≠ slot := by
      rintro rfl
      exact hx hslot
    rw [Contents.clear_of_ne hxs]
    exact h.reserve x hx

/-- What `markGenerations` comes to: the slot `y` with the later number `q` becomes the current one.
If it is taken for complete the other slot `z` is erased, and the segment has the slot met second. -/
structure Generations (nBytes : Nat) (w : World) (c : Contents) (seg second y z q : Nat)
    (ends : Prop) (t : World) : Prop where
  others : ∀ seg', seg' ≠ seg → t.segMap.segToSlot seg' = w.segMap.segToSlot seg'
  newSlotId : t.segMap.newSlotId = y
  sequenceNum : t.segMap.sequenceNum = q
  done : ends → t.segMap.segToSlot seg = second ∧ Scannable nBytes t.flash t.segMap (c.clear z)
  going : ¬ends → t.segMap.segToSlot seg = z ∧ Scannable nBytes t.flash t.segMap c

theorem Scannable.wp_markGenerations {seg second s marked y z q n : Nat}
    (h : Scannable nBytes w.flash w.segMap c) (hseg : seg < segmentsCount)
    (hyz : s < marked ∧ y = w.segMap.segToSlot seg ∧ z = second ∧ q = marked ∨
      ¬s < marked ∧ y = second ∧ z = w.segMap.segToSlot seg ∧ q = s)
    (hy : w.segMap.IsDataSlot y) (hz : w.segMap.IsDataSlot z) (hw : c.WrittenTo y n) (hpos : 0 < n)
    (hle : n ≤ pagesPerSlot)
    (hq : ∀ t, Generations nBytes w c seg second y z q (w.EndsSlot y n) t → Q 0 t) :
    wp (markGenerations seg second s marked) Q E w := by
  -- the map before the search for the last page
  obtain ⟨m, hm, hnew, hseq, hslot, hothers⟩ : ∃ m : SegMap,
      (let m := { w.segMap.setReclaimedSegment seg with
        previouslyWrittenSegment := w.segMap.reclaimed.segment }
      if s < marked then
        { m with newSlotId := m.segToSlot seg, sequenceNum := marked }.setSlotForSeg second seg
      else { m with newSlotId := second, sequenceNum := s }) = m ∧ m.newSlotId = y ∧
      m.sequenceNum = q ∧ m.segToSlot seg = z ∧
      ∀ seg', seg' ≠ seg → m.segToSlot seg' = w.segMap.segToSlot seg' := by
    refine ⟨_, rfl, ?_⟩
    rcases hyz with ⟨hlt, rfl, rfl, rfl⟩ | ⟨hge, rfl, rfl, rfl⟩
    · dsimp only
      rw [if_pos hlt]
      exact ⟨rfl, rfl, Function.update_self _ _ _, fun seg' hne => Function.update_of_ne hne _ _⟩
    · dsimp only
      rw [if_neg hge]
      exact ⟨rfl, rfl, rfl, fun _ _ => rfl⟩
  have hres : ∀ r ∈ reserveSegments, m.segToSlot r = w.segMap.segToSlot r := by
    intro r hr
    have := segmentsCount_lt_reserve hr
    exact hothers r (by omega)
  have hscan : Scannable nBytes w.flash m c := h.congr hres
  have hends : World.EndsSlot { w with segMap := m } y n ↔ w.EndsSlot y n :=
    ⟨fun ⟨home, hh, hend⟩ => ⟨home, hh.congr fun r hr => (hres r hr).symm, hend⟩,
      fun ⟨home, hh, hend⟩ => ⟨home, hh.congr hres, hend⟩⟩
  have hy' := (SegMap.isDataSlot_congr hres).mpr hy
  obtain ⟨a, hrun, hlast⟩ := Scannable.lastValid_run (w := { w with segMap := m }) hscan hy' hw hpos hle
  rw [hends] at hlast
  unfold markGenerations
  rw [wp_bind, wp_modifySegMap, wp_bind, wp_modifySegMap]
  dsimp only at hm ⊢
  rw [hm, wp_bind, wp_getSegMap]
  dsimp only
  rw [hnew, wp_bind, wp_ok_iff hrun]
  refine wp_ite (fun hend => ?_) fun hno => ?_
  · have hend := hlast.mp hend
    rw [wp_bind, wp_getSegMap]
    dsimp only
    rw [hslot]
    refine wp_seqVerify (Scannable.wp_truncateSlot hE (w := { w with segMap := m }) hscan
      ((SegMap.isDataSlot_congr hres).mpr hz) fun t hon ht => ?_)
    have hmap : t.segMap = m := hon.segMap
    rw [if_neg (not_not_intro rfl), wp_bind, wp_modifySegMap, wp_pure]
    refine hq _ ⟨fun seg' hne => ?_, ?_, ?_, fun _ => ⟨Function.update_self _ _ _, ?_⟩,
      fun hno => absurd hend hno⟩
    · show (t.segMap.setSlotForSeg second seg).segToSlot seg' = _
      rw [hmap]
      exact (Function.update_of_ne hne _ _).trans (hothers seg' hne)
    · show t.segMap.newSlotId = y
      rw [hmap]
      exact hnew
    · show t.segMap.sequenceNum = q
      rw [hmap]
      exact hseq
    · refine ht.congr fun r hr => Function.update_of_ne ?_ _ _
      have := segmentsCount_lt_reserve hr
      omega
  · exact hq _ ⟨hothers, hnew, hseq, fun hend => absurd (hlast.mpr hend) hno, fun _ => ⟨hslot, hscan⟩⟩

/-- The scan meets the second slot of a segment, with a number that is not the one of the first. -/
theorem wp_scan_second {first second y z q n : Nat} {slots : List Nat}
    (h : Scannable nBytes w.flash w.segMap c) (hcur : w.segMap.CurrentInSlot)
    (hfirst : w.segMap.IsDataSlot first) (hsecond : w.segMap.IsDataSlot second)
    (hne : first ≠ second) (hfirst0 : c first 0 ≠ none) (hsecond0 : c second 0 ≠ none)
    (hmapped : w.segMap.segToSlot (c.segOf second) = first)
    (hseg : c.segOf second < segmentsCount) (hcomplete : c.HeaderComplete nBytes second)
    (hseq : c.seqOf first ≠ c.seqOf second % 2 ^ 32)
    (hyz : c.seqOf second % 2 ^ 32 < c.seqOf first ∧ y = first ∧ z = second ∧ q = c.seqOf first ∨
      ¬c.seqOf second % 2 ^ 32 < c.seqOf first ∧ y = second ∧ z = first ∧
        q = c.seqOf second % 2 ^ 32)
    (hw : c.WrittenTo y n) (hpos : 0 < n) (hle : n ≤ pagesPerSlot)
    (hq : ∀ t, Generations nBytes w c (c.segOf second) second y z q (w.EndsSlot y n) t →
      wp (scanRegularSlots nBytes slots) Q E t) :
    wp (scanRegularSlots nBytes (second :: slots)) Q E w := by
  have hslots := nSlots_le
  have hcount := segmentsCount_add
  have hmod : c.segOf second % 4096 = c.segOf second := Nat.mod_eq_of_lt (by omega)
  refine wp_scan_header h hsecond hsecond0 fun home hh => wp_seqVerify ?_
  obtain ⟨hsegId, hsequence⟩ := h.header_page hsecond hsecond0 hh
  obtain ⟨homeFirst, hhFirst⟩ := h.layout.exists_home hfirst pagesPerSlot_pos hfirst0
  have hexp : w.segMap.expectedPage ⟨c.segOf second, 0⟩ = calcAddress first 0 0 := by
    rw [hcur.expectedPage hseg, hmapped]
  have hnoSlot : w.segMap.segToSlot (c.segOf second) ≠ noSlot := by
    rw [hmapped]
    have := hfirst.lt
    unfold noSlot
    omega
  have haddr := h.layout.logicalAddressToPhysical_run hfirst (a := ⟨c.segOf second, 0⟩) hnoSlot
    pagesPerSlot_pos hexp hhFirst
  have hhFirst : IsHome w.flash w.segMap first 0 homeFirst := by
    rw [← Nat.zero_div pagesPerEu]
    exact hhFirst
  have heu := h.layout.isEu_home hfirst eusPerSlot_pos hhFirst
  have haddr : logicalAddressToPhysical ⟨c.segOf second, 0⟩ w = .ok homeFirst w := by
    rw [haddr]
    show EStateM.Result.ok (homeFirst + 0 % pagesPerEu) w = _
    rw [Nat.zero_mod, Nat.add_zero]
  have hfirstSeq := (h.header_page hfirst hfirst0 hhFirst).2
  unfold markSegmentInSegMap
  dsimp only
  rw [hsegId, hsequence, wp_bind, wp_ok_iff (h.verifyComplete_run hsecond hsecond0 hh hcomplete)]
  refine wp_ite (fun hno => absurd hno (by decide)) fun _ => ?_
  rw [wp_bind, wp_getSegMap, if_neg hnoSlot, hmapped, if_neg (Ne.symm hne), hmod, wp_bind,
    wp_ok_iff haddr, wp_bind, wp_ok_iff (assert_run (decide_eq_true heu.ne_empty)), wp_bind,
    wp_ok_iff (nandReadPageTotal_run heu.lt)]
  dsimp only
  rw [hfirstSeq, if_neg hseq]
  have hdata : w.segMap.IsDataSlot y ∧ w.segMap.IsDataSlot z := by
    rcases hyz with ⟨-, rfl, rfl, -⟩ | ⟨-, rfl, rfl, -⟩
    · exact ⟨hfirst, hsecond⟩
    · exact ⟨hsecond, hfirst⟩
  refine h.wp_markGenerations hE hseg (y := y) (z := z) (q := q) (n := n) ?_ hdata.1 hdata.2 hw hpos
    hle fun t ht => ?_
  · rw [hmapped]
    exact hyz
  · rw [if_neg (not_not_intro rfl)]
    exact hq t ht

end Second

/-! ## The whole scan -/

theorem SegMap.CurrentInSlot.markedAll {nBytes : Nat} {c : Contents} {m : SegMap} {xs : List Nat}
    (h : m.CurrentInSlot) (hxs : OtherSlots nBytes c xs)
    (hun : ∀ x ∈ xs, c x 0 ≠ none → m.segToSlot (c.segOf x) = noSlot) :
    (c.markedAll xs m).CurrentInSlot := by
  induction xs generalizing m with
  | nil => exact h
  | cons x xs ih =>
    have hmem : x ∈ x :: xs := List.mem_cons_self
    have hnot : x ∉ xs := (List.nodup_cons.mp hxs.nodup).1
    refine ih (m := c.marked x m) (h.marked (hxs.lt x hmem) fun hne =>
      ⟨(hxs.header x hmem hne).2, hun x hmem hne⟩) (hxs.of_sublist (List.sublist_cons_self x xs))
      fun y hy hne => ?_
    refine (Contents.marked_segToSlot fun hx heq => ?_).trans (hun y (List.mem_cons_of_mem x hy) hne)
    exact hnot (hxs.distinct x hmem y (List.mem_cons_of_mem x hy) hx hne heq ▸ hy)

/-- During the scan, before both generations are met: `todo` of the other slots are still to come,
and the contents are `c'` by now. -/
structure Scanning (nBytes : Nat) (w : World) (c c' : Contents) (todo : List Nat) (t : World) :
    Prop where
  scannable : Scannable nBytes t.flash t.segMap c'
  current : t.segMap.CurrentInSlot
  reserves : ∀ r ∈ reserveSegments, t.segMap.segToSlot r = w.segMap.segToSlot r
  others : OtherSlots nBytes c todo
  same : ∀ x ∈ todo, ∀ o, c' x o = c x o
  unmapped : ∀ x ∈ todo, c x 0 ≠ none → t.segMap.segToSlot (c.segOf x) = noSlot

section Scan
variable {E : Halt → World → Prop} (hE : ∀ t, E .powerLoss t) {Q : Nat → World → Prop} {w t : World}
  {c c' : Contents} {nBytes x : Nat} {xs todo slots : List Nat}

theorem Scanning.isDataSlot (h : Scanning nBytes w c c' todo t) {slot : Nat} :
    t.segMap.IsDataSlot slot ↔ w.segMap.IsDataSlot slot := SegMap.isDataSlot_congr h.reserves

/-- The header of one of the two generations is entered, the first that is complete. -/
theorem Scanning.marked (h : Scanning nBytes w c c' todo t) (hx : w.segMap.IsDataSlot x)
    (hseg : c.segOf x < segmentsCount) (hunmapped : t.segMap.segToSlot (c.segOf x) = noSlot)
    (hown : ∀ y ∈ todo, c y 0 ≠ none → c.segOf y ≠ c.segOf x) :
    Scanning nBytes w c c' todo { t with segMap := c.marked x t.segMap } := by
  have hreserve := Contents.marked_reserve (c := c) (x := x) (fun _ => hseg) t.segMap
  exact ⟨h.scannable.congr hreserve, h.current.marked hx.lt fun _ => ⟨hseg, hunmapped⟩,
    fun r hr => (hreserve r hr).trans (h.reserves r hr), h.others, h.same, fun y hy hne =>
      (Contents.marked_segToSlot fun _ heq => hown y hy hne heq.symm).trans (h.unmapped y hy hne)⟩

include hE

/-- Slots of other segments are scanned. -/
theorem Scanning.wp_others (h : Scanning nBytes w c c' (xs ++ todo) t)
    (hq : ∀ u, Scanning nBytes w c c' todo u → u.segMap = c.markedAll xs t.segMap →
      SameHomes t u → wp (scanRegularSlots nBytes slots) Q E u) :
    wp (scanRegularSlots nBytes (xs ++ slots)) Q E t := by
  have hxs := h.others.of_sublist (List.sublist_append_left xs todo)
  have hmem : ∀ {y}, y ∈ xs → y ∈ xs ++ todo := List.mem_append_left todo
  have hsame : ∀ y ∈ xs, ∀ o, c' y o = c y o := fun y hy => h.same y (hmem hy)
  have hun : ∀ y ∈ xs, c y 0 ≠ none → t.segMap.segToSlot (c.segOf y) = noSlot :=
    fun y hy => h.unmapped y (hmem hy)
  refine wp_scan_others hE h.scannable (hxs.congr hsame) (fun y hy hne => ?_)
    fun u hu hmap hhomes => ?_
  · have hseg : c'.segOf y = c.segOf y := by rw [Contents.segOf, Contents.segOf, hsame y hy]
    rw [hsame y hy] at hne
    rw [hseg]
    exact hun y hy hne
  · rw [Contents.markedAll_congr fun y hy => hsame y hy 0] at hmap
    refine hq u ⟨hu, ?_, fun r hr => ?_, h.others.of_sublist (List.sublist_append_right xs todo),
      fun y hy => h.same y (List.mem_append_right xs hy), fun y hy hne => ?_⟩ hmap hhomes
    · rw [hmap]
      exact h.current.markedAll hxs hun
    · have hlt := segmentsCount_lt_reserve hr
      rw [hmap, Contents.markedAll_segToSlot fun z hz hne heq => ?_]
      · exact h.reserves r hr
      · have := (hxs.header z hz hne).2
        omega
    · rw [hmap, Contents.markedAll_segToSlot fun z hz hnez heq => ?_]
      · exact h.unmapped y (List.mem_append_right xs hy) hne
      · have hzy := h.others.distinct z (hmem hz) y (List.mem_append_right xs hy) hnez hne heq
        have hdisjoint := List.disjoint_of_nodup_append h.others.nodup
        exact hdisjoint hz (hzy ▸ hy)

/-- The slots of other segments that are met last. -/
theorem wp_scan_last (h : Scannable nBytes t.flash t.segMap c') (hxs : OtherSlots nBytes c xs)
    (hsame : ∀ x ∈ xs, ∀ o, c' x o = c x o)
    (hun : ∀ x ∈ xs, c x 0 ≠ none → t.segMap.segToSlot (c.segOf x) = noSlot)
    (hq : ∀ u, Scannable nBytes u.flash u.segMap c' → u.segMap = c.markedAll xs t.segMap → Q 0 u) :
    wp (scanRegularSlots nBytes xs) Q E t := by
  rw [← List.append_nil xs]
  refine wp_scan_others hE h (hxs.congr hsame) (fun y hy hne => ?_) fun u hu hmap _ => ?_
  · have hseg : c'.segOf y = c.segOf y := by rw [Contents.segOf, Contents.segOf, hsame y hy]
    rw [hsame y hy] at hne
    rw [hseg]
    exact hun y hy hne
  · rw [Contents.markedAll_congr fun y hy => hsame y hy 0] at hmap
    exact hq u hu hmap

end Scan

/-- Two slots with one segment, among others, before the slots are scanned. -/
structure Pair (nBytes : Nat) (w : World) (c : Contents) (u v : Nat) (others : List Nat) : Prop where
  scanning : Scanning nBytes w c c others w
  left_data : w.segMap.IsDataSlot u
  right_data : w.segMap.IsDataSlot v
  ne : u ≠ v
  left_headed : c u 0 ≠ none
  right_headed : c v 0 ≠ none
  left_not_mem : u ∉ others
  right_not_mem : v ∉ others
  segment : c.segOf u = c.segOf v
  segment_lt : c.segOf v < segmentsCount
  own : ∀ x ∈ others, c x 0 ≠ none → c.segOf x ≠ c.segOf v
  unmapped : w.segMap.segToSlot (c.segOf v) = noSlot

theorem Pair.symm {nBytes : Nat} {w : World} {c : Contents} {u v : Nat} {others : List Nat}
    (h : Pair nBytes w c u v others) : Pair nBytes w c v u others where
  scanning := h.scanning
  left_data := h.right_data
  right_data := h.left_data
  ne := h.ne.symm
  left_headed := h.right_headed
  right_headed := h.left_headed
  left_not_mem := h.right_not_mem
  right_not_mem := h.left_not_mem
  segment := h.segment.symm
  segment_lt := h.segment ▸ h.segment_lt
  own x hx hne := h.segment ▸ h.own x hx hne
  unmapped := h.segment ▸ h.unmapped

/-- The header of `z` was torn: its erase unit is erased, and the segment has the slot `u`. -/
structure TornScanned (nBytes : Nat) (w : World) (c : Contents) (z u : Nat) (t : World) : Prop where
  scannable : Scannable nBytes t.flash t.segMap (c.clearEus z [0])
  reserves : ∀ r ∈ reserveSegments, t.segMap.segToSlot r = w.segMap.segToSlot r
  slot : t.segMap.segToSlot (c.segOf u) = u
  newSlotId : w.segMap.newSlotId ≠ z → t.segMap.newSlotId ≠ z

/-- The other slots do not enter the segment of the two. -/
theorem Pair.markedAll_segToSlot {nBytes : Nat} {w : World} {c : Contents} {u v : Nat}
    {others xs : List Nat} (h : Pair nBytes w c u v others) (hxs : xs ⊆ others) (m : SegMap) :
    (c.markedAll xs m).segToSlot (c.segOf v) = m.segToSlot (c.segOf v) :=
  Contents.markedAll_segToSlot fun x hx hne => h.own x (hxs hx) hne

theorem Contents.markedAll_reserve {nBytes : Nat} {c : Contents} {xs : List Nat}
    (hxs : OtherSlots nBytes c xs) (m : SegMap) :
    ∀ r ∈ reserveSegments, (c.markedAll xs m).segToSlot r = m.segToSlot r := by
  intro r hr
  have := segmentsCount_lt_reserve hr
  refine Contents.markedAll_segToSlot fun x hx hne heq => ?_
  have := (hxs.header x hx hne).2
  omega

theorem Contents.marked_newSlotId_ne {c : Contents} {m : SegMap} {x y : Nat} (hxy : x ≠ y)
    (hm : m.newSlotId ≠ y) : (c.marked x m).newSlotId ≠ y := by
  show (c.markedAll [x] m).newSlotId ≠ y
  exact Contents.markedAll_newSlotId_ne (fun hmem => hxy (List.mem_singleton.mp hmem).symm) hm

section Torn
variable {E : Halt → World → Prop} (hE : ∀ t, E .powerLoss t) {w : World} {c : Contents}
  {nBytes z u : Nat} {pre mid post : List Nat} (h : Pair nBytes w c z u (pre ++ (mid ++ post)))
include hE h

/-- The slot with the torn header is met first. -/
theorem Pair.wp_torn_first (htorn : ¬c.HeaderComplete nBytes z) (hcomplete : c.HeaderComplete nBytes u) :
    wp (scanRegularSlots nBytes (pre ++ z :: (mid ++ u :: post)))
      (fun r t => r = 0 ∧ TornScanned nBytes w c z u t) E w := by
  have hmid : mid ⊆ pre ++ (mid ++ post) := fun x hx =>
    List.mem_append_right pre (List.mem_append_left post hx)
  have hpost : post ⊆ pre ++ (mid ++ post) := fun x hx =>
    List.mem_append_right pre (List.mem_append_right mid hx)
  have hpre : pre ⊆ pre ++ (mid ++ post) := List.subset_append_left _ _
  have hsame : ∀ {x}, x ≠ z → ∀ o, c.clearEus z [0] x o = c x o :=
    fun hne o => Contents.clearEus_of_ne hne o
  have hu := hsame h.ne.symm
  have huSeg : (c.clearEus z [0]).segOf u = c.segOf u := by rw [Contents.segOf, Contents.segOf, hu]
  -- the slots before it, and its header
  refine h.scanning.wp_others hE fun t ht hmap _ => ?_
  refine wp_scan_torn hE ht.scannable (ht.isDataSlot.mpr h.left_data) h.left_headed htorn
    fun t' hon ht' => ?_
  have hscan : Scanning nBytes w c (c.clearEus z [0]) (mid ++ post) t' := by
    refine ⟨ht', ?_, fun r hr => ?_, ht.others, fun x hx o => hsame ?_ o, fun x hx hne => ?_⟩
    · rw [hon.segMap]
      exact ht.current
    · rw [hon.segMap]
      exact ht.reserves r hr
    · rintro rfl
      exact h.left_not_mem (List.mem_append_right pre hx)
    · rw [hon.segMap]
      exact ht.unmapped x hx hne
  -- the slots between, and the other header
  refine hscan.wp_others hE fun t2 ht2 hmap2 _ => ?_
  have hunmapped : t2.segMap.segToSlot (c.segOf u) = noSlot := by
    rw [hmap2, h.markedAll_segToSlot hmid, hon.segMap, hmap, h.markedAll_segToSlot hpre]
    exact h.unmapped
  have hmarked : (c.clearEus z [0]).marked u t2.segMap = c.marked u t2.segMap := by
    show (c.clearEus z [0]).markedAll [u] t2.segMap = c.markedAll [u] t2.segMap
    exact Contents.markedAll_congr fun x hx => by rw [List.mem_singleton.mp hx, hu]
  refine wp_scan_first ht2.scannable (ht2.isDataSlot.mpr h.right_data) (by rw [hu]; exact h.right_headed)
    ?_ (by rw [huSeg]; exact hunmapped) ?_
  · obtain ⟨st, hst, hcp⟩ := hcomplete
    exact ⟨st, (hu _).trans hst, hcp⟩
  rw [hmarked]
  have ht3 := ht2.marked h.right_data h.segment_lt hunmapped fun y hy => h.own y (hpost hy)
  refine wp_scan_last hE ht3.scannable ht3.others ht3.same ht3.unmapped fun t4 ht4 hmap4 => ?_
  refine ⟨rfl, ht4, fun r hr => ?_, ?_, fun hne => ?_⟩
  · rw [hmap4, Contents.markedAll_reserve ht3.others _ r hr]
    exact ht3.reserves r hr
  · rw [hmap4, h.markedAll_segToSlot hpost]
    exact Contents.marked_self h.right_headed
  · rw [hmap4]
    refine Contents.markedAll_newSlotId_ne (fun hz => h.left_not_mem (hpost hz))
      (Contents.marked_newSlotId_ne h.ne.symm ?_)
    rw [hmap2]
    refine Contents.markedAll_newSlotId_ne (fun hz => h.left_not_mem (hmid hz)) ?_
    rw [hon.segMap, hmap]
    exact Contents.markedAll_newSlotId_ne (fun hz => h.left_not_mem (hpre hz)) hne

/-- The slot with the torn header is met second. -/
theorem Pair.wp_torn_second (htorn : ¬c.HeaderComplete nBytes z)
    (hcomplete : c.HeaderComplete nBytes u) :
    wp (scanRegularSlots nBytes (pre ++ u :: (mid ++ z :: post)))
      (fun r t => r = 0 ∧ TornScanned nBytes w c z u t) E w := by
  have hmid : mid ⊆ pre ++ (mid ++ post) := fun x hx =>
    List.mem_append_right pre (List.mem_append_left post hx)
  have hpost : post ⊆ pre ++ (mid ++ post) := fun x hx =>
    List.mem_append_right pre (List.mem_append_right mid hx)
  have hpre : pre ⊆ pre ++ (mid ++ post) := List.subset_append_left _ _
  -- the slots before the complete header, and it
  refine h.scanning.wp_others hE fun t ht hmap _ => ?_
  have hunmapped : t.segMap.segToSlot (c.segOf u) = noSlot := by
    rw [hmap, h.markedAll_segToSlot hpre]
    exact h.unmapped
  refine wp_scan_first ht.scannable (ht.isDataSlot.mpr h.right_data) h.right_headed hcomplete
    hunmapped ?_
  have ht1 := ht.marked h.right_data h.segment_lt hunmapped fun y hy =>
    h.own y (List.mem_append_right pre hy)
  -- the slots between, and the torn header
  refine ht1.wp_others hE fun t2 ht2 hmap2 _ => ?_
  refine wp_scan_torn hE ht2.scannable (ht2.isDataSlot.mpr h.left_data) h.left_headed htorn
    fun t3 hon ht3 => ?_
  refine wp_scan_last hE ht3 ht2.others (fun x hx o => Contents.clearEus_of_ne ?_ o) ?_
    fun t4 ht4 hmap4 => ?_
  · rintro rfl
    exact h.left_not_mem (hpost hx)
  · rw [hon.segMap]
    exact ht2.unmapped
  refine ⟨rfl, ht4, fun r hr => ?_, ?_, fun hne => ?_⟩
  · rw [hmap4, Contents.markedAll_reserve ht2.others _ r hr, hon.segMap]
    exact ht2.reserves r hr
  · rw [hmap4, h.markedAll_segToSlot hpost, hon.segMap, hmap2, h.markedAll_segToSlot hmid]
    exact Contents.marked_self h.right_headed
  · rw [hmap4]
    refine Contents.markedAll_newSlotId_ne (fun hz => h.left_not_mem (hpost hz)) ?_
    rw [hon.segMap, hmap2]
    refine Contents.markedAll_newSlotId_ne (fun hz => h.left_not_mem (hmid hz))
      (Contents.marked_newSlotId_ne h.ne.symm ?_)
    rw [hmap]
    exact Contents.markedAll_newSlotId_ne (fun hz => h.left_not_mem (hpre hz)) hne

end Torn

/-- Both headers are complete: the slot `y` with the later number `q` is the current one unless one
of the slots `after` takes its place; if it was taken for complete the other slot `z` is erased. -/
structure BothScanned (nBytes : Nat) (w : World) (c : Contents) (second y z q : Nat) (ends : Prop)
    (after : List Nat) (t : World) : Prop where
  reserves : ∀ r ∈ reserveSegments, t.segMap.segToSlot r = w.segMap.segToSlot r
  newSlotId : t.segMap.newSlotId = y ↔
    ∀ x ∈ after, c x 0 ≠ none → c.seqOf x % 2 ^ 32 ≤ q ∧ q ≠ 0xffffffffffffffff
  done : ends → t.segMap.segToSlot (c.segOf second) = second ∧
    Scannable nBytes t.flash t.segMap (c.clear z)
  going : ¬ends → t.segMap.segToSlot (c.segOf second) = z ∧ Scannable nBytes t.flash t.segMap c

/-- Two complete headers are met, with numbers that differ after the second is cut to 32 bits. -/
theorem Pair.wp_both {E : Halt → World → Prop} (hE : ∀ t, E .powerLoss t) {w : World} {c : Contents}
    {nBytes first second y z q n : Nat} {pre mid post : List Nat}
    (h : Pair nBytes w c first second (pre ++ (mid ++ post)))
    (hfirst : c.HeaderComplete nBytes first) (hsecond : c.HeaderComplete nBytes second)
    (hseq : c.seqOf first ≠ c.seqOf second % 2 ^ 32)
    (hyz : c.seqOf second % 2 ^ 32 < c.seqOf first ∧ y = first ∧ z = second ∧ q = c.seqOf first ∨
      ¬c.seqOf second % 2 ^ 32 < c.seqOf first ∧ y = second ∧ z = first ∧
        q = c.seqOf second % 2 ^ 32)
    (hw : c.WrittenTo y n) (hpos : 0 < n) (hle : n ≤ pagesPerSlot) :
    wp (scanRegularSlots nBytes (pre ++ first :: (mid ++ second :: post)))
      (fun r t => r = 0 ∧ BothScanned nBytes w c second y z q (w.EndsSlot y n) post t) E w := by
  have hmid : mid ⊆ pre ++ (mid ++ post) := fun x hx =>
    List.mem_append_right pre (List.mem_append_left post hx)
  have hpost : post ⊆ pre ++ (mid ++ post) := fun x hx =>
    List.mem_append_right pre (List.mem_append_right mid hx)
  have hpre : pre ⊆ pre ++ (mid ++ post) := List.subset_append_left _ _
  have hy : y ∉ post := by
    rcases hyz with ⟨-, rfl, -⟩ | ⟨-, rfl, -⟩
    · exact fun hmem => h.left_not_mem (hpost hmem)
    · exact fun hmem => h.right_not_mem (hpost hmem)
  have hz : z ∉ post := by
    rcases hyz with ⟨-, -, rfl, -⟩ | ⟨-, -, rfl, -⟩
    · exact fun hmem => h.right_not_mem (hpost hmem)
    · exact fun hmem => h.left_not_mem (hpost hmem)
  refine h.scanning.wp_others hE fun t ht hmap hhomes => ?_
  have hunmapped : t.segMap.segToSlot (c.segOf first) = noSlot := by
    rw [h.segment, hmap, h.markedAll_segToSlot hpre]
    exact h.unmapped
  refine wp_scan_first ht.scannable (ht.isDataSlot.mpr h.left_data) h.left_headed hfirst hunmapped ?_
  have ht1 := ht.marked h.left_data (by rw [h.segment]; exact h.segment_lt) hunmapped fun x hx => by
    rw [h.segment]
    exact h.own x (List.mem_append_right pre hx)
  refine ht1.wp_others hE fun t2 ht2 hmap2 hhomes2 => ?_
  have hmapped : t2.segMap.segToSlot (c.segOf second) = first := by
    rw [hmap2, h.markedAll_segToSlot hmid, ← h.segment]
    exact Contents.marked_self h.left_headed
  refine wp_scan_second hE ht2.scannable ht2.current (ht2.isDataSlot.mpr h.left_data)
    (ht2.isDataSlot.mpr h.right_data) h.ne h.left_headed h.right_headed hmapped h.segment_lt hsecond
    hseq hyz hw hpos hle fun t3 ht3 => ?_
  have hydata : w.segMap.IsDataSlot y := by
    rcases hyz with ⟨-, rfl, -⟩ | ⟨-, rfl, -⟩
    · exact h.left_data
    · exact h.right_data
  have hends : t2.EndsSlot y n ↔ w.EndsSlot y n := by
    have hhomes1 : SameHomes w t2 := by
      have hreserve := Contents.marked_reserve (c := c) (x := first) (m := t.segMap)
        fun _ => h.segment ▸ h.segment_lt
      exact (hhomes.trans (SameHomes.of_map hreserve) ht.reserves).trans hhomes2 ht1.reserves
    exact exists_congr fun home => and_congr_left fun _ =>
      hhomes1 _ _ home hydata (div_lt_eusPerSlot (by omega))
  rw [hends] at ht3
  have hreserve3 : ∀ r ∈ reserveSegments, t3.segMap.segToSlot r = w.segMap.segToSlot r := by
    intro r hr
    have := segmentsCount_lt_reserve hr
    have := h.segment_lt
    exact (ht3.others r (by omega)).trans (ht2.reserves r hr)
  have hun3 : ∀ x ∈ post, c x 0 ≠ none → t3.segMap.segToSlot (c.segOf x) = noSlot := fun x hx hne =>
    (ht3.others _ (h.own x (hpost hx) hne)).trans (ht2.unmapped x hx hne)
  have hfinal : ∀ (c' : Contents) {u : World} {slot : Nat},
      t3.segMap.segToSlot (c.segOf second) = slot → u.segMap = c.markedAll post t3.segMap →
      (∀ r ∈ reserveSegments, u.segMap.segToSlot r = w.segMap.segToSlot r) ∧
      (u.segMap.newSlotId = y ↔
        ∀ x ∈ post, c x 0 ≠ none → c.seqOf x % 2 ^ 32 ≤ q ∧ q ≠ 0xffffffffffffffff) ∧
      u.segMap.segToSlot (c.segOf second) = slot := by
    intro c' u slot hslot hu
    rw [hu]
    refine ⟨fun r hr => ?_, ?_, ?_⟩
    · rw [Contents.markedAll_reserve ht2.others _ r hr]
      exact hreserve3 r hr
    · rw [Contents.markedAll_newSlotId_iff hy ht3.newSlotId]
      refine forall₂_congr fun x _ => ?_
      rw [Contents.Takes, ht3.sequenceNum, not_and, not_or, Nat.not_lt]
    · rw [h.markedAll_segToSlot hpost]
      exact hslot
  by_cases hend : w.EndsSlot y n
  · obtain ⟨hslot, hscan⟩ := ht3.done hend
    refine wp_scan_last hE hscan ht2.others (fun x hx o => Contents.clear_of_ne ?_ o) hun3
      fun u hu hmapu => ?_
    · rintro rfl
      exact hz hx
    · obtain ⟨hreserves, hnew, hsegment⟩ := hfinal c hslot hmapu
      exact ⟨rfl, hreserves, hnew, fun _ => ⟨hsegment, hu⟩, fun hno => absurd hend hno⟩
  · obtain ⟨hslot, hscan⟩ := ht3.going hend
    refine wp_scan_last hE hscan ht2.others (fun _ _ _ => rfl) hun3 fun u hu hmapu => ?_
    obtain ⟨hreserves, hnew, hsegment⟩ := hfinal c hslot hmapu
    exact ⟨rfl, hreserves, hnew, fun hno => absurd hno hend, fun _ => ⟨hsegment, hu⟩⟩

/-! ## The scan resolves the generations -/

section Resolve
variable {nBytes : Nat} {w t : World} {c : Contents} {older newer n : Nat} {others : List Nat}
  (h : TwoGenerations nBytes w c older newer n others)
include h

theorem TwoGenerations.older_headed : c older 0 ≠ none := by
  obtain ⟨e, hpos, -, hw, -⟩ := h.older_written
  exact (hw 0 pagesPerSlot_pos).mpr (Nat.mul_pos hpos pagesPerEu_pos)

theorem TwoGenerations.newer_headed : c newer 0 ≠ none :=
  (h.newer_written 0 pagesPerSlot_pos).mpr h.pos

theorem TwoGenerations.pair : Pair nBytes w c older newer others where
  scanning := ⟨h.scannable, .inl h.reclaimed, fun _ _ => rfl, h.slots, fun _ _ _ => rfl,
    fun x hx hne => h.unmapped _ (h.slots.header x hx hne).2⟩
  left_data := h.older_data
  right_data := h.newer_data
  ne := h.ne
  left_headed := h.older_headed
  right_headed := h.newer_headed
  left_not_mem := h.older_not_mem
  right_not_mem := h.newer_not_mem
  segment := h.segment
  segment_lt := h.segment_lt
  own := h.own
  unmapped := h.unmapped _ h.segment_lt

/-- A header is complete where its last page is written. -/
theorem TwoGenerations.complete_of_written {slot : Nat} (hmem : slot ∈ [older, newer])
    (hw : c.WrittenTo slot pagesPerSlot) : c.HeaderComplete nBytes slot := by
  have hlt : calculateInPages (seqCheckpointSize + nBytes) < pagesPerSlot := by
    have hfits : 1 + calculateInPages (seqCheckpointSize + nBytes) ≤ pagesPerSlot := h.scannable.fits
    omega
  obtain ⟨st, hst⟩ := Option.ne_none_iff_exists'.mp ((hw _ hlt).mpr hlt)
  exact ⟨st, hst, h.checkpoint slot hmem st hst⟩

theorem TwoGenerations.newer_complete (hn : ¬n < pagesPerSlot) : c.HeaderComplete nBytes newer := by
  obtain rfl : n = pagesPerSlot := Nat.le_antisymm h.le (Nat.le_of_not_lt hn)
  exact h.complete_of_written (List.mem_cons_of_mem _ List.mem_cons_self) h.newer_written

theorem TwoGenerations.older_complete (hn : n < pagesPerSlot) : c.HeaderComplete nBytes older := by
  obtain ⟨e, -, -, hw, he⟩ := h.older_written
  rw [he hn, ← pagesPerSlot_eq] at hw
  exact h.complete_of_written List.mem_cons_self hw

/-- Where the older slot is as it was, it was not erased. -/
theorem TwoGenerations.not_cleared {c' : Contents}
    (hres : ∀ r ∈ reserveSegments, t.segMap.segToSlot r = w.segMap.segToSlot r)
    (hlay : Layout t.flash t.segMap c') (hkept : c' older 0 = c older 0) :
    ¬Layout t.flash t.segMap (c.clear older) := by
  intro hclear
  have hdata := (SegMap.isDataSlot_congr hres).mpr h.older_data
  have hsame := hlay.contents_unique hclear hdata pagesPerSlot_pos
  rw [hkept, Contents.clear_self] at hsame
  exact h.older_headed hsame

/-- The header of the newer slot was torn: it is not the current slot. -/
theorem TwoGenerations.torn_newer {olderFirst : Prop} {after : List Nat}
    (htorn : ¬c.HeaderComplete nBytes newer) (ht : TornScanned nBytes w c newer older t) :
    Resolved c older newer n t ↔ w.Resolves nBytes c older newer n olderFirst after := by
  have hn : n < pagesPerSlot := by
    by_contra hno
    exact htorn (h.newer_complete hno)
  unfold Resolved World.Resolves
  rw [if_pos hn, if_pos hn]
  exact iff_of_false (fun hr => ht.newSlotId h.newSlot hr.2.1) fun hr => htorn hr.1

/-- The header of the older slot is not complete any more: its first erase unit is erased. -/
theorem TwoGenerations.torn_older {olderFirst : Prop} {after : List Nat}
    (htorn : ¬c.HeaderComplete nBytes older) (ht : TornScanned nBytes w c older newer t) :
    Resolved c older newer n t ↔ w.Resolves nBytes c older newer n olderFirst after := by
  have hn : ¬n < pagesPerSlot := fun hlt => htorn (h.older_complete hlt)
  have hdata := (SegMap.isDataSlot_congr ht.reserves).mpr h.older_data
  unfold Resolved World.Resolves
  rw [if_neg hn, if_neg hn]
  have hsame : ∀ o, pagesPerEu ≤ o → c.clearEus older [0] older o = c older o := by
    intro o hle
    refine Contents.clearEus_of_not_mem fun hmem => ?_
    have := Nat.div_pos hle pagesPerEu_pos
    have := List.mem_singleton.mp hmem
    omega
  constructor
  · rintro ⟨-, hclear⟩
    refine ⟨fun hcomplete => absurd hcomplete htorn, fun _ o ho hle => ?_⟩
    have hunique := ht.scannable.layout.contents_unique hclear hdata ho
    rwa [hsame o hle, Contents.clear_self] at hunique
  · rintro ⟨-, hblank⟩
    refine ⟨ht.slot, ht.scannable.layout.congr_contents fun slot _ o ho => ?_⟩
    by_cases hs : slot = older
    · subst hs
      rw [Contents.clear_self]
      by_cases hle : pagesPerEu ≤ o
      · rw [hsame o hle, hblank htorn o ho hle]
      · refine (Contents.clearEus_of_mem ?_).symm
        rw [Nat.div_eq_of_lt (by omega)]
        exact List.mem_singleton_self 0
    · rw [Contents.clear_of_ne hs, Contents.clearEus_of_ne hs]

/-- The older slot is met first, and its number is below the one of the newer slot as it is cut. -/
theorem TwoGenerations.older_first {after : List Nat} (hnewer : c.HeaderComplete nBytes newer)
    (holder : c.HeaderComplete nBytes older) (hseq : c.seqOf older < c.seqOf newer % 2 ^ 32)
    (ht : BothScanned nBytes w c newer newer older (c.seqOf newer % 2 ^ 32) (w.EndsSlot newer n) after
      t) : Resolved c older newer n t ↔ w.Resolves nBytes c older newer n (older = older) after := by
  have hcut : c.seqOf newer % 2 ^ 32 ≠ 0xffffffffffffffff := by
    have := Nat.mod_lt (c.seqOf newer) (show 0 < 2 ^ 32 by decide)
    omega
  unfold Resolved World.Resolves
  by_cases hn : n < pagesPerSlot
  · rw [if_pos hn, if_pos hn]
    by_cases hend : w.EndsSlot newer n
    · refine iff_of_false (fun hr => ?_) fun hr => hr.2.1 hend
      exact h.ne (hr.1.symm.trans (ht.done hend).1)
    · obtain ⟨hslot, hscan⟩ := ht.going hend
      rw [ht.newSlotId]
      constructor
      · rintro ⟨-, hall, -⟩
        exact ⟨hnewer, hend, fun _ => ⟨hseq, fun x hx hne => (hall x hx hne).1⟩, fun hno =>
          absurd rfl hno⟩
      · rintro ⟨-, -, hall, -⟩
        exact ⟨hslot, fun x hx hne => ⟨(hall rfl).2 x hx hne, hcut⟩, hscan.layout⟩
  · rw [if_neg hn, if_neg hn]
    constructor
    · rintro ⟨hslot, -⟩
      refine ⟨fun _ => ⟨rfl, hseq, ?_⟩, fun hno => absurd holder hno⟩
      by_contra hend
      exact h.ne ((ht.going hend).1.symm.trans hslot)
    · rintro ⟨hall, -⟩
      obtain ⟨hslot, hscan⟩ := ht.done (hall holder).2.2
      exact ⟨hslot, hscan.layout⟩

/-- The older slot is met first, and its number is above the one of the newer slot as it is cut: the
generations are taken for each other. -/
theorem TwoGenerations.exchanged {after : List Nat} {ends : Prop} {q : Nat}
    (holder : c.HeaderComplete nBytes older) (hseq : c.seqOf newer % 2 ^ 32 < c.seqOf older)
    (ht : BothScanned nBytes w c newer older newer q ends after t) :
    Resolved c older newer n t ↔ w.Resolves nBytes c older newer n (older = older) after := by
  have hslot : t.segMap.segToSlot (c.segOf newer) = newer := by
    by_cases hend : ends
    · exact (ht.done hend).1
    · exact (ht.going hend).1
  unfold Resolved World.Resolves
  by_cases hn : n < pagesPerSlot
  · rw [if_pos hn, if_pos hn]
    refine iff_of_false (fun hr => h.ne (hr.1.symm.trans hslot)) fun hr => ?_
    have := (hr.2.2.1 rfl).1
    omega
  · rw [if_neg hn, if_neg hn]
    refine iff_of_false (fun hr => ?_) fun hr => ?_
    · by_cases hend : ends
      · exact h.not_cleared ht.reserves (ht.done hend).2.layout (Contents.clear_of_ne h.ne 0) hr.2
      · exact h.not_cleared ht.reserves (ht.going hend).2.layout rfl hr.2
    · have := (hr.1 holder).2.1
      omega

/-- The newer slot is met first: the segment has the older slot in the end. -/
theorem TwoGenerations.newer_first {after : List Nat} (hnewer : c.HeaderComplete nBytes newer)
    (holder : c.HeaderComplete nBytes older) (hafter : after ⊆ others)
    (ht : BothScanned nBytes w c older newer older (c.seqOf newer) (w.EndsSlot newer n) after t) :
    Resolved c older newer n t ↔ w.Resolves nBytes c older newer n (newer = older) after := by
  have hslot : t.segMap.segToSlot (c.segOf newer) = older := by
    rw [← h.segment]
    by_cases hend : w.EndsSlot newer n
    · exact (ht.done hend).1
    · exact (ht.going hend).1
  unfold Resolved World.Resolves
  by_cases hn : n < pagesPerSlot
  · rw [if_pos hn, if_pos hn]
    by_cases hend : w.EndsSlot newer n
    · refine iff_of_false (fun hr => ?_) fun hr => hr.2.1 hend
      have hcleared := (ht.done hend).2.layout
      exact h.not_cleared ht.reserves hr.2.2 rfl hcleared
    · rw [ht.newSlotId]
      constructor
      · rintro ⟨-, hall, -⟩
        refine ⟨hnewer, hend, fun hno => absurd hno h.ne.symm, fun _ => ?_⟩
        by_contra hno
        obtain ⟨heq, hsome⟩ := not_or.mp hno
        refine hsome fun x hx => ?_
        by_contra hne
        exact heq (hall x hx hne).2
      · rintro ⟨-, -, -, hall⟩
        refine ⟨hslot, fun x hx hne => ⟨?_, ?_⟩, (ht.going hend).2.layout⟩
        · have := h.newest x (hafter hx) hne
          have := Nat.mod_le (c.seqOf x) (2 ^ 32)
          omega
        · exact (hall h.ne.symm).resolve_right fun hnone => hne (hnone x hx)
  · rw [if_neg hn, if_neg hn]
    refine iff_of_false (fun hr => h.ne (hslot.symm.trans hr.1)) fun hr => ?_
    exact h.ne (hr.1 holder).1.symm

/-- The scan of the slots, where the numbers do not come out equal when the second is cut. -/
theorem TwoGenerations.wp_scan {first second : Nat} {pre mid post : List Nat}
    (hothers : others = pre ++ (mid ++ post))
    (hpair : first = older ∧ second = newer ∨ first = newer ∧ second = older)
    (hseq : first = older → c.HeaderComplete nBytes older → c.HeaderComplete nBytes newer →
      c.seqOf older ≠ c.seqOf newer % 2 ^ 32) :
    wp (scanRegularSlots nBytes (pre ++ first :: (mid ++ second :: post)))
      (fun r t => r = 0 ∧ (Resolved c older newer n t ↔
        w.Resolves nBytes c older newer n (first = older) post)) (fun e _ => e = .powerLoss) w := by
  subst hothers
  have hE : ∀ t : World, (fun (e : Halt) (_ : World) => e = .powerLoss) .powerLoss t := fun _ => rfl
  have hpost : post ⊆ pre ++ (mid ++ post) := fun x hx =>
    List.mem_append_right pre (List.mem_append_right mid hx)
  by_cases hnewer : c.HeaderComplete nBytes newer
  · by_cases holder : c.HeaderComplete nBytes older
    · -- both are complete
      rcases hpair with ⟨rfl, rfl⟩ | ⟨rfl, rfl⟩
      · rcases Nat.lt_or_gt_of_ne (hseq rfl holder hnewer) with hlt | hgt
        · refine wp_mono (h.pair.wp_both hE holder hnewer (hseq rfl holder hnewer)
            (.inr ⟨by omega, rfl, rfl, rfl⟩) h.newer_written h.pos h.le)
            (fun r t ht => ⟨ht.1, h.older_first hnewer holder hlt ht.2⟩) fun _ _ he => he
        · obtain ⟨e, hpos, hle, hw, -⟩ := h.older_written
          have hwritten : 0 < e * pagesPerEu := Nat.mul_pos hpos pagesPerEu_pos
          have hfull : e * pagesPerEu ≤ pagesPerSlot := by
            rw [pagesPerSlot_eq]
            exact Nat.mul_le_mul_right _ hle
          refine wp_mono (h.pair.wp_both hE holder hnewer (hseq rfl holder hnewer)
            (.inl ⟨hgt, rfl, rfl, rfl⟩) hw hwritten hfull)
            (fun r t ht => ⟨ht.1, h.exchanged holder hgt ht.2⟩) fun _ _ he => he
      · have hlt : c.seqOf second % 2 ^ 32 < c.seqOf first :=
          Nat.lt_of_le_of_lt (Nat.mod_le _ _) h.older_seq
        refine wp_mono (h.pair.symm.wp_both hE hnewer holder (Nat.ne_of_gt hlt)
          (.inl ⟨hlt, rfl, rfl, rfl⟩) h.newer_written h.pos h.le)
          (fun r t ht => ⟨ht.1, h.newer_first hnewer holder hpost ht.2⟩) fun _ _ he => he
    · rcases hpair with ⟨rfl, rfl⟩ | ⟨rfl, rfl⟩
      · exact wp_mono (h.pair.wp_torn_first hE holder hnewer)
          (fun r t ht => ⟨ht.1, h.torn_older holder ht.2⟩) fun _ _ he => he
      · exact wp_mono (h.pair.wp_torn_second hE holder hnewer)
          (fun r t ht => ⟨ht.1, h.torn_older holder ht.2⟩) fun _ _ he => he
  · have holder : c.HeaderComplete nBytes older := by
      by_contra hno
      exact hno (h.older_complete (by
        by_contra hn
        exact hnewer (h.newer_complete hn)))
    rcases hpair with ⟨rfl, rfl⟩ | ⟨rfl, rfl⟩
    · exact wp_mono (h.pair.symm.wp_torn_second hE hnewer holder)
        (fun r t ht => ⟨ht.1, h.torn_newer hnewer ht.2⟩) fun _ _ he => he
    · exact wp_mono (h.pair.symm.wp_torn_first hE hnewer holder)
        (fun r t ht => ⟨ht.1, h.torn_newer hnewer ht.2⟩) fun _ _ he => he

omit h in
/-- Where the scan resolves the generations, the numbers do not come out equal. -/
theorem World.Resolves.seq_ne {first : Nat} {after : List Nat}
    (hr : w.Resolves nBytes c older newer n (first = older) after) (hfirst : first = older)
    (holder : c.HeaderComplete nBytes older) : c.seqOf older ≠ c.seqOf newer % 2 ^ 32 := by
  unfold World.Resolves at hr
  by_cases hn : n < pagesPerSlot
  · rw [if_pos hn] at hr
    exact Nat.ne_of_lt (hr.2.2.1 hfirst).1
  · rw [if_neg hn] at hr
    exact Nat.ne_of_lt (hr.1 holder).2.1

end Resolve

/-- In whatever order the scan meets the slots, it resolves two generations of a segment where
`World.Resolves` says so, and stops only where the power is lost.  Where it does not say so it does
not resolve them, unless the number of the newer slot comes out as that of the older one, met first,
when it is cut to 32 bits. -/
theorem scanRegularSlots_resolves_iff {nBytes : Nat} {w : World} {c : Contents}
    {older newer n first second : Nat} {pre mid post : List Nat}
    (h : TwoGenerations nBytes w c older newer n (pre ++ (mid ++ post)))
    (hpair : first = older ∧ second = newer ∨ first = newer ∧ second = older) :
    (w.Resolves nBytes c older newer n (first = older) post →
      wp (scanRegularSlots nBytes (pre ++ first :: (mid ++ second :: post)))
        (fun r t => r = 0 ∧ Resolved c older newer n t) (fun e _ => e = .powerLoss) w) ∧
    (¬(first = older ∧ c.seqOf older = c.seqOf newer % 2 ^ 32) →
      wp (scanRegularSlots nBytes (pre ++ first :: (mid ++ second :: post)))
        (fun r t => r = 0 ∧ (Resolved c older newer n t ↔
          w.Resolves nBytes c older newer n (first = older) post))
        (fun e _ => e = .powerLoss) w) := by
  constructor
  · intro hr
    have hseq : first = older → c.HeaderComplete nBytes older → c.HeaderComplete nBytes newer →
        c.seqOf older ≠ c.seqOf newer % 2 ^ 32 :=
      fun hfirst holder _ => hr.seq_ne hfirst holder
    exact wp_mono (h.wp_scan rfl hpair hseq) (fun r t ht => ⟨ht.1, ht.2.mpr hr⟩) fun _ _ he => he
  · intro hseq
    exact h.wp_scan rfl hpair fun hfirst _ _ heq => hseq ⟨hfirst, heq⟩

/-! ## A test for two generations -/

section Test

/-- On a chip without bad erase units the pages of the data slots are where they belong. -/
theorem Layout.of_pages {f : Flash} {m : SegMap} {c : Contents}
    (hgood : ∀ eu, IsEu eu → f.good eu = true) (hres : m.ReservesInChip)
    (hdata : ∀ slot, m.IsDataSlot slot → ∀ o < pagesPerSlot,
      PageHolds f (calcAddress slot 0 o) (c slot o))
    (hreserve : ∀ eu, m.IsReserveEu eu → 2 ^ 23 ≤ (f.page eu).flags.slotEuOffset ∧
      ((f.page eu).flags.slotEuOffset = noSlotAndEuOffset →
        ∀ i < pagesPerEu, PageHolds f (eu + i) none)) :
    Layout f m c := by
  have hnever : ∀ {slot e : Nat}, slot < nSlots → e < eusPerSlot →
      f.good (euAt slot e) = false → False := by
    intro slot e hs he hbad
    rw [hgood _ (isEu_euAt hs he)] at hbad
    exact Bool.false_ne_true hbad.symm
  have hnames : ∀ {p eu : Nat}, p < 2 ^ 23 → m.IsReserveEu eu → ¬f.standsFor p eu = true := by
    intro p eu hp hmem hst
    have hflag := (Flash.standsFor_iff.mp hst).2.1
    have hle := (hreserve eu hmem).1
    omega
  constructor
  · exact hres
  · intro slot e home hs he hh i hi
    cases hh with
    | reserve bad => exact (hnever hs.lt he bad).elim
    | self =>
      have hpage := hdata slot hs _ (offset_lt he hi)
      rwa [calcAddress_eq_euAt, Nat.mul_comm, Nat.mul_add_div pagesPerEu_pos, Nat.div_eq_of_lt hi,
        Nat.add_zero, Nat.mul_add_mod, Nat.mod_eq_of_lt hi, Nat.mul_comm] at hpage
  · intro slot e hs he hbad
    exact (hnever hs.lt he hbad).elim
  · intro eu hmem hfree
    exact (hreserve eu hmem).2 hfree.2
  · intro p eu eu' hp hmem _ hst _
    exact absurd hst (hnames hp hmem)
  · intro seg e home hseg he hbad _
    exact (hnever (hres seg hseg) he hbad).elim

/-- What the pages of the data slots say. -/
def Flash.contents (f : Flash) (m : SegMap) : Contents := fun slot o =>
  if slot < nSlots ∧ (reserveSegments.all fun seg => m.segToSlot seg != slot) = true ∧
    isPageUsed (f.page (calcAddress slot 0 o)).flags = true
  then some (f.page (calcAddress slot 0 o)).stored else none

/-- The page is blank, or one that the log writes. -/
def Flash.pageTest (f : Flash) (a : Nat) : Bool :=
  if isPageUsed (f.page a).flags then !(f.page a).flags.copyBack
  else (f.page a).isBlank && !f.mainAreaWrites a

instance (m : SegMap) (slot : Nat) : Decidable (m.IsDataSlot slot) :=
  decidable_of_iff (slot < nSlots ∧ ∀ seg ∈ reserveSegments, m.segToSlot seg ≠ slot)
    ⟨fun h => ⟨h.1, h.2⟩, fun h => ⟨h.lt, h.data⟩⟩

instance (c : Contents) (slot n : Nat) : Decidable (c.WrittenTo slot n) :=
  inferInstanceAs (Decidable (∀ o < pagesPerSlot, c slot o ≠ none ↔ o < n))

instance (c : Contents) (nBytes slot : Nat) : Decidable (c.HeaderComplete nBytes slot) :=
  decidable_of_iff ((c slot (calculateInPages (seqCheckpointSize + nBytes))).any
    fun st => st.checkpoint != .notPart) <| by
  rw [Option.any_eq_true]
  exact exists_congr fun st => and_congr_right fun _ => bne_iff_ne

/-- `Scannable` on a chip without bad erase units. -/
def World.scanTest (nBytes : Nat) (w : World) : Bool :=
  decide (∀ k < 2 ^ Config.euBits, w.flash.good (k * pagesPerEu) = true) &&
  decide (∀ seg ∈ reserveSegments, w.segMap.segToSlot seg < nSlots) &&
  decide (∀ slot < nSlots, w.segMap.IsDataSlot slot →
    (w.flash.page (euAt slot 0)).flags.segType ≠ .reserve ∧
      ∀ o < pagesPerSlot, w.flash.pageTest (calcAddress slot 0 o) = true) &&
  decide (∀ seg ∈ reserveSegments, ∀ k < eusPerSlot,
    2 ^ 23 ≤ (w.flash.page (euAt (w.segMap.segToSlot seg) k)).flags.slotEuOffset ∧
      ((w.flash.page (euAt (w.segMap.segToSlot seg) k)).flags.slotEuOffset = noSlotAndEuOffset →
        ∀ i < pagesPerEu, (w.flash.page (euAt (w.segMap.segToSlot seg) k + i)).isBlank = true ∧
          w.flash.mainAreaWrites (euAt (w.segMap.segToSlot seg) k + i) = false)) &&
  decide (∀ seg ∈ reserveSegments,
    (w.flash.page (euAt (w.segMap.segToSlot seg) 0)).flags.segType = .reserve ∧
      (w.flash.page (euAt (w.segMap.segToSlot seg) 0)).flags.slotEuOffset = reserveEuIsHeader) &&
  decide (headerPages nBytes ≤ pagesPerSlot) &&
  decide (∀ slot < nSlots, w.flash.validEuAt slot 1 ≠ phyAddressEmpty)

theorem Scannable.of_test {nBytes : Nat} {w : World} (h : w.scanTest nBytes = true) :
    Scannable nBytes w.flash w.segMap (w.flash.contents w.segMap) := by
  unfold World.scanTest at h
  simp only [Bool.and_eq_true, decide_eq_true_eq] at h
  obtain ⟨⟨⟨⟨⟨⟨hgood, hres⟩, hdata⟩, hreserve⟩, hheader⟩, hfits⟩, hvalid⟩ := h
  have hgood : ∀ eu, IsEu eu → w.flash.good eu = true := by
    intro eu heu
    obtain ⟨k, hk, rfl⟩ := heu.eq_mul
    exact hgood k hk
  have hcontents : ∀ slot, w.segMap.IsDataSlot slot → ∀ o, w.flash.contents w.segMap slot o =
      if isPageUsed (w.flash.page (calcAddress slot 0 o)).flags = true
      then some (w.flash.page (calcAddress slot 0 o)).stored else none := by
    intro slot hslot o
    have hall : (reserveSegments.all fun seg => w.segMap.segToSlot seg != slot) = true :=
      List.all_eq_true.mpr fun seg hseg => bne_iff_ne.mpr (hslot.data seg hseg)
    simp only [Flash.contents, hslot.lt, hall, true_and]
  refine ⟨.of_pages hgood hres (fun slot hslot o ho => ?_) ?_,
    ⟨fun slot hslot => (hdata slot hslot.lt hslot).1, fun seg hseg _ => hheader seg hseg⟩, hfits,
    hvalid, fun slot hslot _ e _ hlt => ⟨?_, ?_⟩, fun slot hslot => if_neg ?_⟩
  · have htest := (hdata slot hslot.lt hslot).2 o ho
    rw [hcontents slot hslot o]
    unfold Flash.pageTest at htest
    cases hused : isPageUsed (w.flash.page (calcAddress slot 0 o)).flags with
    | true =>
      rw [hused, if_pos rfl, Bool.not_eq_true'] at htest
      rw [if_pos rfl]
      exact ⟨rfl, htest, hused⟩
    | false =>
      rw [hused, if_neg Bool.false_ne_true, Bool.and_eq_true, Bool.not_eq_true'] at htest
      rw [if_neg Bool.false_ne_true]
      exact ⟨Page.eq_of_isBlank htest.1, htest.2⟩
  · rintro eu ⟨seg, hseg, k, hk, rfl⟩
    obtain ⟨hle, hblank⟩ := hreserve seg hseg k hk
    exact ⟨hle, fun hflag i hi => ⟨Page.eq_of_isBlank (hblank hflag i hi).1, (hblank hflag i hi).2⟩⟩
  · exact hgood _ (isEu_euAt hslot.lt eusPerSlot_pos)
  · refine hgood _ (isEu_euAt hslot.lt ?_)
    have := Nat.lt_of_lt_of_le hlt hfits
    rw [pagesPerSlot_eq] at this
    exact Nat.lt_of_mul_lt_mul_right this
  · rintro ⟨hlt, hall, -⟩
    exact hslot ⟨hlt, fun seg hseg => bne_iff_ne.mp (List.all_eq_true.mp hall seg hseg)⟩

/-- `TwoGenerations` on a chip without bad erase units, the older slot with `e` erase units left. -/
def World.generationsTest (nBytes : Nat) (w : World) (older newer n e : Nat) (others : List Nat) :
    Bool :=
  let c := w.flash.contents w.segMap
  w.scanTest nBytes &&
  decide ((∀ x ∈ others, x < nSlots) ∧ others.Nodup ∧
    (∀ x ∈ others, c x 0 ≠ none → c.HeaderComplete nBytes x ∧ c.segOf x < segmentsCount) ∧
    (∀ x ∈ others, ∀ y ∈ others, c x 0 ≠ none → c y 0 ≠ none → c.segOf x = c.segOf y → x = y) ∧
    (∀ x ∈ others, c x 0 = none → ∀ o < pagesPerSlot, c x o = none)) &&
  decide (w.segMap.IsDataSlot older ∧ w.segMap.IsDataSlot newer ∧ older ≠ newer ∧
    older ∉ others ∧ newer ∉ others ∧ c.segOf older = c.segOf newer ∧
    c.segOf newer < segmentsCount ∧
    (∀ x ∈ others, c x 0 ≠ none → c.segOf x ≠ c.segOf newer) ∧ c.seqOf older < c.seqOf newer ∧
    (∀ x ∈ others, c x 0 ≠ none → c.seqOf x < c.seqOf newer)) &&
  decide (0 < n ∧ n ≤ pagesPerSlot ∧ c.WrittenTo newer n ∧ 0 < e ∧ e ≤ eusPerSlot ∧
    c.WrittenTo older (e * pagesPerEu) ∧ (n < pagesPerSlot → e = eusPerSlot) ∧
    ∀ slot ∈ [older, newer], (c slot (calculateInPages (seqCheckpointSize + nBytes))).all
      (fun st => st.checkpoint != .notPart) = true) &&
  decide ((∀ seg < segmentsCount, w.segMap.segToSlot seg = noSlot) ∧
    segmentsCount ≤ w.segMap.reclaimed.segment ∧ w.segMap.newSlotId ≠ newer)

theorem TwoGenerations.of_test {nBytes : Nat} {w : World} {older newer n e : Nat} {others : List Nat}
    (h : w.generationsTest nBytes older newer n e others = true) :
    TwoGenerations nBytes w (w.flash.contents w.segMap) older newer n others := by
  unfold World.generationsTest at h
  simp only [Bool.and_eq_true, decide_eq_true_eq] at h
  obtain ⟨⟨⟨⟨hscan, hlt, hnodup, hheader, hdistinct, hblank⟩, holder, hnewer, hne, holderNot,
    hnewerNot, hsegment, hsegmentLt, hown, hseq, hnewest⟩, hpos, hle, hwritten, he, hele, hwrittenOld,
    hwhole, hcp⟩, hunmapped, hreclaimed, hnew⟩ := h
  exact ⟨.of_test hscan, ⟨hlt, hnodup, hheader, hdistinct, hblank⟩, holder, hnewer, hne, holderNot,
    hnewerNot, hsegment, hsegmentLt, hown, hseq, hnewest, hpos, hle, hwritten,
    ⟨e, he, hele, hwrittenOld, hwhole⟩,
    fun slot hmem st hst => bne_iff_ne.mp (Option.all_eq_true _ _ |>.mp (hcp slot hmem) st hst),
    hunmapped, hreclaimed, hnew⟩

/-- What `sequencingBooting` does before it scans the data slots. -/
def World.beforeScan (w : World) : Option World :=
  match (do
    modifySegMap fun _ => initSegMap
    let (_, found) ← handleReserveSegments
    let _ ← handleDoubly found
    let _ ← handleCopyBack
    modifySegMap fun m => { m with nSegments := 0 } : SeqM Unit) w with
  | .ok _ t => some t
  | .error _ _ => none

end Test

end Generations

section TinyPage
attribute [local instance] tinyPage

/-- The chip as it is scanned after a crash: the calls are made, then the power is lost in `call`
before its operation number `power`. -/
def crashed (calls : List LogCall) (call : LogCall) (power : Nat) : Option World :=
  ((LogState.booted 0 (fun _ => 0) (erasedWorld fun _ => false)).bind
    (LogState.after 0 (fun _ => 0) calls)).bind fun s =>
      match call.exec 0 (fun _ => 0)
        { s.world with flash := { s.world.flash with power := some power } } with
      | .error .powerLoss t => { t with flash := { t.flash with power := none } }.beforeScan
      | _ => none

/-- All segments are written, and the last page of the first one is marked. -/
def untilReclamation : List LogCall :=
  (List.range 24).map writeTiny ++ [.markAsObsolete ⟨0, 7⟩ false, writeTiny 24]

/-- The first segment is reclaimed to slot 5, and the power is lost before its old slot is erased.
The older slot is met first: the scan erases it. -/
theorem scanRegularSlots_resolves_tinyPage : ∃ (w : World) (c : Contents),
    wp (scanRegularSlots 0 ([] ++ 0 :: ([1, 2, 3, 4] ++ 5 :: [6, 7])))
      (fun r t => r = 0 ∧ Resolved c 0 5 8 t) (fun e _ => e = .powerLoss) w := by
  have hcheck : (crashed untilReclamation (writeTiny 25) 1).any (fun w =>
      w.generationsTest 0 0 5 8 2 [1, 2, 3, 4, 6, 7] &&
        decide ((w.flash.contents w.segMap).HeaderComplete 0 0 ∧
          (w.flash.contents w.segMap).seqOf 0 < (w.flash.contents w.segMap).seqOf 5 % 2 ^ 32 ∧
          w.flash.good (euAt 5 1) = true)) = true := by
    decide +kernel
  obtain ⟨w, -, hcheck⟩ := (Option.any_eq_true _ _).mp hcheck
  obtain ⟨htest, hseq⟩ := (Bool.and_eq_true _ _).mp hcheck
  obtain ⟨hcomplete, hseq, hgood⟩ := of_decide_eq_true hseq
  have h : TwoGenerations 0 w (w.flash.contents w.segMap) 0 5 8 ([] ++ ([1, 2, 3, 4] ++ [6, 7])) :=
    .of_test htest
  refine ⟨w, w.flash.contents w.segMap,
    (scanRegularSlots_resolves_iff h (.inl ⟨rfl, rfl⟩)).1 ?_⟩
  unfold World.Resolves
  rw [if_neg (by decide)]
  have hgood : w.flash.good (euAt 5 1) = true := hgood
  exact ⟨fun _ => ⟨rfl, hseq, euAt 5 1, .self hgood, by decide⟩, fun hno => absurd hcomplete hno⟩

/-- Then the second segment is reclaimed to slot 0, and the power is lost before its old slot is
erased.  The newer slot is met first: the scan erases the older one, and the segment has it still. -/
theorem scanRegularSlots_resolves_fails : ¬∀ (nBytes : Nat) (w : World) (c : Contents)
    (older newer n first second : Nat) (pre mid post : List Nat),
    TwoGenerations nBytes w c older newer n (pre ++ (mid ++ post)) →
    (first = older ∧ second = newer ∨ first = newer ∧ second = older) →
    wp (scanRegularSlots nBytes (pre ++ first :: (mid ++ second :: post)))
      (fun r t => r = 0 ∧ Resolved c older newer n t) (fun e _ => e = .powerLoss) w := by
  intro hall
  have hcheck : (crashed (untilReclamation ++ [.markAsObsolete ⟨1, 7⟩ false, writeTiny 25])
      (writeTiny 26) 1).any (fun w =>
        w.generationsTest 0 1 0 8 2 [2, 3, 4, 5, 6, 7] &&
        match scanRegularSlots 0 (List.range 8) w with
        | .ok _ t => t.segMap.segToSlot ((w.flash.contents w.segMap).segOf 0) != 0
        | .error _ _ => false) = true := by
    decide +kernel
  obtain ⟨w, -, hcheck⟩ := (Option.any_eq_true _ _).mp hcheck
  obtain ⟨htest, hslot⟩ := (Bool.and_eq_true _ _).mp hcheck
  have h : TwoGenerations 0 w (w.flash.contents w.segMap) 1 0 8 ([] ++ ([] ++ [2, 3, 4, 5, 6, 7])) :=
    .of_test htest
  have hwp := hall 0 w _ 1 0 8 0 1 [] [] _ h (.inr ⟨rfl, rfl⟩)
  split at hslot
  · rename_i r t hrun
    obtain ⟨-, hr⟩ := of_wp_ok hwp hrun
    unfold Resolved at hr
    rw [if_neg (by decide)] at hr
    exact bne_iff_ne.mp hslot hr.1
  · exact absurd hslot Bool.false_ne_true

end TinyPage

end NandFs
