import NandFs.LogLookup

/-! # A formatted chip holds an empty log

Formatting writes the headers of the reserve segments, at the start of an erase unit each, and
the header of the first segment; all other pages are blank (`BlankButHeaders`).
-/
namespace NandFs

open Program

variable [Config]

/-- The chip is blank but for reserve headers, in the first valid erase units of their slots, and its
bad erase units are `bad`. -/
structure BlankButHeaders (bad : Nat → Bool) (f : Flash) : Prop where
  badEu : f.badEu = bad
  page : ∀ a, f.page a = initBuf ∧ f.mainAreaWrites a = false ∨
    calcOffsetInEu a = 0 ∧ getSlot a ∈ reserveSegments ∧ f.validEuAt (getSlot a) 1 = a ∧
      (f.page a).flags.slotEuOffset = reserveEuIsHeader

section Blank
variable {bad : Nat → Bool} {f t : Flash} {m : SegMap}

theorem BlankButHeaders.erased (h : BlankButHeaders bad f) {eu : Nat} (ht : f.Erased eu t) :
    BlankButHeaders bad t := by
  refine ⟨ht.badEu.trans h.badEu, fun a => ?_⟩
  by_cases ha : calcEuStart a = eu
  · exact .inl ⟨by rw [ht.page_eq, if_pos ha], by rw [ht.writes, if_pos ha]⟩
  · rw [ht.page_eq, ht.writes, if_neg ha, if_neg ha, Flash.validEuAt_congr ht.badEu]
    exact h.page a

theorem formatInvariant_blankButHeaders : FormatInvariant (BlankButHeaders bad) where
  erase f eu h := by
    refine ⟨h.badEu, fun a => ?_⟩
    show (if calcEuStart a = eu then initBuf else f.page a) = _ ∧
      (if calcEuStart a = eu then false else f.mainAreaWrites a) = _ ∨ _ ∧ _ ∧ f.validEuAt _ 1 = _ ∧
      (if calcEuStart a = eu then initBuf else f.page a).flags.slotEuOffset = _
    by_cases ha : calcEuStart a = eu
    · rw [if_pos ha, if_pos ha]
      exact .inl ⟨rfl, rfl⟩
    · rw [if_neg ha, if_neg ha]
      exact h.page a
  power f power h := ⟨h.badEu, h.page⟩
  header f page a total hoff hslot hvalid hflag h := by
    refine ⟨h.badEu, fun b => ?_⟩
    have hsame : ∀ slot, (f.program page a total).validEuAt slot 1 = f.validEuAt slot 1 :=
      fun slot => Flash.validEuAt_congr rfl slot 1
    rw [hsame]
    unfold Flash.program
    by_cases hb : b = a
    · subst hb
      simp only [Function.update_self]
      exact .inr ⟨hoff, hslot, hvalid, hflag⟩
    · simp only [Function.update_of_ne hb]
      exact h.page b

/-- Nothing is written in a slot of a data segment. -/
theorem BlankButHeaders.layout (h : BlankButHeaders bad f)
    (hres : ∀ seg ∈ reserveSegments, m.segToSlot seg = seg) :
    Layout f m fun _ _ => none := by
  have hin : m.ReservesInChip := by
    intro seg hseg
    rw [hres seg hseg]
    exact (mem_reserveSegments.mp hseg).2
  -- no reserve erase unit stands for another
  have hno : ∀ {p a}, p < 2 ^ 23 → f.standsFor p a = false := by
    intro p a hp
    rw [← Bool.not_eq_true]
    intro hst
    have hflag := (Flash.standsFor_iff.mp hst).2.1
    rcases h.page a with ⟨hblank, -⟩ | ⟨-, -, -, hheader⟩
    · rw [hblank] at hflag
      exact place_ne_empty hp hflag.symm
    · rw [hheader] at hflag
      unfold reserveEuIsHeader at hflag
      omega
  constructor
  · exact hin
  · intro slot eu home hs he hh i hi
    cases hh with
    | self =>
      refine (h.page _).resolve_right fun hheader => ?_
      have hslot : getSlot (euAt slot eu + i) = slot := getSlot_euAt he hi
      rw [hslot] at hheader
      exact hs.data slot hheader.2.1 (hres slot hheader.2.1)
    | reserve _ _ stands =>
      rw [hno (place_lt hs.lt he)] at stands
      exact absurd stands Bool.false_ne_true
  · intro slot eu hs he hbad
    refine iff_of_false ?_ (not_not_intro fun _ _ => rfl)
    rintro ⟨home, good | ⟨_, _, stands⟩⟩
    · rw [hbad] at good
      exact absurd good Bool.false_ne_true
    · rw [hno (place_lt hs.lt he)] at stands
      exact absurd stands Bool.false_ne_true
  · intro eu hmem hfree i hi
    refine (h.page _).resolve_right fun hheader => ?_
    have hoff := (hin.isEu_reserve hmem).calcOffsetInEu_add hi
    rw [hheader.1] at hoff
    subst hoff
    have hflag := hheader.2.2.2
    rw [Nat.add_zero, hfree.2] at hflag
    exact absurd hflag (by decide)
  · intro p eu eu' hp _ _ hst
    rw [hno hp] at hst
    exact absurd hst Bool.false_ne_true
  · rintro seg eu home hseg he hbad (good | ⟨_, _, stands⟩)
    · rw [hbad] at good
      exact absurd good Bool.false_ne_true
    · rw [hno (place_lt (hin seg hseg) he)] at stands
      exact absurd stands Bool.false_ne_true

/-- The copy-back unit is blank: the header of its slot is in the erase unit before. -/
theorem BlankButHeaders.copyBackFree (h : BlankButHeaders bad f)
    (hslot : m.segToSlot firstReserveSegment = firstReserveSegment)
    (hcb : f.validEuAt firstReserveSegment 2 ≠ phyAddressEmpty) : CopyBackFree f m := by
  have hvalid : f.copyBackEu m ≠ phyAddressEmpty := by
    rw [Flash.copyBackEu, hslot]
    exact hcb
  have hin : getSlot (f.copyBackEu m) = firstReserveSegment := by
    obtain ⟨k, hk, heq⟩ := Flash.copyBackEu_eq hvalid
    rw [heq, hslot, ← Nat.add_zero (euAt _ k), getSlot_euAt hk pagesPerEu_pos]
  refine ⟨hvalid, (Flash.validEuAt_spec hvalid).2, ?_⟩
  rcases h.page (f.copyBackEu m) with ⟨hblank, -⟩ | ⟨-, -, hfirst, -⟩
  · rw [hblank]
    rfl
  · have hlt := Flash.validEuAt_one_lt hvalid
    rw [hin] at hfirst
    rw [hslot, hfirst, Flash.copyBackEu, hslot] at hlt
    exact absurd hlt (Nat.lt_irrefl _)

end Blank

/-! ## The first segment -/

section First
variable {nBytes : Nat} {data : Nat → UInt8} {bad : Nat → Bool} {t u : World}

theorem euAt_zero : euAt 0 0 = 0 := by
  unfold euAt calcAddress
  rw [Nat.zero_mul, Nat.zero_mul]

/-- The map when the header of the first segment is about to be written. -/
def SegMap.first (m : SegMap) : SegMap :=
  (({ m with newSlotId := 0 }.setSlotForSeg 0 0).setReclaimedOffset 0).setReclaimedSegment 0

omit [Config] in
theorem SegMap.first_slot_of_ne {m : SegMap} {seg : Nat} (h : seg ≠ 0) :
    m.first.segToSlot seg = m.segToSlot seg := Function.update_of_ne h _ _

/-- A blank chip, the first segment about to be opened. -/
theorem BlankButHeaders.head_first {f : Flash} {m : SegMap} (h : BlankButHeaders bad f)
    (hm : m.Owns (· ∈ reserveSegments)) {x : Bool} {y : Nat}
    (hcb : f.validEuAt firstReserveSegment 2 ≠ phyAddressEmpty)
    (hno : x = false → y = phyAddressEmpty) :
    Head f (m.first.placing x y) fun _ _ => none := by
  have hres : ∀ seg ∈ reserveSegments, m.first.segToSlot seg = seg := by
    intro seg hseg
    have := mem_reserveSegments.mp hseg
    have := firstReserveSegment_eq
    rw [SegMap.first_slot_of_ne (by omega)]
    exact ((hm seg).resolve_right fun hr => hr.1 hseg).2
  have hslots := nSlots_ge
  have hseg := segmentsCount_add
  refine ⟨h.layout hres, ?_, hno, ⟨by show 0 < nSlots; omega, fun seg hmem => ?_⟩, fun _ => ?_,
    Nat.zero_le _, fun o _ => ?_, fun h0 => absurd (Nat.zero_mod _) h0⟩
  · rw [show (m.first.placing x y).segToSlot firstReserveSegment = firstReserveSegment from
      hres _ firstReserveSegment_mem]
    exact hcb
  · rw [show (m.first.placing x y).segToSlot seg = seg from hres seg hmem]
    have := mem_reserveSegments.mp hmem
    have := firstReserveSegment_eq
    show seg ≠ 0
    omega
  · show Function.update m.segToSlot 0 0 0 = 0
    exact Function.update_self _ _ _
  · exact iff_of_false (not_not_intro rfl) (Nat.not_lt_zero o)

/-- No page that was written is marked. -/
def Contents.NoneObsolete (c : Contents) : Prop :=
  ∀ slot o st, c slot o = some st → st.obsolete = false

/-- The first segment is opened: its header is written, and nothing else. -/
theorem handleFlashIsEmpty_log (hu : FormattingWith (BlankButHeaders bad) (· ∈ reserveSegments) u)
    (hn : u.segMap.nSegments = 0)
    (hcb : u.flash.validEuAt firstReserveSegment 2 ≠ phyAddressEmpty)
    (hle : headerPages nBytes ≤ pagesPerSlot) (hfits : HeaderFits nBytes u.flash 0) :
    wp (handleFlashIsEmpty (checkpointWriter data nBytes))
      (fun res v => res = 0 → ∃ c, Head v.flash v.segMap c ∧
        v.segMap.headOffset = headerPages nBytes ∧ (∀ slot, slot ≠ 0 → ∀ o, c slot o = none) ∧
        c.NoneObsolete ∧ v.levels = u.levels ∧ CopyBackSpared v.flash v.segMap)
      (fun _ _ => True) u := by
  obtain ⟨⟨hblank, hres, haddr⟩, -, howns⟩ := hu
  have hslots := nSlots_ge
  have hseg := segmentsCount_add
  have hzero : IsEu 0 := by
    have h : IsEu (euAt 0 0) := isEu_euAt (by omega) eusPerSlot_pos
    rwa [euAt_zero] at h
  have hsegment : (0 : Nat) ≠ noSegmentNum := by
    unfold noSegmentNum
    omega
  have hfirst : u.segMap.first.segToSlot firstReserveSegment = firstReserveSegment := by
    have := firstReserveSegment_eq
    rw [SegMap.first_slot_of_ne (by omega)]
    exact ((howns _).resolve_right fun hr => hr.1 firstReserveSegment_mem).2
  -- once the erase unit of the header is erased, the header is written
  have hopen : ∀ x y eu, IsEu eu → u.flash.good eu = true → (x = false → y = phyAddressEmpty) →
      (x = true → u.flash.good 0 = false) →
      (x = true → y ≠ u.flash.validEuAt firstReserveSegment 2) →
      (∀ f, BlankButHeaders bad f → f.badEu = u.flash.badEu → f.page eu = initBuf →
        HeadPlaced f (u.segMap.first.placing x y)) →
      wp (seqVerify (nandErase eu) <|
        seqVerify (writeSegmentHeader (checkpointWriter data nBytes)) do
          modifySegMap fun m => { m with nSegments := m.nSegments + 1 }
          pure 0)
        (fun res v => res = 0 → ∃ c, Head v.flash v.segMap c ∧
          v.segMap.headOffset = headerPages nBytes ∧ (∀ slot, slot ≠ 0 → ∀ o, c slot o = none) ∧
          c.NoneObsolete ∧ v.levels = u.levels ∧ CopyBackSpared v.flash v.segMap)
        (fun _ _ => True) { u with segMap := u.segMap.first.placing x y } := by
    intro x y eu heu hgood hno hbad hnotcb hplaced
    refine wp_seqVerify (wp_nandErase heu hgood (fun f hf _ => ?_) fun _ => trivial)
    have hfbad : f.badEu = u.flash.badEu := hf.badEu
    have hfblank := hblank.erased hf
    have hfgood : ∀ a, f.good a = u.flash.good a := Flash.good_congr hfbad
    have hpage : f.page eu = initBuf := by rw [hf.page_eq, if_pos heu.calcEuStart_self]
    have hhead := hfblank.head_first howns (x := x) (y := y)
      (by rw [Flash.validEuAt_congr hfbad]; exact hcb) hno
    have hspared : CopyBackSpared f (u.segMap.first.placing x y) := by
      refine CopyBackFree.placing (hfblank.copyBackFree hfirst ?_) fun hx => ?_
      · rw [Flash.validEuAt_congr hfbad]
        exact hcb
      · rw [Flash.copyBackEu, hfirst, Flash.validEuAt_congr hfbad]
        exact hnotcb hx
    have hopening : Opening nBytes f (u.segMap.first.placing x y) fun _ _ => none := by
      refine ⟨hhead, hle, hsegment, fun hx => ?_, fun e hpos hlt => ?_⟩
      · show f.good (euAt 0 0) = false
        rw [euAt_zero, hfgood]
        exact hbad hx
      · rw [hfgood, hfgood]
        exact hfits e hpos hlt
    rw [if_neg (not_not_intro rfl)]
    refine wp_seqVerify (wp_writeSegmentHeader (fun _ => trivial) hopening (Nat.zero_mod _)
      (hplaced f hfblank hfbad hpage) fun v c' hv hend _ _ => ?_)
    rw [if_neg (not_not_intro rfl), wp_bind, wp_modifySegMap, wp_pure]
    intro _
    have hvh := hv.opening.head
    have hv0 : v.segMap.newSlotId = 0 := congrArg Mapping.newSlotId hv.mapping
    have hvr : v.segMap.reclaimedSegmentSlot = v.segMap.newSlotId := hvh.growing (by
      rw [isStateReclamation_congr hv.mapping]
      show (u.segMap.nSegments == segmentsCount && _) = false
      rw [hn, Bool.and_eq_false_iff]
      exact .inl (beq_eq_false_iff_ne.mpr (by omega)))
    refine ⟨c', ⟨hvh.layout.congr fun _ _ => rfl, hvh.copyBack, hvh.notReserve,
      ⟨hvh.newSlot.lt, hvh.newSlot.data⟩, fun _ => hvr, hvh.le, hvh.written, fun hin =>
        (hvh.placed hin).congr rfl rfl rfl rfl rfl⟩, hend, fun slot hs o => ?_,
        fun slot o st hst => ?_, congrArg ObsCounters.counters hv.obsCountersMap,
        (hv.spared hspared).congr rfl rfl rfl⟩
    · rcases hv.extended slot o with heq | ⟨hslot, -⟩
      · exact heq
      · exact absurd hslot hs
    · refine Bool.eq_false_of_not_eq_true fun hobs => ?_
      exact absurd (hv.extended.eq_of_marked hst hobs).symm (Option.some_ne_none st)
  have hplacing : u.segMap.first = u.segMap.first.placing false phyAddressEmpty := by
    show u.segMap.first = { u.segMap.first with
      isEuReserve := false, reserveEuAddr := phyAddressEmpty }
    rw [← hres, ← haddr]
    rfl
  unfold handleFlashIsEmpty firstEu
  rw [wp_bind, wp_modifySegMap, wp_bind, wp_modifySegMap, wp_bind, wp_bind]
  show wp (nandCheckEuStatus 0) _ _ { u with segMap := u.segMap.first }
  refine wp_nandCheckEuStatus (fun _ => wp_ite (fun hgood => ?_) fun hbad => ?_) trivial
  · rw [wp_pure, hplacing]
    exact hopen false phyAddressEmpty 0 hzero hgood (fun _ => rfl)
      (fun h => absurd h Bool.false_ne_true) (fun h => absurd h Bool.false_ne_true)
      fun f _ hf _ => .home rfl (by
        show f.good (euAt 0 (0 / pagesPerEu)) = true
        rw [Nat.zero_div, euAt_zero, Flash.good, hf, ← Flash.good]
        exact hgood)
  · -- the first erase unit is bad: a reserve erase unit stands for it
    have hbad : u.flash.good 0 = false := Bool.eq_false_iff.mpr hbad
    have hhead := hblank.head_first howns (x := false) (y := phyAddressEmpty) hcb fun _ => rfl
    obtain ⟨r, halloc, hr⟩ := allocReserveEU_free (s := { u with segMap := u.segMap.first })
      (hhead.layout.congr fun _ _ => rfl).reserves rfl hhead.copyBack hzero
    rw [wp_bind, wp_ok_iff halloc, wp_bind]
    refine wp_assert (fun hne => ?_) trivial
    obtain ⟨mem, hfree⟩ := hr.resolve_left (of_decide_eq_true hne)
    have free := Flash.isFree_of_freeEu hfree
    rw [wp_bind, wp_modifySegMap, wp_pure]
    refine hopen true r r (hhead.layout.reserves.isEu_reserve (mem.congr fun _ _ => rfl)) free.1
      (fun h => absurd h.symm Bool.false_ne_true) (fun _ => hbad) (fun _ => ?_)
      fun f hf hfbad hpage => ?_
    · rw [← hfirst]
      exact (Flash.freeEu_iff.mp hfree).2.1.symm
    have hfgood : ∀ a, f.good a = u.flash.good a := Flash.good_congr hfbad
    refine (hf.head_first howns (x := true) (y := r) ?_ fun h =>
      absurd h.symm Bool.false_ne_true).placed_reserve pagesPerSlot_pos (Nat.zero_mod _) ?_
      (mem.congr fun _ _ => rfl) ⟨?_, ?_⟩
    · rw [Flash.validEuAt_congr hfbad]
      exact hcb
    · show f.good (euAt 0 (0 / pagesPerEu)) = false
      rw [Nat.zero_div, euAt_zero, hfgood, hbad]
    · rw [hfgood]
      exact free.1
    · rw [hpage]
      rfl

/-- A formatted chip holds a log in which no page is marked, and no obsolete page is counted. -/
theorem sequencingBooting_fresh {s : World} (herased : AllPages (· = initBuf) s)
    (hwrites : ∀ a, s.flash.mainAreaWrites a = false)
    (hle : headerPages nBytes ≤ pagesPerSlot) (hfits : HeaderFits nBytes s.flash 0) :
    wp (sequencingBooting data nBytes (checkpointWriter data nBytes))
      (fun r t => r.1 = 0 → ∃ c, Log nBytes t.flash t.segMap c ∧ c.NoneObsolete ∧
        (t.levels = fun _ => 0) ∧ CopyBackSpared t.flash t.segMap) (fun _ _ => True) s := by
  have hblank : BlankButHeaders s.flash.badEu s.flash :=
    ⟨rfl, fun a => .inl ⟨herased a, hwrites a⟩⟩
  refine sequencingBooting_formatting formatInvariant_blankButHeaders data nBytes herased hblank
    fun t u ht ⟨cb, hcb, hne⟩ hu hmap hzero => ?_
  have hreserves : t.segMap.ReservesInChip := by
    intro seg hseg
    rw [((ht.2.2 seg).resolve_right fun h => h.1 hseg).2]
    exact (mem_reserveSegments.mp hseg).2
  have hn : u.segMap.nSegments = 0 := by rw [hmap]
  have hucb : u.flash.validEuAt firstReserveSegment 2 ≠ phyAddressEmpty := by
    have hslot : t.segMap.segToSlot firstReserveSegment = firstReserveSegment :=
      ((ht.2.2 _).resolve_right fun h => h.1 firstReserveSegment_mem).2
    rw [getCopybackEu_run hreserves, hslot] at hcb
    rw [Flash.validEuAt_congr (hu.1.1.badEu.trans ht.1.1.badEu.symm),
      (EStateM.Result.ok.inj hcb).1]
    exact hne
  have hufits : HeaderFits nBytes u.flash 0 := by
    intro e hpos hlt
    rw [Flash.good_congr hu.1.1.badEu, Flash.good_congr hu.1.1.badEu]
    exact hfits e hpos hlt
  have hlog := @handleFlashIsEmpty_log _ _ data _ _ hu hn hucb hle hufits
  have hgrow := handleFlashIsEmpty_spec (s := u)
    (show Frame World.mapping (checkpointWriter data nBytes true) from
      frame_commit_header _ _ _) hu.2.2 hn
  refine wp_mono (wp_and hlog hgrow) ?_ fun _ _ _ => trivial
  rintro res v ⟨hlog, hgrow⟩ h0
  obtain ⟨c, hhead, hoff, hblank, hnone, hlevels, hspared⟩ := hlog h0
  have hgrow := hgrow h0
  have hpages : 0 < headerPages nBytes := by
    unfold headerPages
    omega
  -- only slot 0 is written, so it is the new slot
  have hcur : v.segMap.reclaimed.segment = 0 := by
    have hnew : v.segMap.newSlotId = v.segMap.reclaimed.segment := hgrow.newSlot
    by_contra hne
    exact (hhead.written 0 pagesPerSlot_pos).mpr (by omega)
      (hblank v.segMap.newSlotId (by omega) 0)
  refine ⟨c, ⟨hhead, ⟨.inl hgrow, fun seg hseg hne => ?_, fun hrec => ?_, fun _ slot hlt _ o _ =>
    hblank slot (by omega) o⟩, hle, .inr (by omega)⟩, hnone, hlevels.trans hzero, hspared⟩
  · have hnext : v.segMap.reclaimed.segment + 1 = v.segMap.nSegments := hgrow.current
    omega
  · rw [Mapping.Growing.not_reclamation hgrow] at hrec
    exact absurd hrec Bool.false_ne_true

/-- A formatted chip holds a log in which nothing is live. -/
theorem sequencingBooting_log {s : World} (herased : AllPages (· = initBuf) s)
    (hwrites : ∀ a, s.flash.mainAreaWrites a = false)
    (hle : headerPages nBytes ≤ pagesPerSlot) (hfits : HeaderFits nBytes s.flash 0) :
    wp (sequencingBooting data nBytes (checkpointWriter data nBytes))
      (fun r t => r.1 = 0 → KeepsLive nBytes (fun _ => none) t) (fun _ _ => True) s := by
  refine wp_mono (sequencingBooting_fresh herased hwrites hle hfits) (fun r t ht h0 => ?_)
    fun _ _ _ => trivial
  obtain ⟨c, hlog, -⟩ := ht h0
  exact ⟨c, hlog, fun _ _ hab => absurd hab.symm (Option.some_ne_none _)⟩

end First

end NandFs
