import NandFs.WearRuns

/-! # The segment that is reclaimed

`findSegmentToReclaim` looks at the levels of the counters only.  A mark raises the level of its
segment above the lowest one, and between calls every segment with a marked page has a level that
the search takes (`Counted`), as long as no page of a segment at `OBS_COUNT_FULL` is marked: there
`markAsObsolete` leaves the level alone or raises it above the last one.
-/
namespace NandFs

open Program

section Choice
variable [Config]

/-! ## The search -/

/-- A data segment, other than the current one, that counts some obsolete pages. -/
structure ObsCounters.Counts (c : ObsCounters) (cur seg : Nat) : Prop where
  lt : seg < segmentsCount
  ne : seg ≠ cur
  some : getCounterLevel c seg ≠ obsCountNoObsoletes
  notFull : getCounterLevel c seg ≠ obsCountFull

section Search
variable {c : ObsCounters} {cur seg : Nat}

omit [Config] in
/-- The search begins at each of these levels, one after another. -/
theorem mem_levels {level : UInt8} (hle : level ≤ obsCountFull) (hnone : level ≠ obsCountNoObsoletes)
    (hfull : level ≠ obsCountFull) : level ∈ [8, 7, 6, 5, 4, 3, 2, (1 : UInt8)] :=
  forall_level (p := fun level => level ≠ obsCountNoObsoletes → level ≠ obsCountFull →
    level ∈ [8, 7, 6, 5, 4, 3, 2, (1 : UInt8)]) (by decide) hle hnone hfull

/-- What the search looks for at one level. -/
theorem find_level {level : UInt8} :
    (List.range segmentsCount).find? (fun i => decide (level ≤ getCounterLevel c i) && i != cur &&
      getCounterLevel c i != obsCountFull) = none ↔
    ∀ i < segmentsCount, i ≠ cur → getCounterLevel c i ≠ obsCountFull →
      ¬level ≤ getCounterLevel c i := by
  rw [List.find?_eq_none]
  constructor
  · intro h i hi hne hfull hle
    refine h i (List.mem_range.mpr hi) ?_
    simp [hle, hne, hfull]
  · intro h i hi hfound
    simp only [Bool.and_eq_true, decide_eq_true_eq, bne_iff_ne] at hfound
    exact h i (List.mem_range.mp hi) hfound.1.2 hfound.2 hfound.1.1

theorem segmentToReclaim_none (hlegal : c.Legal) (h : segmentToReclaim c cur = none) (j : Nat) :
    ¬c.Counts cur j := by
  rintro ⟨hlt, hne, hsome, hfull⟩
  have hslot : j < nSlots := by
    have := segmentsCount_add
    omega
  unfold segmentToReclaim at h
  have hnone := List.findSome?_eq_none_iff.mp h _ (mem_levels (hlegal j hslot) hsome hfull)
  exact find_level.mp hnone j hlt hne hfull (UInt8.le_refl _)

/-- The levels before the one where a segment is found are above it. -/
theorem segmentToReclaim_best (hlegal : c.Legal) (h : segmentToReclaim c cur = some seg) :
    c.Counts cur seg ∧ ∀ j, c.Counts cur j → getCounterLevel c j ≤ getCounterLevel c seg := by
  obtain ⟨before, level, after, hlist, hfind, hnone⟩ := List.findSome?_eq_some_iff.mp h
  have hmem := List.mem_of_find?_eq_some hfind
  have hfound := List.find?_some hfind
  simp only [Bool.and_eq_true, decide_eq_true_eq, bne_iff_ne] at hfound
  obtain ⟨⟨hle, hne⟩, hfull⟩ := hfound
  have hsorted : (before ++ level :: after).Pairwise fun a b => b < a := by
    rw [← hlist]
    decide
  obtain ⟨-, hafter, -⟩ := List.pairwise_append.mp hsorted
  have hlevel : level ≠ 0 := by
    have hin : level ∈ [8, 7, 6, 5, 4, 3, 2, (1 : UInt8)] := by
      rw [hlist]
      simp
    rintro rfl
    exact absurd hin (by decide)
  refine ⟨⟨List.mem_range.mp hmem, hne, fun h0 => hlevel ?_, hfull⟩, fun j hj => ?_⟩
  · rw [h0] at hle
    exact UInt8.le_antisymm hle (UInt8.le_iff_toNat_le.mpr (Nat.zero_le _))
  · -- a higher level would have been looked for before
    by_contra hlt
    have hlt : getCounterLevel c seg < getCounterLevel c j := UInt8.not_le.mp hlt
    have hslot : j < nSlots := by
      have := segmentsCount_add
      have := hj.lt
      omega
    have hin := mem_levels (hlegal j hslot) hj.some hj.notFull
    rw [hlist] at hin
    have hbefore : getCounterLevel c j ∈ before := by
      rcases List.mem_append.mp hin with hin | hin
      · exact hin
      · rcases List.mem_cons.mp hin with heq | hin
        · rw [heq] at hlt
          exact absurd hle (UInt8.not_le.mpr hlt)
        · have hbelow := List.rel_of_pairwise_cons hafter hin
          rw [UInt8.lt_iff_toNat_lt] at hlt hbelow
          rw [UInt8.le_iff_toNat_le] at hle
          omega
    exact find_level.mp (hnone _ hbefore) j hj.lt hj.ne hj.notFull (UInt8.le_refl _)

end Search

/-! ## Marked pages are counted -/

/-- The levels are legal, and a segment with a marked page has one that the search takes. -/
structure Counted (w : World) (c : Contents) : Prop where
  legal : w.obsCountersMap.Legal
  counts : ∀ a, MarkedAt w.segMap c a →
    getCounterLevel w.obsCountersMap a.segment ≠ obsCountNoObsoletes ∧
      getCounterLevel w.obsCountersMap a.segment ≠ obsCountFull

section Counted
variable {nBytes : Nat} {live : LogAddr → Option Block} {s t w : World} {c c' : Contents}

/-- A step that marks nothing keeps the pages counted. -/
theorem LogKept.counted (h : LogKept live s c t c') (hs : Counted s c) : Counted t c' := by
  refine ⟨h.legal hs.legal, fun a ha => ?_⟩
  obtain ⟨hmarked, hlevel⟩ := h.marked a ha
  rw [hlevel]
  exact hs.counts a hmarked

/-- So does a mark, unless it is in a segment that is full. -/
theorem LogMarked.keepsCounted {b : LogAddr} (h : LogMarked b s c t c') (hb : b.segment < nSlots)
    (hfull : ¬(MarksPage b s ∧ getCounterLevel s.obsCountersMap b.segment = obsCountFull))
    (hs : Counted s c) : Counted t c' := by
  rcases h.counted with ⟨hsame, rfl⟩ | ⟨hmarks, hset⟩
  · have hkept : LogKept (fun _ => none) s c' t c' := .of_eq (by rw [h.segMap]) (by rw [h.segMap]) hsame
    exact hkept.counted hs
  have hle := hs.legal b.segment hb
  have hset := hset hle
  obtain ⟨hnone, hlt⟩ := markedLevel_counts hle fun heq => hfull ⟨hmarks, heq⟩
  have hne : markedLevel s b.segment ≠ obsCountFull := fun heq => by
    rw [heq] at hlt
    exact absurd hlt (by decide)
  refine ⟨fun seg hseg => ?_, fun a ha => ?_⟩
  · rw [hset]
    by_cases he : seg = b.segment
    · rw [if_pos he]
      exact UInt8.le_of_lt hlt
    · rw [if_neg he]
      exact hs.legal seg hseg
  · rw [hset]
    by_cases he : a.segment = b.segment
    · rw [if_pos he]
      exact ⟨hnone, hne⟩
    · rw [if_neg he]
      have hab : a ≠ b := fun hab => he (congrArg LogAddr.segment hab)
      obtain ⟨hltn, hoff, hbehind, hmarked⟩ := ha
      rw [h.segMap] at hltn hbehind
      refine hs.counts a ⟨hltn, hoff, hbehind, ?_⟩
      rwa [← h.others a hltn hab]

/-- A page of another segment whose obsolete byte is programmed is marked in the log. -/
theorem Log.markedAt (h : Log nBytes w.flash w.segMap c) {a : LogAddr} {phy : Nat}
    (ha : a.segment < w.segMap.nSegments) (ho : a.offset < pagesPerSlot)
    (hne : a.segment ≠ w.segMap.reclaimed.segment)
    (hrun : logicalAddressToPhysical a w = .ok phy w) (hlt : phy < pageCount)
    (hobs : (w.flash.page phy).flags.obsolete = true) : MarkedAt w.segMap c a := by
  refine ⟨ha, ho, fun hs => absurd hs hne, ?_⟩
  have hslot := h.segments.phase.slotOf_data ha
  rcases h.lookup ha ho with ⟨home, hh, hfound⟩ | ⟨-, hfound⟩
  swap
  · rw [hfound] at hrun
    cases hrun
    exact absurd rfl (ne_empty_of_lt hlt)
  rw [hfound] at hrun
  cases hrun
  have hpage := h.head.layout.holds_at hslot ho hh
  rw [SegMap.stored_eq]
  cases hst : c (w.segMap.slotOf a) a.offset with
  | none =>
    rw [hst] at hpage
    have hblank : w.flash.page _ = initBuf := hpage.1
    rw [hblank] at hobs
    exact absurd hobs Bool.false_ne_true
  | some st =>
    rw [hst] at hpage
    refine ⟨st, rfl, ?_⟩
    rw [← hpage.1]
    exact hobs

end Counted

/-! ## Runs -/

/-- The store holds a log whose marked pages are counted. -/
def KeepsCount (nBytes : Nat) (w : World) : Prop :=
  ∃ c, Log nBytes w.flash w.segMap c ∧ Counted w c

/-- The runs after whose reboots the marked pages are counted. -/
abbrev CountRun (nBytes : Nat) (start : Flash → Prop) :
    ((Nat → UInt8) → LogCall → World → Prop) → World → Prop :=
  StoreRun nBytes start (KeepsCount nBytes)

/-- The call marks a page of a segment that is full. -/
def LogCall.MarksFull : LogCall → World → Prop
  | .markAsObsolete b _, w =>
    MarksPage b w ∧ getCounterLevel w.obsCountersMap b.segment = obsCountFull
  | _, _ => False

/-- The call is safe, whatever pages are live, and marks no page of a segment that is full. -/
def LogCall.SafeCount (nBytes : Nat) (data : Nat → UInt8) (call : LogCall) (w : World) : Prop :=
  call.Safe nBytes data ⟨w, fun _ => none⟩ ∧ ¬call.MarksFull w

/-- `findSegmentToReclaim` returns.  If it returns 0, it chose a data segment other than the
current one with a level that no other exceeds; if not, no other segment has an obsolete page. -/
def ReclaimsBest (w : World) : Prop :=
  ∃ res t, findSegmentToReclaim w = .ok res t ∧
    (res = 0 → ∃ seg, t = { w with segMap := { w.segMap with reclaimed := ⟨seg, 0⟩ } } ∧
      w.obsCountersMap.Counts w.segMap.reclaimed.segment seg ∧
      ∀ j, w.obsCountersMap.Counts w.segMap.reclaimed.segment j →
        getCounterLevel w.obsCountersMap j ≤ getCounterLevel w.obsCountersMap seg) ∧
    (res ≠ 0 → ∀ a : LogAddr, a.segment < segmentsCount →
      a.segment ≠ w.segMap.reclaimed.segment → a.offset < pagesPerSlot →
      ∀ phy, logicalAddressToPhysical a w = .ok phy w → phy < pageCount →
        (w.flash.page phy).flags.obsolete = false)

section Run
variable {nBytes : Nat} {data : Nat → UInt8} {w : World} {c : Contents}

/-- One call keeps the marked pages counted. -/
theorem LogCall.exec_keepsCount (call : LogCall) (h : KeepsCount nBytes w)
    (hsafe : call.SafeCount nBytes data w) : wp (call.exec nBytes data)
      (fun _ t => KeepsCount nBytes t) (fun _ _ => True) w := by
  obtain ⟨c, hlog, hcount⟩ := h
  have hlive : Live nBytes w.segMap c fun _ => none := fun _ _ hab =>
    absurd hab.symm (Option.some_ne_none _)
  have hspec := call.execOn_kept (s := ⟨w, fun _ => none⟩) Media.sound_reliable hlog hlive
    (hsafe.1.on CopyMedia.sound_reliable)
  rw [LogCall.execOn_eq CopyMedia.sound_reliable] at hspec
  refine wp_mono hspec ?_ fun _ _ _ => trivial
  rintro change t ⟨-, c', hlog', -, hkeeps⟩
  refine ⟨c', hlog', ?_⟩
  cases call with
  | allocAndWriteBlock logAddr page onlyVOTs prev => exact hkeeps.1.counted hcount
  | commit upper => exact LogKept.counted hkeeps hcount
  | findNextFreePage => exact LogKept.counted hkeeps hcount
  | markAsObsolete b isAfterReboot =>
    have hmark : CanMark b w := hsafe.1
    have hb : b.segment < nSlots := by
      have := hmark.segment
      have := hlog.segments.phase.le
      have := segmentsCount_add
      omega
    exact LogMarked.keepsCounted hkeeps hb hsafe.2 hcount
  | readBlock b => exact LogKept.counted hkeeps hcount

/-- In every run of such calls the marked pages are counted. -/
theorem keepsCount_of_run (h : CountRun nBytes (StartFits nBytes) (LogCall.SafeCount nBytes) w) :
    KeepsCount nBytes w := by
  induction h with
  | format erased ok run =>
    obtain ⟨c, hlog, hnone, hzero, -⟩ := of_wp_ok (sequencingBooting_fresh (fun a => (erased a).1)
      (fun a => (erased a).2) ok.le ok.first) run rfl
    refine ⟨c, hlog, fun seg _ => ?_, fun a ha => ?_⟩
    · have hlevel : getCounterLevel _ seg = Nibbles.read (fun _ => 0) seg :=
        congrArg (Nibbles.read · seg) hzero
      rw [hlevel, Nibbles.read_zero]
      decide
    · obtain ⟨st, hst, hobs⟩ := ha.marked
      rw [SegMap.stored_eq] at hst
      rw [hnone _ _ st hst] at hobs
      exact absurd hobs Bool.false_ne_true
  | recovered h => exact h
  | @call w t data call change _ ok run ih =>
    have hkeep := of_wp_ok (call.exec_keepsCount ih ok) run
    exact hkeep

theorem findSegmentToReclaim_run (hall : ∀ seg, segmentToReclaim w.obsCountersMap
      w.segMap.reclaimed.segment = some seg → seg % 4096 = seg) :
    findSegmentToReclaim w = match segmentToReclaim w.obsCountersMap w.segMap.reclaimed.segment with
      | some seg => .ok 0 { w with segMap := { w.segMap with reclaimed := ⟨seg, 0⟩ } }
      | none => .ok 1 w := by
  unfold findSegmentToReclaim
  rw [bind_ok (show (get : SeqM World) w = .ok w w from rfl)]
  cases hseg : segmentToReclaim w.obsCountersMap w.segMap.reclaimed.segment with
  | none => rfl
  | some seg =>
    show EStateM.Result.ok 0 { w with segMap := { w.segMap with reclaimed := ⟨seg % 4096, 0⟩ } } = _
    rw [hall seg hseg]

/-- Where the marked pages are counted, the best segment is found if there is one. -/
theorem KeepsCount.reclaimsBest (h : KeepsCount nBytes w)
    (hall : w.segMap.allSegmentsAllocated = true) : ReclaimsBest w := by
  obtain ⟨c, hlog, hcount⟩ := h
  have hn : w.segMap.nSegments = segmentsCount := beq_iff_eq.mp hall
  have hrun := findSegmentToReclaim_run (w := w) fun seg hseg => by
    have := segmentToReclaim_lt hseg
    have := segmentsCount_add
    have := nSlots_le
    exact Nat.mod_eq_of_lt (by omega)
  cases hseg : segmentToReclaim w.obsCountersMap w.segMap.reclaimed.segment with
  | some seg =>
    rw [hseg] at hrun
    exact ⟨0, _, hrun, fun _ => ⟨seg, rfl, segmentToReclaim_best hcount.legal hseg⟩,
      fun hno => absurd rfl hno⟩
  | none =>
    rw [hseg] at hrun
    refine ⟨1, w, hrun, fun hno => absurd hno Nat.one_ne_zero, fun _ a ha hne ho phy hphy hlt => ?_⟩
    refine Bool.eq_false_of_not_eq_true fun hobs => ?_
    have hmarked := hlog.markedAt (by rw [hn]; exact ha) ho hne hphy hlt hobs
    obtain ⟨hsome, hfull⟩ := hcount.counts a hmarked
    exact segmentToReclaim_none hcount.legal hseg a.segment ⟨ha, hne, hsome, hfull⟩

/-- In every run of safe calls that mark no page of a segment that is full, the best segment to
reclaim is found whenever all segments exist, and one is found if any has an obsolete page. -/
theorem reclaimsBest_of_run (h : CountRun nBytes (StartFits nBytes) (LogCall.SafeCount nBytes) w)
    (hall : w.segMap.allSegmentsAllocated = true) : ReclaimsBest w :=
  (keepsCount_of_run h).reclaimsBest hall

end Run

/-! ## Runs on small chips -/

/-- `LogCall.SafeCount`, where a segment change is followed by a free page. -/
def LogCall.countTest (nBytes : Nat) (data : Nat → UInt8) (call : LogCall) (w : World) : Bool :=
  call.safeTest nBytes data ⟨w, fun _ => none⟩ &&
    match call with
    | .markAsObsolete b _ => getCounterLevel w.obsCountersMap b.segment != obsCountFull
    | _ => true

theorem LogCall.safeCount_of_test {nBytes : Nat} {data : Nat → UInt8} {w : World} {call : LogCall}
    (h : call.countTest nBytes data w = true) :
    call.SafeCount nBytes data w := by
  obtain ⟨hsafe, hfull⟩ := (Bool.and_eq_true _ _).mp h
  refine ⟨LogCall.safe_of_test hsafe, ?_⟩
  cases call with
  | markAsObsolete b isAfterReboot => exact fun hmarks => bne_iff_ne.mp hfull hmarks.2
  | _ => exact not_false

end Choice

section TinyPage
attribute [local instance] tinyPage

/-- All segments are written, and a page of the second and of the third are marked: one of them
is reclaimed and the other is chosen next. -/
theorem reclaimsBest_of_run_tinyPage : ∃ w : World, w.segMap.allSegmentsAllocated = true ∧
    segmentToReclaim w.obsCountersMap w.segMap.reclaimed.segment = some 2 ∧ ReclaimsBest w := by
  have hcheck : (((LogState.booted 48 (fun _ => 0) (erasedWorld fun _ => false)).map
      LogState.world).bind (World.afterCalls (LogCall.countTest 48 fun _ => 0) 48 (fun _ => 0)
        ((List.range 9).map writeTiny ++
          [.markAsObsolete ⟨1, 7⟩ false, .markAsObsolete ⟨2, 7⟩ false, writeTiny 9]))).any
      (fun w => w.segMap.allSegmentsAllocated &&
        segmentToReclaim w.obsCountersMap w.segMap.reclaimed.segment == some 2) = true := by
    decide +kernel
  obtain ⟨w, hw, hcheck⟩ := (Option.any_eq_true _ _).mp hcheck
  obtain ⟨hall, hchoice⟩ := (Bool.and_eq_true _ _).mp hcheck
  obtain ⟨u, hu, hw⟩ := Option.bind_eq_some_iff.mp hw
  obtain ⟨r, hr, rfl⟩ := Option.map_eq_some_iff.mp hu
  have hrun : CountRun 48 (StartFits 48) (LogCall.SafeCount 48) w :=
    .afterCalls (fun _ _ => LogCall.safeCount_of_test)
      (.booted (fun _ => ⟨rfl, rfl⟩) ⟨by decide, fun _ _ _ => ⟨rfl, rfl⟩⟩ hr) hw
  exact ⟨w, hall, beq_iff_eq.mp hchoice, reclaimsBest_of_run hrun hall⟩

end TinyPage

end NandFs
