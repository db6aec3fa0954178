import NandFs.NandRules
import NandFs.Format
import NandFs.Nibbles

/-! # The levels of the obsolete counters

A call that counts stores one half byte, so it changes the level of one segment as long as the
level fits.  `increment_counter` stops at `OBS_COUNT_LEVEL_7` but not at `OBS_COUNT_FULL`, which
`findNextFreePage` stores for a segment it copied whole: from there it stores a level above the
last one.  `is_flash_full` does not read half bytes at all.
-/
namespace NandFs

open Program Config

section Levels
variable [Config]

omit [Config] in
theorem getCounterLevel_eq (c : ObsCounters) (segId : Nat) :
    getCounterLevel c segId = Nibbles.read c.counters segId := rfl

/-- No counter is above the last level. -/
def ObsCounters.Legal (c : ObsCounters) : Prop :=
  ∀ segId < nSlots, getCounterLevel c segId ≤ obsCountFull

/-- The calls that count: a page is marked, a counter is incremented, or it is set to one of the
levels. -/
inductive CounterCall
  | markAsObsolete (b : LogAddr) (isAfterReboot : Bool)
  | incrementCounter (segId : Nat)
  | changeCounterLevel (level : { level : UInt8 // level ≤ obsCountFull }) (segId : Nat)

namespace CounterCall

/-- The segment whose counter the call is about. -/
def segment : CounterCall → Nat
  | markAsObsolete b _ => b.segment
  | incrementCounter segId => segId
  | changeCounterLevel _ segId => segId

def exec : CounterCall → SeqM Unit
  | markAsObsolete b isAfterReboot => do let _ ← NandFs.markAsObsolete b isAfterReboot
  | incrementCounter segId => NandFs.incrementCounter segId
  | changeCounterLevel level segId => NandFs.changeCounterLevel level.val segId

end CounterCall

/-- The page at `b` is one that can be marked now: it is found on the chip, it is not marked,
and its obsolete byte can be programmed. -/
def MarksPage (b : LogAddr) (w : World) : Prop :=
  ∃ phyAddr, logicalAddressToPhysical b w = .ok phyAddr w ∧ phyAddr < pageCount ∧
    (w.flash.page phyAddr).flags.obsolete = false ∧ w.flash.spareWrites phyAddr = false ∧
    w.flash.power ≠ some 0

/-- The call comes to `increment_counter`; a mark does when the toss comes up. -/
def CounterCall.Increments : CounterCall → World → Prop
  | markAsObsolete b _, w => MarksPage b w ∧ w.lfsrState.toNat % 2 ^ (powPagesPerSlot - 3) = 0
  | incrementCounter _, _ => True
  | changeCounterLevel _ _, _ => False

/-- The call increments a counter that is at the last level. -/
def CounterCall.Overruns (call : CounterCall) (w : World) : Prop :=
  getCounterLevel w.obsCountersMap call.segment = obsCountFull ∧ call.Increments w

/-- From `w` to `t` the call keeps every level legal and the levels of other segments. -/
structure CounterCall.Keeps (call : CounterCall) (w t : World) : Prop where
  legal : t.obsCountersMap.Legal
  others : ∀ segId < nSlots, segId ≠ call.segment →
    getCounterLevel t.obsCountersMap segId = getCounterLevel w.obsCountersMap segId

/-- Each call of the run, from `w`, keeps the levels. -/
def KeepsLevels (calls : List CounterCall) (w : World) : Prop :=
  Always CounterCall.exec CounterCall.Keeps calls w

/-- No call of the run, from `w`, increments a counter that is at the last level. -/
def NeverOverruns (calls : List CounterCall) (w : World) : Prop :=
  Meets CounterCall.exec (fun call w => ¬call.Overruns w) calls w

/-! ## What a call stores -/

/-- From `w` to `t` the level of `segId` has become `level`, and no other has changed. -/
def LevelSet (segId : Nat) (level : UInt8) (w t : World) : Prop :=
  ∀ s, getCounterLevel t.obsCountersMap s =
    if s = segId then level else getCounterLevel w.obsCountersMap s

theorem LevelSet.unchanged {w t : World} (segId : Nat)
    (h : t.obsCountersMap.counters = w.obsCountersMap.counters) :
    LevelSet segId (getCounterLevel w.obsCountersMap segId) w t := by
  intro s
  rw [getCounterLevel_eq, h, ← getCounterLevel_eq]
  by_cases hs : s = segId
  · rw [if_pos hs, hs]
  · rw [if_neg hs]

theorem LevelSet.write {w t : World} {segId : Nat} {level : UInt8} (hlevel : level < 16)
    (h : t.obsCountersMap.counters = Nibbles.write w.obsCountersMap.counters segId level) :
    LevelSet segId level w t := by
  intro s
  rw [getCounterLevel_eq, h]
  by_cases hs : s = segId
  · rw [if_pos hs, hs, Nibbles.read_write_self _ hlevel]
  · rw [if_neg hs, Nibbles.read_write_of_ne hlevel (Ne.symm hs)]
    rfl

/-- Whether the call keeps the levels depends on the level it stores. -/
theorem LevelSet.keeps_iff {call : CounterCall} {level : UInt8} {w t : World}
    (h : LevelSet call.segment level w t) (hlegal : w.obsCountersMap.Legal)
    (hseg : call.segment < nSlots) : call.Keeps w t ↔ level ≤ obsCountFull := by
  constructor
  · intro hkeeps
    have hle := hkeeps.legal _ hseg
    rwa [h, if_pos rfl] at hle
  · intro hle
    refine ⟨fun s hs => ?_, fun s _ hne => by rw [h, if_neg hne]⟩
    rw [h]
    by_cases hcall : s = call.segment
    · rwa [if_pos hcall]
    · rw [if_neg hcall]
      exact hlegal s hs

/-- The level that `increment_counter` stores. -/
def incrementedLevel (level : UInt8) : UInt8 := if level = obsCountLevel7 then level else level + 1

omit [Config] in
theorem forall_level {p : UInt8 → Prop} (h : ∀ n : Fin 10, p (UInt8.ofNat n)) {level : UInt8}
    (hle : level ≤ obsCountFull) : p level :=
  Nibbles.forall_below h (Nat.lt_succ_of_le (UInt8.le_iff_toNat_le.mp hle))

omit [Config] in
theorem level_lt {level : UInt8} (hle : level ≤ obsCountFull) : level < 16 :=
  forall_level (p := fun level => level < 16) (by decide) hle

omit [Config] in
theorem incrementedLevel_lt {level : UInt8} (hle : level ≤ obsCountFull) :
    incrementedLevel level < 16 :=
  forall_level (p := fun level => incrementedLevel level < 16) (by decide) hle

/-- The level that a mark of a page of the segment stores. -/
def markedLevel (w : World) (segId : Nat) : UInt8 :=
  if getCounterLevel w.obsCountersMap segId = obsCountNoObsoletes then obsCountLevel0
  else if w.lfsrState.toNat % 2 ^ (powPagesPerSlot - 3) = 0 then
    incrementedLevel (getCounterLevel w.obsCountersMap segId)
  else getCounterLevel w.obsCountersMap segId

omit [Config] in
theorem incrementedLevel_le_iff {level : UInt8} (hle : level ≤ obsCountFull) :
    incrementedLevel level ≤ obsCountFull ↔ level ≠ obsCountFull :=
  forall_level (p := fun level => incrementedLevel level ≤ obsCountFull ↔ level ≠ obsCountFull)
    (by decide) hle

theorem markedLevel_le_iff {w : World} {segId : Nat}
    (hle : getCounterLevel w.obsCountersMap segId ≤ obsCountFull) :
    markedLevel w segId ≤ obsCountFull ↔
      ¬(getCounterLevel w.obsCountersMap segId = obsCountFull ∧
        w.lfsrState.toNat % 2 ^ (powPagesPerSlot - 3) = 0) := by
  unfold markedLevel
  by_cases hnone : getCounterLevel w.obsCountersMap segId = obsCountNoObsoletes
  · rw [if_pos hnone, hnone]
    exact iff_of_true (by decide) fun h => absurd h.1 (by decide)
  rw [if_neg hnone]
  by_cases htoss : w.lfsrState.toNat % 2 ^ (powPagesPerSlot - 3) = 0
  · rw [if_pos htoss, and_iff_left htoss]
    exact incrementedLevel_le_iff hle
  · rw [if_neg htoss]
    exact iff_of_true hle fun h => htoss h.2

/-- A mark in a segment that is not full leaves it at a level that counts pages. -/
theorem markedLevel_counts {w : World} {segId : Nat}
    (hle : getCounterLevel w.obsCountersMap segId ≤ obsCountFull)
    (hfull : getCounterLevel w.obsCountersMap segId ≠ obsCountFull) :
    markedLevel w segId ≠ obsCountNoObsoletes ∧ markedLevel w segId < obsCountFull := by
  unfold markedLevel
  by_cases hnone : getCounterLevel w.obsCountersMap segId = obsCountNoObsoletes
  · rw [if_pos hnone]
    decide
  rw [if_neg hnone]
  by_cases htoss : w.lfsrState.toNat % 2 ^ (powPagesPerSlot - 3) = 0
  · rw [if_pos htoss]
    exact forall_level (p := fun level => level ≠ obsCountFull → level ≠ obsCountNoObsoletes →
      incrementedLevel level ≠ obsCountNoObsoletes ∧ incrementedLevel level < obsCountFull)
      (by decide) hle hfull hnone
  · rw [if_neg htoss]
    exact forall_level (p := fun level => level ≠ obsCountFull → level ≠ obsCountNoObsoletes →
      level ≠ obsCountNoObsoletes ∧ level < obsCountFull) (by decide) hle hfull hnone

section Calls
variable {Q : Unit → World → Prop} {E : Halt → World → Prop} {w : World} {segId : Nat}

theorem wp_changeCounterLevel {level : UInt8} (hlevel : level < 16)
    (hq : ∀ t : World, t.flash = w.flash → t.segMap = w.segMap → LevelSet segId level w t →
      Q () t) : wp (changeCounterLevel level segId) Q E w :=
  hq _ rfl rfl (LevelSet.write hlevel rfl)

theorem wp_incrementCounter (hq : ∀ t : World, t.flash = w.flash → t.segMap = w.segMap →
      (getCounterLevel w.obsCountersMap segId ≤ obsCountFull →
        LevelSet segId (incrementedLevel (getCounterLevel w.obsCountersMap segId)) w t) →
      Q () t) : wp (incrementCounter segId) Q E w := by
  unfold incrementCounter
  rw [wp_bind, wp_get]
  by_cases h7 : getCounterLevel w.obsCountersMap segId = obsCountLevel7
  · rw [if_pos h7]
    refine hq w rfl rfl fun _ => ?_
    unfold incrementedLevel
    rw [if_pos h7]
    exact LevelSet.unchanged segId rfl
  · rw [if_neg h7]
    refine hq _ rfl rfl fun hle => ?_
    have hlt := incrementedLevel_lt hle
    unfold incrementedLevel at hlt ⊢
    rw [if_neg h7] at hlt ⊢
    exact LevelSet.write hlt rfl

end Calls

section Mark
variable {w : World} {b : LogAddr}

/-- What is counted once the page is marked. -/
theorem wp_countMarked {Q : Nat → World → Prop} {E : Halt → World → Prop}
    (hq : ∀ t : World, t.flash = w.flash → t.segMap = w.segMap →
      (getCounterLevel w.obsCountersMap b.segment ≤ obsCountFull →
        LevelSet b.segment (markedLevel w b.segment) w t) → Q 0 t) :
    wp (do
      increaseObsCount
      if getCounterLevel (← get).obsCountersMap b.segment = obsCountNoObsoletes then do
        changeCounterLevel obsCountLevel0 b.segment
        pure 0
      else if ← genRandBit (powPagesPerSlot - 3) then do
        NandFs.incrementCounter b.segment
        pure 0
      else pure 0 : SeqM Nat) Q E w := by
  obtain ⟨counted, hcounted, hrun⟩ : ∃ counted, counted = w.obsCountersMap.counters ∧
      increaseObsCount w = .ok () { w with obsCountersMap :=
        { w.obsCountersMap with
          counters := counted, counter := (w.obsCountersMap.counter + 1) % 2 ^ 32 } } :=
    ⟨_, rfl, rfl⟩
  subst hcounted
  rw [wp_bind, wp_ok_iff hrun, wp_bind, wp_get]
  unfold markedLevel at hq
  refine wp_ite (fun hnone => ?_) fun hnone => ?_
  · have hnone : getCounterLevel w.obsCountersMap b.segment = obsCountNoObsoletes := hnone
    rw [if_pos hnone] at hq
    rw [wp_bind]
    exact wp_changeCounterLevel (by decide) fun t hflash hmap hset =>
      hq t hflash hmap fun _ => hset
  have hnone : getCounterLevel w.obsCountersMap b.segment ≠ obsCountNoObsoletes := hnone
  rw [if_neg hnone] at hq
  unfold genRandBit
  rw [wp_bind, wp_bind, wp_get, wp_bind, wp_modify, wp_pure]
  refine wp_ite (fun htoss => ?_) fun htoss => ?_
  · rw [if_pos (beq_iff_eq.mp htoss)] at hq
    rw [wp_bind]
    exact wp_incrementCounter fun t hflash hmap hset => hq t hflash hmap hset
  · rw [if_neg fun h => htoss (beq_iff_eq.mpr h)] at hq
    exact hq _ rfl rfl fun _ => LevelSet.unchanged b.segment rfl

/-- A mark either does not come to the counters, and leaves them alone, or marks the page and
counts. -/
theorem wp_markAsObsolete (isAfterReboot : Bool) {Q : Nat → World → Prop}
    {E : Halt → World → Prop} (hle : getCounterLevel w.obsCountersMap b.segment ≤ obsCountFull)
    (hstays : ¬MarksPage b w → ∀ res t,
      t.obsCountersMap.counters = w.obsCountersMap.counters → Q res t)
    (hcounts : MarksPage b w → ∀ level t, LevelSet b.segment level w t →
      (level ≤ obsCountFull ↔ ¬(getCounterLevel w.obsCountersMap b.segment = obsCountFull ∧
        w.lfsrState.toNat % 2 ^ (powPagesPerSlot - 3) = 0)) → Q 0 t)
    (he : ¬MarksPage b w → ∀ e, E e w) : wp (NandFs.markAsObsolete b isAfterReboot) Q E w := by
  unfold NandFs.markAsObsolete
  rw [wp_bind]
  rcases Frame.reads (frame_logicalAddressToPhysical b) w with ⟨phy, hphy⟩ | ⟨e, herr⟩
  swap
  · rw [wp_error_iff herr]
    refine he ?_ e
    rintro ⟨a, hrun, -⟩
    rw [herr] at hrun
    cases hrun
  rw [wp_ok_iff hphy]
  have hmarks : MarksPage b w ↔ phy < pageCount ∧ (w.flash.page phy).flags.obsolete = false ∧
      w.flash.spareWrites phy = false ∧ w.flash.power ≠ some 0 := by
    constructor
    · rintro ⟨a, hrun, h⟩
      rw [hphy] at hrun
      cases hrun
      exact h
    · exact fun h => ⟨phy, hphy, h⟩
  rw [hmarks] at hstays hcounts he
  refine wp_ite (fun hempty => ?_) fun _ => ?_
  · refine hstays (fun h => ?_) 1 w rfl
    exact ne_empty_of_lt h.1 hempty
  unfold isPageMarkedObsolete
  rw [wp_bind, wp_bind]
  by_cases hlt : phy < pageCount
  swap
  · exact wp_nandReadPageFlags (fun h => absurd h hlt) (he (fun h => hlt h.1) _)
  rw [wp_ok_iff (nandReadPageFlags_run hlt), wp_pure]
  refine wp_ite (fun hobs => ?_) fun hobs => ?_
  · have hstays := hstays fun h => Bool.false_ne_true (h.2.1.symm.trans hobs)
    exact wp_ite (fun _ => hstays 0 _ rfl) fun _ => hstays 0 _ rfl
  refine wp_seqVerify ?_
  unfold nandProgramObsoleteByte
  rw [wp_bind, wp_ok_iff (getFp_run hlt), if_neg (by omega), wp_bind, wp_get, wp_bind]
  by_cases hspare : w.flash.spareWrites phy = true
  · have he := he fun h => Bool.false_ne_true (h.2.2.1.symm.trans hspare)
    refine wp_assert (fun h => ?_) (he _)
    rw [hspare] at h
    exact absurd h Bool.false_ne_true
  have hspare := Bool.eq_false_of_not_eq_true hspare
  rw [wp_ok_iff (assert_run (by rw [hspare]; rfl)), wp_bind]
  refine wp_spendPower (fun hpower => ?_) fun hpower => he (fun h => h.2.2.2 hpower) _
  unfold modifyFlash
  rw [wp_bind, wp_modify, wp_pure, if_neg (not_not_intro rfl)]
  refine wp_countMarked fun t _ _ hset => ?_
  exact hcounts ⟨hlt, Bool.eq_false_of_not_eq_true hobs, hspare, hpower⟩ _ t (hset hle)
    (markedLevel_le_iff hle)

end Mark

/-- One call: it sets the level of its segment, above the last one if and only if it overruns. -/
theorem CounterCall.exec_level {call : CounterCall} {w : World}
    (hlegal : w.obsCountersMap.Legal) (hseg : call.segment < nSlots) :
    wp call.exec (fun _ t => ∃ level, LevelSet call.segment level w t ∧
        (level ≤ obsCountFull ↔ ¬call.Overruns w))
      (fun _ t => t.obsCountersMap.counters = w.obsCountersMap.counters ∧ ¬call.Overruns w) w := by
  have hle := hlegal _ hseg
  cases call with
  | markAsObsolete b isAfterReboot =>
    unfold CounterCall.exec
    rw [wp_bind]
    refine wp_markAsObsolete isAfterReboot hle (fun hnot res t ht => ?_)
      (fun hmarks level t hset hlevel => ?_) fun hnot e => ⟨rfl, fun h => hnot h.2.1⟩
    · exact ⟨_, .unchanged _ ht, iff_of_true hle fun h => hnot h.2.1⟩
    · refine ⟨level, hset, hlevel.trans ?_⟩
      exact not_congr (and_congr_right fun _ => (and_iff_right hmarks).symm)
  | incrementCounter segId =>
    refine wp_incrementCounter fun t _ _ ht => ⟨_, ht hle, (incrementedLevel_le_iff hle).trans ?_⟩
    exact not_congr (and_iff_left trivial).symm
  | changeCounterLevel level segId =>
    refine wp_changeCounterLevel (level_lt level.2) fun t _ _ ht => ⟨_, ht, ?_⟩
    exact iff_of_true level.2 fun hover => hover.2

/-- Every call of a run keeps the counters legal and touches only the counter of its own segment
if and only if none increments a counter that is at the last level. -/
theorem keepsLevels_iff (calls : List CounterCall) (w : World) (hlegal : w.obsCountersMap.Legal)
    (hseg : ∀ call ∈ calls, call.segment < nSlots) :
    KeepsLevels calls w ↔ NeverOverruns calls w := by
  refine always_iff_meets (I := fun w => w.obsCountersMap.Legal) (fun call w hcall hlegal => ?_)
    calls hseg w hlegal
  refine wp_mono (call.exec_level hlegal hcall) ?_ ?_
  · rintro _ t ⟨level, hset, hlevel⟩
    have hkeeps := (hset.keeps_iff hlegal hcall).trans hlevel
    exact ⟨hkeeps, fun hnot => (hkeeps.mpr hnot).legal⟩
  · rintro _ t ⟨hsame, hnot⟩
    have hset := LevelSet.unchanged call.segment hsame
    exact iff_of_true ((hset.keeps_iff hlegal hcall).mpr (hlegal _ hcall)) hnot

/-! ## The test for a full chip -/

/-- The loop of `is_flash_full` over `n` segments from `i`, with the bytes it reads. -/
def isFlashFullFrom (c : ObsCounters) : Nat → Nat → Bool × List Nat
  | 0, _ => (true, [])
  | n + 1, i =>
    if c.byte i = obsCountFull then
      ((isFlashFullFrom c n (i + 1)).1, i :: (isFlashFullFrom c n (i + 1)).2)
    else (false, [i])

/-- The bytes `is_flash_full` reads, counted from the start of the counters. -/
def flashFullReads (c : ObsCounters) : List Nat := (isFlashFullFrom c segmentsCount 0).2

/-- `is_flash_full` says whether every segment is full, and reads only the first `size` bytes: the
array of counters is the first `obsCountersArraySize` of them, the object the first
`sizeofObsCountersMap`. -/
def FlashFullExact (size : Nat) (c : ObsCounters) : Prop :=
  (isFlashFull c = true ↔ ∀ segId < segmentsCount, getCounterLevel c segId = obsCountFull) ∧
    ∀ i ∈ flashFullReads c, i < size

section FlashFull
variable {c : ObsCounters}

theorem isFlashFullFrom_fst (n i : Nat) :
    (isFlashFullFrom c n i).1 = true ↔ ∀ j < n, c.byte (i + j) = obsCountFull := by
  induction n generalizing i with
  | zero => exact iff_of_true rfl fun j hj => absurd hj (Nat.not_lt_zero j)
  | succ n ih =>
    unfold isFlashFullFrom
    by_cases h : c.byte i = obsCountFull
    · rw [if_pos h, ih]
      constructor
      · rintro hrest (- | j) hj
        · exact h
        · have hj := hrest j (by omega)
          rwa [Nat.add_right_comm, Nat.add_assoc] at hj
      · intro hall j hj
        have hj := hall (j + 1) (by omega)
        rwa [Nat.add_right_comm, Nat.add_assoc]
    · rw [if_neg h]
      exact iff_of_false Bool.false_ne_true fun hall => h (hall 0 (by omega))

/-- A byte is read when all before it were those of a full segment. -/
theorem mem_isFlashFullFrom (n i k : Nat) : k ∈ (isFlashFullFrom c n i).2 ↔
    i ≤ k ∧ k < i + n ∧ ∀ j, i ≤ j → j < k → c.byte j = obsCountFull := by
  induction n generalizing i with
  | zero =>
    refine iff_of_false List.not_mem_nil ?_
    rintro ⟨hle, hlt, -⟩
    omega
  | succ n ih =>
    unfold isFlashFullFrom
    by_cases h : c.byte i = obsCountFull
    · rw [if_pos h, List.mem_cons, ih]
      constructor
      · rintro (rfl | ⟨hle, hlt, hall⟩)
        · exact ⟨le_rfl, by omega, fun j hj hjk => absurd hj (by omega)⟩
        · refine ⟨by omega, by omega, fun j hij hjk => ?_⟩
          rcases Nat.eq_or_lt_of_le hij with rfl | hij
          · exact h
          · exact hall j hij hjk
      · rintro ⟨hle, hlt, hall⟩
        rcases Nat.eq_or_lt_of_le hle with rfl | hik
        · exact .inl rfl
        · exact .inr ⟨hik, by omega, fun j hj hjk => hall j (by omega) hjk⟩
    · rw [if_neg h, List.mem_singleton]
      constructor
      · rintro rfl
        exact ⟨le_rfl, by omega, fun j hj hjk => absurd hj (by omega)⟩
      · rintro ⟨hle, -, hall⟩
        by_contra hne
        exact h (hall i le_rfl (by omega))

theorem isFlashFull_eq : isFlashFull c = (isFlashFullFrom c segmentsCount 0).1 := by
  refine Bool.eq_iff_iff.mpr ?_
  rw [isFlashFullFrom_fst]
  unfold isFlashFull
  rw [List.all_eq_true]
  constructor
  · intro h j hj
    rw [Nat.zero_add]
    exact beq_iff_eq.mp (h j (List.mem_range.mpr hj))
  · intro h j hj
    have hj := h j (List.mem_range.mp hj)
    rw [Nat.zero_add] at hj
    exact beq_iff_eq.mpr hj

theorem isFlashFull_iff :
    isFlashFull c = true ↔ ∀ i < segmentsCount, c.byte i = obsCountFull := by
  rw [isFlashFull_eq, isFlashFullFrom_fst]
  refine forall₂_congr fun i _ => ?_
  rw [Nat.zero_add]

theorem mem_flashFullReads {k : Nat} : k ∈ flashFullReads c ↔
    k < segmentsCount ∧ ∀ j < k, c.byte j = obsCountFull := by
  unfold flashFullReads
  rw [mem_isFlashFullFrom, Nat.zero_add]
  constructor
  · exact fun h => ⟨h.2.1, fun j hj => h.2.2 j (Nat.zero_le j) hj⟩
  · exact fun h => ⟨Nat.zero_le k, h.1, fun j _ hj => h.2 j hj⟩

/-- The byte of a full segment 0 leaves no level to segment 1. -/
theorem not_levels_full_of_byte (h : c.byte 0 = obsCountFull) :
    getCounterLevel c 1 ≠ obsCountFull := by
  have hpos : 0 < obsCountersArraySize := by
    have := nSlots_ge
    unfold obsCountersArraySize
    omega
  have hbyte : c.counters (1 / 2) = obsCountFull := by
    unfold ObsCounters.byte at h
    rwa [if_pos hpos] at h
  have hzero : Nibbles.read c.counters 1 = 0 :=
    Nibbles.read_odd_of_lt rfl (by rw [hbyte]; decide)
  rw [getCounterLevel_eq, hzero]
  decide

/-- The test is exact as long as some segment is not full and some byte it would read stops it;
where every segment is full it says that the chip is not. -/
theorem flashFullExact_iff (size : Nat) (c : ObsCounters) : FlashFullExact size c ↔
    (∃ segId < segmentsCount, getCounterLevel c segId ≠ obsCountFull) ∧
      ∃ i < size, i < segmentsCount ∧ c.byte i ≠ obsCountFull := by
  have hcount : 1 < segmentsCount := by
    have := segmentsCount_add
    have := nSlots_ge
    omega
  unfold FlashFullExact
  rw [isFlashFull_iff]
  constructor
  · rintro ⟨hexact, hreads⟩
    have hsome : ∃ segId < segmentsCount, getCounterLevel c segId ≠ obsCountFull := by
      by_contra hall
      push Not at hall
      exact not_levels_full_of_byte (hexact.mpr hall 0 (by omega)) (hall 1 hcount)
    refine ⟨hsome, ?_⟩
    by_contra hbytes
    push Not at hbytes
    by_cases hsize : segmentsCount ≤ size
    · obtain ⟨segId, hlt, hne⟩ := hsome
      exact hne (hexact.mp (fun i hi => hbytes i (by omega) hi) segId hlt)
    · have hmem : size ∈ flashFullReads c :=
        mem_flashFullReads.mpr ⟨by omega, fun j hj => hbytes j hj (by omega)⟩
      exact absurd (hreads size hmem) (Nat.lt_irrefl size)
  · rintro ⟨⟨segId, hseg, hlevel⟩, i, hi, hlt, hbyte⟩
    refine ⟨iff_of_false (fun h => hbyte (h i hlt)) fun h => hlevel (h segId hseg), ?_⟩
    intro k hk
    obtain ⟨-, hfull⟩ := mem_flashFullReads.mp hk
    by_contra hge
    exact hbyte (hfull i (by omega))

end FlashFull

end Levels

section TinyPage
attribute [local instance] tinyPage

/-- The counter of a segment that was copied whole, and that of another one. -/
theorem keepsLevels_tinyPage :
    KeepsLevels [.changeCounterLevel ⟨obsCountFull, by decide⟩ 2, .incrementCounter 3]
      (erasedWorld fun _ => false) := by
  refine (keepsLevels_iff _ _ (fun segId _ => ?_) ?_).mpr ?_
  · revert segId
    decide
  · decide
  · refine ⟨fun h => h.2, fun h => absurd h.1 ?_, trivial⟩
    decide

/-- A segment was copied whole, and one of its pages is marked. -/
theorem keepsLevels_fails : ¬∀ (calls : List CounterCall) (w : World), w.obsCountersMap.Legal →
    (∀ call ∈ calls, call.segment < nSlots) → KeepsLevels calls w := by
  intro h
  let mapped : World :=
    { erasedWorld fun _ => false with segMap := { initSegMap with segToSlot := id } }
  have hcheck : (runAll CounterCall.exec [.changeCounterLevel ⟨obsCountFull, by decide⟩ 2,
      .markAsObsolete ⟨2, 1⟩ false] mapped).any
        (fun t => getCounterLevel t.obsCountersMap 2 == 10) = true := by decide +kernel
  obtain ⟨t, hrun, hlevel⟩ := (Option.any_eq_true _ _).mp hcheck
  have hstart : mapped.obsCountersMap.Legal := by
    show ∀ segId < nSlots, getCounterLevel ⟨fun _ => 0, 0, 0, fun _ => 0⟩ segId ≤ obsCountFull
    decide
  have hlegal := (h _ _ hstart (by decide)).last (J := fun w => w.obsCountersMap.Legal)
    (fun _ _ _ hkeeps => hkeeps.legal) hstart hrun 2 (by decide)
  rw [beq_iff_eq.mp hlevel] at hlegal
  exact absurd hlegal (by decide)

end TinyPage

section SmallPage
attribute [local instance] smallPage

/-- Every segment is full. -/
theorem flashFullExact_fails : ¬∀ c : ObsCounters, FlashFullExact obsCountersArraySize c := by
  intro h
  have hlevels : ∀ segId < segmentsCount,
      getCounterLevel ⟨fun _ => 0x99, 0, 0, fun _ => 0⟩ segId = obsCountFull := by
    intro segId _
    unfold getCounterLevel
    by_cases heven : segId % 2 = 0
    · rw [if_pos heven]
      exact (by decide : (0x99 : UInt8) &&& 0x0f = obsCountFull)
    · rw [if_neg heven]
      exact (by decide : ((0x99 : UInt8) &&& 0xf0) >>> 4 = obsCountFull)
  have hfull := isFlashFull_iff.mp ((h ⟨fun _ => 0x99, 0, 0, fun _ => 0⟩).1.mpr hlevels)
  exact absurd (hfull 0 (by decide)) (by decide)

end SmallPage

end NandFs
