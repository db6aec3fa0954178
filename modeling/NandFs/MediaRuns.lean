import NandFs.WearRuns

/-! # Copies that fail in the runs of the log

In a run each call meets its own media.  A copy of reclamation that fails stops the call with
an error and leaves the head at the page that was not copied: that page is kept as long as
nothing is written there.  Wear leveling does not look at what `copyPage` returns and erases
the slot it copied from, so its copies must not fail.
-/
namespace NandFs

open Program

section Runs
variable [Config]

/-- The stores reached from a chip that was erased, satisfies `start` and was formatted, or from
one that a reboot recovered, by calls that satisfy `cond` and return, each on media of its own.
A page is live from the call that writes it to the call that marks it. -/
inductive MediaRun (nBytes : Nat) (start : Flash → Prop)
    (cond : CopyMedia → (Nat → UInt8) → LogCall → LogState → Prop) : LogState → Prop
  | format {w t : World} {data data' : Nat → UInt8} {pending : Bool}
      (erased : ∀ a, w.flash.page a = initBuf ∧ w.flash.mainAreaWrites a = false)
      (ok : start w.flash)
      (run : sequencingBooting data nBytes (checkpointWriter data nBytes) w
        = .ok (0, data', pending) t) : MediaRun nBytes start cond ⟨t, fun _ => none⟩
  | recovered {t : World} {live : LogAddr → Option Block} (h : KeepsLive nBytes live t) :
      MediaRun nBytes start cond ⟨t, live⟩
  | call {d : CopyMedia} {s : LogState} {t : World} {data : Nat → UInt8} {call : LogCall}
      {change : Change} (h : MediaRun nBytes start cond s) (ok : cond d data call s)
      (run : call.execOn d nBytes data s.world = .ok change t) :
      MediaRun nBytes start cond ⟨t, change.keep s.live⟩

/-- Where a call can be made: the copies of wear leveling do not fail, no live page is at the
head when something is written there, and the call is safe. -/
def LogCall.KeepsOn (d : CopyMedia) (nBytes : Nat) (data : Nat → UInt8) (call : LogCall)
    (s : LogState) : Prop :=
  d.wear.Sound ∧ call.SafeOn d nBytes data s

section Step
variable {nBytes : Nat} {s : LogState}

/-- In every such run the log holds every live page. -/
theorem MediaRun.keepsLive (h : MediaRun nBytes (StartFits nBytes)
    (fun d => LogCall.KeepsOn d nBytes) s) : KeepsLive nBytes s.live s.world := by
  induction h with
  | format erased ok run =>
    exact of_wp_ok (sequencingBooting_log (fun a => (erased a).1) (fun a => (erased a).2)
      ok.le ok.first) run rfl
  | recovered h => exact h
  | @call d s t data call change _ ok run ih =>
    obtain ⟨hkeep, heq⟩ := of_wp_ok (call.execOn_spec ok.1 ih ok.2) run
    show KeepsLive nBytes (change.keep s.live) t
    rw [heq]
    exact hkeep

/-- Whatever copies of reclamation fail, each block written and not marked since is read back. -/
theorem readBlock_failing_copies (h : MediaRun nBytes (StartFits nBytes)
    (fun d => LogCall.KeepsOn d nBytes) s) {a : LogAddr} {block : Block}
    (hlive : s.live a = some block) : readBlock a s.world = .ok (some block) s.world :=
  h.keepsLive.readBlock_run hlive

/-! ## Whatever is live -/

/-- The call is safe as far as the head of the log goes, whatever pages are live. -/
def LogCall.SafeHead (nBytes : Nat) (data : Nat → UInt8) (call : LogCall) (s : LogState) : Prop :=
  call.Safe nBytes data { s with live := fun _ => none }

/-- The runs of calls that are safe so, on a chip none of whose operations fails. -/
abbrev HeadRun (nBytes : Nat) : LogState → Prop :=
  MediaRun nBytes (StartFits nBytes) fun d data call s => d.Sound ∧ call.SafeHead nBytes data s

/-- The log holds up in every such run. -/
theorem MediaRun.keepsLog (h : HeadRun nBytes s) : KeepsLive nBytes (fun _ => none) s.world := by
  have hnone : ∀ (live : LogAddr → Option Block) (a : LogAddr) (b : Block),
      (none : Option Block) = some b → live a = some b := fun _ _ b hb =>
    absurd hb (Option.some_ne_none b).symm
  induction h with
  | format erased ok run =>
    exact of_wp_ok (sequencingBooting_log (fun a => (erased a).1) (fun a => (erased a).2)
      ok.le ok.first) run rfl
  | recovered h => exact h.mono fun a b hb => hnone _ a b hb
  | @call d s t data call change _ ok run ih =>
    rw [LogCall.execOn_eq ok.1] at run
    have hkeep := of_wp_ok (call.exec_spec (s := { s with live := fun _ => none }) ih ok.2) run
    exact hkeep.mono fun a b hb => hnone _ a b hb

end Step

/-! ## A test for safe calls -/

/-- `LogCall.SafeOn`, where a segment change is followed by a free page or by a copy that
fails. -/
def LogCall.safeTestOn (d : CopyMedia) (nBytes : Nat) (data : Nat → UInt8) :
    LogCall → LogState → Bool
  | .allocAndWriteBlock logAddr page onlyVOTs prev, s =>
    let m := s.world.segMap
    let cpWriter := checkpointWriter data nBytes
    m.headOffset != 0 && decide (m.headOffset < pagesPerSlot) && !m.isEuReserve &&
      s.world.flash.good (euAt m.newSlotId (m.headOffset / pagesPerEu)) &&
      (s.live m.reclaimed).isNone &&
      match NandFs.allocAndWriteBlock logAddr (allocatedPage page .not) onlyVOTs prev cpWriter .last
        s.world with
      | .ok _ t => (!t.segMap.isPageOffsetOverflowing || t.moveTest nBytes) &&
        match d.wear.moveAtSegmentEnd cpWriter t with
        | .ok _ u =>
          match d.valid.nextFreeInSegment 0 pagesPerSlot u with
          | .ok r _ => r.isSome
          | .error _ _ => true
        | .error _ _ => true
      | .error _ _ => true
  | call, s => call.safeTest nBytes data s

section Test
variable {nBytes : Nat} {data : Nat → UInt8} {s t : LogState}

/-- Where a segment change is followed by a free page or a failed copy, there is one change at
most. -/
theorem CopyMedia.MovesAt.eq_of_found {d : CopyMedia} {cpWriter : CheckpointWriter} {n : Nat}
    {moved : Bool} {w v : World} (h : d.MovesAt cpWriter 0 n moved w v)
    (hfound : ∀ r t u, d.wear.moveAtSegmentEnd cpWriter w = .ok r t →
      d.valid.nextFreeInSegment 0 pagesPerSlot t ≠ .ok none u) :
    v = w ∧ w.segMap.isPageOffsetOverflowing = true := by
  cases h with
  | now hover => exact ⟨rfl, hover⟩
  | later move search => exact absurd search (hfound _ _ _ move)

theorem LogCall.safeOn_of_test {d : CopyMedia} {call : LogCall}
    (h : call.safeTestOn d nBytes data s = true) : call.SafeOn d nBytes data s := by
  cases call with
  | allocAndWriteBlock logAddr page onlyVOTs prev =>
    unfold LogCall.safeTestOn at h
    simp only [Bool.and_eq_true, bne_iff_ne, ne_eq, Bool.not_eq_true', decide_eq_true_eq,
      Option.isNone_iff_eq_none] at h
    obtain ⟨⟨⟨⟨⟨hopen, hlt⟩, hno⟩, hgood⟩, hfree⟩, hnext⟩ := h
    refine ⟨fun _ => ⟨hopen, hlt, .home hno hgood, hfree⟩, fun v hv => ?_⟩
    obtain ⟨r, t, halloc, -, hv⟩ := hv
    rw [halloc] at hnext
    simp only [Bool.and_eq_true] at hnext
    obtain ⟨hmove, hsearch⟩ := hnext
    obtain ⟨rfl, hover⟩ := hv.eq_of_found fun r t' u hmoved hnone => by
      rw [hmoved] at hsearch
      simp only [hnone, Option.isSome_none, Bool.false_eq_true] at hsearch
    rw [hover, Bool.not_true, Bool.false_or] at hmove
    exact CanMove.of_test hmove
  | markAsObsolete b isAfterReboot =>
    exact (LogCall.safe_of_test h : (LogCall.markAsObsolete b isAfterReboot).Safe nBytes data s)
  | commit upper => exact absurd h Bool.false_ne_true
  | findNextFreePage => exact absurd h Bool.false_ne_true
  | readBlock b => exact absurd h Bool.false_ne_true

/-- The store after the calls of a list, each on its media, if they all pass the test and
return. -/
def LogState.afterOn (test : CopyMedia → LogCall → LogState → Bool) (nBytes : Nat)
    (data : Nat → UInt8) : List (CopyMedia × LogCall) → LogState → Option LogState
  | [], s => some s
  | (d, call) :: calls, s =>
    if test d call s then
      match call.execOn d nBytes data s.world with
      | .ok change t => afterOn test nBytes data calls ⟨t, change.keep s.live⟩
      | .error _ _ => none
    else none

theorem MediaRun.afterOn {start : Flash → Prop}
    {cond : CopyMedia → (Nat → UInt8) → LogCall → LogState → Prop}
    {test : CopyMedia → LogCall → LogState → Bool} {calls : List (CopyMedia × LogCall)}
    (hcond : ∀ p ∈ calls, ∀ s, test p.1 p.2 s = true → cond p.1 data p.2 s)
    (h : MediaRun nBytes start cond s) (ht : s.afterOn test nBytes data calls = some t) :
    MediaRun nBytes start cond t := by
  induction calls generalizing s with
  | nil =>
    cases ht
    exact h
  | cons p calls ih =>
    unfold LogState.afterOn at ht
    split at ht
    · rename_i htest
      split at ht
      · rename_i change u run
        exact ih (fun q hq => hcond q (List.mem_cons_of_mem _ hq))
          (.call h (hcond p List.mem_cons_self s htest) run) ht
      · cases ht
    · cases ht

theorem MediaRun.booted {start : Flash → Prop}
    {cond : CopyMedia → (Nat → UInt8) → LogCall → LogState → Prop} {w : World}
    (herased : ∀ a, w.flash.page a = initBuf ∧ w.flash.mainAreaWrites a = false)
    (hstart : start w.flash) (ht : LogState.booted nBytes data w = some t) :
    MediaRun nBytes start cond t := by
  have hrun : LogRun nBytes start (fun _ _ _ => False) t := .booted herased hstart ht
  cases hrun with
  | format erased ok run => exact .format erased ok run
  | call _ ok _ => exact ok.elim

end Test

end Runs

section TinyPage
attribute [local instance] tinyPage

/-- The page at `a` is live and another one is read. -/
def LogState.lost (a : LogAddr) (s : LogState) : Bool :=
  (s.live a).any fun block =>
    match readBlock a s.world with
    | .ok (some page) _ => page ⟨0, by decide⟩ != block ⟨0, by decide⟩
    | _ => false

theorem LogState.lost_spec {a : LogAddr} {s : LogState} (h : s.lost a = true) :
    ¬∀ block, s.live a = some block → readBlock a s.world = .ok (some block) s.world := by
  intro hread
  obtain ⟨block, hlive, hpage⟩ := (Option.any_eq_true _ _).mp h
  rw [hread block hlive] at hpage
  exact bne_iff_ne.mp hpage rfl

/-- Every read fails. -/
def unreadable : Media := ⟨fun _ _ => true, fun _ _ => false⟩

/-- Nine blocks are written to a tiny chip, one of them is marked, and the next block fills the
last segment: the copy of the first page of the segment that is reclaimed then fails. -/
def failedCopy : List (CopyMedia × LogCall) :=
  ((List.range 9).map writeTiny ++ [LogCall.markAsObsolete ⟨1, 7⟩ false]).map (Prod.mk .reliable) ++
    [(⟨unreadable, .reliable⟩, writeTiny 9)]

theorem sound_wear_failedCopy : ∀ p ∈ failedCopy, p.1.wear.Sound := by
  intro p hp
  rcases List.mem_append.mp hp with hp | hp
  · obtain ⟨call, -, rfl⟩ := List.mem_map.mp hp
    exact Media.sound_reliable
  · rw [List.mem_singleton.mp hp]
    exact Media.sound_reliable

/-- Ten blocks are written to a tiny chip, two of them are marked, and with the next block wear
leveling moves the first slot: no page of it can be read. -/
def failedWear : List (CopyMedia × LogCall) :=
  ((List.range 9).map writeTiny ++ [LogCall.markAsObsolete ⟨1, 7⟩ false,
    .markAsObsolete ⟨2, 7⟩ false, writeTiny 9]).map (Prod.mk .reliable) ++
      [(⟨.reliable, unreadable⟩, writeTiny 10)]

/-- The page that could not be copied is still read. -/
theorem readBlock_failing_copies_tinyPage : ∃ (s : LogState) (block : Block),
    s.live ⟨1, 6⟩ = some block ∧ readBlock ⟨1, 6⟩ s.world = .ok (some block) s.world := by
  have hcheck : ((LogState.booted 48 (fun _ => 0) (erasedWorld fun _ => false)).bind
      (LogState.afterOn (fun d => LogCall.safeTestOn d 48 fun _ => 0) 48 (fun _ => 0)
        failedCopy)).any (fun s => (s.live ⟨1, 6⟩).isSome) = true := by
    decide +kernel
  obtain ⟨s, hs, hlive⟩ := (Option.any_eq_true _ _).mp hcheck
  obtain ⟨r, hr, hs⟩ := Option.bind_eq_some_iff.mp hs
  obtain ⟨block, hlive⟩ := Option.isSome_iff_exists.mp hlive
  refine ⟨s, block, hlive, readBlock_failing_copies (.afterOn (fun p hp s hsafe => ?_)
    (.booted (fun _ => ⟨rfl, rfl⟩) ⟨by decide, fun _ _ _ => ⟨rfl, rfl⟩⟩ hr) hs) hlive⟩
  exact ⟨sound_wear_failedCopy p hp, LogCall.safeOn_of_test hsafe⟩

/-- With either part of the condition left out a page is lost.  The block after the copy that
failed is written at the page that was not copied; and wear leveling erases a slot of which it
has copied nothing. -/
theorem readBlock_failing_copies_fails :
    (¬∀ (s : LogState), MediaRun 48 (StartFits 48) (fun d data call s =>
      d.wear.Sound ∧ call.SafeOn d 48 data { s with live := fun _ => none }) s →
        ∀ a block, s.live a = some block → readBlock a s.world = .ok (some block) s.world) ∧
    ¬∀ (s : LogState), MediaRun 48 (StartFits 48) (fun d data call s =>
      call.SafeOn d 48 data s) s →
        ∀ a block, s.live a = some block → readBlock a s.world = .ok (some block) s.world := by
  constructor
  · intro h
    have hcheck : ((LogState.booted 48 (fun _ => 0) (erasedWorld fun _ => false)).bind
        (LogState.afterOn (fun d call s => call.safeTestOn d 48 (fun _ => 0)
          { s with live := fun _ => none }) 48 (fun _ => 0)
            (failedCopy ++ [(.reliable, writeTiny 10)]))).any (LogState.lost ⟨1, 6⟩) = true := by
      decide +kernel
    obtain ⟨s, hs, hlost⟩ := (Option.any_eq_true _ _).mp hcheck
    obtain ⟨r, hr, hs⟩ := Option.bind_eq_some_iff.mp hs
    refine LogState.lost_spec hlost (h s (.afterOn (fun p hp s hsafe => ?_)
      (.booted (fun _ => ⟨rfl, rfl⟩) ⟨by decide, fun _ _ _ => ⟨rfl, rfl⟩⟩ hr) hs) _)
    refine ⟨?_, LogCall.safeOn_of_test hsafe⟩
    rcases List.mem_append.mp hp with hp | hp
    · exact sound_wear_failedCopy p hp
    · rw [List.mem_singleton.mp hp]
      exact Media.sound_reliable
  · intro h
    have hcheck : ((LogState.booted 48 (fun _ => 0) (seededWorld fun _ => false)).bind
        (LogState.afterOn (fun d => LogCall.safeTestOn d 48 fun _ => 0) 48 (fun _ => 0)
          failedWear)).any (LogState.lost ⟨0, 6⟩) = true := by
      decide +kernel
    obtain ⟨s, hs, hlost⟩ := (Option.any_eq_true _ _).mp hcheck
    obtain ⟨r, hr, hs⟩ := Option.bind_eq_some_iff.mp hs
    exact LogState.lost_spec hlost (h s (.afterOn (fun _ _ _ hsafe => LogCall.safeOn_of_test hsafe)
      (.booted (fun _ => ⟨rfl, rfl⟩) ⟨by decide, fun _ _ _ => ⟨rfl, rfl⟩⟩ hr) hs) _)

end TinyPage

end NandFs
