import NandFs.LogLookup
import NandFs.FormatLog

/-! # Runs of the log

A run begins when an erased chip has been formatted and goes on with one call of the layer
above after another.  It keeps, as history, what was written under each address and not marked
since (`LogState.live`).
-/
namespace NandFs

open Program

section Runs
variable [Config]

/-- A call of the layer above, whose checkpoint data may be another one at each call. -/
inductive LogCall
  | allocAndWriteBlock (logAddr : LogAddr) (page : Page) (onlyVOTs : Bool) (prev : LogAddr)
  | commit (upper : Nat → UInt8)
  | findNextFreePage
  | markAsObsolete (b : LogAddr) (isAfterReboot : Bool)
  | readBlock (b : LogAddr)

/-- What a call does to the live pages. -/
inductive Change
  | nothing
  | written (a : LogAddr) (block : Block)
  | marked (a : LogAddr)

def Change.apply : Change → (LogAddr → Option Block) → LogAddr → Option Block
  | .nothing, live => live
  | .written a block, live => Function.update live a (some block)
  | .marked a, live => Function.update live a none

/-- What a call does to the live pages, where a block written at the address of a live page does
not take its place. -/
def Change.keep : Change → (LogAddr → Option Block) → LogAddr → Option Block
  | .written a block, live =>
    if (live a).isSome then live else Function.update live a (some block)
  | .nothing, live => live
  | .marked a, live => Function.update live a none

/-- A call is made.  A block is live from then on if the call that writes it succeeds. -/
def LogCall.exec (nBytes : Nat) (data : Nat → UInt8) : LogCall → SeqM Change
  | .allocAndWriteBlock logAddr page onlyVOTs prev => do
    let r ← NandFs.allocAndWriteBlock logAddr page onlyVOTs prev (checkpointWriter data nBytes) .not
    pure (if r.err = 0 then .written r.logAddr page.main else .nothing)
  | .commit upper => do
    let _ ← NandFs.commit (checkpointWriter data nBytes) upper nBytes false
    pure .nothing
  | .findNextFreePage => do
    let _ ← NandFs.findNextFreePage (checkpointWriter data nBytes) 0
    pure .nothing
  | .markAsObsolete b isAfterReboot => do
    let _ ← NandFs.markAsObsolete b isAfterReboot
    pure (.marked b)
  | .readBlock b => do
    let _ ← NandFs.readBlock b
    pure .nothing

/-- A call on media whose copies may fail. -/
def LogCall.execOn (d : CopyMedia) (nBytes : Nat) (data : Nat → UInt8) : LogCall → SeqM Change
  | .allocAndWriteBlock logAddr page onlyVOTs prev => do
    let r ← d.allocAndWriteBlock logAddr page onlyVOTs prev (checkpointWriter data nBytes) .not
    pure (if r.err = 0 then .written r.logAddr page.main else .nothing)
  | .commit upper => do
    let _ ← d.commit (checkpointWriter data nBytes) upper nBytes
    pure .nothing
  | .findNextFreePage => do
    let _ ← d.findNextFreePage (checkpointWriter data nBytes) 0
    pure .nothing
  | call => call.exec nBytes data

theorem LogCall.execOn_eq {d : CopyMedia} (hd : d.Sound) (nBytes : Nat) (data : Nat → UInt8)
    (call : LogCall) : call.execOn d nBytes data = call.exec nBytes data := by
  cases call with
  | allocAndWriteBlock logAddr page onlyVOTs prev =>
    simp only [LogCall.execOn, LogCall.exec, hd.allocAndWriteBlock_eq]
  | commit upper =>
    simp only [LogCall.execOn, LogCall.exec, hd.commit_eq]
  | findNextFreePage =>
    simp only [LogCall.execOn, LogCall.exec, hd.findNextFreePage_eq]
  | markAsObsolete b isAfterReboot => rfl
  | readBlock b => rfl

/-- Does the call program main areas of pages. -/
def LogCall.programs : LogCall → Bool
  | .markAsObsolete _ _ | .readBlock _ => false
  | _ => true

/-- A state of a run. -/
structure LogState where
  world : World
  live : LogAddr → Option Block

/-- The stores reached from a chip that was erased, satisfies `start` and was formatted, by
calls that satisfy `cond` and return. -/
inductive LogRun (nBytes : Nat) (start : Flash → Prop)
    (cond : (Nat → UInt8) → LogCall → LogState → Prop) : LogState → Prop
  | format {w t : World} {data data' : Nat → UInt8} {pending : Bool}
      (erased : ∀ a, w.flash.page a = initBuf ∧ w.flash.mainAreaWrites a = false)
      (ok : start w.flash)
      (run : sequencingBooting data nBytes (checkpointWriter data nBytes) w
        = .ok (0, data', pending) t) : LogRun nBytes start cond ⟨t, fun _ => none⟩
  | call {s : LogState} {t : World} {data : Nat → UInt8} {call : LogCall} {change : Change}
      (h : LogRun nBytes start cond s) (ok : cond data call s)
      (run : call.exec nBytes data s.world = .ok change t) :
      LogRun nBytes start cond ⟨t, change.apply s.live⟩

/-- The stores reached from a chip that was erased, satisfies `start` and was formatted, or from
one that a reboot recovered, which satisfies `recovers`, by calls that satisfy `cond` and return. -/
inductive StoreRun (nBytes : Nat) (start : Flash → Prop) (recovers : World → Prop)
    (cond : (Nat → UInt8) → LogCall → World → Prop) : World → Prop
  | format {w t : World} {data data' : Nat → UInt8} {pending : Bool}
      (erased : ∀ a, w.flash.page a = initBuf ∧ w.flash.mainAreaWrites a = false)
      (ok : start w.flash)
      (run : sequencingBooting data nBytes (checkpointWriter data nBytes) w
        = .ok (0, data', pending) t) : StoreRun nBytes start recovers cond t
  | recovered {t : World} (h : recovers t) : StoreRun nBytes start recovers cond t
  | call {w t : World} {data : Nat → UInt8} {call : LogCall} {change : Change}
      (h : StoreRun nBytes start recovers cond w) (ok : cond data call w)
      (run : call.exec nBytes data w = .ok change t) : StoreRun nBytes start recovers cond t

/-! ## When the log is kept -/

/-- The header of a segment fits in a slot, and in the first slot. -/
structure StartFits (nBytes : Nat) (f : Flash) : Prop where
  le : headerPages nBytes ≤ pagesPerSlot
  first : HeaderFits nBytes f 0

/-- A call that writes finds a page at the head that it can write, and every segment change on
the way can be made; a call that marks marks a page that was written. -/
def LogCall.Safe (nBytes : Nat) (data : Nat → UInt8) : LogCall → LogState → Prop
  | .allocAndWriteBlock logAddr page onlyVOTs prev, s =>
    (¬s.world.Refuses → CanWrite s.live s.world) ∧
      ∀ v, AllocMovesAt logAddr (allocatedPage page .not) onlyVOTs prev
        (checkpointWriter data nBytes) s.world v → CanMove nBytes v
  | .commit upper, s =>
    (¬s.world.counted.Refuses → CanWrite s.live s.world) ∧
      (pageSize ≤ seqCheckpointSize + nBytes →
        ∀ v, CommitMovesAt (checkpointWriter data nBytes) upper nBytes
          (calculateInPages (seqCheckpointSize + nBytes)) 0 s.world v → CanMove nBytes v)
  | .findNextFreePage, s =>
    ∀ v, MovesAt (checkpointWriter data nBytes) 0 segmentsCount false s.world v →
      CanMove nBytes v
  | .markAsObsolete b _, s => CanMark b s.world
  | .readBlock _, _ => True

/-- As `LogCall.Safe`, on media whose copies may fail. -/
def LogCall.SafeOn (d : CopyMedia) (nBytes : Nat) (data : Nat → UInt8) :
    LogCall → LogState → Prop
  | .allocAndWriteBlock logAddr page onlyVOTs prev, s =>
    (¬s.world.Refuses → CanWrite s.live s.world) ∧
      ∀ v, d.AllocMovesAt logAddr (allocatedPage page .not) onlyVOTs prev
        (checkpointWriter data nBytes) s.world v → CanMove nBytes v
  | .commit upper, s =>
    (¬s.world.counted.Refuses → CanWrite s.live s.world) ∧
      (pageSize ≤ seqCheckpointSize + nBytes →
        ∀ v, d.CommitMovesAt (checkpointWriter data nBytes) upper nBytes
          (calculateInPages (seqCheckpointSize + nBytes)) 0 s.world v → CanMove nBytes v)
  | .findNextFreePage, s =>
    ∀ v, d.MovesAt (checkpointWriter data nBytes) 0 segmentsCount false s.world v →
      CanMove nBytes v
  | call, s => call.Safe nBytes data s

theorem LogCall.Safe.on {d : CopyMedia} (hd : d.Sound) {nBytes : Nat} {data : Nat → UInt8}
    {call : LogCall} {s : LogState} (h : call.Safe nBytes data s) :
    call.SafeOn d nBytes data s := by
  cases call with
  | allocAndWriteBlock logAddr page onlyVOTs prev => exact ⟨h.1, fun v hv => h.2 v (hv.of_sound hd)⟩
  | commit upper => exact ⟨h.1, fun hsize v hv => h.2 hsize v (hv.of_sound hd)⟩
  | findNextFreePage => exact fun v hv => h v (hv.of_sound hd)
  | markAsObsolete b isAfterReboot => exact h
  | readBlock b => exact h

section Step
variable {nBytes : Nat} {data : Nat → UInt8} {s : LogState}

/-- A call that is refused changes nothing. -/
theorem wp_alloc_refuses (d : CopyMedia) {w : World} {E : Halt → World → Prop}
    {logAddr prev : LogAddr} {page : Page} {onlyVOTs : Bool} {cpWriter : CheckpointWriter}
    {isCommit : IsCommit} (h : w.Refuses) :
    wp (d.allocAndWriteBlock logAddr page onlyVOTs prev cpWriter isCommit)
      (fun r t => r.err ≠ 0 ∧ t = w) E w := by
  unfold CopyMedia.allocAndWriteBlock
  rw [wp_bind, wp_get]
  refine wp_ite (fun _ => ⟨show errorFlashFull ≠ 0 by decide, rfl⟩) fun hfull => ?_
  refine wp_ite (fun _ => ⟨show errorNoReserveEu ≠ 0 by decide, rfl⟩) fun hno => ?_
  rcases h with h | h
  · exact absurd h hfull
  · exact absurd h hno

/-- From `w` to `t` a call that made the change `change` kept the live pages as they were, but for
a page that it marked; a page that it wrote holds what it was given. -/
def LogCall.Keeps (live : LogAddr → Option Block) (w : World) (c : Contents) (t : World)
    (c' : Contents) : LogCall → Change → Prop
  | .allocAndWriteBlock _ page onlyVOTs prev, change => LogKept live w c t c' ∧
    ∀ a block, change = .written a block → t.segMap.stored c' a =
      some ((allocatedPage page .not).linked onlyVOTs prev).stored
  | .markAsObsolete b _, _ => LogMarked b w c t c'
  | _, _ => LogKept live w c t c'

/-- A safe call keeps the log and what is live in it, whatever copies of reclamation fail, and
writes to no address that is live.  If it programs main areas it stops only where the power is
lost. -/
theorem LogCall.execOn_kept {d : CopyMedia} (hd : d.wear.Sound) (call : LogCall) {c : Contents}
    (hlog : Log nBytes s.world.flash s.world.segMap c) (hlive : Live nBytes s.world.segMap c s.live)
    (hsafe : call.SafeOn d nBytes data s) :
    wp (call.execOn d nBytes data)
      (fun change t => change.keep s.live = change.apply s.live ∧ ∃ c',
        Log nBytes t.flash t.segMap c' ∧ Live nBytes t.segMap c' (change.apply s.live) ∧
          call.Keeps s.live s.world c t c' change)
      (fun e _ => call.programs = true → e = .powerLoss) s.world := by
  cases call with
  | allocAndWriteBlock logAddr page onlyVOTs prev =>
    obtain ⟨hcan, hmove⟩ := hsafe
    by_cases hrefuse : s.world.Refuses
    · refine wp_seq (wp_alloc_refuses d hrefuse) ?_
      rintro r t ⟨herr, rfl⟩
      rw [wp_pure, if_neg herr]
      exact ⟨rfl, c, hlog, hlive, .refl _ c, fun _ _ hno => nomatch hno⟩
    have hfree := (hcan hrefuse).free
    refine wp_seq (CopyMedia.wp_alloc (fun _ _ => rfl)
      (Function.update s.live s.world.segMap.reclaimed (some page.main)) hd (by decide) hlog hlive
      hcan rfl rfl (fun a b hab => ?_) (fun a b hab => ?_) hmove)
      fun r t ⟨⟨c', hlog', hlive', hkept, hok⟩, _⟩ => ?_
    · rwa [Function.update_of_ne]
      rintro rfl
      rw [hfree] at hab
      exact absurd hab.symm (Option.some_ne_none b)
    · by_cases ha : a = s.world.segMap.reclaimed
      · subst ha
        rw [Function.update_self] at hab
        exact .inr ⟨rfl, Option.some.inj hab, rfl, rfl⟩
      · rw [Function.update_of_ne ha] at hab
        exact .inl hab
    · rw [wp_pure]
      by_cases herr : r.err = 0
      · obtain ⟨-, haddr, hnew, -, hwritten, -⟩ := hok herr
        rw [if_pos herr, haddr]
        refine ⟨if_neg ?_, c', hlog', hnew, hkept, fun a block hw => ?_⟩
        · rw [hfree]
          exact Bool.false_ne_true
        · obtain ⟨rfl, -⟩ := Change.written.inj hw
          exact hwritten page.main (Function.update_self _ _ _)
      · rw [if_neg herr]
        exact ⟨rfl, c', hlog', hlive', hkept, fun _ _ hno => nomatch hno⟩
  | commit upper =>
    obtain ⟨hcan, hmove⟩ := hsafe
    exact wp_seq (CopyMedia.commit_spec (fun _ _ => rfl) hd hlog hlive hcan
      fun v hsize => hmove hsize v) fun _ _ ⟨c', hlog', hlive', hkept, _⟩ =>
        ⟨rfl, c', hlog', hlive', hkept⟩
  | findNextFreePage =>
    exact wp_seq (CopyMedia.findNextFreePageLoop_spec (fun _ _ => rfl) hd segmentsCount false hlog
      hlive (fun hno => absurd hno Bool.false_ne_true) hsafe)
      fun _ _ ⟨c', hlog', hlive', hkept, _⟩ => ⟨rfl, c', hlog', hlive', hkept⟩
  | markAsObsolete b isAfterReboot =>
    refine wp_seq (wp_mono (hlog.markAsObsolete_spec isAfterReboot hsafe) (fun _ _ ht => ht)
      fun _ _ _ hno => absurd hno Bool.false_ne_true) fun _ t ⟨c', hlog', hmarked⟩ => ?_
    exact ⟨rfl, c', hlog', hmarked.rest hlive, hmarked⟩
  | readBlock b =>
    refine (frame_readBlock b : Frame id (NandFs.readBlock b)).wp_bind (fun _ t ht => ?_)
      fun _ _ _ hno => absurd hno Bool.false_ne_true
    rw [show t = s.world from ht]
    exact ⟨rfl, c, hlog, hlive, .refl _ c⟩

theorem LogCall.execOn_spec {d : CopyMedia} (hd : d.wear.Sound) (call : LogCall)
    (h : KeepsLive nBytes s.live s.world) (hsafe : call.SafeOn d nBytes data s) :
    wp (call.execOn d nBytes data)
      (fun change t => KeepsLive nBytes (change.apply s.live) t ∧
        change.keep s.live = change.apply s.live)
      (fun e _ => call.programs = true → e = .powerLoss) s.world := by
  obtain ⟨c, hlog, hlive⟩ := h
  refine wp_mono (call.execOn_kept hd hlog hlive hsafe) ?_ fun _ _ he => he
  rintro change t ⟨hkeep, c', hlog', hlive', -⟩
  exact ⟨⟨c', hlog', hlive'⟩, hkeep⟩

theorem LogCall.exec_spec (call : LogCall) (h : KeepsLive nBytes s.live s.world)
    (hsafe : call.Safe nBytes data s) : wp (call.exec nBytes data)
      (fun change t => KeepsLive nBytes (change.apply s.live) t)
      (fun e _ => call.programs = true → e = .powerLoss) s.world := by
  rw [← LogCall.execOn_eq CopyMedia.sound_reliable]
  exact wp_mono (call.execOn_spec Media.sound_reliable h (hsafe.on CopyMedia.sound_reliable))
    (fun _ _ ht => ht.1) fun _ _ he => he

/-- In every run of safe calls the log holds every live page. -/
theorem LogRun.keepsLive (h : LogRun nBytes (StartFits nBytes) (LogCall.Safe nBytes) s) :
    KeepsLive nBytes s.live s.world := by
  induction h with
  | format erased ok run =>
    exact of_wp_ok (sequencingBooting_log (fun a => (erased a).1) (fun a => (erased a).2)
      ok.le ok.first) run rfl
  | @call s t data call change _ ok run ih =>
    have hkeep := of_wp_ok (call.exec_spec ih ok) run
    exact hkeep

/-- In every run of safe calls each block written and not marked since is read back. -/
theorem readBlock_live (h : LogRun nBytes (StartFits nBytes) (LogCall.Safe nBytes) s) {a : LogAddr}
    {block : Block} (hlive : s.live a = some block) :
    readBlock a s.world = .ok (some block) s.world :=
  h.keepsLive.readBlock_run hlive

end Step

/-! ## Runs on the tiny chip -/

/-- The store after the calls of a list, if they all return. -/
def LogState.after (nBytes : Nat) (data : Nat → UInt8) : List LogCall → LogState → Option LogState
  | [], s => some s
  | call :: calls, s =>
    match call.exec nBytes data s.world with
    | .ok change t => after nBytes data calls ⟨t, change.apply s.live⟩
    | .error _ _ => none

/-- The store once a chip with the bad erase units `badEu` is formatted, if that succeeds. -/
def LogState.formatted (nBytes : Nat) (data : Nat → UInt8) (badEu : Nat → Bool) : Option LogState :=
  match sequencingBooting data nBytes (checkpointWriter data nBytes) (erasedWorld badEu) with
  | .ok (res, _, _) t => if res = 0 then some ⟨t, fun _ => none⟩ else none
  | .error _ _ => none

section After
variable {nBytes : Nat} {data : Nat → UInt8} {s t : LogState} {start : Flash → Prop}
  {cond : (Nat → UInt8) → LogCall → LogState → Prop}

theorem LogRun.after (hcond : ∀ data call s, cond data call s) {calls : List LogCall}
    (h : LogRun nBytes start cond s) (ht : s.after nBytes data calls = some t) :
    LogRun nBytes start cond t := by
  induction calls generalizing s with
  | nil =>
    cases ht
    exact h
  | cons call calls ih =>
    unfold LogState.after at ht
    split at ht
    · rename_i change u run
      exact ih (.call h (hcond _ _ _) run) ht
    · cases ht

theorem LogRun.formatted {badEu : Nat → Bool} (hstart : start (erasedWorld badEu).flash)
    (ht : LogState.formatted nBytes data badEu = some t) : LogRun nBytes start cond t := by
  unfold LogState.formatted at ht
  split at ht
  · rename_i res data' pending u run
    split at ht
    · rename_i hres
      subst hres
      cases ht
      exact .format (fun _ => ⟨rfl, rfl⟩) hstart run
    · cases ht
  · cases ht

end After

end Runs

section TinyPage
attribute [local instance] tinyPage

/-- A page of sixteen equal bytes. -/
def tinyBlock (n : Nat) : Page := { initBuf with main := fun _ => UInt8.ofNat n }

def writeTiny (n : Nat) : LogCall :=
  .allocAndWriteBlock LogAddr.empty (tinyBlock n) false LogAddr.empty

/-- The first block is written to a formatted tiny chip and read back. -/
theorem readBlock_live_tinyPage : ∃ (s : LogState) (block : Block),
    s.live ⟨0, 6⟩ = some block ∧ readBlock ⟨0, 6⟩ s.world = .ok (some block) s.world := by
  have hcheck : (LogState.formatted 48 (fun _ => 0) fun _ => false).any (fun s =>
      (s.world.segMap.headOffset == 6 && !s.world.segMap.isEuReserve &&
        s.world.flash.good (euAt s.world.segMap.newSlotId 1) &&
        (s.live s.world.segMap.reclaimed).isNone) &&
      (match allocAndWriteBlock LogAddr.empty (allocatedPage (tinyBlock 0) .not) false
          LogAddr.empty (checkpointWriter (fun _ => 0) 48) .last s.world with
        | .ok _ t => !t.segMap.isPageOffsetOverflowing && !t.segMap.isStateReclamation
        | .error _ _ => true) &&
      match (writeTiny 0).exec 48 (fun _ => 0) s.world with
        | .ok change _ => (change.apply s.live ⟨0, 6⟩).isSome
        | .error _ _ => false) = true := by
    decide +kernel
  obtain ⟨s, hs, hcheck⟩ := (Option.any_eq_true _ _).mp hcheck
  simp only [Bool.and_eq_true, beq_iff_eq, Bool.not_eq_true', Option.isNone_iff_eq_none] at hcheck
  obtain ⟨⟨⟨⟨⟨hoff, hno⟩, hgood⟩, hfree⟩, hgrow⟩, hexec⟩ := hcheck
  have hrun : LogRun 48 (StartFits 48) (LogCall.Safe 48) s :=
    .formatted ⟨by decide, fun _ _ _ => ⟨rfl, rfl⟩⟩ hs
  have hsafe : (writeTiny 0).Safe 48 (fun _ => 0) s := by
    refine ⟨fun _ => ⟨?_, ?_, .home hno ?_, hfree⟩, fun v hv => ?_⟩
    · rw [hoff]
      decide
    · rw [hoff]
      decide
    · rw [hoff]
      exact hgood
    · -- the log grows and the next page is in the same segment
      obtain ⟨r, t, halloc, -, hmoves⟩ := hv
      rw [halloc] at hgrow
      simp only [Bool.and_eq_true, Bool.not_eq_true'] at hgrow
      rw [hmoves.overflowing hgrow.2] at hgrow
      exact absurd hgrow.1 Bool.true_eq_false.mp
  split at hexec
  · rename_i change t run
    obtain ⟨block, hlive⟩ := Option.isSome_iff_exists.mp hexec
    exact ⟨_, block, hlive, readBlock_live (.call hrun hsafe run) hlive⟩
  · cases hexec

/-- Ten blocks fill the data segments of the tiny chip.  The last call finds no segment to
reclaim when the new slot has been changed already, and the page before it reads as erased. -/
theorem readBlock_live_fails : ¬∀ (s : LogState), LogRun 48 (fun _ => True) (fun _ _ _ => True) s →
    ∀ a block, s.live a = some block → readBlock a s.world = .ok (some block) s.world := by
  intro h
  have hcheck : ((LogState.formatted 48 (fun _ => 0) fun _ => false).bind
      (LogState.after 48 (fun _ => 0) ((List.range 10).map writeTiny))).any (fun s =>
        (s.live ⟨4, 6⟩).any (fun block => block ⟨0, by decide⟩ == 8) &&
        okAnd (readBlock ⟨4, 6⟩) s.world fun found _ =>
          found.any fun block => block ⟨0, by decide⟩ == 0xff) = true := by decide +kernel
  obtain ⟨t, ht, hcheck⟩ := (Option.any_eq_true _ _).mp hcheck
  obtain ⟨s, hs, ht⟩ := Option.bind_eq_some_iff.mp ht
  obtain ⟨hlive, hread⟩ := (Bool.and_eq_true _ _).mp hcheck
  obtain ⟨block, hlive, hblock⟩ := (Option.any_eq_true _ _).mp hlive
  have hrun : LogRun 48 (fun _ => True) (fun _ _ _ => True) s := .formatted trivial hs
  rw [okAnd, h t (hrun.after (fun _ _ _ => trivial) ht) _ _ hlive] at hread
  have hblock := beq_iff_eq.mp hblock
  have hread := beq_iff_eq.mp hread
  rw [hblock] at hread
  exact absurd hread (by decide)

end TinyPage

end NandFs
