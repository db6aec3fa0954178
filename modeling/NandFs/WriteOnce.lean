import NandFs.LastValidPage
import NandFs.WearRuns
import NandFs.CopyBackAtomic

/-! # Each page is programmed once

The driver asserts, before it programs the main area of a page, that it was not programmed since
the last erase.  Where the head of the log is at a page that can be written this assertion does
not fail, and no other does: a call that programs main areas stops only where the power is lost.
What is live in the log does not matter here.

A copy-back programs the copy-back unit, which is to be empty then.  The first valid erase unit of
its slot holds a header and it is the second: allocations pass over it, and it stays free as long as
wear leveling copies no more than the header there (`SparesCopyBack`).
-/
namespace NandFs

open Program

section Runs
variable [Config]

/-- The call is safe as far as the head of the log goes, whatever pages are live. -/
def LogCall.SafeStore (nBytes : Nat) (data : Nat → UInt8) (call : LogCall) (w : World) : Prop :=
  call.Safe nBytes data ⟨w, fun _ => none⟩

/-- No wear leveling that the call comes to writes to the copy-back unit. -/
def LogCall.SparesCopyBack (nBytes : Nat) (data : Nat → UInt8) (call : LogCall) (w : World) : Prop :=
  ∀ v, call.MovesAt nBytes data w v → v.MoveSpares

/-- The store holds a log, and a copy-back unit that is spared. -/
structure KeepsSparing (nBytes : Nat) (w : World) : Prop where
  log : ∃ c, Log nBytes w.flash w.segMap c
  spared : NandFs.SparesCopyBack w.flash w.segMap

/-- The runs of calls that are safe so and spare the copy-back unit, on a chip none of whose
operations fails. -/
abbrev SparingRun (nBytes : Nat) : World → Prop :=
  StoreRun nBytes (StartFits nBytes) (KeepsSparing nBytes) fun data call w =>
    call.SafeStore nBytes data w ∧ call.SparesCopyBack nBytes data w

/-- No page is programmed twice by the call: a call that programs main areas fails no assertion,
and any other leaves them alone. -/
def LogCall.ProgramsOnce (nBytes : Nat) (data : Nat → UInt8) (call : LogCall) (w : World) : Prop :=
  if call.programs then ∀ e t, call.exec nBytes data w = .error e t → e = .powerLoss
  else wp (call.exec nBytes data) (fun _ t => t.flash.mainAreaWrites = w.flash.mainAreaWrites)
    (fun _ t => t.flash.mainAreaWrites = w.flash.mainAreaWrites) w

/-! ## Marking programs no main area -/

/-- What a mark in a spare area leaves of the chip and the map is left by `markAsObsolete`. -/
theorem frame_chip_markAsObsolete {τ : Type} (view : Flash × SegMap → τ)
    (hpower : ∀ f m power, view ({ f with power := power }, m) = view (f, m))
    (hmark : ∀ f m phy, view (f.programObsolete phy, m) = view (f, m)) (b : LogAddr)
    (isAfterReboot : Bool) :
    Frame (fun w : World => view (w.flash, w.segMap)) (markAsObsolete b isAfterReboot) := by
  have hcount := (frame_countObsolete b).comp view
  have hprog : ∀ phy, Frame (fun w : World => view (w.flash, w.segMap))
      (nandProgramObsoleteByte phy) := by
    intro phy
    refine frame_bind (frame_getFp _) fun _ => frame_ite (frame_pure _) ?_
    refine frame_bind frame_get fun _ => frame_bind (frame_assert _) fun _ => ?_
    refine frame_bind (frame_spendPower_of fun _ _ => hpower _ _ _) fun _ => ?_
    exact frame_bind (frame_modify fun _ => hmark _ _ _) fun _ => frame_pure _
  refine frame_bind (frame_logicalAddressToPhysical b) fun phy => frame_ite (frame_pure _) ?_
  refine frame_bind (frame_isPageMarkedObsolete phy) fun marked =>
    frame_ite ?_ (frame_seqVerify (hprog phy) hcount)
  exact frame_ite (frame_bind (frame_modify fun _ => rfl) fun _ => frame_pure _) (frame_pure _)

theorem frame_writes_markAsObsolete (b : LogAddr) (isAfterReboot : Bool) :
    Frame (fun w : World => w.flash.mainAreaWrites) (markAsObsolete b isAfterReboot) :=
  frame_chip_markAsObsolete (fun p => p.1.mainAreaWrites) (fun _ _ _ => rfl)
    (fun _ _ _ => rfl) b isAfterReboot

section Step
variable {nBytes : Nat} {data : Nat → UInt8} {w : World} {c : Contents}

/-- In a log nothing need be live. -/
theorem Log.keepsLive_none (h : Log nBytes w.flash w.segMap c) :
    KeepsLive nBytes (fun _ => none) w :=
  ⟨c, h, fun _ _ hab => absurd hab.symm (Option.some_ne_none _)⟩

/-- One call, from a state that holds a log. -/
theorem LogCall.programsOnce {call : LogCall} (h : KeepsLive nBytes (fun _ => none) w)
    (hsafe : call.SafeStore nBytes data w) : call.ProgramsOnce nBytes data w := by
  have hspec := call.exec_spec (s := ⟨w, fun _ => none⟩) h hsafe
  cases call with
  | allocAndWriteBlock logAddr page onlyVOTs prev =>
    rintro e t hrun
    exact of_wp_error hspec hrun rfl
  | commit upper =>
    rintro e t hrun
    exact of_wp_error hspec hrun rfl
  | findNextFreePage =>
    rintro e t hrun
    exact of_wp_error hspec hrun rfl
  | markAsObsolete b isAfterReboot =>
    refine (frame_writes_markAsObsolete b isAfterReboot).wp_bind (fun _ t ht => ?_)
      fun _ t ht => ht
    exact ht
  | readBlock b =>
    refine (frame_readBlock b : Frame (fun w : World => w.flash.mainAreaWrites)
      (NandFs.readBlock b)).wp_bind (fun _ t ht => ?_) fun _ t ht => ht
    exact ht

/-! ## The copy-back unit stays free -/

/-- Marking a page leaves the places that the spare areas name. -/
theorem spares_markAsObsolete (b : LogAddr) (isAfterReboot : Bool) :
    wp (markAsObsolete b isAfterReboot) (fun _ t => KeepsSpared w t) (fun _ _ => True) w := by
  have hplaces : Frame (fun w : World => (w.flash.badEu, w.segMap,
      fun a => (w.flash.page a).flags.slotEuOffset)) (markAsObsolete b isAfterReboot) := by
    refine frame_chip_markAsObsolete
      (fun p => (p.1.badEu, p.2, fun a => (p.1.page a).flags.slotEuOffset))
      (fun _ _ _ => rfl) (fun f m phy => ?_) b isAfterReboot
    refine congrArg (fun g => (f.badEu, m, g)) (funext fun a => ?_)
    unfold Flash.programObsolete
    by_cases ha : a = phy
    · subst ha
      simp only [Function.update_self]
    · simp only [Function.update_of_ne ha]
  refine hplaces.wp (fun _ t ht => ?_) fun _ _ _ => trivial
  have hbad : t.flash.badEu = w.flash.badEu := congrArg Prod.fst ht
  have hm : t.segMap = w.segMap := congrArg (·.2.1) ht
  have hflag : ∀ a, (t.flash.page a).flags.slotEuOffset = (w.flash.page a).flags.slotEuOffset :=
    fun a => congrFun (congrArg (·.2.2) ht) a
  have hfree : CopyBackFree w.flash w.segMap → CopyBackFree t.flash t.segMap := fun h =>
    h.of_flag hbad (by rw [hm]) (hflag _)
  refine fun h => ⟨hfree h.free, fun hopen => ⟨hfree h.free, fun hres => ?_⟩⟩
  rw [hm] at hopen hres ⊢
  rw [Flash.copyBackEu, Flash.validEuAt_congr hbad]
  exact (h.head hopen).notHead hres

/-- One call, from a state that holds a log. -/
theorem LogCall.exec_spares {call : LogCall} (hlog : Log nBytes w.flash w.segMap c)
    (hsafe : call.SafeStore nBytes data w) (hspares : call.SparesCopyBack nBytes data w) :
    wp (call.exec nBytes data) (fun _ t => KeepsSpared w t) (fun _ _ => True) w := by
  have hsafe := hsafe.on CopyMedia.sound_reliable
  have hlive : Live nBytes w.segMap c fun _ => none := fun _ _ hab =>
    absurd hab.symm (Option.some_ne_none _)
  rw [← LogCall.execOn_eq CopyMedia.sound_reliable]
  cases call with
  | allocAndWriteBlock logAddr page onlyVOTs prev =>
    obtain ⟨hcan, hmove⟩ := hsafe
    refine wp_seq (CopyMedia.wp_alloc (fun _ => trivial) (fun _ => none) Media.sound_reliable
      (by decide) hlog hlive hcan rfl rfl (fun _ _ hab => hab) (fun _ _ hab => .inl hab) hmove)
      fun r t ⟨_, hkeeps⟩ => ?_
    exact hkeeps fun v hv => hspares v (hv.of_sound CopyMedia.sound_reliable)
  | commit upper =>
    obtain ⟨hcan, hmove⟩ := hsafe
    refine wp_seq (CopyMedia.commit_spec (fun _ => trivial) Media.sound_reliable hlog hlive hcan
      fun v hsize => hmove hsize v) fun r t ⟨_, _, _, _, _, hkeeps⟩ => ?_
    exact hkeeps fun v hsize hv => hspares v ⟨hsize, hv.of_sound CopyMedia.sound_reliable⟩
  | findNextFreePage =>
    refine wp_seq (CopyMedia.findNextFreePageLoop_spec (fun _ => trivial) Media.sound_reliable
      segmentsCount false hlog hlive (fun hno => absurd hno Bool.false_ne_true) hsafe)
      fun r t ⟨_, _, _, _, _, hkeeps⟩ => ?_
    exact hkeeps fun v hv => hspares v (hv.of_sound CopyMedia.sound_reliable)
  | markAsObsolete b isAfterReboot =>
    exact wp_seq (spares_markAsObsolete b isAfterReboot) fun _ _ ht => ht
  | readBlock b =>
    refine (frame_readBlock b : Frame id (NandFs.readBlock b)).wp_bind (fun _ t ht => ?_)
      fun _ _ _ => trivial
    rw [show t = w from ht]
    exact .refl w

/-- The head and the copy-back unit hold up in every run. -/
theorem keepsSparing_of_run (h : SparingRun nBytes w) : KeepsSparing nBytes w := by
  induction h with
  | format erased ok run =>
    obtain ⟨c, hlog, -, -, hspared⟩ := of_wp_ok (sequencingBooting_fresh (fun a => (erased a).1)
      (fun a => (erased a).2) ok.le ok.first) run rfl
    exact ⟨⟨c, hlog⟩, hspared.spares⟩
  | recovered h => exact h
  | @call w t data call change _ ok run ih =>
    obtain ⟨c, hlog⟩ := ih.log
    have hkeep := call.exec_spec (s := ⟨w, fun _ => none⟩) hlog.keepsLive_none ok.1
    obtain ⟨c', hlog', -⟩ := of_wp_ok hkeep run
    exact ⟨⟨c', hlog'⟩, of_wp_ok (LogCall.exec_spares hlog ok.1 ok.2) run ih.spared⟩

/-! ## A copy-back can begin -/

/-- Each slot of the data segments is written from its start on. -/
theorem Log.writtenTo (h : Log nBytes w.flash w.segMap c) {slot : Nat}
    (hslot : w.segMap.IsDataSlot slot) : ∃ n, c.WrittenTo slot n := by
  have hfull : (∀ o < pagesPerSlot, c slot o ≠ none) → ∃ n, c.WrittenTo slot n := fun hall =>
    ⟨pagesPerSlot, fun o ho => iff_of_true (hall o ho) ho⟩
  by_cases hnew : slot = w.segMap.newSlotId
  · exact ⟨_, fun o ho => by rw [hnew]; exact h.head.written o ho⟩
  rcases h.segments.phase with hgrow | hrec
  · -- the segments are in the slots of their numbers
    have hid : ∀ seg ∈ w.segMap.mapping.existing, w.segMap.segToSlot seg = seg := hgrow.identity
    have hdata : slot ≤ segmentsCount := by
      by_contra hlt
      have hres := mem_reserveSegments.mpr ⟨by rw [firstReserveSegment_eq]; omega, hslot.lt⟩
      exact hslot.data slot hres (hid slot (mem_existing_reserve hres))
    have hcur : w.segMap.newSlotId = w.segMap.reclaimed.segment := hgrow.newSlot
    have hnext : w.segMap.reclaimed.segment + 1 = w.segMap.nSegments := hgrow.current
    rcases Nat.lt_or_gt_of_ne hnew with hlt | hgt
    · refine hfull fun o ho => ?_
      have hfull := h.segments.full slot (by omega) (by omega) o ho
      rwa [hid slot (mem_existing_of_lt (by omega))] at hfull
    · refine ⟨0, fun o ho => iff_of_false (not_not_intro ?_) (Nat.not_lt_zero o)⟩
      exact h.segments.fresh (Mapping.Growing.not_reclamation hgrow) slot (by omega) hdata o ho
  · obtain ⟨seg, hseg, rfl, -⟩ := segmentOfSlot_eq hrec hslot.lt hnew
    have hlt : seg < w.segMap.nSegments := (Mapping.mem_existing.mp hseg).resolve_right fun hres =>
      hslot.data seg (mem_reserveSegments.mpr hres) rfl
    refine hfull fun o ho => ?_
    by_cases hcur : seg = w.segMap.reclaimed.segment
    · subst hcur
      exact h.segments.old (Mapping.Reclaiming.reclamation hrec) o ho
    · exact h.segments.full seg hlt hcur o ho

/-- What an erase unit's pages are found in is its home. -/
theorem isHome_of_run {slot e org : Nat} (hres : w.segMap.ReservesInChip) (hslot : slot < nSlots)
    (he : e < eusPerSlot) (hrun : validOrReserveEu (euAt slot e) w = .ok org w)
    (hne : org ≠ phyAddressEmpty) : IsHome w.flash w.segMap slot e org := by
  have heu := isEu_euAt hslot he
  cases hgood : w.flash.good (euAt slot e) with
  | true =>
    rw [validOrReserveEu_run_good heu hgood] at hrun
    obtain rfl := (EStateM.Result.ok.inj hrun).1
    exact .self hgood
  | false =>
    unfold validOrReserveEu at hrun
    rw [bind_ok (nandCheckEuStatus_run heu.lt), hgood, if_neg Bool.false_ne_true,
      logicalAddressToReservePhysical_run hres heu] at hrun
    have heq := (EStateM.Result.ok.inj hrun).1
    cases hfound : w.reserveOf (euAt slot e) with
    | none =>
      rw [hfound] at heq
      exact absurd heq.symm hne
    | some home =>
      rw [hfound] at heq
      obtain rfl : home = org := heq
      exact .reserve hgood (World.reserveOf_spec hfound).1 (World.reserveOf_spec hfound).2

/-- A copy-back of an erase unit of a data slot can begin where the copy-back unit is free. -/
theorem Layout.copyBackBegins {slot e org n : Nat} (h : Layout w.flash w.segMap c)
    (hcb : CopyBackFree w.flash w.segMap) (hslot : w.segMap.IsDataSlot slot) (he : e < eusPerSlot)
    (hw : c.WrittenTo slot n) (hrun : validOrReserveEu (euAt slot e) w = .ok org w)
    (hne : org ≠ phyAddressEmpty) :
    CopyBackBegins w (euAt slot e) org (w.flash.copyBackEu w.segMap) (fun i => w.flash.page (org + i))
      (min (n - e * pagesPerEu) pagesPerEu) where
  reserves := h.reserves
  isEu := isEu_euAt hslot.lt he
  copybackEu := getCopybackEu_run h.reserves
  cb_ne := hcb.valid
  home := hrun
  org_ne := hne
  ne := hcb.ne_home hslot he (isHome_of_run h.reserves hslot.lt he hrun hne)
  le := Nat.min_le_right _ _
  used := (h.writtenPages hslot he hw (isHome_of_run h.reserves hslot.lt he hrun hne)).1
  pages := (h.writtenPages hslot he hw (isHome_of_run h.reserves hslot.lt he hrun hne)).2
  blank i hi := (h.free hcb.mem hcb.free i hi).1
  clean i _ hi := (h.free hcb.mem hcb.free i hi).2
  unique hbad a ha hst := by
    cases isHome_of_run h.reserves hslot.lt he hrun hne with
    | self good =>
      rw [hbad] at good
      exact absurd good Bool.false_ne_true
    | reserve _ mem stands =>
      exact h.unique (place_lt hslot.lt he) (SegMap.mem_reserveEus.mp ha) mem hst stands

/-- It can begin after a reboot as well. -/
theorem CopyBackBegins.rebooted {t : World} {eu org cb p : Nat} {src : Nat → Page}
    (h : CopyBackBegins w eu org cb src p) (hreb : Rebooted w t) :
    CopyBackBegins t eu org cb src p := by
  have ht : Resumed w org cb t := ⟨fun _ _ _ => by rw [hreb.flash], by rw [hreb.flash],
    by rw [hreb.flash], hreb.reserves⟩
  have hpage : t.flash.page = w.flash.page := by rw [hreb.flash]
  have hcb : t.flash.page cb = initBuf := by
    rw [hpage]
    exact h.blank 0 pagesPerEu_pos
  refine { h with
    reserves := ht.reservesInChip h.reserves
    copybackEu := ?_
    home := h.home_eq ht hcb fun hbad => h.standsFor_kept ht hbad (by rw [hpage])
    pages := h.pages.congr fun i _ => by rw [hpage]
    blank := fun i hi => by rw [hpage]; exact h.blank i hi
    clean := fun i hle hlt => by rw [hreb.flash]; exact h.clean i hle hlt
    unique := fun hbad e he hst => ?_ }
  · rw [getCopybackEu_run (ht.reservesInChip h.reserves), ht.validEuAt, h.cb_eq]
  · rw [ht.good] at hbad
    rw [ht.reserveEus] at he
    refine h.unique hbad e he ?_
    rwa [Flash.standsFor, ht.good, hpage] at hst

/-- While the power lasts a copy-back returns, and where it does not nothing else stops it. -/
theorem CopyBackBegins.halts {eu org cb p n : Nat} {src : Nat → Page}
    (h : CopyBackBegins w eu org cb src p) (hn : n < pagesPerEu) :
    (∃ r u, copyBackSimple cb (org + n) false (realOrgEu w eu)
      { w with flash := { w.flash with power := none } } = .ok r u) ∧
    ∀ j e u, copyBackSimple cb (org + n) false (realOrgEu w eu) (w.withPower j) = .error e u →
      e = .powerLoss := by
  have hspec := fun power => copyBackSimple_spec { w with flash := { w.flash with power := power } }
    (realOrgEu w eu) h.isEu_org h.isEu_cb h.ne h.good_org h.cb_mem.2 h.used h.le hn h.pages
    (fun i hi => h.blank i hi) h.clean
  refine ⟨?_, fun j e u hrun => (of_wp_error (hspec (some j)) hrun).1⟩
  cases hrun : copyBackSimple cb (org + n) false (realOrgEu w eu)
      { w with flash := { w.flash with power := none } } with
  | ok r u => exact ⟨r, u, rfl⟩
  | error e u =>
    obtain ⟨-, hpow, k, hspent, -⟩ := of_wp_error (hspec none) hrun
    have hspent : none = u.flash.power.map (· + k) := hspent
    rw [hpow] at hspent
    exact absurd hspent (by simp)

/-- In every run of safe calls no page is programmed twice without an erase between.  And after a
reboot in any state of the run a copy-back of an erase unit of a data slot, however many of its
pages are kept, programs none twice; wherever the power is lost in it the next boot looks after it. -/
theorem programsOnce_of_run (h : SparingRun nBytes w) :
    (∀ data (call : LogCall), call.SafeStore nBytes data w → call.ProgramsOnce nBytes data w) ∧
    ∀ slot e org, w.segMap.IsDataSlot slot → e < eusPerSlot →
      validOrReserveEu (euAt slot e) w = .ok org w → org ≠ phyAddressEmpty →
      ∀ t, Rebooted w t → ∃ cb, getCopybackEu t = .ok cb t ∧ ∀ n < pagesPerEu,
        (∃ r u, copyBackSimple cb (org + n) false (realOrgEu t (euAt slot e)) t = .ok r u) ∧
        ∀ j, (∀ e' u, copyBackSimple cb (org + n) false (realOrgEu t (euAt slot e))
            (t.withPower j) = .error e' u → e' = .powerLoss) ∧
          ∀ u, Rebooted (stateAfter (copyBackSimple cb (org + n) false
            (realOrgEu t (euAt slot e))) (t.withPower j)) u → ∃ r v, handleCopyBack u = .ok r v := by
  obtain ⟨⟨c, hlog⟩, hspared⟩ := keepsSparing_of_run h
  refine ⟨fun data call hsafe => LogCall.programsOnce hlog.keepsLive_none hsafe, ?_⟩
  intro slot e org hslot he hrun hne t hreb
  obtain ⟨p, hw⟩ := hlog.writtenTo hslot
  have hbegins := (hlog.head.layout.copyBackBegins hspared.free hslot he hw hrun hne).rebooted hreb
  refine ⟨_, hbegins.copybackEu, fun n hn => ⟨?_, fun j => ⟨(hbegins.halts hn).2 j, fun u hu =>
    hbegins.handleCopyBack_returns hn hu⟩⟩⟩
  have hpower : { t with flash := { t.flash with power := none } } = t := by
    rw [show ({ t.flash with power := none } : Flash) = t.flash by rw [hreb.flash]]
  have hok := (hbegins.halts hn).1
  rwa [hpower] at hok

/-- Where the test for safe calls is passed the call is safe and spares the copy-back unit. -/
theorem LogCall.sparing_of_test {call : LogCall}
    (h : call.safeTest nBytes data ⟨w, fun _ => none⟩ = true) :
    call.SafeStore nBytes data w ∧ call.SparesCopyBack nBytes data w :=
  ⟨LogCall.safe_of_test h, fun _ hv => World.moveSpares_of_test (LogCall.moveTest_of_test h hv)⟩

end Step

end Runs

section TinyPage
attribute [local instance] tinyPage

/-- Nine blocks are written to a tiny chip and one of them is marked.  The next one fills the last
segment, and a segment is reclaimed.  Or there is a reboot, and a copy-back of two of the pages that
the first erase unit of slot 4 holds. -/
theorem programsOnce_of_run_tinyPage : ∃ w t : World, ∃ cb, Rebooted w t ∧
    isPageUsed (w.flash.page (euAt 4 0 + 3)).flags = true ∧
    (writeTiny 9).ProgramsOnce 48 (fun _ => 0) w ∧ getCopybackEu t = .ok cb t ∧
    (∃ r u, copyBackSimple cb (euAt 4 0 + 2) false (realOrgEu t (euAt 4 0)) t = .ok r u) ∧
    ∀ j u, Rebooted (stateAfter (copyBackSimple cb (euAt 4 0 + 2) false (realOrgEu t (euAt 4 0)))
      (t.withPower j)) u → ∃ r v, handleCopyBack u = .ok r v := by
  have hcheck : (((LogState.booted 48 (fun _ => 0) (erasedWorld fun _ => false)).map
      LogState.world).bind (World.afterCalls (fun call w =>
          call.safeTest 48 (fun _ => 0) ⟨w, fun _ => none⟩) 48 (fun _ => 0)
        ((List.range 9).map writeTiny ++ [LogCall.markAsObsolete ⟨1, 7⟩ false]))).any (fun w =>
          (w.flash.good (euAt 4 0) && isPageUsed (w.flash.page (euAt 4 0 + 3)).flags) &&
          reserveSegments.all (fun seg => w.segMap.segToSlot seg != 4) &&
            (writeTiny 9).safeTest 48 (fun _ => 0) ⟨w, fun _ => none⟩) = true := by
    decide +kernel
  obtain ⟨w, hw, hcheck⟩ := (Option.any_eq_true _ _).mp hcheck
  obtain ⟨hcheck, hsafe⟩ := (Bool.and_eq_true _ _).mp hcheck
  obtain ⟨hpage, hdata⟩ := (Bool.and_eq_true _ _).mp hcheck
  obtain ⟨hgood, hused⟩ := (Bool.and_eq_true _ _).mp hpage
  obtain ⟨v, hv, hw⟩ := Option.bind_eq_some_iff.mp hw
  obtain ⟨r, hr, rfl⟩ := Option.map_eq_some_iff.mp hv
  have hrun : SparingRun 48 w :=
    .afterCalls (fun _ _ => LogCall.sparing_of_test)
      (.booted (fun _ => ⟨rfl, rfl⟩) ⟨by decide, fun _ _ _ => ⟨rfl, rfl⟩⟩ hr) hw
  have hslot : w.segMap.IsDataSlot 4 :=
    ⟨by decide, fun seg hseg => bne_iff_ne.mp (List.all_eq_true.mp hdata seg hseg)⟩
  have heu : IsEu (euAt 4 0) := isEu_euAt (by decide) (by decide)
  have hreb : Rebooted w { w with flash := { w.flash with power := none } } := ⟨rfl, fun _ _ => rfl⟩
  obtain ⟨honce, hcopy⟩ := programsOnce_of_run hrun
  obtain ⟨cb, hcb, hcopies⟩ := hcopy 4 0 (euAt 4 0) hslot (by decide)
    (validOrReserveEu_run_good heu hgood) heu.ne_empty _ hreb
  obtain ⟨hok, hboot⟩ := hcopies 2 (by decide)
  exact ⟨w, _, cb, hreb, hused, honce _ _ (LogCall.safe_of_test hsafe), hcb, hok,
    fun j u hu => (hboot j).2 u hu⟩

/-- The last erase unit of the first slot is bad.  The fifth block is written to the reserve erase
unit that replaces it and fills the segment, and the header of the next segment is programmed
over it. -/
theorem programsOnce_of_run_fails : ¬∀ w : World,
    StoreRun 0 (StartFits 0) (fun _ => False) (fun _ _ _ => True) w →
      ∀ data (call : LogCall), call.ProgramsOnce 0 data w := by
  intro h
  have hcheck : (((LogState.booted 0 (fun _ => 0) (erasedWorld (· == 1))).map LogState.world).bind
      (World.afterCalls (fun _ _ => true) 0 (fun _ => 0) ((List.range 4).map writeTiny))).any (fun w =>
        errorAnd ((writeTiny 4).exec 0 fun _ => 0) w fun e t =>
          decide (e = .abort) && t.flash.mainAreaWrites 60) = true := by decide +kernel
  obtain ⟨w, hw, hcheck⟩ := (Option.any_eq_true _ _).mp hcheck
  obtain ⟨v, hv, hw⟩ := Option.bind_eq_some_iff.mp hw
  obtain ⟨r, hr, rfl⟩ := Option.map_eq_some_iff.mp hv
  have hrun : StoreRun 0 (StartFits 0) (fun _ => False) (fun _ _ _ => True) w := by
    refine .afterCalls (fun _ _ _ => trivial) (.booted (fun _ => ⟨rfl, rfl⟩) ⟨by decide, ?_⟩ hr) hw
    intro e hpos hlt
    have hlt : e * 4 < 3 := hlt
    omega
  have honce : ∀ e t, (writeTiny 4).exec 0 (fun _ => 0) w = .error e t → e = .powerLoss :=
    h w hrun (fun _ => 0) (writeTiny 4)
  obtain ⟨e, t, hexec, htest⟩ := exists_of_errorAnd hcheck
  have habort : e = .abort := of_decide_eq_true ((Bool.and_eq_true _ _).mp htest).1
  exact absurd (habort.symm.trans (honce e t hexec)) (by decide)

end TinyPage

end NandFs
