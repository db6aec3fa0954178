import NandFs.SlotCuts

/-! # Erasing what follows a checkpoint

At a boot `findCheckpointAndTruncate` erases what was written after the newest checkpoint: the erase
units behind that of the checkpoint one after the other, and the rest of that erase unit with a
copy-back.  Where the current segment has no checkpoint `truncateCurrentSegment` erases it from the
head back.  In reclamation a page at the head is looked up in the old slot of its segment; this is
what it erases then.
-/
namespace NandFs

open Program

section Tail
variable [Config]

/-! ## Behind the checkpoint -/

/-- The head is in `segment`, which is written to `slot`. -/
structure WritesTo (w : World) (c : Contents) (segment slot : Nat) : Prop where
  layout : Layout w.flash w.segMap c
  data : w.segMap.IsDataSlot slot
  current : w.segMap.reclaimed.segment = segment
  newSlot : w.segMap.newSlotId = slot
  mapped : w.segMap.segToSlot segment ≠ noSlot
  growing : w.segMap.isStateReclamation = false → w.segMap.segToSlot segment = slot
  le : w.segMap.headOffset ≤ pagesPerSlot
  written : c.WrittenTo slot w.segMap.headOffset

section WritesTo
variable {w t : World} {c : Contents} {segment slot nBytes k l : Nat}

theorem Contents.cut_cut (c : Contents) (slot : Nat) {a b : Nat} (h : b ≤ a) :
    (c.cut slot a).cut slot b = c.cut slot b := by
  funext s o
  by_cases hs : s = slot
  · subst hs
    by_cases ho : o < b
    · rw [cut_of_lt ho, cut_of_lt ho, cut_of_lt (by omega)]
    · rw [cut_of_le (Nat.le_of_not_lt ho), cut_of_le (Nat.le_of_not_lt ho)]
  · rw [cut_of_ne hs, cut_of_ne hs, cut_of_ne hs]

/-- A slot that is written up to `n`, cut before. -/
theorem Contents.WrittenTo.cut {n : Nat} (h : c.WrittenTo slot n) (hl : l ≤ n) :
    (c.cut slot l).WrittenTo slot l := by
  intro o ho
  by_cases hlt : o < l
  · rw [Contents.cut_of_lt hlt, h o ho]
    exact iff_of_true (by omega) hlt
  · rw [Contents.cut_of_le (Nat.le_of_not_lt hlt)]
    exact iff_of_false (fun hne => hne rfl) hlt

/-- Behind the head nothing is written. -/
theorem Contents.WrittenTo.cut_eq {n : Nat} (h : c.WrittenTo slot n) :
    ∀ s, ∀ o < pagesPerSlot, c.cut slot n s o = c s o := by
  intro s o ho
  by_cases hs : s = slot
  · subst hs
    by_cases hlt : o < n
    · exact Contents.cut_of_lt hlt
    · rw [Contents.cut_of_le (Nat.le_of_not_lt hlt)]
      by_contra hne
      exact hlt ((h o ho).mp (Ne.symm hne))
  · exact Contents.cut_of_ne hs o

/-- With the head at `n`, the pages of the segment before it are looked up in the slot. -/
theorem WritesTo.looksUp_at (h : WritesTo w c segment slot) (n : Nat) :
    ({ w.segMap with reclaimed := ⟨segment, n⟩ } : SegMap).LooksUp segment slot n := by
  refine ⟨h.mapped, fun o ho => ?_⟩
  have hstate : ({ w.segMap with reclaimed := ⟨segment, n⟩ } : SegMap).isStateReclamation =
      w.segMap.isStateReclamation := by
    unfold SegMap.isStateReclamation SegMap.reclaimedSegmentSlot
    rw [h.current]
  unfold SegMap.expectedPage
  rw [hstate]
  cases hrec : w.segMap.isStateReclamation with
  | true =>
    rw [if_pos ⟨rfl, rfl, ho⟩]
    exact congrArg (calcAddress · 0 o) h.newSlot
  | false =>
    rw [if_neg fun hc => Bool.false_ne_true hc.1]
    exact congrArg (calcAddress · 0 o) (h.growing hrec)

theorem WritesTo.looksUp (h : WritesTo w c segment slot) :
    w.segMap.LooksUp segment slot w.segMap.headOffset := by
  have hlook := h.looksUp_at w.segMap.headOffset
  rwa [← h.current] at hlook ⊢

/-- The slot was cut at `n`, and the head goes there. -/
theorem WritesTo.moveHead {n : Nat} (h : WritesTo w c segment slot) (hn : n ≤ w.segMap.headOffset)
    (hmap : t.segMap = w.segMap) (hlay : Layout t.flash t.segMap (c.cut slot n)) :
    WritesTo { t with segMap := t.segMap.setReclaimedOffset n } (c.cut slot n) segment slot := by
  have hle := h.le
  have hsmall := pagesPerSlot_le
  have hoff : (t.segMap.setReclaimedOffset n).headOffset = n := by
    show n % 4096 = n
    rw [Nat.mod_eq_of_lt (by omega)]
  refine ⟨hlay.congr fun _ _ => rfl, ?_, ?_, ?_, ?_, ?_, ?_, ?_⟩
  · rw [hmap]
    exact ⟨h.data.lt, h.data.data⟩
  · rw [hmap]
    exact h.current
  · rw [hmap]
    exact h.newSlot
  · rw [hmap]
    exact h.mapped
  · rw [hmap]
    exact h.growing
  · show (t.segMap.setReclaimedOffset n).headOffset ≤ _
    rw [hoff]
    omega
  · show Contents.WrittenTo _ _ (t.segMap.setReclaimedOffset n).headOffset
    rw [hoff]
    exact h.written.cut hn

/-- The erase of an erase unit at the end of what is written cuts the slot. -/
theorem WritesTo.cut_of_erase (h : WritesTo w c segment slot) {f : Flash} {home : Nat}
    (hl : w.segMap.headOffset = l + 1)
    (hh : IsHome w.flash w.segMap slot (l / pagesPerEu) home) (ht : w.flash.Erased home f) :
    Layout f w.segMap (c.cut slot (l / pagesPerEu * pagesPerEu)) := by
  have hle := h.le
  have heu : l / pagesPerEu < eusPerSlot := div_lt_eusPerSlot (by omega)
  refine (h.layout.erase h.data heu hh ht).congr_contents fun s _ o ho => ?_
  by_cases hs : s = slot
  swap
  · rw [Contents.cut_of_ne hs, Contents.clearEus_of_ne hs]
  subst hs
  have hdiv := div_mul_add_mod o
  have hmod := Nat.mod_lt o pagesPerEu_pos
  by_cases hin : o / pagesPerEu = l / pagesPerEu
  · rw [Contents.clearEus_of_mem (List.mem_singleton.mpr hin), Contents.cut_of_le]
    rw [← hin]
    omega
  · rw [Contents.clearEus_of_not_mem fun hm => hin (List.mem_singleton.mp hm)]
    rcases Nat.lt_or_gt_of_ne hin with hlt | hgt
    · have hmul := Nat.mul_le_mul_right pagesPerEu (show o / pagesPerEu + 1 ≤ l / pagesPerEu from hlt)
      rw [Nat.add_mul, Nat.one_mul] at hmul
      rw [Contents.cut_of_lt (by omega)]
    · have hmul := Nat.mul_le_mul_right pagesPerEu (show l / pagesPerEu + 1 ≤ o / pagesPerEu from hgt)
      have hlast := div_mul_add_mod l
      have hlmod := Nat.mod_lt l pagesPerEu_pos
      rw [Nat.add_mul, Nat.one_mul] at hmul
      rw [Contents.cut_of_le (by omega)]
      by_contra hne
      have := (h.written o ho).mp (Ne.symm hne)
      omega

/-- Where the head is the slot is cut already. -/
theorem WritesTo.stays (h : WritesTo w c segment slot) (hl : w.segMap.headOffset = l + 1) :
    w.segMap = { w.segMap with reclaimed := ⟨segment, l + 1⟩ } ∧
      WritesTo w (c.cut slot (l + 1)) segment slot := by
  have hwritten := h.written
  rw [hl] at hwritten
  refine ⟨by rw [← hl, ← h.current], ?_⟩
  exact ⟨h.layout.congr_contents fun s _ o ho => hwritten.cut_eq s o ho, h.data, h.current, h.newSlot,
    h.mapped, h.growing, h.le, by rw [hl]; exact hwritten.cut (Nat.le_refl _)⟩

theorem calcEuStart_eq_iff {a b : Nat} :
    calcEuStart a = calcEuStart b ↔ a / pagesPerEu = b / pagesPerEu := by
  rw [calcEuStart_eq, calcEuStart_eq, Nat.mul_left_inj pagesPerEu_pos.ne']

/-- A page that does not end its erase unit. -/
theorem mod_succ_lt (h : (k + 1) % pagesPerEu ≠ 0) : k % pagesPerEu + 1 < pagesPerEu := by
  have hdiv := div_mul_add_mod k
  have hmod := Nat.mod_lt k pagesPerEu_pos
  by_contra hge
  have hend : k + 1 = k / pagesPerEu * pagesPerEu + pagesPerEu := by omega
  rw [hend, Nat.mul_add_mod_self_right, Nat.mod_self] at h
  exact h rfl

/-- Once the erase units behind that of the page `k` are erased the last page is `l'`, which was
`l`. -/
structure ErasesTo (k l l' : Nat) : Prop where
  le : k ≤ l'
  le_last : l' ≤ l
  same : l' / pagesPerEu = k / pagesPerEu
  last : l' = l ∨ (l' + 1) % pagesPerEu = 0

/-- The rest of the erase unit of the page has pages. -/
theorem ErasesTo.ne_iff {l' : Nat} (h : ErasesTo k l l') :
    l' ≠ k ↔ k ≠ l ∧ (k + 1) % pagesPerEu ≠ 0 := by
  have hppe := pagesPerEu_pos
  have hdiv := div_mul_add_mod l'
  have hkdiv := div_mul_add_mod k
  have hmod := Nat.mod_lt l' hppe
  have hle := h.le
  have hle' := h.le_last
  have hsame := h.same
  rw [hsame] at hdiv
  constructor
  · intro hne
    refine ⟨by omega, fun hend => ?_⟩
    rw [← hkdiv, Nat.add_assoc, Nat.mul_add_mod_self_right, Nat.mod_eq_of_lt (by omega)] at hend
    omega
  · rintro ⟨hne, hin⟩ rfl
    exact h.last.elim hne hin

/-- The erase units behind that of the checkpoint are erased, the last one first. -/
theorem eraseAfterCheckpoint_spec {n : Nat} (h : WritesTo w c segment slot)
    (hl : w.segMap.headOffset = l + 1) (hk : k ≤ l) (hn : l / pagesPerEu ≤ k / pagesPerEu + n) :
    wp (eraseAfterCheckpoint k n ⟨segment, l⟩)
      (fun r t => r.1 = 0 ∧ ∃ l', r.2 = ⟨segment, l'⟩ ∧ ErasesTo k l l' ∧
        t.segMap = { w.segMap with reclaimed := ⟨segment, l' + 1⟩ } ∧
        WritesTo t (c.cut slot (l' + 1)) segment slot ∧
        w.flash.ErasedUnits (HomesOf w.flash w.segMap slot (Set.Ioi (k / pagesPerEu))) t.flash)
      (fun e _ => e = .powerLoss) w := by
  have hppe := pagesPerEu_pos
  have hsmall := pagesPerSlot_le
  -- what is erased already where the last page is in the erase unit of the checkpoint
  have hdone : ∀ {w : World} {c : Contents} {l : Nat}, WritesTo w c segment slot →
      w.segMap.headOffset = l + 1 → k ≤ l → l / pagesPerEu = k / pagesPerEu →
      ErasesTo k l l ∧ w.segMap = { w.segMap with reclaimed := ⟨segment, l + 1⟩ } ∧
        WritesTo w (c.cut slot (l + 1)) segment slot ∧
        w.flash.ErasedUnits (HomesOf w.flash w.segMap slot (Set.Ioi (k / pagesPerEu))) w.flash := by
    intro w c l h hl hk hsame
    refine ⟨⟨hk, Nat.le_refl l, hsame, .inl rfl⟩, (h.stays hl).1, (h.stays hl).2, ?_⟩
    refine h.layout.homesOf_blank h.data fun e he hlt i hi => ?_
    by_contra hne
    have hin := (h.written _ (offset_lt hlt hi)).mp hne
    have he : l / pagesPerEu < e := hsame ▸ he
    have hmul := Nat.mul_le_mul_right pagesPerEu (show l / pagesPerEu + 1 ≤ e from he)
    have hdiv := div_mul_add_mod l
    have hmod := Nat.mod_lt l hppe
    rw [Nat.add_mul, Nat.one_mul] at hmul
    omega
  induction n generalizing w c l with
  | zero =>
    have hsame : l / pagesPerEu = k / pagesPerEu := by
      have := Nat.div_le_div_right (c := pagesPerEu) hk
      omega
    exact ⟨rfl, l, rfl, hdone h hl hk hsame⟩
  | succ n ih =>
    unfold eraseAfterCheckpoint
    by_cases hsame : l / pagesPerEu = k / pagesPerEu
    · rw [if_pos (calcEuStart_eq_iff.mpr hsame)]
      exact ⟨rfl, l, rfl, hdone h hl hk hsame⟩
    · rw [if_neg fun heq => hsame (calcEuStart_eq_iff.mp heq)]
      have hle := h.le
      have hlt : k / pagesPerEu < l / pagesPerEu := by
        have := Nat.div_le_div_right (c := pagesPerEu) hk
        omega
      have hmul := Nat.mul_le_mul_right pagesPerEu (show k / pagesPerEu + 1 ≤ l / pagesPerEu from hlt)
      have hkdiv := div_mul_add_mod k
      have hkmod := Nat.mod_lt k hppe
      have hldiv := div_mul_add_mod l
      rw [Nat.add_mul, Nat.one_mul] at hmul
      obtain ⟨home, hh, hrun⟩ := h.layout.written_run h.data h.looksUp h.written hle (o := l) (by omega)
      have heu : l / pagesPerEu < eusPerSlot := div_lt_eusPerSlot (by omega)
      -- the last page of the erase unit before
      obtain ⟨d, hd⟩ := Nat.exists_eq_add_of_lt (Nat.zero_lt_of_lt hlt)
      rw [Nat.zero_add] at hd
      have hback : (l - pagesPerEu) / pagesPerEu = d := by
        refine div_of_eq (i := l % pagesPerEu) (Nat.mod_lt l hppe) ?_
        rw [hd, Nat.add_mul, Nat.one_mul] at hldiv
        omega
      have hstart : l / pagesPerEu * pagesPerEu = d * pagesPerEu + pagesPerEu := by
        rw [hd, Nat.add_mul, Nat.one_mul]
      have hprev : ((⟨segment, l⟩ : LogAddr).setOffset (l + (4096 - pagesPerEu))).setOffset
          (calcEuStart ((⟨segment, l⟩ : LogAddr).setOffset (l + (4096 - pagesPerEu))).offset +
            maxEuOffset) = ⟨segment, l / pagesPerEu * pagesPerEu - 1⟩ := by
        have hmod : (l + (4096 - pagesPerEu)) % 4096 = l - pagesPerEu := by omega
        simp only [LogAddr.setOffset, hmod, calcEuStart_eq, hback, maxEuOffset]
        rw [Nat.mod_eq_of_lt (by omega)]
        congr 1
        omega
      rw [wp_bind, wp_ok_iff hrun, wp_bind]
      refine wp_nandErase_add (fun _ => rfl) (h.layout.isEu_home h.data heu hh) hh.good
        (Nat.mod_lt l hppe) fun f hf => ?_
      rw [if_neg (not_not_intro rfl)]
      dsimp only
      rw [hprev, Nat.sub_add_cancel (by omega)]
      have hmoved := h.moveHead (t := { w with flash := f }) (n := l / pagesPerEu * pagesPerEu)
        (by omega) rfl (h.cut_of_erase hl hh hf)
      have hoff : (w.segMap.setReclaimedOffset (l / pagesPerEu * pagesPerEu)).headOffset =
          l / pagesPerEu * pagesPerEu - 1 + 1 := by
        show l / pagesPerEu * pagesPerEu % 4096 = _
        rw [Nat.mod_eq_of_lt (by omega)]
        omega
      have hdivback : (l / pagesPerEu * pagesPerEu - 1) / pagesPerEu = d :=
        div_of_eq (i := pagesPerEu - 1) (by omega) (by omega)
      refine wp_mono (ih hmoved hoff (by omega) (by rw [hdivback]; omega)) ?_ fun _ _ he => he
      rintro r t ⟨hr, l', hl', hends, hmap, hcut, herased⟩
      have hle' := hends.le_last
      rw [Contents.cut_cut c slot (by omega)] at hcut
      refine ⟨hr, l', hl', ⟨hends.le, by omega, hends.same, .inr ?_⟩, hmap, hcut, ?_⟩
      · -- it is the last page of its erase unit
        rcases hends.last with rfl | hlast
        · rw [Nat.sub_add_cancel (by omega), Nat.mul_mod_left]
        · exact hlast
      · have hmoved : HomesOf f (w.segMap.setReclaimedOffset (l / pagesPerEu * pagesPerEu)) slot
            (Set.Ioi (k / pagesPerEu)) = HomesOf f w.segMap slot (Set.Ioi (k / pagesPerEu)) :=
          homesOf_congr fun _ _ => rfl
        have hhomes := h.layout.homesOf_insert (Set.Ioi (k / pagesPerEu)) h.data heu hh hf
        rw [Set.insert_eq_of_mem (show l / pagesPerEu ∈ Set.Ioi (k / pagesPerEu) from hlt),
          ← hmoved] at hhomes
        rw [← hhomes]
        exact hf.erasedUnits.trans herased

/-- What comes before the cut stays as it is. -/
theorem Contents.flagAt_cut {n o : Nat} (h : o < n) : (c.cut slot n).flagAt slot o = c.flagAt slot o := by
  rw [flagAt, cut_of_lt h, flagAt]

theorem Contents.CheckpointAt.cut (h : c.CheckpointAt nBytes slot k) :
    (c.cut slot (k + 1)).CheckpointAt nBytes slot k := by
  obtain ⟨j, hj, hpages⟩ := h
  exact ⟨j, hj, hpages.congr fun o ho => Contents.flagAt_cut (by omega)⟩

/-- The end of `findCheckpointAndTruncate`: the checkpoint is at `k`, the last page that is written at
`l`. -/
def truncateAfterCheckpoint (nBytes : Nat) (data : Nat → UInt8) (pending : Bool) (segment k l : Nat) :
    SeqM (Nat × (Nat → UInt8) × Bool) := do
  let (res, lastValid) ← eraseAfterCheckpoint k eusPerSlot ⟨segment, l⟩
  if res ≠ 0 then pure (1, data, pending)
  else do
    let res ← if lastValid.offset ≠ k then copyBackEU ⟨segment, k⟩ else pure 0
    if res ≠ 0 then pure (1, data, pending)
    else do
      modifySegMap fun m => m.setReclaimedOffset (k + 1)
      let (res, data) ← readCheckpointToMemory data nBytes ⟨segment, k⟩
      pure (if res ≠ 0 then 1 else 0, data, pending)

/-- The copy-back unit is free once the erase units behind that of the checkpoint are erased. -/
def World.CopyBackComesFree (w : World) (slot k : Nat) : Prop :=
  CopyBackFree w.flash w.segMap ∨
    w.flash.copyBackEu w.segMap ∈ HomesOf w.flash w.segMap slot (Set.Ioi (k / pagesPerEu))

/-- The end of `findCheckpointAndTruncate`, once the checkpoint is found: the slot is cut behind it,
and the head goes there.  The rest of the erase unit of the checkpoint is cut with a copy-back. -/
theorem WritesTo.truncate_spec (h : WritesTo w c segment slot) (hfit : Fitting nBytes)
    (hl : w.segMap.headOffset = l + 1) (hk : k ≤ l) (hcp : c.CheckpointAt nBytes slot k)
    (hvalid : w.flash.copyBackEu w.segMap ≠ phyAddressEmpty)
    (hcb : k ≠ l → (k + 1) % pagesPerEu ≠ 0 → w.CopyBackComesFree slot k)
    (data : Nat → UInt8) (pending : Bool) :
    wp (truncateAfterCheckpoint nBytes data pending segment k l)
      (fun r t => r.1 = 0 ∧ t.segMap = { w.segMap with reclaimed := ⟨segment, k + 1⟩ } ∧
        Layout t.flash t.segMap (c.cut slot (k + 1)) ∧ KeepsUnit w t slot (k / pagesPerEu))
      (fun e _ => e = .powerLoss) w := by
  have hle := h.le
  have hsmall := pagesPerSlot_le
  have heus : l / pagesPerEu ≤ k / pagesPerEu + eusPerSlot :=
    Nat.le_trans (div_lt_eusPerSlot (by omega)).le (Nat.le_add_left _ _)
  have he : k / pagesPerEu < eusPerSlot := div_lt_eusPerSlot (by omega)
  have hcut := h.written.cut (l := k + 1) (by omega)
  -- the head is moved and the checkpoint is read
  have hread : ∀ (u : World) (o : Nat), u.segMap = { w.segMap with reclaimed := ⟨segment, o⟩ } →
      Layout u.flash u.segMap (c.cut slot (k + 1)) → KeepsUnit w u slot (k / pagesPerEu) →
      wp (do
          modifySegMap fun m => m.setReclaimedOffset (k + 1)
          let (res, data) ← readCheckpointToMemory data nBytes ⟨segment, k⟩
          pure (if res ≠ 0 then 1 else 0, data, pending))
        (fun r t => r.1 = 0 ∧ t.segMap = { w.segMap with reclaimed := ⟨segment, k + 1⟩ } ∧
          Layout t.flash t.segMap (c.cut slot (k + 1)) ∧ KeepsUnit w t slot (k / pagesPerEu))
        (fun e _ => e = .powerLoss) u := by
    intro u o humap hlay hkeeps
    have hmoved : u.segMap.setReclaimedOffset (k + 1) =
        { w.segMap with reclaimed := ⟨segment, k + 1⟩ } := by
      rw [humap]
      show ({ w.segMap with reclaimed := ⟨segment, (k + 1) % 4096⟩ } : SegMap) = _
      rw [Nat.mod_eq_of_lt (by omega)]
    have hlay' : Layout u.flash (u.segMap.setReclaimedOffset (k + 1)) (c.cut slot (k + 1)) :=
      hlay.congr fun _ _ => rfl
    have hkeeps' : KeepsUnit w { u with segMap := u.segMap.setReclaimedOffset (k + 1) } slot
        (k / pagesPerEu) :=
      ⟨hkeeps.badEu, fun home hh => (hkeeps.isHome home hh).congr fun _ _ => rfl⟩
    rw [hmoved] at hlay' hkeeps'
    rw [wp_bind]
    show wp _ _ _ { u with segMap := u.segMap.setReclaimedOffset (k + 1) }
    rw [hmoved]
    have hmem := readCheckpointToMemory_spec
      (w := { u with segMap := { w.segMap with reclaimed := ⟨segment, k + 1⟩ } }) hlay'
      ⟨h.data.lt, h.data.data⟩ (h.looksUp_at (k + 1)) hcut (by omega) hfit hcp.cut
      (Nat.lt_succ_self k) data
    refine wp_seq (wp_mono hmem (fun _ _ hr => hr) fun _ _ he => he.elim) ?_
    rintro ⟨res, mem⟩ v ⟨hres, hflash, hmap⟩
    dsimp only at hres ⊢
    rw [wp_pure, if_neg (not_not_intro hres), hmap, hflash]
    refine ⟨rfl, rfl, hlay', ?_, ?_⟩
    · rw [hflash]
      exact hkeeps'.badEu
    · rw [hflash, hmap]
      exact hkeeps'.isHome
  refine wp_seq (eraseAfterCheckpoint_spec h hl hk heus) ?_
  rintro ⟨res, lastValid⟩ t ⟨hres, l', hlast, hends, hmap, ht, herased⟩
  dsimp only at hres hlast ⊢
  subst hlast
  have hoff : t.segMap.headOffset = l' + 1 := by rw [hmap]
  have hsame := hends.same
  have hkl := hends.le
  have hkept : KeepsUnit w t slot (k / pagesPerEu) := by
    refine ⟨herased.badEu, fun home hh => ?_⟩
    have hno := hh.not_mem_homesOf (Set.Ioi (k / pagesPerEu)) h.data h.data he
      fun _ => Set.notMem_Ioi.mpr (Nat.le_refl _)
    rw [hmap]
    exact ((herased.isHome_iff h.layout.reserves hno).mpr hh).congr fun _ _ => rfl
  rw [if_neg (not_not_intro hres)]
  refine wp_ite (fun hne => ?_) fun heq => ?_
  · -- the rest of the erase unit of the checkpoint
    obtain ⟨hkl', hin⟩ := hends.ne_iff.mp hne
    have hready : CopyBackFree t.flash t.segMap := by
      refine (copyBackFree_congr (m := w.segMap) (by rw [hmap])).mpr ?_
      exact (herased.copyBackFree_iff h.layout.reserves hvalid).mpr (hcb hkl' hin)
    have hlast : l' + 1 ≤ (k / pagesPerEu + 1) * pagesPerEu := by
      have := div_mul_add_mod l'
      have := Nat.mod_lt l' pagesPerEu_pos
      rw [← hsame, Nat.add_mul, Nat.one_mul]
      omega
    have hlook := ht.looksUp
    have hwritten := ht.written
    have hend := ht.le
    rw [hoff] at hlook hwritten hend
    have hne : l' ≠ k := hne
    have hspec := ht.layout.copyBackEU_spec ht.data hlook hwritten hend hready (k := k) (by omega)
      hlast
    rw [Contents.cut_cut c slot (by omega)] at hspec
    refine wp_seq hspec ?_
    rintro res u ⟨rfl, humap, hulay, hkeeps⟩
    rw [if_neg (not_not_intro rfl)]
    exact hread u _ (humap.trans hmap) hulay (hkept.trans hkeeps)
  · obtain rfl : l' = k := not_not.mp heq
    rw [wp_bind, wp_pure, if_neg (not_not_intro rfl)]
    exact hread t _ hmap ht.layout hkept

/-- Where the copy-back unit stays in use, and pages are to be cut with a copy-back, nothing is
returned. -/
theorem WritesTo.truncate_halts (h : WritesTo w c segment slot) (hl : w.segMap.headOffset = l + 1)
    (hk : k ≤ l) (hvalid : w.flash.copyBackEu w.segMap ≠ phyAddressEmpty)
    (hused : ¬w.flash.IsFree (w.flash.copyBackEu w.segMap) →
      w.flash.mainAreaWrites (w.flash.copyBackEu w.segMap) = true)
    (hkl : k ≠ l) (hin : (k + 1) % pagesPerEu ≠ 0) (hcb : ¬w.CopyBackComesFree slot k)
    (data : Nat → UInt8) (pending : Bool) :
    wp (truncateAfterCheckpoint nBytes data pending segment k l) (fun _ _ => False)
      (fun _ _ => True) w := by
  have hle := h.le
  have heus : l / pagesPerEu ≤ k / pagesPerEu + eusPerSlot :=
    Nat.le_trans (div_lt_eusPerSlot (by omega)).le (Nat.le_add_left _ _)
  refine wp_seq (wp_mono (eraseAfterCheckpoint_spec h hl hk heus) (fun _ _ hr => hr)
    fun _ _ _ => trivial) ?_
  rintro ⟨res, lastValid⟩ t ⟨hres, l', hlast, hends, hmap, ht, herased⟩
  dsimp only at hres hlast ⊢
  subst hlast
  have hoff : t.segMap.headOffset = l' + 1 := by rw [hmap]
  have hlook := ht.looksUp
  have hwritten := ht.written
  have hend := ht.le
  rw [hoff] at hlook hwritten hend
  obtain ⟨hbusy, hno⟩ := not_or.mp hcb
  have hiseu := h.layout.reserves.isEu_reserve (Flash.copyBackEu_mem hvalid)
  have hsame : t.flash.copyBackEu t.segMap = w.flash.copyBackEu w.segMap := by
    rw [hmap]
    exact Flash.validEuAt_congr herased.badEu _ _
  have hprogrammed : t.flash.mainAreaWrites (t.flash.copyBackEu t.segMap) = true := by
    rw [hsame, (herased.first hiseu hno).2]
    exact hused fun hfree => hbusy ⟨hvalid, hfree⟩
  rw [if_neg (not_not_intro hres), if_pos (hends.ne_iff.mpr ⟨hkl, hin⟩)]
  refine wp_seq (ht.layout.copyBackEU_halts ht.data hlook hwritten hend (by rwa [hsame]) hprogrammed
    (Nat.lt_succ_of_le hends.le) (mod_succ_lt hin)) fun _ _ hfalse => hfalse.elim

/-- The rest of the erase unit of page `k` can be cut, if the last page is `l`. -/
def World.CutsRest (w : World) (slot k l : Nat) : Prop :=
  k ≠ l → (k + 1) % pagesPerEu ≠ 0 → w.CopyBackComesFree slot k

/-- Both cases. -/
theorem WritesTo.truncate_cases (h : WritesTo w c segment slot) (hfit : Fitting nBytes)
    (hl : w.segMap.headOffset = l + 1) (hk : k ≤ l) (hcp : c.CheckpointAt nBytes slot k)
    (hvalid : w.flash.copyBackEu w.segMap ≠ phyAddressEmpty)
    (hused : ¬w.flash.IsFree (w.flash.copyBackEu w.segMap) →
      w.flash.mainAreaWrites (w.flash.copyBackEu w.segMap) = true)
    (data : Nat → UInt8) (pending : Bool) :
    wp (truncateAfterCheckpoint nBytes data pending segment k l)
      (fun r t => w.CutsRest slot k l ∧ r.1 = 0 ∧
        t.segMap = { w.segMap with reclaimed := ⟨segment, k + 1⟩ } ∧
        Layout t.flash t.segMap (c.cut slot (k + 1)) ∧ KeepsUnit w t slot (k / pagesPerEu))
      (fun e _ => w.CutsRest slot k l → e = .powerLoss) w := by
  by_cases hcb : w.CutsRest slot k l
  · refine wp_mono (h.truncate_spec hfit hl hk hcp hvalid hcb data pending) ?_ fun _ _ he _ => he
    exact fun _ _ hr => ⟨hcb, hr⟩
  · obtain ⟨hkl, hcb'⟩ := Classical.not_imp.mp hcb
    obtain ⟨hin, hbusy⟩ := Classical.not_imp.mp hcb'
    refine wp_mono (h.truncate_halts hl hk hvalid hused hkl hin hbusy data pending) ?_ ?_
    · exact fun _ _ hfalse => hfalse.elim
    · exact fun _ _ _ hcb' => absurd hcb' hcb

end WritesTo

/-! ## The current segment -/

section Truncate
variable {w : World} {c : Contents} {segment slot : Nat}

/-- At the head a segment is looked up in its slot. -/
theorem SegMap.expectedPage_head {m : SegMap} {l : Nat} (hhead : m.reclaimed = ⟨segment, l⟩) :
    m.expectedPage ⟨segment, l⟩ = calcAddress (m.segToSlot segment) 0 l := by
  unfold SegMap.expectedPage
  rw [if_neg fun hc => ?_]
  have hlt := hc.2.2
  rw [hhead] at hlt
  exact Nat.lt_irrefl l hlt

/-- A data slot has a number that stands for a slot. -/
theorem SegMap.IsDataSlot.ne_noSlot {m : SegMap} (h : m.IsDataSlot slot) : slot ≠ noSlot := by
  have hlt := h.lt
  have := nSlots_le
  unfold noSlot
  omega

/-- The erase units of the slot of the current segment are erased from that of the head back.  Each
of them has to be good or to have pages, and so a home. -/
theorem truncateCurrentSegmentLoop_spec {l n : Nat} (h : Layout w.flash w.segMap c)
    (hslot : w.segMap.IsDataSlot slot)
    (hmap : w.segMap.segToSlot segment = slot) (hhead : w.segMap.reclaimed = ⟨segment, l⟩)
    (hl : l < pagesPerSlot)
    (hhomes : ∀ e ≤ l / pagesPerEu, w.flash.good (euAt slot e) = true ∨ ¬c.EuBlank slot e)
    (hn : l / pagesPerEu < n) :
    wp (truncateCurrentSegmentLoop n) (fun r t => r = 0 ∧
        t.segMap = { w.segMap with reclaimed := ⟨segment, l % pagesPerEu⟩ } ∧
        Layout t.flash t.segMap (c.clearEus slot (List.range (l / pagesPerEu + 1))) ∧
        w.flash.ErasedUnits (HomesOf w.flash w.segMap slot (Set.Iic (l / pagesPerEu))) t.flash)
      (fun e _ => e = .powerLoss) w := by
  have hppe := pagesPerEu_pos
  have hsmall := pagesPerSlot_le
  induction n generalizing w c l with
  | zero => exact absurd hn (Nat.not_lt_zero _)
  | succ n ih =>
    have heu : l / pagesPerEu < eusPerSlot := div_lt_eusPerSlot hl
    have hoff := Nat.mod_lt l hppe
    obtain ⟨home, hh⟩ : ∃ home, IsHome w.flash w.segMap slot (l / pagesPerEu) home := by
      cases hgood : w.flash.good (euAt slot (l / pagesPerEu)) with
      | true => exact ⟨_, .self hgood⟩
      | false =>
        refine (h.replaced hslot heu hgood).mpr ((hhomes _ (Nat.le_refl _)).resolve_left fun hg => ?_)
        rw [hgood] at hg
        exact Bool.false_ne_true hg
    have hexp := SegMap.expectedPage_head hhead
    rw [hmap] at hexp
    have hne : w.segMap.segToSlot segment ≠ noSlot := hmap ▸ hslot.ne_noSlot
    have hrun : logicalAddressToPhysical w.segMap.reclaimed w = .ok (home + l % pagesPerEu) w := by
      rw [hhead]
      exact h.logicalAddressToPhysical_run hslot hne hl hexp hh
    unfold truncateCurrentSegmentLoop
    rw [wp_bind, wp_getSegMap, wp_bind, wp_ok_iff hrun,
      wp_bind]
    refine wp_nandErase_add (fun _ => rfl) (h.isEu_home hslot heu hh) hh.good hoff fun f hf => ?_
    rw [if_neg (not_not_intro rfl), hhead]
    have hlay := h.erase hslot heu hh hf
    refine wp_ite (fun hmore => ?_) fun hlast => ?_
    · -- the erase unit before
      have hmore : pagesPerEu ≤ l := hmore
      obtain ⟨d, rfl⟩ := Nat.exists_eq_add_of_le' hmore
      have hdiv : (d + pagesPerEu) / pagesPerEu = d / pagesPerEu + 1 := Nat.add_div_right d hppe
      have hmod : (d + pagesPerEu) % pagesPerEu = d % pagesPerEu := Nat.add_mod_right d pagesPerEu
      have hmoved : w.segMap.setReclaimedOffset (w.segMap.reclaimed.offset - pagesPerEu) =
          { w.segMap with reclaimed := ⟨segment, d⟩ } := by
        unfold SegMap.setReclaimedOffset LogAddr.setOffset
        rw [hhead, Nat.add_sub_cancel, Nat.mod_eq_of_lt (by omega)]
      have hboth : (c.clearEus slot [d / pagesPerEu + 1]).clearEus slot
          (List.range (d / pagesPerEu + 1)) = c.clearEus slot (List.range (d / pagesPerEu + 1 + 1)) :=
        c.clearEus_clearEus slot fun e => by
          rw [List.mem_singleton, List.mem_range, List.mem_range]
          omega
      rw [wp_bind]
      show wp _ _ _ { w with
        flash := f, segMap := w.segMap.setReclaimedOffset (w.segMap.reclaimed.offset - pagesPerEu) }
      rw [hmoved]
      rw [hdiv] at hlay hn
      have hrest := ih (w := { w with
          flash := f, segMap := { w.segMap with reclaimed := ⟨segment, d⟩ } })
        (hlay.congr fun _ _ => rfl) ⟨hslot.lt, hslot.data⟩ hmap rfl
        (by omega) (fun e he => ?_) (by omega)
      · rw [hboth] at hrest
        rw [hdiv, hmod]
        refine wp_mono hrest ?_ fun _ _ he => he
        rintro r t ⟨hr, htmap, hcut, herased⟩
        refine ⟨hr, htmap, hcut, ?_⟩
        have hmoved : HomesOf f ({ w.segMap with reclaimed := ⟨segment, d⟩ } : SegMap) slot
            (Set.Iic (d / pagesPerEu)) = HomesOf f w.segMap slot (Set.Iic (d / pagesPerEu)) :=
          homesOf_congr fun _ _ => rfl
        have hhomes := h.homesOf_insert (Set.Iic (d / pagesPerEu)) hslot heu hh hf
        have hset : insert (d / pagesPerEu + 1) (Set.Iic (d / pagesPerEu)) =
            Set.Iic (d / pagesPerEu + 1) := by
          ext e
          exact or_comm.trans Nat.le_succ_iff.symm
        rw [hdiv, hset, ← hmoved] at hhomes
        rw [← hhomes]
        exact hf.erasedUnits.trans herased
      · -- it is as it was
        rcases hhomes e (by omega) with hgood | hpages
        · exact .inl ((hf.good _).trans hgood)
        · refine .inr fun hblank => hpages fun i hi => ?_
          have hi' := hblank i hi
          rwa [Contents.clearEus_of_not_mem fun hm => ?_] at hi'
          have := List.mem_singleton.mp hm
          rw [div_of_eq hi rfl] at this
          omega
    · have hlast : l < pagesPerEu := Nat.lt_of_not_le hlast
      rw [Nat.div_eq_of_lt hlast] at hlay
      have hstays : w.segMap = { w.segMap with reclaimed := ⟨segment, l % pagesPerEu⟩ } := by
        rw [Nat.mod_eq_of_lt hlast, ← hhead]
      rw [Nat.div_eq_of_lt hlast] at hh heu
      have hhomes := h.homesOf_insert ∅ hslot heu hh hf
      have hnone : HomesOf f w.segMap slot ∅ = ∅ := by
        refine Set.eq_empty_of_forall_notMem ?_
        rintro b ⟨e, he, -⟩
        exact he
      have hzero : insert 0 (∅ : Set Nat) = Set.Iic 0 := by
        rw [insert_empty_eq]
        exact Set.Iic_bot.symm
      rw [hnone, Set.union_empty, hzero] at hhomes
      rw [Nat.div_eq_of_lt hlast, ← hhomes]
      exact ⟨rfl, hstays, hlay, hf.erasedUnits⟩

/-- `truncateCurrentSegment` -/
theorem truncateCurrentSegment_spec {l : Nat} (h : Layout w.flash w.segMap c)
    (hslot : w.segMap.IsDataSlot slot)
    (hmap : w.segMap.segToSlot segment = slot) (hhead : w.segMap.reclaimed = ⟨segment, l⟩)
    (hl : l < pagesPerSlot)
    (hhomes : ∀ e ≤ l / pagesPerEu, w.flash.good (euAt slot e) = true ∨ ¬c.EuBlank slot e) :
    wp truncateCurrentSegment (fun r t => r = 0 ∧
        t.segMap = { w.segMap with reclaimed := ⟨segment, l % pagesPerEu⟩ } ∧
        Layout t.flash t.segMap (c.clearEus slot (List.range (l / pagesPerEu + 1))) ∧
        w.flash.ErasedUnits (HomesOf w.flash w.segMap slot (Set.Iic (l / pagesPerEu))) t.flash)
      (fun e _ => e = .powerLoss) w := by
  unfold truncateCurrentSegment
  rw [wp_bind, wp_getSegMap, hhead]
  exact truncateCurrentSegmentLoop_spec h hslot hmap hhead hl hhomes (Nat.lt_succ_self _)

/-- Where the head is in a bad erase unit that is blank, and so not replaced, there is nothing to
erase, and `truncateCurrentSegment` halts. -/
theorem truncateCurrentSegment_halts {l : Nat} (h : Layout w.flash w.segMap c)
    (hslot : w.segMap.IsDataSlot slot) (hmap : w.segMap.segToSlot segment = slot)
    (hhead : w.segMap.reclaimed = ⟨segment, l⟩) (hl : l < pagesPerSlot)
    (hbad : w.flash.good (euAt slot (l / pagesPerEu)) = false)
    (hblank : c.EuBlank slot (l / pagesPerEu)) :
    wp truncateCurrentSegment (fun _ _ => False) (fun _ _ => True) w := by
  have heu : l / pagesPerEu < eusPerSlot := div_lt_eusPerSlot hl
  have hoff := Nat.mod_lt l pagesPerEu_pos
  have hstart := isEu_euAt hslot.lt heu
  have hexp := SegMap.expectedPage_head hhead
  rw [hmap, ← hhead] at hexp
  have hrun : logicalAddressToPhysical w.segMap.reclaimed w = .ok phyAddressEmpty w := by
    have hne : w.segMap.segToSlot w.segMap.reclaimed.segment ≠ noSlot := by
      rw [hhead]
      exact hmap ▸ hslot.ne_noSlot
    have hin : w.segMap.reclaimed.offset < pagesPerSlot := by
      rw [hhead]
      exact hl
    unfold logicalAddressToPhysical
    rw [bind_ok (show getSegMap w = .ok w.segMap w from rfl),
      bind_ok (assert_run (bne_iff_ne.mpr hne)), bind_ok (assert_run (decide_eq_true hin)), hexp,
      calcAddress_eq_euAt, hstart.calcEuStart_add hoff, bind_ok (nandCheckEuStatus_run hstart.lt),
      hbad, if_neg Bool.false_ne_true]
    exact h.reservePhysical_run_blank hslot hbad heu hblank hoff
  unfold truncateCurrentSegment truncateCurrentSegmentLoop
  rw [wp_bind, wp_getSegMap, wp_bind,
    wp_getSegMap, wp_bind, wp_ok_iff hrun]
  unfold nandErase
  rw [wp_bind, wp_bind]
  exact wp_getFp (fun hfar => absurd hfar (Nat.not_lt_of_le simulatedPages_le)) trivial

end Truncate

end Tail

end NandFs
