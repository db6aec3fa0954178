import NandFs.Format

/-! # The queue of erase units known to be valid

`seq_check_eu_status` asks the chip about an erase unit only if it is not in a queue of the last
ones it found to be valid.  `markEuAsBad` does not know of the queue, so the two agree until an
erase unit that the queue holds goes bad.  Everywhere else the status is read off the chip, and a
unit that is bad stays so; here the bad-block byte is one of the page that has it, as in the spare
area, and a program of the page writes it again.
-/
namespace NandFs

open Program Config

section Cache
variable [Config]

/-- `SEQ_VALID_EU_Q_SIZE` -/
def seqValidEuQSize : Nat := 32

/-- The world with the bad-block byte of each page, raised where it is not 0xff, and with the
queue `valid_eus` of the segment map. -/
structure CachedWorld where
  world : World
  badByte : Nat → Bool
  validEus : List Nat

/-- The queue after `init_seg_map`. -/
def initValidEus : List Nat := List.replicate seqValidEuQSize 0xffffffff

/-- The erase units that `nandCheckEuStatus` reads as bad: the byte is raised in their first or
their second page. -/
def badEus (badByte : Nat → Bool) (eu : Nat) : Bool :=
  badByte (eu * pagesPerEu) || badByte (eu * pagesPerEu + 1)

/-- The world as the driver finds it, with the status of each erase unit as its bytes tell it. -/
def CachedWorld.seen (s : CachedWorld) : World :=
  { s.world with flash := { s.world.flash with badEu := badEus s.badByte } }

abbrev CachedM := EStateM Halt CachedWorld

/-- What uses neither the bad-block bytes, but to read a status, nor the queue. -/
def onChip {α : Type} : SeqM α → CachedM α :=
  onPart CachedWorld.seen fun w s => { s with world := w }

def setBadByte (page : Nat) (byte : Bool) : CachedM Unit :=
  modify fun s => { s with badByte := Function.update s.badByte page byte }

/-! ## The driver -/

/-- `markEuAsBad`: the byte of the first page is programmed. -/
def cachedMarkEuAsBad (pageAddr : Nat) : CachedM Unit := do
  if ← onChip (nandCheckEuStatus pageAddr) then do
    onChip (markEuAsBad pageAddr)
    setBadByte (calcEuStart pageAddr) true
  else pure ()

/-- `nandProgramTotalPage`, from a buffer with the bad-block byte `badByte` in it: a program that
is done writes the byte with the rest of the spare area. -/
def cachedProgramTotalPage (page : Page) (badByte : Bool) (phyAddr : Nat) : CachedM Nat := do
  let res ← onChip (nandProgramTotalPage page phyAddr)
  if res = 0 then do
    setBadByte phyAddr badByte
    pure res
  else pure res

/-- `nandErase`: a bad erase unit is left alone. -/
def cachedErase (phyAddr : Nat) : CachedM Nat := do
  let before ← get
  let res ← onChip (nandErase phyAddr)
  if res = 0 ∧ before.seen.flash.good phyAddr = true then do
    modify fun s => { s with
      badByte := fun a => if calcEuStart a = calcEuStart phyAddr then false else s.badByte a }
    pure res
  else pure res

/-! ## The queue -/

/-- `seq_is_eu_known_valid` -/
def seqIsEuKnownValid (euAddr : Nat) : CachedM Bool :=
  return (← get).validEus.contains euAddr

/-- `seq_set_eu_known_valid`: the queue moves one place on. -/
def seqSetEuKnownValid (euAddr : Nat) : CachedM Unit :=
  modify fun s => { s with validEus := euAddr :: s.validEus.dropLast }

/-- `seq_check_eu_status` -/
def seqCheckEuStatus (euAddr : Nat) : CachedM Bool := do
  let euAddr := calcEuStart euAddr
  if ← seqIsEuKnownValid euAddr then pure true
  else if ← onChip (nandCheckEuStatus euAddr) then do
    seqSetEuKnownValid euAddr
    pure true
  else pure false

/-- What the sequencing layer calls that reads a status or could change one. -/
inductive StatusCall
  | seqCheckEuStatus (euAddr : Nat)
  | markEuAsBad (pageAddr : Nat)
  | nandProgramTotalPage (page : Page) (badByte : Bool) (phyAddr : Nat)
  | nandProgramObsoleteByte (phyAddr : Nat)
  | nandErase (phyAddr : Nat)

def StatusCall.exec : StatusCall → CachedM Unit
  | seqCheckEuStatus euAddr => do let _ ← NandFs.seqCheckEuStatus euAddr
  | markEuAsBad pageAddr => cachedMarkEuAsBad pageAddr
  | nandProgramTotalPage page badByte phyAddr => do
    let _ ← cachedProgramTotalPage page badByte phyAddr
  | nandProgramObsoleteByte phyAddr => do let _ ← onChip (NandFs.nandProgramObsoleteByte phyAddr)
  | nandErase phyAddr => do let _ ← cachedErase phyAddr

/-- What a check would answer now, unless it halts. -/
def answerOf (m : CachedM Bool) (s : CachedWorld) : Option Bool :=
  match m s with
  | .ok status _ => some status
  | .error _ _ => none

/-- A check of any erase unit would answer now as the chip does. -/
def StatusAgrees (s : CachedWorld) : Prop :=
  ∀ euAddr, answerOf (seqCheckEuStatus euAddr) s =
    answerOf (onChip (nandCheckEuStatus euAddr)) s

/-- The call raises the bad-block byte of an erase unit that the queue holds: it marks it, or it
programs its first or second page from a buffer with the byte raised. -/
def StatusCall.Outdates : StatusCall → CachedWorld → Prop
  | markEuAsBad pageAddr, s => calcEuStart pageAddr ∈ s.validEus ∧
      s.world.flash.spareWrites (calcEuStart pageAddr) = false ∧ s.world.flash.power ≠ some 0
  | nandProgramTotalPage _ badByte phyAddr, s => badByte = true ∧
      phyAddr < calcEuStart phyAddr + 2 ∧ calcEuStart phyAddr ∈ s.validEus ∧
      s.world.flash.mainAreaWrites phyAddr = false ∧ s.world.flash.power ≠ some 0
  | _, _ => False

/-! ## The bytes of an erase unit -/

section Bytes
variable {badByte badByte' : Nat → Bool} {a p eu : Nat}

theorem badEus_calcEuStart (a : Nat) : badEus badByte (a / pagesPerEu) =
    (badByte (calcEuStart a) || badByte (calcEuStart a + 1)) := by
  rw [badEus, ← calcEuStart_eq]

theorem calcEuStart_calcEuStart (a : Nat) : calcEuStart (calcEuStart a) = calcEuStart a := by
  rw [calcEuStart_eq (calcEuStart a), calcEuStart_eq a, Nat.mul_div_cancel _ pagesPerEu_pos]

theorem one_lt_pagesPerEu : 1 < pagesPerEu :=
  Nat.one_lt_two_pow (Nat.pos_iff_ne_zero.mp powPagesPerEu_pos)

theorem statusPage_div {k : Nat} (hk : k < 2) : (eu * pagesPerEu + k) / pagesPerEu = eu := by
  have := one_lt_pagesPerEu
  rw [Nat.mul_comm, Nat.mul_add_div pagesPerEu_pos, Nat.div_eq_of_lt (by omega), Nat.add_zero]

/-- The two pages that hold the status of an erase unit. -/
theorem calcEuStart_of_statusPage (heu : calcEuStart eu = eu) (h : p = eu ∨ p = eu + 1) :
    calcEuStart p = eu ∧ p < calcEuStart p + 2 := by
  have hstart : calcEuStart p = eu := by
    rcases h with rfl | rfl
    · exact heu
    · have heu : eu = eu / pagesPerEu * pagesPerEu := by rw [← calcEuStart_eq, heu]
      have hdiv : (eu + 1) / pagesPerEu = eu / pagesPerEu := by
        conv_lhs => rw [heu]
        exact statusPage_div (by omega)
      rw [calcEuStart_eq, hdiv, ← heu]
  rw [hstart]
  exact ⟨rfl, by omega⟩

/-- Bytes that are cleared make no erase unit bad. -/
theorem badEus_of_le (h : ∀ a, badByte' a = true → badByte a = true)
    (hgood : badEus badByte eu = false) : badEus badByte' eu = false := by
  obtain ⟨hfirst, hsecond⟩ := Bool.or_eq_false_iff.mp hgood
  have hkept : ∀ a, badByte a = false → badByte' a = false := fun a ha =>
    Bool.eq_false_of_not_eq_true fun hraised => Bool.false_ne_true (ha.symm.trans (h a hraised))
  exact Bool.or_eq_false_iff.mpr ⟨hkept _ hfirst, hkept _ hsecond⟩

end Bytes

/-! ## What the queue holds -/

/-- The erase units in the queue are valid. -/
def Coherent (s : CachedWorld) : Prop :=
  ∀ eu ∈ s.validEus, calcEuStart eu = eu → eu < pageCount ∧ s.seen.flash.good eu = true

section Answers
variable {s : CachedWorld} {a : Nat}

theorem wp_onChip {α : Type} {m : SeqM α} {Q : α → CachedWorld → Prop}
    {E : Halt → CachedWorld → Prop} : wp (onChip m) Q E s ↔
      wp m (fun a w => Q a { s with world := w }) (fun e w => E e { s with world := w }) s.seen :=
  wp_onPart _ _

theorem seen_good_iff : s.seen.flash.good a = true ↔ badEus s.badByte (a / pagesPerEu) = false := by
  unfold Flash.good CachedWorld.seen
  rw [Bool.not_eq_true']

/-- Whatever it does, it changes neither the bytes nor the queue. -/
theorem wp_onChip_run {α : Type} {m : SeqM α} {Q : α → CachedWorld → Prop}
    {E : Halt → CachedWorld → Prop} (hq : ∀ a w, m s.seen = .ok a w → Q a { s with world := w })
    (he : ∀ e w, m s.seen = .error e w → E e { s with world := w }) : wp (onChip m) Q E s := by
  rw [wp_onChip]
  unfold wp
  cases hrun : m s.seen with
  | ok a w => exact hq a w hrun
  | error e w => exact he e w hrun

theorem good_calcEuStart (f : Flash) (a : Nat) : f.good (calcEuStart a) = f.good a := by
  unfold Flash.good
  rw [calcEuStart_eq, Nat.mul_div_cancel _ pagesPerEu_pos]

/-- The chip answers for the addresses it has. -/
theorem answerOf_nandCheckEuStatus : answerOf (onChip (nandCheckEuStatus a)) s =
    if a < pageCount then some (s.seen.flash.good a) else none := by
  unfold answerOf onChip onPart
  by_cases ha : a < pageCount
  · rw [if_pos ha, nandCheckEuStatus_run ha]
  · rw [if_neg ha]
    cases hrun : nandCheckEuStatus a s.seen with
    | ok status w => exact absurd (nandCheckEuStatus_ok hrun).1 ha
    | error e w => rfl

theorem seqIsEuKnownValid_run (eu : Nat) :
    seqIsEuKnownValid eu s = .ok (decide (eu ∈ s.validEus)) s := by
  have hcontains : s.validEus.contains eu = decide (eu ∈ s.validEus) := List.contains_eq_mem ..
  rw [← hcontains]
  rfl

theorem answerOf_seqCheckEuStatus : answerOf (seqCheckEuStatus a) s =
    if calcEuStart a ∈ s.validEus then some true
    else answerOf (onChip (nandCheckEuStatus a)) s := by
  rw [answerOf_nandCheckEuStatus]
  unfold answerOf seqCheckEuStatus
  rw [bind_ok (seqIsEuKnownValid_run _)]
  by_cases hmem : calcEuStart a ∈ s.validEus
  · rw [if_pos hmem, decide_eq_true hmem]
    rfl
  · rw [if_neg hmem, decide_eq_false hmem, if_neg Bool.false_ne_true]
    have hanswer : answerOf (onChip (nandCheckEuStatus (calcEuStart a))) s = _ :=
      answerOf_nandCheckEuStatus
    simp only [calcEuStart_lt_iff, good_calcEuStart] at hanswer
    rw [← hanswer]
    unfold answerOf
    cases hrun : onChip (nandCheckEuStatus (calcEuStart a)) s with
    | ok status t =>
      rw [bind_ok hrun]
      cases status <;> rfl
    | error e t => rw [bind_error hrun]

theorem statusAgrees_iff_coherent : StatusAgrees s ↔ Coherent s := by
  unfold StatusAgrees Coherent
  constructor
  · intro h eu hmem heu
    have hans := h eu
    rw [answerOf_seqCheckEuStatus, heu, if_pos hmem, answerOf_nandCheckEuStatus] at hans
    by_cases hlt : eu < pageCount
    · rw [if_pos hlt] at hans
      exact ⟨hlt, (Option.some.inj hans).symm⟩
    · rw [if_neg hlt] at hans
      exact absurd hans (Option.some_ne_none true)
  · intro h a
    rw [answerOf_seqCheckEuStatus]
    by_cases hmem : calcEuStart a ∈ s.validEus
    · obtain ⟨hlt, hgood⟩ := h _ hmem (calcEuStart_calcEuStart a)
      rw [good_calcEuStart] at hgood
      rw [if_pos hmem, answerOf_nandCheckEuStatus, if_pos (calcEuStart_lt_iff.mp hlt), hgood]
    · rw [if_neg hmem]

theorem coherent_initValidEus (w : World) (badByte : Nat → Bool) :
    Coherent ⟨w, badByte, initValidEus⟩ := by
  intro eu hmem heu
  obtain rfl := List.eq_of_mem_replicate hmem
  -- the empty entry is no start of an erase unit
  have heven : 2 ∣ calcEuStart 0xffffffff := by
    rw [calcEuStart_eq]
    exact Dvd.dvd.mul_left (dvd_pow_self 2 (Nat.pos_iff_ne_zero.mp powPagesPerEu_pos)) _
  rw [heu] at heven
  exact absurd heven (by decide)

end Answers

/-! ## Calls -/

section Calls
variable {s t : CachedWorld} {p : Nat}

/-- Cleared bytes and another world under them keep the queue right. -/
theorem Coherent.clear (h : Coherent s) (hqueue : t.validEus = s.validEus)
    (hbytes : ∀ a, t.badByte a = true → s.badByte a = true) : Coherent t := by
  intro eu hmem heu
  obtain ⟨hlt, hgood⟩ := h eu (hqueue ▸ hmem) heu
  exact ⟨hlt, seen_good_iff.mpr (badEus_of_le hbytes (seen_good_iff.mp hgood))⟩

theorem Coherent.world (h : Coherent s) (w : World) : Coherent { s with world := w } :=
  h.clear rfl fun _ ha => ha

/-- A raised byte leaves the queue right if and only if it is no byte that holds the status of an
erase unit of the queue. -/
theorem Coherent.raise_iff (h : Coherent s) (w : World) :
    Coherent { s with world := w, badByte := Function.update s.badByte p true } ↔
      ¬(p < calcEuStart p + 2 ∧ calcEuStart p ∈ s.validEus) := by
  constructor
  · rintro hcoherent ⟨hp, hmem⟩
    have hgood := (hcoherent _ hmem (calcEuStart_calcEuStart p)).2
    have hle : calcEuStart p ≤ p := Nat.sub_le _ _
    have hbad : badEus (Function.update s.badByte p true) (calcEuStart p / pagesPerEu) = true := by
      rw [badEus_calcEuStart, calcEuStart_calcEuStart, Bool.or_eq_true]
      rcases (show p = calcEuStart p ∨ p = calcEuStart p + 1 by omega) with hpage | hpage
      · exact .inl (by rw [← hpage, Function.update_self])
      · exact .inr (by rw [← hpage, Function.update_self])
    exact Bool.false_ne_true ((seen_good_iff.mp hgood).symm.trans hbad)
  · intro hnot eu hmem heu
    obtain ⟨hlt, hgood⟩ := h eu hmem heu
    have hne : ∀ q, (q = eu ∨ q = eu + 1) → q ≠ p := by
      rintro q hq rfl
      obtain ⟨hstart, hpage⟩ := calcEuStart_of_statusPage heu hq
      exact hnot ⟨hpage, hstart ▸ hmem⟩
    have hsame : badEus (Function.update s.badByte p true) (eu / pagesPerEu) =
        badEus s.badByte (eu / pagesPerEu) := by
      rw [badEus_calcEuStart, badEus_calcEuStart, heu,
        Function.update_of_ne (hne _ (.inl rfl)), Function.update_of_ne (hne _ (.inr rfl))]
    exact ⟨hlt, seen_good_iff.mpr (hsame.trans (seen_good_iff.mp hgood))⟩

theorem wp_seqCheckEuStatus (a : Nat) (h : Coherent s) :
    wp (seqCheckEuStatus a) (fun _ t => Coherent t) (fun _ t => Coherent t) s := by
  unfold seqCheckEuStatus
  rw [wp_bind, wp_ok_iff (seqIsEuKnownValid_run _)]
  refine wp_ite (fun _ => h) fun _ => ?_
  rw [wp_bind, wp_onChip]
  refine wp_nandCheckEuStatus (fun hlt => wp_ite (fun hgood => ?_) fun _ => h.world _) (h.world _)
  rw [wp_bind]
  unfold seqSetEuKnownValid
  rw [wp_modify, wp_pure]
  intro eu hmem heu
  rcases List.mem_cons.mp hmem with rfl | hmem
  · rw [calcEuStart_calcEuStart] at hlt
    exact ⟨hlt, hgood⟩
  · exact h eu (List.mem_of_mem_dropLast hmem) heu

/-- A mark of a valid erase unit is programmed unless its first page has a spare area that is
written, or the power is lost. -/
theorem wp_markEuAsBad {w : World} {a : Nat} (hlt : a < pageCount) (hgood : w.flash.good a = true) :
    wp (markEuAsBad a)
      (fun _ t => (w.flash.spareWrites (calcEuStart a) = false ∧ w.flash.power ≠ some 0) ∧
        t.flash.badEu = Function.update w.flash.badEu (calcEuStart a / pagesPerEu) true)
      (fun _ t => ¬(w.flash.spareWrites (calcEuStart a) = false ∧ w.flash.power ≠ some 0) ∧
        t.flash.badEu = w.flash.badEu) w := by
  unfold markEuAsBad
  rw [wp_bind, wp_ok_iff (nandCheckEuStatus_run hlt), hgood, if_pos rfl, wp_bind, wp_get, wp_bind]
  cases hspare : w.flash.spareWrites (calcEuStart a) with
  | true =>
    refine wp_assert (fun hnot => absurd hnot Bool.false_ne_true) ?_
    exact ⟨fun hdone => Bool.false_ne_true hdone.1.symm, rfl⟩
  | false =>
    rw [wp_ok_iff (assert_run (show (!false) = true from rfl)), wp_bind]
    exact wp_spendPower (fun hpower => ⟨⟨rfl, hpower⟩, rfl⟩) fun hpower =>
      ⟨fun hdone => hdone.2 hpower, rfl⟩

/-- A page of the chip is programmed unless its main area is written, or the power is lost. -/
theorem wp_cachedProgram {w : World} (page : Page) {a : Nat} (hlt : a < pageCount) :
    wp (nandProgramTotalPage page a)
      (fun res _ => res = 0 ∧ w.flash.mainAreaWrites a = false ∧ w.flash.power ≠ some 0)
      (fun _ _ => ¬(w.flash.mainAreaWrites a = false ∧ w.flash.power ≠ some 0)) w := by
  have hpage : ∀ total, wp (seqVerify (nandProgramPageA page a total) (pure 0))
      (fun res _ => res = 0 ∧ w.flash.mainAreaWrites a = false ∧ w.flash.power ≠ some 0)
      (fun _ _ => ¬(w.flash.mainAreaWrites a = false ∧ w.flash.power ≠ some 0)) w := by
    intro total
    refine wp_seqVerify ?_
    unfold nandProgramPageA
    rw [wp_bind, wp_ok_iff (getFp_run hlt), if_neg (Nat.not_le.mpr hlt), wp_bind, wp_get, wp_bind]
    cases hwritten : w.flash.mainAreaWrites a with
    | true => exact wp_assert (fun hnot => absurd hnot Bool.false_ne_true) fun hdone =>
        Bool.false_ne_true hdone.1.symm
    | false =>
      rw [wp_ok_iff (assert_run (show (!false) = true from rfl)), wp_bind]
      refine wp_spendPower (fun hpower => ?_) fun hpower hdone => hdone.2 hpower
      exact ⟨rfl, rfl, hpower⟩
  unfold nandProgramTotalPage
  split_ifs
  · exact hpage true
  · exact hpage false

/-- A mark leaves the queue right if and only if the queue does not hold the erase unit. -/
theorem cachedMarkEuAsBad_coherent (a : Nat) (h : Coherent s) :
    wp (cachedMarkEuAsBad a)
      (fun _ t => Coherent t ↔ ¬(StatusCall.markEuAsBad a).Outdates s)
      (fun _ t => Coherent t ↔ ¬(StatusCall.markEuAsBad a).Outdates s) s := by
  have hheld : calcEuStart a ∈ s.validEus → a < pageCount ∧ s.seen.flash.good a = true := by
    intro hmem
    obtain ⟨hlt, hgood⟩ := h _ hmem (calcEuStart_calcEuStart a)
    rw [good_calcEuStart] at hgood
    exact ⟨calcEuStart_lt_iff.mp hlt, hgood⟩
  have hkept : ∀ w, ¬(StatusCall.markEuAsBad a).Outdates s →
      (Coherent { s with world := w } ↔ ¬(StatusCall.markEuAsBad a).Outdates s) :=
    fun w => iff_of_true (h.world w)
  unfold cachedMarkEuAsBad
  rw [wp_bind, wp_onChip]
  by_cases hlt : a < pageCount
  swap
  · exact wp_nandCheckEuStatus (fun hlt' => absurd (calcEuStart_lt_iff.mp hlt') hlt)
      (hkept _ fun hout => hlt (hheld hout.1).1)
  rw [wp_ok_iff (nandCheckEuStatus_run hlt)]
  refine wp_ite (fun hgood => ?_) fun hbad => hkept _ fun hout => hbad (hheld hout.1).2
  rw [wp_bind, wp_onChip]
  refine wp_mono (wp_markEuAsBad hlt hgood) (fun _ w hdone => ?_) fun _ w hnot =>
    hkept w fun hout => hnot.1 hout.2
  unfold setBadByte
  rw [wp_modify]
  refine (h.raise_iff w).trans (not_congr ?_)
  rw [calcEuStart_calcEuStart]
  exact ⟨fun hmem => ⟨hmem.2, hdone.1⟩, fun hout => ⟨by omega, hout.1⟩⟩

/-- A program leaves the queue right unless it raises the byte of an erase unit of the queue. -/
theorem cachedProgramTotalPage_coherent (page : Page) (badByte : Bool) (a : Nat) (h : Coherent s) :
    wp (cachedProgramTotalPage page badByte a)
      (fun _ t => Coherent t ↔ ¬(StatusCall.nandProgramTotalPage page badByte a).Outdates s)
      (fun _ t => Coherent t ↔ ¬(StatusCall.nandProgramTotalPage page badByte a).Outdates s) s := by
  unfold cachedProgramTotalPage setBadByte
  rw [wp_bind]
  cases badByte with
  | false =>
    have hnot : ¬(StatusCall.nandProgramTotalPage page false a).Outdates s :=
      fun hout => Bool.false_ne_true hout.1
    -- a byte that is cleared makes no erase unit bad
    refine wp_onChip_run (fun res w _ => wp_ite (fun _ => ?_) fun _ => iff_of_true (h.world w) hnot)
      fun e w _ => iff_of_true (h.world w) hnot
    refine iff_of_true (h.clear rfl fun b hb => ?_) hnot
    dsimp only at hb
    by_cases hba : b = a
    · rw [hba, Function.update_self] at hb
      exact absurd hb Bool.false_ne_true
    · rwa [Function.update_of_ne hba] at hb
  | true =>
    by_cases hlt : a < pageCount
    · rw [wp_onChip]
      refine wp_mono (wp_cachedProgram page hlt) ?_ fun e w hnot =>
        iff_of_true (h.world w) fun hout => hnot hout.2.2.2
      rintro res w ⟨rfl, hdone⟩
      rw [if_pos rfl]
      refine (h.raise_iff w).trans (not_congr ?_)
      exact ⟨fun hmem => ⟨rfl, hmem.1, hmem.2, hdone⟩, fun hout => ⟨hout.2.1, hout.2.2.1⟩⟩
    · have hnot : calcEuStart a ∉ s.validEus := fun hmem =>
        hlt (calcEuStart_lt_iff.mp (h _ hmem (calcEuStart_calcEuStart a)).1)
      have hkept : ¬(StatusCall.nandProgramTotalPage page true a).Outdates s :=
        fun hout => hnot hout.2.2.1
      refine wp_onChip_run (fun res w _ => wp_ite (fun _ => ?_) fun _ =>
        iff_of_true (h.world w) hkept) fun e w _ => iff_of_true (h.world w) hkept
      exact iff_of_true ((h.raise_iff w).mpr fun hmem => hnot hmem.2) hkept

/-- An erase keeps the queue right. -/
theorem cachedErase_coherent (a : Nat) (h : Coherent s) :
    wp (cachedErase a) (fun _ t => Coherent t) (fun _ t => Coherent t) s := by
  unfold cachedErase
  rw [wp_bind, wp_get, wp_bind]
  refine wp_onChip_run (fun res w _ => wp_ite (fun _ => ?_) fun _ => h.world w) fun _ w _ =>
    h.world w
  refine h.clear rfl fun b hb => ?_
  dsimp only at hb
  split_ifs at hb
  exact hb

/-- One call: the queue stays right if and only if the call outdates none of it. -/
theorem StatusCall.exec_coherent (call : StatusCall) (h : Coherent s) :
    wp call.exec (fun _ t => Coherent t ↔ ¬call.Outdates s)
      (fun _ t => Coherent t ↔ ¬call.Outdates s) s := by
  cases call with
  | seqCheckEuStatus euAddr =>
    unfold StatusCall.exec
    rw [wp_bind]
    exact wp_mono (wp_seqCheckEuStatus euAddr h) (fun _ _ ht => iff_of_true ht id)
      fun _ _ ht => iff_of_true ht id
  | markEuAsBad pageAddr => exact cachedMarkEuAsBad_coherent pageAddr h
  | nandProgramTotalPage page badByte phyAddr =>
    unfold StatusCall.exec
    rw [wp_bind]
    exact cachedProgramTotalPage_coherent page badByte phyAddr h
  | nandProgramObsoleteByte phyAddr =>
    unfold StatusCall.exec
    rw [wp_bind]
    exact wp_onChip_run (fun _ w _ => iff_of_true (h.world w) id) fun _ w _ =>
      iff_of_true (h.world w) id
  | nandErase phyAddr =>
    unfold StatusCall.exec
    rw [wp_bind]
    exact wp_mono (cachedErase_coherent phyAddr h) (fun _ _ ht => iff_of_true ht id)
      fun _ _ ht => iff_of_true ht id

end Calls

/-- In every run from boot a check answers as the chip does after every call, if and only if no
call raises the bad-block byte of an erase unit that the queue holds. -/
theorem statusAgrees_iff (calls : List StatusCall) (w : World) (badByte : Nat → Bool) :
    Always StatusCall.exec (fun _ _ t => StatusAgrees t) calls ⟨w, badByte, initValidEus⟩ ↔
      Meets StatusCall.exec (fun call s => ¬call.Outdates s) calls ⟨w, badByte, initValidEus⟩ := by
  refine always_iff_meets (D := fun _ => True) (I := Coherent) (fun call s _ hs => ?_) calls
    (fun _ _ => trivial) _ (coherent_initValidEus w badByte)
  refine wp_mono (call.exec_coherent hs) (fun _ t ht => ?_) fun _ t ht => ?_
  · exact ⟨statusAgrees_iff_coherent.trans ht, ht.mpr⟩
  · exact statusAgrees_iff_coherent.trans ht

/-! ## The driver without the bytes

The rest of the development takes the status of an erase unit for a part of the chip that only a
mark changes, and `seq_check_eu_status` for a look at it.
-/

/-- The call as the driver has it that keeps no bytes. -/
def StatusCall.drive : StatusCall → SeqM Unit
  | seqCheckEuStatus euAddr => do let _ ← nandCheckEuStatus (calcEuStart euAddr)
  | markEuAsBad pageAddr => NandFs.markEuAsBad pageAddr
  | nandProgramTotalPage page _ phyAddr => do let _ ← NandFs.nandProgramTotalPage page phyAddr
  | nandProgramObsoleteByte phyAddr => do let _ ← NandFs.nandProgramObsoleteByte phyAddr
  | nandErase phyAddr => do let _ ← NandFs.nandErase phyAddr

/-- The call programs no page that holds the status of a bad erase unit, and no raised byte. -/
def StatusCall.KeepsStatus : StatusCall → CachedWorld → Prop
  | nandProgramTotalPage _ badByte phyAddr, s => badByte = false ∧
      (phyAddr < calcEuStart phyAddr + 2 → s.seen.flash.good phyAddr = true)
  | _, _ => True

section Frames

theorem frame_badEu_spendPower : Frame (fun w : World => w.flash.badEu) spendPower :=
  frame_spendPower_of fun _ _ => rfl

theorem frame_badEu_nandProgramTotalPage (page : Page) (a : Nat) :
    Frame (fun w : World => w.flash.badEu) (nandProgramTotalPage page a) := by
  have hpage : ∀ total, Frame (fun w : World => w.flash.badEu)
      (seqVerify (nandProgramPageA page a total) (pure 0)) := by
    intro total
    refine frame_seqVerify (frame_bind (frame_getFp a) fun _ => frame_ite (frame_pure _) ?_)
      (frame_pure _)
    refine frame_bind frame_get fun _ => frame_bind (frame_assert _) fun _ => ?_
    exact frame_bind frame_badEu_spendPower fun _ =>
      frame_bind (frame_modify fun _ => rfl) fun _ => frame_pure _
  exact frame_ite (hpage true) (hpage false)

theorem frame_badEu_nandProgramObsoleteByte (a : Nat) :
    Frame (fun w : World => w.flash.badEu) (nandProgramObsoleteByte a) := by
  refine frame_bind (frame_getFp a) fun _ => frame_ite (frame_pure _) ?_
  refine frame_bind frame_get fun _ => frame_bind (frame_assert _) fun _ => ?_
  exact frame_bind frame_badEu_spendPower fun _ =>
    frame_bind (frame_modify fun _ => rfl) fun _ => frame_pure _

theorem frame_badEu_nandErase (a : Nat) :
    Frame (fun w : World => w.flash.badEu) (nandErase a) := by
  refine frame_bind (frame_getFp a) fun _ => frame_ite (frame_pure _) ?_
  refine frame_bind (frame_nandCheckEuStatus _) fun _ => frame_ite ?_ (frame_pure _)
  exact frame_bind frame_badEu_spendPower fun _ =>
    frame_bind (frame_modify fun _ => rfl) fun _ => frame_pure _

end Frames

section Seen
variable {s : CachedWorld} {badByte badByte' : Nat → Bool} {a eu : Nat}

/-- Erase units whose bytes are the same have the same status. -/
theorem badEus_congr (h : ∀ p, p / pagesPerEu = eu → p < calcEuStart p + 2 →
    badByte' p = badByte p) : badEus badByte' eu = badEus badByte eu := by
  have hpage : ∀ k < 2, badByte' (eu * pagesPerEu + k) = badByte (eu * pagesPerEu + k) := by
    intro k hk
    refine h _ (statusPage_div hk) ?_
    rw [calcEuStart_eq, statusPage_div hk]
    omega
  exact congrArg₂ (· || ·) (hpage 0 (by omega)) (hpage 1 (by omega))

theorem badEus_raise (a : Nat) : badEus (Function.update badByte (calcEuStart a) true) =
    Function.update (badEus badByte) (calcEuStart a / pagesPerEu) true := by
  funext eu
  by_cases heu : eu = calcEuStart a / pagesPerEu
  · rw [heu, Function.update_self, badEus_calcEuStart, calcEuStart_calcEuStart,
      Function.update_self, Bool.true_or]
  · rw [Function.update_of_ne heu]
    refine badEus_congr fun p hp _ => Function.update_of_ne ?_ _ _
    rintro rfl
    exact heu hp.symm

theorem badEus_program (h : a < calcEuStart a + 2 → badEus badByte (a / pagesPerEu) = false) :
    badEus (Function.update badByte a false) = badEus badByte := by
  funext eu
  by_cases hstatus : eu = a / pagesPerEu ∧ a < calcEuStart a + 2
  · obtain ⟨rfl, hpage⟩ := hstatus
    rw [h hpage]
    refine badEus_of_le (fun p hp => ?_) (h hpage)
    by_cases hpa : p = a
    · rw [hpa, Function.update_self] at hp
      exact absurd hp Bool.false_ne_true
    · rwa [Function.update_of_ne hpa] at hp
  · refine badEus_congr fun p hp hpage => Function.update_of_ne ?_ _ _
    rintro rfl
    exact hstatus ⟨hp.symm, hpage⟩

theorem badEus_erase (h : badEus badByte (a / pagesPerEu) = false) :
    badEus (fun p => if calcEuStart p = calcEuStart a then false else badByte p) =
      badEus badByte := by
  funext eu
  by_cases heu : eu = a / pagesPerEu
  · rw [heu, h]
    refine badEus_of_le (fun p hp => ?_) h
    split_ifs at hp
    exact hp
  · refine badEus_congr fun p hp _ => if_neg fun hstart => heu ?_
    rw [calcEuStart_eq, calcEuStart_eq] at hstart
    rw [← hp, Nat.eq_of_mul_eq_mul_right pagesPerEu_pos hstart]

/-- The driver finds what an operation has left, if the bytes tell the status that it left. -/
theorem seen_eq {w : World} (h : w.flash.badEu = badEus badByte) :
    ({ s with world := w, badByte := badByte } : CachedWorld).seen = w := by
  unfold CachedWorld.seen
  dsimp only
  rw [← h]

theorem seen_onChip {α : Type} {m : SeqM α} (hm : Frame (fun w => w.flash.badEu) m) :
    wp (onChip m) (fun r t => m s.seen = .ok r t.seen) (fun e t => m s.seen = .error e t.seen) s :=
  wp_onChip_run
    (fun r _ hrun => hrun.trans (congrArg (EStateM.Result.ok r) (seen_eq (hm.ok hrun)).symm))
    fun e _ hrun => hrun.trans (congrArg (EStateM.Result.error e) (seen_eq (hm.error hrun)).symm)

/-- Where the queue holds what is valid, a check is a look at the chip. -/
theorem seen_seqCheckEuStatus (h : Coherent s) (a : Nat) : wp (seqCheckEuStatus a)
    (fun status t => nandCheckEuStatus (calcEuStart a) s.seen = .ok status t.seen)
    (fun e t => nandCheckEuStatus (calcEuStart a) s.seen = .error e t.seen) s := by
  unfold seqCheckEuStatus
  rw [wp_bind, wp_ok_iff (seqIsEuKnownValid_run _)]
  refine wp_ite (fun hmem => ?_) fun _ => ?_
  · obtain ⟨hlt, hgood⟩ := h _ (of_decide_eq_true hmem) (calcEuStart_calcEuStart a)
    rw [wp_pure, nandCheckEuStatus_run hlt, hgood]
  · rw [wp_bind]
    refine wp_mono (seen_onChip (frame_nandCheckEuStatus _)) (fun status t ht => ?_)
      fun _ _ he => he
    cases status with
    | true => exact ht
    | false => exact ht

theorem seen_cachedMarkEuAsBad (a : Nat) : wp (cachedMarkEuAsBad a)
    (fun _ t => markEuAsBad a s.seen = .ok () t.seen)
    (fun e t => markEuAsBad a s.seen = .error e t.seen) s := by
  unfold cachedMarkEuAsBad
  rw [wp_bind]
  have hframe : Frame (fun w => w) (nandCheckEuStatus a) := frame_nandCheckEuStatus a
  refine wp_onChip_run (fun status w hstatus => ?_) fun e w herror => ?_
  · obtain rfl : w = s.seen := hframe.ok hstatus
    obtain ⟨hlt, rfl⟩ := nandCheckEuStatus_ok hstatus
    cases hgood : s.seen.flash.good a with
    | true =>
      have hmark := wp_markEuAsBad hlt hgood
      rw [if_pos rfl, wp_bind]
      refine wp_onChip_run (fun _ w hrun => ?_) fun e w hrun => ?_
      · have hbad := (of_wp_ok hmark hrun).2.trans (badEus_raise a).symm
        exact hrun.trans (congrArg (EStateM.Result.ok ()) (seen_eq hbad).symm)
      · have hbad := (of_wp_error hmark hrun).2
        exact hrun.trans (congrArg (EStateM.Result.error e) (seen_eq hbad).symm)
    | false =>
      rw [if_neg Bool.false_ne_true, wp_pure]
      unfold markEuAsBad
      rw [bind_ok hstatus, hgood]
      rfl
  · unfold markEuAsBad
    rw [bind_error herror]
    have hbad : w.flash.badEu = badEus s.badByte := congrArg (·.flash.badEu) (hframe.error herror)
    exact congrArg (EStateM.Result.error e) (seen_eq hbad).symm

theorem seen_cachedProgramTotalPage {page : Page} {raised : Bool}
    (h : (StatusCall.nandProgramTotalPage page raised a).KeepsStatus s) :
    wp (cachedProgramTotalPage page raised a)
      (fun res t => nandProgramTotalPage page a s.seen = .ok res t.seen)
      (fun e t => nandProgramTotalPage page a s.seen = .error e t.seen) s := by
  obtain ⟨rfl, hstatus⟩ := h
  have hframe := frame_badEu_nandProgramTotalPage page a
  unfold cachedProgramTotalPage setBadByte
  rw [wp_bind]
  refine wp_onChip_run (fun res w hrun => wp_ite (fun _ => ?_) fun _ => ?_) fun e w hrun => ?_
  · have hbad := (hframe.ok hrun).trans
      (badEus_program fun hpage => seen_good_iff.mp (hstatus hpage)).symm
    exact hrun.trans (congrArg (EStateM.Result.ok res) (seen_eq hbad).symm)
  · exact hrun.trans (congrArg (EStateM.Result.ok res) (seen_eq (hframe.ok hrun)).symm)
  · exact hrun.trans (congrArg (EStateM.Result.error e) (seen_eq (hframe.error hrun)).symm)

theorem seen_cachedErase (a : Nat) : wp (cachedErase a)
    (fun res t => nandErase a s.seen = .ok res t.seen)
    (fun e t => nandErase a s.seen = .error e t.seen) s := by
  have hframe := frame_badEu_nandErase a
  unfold cachedErase
  rw [wp_bind, wp_get, wp_bind]
  refine wp_onChip_run (fun res w hrun => wp_ite (fun hgood => ?_) fun _ => ?_) fun e w hrun => ?_
  · have hbad := (hframe.ok hrun).trans (badEus_erase (seen_good_iff.mp hgood.2)).symm
    exact hrun.trans (congrArg (EStateM.Result.ok res) (seen_eq hbad).symm)
  · exact hrun.trans (congrArg (EStateM.Result.ok res) (seen_eq (hframe.ok hrun)).symm)
  · exact hrun.trans (congrArg (EStateM.Result.error e) (seen_eq (hframe.error hrun)).symm)

/-- A call does what the driver without the bytes does. -/
theorem StatusCall.exec_seen {call : StatusCall} (h : Coherent s) (hkeeps : call.KeepsStatus s) :
    wp call.exec (fun _ t => call.drive s.seen = .ok () t.seen)
      (fun e t => call.drive s.seen = .error e t.seen) s := by
  have hdrive : ∀ {α : Type} {c : CachedM α} {m : SeqM α}, wp c (fun r t => m s.seen = .ok r t.seen)
      (fun e t => m s.seen = .error e t.seen) s →
        wp (do let _ ← c : CachedM Unit)
          (fun _ t => (do let _ ← m : SeqM Unit) s.seen = .ok () t.seen)
          (fun e t => (do let _ ← m : SeqM Unit) s.seen = .error e t.seen) s := by
    intro α c m hc
    rw [wp_bind]
    exact wp_mono hc (fun _ _ hrun => bind_ok hrun) fun _ _ hrun => bind_error hrun
  cases call with
  | seqCheckEuStatus euAddr => exact hdrive (seen_seqCheckEuStatus h euAddr)
  | markEuAsBad pageAddr => exact seen_cachedMarkEuAsBad pageAddr
  | nandProgramTotalPage page badByte phyAddr => exact hdrive (seen_cachedProgramTotalPage hkeeps)
  | nandProgramObsoleteByte phyAddr =>
    exact hdrive (seen_onChip (frame_badEu_nandProgramObsoleteByte phyAddr))
  | nandErase phyAddr => exact hdrive (seen_cachedErase phyAddr)

/-- In a run in which no erase unit of the queue is marked and no mark is programmed away, the
chip is left as by the driver without the bytes and without the queue. -/
theorem runAll_seen {calls : List StatusCall} (h : Coherent s)
    (hmeets : Meets StatusCall.exec (fun call s => ¬call.Outdates s ∧ call.KeepsStatus s) calls s) :
    (runAll StatusCall.exec calls s).map CachedWorld.seen =
      runAll StatusCall.drive calls s.seen := by
  induction calls generalizing s with
  | nil => rfl
  | cons call calls ih =>
    unfold Meets at hmeets
    obtain ⟨⟨hnot, hkeeps⟩, hrest⟩ := hmeets
    have hseen := call.exec_seen h hkeeps
    unfold runAll
    cases hrun : call.exec s with
    | ok _ t =>
      have hrest := of_wp_ok hrest hrun
      rw [of_wp_ok hseen hrun]
      exact ih ((of_wp_ok (call.exec_coherent h) hrun).mpr hnot) hrest
    | error e t =>
      rw [of_wp_error hseen hrun]
      rfl

end Seen

end Cache

section TinyPage
attribute [local instance] tinyPage

/-- An erase unit is checked and then marked bad. -/
theorem statusAgrees_fails : ¬∀ (calls : List StatusCall) (w : World) (badByte : Nat → Bool),
    Always StatusCall.exec (fun _ _ t => StatusAgrees t) calls ⟨w, badByte, initValidEus⟩ := by
  intro h
  have hcheck : (runAll StatusCall.exec [.seqCheckEuStatus 8, .markEuAsBad 8]
      ⟨erasedWorld fun _ => false, fun _ => false, initValidEus⟩).any (fun t =>
        answerOf (seqCheckEuStatus 8) t == some true &&
          answerOf (onChip (nandCheckEuStatus 8)) t == some false) = true := by decide +kernel
  obtain ⟨t, hrun, hanswers⟩ := (Option.any_eq_true _ _).mp hcheck
  obtain ⟨hseq, hnand⟩ := (Bool.and_eq_true _ _).mp hanswers
  have hagrees : StatusAgrees t := (h _ _ _).last (J := StatusAgrees) (fun _ _ _ ht => ht)
    (statusAgrees_iff_coherent.mpr (coherent_initValidEus _ _)) hrun
  have hsame := hagrees 8
  rw [beq_iff_eq.mp hseq, beq_iff_eq.mp hnand] at hsame
  exact absurd hsame (by decide)

end TinyPage

end NandFs
