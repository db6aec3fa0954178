import NandFs.SlotPrograms
import NandFs.WearLeveling

/-! # Moving a reserve slot

The copying loop of `performWearLeveling`, for a slot of a reserve segment: the erase units in
use are copied, one after the other, to the valid erase units of the free slot, as long as the
loop stays at the starts of erase units (`MovesWhole`).  Their pages keep their marks, so that
the copies stand for the same erase units.
-/
namespace NandFs

open Program

variable [Config]

/-- The erase unit is not bad, and its first page is in use. -/
def Flash.EuUsed (f : Flash) (eu : Nat) : Prop :=
  f.good eu = true ∧ isPageUsed (f.page eu).flags = true

/-- `MovesWhole f slot newSlot k j`: from erase unit `k` of `slot` on, what is in use can be
copied to erase units of `newSlot` from `j` on.  One that is not in use has to meet a valid
erase unit: past a bad one the loop counts pages, not erase units. -/
inductive MovesWhole (f : Flash) (slot newSlot : Nat) : Nat → Nat → Prop
  | done {k j : Nat} (h : eusPerSlot ≤ k) : MovesWhole f slot newSlot k j
  | full {k j : Nat} (h : eusPerSlot ≤ j)
      (rest : ∀ e, k ≤ e → e < eusPerSlot → ¬f.EuUsed (euAt slot e)) :
      MovesWhole f slot newSlot k j
  | bad {k j : Nat} (lt : k < eusPerSlot) (bad : f.good (euAt slot k) = false)
      (h : MovesWhole f slot newSlot (k + 1) j) : MovesWhole f slot newSlot k j
  | unused {k j : Nat} (lt : k < eusPerSlot) (lt' : j < eusPerSlot)
      (good : f.good (euAt slot k) = true) (unused : isPageUsed (f.page (euAt slot k)).flags = false)
      (good' : f.good (euAt newSlot j) = true) (h : MovesWhole f slot newSlot (k + 1) j) :
      MovesWhole f slot newSlot k j
  | used {k j i : Nat} (lt : k < eusPerSlot) (used : f.EuUsed (euAt slot k)) (le : j ≤ i)
      (lt' : i < eusPerSlot) (bad : ∀ e, j ≤ e → e < i → f.good (euAt newSlot e) = false)
      (good' : f.good (euAt newSlot i) = true) (h : MovesWhole f slot newSlot (k + 1) (i + 1)) :
      MovesWhole f slot newSlot k j

/-- With no room left nothing in use is left. -/
theorem MovesWhole.rest {f : Flash} {slot newSlot k j : Nat} (h : MovesWhole f slot newSlot k j)
    (hj : eusPerSlot ≤ j) : ∀ e, k ≤ e → e < eusPerSlot → ¬f.EuUsed (euAt slot e) := by
  induction h with
  | done h => intro e hle hlt; omega
  | full _ rest => exact rest
  | @bad k j _ hbad _ ih =>
    intro e hle hlt hused
    by_cases he : e = k
    · rw [he] at hused
      rw [hused.1] at hbad
      exact absurd hbad Bool.true_eq_false.mp
    · exact ih hj e (by omega) hlt hused
  | unused _ lt' => omega
  | used _ _ _ _ => omega

/-! ## What has been copied -/

/-- From `f` to `t` the first `i` pages of the erase unit `org` were copied to `eu`. -/
structure EuCopy (f t : Flash) (org eu i : Nat) : Prop where
  badEu : t.badEu = f.badEu
  done : ∀ o < i, t.page (eu + o) = f.page (org + o)
  rest : ∀ a, (∀ o < i, a ≠ eu + o) →
    t.page a = f.page a ∧ t.mainAreaWrites a = f.mainAreaWrites a

/-- From `f` to `t` erase units of `slot` were copied to `newSlot`: erase unit `j` has the pages
of erase unit `k` where `src j = some k`, and its own otherwise. -/
structure ReserveCopy (f t : Flash) (slot newSlot : Nat) (src : Nat → Option Nat) : Prop where
  badEu : t.badEu = f.badEu
  others : ∀ a, getSlot a ≠ newSlot →
    t.page a = f.page a ∧ t.mainAreaWrites a = f.mainAreaWrites a
  copied : ∀ {j k}, j < eusPerSlot → src j = some k → ∀ i < pagesPerEu,
    t.page (euAt newSlot j + i) = f.page (euAt slot k + i)
  kept : ∀ {j}, j < eusPerSlot → src j = none → ∀ i < pagesPerEu,
    t.page (euAt newSlot j + i) = f.page (euAt newSlot j + i) ∧
      t.mainAreaWrites (euAt newSlot j + i) = f.mainAreaWrites (euAt newSlot j + i)

/-- Every erase unit in use among the first `k` was copied, once, to a valid one before `j`, and
all of these were copied to. -/
structure CopyMap (f : Flash) (slot newSlot : Nat) (src : Nat → Option Nat) (k j : Nat) :
    Prop where
  lt : ∀ {e e'}, src e = some e' → e < j
  lt_eus : ∀ {e e'}, src e = some e' → e < eusPerSlot ∧ e' < eusPerSlot
  good : ∀ {e e'}, src e = some e' → f.good (euAt newSlot e) = true
  used : ∀ {e e'}, src e = some e' → f.EuUsed (euAt slot e')
  inj : ∀ {e₁ e₂ e'}, src e₁ = some e' → src e₂ = some e' → e₁ = e₂
  past : ∀ {e e'}, src e = some e' → e' < k
  all : ∀ e' < k, e' < eusPerSlot → f.EuUsed (euAt slot e') → ∃ e, src e = some e'
  filled : ∀ e < j, f.good (euAt newSlot e) = true → ∃ e', src e = some e'

section Copy
variable {f g t u : Flash} {org eu slot newSlot i j k : Nat} {src : Nat → Option Nat}

theorem EuCopy.refl (f : Flash) (org eu : Nat) : EuCopy f f org eu 0 :=
  ⟨rfl, fun o ho => absurd ho (Nat.not_lt_zero o), fun _ _ => ⟨rfl, rfl⟩⟩

/-- One more page is copied. -/
theorem EuCopy.program (h : EuCopy f t org eu i) (hp : t.Programmed (f.page (org + i)) (eu + i) u) :
    EuCopy f u org eu (i + 1) := by
  refine ⟨hp.badEu.trans h.badEu, fun o ho => ?_, fun a ha => ?_⟩
  · by_cases hoi : o = i
    · subst hoi
      exact hp.page_self
    · rw [hp.page_of_ne (by omega)]
      exact h.done o (by omega)
  · have hne := ha i (Nat.lt_succ_self i)
    rw [hp.page_of_ne hne, hp.writes, Function.update_of_ne hne]
    exact h.rest a fun o ho => ha o (by omega)

/-- A whole erase unit is copied. -/
theorem ReserveCopy.copy (h : ReserveCopy f g slot newSlot src) (hne : slot ≠ newSlot)
    (hk : k < eusPerSlot) (hj : j < eusPerSlot) (hnew : newSlot < nSlots)
    (hcopy : EuCopy g t (euAt slot k) (euAt newSlot j) pagesPerEu) :
    ReserveCopy f t slot newSlot (Function.update src j (some k)) := by
  have hiseu := isEu_euAt hnew hj
  -- the pages of the other erase units are not touched
  have hother : ∀ {e i}, e < eusPerSlot → e ≠ j → i < pagesPerEu → ∀ o < pagesPerEu,
      euAt newSlot e + i ≠ euAt newSlot j + o := by
    intro e i he hej hi o ho heq
    have hsame := ((isEu_euAt hnew he).add_inj hiseu hi ho heq).1
    exact hej (euAt_inj he hj hsame).2
  refine ⟨hcopy.badEu.trans h.badEu, fun a ha => ?_, fun {e k'} he hsrc i hi => ?_,
    fun {e} he hnone i hi => ?_⟩
  · have hrest := hcopy.rest a fun o ho heq => ha (by rw [heq]; exact getSlot_euAt hj ho)
    rw [hrest.1, hrest.2]
    exact h.others a ha
  · by_cases hej : e = j
    · subst hej
      rw [Function.update_self] at hsrc
      obtain rfl := Option.some.inj hsrc
      rw [hcopy.done i hi]
      exact (h.others _ (by rw [getSlot_euAt hk hi]; exact hne)).1
    · rw [Function.update_of_ne hej] at hsrc
      rw [(hcopy.rest _ (hother he hej hi)).1]
      exact h.copied he hsrc i hi
  · have hej : e ≠ j := by
      rintro rfl
      rw [Function.update_self] at hnone
      exact absurd hnone (Option.some_ne_none k)
    rw [Function.update_of_ne hej] at hnone
    have hrest := hcopy.rest _ (hother he hej hi)
    rw [hrest.1, hrest.2]
    exact h.kept he hnone i hi

theorem ReserveCopy.refl (f : Flash) (slot newSlot : Nat) :
    ReserveCopy f f slot newSlot fun _ => none :=
  ⟨rfl, fun _ _ => ⟨rfl, rfl⟩, fun _ he => absurd he.symm (Option.some_ne_none _),
    fun _ _ _ _ => ⟨rfl, rfl⟩⟩

theorem CopyMap.empty (f : Flash) (slot newSlot : Nat) :
    CopyMap f slot newSlot (fun _ => none) 0 0 := by
  have hno : ∀ {e' : Nat}, (none : Option Nat) ≠ some e' := (Option.some_ne_none _).symm
  exact ⟨fun he => absurd he hno, fun he => absurd he hno, fun he => absurd he hno,
    fun he => absurd he hno, fun he => absurd he hno, fun he => absurd he hno,
    fun e' he' => absurd he' (Nat.not_lt_zero e'), fun e he => absurd he (Nat.not_lt_zero e)⟩

/-- An erase unit that is not in use is passed. -/
theorem CopyMap.skip (h : CopyMap f slot newSlot src k j) (hno : ¬f.EuUsed (euAt slot k)) :
    CopyMap f slot newSlot src (k + 1) j := by
  refine ⟨h.lt, h.lt_eus, h.good, h.used, h.inj, fun he => Nat.lt_succ_of_lt (h.past he),
    fun e' hlt hle hused => ?_, h.filled⟩
  by_cases he : e' = k
  · subst he
    exact absurd hused hno
  · exact h.all e' (by omega) hle hused

/-- An erase unit in use is copied to a valid one. -/
theorem CopyMap.copy (h : CopyMap f slot newSlot src k j) (hk : k < eusPerSlot)
    (hused : f.EuUsed (euAt slot k)) (hle : j ≤ i) (hi : i < eusPerSlot)
    (hbad : ∀ e, j ≤ e → e < i → f.good (euAt newSlot e) = false)
    (hgood : f.good (euAt newSlot i) = true) :
    CopyMap f slot newSlot (Function.update src i (some k)) (k + 1) (i + 1) := by
  have hcases : ∀ {e e'}, Function.update src i (some k) e = some e' →
      e = i ∧ e' = k ∨ e ≠ i ∧ src e = some e' := by
    intro e e' he
    by_cases hei : e = i
    · subst hei
      rw [Function.update_self] at he
      exact .inl ⟨rfl, (Option.some.inj he).symm⟩
    · rw [Function.update_of_ne hei] at he
      exact .inr ⟨hei, he⟩
  refine ⟨fun he => ?_, fun he => ?_, fun he => ?_, fun he => ?_, fun he₁ he₂ => ?_, fun he => ?_,
    fun e' hlt he' hu => ?_, fun e he hgood' => ?_⟩
  · rcases hcases he with ⟨rfl, -⟩ | ⟨-, he⟩
    · exact Nat.lt_succ_self _
    · have := h.lt he
      omega
  · rcases hcases he with ⟨rfl, rfl⟩ | ⟨-, he⟩
    · exact ⟨hi, hk⟩
    · exact h.lt_eus he
  · rcases hcases he with ⟨rfl, -⟩ | ⟨-, he⟩
    · exact hgood
    · exact h.good he
  · rcases hcases he with ⟨-, rfl⟩ | ⟨-, he⟩
    · exact hused
    · exact h.used he
  · rcases hcases he₁ with ⟨rfl, rfl⟩ | ⟨-, hold₁⟩
    · rcases hcases he₂ with ⟨rfl, -⟩ | ⟨-, hold₂⟩
      · rfl
      · exact absurd (h.past hold₂) (Nat.lt_irrefl _)
    · rcases hcases he₂ with ⟨-, rfl⟩ | ⟨-, hold₂⟩
      · exact absurd (h.past hold₁) (Nat.lt_irrefl _)
      · exact h.inj hold₁ hold₂
  · rcases hcases he with ⟨-, rfl⟩ | ⟨-, he⟩
    · exact Nat.lt_succ_self _
    · exact Nat.lt_succ_of_lt (h.past he)
  · by_cases hek : e' = k
    · subst hek
      exact ⟨i, Function.update_self _ _ _⟩
    · obtain ⟨e, he⟩ := h.all e' (by omega) he' hu
      refine ⟨e, ?_⟩
      rw [Function.update_of_ne]
      · exact he
      · have := h.lt he
        omega
  · by_cases hei : e = i
    · subst hei
      exact ⟨k, Function.update_self _ _ _⟩
    · rw [Function.update_of_ne hei]
      by_cases hej : e < j
      · exact h.filled e hej hgood'
      · rw [hbad e (by omega) (by omega)] at hgood'
        exact absurd hgood' Bool.false_ne_true

end Copy

/-! ## The loop -/

section Loop
variable {E : Halt → World → Prop} (hE : ∀ t, E .powerLoss t) {s : World} {f : Flash}
  {slot newSlot k j : Nat}

/-- Past bad erase units the search comes to a valid one. -/
theorem skipBadEus_run {i n step o : Nat} (hnew : newSlot < nSlots) (hle : j ≤ i)
    (hi : i < eusPerSlot) (hbad : ∀ e, j ≤ e → e < i → s.flash.good (euAt newSlot e) = false)
    (hgood : s.flash.good (euAt newSlot i) = true) (hn : i < j + n) :
    skipBadEus step n (euAt newSlot j) o s = .ok (euAt newSlot i, o + (i - j) * step) s := by
  induction n generalizing j o with
  | zero => omega
  | succ n ih =>
    unfold skipBadEus
    rw [bind_ok (nandCheckEuStatus_run (isEu_euAt hnew (by omega : j < eusPerSlot)).lt)]
    by_cases hji : j = i
    · subst hji
      rw [hgood, if_pos rfl, Nat.sub_self, Nat.zero_mul, Nat.add_zero]
      rfl
    · rw [hbad j (Nat.le_refl j) (by omega), if_neg Bool.false_ne_true]
      have hnext : euAt newSlot j + pagesPerEu = euAt newSlot (j + 1) := by
        unfold euAt
        rw [calcAddress_eq, calcAddress_eq]
        ring
      have hoff : o + (i - j) * step = o + step + (i - (j + 1)) * step := by
        rw [show i - j = i - (j + 1) + 1 by omega]
        ring
      rw [hnext, hoff]
      exact ih (by omega) (fun e he hei => hbad e (by omega) hei) (by omega)

include hE

/-- One page of an erase unit in use. -/
theorem wp_copyReservePage {Q : Nat → World → Prop} {org eu i orgTo : Nat} (horg : IsEu org)
    (heu : IsEu eu) (hne : org ≠ eu) (hi : i < pagesPerEu)
    (hblank : ∀ o < pagesPerEu, f.page (eu + o) = initBuf ∧ f.mainAreaWrites (eu + o) = false)
    (hcb : CopyBackSpared s.flash s.segMap → eu + i ≠ s.flash.copyBackEu s.segMap)
    (h : EuCopy f s.flash org eu i)
    (hq : ∀ t, OnChip s t → EuCopy f t.flash org eu (i + 1) → Q 0 t) :
    wp (copyPage (eu + i) (org + i) false orgTo true) Q E s := by
  have hfrom : s.flash.page (org + i) = f.page (org + i) := by
    refine (h.rest _ fun o ho heq => hne ?_).1
    exact (horg.add_inj heu hi (by omega) heq).1
  have hto := h.rest (eu + i) fun o ho heq => by omega
  obtain ⟨hpage, hclean⟩ := hblank i hi
  unfold copyPage
  rw [wp_bind, wp_ok_iff (nandReadPageTotal_run (horg.add_lt hi))]
  refine wp_seqVerify (wp_nandProgramTotalPage (heu.add_lt hi) (by rw [hto.2, hclean])
    (by rw [hto.1, hpage]) (fun t hp _ => ?_) fun _ => hE s)
  rw [if_neg (not_not_intro rfl), wp_pure]
  refine hq _ ⟨rfl, rfl, rfl, hp.badEu, fun hs => hs.program hp (hcb hs)⟩ (h.program ?_)
  rw [← hfrom]
  exact hp

/-- The loop inside an erase unit: its other pages are copied. -/
theorem wp_copyReserveEu {Q : Option Nat → World → Prop} (hslot : slot < nSlots)
    (hnew : s.segMap.IsDataSlot newSlot) (hne : slot ≠ newSlot) (hk : k < eusPerSlot)
    (hj : j < eusPerSlot) (hblank : ∀ o < pagesPerEu, f.page (euAt newSlot j + o) = initBuf ∧
      f.mainAreaWrites (euAt newSlot j + o) = false) (n d : Nat) {i : Nat} (hd : i + d = pagesPerEu)
    (h0 : i ≠ 0) (h : EuCopy f s.flash (euAt slot k) (euAt newSlot j) i)
    (hq : ∀ t, OnChip s t → EuCopy f t.flash (euAt slot k) (euAt newSlot j) pagesPerEu →
      wp (copySlotLoop newSlot slot true n ⟨euAt slot k + pagesPerEu, euAt newSlot j + pagesPerEu,
        (k + 1) * pagesPerEu, (j + 1) * pagesPerEu, false⟩) Q E t) :
    wp (copySlotLoop newSlot slot true (n + d) ⟨euAt slot k + i, euAt newSlot j + i,
      k * pagesPerEu + i, j * pagesPerEu + i, false⟩) Q E s := by
  induction d generalizing s i with
  | zero =>
    obtain rfl : i = pagesPerEu := by omega
    have hnext : ∀ e, e * pagesPerEu + pagesPerEu = (e + 1) * pagesPerEu := fun e => by ring
    rw [Nat.add_zero, hnext, hnext]
    exact hq s (OnChip.refl s) h
  | succ d ih =>
    have hi : i < pagesPerEu := by omega
    have heus : euAt slot k ≠ euAt newSlot j := fun he => hne (euAt_inj hk hj he).1
    show wp (copySlotLoop newSlot slot true (n + d + 1) _) Q E s
    unfold copySlotLoop
    refine wp_ite (fun _ => ?_) fun hend => absurd ⟨offset_lt hj hi, offset_lt hk hi⟩ hend
    have hin : calcOffsetInEu (j * pagesPerEu + i) = i := mod_of_eq hi rfl
    rw [if_pos (by rw [hin]; exact h0), wp_bind]
    refine wp_copyReservePage hE (isEu_euAt hslot hk) (isEu_euAt hnew.lt hj) heus hi hblank
      (fun hs => hs.ne_data hnew hj hi) h fun t hon ht => ?_
    exact ih (by rw [hon.segMap]; exact hnew) (by omega) (Nat.succ_ne_zero i) ht
      fun u hu hcopy => hq u (hon.trans hu) hcopy

omit hE in
/-- The loop is at its end. -/
theorem copySlotLoop_end {n : Nat} {isSlotReserve : Bool} {ws : WearState}
    (h : ¬(ws.toPageOffset < pagesPerSlot ∧ ws.fromPageOffset < pagesPerSlot)) :
    copySlotLoop newSlot slot isSlotReserve n ws s = .ok none s := by
  cases n with
  | zero => rfl
  | succ n =>
    unfold copySlotLoop
    rw [if_neg h]
    rfl

omit hE in
theorem calcAddress_eu (slot e : Nat) : calcAddress slot 0 (e * pagesPerEu) = euAt slot e := by
  unfold euAt
  rw [calcAddress_eq, calcAddress_eq, Nat.zero_mul, Nat.zero_add, Nat.add_zero]

omit hE in
theorem chooseTarget_reserve {i : Nat} {ws : WearState} (hnew : newSlot < nSlots) (hle : j ≤ i)
    (hi : i < eusPerSlot) (hbad : ∀ e, j ≤ e → e < i → s.flash.good (euAt newSlot e) = false)
    (hgood : s.flash.good (euAt newSlot i) = true) (hto : ws.toPageOffset = j * pagesPerEu) :
    chooseTarget newSlot (euAt newSlot j) true ws s = .ok (.copy { ws with
      toPhyAddr := euAt newSlot i, toPageOffset := i * pagesPerEu, isToReserve := false }) s := by
  have hoff : j * pagesPerEu + (i - j) * pagesPerEu = i * pagesPerEu := by
    rw [← Nat.add_mul, Nat.add_sub_cancel' hle]
  have hn : i < j + (2 ^ Config.euBits + 1) := by
    have : eusPerSlot ≤ 2 ^ Config.euBits := by
      rw [eusPerSlot_eq]
      exact Nat.pow_le_pow_right (by decide) (Nat.sub_le _ _)
    omega
  unfold chooseTarget
  rw [bind_ok (nandCheckEuStatus_run (isEu_euAt hnew (by omega : j < eusPerSlot)).lt)]
  by_cases hji : j = i
  · subst hji
    rw [hgood, if_pos rfl, ← hto]
    rfl
  · rw [hbad j (Nat.le_refl j) (by omega), if_neg Bool.false_ne_true, if_pos rfl,
      bind_ok (skipBadEus_run hnew hle hi hbad hgood hn), hto, hoff]
    rfl

section Choose
variable {ws : WearState} (hslot : slot < nSlots) (hk : k < eusPerSlot)
  (hfrom : ws.fromPageOffset = k * pagesPerEu) (hto : ws.toPageOffset = j * pagesPerEu)
include hslot hk hfrom hto

omit hE in
/-- A bad erase unit of a reserve slot is passed. -/
theorem chooseEus_bad (hbad : s.flash.good (euAt slot k) = false) :
    chooseEus newSlot slot true ws s = .ok (.again { ws with
      fromPhyAddr := euAt slot k, toPhyAddr := euAt newSlot j,
      fromPageOffset := (k + 1) * pagesPerEu }) s := by
  have hnext : k * pagesPerEu + pagesPerEu = (k + 1) * pagesPerEu := by ring
  unfold chooseEus
  rw [hfrom, hto, calcAddress_eu, calcAddress_eu,
    bind_ok (nandCheckEuStatus_run (isEu_euAt hslot hk).lt), hbad, hnext]
  rfl

omit hE in
/-- What comes after the check of the source. -/
theorem chooseEus_good (hgood : s.flash.good (euAt slot k) = true) :
    chooseEus newSlot slot true ws s = (do
      if !isPageUsed (s.flash.page (euAt slot k)).flags then do
        let (toPhyAddr, toPageOffset) ←
          skipBadEus 1 (2 ^ Config.euBits + 1) (euAt newSlot j) (j * pagesPerEu)
        pure (WearChoice.again { ws with
          fromPhyAddr := euAt slot k + pagesPerEu
          fromPageOffset := (k + 1) * pagesPerEu
          toPhyAddr := toPhyAddr
          toPageOffset := toPageOffset })
      else chooseTarget newSlot (euAt newSlot j) true { ws with fromPhyAddr := euAt slot k }) s := by
  have hlt := (isEu_euAt hslot hk).lt
  have hnext : k * pagesPerEu + pagesPerEu = (k + 1) * pagesPerEu := by ring
  have hread : isSourceUnused true (euAt slot k) s =
      .ok (!isPageUsed (s.flash.page (euAt slot k)).flags) s := by
    unfold isSourceUnused
    rw [if_pos rfl, bind_ok (nandReadPageTotal_run hlt)]
    rfl
  unfold chooseEus
  rw [hfrom, hto, calcAddress_eu, calcAddress_eu, bind_ok (nandCheckEuStatus_run hlt), hgood,
    hnext]
  show (do
    let fromPhyAddr ← sourceEu true (euAt slot k)
    _) s = _
  rw [bind_ok (show sourceEu true (euAt slot k) s = .ok (euAt slot k) s from rfl), bind_ok hread]

omit hE in
/-- An erase unit that is not in use is passed, if it meets a valid one. -/
theorem chooseEus_unused (hnew : newSlot < nSlots) (hj : j < eusPerSlot)
    (hgood : s.flash.good (euAt slot k) = true)
    (hunused : isPageUsed (s.flash.page (euAt slot k)).flags = false)
    (hgood' : s.flash.good (euAt newSlot j) = true) :
    chooseEus newSlot slot true ws s = .ok (.again { ws with
      fromPhyAddr := euAt slot k + pagesPerEu, toPhyAddr := euAt newSlot j,
      fromPageOffset := (k + 1) * pagesPerEu, toPageOffset := j * pagesPerEu }) s := by
  have hskip : skipBadEus 1 (2 ^ Config.euBits + 1) (euAt newSlot j) (j * pagesPerEu) s
      = .ok (euAt newSlot j, j * pagesPerEu + (j - j) * 1) s :=
    skipBadEus_run hnew (Nat.le_refl j) hj (fun e hle hlt => absurd hle (Nat.not_le.mpr hlt)) hgood'
      (Nat.lt_add_of_pos_right (Nat.succ_pos _))
  rw [Nat.sub_self, Nat.zero_mul, Nat.add_zero] at hskip
  rw [chooseEus_good hslot hk hfrom hto hgood, hunused, Bool.not_false, if_pos rfl, bind_ok hskip]
  rfl

omit hE in
/-- An erase unit in use is copied to the next valid one. -/
theorem chooseEus_used {i : Nat} (hnew : newSlot < nSlots) (hle : j ≤ i) (hi : i < eusPerSlot)
    (hbad : ∀ e, j ≤ e → e < i → s.flash.good (euAt newSlot e) = false)
    (hgood' : s.flash.good (euAt newSlot i) = true) (hused : s.flash.EuUsed (euAt slot k)) :
    chooseEus newSlot slot true ws s = .ok (.copy { ws with
      fromPhyAddr := euAt slot k, toPhyAddr := euAt newSlot i,
      toPageOffset := i * pagesPerEu, isToReserve := false }) s := by
  rw [chooseEus_good hslot hk hfrom hto hused.1, hused.2, Bool.not_true,
    if_neg Bool.false_ne_true]
  exact chooseTarget_reserve hnew hle hi hbad hgood' hto

end Choose

/-- What the loop comes to: all that is in use was copied. -/
def ReserveCopied (f : Flash) (slot newSlot : Nat) (s t : World) : Prop :=
  OnChip s t ∧ ∃ src j, ReserveCopy f t.flash slot newSlot src ∧
    CopyMap f slot newSlot src eusPerSlot j

omit hE in
/-- The loop ends when nothing in use is left. -/
theorem wp_copyReserve_end {n : Nat} {src : Nat → Option Nat} {ws : WearState}
    (hc : ReserveCopy f s.flash slot newSlot src) (hmap : CopyMap f slot newSlot src k j)
    (hfrom : ws.fromPageOffset = k * pagesPerEu) (hto : ws.toPageOffset = j * pagesPerEu)
    (hend : eusPerSlot ≤ k ∨ eusPerSlot ≤ j)
    (hrest : ∀ e, k ≤ e → e < eusPerSlot → ¬f.EuUsed (euAt slot e)) :
    wp (copySlotLoop newSlot slot true n ws)
      (fun r t => r = none ∧ ReserveCopied f slot newSlot s t) E s := by
  have hover : ¬(ws.toPageOffset < pagesPerSlot ∧ ws.fromPageOffset < pagesPerSlot) := by
    rw [hfrom, hto, pagesPerSlot_eq]
    rintro ⟨h1, h2⟩
    rcases hend with h | h
    · have := Nat.mul_le_mul_right pagesPerEu h
      omega
    · have := Nat.mul_le_mul_right pagesPerEu h
      omega
  refine wp_of_ok (copySlotLoop_end hover) ⟨rfl, OnChip.refl s, src, j, hc,
    ⟨hmap.lt, hmap.lt_eus, hmap.good, hmap.used, hmap.inj, fun he => (hmap.lt_eus he).2,
      fun e' _ hlt hused => ?_, hmap.filled⟩⟩
  by_cases he : e' < k
  · exact hmap.all e' he hlt hused
  · exact absurd hused (hrest e' (by omega) hlt)

/-- What a round does once it has chosen what to copy. -/
def copyReserveRound (newSlot slot toPageOffset n : Nat) : WearChoice → SeqM (Option Nat)
  | .copy t => do
    let _ ← copyPage t.toPhyAddr t.fromPhyAddr t.isToReserve (calcAddress newSlot 0 toPageOffset) true
    copySlotLoop newSlot slot true n t.advance
  | .again t => copySlotLoop newSlot slot true n t
  | .stop res => pure (some res)

/-- The copying loop of a reserve slot, from the start of erase unit `k` on. -/
theorem copyReserveLoop_spec (hslot : slot < nSlots) (hnew : s.segMap.IsDataSlot newSlot)
    (hne : slot ≠ newSlot) (hblank : ∀ e < eusPerSlot, f.good (euAt newSlot e) = true →
      ∀ o < pagesPerEu, f.page (euAt newSlot e + o) = initBuf ∧
        f.mainAreaWrites (euAt newSlot e + o) = false)
    (hm : MovesWhole f slot newSlot k j) (n : Nat) (hn : pagesPerSlot ≤ k * pagesPerEu + n)
    {src : Nat → Option Nat} (hc : ReserveCopy f s.flash slot newSlot src)
    (hmap : CopyMap f slot newSlot src k j) {ws : WearState}
    (hfrom : ws.fromPageOffset = k * pagesPerEu) (hto : ws.toPageOffset = j * pagesPerEu) :
    wp (copySlotLoop newSlot slot true n ws)
      (fun r t => r = none ∧ ReserveCopied f slot newSlot s t) E s := by
  have hpps := pagesPerSlot_eq
  have hpos := pagesPerEu_pos
  -- a round at the start of an erase unit begins with the choice of what is copied
  have hround : ∀ {k j n : Nat} {ws : WearState} {Q : Option Nat → World → Prop} {s : World},
      ws.fromPageOffset = k * pagesPerEu → ws.toPageOffset = j * pagesPerEu → k < eusPerSlot →
      j < eusPerSlot → wp (chooseEus newSlot slot true ws) (fun choice u =>
        wp (copyReserveRound newSlot slot ws.toPageOffset n choice) Q E u) E s →
      wp (copySlotLoop newSlot slot true (n + 1) ws) Q E s := by
    intro k j n ws Q s hfrom hto hk hj h
    unfold copySlotLoop
    refine wp_ite (fun _ => ?_) fun hend => absurd ⟨?_, ?_⟩ hend
    · rw [if_neg (by rw [hto, calcOffsetInEu, Nat.mul_mod_left]; exact not_not_intro rfl), wp_bind]
      exact h
    · rw [hto]
      exact offset_lt hj hpos
    · rw [hfrom]
      exact offset_lt hk hpos
  have hmore : ∀ {k n : Nat}, k < eusPerSlot → pagesPerSlot ≤ k * pagesPerEu + n →
      ∃ n', n = n' + pagesPerEu ∧ pagesPerSlot ≤ (k + 1) * pagesPerEu + n' := by
    intro k n hk hn
    have hle : (k + 1) * pagesPerEu ≤ eusPerSlot * pagesPerEu := Nat.mul_le_mul_right _ hk
    have hnext : (k + 1) * pagesPerEu = k * pagesPerEu + pagesPerEu := by ring
    exact ⟨n - pagesPerEu, by omega, by omega⟩
  induction hm generalizing s n src ws with
  | done h => exact wp_copyReserve_end hc hmap hfrom hto (.inl h) fun e hle hlt => by omega
  | full h rest => exact wp_copyReserve_end hc hmap hfrom hto (.inr h) rest
  | @bad k j lt hbad h ih =>
    by_cases hj : eusPerSlot ≤ j
    · exact wp_copyReserve_end hc hmap hfrom hto (.inr hj) (MovesWhole.rest (.bad lt hbad h) hj)
    obtain ⟨n', rfl, hn'⟩ := hmore lt hn
    obtain ⟨d, hd⟩ : ∃ d, pagesPerEu = d + 1 := ⟨pagesPerEu - 1, by omega⟩
    have hgood : s.flash.good (euAt slot k) = false :=
      (Flash.good_congr hc.badEu _).trans hbad
    have hno : ¬f.EuUsed (euAt slot k) := by
      intro hused
      rw [hused.1] at hbad
      exact absurd hbad Bool.true_eq_false.mp
    rw [hd, ← Nat.add_assoc]
    refine hround hfrom hto lt (by omega) ?_
    rw [wp_ok_iff (chooseEus_bad hslot lt hfrom hto hgood)]
    exact ih hnew (n' + d) (by omega) hc (hmap.skip hno) rfl hto
  | @unused k j lt lt' good unused good' h ih =>
    obtain ⟨n', rfl, hn'⟩ := hmore lt hn
    obtain ⟨d, hd⟩ : ∃ d, pagesPerEu = d + 1 := ⟨pagesPerEu - 1, by omega⟩
    have hsame := hc.others (euAt slot k) (by
      rw [← Nat.add_zero (euAt slot k), getSlot_euAt lt hpos]
      exact hne)
    have hgood : s.flash.good (euAt slot k) = true :=
      (Flash.good_congr hc.badEu _).trans good
    have hgood' : s.flash.good (euAt newSlot j) = true :=
      (Flash.good_congr hc.badEu _).trans good'
    have hno : ¬f.EuUsed (euAt slot k) := by
      intro hused
      rw [hused.2] at unused
      exact absurd unused Bool.true_eq_false.mp
    rw [hd, ← Nat.add_assoc]
    refine hround hfrom hto lt lt' ?_
    rw [wp_ok_iff (chooseEus_unused hslot lt hfrom hto hnew.lt lt' hgood (by rw [hsame.1]; exact unused)
      hgood')]
    exact ih hnew (n' + d) (by omega) hc (hmap.skip hno) rfl rfl
  | @used k j i lt used le lt' bad good' h ih =>
    obtain ⟨n', rfl, hn'⟩ := hmore lt hn
    obtain ⟨d, hd⟩ : ∃ d, pagesPerEu = d + 1 := ⟨pagesPerEu - 1, by omega⟩
    have hgoods : ∀ a, s.flash.good a = f.good a := Flash.good_congr hc.badEu
    have hsame := hc.others (euAt slot k) (by
      rw [← Nat.add_zero (euAt slot k), getSlot_euAt lt hpos]
      exact hne)
    have heus : euAt slot k ≠ euAt newSlot i := fun he => hne (euAt_inj lt lt' he).1
    have hused : s.flash.EuUsed (euAt slot k) := by
      unfold Flash.EuUsed
      rw [hgoods, hsame.1]
      exact used
    -- the target was not written before
    have hfresh : ∀ o < pagesPerEu, s.flash.page (euAt newSlot i + o) = initBuf ∧
        s.flash.mainAreaWrites (euAt newSlot i + o) = false := by
      intro o ho
      have hnone : src i = none := by
        rw [Option.eq_none_iff_forall_ne_some]
        intro e' he
        exact absurd (hmap.lt he) (Nat.not_lt.mpr le)
      obtain ⟨hpage, hwrites⟩ := hc.kept lt' hnone o ho
      rw [hpage, hwrites]
      exact hblank i lt' good' o ho
    rw [hd, ← Nat.add_assoc]
    refine hround hfrom hto lt (by omega) ?_
    rw [wp_ok_iff (chooseEus_used hslot lt hfrom hto hnew.lt le lt'
      (fun e hle hlt => (hgoods _).trans (bad e hle hlt)) ((hgoods _).trans good') hused),
      copyReserveRound, wp_bind]
    refine wp_copyReservePage hE (isEu_euAt hslot lt) (isEu_euAt hnew.lt lt') heus hpos hfresh
      (fun hs => hs.ne_data hnew lt' hpos) (EuCopy.refl _ _ _) fun t hon ht => ?_
    have hadv : ({ ws with
        fromPhyAddr := euAt slot k
        toPhyAddr := euAt newSlot i
        toPageOffset := i * pagesPerEu
        isToReserve := false } : WearState).advance = ⟨euAt slot k + 1, euAt newSlot i + 1,
          k * pagesPerEu + 1, i * pagesPerEu + 1, false⟩ := by
      rw [WearState.advance, hfrom]
    rw [hadv]
    refine wp_copyReserveEu hE hslot (by rw [hon.segMap]; exact hnew) hne lt lt' hfresh n' d
      (by omega) Nat.one_ne_zero ht fun u hu hcopy => ?_
    let next : WearState := ⟨euAt slot k + pagesPerEu, euAt newSlot i + pagesPerEu,
      (k + 1) * pagesPerEu, (i + 1) * pagesPerEu, false⟩
    have hnext := @ih u (by rw [hu.segMap, hon.segMap]; exact hnew) n' hn' _
      (hc.copy hne lt lt' hnew.lt hcopy) (hmap.copy lt used le lt' bad good') next rfl rfl
    refine wp_mono hnext (fun r v hv => ⟨hv.1, (hon.trans hu).trans hv.2.1, hv.2.2⟩)
      fun _ _ he => he

end Loop

end NandFs
