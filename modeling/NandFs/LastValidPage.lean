import NandFs.Boot
import NandFs.Format
import NandFs.SlotPrograms

/-! # The last page written to a slot

`findLastValidPageInSlot` searches the erase units of a slot, and `findLastValidPageInEU` the pages
of the one that it finds, each with a binary search.  In a slot whose pages are written from the
first one on, the last of them is found: where it lies on the chip, in its erase unit or in the
reserve erase unit that replaces it.
-/
namespace NandFs

open Program

section
variable [Config]

/-- The first `n` pages of the slot are written, and no other. -/
def Contents.WrittenTo (c : Contents) (slot n : Nat) : Prop :=
  ∀ o < pagesPerSlot, c slot o ≠ none ↔ o < n

/-- A page is used where something is stored. -/
theorem PageHolds.used_iff {f : Flash} {a : Nat} {st : Option Stored} (h : PageHolds f a st) :
    isPageUsed (f.page a).flags = true ↔ st ≠ none := by
  cases st with
  | none =>
    have hblank : f.page a = initBuf := h.1
    rw [hblank]
    exact iff_of_false Bool.false_ne_true fun hne => hne rfl
  | some st => exact iff_of_true h.2.used (Option.some_ne_none st)

/-- The pages of an erase unit that are written come first. -/
theorem Layout.writtenPages {f : Flash} {m : SegMap} {c : Contents} {slot e home n : Nat}
    (h : Layout f m c) (hslot : m.IsDataSlot slot) (he : e < eusPerSlot) (hw : c.WrittenTo slot n)
    (hh : IsHome f m slot e home) :
    (∀ i < min (n - e * pagesPerEu) pagesPerEu,
        isPageUsed (f.page (home + i)).flags = true) ∧
      EuPages f home (fun i => f.page (home + i)) (min (n - e * pagesPerEu) pagesPerEu) := by
  have hholds := fun i hi => h.holds hslot he hh i hi
  refine ⟨fun i hi => ?_, fun i hi => ?_⟩
  · have hlt : i < pagesPerEu := by omega
    exact (hholds i hlt).used_iff.mpr ((hw _ (offset_lt he hlt)).mpr (by omega))
  · by_cases hlt : i < min (n - e * pagesPerEu) pagesPerEu
    · rw [if_pos hlt]
    · rw [if_neg hlt]
      have hpage := hholds i hi
      cases hst : c slot (e * pagesPerEu + i) with
      | none =>
        rw [hst] at hpage
        exact hpage.1
      | some st =>
        have := (hw _ (offset_lt he hi)).mp (by rw [hst]; exact Option.some_ne_none st)
        omega

/-- A page holds one thing only. -/
theorem PageHolds.unique {f : Flash} {a : Nat} {st st' : Option Stored} (h : PageHolds f a st)
    (h' : PageHolds f a st') : st = st' := by
  cases st with
  | none =>
    cases st' with
    | none => rfl
    | some st' => exact absurd (h'.used_iff.mpr (Option.some_ne_none _)) fun hu => h.used_iff.mp hu rfl
  | some st =>
    cases st' with
    | none => exact absurd (h.used_iff.mpr (Option.some_ne_none _)) fun hu => h'.used_iff.mp hu rfl
    | some st' => exact congrArg some (h.1.symm.trans h'.1)

/-- A chip holds the contents of its data slots in one way. -/
theorem Layout.contents_unique {f : Flash} {m : SegMap} {c c' : Contents} {slot o : Nat}
    (h : Layout f m c) (h' : Layout f m c') (hslot : m.IsDataSlot slot) (ho : o < pagesPerSlot) :
    c slot o = c' slot o := by
  by_cases hc : c slot o = none
  · by_cases hc' : c' slot o = none
    · rw [hc, hc']
    · obtain ⟨home, hh⟩ := h'.exists_home hslot ho hc'
      exact (h.holds_at hslot ho hh).unique (h'.holds_at hslot ho hh)
  · obtain ⟨home, hh⟩ := h.exists_home hslot ho hc
    exact (h.holds_at hslot ho hh).unique (h'.holds_at hslot ho hh)

/-! ## In an erase unit -/

section InEu
variable {w : World} {eu m : Nat}

/-- The first `m` pages of the erase unit are used, and no other. -/
def UsedTo (f : Flash) (eu m : Nat) : Prop :=
  ∀ i < pagesPerEu, isPageUsed (f.page (eu + i)).flags = true ↔ i < m

/-- What remains of the erase unit to search: a used page at the start, and an unused one at the end
unless that is the last page. -/
theorem lastValidPageInEuLoop_run (heu : IsEu eu) (h : UsedTo w.flash eu m) {k i j : Nat}
    (hi : i < m) (hj : j < pagesPerEu) (hend : j + 1 = pagesPerEu ∨ m ≤ j) (hij : i ≤ j)
    (hk : j - i ≤ 2 ^ k) : ∃ i' j', i' < m ∧ j' < pagesPerEu ∧ (j' + 1 = pagesPerEu ∨ m ≤ j') ∧
      i' ≤ j' ∧ j' ≤ i' + 1 ∧
      lastValidPageInEuLoop k (eu + i) (eu + j) w = .ok (eu + i', eu + j') w := by
  induction k generalizing i j with
  | zero => exact ⟨i, j, hi, hj, hend, hij, by omega, rfl⟩
  | succ k ih =>
    have hmid : (eu + i + (eu + j)) / 2 = eu + (i + j) / 2 := by omega
    have hlt : (i + j) / 2 < pagesPerEu := by omega
    rw [Nat.pow_succ] at hk
    unfold lastValidPageInEuLoop
    rw [hmid, bind_ok (nandReadPageTotal_run (heu.add_lt hlt))]
    dsimp only
    by_cases hused : isPageUsed (w.flash.page (eu + (i + j) / 2)).flags = true
    · rw [if_pos hused]
      exact ih ((h _ hlt).mp hused) hj hend (by omega) (by omega)
    · rw [if_neg hused]
      have hge : m ≤ (i + j) / 2 := Nat.le_of_not_lt fun hm => hused ((h _ hlt).mpr hm)
      exact ih hi hlt (.inr hge) (by omega) (by omega)

/-- `findLastValidPageInEU` -/
theorem findLastValidPageInEU_run (heu : IsEu eu) (h : UsedTo w.flash eu m) (hpos : 0 < m)
    (hle : m ≤ pagesPerEu) : findLastValidPageInEU eu w = .ok (eu + (m - 1)) w := by
  have hppe := pagesPerEu_pos
  obtain ⟨i, j, hi, hj, hend, hij, hji, hrun⟩ :=
    lastValidPageInEuLoop_run (k := Config.powPagesPerEu) (i := 0) (j := maxEuOffset) heu h hpos
      (Nat.sub_lt hppe Nat.one_pos) (.inl (Nat.sub_add_cancel hppe)) (Nat.zero_le _)
      (by show pagesPerEu - 1 - 0 ≤ pagesPerEu; omega)
  rw [Nat.add_zero] at hrun
  unfold findLastValidPageInEU
  rw [bind_ok hrun]
  dsimp only
  rw [bind_ok (nandReadPageTotal_run (heu.add_lt hj))]
  dsimp only
  by_cases hused : isPageUsed (w.flash.page (eu + j)).flags = true
  · have hlt := (h j hj).mp hused
    obtain rfl : j = m - 1 := by omega
    rw [if_pos hused]
    rfl
  · have hge : m ≤ j := Nat.le_of_not_lt fun hm => hused ((h j hj).mpr hm)
    obtain rfl : i = m - 1 := by omega
    rw [if_neg hused]
    rfl

end InEu

/-! ## In a slot -/

/-- Erase units of a slot lie one behind the other. -/
theorem euAt_add (slot a b : Nat) : euAt slot (a + b) = euAt slot a + b * pagesPerEu := by
  rw [euAt, euAt, calcAddress_eq, calcAddress_eq, Nat.add_mul]
  omega

/-- Half way between two erase units, rounded down to one. -/
theorem calcEuStart_mid {slot a b : Nat} (hslot : slot < nSlots) (ha : a ≤ b) (hb : b < eusPerSlot) :
    calcEuStart ((euAt slot a + euAt slot b) / 2) = euAt slot ((a + b) / 2) := by
  obtain ⟨p, -, hp⟩ := pagesPerEu_even
  have hppe := pagesPerEu_pos
  obtain ⟨d, rfl⟩ := Nat.exists_eq_add_of_le ha
  -- the distance from the erase unit in the middle is no erase unit, or half of one
  have hsum : (euAt slot a + euAt slot (a + d)) / 2 = euAt slot (a + d / 2) + d % 2 * p := by
    have hd : d * pagesPerEu = 2 * (d / 2 * pagesPerEu + d % 2 * p) := by
      conv_lhs => rw [← Nat.div_add_mod d 2]
      rw [hp]
      ring
    rw [euAt_add, euAt_add, hd]
    omega
  have hmid : (a + (a + d)) / 2 = a + d / 2 := by omega
  have hlt : d % 2 * p < pagesPerEu := by
    rcases Nat.mod_two_eq_zero_or_one d with h0 | h1
    · rw [h0, Nat.zero_mul]
      exact hppe
    · rw [h1, Nat.one_mul]
      omega
  rw [hmid, hsum, (isEu_euAt hslot (by omega)).calcEuStart_add hlt]

/-! ## In a slot with replaced erase units -/

/-- The erase unit that holds the pages of erase unit `eu` of the slot: that one or, if it is
bad, the one that its addresses are translated to. -/
def World.homeOf (w : World) (slot eu : Nat) : Option Nat :=
  if w.flash.good (euAt slot eu) then some (euAt slot eu) else w.reserveOf (euAt slot eu)

/-- The first `n` pages of the slot are used, and no other, in the erase units of the slot or in
those that replace the bad ones; a bad one without a used page has no replacement. -/
structure World.WrittenSlot (w : World) (slot n : Nat) : Prop where
  lt : slot < nSlots
  reserves : w.segMap.ReservesInChip
  written : ∀ e < eusPerSlot, e * pagesPerEu < n →
    ∃ home, w.homeOf slot e = some home ∧ UsedTo w.flash home (n - e * pagesPerEu)
  behind : ∀ e < eusPerSlot, n ≤ e * pagesPerEu →
    if w.flash.good (euAt slot e) then UsedTo w.flash (euAt slot e) 0
    else w.reserveOf (euAt slot e) = none

theorem World.reserveOf_spec {s : World} {a r : Nat} (h : s.reserveOf a = some r) :
    s.segMap.IsReserveEu r ∧ s.flash.standsFor (calculateSlotIdAndEuOffset a) r = true :=
  ⟨SegMap.mem_reserveEus.mp (List.mem_of_find?_eq_some h), List.find?_some h⟩

theorem World.homeOf_of_good {w : World} {slot eu : Nat}
    (h : w.flash.good (euAt slot eu) = true) : w.homeOf slot eu = some (euAt slot eu) :=
  if_pos h

theorem World.homeOf_of_bad {w : World} {slot eu : Nat}
    (h : w.flash.good (euAt slot eu) = false) : w.homeOf slot eu = w.reserveOf (euAt slot eu) := by
  rw [World.homeOf, h, if_neg Bool.false_ne_true]

namespace World.WrittenSlot
variable {w : World} {slot n : Nat} (h : w.WrittenSlot slot n)
include h

theorem isEu_home {e home : Nat} (he : e < eusPerSlot) (hh : w.homeOf slot e = some home) :
    IsEu home := by
  unfold World.homeOf at hh
  split_ifs at hh with hgood
  · obtain rfl := Option.some.inj hh
    exact isEu_euAt h.lt he
  · exact h.reserves.isEu_reserve (World.reserveOf_spec hh).1

theorem reservePhysical_run {e : Nat} (he : e < eusPerSlot)
    (hbad : w.flash.good (euAt slot e) = false) :
    logicalAddressToReservePhysical (euAt slot e) w =
      .ok ((w.homeOf slot e).getD phyAddressEmpty) w := by
  rw [logicalAddressToReservePhysical_run h.reserves (isEu_euAt h.lt he), World.homeOf_of_bad hbad]

theorem validOrReserveEu_run {e : Nat} (he : e < eusPerSlot) :
    validOrReserveEu (euAt slot e) w = .ok ((w.homeOf slot e).getD phyAddressEmpty) w := by
  unfold validOrReserveEu
  rw [bind_ok (nandCheckEuStatus_run (isEu_euAt h.lt he).lt)]
  cases hgood : w.flash.good (euAt slot e) with
  | true =>
    rw [World.homeOf_of_good hgood]
    rfl
  | false => exact h.reservePhysical_run he hgood

/-- The first page of an erase unit is used where one of its pages is. -/
theorem first_used {e home : Nat} (he : e < eusPerSlot) (hlt : e * pagesPerEu < n)
    (hh : w.homeOf slot e = some home) : isPageUsed (w.flash.page home).flags = true := by
  obtain ⟨home', hh', hused⟩ := h.written e he hlt
  obtain rfl := Option.some.inj (hh.symm.trans hh')
  exact (hused 0 pagesPerEu_pos).mpr (by omega)

/-- `isUsedEU` of an erase unit with a used page. -/
theorem isUsedEU_run {e home : Nat} (he : e < eusPerSlot) (hlt : e * pagesPerEu < n)
    (hh : w.homeOf slot e = some home) : isUsedEU (euAt slot e) w = .ok (some home) w := by
  have hrun := h.validOrReserveEu_run he
  rw [hh] at hrun
  have hiseu := h.isEu_home he hh
  unfold isUsedEU
  rw [bind_ok hrun, Option.getD_some, if_neg hiseu.ne_empty, bind_ok (nandReadPageTotal_run hiseu.lt)]
  dsimp only
  rw [if_pos (h.first_used he hlt hh)]
  rfl

/-- `isUsedEU` of an erase unit without a used page. -/
theorem isUsedEU_run_behind {e : Nat} (he : e < eusPerSlot) (hle : n ≤ e * pagesPerEu) :
    isUsedEU (euAt slot e) w = .ok none w := by
  have hrun := h.validOrReserveEu_run he
  have hbehind := h.behind e he hle
  unfold isUsedEU
  rw [bind_ok hrun]
  cases hgood : w.flash.good (euAt slot e) with
  | false =>
    rw [hgood, if_neg Bool.false_ne_true] at hbehind
    rw [World.homeOf_of_bad hgood, hbehind]
    rfl
  | true =>
    rw [hgood, if_pos rfl] at hbehind
    have hiseu := isEu_euAt h.lt he
    have hunused : ¬isPageUsed (w.flash.page (euAt slot e)).flags = true := fun hu =>
      absurd ((hbehind 0 pagesPerEu_pos).mp hu) (Nat.lt_irrefl 0)
    rw [World.homeOf_of_good hgood, Option.getD_some, if_neg hiseu.ne_empty,
      bind_ok (nandReadPageTotal_run hiseu.lt)]
    dsimp only
    rw [if_neg hunused]
    rfl

/-- A round of the search looks at the erase unit half way and goes on behind it if it has a used
page, else before it. -/
theorem loop_step {a b : Nat} (hab : a + 1 < b) (hb : b < eusPerSlot) (last : Nat) :
    ∃ last', ∀ k, lastValidPageInSlotLoop (k + 1) (euAt slot a) (euAt slot b) last w =
      if (a + b) / 2 * pagesPerEu < n
      then lastValidPageInSlotLoop k (euAt slot ((a + b) / 2)) (euAt slot b) last' w
      else lastValidPageInSlotLoop k (euAt slot a) (euAt slot ((a + b) / 2)) last w := by
  have hfar : pagesPerEu < euAt slot b - euAt slot a := by
    obtain ⟨d, rfl⟩ := Nat.exists_eq_add_of_le (Nat.le_of_lt (Nat.lt_of_succ_lt hab))
    have := Nat.mul_le_mul_right pagesPerEu (show 2 ≤ d by omega)
    have := pagesPerEu_pos
    rw [euAt_add]
    omega
  have hstart := calcEuStart_mid h.lt (show a ≤ b by omega) hb
  have hmid : (a + b) / 2 < eusPerSlot := by omega
  generalize (a + b) / 2 = mid at hstart hmid ⊢
  have hmidEu := isEu_euAt h.lt hmid
  cases hgood : w.flash.good (euAt slot mid) with
  | true =>
    have hhome := World.homeOf_of_good hgood
    refine ⟨euAt slot mid, fun k => ?_⟩
    rw [lastValidPageInSlotLoop, hstart, if_pos hfar, bind_ok (nandCheckEuStatus_run hmidEu.lt),
      hgood, if_pos rfl, bind_ok (nandReadPageTotal_run hmidEu.lt)]
    dsimp only
    by_cases hlt : mid * pagesPerEu < n
    · rw [if_pos (h.first_used hmid hlt hhome), if_pos hlt]
    · have hbehind := h.behind mid hmid (Nat.le_of_not_lt hlt)
      rw [hgood, if_pos rfl] at hbehind
      have hunused : ¬isPageUsed (w.flash.page (euAt slot mid)).flags = true := fun hu =>
        absurd ((hbehind 0 pagesPerEu_pos).mp hu) (Nat.lt_irrefl 0)
      rw [if_neg hunused, if_neg hlt]
  | false =>
    refine ⟨(w.homeOf slot mid).getD phyAddressEmpty, fun k => ?_⟩
    rw [lastValidPageInSlotLoop, hstart, if_pos hfar, bind_ok (nandCheckEuStatus_run hmidEu.lt),
      hgood, if_neg Bool.false_ne_true, bind_ok (h.reservePhysical_run hmid hgood)]
    by_cases hlt : mid * pagesPerEu < n
    · obtain ⟨home, hh, -⟩ := h.written mid hmid hlt
      rw [hh, Option.getD_some, if_neg (h.isEu_home hmid hh).ne_empty, if_pos hlt]
    · have hbehind := h.behind mid hmid (Nat.le_of_not_lt hlt)
      rw [hgood, if_neg Bool.false_ne_true] at hbehind
      rw [World.homeOf_of_bad hgood, hbehind, Option.getD_none, if_pos rfl, if_neg hlt]

/-- The search ends by its own test, with two neighbours of which the first has a used page, and no
erase unit behind the second has one. -/
theorem loop_run {k a b : Nat} (last : Nat) (ha : a * pagesPerEu < n) (hb : b < eusPerSlot)
    (hend : b + 1 = eusPerSlot ∨ n ≤ b * pagesPerEu) (hab : a ≤ b) (hk : b ≤ a + k) :
    ∃ a' b' last', a' * pagesPerEu < n ∧ b' < eusPerSlot ∧
      (b' + 1 = eusPerSlot ∨ n ≤ b' * pagesPerEu) ∧ a' ≤ b' ∧ b' ≤ a' + 1 ∧
      ∀ rounds, k ≤ rounds → lastValidPageInSlotLoop rounds (euAt slot a) (euAt slot b) last w =
        .ok (euAt slot a', euAt slot b', last') w := by
  induction k generalizing a b last with
  | zero =>
    obtain rfl : b = a := by omega
    refine ⟨b, b, last, ha, hb, hend, hab, by omega, fun rounds _ => ?_⟩
    cases rounds with
    | zero => rfl
    | succ rounds =>
      rw [lastValidPageInSlotLoop, Nat.sub_self, if_neg (Nat.not_lt_zero _)]
      rfl
  | succ k ih =>
    by_cases hnear : b ≤ a + 1
    · refine ⟨a, b, last, ha, hb, hend, hab, hnear, fun rounds hrounds => ?_⟩
      obtain ⟨rounds, rfl⟩ := Nat.exists_eq_succ_of_ne_zero (show rounds ≠ 0 by omega)
      have hstop : ¬pagesPerEu < euAt slot b - euAt slot a := by
        obtain ⟨d, rfl⟩ := Nat.exists_eq_add_of_le hab
        have := Nat.mul_le_mul_right pagesPerEu (show d ≤ 1 by omega)
        rw [euAt_add]
        omega
      rw [lastValidPageInSlotLoop, if_neg hstop]
      rfl
    · obtain ⟨last', hstep⟩ := h.loop_step (Nat.lt_of_not_le hnear) hb last
      have hmono : ∀ {rounds}, k + 1 ≤ rounds → ∃ r, rounds = r + 1 ∧ k ≤ r := fun {rounds} hr =>
        ⟨rounds - 1, by omega, by omega⟩
      by_cases hlt : (a + b) / 2 * pagesPerEu < n
      · obtain ⟨a', b', last'', ha', hb', hend', hab', hnear', hrun⟩ :=
          ih last' hlt hb hend (by omega) (by omega)
        refine ⟨a', b', last'', ha', hb', hend', hab', hnear', fun rounds hrounds => ?_⟩
        obtain ⟨r, rfl, hr⟩ := hmono hrounds
        rw [hstep, if_pos hlt, hrun r hr]
      · obtain ⟨a', b', last'', ha', hb', hend', hab', hnear', hrun⟩ :=
          ih last ha (show (a + b) / 2 < eusPerSlot by omega) (.inr (Nat.le_of_not_lt hlt))
            (by omega) (by omega)
        refine ⟨a', b', last'', ha', hb', hend', hab', hnear', fun rounds hrounds => ?_⟩
        obtain ⟨r, rfl, hr⟩ := hmono hrounds
        rw [hstep, if_neg hlt, hrun r hr]

/-- The loop as `findLastValidPageInSlot` calls it, with any number of rounds that suffices. -/
theorem search_run (hpos : 0 < n) : ∃ a b last, a * pagesPerEu < n ∧ b < eusPerSlot ∧
    (b + 1 = eusPerSlot ∨ n ≤ b * pagesPerEu) ∧ a ≤ b ∧ b ≤ a + 1 ∧
    ∀ rounds, eusPerSlot ≤ rounds → lastValidPageInSlotLoop rounds (calcAddress slot 0 0)
      (calcAddress slot 0 0 + pagesPerSlot - pagesPerEu) (calcAddress slot 0 0) w =
        .ok (euAt slot a, euAt slot b, last) w := by
  have heus := eusPerSlot_pos
  have hend : calcAddress slot 0 0 + pagesPerSlot - pagesPerEu = euAt slot (eusPerSlot - 1) := by
    have hzero : calcAddress slot 0 0 = euAt slot 0 := rfl
    rw [hzero, ← Nat.zero_add (eusPerSlot - 1), euAt_add, pagesPerSlot_eq, Nat.sub_mul, Nat.one_mul]
    have := Nat.mul_le_mul_right pagesPerEu (show 1 ≤ eusPerSlot from heus)
    omega
  rw [hend]
  exact h.loop_run (k := eusPerSlot) (a := 0) _ (by omega) (by omega) (.inl (by omega))
    (Nat.zero_le _) (by omega)

/-- `findLastValidPageInSlot` finds the last page that is used. -/
theorem findLastValidPageInSlot_run (hpos : 0 < n) (hle : n ≤ pagesPerSlot) :
    ∃ home, w.homeOf slot ((n - 1) / pagesPerEu) = some home ∧
      findLastValidPageInSlot slot w = .ok (home + (n - 1) % pagesPerEu) w := by
  have hppe := pagesPerEu_pos
  have hq : (n - 1) / pagesPerEu < eusPerSlot := div_lt_eusPerSlot (by omega)
  have hdiv := div_mul_add_mod (n - 1)
  have hmod := Nat.mod_lt (n - 1) hppe
  obtain ⟨a, b, last, ha, hb, hend, hab, hnear, hrun⟩ := h.search_run hpos
  obtain ⟨home, hh, hused⟩ := h.written _ hq (by omega)
  have hin : findLastValidPageInEU home w = .ok (home + (n - 1) % pagesPerEu) w := by
    have hm : n - (n - 1) / pagesPerEu * pagesPerEu - 1 = (n - 1) % pagesPerEu := by omega
    have hfind := findLastValidPageInEU_run (h.isEu_home hq hh) hused (by omega) (by omega)
    rwa [hm] at hfind
  have hle_iff : ∀ e, e * pagesPerEu < n ↔ e ≤ (n - 1) / pagesPerEu := fun e => by
    rw [Nat.le_div_iff_mul_le hppe]
    omega
  refine ⟨home, hh, ?_⟩
  unfold findLastValidPageInSlot
  dsimp only
  rw [bind_ok (hrun _ (Nat.le_refl _))]
  dsimp only
  by_cases hbq : b * pagesPerEu < n
  · obtain rfl : b = (n - 1) / pagesPerEu := by
      have := (hle_iff b).mp hbq
      omega
    rw [bind_ok (h.isUsedEU_run hb hbq hh)]
    exact hin
  · obtain rfl : a = (n - 1) / pagesPerEu := by
      have := (hle_iff a).mp ha
      have := mt (hle_iff b).mpr hbq
      omega
    rw [bind_ok (h.isUsedEU_run_behind hb (Nat.le_of_not_lt hbq))]
    dsimp only
    rw [bind_ok (h.isUsedEU_run hq ha hh)]
    exact hin

end World.WrittenSlot

section InSlot
variable {w : World} {c : Contents} {slot n : Nat} (h : Layout w.flash w.segMap c)
  (hslot : w.segMap.IsDataSlot slot)
include h hslot

/-- `validOrReserveEu` of an erase unit of the slot: its home. -/
theorem Layout.validOrReserveEu_home {e home : Nat} (he : e < eusPerSlot)
    (hh : IsHome w.flash w.segMap slot e home) : validOrReserveEu (euAt slot e) w = .ok home w := by
  unfold validOrReserveEu
  rw [bind_ok (nandCheckEuStatus_run (isEu_euAt hslot.lt he).lt)]
  cases hgood : w.flash.good (euAt slot e) with
  | true =>
    cases hh with
    | self => rfl
    | reserve bad =>
      rw [hgood] at bad
      exact absurd bad Bool.true_eq_false.mp
  | false =>
    have hrun := h.reservePhysical_run hslot hgood he hh pagesPerEu_pos
    rw [Nat.add_zero, Nat.add_zero] at hrun
    exact hrun

/-- `validOrReserveEu` of a blank erase unit of the slot. -/
theorem Layout.validOrReserveEu_blank {e : Nat} (he : e < eusPerSlot) (hblank : c.EuBlank slot e) :
    validOrReserveEu (euAt slot e) w =
      .ok (if w.flash.good (euAt slot e) then euAt slot e else phyAddressEmpty) w := by
  unfold validOrReserveEu
  rw [bind_ok (nandCheckEuStatus_run (isEu_euAt hslot.lt he).lt)]
  cases hgood : w.flash.good (euAt slot e) with
  | true => rfl
  | false =>
    have hrun := h.reservePhysical_run_blank hslot hgood he hblank pagesPerEu_pos
    rw [Nat.add_zero] at hrun
    exact hrun

variable (hw : c.WrittenTo slot n)
include hw

/-- The pages of an erase unit of the slot that are used. -/
theorem Layout.usedTo {e home : Nat} (he : e < eusPerSlot) (hh : IsHome w.flash w.segMap slot e home) :
    UsedTo w.flash home (n - e * pagesPerEu) := by
  intro i hi
  rw [(h.holds hslot he hh i hi).used_iff, hw _ (offset_lt he hi)]
  omega

omit hw in
/-- An erase unit is translated to its home. -/
theorem Layout.homeOf_eq_some {e home : Nat} (he : e < eusPerSlot)
    (hh : IsHome w.flash w.segMap slot e home) : w.homeOf slot e = some home := by
  cases hh with
  | self good => exact World.homeOf_of_good good
  | reserve bad mem stands =>
    rw [World.homeOf_of_bad bad, h.reserveOf_eq_some hslot he mem stands]

/-- The slot is written as `findLastValidPageInSlot` expects it. -/
theorem Layout.writtenSlot : w.WrittenSlot slot n where
  lt := hslot.lt
  reserves := h.reserves
  written e he hlt := by
    have hhome : ∃ home, IsHome w.flash w.segMap slot e home := by
      cases hgood : w.flash.good (euAt slot e) with
      | true => exact ⟨_, .self hgood⟩
      | false =>
        refine (h.replaced hslot he hgood).mpr fun hblank => ?_
        exact (hw _ (offset_lt he pagesPerEu_pos)).mpr hlt (hblank 0 pagesPerEu_pos)
    obtain ⟨home, hh⟩ := hhome
    exact ⟨home, h.homeOf_eq_some hslot he hh, h.usedTo hslot hw he hh⟩
  behind e he hle := by
    cases hgood : w.flash.good (euAt slot e) with
    | true =>
      have hused := h.usedTo hslot hw he (.self hgood)
      rwa [Nat.sub_eq_zero_of_le hle] at hused
    | false =>
      rw [if_neg Bool.false_ne_true]
      refine reserveOf_eq_none fun home hmem => Bool.eq_false_iff.mpr fun hstands => ?_
      refine (h.replaced hslot he hgood).mp ⟨home, .reserve hgood hmem hstands⟩ fun i hi => ?_
      by_contra hne
      have := (hw _ (offset_lt he hi)).mp hne
      omega

/-- `findLastValidPageInSlot` finds the last page that is written. -/
theorem Layout.findLastValidPageInSlot_run (hpos : 0 < n) (hle : n ≤ pagesPerSlot) :
    ∃ home, IsHome w.flash w.segMap slot ((n - 1) / pagesPerEu) home ∧
      findLastValidPageInSlot slot w = .ok (home + (n - 1) % pagesPerEu) w := by
  have hq : (n - 1) / pagesPerEu < eusPerSlot := div_lt_eusPerSlot (by omega)
  obtain ⟨home, hh, hrun⟩ :=
    (h.writtenSlot hslot hw).findLastValidPageInSlot_run hpos hle
  have hwritten : c slot (n - 1) ≠ none := (hw _ (by omega)).mpr (by omega)
  obtain ⟨home', hh'⟩ := h.exists_home hslot (by omega) hwritten
  obtain rfl := Option.some.inj (hh.symm.trans (h.homeOf_eq_some hslot hq hh'))
  exact ⟨home, hh', hrun⟩

end InSlot

/-! ## Both searches -/

/-- The search of a slot ends by its own test and finds the last page of the prefix that is used,
in the erase unit that holds it; the search of an erase unit finds the last one there. -/
theorem World.WrittenSlot.findLastValidPage {w : World} {slot n : Nat} (h : w.WrittenSlot slot n)
    (hpos : 0 < n) (hle : n ≤ pagesPerSlot) :
    (∃ startEu endEu lastUsedEu, startEu ≤ endEu ∧ endEu - startEu ≤ pagesPerEu ∧
      ∀ rounds, eusPerSlot ≤ rounds → lastValidPageInSlotLoop rounds (calcAddress slot 0 0)
        (calcAddress slot 0 0 + pagesPerSlot - pagesPerEu) (calcAddress slot 0 0) w =
          .ok (startEu, endEu, lastUsedEu) w) ∧
    (∃ home, w.homeOf slot ((n - 1) / pagesPerEu) = some home ∧
      findLastValidPageInSlot slot w = .ok (home + (n - 1) % pagesPerEu) w) ∧
    ∀ eu m, IsEu eu → UsedTo w.flash eu m → 0 < m → m ≤ pagesPerEu →
      findLastValidPageInEU eu w = .ok (eu + (m - 1)) w := by
  refine ⟨?_, h.findLastValidPageInSlot_run hpos hle, fun eu m heu hused hm hmle =>
    findLastValidPageInEU_run heu hused hm hmle⟩
  obtain ⟨a, b, last, -, -, -, hab, hnear, hrun⟩ := h.search_run hpos
  obtain ⟨d, rfl⟩ := Nat.exists_eq_add_of_le hab
  have := Nat.mul_le_mul_right pagesPerEu (show d ≤ 1 by omega)
  exact ⟨_, _, last, by rw [euAt_add]; omega, by rw [euAt_add]; omega, hrun⟩

end

section TinyPage
attribute [local instance] tinyPage

/-- The first erase unit of slot 0 is bad, the one at page 60 stands for it and is used, and so is
the first page of the second erase unit of the slot. -/
def replacedWorld : World :=
  let w := erasedWorld (· == 0)
  { w with
    flash := { w.flash with
      page := fun a =>
        if 60 ≤ a then
          ⟨fun _ => 0, { initFlags with segType := .reserve }.setSlotEuOffset
            (calculateSlotIdAndEuOffset 0)⟩
        else if a = 4 then ⟨fun _ => 0, { initFlags with segType := .used }⟩
        else initBuf
      mainAreaWrites := fun a => decide (60 ≤ a) || a == 4 }
    segMap := { w.segMap with segToSlot := id } }

theorem replacedWorld_writtenSlot : replacedWorld.WrittenSlot 0 5 where
  lt := by decide
  reserves := by unfold SegMap.ReservesInChip; decide
  written
    | 0, _, _ => ⟨60, by decide, by unfold UsedTo; decide⟩
    | 1, _, _ => ⟨4, by decide, by unfold UsedTo; decide⟩
    | _ + 2, he, _ => absurd he (by have : eusPerSlot = 2 := rfl; omega)
  behind
    | 0, _, hle | 1, _, hle => absurd hle (by decide)
    | _ + 2, he, _ => absurd he (by have : eusPerSlot = 2 := rfl; omega)

theorem World.WrittenSlot.findLastValidPage_tinyPage :
    (∃ startEu endEu lastUsedEu, startEu ≤ endEu ∧ endEu - startEu ≤ pagesPerEu ∧
      ∀ rounds, eusPerSlot ≤ rounds → lastValidPageInSlotLoop rounds (calcAddress 0 0 0)
        (calcAddress 0 0 0 + pagesPerSlot - pagesPerEu) (calcAddress 0 0 0) replacedWorld =
          .ok (startEu, endEu, lastUsedEu) replacedWorld) ∧
    (∃ home, replacedWorld.homeOf 0 ((5 - 1) / pagesPerEu) = some home ∧
      findLastValidPageInSlot 0 replacedWorld =
        .ok (home + (5 - 1) % pagesPerEu) replacedWorld) ∧
    ∀ eu m, IsEu eu → UsedTo replacedWorld.flash eu m → 0 < m → m ≤ pagesPerEu →
      findLastValidPageInEU eu replacedWorld = .ok (eu + (m - 1)) replacedWorld :=
  World.WrittenSlot.findLastValidPage replacedWorld_writtenSlot (by decide) (by decide)

end TinyPage

end NandFs
