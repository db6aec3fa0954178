import NandFs.SegMapFrame

/-! # Rules for the driver

Weakest preconditions of the reads of the chip, and what an erase, a program and a bad mark
keep of a property that all its pages share.
-/
namespace NandFs

open Program

variable [Config]

section Rules
variable {E : Halt → World → Prop} {s : World} {a : Nat}

theorem wp_assert {Q : Unit → World → Prop} {test : Bool} (hq : test = true → Q () s)
    (he : E .abort s) : wp (assert test) Q E s := by
  unfold assert
  exact wp_ite hq fun _ => he

theorem wp_getFp {Q : Unit → World → Prop} (hq : a < simulatedPages → Q () s)
    (he : E .abort s) : wp (getFp a) Q E s :=
  wp_assert (fun h => hq (of_decide_eq_true h)) he

/-- A read returns the page, or fails beyond the chip. -/
theorem wp_nandReadPageTotal {Q : Option Page → World → Prop}
    (hq : a < pageCount → Q (some (s.flash.page a)) s) (hn : pageCount ≤ a → Q none s)
    (he : E .abort s) : wp (nandReadPageTotal a) Q E s := by
  unfold nandReadPageTotal
  rw [wp_bind]
  exact wp_getFp (fun _ => wp_ite hn fun h => hq (by omega)) he

theorem wp_nandReadPageFlags {Q : Flags → World → Prop}
    (hq : a < pageCount → Q (s.flash.page a).flags s) (he : E .abort s) :
    wp (nandReadPageFlags a) Q E s := by
  unfold nandReadPageFlags
  rw [wp_bind]
  refine wp_getFp (fun _ => ?_) he
  rw [wp_bind]
  exact wp_assert (fun h => hq (of_decide_eq_true h)) he

theorem wp_nandCheckEuStatus {Q : Bool → World → Prop}
    (hq : calcEuStart a < pageCount → Q (!s.flash.badEu (a / pagesPerEu)) s)
    (he : E .abort s) : wp (nandCheckEuStatus a) Q E s := by
  unfold nandCheckEuStatus
  rw [wp_bind]
  refine wp_getFp (fun _ => ?_) he
  rw [wp_bind]
  exact wp_assert (fun h => hq (of_decide_eq_true h)) he

/-! ## Programs and erases, with the power that is left -/

/-- `t` is `f` after a program of `page` at `a`, whose obsolete byte was not programmed. -/
structure Flash.Programmed (f : Flash) (page : Page) (a : Nat) (t : Flash) : Prop where
  page_eq : t.page = Function.update f.page a page
  writes : t.mainAreaWrites = Function.update f.mainAreaWrites a true
  badEu : t.badEu = f.badEu
  power : t.power = f.power.map (· - 1)

/-- `t` is `f` after an erase of the erase unit `eu`. -/
structure Flash.Erased (f : Flash) (eu : Nat) (t : Flash) : Prop where
  page_eq : ∀ a, t.page a = if calcEuStart a = eu then initBuf else f.page a
  writes : ∀ a, t.mainAreaWrites a = if calcEuStart a = eu then false else f.mainAreaWrites a
  badEu : t.badEu = f.badEu
  power : t.power = f.power.map (· - 1)

/-- Is the erase unit that starts at `eu` not marked bad. -/
def Flash.good (f : Flash) (eu : Nat) : Bool := !f.badEu (eu / pagesPerEu)

theorem Flash.good_congr {f t : Flash} (h : t.badEu = f.badEu) (a : Nat) :
    t.good a = f.good a := by
  rw [Flash.good, h, Flash.good]

theorem simulatedPages_ge : pageCount ≤ simulatedPages := le_max_right _ _

/-- The simulated chip has no page at the empty address. -/
theorem simulatedPages_le : simulatedPages ≤ phyAddressEmpty := by
  have hfile : 2 ^ (30 - Config.powPageSize) ≤ 2 ^ 30 :=
    Nat.pow_le_pow_right (by decide) (Nat.sub_le _ _)
  have := pageCount_le
  unfold phyAddressEmpty simulatedPages
  omega

theorem wp_spendPower {Q : Unit → World → Prop}
    (hq : s.flash.power ≠ some 0 →
      Q () { s with flash := { s.flash with power := s.flash.power.map (· - 1) } })
    (he : s.flash.power = some 0 → E .powerLoss s) : wp spendPower Q E s := by
  unfold spendPower
  rw [wp_bind, wp_get]
  cases hp : s.flash.power with
  | none =>
    have hsame : { s with flash := { s.flash with power := s.flash.power.map (· - 1) } } = s := by
      rw [hp, Option.map_none, ← hp]
    have hq := hq (by rw [hp]; exact Option.some_ne_none 0 |>.symm)
    rw [hsame] at hq
    exact hq
  | some n =>
    cases n with
    | zero => exact he hp
    | succ n =>
      have hq := hq (by rw [hp]; simp)
      rw [hp] at hq
      exact hq

theorem assert_run {test : Bool} (h : test = true) : assert test s = .ok () s := by
  unfold assert
  rw [if_pos h]
  rfl

theorem getFp_run (h : a < pageCount) : getFp a s = .ok () s :=
  assert_run (decide_eq_true (lt_of_lt_of_le h simulatedPages_ge))

theorem nandReadPageTotal_run (h : a < pageCount) :
    nandReadPageTotal a s = .ok (some (s.flash.page a)) s := by
  unfold nandReadPageTotal
  rw [bind_ok (getFp_run h), if_neg (by omega)]
  rfl

theorem nandReadPageFlags_run (h : a < pageCount) :
    nandReadPageFlags a s = .ok (s.flash.page a).flags s := by
  unfold nandReadPageFlags
  rw [bind_ok (getFp_run h), bind_ok (assert_run (decide_eq_true h))]
  rfl

theorem nandCheckEuStatus_run (h : a < pageCount) :
    nandCheckEuStatus a s = .ok (s.flash.good a) s := by
  have hstart : calcEuStart a < pageCount := lt_of_le_of_lt (Nat.sub_le _ _) h
  unfold nandCheckEuStatus
  rw [bind_ok (getFp_run h), bind_ok (assert_run (decide_eq_true hstart))]
  rfl

theorem nandCheckEuStatus_ok {status : Bool} {t : World}
    (h : nandCheckEuStatus a s = .ok status t) : a < pageCount ∧ status = s.flash.good a := by
  have hwp : wp (nandCheckEuStatus a) (fun status _ => a < pageCount ∧ status = s.flash.good a)
      (fun _ _ => True) s :=
    wp_nandCheckEuStatus (fun hlt => ⟨calcEuStart_lt_iff.mp hlt, rfl⟩) trivial
  rwa [wp_ok_iff h] at hwp

/-- A program of a blank page whose main area was not written since the last erase. -/
theorem wp_nandProgramTotalPage {Q : Nat → World → Prop} {page : Page} (ha : a < pageCount)
    (hclean : s.flash.mainAreaWrites a = false) (hblank : s.flash.page a = initBuf)
    (hq : ∀ t, s.flash.Programmed page a t → s.flash.power ≠ some 0 → Q 0 { s with flash := t })
    (he : s.flash.power = some 0 → E .powerLoss s) : wp (nandProgramTotalPage page a) Q E s := by
  have hpage : ∀ total, page.flags.obsolete = total → wp (seqVerify (nandProgramPageA page a total)
      (pure 0)) Q E s := by
    intro total htotal
    refine wp_seqVerify ?_
    unfold nandProgramPageA
    refine (wp_bind _ _).mpr ((wp_ok_iff (getFp_run ha)).mpr ?_)
    rw [if_neg (by omega), wp_bind, wp_get, wp_bind, wp_ok_iff (assert_run (by rw [hclean]; rfl)),
      wp_bind]
    refine wp_spendPower (fun hp => hq _ ⟨?_, rfl, rfl, rfl⟩ hp) he
    show Function.update s.flash.page a _ = _
    cases total with
    | true => simp [← htotal]
    | false => rw [hblank]; simp [initBuf, initFlags, ← htotal]
  unfold nandProgramTotalPage
  exact wp_ite (fun h => hpage true h) fun h => hpage false (Bool.eq_false_of_not_eq_true h)

/-- An erase of an erase unit that is not bad. -/
theorem wp_nandErase {Q : Nat → World → Prop} (ha : IsEu a) (hgood : s.flash.good a = true)
    (hq : ∀ t, s.flash.Erased a t → s.flash.power ≠ some 0 → Q 0 { s with flash := t })
    (he : s.flash.power = some 0 → E .powerLoss s) : wp (nandErase a) Q E s := by
  unfold nandErase
  refine (wp_bind _ _).mpr ((wp_ok_iff (getFp_run ha.lt)).mpr ?_)
  rw [if_neg (by have := ha.lt; omega), ha.calcEuStart_self, wp_bind,
    wp_ok_iff (nandCheckEuStatus_run ha.lt), hgood, if_pos rfl, wp_bind]
  exact wp_spendPower
    (fun hp => hq _ ⟨fun _ => rfl, fun _ => rfl, rfl, rfl⟩ hp) he

/-- An erase of a bad erase unit does nothing. -/
theorem nandErase_run_bad (ha : IsEu a) (hbad : s.flash.good a = false) :
    nandErase a s = .ok 0 s := by
  unfold nandErase
  rw [bind_ok (getFp_run ha.lt), if_neg (by have := ha.lt; omega), ha.calcEuStart_self,
    bind_ok (nandCheckEuStatus_run ha.lt), hbad]
  rfl

end Rules

/-! ## Properties of all pages -/

/-- Every page of the chip has `P`. -/
def AllPages (P : Page → Prop) (w : World) : Prop := ∀ a, P (w.flash.page a)

section AllPages
variable {P : Page → Prop}

theorem frame_page_spendPower : Frame (fun w : World => w.flash.page) spendPower :=
  frame_spendPower_of fun _ _ => rfl

/-- What all pages share is kept by an operation that leaves the pages alone. -/
theorem Frame.allPages {α : Type} {m : SeqM α} (h : Frame (fun w : World => w.flash.page) m) :
    Preserves (AllPages P) m :=
  h.preserves fun page => ∀ a, P (page a)

theorem preserves_nandErase (hP : P initBuf) (a : Nat) :
    Preserves (AllPages P) (nandErase a) := by
  refine preserves_bind (Frame.allPages (frame_getFp a)) fun _ =>
    preserves_ite (fun _ => preserves_pure _) fun _ => ?_
  refine preserves_bind (Frame.allPages (frame_nandCheckEuStatus _)) fun _ =>
    preserves_ite (fun _ => ?_) fun _ => preserves_pure _
  refine preserves_bind (Frame.allPages frame_page_spendPower) fun _ =>
    preserves_bind (preserves_modify fun w hw b => ?_) fun _ => preserves_pure _
  show P (if calcEuStart b = calcEuStart a then initBuf else w.flash.page b)
  by_cases h : calcEuStart b = calcEuStart a
  · rw [if_pos h]; exact hP
  · rw [if_neg h]; exact hw b

theorem preserves_nandProgramTotalPage {page : Page}
    (hP : ∀ obsolete, P { page with flags := { page.flags with obsolete := obsolete } }) (a : Nat) :
    Preserves (AllPages P) (nandProgramTotalPage page a) := by
  have hprog : ∀ total, Preserves (AllPages P) (nandProgramPageA page a total) := by
    intro total
    refine preserves_bind (Frame.allPages (frame_getFp a)) fun _ =>
      preserves_ite (fun _ => preserves_pure _) fun _ => preserves_bind preserves_get fun w => ?_
    refine preserves_bind (Frame.allPages (frame_assert _)) fun _ =>
      preserves_bind (Frame.allPages frame_page_spendPower) fun _ =>
      preserves_bind (preserves_modify fun w hw b => ?_) fun _ => preserves_pure _
    show P (Function.update w.flash.page a _ b)
    by_cases h : b = a
    · rw [h, Function.update_self]; exact hP _
    · rw [Function.update_of_ne h]; exact hw b
  have hverify : ∀ total, Preserves (AllPages P)
      (seqVerify (nandProgramPageA page a total) (pure 0)) := fun total =>
    preserves_bind (hprog total) fun _ =>
      preserves_ite (fun _ => preserves_pure _) fun _ => preserves_pure _
  exact preserves_ite (fun _ => hverify true) fun _ => hverify false

end AllPages

end NandFs
