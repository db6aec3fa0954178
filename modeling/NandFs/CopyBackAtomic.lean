import NandFs.CopyBackRecovery
import NandFs.Format

/-! # Is a copy-back crash atomic?

A copy-back loses its power after any number of programs and erases, and `handleCopyBack`
runs on the chip that is left.  The pages to keep are all in the erase unit again exactly
when the power was lost before the first of them had been copied to the copy-back unit, or
after the last.
-/
namespace NandFs

open Program

section CopyBack
variable [Config]

/-! ## A copy-back that loses its power -/

/-- What the two marks that a copy-back makes in a spare area leave of its flags. -/
def Flags.unmarked (flags : Flags) : Flags :=
  { flags with copyBack := false, slotEuOffset := noSlotAndEuOffset }

/-- The same main area, and the same spare area but for the marks of the copy-back. -/
def Page.SameData (page page' : Page) : Prop :=
  page.main = page'.main ∧ page.flags.unmarked = page'.flags.unmarked

theorem sameData_copyBackImage (src : Nat → Page) (fromEu : Nat) (withCopyBackFlags : Bool)
    (orgFrom i : Nat) :
    (copyBackImage src fromEu withCopyBackFlags orgFrom i).SameData (src i) := by
  refine ⟨rfl, ?_⟩
  unfold copyBackImage copyBackFlags
  split_ifs <;> rfl

theorem Page.SameData.trans {a b c : Page} (h : a.SameData b) (h' : b.SameData c) :
    a.SameData c :=
  ⟨h.1.trans h'.1, h.2.trans h'.2⟩

theorem sameData_returned (src : Nat → Page) (org cb realOrgEu i : Nat) :
    (returned src org cb realOrgEu i).SameData (src i) :=
  (sameData_copyBackImage _ _ _ _ _).trans (sameData_copyBackImage _ _ _ _ _)

theorem Page.SameData.isPageUsed_eq {a b : Page} (h : a.SameData b) :
    isPageUsed a.flags = isPageUsed b.flags := by
  have htype : a.flags.unmarked.segType = b.flags.unmarked.segType := by rw [h.2]
  have htype : a.flags.segType = b.flags.segType := htype
  rw [isPageUsed, htype, isPageUsed]

/-- The state in which `m` leaves the chip and the globals, whether it returns or halts. -/
def stateAfter {α : Type} (m : SeqM α) (w : World) : World :=
  match m w with
  | .ok _ t => t
  | .error _ t => t

/-- `w` with the power for `n` more programs and erases. -/
def World.withPower (w : World) (n : Nat) : World :=
  { w with flash := { w.flash with power := some n } }

/-- `t` boots from the chip that `w` left, and has found the same reserve slots. -/
structure Rebooted (w t : World) : Prop where
  flash : t.flash = { w.flash with power := none }
  reserves : ∀ seg ∈ reserveSegments, t.segMap.segToSlot seg = w.segMap.segToSlot seg

/-- The argument for the original erase unit that goes with `eu`: it is given where a reserve
erase unit stands for `eu`. -/
def realOrgEu (w : World) (eu : Nat) : Nat := if w.flash.good eu then phyAddressEmpty else eu

/-- A copy-back of the erase unit `eu` can begin: `org`, which is `eu` or the one reserve
erase unit that stands for it, holds the pages `src` up to `p`, and the copy-back unit `cb`
is empty. -/
structure CopyBackBegins (w : World) (eu org cb : Nat) (src : Nat → Page) (p : Nat) : Prop where
  reserves : w.segMap.ReservesInChip
  isEu : IsEu eu
  copybackEu : getCopybackEu w = .ok cb w
  cb_ne : cb ≠ phyAddressEmpty
  home : validOrReserveEu eu w = .ok org w
  org_ne : org ≠ phyAddressEmpty
  ne : org ≠ cb
  le : p ≤ pagesPerEu
  used : ∀ i < p, isPageUsed (src i).flags = true
  pages : EuPages w.flash org src p
  blank : ∀ i < pagesPerEu, w.flash.page (cb + i) = initBuf
  clean : EuClean w.flash cb 0
  unique : w.flash.good eu = false → ∀ e ∈ w.segMap.reserveEus (calcEuOffset eu),
    w.flash.standsFor (calculateSlotIdAndEuOffset eu) e = true → e = org

/-- A copy-back can begin, and `org` is not where the header of the reserve segment is. -/
structure CopyBackReady (w : World) (eu org cb : Nat) (src : Nat → Page) (p : Nat) : Prop
    extends CopyBackBegins w eu org cb src p where
  header : w.flash.good eu = false →
    org ≠ w.flash.validEuAt (w.segMap.segToSlot firstReserveSegment) 1

/-- After a boot in `t` the pages `src` up to `m` are in the erase unit `eu` again, and the
copy-back unit is empty. -/
def BootRecovers (eu cb : Nat) (src : Nat → Page) (m : Nat) (t : World) : Prop :=
  ∃ r u, handleCopyBack t = .ok r u ∧ r.1 = 0 ∧
    (∀ i < pagesPerEu, u.flash.page (cb + i) = initBuf) ∧
    ∃ home, validOrReserveEu eu u = .ok home u ∧
      ∀ i < m, (u.flash.page (home + i)).SameData (src i)

/-- That after a copy-back of the first `n` of the `p` pages that `org` holds, which lost its
power after `j` programs and erases. -/
def CopyBackRecovers (w : World) (eu org cb : Nat) (src : Nat → Page) (p n j : Nat) : Prop :=
  ∀ t, Rebooted (stateAfter (copyBackSimple cb (org + n) false (realOrgEu w eu)) (w.withPower j)) t →
    BootRecovers eu cb src (min n p) t

namespace CopyBackBegins
variable {w : World} {eu org cb : Nat} {src : Nat → Page} {p : Nat}
  (h : CopyBackBegins w eu org cb src p)
include h

theorem cb_eq : w.flash.validEuAt (w.segMap.segToSlot firstReserveSegment) 2 = cb := by
  have hrun := h.copybackEu
  rw [getCopybackEu_run h.reserves] at hrun
  exact (EStateM.Result.ok.inj hrun).1

theorem cb_mem : cb ∈ slotEus (w.segMap.segToSlot firstReserveSegment) ∧ w.flash.good cb = true := by
  have hne := h.cb_ne
  rw [← h.cb_eq] at hne ⊢
  exact Flash.validEuAt_spec hne

theorem isEu_cb : IsEu cb := isEu_of_mem_slotEus (h.reserves _ firstReserveSegment_mem) h.cb_mem.1

theorem home_cases : w.flash.good eu = true ∧ org = eu ∨
    w.flash.good eu = false ∧ w.reserveOf eu = some org := by
  cases hgood : w.flash.good eu with
  | true =>
    have hrun := h.home
    rw [validOrReserveEu_run_good h.isEu hgood] at hrun
    exact .inl ⟨rfl, (EStateM.Result.ok.inj hrun).1.symm⟩
  | false =>
    refine .inr ⟨rfl, ?_⟩
    have hrun := h.home
    unfold validOrReserveEu at hrun
    rw [bind_ok (nandCheckEuStatus_run h.isEu.lt), hgood, if_neg Bool.false_ne_true,
      logicalAddressToReservePhysical_run h.reserves h.isEu] at hrun
    have heq := (EStateM.Result.ok.inj hrun).1
    cases hres : w.reserveOf eu with
    | none =>
      rw [hres] at heq
      exact absurd heq.symm h.org_ne
    | some e =>
      rw [hres] at heq
      exact congrArg some heq

theorem isEu_org : IsEu org := by
  rcases h.home_cases with ⟨-, rfl⟩ | ⟨-, hres⟩
  · exact h.isEu
  · exact h.reserves.isEu (List.mem_of_find?_eq_some hres)

theorem good_org : w.flash.good org = true := by
  rcases h.home_cases with ⟨hgood, rfl⟩ | ⟨-, hres⟩
  · exact hgood
  · exact (Flash.standsFor_iff.mp (List.find?_some hres)).1

/-- The state a copy-back leaves when the power goes after `j` operations. -/
theorem stateAfter_spec {n : Nat} (hn : n < pagesPerEu) (j : Nat) :
    ∃ k, CopyBackState (w.withPower j) org cb (realOrgEu w eu) src p (min n p) k
        (stateAfter (copyBackSimple cb (org + n) false (realOrgEu w eu)) (w.withPower j)) ∧
      (k = j ∨ 2 * min n p + 2 ≤ k ∧ k ≤ j) := by
  have hspec := copyBackSimple_spec (w.withPower j) (realOrgEu w eu) h.isEu_org h.isEu_cb h.ne
    h.good_org h.cb_mem.2 h.used h.le hn h.pages (fun i hi => h.blank i hi) h.clean
  unfold stateAfter
  cases hrun : copyBackSimple cb (org + n) false (realOrgEu w eu) (w.withPower j) with
  | ok res t =>
    obtain ⟨-, k, hspent, hstate, hle⟩ := of_wp_ok hspec hrun
    refine ⟨k, hstate, .inr ⟨hle, ?_⟩⟩
    have hspent : some j = t.flash.power.map (· + k) := hspent
    cases hp : t.flash.power with
    | none => rw [hp] at hspent; exact absurd hspent (by simp)
    | some r =>
      rw [hp, Option.map_some, Option.some_inj] at hspent
      omega
  | error e t =>
    obtain ⟨-, hpow, k, hspent, hstate⟩ := of_wp_error hspec hrun
    refine ⟨k, hstate, .inl ?_⟩
    have hspent : some j = t.flash.power.map (· + k) := hspent
    rw [hpow, Option.map_some, Option.some_inj] at hspent
    omega

end CopyBackBegins

/-! ## The chip at the next boot -/

/-- `t` is a boot on the chip of `w`, with any pages in the two erase units of a copy-back. -/
structure Resumed (w : World) (org cb : Nat) (t : World) : Prop where
  page : ∀ a, calcEuStart a ≠ org → calcEuStart a ≠ cb → t.flash.page a = w.flash.page a
  badEu : t.flash.badEu = w.flash.badEu
  power : t.flash.power = none
  reserves : ∀ seg ∈ reserveSegments, t.segMap.segToSlot seg = w.segMap.segToSlot seg

theorem Elsewhere.resumed {w w₁ t : World} {org cb j : Nat} (h : Elsewhere (w.withPower j) org cb w₁)
    (ht : Rebooted w₁ t) : Resumed w org cb t where
  page a h1 h2 := by
    rw [ht.flash]
    exact h.page a h1 h2
  badEu := by
    rw [ht.flash]
    exact h.badEu
  power := by rw [ht.flash]
  reserves seg hseg := by
    rw [ht.reserves seg hseg, h.segMap]
    rfl

namespace Resumed
variable {w t : World} {org cb : Nat} (h : Resumed w org cb t)
include h

theorem good (a : Nat) : t.flash.good a = w.flash.good a :=
  Flash.good_congr h.badEu _

theorem reservesInChip (hw : w.segMap.ReservesInChip) : t.segMap.ReservesInChip :=
  fun seg hseg => by rw [h.reserves seg hseg]; exact hw seg hseg

theorem validEuAt (location : Nat) :
    t.flash.validEuAt (t.segMap.segToSlot firstReserveSegment) location =
      w.flash.validEuAt (w.segMap.segToSlot firstReserveSegment) location := by
  rw [h.reserves _ firstReserveSegment_mem, Flash.validEuAt, Flash.validEuAt, funext h.good]

theorem reserveEus (euOffset : Nat) : t.segMap.reserveEus euOffset = w.segMap.reserveEus euOffset :=
  SegMap.reserveEus_congr h.reserves euOffset

end Resumed

namespace CopyBackBegins
variable {w t : World} {eu org cb : Nat} {src : Nat → Page} {p q : Nat}
  (h : CopyBackBegins w eu org cb src p) (ht : Resumed w org cb t)
include h ht

theorem idle (hblank : t.flash.page cb = initBuf) : handleCopyBack t = .ok (0, false) t :=
  handleCopyBack_idle (ht.reservesInChip h.reserves) (by rw [ht.validEuAt, h.cb_eq]) h.cb_ne hblank

/-- The copy-back unit holds pages of `eu`. -/
theorem interrupted
    (hsaved : EuPages t.flash cb (copyBackImage src org true (realOrgEu w eu)) q) (hpos : 0 < q)
    (hqp : q ≤ p) (hq : q < pagesPerEu) :
    Interrupted t eu cb (copyBackImage src org true (realOrgEu w eu)) q where
  reserves := ht.reservesInChip h.reserves
  power := ht.power
  isEu := h.isEu
  cb_eq := by rw [ht.validEuAt, h.cb_eq]
  cb_ne := h.cb_ne
  pages := hsaved
  pos := hpos
  lt := hq
  used i hi := by
    rw [isPageUsed_copyBackImage]
    exact h.used i (by omega)
  copyBack := rfl
  place := by
    have hplace : calculateSlotIdAndEuOffset eu % 2 ^ 24 = calculateSlotIdAndEuOffset eu := by
      have := calculateSlotIdAndEuOffset_lt h.isEu.lt
      exact Nat.mod_eq_of_lt (by omega)
    show calculateSlotIdAndEuOffset
      (if realOrgEu w eu = phyAddressEmpty then org + 0 else realOrgEu w eu) % 2 ^ 24 = _
    unfold realOrgEu
    rcases h.home_cases with ⟨hgood, rfl⟩ | ⟨hbad, -⟩
    · rw [hgood, if_pos rfl, if_pos rfl, Nat.add_zero, hplace]
    · rw [hbad, if_neg Bool.false_ne_true, if_neg h.isEu.ne_empty, hplace]

/-- The recovery writes back what the copy-back unit holds, no more. -/
theorem recover
    (hsaved : EuPages t.flash cb (copyBackImage src org true (realOrgEu w eu)) q) (hpos : 0 < q)
    (hqp : q ≤ p) (hq : q < pagesPerEu)
    (horg : w.flash.good eu = false →
      t.flash.standsFor (calculateSlotIdAndEuOffset eu) org = true ∨ t.flash.page org = initBuf) :
    wp handleCopyBack (fun r u =>
        ((w.flash.good eu = false →
          org ≠ w.flash.validEuAt (w.segMap.segToSlot firstReserveSegment) 1) → r.1 = 0) ∧
        (r.1 = 0 → RecoveredTo eu cb (returned src org cb (realOrgEu w eu)) q u))
      (fun _ _ => False) t := by
  have hint := h.interrupted ht hsaved hpos hqp hq
  rcases h.home_cases with ⟨hgood, rfl⟩ | ⟨hbad, hres⟩
  · have hreal : realOrgEu w org = phyAddressEmpty := by rw [realOrgEu, if_pos hgood]
    rw [hreal] at hint ⊢
    refine wp_mono (hint.recover_good ((ht.good org).trans hgood) h.ne) ?_ fun _ _ hf => hf
    exact fun r u ⟨hr, hrec⟩ => ⟨fun _ => hr, fun _ => hrec⟩
  · have hreal : realOrgEu w eu = eu := by
      rw [realOrgEu, if_neg (by rw [hbad]; exact Bool.false_ne_true)]
    rw [hreal] at hint ⊢
    have hmem := List.mem_of_find?_eq_some hres
    refine wp_mono (hint.recover_bad ((ht.good eu).trans hbad) (by rw [ht.reserveEus]; exact hmem)
      ((ht.good org).trans h.good_org) h.ne (fun e he hst => ?_) (horg hbad)) ?_ fun _ _ hf => hf
    swap
    · rw [ht.validEuAt]
      exact fun r u ⟨hr, hrec⟩ => ⟨fun hheader => hr (hheader hbad), hrec⟩
    rw [ht.reserveEus] at he
    by_contra hne
    by_cases hecb : e = cb
    · -- its first page is marked as a copy-back
      have hmark := (Flash.standsFor_iff.mp hst).2.2
      rw [hecb, hint.pages.first hpos] at hmark
      exact absurd hmark (by rw [hint.copyBack]; decide)
    · have hstart := (h.reserves.isEu he).calcEuStart_self
      refine hne (h.unique hbad e he ?_)
      rw [Flash.standsFor, ← ht.good, ← ht.page e (by rw [hstart]; exact hne)
        (by rw [hstart]; exact hecb)]
      exact hst

/-- A page that has been to the copy-back unit and back stands for `eu` as before. -/
theorem standsFor_returned (hbad : w.flash.good eu = false)
    (hpage : t.flash.page org = returned src org cb (realOrgEu w eu) 0) :
    t.flash.standsFor (calculateSlotIdAndEuOffset eu) org = true := by
  have hreal : realOrgEu w eu = eu := by
    rw [realOrgEu, if_neg (by rw [hbad]; exact Bool.false_ne_true)]
  have hplace : calculateSlotIdAndEuOffset eu % 2 ^ 24 = calculateSlotIdAndEuOffset eu := by
    have := calculateSlotIdAndEuOffset_lt h.isEu.lt
    exact Nat.mod_eq_of_lt (by omega)
  refine Flash.standsFor_iff.mpr ⟨(ht.good org).trans h.good_org, ?_⟩
  rw [hpage, hreal, returned, copyBackImage, copyBackFlags, if_neg Bool.false_ne_true,
    if_neg h.isEu.ne_empty]
  refine ⟨?_, rfl⟩
  show calculateSlotIdAndEuOffset (if eu = phyAddressEmpty then org + 0 else eu) % 2 ^ 24 = _
  rw [if_neg h.isEu.ne_empty, hplace]

/-- The erase unit is found where it was, if the copy-back unit is blank. -/
theorem home_eq (hblank : t.flash.page cb = initBuf)
    (horg : w.flash.good eu = false →
      t.flash.standsFor (calculateSlotIdAndEuOffset eu) org = true) :
    validOrReserveEu eu t = .ok org t := by
  rcases h.home_cases with ⟨hgood, rfl⟩ | ⟨hbad, hres⟩
  · exact validOrReserveEu_run_good h.isEu ((ht.good org).trans hgood)
  · have hmem := List.mem_of_find?_eq_some hres
    refine validOrReserveEu_run_bad h.isEu ((ht.good eu).trans hbad)
      (ht.reservesInChip h.reserves) ?_
    refine find?_eq_some_of_unique (by rw [ht.reserveEus]; exact hmem) (horg hbad) fun e he hst => ?_
    rw [ht.reserveEus] at he
    by_contra hne
    have hecb : e ≠ cb := by
      rintro rfl
      have hslot := (Flash.standsFor_iff.mp hst).2.1
      rw [hblank] at hslot
      have hslot : noSlotAndEuOffset = _ := hslot
      have := calculateSlotIdAndEuOffset_lt h.isEu.lt
      unfold noSlotAndEuOffset at hslot
      omega
    have hstart := (h.reserves.isEu he).calcEuStart_self
    refine hne (h.unique hbad e he ?_)
    rw [Flash.standsFor, ← ht.good, ← ht.page e (by rw [hstart]; exact hne)
      (by rw [hstart]; exact hecb)]
    exact hst

/-- As long as `org` is not touched it stands for `eu`. -/
theorem standsFor_kept (hbad : w.flash.good eu = false) (hpage : t.flash.page org = w.flash.page org) :
    t.flash.standsFor (calculateSlotIdAndEuOffset eu) org = true := by
  obtain ⟨-, hres⟩ := h.home_cases.resolve_left fun hg => by
    rw [hbad] at hg
    exact absurd hg.1 Bool.false_ne_true
  have hw : w.flash.standsFor (calculateSlotIdAndEuOffset eu) org = true := List.find?_some hres
  rw [Flash.standsFor, ht.good, hpage]
  exact hw

/-- Once it was erased it stands for `eu` from the first page on that is back. -/
theorem standsFor_or_blank (hbad : w.flash.good eu = false)
    (hpages : EuPages t.flash org (returned src org cb (realOrgEu w eu)) q) :
    t.flash.standsFor (calculateSlotIdAndEuOffset eu) org = true ∨ t.flash.page org = initBuf := by
  rcases Nat.eq_zero_or_pos q with rfl | hpos
  · exact .inr (hpages.blank_of_le pagesPerEu_pos (Nat.le_refl 0))
  · exact .inl (h.standsFor_returned ht hbad (hpages.first hpos))

theorem exists_home : ∃ home, validOrReserveEu eu t = .ok home t := by
  have hres := ht.reservesInChip h.reserves
  unfold validOrReserveEu
  rw [bind_ok (nandCheckEuStatus_run h.isEu.lt)]
  cases t.flash.good eu with
  | true => exact ⟨eu, rfl⟩
  | false => exact ⟨_, logicalAddressToReservePhysical_run hres h.isEu⟩

omit ht in
/-- Wherever the power was lost in a copy-back, the next `handleCopyBack` returns. -/
theorem handleCopyBack_returns {n j : Nat} (hn : n < pagesPerEu)
    (hreb : Rebooted (stateAfter (copyBackSimple cb (org + n) false (realOrgEu w eu))
      (w.withPower j)) t) : ∃ r u, handleCopyBack t = .ok r u := by
  obtain ⟨k, hstate, -⟩ := h.stateAfter_spec hn j
  have hpage : t.flash.page = (stateAfter (copyBackSimple cb (org + n) false (realOrgEu w eu))
      (w.withPower j)).flash.page := by rw [hreb.flash]
  -- an empty copy-back unit is not looked at further, and from one that holds pages `org` is written
  have hidle : Resumed w org cb t → t.flash.page cb = initBuf → ∃ r u, handleCopyBack t = .ok r u :=
    fun ht hblank => ⟨_, t, h.idle ht hblank⟩
  have hsaved : ∀ m, Resumed w org cb t → m ≤ min n p →
      EuPages t.flash cb (copyBackImage src org true (realOrgEu w eu)) m →
      (w.flash.good eu = false → t.flash.standsFor (calculateSlotIdAndEuOffset eu) org = true ∨
        t.flash.page org = initBuf) → ∃ r u, handleCopyBack t = .ok r u := by
    intro m ht hm hpages horg
    rcases Nat.eq_zero_or_pos m with rfl | hpos
    · exact hidle ht (hpages.blank_of_le pagesPerEu_pos (Nat.zero_le _))
    · obtain ⟨r, u, hrun, -⟩ := exists_of_wp (h.recover ht hpages hpos (by omega) (by omega) horg)
      exact ⟨r, u, hrun⟩
  cases hstate with
  | copying hq hc =>
    have ht := hc.elsewhere.symm.resumed hreb
    refine hsaved k ht hq (by rw [EuPages, hpage]; exact hc.target) fun hbad => .inl ?_
    refine h.standsFor_kept ht hbad ?_
    rw [hpage]
    exact (hc.source 0 pagesPerEu_pos).trans (h.pages 0 pagesPerEu_pos).symm
  | restoring hq hc =>
    have ht := hc.elsewhere.resumed hreb
    refine hsaved _ ht (Nat.le_refl _) (by rw [EuPages, hpage]; exact hc.source) fun hbad => ?_
    exact h.standsFor_or_blank ht hbad (by rw [EuPages, hpage]; exact hc.target)
  | done hr =>
    refine hidle (hr.elsewhere.resumed hreb) ?_
    rw [hpage]
    exact hr.blank_cb 0 pagesPerEu_pos

end CopyBackBegins

/-! ## Exactly when a copy-back recovers -/

namespace CopyBackReady
variable {w t : World} {eu org cb : Nat} {src : Nat → Page} {p q m : Nat}
  (h : CopyBackReady w eu org cb src p) (ht : Resumed w org cb t)
include h ht

/-- The copy-back unit is empty: the pages are those that `org` holds. -/
theorem bootRecovers_of_blank (hblank : ∀ i < pagesPerEu, t.flash.page (cb + i) = initBuf)
    (horg : 0 < m → w.flash.good eu = false →
      t.flash.standsFor (calculateSlotIdAndEuOffset eu) org = true)
    (hsame : ∀ i < m, (t.flash.page (org + i)).SameData (src i)) : BootRecovers eu cb src m t := by
  have hcb : t.flash.page cb = initBuf := hblank 0 pagesPerEu_pos
  refine ⟨_, t, h.idle ht hcb, rfl, hblank, ?_⟩
  rcases Nat.eq_zero_or_pos m with rfl | hpos
  · obtain ⟨home, hhome⟩ := h.exists_home ht
    exact ⟨home, hhome, fun i hi => absurd hi (Nat.not_lt_zero i)⟩
  · exact ⟨org, h.home_eq ht hcb (horg hpos), hsame⟩

/-- The copy-back unit holds `q` pages: those are recovered, and no others. -/
theorem bootRecovers_iff_of_saved
    (hsaved : EuPages t.flash cb (copyBackImage src org true (realOrgEu w eu)) q) (hpos : 0 < q)
    (hqm : q ≤ m) (hmp : m ≤ p) (hq : q < pagesPerEu)
    (horg : w.flash.good eu = false →
      t.flash.standsFor (calculateSlotIdAndEuOffset eu) org = true ∨ t.flash.page org = initBuf) :
    BootRecovers eu cb src m t ↔ q = m := by
  obtain ⟨r, u, hrun, hzero, hrec⟩ :=
    exists_of_wp (h.recover ht hsaved hpos (by omega) hq horg)
  have hr := hzero h.header
  obtain ⟨hblank, home, hhome, hpages⟩ := hrec hr
  constructor
  · rintro ⟨r', u', hrun', -, -, home', hhome', hsame⟩
    rw [hrun] at hrun'
    obtain ⟨rfl, rfl⟩ := EStateM.Result.ok.inj hrun'
    rw [hhome] at hhome'
    obtain ⟨rfl, -⟩ := EStateM.Result.ok.inj hhome'
    by_contra hne
    -- page `q` was used, and is blank now
    have hused := (hsame q (by omega)).isPageUsed_eq
    rw [hpages.blank_of_le hq (Nat.le_refl _), h.used q (by omega)] at hused
    exact absurd (show false = true from hused) Bool.false_ne_true
  · rintro rfl
    refine ⟨r, u, hrun, hr, hblank, home, hhome, fun i hi => ?_⟩
    rw [hpages.page_of_lt (by omega) hi]
    exact sameData_returned _ _ _ _ i

end CopyBackReady

/-- The pages to keep are recovered if and only if none or all of those that were programmed
had been copied to the copy-back unit when the power was lost. -/
theorem copyBack_recovers_iff {w : World} {eu org cb : Nat} {src : Nat → Page} {p n : Nat}
    (h : CopyBackReady w eu org cb src p) (hn : n < pagesPerEu) (j : Nat) :
    CopyBackRecovers w eu org cb src p n j ↔ j = 0 ∨ min n p ≤ j := by
  obtain ⟨k, hstate, hkj⟩ := h.stateAfter_spec hn j
  unfold CopyBackRecovers
  generalize stateAfter (copyBackSimple cb (org + n) false (realOrgEu w eu)) (w.withPower j) = w₁
    at hstate ⊢
  have hreboot : Rebooted w₁ { w₁ with flash := { w₁.flash with power := none } } :=
    ⟨rfl, fun _ _ => rfl⟩
  have hpage : ∀ t, Rebooted w₁ t → t.flash.page = w₁.flash.page := fun t ht => by rw [ht.flash]
  cases hstate with
  | copying hq hc =>
    have hsource : w₁.flash.page org = w.flash.page org :=
      (hc.source 0 pagesPerEu_pos).trans (h.pages 0 pagesPerEu_pos).symm
    have hstands : ∀ t, Resumed w org cb t → Rebooted w₁ t → w.flash.good eu = false →
        t.flash.standsFor (calculateSlotIdAndEuOffset eu) org = true :=
      fun t ht hreb hbad => h.standsFor_kept ht hbad (by rw [hpage t hreb, hsource])
    rcases Nat.eq_zero_or_pos k with rfl | hpos
    · refine iff_of_true (fun t hreb => ?_) (by omega)
      have ht := hc.elsewhere.symm.resumed hreb
      refine h.bootRecovers_of_blank ht (fun i hi => ?_) (fun _ => hstands t ht hreb) fun i hi => ?_
      · rw [hpage t hreb]
        exact hc.target i hi
      · rw [hpage t hreb, hc.source.page_of_lt (by omega) (by omega)]
        exact ⟨rfl, rfl⟩
    · have hiff : ∀ t, Rebooted w₁ t → (BootRecovers eu cb src (min n p) t ↔ k = min n p) := by
        intro t hreb
        have ht := hc.elsewhere.symm.resumed hreb
        exact h.bootRecovers_iff_of_saved ht (by rw [EuPages, hpage t hreb]; exact hc.target) hpos hq
          (Nat.min_le_right n p) (by omega) fun hbad => .inl (hstands t ht hreb hbad)
      have hall : (∀ t, Rebooted w₁ t → BootRecovers eu cb src (min n p) t) ↔ k = min n p :=
        ⟨fun hall => (hiff _ hreboot).mp (hall _ hreboot), fun hk t hreb => (hiff t hreb).mpr hk⟩
      rw [hall]
      omega
  | @restoring q _ hq hc =>
    refine iff_of_true (fun t hreb => ?_) (by omega)
    have ht := hc.elsewhere.resumed hreb
    have horg : w.flash.good eu = false →
        t.flash.standsFor (calculateSlotIdAndEuOffset eu) org = true ∨ t.flash.page org = initBuf :=
      fun hbad => h.standsFor_or_blank ht hbad (by rw [EuPages, hpage t hreb]; exact hc.target)
    rcases Nat.eq_zero_or_pos (min n p) with hm | hm
    · rw [hm] at hc ⊢
      refine h.bootRecovers_of_blank ht (fun i hi => ?_) (fun h0 => absurd h0 (Nat.lt_irrefl 0))
        fun i hi => absurd hi (Nat.not_lt_zero i)
      rw [hpage t hreb]
      exact hc.source.blank_of_le hi (Nat.zero_le i)
    · exact (h.bootRecovers_iff_of_saved ht (by rw [EuPages, hpage t hreb]; exact hc.source) hm
        (Nat.le_refl _) (Nat.min_le_right n p) (by omega) horg).mpr rfl
  | done hr =>
    refine iff_of_true (fun t hreb => ?_) (by omega)
    have ht := hr.elsewhere.resumed hreb
    refine h.bootRecovers_of_blank ht (fun i hi => ?_) (fun hm hbad => ?_) fun i hi => ?_
    · rw [hpage t hreb]
      exact hr.blank_cb i hi
    · refine h.standsFor_returned ht hbad ?_
      rw [hpage t hreb]
      exact hr.pages_home.first hm
    · rw [hpage t hreb, hr.pages_home.page_of_lt (by omega) hi]
      exact sameData_returned _ _ _ _ i

end CopyBack

section SmallPage
attribute [local instance] smallPage

/-- A page of data, numbered. -/
def dataPage (i : Nat) : Page := ⟨fun _ => UInt8.ofNat i, { initFlags with segType := .used }⟩

/-- The header of a reserve segment. -/
def reserveHeader : Page :=
  ⟨fun _ => 0xff, { initFlags with segType := .reserve }.setSlotEuOffset reserveEuIsHeader⟩

/-- The small-page chip with the reserve segments at their places, their headers in the pages
65280 and 65408, and three pages of data in the first erase unit. -/
def threePagesWorld : World :=
  let w := erasedWorld fun _ => false
  { w with
    flash := { w.flash with page := fun a =>
      if a < 3 then dataPage a
      else if a = 65280 ∨ a = 65408 then reserveHeader
      else initBuf }
    segMap := { w.segMap with segToSlot := id } }

/-- Its copy-back unit. -/
def threePagesCb : Nat := 65312

theorem threePages_ready : CopyBackReady threePagesWorld 0 0 threePagesCb dataPage 3 where
  reserves := by unfold SegMap.ReservesInChip; decide
  isEu := ⟨by decide, by decide⟩
  copybackEu := by rfl
  cb_ne := by decide
  home := by rfl
  org_ne := by decide
  ne := by decide
  le := by decide
  used := by decide
  pages i hi := by
    have hi : i < 32 := hi
    show (if 0 + i < 3 then dataPage (0 + i) else if 0 + i = 65280 ∨ 0 + i = 65408 then _ else _) = _
    rw [Nat.zero_add]
    by_cases h : i < 3
    · rw [if_pos h, if_pos h]
    · rw [if_neg h, if_neg h, if_neg (by omega)]
  blank i hi := by
    have hi : i < 32 := hi
    show (if 65312 + i < 3 then _ else if 65312 + i = 65280 ∨ 65312 + i = 65408 then _ else _) = _
    rw [if_neg (by omega), if_neg (by omega)]
  clean _ _ _ := rfl
  header h := absurd h (by decide)
  unique h := absurd h (by decide)

/-- All three pages are recovered when the power goes after the third was copied. -/
theorem copyBack_recovers_threePages :
    CopyBackRecovers threePagesWorld 0 0 threePagesCb dataPage 3 3 3 :=
  (copyBack_recovers_iff threePages_ready (by decide) 3).mpr (by decide)

/-- The chip of a copy-back of three pages whose power went after the first was copied. -/
def interruptedWorld : World :=
  let w := stateAfter (copyBackSimple threePagesCb (0 + 3) false (realOrgEu threePagesWorld 0))
    (threePagesWorld.withPower 1)
  { w with flash := { w.flash with power := none } }

/-- On that chip the boot loses the second page. -/
theorem copyBack_loses_page : ¬ ∀ (w : World) (eu org cb : Nat) (src : Nat → Page) (p n j : Nat),
    CopyBackReady w eu org cb src p → n < pagesPerEu → CopyBackRecovers w eu org cb src p n j := by
  intro hall
  obtain ⟨r, u, hrun, -, -, home, hhome, hsame⟩ := hall threePagesWorld 0 0 threePagesCb dataPage
    3 3 1 threePages_ready (by decide) interruptedWorld ⟨rfl, fun _ _ => rfl⟩
  have hlost : (match handleCopyBack interruptedWorld with
    | .ok _ u => u.flash.good 0 && !isPageUsed (u.flash.page 1).flags
    | .error _ _ => false) = true := by decide +kernel
  rw [hrun, Bool.and_eq_true, Bool.not_eq_true'] at hlost
  rw [validOrReserveEu_run_good ⟨by decide, by decide⟩ hlost.1] at hhome
  obtain ⟨rfl, -⟩ := EStateM.Result.ok.inj hhome
  have hused := (hsame 1 (by decide)).isPageUsed_eq
  rw [Nat.zero_add, hlost.2] at hused
  exact absurd hused (by decide)

end SmallPage

end NandFs
