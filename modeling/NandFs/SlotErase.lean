import NandFs.LastValidPage
import Mathlib.Data.List.Basic
import Mathlib.Data.List.Find
import Mathlib.Data.List.Nodup

/-! # `truncateSlot` page by page

The source walks down over the last pages of the erase units with an unsigned `i`, which
wraps around below slot 0.  `truncateSlotLoop` is that loop, with the number of its rounds
bounded; it is `truncateSlot` over the list of the erase units (`truncateSlotLoop_eq`), and
what it erases is read off the chip as it was at the call (`World.erasedFor`): an erase
changes neither which erase units are valid nor what the others stand for.
-/
namespace NandFs

open Program

section
variable [Config]

/-- The loop of `truncateSlot` from address `i` down, `none` when the rounds do not suffice. -/
def truncateSlotLoop (isSlotReserve : Bool) (phyAddr : Nat) : Nat → Nat → SeqM (Option Nat)
  | 0, _ => pure none
  | rounds + 1, i =>
    if phyAddr < i ∧ i < pageCount then do
      -- `i` is a `uint32_t`
      let next := truncateSlotLoop isSlotReserve phyAddr rounds
        ((i + 2 ^ 32 - pagesPerEu) % 2 ^ 32)
      if ← nandCheckEuStatus i then do
        if (← nandErase i) ≠ 0 then pure (some 1) else next
      else if isSlotReserve then next
      else do
        let reservePhyAddr ← logicalAddressToReservePhysical i
        if reservePhyAddr ≠ phyAddressEmpty then do
          if (← nandErase reservePhyAddr) ≠ 0 then pure (some 1) else next
        else next
    else pure (some 0)

/-- The last pages of the first `eus` erase units of a slot, the last one first. -/
def lastPages (slot eus : Nat) : List Nat :=
  (List.range eus).reverse.map fun eu => euAt slot eu + maxEuOffset

theorem lastPages_succ (slot eus : Nat) :
    lastPages slot (eus + 1) = (euAt slot eus + maxEuOffset) :: lastPages slot eus := by
  rw [lastPages, List.range_succ, List.reverse_append, List.reverse_singleton,
    List.singleton_append, List.map_cons, lastPages]

theorem truncateSlot_eq {slot : Nat} (hslot : slot < nSlots) (isSlotReserve : Bool) :
    truncateSlot slot isSlotReserve = truncateEus isSlotReserve (lastPages slot eusPerSlot) := by
  unfold truncateSlot
  rw [if_pos hslot, slotEus, ← List.map_reverse, List.map_map]
  rfl

/-- One round of the loop for an erase unit is one step over the list. -/
theorem truncateSlotLoop_step {isSlotReserve : Bool} {phyAddr rounds i : Nat} {is : List Nat}
    (hi : phyAddr < i ∧ i < pageCount)
    (hnext : truncateSlotLoop isSlotReserve phyAddr rounds ((i + 2 ^ 32 - pagesPerEu) % 2 ^ 32)
      = some <$> truncateEus isSlotReserve is) :
    truncateSlotLoop isSlotReserve phyAddr (rounds + 1) i
      = some <$> truncateEus isSlotReserve (i :: is) := by
  have herase : ∀ a, (do
      let r ← nandErase a
      if r ≠ 0 then pure (some 1) else some <$> truncateEus isSlotReserve is : SeqM (Option Nat))
      = some <$> seqVerify (nandErase a) (truncateEus isSlotReserve is) := by
    intro a
    unfold seqVerify
    rw [map_bind]
    refine bind_congr fun r => ?_
    rw [apply_ite (some <$> ·), map_pure]
  unfold truncateSlotLoop truncateEus
  rw [if_pos hi, map_bind]
  refine bind_congr fun good => ?_
  rw [hnext, apply_ite (some <$> ·), apply_ite (some <$> ·), map_bind]
  simp only [herase]
  refine congrArg (ite _ _ <| ite _ _ ·) (bind_congr fun r => ?_)
  rw [apply_ite (some <$> ·)]

/-- The `uint32_t` before the erase unit `eus` of a slot. -/
theorem sub_pagesPerEu_mod (slot eus : Nat) :
    (euAt slot eus + maxEuOffset + 2 ^ 32 - pagesPerEu) % 2 ^ 32
      = (euAt slot eus + 2 ^ 32 - 1) % 2 ^ 32 := by
  have := pagesPerEu_pos
  unfold maxEuOffset
  congr 1
  omega

/-- The loop from the last page of an erase unit down goes over the erase units of the slot up
to that one and ends. -/
theorem truncateSlotLoop_eq {slot : Nat} (hslot : slot < nSlots) (isSlotReserve : Bool) {eus : Nat}
    (heus : eus ≤ eusPerSlot) {rounds : Nat} (hrounds : eus < rounds) :
    truncateSlotLoop isSlotReserve (euAt slot 0) rounds ((euAt slot eus + 2 ^ 32 - 1) % 2 ^ 32)
      = some <$> truncateEus isSlotReserve (lastPages slot eus) := by
  have hcount := pageCount_le
  induction eus generalizing rounds with
  | zero =>
    obtain ⟨rounds, rfl⟩ := Nat.exists_eq_succ_of_ne_zero (Nat.ne_of_gt hrounds)
    have hlt := (isEu_euAt hslot eusPerSlot_pos).lt
    unfold truncateSlotLoop
    -- before slot 0 the address wraps around to one past the chip
    rw [if_neg (by omega)]
    rfl
  | succ eus ih =>
    obtain ⟨rounds, rfl⟩ := Nat.exists_eq_succ_of_ne_zero (Nat.ne_of_gt (Nat.zero_lt_of_lt hrounds))
    have hpos := pagesPerEu_pos
    have hlast : maxEuOffset < pagesPerEu := Nat.sub_lt hpos Nat.one_pos
    have hlt := (isEu_euAt hslot (Nat.lt_of_succ_le heus)).add_lt hlast
    have hi : (euAt slot (eus + 1) + 2 ^ 32 - 1) % 2 ^ 32 = euAt slot eus + maxEuOffset := by
      have hstep : euAt slot (eus + 1) = euAt slot eus + pagesPerEu := by
        unfold euAt calcAddress
        rw [Nat.succ_mul]
        omega
      unfold maxEuOffset at hlt ⊢
      omega
    have hfirst : euAt slot 0 < euAt slot eus + maxEuOffset := by
      obtain ⟨p, hp, heven⟩ := pagesPerEu_even
      have : euAt slot 0 ≤ euAt slot eus := by
        unfold euAt calcAddress
        omega
      unfold maxEuOffset
      omega
    rw [hi, lastPages_succ]
    refine truncateSlotLoop_step ⟨hfirst, hlt⟩ ?_
    rw [sub_pagesPerEu_mod]
    exact ih (Nat.le_of_succ_le heus) (Nat.lt_of_succ_lt_succ hrounds)

/-- The loop of the source is the walk over the list. -/
theorem truncateSlotLoop_run {slot : Nat} (hslot : slot < nSlots) (isSlotReserve : Bool)
    {rounds : Nat} (hrounds : eusPerSlot < rounds) :
    truncateSlotLoop isSlotReserve (calcAddress slot 0 0) rounds
      (calcAddress slot 0 0 + maxLogicalOffset) = some <$> truncateSlot slot isSlotReserve := by
  have hlast : calcAddress slot 0 0 + maxLogicalOffset
      = (euAt slot eusPerSlot + 2 ^ 32 - 1) % 2 ^ 32 := by
    have hstart : calcAddress slot 0 0 = slot * pagesPerSlot := by
      rw [calcAddress_eq, Nat.zero_mul, Nat.zero_add, Nat.add_zero]
    have hend : euAt slot eusPerSlot = slot * pagesPerSlot + pagesPerSlot := by
      rw [pagesPerSlot_eq, euAt, calcAddress_eq, Nat.add_zero, pagesPerSlot_eq]
    have hle : slot * pagesPerSlot + pagesPerSlot ≤ pageCount := by
      rw [pageCount_eq, ← Nat.succ_mul]
      exact Nat.mul_le_mul_right _ hslot
    have hpos := pagesPerSlot_pos
    have hcount := pageCount_le
    unfold maxLogicalOffset
    rw [hend, hstart]
    omega
  rw [hlast, truncateSlot_eq hslot]
  exact truncateSlotLoop_eq hslot isSlotReserve (Nat.le_refl eusPerSlot) hrounds

/-! ## What is erased -/

/-- The erase unit that `truncateSlot` erases for erase unit `eu` of the slot: that one or,
where it is bad, the one that replaces it; a reserve slot has no replacements. -/
def World.erasedFor (w : World) (isSlotReserve : Bool) (slot eu : Nat) : Option Nat :=
  if w.flash.good (euAt slot eu) then some (euAt slot eu)
  else if isSlotReserve then none
  else w.reserveOf (euAt slot eu)

/-- From `f` to `t` the erase units `eus` were erased and no other page changed. -/
structure ErasesOnly (f t : Flash) (eus : List Nat) : Prop where
  blank : ∀ a, calcEuStart a ∈ eus → PageHolds t a none
  rest : ∀ a, calcEuStart a ∉ eus → t.page a = f.page a ∧ t.mainAreaWrites a = f.mainAreaWrites a

theorem ErasesOnly.refl (f : Flash) : ErasesOnly f f [] :=
  ⟨fun _ h => absurd h List.not_mem_nil, fun _ _ => ⟨rfl, rfl⟩⟩

theorem ErasesOnly.cons {f t u : Flash} {eu : Nat} {eus : List Nat} (ht : f.Erased eu t)
    (hu : ErasesOnly t u eus) : ErasesOnly f u (eu :: eus) := by
  refine ⟨fun a ha => ?_, fun a ha => ?_⟩
  · by_cases hmem : calcEuStart a ∈ eus
    · exact hu.blank a hmem
    · obtain ⟨hpage, hwrites⟩ := hu.rest a hmem
      have heq : calcEuStart a = eu := (List.mem_cons.mp ha).resolve_right hmem
      exact ⟨by rw [hpage, ht.page_eq, if_pos heq], by rw [hwrites, ht.writes, if_pos heq]⟩
  · rw [List.mem_cons, not_or] at ha
    obtain ⟨hpage, hwrites⟩ := hu.rest a ha.2
    exact ⟨by rw [hpage, ht.page_eq, if_neg ha.1], by rw [hwrites, ht.writes, if_neg ha.1]⟩

section Step
variable {s : World} {t : Flash} {slot eu eu' home : Nat} {isSlotReserve : Bool}

/-- An erase unit that is erased is a valid one of the chip. -/
theorem World.erasedFor_spec (hres : s.segMap.ReservesInChip) (hslot : slot < nSlots)
    (heu : eu < eusPerSlot) (h : s.erasedFor isSlotReserve slot eu = some home) :
    IsEu home ∧ s.flash.good home = true := by
  unfold World.erasedFor at h
  split_ifs at h with hgood hflag
  · obtain rfl := Option.some.inj h
    exact ⟨isEu_euAt hslot heu, hgood⟩
  · obtain ⟨hmem, hstands⟩ := World.reserveOf_spec h
    exact ⟨hres.isEu_reserve hmem, (Flash.standsFor_iff.mp hstands).1⟩

/-- What is erased for one erase unit of a slot does not stand for another one. -/
theorem World.erasedFor_not_stands (hdata : s.segMap.IsDataSlot slot) (heu : eu < eusPerSlot)
    (heu' : eu' < eusPerSlot) (hne : eu' ≠ eu) (h : s.erasedFor false slot eu = some home)
    {r : Nat} (hmem : s.segMap.IsReserveEu r)
    (hr : s.flash.standsFor (calculateSlotIdAndEuOffset (euAt slot eu')) r = true) : r ≠ home := by
  rintro rfl
  unfold World.erasedFor at h
  split_ifs at h with hgood
  · exact hdata.not_reserve heu (Option.some.inj h ▸ hmem)
  · have hplace := (Flash.standsFor_iff.mp (World.reserveOf_spec h).2).2.1
    rw [(Flash.standsFor_iff.mp hr).2.1] at hplace
    exact hne (place_inj hdata.lt hdata.lt heu' heu hplace).2

/-- The erase for one erase unit leaves what is to be erased for the others. -/
theorem World.erasedFor_erased (hres : s.segMap.ReservesInChip)
    (hdata : isSlotReserve = false → s.segMap.IsDataSlot slot) (heu : eu < eusPerSlot)
    (heu' : eu' < eusPerSlot) (hne : eu' ≠ eu) (h : s.erasedFor isSlotReserve slot eu = some home)
    (ht : s.flash.Erased home t) :
    World.erasedFor { s with flash := t } isSlotReserve slot eu' =
      s.erasedFor isSlotReserve slot eu' := by
  unfold World.erasedFor
  rw [ht.good]
  cases isSlotReserve with
  | true => rfl
  | false =>
    have hslot := hdata rfl
    refine congrArg (ite _ _ <| ite _ _ ·) (List.find?_congr fun r hr => ?_)
    have hmem := SegMap.mem_reserveEus.mp hr
    rw [Bool.eq_iff_iff, ht.standsFor_iff (place_lt hslot.lt heu') (hres.isEu_reserve hmem)]
    exact and_iff_left_of_imp (World.erasedFor_not_stands hslot heu heu' hne h hmem)

end Step

section Run
variable {E : Halt → World → Prop} (hE : ∀ t, E .powerLoss t) {Q : Nat → World → Prop}
  {slot : Nat} {isSlotReserve : Bool}
include hE

/-- Each erase unit of the list is erased, or what replaces it. -/
theorem wp_truncateEus_erases (hslot : slot < nSlots) (eus : List Nat)
    (heus : ∀ eu ∈ eus, eu < eusPerSlot) (hnodup : eus.Nodup) {s : World}
    (hres : s.segMap.ReservesInChip) (hdata : isSlotReserve = false → s.segMap.IsDataSlot slot)
    (hq : ∀ t, OnChip s t →
      ErasesOnly s.flash t.flash (eus.filterMap (s.erasedFor isSlotReserve slot)) → Q 0 t) :
    wp (truncateEus isSlotReserve (eus.map fun eu => euAt slot eu + maxEuOffset)) Q E s := by
  induction eus generalizing s with
  | nil => exact hq s (OnChip.refl s) (ErasesOnly.refl _)
  | cons eu eus ih =>
    have heu := heus eu List.mem_cons_self
    have hin : ∀ e ∈ eus, e < eusPerSlot := fun e he => heus e (List.mem_cons_of_mem _ he)
    have hlast : maxEuOffset < pagesPerEu := Nat.sub_lt pagesPerEu_pos Nat.one_pos
    have hiseu := isEu_euAt hslot heu
    obtain ⟨hfirst, hrest⟩ := List.nodup_cons.mp hnodup
    have herase : ∀ {home}, s.erasedFor isSlotReserve slot eu = some home →
        wp (seqVerify (nandErase (home + maxEuOffset))
          (truncateEus isSlotReserve (eus.map fun eu => euAt slot eu + maxEuOffset))) Q E s := by
      intro home hh
      obtain ⟨hhome, hgood⟩ := World.erasedFor_spec hres hslot heu hh
      refine wp_seqVerify (wp_nandErase_add hE hhome hgood hlast fun t ht => ?_)
      rw [if_neg (not_not_intro rfl)]
      refine ih hin hrest hres hdata fun u hon hu => hq u
        ((OnChip.erase ht).trans hon) ?_
      have hsame : eus.filterMap (World.erasedFor { s with flash := t } isSlotReserve slot)
          = eus.filterMap (s.erasedFor isSlotReserve slot) :=
        List.filterMap_congr fun e he => World.erasedFor_erased hres hdata heu (hin e he)
          (fun heq => hfirst (heq ▸ he)) hh ht
      rw [List.filterMap_cons_some hh, ← hsame]
      exact ErasesOnly.cons ht hu
    have hskip : s.erasedFor isSlotReserve slot eu = none →
        wp (truncateEus isSlotReserve (eus.map fun eu => euAt slot eu + maxEuOffset)) Q E s := by
      intro hh
      rw [List.filterMap_cons_none hh] at hq
      exact ih hin hrest hres hdata hq
    rw [List.map_cons]
    unfold truncateEus
    rw [wp_bind, wp_ok_iff (nandCheckEuStatus_run (hiseu.add_lt hlast)), hiseu.good_add hlast]
    unfold World.erasedFor at herase hskip
    cases hgood : s.flash.good (euAt slot eu) with
    | true =>
      rw [if_pos rfl]
      exact herase (if_pos hgood)
    | false =>
      rw [hgood, if_neg Bool.false_ne_true] at herase hskip
      rw [if_neg Bool.false_ne_true]
      cases isSlotReserve with
      | true => exact hskip rfl
      | false =>
        rw [if_neg Bool.false_ne_true] at herase hskip ⊢
        rw [wp_bind, wp_ok_iff (logicalAddressToReservePhysical_add hres hiseu hlast)]
        cases hr : s.reserveOf (euAt slot eu) with
        | none =>
          rw [Option.map_none, Option.getD_none, if_neg (not_not_intro rfl)]
          exact hskip hr
        | some r =>
          have hlt := (hres.isEu_reserve (World.reserveOf_spec hr).1).add_lt hlast
          rw [Option.map_some, Option.getD_some, if_pos (ne_empty_of_lt hlt)]
          exact herase hr

end Run

/-! ## The slot after the call -/

/-- What the callers of `truncateSlot` promise: the flag says whether the slot is one of a
reserve segment, and a bad erase unit of such a slot has no replacement. -/
structure World.MayTruncate (w : World) (slot : Nat) (isSlotReserve : Bool) : Prop where
  lt : slot < nSlots
  reserves : w.segMap.ReservesInChip
  data : isSlotReserve = false → w.segMap.IsDataSlot slot
  unreplaced : isSlotReserve = true → ∀ eu < eusPerSlot,
    w.flash.good (euAt slot eu) = false → w.reserveOf (euAt slot eu) = none

/-- The slot is erased: its valid erase units are, and so are those that the addresses of its
bad ones are translated to; these are all that stand for a bad one if no two stand for the
same.  No other page changed. -/
structure World.SlotTruncated (w : World) (slot : Nat) (t : World) : Prop where
  onChip : OnChip w t
  good : ∀ eu < eusPerSlot, w.flash.good (euAt slot eu) = true →
    ∀ i < pagesPerEu, PageHolds t.flash (euAt slot eu + i) none
  replaced : ∀ eu < eusPerSlot, w.flash.good (euAt slot eu) = false →
    ∀ r, w.reserveOf (euAt slot eu) = some r → ∀ i < pagesPerEu, PageHolds t.flash (r + i) none
  home : ∀ eu < eusPerSlot, ∀ r, IsHome w.flash w.segMap slot eu r →
    (∀ r', IsHome w.flash w.segMap slot eu r' → r' = r) →
    ∀ i < pagesPerEu, PageHolds t.flash (r + i) none
  rest : ∀ a, (∀ eu < eusPerSlot,
      (w.flash.good (euAt slot eu) = true → calcEuStart a ≠ euAt slot eu) ∧
      (w.flash.good (euAt slot eu) = false →
        w.reserveOf (euAt slot eu) ≠ some (calcEuStart a))) →
    t.flash.page a = w.flash.page a ∧ t.flash.mainAreaWrites a = w.flash.mainAreaWrites a

namespace World.MayTruncate
variable {w t : World} {slot eu r : Nat} {isSlotReserve : Bool}
  (h : w.MayTruncate slot isSlotReserve)
include h

theorem erasedFor_bad (heu : eu < eusPerSlot) (hbad : w.flash.good (euAt slot eu) = false) :
    w.erasedFor isSlotReserve slot eu = w.reserveOf (euAt slot eu) := by
  unfold World.erasedFor
  rw [hbad, if_neg Bool.false_ne_true]
  cases hflag : isSlotReserve with
  | true => rw [if_pos rfl, h.unreplaced hflag eu heu hbad]
  | false => rw [if_neg Bool.false_ne_true]

omit h in
/-- The search finds an erase unit that stands for the bad one if there is one. -/
theorem reserveOf_of_home (hbad : w.flash.good (euAt slot eu) = false)
    (hh : IsHome w.flash w.segMap slot eu r)
    (hunique : ∀ r', IsHome w.flash w.segMap slot eu r' → r' = r) :
    w.reserveOf (euAt slot eu) = some r := by
  cases hh with
  | self good => rw [hbad] at good; exact absurd good Bool.false_ne_true
  | reserve _ mem stands =>
    cases hr : w.reserveOf (euAt slot eu) with
    | none =>
      have hnone := List.find?_eq_none.mp hr r (SegMap.mem_reserveEus.mpr mem)
      exact absurd stands hnone
    | some r' =>
      obtain ⟨hmem, hstands⟩ := World.reserveOf_spec hr
      rw [hunique r' (.reserve hbad hmem hstands)]

/-- The slot after the erase of what stands for its erase units. -/
theorem slotTruncated (hon : OnChip w t)
    (ht : ErasesOnly w.flash t.flash
      ((List.range eusPerSlot).reverse.filterMap (w.erasedFor isSlotReserve slot))) :
    w.SlotTruncated slot t := by
  have hmem : ∀ {a}, a ∈ (List.range eusPerSlot).reverse.filterMap
      (w.erasedFor isSlotReserve slot) ↔
      ∃ eu < eusPerSlot, w.erasedFor isSlotReserve slot eu = some a := by
    intro a
    simp only [List.mem_filterMap, List.mem_reverse, List.mem_range]
  have hblank : ∀ eu < eusPerSlot, ∀ a, w.erasedFor isSlotReserve slot eu = some a →
      ∀ i < pagesPerEu, PageHolds t.flash (a + i) none := by
    intro eu heu a ha i hi
    have hiseu := (World.erasedFor_spec h.reserves h.lt heu ha).1
    exact ht.blank _ (by rw [hiseu.calcEuStart_add hi]; exact hmem.mpr ⟨eu, heu, ha⟩)
  have hgood : ∀ eu < eusPerSlot, w.flash.good (euAt slot eu) = true →
      ∀ i < pagesPerEu, PageHolds t.flash (euAt slot eu + i) none := fun eu heu hg =>
    hblank eu heu _ (if_pos hg)
  have hreplaced : ∀ eu < eusPerSlot, w.flash.good (euAt slot eu) = false →
      ∀ r, w.reserveOf (euAt slot eu) = some r →
      ∀ i < pagesPerEu, PageHolds t.flash (r + i) none := fun eu heu hb r hr =>
    hblank eu heu r ((h.erasedFor_bad heu hb).trans hr)
  refine ⟨hon, hgood, hreplaced, fun eu heu r hh hunique => ?_, fun a ha => ht.rest a fun hin => ?_⟩
  · cases hg : w.flash.good (euAt slot eu) with
    | true =>
      obtain rfl := hunique _ (.self hg)
      exact hgood eu heu hg
    | false => exact hreplaced eu heu hg r (reserveOf_of_home hg hh hunique)
  · obtain ⟨eu, heu, he⟩ := hmem.mp hin
    cases hg : w.flash.good (euAt slot eu) with
    | true => exact (ha eu heu).1 hg (Option.some.inj ((if_pos hg).symm.trans he)).symm
    | false => exact (ha eu heu).2 hg ((h.erasedFor_bad heu hg).symm.trans he)

end World.MayTruncate

/-- `truncateSlot` ends after a round for each erase unit and erases the slot, and nothing but
a loss of power stops it. -/
theorem truncateSlotLoop_erases {w : World} {slot : Nat} {isSlotReserve : Bool}
    (h : w.MayTruncate slot isSlotReserve) {rounds : Nat} (hrounds : eusPerSlot < rounds) :
    wp (truncateSlotLoop isSlotReserve (calcAddress slot 0 0) rounds
        (calcAddress slot 0 0 + maxLogicalOffset))
      (fun r t => r = some 0 ∧ w.SlotTruncated slot t) (fun e _ => e = .powerLoss) w := by
  rw [truncateSlotLoop_run h.lt isSlotReserve hrounds, wp_map, truncateSlot_eq h.lt]
  refine wp_truncateEus_erases (fun _ => rfl) h.lt _
    (fun eu hmem => List.mem_range.mp (List.mem_reverse.mp hmem))
    (List.nodup_reverse.mpr List.nodup_range) h.reserves h.data fun t hon ht => ?_
  exact ⟨rfl, h.slotTruncated hon ht⟩

end

section TinyPage
attribute [local instance] tinyPage

theorem replacedWorld_mayTruncate : replacedWorld.MayTruncate 0 false where
  lt := by decide
  reserves := by unfold SegMap.ReservesInChip; decide
  data _ := ⟨by decide, by decide⟩
  unreplaced h := absurd h (by decide)

theorem truncateSlotLoop_erases_tinyPage : replacedWorld.flash.good 0 = false ∧
    replacedWorld.reserveOf 0 = some 60 ∧
    wp (truncateSlotLoop false (calcAddress 0 0 0) 3 (calcAddress 0 0 0 + maxLogicalOffset))
      (fun r t => r = some 0 ∧ replacedWorld.SlotTruncated 0 t)
      (fun e _ => e = .powerLoss) replacedWorld :=
  ⟨by decide, by decide, truncateSlotLoop_erases replacedWorld_mayTruncate (by decide)⟩

end TinyPage

end NandFs
