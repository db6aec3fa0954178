import NandFs.NandRules
import NandFs.CopyBack

/-! # What the look-ups of erase units find

Each search through the erase units of a slot, or of the reserve slots, only reads the chip.
One lemma for each says what it returns: the first, or the `n`-th, erase unit of a list with
a property of the chip.
-/
namespace NandFs

open Program

variable [Config]

open Config

/-! ## The lists of erase units -/

theorem isEu_of_mem_slotEus {slotId eu : Nat} (hs : slotId < nSlots) (h : eu ∈ slotEus slotId) :
    IsEu eu := by
  obtain ⟨k, hk, rfl⟩ := List.mem_map.mp h
  exact isEu_calcAddress hs (List.mem_range.mp hk)

/-- The slots of the reserve segments are slots of the chip. -/
def SegMap.ReservesInChip (m : SegMap) : Prop := ∀ seg ∈ reserveSegments, m.segToSlot seg < nSlots

theorem SegMap.ReservesInChip.isEu {m : SegMap} (h : m.ReservesInChip) {euOffset eu : Nat}
    (hmem : eu ∈ m.reserveEus euOffset) : IsEu eu := by
  obtain ⟨seg, hseg, hmem⟩ := List.mem_flatMap.mp hmem
  obtain ⟨k, hk, rfl⟩ := List.mem_map.mp hmem
  obtain ⟨j, -, rfl⟩ := List.mem_map.mp hk
  exact isEu_calcAddress (h seg hseg) (Nat.mod_lt _ eusPerSlot_pos)

theorem firstReserveSegment_mem : firstReserveSegment ∈ reserveSegments := by
  unfold reserveSegments kReserveSlots
  exact List.mem_range'_1.mpr ⟨Nat.le_refl _, by omega⟩

/-- The erase units of the reserve slots depend on those slots only. -/
theorem SegMap.reserveEus_congr {m m' : SegMap}
    (h : ∀ seg ∈ reserveSegments, m'.segToSlot seg = m.segToSlot seg) (euOffset : Nat) :
    m'.reserveEus euOffset = m.reserveEus euOffset := by
  unfold SegMap.reserveEus
  rw [List.flatMap_def, List.flatMap_def]
  congr 1
  exact List.map_congr_left fun seg hseg => by rw [h seg hseg]

omit [Config] in
/-- A search with one answer finds it. -/
theorem find?_eq_some_of_unique {p : Nat → Bool} {l : List Nat} {a : Nat} (ha : a ∈ l)
    (hp : p a = true) (hunique : ∀ b ∈ l, p b = true → b = a) : l.find? p = some a := by
  cases hfind : l.find? p with
  | none => exact absurd hp (List.find?_eq_none.mp hfind a ha)
  | some b => rw [hunique b (List.mem_of_find?_eq_some hfind) (List.find?_some hfind)]

/-! ## The searches -/

section Searches
variable {s : World}

/-- The valid erase unit number `location` of a slot, counted from 1. -/
def Flash.validEuAt (f : Flash) (slotId location : Nat) : Nat :=
  ((slotEus slotId).filter f.good)[location - 1]?.getD phyAddressEmpty

theorem nthValidEu_run {eus : List Nat} (heus : ∀ eu ∈ eus, eu < pageCount) {location : Nat}
    (hl : 0 < location) : nthValidEu location eus s =
      .ok ((eus.filter s.flash.good)[location - 1]?.getD phyAddressEmpty) s := by
  induction eus generalizing location with
  | nil => rfl
  | cons eu eus ih =>
    have ih := @ih fun e he => heus e (List.mem_cons_of_mem _ he)
    unfold nthValidEu
    rw [bind_ok (nandCheckEuStatus_run (heus eu List.mem_cons_self))]
    cases hgood : s.flash.good eu with
    | false =>
      rw [if_neg Bool.false_ne_true, ih hl, List.filter_cons_of_neg (by rw [hgood]; decide)]
    | true =>
      rw [if_pos rfl, List.filter_cons_of_pos hgood]
      by_cases h1 : location - 1 = 0
      · rw [if_pos h1, h1]
        rfl
      · rw [if_neg h1, ih (by omega), List.getElem?_cons, if_neg h1]

theorem getValidEuAddrInLocation_run {slotId location : Nat} (hs : slotId < nSlots)
    (hl : 0 < location) : getValidEuAddrInLocation slotId location s =
      .ok (s.flash.validEuAt slotId location) s := by
  unfold getValidEuAddrInLocation
  rw [bind_ok (assert_run (decide_eq_true hs)),
    nthValidEu_run (fun eu h => (isEu_of_mem_slotEus hs h).lt) hl]
  rfl

theorem getCopybackEu_run (h : s.segMap.ReservesInChip) : getCopybackEu s =
    .ok (s.flash.validEuAt (s.segMap.segToSlot firstReserveSegment) 2) s :=
  getValidEuAddrInLocation_run (h _ firstReserveSegment_mem) (by decide)

/-- A valid erase unit found by its number is one of its slot, and not bad. -/
theorem Flash.validEuAt_spec {f : Flash} {slotId location : Nat}
    (h : f.validEuAt slotId location ≠ phyAddressEmpty) :
    f.validEuAt slotId location ∈ slotEus slotId ∧ f.good (f.validEuAt slotId location) = true := by
  unfold Flash.validEuAt at h ⊢
  cases hfind : ((slotEus slotId).filter f.good)[location - 1]? with
  | none => rw [hfind] at h; exact absurd rfl h
  | some eu => exact List.mem_filter.mp (List.mem_of_getElem? hfind)

/-- Where there is a second valid erase unit there is a first. -/
theorem Flash.validEuAt_one_ne {f : Flash} {slotId : Nat}
    (h : f.validEuAt slotId 2 ≠ phyAddressEmpty) (hs : slotId < nSlots) :
    f.validEuAt slotId 1 ≠ phyAddressEmpty := by
  unfold Flash.validEuAt at h ⊢
  cases hl : (slotEus slotId).filter f.good with
  | nil => rw [hl] at h; exact absurd rfl h
  | cons eu eus =>
    have hmem : eu ∈ (slotEus slotId).filter f.good := by rw [hl]; exact List.mem_cons_self
    have hlt := (isEu_of_mem_slotEus hs (List.mem_filter.mp hmem).1).lt
    have := pageCount_le
    show eu ≠ 0xffffffff
    omega

/-- The first one is before the second. -/
theorem Flash.validEuAt_one_lt {f : Flash} {slotId : Nat}
    (h : f.validEuAt slotId 2 ≠ phyAddressEmpty) : f.validEuAt slotId 1 < f.validEuAt slotId 2 := by
  have hsorted : (slotEus slotId).Pairwise (· < ·) := by
    refine List.pairwise_map.mpr (List.pairwise_lt_range.imp fun {a b} hab => ?_)
    have := Nat.mul_lt_mul_of_pos_right hab pagesPerEu_pos
    rw [calcAddress_eq, calcAddress_eq]
    omega
  have hvalid := hsorted.filter f.good
  unfold Flash.validEuAt at h ⊢
  cases hl : (slotEus slotId).filter f.good with
  | nil => rw [hl] at h; exact absurd rfl h
  | cons eu eus =>
    cases eus with
    | nil => rw [hl] at h; exact absurd rfl h
    | cons eu' eus =>
      rw [hl] at hvalid
      exact (List.pairwise_cons.mp hvalid).1 eu' List.mem_cons_self

/-- The erase unit stands for the one whose place is `expected`, and is not a copy-back. -/
def Flash.standsFor (f : Flash) (expected eu : Nat) : Bool :=
  f.good eu && (f.page eu).flags.slotEuOffset == expected && !(f.page eu).flags.copyBack

theorem Flash.standsFor_iff {f : Flash} {expected eu : Nat} : f.standsFor expected eu = true ↔
    f.good eu = true ∧ (f.page eu).flags.slotEuOffset = expected ∧
      (f.page eu).flags.copyBack = false := by
  simp [Flash.standsFor, and_assoc]

theorem findReserveEu_run {eus : List Nat} (heus : ∀ eu ∈ eus, eu < pageCount) (expected : Nat) :
    findReserveEu expected eus s = .ok (eus.find? (s.flash.standsFor expected)) s := by
  induction eus with
  | nil => rfl
  | cons eu eus ih =>
    have ih := ih fun e he => heus e (List.mem_cons_of_mem _ he)
    have hlt := heus eu List.mem_cons_self
    unfold findReserveEu
    rw [bind_ok (nandCheckEuStatus_run hlt)]
    by_cases hst : s.flash.standsFor expected eu = true
    · obtain ⟨hgood, hflags⟩ := Flash.standsFor_iff.mp hst
      rw [hgood, if_pos rfl, bind_ok (nandReadPageFlags_run hlt), if_pos hflags,
        List.find?_cons_of_pos hst]
      rfl
    · rw [List.find?_cons_of_neg hst]
      cases hgood : s.flash.good eu with
      | false => rw [if_neg Bool.false_ne_true, ih]
      | true =>
        have hflags := fun h => hst (Flash.standsFor_iff.mpr ⟨hgood, h⟩)
        rw [if_pos rfl, bind_ok (nandReadPageFlags_run hlt), if_neg hflags, ih]

/-- The reserve erase unit that stands for the erase unit at `eu`. -/
def World.reserveOf (w : World) (eu : Nat) : Option Nat :=
  (w.segMap.reserveEus (calcEuOffset eu)).find?
    (w.flash.standsFor (calculateSlotIdAndEuOffset eu))

theorem logicalAddressToReservePhysical_run (h : s.segMap.ReservesInChip) {eu : Nat}
    (heu : IsEu eu) : logicalAddressToReservePhysical eu s =
      .ok ((s.reserveOf eu).getD phyAddressEmpty) s := by
  unfold logicalAddressToReservePhysical
  rw [bind_ok (show getSegMap s = .ok s.segMap s from rfl),
    bind_ok (findReserveEu_run (fun e he => (h.isEu he).lt) _)]
  unfold World.reserveOf
  cases (s.segMap.reserveEus (calcEuOffset eu)).find?
      (s.flash.standsFor (calculateSlotIdAndEuOffset eu)) with
  | none => rfl
  | some e =>
    show EStateM.Result.ok (e + calcOffsetInEu eu) s = _
    rw [heu.offset]
    rfl

/-- The erase unit is free to replace another, and is not the copy-back one. -/
def Flash.freeEu (f : Flash) (cbEu eu : Nat) : Bool :=
  f.good eu && cbEu != eu && (f.page eu).flags.slotEuOffset == noSlotAndEuOffset

theorem Flash.freeEu_iff {f : Flash} {cbEu eu : Nat} : f.freeEu cbEu eu = true ↔
    f.good eu = true ∧ cbEu ≠ eu ∧ (f.page eu).flags.slotEuOffset = noSlotAndEuOffset := by
  simp [Flash.freeEu, and_assoc]

theorem findFreeEu_run {eus : List Nat} (heus : ∀ eu ∈ eus, eu < pageCount) (cbEu : Nat) :
    findFreeEu cbEu eus s = .ok (eus.find? (s.flash.freeEu cbEu)) s := by
  induction eus with
  | nil => rfl
  | cons eu eus ih =>
    have ih := ih fun e he => heus e (List.mem_cons_of_mem _ he)
    have hlt := heus eu List.mem_cons_self
    unfold findFreeEu
    rw [bind_ok (nandCheckEuStatus_run hlt)]
    by_cases hfree : s.flash.freeEu cbEu eu = true
    · obtain ⟨hgood, hne, hflags⟩ := Flash.freeEu_iff.mp hfree
      rw [hgood, if_pos rfl, if_pos hne, bind_ok (nandReadPageFlags_run hlt), if_pos hflags,
        List.find?_cons_of_pos hfree]
      rfl
    · rw [List.find?_cons_of_neg hfree]
      cases hgood : s.flash.good eu with
      | false => rw [if_neg Bool.false_ne_true, ih]
      | true =>
        rw [if_pos rfl]
        by_cases hne : cbEu ≠ eu
        · have hflags := fun h => hfree (Flash.freeEu_iff.mpr ⟨hgood, hne, h⟩)
          rw [if_pos hne, bind_ok (nandReadPageFlags_run hlt), if_neg hflags, ih]
        · rw [if_neg hne, ih]

theorem allocReserveEU_run (h : s.segMap.ReservesInChip) {eu : Nat} (heu : IsEu eu)
    (hcb : s.flash.validEuAt (s.segMap.segToSlot firstReserveSegment) 2 ≠ phyAddressEmpty) :
    allocReserveEU eu s = .ok (((s.segMap.reserveEus (calcEuOffset eu)).find?
      (s.flash.freeEu (s.flash.validEuAt (s.segMap.segToSlot firstReserveSegment) 2))).getD
        phyAddressEmpty) s := by
  unfold allocReserveEU
  rw [bind_ok (getCopybackEu_run h), bind_ok (assert_run (decide_eq_true hcb)),
    bind_ok (show getSegMap s = .ok s.segMap s from rfl),
    bind_ok (findFreeEu_run (fun e he => (h.isEu he).lt) _)]
  cases (s.segMap.reserveEus (calcEuOffset eu)).find?
      (s.flash.freeEu (s.flash.validEuAt (s.segMap.segToSlot firstReserveSegment) 2)) with
  | none => rfl
  | some e =>
    show EStateM.Result.ok (e + calcOffsetInEu eu) s = _
    rw [heu.offset]
    rfl

/-- Which reserve erase unit is found depends on the chip and on the slots of the segments. -/
theorem allocReserveEU_congr {t : World} {eu r : Nat} (h : s.segMap.ReservesInChip) (heu : IsEu eu)
    (hcb : s.flash.validEuAt (s.segMap.segToSlot firstReserveSegment) 2 ≠ phyAddressEmpty)
    (hflash : t.flash = s.flash) (hslots : t.segMap.segToSlot = s.segMap.segToSlot)
    (hrun : allocReserveEU eu s = .ok r s) : allocReserveEU eu t = .ok r t := by
  have hr := (EStateM.Result.ok.inj (hrun.symm.trans (allocReserveEU_run h heu hcb))).1
  rw [allocReserveEU_run (s := t) (fun seg hseg => by rw [hslots]; exact h seg hseg) heu
    (by rw [hflash, hslots]; exact hcb), hflash, hslots,
    SegMap.reserveEus_congr (fun seg _ => congrFun hslots seg), ← hr]

/-- With the middle masked to the start of the erase unit, the search looks at the first
page only: it answers the last page of the erase unit, or the first. -/
theorem getLastValidEuPage_run {eu : Nat} (heu : IsEu eu) : getLastValidEuPage eu s =
    .ok (if isPageUsed (s.flash.page eu).flags then eu + pagesPerEu - 1 else eu) s := by
  have hmid : ∀ last, eu ≤ last → last < eu + pagesPerEu → calcEuStart ((eu + last) / 2) = eu := by
    intro last hge hlt
    have hoff : (eu + last) / 2 = eu + (last - eu) / 2 := by omega
    rw [hoff]
    exact heu.calcEuStart_add (by omega)
  have hloop : ∀ n last, eu ≤ last → last < eu + pagesPerEu →
      lastValidEuPageLoop eu n eu last s =
        .ok (if isPageUsed (s.flash.page eu).flags ∨ n = 0 then last else eu) s := by
    intro n
    induction n with
    | zero => exact fun last _ _ => by rw [if_pos (.inr rfl)]; rfl
    | succ n ih =>
      intro last hge hlt
      unfold lastValidEuPageLoop
      rw [hmid last hge hlt, bind_ok (nandReadPageTotal_run heu.lt)]
      show (if isPageUsed (s.flash.page eu).flags = true then _ else _ : SeqM Nat) s = _
      by_cases hused : isPageUsed (s.flash.page eu).flags = true
      · rw [if_pos hused, ih last hge hlt, if_pos (Or.inl hused), if_pos (Or.inl hused)]
      · have hpos := pagesPerEu_pos
        have hno : ¬(isPageUsed (s.flash.page eu).flags = true ∨ n + 1 = 0) :=
          not_or_intro hused (Nat.succ_ne_zero n)
        rw [if_neg hused, ih eu (Nat.le_refl _) (by omega), ite_self, if_neg hno]
  have hpos := pagesPerEu_pos
  have hn : powPagesPerEu ≠ 0 := by have := powPagesPerEu_pos; omega
  unfold getLastValidEuPage
  rw [hloop _ _ (by omega) (by omega)]
  simp only [hn, or_false]

/-- Its answer counts as the last page wherever an erase unit has a page that is used. -/
theorem getLastValidEuPage_offset {eu : Nat} (heu : IsEu eu) : getLastValidEuPage eu s =
    .ok (eu + if isPageUsed (s.flash.page eu).flags then pagesPerEu - 1 else 0) s := by
  have hpos := pagesPerEu_pos
  rw [getLastValidEuPage_run heu]
  by_cases hused : isPageUsed (s.flash.page eu).flags = true
  · rw [if_pos hused, if_pos hused, Nat.add_sub_assoc hpos]
  · rw [if_neg hused, if_neg hused, Nat.add_zero]

end Searches

end NandFs
