import NandFs.CopyBackRun

/-! # The slots as if no erase unit were bad

A slot is written page by page; a page whose erase unit is bad lies at the same offset of a
reserve erase unit that stands for it.  `Contents` says what each page of each slot holds,
and `Layout` how a chip with bad erase units holds these contents: every erase unit of a data
slot has its home, an erase unit of the slot or one of the reserve slots, and a reserve erase
unit that is free is blank.  Programs, erases and marks of the chip are then writes, erases
and marks of the contents.
-/
namespace NandFs

open Program

variable [Config]

/-- What the log relies on of a page that it wrote. -/
structure Stored where
  main : Block
  obsolete : Bool
  checkpoint : CpLocation
  prev : LogAddr
  vots : Bool

def Page.stored (page : Page) : Stored where
  main := page.main
  obsolete := page.flags.obsolete
  checkpoint := page.flags.checkpoint
  prev := page.flags.prev
  vots := page.flags.vots

/-- The contents of the slots, by slot and offset in it; `none` is an erased page. -/
abbrev Contents := Nat → Nat → Option Stored

namespace Contents

/-- A page is written. -/
def set (c : Contents) (slot offset : Nat) (stored : Stored) : Contents :=
  Function.update c slot (Function.update (c slot) offset (some stored))

/-- A slot is erased. -/
def clear (c : Contents) (slot : Nat) : Contents := Function.update c slot fun _ => none

/-- The erase units `eus` of a slot are erased. -/
def clearEus (c : Contents) (slot : Nat) (eus : List Nat) : Contents :=
  Function.update c slot fun o => if o / pagesPerEu ∈ eus then none else c slot o

/-- No page of the erase unit is written. -/
def EuBlank (c : Contents) (slot eu : Nat) : Prop :=
  ∀ i < pagesPerEu, c slot (eu * pagesPerEu + i) = none

variable {c : Contents} {slot offset : Nat} {stored : Stored}

@[simp] theorem set_self : c.set slot offset stored slot offset = some stored := by
  simp [set]

theorem set_of_ne_slot {slot' : Nat} (h : slot' ≠ slot) (o : Nat) :
    c.set slot offset stored slot' o = c slot' o := by
  rw [set, Function.update_of_ne h]

theorem set_of_ne {o : Nat} (h : o ≠ offset) : c.set slot offset stored slot o = c slot o := by
  rw [set, Function.update_self, Function.update_of_ne h]

@[simp] theorem clear_self (o : Nat) : c.clear slot slot o = none := by
  simp [clear]

theorem clearEus_of_mem {o : Nat} {eus : List Nat} (h : o / pagesPerEu ∈ eus) :
    c.clearEus slot eus slot o = none := by
  rw [clearEus, Function.update_self, if_pos h]

theorem clearEus_of_not_mem {o : Nat} {eus : List Nat} (h : o / pagesPerEu ∉ eus) :
    c.clearEus slot eus slot o = c slot o := by
  rw [clearEus, Function.update_self, if_neg h]

theorem clearEus_of_ne {slot' : Nat} {eus : List Nat} (h : slot' ≠ slot) (o : Nat) :
    c.clearEus slot eus slot' o = c slot' o := by
  rw [clearEus, Function.update_of_ne h]

/-- Erase units that are erased in two steps. -/
theorem clearEus_clearEus (c : Contents) (slot : Nat) {first second all : List Nat}
    (h : ∀ e, e ∈ all ↔ e ∈ first ∨ e ∈ second) :
    (c.clearEus slot first).clearEus slot second = c.clearEus slot all := by
  funext slot' o
  by_cases hs : slot' = slot
  · subst hs
    by_cases hsecond : o / pagesPerEu ∈ second
    · rw [clearEus_of_mem hsecond, clearEus_of_mem ((h _).mpr (.inr hsecond))]
    · rw [clearEus_of_not_mem hsecond]
      by_cases hfirst : o / pagesPerEu ∈ first
      · rw [clearEus_of_mem hfirst, clearEus_of_mem ((h _).mpr (.inl hfirst))]
      · rw [clearEus_of_not_mem hfirst,
          clearEus_of_not_mem fun hm => ((h _).mp hm).elim hfirst hsecond]
  · rw [clearEus_of_ne hs, clearEus_of_ne hs, clearEus_of_ne hs]

theorem clear_of_ne {slot' : Nat} (h : slot' ≠ slot) (o : Nat) :
    c.clear slot slot' o = c slot' o := by
  rw [clear, Function.update_of_ne h]

end Contents

/-! ## Erase units and their places -/

/-- The first address of an erase unit of a slot. -/
def euAt (slot eu : Nat) : Nat := calcAddress slot eu 0

section Places
variable {slot slot' eu eu' o i : Nat}

theorem div_lt_eusPerSlot (h : o < pagesPerSlot) : o / pagesPerEu < eusPerSlot := by
  rw [Nat.div_lt_iff_lt_mul pagesPerEu_pos, ← pagesPerSlot_eq]
  exact h

theorem calcAddress_eq_euAt (slot o : Nat) :
    calcAddress slot 0 o = euAt slot (o / pagesPerEu) + o % pagesPerEu := by
  have := Nat.div_add_mod o pagesPerEu
  unfold euAt calcAddress
  rw [Nat.mul_comm] at this
  omega

theorem isEu_euAt (hs : slot < nSlots) (heu : eu < eusPerSlot) : IsEu (euAt slot eu) :=
  isEu_calcAddress hs heu

theorem getSlot_euAt (heu : eu < eusPerSlot) (hi : i < pagesPerEu) :
    getSlot (euAt slot eu + i) = slot := by
  have h : getSlot (calcAddress slot eu i) = slot := getSlot_calcAddress (offset_lt heu hi)
  rwa [calcAddress_eq, ← Nat.add_assoc, ← Nat.add_zero (eu * pagesPerEu), ← calcAddress_eq] at h

theorem euAt_inj (heu : eu < eusPerSlot) (heu' : eu' < eusPerSlot)
    (h : euAt slot eu = euAt slot' eu') : slot = slot' ∧ eu = eu' := by
  have hslot : getSlot (euAt slot eu + 0) = slot := getSlot_euAt heu pagesPerEu_pos
  have hs : slot = slot' := by rw [← hslot, h, getSlot_euAt heu' pagesPerEu_pos]
  subst hs
  refine ⟨rfl, ?_⟩
  unfold euAt calcAddress at h
  exact Nat.eq_of_mul_eq_mul_right pagesPerEu_pos (by omega)

theorem place_inj (hs : slot < nSlots) (hs' : slot' < nSlots) (heu : eu < eusPerSlot)
    (heu' : eu' < eusPerSlot)
    (h : calculateSlotIdAndEuOffset (euAt slot eu) = calculateSlotIdAndEuOffset (euAt slot' eu')) :
    slot = slot' ∧ eu = eu' := by
  refine euAt_inj heu heu' ?_
  rw [← (isEu_euAt hs heu).extractAddr_calculate, h, (isEu_euAt hs' heu').extractAddr_calculate]

theorem place_lt (hs : slot < nSlots) (heu : eu < eusPerSlot) :
    calculateSlotIdAndEuOffset (euAt slot eu) < 2 ^ 23 :=
  calculateSlotIdAndEuOffset_lt (isEu_euAt hs heu).lt

end Places

/-! ## Homes -/

/-- None of the reserve segments has the slot. -/
structure SegMap.IsDataSlot (m : SegMap) (slot : Nat) : Prop where
  lt : slot < nSlots
  data : ∀ seg ∈ reserveSegments, m.segToSlot seg ≠ slot

/-- An erase unit of a reserve slot. -/
def SegMap.IsReserveEu (m : SegMap) (eu : Nat) : Prop :=
  ∃ seg ∈ reserveSegments, ∃ k < eusPerSlot, eu = euAt (m.segToSlot seg) k

/-- The erase unit `home` holds the pages of erase unit `eu` of the slot: it is that erase unit
or, where that is bad, the reserve erase unit that stands for it. -/
inductive IsHome (f : Flash) (m : SegMap) (slot eu : Nat) : Nat → Prop
  | self (good : f.good (euAt slot eu) = true) : IsHome f m slot eu (euAt slot eu)
  | reserve {home : Nat} (bad : f.good (euAt slot eu) = false) (mem : m.IsReserveEu home)
      (stands : f.standsFor (calculateSlotIdAndEuOffset (euAt slot eu)) home = true) :
      IsHome f m slot eu home

/-- The page is one that the log writes: it is in use, and not a copy-back. -/
structure Page.Written (page : Page) : Prop where
  copyBack : page.flags.copyBack = false
  used : isPageUsed page.flags = true

/-- The page holds what is stored, or is blank. -/
def PageHolds (f : Flash) (a : Nat) : Option Stored → Prop
  | some stored => (f.page a).stored = stored ∧ (f.page a).Written
  | none => f.page a = initBuf ∧ f.mainAreaWrites a = false

/-- The reserve erase unit is free. -/
def Flash.IsFree (f : Flash) (eu : Nat) : Prop :=
  f.good eu = true ∧ (f.page eu).flags.slotEuOffset = noSlotAndEuOffset

/-- The chip holds the contents `c` in its data slots. -/
structure Layout (f : Flash) (m : SegMap) (c : Contents) : Prop where
  reserves : m.ReservesInChip
  holds : ∀ {slot eu home}, m.IsDataSlot slot → eu < eusPerSlot → IsHome f m slot eu home →
    ∀ i < pagesPerEu, PageHolds f (home + i) (c slot (eu * pagesPerEu + i))
  replaced : ∀ {slot eu}, m.IsDataSlot slot → eu < eusPerSlot → f.good (euAt slot eu) = false →
    ((∃ home, IsHome f m slot eu home) ↔ ¬c.EuBlank slot eu)
  free : ∀ {eu}, m.IsReserveEu eu → f.IsFree eu → ∀ i < pagesPerEu, PageHolds f (eu + i) none
  unique : ∀ {p eu eu'}, p < 2 ^ 23 → m.IsReserveEu eu → m.IsReserveEu eu' →
    f.standsFor p eu = true → f.standsFor p eu' = true → eu = eu'
  unreplaced : ∀ {seg eu home}, seg ∈ reserveSegments → eu < eusPerSlot →
    f.good (euAt (m.segToSlot seg) eu) = false → ¬IsHome f m (m.segToSlot seg) eu home

/-! ## Reserve erase units -/

theorem SegMap.mem_reserveEus {m : SegMap} {euOffset eu : Nat} :
    eu ∈ m.reserveEus euOffset ↔ m.IsReserveEu eu := by
  have hpos := eusPerSlot_pos
  simp only [SegMap.reserveEus, cyclicEus, List.mem_flatMap, List.mem_map, List.mem_range]
  constructor
  · rintro ⟨seg, hseg, _, ⟨k, -, rfl⟩, rfl⟩
    exact ⟨seg, hseg, _, Nat.mod_lt _ hpos, rfl⟩
  · rintro ⟨seg, hseg, k, hk, rfl⟩
    -- the search starts at `euOffset` and goes round
    refine ⟨seg, hseg, k, ⟨(k + (eusPerSlot - euOffset % eusPerSlot)) % eusPerSlot,
      Nat.mod_lt _ hpos, ?_⟩, rfl⟩
    have hlt := Nat.mod_lt euOffset hpos
    have hround : euOffset % eusPerSlot + (k + (eusPerSlot - euOffset % eusPerSlot))
        = k + eusPerSlot := by omega
    rw [Nat.add_mod_mod, ← Nat.mod_add_mod, hround, Nat.add_mod_right, Nat.mod_eq_of_lt hk]

theorem SegMap.ReservesInChip.isEu_reserve {m : SegMap} (h : m.ReservesInChip) {eu : Nat}
    (hmem : m.IsReserveEu eu) : IsEu eu := by
  obtain ⟨seg, hseg, k, hk, rfl⟩ := hmem
  exact isEu_euAt (h seg hseg) hk

theorem SegMap.IsReserveEu.congr {m m' : SegMap} {eu : Nat} (h : m.IsReserveEu eu)
    (hm : ∀ seg ∈ reserveSegments, m'.segToSlot seg = m.segToSlot seg) : m'.IsReserveEu eu := by
  obtain ⟨seg, hseg, k, hk, rfl⟩ := h
  exact ⟨seg, hseg, k, hk, by rw [hm seg hseg]⟩

/-- No erase unit of a data slot is a reserve erase unit. -/
theorem SegMap.IsDataSlot.not_reserve {m : SegMap} {slot eu : Nat} (h : m.IsDataSlot slot)
    (heu : eu < eusPerSlot) : ¬m.IsReserveEu (euAt slot eu) := by
  rintro ⟨seg, hseg, k, hk, he⟩
  exact h.data seg hseg (euAt_inj heu hk he).1.symm

omit [Config] in
theorem place_ne_empty {p : Nat} (h : p < 2 ^ 23) : p ≠ noSlotAndEuOffset := by
  unfold noSlotAndEuOffset
  omega

section Homes
variable {f : Flash} {m : SegMap} {slot slot' eu eu' home home' : Nat}

theorem IsHome.good (h : IsHome f m slot eu home) : f.good home = true := by
  cases h with
  | self good => exact good
  | reserve _ _ stands => exact (Flash.standsFor_iff.mp stands).1

/-- A home depends on the reserve segments of the map only. -/
theorem IsHome.congr {m' : SegMap} (h : IsHome f m slot eu home)
    (hm : ∀ seg ∈ reserveSegments, m'.segToSlot seg = m.segToSlot seg) :
    IsHome f m' slot eu home := by
  cases h with
  | self good => exact .self good
  | reserve bad mem stands => exact .reserve bad (mem.congr hm) stands

/-- An erase unit that is free is nobody's home. -/
theorem IsHome.not_free (h : IsHome f m slot eu home) (hslot : m.IsDataSlot slot)
    (heu : eu < eusPerSlot) (hmem : m.IsReserveEu home) : ¬f.IsFree home := by
  intro hfree
  cases h with
  | self => exact hslot.not_reserve heu hmem
  | reserve _ _ stands =>
    have hflag := (Flash.standsFor_iff.mp stands).2.1
    exact place_ne_empty (place_lt hslot.lt heu) (hflag.symm.trans hfree.2)

/-- Different erase units have different homes. -/
theorem IsHome.inj (h : IsHome f m slot eu home) (h' : IsHome f m slot' eu' home)
    (hslot : m.IsDataSlot slot) (hslot' : m.IsDataSlot slot') (heu : eu < eusPerSlot)
    (heu' : eu' < eusPerSlot) : slot = slot' ∧ eu = eu' := by
  cases h with
  | self =>
    generalize hhome : euAt slot eu = a at h'
    cases h' with
    | self => exact euAt_inj heu heu' hhome
    | reserve _ mem =>
      rw [← hhome] at mem
      exact absurd mem (hslot.not_reserve heu)
  | reserve _ mem stands =>
    cases h' with
    | self => exact absurd mem (hslot'.not_reserve heu')
    | reserve _ _ stands' =>
      have hflag := (Flash.standsFor_iff.mp stands).2.1
      have hflag' := (Flash.standsFor_iff.mp stands').2.1
      exact place_inj hslot.lt hslot'.lt heu heu' (hflag.symm.trans hflag')

end Homes

namespace Layout
variable {f : Flash} {m : SegMap} {c : Contents} {slot eu o home home' : Nat}

theorem isEu_home (h : Layout f m c) (hslot : m.IsDataSlot slot) (heu : eu < eusPerSlot)
    (hh : IsHome f m slot eu home) : IsEu home := by
  cases hh with
  | self => exact isEu_euAt hslot.lt heu
  | reserve _ mem => exact h.reserves.isEu_reserve mem

theorem home_unique (h : Layout f m c) (hslot : m.IsDataSlot slot) (heu : eu < eusPerSlot)
    (hh : IsHome f m slot eu home) (hh' : IsHome f m slot eu home') : home = home' := by
  cases hh with
  | self good =>
    cases hh' with
    | self => rfl
    | reserve bad => rw [good] at bad; exact absurd bad Bool.true_eq_false.mp
  | reserve bad mem stands =>
    cases hh' with
    | self good => rw [good] at bad; exact absurd bad Bool.true_eq_false.mp
    | reserve _ mem' stands' => exact h.unique (place_lt hslot.lt heu) mem mem' stands stands'

/-- What is written has a home. -/
theorem exists_home (h : Layout f m c)
    (hslot : m.IsDataSlot slot) (ho : o < pagesPerSlot) (hc : c slot o ≠ none) :
    ∃ home, IsHome f m slot (o / pagesPerEu) home := by
  cases hgood : f.good (euAt slot (o / pagesPerEu)) with
  | true => exact ⟨_, .self hgood⟩
  | false =>
    refine (h.replaced hslot (div_lt_eusPerSlot ho) hgood).mpr fun hblank => hc ?_
    have hno := hblank (o % pagesPerEu) (Nat.mod_lt _ pagesPerEu_pos)
    rwa [Nat.mul_comm, Nat.div_add_mod] at hno

theorem holds_at (h : Layout f m c)
    (hslot : m.IsDataSlot slot) (ho : o < pagesPerSlot)
    (hh : IsHome f m slot (o / pagesPerEu) home) :
    PageHolds f (home + o % pagesPerEu) (c slot o) := by
  have hpage := h.holds hslot (div_lt_eusPerSlot ho) hh _ (Nat.mod_lt o pagesPerEu_pos)
  rwa [Nat.mul_comm, Nat.div_add_mod] at hpage

/-- The layout depends on the pages of the data slots only. -/
theorem congr_contents {c' : Contents} (h : Layout f m c)
    (hc : ∀ slot, m.IsDataSlot slot → ∀ o < pagesPerSlot, c' slot o = c slot o) :
    Layout f m c' := by
  have hpage : ∀ {slot eu i}, m.IsDataSlot slot → eu < eusPerSlot → i < pagesPerEu →
      c' slot (eu * pagesPerEu + i) = c slot (eu * pagesPerEu + i) :=
    fun hs he hi => hc _ hs _ (offset_lt he hi)
  constructor
  · exact h.reserves
  · intro s e a hs he hh i hi
    rw [hpage hs he hi]
    exact h.holds hs he hh i hi
  · intro s e hs he hbad
    rw [h.replaced hs he hbad, not_iff_not]
    exact forall₂_congr fun i hi => by rw [hpage hs he hi]
  · exact h.free
  · exact h.unique
  · exact h.unreplaced

/-- The layout depends on the reserve segments of the map only. -/
theorem congr {m' : SegMap} (h : Layout f m c)
    (hm : ∀ seg ∈ reserveSegments, m'.segToSlot seg = m.segToSlot seg) : Layout f m' c := by
  have hres : ∀ {e}, m'.IsReserveEu e → m.IsReserveEu e := fun he =>
    he.congr fun seg hseg => (hm seg hseg).symm
  have hdata : ∀ {s}, m'.IsDataSlot s → m.IsDataSlot s := fun hs =>
    ⟨hs.lt, fun seg hseg => by rw [← hm seg hseg]; exact hs.data seg hseg⟩
  have hhome : ∀ {s e a}, IsHome f m' s e a ↔ IsHome f m s e a := fun {_ _ _} =>
    ⟨fun hh => hh.congr fun seg hseg => (hm seg hseg).symm, fun hh => hh.congr hm⟩
  constructor
  · intro seg hseg
    rw [hm seg hseg]
    exact h.reserves seg hseg
  · intro s e a hs he hh
    exact h.holds (hdata hs) he (hhome.mp hh)
  · intro s e hs he hbad
    simp only [hhome]
    exact h.replaced (hdata hs) he hbad
  · intro e he
    exact h.free (hres he)
  · intro p e e' hp he he'
    exact h.unique hp (hres he) (hres he')
  · intro seg e a hseg he hbad hh
    rw [hm seg hseg] at hbad hh
    exact h.unreplaced hseg he hbad (hhome.mp hh)

end Layout

/-! ## Look-ups -/

theorem IsEu.good_add {f : Flash} {eu i : Nat} (h : IsEu eu) (hi : i < pagesPerEu) :
    f.good (eu + i) = f.good eu := by
  rw [Flash.good, h.div_add hi, ← Nat.add_zero eu, h.div_add pagesPerEu_pos, Nat.add_zero,
    Flash.good]

theorem IsEu.calcEuOffset_add {eu i : Nat} (h : IsEu eu) (hi : i < pagesPerEu) :
    calcEuOffset (eu + i) = calcEuOffset eu := by
  have hmod : ∀ j < pagesPerEu, calcEuOffset (eu + j) = eu / pagesPerEu % eusPerSlot := by
    intro j hj
    rw [calcEuOffset, calcOffsetInSlot, pagesPerSlot_eq, Nat.mul_comm, Nat.mod_mul_right_div_self,
      h.div_add hj]
  have h0 := hmod 0 pagesPerEu_pos
  rw [Nat.add_zero] at h0
  rw [hmod i hi, h0]

/-- The search for the page of an erase unit that is replaced. -/
theorem logicalAddressToReservePhysical_add {s : World} (h : s.segMap.ReservesInChip) {eu i : Nat}
    (heu : IsEu eu) (hi : i < pagesPerEu) : logicalAddressToReservePhysical (eu + i) s =
      .ok (((s.reserveOf eu).map (· + i)).getD phyAddressEmpty) s := by
  unfold logicalAddressToReservePhysical
  rw [bind_ok (show getSegMap s = .ok s.segMap s from rfl),
    bind_ok (findReserveEu_run (fun e he => (h.isEu he).lt) _), heu.calcEuOffset_add hi,
    heu.calculateSlotIdAndEuOffset_add hi, heu.calcOffsetInEu_add hi]
  unfold World.reserveOf
  cases (s.segMap.reserveEus (calcEuOffset eu)).find?
    (s.flash.standsFor (calculateSlotIdAndEuOffset eu)) <;> rfl

section Lookups
variable {w : World} {c : Contents} {slot eu o home : Nat} (h : Layout w.flash w.segMap c)
  (hslot : w.segMap.IsDataSlot slot)
include h hslot

theorem Layout.reserveOf_eq_some (heu : eu < eusPerSlot) (hmem : w.segMap.IsReserveEu home)
    (hst : w.flash.standsFor (calculateSlotIdAndEuOffset (euAt slot eu)) home = true) :
    w.reserveOf (euAt slot eu) = some home :=
  find?_eq_some_of_unique (SegMap.mem_reserveEus.mpr hmem) hst fun _ hb hbst =>
    h.unique (place_lt hslot.lt heu) (SegMap.mem_reserveEus.mp hb) hmem hbst hst

omit h hslot in
theorem reserveOf_eq_none (hno : ∀ home, w.segMap.IsReserveEu home →
    w.flash.standsFor (calculateSlotIdAndEuOffset (euAt slot eu)) home = false) :
    w.reserveOf (euAt slot eu) = none := by
  refine List.find?_eq_none.mpr fun b hb => ?_
  rw [hno b (SegMap.mem_reserveEus.mp hb)]
  exact Bool.false_ne_true

/-- An erase unit that is bad and replaced is found at its home. -/
theorem Layout.reservePhysical_run (hbad : w.flash.good (euAt slot eu) = false)
    (heu : eu < eusPerSlot) (hh : IsHome w.flash w.segMap slot eu home) {i : Nat}
    (hi : i < pagesPerEu) :
    logicalAddressToReservePhysical (euAt slot eu + i) w = .ok (home + i) w := by
  rw [logicalAddressToReservePhysical_add h.reserves (isEu_euAt hslot.lt heu) hi]
  cases hh with
  | self good => rw [good] at hbad; exact absurd hbad Bool.true_eq_false.mp
  | reserve _ mem stands => rw [h.reserveOf_eq_some hslot heu mem stands]; rfl

/-- A bad erase unit with blank contents is not found. -/
theorem Layout.reservePhysical_run_blank (hbad : w.flash.good (euAt slot eu) = false)
    (heu : eu < eusPerSlot) (hblank : c.EuBlank slot eu) {i : Nat} (hi : i < pagesPerEu) :
    logicalAddressToReservePhysical (euAt slot eu + i) w = .ok phyAddressEmpty w := by
  rw [logicalAddressToReservePhysical_add h.reserves (isEu_euAt hslot.lt heu) hi,
    reserveOf_eq_none fun a ha => ?_]
  · rfl
  · rw [← Bool.not_eq_true]
    intro hst
    exact (h.replaced hslot heu hbad).mp ⟨a, .reserve hbad ha hst⟩ hblank

/-- A logical address is found at the home of its page. -/
theorem Layout.logicalAddressToPhysical_run {a : LogAddr}
    (hne : w.segMap.segToSlot a.segment ≠ noSlot) (ho : a.offset < pagesPerSlot)
    (hexp : w.segMap.expectedPage a = calcAddress slot 0 a.offset)
    (hh : IsHome w.flash w.segMap slot (a.offset / pagesPerEu) home) :
    logicalAddressToPhysical a w = .ok (home + a.offset % pagesPerEu) w := by
  have heu := div_lt_eusPerSlot ho
  have hi := Nat.mod_lt a.offset pagesPerEu_pos
  have hstart := isEu_euAt hslot.lt heu
  unfold logicalAddressToPhysical
  rw [bind_ok (show getSegMap w = .ok w.segMap w from rfl),
    bind_ok (assert_run (bne_iff_ne.mpr hne)), bind_ok (assert_run (decide_eq_true ho)), hexp,
    calcAddress_eq_euAt, hstart.calcEuStart_add hi, bind_ok (nandCheckEuStatus_run hstart.lt)]
  cases hgood : w.flash.good (euAt slot (a.offset / pagesPerEu)) with
  | true =>
    rw [if_pos rfl]
    cases hh with
    | self => rfl
    | reserve bad => rw [hgood] at bad; exact absurd bad Bool.true_eq_false.mp
  | false =>
    rw [if_neg Bool.false_ne_true]
    exact h.reservePhysical_run hslot hgood heu hh hi

end Lookups

end NandFs
