import Mathlib.Tactic.Ring
import Mathlib.Algebra.Order.Ring.Nat

/-! # The compile-time configuration

The macros of `nand.h` and `sequencing.h`: the geometry of the chip, how it is cut into
slots, and the arithmetic of physical addresses.  A `Config` carries the bounds the layouts
of the source rely on (a slot has several erase units, an offset and a slot fit in their
twelve bits, a slot and an erase unit in the twenty-four of the spare area), so an address
computed from one never overflows its field.  `smallPage` and `largePage` are the two
configurations of the source, without and with `LARGE_PAGE`.
-/
namespace NandFs

class Config where
  /-- `POWER_NAND_PAGES_PER_ERASE_UNIT` -/
  powPagesPerEu : Nat
  /-- `POWER_NAND_PAGE_SIZE` -/
  powPageSize : Nat
  /-- `NAND_ADDRESS_EU_BITS_COUNT` -/
  euBits : Nat
  /-- `POWER_SEQ_N_SLOTS_COUNT` -/
  powSlots : Nat
  /-- built with `Debug`, where wear leveling does not toss for its slot -/
  debug : Bool
  powPagesPerEu_pos : 0 < powPagesPerEu
  powPageSize_ge : 4 ≤ powPageSize
  powSlots_ge : 3 ≤ powSlots
  powSlots_lt : powSlots < euBits
  slotBits_le : powPagesPerEu + euBits ≤ powSlots + 11
  flagBits_le : powSlots + euBits ≤ 23

/-- The 512-byte page chip. -/
@[reducible] def smallPage : Config where
  powPagesPerEu := 5
  powPageSize := 9
  euBits := 11
  powSlots := 9
  debug := true
  powPagesPerEu_pos := by decide
  powPageSize_ge := by decide
  powSlots_ge := by decide
  powSlots_lt := by decide
  slotBits_le := by decide
  flagBits_le := by decide

/-- The 2048-byte page chip. -/
@[reducible] def largePage : Config where
  powPagesPerEu := 6
  powPageSize := 11
  euBits := 13
  powSlots := 9
  debug := true
  powPagesPerEu_pos := by decide
  powPageSize_ge := by decide
  powSlots_ge := by decide
  powSlots_lt := by decide
  slotBits_le := by decide
  flagBits_le := by decide

/-- A chip of sixty-four pages, small enough to run examples on. -/
@[reducible] def tinyPage : Config where
  powPagesPerEu := 2
  powPageSize := 4
  euBits := 4
  powSlots := 3
  debug := true
  powPagesPerEu_pos := by decide
  powPageSize_ge := by decide
  powSlots_ge := by decide
  powSlots_lt := by decide
  slotBits_le := by decide
  flagBits_le := by decide

/-- Eight slots of four erase units, and an erase unit that holds a header and a block. -/
@[reducible] def widePage : Config where
  powPagesPerEu := 2
  powPageSize := 4
  euBits := 5
  powSlots := 3
  debug := true
  powPagesPerEu_pos := by decide
  powPageSize_ge := by decide
  powSlots_ge := by decide
  powSlots_lt := by decide
  slotBits_le := by decide
  flagBits_le := by decide

/-- The chip with pages of thirty-two bytes. -/
@[reducible] def page32 : Config where
  powPagesPerEu := 2
  powPageSize := 5
  euBits := 4
  powSlots := 3
  debug := true
  powPagesPerEu_pos := by decide
  powPageSize_ge := by decide
  powSlots_ge := by decide
  powSlots_lt := by decide
  slotBits_le := by decide
  flagBits_le := by decide

variable [Config]

open Config

/-! ## Sizes -/

/-- `NAND_PAGES_PER_ERASE_UNIT` -/
def pagesPerEu : Nat := 2 ^ powPagesPerEu

/-- `NAND_PAGE_SIZE`, in bytes -/
def pageSize : Nat := 2 ^ powPageSize

/-- `POWER_NAND_PAGE_COUNT` -/
def powPageCount : Nat := powPagesPerEu + euBits

/-- `NAND_PAGE_COUNT` -/
def pageCount : Nat := 2 ^ powPageCount

/-- `NAND_MAX_EU_OFFSET` -/
def maxEuOffset : Nat := pagesPerEu - 1

/-- `SEQ_N_SLOTS_COUNT` -/
def nSlots : Nat := 2 ^ powSlots

/-- `SEQ_K_RESERVE_SLOTS` -/
def kReserveSlots : Nat := 2

/-- `SEQ_SEGMENTS_COUNT`, `SEQ_DATA_SEGMENTS_COUNT` -/
def segmentsCount : Nat := nSlots - kReserveSlots - 1

/-- `SEQ_FIRST_RESERVE_SEGMENT` -/
def firstReserveSegment : Nat := nSlots - kReserveSlots

/-- `SEQ_NEW_SEGMENT` -/
def newSegment : Nat := firstReserveSegment - 1

/-- `POWER_SEQ_PAGES_PER_SLOT` -/
def powPagesPerSlot : Nat := powPageCount - powSlots

/-- `SEQ_PAGES_PER_SLOT` -/
def pagesPerSlot : Nat := 2 ^ powPagesPerSlot

/-- `SEQ_MAX_LOGICAL_OFFSET` -/
def maxLogicalOffset : Nat := pagesPerSlot - 1

/-- `SEQ_EUS_PER_SLOT` -/
def eusPerSlot : Nat := pagesPerSlot >>> powPagesPerEu

/-- `SEQ_NO_SLOT` -/
def noSlot : Nat := 0xfff

/-- `SEQ_NO_SEGMENT_NUM` -/
def noSegmentNum : Nat := 0xfff

/-- `SEQ_NO_PAGE_OFFSET` -/
def noPageOffset : Nat := 0xfff

/-- `SEQ_PHY_ADDRESS_EMPTY` -/
def phyAddressEmpty : Nat := 0xffffffff

/-- `SEQ_FIRST_PHY_ADDRESS_EMPTY` -/
def firstPhyAddressEmpty : Nat := 0xf00fffff

/-- `SEQ_NO_SLOT_AND_EU_OFFSET`, also `SEQ_SLOT_EU_ID_EMPTY` -/
def noSlotAndEuOffset : Nat := 0xffffff

/-- `SEQ_RESERVE_EU_IS_HEADER` -/
def reserveEuIsHeader : Nat := 0xf0ffff

/-! ## Address arithmetic -/

/-- `CALC_OFFSET_IN_EU` -/
def calcOffsetInEu (phyAddr : Nat) : Nat := phyAddr % pagesPerEu

/-- `CALC_EU_START`, the address masked with `NAND_EU_MASK` -/
def calcEuStart (phyAddr : Nat) : Nat := phyAddr - phyAddr % pagesPerEu

/-- `CALC_ADDRESS` -/
def calcAddress (slotId euOffset euPageOffset : Nat) : Nat :=
  slotId * pagesPerSlot + euOffset * pagesPerEu + euPageOffset

/-- `CALC_OFFSET_IN_SLOT` -/
def calcOffsetInSlot (address : Nat) : Nat := address % pagesPerSlot

/-- `CALC_EU_OFFSET` -/
def calcEuOffset (address : Nat) : Nat := calcOffsetInSlot address / pagesPerEu

/-- `GET_SLOT` -/
def getSlot (phyAddr : Nat) : Nat := phyAddr / pagesPerSlot

/-- `CALCULATE_SLOT_ID_AND_EU_OFFSET`: the slot above `NAND_ADDRESS_EU_BITS_COUNT` bits of
the erase unit's offset in it -/
def calculateSlotIdAndEuOffset (phyAddr : Nat) : Nat :=
  getSlot phyAddr * 2 ^ euBits + calcEuOffset phyAddr

/-- `EXTRACT_SLOT` -/
def extractSlot (slotEuFlag : Nat) : Nat := slotEuFlag / 2 ^ euBits % 2 ^ powSlots

/-- `EXTRACT_EU` -/
def extractEu (slotEuFlag : Nat) : Nat := slotEuFlag % 2 ^ euBits

/-- `EXTRACT_ADDR_FROM_SLOT_ID_AND_EU_OFFSET` -/
def extractAddrFromSlotIdAndEuOffset (slotEuFlag : Nat) : Nat :=
  calcAddress (extractSlot slotEuFlag) (extractEu slotEuFlag) 0

/-- `CALCULATE_IN_PAGES` -/
def calculateInPages (size : Nat) : Nat :=
  size / pageSize + if size % pageSize = 0 then 0 else 1

/-! ## Arithmetic of the configuration -/

theorem pagesPerEu_pos : 0 < pagesPerEu := Nat.two_pow_pos _

/-- An erase unit has an even number of pages. -/
theorem pagesPerEu_even : ∃ p, 0 < p ∧ pagesPerEu = 2 * p := by
  obtain ⟨n, hn⟩ := Nat.exists_eq_succ_of_ne_zero Config.powPagesPerEu_pos.ne'
  exact ⟨2 ^ n, Nat.two_pow_pos n, by rw [pagesPerEu, hn, Nat.pow_succ, Nat.mul_comm]⟩

theorem pageSize_pos : 0 < pageSize := Nat.two_pow_pos _

theorem pagesPerSlot_pos : 0 < pagesPerSlot := Nat.two_pow_pos _

theorem powSlots_le : powSlots ≤ 11 := by
  have := powSlots_lt
  have := flagBits_le
  omega

theorem nSlots_ge : 8 ≤ nSlots := by
  have h : 2 ^ 3 ≤ nSlots := Nat.pow_le_pow_right (by decide) powSlots_ge
  exact h

theorem nSlots_le : nSlots ≤ 2048 := by
  have h : nSlots ≤ 2 ^ 11 := Nat.pow_le_pow_right (by decide) powSlots_le
  exact h

theorem nSlots_even : nSlots % 2 = 0 := by
  have h := powSlots_ge
  unfold nSlots
  obtain ⟨k, hk⟩ := Nat.exists_eq_add_of_lt (show 0 < powSlots by omega)
  rw [show powSlots = k + 1 by omega, Nat.pow_succ]
  omega

theorem segmentsCount_add : segmentsCount + 3 = nSlots := by
  have := nSlots_ge
  unfold segmentsCount kReserveSlots
  omega

theorem newSegment_eq : newSegment = segmentsCount := by
  unfold newSegment firstReserveSegment segmentsCount
  omega

theorem firstReserveSegment_eq : firstReserveSegment = segmentsCount + 1 := by
  have := segmentsCount_add
  unfold firstReserveSegment kReserveSlots
  omega

theorem eusPerSlot_eq : eusPerSlot = 2 ^ (euBits - powSlots) := by
  have := powSlots_lt
  unfold eusPerSlot pagesPerSlot powPagesPerSlot powPageCount
  rw [Nat.shiftRight_eq_div_pow, Nat.pow_div (by omega) (by decide)]
  congr 1
  omega

theorem eusPerSlot_pos : 0 < eusPerSlot := by
  rw [eusPerSlot_eq]
  exact Nat.two_pow_pos _

theorem pagesPerSlot_eq : pagesPerSlot = eusPerSlot * pagesPerEu := by
  have := powSlots_lt
  rw [eusPerSlot_eq, pagesPerEu, ← Nat.pow_add, pagesPerSlot, powPagesPerSlot, powPageCount]
  congr 1
  omega

theorem pageCount_eq : pageCount = nSlots * pagesPerSlot := by
  have := powSlots_lt
  rw [nSlots, pagesPerSlot, ← Nat.pow_add, pageCount, powPagesPerSlot, powPageCount]
  congr 1
  omega

theorem pagesPerSlot_le : pagesPerSlot ≤ 2048 := by
  have hb : powPagesPerSlot ≤ 11 := by
    have := slotBits_le
    unfold powPagesPerSlot powPageCount
    omega
  have h : pagesPerSlot ≤ 2 ^ 11 := Nat.pow_le_pow_right (by decide) hb
  exact h

theorem pageCount_le : pageCount ≤ 2 ^ 22 := by
  calc pageCount = nSlots * pagesPerSlot := pageCount_eq
    _ ≤ 2048 * 2048 := Nat.mul_le_mul nSlots_le pagesPerSlot_le
    _ = 2 ^ 22 := by norm_num

/-- A page of the chip has an address. -/
theorem ne_empty_of_lt {a : Nat} (h : a < pageCount) : a ≠ phyAddressEmpty := by
  have := pageCount_le
  unfold phyAddressEmpty
  omega

theorem nSlots_mul_lt : nSlots * 2 ^ euBits ≤ 2 ^ 23 := by
  rw [nSlots, ← Nat.pow_add]
  exact Nat.pow_le_pow_right (by decide) flagBits_le

/-- An erase unit of a slot, with an offset in it, lies in the slot. -/
theorem calcAddress_eq {slotId eu off : Nat} :
    calcAddress slotId eu off = slotId * pagesPerSlot + (eu * pagesPerEu + off) := by
  unfold calcAddress
  omega

theorem offset_lt {eu off : Nat} (heu : eu < eusPerSlot) (hoff : off < pagesPerEu) :
    eu * pagesPerEu + off < pagesPerSlot := by
  rw [pagesPerSlot_eq]
  calc eu * pagesPerEu + off < eu * pagesPerEu + pagesPerEu := by omega
    _ = (eu + 1) * pagesPerEu := by ring
    _ ≤ eusPerSlot * pagesPerEu := Nat.mul_le_mul_right _ heu

theorem getSlot_calcAddress {slotId eu off : Nat} (h : eu * pagesPerEu + off < pagesPerSlot) :
    getSlot (calcAddress slotId eu off) = slotId := by
  rw [calcAddress_eq, getSlot, Nat.mul_comm, Nat.mul_add_div pagesPerSlot_pos, Nat.div_eq_of_lt h,
    Nat.add_zero]

theorem calcAddress_lt {slotId eu off : Nat} (hs : slotId < nSlots)
    (h : eu * pagesPerEu + off < pagesPerSlot) : calcAddress slotId eu off < pageCount := by
  rw [calcAddress_eq, pageCount_eq]
  calc slotId * pagesPerSlot + (eu * pagesPerEu + off) < slotId * pagesPerSlot + pagesPerSlot := by
        omega
    _ = (slotId + 1) * pagesPerSlot := by ring
    _ ≤ nSlots * pagesPerSlot := Nat.mul_le_mul_right _ hs

theorem getSlot_lt {a : Nat} (h : a < pageCount) : getSlot a < nSlots := by
  rw [getSlot, Nat.div_lt_iff_lt_mul pagesPerSlot_pos, ← pageCount_eq]
  exact h

theorem calcEuOffset_lt (a : Nat) : calcEuOffset a < 2 ^ euBits := by
  refine lt_of_lt_of_le ?_ (Nat.pow_le_pow_right (by decide) (Nat.sub_le euBits powSlots))
  rw [← eusPerSlot_eq, calcEuOffset, Nat.div_lt_iff_lt_mul pagesPerEu_pos, ← pagesPerSlot_eq]
  exact Nat.mod_lt _ pagesPerSlot_pos

/-- The place of an erase unit, in the spare area of another, is never one of the values kept
for erase units that stand for none. -/
theorem calculateSlotIdAndEuOffset_lt {a : Nat} (h : a < pageCount) :
    calculateSlotIdAndEuOffset a < 2 ^ 23 := by
  have hs := getSlot_lt h
  have heu := calcEuOffset_lt a
  calc calculateSlotIdAndEuOffset a < getSlot a * 2 ^ euBits + 2 ^ euBits := by
        unfold calculateSlotIdAndEuOffset; omega
    _ = (getSlot a + 1) * 2 ^ euBits := by ring
    _ ≤ nSlots * 2 ^ euBits := Nat.mul_le_mul_right _ hs
    _ ≤ 2 ^ 23 := nSlots_mul_lt

/-! ## Erase units -/

/-- The first address of an erase unit of the chip. -/
structure IsEu (a : Nat) : Prop where
  offset : calcOffsetInEu a = 0
  lt : a < pageCount

theorem pageCount_eq_mul : pageCount = 2 ^ euBits * pagesPerEu := by
  rw [pagesPerEu, ← Nat.pow_add, pageCount, powPageCount, Nat.add_comm]

theorem calcEuStart_eq (a : Nat) : calcEuStart a = a / pagesPerEu * pagesPerEu := by
  have := Nat.div_add_mod' a pagesPerEu
  unfold calcEuStart
  omega

theorem calcEuStart_lt_iff {a : Nat} : calcEuStart a < pageCount ↔ a < pageCount := by
  rw [calcEuStart_eq, pageCount_eq_mul, Nat.mul_lt_mul_right pagesPerEu_pos,
    Nat.div_lt_iff_lt_mul pagesPerEu_pos]

theorem isEu_calcAddress {slotId eu : Nat} (hs : slotId < nSlots) (heu : eu < eusPerSlot) :
    IsEu (calcAddress slotId eu 0) where
  offset := by
    rw [calcOffsetInEu, calcAddress, pagesPerSlot_eq, Nat.add_zero, ← Nat.mul_assoc,
      ← Nat.add_mul, Nat.mul_mod_left]
  lt := calcAddress_lt hs (offset_lt heu pagesPerEu_pos)

namespace IsEu
variable {a i : Nat} (h : IsEu a)
include h

theorem eq_mul : ∃ e < 2 ^ euBits, a = e * pagesPerEu := by
  have hdvd : pagesPerEu ∣ a := Nat.dvd_of_mod_eq_zero h.offset
  obtain ⟨e, rfl⟩ := hdvd
  refine ⟨e, ?_, Nat.mul_comm _ _⟩
  have hlt := h.lt
  rw [pageCount_eq_mul, Nat.mul_comm] at hlt
  exact Nat.lt_of_mul_lt_mul_right hlt

theorem add_lt (hi : i < pagesPerEu) : a + i < pageCount := by
  obtain ⟨e, he, rfl⟩ := h.eq_mul
  rw [pageCount_eq_mul]
  calc e * pagesPerEu + i < e * pagesPerEu + pagesPerEu := by omega
    _ = (e + 1) * pagesPerEu := by ring
    _ ≤ 2 ^ euBits * pagesPerEu := Nat.mul_le_mul_right _ he

theorem calcOffsetInEu_add (hi : i < pagesPerEu) : calcOffsetInEu (a + i) = i := by
  have h0 : a % pagesPerEu = 0 := h.offset
  rw [calcOffsetInEu, Nat.add_mod, h0, Nat.zero_add, Nat.mod_mod, Nat.mod_eq_of_lt hi]

theorem calcEuStart_add (hi : i < pagesPerEu) : calcEuStart (a + i) = a := by
  have hoff : (a + i) % pagesPerEu = i := h.calcOffsetInEu_add hi
  rw [calcEuStart, hoff, Nat.add_sub_cancel]

theorem ne_empty : a ≠ phyAddressEmpty := ne_empty_of_lt h.lt

theorem calcEuStart_self : calcEuStart a = a := h.calcEuStart_add pagesPerEu_pos

theorem div_add (hi : i < pagesPerEu) : (a + i) / pagesPerEu = a / pagesPerEu := by
  obtain ⟨e, -, rfl⟩ := h.eq_mul
  rw [Nat.mul_comm, Nat.mul_add_div pagesPerEu_pos, Nat.div_eq_of_lt hi, Nat.add_zero,
    Nat.mul_div_cancel_left _ pagesPerEu_pos]

/-- The pages of one erase unit have one place. -/
theorem calculateSlotIdAndEuOffset_add (hi : i < pagesPerEu) :
    calculateSlotIdAndEuOffset (a + i) = calculateSlotIdAndEuOffset a := by
  obtain ⟨e, -, rfl⟩ := h.eq_mul
  have hdiv : ∀ b, (e * pagesPerEu + b) / pagesPerEu = e + b / pagesPerEu := by
    intro b
    rw [Nat.mul_comm, Nat.mul_add_div pagesPerEu_pos]
  have hpage : ∀ b < pagesPerEu, calculateSlotIdAndEuOffset (e * pagesPerEu + b) =
      e / eusPerSlot * 2 ^ euBits + e % eusPerSlot := by
    intro b hb
    have hb0 : b / pagesPerEu = 0 := Nat.div_eq_of_lt hb
    rw [calculateSlotIdAndEuOffset, getSlot, calcEuOffset, calcOffsetInSlot, pagesPerSlot_eq,
      Nat.mul_comm eusPerSlot, ← Nat.div_div_eq_div_mul, hdiv, hb0, Nat.add_zero,
      Nat.mod_mul_right_div_self, hdiv, hb0, Nat.add_zero]
  rw [hpage i hi]
  have h0 := hpage 0 pagesPerEu_pos
  rw [Nat.add_zero] at h0
  rw [h0]

/-- From its place in a spare area the erase unit is found again. -/
theorem extractAddr_calculate :
    extractAddrFromSlotIdAndEuOffset (calculateSlotIdAndEuOffset a) = a := by
  have hslot : getSlot a < nSlots := getSlot_lt h.lt
  have heu : calcEuOffset a < 2 ^ euBits := calcEuOffset_lt a
  have hS : extractSlot (calculateSlotIdAndEuOffset a) = getSlot a := by
    rw [extractSlot, calculateSlotIdAndEuOffset, Nat.mul_comm,
      Nat.mul_add_div (Nat.two_pow_pos _), Nat.div_eq_of_lt heu, Nat.add_zero]
    exact Nat.mod_eq_of_lt hslot
  have hE : extractEu (calculateSlotIdAndEuOffset a) = calcEuOffset a := by
    rw [extractEu, calculateSlotIdAndEuOffset, Nat.mul_comm, Nat.mul_add_mod]
    exact Nat.mod_eq_of_lt heu
  have hoff : calcOffsetInSlot a % pagesPerEu = 0 := by
    have h0 : a % pagesPerEu = 0 := h.offset
    rw [calcOffsetInSlot, pagesPerSlot_eq, Nat.mul_comm, Nat.mod_mul_right_mod, h0]
  have hdiv : calcEuOffset a * pagesPerEu = calcOffsetInSlot a :=
    Nat.div_mul_cancel (Nat.dvd_of_mod_eq_zero hoff)
  rw [extractAddrFromSlotIdAndEuOffset, hS, hE, calcAddress, hdiv, Nat.add_zero, getSlot,
    calcOffsetInSlot, Nat.mul_comm]
  exact Nat.div_add_mod a pagesPerSlot

end IsEu

end NandFs
