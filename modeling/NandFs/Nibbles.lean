import Mathlib.Logic.Function.Basic
import Mathlib.Order.Basic

/-! # Half bytes packed in an array of bytes

Two values of four bits share a byte, the even one in its low half.  Storing a value that fits
in four bits changes no other one; storing one that does not fit can.
-/
namespace Nibbles

/-- Half byte `i` of the array. -/
def read (bytes : Nat → UInt8) (i : Nat) : UInt8 :=
  if i % 2 = 0 then bytes (i / 2) &&& (0x0f : UInt8)
  else (bytes (i / 2) &&& (0xf0 : UInt8)) >>> (4 : UInt8)

/-- The array with `value` stored as half byte `i`. -/
def write (bytes : Nat → UInt8) (i : Nat) (value : UInt8) : Nat → UInt8 :=
  Function.update bytes (i / 2)
    (if i % 2 = 0 then (bytes (i / 2) &&& (0xf0 : UInt8)) ||| value
     else (bytes (i / 2) &&& (0x0f : UInt8)) ||| (value <<< (4 : UInt8)))

/-! ## Masks -/

theorem or_and (a b mask : UInt8) : (a ||| b) &&& mask = (a &&& mask) ||| (b &&& mask) := by
  apply UInt8.eq_of_toBitVec_eq
  ext i hi
  simp [Bool.and_or_distrib_right]

/-- What holds of each of the first `bound` bytes holds of the bytes below `bound`. -/
theorem forall_below {bound : Nat} {p : UInt8 → Prop} (h : ∀ n : Fin bound, p (UInt8.ofNat n))
    {v : UInt8} (hv : v.toNat < bound) : p v := by
  have hp := h ⟨v.toNat, hv⟩
  rwa [UInt8.ofNat_toNat] at hp

theorem forall_half {p : UInt8 → Prop} (h : ∀ n : Fin 16, p (UInt8.ofNat n)) {v : UInt8}
    (hv : v < 16) : p v := forall_below h (UInt8.lt_iff_toNat_lt.mp hv)

theorem and_low {v : UInt8} (hv : v < 16) : v &&& 0x0f = v :=
  forall_half (p := fun v => v &&& 0x0f = v) (by decide) hv

theorem and_high {v : UInt8} (hv : v < 16) : v &&& 0xf0 = 0 := by
  rw [← and_low hv, UInt8.and_assoc]
  exact UInt8.and_zero

theorem shift_and_low {v : UInt8} (hv : v < 16) : (v <<< 4) &&& 0x0f = 0 :=
  forall_half (p := fun v => (v <<< 4) &&& 0x0f = 0) (by decide) hv

theorem shift_and_high {v : UInt8} (hv : v < 16) : ((v <<< 4) &&& 0xf0) >>> 4 = v :=
  forall_half (p := fun v => ((v <<< 4) &&& 0xf0) >>> 4 = v) (by decide) hv

/-! ## Reading what is stored -/

variable {bytes : Nat → UInt8} {value : UInt8}

theorem read_write_self (i : Nat) (hv : value < 16) : read (write bytes i value) i = value := by
  unfold read write
  rw [Function.update_self]
  by_cases hi : i % 2 = 0
  · rw [if_pos hi, if_pos hi, or_and, and_low hv, UInt8.and_assoc]
    exact (congrArg (· ||| value) UInt8.and_zero).trans UInt8.zero_or
  · rw [if_neg hi, if_neg hi, or_and, UInt8.and_assoc]
    have hzero : bytes (i / 2) &&& ((0x0f : UInt8) &&& 0xf0) = 0 := UInt8.and_zero
    rw [hzero, UInt8.zero_or]
    exact shift_and_high hv

theorem read_write_of_ne {i j : Nat} (hv : value < 16) (hij : i ≠ j) :
    read (write bytes i value) j = read bytes j := by
  unfold read write
  by_cases hbyte : j / 2 ≠ i / 2
  · rw [Function.update_of_ne hbyte]
  rw [not_not] at hbyte
  -- the two share a byte, so one of them is even and the other one odd
  rw [hbyte, Function.update_self]
  by_cases hj : j % 2 = 0
  · have hi : ¬i % 2 = 0 := by omega
    rw [if_pos hj, if_pos hj, if_neg hi, or_and, shift_and_low hv, UInt8.or_zero, UInt8.and_assoc]
    rfl
  · have hi : i % 2 = 0 := by omega
    rw [if_neg hj, if_neg hj, if_pos hi, or_and, and_high hv, UInt8.or_zero, UInt8.and_assoc]
    rfl

theorem read_zero (i : Nat) : read (fun _ => 0) i = 0 := by
  unfold read
  by_cases hi : i % 2 = 0
  · rw [if_pos hi]
    exact (by decide : (0 : UInt8) &&& 0x0f = 0)
  · rw [if_neg hi]
    exact (by decide : ((0 : UInt8) &&& 0xf0) >>> 4 = 0)

/-- A byte that fits in four bits has nothing in its high half. -/
theorem read_odd_of_lt {i : Nat} (hi : i % 2 = 1) (hv : bytes (i / 2) < 16) :
    read bytes i = 0 := by
  unfold read
  rw [if_neg (by omega), and_high hv]
  rfl

end Nibbles
