import Mathlib.Algebra.Group.Int.Even
import Mathlib.Algebra.Group.Nat.Even

/-!
# Unsigned machine words as natural numbers

A word of `width` bits is a natural number below `2 ^ width`.  Addition and
subtraction reduce modulo `2 ^ width`, and clearing the low bits of a word is
rounding down to a multiple of a power of two.  The lemmas say when the
reduction is invisible, which is what an argument about addresses needs.
-/

namespace Witos.Library

/-- 32-bit addition. -/
def add32 (left right : Nat) : Nat :=
  (left + right) % 2 ^ 32

/-- 32-bit subtraction: a negative difference wraps. -/
def sub32 (left right : Nat) : Nat :=
  (left + (2 ^ 32 - right % 2 ^ 32)) % 2 ^ 32

/-- 16-bit addition. -/
def add16 (left right : Nat) : Nat :=
  (left + right) % 2 ^ 16

/-- 16-bit subtraction: a negative difference wraps. -/
def sub16 (left right : Nat) : Nat :=
  (left + (2 ^ 16 - right % 2 ^ 16)) % 2 ^ 16

/-- A 32-bit word as a signed number. -/
def signed32 (value : Nat) : Int :=
  if value < 2 ^ 31 then value else value - 2 ^ 32

/-- `value & ~(unit - 1)` for a power of two `unit`. -/
def clearLow (unit value : Nat) : Nat :=
  value / unit * unit

/-- The least multiple of a unit that is no less than a number. -/
def roundUp (unit value : Nat) : Nat :=
  (value + unit - 1) / unit * unit

/-- `ALIGN_UP` of a number of `width` bits.  The mask for a power of two has 32
bits and cuts off what is above them. -/
def alignUp (width align value : Nat) : Nat :=
  if align &&& (align - 1) = 0 then
    clearLow align ((value + align - 1) % 2 ^ 32)
  else if value % align = 0 then value
  else (value + (align - value % align)) % 2 ^ width

theorem add32_of_lt {left right : Nat} (small : left + right < 2 ^ 32) :
    add32 left right = left + right := by
  unfold add32
  omega

theorem sub32_of_le {left right : Nat} (bounded : left < 2 ^ 32)
    (ordered : right ≤ left) : sub32 left right = left - right := by
  unfold sub32
  omega

theorem add16_of_lt {left right : Nat} (small : left + right < 2 ^ 16) :
    add16 left right = left + right := by
  unfold add16
  omega

theorem sub16_of_le {left right : Nat} (bounded : left < 2 ^ 16)
    (ordered : right ≤ left) : sub16 left right = left - right := by
  unfold sub16
  omega

theorem signed32_of_lt {value : Nat} (small : value < 2 ^ 31) :
    signed32 value = value :=
  if_pos small

theorem signed32_eq_iff (value : Nat) :
    signed32 value = value ↔ value < 2 ^ 31 := by
  unfold signed32
  split <;> omega

theorem sub32_sub32 (value first second : Nat) :
    sub32 (sub32 value first) second = sub32 value (first + second) := by
  unfold sub32
  omega

/-- A difference of small numbers, as a signed word cut off at zero. -/
theorem toNat_signed32_sub32 {left right : Nat} (leftSmall : left < 2 ^ 31)
    (rightSmall : right < 2 ^ 31) :
    (signed32 (sub32 left right)).toNat = left - right := by
  unfold signed32 sub32
  split <;> omega

theorem clearLow_le (unit value : Nat) : clearLow unit value ≤ value :=
  Nat.div_mul_le_self value unit

theorem clearLow_mod (unit value : Nat) : clearLow unit value % unit = 0 :=
  Nat.mul_mod_left _ _

theorem div_mod_of_block {unit place : Nat} (block : Nat)
    (inside : place < unit) :
    (block * unit + place) / unit = block ∧
      (block * unit + place) % unit = place := by
  have positive := Nat.lt_of_le_of_lt (Nat.zero_le place) inside
  constructor
  · rw [Nat.mul_comm, Nat.mul_add_div positive, Nat.div_eq_of_lt inside,
      Nat.add_zero]
  · rw [Nat.mul_add_mod', Nat.mod_eq_of_lt inside]

/-- From one multiple of a unit to a greater one there is room for the unit. -/
theorem add_unit_le {unit low high : Nat} (lowAligned : low % unit = 0)
    (highAligned : high % unit = 0) (below : low < high) :
    low + unit ≤ high := by
  obtain ⟨first, rfl⟩ := Nat.dvd_of_mod_eq_zero lowAligned
  obtain ⟨second, rfl⟩ := Nat.dvd_of_mod_eq_zero highAligned
  have order : first < second := Nat.lt_of_mul_lt_mul_left below
  calc unit * first + unit = unit * (first + 1) := by rw [Nat.mul_succ]
    _ ≤ unit * second := Nat.mul_le_mul_left unit order

theorem roundUp_mod (unit value : Nat) : roundUp unit value % unit = 0 :=
  Nat.mul_mod_left _ _

theorem roundUp_eq {unit : Nat} (positive : 0 < unit) (value : Nat) :
    roundUp unit value =
      if value % unit = 0 then value
      else value + (unit - value % unit) := by
  have parts := Nat.div_add_mod value unit
  have below := Nat.mod_lt value positive
  unfold roundUp
  split
  · rename_i whole
    have place : value + unit - 1 = unit * (value / unit) + (unit - 1) := by
      omega
    rw [place, Nat.mul_add_div positive,
      Nat.div_eq_of_lt (show unit - 1 < unit by omega), Nat.add_zero,
      Nat.mul_comm]
    omega
  · rename_i rest
    have place : value + unit - 1 =
        unit * (value / unit + 1) + (value % unit - 1) := by
      rw [Nat.mul_succ]
      omega
    rw [place, Nat.mul_add_div positive,
      Nat.div_eq_of_lt (show value % unit - 1 < unit by omega),
      Nat.add_zero, Nat.mul_comm, Nat.mul_succ]
    omega

theorem roundUp_lt {unit : Nat} (positive : 0 < unit) (value : Nat) :
    roundUp unit value < value + unit := by
  rw [roundUp_eq positive]
  split <;> omega

/-- `ALIGN_UP` of a word rounds up, and wraps around. -/
theorem alignUp_eq {align value : Nat} (positive : 0 < align)
    (small : align < 2 ^ 32) (word : value < 2 ^ 32) :
    alignUp 32 align value = roundUp align value % 2 ^ 32 := by
  unfold alignUp
  split
  · rename_i power
    obtain ⟨shift, rfl⟩ := (Nat.and_sub_one_eq_zero_iff_isPowerOfTwo
      (Nat.ne_of_gt positive)).mp power
    have inside : shift ≤ 32 :=
      Nat.le_of_lt ((Nat.pow_lt_pow_iff_right (by decide)).mp small)
    have split : 2 ^ 32 = 2 ^ shift * 2 ^ (32 - shift) := by
      rw [← Nat.pow_add, Nat.add_sub_cancel' inside]
    rw [clearLow, roundUp, split, Nat.mod_mul_right_div_self,
      Nat.mul_comm (2 ^ shift), Nat.mul_mod_mul_right]
  · rw [roundUp_eq positive]
    split
    · exact (Nat.mod_eq_of_lt word).symm
    · rfl

/-- Setting the low bit of an even word. -/
theorem or_one_of_even {value : Nat} (even : value % 2 = 0) :
    value ||| 1 = value + 1 := by
  have halves : value = 2 * (value / 2) := by omega
  rw [halves, show 2 * (value / 2) = 2 ^ 1 * (value / 2) by rfl,
    ← Nat.two_pow_add_eq_or_of_lt (i := 1) (b := 1) (by decide)]

end Witos.Library
