import Mathlib.Data.List.Basic
import Mathlib.Data.Nat.Bitwise
import Mathlib.Tactic.Ring

/-!
# Bits of a number, the highest first

A number of `width` bits as a list, the way a bit stream carries it, and the
number that a list of bits denotes.
-/

namespace Witos.Library

/-- The low `width` bits, the highest first. -/
def toBits : Nat → Nat → List Bool
  | 0, _ => []
  | width + 1, value => value.testBit width :: toBits width value

def ofBits (bits : List Bool) : Nat :=
  bits.foldl (fun value bit => 2 * value + bit.toNat) 0

@[simp] theorem length_toBits (width value : Nat) :
    (toBits width value).length = width := by
  induction width with
  | zero => rfl
  | succ width induction => simp [toBits, induction]

@[simp] theorem toBits_zero (value : Nat) : toBits 0 value = [] := rfl

@[simp] theorem ofBits_nil : ofBits [] = 0 := rfl

theorem toBits_mod {width more : Nat} (enough : width ≤ more) (value : Nat) :
    toBits width (value % 2 ^ more) = toBits width value := by
  induction width with
  | zero => rfl
  | succ width induction =>
      have inside : width < more := by omega
      rw [toBits, toBits, induction (by omega), Nat.testBit_mod_two_pow]
      simp [inside]

theorem toBits_append (high low value : Nat) :
    toBits (high + low) value =
      toBits high (value / 2 ^ low) ++ toBits low value := by
  induction high with
  | zero => simp
  | succ high induction =>
      have shifted : high + 1 + low = high + low + 1 := by omega
      rw [shifted, toBits, toBits, induction, Nat.testBit_div_two_pow]
      rfl

private theorem foldl_bits (bits : List Bool) (start : Nat) :
    bits.foldl (fun value bit => 2 * value + bit.toNat) start =
      start * 2 ^ bits.length + ofBits bits := by
  induction bits generalizing start with
  | nil => simp
  | cons bit bits induction =>
      rw [ofBits, List.foldl_cons, List.foldl_cons, induction, induction,
        List.length_cons]
      ring

theorem ofBits_append (high low : List Bool) :
    ofBits (high ++ low) = ofBits high * 2 ^ low.length + ofBits low := by
  rw [ofBits, List.foldl_append, foldl_bits]
  rfl

theorem ofBits_cons (bit : Bool) (bits : List Bool) :
    ofBits (bit :: bits) = bit.toNat * 2 ^ bits.length + ofBits bits := by
  have split := ofBits_append [bit] bits
  have single : ofBits [bit] = bit.toNat := by
    cases bit <;> rfl
  rwa [single] at split

theorem ofBits_lt (bits : List Bool) : ofBits bits < 2 ^ bits.length := by
  induction bits with
  | nil => simp
  | cons bit bits induction =>
      rw [ofBits_cons, List.length_cons, Nat.pow_succ]
      have small : bit.toNat ≤ 1 := Bool.toNat_le bit
      have product := Nat.mul_le_mul_right (2 ^ bits.length) small
      omega

theorem ofBits_toBits (width value : Nat) :
    ofBits (toBits width value) = value % 2 ^ width := by
  induction width with
  | zero => simp [Nat.mod_one]
  | succ width induction =>
      rw [toBits, ofBits_cons, induction, length_toBits, Nat.pow_succ,
        Nat.mod_mul, Nat.testBit_eq_decide_div_mod_eq]
      rcases Nat.mod_two_eq_zero_or_one (value / 2 ^ width) with even | odd
      · simp [even]
      · simp [odd]
        omega

theorem ofBits_toBits_of_lt {width value : Nat} (small : value < 2 ^ width) :
    ofBits (toBits width value) = value := by
  rw [ofBits_toBits, Nat.mod_eq_of_lt small]

end Witos.Library
