import Mathlib.Algebra.BigOperators.Ring.Finset
import Mathlib.Algebra.Order.BigOperators.Group.Finset
import Witos.Library.Bits

/-!
# Canonical prefix codes

A canonical code is given by the number of its words of each length; `counts l`
is the number of words of `l + 1` bits.  The words of one length are consecutive
numbers, and the first of them is twice what follows the last of the length
before.  A decoder that reads bit by bit recognises a word because the prefixes
of longer words lie above the words of their length.
-/

namespace Witos.Library

variable (counts : Nat → Nat)

/-- The first word of `l + 1` bits. -/
def firstCode : Nat → Nat
  | 0 => 0
  | l + 1 => 2 * (firstCode l + counts l)

/-- The number of words of at most `l` bits. -/
def codesBefore : Nat → Nat
  | 0 => 0
  | l + 1 => counts l + codesBefore l

/-- The word at a place among those of `l + 1` bits. -/
def codeWord (l place : Nat) : List Bool :=
  toBits (l + 1) (firstCode counts l + place)

/-- The Kraft inequality for words of at most `n` bits. -/
def Kraft (n : Nat) : Prop :=
  ∑ l ∈ Finset.range n, counts l * 2 ^ (n - 1 - l) ≤ 2 ^ n

instance (n : Nat) : Decidable (Kraft counts n) :=
  inferInstanceAs (Decidable (_ ≤ _))

@[simp] theorem length_codeWord (l place : Nat) :
    (codeWord counts l place).length = l + 1 :=
  length_toBits _ _

theorem codesBefore_mono {k l : Nat} (shorter : k ≤ l) :
    codesBefore counts k ≤ codesBefore counts l := by
  induction l, shorter using Nat.le_induction with
  | base => exact Nat.le_refl _
  | succ l shorter induction =>
      exact Nat.le_trans induction (Nat.le_add_left _ _)

/-- The first word after the last length takes all the space of the words. -/
theorem firstCode_eq_sum (n : Nat) :
    firstCode counts n =
      2 * ∑ l ∈ Finset.range n, counts l * 2 ^ (n - 1 - l) := by
  induction n with
  | zero => rfl
  | succ n induction =>
      have doubled : ∑ l ∈ Finset.range n, counts l * 2 ^ (n + 1 - 1 - l) =
          2 * ∑ l ∈ Finset.range n, counts l * 2 ^ (n - 1 - l) := by
        rw [Finset.mul_sum]
        apply Finset.sum_congr rfl
        intro l member
        have inside := Finset.mem_range.mp member
        have next : n + 1 - 1 - l = n - 1 - l + 1 := by omega
        rw [next, Nat.pow_succ]
        ring
      rw [firstCode, Finset.sum_range_succ, doubled, induction]
      simp

/-- Later words lie above the extensions of earlier ones. -/
theorem firstCode_mul_le {l n : Nat} (earlier : l ≤ n) :
    firstCode counts l * 2 ^ (n - l) ≤ firstCode counts n := by
  induction n, earlier using Nat.le_induction with
  | base => simp
  | succ n earlier induction =>
      have next : n + 1 - l = n - l + 1 := by omega
      rw [next, Nat.pow_succ, ← Nat.mul_assoc, firstCode]
      omega

theorem Kraft.fits {counts : Nat → Nat} {n : Nat} (kraft : Kraft counts n)
    {l : Nat} (inside : l < n) :
    firstCode counts l + counts l ≤ 2 ^ (l + 1) := by
  have total : firstCode counts n ≤ 2 ^ (n + 1) := by
    rw [firstCode_eq_sum, Nat.pow_succ, Nat.mul_comm (2 ^ n)]
    exact Nat.mul_le_mul_left 2 kraft
  have extended := firstCode_mul_le counts (Nat.succ_le_of_lt inside)
  have power : 2 ^ (n + 1) = 2 ^ (l + 2) * 2 ^ (n - (l + 1)) := by
    rw [← Nat.pow_add]
    congr 1
    omega
  have next : firstCode counts (l + 1) ≤ 2 ^ (l + 2) := by
    apply Nat.le_of_mul_le_mul_right _ (Nat.two_pow_pos (n - (l + 1)))
    rw [← power]
    exact Nat.le_trans extended total
  rw [firstCode, Nat.pow_succ] at next
  omega

/-- The prefix of a longer word lies above the words of its length. -/
theorem le_prefix_of_lt {k l : Nat} (shorter : k < l) (place : Nat) :
    firstCode counts k + counts k ≤
      (firstCode counts l + place) / 2 ^ (l - k) := by
  apply (Nat.le_div_iff_mul_le (Nat.two_pow_pos _)).mpr
  have extended := firstCode_mul_le counts (Nat.succ_le_of_lt shorter)
  have power : l - k = l - (k + 1) + 1 := by omega
  rw [power, Nat.pow_succ]
  calc (firstCode counts k + counts k) * (2 ^ (l - (k + 1)) * 2)
      = firstCode counts (k + 1) * 2 ^ (l - (k + 1)) := by
        rw [firstCode]
        ring
    _ ≤ firstCode counts l := extended
    _ ≤ firstCode counts l + place := Nat.le_add_right _ _

end Witos.Library
