import Mathlib.Data.Nat.ModEq
import Mathlib.Algebra.Order.BigOperators.Group.List
import Mathlib.Tactic.IntervalCases

/-!
# One's-complement sums

Digits below a base are added with end-around carry: what is carried out of a
digit is added to it again.  The sum is known up to a multiple of the base less
one, and of the two digits that stand for such a multiple it is zero only if
all that was added is.  A sum that was not reduced may be folded later.
-/

namespace Witos.Library

variable {base : Nat}

/-- The carry of a number added to its last digit. -/
def foldCarry (base value : Nat) : Nat :=
  value % base + value / base

/-- The one's-complement sum of digits. -/
def onesSum (base : Nat) (digits : List Nat) : Nat :=
  digits.foldl (fun sum digit => foldCarry base (sum + digit)) 0

/-- The digit that stands for a number in one's-complement arithmetic. -/
structure Reduces (base total digit : Nat) : Prop where
  below : digit < base
  zero : digit = 0 ↔ total = 0
  congruent : digit ≡ total [MOD base - 1]

theorem foldCarry_modEq (base value : Nat) :
    foldCarry base value ≡ value [MOD base - 1] := by
  cases base with
  | zero => simp [foldCarry, Nat.ModEq]
  | succ less =>
      have split : value = foldCarry (less + 1) value +
          less * (value / (less + 1)) := by
        have parts := Nat.mod_add_div value (less + 1)
        rw [Nat.succ_mul] at parts
        unfold foldCarry
        omega
      rw [Nat.add_sub_cancel]
      conv_rhs => rw [split]
      exact (Nat.add_mul_mod_self_left _ _ _).symm

theorem foldCarry_eq_zero_iff {value : Nat} :
    foldCarry base value = 0 ↔ value = 0 := by
  constructor
  · intro zero
    have parts := Nat.mod_add_div value base
    obtain ⟨digit, carry⟩ := Nat.add_eq_zero_iff.mp zero
    rw [digit, carry, Nat.mul_zero] at parts
    exact parts.symm
  · rintro rfl
    simp [foldCarry]

theorem foldCarry_lt {value : Nat} (small : value + 2 ≤ 2 * base) :
    foldCarry base value < base := by
  have parts := Nat.mod_add_div value base
  have digit : value % base < base := Nat.mod_lt _ (by omega)
  have carry : value / base < 2 :=
    Nat.div_lt_of_lt_mul (by omega)
  unfold foldCarry
  interval_cases value / base <;> omega

theorem Reduces.fold {total value : Nat}
    (zero : value = 0 ↔ total = 0) (congruent : value ≡ total [MOD base - 1])
    (small : value + 2 ≤ 2 * base) :
    Reduces base total (foldCarry base value) where
  below := foldCarry_lt small
  zero := foldCarry_eq_zero_iff.trans zero
  congruent := (foldCarry_modEq base value).trans congruent

theorem Reduces.unique {total digit other : Nat}
    (reduces : Reduces base total digit) (again : Reduces base total other) :
    digit = other := by
  have same : digit ≡ other [MOD base - 1] :=
    reduces.congruent.trans again.congruent.symm
  have below := reduces.below
  have otherBelow := again.below
  by_cases nothing : total = 0
  · rw [reduces.zero.mpr nothing, again.zero.mpr nothing]
  · have positive := mt reduces.zero.mp nothing
    have otherPositive := mt again.zero.mp nothing
    -- Both lie between one and the base less one.
    have shifted : digit - 1 ≡ other - 1 [MOD base - 1] := by
      apply Nat.ModEq.add_right_cancel' 1
      rwa [Nat.sub_add_cancel (by omega), Nat.sub_add_cancel (by omega)]
    have := shifted.eq_of_lt_of_lt (by omega) (by omega)
    omega

theorem Reduces.add {total digit more : Nat}
    (reduces : Reduces base total digit) (below : more < base) :
    Reduces base (total + more) (foldCarry base (digit + more)) := by
  have digitBelow := reduces.below
  have zero := reduces.zero
  apply Reduces.fold _ (reduces.congruent.add_right more)
  · omega
  · omega

theorem onesSum_reduces (positive : 0 < base) {digits : List Nat}
    (below : ∀ digit ∈ digits, digit < base) :
    Reduces base digits.sum (onesSum base digits) := by
  have start : Reduces base 0 0 := ⟨positive, Iff.rfl, rfl⟩
  have all : ∀ (digits : List Nat) (total sum : Nat),
      (∀ digit ∈ digits, digit < base) → Reduces base total sum →
      Reduces base (total + digits.sum)
        (digits.foldl (fun sum digit => foldCarry base (sum + digit)) sum) := by
    intro digits
    induction digits with
    | nil =>
        intro total sum _ reduces
        exact reduces
    | cons digit digits induction =>
        intro total sum below reduces
        rw [List.sum_cons, ← Nat.add_assoc]
        apply induction
        · intro other member
          exact below other (List.mem_cons_of_mem _ member)
        · exact reduces.add (below digit List.mem_cons_self)
  have whole := all digits 0 0 below start
  rwa [Nat.zero_add] at whole

theorem sum_le_of_lt {digits : List Nat}
    (below : ∀ digit ∈ digits, digit < base) :
    digits.sum ≤ digits.length * (base - 1) := by
  apply List.sum_le_card_nsmul
  intro digit member
  have := below digit member
  omega

/-- A sum of at most `base` digits may be folded twice at the end. -/
theorem foldCarry_twice (positive : 0 < base) {digits : List Nat}
    (below : ∀ digit ∈ digits, digit < base)
    (few : digits.length ≤ base) :
    foldCarry base (foldCarry base digits.sum) = onesSum base digits := by
  have bound : digits.sum ≤ base * (base - 1) :=
    (sum_le_of_lt below).trans (Nat.mul_le_mul_right _ few)
  have digit : digits.sum % base < base := Nat.mod_lt _ positive
  have carry : digits.sum / base ≤ base - 1 :=
    Nat.div_le_of_le_mul bound
  have reduced : Reduces base digits.sum
      (foldCarry base (foldCarry base digits.sum)) := by
    apply Reduces.fold foldCarry_eq_zero_iff
      (foldCarry_modEq base digits.sum)
    unfold foldCarry
    omega
  exact reduced.unique (onesSum_reduces positive below)

/-- Put in the place of a zero, the complement of a sum completes it to the
highest digit. -/
theorem onesSum_complement (large : 1 < base) {before after : List Nat}
    (below : ∀ digit ∈ before ++ 0 :: after, digit < base) :
    onesSum base (before ++
        (base - 1 - onesSum base (before ++ 0 :: after)) :: after) =
      base - 1 := by
  have sum := onesSum_reduces (by omega) below
  have sumBelow := sum.below
  generalize onesSum base (before ++ 0 :: after) = total at *
  have allBelow : ∀ digit ∈ before ++ (base - 1 - total) :: after,
      digit < base := by
    intro digit member
    rw [List.mem_append, List.mem_cons] at member
    rcases member with inBefore | rfl | inAfter
    · exact below digit (List.mem_append_left _ inBefore)
    · omega
    · exact below digit
        (List.mem_append_right _ (List.mem_cons_of_mem _ inAfter))
  have whole := onesSum_reduces (by omega) allBelow
  have parts : (before ++ (base - 1 - total) :: after).sum =
      (before ++ 0 :: after).sum + (base - 1 - total) := by
    simp only [List.sum_append, List.sum_cons]
    omega
  have full : Reduces base (before ++ (base - 1 - total) :: after).sum
      (base - 1) := by
    rw [parts]
    refine ⟨by omega, ?_, ?_⟩
    · have zero := sum.zero
      omega
    · have completed := sum.congruent.add_right (base - 1 - total)
      rw [Nat.add_sub_cancel' (by omega)] at completed
      exact completed
  exact whole.unique full

end Witos.Library
