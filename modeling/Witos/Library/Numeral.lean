import Mathlib.Data.Nat.Digits.Lemmas

/-!
# Numerals

The number that digits stand for, the first one being the most significant.
-/

namespace Witos.Library

/-- The number that some digits stand for, behind a number that was read. -/
def numeral (base start : Nat) (digits : List Nat) : Nat :=
  digits.foldl (fun value digit => base * value + digit) start

variable {base start : Nat} {digits : List Nat}

@[simp] theorem numeral_nil : numeral base start [] = start :=
  rfl

@[simp] theorem numeral_cons (digit : Nat) :
    numeral base start (digit :: digits) =
      numeral base (base * start + digit) digits :=
  rfl

/-- The digits of a number without leading zeros, and at least one. -/
def digitsOf (base value : Nat) : List Nat :=
  if value = 0 then [0] else (Nat.digits base value).reverse

/-- Digits without leading zeros. -/
structure IsCanonical (base : Nat) (digits : List Nat) : Prop where
  nonempty : digits ≠ []
  below : ∀ digit ∈ digits, digit < base
  noLeading : digits.head? = some 0 → digits = [0]

theorem numeral_eq_ofDigits (base : Nat) (digits : List Nat) :
    numeral base 0 digits = Nat.ofDigits base digits.reverse := by
  rw [Nat.ofDigits_eq_foldr, List.foldr_reverse, numeral]
  simp [Nat.add_comm]

@[simp] theorem numeral_digitsOf (base value : Nat) :
    numeral base 0 (digitsOf base value) = value := by
  unfold digitsOf
  split
  · rename_i zero
    simp [zero]
  · rw [numeral_eq_ofDigits, List.reverse_reverse, Nat.ofDigits_digits]

theorem digitsOf_canonical {base : Nat} (large : 1 < base) (value : Nat) :
    IsCanonical base (digitsOf base value) := by
  unfold digitsOf
  split
  · exact ⟨List.cons_ne_nil _ _, by simp; omega, fun _ => rfl⟩
  · rename_i positive
    have nonempty : Nat.digits base value ≠ [] :=
      Nat.digits_ne_nil_iff_ne_zero.mpr positive
    refine ⟨by simpa using nonempty, ?_, ?_⟩
    · intro digit member
      exact Nat.digits_lt_base large (List.mem_reverse.mp member)
    · intro leading
      rw [List.head?_reverse, List.getLast?_eq_some_getLast nonempty] at leading
      exact absurd (Option.some.inj leading)
        (Nat.getLast_digit_ne_zero base positive)

/-- Digits without leading zeros are those of the number they stand for. -/
theorem IsCanonical.eq_digitsOf {base : Nat} {digits : List Nat}
    (large : 1 < base) (canonical : IsCanonical base digits) :
    digits = digitsOf base (numeral base 0 digits) := by
  by_cases zero : digits = [0]
  · rw [zero]
    rfl
  · have last : ∀ some_ : digits.reverse ≠ [],
        digits.reverse.getLast some_ ≠ 0 := by
      intro some_ ends
      apply zero
      apply canonical.noLeading
      rw [← List.getLast?_reverse, List.getLast?_eq_some_getLast some_, ends]
    have unique := Nat.digits_ofDigits base large digits.reverse
      (fun digit member => canonical.below digit (List.mem_reverse.mp member))
      last
    have positive : numeral base 0 digits ≠ 0 := by
      intro none
      rw [← numeral_eq_ofDigits, none, Nat.digits_zero] at unique
      exact canonical.nonempty (List.reverse_eq_nil_iff.mp unique.symm)
    rw [digitsOf, if_neg positive, numeral_eq_ofDigits, unique,
      List.reverse_reverse]

theorem length_digitsOf_le {base value count : Nat} (large : 1 < base)
    (small : value < base ^ count) (positive : 0 < count) :
    (digitsOf base value).length ≤ count := by
  unfold digitsOf
  split
  · exact positive
  · rw [List.length_reverse]
    exact (Nat.digits_length_le_iff large value).mpr small

theorem digitsOf_of_lt {base value : Nat} (small : value < base) :
    digitsOf base value = [value] := by
  unfold digitsOf
  split
  · rename_i zero
    rw [zero]
  · rename_i positive
    rw [Nat.digits_of_lt base value positive small]
    rfl

theorem digitsOf_of_le {base value : Nat} (large : 1 < base)
    (long : base ≤ value) :
    digitsOf base value =
      digitsOf base (value / base) ++ [value % base] := by
  have positive : value ≠ 0 := by omega
  have more : value / base ≠ 0 :=
    Nat.ne_of_gt (Nat.div_pos long (by omega))
  rw [digitsOf, if_neg positive, digitsOf, if_neg more,
    Nat.digits_eq_cons_digits_div large positive, List.reverse_cons]

/-- A loop that takes one digit a round from the end, with rounds enough. -/
theorem digitLoop_eq {α : Type} {base : Nat} (large : 1 < base)
    {char : Nat → α} {loop : Nat → Nat → List α}
    (stops : ∀ room, loop room 0 = [])
    (takes : ∀ room value, value ≠ 0 →
      loop (room + 1) value = char (value % base) :: loop room (value / base))
    {room value : Nat} (bounded : value < base ^ room) :
    loop room value = (Nat.digits base value).map char := by
  induction room generalizing value with
  | zero =>
      have zero : value = 0 := by simpa using bounded
      rw [zero, stops, Nat.digits_zero, List.map_nil]
  | succ room induction =>
      by_cases zero : value = 0
      · rw [zero, stops, Nat.digits_zero, List.map_nil]
      · have smaller : value / base < base ^ room := by
          apply Nat.div_lt_of_lt_mul
          rwa [Nat.pow_succ, Nat.mul_comm] at bounded
        rw [takes room value zero, induction smaller,
          Nat.digits_eq_cons_digits_div large zero, List.map_cons]

end Witos.Library
