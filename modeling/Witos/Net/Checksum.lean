import Witos.Library.OnesComplement
import Witos.Net.Send

/-!
# The internet checksum

`net_calc_checksum` adds the words of a buffer in 32 bits and folds the carries
at the end.  Up to 128 KiB this is the one's-complement sum of the words.
-/

namespace Witos.Net

open Library

/-- The little-endian 16-bit words of a buffer; a last odd byte is padded with
zero. -/
def leWords : List UInt8 → List Nat
  | low :: high :: rest => (low.toNat + 256 * high.toNat) :: leWords rest
  | [last] => [last.toNat]
  | [] => []

theorem leWords_lt (bytes : List UInt8) :
    ∀ word ∈ leWords bytes, word < 2 ^ 16 := by
  fun_induction leWords bytes with
  | case1 low high rest induction =>
      intro word member
      have lowBound := low.toNat_lt
      have highBound := high.toNat_lt
      rcases List.mem_cons.mp member with rfl | later
      · omega
      · exact induction word later
  | case2 last =>
      intro word member
      have bound := last.toNat_lt
      rw [List.mem_singleton.mp member]
      omega
  | case3 => simp

theorem length_leWords (bytes : List UInt8) :
    (leWords bytes).length = (bytes.length + 1) / 2 := by
  fun_induction leWords bytes with
  | case1 low high rest induction =>
      simp only [List.length_cons, induction]
      omega
  | case2 last => simp
  | case3 => rfl

/-- Words do not reach over an even offset. -/
theorem leWords_append {before : List UInt8} (even : before.length % 2 = 0)
    (after : List UInt8) :
    leWords (before ++ after) = leWords before ++ leWords after := by
  fun_induction leWords before with
  | case1 low high rest induction =>
      simp only [List.length_cons] at even
      simp only [List.cons_append, leWords]
      rw [induction (by omega)]
  | case2 last => simp at even
  | case3 => rfl

theorem leWords_leBytes {word : Nat} (small : word < 2 ^ 16) :
    leWords (leBytes 2 word) = [word] := by
  simp only [leBytes, leWords, UInt8.toNat_ofNat', List.cons.injEq, and_true]
  omega

/-- Nothing is lost in the accumulator as long as the words fit into it. -/
theorem checksumLoop_eq (bytes : List UInt8) {sum : Nat}
    (fits : sum + (leWords bytes).sum < 2 ^ 32) :
    checksumLoop sum bytes = sum + (leWords bytes).sum := by
  fun_induction leWords bytes generalizing sum with
  | case1 low high rest induction =>
      rw [List.sum_cons, ← Nat.add_assoc] at fits ⊢
      rw [checksumLoop, add32_of_lt (by omega), induction fits]
  | case2 last =>
      rw [List.sum_singleton] at fits ⊢
      rw [checksumLoop, add32_of_lt fits]
  | case3 => rfl

section Short

variable {bytes : List UInt8} (short : bytes.length ≤ 131072)

include short

theorem few_leWords : (leWords bytes).length ≤ 2 ^ 16 := by
  rw [length_leWords]
  omega

theorem sum_leWords_lt : (leWords bytes).sum < 2 ^ 32 := by
  calc (leWords bytes).sum
      ≤ (leWords bytes).length * (2 ^ 16 - 1) := sum_le_of_lt (leWords_lt bytes)
    _ ≤ 2 ^ 16 * (2 ^ 16 - 1) := Nat.mul_le_mul_right _ (few_leWords short)
    _ < 2 ^ 32 := by decide

theorem netCalcChecksum_eq :
    netCalcChecksum bytes = onesSum (2 ^ 16) (leWords bytes) := by
  have fits := sum_leWords_lt short
  have sum : checksumLoop 0 bytes = (leWords bytes).sum := by
    rw [checksumLoop_eq bytes (by rwa [Nat.zero_add]), Nat.zero_add]
  have reduces := onesSum_reduces (by decide) (leWords_lt bytes)
  have twice := foldCarry_twice (by decide) (leWords_lt bytes)
    (few_leWords short)
  have first : foldChecksum (leWords bytes).sum =
      foldCarry (2 ^ 16) (leWords bytes).sum := by
    apply add32_of_lt
    omega
  have second : foldChecksum (foldCarry (2 ^ 16) (leWords bytes).sum) =
      foldCarry (2 ^ 16) (foldCarry (2 ^ 16) (leWords bytes).sum) := by
    apply add32_of_lt
    unfold foldCarry
    omega
  rw [netCalcChecksum, sum, first, second, twice]
  exact Nat.mod_eq_of_lt reduces.below

end Short

theorem netCalcChecksum_stored {before after : List UInt8}
    (even : before.length % 2 = 0)
    (short : (before ++ [0, 0] ++ after).length ≤ 131072) :
    netCalcChecksum
      (before ++ checksumField (before ++ [0, 0] ++ after) ++ after) =
        2 ^ 16 - 1 := by
  have split (middle : List UInt8) (two : middle.length = 2) :
      leWords (before ++ middle ++ after) =
        leWords before ++ (leWords middle ++ leWords after) := by
    rw [List.append_assoc, leWords_append even,
      leWords_append (by rw [two])]
  have zero : leWords (before ++ [0, 0] ++ after) =
      leWords before ++ 0 :: leWords after := split [0, 0] rfl
  have unsummed := netCalcChecksum_eq short
  rw [zero] at unsummed
  have below := leWords_lt (before ++ [0, 0] ++ after)
  rw [zero] at below
  have sameLength : (before ++ checksumField (before ++ [0, 0] ++ after) ++
      after).length = (before ++ [0, 0] ++ after).length := by
    simp only [List.length_append, checksumField, length_leBytes]
    rfl
  rw [netCalcChecksum_eq (sameLength ▸ short)]
  unfold checksumField
  rw [split _ (length_leBytes 2 _), unsummed, leWords_leBytes (by omega)]
  exact onesSum_complement (by decide) below

/-- The checksum of a buffer of at most 128 KiB is the one's-complement sum of
its words, nothing is lost in the accumulator, and its complement in a field
that was zero makes the buffer verify. -/
theorem netCalcChecksum_onesSum (bytes : List UInt8)
    (short : bytes.length ≤ 131072) :
    netCalcChecksum bytes = onesSum (2 ^ 16) (leWords bytes) ∧
      checksumLoop 0 bytes = (leWords bytes).sum ∧
      ∀ before after : List UInt8, before.length % 2 = 0 →
        bytes = before ++ [0, 0] ++ after →
        netCalcChecksum (before ++ checksumField bytes ++ after) =
          0xffff := by
  refine ⟨netCalcChecksum_eq short, ?_, ?_⟩
  · have fits := sum_leWords_lt short
    rw [checksumLoop_eq bytes (by rwa [Nat.zero_add]), Nat.zero_add]
  · rintro before after even rfl
    exact netCalcChecksum_stored even short

/-- Five bytes with a field of zeros in the middle. -/
theorem netCalcChecksum_onesSum_odd :
    netCalcChecksum [1, 2, 0, 0, 5] = 0x0206 ∧
      netCalcChecksum ([1, 2] ++ checksumField [1, 2, 0, 0, 5] ++ [5]) =
        0xffff := by
  have holds := netCalcChecksum_onesSum [1, 2, 0, 0, 5] (by decide)
  exact ⟨holds.1, holds.2.2 [1, 2] [5] rfl rfl⟩

end Witos.Net
