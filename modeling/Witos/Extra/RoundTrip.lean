import Witos.Extra.Sizes
import Witos.Stdio.FormatText

/-!
# Round trips

What `lib/extra/strex.c` prints is read back: the decimal numbers except the
least one, the hexadecimal numbers, and the sizes that have no bytes behind the
last unit.
-/

namespace Witos.Extra

open Library
open Stdio (toInt32 toInt32_of_range)

/-- `dec_str_to_long` reads what `val_to_dec_str` writes, and both return the
length of the string. -/
def DecRoundTrip (val : Int) : Prop :=
  (valToDecStr val).1 = (valToDecStr val).2.length ∧
    decStrToLong (valToDecStr val).2 =
      (((valToDecStr val).2.length : Int), some val)

theorem decimalText_length {value : Nat} (word : value < 2 ^ 32) :
    (decimalText value).length ≤ 10 := by
  rw [decimalText, List.length_map]
  apply length_digitsOf_le (by decide) _ (by decide)
  calc value < 2 ^ 32 := word
    _ ≤ 10 ^ 10 := by decide

theorem decStrLoop_decimalText {value : Nat} (long : value < 2 ^ 31) :
    decStrLoop (decimalText value) 0 = some (value : Int) := by
  have read := decStrLoop_digits (decimalText_isDigit value) 0
  have whole : toInt32 value = value :=
    toInt32_of_range (by omega) (by omega)
  rw [decimalFrom_decimalText, whole] at read
  exact read

theorem head_decimalText (value : Nat) :
    (decimalText value).head? ≠ some minus := by
  intro isMinus
  have digit := decimalText_isDigit value minus
    (List.mem_of_mem_head? isMinus)
  exact absurd digit (by decide)

theorem decStrToLong_decimalText {value : Nat} (long : value < 2 ^ 31) :
    decStrToLong (decimalText value) =
      (((decimalText value).length : Int), some (value : Int)) := by
  have short : (decimalText value).length ≤ 10 :=
    decimalText_length (by omega)
  have isLength : toInt32 (decimalText value).length =
      (decimalText value).length :=
    toInt32_of_range (by omega) (by omega)
  unfold decStrToLong
  simp only [if_neg (head_decimalText value), decStrLoop_decimalText long,
    isLength]

theorem decStrToLong_minus {value : Nat} (long : value < 2 ^ 31) :
    decStrToLong (minus :: decimalText value) =
      (((minus :: decimalText value).length : Int), some (-value : Int)) := by
  have short : (decimalText value).length ≤ 10 :=
    decimalText_length (by omega)
  have isLength : toInt32 (minus :: decimalText value).length =
      (minus :: decimalText value).length := by
    rw [List.length_cons]
    exact toInt32_of_range (by omega) (by omega)
  have isValue : toInt32 (-value) = -value :=
    toInt32_of_range (by omega) (by omega)
  unfold decStrToLong
  simp only [List.head?_cons, if_true, List.tail_cons,
    decStrLoop_decimalText long, isLength, isValue]

theorem valToDecStr_neg {value : Nat} (positive : 0 < value)
    (long : value < 2 ^ 31) :
    valToDecStr (-value) =
      ((minus :: decimalText value).length, minus :: decimalText value) := by
  have bounded : value < 10 ^ maxDecLen := by
    calc value < 2 ^ 31 := long
      _ ≤ 10 ^ maxDecLen := by decide
  have negative : (-value : Int) < 0 := by omega
  rw [valToDecStr, if_pos negative, Int.neg_neg,
    toInt32_of_range (by omega) (by omega)]
  simp only [decLoop_natCast bounded (by decide), List.reverse_reverse,
    List.length_reverse, List.length_cons, List.singleton_append,
    Nat.add_comm 1]

/-- The negation of the least number is itself, and its digits are not. -/
theorem not_decRoundTrip_least : ¬DecRoundTrip (-2 ^ 31) := by
  rintro ⟨-, read⟩
  have printed : valToDecStr (-2 ^ 31) = (11, [minus, 0x2e, 0x2f, 0x2c, 0x29,
      0x2c, 0x28, 0x2d, 0x2a, 0x2c, 0x28]) := by
    decide
  rw [printed] at read
  exact absurd read (by decide)

theorem decRoundTrip_of_ne {val : Int} (low : -2 ^ 31 < val)
    (high : val < 2 ^ 31) : DecRoundTrip val := by
  unfold DecRoundTrip
  by_cases negative : val < 0
  · obtain ⟨value, rfl⟩ : ∃ value : Nat, val = -value :=
      ⟨val.natAbs, by omega⟩
    have long : value < 2 ^ 31 := by omega
    rw [valToDecStr_neg (by omega) long]
    exact ⟨rfl, decStrToLong_minus long⟩
  · obtain ⟨value, rfl⟩ := Int.eq_ofNat_of_zero_le (not_lt.mp negative)
    have long : value < 2 ^ 31 := by omega
    have printed : valToDecStr value =
        ((decimalText value).length, decimalText value) :=
      valToDecStr_natCast (by omega)
    rw [printed]
    exact ⟨rfl, decStrToLong_decimalText long⟩

/-- `hex_str_to_val` reads what `val_to_hex_str` writes, and both return the
length of the string. -/
def HexRoundTrip (val : Nat) : Prop :=
  (valToHexStr val).1 = (valToHexStr val).2.length ∧
    hexStrToVal (valToHexStr val).2 =
      some ((valToHexStr val).2.length, val)

theorem hexRoundTrip {val : Nat} (word : val < 2 ^ 32) :
    HexRoundTrip val := by
  have small : val < 16 ^ 8 := by
    calc val < 2 ^ 32 := word
      _ = 16 ^ 8 := by decide
  have printed : valToHexStr val =
      ((Nat.digits 16 val).length,
        (Nat.digits 16 val).reverse.map hexChar) := by
    have bounded : val < 16 ^ maxHexLen :=
      Nat.lt_of_lt_of_le small (by decide)
    rw [valToHexStr, valToHexLoop_eq_digits bounded, List.length_map,
      List.map_reverse]
  have short : (Nat.digits 16 val).length ≤ 8 :=
    (Nat.digits_length_le_iff (by decide) val).mpr small
  have isValue : numeral 16 0 (Nat.digits 16 val).reverse = val := by
    rw [numeral_eq_ofDigits, List.reverse_reverse, Nat.ofDigits_digits]
  have same : ((Nat.digits 16 val).reverse.map hexChar).map hexDigit =
      (Nat.digits 16 val).reverse.map some := by
    rw [List.map_map]
    apply List.map_congr_left
    intro digit member
    exact hexDigit_hexChar digit
      (Nat.digits_lt_base (by decide) (List.mem_reverse.mp member))
  unfold HexRoundTrip
  rw [printed]
  refine ⟨by simp, ?_⟩
  rw [hexStrToVal, hexLoop_digits same (by decide) (by simpa using short),
    isValue, Nat.zero_add]

/-- The numbers that are read back from their text. -/
theorem text_roundTrip_iff {long : Int}
    (isLong : -2 ^ 31 ≤ long ∧ long < 2 ^ 31) {val : Nat}
    (word : val < 2 ^ 32) :
    (DecRoundTrip long ↔ long ≠ -2 ^ 31) ∧ HexRoundTrip val := by
  refine ⟨⟨?_, ?_⟩, hexRoundTrip word⟩
  · rintro roundTrip rfl
    exact not_decRoundTrip_least roundTrip
  · intro notLeast
    exact decRoundTrip_of_ne (by omega) isLong.2

/-- The number next to the least one, and the greatest word. -/
theorem text_roundTrip_iff_ends :
    DecRoundTrip (-2 ^ 31 + 1) ∧ HexRoundTrip 0xffffffff := by
  have both := text_roundTrip_iff (by decide :
    -2 ^ 31 ≤ (-2 ^ 31 + 1 : Int) ∧ (-2 ^ 31 + 1 : Int) < 2 ^ 31)
    (by decide : 0xffffffff < 2 ^ 32)
  exact ⟨both.1.mpr (by decide), both.2⟩

theorem not_all_decRoundTrip :
    ¬∀ (long : Int) (val : Nat), -2 ^ 31 ≤ long ∧ long < 2 ^ 31 →
      val < 2 ^ 32 → DecRoundTrip long ∧ HexRoundTrip val := by
  intro always
  exact not_decRoundTrip_least
    (always (-2 ^ 31) 0 ⟨by decide, by decide⟩ (by decide)).1

def kbMask : Nat := 2 ^ 10 - 1

def soff : List (Nat × UInt8) := [(30, 0x47), (20, 0x4d), (10, 0x4b), (0, 0x42)]

/-- What an iteration of the loop of `val_to_hr_str` stores. -/
def hrPart (val : Nat) (off : Nat × UInt8) : List UInt8 :=
  let sect := val >>> off.1 &&& kbMask
  if sect ≠ 0 then (valToDecStr sect).2 ++ [off.2] else []

/-- `val_to_hr_str`: what it returns, and the string it stores. -/
def valToHrStr (val : Nat) : Nat × List UInt8 :=
  let str := soff.flatMap (hrPart val)
  (str.length, str)

theorem hrPart_eq (val shift : Nat) (sign : UInt8) :
    hrPart val (shift, sign) =
      if val / 2 ^ shift % 1024 = 0 then []
      else decimalText (val / 2 ^ shift % 1024) ++ [sign] := by
  have sect : val >>> shift &&& kbMask = val / 2 ^ shift % 1024 := by
    rw [kbMask, Nat.and_two_pow_sub_one_eq_mod, Nat.shiftRight_eq_div_pow]
  have word : val / 2 ^ shift % 1024 < 2 ^ 32 := by omega
  simp only [hrPart, sect, valToDecStr_natCast word, ne_eq, ite_not]

theorem sizeFrom_hrPart {units : List SizeUnit} {rest : List UInt8}
    {later : Nat} (behind : SizeFrom units 0 rest later) (unit : SizeUnit)
    (val : Nat) :
    SizeFrom (unit :: units) 0
      (hrPart val (unit.shift, unit.capital) ++ rest)
      (val / 2 ^ unit.shift % 1024 * 2 ^ unit.shift + later) := by
  rw [hrPart_eq, SizeFrom]
  split
  · rename_i zero
    rw [zero, Nat.zero_mul, Nat.zero_add]
    exact Or.inl behind
  · refine Or.inr ⟨decimalText (val / 2 ^ unit.shift % 1024), unit.capital,
      rest, later, decimalText_isDigit _, Or.inr rfl, behind, by simp, ?_⟩
    rw [decimalFrom_decimalText]

theorem mem_of_sizeFrom {units : List SizeUnit} {start value : Nat}
    {str : List UInt8} (isSize : SizeFrom units start str value) {char : UInt8}
    (member : char ∈ str) :
    isDigit char = true ∨ ∃ unit ∈ units, unit.Spells char := by
  induction units generalizing start str value with
  | nil => exact Or.inl (isSize.1 char member)
  | cons unit units induction =>
      have among (other : isDigit char = true ∨
          ∃ unit ∈ units, unit.Spells char) :
          isDigit char = true ∨ ∃ other ∈ unit :: units, other.Spells char := by
        rcases other with digit | ⟨other, isMember, isLetter⟩
        · exact Or.inl digit
        · exact Or.inr ⟨other, List.mem_cons_of_mem _ isMember, isLetter⟩
      rcases isSize with skips | ⟨digits, letter, rest, later, areDigits,
        isLetter, behind, rfl, -⟩
      · exact among (induction skips member)
      · rcases List.mem_append.mp member with inDigits | inRest
        · exact Or.inl (areDigits char inDigits)
        · rcases List.mem_cons.mp inRest with rfl | inRest
          · exact Or.inr ⟨unit, List.mem_cons_self, isLetter⟩
          · exact among (induction behind inRest)

/-- A size is read back exactly if it has no bytes behind the last unit: their
sign is not read. -/
theorem valToHrStr_roundTrip_iff {val : Nat} (word : val < 2 ^ 32)
    (old : Nat) :
    hrStrToValOut (valToHrStr val).2 old = (0, val) ↔ val % 1024 = 0 := by
  have parts : (valToHrStr val).2 = hrPart val (gUnit.shift, gUnit.capital) ++
      (hrPart val (mUnit.shift, mUnit.capital) ++
        (hrPart val (kUnit.shift, kUnit.capital) ++ hrPart val (0, 0x42))) := by
    simp [valToHrStr, soff, gUnit, mUnit, kUnit]
  constructor
  · intro roundTrip
    by_contra bytes
    have isB : 0x42 ∈ (valToHrStr val).2 := by
      rw [parts, hrPart_eq val 0, Nat.pow_zero, Nat.div_one, if_neg bytes]
      simp
    have noSize : ¬∃ value, IsSize (valToHrStr val).2 value := by
      rintro ⟨value, isSize⟩
      have noLetter : isDigit 0x42 = false ∧
          ∀ unit ∈ [gUnit, mUnit, kUnit], ¬unit.Spells 0x42 := by
        decide
      rcases mem_of_sizeFrom isSize isB with digit | ⟨unit, member, isLetter⟩
      · rw [noLetter.1] at digit
        cases digit
      · exact noLetter.2 unit member isLetter
    rw [(hrStrToValOut_isSize _ old).2 noSize] at roundTrip
    cases roundTrip
  · intro noBytes
    have last : SizeFrom [] 0 (hrPart val (0, 0x42)) 0 := by
      rw [hrPart_eq, Nat.pow_zero, Nat.div_one, if_pos noBytes]
      exact ⟨by simp, rfl⟩
    have isSize := sizeFrom_hrPart (sizeFrom_hrPart
      (sizeFrom_hrPart last kUnit val) mUnit val) gUnit val
    rw [← parts] at isSize
    have value : val / 2 ^ gUnit.shift % 1024 * 2 ^ gUnit.shift +
        (val / 2 ^ mUnit.shift % 1024 * 2 ^ mUnit.shift +
          (val / 2 ^ kUnit.shift % 1024 * 2 ^ kUnit.shift + 0)) = val := by
      simp only [gUnit, mUnit, kUnit]
      omega
    rw [value] at isSize
    have read := (hrStrToValOut_isSize _ old).1 val isSize
    rwa [Nat.mod_eq_of_lt word] at read

/-- `1G3M2K` -/
theorem valToHrStr_roundTrip_iff_units :
    hrStrToValOut (valToHrStr (2 ^ 30 + 3 * 2 ^ 20 + 2 * 2 ^ 10)).2 7 =
      (0, 2 ^ 30 + 3 * 2 ^ 20 + 2 * 2 ^ 10) :=
  (valToHrStr_roundTrip_iff (by decide) 7).mpr (by decide)

/-- `1B` is not a size. -/
theorem valToHrStr_not_roundTrip :
    ¬∀ val < 2 ^ 32, ∀ old,
      hrStrToValOut (valToHrStr val).2 old = (0, val) := by
  intro always
  have roundTrip := always 1 (by decide) 0
  exact absurd roundTrip (by decide)

end Witos.Extra
