import Witos.Extra.Address
import Witos.Library.Numeral
import Witos.Stdio.Format

/-!
# Numbers in text form

`val_to_dec_str`, `val_to_hex_str`, `dec_str_to_long` and `str_to_val` of
`lib/extra/strex.c`.  A `long` has 32 bits.
-/

namespace Witos.Extra

open Library
open Stdio (toInt32)

def minus : UInt8 := 0x2d

def einval : Int := 22

def maxDecLen : Nat := 32
def maxHexLen : Nat := 9

/-- The digits that the first loop of `val_to_dec_str` stores in `buff`, the
last one first.  The remainder of a negative number is negative. -/
def decLoop : Nat → Int → List UInt8
  | 0, _ => []
  | room + 1, val =>
      UInt8.ofNat (val.tmod 10 + 0x30).toNat ::
        if val.tdiv 10 = 0 then [] else decLoop room (val.tdiv 10)

/-- `val_to_dec_str`: what it returns, and the string it stores. -/
def valToDecStr (val : Int) : Nat × List UInt8 :=
  let (j, str, val) :=
    if val < 0 then (1, [minus], toInt32 (-val)) else (0, [], val)
  let buff := decLoop maxDecLen val
  (j + buff.length, str ++ buff.reverse)

def hexChar (num : Nat) : UInt8 :=
  if num < 0xa then UInt8.ofNat (num + 0x30)
  else UInt8.ofNat (num - 0xa + 0x61)

def valToHexLoop : Nat → Nat → List UInt8
  | 0, _ => []
  | room + 1, val =>
      if val = 0 then []
      else hexChar (val % 16) :: valToHexLoop room (val / 16)

/-- `val_to_hex_str`: what it returns, and the string it stores. -/
def valToHexStr (val : Nat) : Nat × List UInt8 :=
  let buff := valToHexLoop maxHexLen val
  (buff.length, buff.reverse)

/-- The loop of `dec_str_to_long`; `none` is `-EINVAL`. -/
def decStrLoop : List UInt8 → Int → Option Int
  | [], tmp => some tmp
  | char :: num, tmp =>
      if isDigit char then
        decStrLoop num (toInt32 (10 * tmp + char.toNat - 0x30))
      else none

/-- `dec_str_to_long`: what it returns, and what it stores in `*val`. -/
def decStrToLong (str : List UInt8) : Int × Option Int :=
  let num := if str.head? = some minus then str.tail else str
  match decStrLoop num 0 with
  | none => (-einval, none)
  | some tmp =>
      (toInt32 str.length,
        some (if str.head? = some minus then toInt32 (-tmp) else tmp))

/-- A number as a word. -/
def toWord32 (value : Int) : Nat :=
  (value % 2 ^ 32).toNat

/-- Whether the string goes on with the digits of a hexadecimal number. -/
def behindHexPrefix : List UInt8 → Option (List UInt8)
  | 0x30 :: 0x78 :: str => some str
  | 0x30 :: 0x58 :: str => some str
  | _ => none

/-- `str_to_val`: what it returns, and `*val` afterwards. -/
def strToVal (str : List UInt8) (val : Nat) : Int × Nat :=
  match behindHexPrefix str with
  | some digits =>
      match hexStrToVal digits with
      | none => (-einval, val)
      | some (len, tmp) => (len, tmp)
  | none =>
      match decStrToLong str with
      | (ret, some tmp) => (ret, if 0 ≤ ret then toWord32 tmp else val)
      | (ret, none) => (ret, val)

def digitChar (digit : Nat) : UInt8 :=
  UInt8.ofNat (digit + 0x30)

/-- A number in decimal form. -/
def decimalText (value : Nat) : List UInt8 :=
  (digitsOf 10 value).map digitChar

theorem digitChar_toNat {digit : Nat} (small : digit < 10) :
    (digitChar digit).toNat = digit + 0x30 := by
  rw [digitChar, UInt8.toNat_ofNat']
  omega

theorem isDigit_iff (char : UInt8) :
    isDigit char = true ↔ 0x30 ≤ char.toNat ∧ char.toNat ≤ 0x39 := by
  simp [isDigit, UInt8.le_iff_toNat_le]

theorem isDigit_digitChar {digit : Nat} (small : digit < 10) :
    isDigit (digitChar digit) = true := by
  rw [isDigit_iff, digitChar_toNat small]
  omega

theorem decimalFrom_map_digitChar {digits : List Nat}
    (below : ∀ digit ∈ digits, digit < 10) (start : Nat) :
    decimalFrom start (digits.map digitChar) = numeral 10 start digits := by
  induction digits generalizing start with
  | nil => rfl
  | cons digit digits induction =>
      obtain ⟨small, others⟩ := List.forall_mem_cons.mp below
      have rest := induction others (10 * start + digit)
      rw [numeral_cons, ← rest, List.map_cons, decimalFrom, List.foldl_cons,
        digitChar_toNat small, Nat.add_sub_cancel]
      rfl

theorem decimalText_isDigit (value : Nat) :
    ∀ char ∈ decimalText value, isDigit char = true := by
  intro char member
  obtain ⟨digit, isMember, rfl⟩ := List.mem_map.mp member
  exact isDigit_digitChar
    ((digitsOf_canonical (by decide) value).below digit isMember)

theorem decimalFrom_decimalText (value : Nat) :
    decimalFrom 0 (decimalText value) = value := by
  rw [decimalText, decimalFrom_map_digitChar
    (digitsOf_canonical (by decide) value).below, numeral_digitsOf]

theorem decimalText_ne_nil (value : Nat) : decimalText value ≠ [] := by
  rw [decimalText, Ne, List.map_eq_nil_iff]
  exact (digitsOf_canonical (by decide) value).nonempty

theorem decLoop_natCast {room value : Nat} (bounded : value < 10 ^ room)
    (positive : 0 < room) :
    decLoop room value = (decimalText value).reverse := by
  induction room generalizing value with
  | zero => exact absurd positive (Nat.lt_irrefl 0)
  | succ room induction =>
      have last : UInt8.ofNat (((value : Int).tmod 10) + 0x30).toNat =
          digitChar (value % 10) := by
        rw [Int.tmod_eq_emod_of_nonneg (Int.natCast_nonneg value), digitChar]
        congr 1
      have others : (value : Int).tdiv 10 = (value / 10 : Nat) :=
        Int.ofNat_tdiv value 10 |>.symm
      rw [decLoop, last, others]
      by_cases small : value < 10
      · have none : value / 10 = 0 := Nat.div_eq_of_lt small
        rw [none, decimalText, digitsOf_of_lt small,
          Nat.mod_eq_of_lt small]
        rfl
      · have long : 10 ≤ value := Nat.not_lt.mp small
        have some_ : 0 < value / 10 := Nat.div_pos long (by decide)
        have smaller : value / 10 < 10 ^ room := by
          rw [Nat.pow_succ] at bounded
          omega
        have more : 0 < room := by
          apply Nat.pos_of_ne_zero
          rintro rfl
          rw [Nat.pow_zero] at smaller
          omega
        rw [if_neg (by exact_mod_cast some_.ne'), induction smaller more,
          decimalText, decimalText, digitsOf_of_le (by decide) long,
          List.map_append, List.reverse_append]
        rfl

theorem valToDecStr_natCast {value : Nat} (word : value < 2 ^ 32) :
    valToDecStr value =
      ((decimalText value).length, decimalText value) := by
  have bounded : value < 10 ^ maxDecLen := by
    calc value < 2 ^ 32 := word
      _ ≤ 10 ^ maxDecLen := by decide
  have notNegative : ¬(value : Int) < 0 := by omega
  rw [valToDecStr, if_neg notNegative]
  simp only [decLoop_natCast bounded (by decide), List.reverse_reverse,
    List.length_reverse, List.nil_append, Nat.zero_add]

theorem decStrLoop_digits {digits : List UInt8}
    (areDigits : ∀ char ∈ digits, isDigit char = true) (start : Nat) :
    decStrLoop digits (toInt32 start) =
      some (toInt32 (decimalFrom start digits)) := by
  induction digits generalizing start with
  | nil => rfl
  | cons char digits induction =>
      obtain ⟨digit, others⟩ := List.forall_mem_cons.mp areDigits
      have low := ((isDigit_iff char).mp digit).1
      have value : (10 * start + char.toNat - 0x30 : Int) =
          (10 * start + (char.toNat - 0x30) : Nat) := by omega
      have wraps : toInt32 (10 * toInt32 start + char.toNat - 0x30) =
          toInt32 (10 * start + (char.toNat - 0x30) : Nat) := by
        rw [← value, toInt32, toInt32, toInt32, Int.add_sub_assoc,
          ← Int.bmod_add_bmod, Int.mul_bmod_bmod, Int.bmod_add_bmod,
          ← Int.add_sub_assoc]
      rw [decStrLoop, if_pos digit, wraps, induction others]
      rfl

theorem decStrLoop_other {str : List UInt8} {char : UInt8}
    (member : char ∈ str) (notDigit : isDigit char = false) (tmp : Int) :
    decStrLoop str tmp = none := by
  induction str generalizing tmp with
  | nil => cases member
  | cons first str induction =>
      rw [decStrLoop]
      rcases List.mem_cons.mp member with rfl | later
      · rw [notDigit]
        rfl
      · split
        · exact induction later _
        · rfl

theorem hexDigit_lt {char : UInt8} {digit : Nat}
    (isDigitChar : hexDigit char = some digit) : digit < 16 := by
  simp only [hexDigit, UInt8.le_iff_toNat_le] at isDigitChar
  split at isDigitChar
  · rename_i range
    have high : char.toNat ≤ 0x39 := range.2
    obtain rfl := Option.some.inj isDigitChar
    omega
  · split at isDigitChar
    · rename_i range
      have high : char.toNat ≤ 0x66 := range.2
      obtain rfl := Option.some.inj isDigitChar
      omega
    · split at isDigitChar
      · rename_i range
        have high : char.toNat ≤ 0x46 := range.2
        obtain rfl := Option.some.inj isDigitChar
        omega
      · cases isDigitChar

theorem hexDigit_hexChar :
    ∀ digit < 16, hexDigit (hexChar digit) = some digit := by
  decide

theorem valToHexLoop_eq_digits {room value : Nat}
    (bounded : value < 16 ^ room) :
    valToHexLoop room value = (Nat.digits 16 value).map hexChar := by
  apply digitLoop_eq (by decide) _ _ bounded
  · intro room
    cases room <;> rfl
  · exact fun _ _ positive => if_neg positive

theorem hexLoop_digits {str : List UInt8} {digits : List Nat}
    (same : str.map hexDigit = digits.map some) {len start : Nat}
    (bounded : start < 16 ^ len) (short : len + str.length ≤ 8) :
    hexLoop str len start =
      some (len + str.length, numeral 16 start digits) := by
  induction str generalizing digits len start with
  | nil =>
      have none : digits = [] := List.map_eq_nil_iff.mp same.symm
      rw [none]
      rfl
  | cons char str induction =>
      cases digits with
      | nil => cases same
      | cons digit digits =>
          obtain ⟨isDigitChar, others⟩ := List.cons.inj same
          have small : digit < 16 := hexDigit_lt isDigitChar
          have room : len + 1 + str.length ≤ 8 := by
            rw [List.length_cons] at short
            omega
          have next : 16 * start + digit < 16 ^ (len + 1) := by
            rw [Nat.pow_succ]
            omega
          have word : 16 ^ (len + 1) ≤ 2 ^ 32 := by
            calc 16 ^ (len + 1) ≤ 16 ^ 8 :=
                  Nat.pow_le_pow_right (by decide) (by omega)
              _ = 2 ^ 32 := by decide
          have shifts : start * 16 % 2 ^ 32 + digit = 16 * start + digit := by
            omega
          rw [hexLoop, isDigitChar]
          simp only [if_neg (show ¬8 < len + 1 by omega), shifts]
          rw [induction others next room, numeral_cons, List.length_cons,
            Nat.add_assoc, Nat.add_comm 1]

theorem digits_of_hexLoop {str : List UInt8} {len start : Nat}
    {found : Nat × Nat} (read : hexLoop str len start = some found)
    (short : len ≤ 8) :
    (∃ digits : List Nat, str.map hexDigit = digits.map some) ∧
      len + str.length ≤ 8 := by
  induction str generalizing len start with
  | nil => exact ⟨⟨[], rfl⟩, short⟩
  | cons char str induction =>
      rw [hexLoop] at read
      cases isDigitChar : hexDigit char with
      | none =>
          rw [isDigitChar] at read
          cases read
      | some digit =>
          rw [isDigitChar] at read
          simp only at read
          split at read
          · cases read
          · obtain ⟨⟨digits, same⟩, room⟩ := induction read (by omega)
            refine ⟨⟨digit :: digits, ?_⟩, ?_⟩
            · rw [List.map_cons, isDigitChar, same, List.map_cons]
            · rw [List.length_cons]
              omega

/-- `hex_str_to_val` accepts the strings of at most eight digits, also the
empty one. -/
theorem hexStrToVal_eq_some_iff {str : List UInt8} {len val : Nat} :
    hexStrToVal str = some (len, val) ↔
      ∃ digits : List Nat, str.map hexDigit = digits.map some ∧
        str.length ≤ 8 ∧ len = str.length ∧ val = numeral 16 0 digits := by
  constructor
  · intro read
    obtain ⟨⟨digits, same⟩, short⟩ := digits_of_hexLoop read (by decide)
    have found : hexStrToVal str = _ :=
      hexLoop_digits same (by decide) short
    obtain ⟨isLen, isVal⟩ :=
      Prod.mk.inj (Option.some.inj (read.symm.trans found))
    rw [Nat.zero_add] at short isLen
    exact ⟨digits, same, short, isLen, isVal⟩
  · rintro ⟨digits, same, short, rfl, rfl⟩
    have found : hexStrToVal str = _ :=
      hexLoop_digits same (by decide) (by omega)
    rw [found, Nat.zero_add]

end Witos.Extra
