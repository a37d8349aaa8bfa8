import Witos.Extra.NumberText

/-!
# Numeric arguments

The strings that denote a number of 32 bits, and those on which `str_to_val`
tells them from the others.
-/

namespace Witos.Extra

open Library
open Stdio (toInt32)

/-- One to eight hexadecimal digits behind `0x` or `0X`. -/
def IsHexArgument (str : List UInt8) (word : Nat) : Prop :=
  ∃ (letter : UInt8) (chars : List UInt8) (digits : List Nat),
    (letter = 0x78 ∨ letter = 0x58) ∧ str = 0x30 :: letter :: chars ∧
      chars.map hexDigit = digits.map some ∧
        1 ≤ chars.length ∧ chars.length ≤ 8 ∧ word = numeral 16 0 digits

def signed (negative : Bool) (digits : List UInt8) : List UInt8 :=
  if negative then minus :: digits else digits

def signedValue (negative : Bool) (value : Nat) : Int :=
  if negative then -value else value

/-- Decimal digits that stand for a number of 32 bits, maybe behind a sign. -/
def IsDecArgument (str : List UInt8) (word : Nat) : Prop :=
  ∃ negative digits, digits ≠ [] ∧ (∀ char ∈ digits, isDigit char = true) ∧
    decimalFrom 0 digits < 2 ^ 32 ∧ str = signed negative digits ∧
      word = toWord32 (signedValue negative (decimalFrom 0 digits))

def Denotes (str : List UInt8) (word : Nat) : Prop :=
  IsHexArgument str word ∨ IsDecArgument str word

/-- `str_to_val` tells whether a string denotes a number, and which. -/
def ToldApart (str : List UInt8) : Prop :=
  ∀ val,
    (∀ word, Denotes str word →
      0 ≤ (strToVal str val).1 ∧ (strToVal str val).2 = word) ∧
    ((¬∃ word, Denotes str word) →
      (strToVal str val).1 < 0 ∧ (strToVal str val).2 = val)

/-- There are digits, and decimal ones stand for a number of 32 bits exactly if
the length of the string is an `int`. -/
structure IsPlain (str : List UInt8) : Prop where
  digits : str ≠ [] ∧ str ≠ [minus] ∧ str ≠ [0x30, 0x78] ∧
    str ≠ [0x30, 0x58]
  fits : ∀ negative digits, str = signed negative digits → digits ≠ [] →
    (∀ char ∈ digits, isDigit char = true) →
      (decimalFrom 0 digits < 2 ^ 32 ↔ str.length % 2 ^ 32 < 2 ^ 31)

theorem neg_einval : -einval < 0 := by
  decide

theorem behindHexPrefix_eq_some_iff {str chars : List UInt8} :
    behindHexPrefix str = some chars ↔
      ∃ letter : UInt8, (letter = 0x78 ∨ letter = 0x58) ∧
        str = 0x30 :: letter :: chars := by
  unfold behindHexPrefix
  split
  · simp
  · simp
  · rename_i notSmall notCapital
    constructor
    · intro none
      cases none
    · rintro ⟨letter, rfl | rfl, rfl⟩
      · exact absurd rfl (notSmall chars)
      · exact absurd rfl (notCapital chars)

/-- A sign is not followed by another one. -/
def NoSign (negative : Bool) (body : List UInt8) : Prop :=
  negative = false → body.head? ≠ some minus

theorem noSign_of_digits (negative : Bool) {digits : List UInt8}
    (areDigits : ∀ char ∈ digits, isDigit char = true) :
    NoSign negative digits := by
  intro _ isMinus
  have digit := areDigits minus (List.mem_of_mem_head? isMinus)
  exact absurd digit (by decide)

theorem exists_signed (str : List UInt8) :
    ∃ negative body, str = signed negative body ∧ NoSign negative body := by
  by_cases isMinus : str.head? = some minus
  · cases str with
    | nil => cases isMinus
    | cons char str =>
        obtain rfl := Option.some.inj isMinus
        exact ⟨true, str, rfl, fun no => by cases no⟩
  · exact ⟨false, str, rfl, fun _ => isMinus⟩

theorem signed_inj {negative other : Bool} {body digits : List UInt8}
    (noSign : NoSign negative body) (noOther : NoSign other digits)
    (same : signed negative body = signed other digits) :
    negative = other ∧ body = digits := by
  cases negative with
  | true =>
      cases other with
      | true => exact ⟨rfl, (List.cons.inj same).2⟩
      | false =>
          have head := noOther rfl
          rw [show digits = minus :: body from same.symm] at head
          exact absurd rfl head
  | false =>
      cases other with
      | true =>
          have head := noSign rfl
          rw [show body = minus :: digits from same] at head
          exact absurd rfl head
      | false => exact ⟨rfl, same⟩

theorem not_isDecArgument_of_hexMark {str chars : List UInt8} {word : Nat}
    (isPrefix : behindHexPrefix str = some chars) :
    ¬IsDecArgument str word := by
  obtain ⟨letter, isLetter, rfl⟩ := behindHexPrefix_eq_some_iff.mp isPrefix
  rintro ⟨negative, digits, -, areDigits, -, spelled, -⟩
  cases negative with
  | true =>
      obtain ⟨first, -⟩ := List.cons.inj spelled
      exact absurd first (by decide)
  | false =>
      have digit := areDigits letter (by
        rw [show digits = 0x30 :: letter :: chars from spelled.symm]
        simp)
      rcases isLetter with rfl | rfl <;> exact absurd digit (by decide)

theorem isHexArgument_of_hexMark {str chars : List UInt8} {word : Nat}
    (isPrefix : behindHexPrefix str = some chars) :
    IsHexArgument str word ↔
      chars ≠ [] ∧ hexStrToVal chars = some (chars.length, word) := by
  obtain ⟨letter, isLetter, rfl⟩ := behindHexPrefix_eq_some_iff.mp isPrefix
  rw [hexStrToVal_eq_some_iff]
  constructor
  · rintro ⟨letter, chars, digits, -, spelled, same, some_, short, rfl⟩
    obtain ⟨-, rest⟩ := List.cons.inj spelled
    obtain ⟨-, rfl⟩ := List.cons.inj rest
    exact ⟨List.ne_nil_of_length_pos some_, digits, same, short, rfl, rfl⟩
  · rintro ⟨some_, digits, same, short, -, rfl⟩
    exact ⟨letter, chars, digits, isLetter, rfl, same,
      List.length_pos_iff.mpr some_, short, rfl⟩

/-- Behind `0x` only the empty string is accepted wrongly. -/
theorem toldApart_of_hexMark {str chars : List UInt8}
    (isPrefix : behindHexPrefix str = some chars) :
    ToldApart str ↔ chars ≠ [] := by
  have denotes (word : Nat) : Denotes str word ↔
      chars ≠ [] ∧ hexStrToVal chars = some (chars.length, word) := by
    rw [Denotes, or_iff_left (not_isDecArgument_of_hexMark isPrefix)]
    exact isHexArgument_of_hexMark isPrefix
  unfold ToldApart
  simp only [denotes, strToVal, isPrefix]
  constructor
  · rintro told rfl
    have rejected := ((told 0).2 (fun ⟨_, some_, _⟩ => some_ rfl)).1
    exact absurd rejected (by decide)
  · intro some_ val
    constructor
    · rintro word ⟨-, read⟩
      rw [read]
      exact ⟨Int.natCast_nonneg _, rfl⟩
    · intro noValue
      cases read : hexStrToVal chars with
      | none =>
          exact ⟨neg_einval, rfl⟩
      | some found =>
          obtain ⟨len, word⟩ := found
          obtain ⟨digits, same, short, rfl, rfl⟩ :=
            hexStrToVal_eq_some_iff.mp read
          exact absurd ⟨_, some_, read⟩ noValue

/-- The head of the string is what `dec_str_to_long` looks at. -/
theorem behind_sign {negative : Bool} {body : List UInt8}
    (noSign : NoSign negative body) :
    (if (signed negative body).head? = some minus then
      (signed negative body).tail else signed negative body) = body ∧
      ((signed negative body).head? = some minus ↔ negative = true) := by
  cases negative with
  | true => exact ⟨rfl, by simp [signed]⟩
  | false =>
      have head := noSign rfl
      simp [signed, head]

theorem decStrToLong_digits {digits : List UInt8}
    (areDigits : ∀ char ∈ digits, isDigit char = true) (negative : Bool) :
    decStrToLong (signed negative digits) =
      (toInt32 (signed negative digits).length,
        some (toInt32 (signedValue negative (decimalFrom 0 digits)))) := by
  obtain ⟨behind, isMinus⟩ := behind_sign
    (noSign_of_digits negative areDigits)
  have read := decStrLoop_digits areDigits 0
  have zero : toInt32 (0 : Nat) = 0 := rfl
  rw [zero] at read
  unfold decStrToLong
  dsimp only
  rw [behind, read]
  simp only [isMinus]
  cases negative with
  | true =>
      have negated : toInt32 (-toInt32 (decimalFrom 0 digits)) =
          toInt32 (-decimalFrom 0 digits) := by
        rw [toInt32, toInt32, toInt32, ← Int.zero_sub, Int.sub_bmod_bmod,
          Int.zero_sub]
      simp only [if_true, signedValue, negated]
  | false => simp only [Bool.false_eq_true, if_false, signedValue]

theorem decStrToLong_other {negative : Bool} {body : List UInt8}
    (noSign : NoSign negative body) {char : UInt8} (member : char ∈ body)
    (notDigit : isDigit char = false) :
    decStrToLong (signed negative body) = (-einval, none) := by
  obtain ⟨behind, -⟩ := behind_sign noSign
  unfold decStrToLong
  dsimp only
  rw [behind, decStrLoop_other member notDigit]

/-- The length is returned as an `int`. -/
theorem toInt32_nonneg_iff (length : Nat) :
    0 ≤ toInt32 length ↔ length % 2 ^ 32 < 2 ^ 31 := by
  rw [toInt32, Int.bmod_def]
  omega

theorem toWord32_toInt32 (value : Int) :
    toWord32 (toInt32 value) = toWord32 value := by
  rw [toWord32, toWord32, toInt32]
  congr 1
  exact Int.bmod_emod

section Decimal

variable {negative : Bool} {body : List UInt8}

theorem isDecArgument_signed_iff (noSign : NoSign negative body)
    (word : Nat) :
    IsDecArgument (signed negative body) word ↔
      body ≠ [] ∧ (∀ char ∈ body, isDigit char = true) ∧
        decimalFrom 0 body < 2 ^ 32 ∧
          word = toWord32 (signedValue negative (decimalFrom 0 body)) := by
  constructor
  · rintro ⟨other, digits, some_, areDigits, fits, same, rfl⟩
    obtain ⟨rfl, rfl⟩ :=
      signed_inj noSign (noSign_of_digits other areDigits) same
    exact ⟨some_, areDigits, fits, rfl⟩
  · rintro ⟨some_, areDigits, fits, rfl⟩
    exact ⟨negative, body, some_, areDigits, fits, rfl, rfl⟩

theorem denotes_signed_iff (noSign : NoSign negative body)
    (noPrefix : behindHexPrefix (signed negative body) = none) (word : Nat) :
    Denotes (signed negative body) word ↔
      body ≠ [] ∧ (∀ char ∈ body, isDigit char = true) ∧
        decimalFrom 0 body < 2 ^ 32 ∧
          word = toWord32 (signedValue negative (decimalFrom 0 body)) := by
  have notHex : ¬IsHexArgument (signed negative body) word := by
    rintro ⟨letter, chars, digits, isLetter, spelled, -⟩
    have isPrefix : behindHexPrefix (signed negative body) = some chars :=
      behindHexPrefix_eq_some_iff.mpr ⟨letter, isLetter, spelled⟩
    rw [noPrefix] at isPrefix
    cases isPrefix
  rw [Denotes, or_iff_right notHex, isDecArgument_signed_iff noSign]

theorem toldApart_of_other (noSign : NoSign negative body)
    (noPrefix : behindHexPrefix (signed negative body) = none) {char : UInt8}
    (member : char ∈ body) (notDigit : isDigit char = false) :
    ToldApart (signed negative body) := by
  intro val
  have rejected : strToVal (signed negative body) val = (-einval, val) := by
    simp only [strToVal, noPrefix, decStrToLong_other noSign member notDigit]
  rw [rejected]
  constructor
  · intro word denotes
    obtain ⟨-, areDigits, -⟩ :=
      (denotes_signed_iff noSign noPrefix word).mp denotes
    rw [areDigits char member] at notDigit
    cases notDigit
  · intro _
    exact ⟨neg_einval, rfl⟩

theorem toldApart_of_digits (areDigits : ∀ char ∈ body, isDigit char = true)
    (noPrefix : behindHexPrefix (signed negative body) = none) :
    ToldApart (signed negative body) ↔ body ≠ [] ∧
      (decimalFrom 0 body < 2 ^ 32 ↔
        (signed negative body).length % 2 ^ 32 < 2 ^ 31) := by
  have noSign := noSign_of_digits negative areDigits
  rw [← toInt32_nonneg_iff]
  unfold ToldApart
  simp only [denotes_signed_iff noSign noPrefix, strToVal, noPrefix,
    decStrToLong_digits areDigits, toWord32_toInt32]
  constructor
  · intro told
    have some_ : body ≠ [] := by
      rintro rfl
      have rejected := ((told 0).2 (fun ⟨_, some_, _⟩ => some_ rfl)).1
      have short : 0 ≤ toInt32 (signed negative []).length := by
        rw [toInt32_nonneg_iff]
        cases negative <;> decide
      omega
    refine ⟨some_, ?_, ?_⟩
    · intro fits
      exact ((told 0).1 _ ⟨some_, areDigits, fits, rfl⟩).1
    · intro nonneg
      by_contra large
      have rejected := ((told 0).2 (fun ⟨_, _, _, fits, _⟩ => large fits)).1
      omega
  · rintro ⟨some_, fits⟩ val
    constructor
    · rintro word ⟨-, -, small, rfl⟩
      have nonneg := fits.mp small
      exact ⟨nonneg, if_pos nonneg⟩
    · intro noValue
      have long : ¬0 ≤ toInt32 (signed negative body).length :=
        fun nonneg =>
          noValue ⟨_, some_, areDigits, fits.mpr nonneg, rfl⟩
      exact ⟨not_le.mp long, if_neg long⟩

end Decimal

theorem isPlain_of_hexMark {str chars : List UInt8}
    (isPrefix : behindHexPrefix str = some chars) :
    IsPlain str ↔ chars ≠ [] := by
  obtain ⟨letter, isLetter, rfl⟩ := behindHexPrefix_eq_some_iff.mp isPrefix
  constructor
  · rintro plain rfl
    rcases isLetter with rfl | rfl
    · exact plain.digits.2.2.1 rfl
    · exact plain.digits.2.2.2 rfl
  · intro some_
    refine ⟨⟨by simp, by simp, by simp [some_], by simp [some_]⟩, ?_⟩
    intro negative digits spelled notNil areDigits
    have digit : isDigit letter = true := by
      cases negative with
      | true =>
          obtain ⟨first, -⟩ := List.cons.inj spelled
          exact absurd first (by decide)
      | false =>
          apply areDigits
          rw [show digits = 0x30 :: letter :: chars from spelled.symm]
          simp
    rcases isLetter with rfl | rfl <;> exact absurd digit (by decide)

theorem isPlain_of_signed {negative : Bool} {body : List UInt8}
    (noSign : NoSign negative body)
    (noPrefix : behindHexPrefix (signed negative body) = none) :
    IsPlain (signed negative body) ↔
      ((∀ char ∈ body, isDigit char = true) → body ≠ [] ∧
        (decimalFrom 0 body < 2 ^ 32 ↔
          (signed negative body).length % 2 ^ 32 < 2 ^ 31)) := by
  constructor
  · intro plain areDigits
    have some_ : body ≠ [] := by
      rintro rfl
      cases negative with
      | true => exact plain.digits.2.1 rfl
      | false => exact plain.digits.1 rfl
    exact ⟨some_, plain.fits negative body rfl some_ areDigits⟩
  · intro plain
    constructor
    · refine ⟨?_, ?_, ?_, ?_⟩
      · intro none
        cases negative with
        | true => cases none
        | false =>
            rw [show body = [] from none] at plain
            exact (plain (by simp)).1 rfl
      · intro sign
        cases negative with
        | true =>
            rw [show body = [] from (List.cons.inj sign).2] at plain
            exact (plain (by simp)).1 rfl
        | false => exact noSign rfl (by rw [show body = [minus] from sign]; rfl)
      · intro isPrefix
        rw [isPrefix] at noPrefix
        cases noPrefix
      · intro isPrefix
        rw [isPrefix] at noPrefix
        cases noPrefix
    · intro other digits same some_ areDigits
      obtain ⟨rfl, rfl⟩ :=
        signed_inj noSign (noSign_of_digits other areDigits) same
      exact (plain areDigits).2

/-- `str_to_val` tells the strings that denote a number from the others exactly
on those with digits in which a decimal number fits as the length does. -/
theorem strToVal_toldApart_iff (str : List UInt8) :
    ToldApart str ↔ IsPlain str := by
  cases isPrefix : behindHexPrefix str with
  | some chars =>
      rw [toldApart_of_hexMark isPrefix, isPlain_of_hexMark isPrefix]
  | none =>
      obtain ⟨negative, body, rfl, noSign⟩ := exists_signed str
      rw [isPlain_of_signed noSign isPrefix]
      by_cases areDigits : ∀ char ∈ body, isDigit char = true
      · rw [toldApart_of_digits areDigits isPrefix]
        exact ⟨fun plain _ => plain, fun plain => plain areDigits⟩
      · have told : ToldApart (signed negative body) := by
          obtain ⟨char, member, notDigit⟩ :
              ∃ char ∈ body, isDigit char = false := by
            simpa using areDigits
          exact toldApart_of_other noSign isPrefix member notDigit
        exact iff_of_true told (fun all => absurd all areDigits)

/-- The empty string is accepted. -/
theorem strToVal_not_toldApart : ¬∀ str, ToldApart str := by
  intro always
  have rejected := ((always [] 7).2 (by
    rintro ⟨word, isHex | isDec⟩
    · obtain ⟨_, _, _, _, spelled, _⟩ := isHex
      cases spelled
    · obtain ⟨negative, digits, some_, -, -, spelled, -⟩ := isDec
      cases negative with
      | true => cases spelled
      | false => exact some_ spelled.symm)).1
  exact absurd rejected (by decide)

end Witos.Extra
