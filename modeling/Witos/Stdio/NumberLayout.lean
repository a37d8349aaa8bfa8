import Witos.Library.Numeral
import Witos.Stdio.FormatText

/-!
# The layout of numbers

What the comment above `num_to_ascii` says of the flags, and when the text that
the function stores is laid out so.
-/

namespace Witos.Stdio

open Library

/-- What the digits of a number denote; of a signed one, its magnitude. -/
def magnitude (num base : Nat) (style : Style) : Nat :=
  if Flag.sign ∈ style ∧ base = 10 then (toInt32 num).natAbs else num

/-- The sign of a decimal number, or the prefix of another one. -/
def headText (num base : Nat) (style : Style) : List UInt8 :=
  if base = 10 then
    if Flag.sign ∈ style then
      if toInt32 num < 0 then [dash]
      else if Flag.signInt ∈ style then []
      else [cross]
    else if Flag.space ∈ style ∧ 0 ≤ toInt32 num then [blank]
    else []
  else if Flag.plus ∈ style then
    if base = 16 then [nought, 0x78] else [nought]
  else []

/-- A head and digits in a field; `LEFT` overrides `ZERO`. -/
def fieldText (width : Int) (style : Style) (head digits : List UInt8) :
    List UInt8 :=
  let room := (width - (head.length + digits.length : Nat)).toNat
  if Flag.left ∈ style then head ++ digits ++ List.replicate room blank
  else if Flag.zero ∈ style then
    head ++ List.replicate room nought ++ digits
  else List.replicate room blank ++ head ++ digits

/-- A text is a number in its field. -/
structure LaidOut (num : Nat) (width : Int) (base : Nat) (style : Style)
    (digits : List Nat) (text : List UInt8) : Prop where
  canonical : IsCanonical base digits
  denotes : numeral base 0 digits = magnitude num base style
  layout : text =
    fieldText width style (headText num base style) (digits.map pdigit)
  length : text.length =
    max width.toNat ((headText num base style).length + digits.length)

/-- The number of characters that a number needs. -/
def naturalLength (num base : Nat) (style : Style) : Nat :=
  (headText num base style).length +
    (digitsOf base (magnitude num base style)).length

/-- What remains of the width is an `int`, also as it is counted down. -/
def RoomIsInt (num : Nat) (width : Int) (base : Nat) (style : Style) : Prop :=
  -2 ^ 31 ≤ width - naturalLength num base style -
    if Flag.left ∈ style then 0 else 1

/-- Zeros that fill the field are on the left, and in front of no head that can
be told from them. -/
def ZerosInPlace (num : Nat) (width : Int) (base : Nat) (style : Style) :
    Prop :=
  Flag.zero ∈ style → naturalLength num base style < width →
    Flag.left ∉ style ∧
      (headText num base style = [] ∨ headText num base style = [nought])

section Stored

variable {num base : Nat} (style : Style)

theorem toInt32_word (word : num < 2 ^ 32) :
    toInt32 num =
      if 2 ^ 31 ≤ num then (num : Int) - 2 ^ 32 else (num : Int) := by
  split
  · have wraps : toInt32 num = toInt32 ((num : Int) - 2 ^ 32) := by
      rw [toInt32, toInt32]
      exact (Int.sub_bmod_right (num : Int) (2 ^ 32)).symm
    rw [wraps, toInt32_of_range (by omega) (by omega)]
  · exact toInt32_of_range (by omega) (by omega)

theorem unsign_eq_magnitude (word : num < 2 ^ 32) :
    unsign num base style = magnitude num base style := by
  unfold unsign magnitude
  by_cases signed : Flag.sign ∈ style ∧ base = 10
  · rw [if_pos signed, toInt32_word word]
    split
    · rename_i negative
      rw [if_pos negative.2.2, sub32]
      omega
    · rename_i notNegative
      rw [if_neg (fun large => notNegative ⟨signed.1, signed.2, large⟩)]
      exact (Int.natAbs_natCast num).symm
  · rw [if_neg signed, if_neg (fun both => signed ⟨both.1, both.2.1⟩)]

theorem magnitude_lt (word : num < 2 ^ 32) :
    magnitude num base style < 2 ^ 32 := by
  rw [← unsign_eq_magnitude style word]
  exact unsign_lt base style word

theorem leader_append_sign (word : num < 2 ^ 32)
    (isBase : base = 8 ∨ base = 10 ∨ base = 16) :
    leader base style ++ (signOf num base style).toList =
      headText num base style := by
  have negative : toInt32 num < 0 ↔ 2 ^ 31 ≤ num := by
    rw [toInt32_word word]
    split <;> omega
  have notNegative : 0 ≤ toInt32 num ↔ ¬2 ^ 31 ≤ num := by
    rw [← negative, not_lt]
  unfold leader signOf headText
  simp only [negative, notNegative]
  rcases isBase with rfl | rfl | rfl
  · by_cases isPlus : Flag.plus ∈ style <;> simp [isPlus]
  · generalize 2 ^ 31 = bound
    by_cases isSign : Flag.sign ∈ style
    · by_cases large : bound ≤ num
      · simp [isSign, large]
      · by_cases isSignInt : Flag.signInt ∈ style <;>
          simp [isSign, large, isSignInt]
    · by_cases isSpace : Flag.space ∈ style <;>
        by_cases small : num < bound <;> simp [isSign, isSpace, small]
  · by_cases isPlus : Flag.plus ∈ style <;> simp [isPlus]

theorem digitsFrom_eq_digits (large : 1 < base) (fuel : Nat)
    (bounded : num < base ^ fuel) :
    digitsFrom base fuel num = (Nat.digits base num).map pdigit := by
  apply digitLoop_eq large _ _ bounded
  · intro fuel
    cases fuel <;> rfl
  · exact fun _ _ positive => if_neg positive

theorem tmpArray_reverse (large : 1 < base) (word : num < 2 ^ 32) :
    (tmpArray num base).reverse = (digitsOf base num).map pdigit := by
  have bounded : num < base ^ 32 := by
    calc num < 2 ^ 32 := word
      _ ≤ base ^ 32 := Nat.pow_le_pow_left large 32
  unfold tmpArray digitsOf
  split
  · rfl
  · rw [digitsFrom_eq_digits large 32 bounded, List.map_reverse]

theorem headText_cases (num base : Nat) :
    headText num base style ∈
      [[], [dash], [cross], [blank], [nought], [nought, 0x78]] := by
  unfold headText
  split
  · split
    · split
      · decide
      · split <;> decide
    · split <;> decide
  · split
    · split <;> decide
    · decide

theorem naturalLength_le (word : num < 2 ^ 32) (large : 1 < base) :
    naturalLength num base style ≤ 34 := by
  have head : (headText num base style).length ≤ 2 := by
    have lengths : ∀ head ∈
        [[], [dash], [cross], [blank], [nought], [nought, 0x78]],
        head.length ≤ 2 := by decide
    exact lengths _ (headText_cases style num base)
  have digits : (digitsOf base (magnitude num base style)).length ≤ 32 := by
    apply length_digitsOf_le large _ (by decide)
    calc magnitude num base style < 2 ^ 32 := magnitude_lt style word
      _ ≤ base ^ 32 := Nat.pow_le_pow_left large 32
  exact Nat.add_le_add head digits

/-- The text of a number without its fill. -/
def bareText (num base : Nat) (style : Style) : List UInt8 :=
  headText num base style ++
    (digitsOf base (magnitude num base style)).map pdigit

theorem bareText_length :
    (bareText num base style).length = naturalLength num base style := by
  rw [bareText, List.length_append, List.length_map, naturalLength]

theorem numToAscii_filled (word : num < 2 ^ 32)
    (isBase : base = 8 ∨ base = 10 ∨ base = 16) (width : Int) :
    let room := toInt32 (width - naturalLength num base style)
    let fill := fillChar style
    numToAscii num width base style =
      (if Flag.left ∈ style then [] else fillDown room 0 fill) ++
        bareText num base style ++
        fillDown (if Flag.left ∈ style then room else widthBehind room 0) 0
          fill := by
  have large : 1 < base := by omega
  have head := leader_append_sign style word isBase
  have headLength := congrArg List.length head
  have small : magnitude num base style < 2 ^ 32 := magnitude_lt style word
  have digits := tmpArray_reverse large small
  have digitsLength := congrArg List.length digits
  rw [List.length_append] at headLength
  rw [List.length_reverse, List.length_map] at digitsLength
  have room : width - (leader base style).length -
      (signOf num base style).toList.length -
        (tmpArray (magnitude num base style) base).length =
      width - naturalLength num base style := by
    rw [naturalLength, ← headLength, digitsLength]
    omega
  unfold numToAscii
  rw [unsign_eq_magnitude style word]
  dsimp only
  rw [room, digits, bareText, ← head]
  simp only [List.append_assoc]

theorem numToAscii_of_roomIsInt (word : num < 2 ^ 32)
    (isBase : base = 8 ∨ base = 10 ∨ base = 16) {width : Int}
    (high : width < 2 ^ 31) (isInt : RoomIsInt num width base style) :
    let fill := List.replicate (width - naturalLength num base style).toNat
      (fillChar style)
    numToAscii num width base style =
      if Flag.left ∈ style then bareText num base style ++ fill
      else fill ++ bareText num base style := by
  unfold RoomIsInt at isInt
  rw [numToAscii_filled style word isBase]
  by_cases isLeft : Flag.left ∈ style
  · simp only [isLeft, if_true, Int.sub_zero] at isInt ⊢
    rw [toInt32_of_range isInt (by omega), fillDown, Int.sub_zero,
      List.nil_append]
  · simp only [isLeft, if_false] at isInt ⊢
    rw [toInt32_of_range (by omega) (by omega),
      fillDown_widthBehind (by omega) (Int.le_refl 0) (by decide), fillDown,
      Int.sub_zero, List.append_nil]

theorem numToAscii_wraps (word : num < 2 ^ 32)
    (isBase : base = 8 ∨ base = 10 ∨ base = 16) {width : Int}
    (low : -2 ^ 31 ≤ width) (notInt : ¬RoomIsInt num width base style) :
    2 ^ 30 < (numToAscii num width base style).length := by
  have large : 1 < base := by omega
  have short := naturalLength_le style word large
  have wraps (value : Int) (below : value < -2 ^ 31)
      (above : -2 ^ 31 - 36 < value) : 2 ^ 30 < toInt32 value := by
    have same : toInt32 value = toInt32 (value + 2 ^ 32) := by
      rw [toInt32, toInt32]
      exact (Int.add_bmod_right value (2 ^ 32)).symm
    rw [same, toInt32_of_range (by omega) (by omega)]
    omega
  unfold RoomIsInt at notInt
  rw [numToAscii_filled style word isBase]
  simp only [List.length_append, fillDown, List.length_replicate,
    bareText_length]
  generalize naturalLength num base style = natural at *
  by_cases isLeft : Flag.left ∈ style
  · simp only [isLeft, if_true, Int.sub_zero] at notInt ⊢
    have room := wraps (width - natural) (by omega) (by omega)
    omega
  · simp only [isLeft, if_false] at notInt ⊢
    by_cases last : width - natural = -2 ^ 31
    · have behind : 2 ^ 30 < widthBehind (toInt32 (width - natural)) 0 := by
        rw [last, toInt32_of_range (by omega) (by omega)]
        exact wraps _ (by omega) (by omega)
      omega
    · have room := wraps (width - natural) (by omega) (by omega)
      simp only [List.length_replicate]
      omega

theorem numToAscii_long (word : num < 2 ^ 32)
    (isBase : base = 8 ∨ base = 10 ∨ base = 16) {width : Int}
    (low : -2 ^ 31 ≤ width) (notInt : ¬RoomIsInt num width base style) :
    max width.toNat (naturalLength num base style) <
      (numToAscii num width base style).length := by
  have short := naturalLength_le style word (show 1 < base by omega)
  have long := numToAscii_wraps style word isBase low notInt
  have narrow : width.toNat = 0 := by
    unfold RoomIsInt at notInt
    split at notInt <;> omega
  omega

theorem mem_of_replicate_append_comm {fill char : UInt8} {count : Nat}
    (positive : 0 < count) {text : List UInt8}
    (commute : List.replicate count fill ++ text =
      text ++ List.replicate count fill) (member : char ∈ text) :
    char = fill := by
  obtain ⟨less, rfl⟩ : ∃ less, count = less + 1 := ⟨count - 1, by omega⟩
  induction text with
  | nil => simp at member
  | cons first text induction =>
      rw [List.replicate_succ, List.cons_append, List.cons_append,
        List.cons.injEq] at commute
      obtain ⟨rfl, later⟩ := commute
      have rest : List.replicate (less + 1) fill ++ text =
          text ++ List.replicate (less + 1) fill := by
        rw [List.replicate_succ', List.append_assoc, List.singleton_append,
          later, ← List.replicate_succ, List.replicate_succ']
      rcases List.mem_cons.mp member with rfl | inText
      · rfl
      · exact induction inText rest

end Stored

theorem zeros_comm_iff {room : Nat} {head : List UInt8}
    (cases : head ∈
      [[], [dash], [cross], [blank], [nought], [nought, 0x78]]) :
    List.replicate room nought ++ head = head ++ List.replicate room nought ↔
      (0 < room → head = [] ∨ head = [nought]) := by
  constructor
  · intro commute positive
    have noughts : head.all (· = nought) = true := by
      simp only [List.all_eq_true, decide_eq_true_eq]
      exact fun char => mem_of_replicate_append_comm positive commute
    have only : ∀ head ∈
        [[], [dash], [cross], [blank], [nought], [nought, 0x78]],
        head.all (· = nought) = true → head = [] ∨ head = [nought] := by
      decide
    exact only head cases noughts
  · intro harmless
    rcases Nat.eq_zero_or_pos room with rfl | positive
    · simp
    · rcases harmless positive with rfl | rfl
      · simp
      · rw [← List.replicate_succ', List.singleton_append,
          List.replicate_succ]

theorem numToAscii_eq_fieldText_iff {num : Nat} (word : num < 2 ^ 32)
    {width : Int} (high : width < 2 ^ 31) {base : Nat}
    (isBase : base = 8 ∨ base = 10 ∨ base = 16) {style : Style}
    (isInt : RoomIsInt num width base style) :
    numToAscii num width base style =
      fieldText width style (headText num base style)
        ((digitsOf base (magnitude num base style)).map pdigit) ↔
      ZerosInPlace num width base style := by
  have cases := headText_cases style num base
  rw [numToAscii_of_roomIsInt style word isBase high isInt]
  have natural : (headText num base style).length +
      ((digitsOf base (magnitude num base style)).map pdigit).length =
        naturalLength num base style := by
    rw [List.length_map, naturalLength]
  simp only [fieldText, ZerosInPlace, bareText, natural]
  have room : naturalLength num base style < width ↔
      0 < (width - naturalLength num base style).toNat := by omega
  rw [room]
  generalize (width - naturalLength num base style).toNat = room
  generalize headText num base style = head at cases ⊢
  generalize (digitsOf base (magnitude num base style)).map pdigit = digits
  unfold fillChar
  by_cases isLeft : Flag.left ∈ style
  · by_cases isZero : Flag.zero ∈ style
    · have differ : nought ≠ blank := by decide
      simp [isLeft, isZero, List.replicate_inj, differ]
    · simp [isLeft, isZero]
  · by_cases isZero : Flag.zero ∈ style
    · simp only [isLeft, isZero, if_true, if_false, not_false_eq_true,
        true_and, true_implies]
      rw [← List.append_assoc, List.append_left_inj, zeros_comm_iff cases]
    · simp [isLeft, isZero]

/-- `num_to_ascii` lays a number out exactly if the rest of the width does not
wrap around and the zeros that fill it are in place. -/
theorem numToAscii_laidOut_iff {num : Nat} (word : num < 2 ^ 32) {width : Int}
    (isInt : -2 ^ 31 ≤ width ∧ width < 2 ^ 31) {base : Nat}
    (isBase : base = 8 ∨ base = 10 ∨ base = 16) (style : Style) :
    (∃ digits, LaidOut num width base style digits
      (numToAscii num width base style)) ↔
      RoomIsInt num width base style ∧ ZerosInPlace num width base style := by
  have large : 1 < base := by omega
  constructor
  · rintro ⟨digits, laidOut⟩
    have areDigits : digits = digitsOf base (magnitude num base style) := by
      rw [← laidOut.denotes]
      exact laidOut.canonical.eq_digitsOf large
    subst areDigits
    have room : RoomIsInt num width base style := by
      by_contra wraps
      exact Nat.ne_of_gt (numToAscii_long style word isBase isInt.1 wraps)
        laidOut.length
    exact ⟨room, (numToAscii_eq_fieldText_iff word isInt.2 isBase room).mp
      laidOut.layout⟩
  · rintro ⟨room, inPlace⟩
    refine ⟨digitsOf base (magnitude num base style), ?_, ?_, ?_, ?_⟩
    · exact digitsOf_canonical large _
    · exact numeral_digitsOf base _
    · exact (numToAscii_eq_fieldText_iff word isInt.2 isBase room).mpr inPlace
    · have natural : (bareText num base style).length =
          naturalLength num base style := bareText_length style
      rw [numToAscii_of_roomIsInt style word isBase isInt.2 room,
        ← naturalLength]
      split <;> simp only [List.length_append, List.length_replicate,
        natural] <;> omega

theorem numToAscii_laidOut_iff_five :
    ∃ digits, LaidOut 5 3 10 ∅ digits [blank, blank, 0x35] := by
  have short : naturalLength 5 10 ∅ ≤ 34 :=
    naturalLength_le ∅ (by decide) (by decide)
  have room : RoomIsInt 5 3 10 ∅ := by
    unfold RoomIsInt
    split <;> omega
  have inPlace : ZerosInPlace 5 3 10 ∅ := by
    intro isZero
    exact absurd isZero (Finset.notMem_empty _)
  exact (numToAscii_laidOut_iff (by decide) ⟨by decide, by decide⟩
    (Or.inr (Or.inl rfl)) ∅).mpr ⟨room, inPlace⟩

/-- `%05d` of -42 is `00-42`. -/
theorem numToAscii_not_laidOut :
    ¬∀ (num : Nat) (width : Int) (base : Nat) (style : Style),
      num < 2 ^ 32 → -2 ^ 31 ≤ width ∧ width < 2 ^ 31 →
        base = 8 ∨ base = 10 ∨ base = 16 →
          ∃ digits, LaidOut num width base style digits
            (numToAscii num width base style) := by
  intro always
  obtain ⟨digits, laidOut⟩ := always (2 ^ 32 - 42) 5 10
    {.sign, .signInt, .zero} (by decide) ⟨by decide, by decide⟩
    (Or.inr (Or.inl rfl))
  have stored : numToAscii (2 ^ 32 - 42) 5 10 {.sign, .signInt, .zero} =
      [nought, nought, dash, 0x34, 0x32] := by
    decide
  have head : headText (2 ^ 32 - 42) 10 {.sign, .signInt, .zero} =
      [dash] := by
    decide
  have layout := laidOut.layout
  rw [stored, head] at layout
  have first := congrArg List.head? layout
  have isDash : (fieldText 5 {.sign, .signInt, .zero} [dash]
      (digits.map pdigit)).head? = some dash := by
    simp [fieldText]
  rw [isDash] at first
  exact absurd first (by decide)

end Witos.Stdio
