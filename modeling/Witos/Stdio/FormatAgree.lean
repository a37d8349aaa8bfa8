import Witos.Stdio.FormatText

/-!
# Where the two formatters agree

The texts of a conversion differ for signed numbers, for which `vsnprintf` does
not set the sign bits, and for `%u`, for which it does not clear them.  Texts
that differ do so at a position that both have, so what comes behind them
cannot make up for it.
-/

namespace Witos.Stdio

open Library

section Flags

variable (flags : List FlagChar)

theorem mem_foldl_addFlag {bit : Flag} {sets : FlagChar → Prop}
    (step : ∀ style flag, bit ∈ addFlag style flag ↔
      bit ∈ style ∨ sets flag) (style : Style) :
    bit ∈ flags.foldl addFlag style ↔
      bit ∈ style ∨ ∃ flag ∈ flags, sets flag := by
  induction flags generalizing style with
  | nil => simp
  | cons flag flags induction =>
      rw [List.foldl_cons, induction, step]
      simp [or_assoc]

theorem left_mem_addFlag (style : Style) (flag : FlagChar) :
    Flag.left ∈ addFlag style flag ↔ Flag.left ∈ style ∨ flag = .dash := by
  cases flag <;> simp [addFlag]
  split <;> simp [*]

theorem left_mem_styleOf :
    Flag.left ∈ styleOf flags ↔ .dash ∈ flags := by
  rw [styleOf, mem_foldl_addFlag flags left_mem_addFlag]
  simp

theorem sign_mem_styleOf :
    Flag.sign ∈ styleOf flags ↔ .cross ∈ flags := by
  have step (style : Style) (flag : FlagChar) :
      Flag.sign ∈ addFlag style flag ↔
        Flag.sign ∈ style ∨ flag = .cross := by
    cases flag <;> simp [addFlag]
    split <;> simp
  rw [styleOf, mem_foldl_addFlag flags step]
  simp

theorem space_mem_styleOf :
    Flag.space ∈ styleOf flags ↔ .blank ∈ flags := by
  have step (style : Style) (flag : FlagChar) :
      Flag.space ∈ addFlag style flag ↔
        Flag.space ∈ style ∨ flag = .blank := by
    cases flag <;> simp [addFlag]
    split <;> simp
  rw [styleOf, mem_foldl_addFlag flags step]
  simp

theorem signInt_notMem_styleOf : Flag.signInt ∉ styleOf flags := by
  have step (style : Style) (flag : FlagChar) :
      Flag.signInt ∈ addFlag style flag ↔
        Flag.signInt ∈ style ∨ False := by
    cases flag <;> simp [addFlag]
    split <;> simp
  rw [styleOf, mem_foldl_addFlag flags step]
  simp

/-- `0` has no effect before or behind `-`. -/
theorem zero_mem_foldl (style : Style)
    (exclusive : Flag.left ∈ style → Flag.zero ∉ style) :
    Flag.zero ∈ flags.foldl addFlag style ↔
      (Flag.zero ∈ style ∨ .nought ∈ flags) ∧
        ¬(Flag.left ∈ style ∨ .dash ∈ flags) := by
  induction flags generalizing style with
  | nil =>
      simp only [List.foldl_nil, List.not_mem_nil, or_false, iff_self_and]
      exact fun isZero isLeft => exclusive isLeft isZero
  | cons flag flags induction =>
      have still : Flag.left ∈ addFlag style flag →
          Flag.zero ∉ addFlag style flag := by
        rw [left_mem_addFlag]
        cases flag <;> simp [addFlag]
        all_goals
          intro isLeft
          simp [isLeft, exclusive isLeft]
      rw [List.foldl_cons, induction _ still, left_mem_addFlag]
      cases flag <;> simp [addFlag]
      split <;> simp [*]

theorem zero_mem_styleOf :
    Flag.zero ∈ styleOf flags ↔ .nought ∈ flags ∧ .dash ∉ flags := by
  rw [styleOf, zero_mem_foldl flags ∅ (by simp)]
  simp

end Flags

/-- A number in a field. -/
def laid (left : Bool) (fill : UInt8) (width : Int)
    (sign digits : List UInt8) : List UInt8 :=
  let room := List.replicate (width - sign.length - digits.length).toNat fill
  (if left then [] else room) ++ sign ++ digits ++
    (if left then room else [])

theorem numToAscii_ten {width : Int} (isWidth : IsWidth width) (num : Nat)
    (style : Style) :
    numToAscii num width 10 style =
      laid (Flag.left ∈ style) (fillChar style) width
        (signOf num 10 style).toList
        (tmpArray (unsign num 10 style) 10).reverse := by
  have noLeader : leader 10 style = [] := by
    unfold leader
    split <;> rfl
  rw [numToAscii_laid isWidth]
  unfold laid
  by_cases isLeft : Flag.left ∈ style
  · simp [isLeft, noLeader]
  · simp [isLeft, noLeader]

theorem laid_length (left : Bool) (fill : UInt8) (width : Int)
    (sign digits : List UInt8) :
    (laid left fill width sign digits).length =
      max width.toNat (sign.length + digits.length) := by
  unfold laid
  cases left <;>
    simp only [Bool.false_eq_true, if_true, if_false, List.length_append,
      List.length_nil, List.length_replicate] <;> omega

theorem mem_laid {left : Bool} {fill : UInt8} {width : Int}
    {sign digits : List UInt8} {char : UInt8}
    (member : char ∈ laid left fill width sign digits) :
    char = fill ∨ char ∈ sign ∨ char ∈ digits := by
  unfold laid at member
  cases left <;> simp at member <;> tauto

theorem laid_sign (left : Bool) (fill : UInt8) (width : Int) (sign : UInt8)
    (digits : List UInt8) :
    (laid left fill width [sign] digits)[if left then 0
      else (width - 1 - digits.length).toNat]? = some sign := by
  unfold laid
  cases left
  · simp [List.append_assoc]
  · simp

theorem pdigit_ge : ∀ digit < 16, 0x30 ≤ pdigit digit := by
  decide

theorem tmpArray_ge {num base : Nat} (positive : 0 < base)
    (small : base ≤ 16) {char : UInt8} (member : char ∈ tmpArray num base) :
    0x30 ≤ char := by
  have loop : ∀ fuel num, ∀ char ∈ digitsFrom base fuel num,
      0x30 ≤ char := by
    intro fuel
    induction fuel with
    | zero => simp [digitsFrom]
    | succ fuel induction =>
        intro num char member
        rw [digitsFrom] at member
        split at member
        · simp at member
        · rcases List.mem_cons.mp member with rfl | later
          · apply pdigit_ge
            exact Nat.lt_of_lt_of_le (Nat.mod_lt num positive) small
          · exact induction _ _ later
  unfold tmpArray at member
  split at member
  · rw [List.mem_singleton.mp member]
    decide
  · exact loop _ _ _ member

theorem tmpArray_pos (num base : Nat) : 0 < (tmpArray num base).length := by
  unfold tmpArray
  split
  · decide
  · rename_i notZero
    simp [digitsFrom, notZero]

/-- Texts that have different characters at a position. -/
def Clash (left right : List UInt8) : Prop :=
  ∃ (index : Nat) (first second : UInt8), left[index]? = some first ∧
    right[index]? = some second ∧ first ≠ second

theorem Clash.append {left right : List UInt8} (clash : Clash left right)
    (behindLeft behindRight : List UInt8) :
    left ++ behindLeft ≠ right ++ behindRight := by
  obtain ⟨index, first, second, isFirst, isSecond, differ⟩ := clash
  obtain ⟨leftBound, -⟩ := List.getElem?_eq_some_iff.mp isFirst
  obtain ⟨rightBound, -⟩ := List.getElem?_eq_some_iff.mp isSecond
  intro same
  have both := congrArg (fun text => text[index]?) same
  simp only [List.getElem?_append_left leftBound,
    List.getElem?_append_left rightBound, isFirst, isSecond] at both
  exact differ (Option.some.inj both)

theorem clash_of_sign {left : Bool} {fill : UInt8} {width : Int}
    {sign : UInt8} {digits text : List UInt8}
    (long : max width.toNat 1 ≤ text.length) (absent : sign ∉ text)
    (digit : 0 < digits.length) :
    Clash (laid left fill width [sign] digits) text := by
  have isSign := laid_sign left fill width sign digits
  generalize isIndex : (if left then 0
    else (width - 1 - digits.length).toNat) = index at isSign
  have inside : index < text.length := by
    rw [← isIndex]
    split <;> omega
  refine ⟨index, sign, text[index], isSign, List.getElem?_eq_getElem inside,
    ?_⟩
  intro same
  exact absent (same ▸ List.getElem_mem inside)

theorem Clash.symm {left right : List UInt8} (clash : Clash left right) :
    Clash right left := by
  obtain ⟨index, first, second, isFirst, isSecond, differ⟩ := clash
  exact ⟨index, second, first, isSecond, isFirst, differ.symm⟩

theorem clash_of_blank {left : Bool} {fill : UInt8} {width : Int}
    {digits : List UInt8} (digit : 0 < digits.length)
    (areDigits : ∀ char ∈ digits, 0x30 ≤ char)
    (apart : left = true ∨ fill ≠ blank ∨ width ≤ digits.length) :
    Clash (laid left fill width [blank] digits)
      (laid left fill width [] digits) := by
  have isBlank := laid_sign left fill width blank digits
  have firstDigit : blank ≠ digits[0] := by
    intro same
    have low := areDigits _ (List.getElem_mem digit)
    rw [← same] at low
    exact absurd low (by decide)
  cases left with
  | true =>
      refine ⟨0, blank, digits[0], isBlank, ?_, firstDigit⟩
      simp only [laid, if_true, List.nil_append]
      rw [List.getElem?_append_left digit, List.getElem?_eq_getElem digit]
  | false =>
      simp only [Bool.false_eq_true, if_false, false_or] at isBlank apart
      by_cases narrow : width ≤ digits.length
      · have noRoom : (width - 1 - digits.length).toNat = 0 := by omega
        have noFill : (width - digits.length).toNat = 0 := by omega
        rw [noRoom] at isBlank
        refine ⟨0, blank, digits[0], isBlank, ?_, firstDigit⟩
        simp [laid, noFill, digit]
      · have notBlank : fill ≠ blank := apart.resolve_right narrow
        refine ⟨_, blank, fill, isBlank, ?_, notBlank.symm⟩
        have inside : (width - 1 - digits.length).toNat <
            (width - digits.length).toNat := by omega
        simp only [laid, Bool.false_eq_true, if_false, List.append_nil,
          List.length_nil]
        rw [List.getElem?_append_left (by simpa using inside),
          List.getElem?_replicate]
        exact if_pos (by simpa using inside)

theorem laid_blank {width : Int} {digits : List UInt8}
    (wide : digits.length < width) :
    laid false blank width [blank] digits =
      laid false blank width [] digits := by
  have rooms : (width - digits.length).toNat =
      (width - 1 - digits.length).toNat + 1 := by omega
  simp [laid, rooms, List.replicate_succ']

/-- The decimal digits of an argument. -/
def decimals (word : UInt32) : Nat :=
  (tmpArray word.toNat 10).length

/-- When the formatters agree on a conversion: an unsigned number has no flag
`+`, and a signed one has it, or is not negative and has no blank for its sign
but one that cannot be told from the fill. -/
def Directive.Agrees (directive : Directive) (word : UInt32) : Prop :=
  match directive.letter with
  | .u => .cross ∉ directive.flags
  | .d | .i => .cross ∈ directive.flags ∨
      word.toNat < 2 ^ 31 ∧
        (.blank ∉ directive.flags ∨
          .dash ∉ directive.flags ∧ .nought ∉ directive.flags ∧
            decimals word < directive.field)
  | _ => True

section Signs

variable (num : Nat) (style : Style)

theorem signOf_signed :
    signOf num 10 (style ∪ {Flag.signInt, Flag.sign}) =
      if 2 ^ 31 ≤ num then some dash else none := by
  simp [signOf]

theorem signOf_unsigned (noSign : Flag.sign ∉ style) :
    signOf num 10 style =
      if num < 2 ^ 31 ∧ Flag.space ∈ style then some blank else none := by
  simp [signOf, noSign]

theorem signOf_cross (isSign : Flag.sign ∈ style)
    (noSignInt : Flag.signInt ∉ style) :
    signOf num 10 style =
      if 2 ^ 31 ≤ num then some dash else some cross := by
  simp [signOf, isSign, noSignInt]

theorem unsign_of_notMem (noSign : Flag.sign ∉ style) :
    unsign num 10 style = num := by
  simp [unsign, noSign]

theorem unsign_of_lt (small : num < 2 ^ 31) : unsign num 10 style = num := by
  unfold unsign
  rw [if_neg]
  rintro ⟨-, -, large⟩
  omega

end Signs

/-- How `vsprintf` prints a signed number without the flag `+`. -/
theorem sprintf_signed {width : Int} (isWidth : IsWidth width) (style : Style)
    (num : Nat) :
    numToAscii num width 10 (style ∪ {Flag.signInt, Flag.sign}) =
      laid (Flag.left ∈ style) (fillChar style) width
        (if 2 ^ 31 ≤ num then some dash else none).toList
        (tmpArray (unsign num 10 (style ∪ {Flag.signInt, Flag.sign}))
          10).reverse := by
  have sameFill : fillChar (style ∪ {Flag.signInt, Flag.sign}) =
      fillChar style := by
    simp [fillChar]
  rw [numToAscii_ten isWidth, signOf_signed num style, sameFill]
  simp

/-- How both print a number without `SIGN`. -/
theorem numToAscii_unsigned {width : Int} (isWidth : IsWidth width)
    {style : Style} (noSign : Flag.sign ∉ style) (num : Nat) :
    numToAscii num width 10 style =
      laid (Flag.left ∈ style) (fillChar style) width
        (if num < 2 ^ 31 ∧ Flag.space ∈ style then some blank
          else none).toList (tmpArray num 10).reverse := by
  rw [numToAscii_ten isWidth, signOf_unsigned num style noSign,
    unsign_of_notMem num style noSign]

theorem digits_ge {num : Nat} :
    ∀ char ∈ (tmpArray num 10).reverse, 0x30 ≤ char := by
  intro char member
  exact tmpArray_ge (by decide) (by decide) (List.mem_reverse.mp member)

theorem digits_pos (num : Nat) : 0 < (tmpArray num 10).reverse.length := by
  rw [List.length_reverse]
  exact tmpArray_pos num 10

/-- Neither `-` nor `+` is in a number without a sign. -/
theorem notMem_laid {left : Bool} {style : Style} {width : Int}
    {sign : Option UInt8} {num : Nat} {char : UInt8}
    (noSign : ∀ other, sign = some other → other = blank)
    (isSign : char = dash ∨ char = cross) :
    char ∉ laid left (fillChar style) width sign.toList
      (tmpArray num 10).reverse := by
  intro member
  rcases mem_laid member with isFill | inSign | inDigits
  · unfold fillChar at isFill
    split at isFill <;> rcases isSign with rfl | rfl <;>
      exact absurd isFill (by decide)
  · have isBlank := noSign char (Option.mem_toList.mp inSign)
    rcases isSign with rfl | rfl <;> exact absurd isBlank (by decide)
  · have low := digits_ge char inDigits
    rcases isSign with rfl | rfl <;> exact absurd low (by decide)

theorem laid_long (left : Bool) (fill : UInt8) (width : Int)
    (sign : List UInt8) (num : Nat) :
    max width.toNat 1 ≤
      (laid left fill width sign (tmpArray num 10).reverse).length := by
  have digit := digits_pos num
  rw [laid_length]
  omega

/-- A signed number without the flag `+`. -/
theorem signed_cases {width : Int} (isWidth : IsWidth width) {style : Style}
    (noSign : Flag.sign ∉ style) (num : Nat) :
    let agrees := num < 2 ^ 31 ∧
      (Flag.space ∉ style ∨ Flag.left ∉ style ∧ Flag.zero ∉ style ∧
        (tmpArray num 10).length < width)
    (agrees → numToAscii num width 10 style =
      numToAscii num width 10 (style ∪ {Flag.signInt, Flag.sign})) ∧
    (¬agrees → Clash (numToAscii num width 10 style)
      (numToAscii num width 10 (style ∪ {Flag.signInt, Flag.sign}))) := by
  intro agrees
  rw [sprintf_signed isWidth, numToAscii_unsigned isWidth noSign]
  by_cases negative : 2 ^ 31 ≤ num
  · have notSmall : ¬num < 2 ^ 31 := by omega
    refine ⟨fun ⟨small, _⟩ => absurd small notSmall, fun _ => ?_⟩
    rw [if_pos negative, if_neg (fun both => notSmall both.1)]
    apply Clash.symm
    apply clash_of_sign (laid_long _ _ _ _ _) _ (digits_pos _)
    exact notMem_laid (by simp) (Or.inl rfl)
  · have small : num < 2 ^ 31 := by omega
    rw [if_neg negative, unsign_of_lt _ _ small]
    by_cases isSpace : Flag.space ∈ style
    · rw [if_pos ⟨small, isSpace⟩]
      constructor
      · rintro ⟨-, noSpace | ⟨notLeft, notZero, wide⟩⟩
        · exact absurd isSpace noSpace
        · have isFill : fillChar style = blank := if_neg notZero
          have isRight : decide (Flag.left ∈ style) = false := by
            simpa using notLeft
          rw [isFill, isRight]
          exact laid_blank (by simpa using wide)
      · intro differs
        apply clash_of_blank (digits_pos _) digits_ge
        by_contra same
        simp only [decide_eq_true_eq, not_or, not_not, not_le,
          List.length_reverse] at same
        obtain ⟨notLeft, isFill, wide⟩ := same
        refine differs ⟨small, Or.inr ⟨notLeft, ?_, wide⟩⟩
        intro isZero
        rw [fillChar, if_pos isZero] at isFill
        exact absurd isFill (by decide)
    · rw [if_neg (fun both => isSpace both.2)]
      exact ⟨fun _ => rfl, fun differs =>
        absurd ⟨small, Or.inl isSpace⟩ differs⟩

theorem unsigned_cases {width : Int} (isWidth : IsWidth width)
    {style : Style} (noSignInt : Flag.signInt ∉ style) (num : Nat) :
    (Flag.sign ∉ style → numToAscii num width 10 style =
      numToAscii num width 10 (style \ {Flag.sign, Flag.plus})) ∧
    (Flag.sign ∈ style → Clash (numToAscii num width 10 style)
      (numToAscii num width 10 (style \ {Flag.sign, Flag.plus}))) := by
  have cleared : Flag.sign ∉ style \ {Flag.sign, Flag.plus} := by simp
  have sameLeft : Flag.left ∈ style \ {Flag.sign, Flag.plus} ↔
      Flag.left ∈ style := by simp
  have sameSpace : Flag.space ∈ style \ {Flag.sign, Flag.plus} ↔
      Flag.space ∈ style := by simp
  have sameFill : fillChar (style \ {Flag.sign, Flag.plus}) =
      fillChar style := by
    simp [fillChar]
  rw [numToAscii_unsigned isWidth cleared]
  constructor
  · intro noSign
    rw [numToAscii_unsigned isWidth noSign, sameFill]
    simp only [sameLeft, sameSpace]
  · intro isSign
    rw [numToAscii_ten isWidth, signOf_cross num style isSign noSignInt]
    have noSigns : ∀ other, (if num < 2 ^ 31 ∧
        Flag.space ∈ style \ {Flag.sign, Flag.plus} then some blank
          else none) = some other → other = blank := by
      intro other isOther
      split at isOther
      · exact (Option.some.inj isOther).symm
      · cases isOther
    split
    · apply clash_of_sign (laid_long _ _ _ _ _) _ (digits_pos _)
      exact notMem_laid noSigns (Or.inl rfl)
    · apply clash_of_sign (laid_long _ _ _ _ _) _ (digits_pos _)
      exact notMem_laid noSigns (Or.inr rfl)

theorem signed_text_cases {directive : Directive} (small : directive.Small)
    (word : UInt32) :
    let agrees := .cross ∈ directive.flags ∨
      word.toNat < 2 ^ 31 ∧
        (.blank ∉ directive.flags ∨
          .dash ∉ directive.flags ∧ .nought ∉ directive.flags ∧
            decimals word < directive.field)
    let style := styleOf directive.flags
    let first := numToAscii word.toNat directive.field 10 style
    let second := numToAscii word.toNat directive.field 10
      (if Flag.sign ∈ style then style
        else style ∪ {Flag.signInt, Flag.sign})
    (agrees → first = second) ∧ (¬agrees → Clash first second) := by
  intro agrees style first second
  by_cases isCross : .cross ∈ directive.flags
  · have isSign : Flag.sign ∈ style :=
      (sign_mem_styleOf directive.flags).mpr isCross
    have same : second = first := by
      simp only [second, first, if_pos isSign]
    exact ⟨fun _ => same.symm, fun differs => absurd (Or.inl isCross) differs⟩
  · have noSign : Flag.sign ∉ style := by
      rw [sign_mem_styleOf]
      exact isCross
    have agreesIff : agrees ↔ word.toNat < 2 ^ 31 ∧
        (Flag.space ∉ style ∨ Flag.left ∉ style ∧ Flag.zero ∉ style ∧
          ((tmpArray word.toNat 10).length : Int) < directive.field) := by
      simp only [agrees, style, isCross, false_or, space_mem_styleOf,
        left_mem_styleOf, zero_mem_styleOf, decimals, Int.ofNat_lt]
      tauto
    have isSecond : second = numToAscii word.toNat directive.field 10
        (style ∪ {Flag.signInt, Flag.sign}) := by
      simp only [second, if_neg noSign]
    rw [agreesIff, isSecond]
    exact signed_cases small.isWidth noSign word.toNat

theorem Directive.text_cases (strings : UInt32 → List UInt8)
    {directive : Directive} (small : directive.Small) (word : UInt32) :
    (directive.Agrees word → directive.text snprintfSwitch strings word =
      directive.text sprintfSwitch strings word) ∧
    (¬directive.Agrees word →
      Clash (directive.text snprintfSwitch strings word)
        (directive.text sprintfSwitch strings word)) := by
  unfold Directive.text Directive.Agrees
  cases directive.letter with
  | d => exact signed_text_cases small word
  | i => exact signed_text_cases small word
  | u =>
      have allBits : ({Flag.sign}ᶜ ∪ {Flag.plus}ᶜ : Style) =
          Finset.univ := by
        decide
      have cases := unsigned_cases small.isWidth
        (signInt_notMem_styleOf directive.flags) word.toNat
      rw [sign_mem_styleOf] at cases
      simp only [snprintfSwitch, sprintfSwitch, Letter.char, allBits,
        Finset.inter_univ, Conversion.text, not_not]
      exact cases
  | x => exact ⟨fun _ => rfl, fun differs => absurd trivial differs⟩
  | X => exact ⟨fun _ => rfl, fun differs => absurd trivial differs⟩
  | o => exact ⟨fun _ => rfl, fun differs => absurd trivial differs⟩
  | p => exact ⟨fun _ => rfl, fun differs => absurd trivial differs⟩
  | c => exact ⟨fun _ => rfl, fun differs => absurd trivial differs⟩
  | s => exact ⟨fun _ => rfl, fun differs => absurd trivial differs⟩

/-- Into a buffer longer than the output, `snprintf` stores the same text as
`sprintf` and returns the same length. -/
def Agree (strings : UInt32 → List UInt8) (fmt : List UInt8)
    (para : Nat → UInt32) : Prop :=
  ∀ size, (sprintf strings fmt para).length < size →
    snprintf strings size fmt para =
      some ⟨sprintf strings fmt para, (sprintf strings fmt para).length⟩

theorem agree_iff_textOf (strings : UInt32 → List UInt8)
    {pieces : List Piece} (small : ∀ piece ∈ pieces, piece.Small)
    (para : Nat → UInt32) :
    Agree strings (spelled pieces) para ↔
      textOf snprintfSwitch strings pieces para =
        textOf sprintfSwitch strings pieces para := by
  have isSprintf : sprintf strings (spelled pieces) para =
      textOf sprintfSwitch strings pieces para :=
    vsprintfLoop_spelled strings small para (Nat.le_refl _)
  have isSnprintf : ∀ size, (textOf snprintfSwitch strings pieces
      para).length < size → snprintf strings size (spelled pieces) para =
        some ⟨textOf snprintfSwitch strings pieces para,
          (textOf snprintfSwitch strings pieces para).length⟩ := by
    intro size room
    have run := @vsnprintfLoop_spelled strings size pieces small para _
      (Nat.le_refl _) ⟨[], 0⟩ (by simpa using room)
    rw [List.nil_append, Nat.zero_add] at run
    exact run
  unfold Agree
  rw [isSprintf]
  constructor
  · intro agree
    have long := agree (max
      (textOf snprintfSwitch strings pieces para).length
      (textOf sprintfSwitch strings pieces para).length + 1) (by omega)
    rw [isSnprintf _ (by omega)] at long
    exact congrArg Stored.text (Option.some.inj long)
  · intro same size room
    rw [← same] at room ⊢
    exact isSnprintf size room

theorem textOf_eq_iff (strings : UInt32 → List UInt8)
    {pieces : List Piece} (small : ∀ piece ∈ pieces, piece.Small)
    (para : Nat → UInt32) :
    textOf snprintfSwitch strings pieces para =
        textOf sprintfSwitch strings pieces para ↔
      ∀ conversion ∈ conversions pieces para,
        conversion.1.Agrees conversion.2 := by
  induction pieces generalizing para with
  | nil => simp [textOf, conversions]
  | cons piece pieces induction =>
      have others : ∀ other ∈ pieces, other.Small :=
        fun other member => small other (List.mem_cons_of_mem _ member)
      have pieceSmall := small piece List.mem_cons_self
      cases piece with
      | plain char ordinary =>
          simp only [textOf, Piece.text, Piece.behind, conversions,
            List.append_cancel_left_eq]
          exact induction others para
      | percent =>
          simp only [textOf, Piece.text, Piece.behind, conversions,
            List.append_cancel_left_eq]
          exact induction others para
      | conversion directive =>
          obtain ⟨same, clash⟩ := Directive.text_cases strings pieceSmall
            (para 0)
          simp only [textOf, Piece.text, Piece.behind, conversions,
            List.forall_mem_cons]
          by_cases agrees : directive.Agrees (para 0)
          · rw [same agrees, List.append_cancel_left_eq,
              induction others]
            simp [agrees]
          · simp only [agrees, false_and, iff_false]
            exact (clash agrees).append _ _

/-- The formatters agree on a format exactly if they agree on each of its
conversions. -/
theorem sprintf_snprintf_agree_iff (strings : UInt32 → List UInt8)
    (pieces : List Piece) (small : ∀ piece ∈ pieces, piece.Small)
    (para : Nat → UInt32) :
    Agree strings (spelled pieces) para ↔
      ∀ conversion ∈ conversions pieces para,
        conversion.1.Agrees conversion.2 := by
  rw [agree_iff_textOf strings small, textOf_eq_iff strings small]

/-- The conversion `%d`. -/
def plainSigned : Directive where
  flags := []
  width := []
  letter := .d
  digits := by simp
  noNought := by simp

theorem plainSigned_small : ∀ piece ∈ [Piece.conversion plainSigned],
    piece.Small := by
  intro piece member
  rw [List.mem_singleton.mp member]
  exact ⟨fun _ => by decide, by decide⟩

theorem sprintf_snprintf_agree_iff_five :
    Agree (fun _ => []) [0x25, 0x64] (fun _ => 5) := by
  have agrees : ∀ conversion ∈
      conversions [.conversion plainSigned] (fun _ => 5),
      conversion.1.Agrees conversion.2 := by
    intro conversion member
    rw [List.mem_singleton.mp member]
    exact Or.inr ⟨by decide, Or.inl (by decide)⟩
  exact (sprintf_snprintf_agree_iff (fun _ => [])
    [.conversion plainSigned] plainSigned_small (fun _ => 5)).mpr agrees

/-- `%d` of -1 is `-1` or `4294967295`. -/
theorem sprintf_snprintf_not_agree_negative :
    ¬∀ (strings : UInt32 → List UInt8) (pieces : List Piece),
      (∀ piece ∈ pieces, piece.Small) →
        ∀ para, Agree strings (spelled pieces) para := by
  intro always
  have agree := always (fun _ => []) [.conversion plainSigned]
    plainSigned_small (fun _ => 0xffffffff) 11 (by decide)
  have printed : snprintf (fun _ => []) 11
      (spelled [.conversion plainSigned]) (fun _ => 0xffffffff) =
        some ⟨[0x34, 0x32, 0x39, 0x34, 0x39, 0x36, 0x37, 0x32, 0x39, 0x35],
          10⟩ := by
    decide
  rw [printed] at agree
  exact absurd agree (by decide)

end Witos.Stdio
