import Witos.Stdio.Format

/-!
# What the formatters make of a format

A format is a list of pieces, and each of the two formatters turns a piece and
its argument into text.
-/

namespace Witos.Stdio

open Library

/-- The characters between `%` and the width. -/
inductive FlagChar
  | dash | cross | blank | hash | nought
deriving DecidableEq

def FlagChar.char : FlagChar → UInt8
  | dash => Stdio.dash
  | cross => Stdio.cross
  | blank => Stdio.blank
  | hash => Stdio.hash
  | nought => Stdio.nought

inductive Letter
  | d | i | u | x | X | o | p | c | s
deriving DecidableEq

def Letter.char : Letter → UInt8
  | d => 0x64
  | i => 0x69
  | u => 0x75
  | x => 0x78
  | X => 0x58
  | o => 0x6f
  | p => 0x70
  | c => 0x63
  | s => 0x73

/-- A conversion; a nought in front of the width would be a flag. -/
structure Directive where
  flags : List FlagChar
  width : List UInt8
  letter : Letter
  digits : ∀ char ∈ width, isDigit char = true
  noNought : width.head? ≠ some nought

/-- A piece of a format. -/
inductive Piece
  | plain (char : UInt8) (ordinary : char ≠ Stdio.percent)
  | percent
  | conversion (directive : Directive)

/-- The text of a conversion behind the `%`. -/
def Directive.spelled (directive : Directive) : List UInt8 :=
  directive.flags.map FlagChar.char ++
    (directive.width ++ [directive.letter.char])

def Piece.spelled : Piece → List UInt8
  | plain char _ => [char]
  | percent => [Stdio.percent, Stdio.percent]
  | conversion directive => Stdio.percent :: directive.spelled

def spelled (pieces : List Piece) : List UInt8 :=
  pieces.flatMap Piece.spelled

/-- The value of the width. -/
def Directive.field (directive : Directive) : Nat :=
  directive.width.foldl (fun value char => value * 10 + (char.toNat - 0x30)) 0

def Letter.IsNumber (letter : Letter) : Prop :=
  letter ≠ c ∧ letter ≠ s

/-- The width is small enough: for `ch_num` if there is a number, and for an
`int` in any case. -/
structure Directive.Small (directive : Directive) : Prop where
  number : directive.letter.IsNumber → directive.field ≤ chNumSize
  int : directive.field < 2 ^ 31

/-- The conversions of a format with their arguments. -/
def conversions : List Piece → (Nat → UInt32) → List (Directive × UInt32)
  | [], _ => []
  | .plain _ _ :: pieces, para => conversions pieces para
  | .percent :: pieces, para => conversions pieces para
  | .conversion directive :: pieces, para =>
      (directive, para 0) :: conversions pieces (nextArg para)

def addFlag (style : Style) : FlagChar → Style
  | .dash => (insert Flag.left style).erase Flag.zero
  | .cross => insert Flag.sign style
  | .blank => insert Flag.space style
  | .hash => insert Flag.plus style
  | .nought => if Flag.left ∈ style then style else insert Flag.zero style

def styleOf (flags : List FlagChar) : Style :=
  flags.foldl addFlag ∅

def IsFlagChar (char : UInt8) : Prop :=
  char = dash ∨ char = cross ∨ char = blank ∨ char = hash ∨ char = nought

theorem getSign_flags (style : Style) (flags : List FlagChar)
    {next : UInt8} (fmt : List UInt8) (other : ¬IsFlagChar next) :
    getSign style (flags.map FlagChar.char ++ next :: fmt) =
      (flags.foldl addFlag style, next :: fmt) := by
  induction flags generalizing style with
  | nil =>
      simp only [IsFlagChar, not_or] at other
      simp [getSign, other]
  | cons flag flags induction =>
      rw [List.map_cons, List.cons_append, List.foldl_cons, ← induction]
      cases flag <;> rfl

theorem le_foldl_digits (digits : List UInt8) (start : Nat) :
    start ≤ digits.foldl
      (fun value char => value * 10 + (char.toNat - 0x30)) start := by
  induction digits generalizing start with
  | nil => exact Nat.le_refl _
  | cons char digits induction =>
      rw [List.foldl_cons]
      refine Nat.le_trans ?_ (induction _)
      omega

theorem getWidth_digits {digits : List UInt8}
    (areDigits : ∀ char ∈ digits, isDigit char = true) {next : UInt8}
    (fmt : List UInt8) (other : isDigit next = false) {width value : Nat}
    (isValue : digits.foldl
      (fun value char => value * 10 + (char.toNat - 0x30)) width = value)
    (small : value < 2 ^ 31) :
    getWidth width (digits ++ next :: fmt) = ((value : Int), next :: fmt) := by
  induction digits generalizing width with
  | nil =>
      rw [List.foldl_nil] at isValue
      simp [getWidth, other, isValue]
  | cons char digits induction =>
      have isDigitChar := areDigits char List.mem_cons_self
      have bounds : 0x30 ≤ char.toNat := by
        simp only [isDigit, decide_eq_true_eq] at isDigitChar
        exact isDigitChar.1
      rw [List.foldl_cons] at isValue
      have grows : width * 10 + (char.toNat - 0x30) ≤ value := by
        rw [← isValue]
        exact le_foldl_digits _ _
      have step : toInt32 ((width : Int) * 10 + char.toNat - 0x30) =
          ((width * 10 + (char.toNat - 0x30) : Nat) : Int) := by
        unfold toInt32
        rw [Int.bmod_eq_of_le]
        · omega
        · omega
        · omega
      rw [List.cons_append, getWidth, if_pos isDigitChar, step]
      exact induction
        (fun char member => areDigits char (List.mem_cons_of_mem _ member))
        isValue

/-- The text of a conversion in a field. -/
def Conversion.text (strings : UInt32 → List UInt8) (style : Style)
    (width : Int) (word : UInt32) : Conversion → List UInt8
  | .number base style => numToAscii word.toNat width base style
  | .string => inField style width (strings word)
  | .character => inField style width [word.toUInt8]
  | .unknown => [percent]

/-- The text a formatter makes of a conversion. -/
def Directive.text (decide : Option UInt8 → Style → Conversion)
    (strings : UInt32 → List UInt8) (directive : Directive)
    (word : UInt32) : List UInt8 :=
  (decide (some directive.letter.char) (styleOf directive.flags)).text
    strings (styleOf directive.flags) directive.field word

theorem Letter.char_facts (letter : Letter) :
    ¬IsFlagChar letter.char ∧ isDigit letter.char = false ∧
      letter.char ≠ percent ∧ letter.char ≠ asterisk ∧
      letter.char ≠ 0x6c := by
  cases letter <;> exact ⟨by unfold IsFlagChar; decide, by decide, by decide,
    by decide, by decide⟩

theorem isDigit_facts {char : UInt8} (isDigitChar : isDigit char = true)
    (notNought : char ≠ nought) :
    ¬IsFlagChar char ∧ char ≠ percent := by
  simp only [isDigit, decide_eq_true_eq] at isDigitChar
  have low : 0x30 ≤ char.toNat := isDigitChar.1
  refine ⟨?_, ?_⟩
  · rintro (rfl | rfl | rfl | rfl | isNought)
    · exact absurd low (by decide)
    · exact absurd low (by decide)
    · exact absurd low (by decide)
    · exact absurd low (by decide)
    · exact notNought isNought
  · rintro rfl
    exact absurd low (by decide)

theorem FlagChar.char_ne_percent (flag : FlagChar) :
    flag.char ≠ Stdio.percent := by
  cases flag <;> decide

theorem Directive.behind_flags (directive : Directive) (fmt : List UInt8) :
    ∃ next rest, directive.width ++ directive.letter.char :: fmt =
        next :: rest ∧
      ¬IsFlagChar next ∧ next ≠ percent := by
  have noNought := directive.noNought
  have digits := directive.digits
  cases isWidth : directive.width with
  | nil =>
      obtain ⟨notFlag, -, notPercent, -⟩ := directive.letter.char_facts
      exact ⟨_, _, rfl, notFlag, notPercent⟩
  | cons char width =>
      rw [isWidth] at noNought digits
      obtain ⟨notFlag, notPercent⟩ := isDigit_facts
        (digits char List.mem_cons_self)
        (fun isNought => noNought (congrArg some isNought))
      exact ⟨_, _, rfl, notFlag, notPercent⟩

theorem Directive.head_spelled (directive : Directive) (fmt : List UInt8) :
    (directive.spelled ++ fmt).head? ≠ some percent := by
  obtain ⟨next, rest, behind, -, notPercent⟩ := directive.behind_flags fmt
  rw [Directive.spelled, List.append_assoc, List.append_assoc,
    List.singleton_append, behind]
  cases directive.flags with
  | nil =>
      intro isPercent
      exact notPercent (Option.some.inj isPercent)
  | cons flag flags =>
      intro isPercent
      exact flag.char_ne_percent (Option.some.inj isPercent)

/-- What is common to both `switch`es. -/
structure Decides (decide : Option UInt8 → Style → Conversion) : Prop where
  known : ∀ (letter : Letter) style,
    decide (some letter.char) style ≠ .unknown
  number : ∀ (letter : Letter) style base style',
    decide (some letter.char) style = .number base style' → letter.IsNumber

theorem convert_letter {decide : Option UInt8 → Style → Conversion}
    (decides : Decides decide) (strings : UInt32 → List UInt8)
    (roll : List UInt8) (style : Style) (width : Int) (letter : Letter)
    (fmt : List UInt8) (para : Nat → UInt32) :
    ∃ viaScratch, (viaScratch = true → letter.IsNumber) ∧
      convert decide strings roll style width (letter.char :: fmt) para =
        ⟨(decide (some letter.char) style).text strings style width (para 0),
          viaScratch, fmt, nextArg para⟩ := by
  unfold convert
  rw [List.head?_cons]
  cases decided : decide (some letter.char) style with
  | number base style' =>
      exact ⟨true, fun _ => decides.number _ _ _ _ decided, rfl⟩
  | string => exact ⟨false, by simp, rfl⟩
  | character => exact ⟨false, by simp, rfl⟩
  | unknown => exact absurd decided (decides.known letter style)

theorem iteration_directive {decide : Option UInt8 → Style → Conversion}
    (decides : Decides decide) (strings : UInt32 → List UInt8)
    {directive : Directive} (small : directive.Small) (fmt : List UInt8)
    (para : Nat → UInt32) :
    ∃ viaScratch, (viaScratch = true → directive.letter.IsNumber) ∧
      iteration decide strings percent (directive.spelled ++ fmt) para =
        ⟨directive.text decide strings (para 0), viaScratch, fmt,
          nextArg para⟩ := by
  obtain ⟨-, notDigit, -, notStar, notLong⟩ := directive.letter.char_facts
  obtain ⟨next, rest, behind, notFlag, -⟩ := directive.behind_flags fmt
  have flags : getSign ∅ (directive.spelled ++ fmt) =
      (styleOf directive.flags, directive.width ++
        directive.letter.char :: fmt) := by
    rw [Directive.spelled, List.append_assoc, List.append_assoc,
      List.singleton_append, behind]
    exact getSign_flags ∅ directive.flags rest notFlag
  have width : getWidth 0 (directive.width ++
      directive.letter.char :: fmt) =
        ((directive.field : Int), directive.letter.char :: fmt) :=
    getWidth_digits directive.digits fmt notDigit rfl small.int
  have notSkipped : skipLong (directive.letter.char :: fmt) =
      directive.letter.char :: fmt := by
    unfold skipLong
    split
    · rename_i same
      exact absurd (List.cons.inj same).1 notLong
    · rename_i same
      exact absurd (List.cons.inj same).1 notLong
    · rfl
  have noStar : (directive.letter.char :: fmt).head? ≠ some asterisk :=
    fun isStar => notStar (Option.some.inj isStar)
  unfold iteration
  rw [if_neg (by simp), if_neg (directive.head_spelled fmt)]
  simp only [flags, width, if_neg noStar, notSkipped]
  exact convert_letter decides strings _ _ _ _ _ _

theorem sprintf_decides : Decides sprintfSwitch := by
  constructor
  · intro letter style
    cases letter <;> simp [sprintfSwitch, Letter.char]
  · intro letter style base style' decided
    cases letter <;> simp [sprintfSwitch, Letter.char, Letter.IsNumber] at *

theorem snprintf_decides : Decides snprintfSwitch := by
  constructor
  · intro letter style
    cases letter <;> simp [snprintfSwitch, Letter.char]
  · intro letter style base style' decided
    cases letter <;> simp [snprintfSwitch, Letter.char, Letter.IsNumber] at *

theorem digitsFrom_length {base num count : Nat} (fuel : Nat)
    (bounded : num < base ^ count) :
    (digitsFrom base fuel num).length ≤ count := by
  induction fuel generalizing num count with
  | zero => exact Nat.zero_le _
  | succ fuel induction =>
      rw [digitsFrom]
      split
      · exact Nat.zero_le _
      · rename_i notZero
        cases count with
        | zero =>
            rw [Nat.pow_zero] at bounded
            omega
        | succ count =>
            have shorter : num / base < base ^ count := by
              apply Nat.div_lt_of_lt_mul
              rw [Nat.mul_comm, ← Nat.pow_succ]
              exact bounded
            rw [List.length_cons]
            exact Nat.succ_le_succ (induction shorter)

theorem tmpArray_length {num base : Nat} (large : 8 ≤ base)
    (word : num < 2 ^ 32) : (tmpArray num base).length ≤ 11 := by
  unfold tmpArray
  split
  · decide
  · apply digitsFrom_length
    calc num < 2 ^ 32 := word
      _ ≤ 8 ^ 11 := by decide
      _ ≤ base ^ 11 := Nat.pow_le_pow_left large 11

theorem unsign_lt {num : Nat} (base : Nat) (style : Style)
    (word : num < 2 ^ 32) : unsign num base style < 2 ^ 32 := by
  unfold unsign sub32
  split
  · exact Nat.mod_lt _ (by decide)
  · exact word

theorem leader_length (base : Nat) (style : Style) :
    (leader base style).length ≤ 2 := by
  unfold leader
  split
  · split
    · decide
    · split <;> decide
  · decide

theorem sign_length (sign : Option UInt8) : sign.toList.length ≤ 1 := by
  cases sign <;> simp

theorem digitsFrom_length_le (base fuel num : Nat) :
    (digitsFrom base fuel num).length ≤ fuel := by
  induction fuel generalizing num with
  | zero => exact Nat.le_refl _
  | succ fuel induction =>
      rw [digitsFrom]
      split
      · exact Nat.zero_le _
      · exact Nat.succ_le_succ (induction _)

theorem tmpArray_length_le (num base : Nat) :
    (tmpArray num base).length ≤ 32 := by
  unfold tmpArray
  split
  · decide
  · exact digitsFrom_length_le base 32 num

theorem toInt32_of_range {value : Int} (low : -2 ^ 31 ≤ value)
    (high : value < 2 ^ 31) : toInt32 value = value := by
  apply Int.bmod_eq_of_le
  · simpa using low
  · simpa using high

theorem fillDown_widthBehind {width len : Int} {fill : UInt8}
    (widthLow : -2 ^ 31 < width) (lenLow : 0 ≤ len) (int : len < 2 ^ 31) :
    fillDown (widthBehind width len) len fill = [] := by
  have ends : widthBehind width len - len ≤ 0 := by
    rw [widthBehind, toInt32_of_range (by omega) (by omega)]
    omega
  rw [fillDown, Int.toNat_of_nonpos ends, List.replicate_zero]

/-- A width that a format can state. -/
def IsWidth (width : Int) : Prop :=
  0 ≤ width ∧ width < 2 ^ 31

/-- For a stated width nothing wraps around, and one of the two loops that fill
a field does nothing. -/
theorem numToAscii_laid {width : Int} (isWidth : IsWidth width) (num : Nat)
    (base : Nat) (style : Style) :
    let digits := tmpArray (unsign num base style) base
    let sign := (signOf num base style).toList
    let fill := List.replicate (width - (leader base style).length -
      sign.length - digits.length).toNat (fillChar style)
    numToAscii num width base style =
      (if Flag.left ∈ style then [] else fill) ++ leader base style ++ sign ++
        digits.reverse ++ (if Flag.left ∈ style then fill else []) := by
  obtain ⟨nonneg, int⟩ := isWidth
  have front := leader_length base style
  have signs := sign_length (signOf num base style)
  have count := tmpArray_length_le (unsign num base style) base
  unfold numToAscii
  dsimp only
  generalize tmpArray (unsign num base style) base = digits at count ⊢
  generalize (signOf num base style).toList = sign at signs ⊢
  have room : toInt32 (width - (leader base style).length - sign.length -
      digits.length) = width - (leader base style).length - sign.length -
        digits.length := by
    apply toInt32_of_range
    · omega
    · omega
  rw [room]
  by_cases isLeft : Flag.left ∈ style
  · simp only [isLeft, if_true]
    rw [fillDown, Int.sub_zero]
  · simp only [isLeft, if_false]
    rw [fillDown_widthBehind (by omega) (Int.le_refl 0) (by decide), fillDown,
      Int.sub_zero]

theorem numToAscii_length {width : Int} (isWidth : IsWidth width) (num : Nat)
    (base : Nat) (style : Style) :
    (numToAscii num width base style).length =
      max width.toNat ((leader base style).length +
        (signOf num base style).toList.length +
        (tmpArray (unsign num base style) base).length) := by
  rw [numToAscii_laid isWidth]
  simp only [List.length_append, List.length_reverse]
  by_cases isLeft : Flag.left ∈ style
  · simp only [isLeft, if_true, List.length_nil, List.length_replicate]
    omega
  · simp only [isLeft, if_false, List.length_nil, List.length_replicate]
    omega

theorem inField_length {width : Int} (isWidth : IsWidth width)
    {text : List UInt8} (int : text.length < 2 ^ 31) (style : Style) :
    (inField style width text).length = max width.toNat text.length := by
  obtain ⟨nonneg, wide⟩ := isWidth
  have len : toInt32 text.length = text.length := by
    apply toInt32_of_range
    · omega
    · exact_mod_cast int
  unfold inField
  rw [len]
  by_cases isLeft : Flag.left ∈ style
  · simp only [isLeft, if_true, fillDown, List.length_append,
      List.length_nil, List.length_replicate]
    omega
  · simp only [isLeft, if_false]
    rw [fillDown_widthBehind (by omega) (by omega) (by omega)]
    simp only [fillDown, List.length_append, List.length_nil,
      List.length_replicate]
    omega

theorem inField_zero {text : List UInt8} (int : text.length < 2 ^ 31)
    (style : Style) : inField style 0 text = text := by
  have none (width : Int) (negative : width ≤ 0) (fill : UInt8) :
      fillDown width (toInt32 text.length) fill = [] := by
    rw [toInt32_of_range (by omega) (by omega), fillDown,
      Int.toNat_of_nonpos (by omega), List.replicate_zero]
  have behind : widthBehind 0 (toInt32 text.length) ≤ 0 := by
    rw [toInt32_of_range (by omega) (by omega), widthBehind,
      toInt32_of_range (by omega) (by omega)]
    omega
  unfold inField
  by_cases isLeft : Flag.left ∈ style
  · simp only [isLeft, if_true]
    rw [none 0 (Int.le_refl 0), List.nil_append, List.append_nil]
  · simp only [isLeft, if_false]
    rw [none 0 (Int.le_refl 0), none _ behind, List.nil_append,
      List.append_nil]

theorem numToAscii_fits {num : Nat} (word : num < 2 ^ 32) {width : Int}
    (isWidth : IsWidth width) (small : width ≤ chNumSize) {base : Nat}
    (large : 8 ≤ base) (style : Style) :
    (numToAscii num width base style).length ≤ chNumSize := by
  have digits := tmpArray_length large (unsign_lt base style word)
  have front := leader_length base style
  have sign := sign_length (signOf num base style)
  rw [numToAscii_length isWidth]
  unfold chNumSize at *
  omega

theorem Directive.Small.isWidth {directive : Directive}
    (small : directive.Small) : IsWidth directive.field :=
  ⟨Int.natCast_nonneg _, by exact_mod_cast small.int⟩

theorem snprintf_base {letter : Letter} {style style' : Style} {base : Nat}
    (decided : snprintfSwitch (some letter.char) style =
      .number base style') : 8 ≤ base := by
  cases letter <;>
    simp only [snprintfSwitch, Letter.char, Conversion.number.injEq,
      reduceCtorEq] at decided <;> omega

theorem Directive.snprintf_fits {directive : Directive}
    (small : directive.Small) (isNumber : directive.letter.IsNumber)
    (strings : UInt32 → List UInt8) (word : UInt32) :
    (directive.text snprintfSwitch strings word).length ≤ chNumSize := by
  unfold Directive.text
  cases decided : snprintfSwitch (some directive.letter.char)
      (styleOf directive.flags) with
  | number base style =>
      apply numToAscii_fits word.toNat_lt small.isWidth _
        (snprintf_base decided)
      exact_mod_cast small.number isNumber
  | unknown => exact absurd decided (snprintf_decides.known _ _)
  | string =>
      obtain ⟨notC, notS⟩ := isNumber
      cases isLetter : directive.letter <;>
        simp [isLetter, snprintfSwitch, Letter.char] at decided notC notS
  | character =>
      obtain ⟨notC, notS⟩ := isNumber
      cases isLetter : directive.letter <;>
        simp [isLetter, snprintfSwitch, Letter.char] at decided notC notS

/-- The text a formatter makes of a piece. -/
def Piece.text (decide : Option UInt8 → Style → Conversion)
    (strings : UInt32 → List UInt8) (para : Nat → UInt32) :
    Piece → List UInt8
  | plain char _ => [char]
  | percent => [Stdio.percent]
  | conversion directive => directive.text decide strings (para 0)

/-- The arguments behind those of a piece. -/
def Piece.behind (para : Nat → UInt32) : Piece → Nat → UInt32
  | conversion _ => nextArg para
  | _ => para

/-- The text a formatter makes of a format. -/
def textOf (decide : Option UInt8 → Style → Conversion)
    (strings : UInt32 → List UInt8) :
    List Piece → (Nat → UInt32) → List UInt8
  | [], _ => []
  | piece :: pieces, para =>
      piece.text decide strings para ++
        textOf decide strings pieces (piece.behind para)

def Piece.Small : Piece → Prop
  | conversion directive => directive.Small
  | _ => True

theorem iteration_piece {decide : Option UInt8 → Style → Conversion}
    (decides : Decides decide) (strings : UInt32 → List UInt8)
    {piece : Piece} (small : piece.Small) (rest : List UInt8)
    (para : Nat → UInt32) :
    ∃ char fmt, piece.spelled ++ rest = char :: fmt ∧
      ∃ viaScratch, (viaScratch = true → ∃ directive,
          piece = .conversion directive ∧ directive.letter.IsNumber) ∧
        iteration decide strings char fmt para =
          ⟨piece.text decide strings para, viaScratch, rest,
            piece.behind para⟩ := by
  cases piece with
  | plain char ordinary =>
      exact ⟨char, rest, rfl, false, by simp, if_pos ordinary⟩
  | percent =>
      refine ⟨percent, percent :: rest, rfl, false, by simp, ?_⟩
      simp [iteration, Piece.text, Piece.behind]
  | conversion directive =>
      obtain ⟨viaScratch, isNumber, isChunk⟩ :=
        iteration_directive decides strings small rest para
      exact ⟨percent, directive.spelled ++ rest, rfl, viaScratch,
        fun isScratch => ⟨directive, rfl, isNumber isScratch⟩, isChunk⟩

theorem Piece.spelled_length (piece : Piece) : 0 < piece.spelled.length := by
  cases piece <;> simp [Piece.spelled]

theorem iteration_spelled {decide : Option UInt8 → Style → Conversion}
    (decides : Decides decide) (strings : UInt32 → List UInt8)
    {piece : Piece} (small : piece.Small) (pieces : List Piece)
    (para : Nat → UInt32) :
    ∃ char fmt, spelled (piece :: pieces) = char :: fmt ∧
      (spelled pieces).length ≤ fmt.length ∧
      ∃ viaScratch, (viaScratch = true → ∃ directive,
          piece = .conversion directive ∧ directive.letter.IsNumber) ∧
        iteration decide strings char fmt para =
          ⟨piece.text decide strings para, viaScratch, spelled pieces,
            piece.behind para⟩ := by
  obtain ⟨char, fmt, isSpelled, viaScratch, isNumber, isChunk⟩ :=
    iteration_piece decides strings small (spelled pieces) para
  refine ⟨char, fmt, isSpelled, ?_, viaScratch, isNumber, isChunk⟩
  have lengths := congrArg List.length isSpelled
  rw [List.length_append, List.length_cons] at lengths
  have nonempty := piece.spelled_length
  omega

theorem vsprintfLoop_spelled (strings : UInt32 → List UInt8)
    {pieces : List Piece} (small : ∀ piece ∈ pieces, piece.Small)
    (para : Nat → UInt32) {fuel : Nat}
    (enough : (spelled pieces).length ≤ fuel) :
    vsprintfLoop strings fuel (spelled pieces) para =
      textOf sprintfSwitch strings pieces para := by
  induction pieces generalizing para fuel with
  | nil => cases fuel <;> rfl
  | cons piece pieces induction =>
      obtain ⟨char, fmt, isFormat, shorter, viaScratch, -, isChunk⟩ :=
        iteration_spelled sprintf_decides strings
          (small piece List.mem_cons_self) pieces para
      rw [isFormat] at enough ⊢
      cases fuel with
      | zero => simp at enough
      | succ fuel =>
          rw [List.length_cons] at enough
          simp only [vsprintfLoop, isChunk, textOf]
          rw [induction (fun piece member =>
            small piece (List.mem_cons_of_mem _ member)) _ (by omega)]

theorem foldl_ifUnover {size : Nat} {stored : Stored} {text : List UInt8}
    (room : stored.strCount + text.length < size) :
    text.foldl (ifUnover size) stored =
      ⟨stored.text ++ text, stored.strCount + text.length⟩ := by
  induction text generalizing stored with
  | nil => simp
  | cons char text induction =>
      rw [List.length_cons] at room
      have stores : stored.strCount < size - 1 := by omega
      rw [List.foldl_cons, induction]
      · simp only [ifUnover, if_pos stores, List.append_assoc,
          List.singleton_append, List.length_cons]
        congr 1
        omega
      · simp only [ifUnover]
        omega

theorem vsnprintfLoop_spelled (strings : UInt32 → List UInt8) {size : Nat}
    {pieces : List Piece} (small : ∀ piece ∈ pieces, piece.Small)
    (para : Nat → UInt32) {fuel : Nat}
    (enough : (spelled pieces).length ≤ fuel)
    {stored : Stored} (room : stored.strCount +
      (textOf snprintfSwitch strings pieces para).length < size) :
    vsnprintfLoop strings size fuel (spelled pieces) para stored =
      some ⟨stored.text ++ textOf snprintfSwitch strings pieces para,
        stored.strCount +
          (textOf snprintfSwitch strings pieces para).length⟩ := by
  induction pieces generalizing para fuel stored with
  | nil =>
      cases fuel <;> simp [spelled, vsnprintfLoop, textOf]
  | cons piece pieces induction =>
      have pieceSmall := small piece List.mem_cons_self
      obtain ⟨char, fmt, isFormat, shorter, viaScratch, isNumber, isChunk⟩ :=
        iteration_spelled snprintf_decides strings pieceSmall pieces para
      rw [textOf, List.length_append] at room
      have fits : ¬(viaScratch = true ∧ chNumSize <
          (piece.text snprintfSwitch strings para).length) := by
        rintro ⟨isScratch, long⟩
        obtain ⟨directive, rfl, number⟩ := isNumber isScratch
        have short : (directive.text snprintfSwitch strings
            (para 0)).length ≤ chNumSize :=
          Directive.snprintf_fits pieceSmall number strings (para 0)
        exact absurd long (Nat.not_lt.mpr short)
      rw [isFormat] at enough ⊢
      cases fuel with
      | zero => simp at enough
      | succ fuel =>
          rw [List.length_cons] at enough
          simp only [vsnprintfLoop, isChunk, if_neg fits, textOf]
          rw [foldl_ifUnover (by omega), induction (fun piece member =>
            small piece (List.mem_cons_of_mem _ member)) _ (by omega)]
          · simp only [List.append_assoc, List.length_append, Nat.add_assoc]
          · simp only
            omega

end Witos.Stdio
