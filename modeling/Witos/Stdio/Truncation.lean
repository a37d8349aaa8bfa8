import Witos.Stdio.FormatAgree

/-!
# Truncation

`snprintf` sends every character through `IF_UNOVER`, which stores it while
`str_count < size - 1` and counts it in any case.  `str_count` is an `int`, so
the buffer is kept and the count is right just for texts shorter than 2 ^ 31.
-/

namespace Witos.Stdio

/-- What was stored from `buf` on, and `str_count`. -/
structure Printed where
  text : List UInt8
  strCount : Int

/-- `IF_UNOVER` with its `int`s. -/
def unover (size : Int) (printed : Printed) (char : UInt8) : Printed where
  text :=
    if printed.strCount < toInt32 (size - 1) then printed.text ++ [char]
    else printed.text
  strCount := toInt32 (printed.strCount + 1)

/-- The loop of `vsnprintf`.  It does not survive a number that is longer than
`ch_num`; the fuel is for the characters of the format. -/
def vsnprintfRun (strings : UInt32 → List UInt8) (size : Int) :
    Nat → List UInt8 → (Nat → UInt32) → Printed → Option Printed
  | _, [], _, printed => some printed
  | 0, _ :: _, _, _ => none
  | fuel + 1, char :: fmt, para, printed =>
      let chunk := iteration snprintfSwitch strings char fmt para
      if chunk.viaScratch ∧ chNumSize < chunk.text.length then none
      else
        vsnprintfRun strings size fuel chunk.fmt chunk.para
          (chunk.text.foldl (unover size) printed)

/-- All bytes `snprintf` stores from `buf` on, and what it returns. -/
def snprintfInto (strings : UInt32 → List UInt8) (size : Nat)
    (fmt : List UInt8) (para : Nat → UInt32) : Option (List UInt8 × Int) :=
  (vsnprintfRun strings (toInt32 size) fmt.length fmt para ⟨[], 0⟩).map
    fun printed => (printed.text ++ [0], printed.strCount)

/-- What the iterations emit, without a size. -/
def chunksFrom (strings : UInt32 → List UInt8) :
    Nat → List UInt8 → (Nat → UInt32) → List Chunk
  | 0, _, _ => []
  | _ + 1, [], _ => []
  | fuel + 1, char :: fmt, para =>
      let chunk := iteration snprintfSwitch strings char fmt para
      chunk :: chunksFrom strings fuel chunk.fmt chunk.para

def chunks (strings : UInt32 → List UInt8) (fmt : List UInt8)
    (para : Nat → UInt32) : List Chunk :=
  chunksFrom strings fmt.length fmt para

/-- The text with an unlimited size. -/
def fullText (strings : UInt32 → List UInt8) (fmt : List UInt8)
    (para : Nat → UInt32) : List UInt8 :=
  (chunks strings fmt para).flatMap Chunk.text

/-- The numbers fit in `ch_num`. -/
def NumbersFit (strings : UInt32 → List UInt8) (fmt : List UInt8)
    (para : Nat → UInt32) : Prop :=
  ∀ chunk ∈ chunks strings fmt para, chunk.viaScratch = true →
    chunk.text.length ≤ chNumSize

/-- For every size the beginning of the text is stored with a zero behind it,
and its whole length is returned. -/
def TruncatesExactly (strings : UInt32 → List UInt8) (fmt : List UInt8)
    (para : Nat → UInt32) : Prop :=
  let full := fullText strings fmt para
  ∀ size : Nat, 1 ≤ size → size < 2 ^ 31 → ∃ written ret,
    snprintfInto strings size fmt para = some (written, ret) ∧
      written.length ≤ size ∧
      written = full.take (min (size - 1) full.length) ++ [0] ∧
      ret = full.length

theorem getSign_shorter (style : Style) (fmt : List UInt8) :
    (getSign style fmt).2.length ≤ fmt.length := by
  induction fmt generalizing style with
  | nil => exact Nat.le_refl _
  | cons char fmt induction =>
      have later (style : Style) :
          (getSign style fmt).2.length ≤ (char :: fmt).length :=
        Nat.le_succ_of_le (induction style)
      unfold getSign
      split
      · exact later _
      · split
        · exact later _
        · split
          · exact later _
          · split
            · exact later _
            · split
              · exact later _
              · exact Nat.le_refl _

theorem getWidth_shorter (width : Int) (fmt : List UInt8) :
    (getWidth width fmt).2.length ≤ fmt.length := by
  induction fmt generalizing width with
  | nil => exact Nat.le_refl _
  | cons char fmt induction =>
      unfold getWidth
      split
      · exact Nat.le_succ_of_le (induction _)
      · exact Nat.le_refl _

theorem skipLong_shorter (fmt : List UInt8) :
    (skipLong fmt).length ≤ fmt.length := by
  unfold skipLong
  split
  · exact Nat.le_add_right _ 2
  · exact Nat.le_succ _
  · exact Nat.le_refl _

theorem convert_shorter {strings : UInt32 → List UInt8}
    {roll fmt : List UInt8} {style : Style} {width : Int}
    {para : Nat → UInt32} {bound : Nat} (rollShort : roll.length ≤ bound)
    (short : fmt.length ≤ bound) :
    (convert snprintfSwitch strings roll style width fmt para).fmt.length ≤
      bound := by
  have tail : fmt.tail.length ≤ bound := by
    rw [List.length_tail]
    exact Nat.le_trans (Nat.sub_le _ _) short
  unfold convert
  cases snprintfSwitch fmt.head? style with
  | number base style => exact tail
  | string => exact tail
  | character => exact tail
  | unknown => exact rollShort

theorem iteration_shorter (strings : UInt32 → List UInt8) (char : UInt8)
    (fmt : List UInt8) (para : Nat → UInt32) :
    (iteration snprintfSwitch strings char fmt para).fmt.length ≤
      fmt.length := by
  have tail (text : List UInt8) (short : text.length ≤ fmt.length) :
      text.tail.length ≤ fmt.length := by
    rw [List.length_tail]
    exact Nat.le_trans (Nat.sub_le _ _) short
  have flags := getSign_shorter ∅ fmt
  have width := Nat.le_trans
    (getWidth_shorter 0 (getSign ∅ fmt).2) flags
  unfold iteration
  split
  · exact Nat.le_refl _
  · split
    · exact tail fmt (Nat.le_refl _)
    · dsimp only
      split
      · split
        · exact tail _ width
        · apply convert_shorter (Nat.le_refl _)
          exact Nat.le_trans (skipLong_shorter _) (tail _ width)
      · apply convert_shorter (Nat.le_refl _)
        exact Nat.le_trans (skipLong_shorter _) width

/-- Where the numbers fit, the run is one of `IF_UNOVER` over the whole
text. -/
theorem vsnprintfRun_eq {strings : UInt32 → List UInt8} {size : Int}
    {fuel : Nat} {fmt : List UInt8} {para : Nat → UInt32}
    (enough : fmt.length ≤ fuel)
    (fits : ∀ chunk ∈ chunksFrom strings fuel fmt para,
      chunk.viaScratch = true → chunk.text.length ≤ chNumSize)
    (printed : Printed) :
    vsnprintfRun strings size fuel fmt para printed =
      some (((chunksFrom strings fuel fmt para).flatMap Chunk.text).foldl
        (unover size) printed) := by
  induction fuel generalizing fmt para printed with
  | zero =>
      obtain rfl := List.length_eq_zero_iff.mp (Nat.le_zero.mp enough)
      rfl
  | succ fuel induction =>
      cases fmt with
      | nil => rfl
      | cons char fmt =>
          simp only [chunksFrom] at fits ⊢
          simp only [vsnprintfRun]
          have shorter := iteration_shorter strings char fmt para
          generalize iteration snprintfSwitch strings char fmt para = chunk
            at fits shorter ⊢
          have survives :
              ¬(chunk.viaScratch = true ∧ chNumSize < chunk.text.length) := by
            rintro ⟨viaScratch, long⟩
            have short := fits chunk List.mem_cons_self viaScratch
            exact absurd long (Nat.not_lt.mpr short)
          rw [if_neg survives, List.flatMap_cons, List.foldl_append]
          apply induction
          · exact Nat.le_trans shorter (Nat.le_of_succ_le_succ enough)
          · intro other member
            exact fits other (List.mem_cons_of_mem _ member)

/-- A text stored with a count that is an `int`. -/
def Stored.printed (stored : Stored) : Printed :=
  ⟨stored.text, stored.strCount⟩

theorem foldl_printed {size : Nat} (positive : 1 ≤ size)
    (int : size < 2 ^ 31) {text : List UInt8} {stored : Stored}
    (short : stored.strCount + text.length < 2 ^ 31) :
    text.foldl (unover size) stored.printed =
        (text.foldl (ifUnover size) stored).printed ∧
      (text.foldl (ifUnover size) stored).strCount =
        stored.strCount + text.length := by
  induction text generalizing stored with
  | nil => exact ⟨rfl, rfl⟩
  | cons char text induction =>
      rw [List.length_cons] at short
      have room : toInt32 ((size : Int) - 1) = (size : Int) - 1 := by
        apply toInt32_of_range
        · omega
        · omega
      have count : toInt32 ((stored.strCount : Int) + 1) =
          stored.strCount + 1 := by
        apply toInt32_of_range
        · omega
        · omega
      have step : unover size stored.printed char =
          (ifUnover size stored char).printed := by
        have less : (stored.strCount : Int) < size - 1 ↔
            stored.strCount < size - 1 := by omega
        simp only [unover, Stored.printed, ifUnover, room, count, less]
        rfl
      have counted : (ifUnover size stored char).strCount =
          stored.strCount + 1 := rfl
      obtain ⟨same, length⟩ := @induction (ifUnover size stored char)
        (by rw [counted]; omega)
      rw [List.foldl_cons, List.foldl_cons, step]
      refine ⟨same, ?_⟩
      rw [length, counted, List.length_cons]
      omega

/-- While the count is an `int`, the loop is the one that counts in natural
numbers. -/
theorem vsnprintfRun_printed {strings : UInt32 → List UInt8} {size : Nat}
    (positive : 1 ≤ size) (int : size < 2 ^ 31) {fuel : Nat}
    {fmt : List UInt8} {para : Nat → UInt32} (enough : fmt.length ≤ fuel)
    {stored : Stored}
    (short : stored.strCount + ((chunksFrom strings fuel fmt para).flatMap
      Chunk.text).length < 2 ^ 31) :
    vsnprintfRun strings size fuel fmt para stored.printed =
      (vsnprintfLoop strings size fuel fmt para stored).map
        Stored.printed := by
  induction fuel generalizing fmt para stored with
  | zero =>
      obtain rfl := List.length_eq_zero_iff.mp (Nat.le_zero.mp enough)
      rfl
  | succ fuel induction =>
      cases fmt with
      | nil => rfl
      | cons char fmt =>
          simp only [chunksFrom, List.flatMap_cons, List.length_append]
            at short
          simp only [vsnprintfRun, vsnprintfLoop]
          have shorter := iteration_shorter strings char fmt para
          generalize iteration snprintfSwitch strings char fmt para = chunk
            at short shorter ⊢
          obtain ⟨same, count⟩ := @foldl_printed size positive int chunk.text
            stored (by omega)
          split
          · rfl
          · rw [same]
            apply induction
            · exact Nat.le_trans shorter (Nat.le_of_succ_le_succ enough)
            · rw [count]
              omega

/-- Below `2 ^ 31` both readings of `vsnprintf` agree. -/
theorem snprintfInto_eq_snprintf {strings : UInt32 → List UInt8}
    {fmt : List UInt8} {para : Nat → UInt32} {size : Nat}
    (positive : 1 ≤ size) (int : size < 2 ^ 31)
    (short : (fullText strings fmt para).length < 2 ^ 31) :
    snprintfInto strings size fmt para =
      (snprintf strings size fmt para).map fun stored =>
        (stored.text ++ [0], (stored.strCount : Int)) := by
  have isSize : toInt32 size = size := by
    apply toInt32_of_range
    · omega
    · omega
  have run := @vsnprintfRun_printed strings size positive int fmt.length fmt
    para (Nat.le_refl _) ⟨[], 0⟩ (by rwa [Nat.zero_add])
  rw [snprintfInto, isSize]
  change (vsnprintfRun strings size fmt.length fmt para
    (Stored.printed ⟨[], 0⟩)).map _ = _
  rw [run, Option.map_map]
  rfl

theorem toInt32_lt (value : Int) : toInt32 value < 2 ^ 31 := by
  unfold toInt32
  have bound := Int.bmod_lt (x := value) (m := 2 ^ 32) (by decide)
  omega

/-- What was counted is the number of characters, but as an `int`. -/
theorem strCount_foldl (size : Int) (text : List UInt8) (printed : Printed)
    {count : Int} (counted : printed.strCount = toInt32 count) :
    (text.foldl (unover size) printed).strCount =
      toInt32 (count + text.length) := by
  induction text generalizing printed count with
  | nil => simpa using counted
  | cons char text induction =>
      have next : (unover size printed char).strCount =
          toInt32 (count + 1) := by
        simp [unover, counted, toInt32]
      rw [List.foldl_cons, induction _ next, List.length_cons]
      congr 1
      push_cast
      omega

/-- While the count does not wrap around, the beginning of the text is
stored. -/
theorem foldl_unover {size : Nat} (positive : 1 ≤ size)
    (int : size < 2 ^ 31) {done text : List UInt8}
    (short : (done ++ text).length < 2 ^ 31) :
    text.foldl (unover size) ⟨done.take (size - 1), done.length⟩ =
      ⟨(done ++ text).take (size - 1), (done ++ text).length⟩ := by
  induction text generalizing done with
  | nil => simp
  | cons char text induction =>
      have last : toInt32 ((size : Int) - 1) = (size : Int) - 1 := by
        apply toInt32_of_range
        · omega
        · omega
      have count : toInt32 ((done.length : Int) + 1) = done.length + 1 := by
        rw [List.length_append, List.length_cons] at short
        apply toInt32_of_range
        · omega
        · omega
      have step : unover size ⟨done.take (size - 1), done.length⟩ char =
          ⟨(done ++ [char]).take (size - 1), (done ++ [char]).length⟩ := by
        have longer : ((done ++ [char]).length : Int) = done.length + 1 := by
          simp
        simp only [unover, last, count, longer, Printed.mk.injEq, and_true]
        split
        · rename_i room
          rw [List.take_of_length_le (by omega),
            List.take_of_length_le (by simp; omega)]
        · rename_i full
          rw [List.take_append_of_le_length (by omega)]
      have whole : done ++ char :: text = (done ++ [char]) ++ text := by
        simp
      rw [whole] at short ⊢
      rw [List.foldl_cons, step]
      exact induction short

theorem snprintfInto_eq {strings : UInt32 → List UInt8} {fmt : List UInt8}
    {para : Nat → UInt32} (fits : NumbersFit strings fmt para) {size : Nat}
    (int : size < 2 ^ 31) :
    snprintfInto strings size fmt para =
      some (((fullText strings fmt para).foldl (unover size) ⟨[], 0⟩).text ++
          [0],
        toInt32 (fullText strings fmt para).length) := by
  have isSize : toInt32 size = size := by
    apply toInt32_of_range
    · omega
    · exact_mod_cast int
  have run := @vsnprintfRun_eq strings size fmt.length fmt para (Nat.le_refl _)
    fits ⟨[], 0⟩
  have counted := @strCount_foldl size (fullText strings fmt para) ⟨[], 0⟩ 0
    rfl
  rw [Int.zero_add] at counted
  rw [snprintfInto, isSize, run, ← counted]
  rfl

/-- What is stored of a text that an `int` can count. -/
theorem snprintfInto_of_short {strings : UInt32 → List UInt8}
    {fmt : List UInt8} {para : Nat → UInt32}
    (fits : NumbersFit strings fmt para) {size : Nat} (positive : 1 ≤ size)
    (int : size < 2 ^ 31)
    (short : (fullText strings fmt para).length < 2 ^ 31) :
    snprintfInto strings size fmt para =
      some ((fullText strings fmt para).take (size - 1) ++ [0],
        ((fullText strings fmt para).length : Int)) := by
  have stored := @foldl_unover size positive int []
    (fullText strings fmt para) short
  have count : toInt32 (fullText strings fmt para).length =
      (fullText strings fmt para).length := by
    apply toInt32_of_range
    · omega
    · exact_mod_cast short
  rw [snprintfInto_eq fits int, count]
  rw [List.take_nil, List.nil_append] at stored
  exact congrArg (fun printed => some (printed.text ++ [0], _)) stored

theorem chunksFrom_spelled (strings : UInt32 → List UInt8)
    {pieces : List Piece} (small : ∀ piece ∈ pieces, piece.Small)
    (para : Nat → UInt32) {fuel : Nat}
    (enough : (spelled pieces).length ≤ fuel) :
    (chunksFrom strings fuel (spelled pieces) para).flatMap Chunk.text =
        textOf snprintfSwitch strings pieces para ∧
      ∀ chunk ∈ chunksFrom strings fuel (spelled pieces) para,
        chunk.viaScratch = true → chunk.text.length ≤ chNumSize := by
  induction pieces generalizing para fuel with
  | nil =>
      have none : chunksFrom strings fuel (spelled []) para = [] := by
        cases fuel <;> rfl
      rw [none]
      exact ⟨rfl, by simp⟩
  | cons piece pieces induction =>
      have pieceSmall := small piece List.mem_cons_self
      obtain ⟨char, fmt, isFormat, shorter, viaScratch, isNumber, isChunk⟩ :=
        iteration_spelled snprintf_decides strings pieceSmall pieces para
      rw [isFormat] at enough ⊢
      cases fuel with
      | zero => simp at enough
      | succ fuel =>
          rw [List.length_cons] at enough
          obtain ⟨sameText, othersFit⟩ := @induction
            (fun piece member => small piece (List.mem_cons_of_mem _ member))
            (piece.behind para) fuel
            (Nat.le_trans shorter (Nat.le_of_succ_le_succ enough))
          simp only [chunksFrom, isChunk, textOf, List.flatMap_cons]
          rw [sameText]
          refine ⟨rfl, ?_⟩
          intro chunk member isScratch
          rcases List.mem_cons.mp member with rfl | later
          · obtain ⟨directive, rfl, number⟩ := isNumber isScratch
            exact Directive.snprintf_fits pieceSmall number strings (para 0)
          · exact othersFit chunk later isScratch

section Pieces

variable (strings : UInt32 → List UInt8) {pieces : List Piece}
  (small : ∀ piece ∈ pieces, piece.Small) (para : Nat → UInt32)

include small

theorem fullText_spelled :
    fullText strings (spelled pieces) para =
      textOf snprintfSwitch strings pieces para :=
  (chunksFrom_spelled strings small para (Nat.le_refl _)).1

theorem numbersFit_spelled : NumbersFit strings (spelled pieces) para :=
  (chunksFrom_spelled strings small para (Nat.le_refl _)).2

end Pieces

/-- `snprintf` truncates exactly where the text is one that an `int` can
count. -/
theorem truncatesExactly_iff {strings : UInt32 → List UInt8}
    {fmt : List UInt8} {para : Nat → UInt32}
    (fits : NumbersFit strings fmt para) :
    TruncatesExactly strings fmt para ↔
      (fullText strings fmt para).length < 2 ^ 31 := by
  constructor
  · intro truncates
    have one : 1 < 2 ^ 31 := Nat.one_lt_two_pow (by decide)
    obtain ⟨written, ret, run, -, -, counted⟩ :=
      truncates 1 (Nat.le_refl 1) one
    rw [snprintfInto_eq fits one] at run
    obtain ⟨-, isRet⟩ := Prod.mk.inj (Option.some.inj run)
    have small := toInt32_lt (fullText strings fmt para).length
    rw [isRet, counted] at small
    exact Int.ofNat_lt.mp small
  · intro short size positive int
    refine ⟨_, _, snprintfInto_of_short fits positive int short, ?_, ?_, rfl⟩
    · rw [List.length_append, List.length_take, List.length_singleton]
      omega
    · congr 1
      rw [← List.take_take, List.take_length]

/-- `%d` of 12345; the third character is cut off when the size is 3. -/
theorem truncatesExactly_iff_cut :
    TruncatesExactly (fun _ => []) [0x25, 0x64] (fun _ => 12345) ∧
      snprintfInto (fun _ => []) 3 [0x25, 0x64] (fun _ => 12345) =
        some ([0x31, 0x32, 0], 5) := by
  have fits : NumbersFit (fun _ => []) [0x25, 0x64] (fun _ => 12345) :=
    numbersFit_spelled _ plainSigned_small _
  have text : fullText (fun _ => []) [0x25, 0x64] (fun _ => 12345) =
      [0x31, 0x32, 0x33, 0x34, 0x35] := by decide
  have exactly : TruncatesExactly (fun _ => []) [0x25, 0x64]
      (fun _ => 12345) := (truncatesExactly_iff fits).mpr (by
    rw [text]
    decide)
  refine ⟨exactly, ?_⟩
  obtain ⟨written, ret, stored, -, isText, isRet⟩ :=
    exactly 3 (by decide) (by decide)
  rw [stored, isText, isRet, text]
  rfl

theorem length_textOf_character (strings : UInt32 → List UInt8)
    {directive : Directive} (small : directive.Small)
    (isCharacter : directive.letter = .c) {char : UInt8}
    (ordinary : char ≠ percent) (para : Nat → UInt32) :
    (textOf snprintfSwitch strings
      [.conversion directive, .plain char ordinary] para).length =
        max directive.field 1 + 1 := by
  have inSpace : directive.text snprintfSwitch strings (para 0) =
      inField (styleOf directive.flags) directive.field
        [(para 0).toUInt8] := by
    rw [Directive.text, isCharacter]
    rfl
  have length : (inField (styleOf directive.flags) directive.field
      [(para 0).toUInt8]).length = max directive.field 1 :=
    inField_length small.isWidth (Nat.one_lt_two_pow (by decide)) _
  rw [textOf, List.length_append, Piece.text, inSpace, length]
  rfl

/-- `2147483647` -/
def widestWidth : List UInt8 :=
  [0x32, 0x31, 0x34, 0x37, 0x34, 0x38, 0x33, 0x36, 0x34, 0x37]

theorem widestWidth_digits : ∀ char ∈ widestWidth, isDigit char = true :=
  List.all_eq_true.mp rfl

theorem widestWidth_noNought : widestWidth.head? ≠ some nought := by
  decide

/-- `%2147483647c` -/
def widestCharacter : Directive where
  flags := []
  width := widestWidth
  letter := .c
  digits := widestWidth_digits
  noNought := widestWidth_noNought

theorem widestCharacter_field : widestCharacter.field = 2 ^ 31 - 1 := rfl

theorem widestCharacter_small : widestCharacter.Small := by
  constructor
  · intro isNumber
    exact absurd rfl isNumber.1
  · rw [widestCharacter_field]
    exact Nat.sub_lt (Nat.two_pow_pos 31) Nat.one_pos

theorem x_ne_percent : (0x78 : UInt8) ≠ percent := by
  decide

/-- The format `%2147483647cx`. -/
def widestPieces : List Piece :=
  [.conversion widestCharacter, .plain 0x78 x_ne_percent]

theorem widestPieces_small : ∀ piece ∈ widestPieces, piece.Small := by
  intro piece member
  simp only [widestPieces, List.mem_cons, List.not_mem_nil, or_false] at member
  rcases member with rfl | rfl
  · exact widestCharacter_small
  · trivial

/-- One character more than an `int` can count: the value returned is
negative. -/
theorem not_truncatesExactly_widest :
    ¬ TruncatesExactly (fun _ => []) (spelled widestPieces)
      (fun _ => 0x61) := by
  intro truncates
  have fits := numbersFit_spelled (fun _ => []) widestPieces_small
    (fun _ => 0x61)
  have length : (fullText (fun _ => []) (spelled widestPieces)
      (fun _ => 0x61)).length = 2 ^ 31 := by
    rw [fullText_spelled _ widestPieces_small, widestPieces,
      length_textOf_character _ widestCharacter_small rfl,
      widestCharacter_field]
    omega
  have one : 1 < 2 ^ 31 := Nat.one_lt_two_pow (by decide)
  obtain ⟨written, ret, run, -, -, counted⟩ :=
    truncates 1 (Nat.le_refl 1) one
  rw [snprintfInto_eq fits one] at run
  obtain ⟨-, isRet⟩ := Prod.mk.inj (Option.some.inj run)
  have small := toInt32_lt (fullText (fun _ => []) (spelled widestPieces)
    (fun _ => 0x61)).length
  rw [isRet, counted, length] at small
  exact absurd small (Int.lt_irrefl _)

end Witos.Stdio
