import Witos.Core.SysconfLookup
import Witos.Library.Bytes

/-!
# The value of an attribute

What `conf_get_attr` of `core/sysconf.c` stores in `val` for a line of the form
`key = value`.
-/

namespace Witos.Core

open Library

/-- `while (end > line && *end == ' ') end--`. -/
def trimEnd (line : List UInt8) : Nat → Nat
  | 0 => 0
  | stop + 1 =>
      if line.getD (stop + 1) 0 = blank then trimEnd line stop else stop + 1

/-- Where `end` points in the end, from the terminator on. -/
def valueEnd (line : List UInt8) : Int :=
  let stop := trimEnd line line.length
  if line.getD stop 0 = doubleQuote then (stop : Int) - 1 else stop

/-- What is copied from `start` up to `end`. -/
def copied (line : List UInt8) (start : Nat) : List UInt8 :=
  ((line ++ [0]).drop start).take (valueEnd line + 1 - start).toNat

/-- `conf_get_attr` with the memory at `val`. -/
def confGetAttrInto (cfg : Sysconfig) (attr : List UInt8)
    (val : Nat → UInt8) : Answer (Nat → UInt8) :=
  match searchAttr attr (cfg.text.length + 2) (cfg.seek 0) with
  | .noData => .noData
  | .outside => .outside
  | .value (length, found) =>
      match syscfgReadLine (found.seek (found.offset - (length + 1)))
        lineLen with
      | .value (line, _) =>
          match valueStart (cString line) with
          | some start =>
              .value (overlay (copied (cString line) start ++ [0]) val)
          | none => .outside
      | _ => .outside

/-- The loop over `end` does nothing, for there is no blank at the
terminator, so the terminator is copied and another one is stored. -/
theorem copied_eq {line : List UInt8} {start : Nat}
    (inside : start ≤ line.length) :
    copied line start = line.drop start ++ [0] := by
  have terminator : line.getD line.length 0 = 0 := by
    rw [List.getD_eq_getElem?_getD, List.getElem?_eq_none (Nat.le_refl _)]
    rfl
  have stays : trimEnd line line.length = line.length := by
    cases isLength : line.length with
    | zero => rfl
    | succ length =>
        rw [isLength] at terminator
        rw [trimEnd, terminator, if_neg (by decide)]
  have atEnd : valueEnd line = line.length := by
    rw [valueEnd]
    simp only [stays, terminator]
    rfl
  have whole : ((line.length : Int) + 1 - start).toNat =
      (line.drop start ++ [0]).length := by
    rw [List.length_append, List.length_drop, List.length_singleton]
    omega
  rw [copied, atEnd, whole, List.drop_append_of_le_length inside,
    List.take_length]

/-- A value that is stored with two terminators. -/
def Answer.stored (val : Nat → UInt8) :
    Answer (Int × List UInt8) → Answer (Nat → UInt8)
  | .noData => .noData
  | .outside => .outside
  | .value (_, string) => .value (overlay (string ++ [0, 0]) val)

theorem confGetAttrInto_eq (cfg : Sysconfig) (attr : List UInt8)
    (val : Nat → UInt8) :
    confGetAttrInto cfg attr val = (confGetAttr cfg attr).stored val := by
  unfold confGetAttrInto confGetAttr
  cases searchAttr attr (cfg.text.length + 2) (cfg.seek 0) with
  | noData => rfl
  | outside => rfl
  | value answer =>
      obtain ⟨length, found⟩ := answer
      dsimp only
      unfold readValue
      dsimp only
      cases syscfgReadLine (found.seek (found.offset - (length + 1)))
        lineLen with
      | noData => rfl
      | outside => rfl
      | value read =>
          obtain ⟨line, next⟩ := read
          dsimp only
          unfold extractValue
          cases isStart : valueStart (cString line) with
          | none => rfl
          | some start =>
              have inside := (valueStart_bounds isStart).2
              dsimp only
              rw [copied_eq inside, List.append_assoc]
              rfl

/-- A line `key = value` in its parts. -/
structure Setting where
  attr : List UInt8
  before : List UInt8
  after : List UInt8
  quoted : Bool
  value : List UInt8
  behind : List UInt8
  key : ∀ char ∈ attr, inKey char = true
  blanks : ∀ char ∈ before ++ after ++ behind, char = blank
  bare : quoted = false → value.head? ≠ some blank ∧
    value.head? ≠ some doubleQuote ∧ value.getLast? ≠ some blank
  strings : 0 ∉ attr ∧ 0 ∉ value

def Setting.quote (setting : Setting) : List UInt8 :=
  if setting.quoted then [doubleQuote] else []

/-- The line behind its `=`. -/
def Setting.text (setting : Setting) : List UInt8 :=
  setting.after ++ (setting.quote ++ (setting.value ++
    (setting.quote ++ setting.behind)))

def Setting.line (setting : Setting) : List UInt8 :=
  setting.attr ++ setting.before ++ equals :: setting.text

/-- The offsets at which `search_attr` reads lines. -/
inductive Searches (cfg : Sysconfig) (attr : List UInt8) : Nat → Prop
  | start : Searches cfg attr 0
  | next {offset place : Nat} {line : List UInt8}
      (searched : Searches cfg attr offset)
      (read : syscfgReadLine (cfg.seek offset) lineLen =
        .value (line, cfg.seek place))
      (other : isAttrString attr (cString line) = false) :
      Searches cfg attr place

/-- `search_attr` finds the line of a setting. -/
structure Found (cfg : Sysconfig) (setting : Setting) (offset : Nat) :
    Prop where
  searched : Searches cfg setting.attr offset
  here : LineAt cfg.text offset setting.line
  hit : ∃ line next, syscfgReadLine (cfg.seek offset) lineLen =
    .value (line, next) ∧ isAttrString setting.attr (cString line) = true

/-- `conf_get_attr` stores the value and a terminator. -/
def StoresValue (cfg : Sysconfig) (setting : Setting) : Prop :=
  ∀ val, ∃ mem, confGetAttrInto cfg setting.attr val = .value mem ∧
    Lies mem 0 (setting.value ++ [0])

/-- The line is as long as `line` at most, and ends with a newline in the text
or right behind it. -/
def Counted (cfg : Sysconfig) (offset : Nat) (line : List UInt8) : Prop :=
  line.length ≤ lineLen - 1 ∧
    (offset + line.length < cfg.text.length ∨ cfg.behind = newline)

instance (cfg : Sysconfig) (offset : Nat) (line : List UInt8) :
    Decidable (Counted cfg offset line) :=
  inferInstanceAs (Decidable (_ ∧ _))

/-- A text without the blanks at its front, and a quote behind them. -/
def unquote (text : List UInt8) : List UInt8 :=
  if (text.dropWhile (· == blank)).head? = some doubleQuote then
    (text.dropWhile (· == blank)).tail
  else text.dropWhile (· == blank)

/-- What a line has behind its first `=`. -/
def HasBehind (line value : List UInt8) : Prop :=
  equals ∈ line ∧ unquote (line.drop (line.idxOf equals + 1)) = value

/-- There is neither a quote nor a blank behind the value in a line that is
read again as it is.  Another line is read again only if it is the first one,
behind the byte before the text and cut off. -/
def ValueLast (cfg : Sysconfig) (setting : Setting) (offset : Nat) : Prop :=
  (Counted cfg offset setting.line ∧ setting.quoted = false ∧
      (setting.value = [] ∨ setting.behind = [])) ∨
    (¬Counted cfg offset setting.line ∧ offset = 0 ∧
      cfg.before ≠ newline ∧ cfg.before ≠ 0 ∧
        HasBehind (cfg.before :: setting.line.take (lineLen - 2))
          setting.value)

theorem dropWhile_blanks {blanks : List UInt8}
    (areBlank : ∀ char ∈ blanks, char = blank) (rest : List UInt8) :
    (blanks ++ rest).dropWhile (· == blank) =
      rest.dropWhile (· == blank) := by
  rw [List.dropWhile_append_of_pos]
  intro char member
  simpa using areBlank char member

theorem dropWhile_of_head {rest : List UInt8}
    (other : rest.head? ≠ some blank) :
    rest.dropWhile (· == blank) = rest := by
  cases rest with
  | nil => rfl
  | cons char rest =>
      have notBlank : char ≠ blank := fun same => other (congrArg some same)
      rw [List.dropWhile_cons_of_neg (by simpa using notBlank)]

section Parts

variable (setting : Setting)

theorem Setting.before_blank : ∀ char ∈ setting.before, char = blank :=
  fun char member => setting.blanks char (by simp [member])

theorem Setting.after_blank : ∀ char ∈ setting.after, char = blank :=
  fun char member => setting.blanks char (by simp [member])

theorem Setting.behind_blank : ∀ char ∈ setting.behind, char = blank :=
  fun char member => setting.blanks char (by simp [member])

theorem Setting.equals_notMem :
    equals ∉ setting.attr ++ setting.before := by
  intro member
  rcases List.mem_append.mp member with inAttr | inBlanks
  · exact absurd (setting.key equals inAttr) (by decide)
  · exact absurd (setting.before_blank equals inBlanks) (by decide)

theorem Setting.drop_line :
    setting.line.drop (setting.line.idxOf equals + 1) = setting.text := by
  have place : setting.line.idxOf equals =
      (setting.attr ++ setting.before).length := by
    rw [Setting.line, List.idxOf_append_of_notMem setting.equals_notMem,
      List.idxOf_cons_self, Nat.add_zero]
  have parts : setting.line =
      (setting.attr ++ setting.before ++ [equals]) ++ setting.text := by
    simp [Setting.line]
  rw [place, parts]
  exact List.drop_left' (by simp [Nat.add_assoc])

/-- A quoted value keeps its closing quote, and another one the blanks behind
it. -/
theorem unquote_text_iff :
    unquote setting.text = setting.value ↔ setting.quoted = false ∧
      (setting.value = [] ∨ setting.behind = []) := by
  rw [unquote, Setting.text, dropWhile_blanks setting.after_blank]
  cases isQuoted : setting.quoted with
  | true =>
      have quote : setting.quote = [doubleQuote] := by
        rw [Setting.quote, isQuoted]
        rfl
      have front : (setting.quote ++ (setting.value ++
          (setting.quote ++ setting.behind))).dropWhile (· == blank) =
            doubleQuote :: (setting.value ++
              doubleQuote :: setting.behind) := by
        rw [quote]
        rfl
      rw [front, List.head?_cons, if_pos rfl, List.tail_cons]
      simp
  | false =>
      obtain ⟨notBlank, notQuote, -⟩ := setting.bare isQuoted
      have quote : setting.quote = [] := by
        rw [Setting.quote, isQuoted]
        rfl
      rw [quote, List.nil_append, List.nil_append]
      by_cases empty : setting.value = []
      · have blanks : setting.behind.dropWhile (· == blank) = [] := by
          rw [← List.append_nil setting.behind,
            dropWhile_blanks setting.behind_blank]
          rfl
        simp [empty, blanks]
      · have head : (setting.value ++ setting.behind).head? =
            setting.value.head? :=
          List.head?_append_of_ne_nil setting.value empty
        rw [dropWhile_of_head (by rwa [head]), head, if_neg notQuote]
        simp [empty]

theorem hasBehind_line_iff :
    HasBehind setting.line setting.value ↔ setting.quoted = false ∧
      (setting.value = [] ∨ setting.behind = []) := by
  have present : equals ∈ setting.line := by
    rw [Setting.line]
    simp
  rw [HasBehind, setting.drop_line, unquote_text_iff]
  exact and_iff_right present

theorem Setting.zero_notMem : 0 ∉ setting.line := by
  have noBlank (blanks : List UInt8)
      (areBlank : ∀ char ∈ blanks, char = blank) : 0 ∉ blanks :=
    fun member => absurd (areBlank 0 member) (by decide)
  have noQuote : 0 ∉ setting.quote := by
    unfold Setting.quote
    split <;> decide
  have noEquals : (0 : UInt8) ≠ equals := by decide
  simp [Setting.line, Setting.text, setting.strings, noQuote, noEquals,
    noBlank _ setting.before_blank, noBlank _ setting.after_blank,
    noBlank _ setting.behind_blank]

theorem Setting.zero_notMem_again {char : UInt8} (notZero : char ≠ 0)
    (room : Nat) : 0 ∉ char :: setting.line.take room := by
  intro member
  rcases List.mem_cons.mp member with same | inLine
  · exact notZero same.symm
  · exact setting.zero_notMem (List.mem_of_mem_take inLine)

end Parts

theorem drop_length_takeWhile (accepts : UInt8 → Bool) (text : List UInt8) :
    text.drop (text.takeWhile accepts).length = text.dropWhile accepts := by
  have parts := @List.takeWhile_append_dropWhile _ accepts text
  calc text.drop (text.takeWhile accepts).length
      = (text.takeWhile accepts ++ text.dropWhile accepts).drop
          (text.takeWhile accepts).length := by rw [parts]
    _ = text.dropWhile accepts := List.drop_left' rfl

/-- The value of a line starts behind its first `=`, the blanks there and a
quote. -/
theorem drop_valueStart {line : List UInt8} (present : equals ∈ line) :
    ∃ start, valueStart line = some start ∧
      line.drop start = unquote (line.drop (line.idxOf equals + 1)) := by
  unfold valueStart unquote
  rw [if_pos present]
  dsimp only
  generalize line.idxOf equals + 1 = first
  have blanks : line.drop (first +
      ((line.drop first).takeWhile (· == blank)).length) =
        (line.drop first).dropWhile (· == blank) := by
    rw [← List.drop_drop]
    exact drop_length_takeWhile _ _
  have head (start : Nat) :
      line.getD start 0 = (line.drop start).head?.getD 0 := by
    rw [List.getD_eq_getElem?_getD, List.head?_drop]
  rw [head, blanks]
  by_cases isQuote : ((line.drop first).dropWhile (· == blank)).head? =
      some doubleQuote
  · rw [if_pos isQuote, isQuote, if_pos (by rfl)]
    refine ⟨_, rfl, ?_⟩
    rw [← List.tail_drop, blanks]
  · have other : ((line.drop first).dropWhile (· == blank)).head?.getD 0 ≠
        doubleQuote := by
      intro same
      cases isHead : ((line.drop first).dropWhile (· == blank)).head? with
      | none =>
          rw [isHead] at same
          exact absurd same (by decide)
      | some char =>
          rw [isHead] at same isQuote
          exact isQuote (congrArg some same)
    rw [if_neg isQuote, if_neg other]
    exact ⟨_, rfl, blanks⟩

theorem string_unique {mem : Nat → UInt8} {offset : Nat}
    {left right : List UInt8} (isLeft : Lies mem offset (left ++ [0]))
    (isRight : Lies mem offset (right ++ [0])) (leftString : 0 ∉ left)
    (rightString : 0 ∉ right) : left = right := by
  induction left generalizing offset right with
  | nil =>
      cases right with
      | nil => rfl
      | cons char right =>
          have ends : mem offset = 0 := (lies_cons.mp isLeft).1
          have goesOn : mem offset = char := (lies_cons.mp isRight).1
          exact absurd (by simp [← goesOn, ends]) rightString
  | cons char left induction =>
      obtain ⟨first, later⟩ := lies_cons.mp isLeft
      cases right with
      | nil =>
          have ends : mem offset = 0 := (lies_cons.mp isRight).1
          exact absurd (by simp [← first, ends]) leftString
      | cons other right =>
          obtain ⟨again, others⟩ := lies_cons.mp isRight
          obtain rfl : char = other := first.symm.trans again
          rw [induction later others
            (fun member => leftString (List.mem_cons_of_mem _ member))
            (fun member => rightString (List.mem_cons_of_mem _ member))]

/-- A line that has the value behind its first `=`. -/
theorem stored_extractValue_iff {line value : List UInt8} (place : Int)
    (lineString : 0 ∉ line) (valueString : 0 ∉ value) :
    (∀ val, ∃ mem, (extractValue place line).stored val = .value mem ∧
      Lies mem 0 (value ++ [0])) ↔ HasBehind line value := by
  unfold HasBehind
  by_cases present : equals ∈ line
  · obtain ⟨start, known, dropped⟩ := drop_valueStart present
    have holds (val : Nat → UInt8) :
        Lies (overlay (line.drop start ++ [0, 0]) val) 0
          (line.drop start ++ [0]) := by
      have all := lies_overlay (line.drop start ++ [0, 0]) val
      have parts : line.drop start ++ [0, 0] =
          (line.drop start ++ [0]) ++ [0] := by simp
      rw [parts] at all ⊢
      exact (lies_append.mp all).1
    rw [extractValue_of_valueStart place known, ← dropped,
      and_iff_right present]
    constructor
    · intro stores
      obtain ⟨mem, same, lies⟩ := stores (fun _ => 0)
      obtain rfl := Answer.value.inj same
      exact string_unique (holds _) lies
        (fun member => lineString (List.mem_of_mem_drop member)) valueString
    · rintro rfl val
      exact ⟨_, rfl, holds val⟩
  · have nowhere : extractValue place line = .outside := by
      rw [extractValue, valueStart, if_neg present]
    rw [nowhere]
    constructor
    · intro stores
      obtain ⟨mem, same, -⟩ := stores (fun _ => 0)
      cases same
    · rintro ⟨isThere, -⟩
      exact absurd isThere present

theorem readChars_line {line rest : List UInt8} (single : newline ∉ line)
    (stops : rest = [] ∨ rest.head? = some newline) (room : Nat) :
    readChars room (line ++ rest) = line.take room := by
  induction line generalizing room with
  | nil =>
      rw [List.nil_append, List.take_nil]
      cases room with
      | zero => rfl
      | succ room =>
          cases rest with
          | nil => rfl
          | cons char rest =>
              rcases stops with none | ends
              · cases none
              · rw [readChars, if_pos (Option.some.inj ends)]
  | cons char line induction =>
      obtain ⟨other, single⟩ := List.ne_and_not_mem_of_not_mem_cons single
      cases room with
      | zero => rfl
      | succ room =>
          rw [List.cons_append, readChars, if_neg (Ne.symm other),
            induction single, List.take_succ_cons]

section Finding

variable {cfg : Sysconfig} {attr line : List UInt8} {offset : Nat}

theorem LineAt.inside (here : LineAt cfg.text offset line) :
    offset < cfg.text.length := by
  obtain ⟨before, rest, text, rfl, -, stops⟩ := here.parts
  have lengths := congrArg List.length text
  simp only [List.length_append] at lengths
  rcases stops with ⟨-, some_⟩ | stops
  · have positive := List.length_pos_iff.mpr some_
    omega
  · obtain ⟨more, rfl⟩ := List.head?_eq_some_iff.mp stops
    rw [List.length_cons] at lengths
    omega

/-- The byte behind what a call reads is a newline where its end is counted. -/
theorem LineAt.stop (here : LineAt cfg.text offset line) :
    ∃ rest, cfg.text.drop offset = line ++ rest ∧
      (rest = [] ∨ rest.head? = some newline) ∧
      ((line ++ rest).getD (line.take (lineLen - 1)).length cfg.behind =
        newline ↔ Counted cfg offset line) := by
  obtain ⟨before, rest, text, rfl, -, stops⟩ := here.parts
  have total : cfg.text.length =
      before.length + line.length + rest.length := by
    rw [text, List.length_append, List.length_append]
  have ends : rest = [] ∨ rest.head? = some newline :=
    stops.imp_left And.left
  refine ⟨rest, ?_, ends, ?_⟩
  · rw [text, List.append_assoc, List.drop_left' rfl]
  · unfold Counted
    by_cases fits : line.length ≤ lineLen - 1
    · rw [List.take_of_length_le fits]
      rcases ends with rfl | ends
      · have last : ¬before.length + line.length < cfg.text.length := by
          rw [total, List.length_nil]
          omega
        rw [List.append_nil, List.getD_eq_getElem?_getD,
          List.getElem?_eq_none (Nat.le_refl _)]
        simp [fits, last]
      · obtain ⟨more, rfl⟩ := List.head?_eq_some_iff.mp ends
        have further : before.length + line.length < cfg.text.length := by
          rw [total, List.length_cons]
          omega
        simp [fits, further]
    · have long : lineLen - 1 < line.length := Nat.not_le.mp fits
      have cut : (line.take (lineLen - 1)).length = lineLen - 1 := by
        rw [List.length_take]
        omega
      have inLine : (line ++ rest).getD (lineLen - 1) cfg.behind ∈ line := by
        rw [List.getD_eq_getElem?_getD, List.getElem?_append_left long,
          List.getElem?_eq_getElem long]
        exact List.getElem_mem long
      rw [cut]
      constructor
      · intro isNewline
        rw [isNewline] at inLine
        exact absurd inLine here.single
      · intro counted
        exact absurd counted.1 fits

theorem LineAt.read (here : LineAt cfg.text offset line) :
    syscfgReadLine (cfg.seek offset) lineLen =
      .value (line.take (lineLen - 1), cfg.seek
        (offset + (line.take (lineLen - 1)).length +
          if Counted cfg offset line then 1 else 0)) := by
  obtain ⟨rest, dropped, ends, stop⟩ := here.stop
  rw [readLine_at here.inside]
  dsimp only
  rw [dropped, readChars_line here.single ends]
  simp only [stop]

/-- One byte before the text, the first line is read up to 510 characters. -/
theorem LineAt.read_before (here : LineAt cfg.text 0 line) :
    ∃ next, syscfgReadLine (cfg.seek (-1)) lineLen =
      .value (if cfg.before = newline then []
        else cfg.before :: line.take (lineLen - 2), next) := by
  obtain ⟨rest, dropped, ends, -⟩ := here.stop
  rw [List.drop_zero] at dropped
  have read : readChars (lineLen - 1) (cfg.before :: cfg.text) =
      if cfg.before = newline then []
      else cfg.before :: line.take (lineLen - 2) := by
    rw [dropped, ← readChars_line here.single ends]
    rfl
  rw [← read]
  exact readLine_start cfg

theorem lt_of_read {place : Nat}
    (read : syscfgReadLine (cfg.seek offset) lineLen =
      .value (line, cfg.seek place)) : offset < place := by
  rcases Nat.lt_trichotomy offset cfg.text.length with inside | rfl | beyond
  · rw [readLine_at inside] at read
    obtain ⟨rfl, next⟩ := Prod.mk.inj (Answer.value.inj read)
    have isPlace := congrArg Sysconfig.offset next
    dsimp only [Sysconfig.seek] at isPlace
    cases isRest : cfg.text.drop offset with
    | nil =>
        have short := List.drop_eq_nil_iff.mp isRest
        omega
    | cons char rest =>
        rw [isRest] at isPlace
        by_cases ends : char = newline
        · have none : readChars (lineLen - 1) (char :: rest) = [] :=
            if_pos ends
          rw [none] at isPlace
          simp [ends] at isPlace
          omega
        · have some_ : 0 < (readChars (lineLen - 1) (char :: rest)).length := by
            have step : readChars (lineLen - 1) (char :: rest) =
                char :: readChars (lineLen - 2) rest := if_neg ends
            rw [step]
            exact Nat.succ_pos _
          split at isPlace <;> omega
  · rw [readLine_end] at read
    cases read
  · have more : ¬((offset : Int) = cfg.text.length) := by omega
    have further : (cfg.text.length : Int) < offset := by omega
    have outside : syscfgReadLine (cfg.seek offset) lineLen = .outside :=
      (if_neg more).trans (if_pos (Or.inl further))
    rw [outside] at read
    cases read

theorem searchAttr_of_searches (searched : Searches cfg attr offset) :
    ∃ count ≤ offset, ∀ lines,
      searchAttr attr (lines + count) (cfg.seek 0) =
        searchAttr attr lines (cfg.seek offset) := by
  induction searched with
  | start => exact ⟨0, Nat.le_refl 0, fun _ => rfl⟩
  | @next offset place line _ read other induction =>
      obtain ⟨count, few, goesOn⟩ := induction
      have later := lt_of_read read
      refine ⟨count + 1, by omega, fun lines => ?_⟩
      have one : searchAttr attr (lines + 1) (cfg.seek offset) =
          searchAttr attr lines (cfg.seek place) := by
        rw [searchAttr, read]
        simp only [other, Bool.false_eq_true, if_false]
      rw [← one, ← goesOn]
      congr 1
      omega

end Finding

section Values

variable {cfg : Sysconfig} {setting : Setting} {offset : Nat}

theorem readValue_first {length : Nat} {place : Int}
    (here : LineAt cfg.text 0 setting.line)
    (back : place - (length + 1) = -1) :
    readValue length (cfg.seek place) =
      if cfg.before ≠ newline ∧ cfg.before ≠ 0 then
        extractValue (-1) (cfg.before :: setting.line.take (lineLen - 2))
      else .outside := by
  obtain ⟨next, read⟩ := here.read_before
  rw [readValue_of_read back read]
  by_cases ends : cfg.before = newline
  · rw [if_pos ends, if_neg (fun both => both.1 ends)]
    rfl
  · rw [if_neg ends]
    by_cases stops : cfg.before = 0
    · rw [if_neg (fun both => both.2 stops), stops]
      rfl
    · rw [if_pos ⟨ends, stops⟩,
        cString_of_no_zero (setting.zero_notMem_again stops _)]

/-- What `conf_get_attr` comes to at the line it finds. -/
theorem confGetAttr_of_found (found : Found cfg setting offset) :
    confGetAttr cfg setting.attr =
      if Counted cfg offset setting.line then
        extractValue offset setting.line
      else if offset = 0 ∧ cfg.before ≠ newline ∧ cfg.before ≠ 0 then
        extractValue (-1) (cfg.before :: setting.line.take (lineLen - 2))
      else .outside := by
  have here := found.here
  have inside := here.inside
  obtain ⟨line, next, read, isHit⟩ := found.hit
  obtain ⟨isLine, isNext⟩ :=
    Prod.mk.inj (Answer.value.inj (here.read.symm.trans read))
  subst isLine isNext
  obtain ⟨count, few, goesOn⟩ := searchAttr_of_searches found.searched
  have search : searchAttr setting.attr (cfg.text.length + 2)
      (cfg.seek (0 : Nat)) = .value
        ((setting.line.take (lineLen - 1)).length, cfg.seek
          (offset + (setting.line.take (lineLen - 1)).length +
            if Counted cfg offset setting.line then 1 else 0)) := by
    have lines : cfg.text.length + 2 =
        (cfg.text.length + 1 - count) + 1 + count := by
      omega
    have goesOn := goesOn (cfg.text.length + 1 - count + 1)
    rw [lines]
    refine goesOn.trans ?_
    rw [searchAttr, here.read]
    simp only [isHit, if_true]
  have atHit : confGetAttr cfg setting.attr =
      readValue (setting.line.take (lineLen - 1)).length (cfg.seek
        (offset + (setting.line.take (lineLen - 1)).length +
          if Counted cfg offset setting.line then 1 else 0)) := by
    rw [confGetAttr]
    have search' : searchAttr setting.attr (cfg.text.length + 2)
        (cfg.seek 0) = _ := search
    rw [search']
  rw [atHit]
  by_cases counted : Counted cfg offset setting.line
  · rw [if_pos counted, if_pos counted,
      readValue_of_read (by omega) here.read,
      List.take_of_length_le counted.1,
      cString_of_no_zero setting.zero_notMem]
  · rw [if_neg counted, if_neg counted]
    cases offset with
    | zero =>
        rw [readValue_first here (by omega)]
        simp only [true_and]
    | succ offset =>
        obtain ⟨next, early⟩ := readLine_early here
        rw [readValue_of_read (by omega) early, if_neg (by omega)]
        rfl

/-- Exactly then the value is stored. -/
theorem confGetAttr_storesValue_iff (found : Found cfg setting offset) :
    StoresValue cfg setting ↔ ValueLast cfg setting offset := by
  have valueString := setting.strings.2
  have notStored : ¬∀ val : Nat → UInt8, ∃ mem,
      Answer.stored val .outside = .value mem ∧
        Lies mem 0 (setting.value ++ [0]) := by
    intro stores
    obtain ⟨mem, same, -⟩ := stores (fun _ => 0)
    cases same
  unfold StoresValue ValueLast
  simp only [confGetAttrInto_eq, confGetAttr_of_found found]
  by_cases counted : Counted cfg offset setting.line
  · rw [if_pos counted, stored_extractValue_iff _ setting.zero_notMem
      valueString, hasBehind_line_iff]
    simp only [counted, true_and, not_true_eq_false, false_and, or_false]
  · rw [if_neg counted]
    simp only [counted, false_and, not_false_eq_true, true_and, false_or]
    by_cases first : offset = 0 ∧ cfg.before ≠ newline ∧ cfg.before ≠ 0
    · have string := setting.zero_notMem_again first.2.2 (lineLen - 2)
      rw [if_pos first, stored_extractValue_iff _ string valueString]
      constructor
      · exact fun has => ⟨first.1, first.2.1, first.2.2, has⟩
      · exact fun holds => holds.2.2.2
    · rw [if_neg first]
      constructor
      · exact fun stores => absurd stores notStored
      · exact fun holds => absurd ⟨holds.1, holds.2.1, holds.2.2.1⟩ first

end Values

theorem address_key : ∀ char ∈ [0x69, 0x70], inKey char = true := by
  simp only [List.mem_cons, List.not_mem_nil, or_false, forall_eq_or_imp,
    forall_eq]
  decide

theorem address_bare : ([0x31] : List UInt8).head? ≠ some blank ∧
    ([0x31] : List UInt8).head? ≠ some doubleQuote ∧
      ([0x31] : List UInt8).getLast? ≠ some blank := by
  decide

theorem address_strings :
    (0 : UInt8) ∉ [0x69, 0x70] ∧ (0 : UInt8) ∉ [0x31] := by
  decide

/-- The line `ip=1` with something behind it. -/
def addressSetting (behind : List UInt8)
    (blanks : ∀ char ∈ behind, char = blank) : Setting where
  attr := [0x69, 0x70]
  before := []
  after := []
  quoted := false
  value := [0x31]
  behind := behind
  key := address_key
  blanks := blanks
  bare := fun _ => address_bare
  strings := address_strings

/-- A text that consists of this line. -/
def addressConfig (behind : List UInt8) : Sysconfig :=
  ⟨[0x69, 0x70, 0x3d, 0x31] ++ behind ++ [newline], 0, 0, 0⟩

theorem address_noBlank : ∀ char ∈ ([] : List UInt8), char = blank :=
  fun _ member => absurd member List.not_mem_nil

theorem address_oneBlank : ∀ char ∈ [blank], char = blank :=
  fun _ member => List.mem_singleton.mp member

theorem confGetAttr_storesValue_iff_address :
    StoresValue (addressConfig []) (addressSetting [] address_noBlank) := by
  have found : Found (addressConfig []) (addressSetting [] address_noBlank)
      0 :=
    ⟨.start, ⟨⟨[], [newline], rfl, rfl, .inl rfl, .inr rfl⟩, by decide⟩,
      _, _, rfl, by decide⟩
  exact (confGetAttr_storesValue_iff found).mpr
    (.inl ⟨⟨by decide, .inl (by decide)⟩, rfl, .inr rfl⟩)

/-- A blank behind the value is stored. -/
theorem confGetAttr_not_storesValue :
    ¬∀ (cfg : Sysconfig) (setting : Setting) (offset : Nat),
      Found cfg setting offset → StoresValue cfg setting := by
  intro always
  have found : Found (addressConfig [blank])
      (addressSetting [blank] address_oneBlank) 0 :=
    ⟨.start, ⟨⟨[], [newline], rfl, rfl, .inl rfl, .inr rfl⟩, by decide⟩,
      _, _, rfl, by decide⟩
  obtain ⟨mem, same, lies⟩ := always _ _ 0 found (fun _ => 0)
  have stored : confGetAttr (addressConfig [blank]) [0x69, 0x70] =
      .value (3, [0x31, 0x20]) := by
    decide
  have isMem : (confGetAttr (addressConfig [blank]) [0x69, 0x70]).stored
      (fun _ => 0) = .value mem := by
    rw [← confGetAttrInto_eq]
    exact same
  rw [stored] at isMem
  obtain rfl := Answer.value.inj isMem
  have second := (lies_cons.mp (lies_cons.mp lies).2).1
  exact absurd second (by decide)

end Witos.Core
