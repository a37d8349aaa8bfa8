import Mathlib.Data.List.TakeWhile
import Witos.Core.Sysconf

/-!
# Looking up an attribute

The code takes the first line in which the name occurs anywhere with a blank or
`=` behind it, and reads that line again from an offset computed from its
length.  The reference takes the first line whose key is the name.
-/

namespace Witos.Core

/-- The lines of a text, without their newlines. -/
def linesOf : List UInt8 → List (List UInt8)
  | [] => []
  | char :: text =>
      if char = newline then [] :: linesOf text
      else
        match linesOf text with
        | [] => [[char]]
        | line :: lines => (char :: line) :: lines

/-- The first line with a property, with its offset. -/
def firstLine (accepts : List UInt8 → Bool) (offset : Nat) :
    List (List UInt8) → Option (Nat × List UInt8)
  | [] => none
  | line :: lines =>
      if accepts line then some (offset, line)
      else firstLine accepts (offset + line.length + 1) lines

def inKey (char : UInt8) : Bool :=
  char != blank && char != equals

/-- The key of a line: what is before the first blank or `=`, if the line goes
on with `=` after optional blanks. -/
def keyOf (line : List UInt8) : Option (List UInt8) :=
  if ((line.dropWhile inKey).dropWhile (· == blank)).head? = some equals then
    some (line.takeWhile inKey)
  else none

def isKeyLine (attr line : List UInt8) : Bool :=
  keyOf line == some attr

/-- The first line whose key is the name. -/
def keyLine (attr text : List UInt8) : Option (Nat × List UInt8) :=
  firstLine (isKeyLine attr) 0 (linesOf text)

/-- The first line the code takes. -/
def hitLine (attr text : List UInt8) : Option (Nat × List UInt8) :=
  firstLine (isAttrString attr) 0 (linesOf text)

/-- The lookup fails if no line has the key, and else gives the value of the
first such line, from its place there. -/
def PicksLine (cfg : Sysconfig) (attr : List UInt8) : Prop :=
  match keyLine attr cfg.text with
  | none => confGetAttr cfg attr = .noData
  | some (offset, line) => ∃ start, valueStart line = some start ∧
      confGetAttr cfg attr = .value (offset + start, line.drop start)

/-- A text that is empty or ends with a newline. -/
def endsLine (text : List UInt8) : Prop :=
  text = [] ∨ text.getLast? = some newline

instance (text : List UInt8) : Decidable (endsLine text) :=
  inferInstanceAs (Decidable (_ ∨ _))

/-- Where the offset is set back to the start of the line: the line ends with a
newline, in the text or right behind it.  From the start of the text on it is
one byte too far back, which does no harm if that byte can be in a key. -/
def Rewinds (cfg : Sysconfig) (offset : Nat) (line : List UInt8) : Prop :=
  offset + line.length < cfg.text.length ∨ cfg.behind = newline ∨
    offset = 0 ∧ cfg.before ≠ newline ∧ cfg.before ≠ 0 ∧
      cfg.before ≠ equals

/-- No other line is taken for the one with the key, and the offset after its
line is the one that the code assumes. -/
def Plain (cfg : Sysconfig) (attr : List UInt8) : Prop :=
  hitLine attr cfg.text = keyLine attr cfg.text ∧
    match keyLine attr cfg.text with
    | none => endsLine cfg.text ∨ cfg.behind ≠ newline
    | some (offset, line) => Rewinds cfg offset line

theorem linesOf_append {line : List UInt8} (rest : List UInt8)
    (single : newline ∉ line) :
    linesOf (line ++ newline :: rest) = line :: linesOf rest := by
  induction line with
  | nil => simp [linesOf]
  | cons char line induction =>
      obtain ⟨other, single⟩ := List.ne_and_not_mem_of_not_mem_cons single
      rw [List.cons_append, linesOf, if_neg (Ne.symm other),
        induction single]

theorem linesOf_single {line : List UInt8} (single : newline ∉ line)
    (some_ : line ≠ []) : linesOf line = [line] := by
  induction line with
  | nil => exact absurd rfl some_
  | cons char line induction =>
      obtain ⟨other, single⟩ := List.ne_and_not_mem_of_not_mem_cons single
      rw [linesOf, if_neg (Ne.symm other)]
      cases line with
      | nil => rfl
      | cons next line => rw [induction single (by simp)]

/-- A text is empty, or one line without a newline, or a line and more text. -/
inductive Layout : List UInt8 → Prop
  | empty : Layout []
  | last {line : List UInt8} (some_ : line ≠ [])
      (single : newline ∉ line) : Layout line
  | more {line rest : List UInt8} (single : newline ∉ line)
      (later : Layout rest) : Layout (line ++ newline :: rest)

theorem layout_cons (char : UInt8) {text : List UInt8}
    (layout : Layout text) : Layout (char :: text) := by
  by_cases ends : char = newline
  · subst ends
    exact Layout.more List.not_mem_nil layout
  · cases layout with
    | empty => exact .last (by simp) (by simpa using Ne.symm ends)
    | last some_ single =>
        exact .last (by simp) (by simp [Ne.symm ends, single])
    | @more line rest single later =>
        rw [← List.cons_append]
        exact .more (by simp [Ne.symm ends, single]) later

theorem layout (text : List UInt8) : Layout text := by
  induction text with
  | nil => exact .empty
  | cons char text induction => exact layout_cons char induction

theorem readChars_append {room : Nat} {line : List UInt8}
    (rest : List UInt8) (single : newline ∉ line)
    (short : line.length < room) :
    readChars room (line ++ newline :: rest) = line := by
  induction line generalizing room with
  | nil =>
      obtain ⟨room, rfl⟩ := Nat.exists_eq_add_of_lt short
      simp [readChars]
  | cons char line induction =>
      obtain ⟨other, single⟩ := List.ne_and_not_mem_of_not_mem_cons single
      cases room with
      | zero => simp at short
      | succ room =>
          rw [List.cons_append, readChars, if_neg (Ne.symm other),
            induction single (by simpa using short)]

theorem readChars_single {room : Nat} {line : List UInt8}
    (single : newline ∉ line) (short : line.length ≤ room) :
    readChars room line = line := by
  induction line generalizing room with
  | nil => cases room <;> rfl
  | cons char line induction =>
      obtain ⟨other, single⟩ := List.ne_and_not_mem_of_not_mem_cons single
      cases room with
      | zero => simp at short
      | succ room =>
          rw [readChars, if_neg (Ne.symm other),
            induction single (by simpa using short)]

section Reading

variable {cfg : Sysconfig} {before line rest : List UInt8}

theorem readLine_at {offset room : Nat} (inside : offset < cfg.text.length) :
    syscfgReadLine (cfg.seek offset) room =
      let line := readChars (room - 1) (cfg.text.drop offset)
      let stop := (cfg.text.drop offset).getD line.length cfg.behind
      .value (line, cfg.seek
        (offset + line.length + if stop = newline then 1 else 0)) := by
  have more : ¬((offset : Int) = cfg.text.length) := by omega
  have within : ¬((cfg.text.length : Int) < offset ∨
      (offset : Int) < -1) := by omega
  have positive : ¬(offset : Int) < 0 := by omega
  have bytes : (cfg.seek offset).rest = cfg.text.drop offset := by
    rw [Sysconfig.rest]
    exact if_neg positive
  rw [syscfgReadLine, bytes]
  exact (if_neg more).trans (if_neg within)

theorem readLine_more
    (text : cfg.text = before ++ (line ++ newline :: rest))
    (single : newline ∉ line) (short : line.length < lineLen - 1) :
    syscfgReadLine (cfg.seek before.length) lineLen =
      .value (line, cfg.seek (before.length + line.length + 1)) := by
  have inside : before.length < cfg.text.length := by
    simp only [text, List.length_append, List.length_cons]
    omega
  rw [readLine_at inside]
  simp [text, readChars_append rest single short]

theorem readLine_last (text : cfg.text = before ++ line)
    (some_ : line ≠ []) (single : newline ∉ line)
    (short : line.length < lineLen - 1) :
    syscfgReadLine (cfg.seek before.length) lineLen =
      .value (line, cfg.seek (before.length + line.length +
        if cfg.behind = newline then 1 else 0)) := by
  have inside : before.length < cfg.text.length := by
    simp [text, List.length_pos_iff, some_]
  rw [readLine_at inside]
  simp [text, readChars_single single (Nat.le_of_lt short)]

/-- At the end of the text there is no line, and behind it the code leaves what
is modelled. -/
theorem readLine_end (cfg : Sysconfig) :
    syscfgReadLine (cfg.seek cfg.text.length) lineLen = .noData :=
  if_pos rfl

theorem readLine_behind (cfg : Sysconfig) :
    syscfgReadLine (cfg.seek (cfg.text.length + 1)) lineLen = .outside := by
  have more : ¬((cfg.text.length : Int) + 1 = cfg.text.length) := by omega
  have beyond : (cfg.text.length : Int) < cfg.text.length + 1 ∨
      (cfg.text.length : Int) + 1 < -1 := by omega
  rw [syscfgReadLine]
  exact (if_neg more).trans (if_pos beyond)

theorem cString_of_no_zero {bytes : List UInt8} (string : 0 ∉ bytes) :
    cString bytes = bytes := by
  rw [cString, List.takeWhile_eq_self_iff]
  intro char member
  have other : char ≠ 0 := by
    rintro rfl
    exact string member
  simpa using other

end Reading

theorem endsLine_append (line rest : List UInt8) :
    endsLine (line ++ newline :: rest) ↔ endsLine rest := by
  cases rest with
  | nil => simp [endsLine]
  | cons char rest => simp [endsLine, List.getLast?_append]

theorem not_endsLine {line : List UInt8} (some_ : line ≠ [])
    (single : newline ∉ line) : ¬endsLine line := by
  rintro (empty | last)
  · exact some_ empty
  · exact single (List.mem_of_getLast? last)

/-- What `search_attr` comes to when the first line it takes is known. -/
def searchAnswer (cfg : Sysconfig) (rest : List UInt8) :
    Option (Nat × List UInt8) → Answer (Nat × Sysconfig)
  | none =>
      if endsLine rest ∨ cfg.behind ≠ newline then .noData else .outside
  | some (offset, line) =>
      .value (line.length, cfg.seek (offset + line.length +
        if offset + line.length < cfg.text.length ∨ cfg.behind = newline
          then 1 else 0))

/-- The search in a last line that no newline ends.  Behind it the search is at
the end of the text, or behind the byte that follows it. -/
theorem searchAttr_last {cfg : Sysconfig} {attr before line : List UInt8}
    {lines : Nat} (text : cfg.text = before ++ line) (string : 0 ∉ line)
    (some_ : line ≠ []) (single : newline ∉ line)
    (short : line.length < lineLen - 1) (enough : line.length < lines) :
    searchAttr attr lines (cfg.seek before.length) =
      searchAnswer cfg line
        (firstLine (isAttrString attr) before.length [line]) := by
  have read := readLine_last text some_ single short
  have total : cfg.text.length = before.length + line.length := by
    simp [text]
  obtain ⟨lines, rfl⟩ : ∃ more, lines = more + 2 := by
    have positive := List.length_pos_iff.mpr some_
    exact ⟨lines - 2, by omega⟩
  rw [searchAttr, read]
  simp only [cString_of_no_zero string, firstLine]
  split
  · simp [searchAnswer, total]
  · rw [searchAttr]
    by_cases follows : cfg.behind = newline
    · have place : (before.length : Int) + line.length + 1 =
          cfg.text.length + 1 := by
        omega
      rw [if_pos follows, place, readLine_behind]
      simp [searchAnswer, not_endsLine some_ single, follows]
    · have place : (before.length : Int) + line.length + 0 =
          cfg.text.length := by
        omega
      rw [if_neg follows, place, readLine_end]
      simp [searchAnswer, follows]

theorem searchAttr_eq {cfg : Sysconfig} {attr before rest : List UInt8}
    {lines : Nat} (text : cfg.text = before ++ rest) (string : 0 ∉ rest)
    (short : ∀ line ∈ linesOf rest, line.length < lineLen - 1)
    (enough : rest.length < lines) :
    searchAttr attr lines (cfg.seek before.length) =
      searchAnswer cfg rest
        (firstLine (isAttrString attr) before.length (linesOf rest)) := by
  induction layout rest generalizing before lines with
  | empty =>
      obtain ⟨lines, rfl⟩ := Nat.exists_eq_add_of_lt enough
      have atEnd : before.length = cfg.text.length := by simp [text]
      rw [searchAttr, atEnd, readLine_end]
      simp [linesOf, firstLine, searchAnswer, endsLine]
  | @last line some_ single =>
      rw [linesOf_single single some_] at short ⊢
      exact searchAttr_last text string some_ single
        (short line List.mem_cons_self) enough
  | @more line rest single later induction =>
      rw [linesOf_append rest single] at short ⊢
      have read := readLine_more text single
        (short line List.mem_cons_self)
      obtain ⟨lines, rfl⟩ := Nat.exists_eq_add_of_lt enough
      have here : cString line = line :=
        cString_of_no_zero fun member => string (by simp [member])
      have parts : cfg.text = before ++ line ++ [newline] ++ rest := by
        simp [text]
      have total : before.length + line.length < cfg.text.length := by
        simp only [parts, List.length_append, List.length_cons]
        omega
      rw [searchAttr, read]
      simp only [here, firstLine]
      split
      · simp [searchAnswer, total]
      · have place : (before.length : Int) + line.length + 1 =
            (before ++ line ++ [newline]).length := by
          simp only [List.length_append, List.length_cons, List.length_nil]
          omega
        have fuel : rest.length <
            (line ++ newline :: rest).length + lines := by
          simp only [List.length_append, List.length_cons]
          omega
        have next := induction parts
          (fun member => string (by simp [member]))
          (fun other member => short other (List.mem_cons_of_mem _ member))
          fuel
        rw [place, next]
        simp [searchAnswer, endsLine_append, Nat.add_assoc]

/-- A line found lies in the text between two line ends. -/
structure LineAt (text : List UInt8) (offset : Nat) (line : List UInt8) :
    Prop where
  parts : ∃ before rest, text = before ++ line ++ rest ∧
    before.length = offset ∧ (before = [] ∨ before.getLast? = some newline) ∧
    (rest = [] ∧ line ≠ [] ∨ rest.head? = some newline)
  single : newline ∉ line

theorem LineAt.no_zero {text line : List UInt8} {offset : Nat}
    (here : LineAt text offset line) (string : 0 ∉ text) : 0 ∉ line := by
  obtain ⟨before, rest, rfl, -⟩ := here.parts
  intro member
  exact string (by simp [member])

theorem LineAt.offset_le {text line : List UInt8} {offset : Nat}
    (here : LineAt text offset line) : offset ≤ text.length := by
  obtain ⟨before, rest, rfl, rfl, -⟩ := here.parts
  simp only [List.length_append]
  omega

theorem lineAt_of_firstLine {accepts : List UInt8 → Bool}
    {text before rest : List UInt8} {found : Nat × List UInt8}
    (parts : text = before ++ rest)
    (starts : before = [] ∨ before.getLast? = some newline)
    (first : firstLine accepts before.length (linesOf rest) = some found) :
    LineAt text found.1 found.2 := by
  induction layout rest generalizing before with
  | empty => simp [linesOf, firstLine] at first
  | @last line some_ single =>
      rw [linesOf_single single some_] at first
      simp only [firstLine] at first
      split at first
      · obtain rfl := Option.some.inj first
        exact ⟨⟨before, [], by simp [parts], rfl, starts, .inl ⟨rfl, some_⟩⟩,
          single⟩
      · cases first
  | @more line rest single later induction =>
      rw [linesOf_append rest single] at first
      simp only [firstLine] at first
      split at first
      · obtain rfl := Option.some.inj first
        exact ⟨⟨before, newline :: rest, by simp [parts], rfl, starts,
          .inr rfl⟩, single⟩
      · have place : before.length + line.length + 1 =
            (before ++ line ++ [newline]).length := by
          simp only [List.length_append, List.length_cons, List.length_nil]
        rw [place] at first
        exact induction (by simp [parts]) (.inr (by simp)) first

theorem firstLine_accepts {accepts : List UInt8 → Bool} {offset : Nat}
    {lines : List (List UInt8)} {found : Nat × List UInt8}
    (first : firstLine accepts offset lines = some found) :
    accepts found.2 = true ∧ found.2 ∈ lines ∧ offset ≤ found.1 := by
  induction lines generalizing offset with
  | nil => cases first
  | cons line lines induction =>
      rw [firstLine] at first
      split at first
      · rename_i accepted
        obtain rfl := Option.some.inj first
        exact ⟨accepted, List.mem_cons_self, Nat.le_refl _⟩
      · obtain ⟨accepted, member, above⟩ := induction first
        exact ⟨accepted, List.mem_cons_of_mem _ member, by omega⟩

/-- The first line with a weaker property is the same line or ends before the
other one starts. -/
theorem firstLine_weaker {weak strong : List UInt8 → Bool} {offset : Nat}
    {lines : List (List UInt8)} {found : Nat × List UInt8}
    (weaker : ∀ line, strong line = true → weak line = true)
    (second : firstLine strong offset lines = some found) :
    ∃ early, firstLine weak offset lines = some early ∧
      (early = found ∨ early.1 + early.2.length < found.1) := by
  induction lines generalizing offset with
  | nil => cases second
  | cons line lines induction =>
      rw [firstLine] at second ⊢
      split at second
      · rename_i accepted
        obtain rfl := Option.some.inj second
        exact ⟨(offset, line), if_pos (weaker line accepted), .inl rfl⟩
      · by_cases accepted : weak line = true
        · obtain ⟨-, -, above⟩ := firstLine_accepts second
          exact ⟨(offset, line), if_pos accepted, .inr (by simp; omega)⟩
        · obtain ⟨early, first, order⟩ := induction second
          exact ⟨early, by rw [if_neg accepted, first], order⟩

/-- A line with a key is the key, blanks, `=` and a rest. -/
theorem line_of_isKeyLine {attr line : List UInt8}
    (key : isKeyLine attr line = true) :
    ∃ blanks rest, line = attr ++ blanks ++ equals :: rest ∧
      (∀ char ∈ attr, inKey char = true) ∧ ∀ char ∈ blanks, char = blank := by
  have known : keyOf line = some attr := by simpa [isKeyLine] using key
  unfold keyOf at known
  split at known
  · rename_i follows
    obtain rfl := Option.some.inj known
    obtain ⟨rest, behind⟩ := List.head?_eq_some_iff.mp follows
    refine ⟨(line.dropWhile inKey).takeWhile (· == blank), rest, ?_, ?_, ?_⟩
    · rw [← behind, List.append_assoc, List.takeWhile_append_dropWhile,
        List.takeWhile_append_dropWhile]
    · intro char member
      exact List.mem_takeWhile_imp member
    · intro char member
      simpa using List.mem_takeWhile_imp member
  · cases known

theorem isAttrString_of_isKeyLine {attr line : List UInt8}
    (some_ : attr ≠ []) (key : isKeyLine attr line = true) :
    isAttrString attr line = true := by
  obtain ⟨blanks, rest, rfl, -, isBlank⟩ := line_of_isKeyLine key
  have here : attrAt attr (attr ++ blanks ++ equals :: rest) = true := by
    have next : (attr ++ blanks ++ equals :: rest).getD attr.length 0 =
        blank ∨ (attr ++ blanks ++ equals :: rest).getD attr.length 0 =
          equals := by
      cases blanks with
      | nil => simp
      | cons char blanks => simp [isBlank char List.mem_cons_self]
    simpa [attrAt, some_] using next
  cases attr with
  | nil => exact absurd rfl some_
  | cons char attr =>
      simp only [List.cons_append] at here ⊢
      rw [isAttrString, here, Bool.true_or]

theorem isAttrString_nil (line : List UInt8) :
    isAttrString [] line = false := by
  induction line with
  | nil => rfl
  | cons char line induction => simp [isAttrString, attrAt, induction]

theorem firstLine_none {accepts : List UInt8 → Bool}
    (refuses : ∀ line, accepts line = false) (offset : Nat)
    (lines : List (List UInt8)) : firstLine accepts offset lines = none := by
  induction lines generalizing offset with
  | nil => rfl
  | cons line lines induction => simp [firstLine, refuses, induction]

/-- A byte in front of a line shifts its value, unless it is `=`. -/
theorem valueStart_cons {char : UInt8} (line : List UInt8)
    (other : char ≠ equals) :
    valueStart (char :: line) = (valueStart line).map (· + 1) := by
  by_cases present : equals ∈ line
  · have later : equals ∈ char :: line := List.mem_cons_of_mem _ present
    have shifted : ∀ start : Nat,
        (char :: line).getD (start + 1) 0 = line.getD start 0 := by
      intro start
      simp
    simp only [valueStart, if_pos present, if_pos later,
      List.idxOf_cons_ne _ other, Nat.succ_eq_add_one, List.drop_succ_cons]
    rw [Nat.add_right_comm _ 1, shifted]
    split <;> rfl
  · have absent : equals ∉ char :: line := by
      simpa [present] using Ne.symm other
    simp [valueStart, present, absent]

/-- The value of a line starts behind its first `=` and inside of the line. -/
theorem valueStart_bounds {line : List UInt8} {start : Nat}
    (known : valueStart line = some start) :
    line.idxOf equals < start ∧ start ≤ line.length := by
  unfold valueStart at known
  split at known
  · rename_i present
    have inside := List.idxOf_lt_length_of_mem present
    have blanks := (List.takeWhile_sublist (· == blank)
      (l := line.drop (line.idxOf equals + 1))).length_le
    rw [List.length_drop] at blanks
    simp only at known
    split at known
    · rename_i quoted
      obtain rfl := Option.some.inj known
      have before : line.idxOf equals + 1 +
          ((line.drop (line.idxOf equals + 1)).takeWhile
            (· == blank)).length < line.length := by
        by_contra beyond
        rw [List.getD_eq_getElem?_getD, List.getElem?_eq_none (by omega)]
          at quoted
        exact absurd quoted (by decide)
      omega
    · obtain rfl := Option.some.inj known
      omega
  · cases known

section Lookup

variable {cfg : Sysconfig} {attr line : List UInt8} {offset : Nat}

theorem readLine_again (here : LineAt cfg.text offset line)
    (short : line.length < lineLen - 1) :
    ∃ next, syscfgReadLine (cfg.seek offset) lineLen =
      .value (line, next) := by
  obtain ⟨before, rest, text, rfl, -, stops⟩ := here.parts
  rcases stops with ⟨rfl, some_⟩ | stops
  · rw [List.append_nil] at text
    exact ⟨_, readLine_last text some_ here.single short⟩
  · obtain ⟨more, rfl⟩ := List.head?_eq_some_iff.mp stops
    rw [List.append_assoc] at text
    exact ⟨_, readLine_more text here.single short⟩

theorem readLine_early (here : LineAt cfg.text (offset + 1) line) :
    ∃ next, syscfgReadLine (cfg.seek offset) lineLen =
      .value ([], next) := by
  obtain ⟨before, rest, text, length, starts, -⟩ := here.parts
  rcases starts with rfl | starts
  · simp at length
  · obtain ⟨front, rfl⟩ := List.getLast?_eq_some_iff.mp starts
    have place : front.length = offset := by simpa using length
    have shape : cfg.text = front ++ ([] ++ newline :: (line ++ rest)) := by
      simp [text]
    rw [← place]
    exact ⟨_, readLine_more shape List.not_mem_nil (by decide)⟩

theorem readLine_start (cfg : Sysconfig) :
    ∃ next, syscfgReadLine (cfg.seek (-1)) lineLen =
      .value (readChars (lineLen - 1) (cfg.before :: cfg.text), next) := by
  have more : ¬((-1 : Int) = cfg.text.length) := by omega
  have within : ¬((cfg.text.length : Int) < -1 ∨ (-1 : Int) < -1) := by
    omega
  have bytes : (cfg.seek (-1)).rest = cfg.before :: cfg.text := if_pos (by
    simp [Sysconfig.seek])
  rw [syscfgReadLine, bytes]
  exact ⟨_, (if_neg more).trans (if_neg within)⟩

theorem readLine_before (single : newline ∉ cfg.text)
    (short : cfg.text.length < lineLen - 1) :
    ∃ next, syscfgReadLine (cfg.seek (-1)) lineLen =
      .value (if cfg.before = newline then [] else cfg.before :: cfg.text,
        next) := by
  have read : readChars (lineLen - 1) (cfg.before :: cfg.text) =
      if cfg.before = newline then [] else cfg.before :: cfg.text := by
    split
    · rename_i ends
      rw [ends]
      rfl
    · rename_i other
      exact readChars_single (by simpa [single] using Ne.symm other)
        (Nat.succ_le_of_lt short)
  rw [← read]
  exact readLine_start cfg

theorem readValue_of_read {place start : Int} {length : Nat}
    {next : Sysconfig} (back : place - (length + 1) = start)
    (read : syscfgReadLine (cfg.seek start) lineLen = .value (line, next)) :
    readValue length (cfg.seek place) =
      extractValue start (cString line) := by
  have again : (cfg.seek place).seek (place - (length + 1)) =
      cfg.seek start := by
    rw [back]
    rfl
  have read' : syscfgReadLine ((cfg.seek place).seek
      ((cfg.seek place).offset - (length + 1))) lineLen =
        .value (line, next) := by
    rw [← read, ← again]
    rfl
  rw [readValue, read']
  exact congrArg (extractValue · (cString line)) back

theorem readValue_counted (here : LineAt cfg.text offset line)
    (string : 0 ∉ line) (short : line.length < lineLen - 1) :
    readValue line.length (cfg.seek (offset + line.length + 1)) =
      extractValue offset line := by
  obtain ⟨next, read⟩ := readLine_again here short
  rw [readValue_of_read (by omega) read, cString_of_no_zero string]

theorem extractValue_nil (start : Int) :
    extractValue start [] = .outside :=
  rfl

/-- Reading the last line again without its end. -/
theorem readValue_uncounted (here : LineAt cfg.text offset line)
    (string : 0 ∉ line) (short : line.length < lineLen - 1)
    (last : ¬offset + line.length < cfg.text.length) :
    readValue line.length (cfg.seek (offset + line.length + 0)) =
      if offset = 0 ∧ cfg.before ≠ newline ∧ cfg.before ≠ 0 then
        extractValue (-1) (cfg.before :: line)
      else .outside := by
  obtain ⟨before, rest, text, length, -, -⟩ := here.parts
  have ended : rest = [] := by
    apply List.length_eq_zero_iff.mp
    simp only [text, List.length_append] at last
    omega
  cases offset with
  | succ offset =>
      obtain ⟨next, read⟩ := readLine_early here
      rw [readValue_of_read (by omega) read, if_neg (by omega)]
      rfl
  | zero =>
      have whole : cfg.text = line := by
        rw [text, ended, List.length_eq_zero_iff.mp length]
        simp
      obtain ⟨next, read⟩ := readLine_before
        (by rw [whole]; exact here.single) (by rw [whole]; exact short)
      rw [readValue_of_read (by omega) read, whole]
      by_cases ends : cfg.before = newline
      · simp [ends, cString, extractValue_nil]
      · by_cases stops : cfg.before = 0
        · rw [if_neg ends, if_neg (by simp [stops])]
          simp [stops, cString, extractValue_nil]
        · rw [if_neg ends, if_pos ⟨rfl, ends, stops⟩,
            cString_of_no_zero (by simpa [string] using Ne.symm stops)]

end Lookup

/-- What `conf_get_attr` comes to when the first line it takes is known. -/
theorem confGetAttr_eq {cfg : Sysconfig} {attr : List UInt8}
    (string : 0 ∉ cfg.text)
    (short : ∀ line ∈ linesOf cfg.text, line.length < lineLen - 1) :
    confGetAttr cfg attr =
      match hitLine attr cfg.text with
      | none =>
          if endsLine cfg.text ∨ cfg.behind ≠ newline then .noData
          else .outside
      | some (offset, line) =>
          if offset + line.length < cfg.text.length ∨ cfg.behind = newline
          then extractValue offset line
          else if offset = 0 ∧ cfg.before ≠ newline ∧ cfg.before ≠ 0 then
            extractValue (-1) (cfg.before :: line)
          else .outside := by
  have search : searchAttr attr (cfg.text.length + 2) (cfg.seek 0) =
      searchAnswer cfg cfg.text (hitLine attr cfg.text) :=
    searchAttr_eq (List.nil_append cfg.text).symm string short (by omega)
  rw [confGetAttr, search]
  cases hit : hitLine attr cfg.text with
  | none =>
      simp only [searchAnswer]
      by_cases fine : endsLine cfg.text ∨ cfg.behind ≠ newline
      · rw [if_pos fine, if_pos fine]
      · rw [if_neg fine, if_neg fine]
  | some found =>
      obtain ⟨offset, line⟩ := found
      have here : LineAt cfg.text offset line :=
        lineAt_of_firstLine (List.nil_append cfg.text).symm (.inl rfl) hit
      obtain ⟨-, member, -⟩ := firstLine_accepts hit
      have fits := short line member
      have clean : 0 ∉ line := here.no_zero string
      simp only [searchAnswer]
      by_cases counted : offset + line.length < cfg.text.length ∨
          cfg.behind = newline
      · rw [if_pos counted, if_pos counted]
        exact readValue_counted here clean fits
      · rw [if_neg counted, if_neg counted]
        exact readValue_uncounted here clean fits
          fun inside => counted (.inl inside)

theorem valueStart_of_isKeyLine {attr line : List UInt8}
    (key : isKeyLine attr line = true) :
    ∃ start, valueStart line = some start ∧ attr.length < start := by
  obtain ⟨blanks, rest, rfl, inside, isBlank⟩ := line_of_isKeyLine key
  have absent : equals ∉ attr ++ blanks := by
    intro member
    rcases List.mem_append.mp member with early | late
    · exact absurd (inside equals early) (by decide)
    · exact absurd (isBlank equals late) (by decide)
  have position : (attr ++ blanks ++ equals :: rest).idxOf equals =
      (attr ++ blanks).length := by
    rw [List.idxOf_append_of_notMem absent]
    simp
  have present : equals ∈ attr ++ blanks ++ equals :: rest := by simp
  obtain ⟨start, known⟩ : ∃ start,
      valueStart (attr ++ blanks ++ equals :: rest) = some start := by
    unfold valueStart
    rw [if_pos present]
    simp only
    split
    · exact ⟨_, rfl⟩
    · exact ⟨_, rfl⟩
  have bounds := valueStart_bounds known
  rw [position, List.length_append] at bounds
  exact ⟨start, known, by omega⟩

/-- With `=` in front of it, a key line is taken for its own value. -/
theorem valueStart_equals_cons {attr line : List UInt8} {start : Nat}
    (some_ : attr ≠ []) (key : isKeyLine attr line = true)
    (known : valueStart (equals :: line) = some start) :
    start ≤ attr.length + 1 := by
  obtain ⟨blanks, rest, rfl, inside, -⟩ := line_of_isKeyLine key
  cases attr with
  | nil => exact absurd rfl some_
  | cons char attr =>
      have notBlank : char ≠ blank := by
        have allowed := inside char List.mem_cons_self
        simp only [inKey, Bool.and_eq_true, bne_iff_ne] at allowed
        exact allowed.1
      simp [valueStart, notBlank] at known
      simp only [List.length_cons]
      split at known
      · obtain rfl := Option.some.inj known
        omega
      · obtain rfl := Option.some.inj known
        omega

theorem extractValue_ne_noData (offset : Int) (line : List UInt8) :
    extractValue offset line ≠ .noData := by
  unfold extractValue
  split <;> simp

theorem extractValue_of_valueStart {line : List UInt8} {start : Nat}
    (offset : Int) (known : valueStart line = some start) :
    extractValue offset line = .value (offset + start, line.drop start) := by
  rw [extractValue, known]

/-- The first line whose key is the name is taken where it ends as the code
assumes, or where the byte before it does no harm. -/
theorem lookup_keyLine_iff {cfg : Sysconfig} {attr line : List UInt8}
    {offset : Nat} (some_ : attr ≠ []) (key : isKeyLine attr line = true) :
    (∃ start, valueStart line = some start ∧
      (if offset + line.length < cfg.text.length ∨ cfg.behind = newline
        then extractValue offset line
        else if offset = 0 ∧ cfg.before ≠ newline ∧ cfg.before ≠ 0 then
          extractValue (-1) (cfg.before :: line)
        else .outside) = .value (offset + start, line.drop start)) ↔
      Rewinds cfg offset line := by
  obtain ⟨start, known, behind⟩ := valueStart_of_isKeyLine key
  unfold Rewinds
  by_cases counted : offset + line.length < cfg.text.length ∨
      cfg.behind = newline
  · rw [if_pos counted, extractValue_of_valueStart _ known]
    exact ⟨fun _ => counted.elim .inl (.inr ∘ .inl), fun _ =>
      ⟨start, known, rfl⟩⟩
  · rw [if_neg counted]
    obtain ⟨last, other⟩ := not_or.mp counted
    by_cases first : offset = 0 ∧ cfg.before ≠ newline ∧ cfg.before ≠ 0
    · obtain ⟨rfl, notNewline, notZero⟩ := first
      rw [if_pos ⟨rfl, notNewline, notZero⟩]
      by_cases sign : cfg.before = equals
      · constructor
        · rintro ⟨_, known', value⟩
          obtain rfl := Option.some.inj (known.symm.trans known')
          unfold extractValue at value
          split at value
          · cases value
          · rename_i early knownEarly
            rw [sign] at knownEarly
            have bound := valueStart_equals_cons some_ key knownEarly
            obtain ⟨place, -⟩ := Prod.mk.inj (Answer.value.inj value)
            omega
        · rintro (inside | follows | ⟨-, -, -, harmless⟩)
          · exact absurd inside last
          · exact absurd follows other
          · exact absurd sign harmless
      · have shifted : valueStart (cfg.before :: line) =
            some (start + 1) := by
          rw [valueStart_cons line sign, known]
          rfl
        rw [extractValue_of_valueStart _ shifted]
        refine ⟨fun _ => .inr (.inr ⟨rfl, notNewline, notZero, sign⟩),
          fun _ => ⟨start, known, ?_⟩⟩
        have place : (-1 : Int) + ((start + 1 : Nat) : Int) =
            ((0 : Nat) : Int) + (start : Int) := by omega
        rw [place, List.drop_succ_cons]
    · rw [if_neg first]
      constructor
      · rintro ⟨_, _, absurd⟩
        cases absurd
      · rintro (inside | follows | ⟨rfl, notNewline, notZero, -⟩)
        · exact absurd inside last
        · exact absurd follows other
        · exact absurd ⟨rfl, notNewline, notZero⟩ first

/-- The lookup picks the right line if and only if no other line is taken for
it and the offset behind the line is what the code assumes. -/
theorem conf_get_attr_picksLine_iff (cfg : Sysconfig) (attr : List UInt8)
    (string : 0 ∉ cfg.text)
    (short : ∀ line ∈ linesOf cfg.text, line.length < lineLen - 1) :
    PicksLine cfg attr ↔ Plain cfg attr := by
  unfold PicksLine Plain
  rw [confGetAttr_eq string short]
  cases key : keyLine attr cfg.text with
  | none =>
      cases hit : hitLine attr cfg.text with
      | none => simp [or_iff_not_imp_left]
      | some found =>
          obtain ⟨offset, line⟩ := found
          simp only [reduceCtorEq, false_and, iff_false]
          split
          · exact extractValue_ne_noData _ _
          · split
            · exact extractValue_ne_noData _ _
            · simp
  | some right =>
      obtain ⟨offset, line⟩ := right
      obtain ⟨isKey, -, -⟩ := firstLine_accepts key
      by_cases some_ : attr = []
      · subst some_
        have never : hitLine [] cfg.text = none :=
          firstLine_none isAttrString_nil 0 _
        simp only [never, reduceCtorEq, false_and, iff_false]
        rintro ⟨start, -, value⟩
        split at value <;> cases value
      · obtain ⟨early, hit, order⟩ := firstLine_weaker
          (fun other => isAttrString_of_isKeyLine some_) key
        have hit' : hitLine attr cfg.text = some early := hit
        rw [hit']
        rcases order with rfl | before
        · simpa using lookup_keyLine_iff some_ isKey
        · obtain ⟨place, other⟩ := early
          have inside : place + other.length < cfg.text.length := by
            have here : LineAt cfg.text offset line := lineAt_of_firstLine
              (List.nil_append cfg.text).symm (.inl rfl) key
            have bound := here.offset_le
            simp only at before
            omega
          have different : (place, other) ≠ (offset, line) := by
            rintro same
            obtain ⟨rfl, rfl⟩ := Prod.mk.inj same
            simp only at before
            omega
          simp only [Option.some.injEq, different, false_and, iff_false]
          rintro ⟨start, -, value⟩
          rw [if_pos (.inl inside)] at value
          unfold extractValue at value
          split at value
          · cases value
          · rename_i found known
            have bounds := valueStart_bounds known
            obtain ⟨same, -⟩ := Prod.mk.inj (Answer.value.inj value)
            simp only at before
            omega

/-- The line `ip=1` with its newline. -/
theorem conf_get_attr_picksLine_address :
    PicksLine ⟨[0x69, 0x70, 0x3d, 0x31, 0x0a], 0, 0, 0⟩ [0x69, 0x70] :=
  (conf_get_attr_picksLine_iff
    ⟨[0x69, 0x70, 0x3d, 0x31, 0x0a], 0, 0, 0⟩ [0x69, 0x70] (by decide)
    (by decide)).mpr ⟨by decide, .inl (by decide)⟩

/-- In `a=ip 2`, `ip=1` the first line is taken, for the name occurs in its
value. -/
theorem conf_get_attr_not_picksLine_value :
    ¬PicksLine ⟨[0x61, 0x3d, 0x69, 0x70, 0x20, 0x32, 0x0a, 0x69, 0x70, 0x3d,
      0x31, 0x0a], 0, 0, 0⟩ [0x69, 0x70] := by
  rintro ⟨start, known, value⟩
  have three : valueStart [0x69, 0x70, 0x3d, 0x31] = some 3 := by decide
  obtain rfl := Option.some.inj (three.symm.trans known)
  exact absurd value (by decide)

end Witos.Core
