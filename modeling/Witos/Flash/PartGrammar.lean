import Mathlib.Data.List.TakeWhile
import Witos.Flash.PartValid

/-!
# The grammar of partition definitions

The comment above `flash_parse_part` describes a definition as parts
`<size>[@offset][(name)][ro]` with commas between them.  A text that keeps to
these fields is accepted just where every part is as documented and begins
inside of the chip.  Not looked at are texts that the fields do not describe:
those with an empty or missing field, and those that do not fit in the arrays.
-/

namespace Witos.Flash

open Library Extra

/-- `<partdef>`.  The size is missing for `-`. -/
structure PartDef where
  size : Option (List UInt8)
  offset : Option (List UInt8)
  name : Option (List UInt8)
  readOnly : Bool

def spellSize : Option (List UInt8) → List UInt8
  | none => [dash]
  | some digits => digits

def spellOffset : Option (List UInt8) → List UInt8
  | none => []
  | some digits => atSign :: digits

def spellName : Option (List UInt8) → List UInt8
  | none => []
  | some name => openBracket :: (name ++ [closeBracket])

def spellReadOnly : Bool → List UInt8
  | false => []
  | true => [letterR, letterO]

def PartDef.spell (part : PartDef) : List UInt8 :=
  spellSize part.size ++ (spellOffset part.offset ++
    (spellName part.name ++ spellReadOnly part.readOnly))

/-- The item that it is read as. -/
def PartDef.item (part : PartDef) : Item :=
  ⟨part.size, part.offset, some (part.name.getD []), some part.readOnly⟩

/-- A memsize: digits and units that `hr_str_to_val` takes. -/
def IsMemsize (text : List UInt8) : Prop :=
  text ≠ [] ∧ hrStrToVal text ≠ none

structure PartDef.Documented (part : PartDef) : Prop where
  size : ∀ text, part.size = some text → IsMemsize text
  offset : ∀ text, part.offset = some text → IsMemsize text
  name : ∀ text, part.name = some text → closeBracket ∉ text

/-- Parts with commas between them. -/
def spellParts : List PartDef → List UInt8
  | [] => []
  | [part] => part.spell
  | part :: parts => part.spell ++ comma :: spellParts parts

/-- The text behind the first colon. -/
def behindColon (partDef : List UInt8) : List UInt8 :=
  (partDef.dropWhile (· != colon)).tail

/-- The text behind the first colon, up to the next semicolon or the end, is a
list of documented parts. -/
structure Grammatical (partDef : List UInt8) (parts : List PartDef) :
    Prop where
  hasColon : colon ∈ partDef
  nonempty : parts ≠ []
  documented : ∀ part ∈ parts, part.Documented
  spelled : (behindColon partDef).takeWhile (· != semicolon) =
    spellParts parts

/-- A call is accepted when it returns a number of parts: `flash_register` takes
zero for a definition without parts. -/
def Outcome.Accepted (outcome : Outcome) (ret : Int)
    (table : List PartAttr) : Prop :=
  outcome = .returned ret table ∧ 0 < ret

/-- A part as it stands in a text, right or wrong: its fields are whatever
stands where they are expected.  The mark is the rest behind the name. -/
structure PartText where
  blanks : Nat
  size : Option (List UInt8)
  offset : Option (List UInt8)
  name : Option (List UInt8)
  mark : List UInt8

def PartText.spell (part : PartText) : List UInt8 :=
  List.replicate part.blanks blank ++ (spellSize part.size ++
    (spellOffset part.offset ++ (spellName part.name ++ part.mark)))

def spellTexts : List PartText → List UInt8
  | [] => []
  | [part] => part.spell
  | part :: parts => part.spell ++ comma :: spellTexts parts

/-- A field for a number: some text without the characters that end it, which
fits in the buffer. -/
structure NumberField (stops text : List UInt8) : Prop where
  nonempty : text ≠ []
  fits : text.length < buffSize
  inner : ∀ char ∈ text, char ∉ semicolon :: stops

/-- Where a flag should stand there is nothing, the flag `ro` or an `r` that is
none. -/
structure MarkField (mark : List UInt8) : Prop where
  starts : mark ≠ [] → mark.head? = some letterR
  ends : mark.tail.head? = some letterO → mark.tail.tail = []

/-- The fields are there and fit in the arrays, with whatever is in them. -/
structure PartText.Orderly (part : PartText) : Prop where
  size : ∀ text, part.size = some text →
    NumberField sizeStops text ∧ text.head? ≠ some dash ∧
      text.head? ≠ some blank
  offset : ∀ text, part.offset = some text → NumberField baseStops text
  name : ∀ text, part.name = some text →
    closeBracket ∉ text ∧ text.length < labelNameSize
  mark : MarkField part.mark

/-- The last field is a number. -/
def PartText.NumberLast (part : PartText) : Prop :=
  (part.size ≠ none ∨ part.offset ≠ none) ∧ part.name = none ∧
    part.mark = []

/-- The text behind the first colon, up to the next semicolon or the end, is a
list of such parts that fits in the table.  No semicolon stands behind a
number. -/
structure Orderly (partDef : List UInt8) (parts : List PartText) : Prop where
  hasColon : colon ∈ partDef
  few : parts.length ≤ maxFlashParts
  orderly : ∀ part ∈ parts, part.Orderly
  spelled : (behindColon partDef).takeWhile (· != semicolon) =
    spellTexts parts
  last : ∀ part, parts.getLast? = some part → part.NumberLast →
    semicolon ∉ behindColon partDef

/-- A documented part as it may stand in a text: behind blanks. -/
def PartDef.behind (part : PartDef) (blanks : Nat) : PartText :=
  ⟨blanks, part.size, part.offset, part.name, spellReadOnly part.readOnly⟩

def PartText.Documented (text : PartText) : Prop :=
  ∃ part : PartDef, part.Documented ∧ text = part.behind text.blanks

/-- The flag that is read, if it is none but `ro`. -/
def markOf (mark : List UInt8) : Option Bool :=
  if mark = [] then some false
  else if mark.tail.head? = some letterO then some true
  else none

/-- The item that it is read as. -/
def PartText.item (part : PartText) : Item :=
  ⟨part.size, part.offset, some (part.name.getD []), markOf part.mark⟩

/-- The items that a definition is read as. -/
def itemsOf (partDef : List UInt8) : List Item :=
  readItems ((behindColon partDef).length + 1) (behindColon partDef)

section Layout

variable (geometry : Geometry)

/-- Every item begins inside of the chip when it is laid behind the one before.
Positions are those of the code. -/
def Begins : List Item → Nat → Prop
  | [], _ => True
  | item :: items, base =>
      base < geometry.chipSize ∧ Begins items
        ((item.start geometry base + item.extent geometry base) % 2 ^ 32)

/-- There are parts, they are as documented, and they begin in the chip. -/
structure InOrder (parts : List PartText) : Prop where
  nonempty : parts ≠ []
  documented : ∀ part ∈ parts, part.Documented
  begins : Begins geometry (parts.map PartText.item) 0

end Layout

/-- A digit or a unit. -/
def hrChar (char : UInt8) : Bool :=
  (0x30 ≤ char && char ≤ 0x39) || (hrUnit char).isSome

theorem hrLoop_chars {str : List UInt8} {mark : UInt8} {num tmp value : Nat}
    (result : hrLoop str mark num tmp = some value) :
    ∀ char ∈ str, hrChar char = true := by
  induction str generalizing mark num tmp with
  | nil =>
      intro char member
      cases member
  | cons first str induction =>
      unfold hrLoop at result
      intro char member
      split at result
      · rename_i digit
        rcases List.mem_cons.mp member with rfl | later
        · simp [hrChar, digit]
        · exact induction result char later
      · split at result
        · cases result
        · rename_i unit found
          split at result
          · cases result
          · rcases List.mem_cons.mp member with rfl | later
            · simp [hrChar, found]
            · exact induction result char later

theorem hrStrToVal_chars {text : List UInt8} (number : hrStrToVal text ≠ none) :
    ∀ char ∈ text, hrChar char = true := by
  obtain ⟨value, found⟩ := Option.ne_none_iff_exists'.mp number
  exact hrLoop_chars found

/-- All that the text may begin with. -/
def Starts (allowed text : List UInt8) : Prop :=
  ∀ char, text.head? = some char → char ∈ allowed

theorem Starts.mono {allowed more text : List UInt8}
    (starts : Starts allowed text) (subset : allowed ⊆ more) :
    Starts more text :=
  fun char head => subset (starts char head)

theorem Starts.ne {allowed text : List UInt8} (starts : Starts allowed text)
    {char : UInt8} (absent : char ∉ allowed) : text.head? ≠ some char :=
  fun head => absent (starts char head)

theorem Starts.cons {allowed text : List UInt8} {first : UInt8}
    (member : first ∈ allowed) : Starts allowed (first :: text) := by
  intro char head
  obtain rfl := Option.some.inj head
  exact member

theorem takeWhile_dropWhile_append {taken rest : List UInt8}
    {keep : UInt8 → Bool} (all : ∀ char ∈ taken, keep char = true)
    (stops : ∀ char, rest.head? = some char → keep char = false) :
    (taken ++ rest).takeWhile keep = taken ∧
      (taken ++ rest).dropWhile keep = rest := by
  rw [List.takeWhile_append_of_pos all, List.dropWhile_append_of_pos all]
  cases rest with
  | nil => simp
  | cons first rest =>
      have stop := stops first rfl
      simp [stop]

theorem NumberField.read {stops digits rest : List UInt8}
    (field : NumberField stops digits) (starts : Starts stops rest) :
    (digits ++ rest).takeWhile (!stops.contains ·) = digits ∧
      (digits ++ rest).dropWhile (!stops.contains ·) = rest := by
  apply takeWhile_dropWhile_append
  · intro char member
    have inner := field.inner char member
    rw [Bool.not_eq_true', Bool.eq_false_iff]
    intro listed
    apply inner
    exact List.mem_cons_of_mem _ (List.contains_iff_mem.mp listed)
  · intro char head
    rw [Bool.not_eq_false', List.contains_iff_mem]
    exact starts char head

section Spelled

variable {part : PartText} {rest : List UInt8}

theorem starts_mark {mark : List UInt8} (field : MarkField mark)
    (starts : Starts [comma, semicolon] rest) :
    Starts [letterR, comma, semicolon] (mark ++ rest) := by
  cases mark with
  | nil => exact starts.mono (by decide)
  | cons first mark =>
      have head := field.starts (List.cons_ne_nil first mark)
      obtain rfl := Option.some.inj head
      exact Starts.cons (by decide)

/-- The flag is read, and nothing behind it unless it is wrong. -/
theorem readMark_spell {mark : List UInt8} (field : MarkField mark)
    (starts : Starts [comma, semicolon] rest) :
    (readMark (mark ++ rest)).1 = markOf mark ∧
      (markOf mark ≠ none → (readMark (mark ++ rest)).2 = rest) := by
  cases mark with
  | nil =>
      have other : rest.head? ≠ some letterR := starts.ne (by decide)
      have read : readMark rest = (some false, rest) := if_neg other
      rw [List.nil_append, read]
      exact ⟨rfl, fun _ => rfl⟩
  | cons first mark =>
      have head := field.starts (List.cons_ne_nil first mark)
      obtain rfl := Option.some.inj head
      cases mark with
      | nil =>
          have other : rest.head? ≠ some letterO := starts.ne (by decide)
          have read : readMark (letterR :: rest) = (none, rest) := by
            rw [readMark, List.head?_cons, if_pos rfl, List.tail_cons]
            exact if_neg other
          rw [List.singleton_append, read]
          exact ⟨rfl, fun right => absurd rfl right⟩
      | cons second mark =>
          by_cases letter : second = letterO
          · obtain rfl := letter
            have nothing : mark = [] := field.ends rfl
            rw [nothing]
            exact ⟨rfl, fun _ => rfl⟩
          · have other : some second ≠ some letterO :=
              fun same => letter (Option.some.inj same)
            have read : readMark (letterR :: second :: mark ++ rest) =
                (none, second :: mark ++ rest) := by
              rw [List.cons_append, readMark, List.head?_cons, if_pos rfl,
                List.tail_cons]
              exact if_neg other
            have wrong : markOf (letterR :: second :: mark) = none := by
              rw [markOf, if_neg (List.cons_ne_nil _ _)]
              exact if_neg other
            rw [read, wrong]
            exact ⟨rfl, fun right => absurd rfl right⟩

theorem readLabel_spell {name : Option (List UInt8)}
    (closed : ∀ text, name = some text → closeBracket ∉ text)
    (starts : Starts [letterR, comma, semicolon] rest) :
    readLabel (spellName name ++ rest) = (some (name.getD []), rest) := by
  cases name with
  | none =>
      have other : rest.head? ≠ some openBracket := starts.ne (by decide)
      rw [readLabel]
      exact if_neg other
  | some text =>
      have inside : ∀ char ∈ text, (char != closeBracket) = true := by
        intro char member
        apply bne_iff_ne.mpr
        rintro rfl
        exact closed text rfl member
      have stops : ∀ char, (closeBracket :: rest).head? = some char →
          (char != closeBracket) = false := by
        intro char head
        obtain rfl := Option.some.inj head
        decide
      have read := takeWhile_dropWhile_append inside stops
      have spelled : spellName (some text) ++ rest =
          openBracket :: (text ++ closeBracket :: rest) := by
        simp [spellName]
      rw [spelled, readLabel, List.head?_cons, if_pos rfl, List.tail_cons,
        read.2, read.1]
      rfl

theorem starts_spellName (name : Option (List UInt8))
    (starts : Starts [letterR, comma, semicolon] rest) :
    Starts [openBracket, letterR, comma, semicolon]
      (spellName name ++ rest) := by
  cases name with
  | none => exact starts.mono (by decide)
  | some text => exact Starts.cons (by decide)

theorem readOffset_spell {offset : Option (List UInt8)}
    (number : ∀ text, offset = some text → NumberField baseStops text)
    (stops : offset ≠ none → Starts baseStops rest)
    (starts : Starts [openBracket, letterR, comma, semicolon] rest) :
    readOffset (spellOffset offset ++ rest) = (offset, rest) := by
  cases offset with
  | none =>
      have other : rest.head? ≠ some atSign := starts.ne (by decide)
      rw [readOffset]
      exact if_neg other
  | some text =>
      have read := (number text rfl).read (stops (Option.some_ne_none text))
      have spelled : spellOffset (some text) ++ rest =
          atSign :: (text ++ rest) := rfl
      rw [spelled, readOffset, List.head?_cons, if_pos rfl, List.tail_cons,
        read.1, read.2]

theorem readSize_spell {size : Option (List UInt8)}
    (number : ∀ text, size = some text →
      NumberField sizeStops text ∧ text.head? ≠ some dash ∧
        text.head? ≠ some blank)
    (stops : size ≠ none → Starts sizeStops rest) :
    readSize (spellSize size ++ rest) = (size, rest) := by
  cases size with
  | none => rfl
  | some text =>
      obtain ⟨field, notDash, -⟩ := number text rfl
      have read := field.read (stops (Option.some_ne_none text))
      obtain ⟨first, others, rfl⟩ := List.exists_cons_of_ne_nil field.nonempty
      have other : (first :: others ++ rest).head? ≠ some dash := notDash
      rw [spellSize, readSize, if_neg other, read.1, read.2]

/-- What may stand behind a part that is read as it is spelled. -/
structure Follows (part : PartText) (rest : List UInt8) : Prop where
  starts : Starts [comma, semicolon] rest
  number : part.NumberLast → Starts [comma] rest

theorem Follows.number_stops (follows : Follows part rest)
    (field : MarkField part.mark)
    (number : part.size ≠ none ∨ part.offset ≠ none) :
    Starts baseStops (spellName part.name ++ (part.mark ++ rest)) := by
  cases name : part.name with
  | some text => exact Starts.cons (by decide)
  | none =>
      by_cases plain : part.mark = []
      · have only := follows.number ⟨number, name, plain⟩
        rw [plain]
        exact only.mono (by decide)
      · have head := field.starts plain
        obtain ⟨others, spelled⟩ := List.head?_eq_some_iff.mp head
        rw [spelled]
        exact Starts.cons (by decide)

theorem Follows.size_stops (follows : Follows part rest)
    (field : MarkField part.mark) (size : part.size ≠ none) :
    Starts sizeStops (spellOffset part.offset ++ (spellName part.name ++
      (part.mark ++ rest))) := by
  cases offset : part.offset with
  | some text => exact Starts.cons (by decide)
  | none =>
      have stops := follows.number_stops field (.inl size)
      exact stops.mono (List.subset_cons_self _ _)

theorem PartText.Orderly.head (orderly : part.Orderly) (rest : List UInt8) :
    ∃ first others, spellSize part.size ++ rest = first :: others ∧
      first ≠ blank ∧ first ≠ semicolon := by
  cases found : part.size with
  | none => exact ⟨dash, rest, rfl, by decide, by decide⟩
  | some text =>
      obtain ⟨field, -, notBlank⟩ := orderly.size text found
      obtain ⟨first, others, rfl⟩ := List.exists_cons_of_ne_nil field.nonempty
      refine ⟨first, others ++ rest, rfl, ?_, ?_⟩
      · rintro rfl
        exact notBlank rfl
      · rintro rfl
        exact field.inner semicolon List.mem_cons_self List.mem_cons_self

theorem PartText.Orderly.skipBlanks (orderly : part.Orderly)
    (rest : List UInt8) :
    (List.replicate part.blanks blank ++
      (spellSize part.size ++ rest)).dropWhile (· == blank) =
      spellSize part.size ++ rest := by
  obtain ⟨first, others, spelled, notBlank, -⟩ := orderly.head rest
  rw [spelled]
  apply (takeWhile_dropWhile_append ?_ ?_).2
  · intro char member
    rw [List.eq_of_mem_replicate member]
    rfl
  · intro char head
    obtain rfl := Option.some.inj head
    rw [beq_eq_false_iff_ne]
    exact notBlank

theorem readItem_spell (orderly : part.Orderly)
    (follows : Follows part rest) :
    (readItem (part.spell ++ rest)).1 = part.item ∧
      (part.item.mark ≠ none →
        (readItem (part.spell ++ rest)).2 = skipComma rest) := by
  have closed (text : List UInt8) (found : part.name = some text) :
      closeBracket ∉ text :=
    (orderly.name text found).1
  have marked := starts_mark orderly.mark follows.starts
  have named := starts_spellName part.name marked
  have size := readSize_spell orderly.size
    (follows.size_stops orderly.mark)
  have offset := readOffset_spell orderly.offset
    (fun offset => follows.number_stops orderly.mark (.inr offset)) named
  have label := readLabel_spell closed marked
  have mark := readMark_spell orderly.mark follows.starts
  have unskipped := orderly.skipBlanks (spellOffset part.offset ++
    (spellName part.name ++ (part.mark ++ rest)))
  simp only [readItem, PartText.spell, List.append_assoc, unskipped, size,
    offset, label]
  constructor
  · rw [mark.1]
    rfl
  · intro right
    rw [mark.2 right]

theorem readItems_end {tail : List UInt8}
    (ends : tail = [] ∨ tail.head? = some semicolon) (fuel : Nat) :
    readItems fuel tail = [] := by
  cases fuel with
  | zero => rfl
  | succ fuel =>
      rw [readItems]
      exact if_pos ends

/-- The items up to one with a wrong flag. -/
def uptoWrong : List Item → List Item
  | [] => []
  | item :: items =>
      if item.mark = none then [item] else item :: uptoWrong items

theorem PartText.Orderly.goesOn (orderly : part.Orderly)
    (rest : List UInt8) :
    ¬ (part.spell ++ rest = [] ∨
      (part.spell ++ rest).head? = some semicolon) := by
  obtain ⟨first, others, spelled, -, notSemicolon⟩ := orderly.head
    (spellOffset part.offset ++ (spellName part.name ++
      (part.mark ++ rest)))
  rw [PartText.spell]
  simp only [List.append_assoc, spelled]
  cases part.blanks with
  | zero =>
      rintro (empty | head)
      · cases empty
      · exact notSemicolon (Option.some.inj head)
  | succ blanks =>
      rintro (empty | head)
      · cases empty
      · have other : blank ≠ semicolon := by decide
        exact other (Option.some.inj head)

theorem readItems_spell (orderly : part.Orderly)
    (follows : Follows part rest) (fuel : Nat) :
    readItems (fuel + 1) (part.spell ++ rest) =
      if part.item.mark = none then [part.item]
      else part.item :: readItems fuel (skipComma rest) := by
  obtain ⟨item, behind⟩ := readItem_spell orderly follows
  have labelled : part.item.label ≠ none := Option.some_ne_none _
  rw [readItems, if_neg (orderly.goesOn rest)]
  simp only [item]
  by_cases wrong : part.item.mark = none
  · rw [if_pos (.inr wrong), if_pos wrong]
  · rw [if_neg (not_or.mpr ⟨labelled, wrong⟩), if_neg wrong, behind wrong]

theorem follows_comma (part : PartText) (text : List UInt8) :
    Follows part (comma :: text) := by
  constructor
  · exact Starts.cons (by decide)
  · intro _
    exact Starts.cons (by decide)

theorem readItems_spellTexts {parts : List PartText} {tail : List UInt8}
    (orderly : ∀ part ∈ parts, part.Orderly)
    (ends : tail = [] ∨ tail.head? = some semicolon)
    (last : ∀ part, parts.getLast? = some part → part.NumberLast → tail = [])
    {fuel : Nat} (enough : (spellTexts parts ++ tail).length < fuel) :
    readItems fuel (spellTexts parts ++ tail) =
      uptoWrong (parts.map PartText.item) := by
  induction parts generalizing fuel with
  | nil => exact readItems_end ends fuel
  | cons part parts induction =>
      obtain ⟨fuel, rfl⟩ := Nat.exists_eq_succ_of_ne_zero
        (Nat.ne_of_gt (Nat.zero_lt_of_lt enough))
      have here := orderly part List.mem_cons_self
      cases parts with
      | nil =>
          have follows : Follows part tail := by
            constructor
            · rcases ends with rfl | semi
              · intro char head
                cases head
              · obtain ⟨others, rfl⟩ := List.head?_eq_some_iff.mp semi
                exact Starts.cons (by decide)
            · intro number char head
              rw [last part rfl number] at head
              cases head
          have uncomma : skipComma tail = tail := by
            apply if_neg
            rcases ends with rfl | semi
            · simp
            · rw [semi]
              decide
          rw [spellTexts, readItems_spell here follows, uncomma,
            readItems_end ends]
          rfl
      | cons next others =>
          have spelled : spellTexts (part :: next :: others) ++ tail =
              part.spell ++
                comma :: (spellTexts (next :: others) ++ tail) := by
            simp [spellTexts]
          rw [spelled] at enough ⊢
          have skipped : skipComma
              (comma :: (spellTexts (next :: others) ++ tail)) =
              spellTexts (next :: others) ++ tail := rfl
          have later : readItems fuel (spellTexts (next :: others) ++ tail) =
              uptoWrong ((next :: others).map PartText.item) := by
            apply induction
            · intro other member
              exact orderly other (List.mem_cons_of_mem part member)
            · intro other found
              apply last other
              rw [List.getLast?_cons_cons]
              exact found
            · simp only [List.length_append, List.length_cons] at enough ⊢
              omega
          rw [readItems_spell here (follows_comma part _), skipped, later]
          rfl

end Spelled

section Wrong

variable {items : List Item}

theorem mem_of_mem_uptoWrong {item : Item} (member : item ∈ uptoWrong items) :
    item ∈ items := by
  induction items with
  | nil => cases member
  | cons first items induction =>
      rw [uptoWrong] at member
      split at member
      · rw [List.mem_singleton.mp member]
        exact List.mem_cons_self
      · rcases List.mem_cons.mp member with rfl | later
        · exact List.mem_cons_self
        · exact List.mem_cons_of_mem first (induction later)

/-- Where the items before a wrong one are all right, there is none. -/
theorem uptoWrong_eq (right : ∀ item ∈ uptoWrong items, item.mark ≠ none) :
    uptoWrong items = items := by
  induction items with
  | nil => rfl
  | cons first items induction =>
      rw [uptoWrong] at right ⊢
      by_cases wrong : first.mark = none
      · rw [if_pos wrong] at right
        exact absurd wrong (right first List.mem_cons_self)
      · rw [if_neg wrong] at right ⊢
        rw [induction]
        intro item member
        exact right item (List.mem_cons_of_mem first member)

theorem forall_uptoWrong_passes_iff :
    (∀ item ∈ uptoWrong items, item.Passes) ↔
      ∀ item ∈ items, item.Passes := by
  constructor
  · intro passes
    have all := uptoWrong_eq fun item member => (passes item member).2.2.2
    rw [← all]
    exact passes
  · intro passes item member
    exact passes item (mem_of_mem_uptoWrong member)

end Wrong

/-- The numbers fit in the buffer, and the label is closed and fits. -/
structure Item.Bounded (item : Item) : Prop where
  size : ∀ text, item.size = some text → text.length < buffSize
  offset : ∀ text, item.offset = some text → text.length < buffSize
  closed : item.label ≠ none
  label : (item.label.getD []).length < labelNameSize

/-- Nothing outside of the string, the buffer and the table is touched. -/
def Outcome.StaysInside (outcome : Outcome) : Prop :=
  ∃ ret table, outcome = .returned ret table ∧
    table.length ≤ maxFlashParts ∧
    ∀ part ∈ table, part.label.length < labelNameSize

theorem readable_or_unreadable {text : Option (List UInt8)}
    (short : ∀ digits, text = some digits → digits.length < buffSize) :
    Readable text ∨ Unreadable text := by
  cases text with
  | none => exact .inl trivial
  | some digits =>
      by_cases number : hrStrToVal digits = none
      · exact .inr ⟨short digits rfl, number⟩
      · exact .inl ⟨short digits rfl, number⟩

theorem Item.Bounded.passes_or_refused {item : Item} (bounded : item.Bounded) :
    item.Passes ∨ item.Refused := by
  rcases readable_or_unreadable bounded.size with size | size
  · rcases readable_or_unreadable bounded.offset with offset | offset
    · by_cases mark : item.mark = none
      · exact .inr (.inr ⟨size, .inr ⟨offset, bounded.closed, mark⟩⟩)
      · exact .inl ⟨size, offset, bounded.closed, mark⟩
    · exact .inr (.inr ⟨size, .inl offset⟩)
  · exact .inr (.inl size)

section Evaluated

variable {geometry : Geometry} {items : List Item} {base : Nat} {ret : Int}
  {table : List PartAttr}

theorem evaluate_staysInside (nonpositive : ret ≤ 0)
    (bounded : ∀ item ∈ items, item.Bounded)
    (few : table.length + items.length ≤ maxFlashParts)
    (short : ∀ part ∈ table, part.label.length < labelNameSize) :
    (evaluate geometry items base ret table).StaysInside := by
  induction items generalizing base ret table with
  | nil => exact ⟨table.length, table, rfl, few, short⟩
  | cons item items induction =>
      rw [List.length_cons] at few
      have room : table.length ≤ maxFlashParts := by omega
      have later : ∀ other ∈ items, other.Bounded := by
        intro other member
        exact bounded other (List.mem_cons_of_mem item member)
      have here := bounded item List.mem_cons_self
      rw [evaluate]
      by_cases full : geometry.chipSize ≤ base
      · rw [if_pos full]
        exact ⟨ret, table, rfl, room, short⟩
      · rw [if_neg full]
        rcases here.passes_or_refused with passes | refused
        · obtain ⟨next, nonpositive, result⟩ := Item.evaluate_of_passes
            geometry nonpositive (Nat.not_le.mp full) passes
          rw [result]
          apply induction nonpositive later
          · rw [List.length_append, List.length_singleton]
            omega
          · intro part member
            rcases List.mem_append.mp member with old | new
            · exact short part old
            · rw [List.mem_singleton.mp new]
              exact here.label
        · rw [Item.evaluate_of_refused geometry nonpositive refused]
          exact ⟨einval, table, rfl, room, short⟩

theorem evaluate_accepted_iff (nonpositive : ret ≤ 0) (number : Int)
    (result : List PartAttr) :
    (evaluate geometry items base ret table).Accepted number result ↔
      ((∀ item ∈ items, item.Passes) ∧ Begins geometry items base) ∧
        (result = table ++ entries geometry items base ∧
          number = result.length ∧ 0 < number) := by
  induction items generalizing base ret table with
  | nil =>
      rw [evaluate, entries, List.append_nil]
      constructor
      · rintro ⟨same, positive⟩
        cases same
        refine ⟨⟨?_, trivial⟩, rfl, rfl, positive⟩
        intro item member
        cases member
      · rintro ⟨-, rfl, rfl, positive⟩
        exact ⟨rfl, positive⟩
  | cons item items induction =>
      rw [evaluate]
      by_cases full : geometry.chipSize ≤ base
      · rw [if_pos full]
        constructor
        · rintro ⟨same, positive⟩
          cases same
          omega
        · rintro ⟨⟨-, begins, -⟩, -⟩
          omega
      rw [if_neg full]
      by_cases passes : item.Passes
      · obtain ⟨next, nonpositive, evaluated⟩ := Item.evaluate_of_passes
          geometry nonpositive (Nat.not_le.mp full) passes
        have place : add32 (item.entry geometry base).base
            (item.entry geometry base).size =
            (item.start geometry base + item.extent geometry base) %
              2 ^ 32 := Nat.add_mod_mod _ _ _
        rw [evaluated]
        dsimp only
        rw [induction nonpositive, place]
        simp only [entries, Begins, List.append_assoc, List.singleton_append,
          List.forall_mem_cons, passes, Nat.not_le.mp full, true_and]
      · have never : ¬ (∀ other ∈ item :: items, other.Passes) :=
          fun all => passes (all item List.mem_cons_self)
        apply iff_of_false
        · by_cases refused : item.Refused
          · rw [Item.evaluate_of_refused geometry nonpositive refused]
            rintro ⟨same, positive⟩
            cases same
            exact absurd positive (by decide)
          · rw [Item.evaluate_of_neither geometry nonpositive refused passes]
            rintro ⟨same, -⟩
            cases same
        · rintro ⟨⟨all, -⟩, -⟩
          exact never all

end Evaluated

section Definitions

variable {geometry : Geometry} {partDef : List UInt8}

theorem einval_nonpositive : einval ≤ 0 := by
  decide

theorem flashParsePart_eq (hasColon : colon ∈ partDef) :
    flashParsePart geometry partDef =
      evaluate geometry (itemsOf partDef) 0 einval [] := by
  unfold flashParsePart itemsOf behindColon
  cases found : partDef.dropWhile (· != colon) with
  | nil =>
      have none := List.dropWhile_eq_nil_iff.mp found colon hasColon
      exact absurd none (by decide)
  | cons first text => exact parseLoop_eq geometry (Nat.lt_succ_self _)

theorem flashParsePart_of_no_colon (noColon : colon ∉ partDef) :
    flashParsePart geometry partDef = .returned einval [] := by
  have none : partDef.dropWhile (· != colon) = [] := by
    apply List.dropWhile_eq_nil_iff.mpr
    intro char member
    apply bne_iff_ne.mpr
    rintro rfl
    exact noColon member
  rw [flashParsePart, none]

theorem Orderly.itemsOf {parts : List PartText}
    (orderly : Orderly partDef parts) :
    itemsOf partDef = uptoWrong (parts.map PartText.item) := by
  have cut : behindColon partDef = spellTexts parts ++
      (behindColon partDef).dropWhile (· != semicolon) := by
    rw [← orderly.spelled]
    exact List.takeWhile_append_dropWhile.symm
  have ends : (behindColon partDef).dropWhile (· != semicolon) = [] ∨
      ((behindColon partDef).dropWhile (· != semicolon)).head? =
        some semicolon := by
    cases found : (behindColon partDef).dropWhile (· != semicolon) with
    | nil => exact .inl rfl
    | cons first others =>
        right
        have stop := List.head_dropWhile_not (· != semicolon)
          (l := behindColon partDef) (by rw [found]; exact List.cons_ne_nil _ _)
        simp only [found, List.head_cons, bne_eq_false_iff_eq] at stop
        rw [List.head?_cons, stop]
  have last (part : PartText) (found : parts.getLast? = some part)
      (number : part.NumberLast) :
      (behindColon partDef).dropWhile (· != semicolon) = [] := by
    apply List.dropWhile_eq_nil_iff.mpr
    intro char member
    apply bne_iff_ne.mpr
    rintro rfl
    exact orderly.last part found number member
  have enough : (spellTexts parts ++ (behindColon partDef).dropWhile
      (· != semicolon)).length < (behindColon partDef).length + 1 := by
    rw [← cut]
    exact Nat.lt_succ_self _
  have read := readItems_spellTexts orderly.orderly ends last enough
  rw [← cut] at read
  exact read

theorem markOf_spellReadOnly (readOnly : Bool) :
    markOf (spellReadOnly readOnly) = some readOnly := by
  cases readOnly with
  | false => rfl
  | true => rfl

theorem MarkField.spelled {mark : List UInt8} (field : MarkField mark)
    (right : markOf mark ≠ none) :
    ∃ readOnly, mark = spellReadOnly readOnly := by
  by_cases empty : mark = []
  · exact ⟨false, empty⟩
  · obtain ⟨others, rfl⟩ := List.head?_eq_some_iff.mp (field.starts empty)
    by_cases letter : others.head? = some letterO
    · obtain ⟨behind, rfl⟩ := List.head?_eq_some_iff.mp letter
      have nothing : behind = [] := field.ends rfl
      rw [nothing]
      exact ⟨true, rfl⟩
    · have wrong : markOf (letterR :: others) = none := by
        rw [markOf, if_neg empty]
        exact if_neg letter
      exact absurd wrong right

theorem PartText.Orderly.passes_iff {part : PartText}
    (orderly : part.Orderly) : part.item.Passes ↔ part.Documented := by
  constructor
  · rintro ⟨size, offset, -, mark⟩
    obtain ⟨readOnly, marked⟩ := orderly.mark.spelled mark
    refine ⟨⟨part.size, part.offset, part.name, readOnly⟩, ?_, ?_⟩
    · constructor
      · intro text found
        have written : part.size = some text := found
        have readable : Readable part.size := size
        rw [written] at readable
        exact ⟨(orderly.size text found).1.nonempty, readable.2⟩
      · intro text found
        have written : part.offset = some text := found
        have readable : Readable part.offset := offset
        rw [written] at readable
        exact ⟨(orderly.offset text found).nonempty, readable.2⟩
      · intro text found
        exact (orderly.name text found).1
    · rw [PartDef.behind, ← marked]
  · rintro ⟨written, documented, spelled⟩
    have size : part.size = written.size := by rw [spelled]; rfl
    have offset : part.offset = written.offset := by rw [spelled]; rfl
    have mark : part.mark = spellReadOnly written.readOnly := by
      rw [spelled]
      rfl
    refine ⟨?_, ?_, Option.some_ne_none _, ?_⟩
    · change Readable part.size
      cases found : part.size with
      | none => trivial
      | some text =>
          have memsize := documented.size text (size ▸ found)
          exact ⟨(orderly.size text found).1.fits, memsize.2⟩
    · change Readable part.offset
      cases found : part.offset with
      | none => trivial
      | some text =>
          have memsize := documented.offset text (offset ▸ found)
          exact ⟨(orderly.offset text found).fits, memsize.2⟩
    · change markOf part.mark ≠ none
      rw [mark, markOf_spellReadOnly]
      exact Option.some_ne_none _

theorem PartText.Orderly.bounded {part : PartText} (orderly : part.Orderly) :
    part.item.Bounded := by
  refine ⟨?_, ?_, Option.some_ne_none _, ?_⟩
  · intro text found
    exact (orderly.size text found).1.fits
  · intro text found
    exact (orderly.offset text found).fits
  · change (part.name.getD []).length < labelNameSize
    cases found : part.name with
    | none => decide
    | some text => exact (orderly.name text found).2

theorem length_uptoWrong_le (items : List Item) :
    (uptoWrong items).length ≤ items.length := by
  induction items with
  | nil => exact Nat.le_refl 0
  | cons item items induction =>
      rw [uptoWrong]
      split
      · exact Nat.succ_le_succ (Nat.zero_le _)
      · exact Nat.succ_le_succ induction

theorem flashParsePart_accepted_iff (ret : Int) (table : List PartAttr) :
    (flashParsePart geometry partDef).Accepted ret table ↔
      colon ∈ partDef ∧
        ((∀ item ∈ Flash.itemsOf partDef, item.Passes) ∧
          Begins geometry (Flash.itemsOf partDef) 0) ∧
        (table = entries geometry (Flash.itemsOf partDef) 0 ∧
          ret = table.length ∧ 0 < ret) := by
  by_cases hasColon : colon ∈ partDef
  · rw [flashParsePart_eq hasColon, evaluate_accepted_iff einval_nonpositive,
      List.nil_append]
    exact (and_iff_right hasColon).symm
  · apply iff_of_false
    · rw [flashParsePart_of_no_colon hasColon]
      rintro ⟨same, positive⟩
      cases same
      exact absurd positive (by decide)
    · rintro ⟨found, -⟩
      exact hasColon found

/-- Where the items fit, a call stays inside of the arrays and the string. -/
theorem flashParsePart_staysInside
    (bounded : ∀ item ∈ Flash.itemsOf partDef, item.Bounded)
    (few : (Flash.itemsOf partDef).length ≤ maxFlashParts) :
    (flashParsePart geometry partDef).StaysInside := by
  have none : ∀ part ∈ ([] : List PartAttr),
      part.label.length < labelNameSize := by
    intro part member
    cases member
  by_cases hasColon : colon ∈ partDef
  · rw [flashParsePart_eq hasColon]
    apply evaluate_staysInside einval_nonpositive bounded _ none
    rw [List.length_nil, Nat.zero_add]
    exact few
  · rw [flashParsePart_of_no_colon hasColon]
    exact ⟨einval, [], rfl, Nat.zero_le _, none⟩

theorem Orderly.staysInside {parts : List PartText}
    (orderly : Orderly partDef parts) :
    (flashParsePart geometry partDef).StaysInside := by
  apply flashParsePart_staysInside
  · rw [orderly.itemsOf]
    intro item member
    obtain ⟨part, listed, rfl⟩ :=
      List.mem_map.mp (mem_of_mem_uptoWrong member)
    exact (orderly.orderly part listed).bounded
  · rw [orderly.itemsOf]
    have shorter := length_uptoWrong_le (parts.map PartText.item)
    rw [List.length_map] at shorter
    exact shorter.trans orderly.few

theorem Orderly.accepted_iff {parts : List PartText}
    (orderly : Orderly partDef parts) (ret : Int) (table : List PartAttr) :
    (flashParsePart geometry partDef).Accepted ret table ↔
      InOrder geometry parts ∧ ret = parts.length ∧
        table = entries geometry (parts.map PartText.item) 0 := by
  have documented : (∀ item ∈ parts.map PartText.item, item.Passes) ↔
      ∀ part ∈ parts, part.Documented := by
    rw [List.forall_mem_map]
    constructor
    · intro passes part member
      exact (orderly.orderly part member).passes_iff.mp (passes part member)
    · intro written part member
      exact (orderly.orderly part member).passes_iff.mpr
        (written part member)
  have whole (written : ∀ part ∈ parts, part.Documented) :
      uptoWrong (parts.map PartText.item) = parts.map PartText.item := by
    apply uptoWrong_eq
    intro item member
    have passes := documented.mpr written item (mem_of_mem_uptoWrong member)
    exact passes.2.2.2
  have number (base : Nat) :
      (entries geometry (parts.map PartText.item) base).length =
        parts.length := by
    rw [length_entries, List.length_map]
  rw [flashParsePart_accepted_iff, orderly.itemsOf,
    forall_uptoWrong_passes_iff, documented]
  constructor
  · rintro ⟨-, ⟨written, begins⟩, same, ret_eq, positive⟩
    rw [whole written] at begins same
    rw [same, number] at ret_eq
    refine ⟨⟨?_, written, begins⟩, ret_eq, same⟩
    rintro rfl
    rw [ret_eq] at positive
    cases positive
  · rintro ⟨⟨nonempty, written, begins⟩, rfl, rfl⟩
    rw [whole written, number]
    have positive : 0 < parts.length := List.length_pos_iff.mpr nonempty
    refine ⟨orderly.hasColon, ⟨written, begins⟩, rfl, rfl, ?_⟩
    exact Int.natCast_pos.mpr positive

theorem Orderly.refused {parts : List PartText}
    (orderly : Orderly partDef parts) (wrong : ¬ InOrder geometry parts) :
    ∃ ret table, flashParsePart geometry partDef = .returned ret table ∧
      ret ≤ 0 := by
  have inside : (flashParsePart geometry partDef).StaysInside :=
    orderly.staysInside
  obtain ⟨ret, table, outcome, -⟩ := inside
  refine ⟨ret, table, outcome, ?_⟩
  by_contra positive
  have accepted := (orderly.accepted_iff ret table).mp
    ⟨outcome, Int.not_le.mp positive⟩
  exact wrong accepted.1

end Definitions

/-- A documented definition that fits in the arrays, and whose last number has
no semicolon behind it. -/
structure Plain (partDef : List UInt8) (parts : List PartDef) : Prop where
  grammatical : Grammatical partDef parts
  few : parts.length ≤ maxFlashParts
  size : ∀ part ∈ parts, ∀ text, part.size = some text →
    text.length < buffSize
  offset : ∀ part ∈ parts, ∀ text, part.offset = some text →
    text.length < buffSize
  name : ∀ part ∈ parts, ∀ text, part.name = some text →
    text.length < labelNameSize
  last : ∀ part, parts.getLast? = some part →
    (part.behind 0).NumberLast → semicolon ∉ behindColon partDef

theorem IsMemsize.field {stops text : List UInt8} (memsize : IsMemsize text)
    (fits : text.length < buffSize)
    (stop : ∀ char ∈ semicolon :: stops, hrChar char = false) :
    NumberField stops text := by
  refine ⟨memsize.1, fits, ?_⟩
  intro char member listed
  have inside := hrStrToVal_chars memsize.2 char member
  rw [stop char listed] at inside
  cases inside

theorem sizeStops_not_hrChar :
    ∀ char ∈ semicolon :: sizeStops, hrChar char = false := by
  have all : (semicolon :: sizeStops).all (hrChar · == false) = true := by
    decide
  simpa only [List.all_eq_true, beq_iff_eq] using all

theorem baseStops_not_hrChar :
    ∀ char ∈ semicolon :: baseStops, hrChar char = false := by
  intro char member
  apply sizeStops_not_hrChar char
  have subset : semicolon :: baseStops ⊆ semicolon :: sizeStops := by decide
  exact subset member

theorem markField_spellReadOnly (readOnly : Bool) :
    MarkField (spellReadOnly readOnly) := by
  cases readOnly with
  | false => exact ⟨fun some => absurd rfl some, fun _ => rfl⟩
  | true => exact ⟨fun _ => rfl, fun _ => rfl⟩

theorem IsMemsize.head_ne {text : List UInt8} (memsize : IsMemsize text)
    {char : UInt8} (other : hrChar char = false) :
    text.head? ≠ some char := by
  intro head
  obtain ⟨others, rfl⟩ := List.head?_eq_some_iff.mp head
  have inside := hrStrToVal_chars memsize.2 char List.mem_cons_self
  rw [other] at inside
  cases inside

theorem spellTexts_behind (parts : List PartDef) :
    spellTexts (parts.map (·.behind 0)) = spellParts parts := by
  induction parts with
  | nil => rfl
  | cons part parts induction =>
      cases parts with
      | nil => rfl
      | cons next others =>
          rw [spellParts, ← induction]
          · rfl
          · simp

theorem Plain.orderly {partDef : List UInt8} {parts : List PartDef}
    (plain : Plain partDef parts) :
    Orderly partDef (parts.map (·.behind 0)) := by
  refine ⟨plain.grammatical.hasColon, ?_, ?_, ?_, ?_⟩
  · rw [List.length_map]
    exact plain.few
  · rw [List.forall_mem_map]
    intro part member
    have documented := plain.grammatical.documented part member
    constructor
    · intro text found
      have memsize := documented.size text found
      have field := memsize.field (plain.size part member text found)
        sizeStops_not_hrChar
      exact ⟨field, memsize.head_ne (by decide), memsize.head_ne (by decide)⟩
    · intro text found
      exact (documented.offset text found).field
        (plain.offset part member text found) baseStops_not_hrChar
    · intro text found
      exact ⟨documented.name text found, plain.name part member text found⟩
    · exact markField_spellReadOnly part.readOnly
  · rw [spellTexts_behind]
    exact plain.grammatical.spelled
  · intro part last number
    rw [List.getLast?_map] at last
    obtain ⟨written, found, rfl⟩ := Option.map_eq_some_iff.mp last
    exact plain.last written found number

end Witos.Flash
