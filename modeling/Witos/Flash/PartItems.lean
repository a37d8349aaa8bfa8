import Witos.Flash.PartTable

/-!
# The items of a partition definition

The items of a definition are read off its text without their numbers.  What
`flash_parse_part` returns is an evaluation of the items one after the other.
-/

namespace Witos.Flash

open Library Extra

/-- An item as it is spelled.  The size is missing for `-`, the label where it
is not closed, and the mark where `r` is not followed by `o`. -/
structure Item where
  size : Option (List UInt8)
  offset : Option (List UInt8)
  label : Option (List UInt8)
  mark : Option Bool

def readSize (text : List UInt8) : Option (List UInt8) × List UInt8 :=
  if text.head? = some dash then (none, text.tail)
  else
    (some (text.takeWhile (!sizeStops.contains ·)),
      text.dropWhile (!sizeStops.contains ·))

def readOffset (text : List UInt8) : Option (List UInt8) × List UInt8 :=
  if text.head? = some atSign then
    (some (text.tail.takeWhile (!baseStops.contains ·)),
      text.tail.dropWhile (!baseStops.contains ·))
  else (none, text)

def readLabel (text : List UInt8) : Option (List UInt8) × List UInt8 :=
  if text.head? = some openBracket then
    match text.tail.dropWhile (· != closeBracket) with
    | [] => (none, [])
    | _ :: rest =>
        (some (text.tail.takeWhile (· != closeBracket)), rest)
  else (some [], text)

def readMark (text : List UInt8) : Option Bool × List UInt8 :=
  if text.head? = some letterR then
    if text.tail.head? = some letterO then (some true, text.tail.tail)
    else (none, text.tail)
  else (some false, text)

def readItem (text : List UInt8) : Item × List UInt8 :=
  let (size, text) := readSize (text.dropWhile (· == blank))
  let (offset, text) := readOffset text
  let (label, text) := readLabel text
  let (mark, text) := readMark text
  ({ size, offset, label, mark }, skipComma text)

/-- The items up to the end or a semicolon.  There are none behind one that is
broken off. -/
def readItems : Nat → List UInt8 → List Item
  | 0, _ => []
  | fuel + 1, text =>
      if text = [] ∨ text.head? = some semicolon then []
      else
        let (item, rest) := readItem text
        if item.label = none ∨ item.mark = none then [item]
        else item :: readItems fuel rest

/-- A number that fits in the buffer. -/
def Readable : Option (List UInt8) → Prop
  | none => True
  | some text => text.length < buffSize ∧ hrStrToVal text ≠ none

/-- A text that fits in the buffer and is no number. -/
def Unreadable : Option (List UInt8) → Prop
  | none => False
  | some text => text.length < buffSize ∧ hrStrToVal text = none

def Item.Passes (item : Item) : Prop :=
  Readable item.size ∧ Readable item.offset ∧ item.label ≠ none ∧
    item.mark ≠ none

/-- What comes first is no number, or it is the mark that is wrong. -/
def Item.Refused (item : Item) : Prop :=
  Unreadable item.size ∨
    Readable item.size ∧ (Unreadable item.offset ∨
      Readable item.offset ∧ item.label ≠ none ∧ item.mark = none)

section Layout

variable (geometry : Geometry)

/-- A number rounded up to erase blocks. -/
def blocks (text : List UInt8) : Nat :=
  roundUp geometry.eraseSize ((hrStrToVal text).getD 0)

/-- Where the item starts. -/
def Item.start (base : Nat) (item : Item) : Nat :=
  match item.offset with
  | none => base
  | some text => blocks geometry text % 2 ^ 32

/-- How large the item is. -/
def Item.extent (base : Nat) (item : Item) : Nat :=
  match item.size with
  | none => geometry.chipSize - base
  | some text => blocks geometry text

/-- A number, or what to take without one. -/
def evaluateNumber (text : Option (List UInt8)) (default : Nat)
    (ret : Int) : Step (Nat × Int) :=
  match text with
  | none => .next (default, ret)
  | some text =>
      if buffSize ≤ text.length then .outside
      else
        match hrStrToVal text with
        | none => .error einval
        | some value => .next (alignUp 32 geometry.eraseSize value, 0)

def Item.evaluate (base : Nat) (ret : Int) (item : Item) :
    Step (PartAttr × Int) :=
  (evaluateNumber geometry item.size (sub32 geometry.chipSize base)
    ret).bind fun (size, ret) =>
  (evaluateNumber geometry item.offset base ret).bind fun (start, ret) =>
  match item.label, item.mark with
  | none, _ => .outside
  | some _, none => .error einval
  | some label, some readOnly =>
      .next ({ base := start, size, label, readOnly }, ret)

def evaluate : List Item → Nat → Int → List PartAttr → Outcome
  | [], _, _, table => .returned table.length table
  | item :: items, base, ret, table =>
      if geometry.chipSize ≤ base then .returned ret table
      else
        match item.evaluate geometry base ret with
        | .error ret => .returned ret table
        | .outside => .outside
        | .next (part, ret) =>
            evaluate items (add32 part.base part.size) ret (table ++ [part])

end Layout

section Reading

variable (geometry : Geometry)

theorem partSize_eq (base : Nat) (ret : Int) (text : List UInt8) :
    partSize geometry base ret text =
      (evaluateNumber geometry (readSize text).1
        (sub32 geometry.chipSize base) ret).bind
        fun (size, ret) => .next (size, ret, (readSize text).2) := by
  unfold partSize readSize
  split
  · rfl
  · unfold number evaluateNumber
    dsimp only
    split
    · rfl
    · cases hrStrToVal (text.takeWhile (!sizeStops.contains ·)) <;> rfl

theorem partBase_eq (base : Nat) (ret : Int) (text : List UInt8) :
    partBase geometry base ret text =
      (evaluateNumber geometry (readOffset text).1 base ret).bind
        fun (start, ret) => .next (start, ret, (readOffset text).2) := by
  unfold partBase readOffset
  split
  · unfold number evaluateNumber
    dsimp only
    split
    · rfl
    · cases hrStrToVal (text.tail.takeWhile (!baseStops.contains ·)) <;> rfl
  · rfl

theorem partLabel_eq (text : List UInt8) :
    partLabel text =
      match (readLabel text).1 with
      | none => .outside
      | some label => .next (label, (readLabel text).2) := by
  unfold partLabel readLabel
  split
  · cases text.tail.dropWhile (· != closeBracket) <;> rfl
  · rfl

theorem partFlags_eq (text : List UInt8) :
    partFlags text =
      match (readMark text).1 with
      | none => .error einval
      | some readOnly => .next (readOnly, (readMark text).2) := by
  unfold partFlags readMark
  split
  · split <;> rfl
  · rfl

theorem parsePart_eq (base : Nat) (ret : Int) (text : List UInt8) :
    parsePart geometry base ret text =
      ((readItem text).1.evaluate geometry base ret).bind
        fun (part, ret) => .next (part, ret, (readItem text).2) := by
  simp only [parsePart, readItem, Item.evaluate]
  rw [partSize_eq]
  generalize readSize (text.dropWhile (· == blank)) = size
  cases evaluateNumber geometry size.1 (sub32 geometry.chipSize base) ret with
  | error | outside => rfl
  | next sized =>
      simp only [Step.bind]
      rw [partBase_eq]
      generalize readOffset size.2 = offset
      cases evaluateNumber geometry offset.1 base sized.2 with
      | error | outside => rfl
      | next based =>
          simp only [Step.bind]
          rw [partLabel_eq]
          generalize readLabel offset.2 = label
          cases label.1 with
          | none => rfl
          | some name =>
              dsimp only
              rw [partFlags_eq]
              cases (readMark label.2).1 <;> rfl

theorem readSize_suffix (text : List UInt8) :
    (readSize text).2 <:+ text := by
  unfold readSize
  split
  · exact List.tail_suffix text
  · exact List.dropWhile_suffix _

theorem readOffset_tail {text : List UInt8}
    (head : text.head? = some atSign) :
    (readOffset text).2 <:+ text.tail := by
  rw [readOffset, if_pos head]
  exact List.dropWhile_suffix _

theorem readOffset_suffix (text : List UInt8) :
    (readOffset text).2 <:+ text := by
  by_cases head : text.head? = some atSign
  · exact (readOffset_tail head).trans (List.tail_suffix text)
  · have unread : readOffset text = (none, text) := if_neg head
    simp only [unread, List.suffix_rfl]

theorem readLabel_tail {text : List UInt8}
    (head : text.head? = some openBracket) :
    (readLabel text).2 <:+ text.tail := by
  rw [readLabel, if_pos head]
  split
  · exact List.nil_suffix
  · rename_i rest found
    have behind : rest <:+ text.tail.dropWhile (· != closeBracket) := by
      rw [found]
      exact List.suffix_cons _ _
    exact behind.trans (List.dropWhile_suffix _)

theorem readLabel_suffix (text : List UInt8) :
    (readLabel text).2 <:+ text := by
  by_cases head : text.head? = some openBracket
  · exact (readLabel_tail head).trans (List.tail_suffix text)
  · have unread : readLabel text = (some [], text) := if_neg head
    simp only [unread, List.suffix_rfl]

theorem readMark_tail {text : List UInt8}
    (head : text.head? = some letterR) :
    (readMark text).2 <:+ text.tail := by
  rw [readMark, if_pos head]
  by_cases mark : text.tail.head? = some letterO
  · rw [if_pos mark]
    exact List.tail_suffix _
  · simp only [if_neg mark, List.suffix_rfl]

theorem readMark_suffix (text : List UInt8) :
    (readMark text).2 <:+ text := by
  by_cases head : text.head? = some letterR
  · exact (readMark_tail head).trans (List.tail_suffix text)
  · have unread : readMark text = (some false, text) := if_neg head
    simp only [unread, List.suffix_rfl]

theorem skipComma_suffix (text : List UInt8) : skipComma text <:+ text := by
  unfold skipComma
  split
  · exact List.tail_suffix text
  · exact List.suffix_rfl

theorem not_suffix_of_tail {char : UInt8} {rest later : List UInt8}
    (behind : later <:+ rest) : later ≠ char :: rest := by
  rintro rfl
  have shorter := behind.length_le
  rw [List.length_cons] at shorter
  omega

/-- A character at which nothing is read is none that an item starts with. -/
theorem readItem_ne (char : UInt8) (rest : List UInt8)
    (size : (readSize (char :: rest)).2 = char :: rest)
    (offset : (readOffset (char :: rest)).2 = char :: rest)
    (label : (readLabel (char :: rest)).2 = char :: rest)
    (mark : (readMark (char :: rest)).2 = char :: rest) :
    skipComma (char :: rest) ≠ char :: rest := by
  have stop : char ∈ sizeStops := by
    unfold readSize at size
    split at size
    · exact absurd size (not_suffix_of_tail List.suffix_rfl)
    · by_contra other
      rw [List.dropWhile_cons_of_pos (by simpa using other)] at size
      exact not_suffix_of_tail (List.dropWhile_suffix _) size
  simp only [sizeStops, List.mem_cons, List.not_mem_nil, or_false] at stop
  rcases stop with rfl | rfl | rfl | rfl
  · exact absurd offset (not_suffix_of_tail (readOffset_tail rfl))
  · exact absurd label (not_suffix_of_tail (readLabel_tail rfl))
  · exact absurd mark (not_suffix_of_tail (readMark_tail rfl))
  · exact not_suffix_of_tail List.suffix_rfl

theorem length_readItem {text : List UInt8} (notNil : text ≠ []) :
    (readItem text).2.length < text.length := by
  obtain ⟨char, rest, rfl⟩ := List.exists_cons_of_ne_nil notNil
  simp only [readItem]
  have blanks := List.dropWhile_suffix (l := char :: rest) (· == blank)
  generalize List.dropWhile (· == blank) (char :: rest) = text₁ at blanks ⊢
  have size := readSize_suffix text₁
  generalize sizeRest : (readSize text₁).2 = text₂ at size ⊢
  have offset := readOffset_suffix text₂
  generalize offsetRest : (readOffset text₂).2 = text₃ at offset ⊢
  have label := readLabel_suffix text₃
  generalize labelRest : (readLabel text₃).2 = text₄ at label ⊢
  have mark := readMark_suffix text₄
  generalize markRest : (readMark text₄).2 = text₅ at mark ⊢
  have last := skipComma_suffix text₅
  by_contra long
  have lengths := And.intro blanks.length_le (And.intro size.length_le
    (And.intro offset.length_le (And.intro label.length_le
      (And.intro mark.length_le last.length_le))))
  obtain rfl := blanks.eq_of_length (by omega)
  obtain rfl := size.eq_of_length (by omega)
  obtain rfl := offset.eq_of_length (by omega)
  obtain rfl := label.eq_of_length (by omega)
  obtain rfl := mark.eq_of_length (by omega)
  exact readItem_ne char rest sizeRest offsetRest labelRest markRest
    (last.eq_of_length (by omega))

theorem Item.evaluate_broken {item : Item} {base : Nat} {ret : Int}
    {part : PartAttr × Int} (broken : item.label = none ∨ item.mark = none) :
    item.evaluate geometry base ret ≠ .next part := by
  unfold Item.evaluate
  cases evaluateNumber geometry item.size
    (sub32 geometry.chipSize base) ret with
  | error | outside => simp [Step.bind]
  | next sized =>
      simp only [Step.bind]
      cases evaluateNumber geometry item.offset base sized.2 with
      | error | outside => simp
      | next based =>
          rcases broken with none | none
          · simp [none]
          · cases item.label <;> simp [none]

theorem parseLoop_eq {fuel : Nat} {text : List UInt8} {base : Nat}
    {ret : Int} {table : List PartAttr} (enough : text.length < fuel) :
    parseLoop geometry fuel text base ret table =
      evaluate geometry (readItems fuel text) base ret table := by
  induction fuel generalizing text base ret table with
  | zero => omega
  | succ fuel induction =>
      by_cases done : text = [] ∨ text.head? = some semicolon
      · rw [parseLoop, readItems, if_pos done, if_pos done]
        rfl
      · rw [parseLoop, readItems, if_neg done, if_neg done]
        have shorter := length_readItem (not_or.mp done).1
        rw [parsePart_eq]
        dsimp only
        by_cases broken :
            (readItem text).1.label = none ∨ (readItem text).1.mark = none
        · rw [if_pos broken]
          unfold evaluate
          have never : ∀ part,
              (readItem text).1.evaluate geometry base ret ≠ .next part :=
            fun part => Item.evaluate_broken geometry broken
          cases result : (readItem text).1.evaluate geometry base ret with
          | error | outside => rfl
          | next part => exact absurd result (never part)
        · rw [if_neg broken]
          conv_rhs => unfold evaluate
          cases (readItem text).1.evaluate geometry base ret with
          | error | outside => rfl
          | next part =>
              dsimp only [Step.bind]
              split
              · rfl
              · exact induction (by omega)

end Reading

section Evaluation

variable (geometry : Geometry)

/-- A number as `ALIGN_UP` leaves it, or what to take without one. -/
def amount (text : Option (List UInt8)) (default : Nat) : Nat :=
  match text with
  | none => default
  | some text => blocks geometry text % 2 ^ 32

theorem evaluateNumber_of_unreadable {text : Option (List UInt8)}
    {default : Nat} {ret : Int} (unreadable : Unreadable text) :
    evaluateNumber geometry text default ret = .error einval := by
  cases text with
  | none => exact unreadable.elim
  | some text =>
      simp only [evaluateNumber, if_neg (Nat.not_le.mpr unreadable.1),
        unreadable.2]

theorem evaluateNumber_of_readable {text : Option (List UInt8)}
    {default : Nat} {ret : Int} (readable : Readable text)
    (nonpositive : ret ≤ 0) :
    ∃ next ≤ 0, evaluateNumber geometry text default ret =
      .next (amount geometry text default, next) := by
  cases text with
  | none => exact ⟨ret, nonpositive, rfl⟩
  | some text =>
      obtain ⟨value, found⟩ := Option.ne_none_iff_exists'.mp readable.2
      refine ⟨0, Int.le_refl 0, ?_⟩
      simp only [evaluateNumber, if_neg (Nat.not_le.mpr readable.1), found,
        amount, blocks, Option.getD_some, alignUp_eq geometry.eraseSize_pos
          geometry.eraseSize_lt (hrStrToVal_lt found)]

theorem evaluateNumber_of_neither {text : Option (List UInt8)}
    {default : Nat} {ret : Int} (notReadable : ¬ Readable text)
    (notUnreadable : ¬ Unreadable text) :
    evaluateNumber geometry text default ret = .outside := by
  cases text with
  | none => exact (notReadable trivial).elim
  | some text =>
      have long : buffSize ≤ text.length := by
        by_contra short
        by_cases none : hrStrToVal text = none
        · exact notUnreadable ⟨Nat.not_le.mp short, none⟩
        · exact notReadable ⟨Nat.not_le.mp short, none⟩
      exact if_pos long

/-- The part that an item gives. -/
def Item.entry (base : Nat) (item : Item) : PartAttr where
  base := item.start geometry base
  size := item.extent geometry base % 2 ^ 32
  label := item.label.getD []
  readOnly := item.mark.getD false

theorem amount_size {base : Nat} (below : base < geometry.chipSize)
    (item : Item) :
    amount geometry item.size (sub32 geometry.chipSize base) =
      item.extent geometry base % 2 ^ 32 := by
  unfold amount Item.extent
  have small := geometry.chipSize_lt
  cases item.size with
  | none =>
      dsimp only
      rw [sub32_of_le small (Nat.le_of_lt below),
        Nat.mod_eq_of_lt (by omega)]
  | some text => rfl

theorem amount_offset (base : Nat) (item : Item) :
    amount geometry item.offset base = item.start geometry base := by
  unfold amount Item.start
  cases item.offset <;> rfl

theorem Item.evaluate_of_refused {item : Item} {base : Nat} {ret : Int}
    (nonpositive : ret ≤ 0) (refused : item.Refused) :
    item.evaluate geometry base ret = .error einval := by
  unfold Item.evaluate
  rcases refused with size | ⟨size, offset | ⟨offset, label, mark⟩⟩
  · rw [evaluateNumber_of_unreadable geometry size]
    rfl
  · obtain ⟨next, -, sized⟩ :=
      evaluateNumber_of_readable geometry size nonpositive
    rw [sized]
    simp only [Step.bind]
    rw [evaluateNumber_of_unreadable geometry offset]
  · obtain ⟨next, nonpositive, sized⟩ :=
      evaluateNumber_of_readable geometry size nonpositive
    obtain ⟨last, -, based⟩ :=
      evaluateNumber_of_readable geometry offset nonpositive
    obtain ⟨name, named⟩ := Option.ne_none_iff_exists'.mp label
    rw [sized]
    simp only [Step.bind]
    rw [based]
    simp only [named, mark]

theorem Item.evaluate_of_passes {item : Item} {base : Nat} {ret : Int}
    (nonpositive : ret ≤ 0) (below : base < geometry.chipSize)
    (passes : item.Passes) :
    ∃ next ≤ 0, item.evaluate geometry base ret =
      .next (item.entry geometry base, next) := by
  obtain ⟨size, offset, label, mark⟩ := passes
  obtain ⟨next, nonpositive, sized⟩ :=
    evaluateNumber_of_readable geometry size nonpositive
  obtain ⟨last, nonpositive, based⟩ :=
    evaluateNumber_of_readable geometry offset nonpositive
  obtain ⟨name, named⟩ := Option.ne_none_iff_exists'.mp label
  obtain ⟨readOnly, marked⟩ := Option.ne_none_iff_exists'.mp mark
  refine ⟨last, nonpositive, ?_⟩
  unfold Item.evaluate
  rw [sized]
  simp only [Step.bind]
  rw [based]
  simp only [named, marked, Item.entry, amount_size geometry below,
    amount_offset, Option.getD_some]

theorem Item.evaluate_of_neither {item : Item} {base : Nat} {ret : Int}
    (nonpositive : ret ≤ 0) (notRefused : ¬ item.Refused)
    (notPasses : ¬ item.Passes) :
    item.evaluate geometry base ret = .outside := by
  unfold Item.evaluate
  by_cases size : Readable item.size
  · obtain ⟨next, nonpositive, sized⟩ :=
      evaluateNumber_of_readable geometry size nonpositive
    rw [sized]
    simp only [Step.bind]
    by_cases offset : Readable item.offset
    · obtain ⟨last, -, based⟩ :=
        evaluateNumber_of_readable geometry offset nonpositive
      rw [based]
      have unclosed : item.label = none := by
        by_contra label
        by_cases mark : item.mark = none
        · exact notRefused (.inr ⟨size, .inr ⟨offset, label, mark⟩⟩)
        · exact notPasses ⟨size, offset, label, mark⟩
      simp only [unclosed]
    · rw [evaluateNumber_of_neither geometry offset fun unreadable =>
        notRefused (.inr ⟨size, .inl unreadable⟩)]
  · rw [evaluateNumber_of_neither geometry size fun unreadable =>
      notRefused (.inl unreadable)]
    rfl

end Evaluation

end Witos.Flash
