import Mathlib.Data.List.GetD
import Witos.Library.CommonPrefix
import Witos.Shell.EditorBounds

/-!
# Completion of a command

`cmd_match` compares what stands before the cursor, without the blanks in front
of it, with the names of all commands, and goes through the rows of its table
column by column for as long as they agree.
-/

namespace Witos.Shell

open Library

/-- The beginning of a command: some characters, the first of which is not a
blank. -/
structure IsWord (word : List UInt8) : Prop where
  nonempty : word ≠ []
  noBlank : word.head? ≠ some blank
  noZero : 0 ∉ word

/-- The commands that begin so: `help` and those that are registered. -/
def matching (names : List (List UInt8)) (word : List UInt8) :
    List (List UInt8) :=
  (helpName :: names).filter word.isPrefixOf

/-- What completes a word: the rest of the only command with a blank at the end
of the line, or the rest of the longest common prefix of several. -/
structure Completes (found : List (List UInt8)) (word : List UInt8)
    (atEnd : Prop) (inserted : List UInt8) : Prop where
  none : found = [] → inserted = []
  one : ∀ name, found = [name] → (atEnd → inserted =
    name.drop word.length ++ [blank]) ∧
    (¬ atEnd → inserted = name.drop word.length)
  several : 2 ≤ found.length → IsLongestCommon found (word ++ inserted)

/-- A word stands before the cursor behind some blanks, and there is room for
what completes it. -/
structure Completing (names : List (List UInt8)) (surroundings : Surroundings)
    (line : Line) (spaces : Nat) (word : List UInt8) : Prop where
  bounded : line.Bounded
  before : line.text.take line.curPos =
    List.replicate spaces blank ++ word
  isWord : IsWord word
  /-- Names are C strings. -/
  strings : ∀ name ∈ names, 0 ∉ name
  allocated : surroundings.memory = true
  rows : (matching names word).length ≤ names.length
  fits : ∀ name ∈ matching names word, name.length < maxArgLen
  room : ∀ inserted, Completes (matching names word) word
    (line.curPos = line.curMax) inserted →
      line.curMax + inserted.length ≤ maxArgLen - 1

section Matches

variable {line : Line} {spaces : Nat} {word : List UInt8}

theorem lies_before (order : line.curPos ≤ line.curMax)
    (before : line.text.take line.curPos =
      List.replicate spaces blank ++ word) :
    Lies line.bytes 0 (List.replicate spaces blank) ∧
      Lies line.bytes spaces word ∧ line.curPos = spaces + word.length := by
  have length := congrArg List.length before
  rw [List.length_take, Line.length_text, Nat.min_eq_left order,
    List.length_append, List.length_replicate] at length
  have whole : Lies line.bytes 0 (List.replicate spaces blank ++ word) := by
    unfold Lies
    rw [← before, Line.text, ← List.map_take, List.take_range,
      Nat.min_eq_left order]
    simp [slice]
  obtain ⟨first, second⟩ := lies_append.mp whole
  rw [List.length_replicate, Nat.zero_add] at second
  exact ⟨first, second, length⟩

theorem preSpaceCount_eq (blanks : Lies line.bytes 0
    (List.replicate spaces blank)) (lies : Lies line.bytes spaces word)
    (isWord : IsWord word) (short : spaces < maxArgLen) :
    preSpaceCount line = spaces := by
  obtain ⟨nonempty, noBlank, -⟩ := isWord
  cases word with
  | nil => exact absurd rfl nonempty
  | cons char word =>
      have first : (line.bytes spaces == blank) = false := by
        rw [(lies_cons.mp lies).1]
        exact beq_eq_false_iff_ne.mpr fun same => noBlank (congrArg some same)
      have inFront : slice line.bytes 0 spaces =
          List.replicate spaces blank := by
        unfold Lies at blanks
        rwa [List.length_replicate] at blanks
      have buffer : (List.range maxArgLen).map line.bytes =
          List.replicate spaces blank ++ line.bytes spaces ::
            slice line.bytes (spaces + 1) (maxArgLen - 1 - spaces) := by
        have parts := slice_append line.bytes 0 spaces
          (maxArgLen - 1 - spaces + 1)
        rw [inFront, Nat.zero_add, slice_succ] at parts
        have total : spaces + (maxArgLen - 1 - spaces + 1) = maxArgLen := by
          omega
        rw [parts, total]
        simp [slice]
      rw [preSpaceCount, buffer, List.takeWhile_append_of_pos (by simp),
        List.takeWhile_cons, first]
      simp

theorem sameName_iff {bytes : Nat → UInt8} {index : Nat}
    (name : List UInt8) (lies : Lies bytes index word) (noZero : 0 ∉ word) :
    sameName bytes name index word.length = word.isPrefixOf name := by
  induction name generalizing word index with
  | nil =>
      cases word with
      | nil => rfl
      | cons char word =>
          have first := (lies_cons.mp lies).1
          have notZero := List.ne_of_not_mem_cons noZero
          have ended : (bytes index == 0) = false := by
            rw [first]
            exact beq_eq_false_iff_ne.mpr notZero.symm
          rw [sameName, ended]
          rfl
  | cons other name induction =>
      cases word with
      | nil => rfl
      | cons char word =>
          obtain ⟨first, later⟩ := lies_cons.mp lies
          have rest := induction later (List.not_mem_of_not_mem_cons noZero)
          rw [sameName, first, List.length_cons, Nat.add_sub_cancel, rest]
          rfl

theorem pszResult_eq (names : List (List UInt8))
    (order : line.curPos ≤ line.curMax) (short : line.curMax < maxArgLen)
    (before : line.text.take line.curPos =
      List.replicate spaces blank ++ word) (isWord : IsWord word) :
    pszResult names line = matching names word := by
  obtain ⟨blanks, lies, length⟩ := lies_before order before
  have positive := List.length_pos_iff.mpr isWord.nonempty
  have count := preSpaceCount_eq blanks lies isWord (by omega)
  have isCompared : compared line = word.length := by
    rw [compared, count, if_pos (by omega)]
    omega
  have notFirst : (line.curPos == 0) = false := by
    apply beq_eq_false_iff_ne.mpr
    omega
  unfold pszResult matching
  apply List.filter_congr
  intro name _
  rw [notFirst, Bool.false_or, count, isCompared]
  exact sameName_iff name lies isWord.noZero

end Matches

/-- The loop over the columns goes on behind this one. -/
def goesOn (around : Nat → Int → UInt8) (results : List (List UInt8))
    (index : Int) : Bool :=
  let char := resultChar around results 0 index
  char != 0 && (List.range results.length).all fun row =>
    resultChar around results row index == char

section Columns

variable {around : Nat → Int → UInt8} {results : List (List UInt8)}

theorem agreed_succ (fuel : Nat) (index : Int) :
    agreed around results (fuel + 1) index =
      if goesOn around results index then
        resultChar around results 0 index ::
          agreed around results fuel (index + 1)
      else [] := by
  rw [agreed, goesOn]
  by_cases ended : resultChar around results 0 index = 0 <;> simp [ended]

theorem resultChar_eq {row index : Nat} {name : List UInt8}
    (isRow : results[row]? = some name) (inside : index ≤ name.length) :
    resultChar around results row index = name.getD index 0 := by
  have isName : results.getD row [] = name := by
    rw [List.getD_eq_getElem?_getD, isRow, Option.getD_some]
  unfold resultChar
  dsimp only
  rw [isName, if_pos ⟨Int.natCast_nonneg _, by exact_mod_cast inside⟩]
  rfl

theorem getD_eq_iff {name : List UInt8} {index : Nat} {char : UInt8}
    (notZero : char ≠ 0) :
    name.getD index 0 = char ↔ name[index]? = some char := by
  rw [List.getD_eq_getElem?_getD]
  cases name[index]? with
  | none => simp [notZero.symm]
  | some other => simp

section Shared

variable {first shared : List UInt8} (isFirst : results[0]? = some first)
  (common : IsCommonPrefix results shared)

include isFirst common

theorem goesOn_iff : goesOn around results shared.length = true ↔
    first.getD shared.length 0 ≠ 0 ∧
      ∀ name ∈ results, name.getD shared.length 0 =
        first.getD shared.length 0 := by
  have column (row : Nat) (name : List UInt8)
      (isRow : results[row]? = some name) :
      resultChar around results row shared.length =
        name.getD shared.length 0 :=
    resultChar_eq isRow
      (common name (List.mem_of_getElem? isRow)).length_le
  rw [goesOn, column 0 first isFirst, Bool.and_eq_true, bne_iff_ne,
    List.all_eq_true]
  refine and_congr_right fun _ => ?_
  constructor
  · intro same name member
    obtain ⟨row, isRow⟩ := List.getElem?_of_mem member
    have inTable := (List.getElem?_eq_some_iff.mp isRow).1
    have equal := beq_iff_eq.mp (same row (List.mem_range.mpr inTable))
    rwa [column row name isRow] at equal
  · intro same row inTable
    have isRow := List.getElem?_eq_getElem (List.mem_range.mp inTable)
    rw [column row _ isRow]
    exact beq_iff_eq.mpr (same _ (List.mem_of_getElem? isRow))

theorem common_of_goesOn
    (goes : goesOn around results shared.length = true) :
    IsCommonPrefix results (shared ++ [first.getD shared.length 0]) := by
  obtain ⟨notZero, same⟩ := (goesOn_iff isFirst common).mp goes
  apply common.concat
  intro name member
  exact (getD_eq_iff notZero).mp (same name member)

/-- Where the columns end, a name is at its end or two names differ. -/
theorem longest_of_stops (strings : ∀ name ∈ results, 0 ∉ name)
    (stops : ¬ goesOn around results shared.length = true) :
    IsLongestCommon results shared := by
  have firstMember := List.mem_of_getElem? isFirst
  rw [goesOn_iff isFirst common, not_and_or, not_not] at stops
  rcases stops with ended | differ
  · have all : shared.length = first.length := by
      by_contra shorter
      have goesOn : shared.length < first.length :=
        Nat.lt_of_le_of_ne (common first firstMember).length_le shorter
      rw [List.getD_eq_getElem _ _ goesOn] at ended
      exact strings first firstMember (List.mem_of_getElem ended)
    have same := (common first firstMember).eq_of_length all
    exact common.longest_of_mem (same ▸ firstMember)
  · push Not at differ
    obtain ⟨name, member, differs⟩ := differ
    refine common.longest_of_ne firstMember member ?_
    intro same
    rw [List.getD_eq_getElem?_getD, List.getD_eq_getElem?_getD, same]
      at differs
    exact differs rfl

end Shared

/-- The columns are gone through up to the end of the longest common prefix. -/
theorem agreed_longest (strings : ∀ name ∈ results, 0 ∉ name)
    {first : List UInt8} (isFirst : results[0]? = some first) {fuel : Nat}
    {shared : List UInt8} (enough : first.length < shared.length + fuel)
    (common : IsCommonPrefix results shared) :
    IsLongestCommon results
      (shared ++ agreed around results fuel shared.length) := by
  have inside :=
    (common first (List.mem_of_getElem? isFirst)).length_le
  induction fuel generalizing shared with
  | zero => omega
  | succ fuel induction =>
      rw [agreed_succ]
      split
      · rename_i goes
        have longer := common_of_goesOn isFirst common goes
        have next := (longer first (List.mem_of_getElem? isFirst)).length_le
        have rest := induction (by
          rw [List.length_append, List.length_singleton]
          omega) longer next
        have char : resultChar around results 0 shared.length =
            first.getD shared.length 0 := resultChar_eq isFirst inside
        rw [List.append_assoc, List.length_append,
          List.length_singleton] at rest
        rw [char]
        exact rest
      · rename_i stops
        rw [List.append_nil]
        exact longest_of_stops isFirst common strings stops

theorem rowFrom_eq (name : List UInt8) {start : Nat}
    (inside : start ≤ name.length) :
    (List.range (name.length - start)).map (fun offset : Nat =>
      resultChar around [name] 0 (start + offset)) = name.drop start := by
  apply List.ext_getElem
  · simp
  · intro offset left right
    have bound : start + offset < name.length := by
      rw [List.length_drop] at right
      omega
    have char : resultChar around [name] 0 (start + offset : Nat) =
        name.getD (start + offset) 0 := resultChar_eq rfl bound.le
    rw [Int.natCast_add] at char
    rw [List.getElem_map, List.getElem_range, char, List.getElem_drop]
    exact List.getD_eq_getElem _ _ bound

end Columns

theorem insertAll_text (chars : List UInt8) {line : Line}
    (order : line.curPos ≤ line.curMax) :
    (chars.foldl (fun line char => line.insertOneKey char) line).text =
      line.text.take line.curPos ++
        (chars ++ line.text.drop line.curPos) := by
  induction chars generalizing line with
  | nil => exact (List.take_append_drop _ _).symm
  | cons char chars induction =>
      have next : (line.insertOneKey char).curPos ≤
          (line.insertOneKey char).curMax := Nat.add_le_add_right order 1
      have inserted : (line.insertOneKey char).text =
          (line.text.take line.curPos ++ [char]) ++
            line.text.drop line.curPos := by
        rw [line.insertOneKey_text char order, List.append_assoc]
        rfl
      have inFront : (line.text.take line.curPos ++ [char]).length =
          line.curPos + 1 := by
        rw [List.length_append, List.length_take, Line.length_text,
          Nat.min_eq_left order, List.length_singleton]
      have text := induction next
      rw [Line.insertOneKey_curPos, inserted, List.take_left' inFront,
        List.drop_left' inFront, List.append_assoc] at text
      rw [List.foldl_cons, text]
      rfl

theorem prefix_of_matching {names : List (List UInt8)} {word : List UInt8}
    {name : List UInt8} (found : name ∈ matching names word) :
    word <+: name :=
  List.isPrefixOf_iff_prefix.mp (List.mem_filter.mp found).2

theorem strings_of_matching {names : List (List UInt8)} {word : List UInt8}
    (strings : ∀ name ∈ names, 0 ∉ name) :
    ∀ name ∈ matching names word, 0 ∉ name := by
  intro name found
  rcases List.mem_cons.mp (List.mem_filter.mp found).1 with rfl | member
  · decide
  · exact strings name member

namespace Completing

variable {names : List (List UInt8)} {surroundings : Surroundings}
  {line : Line} {spaces : Nat} {word : List UInt8}
  (completing : Completing names surroundings line spaces word)

include completing

theorem curMax_lt : line.curMax < maxArgLen :=
  Nat.lt_of_le_of_lt completing.bounded.short (by decide)

theorem curPos_eq : line.curPos = spaces + word.length :=
  (lies_before completing.bounded.order completing.before).2.2

theorem spaces_eq : preSpaceCount line = spaces := by
  have order := completing.bounded.order
  have short := completing.curMax_lt
  obtain ⟨blanks, lies, length⟩ := lies_before order completing.before
  exact preSpaceCount_eq blanks lies completing.isWord (by omega)

theorem results_eq : pszResult names line = matching names word :=
  pszResult_eq names completing.bounded.order completing.curMax_lt
    completing.before completing.isWord

theorem one {name : List UInt8} (found : matching names word = [name]) :
    Completes [name] word (line.curPos = line.curMax)
      ((List.range (name.length + preSpaceCount line - line.curPos)).map
          (fun offset : Nat => resultChar surroundings.around [name] 0
            (word.length + offset)) ++
        if line.curPos = line.curMax then [blank] else []) := by
  have begins : word <+: name :=
    prefix_of_matching (found ▸ List.mem_singleton_self name)
  have rest : name.length + preSpaceCount line - line.curPos =
      name.length - word.length := by
    rw [completing.spaces_eq, completing.curPos_eq]
    omega
  rw [rest, rowFrom_eq name begins.length_le]
  refine ⟨by simp, ?_, by simp⟩
  rintro other same
  obtain rfl := List.singleton_inj.mp same
  constructor
  · intro atEnd
    rw [if_pos atEnd]
  · intro within
    rw [if_neg within, List.append_nil]

theorem several (around : Nat → Int → UInt8)
    (found : 2 ≤ (matching names word).length) :
    Completes (matching names word) word (line.curPos = line.curMax)
      (agreed around (matching names word) maxArgLen word.length) := by
  have strings := @strings_of_matching names word completing.strings
  have fits := completing.fits
  have common : IsCommonPrefix (matching names word) word :=
    fun name member => prefix_of_matching member
  generalize matching names word = results at found strings fits common
  cases results with
  | nil => exact absurd found (by decide)
  | cons first others =>
      have enough : first.length < word.length + maxArgLen :=
        Nat.lt_add_left _ (fits first List.mem_cons_self)
      have longest := @agreed_longest around _ strings first rfl _ _ enough
        common
      refine ⟨by simp, ?_, fun _ => longest⟩
      intro name same
      rw [same] at found
      exact absurd found (Nat.not_succ_le_self 1)

/-- What `cmd_match` inserts completes the word. -/
theorem completes : Completes (matching names word) word
    (line.curPos = line.curMax) (completion names surroundings line) := by
  have start : (line.curPos : Int) - preSpaceCount line = word.length := by
    rw [completing.spaces_eq, completing.curPos_eq]
    omega
  unfold completion
  dsimp only
  rw [completing.results_eq, start]
  split
  · rename_i found
    rw [found]
    exact ⟨fun _ => rfl, by simp, by simp⟩
  · rename_i name found
    rw [found, List.bind_eq_flatMap]
    simp only [List.pure_def]
    rw [← List.map_eq_flatMap, List.map_map]
    exact completing.one found
  · rename_i none one
    apply completing.several
    cases found : matching names word with
    | nil => exact absurd found none
    | cons name others =>
        cases others with
        | nil => exact absurd found (one name)
        | cons other others => simp

end Completing

/-- `cmd_match` inserts at the cursor what completes the word. -/
theorem cmdMatch_completes {names : List (List UInt8)}
    {surroundings : Surroundings} {line : Line} {spaces : Nat}
    {word : List UInt8}
    (completing : Completing names surroundings line spaces word) :
    ∃ inserted, Completes (matching names word) word
        (line.curPos = line.curMax) inserted ∧
      (cmdMatch names surroundings line).text =
        line.text.take line.curPos ++
          (inserted ++ line.text.drop line.curPos) ∧
      (cmdMatch names surroundings line).curPos =
        line.curPos + inserted.length ∧
      (cmdMatch names surroundings line).Bounded ∧
      (matching names word = [] →
        cmdMatch names surroundings line = line) := by
  have completes := completing.completes
  have text := insertAll_text (completion names surroundings line)
    completing.bounded.order
  have place := insertAll_curPos (completion names surroundings line) line
  have kept := completing.bounded.insertAll _ (completing.room _ completes)
  rw [cmdMatch, if_pos completing.allocated]
  refine ⟨_, completes, text, place, kept, ?_⟩
  intro nothing
  rw [completes.none nothing]
  rfl

/-- A blank and the first letter of `ls`. -/
def blankL : Line :=
  [blank, 0x6c].foldl (fun line char => line.insertOneKey char)
    ⟨fun _ => 0, 0, 0, true⟩

theorem completing_blankL :
    Completing [[0x6c, 0x73]] calm blankL 1 [0x6c] where
  bounded := ⟨by decide, by decide, rfl⟩
  before := rfl
  isWord := ⟨by decide, by decide, by decide⟩
  strings := by decide
  allocated := rfl
  rows := by decide
  fits := by decide
  room := by
    intro inserted completes
    have rest := (completes.one [0x6c, 0x73] rfl).1 rfl
    rw [rest]
    decide

theorem cmdMatch_completes_ls :
    ∃ inserted, Completes (matching [[0x6c, 0x73]] [0x6c]) [0x6c]
        (blankL.curPos = blankL.curMax) inserted ∧
      (cmdMatch [[0x6c, 0x73]] calm blankL).text =
        blankL.text.take blankL.curPos ++
          (inserted ++ blankL.text.drop blankL.curPos) ∧
      (cmdMatch [[0x6c, 0x73]] calm blankL).curPos =
        blankL.curPos + inserted.length ∧
      (cmdMatch [[0x6c, 0x73]] calm blankL).Bounded ∧
      (matching [[0x6c, 0x73]] [0x6c] = [] →
        cmdMatch [[0x6c, 0x73]] calm blankL = blankL) :=
  cmdMatch_completes completing_blankL

end Witos.Shell
