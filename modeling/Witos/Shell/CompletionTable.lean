import Witos.Shell.Completion

/-!
# The table of a completion

`cmd_match` allocates a row of `MAX_ARG_LEN` bytes for every registered
command, and copies into the table the commands that match, which may be
`help` as well.  The rows are read at the cursor less the leading blanks.
-/

namespace Witos.Shell

/-- Whether a command is copied into the table. -/
def isCopied (line : Line) (name : List UInt8) : Bool :=
  line.curPos == 0 ||
    sameName line.bytes name (preSpaceCount line) (compared line)

/-- The index the rows are read from: `*cur_pos - pre_space_count`. -/
def startIndex (line : Line) : Int :=
  line.curPos - preSpaceCount line

/-- How often a row is read: once for every character that is inserted, and
with several rows once more to find out that they end. -/
def readCount (names : List (List UInt8)) (surroundings : Surroundings)
    (line : Line) : Nat :=
  let results := pszResult names line
  match results with
  | [] => 0
  | [name] => name.length + preSpaceCount line - line.curPos
  | _ =>
      (agreed surroundings.around results maxArgLen
        (startIndex line)).length + 1

/-- An index is inside of a row. -/
def InRow (index : Int) : Prop :=
  0 ≤ index ∧ index < maxArgLen

/-- The table is large enough. -/
structure TableBounds (names : List (List UInt8))
    (surroundings : Surroundings) (line : Line) : Prop where
  rows : (pszResult names line).length ≤ names.length
  /-- `strcpy`, `strlen` and `printf` go up to the terminator. -/
  copied : ∀ name ∈ pszResult names line, ∀ index ≤ name.length,
    InRow (index : Nat)
  read : ∀ offset < readCount names surroundings line,
    InRow (startIndex line + offset)

/-- The columns end inside of the rows. -/
def EndsInRow (around : Nat → Int → UInt8) (results : List (List UInt8))
    (start : Int) : Prop :=
  ∃ index, start ≤ index ∧ index < maxArgLen ∧
    goesOn around results index = false

/-- Some command is left out, those that are copied fit in a row, the leading
blanks are before the cursor, and the columns come to an end. -/
structure TableSuffices (names : List (List UInt8))
    (surroundings : Surroundings) (line : Line) : Prop where
  leftOut : ∃ name ∈ helpName :: names, isCopied line name = false
  short : ∀ name ∈ helpName :: names, isCopied line name = true →
    name.length < maxArgLen
  blanksBefore : ∀ name ∈ helpName :: names, isCopied line name = true →
    preSpaceCount line ≤ line.curPos
  ends : 2 ≤ ((helpName :: names).filter (isCopied line)).length →
    EndsInRow surroundings.around
      ((helpName :: names).filter (isCopied line)) (startIndex line)

theorem pszResult_eq_filter (names : List (List UInt8)) (line : Line) :
    pszResult names line = (helpName :: names).filter (isCopied line) :=
  rfl

theorem rows_iff {names : List (List UInt8)} {line : Line} :
    (pszResult names line).length ≤ names.length ↔
      ∃ name ∈ helpName :: names, isCopied line name = false := by
  have fewer := List.length_filter_lt_length_iff_exists
    (p := isCopied line) (l := helpName :: names)
  simp only [Bool.not_eq_true] at fewer
  rw [← fewer, pszResult_eq_filter, List.length_cons]
  exact Nat.lt_succ_iff.symm

theorem copied_iff {results : List (List UInt8)} :
    (∀ name ∈ results, ∀ index ≤ name.length, InRow (index : Nat)) ↔
      ∀ name ∈ results, name.length < maxArgLen := by
  constructor
  · intro inside name member
    exact_mod_cast (inside name member name.length (Nat.le_refl _)).2
  · intro short name member index bound
    refine ⟨Int.natCast_nonneg _, ?_⟩
    exact_mod_cast Nat.lt_of_le_of_lt bound (short name member)

theorem endsInRow_next {around : Nat → Int → UInt8}
    {results : List (List UInt8)} {start : Int}
    (goes : goesOn around results start = true) :
    EndsInRow around results start ↔ EndsInRow around results (start + 1) := by
  constructor
  · rintro ⟨index, late, early, ends⟩
    have later : start ≠ index := by
      rintro rfl
      rw [goes] at ends
      cases ends
    exact ⟨index, by omega, early, ends⟩
  · rintro ⟨index, late, early, ends⟩
    exact ⟨index, by omega, early, ends⟩

theorem agreed_ends_iff {around : Nat → Int → UInt8}
    {results : List (List UInt8)} {fuel : Nat} {start : Int}
    (enough : (maxArgLen : Int) ≤ start + fuel) :
    start + (agreed around results fuel start).length < maxArgLen ↔
      EndsInRow around results start := by
  induction fuel generalizing start with
  | zero =>
      have beyond : ¬ start < maxArgLen := by omega
      constructor
      · intro inside
        exact absurd (Int.add_zero start ▸ inside) beyond
      · rintro ⟨index, late, early, -⟩
        exact absurd (Int.lt_of_le_of_lt late early) beyond
  | succ fuel induction =>
      rw [agreed_succ]
      split
      · rename_i goes
        rw [endsInRow_next goes, ← induction (by omega), List.length_cons]
        omega
      · rename_i stops
        have ends : goesOn around results start = false :=
          Bool.eq_false_iff.mpr stops
        constructor
        · intro inside
          exact ⟨start, Int.le_refl _, Int.add_zero start ▸ inside, ends⟩
        · rintro ⟨index, late, early, -⟩
          exact (Int.add_zero start).symm ▸ Int.lt_of_le_of_lt late early

/-- The columns end inside of the rows where the first row is not yet at its
end. -/
theorem endsInRow_of_le {around : Nat → Int → UInt8} {first : List UInt8}
    {others : List (List UInt8)} {start : Int}
    (short : first.length < maxArgLen) (within : start ≤ first.length) :
    EndsInRow around (first :: others) start := by
  refine ⟨first.length, within, by exact_mod_cast short, ?_⟩
  have ended : resultChar around (first :: others) 0 first.length =
      first.getD first.length 0 := resultChar_eq rfl (Nat.le_refl _)
  rw [goesOn, ended, List.getD_eq_default _ _ (Nat.le_refl _)]
  rfl

/-- All accesses are inside of the rows when the first and the last one are. -/
theorem inRow_all_iff {start : Int} {count : Nat} :
    (∀ offset < count, InRow (start + (offset : Nat))) ↔
      count = 0 ∨ (0 ≤ start ∧ start + count ≤ maxArgLen) := by
  unfold InRow
  constructor
  · intro inside
    rcases Nat.eq_zero_or_pos count with none | positive
    · exact Or.inl none
    · have first := inside 0 positive
      have last := inside (count - 1) (by omega)
      exact Or.inr ⟨by omega, by omega⟩
  · rintro (rfl | ⟨first, last⟩) offset bound
    · exact absurd bound (Nat.not_lt_zero _)
    · exact ⟨by omega, by omega⟩

theorem startIndex_nonneg_iff {line : Line} :
    0 ≤ startIndex line ↔ preSpaceCount line ≤ line.curPos := by
  unfold startIndex
  omega

theorem read_iff {names : List (List UInt8)} {surroundings : Surroundings}
    {line : Line}
    (short : ∀ name ∈ pszResult names line, name.length < maxArgLen) :
    (∀ offset < readCount names surroundings line,
        InRow (startIndex line + (offset : Nat))) ↔
      (∀ name ∈ pszResult names line, preSpaceCount line ≤ line.curPos) ∧
      (2 ≤ (pszResult names line).length →
        EndsInRow surroundings.around (pszResult names line)
          (startIndex line)) := by
  rw [inRow_all_iff, readCount]
  generalize pszResult names line = results at short ⊢
  cases results with
  | nil => simp
  | cons first others =>
      have firstShort := short first List.mem_cons_self
      cases others with
      | nil =>
          simp only [List.mem_singleton, forall_eq, List.length_singleton,
            startIndex]
          omega
      | cons second others =>
          have several : 2 ≤ (first :: second :: others).length := by simp
          have start := @startIndex_nonneg_iff line
          dsimp only
          have ends := @agreed_ends_iff surroundings.around
            (first :: second :: others) maxArgLen (startIndex line)
          constructor
          · rintro (none | ⟨nonneg, last⟩)
            · cases none
            · refine ⟨fun _ _ => start.mp nonneg, fun _ => ?_⟩
              apply (ends (by omega)).mp
              omega
          · rintro ⟨before, inRow⟩
            have nonneg := start.mpr (before first List.mem_cons_self)
            have last := (ends (by omega)).mpr (inRow several)
            exact Or.inr ⟨nonneg, by omega⟩

/-- A word before the cursor that not all commands begin with is completed
within the table. -/
theorem Completing.tableSuffices {names : List (List UInt8)}
    {surroundings : Surroundings} {line : Line} {spaces : Nat}
    {word : List UInt8}
    (completing : Completing names surroundings line spaces word) :
    TableSuffices names surroundings line := by
  have count := completing.spaces_eq
  have length := completing.curPos_eq
  have results := completing.results_eq
  have start : startIndex line = word.length := by
    rw [startIndex, count, length]
    omega
  refine ⟨?_, ?_, ?_, ?_⟩
  · apply rows_iff.mp
    rw [results]
    exact completing.rows
  · intro name member isCopied
    apply completing.fits
    rw [← results]
    exact List.mem_filter.mpr ⟨member, isCopied⟩
  · intro name _ _
    omega
  · intro several
    rw [← pszResult_eq_filter, results] at several ⊢
    rw [start]
    cases found : matching names word with
    | nil =>
        rw [found] at several
        cases several
    | cons first others =>
        have firstMember : first ∈ matching names word := by
          rw [found]
          exact List.mem_cons_self
        have within := (prefix_of_matching firstMember).length_le
        exact endsInRow_of_le (completing.fits first firstMember)
          (by exact_mod_cast within)

/-- The table is large enough if and only if it suffices for the commands that
are copied. -/
theorem tableBounds_iff (names : List (List UInt8))
    (surroundings : Surroundings) (line : Line) :
    (surroundings.memory = true → TableBounds names surroundings line) ↔
      surroundings.memory = false ∨
        TableSuffices names surroundings line := by
  have copies {name : List UInt8} : name ∈ pszResult names line ↔
      name ∈ helpName :: names ∧ isCopied line name = true :=
    List.mem_filter
  cases allocated : surroundings.memory with
  | false => simp
  | true =>
      constructor
      · intro bounds
        obtain ⟨rows, copied, read⟩ := bounds rfl
        have short := copied_iff.mp copied
        obtain ⟨before, ends⟩ := (read_iff short).mp read
        refine Or.inr ⟨rows_iff.mp rows, ?_, ?_, ends⟩
        · intro name member isCopied
          exact short name (copies.mpr ⟨member, isCopied⟩)
        · intro name member isCopied
          exact before name (copies.mpr ⟨member, isCopied⟩)
      · rintro (failed | enough) _
        · cases failed
        · have short : ∀ name ∈ pszResult names line,
              name.length < maxArgLen := by
            intro name member
            obtain ⟨command, isCopied⟩ := copies.mp member
            exact enough.short name command isCopied
          have before : ∀ name ∈ pszResult names line,
              preSpaceCount line ≤ line.curPos := by
            intro name member
            obtain ⟨command, isCopied⟩ := copies.mp member
            exact enough.blanksBefore name command isCopied
          have read := (read_iff short).mpr ⟨before, enough.ends⟩
          exact ⟨rows_iff.mpr enough.leftOut, copied_iff.mpr short, read⟩

/-- `ls` is the only registered command, and nothing has been typed. -/
theorem not_tableBounds_empty :
    ¬ (calm.memory = true →
      TableBounds [[0x6c, 0x73]] calm ⟨fun _ => 0, 0, 0, true⟩) := by
  intro bounds
  exact absurd (bounds rfl).rows (by decide)

end Witos.Shell
