import Witos.Shell.EditorZipper

/-!
# The bounds of the line editor

The cursors and all stores stay inside the buffer as long as every key that
inserts finds room behind `cur_max`.  `print_input` looks at `cur_pos` only and
completion does not look at all, so a key without room breaks the bounds at
once.
-/

namespace Witos.Shell

open Library

/-- The bounds of the cursors, and no store outside of the buffer so far. -/
structure Line.Bounded (line : Line) : Prop where
  order : line.curPos ≤ line.curMax
  short : line.curMax ≤ maxArgLen - 1
  inside : line.inside = true

/-- The slots the down key comes back through are filled. -/
inductive Filled (commands : CommandStack) : Fin 16 → Prop
  | present : Filled commands commands.hist
  | older {index : Fin 16} (here : commands.stack index ≠ none)
      (next : commands.stack (index + 1) ≠ none)
      (later : Filled commands (index + 1)) : Filled commands index

structure Sound (editor : Editor) : Prop where
  bounded : editor.line.Bounded
  commands : ∀ slot, ∀ command ∈ editor.commands.stack slot,
    command.length < maxArgLen
  filled : Filled editor.commands editor.hstPos

/-- The branch of the `switch` that a character reaches. -/
def Editor.branch (char : UInt8) (editor : Editor) : Option Action :=
  match editor.reading with
  | .key =>
      if char = escapeKey then none else some (actionOf false false char)
  | .escape =>
      if char = bracketKey then none
      else some (actionOf editor.escSequence editor.specKey char)
  | .bracket => some (actionOf editor.escSequence editor.specKey char)
  | .homeOrEnd => none
  | .delete => none

/-- A key that inserts finds room: a character that `print_input` accepts, and
all the bytes of a completion. -/
structure HasRoom (names : List (List UInt8)) (char : UInt8)
    (surroundings : Surroundings) (editor : Editor) : Prop where
  print : editor.branch char = some .print →
    editor.line.curPos < maxArgLen - 1 →
    editor.line.curMax < maxArgLen - 1
  complete : editor.branch char = some .complete →
    isCmdMatch surroundings.before editor.line = true →
    surroundings.memory = true →
    editor.line.curMax +
      (completion names surroundings editor.line).length ≤ maxArgLen - 1

namespace Line.Bounded

variable {line : Line}

theorem insertOneKey (bounded : line.Bounded) (char : UInt8)
    (room : line.curMax < maxArgLen - 1) :
    (line.insertOneKey char).Bounded where
  order := Nat.succ_le_succ bounded.order
  short := room
  inside := by
    rw [Line.insertOneKey_inside char bounded.order (by omega)]
    exact bounded.inside

theorem backspaceOneKey (bounded : line.Bounded)
    (positive : 0 < line.curPos) : line.backspaceOneKey.Bounded where
  order := Nat.sub_le_sub_right bounded.order 1
  short := (Nat.sub_le _ _).trans bounded.short
  inside := by
    have short := bounded.short
    rw [Line.backspaceOneKey_inside positive bounded.order (by omega)]
    exact bounded.inside

theorem deleteOneKey (bounded : line.Bounded) :
    line.deleteOneKey.Bounded := by
  have order := bounded.order
  have short := bounded.short
  have room : line.curMax < maxArgLen := by
    simp only [maxArgLen] at short ⊢
    omega
  have inside := Line.deleteOneKey_inside order room
  by_cases atEnd : line.curPos = line.curMax
  · simpa [Line.deleteOneKey, atEnd] using bounded
  · refine ⟨?_, ?_, inside.trans bounded.inside⟩
    · simp [Line.deleteOneKey, atEnd, Line.store]
      omega
    · simp [Line.deleteOneKey, atEnd, Line.store]
      omega

theorem store (bounded : line.Bounded) {index : Nat} (byte : UInt8)
    (room : index < maxArgLen) : (line.store index byte).Bounded where
  order := bounded.order
  short := bounded.short
  inside := (Line.store_inside byte room).trans bounded.inside

theorem recalled (bounded : line.Bounded) {command : List UInt8}
    (room : command.length < maxArgLen) :
    (line.recalled command).Bounded where
  order := Nat.le_refl _
  short := Nat.le_sub_one_of_lt room
  inside := by
    have order := bounded.order
    have short := bounded.short
    rw [Line.recalled_inside (by omega) room]
    exact bounded.inside

theorem clear (inside : line.inside = true) : line.clear.Bounded where
  order := Nat.le_refl _
  short := Nat.zero_le _
  inside := (Line.clear_inside line).trans inside

theorem moveTo (bounded : line.Bounded) {place : Nat}
    (order : place ≤ line.curMax) :
    Bounded { line with curPos := place } :=
  ⟨order, bounded.short, bounded.inside⟩

theorem reset (bounded : line.Bounded) :
    Bounded { line with curPos := 0, curMax := 0 } :=
  ⟨Nat.le_refl 0, Nat.zero_le _, bounded.inside⟩

theorem cmdRightKey (bounded : line.Bounded) :
    line.cmdRightKey.Bounded := by
  unfold Line.cmdRightKey
  split
  · rename_i room
    exact bounded.moveTo room
  · exact bounded

theorem cmdLeftKey (bounded : line.Bounded) :
    line.cmdLeftKey.Bounded := by
  unfold Line.cmdLeftKey
  split
  · exact bounded.moveTo ((Nat.sub_le _ _).trans bounded.order)
  · exact bounded

theorem insertAll (bounded : line.Bounded) (chars : List UInt8)
    (room : line.curMax + chars.length ≤ maxArgLen - 1) :
    (chars.foldl (fun line char => line.insertOneKey char)
      line).Bounded := by
  induction chars generalizing line with
  | nil => exact bounded
  | cons char chars induction =>
      simp only [List.length_cons] at room
      refine induction (bounded.insertOneKey char (by omega)) ?_
      rw [Line.insertOneKey_curMax]
      omega

end Line.Bounded

theorem insertAll_curMax (chars : List UInt8) (line : Line) :
    (chars.foldl (fun line char => line.insertOneKey char) line).curMax =
      line.curMax + chars.length := by
  induction chars generalizing line with
  | nil => rfl
  | cons char chars induction =>
      rw [List.foldl_cons, induction, Line.insertOneKey_curMax,
        List.length_cons]
      omega

theorem insertAll_curPos (chars : List UInt8) (line : Line) :
    (chars.foldl (fun line char => line.insertOneKey char) line).curPos =
      line.curPos + chars.length := by
  induction chars generalizing line with
  | nil => rfl
  | cons char chars induction =>
      rw [List.foldl_cons, induction, Line.insertOneKey_curPos,
        List.length_cons]
      omega

theorem length_stringTo_le (stop : Nat) (line : Line) :
    (line.stringTo stop).length ≤ stop := by
  have shorter := List.takeWhile_sublist (· != 0)
    (l := (List.range stop).map line.bytes)
  simpa [Line.stringTo] using shorter.length_le

section History

variable {commands later : CommandStack} {index : Fin 16}

theorem Filled.mono (filled : Filled commands index)
    (hist : later.hist = commands.hist)
    (grows : ∀ slot, commands.stack slot ≠ none →
      later.stack slot ≠ none) : Filled later index := by
  induction filled with
  | present =>
      rw [← hist]
      exact .present
  | older here next filled induction =>
      exact .older (grows _ here) (grows _ next) induction

theorem write_ne_none (slot : Fin 16) (command : List UInt8) :
    ∀ other, commands.stack other ≠ none →
      (commands.write slot command).stack other ≠ none := by
  intro other held
  unfold CommandStack.write
  by_cases same : other = slot
  · simp [same]
  · simpa [same] using held

theorem Filled.write (filled : Filled commands index) (slot : Fin 16)
    (command : List UInt8) : Filled (commands.write slot command) index :=
  filled.mono rfl (write_ne_none slot command)

theorem write_short {slot : Fin 16} {command : List UInt8}
    (short : command.length < maxArgLen)
    (others : ∀ slot, ∀ other ∈ commands.stack slot,
      other.length < maxArgLen) :
    ∀ other, ∀ held ∈ (commands.write slot command).stack other,
      held.length < maxArgLen := by
  intro other held member
  unfold CommandStack.write at member
  by_cases same : other = slot
  · simp only [same, if_true, Option.mem_some_iff] at member
    rwa [← member]
  · simp only [same, if_false] at member
    exact others other held member

theorem filled_iff :
    Filled commands index ↔ index = commands.hist ∨
      commands.stack index ≠ none ∧ commands.stack (index + 1) ≠ none ∧
        Filled commands (index + 1) := by
  constructor
  · intro filled
    cases filled with
    | present => exact .inl rfl
    | older here next later => exact .inr ⟨here, next, later⟩
  · rintro (rfl | ⟨here, next, later⟩)
    · exact .present
    · exact .older here next later

theorem Filled.back (filled : Filled commands index)
    (here : commands.stack index ≠ none)
    (older : commands.stack (index - 1) ≠ none) :
    Filled commands (index - 1) := by
  have next : ∀ slot : Fin 16, slot - 1 + 1 = slot := by decide
  refine .older older ?_ ?_
  · rwa [next]
  · rwa [next]

/-- Where a line was saved or the key was used before, the slot is filled. -/
theorem Filled.stack_of_saveLine {editor : Editor}
    (filled : Filled editor.commands editor.hstPos)
    {surroundings : Surroundings}
    (saved : (editor.saveLine surroundings).1 = true) :
    (editor.saveLine surroundings).2.commands.stack
      (editor.saveLine surroundings).2.hstPos ≠ none := by
  unfold Editor.saveLine at saved ⊢
  simp only at saved ⊢
  split at saved
  · rename_i present
    split at saved
    · cases saved
    · rename_i memory
      rw [if_pos present, if_neg memory]
      simp [CommandStack.write, present]
  · rename_i passed
    obtain atHist | ⟨here, -⟩ := filled_iff.mp filled
    · exact absurd atHist passed
    · simpa [passed] using here

end History

/-- The lines a character can leave where no other line is shown. -/
inductive Edits (names : List (List UInt8)) (surroundings : Surroundings)
    (char : UInt8) (editor : Editor) : Line → Prop
  | same : Edits names surroundings char editor editor.line
  | completed (reached : editor.branch char = some .complete)
      (status : isCmdMatch surroundings.before editor.line = true) :
      Edits names surroundings char editor
        (cmdMatch names surroundings editor.line)
  | erased (positive : 0 < editor.line.curPos) :
      Edits names surroundings char editor editor.line.backspaceOneKey
  | dropped : Edits names surroundings char editor
      { editor.line with curPos := 0, curMax := 0 }
  | right : Edits names surroundings char editor editor.line.cmdRightKey
  | left : Edits names surroundings char editor editor.line.cmdLeftKey
  | printed (reached : editor.branch char = some .print) :
      Edits names surroundings char editor (editor.line.printInput char)
  | home : Edits names surroundings char editor
      { editor.line with curPos := 0 }
  | toEnd : Edits names surroundings char editor
      { editor.line with curPos := editor.line.curMax }
  | deleted : Edits names surroundings char editor editor.line.deleteOneKey

/-- The editor waits for another character. -/
def Editor.waits (esc spec : Bool) (reading : Reading) (editor : Editor) :
    Editor :=
  { editor with escSequence := esc, specKey := spec, reading := reading }

section Waits

variable {surroundings : Surroundings} {editor : Editor} {esc spec : Bool}
  {reading : Reading}

theorem Editor.waits_cmdUpKey :
    (editor.waits esc spec reading).cmdUpKey surroundings =
      (editor.cmdUpKey surroundings).waits esc spec reading := by
  have saved : (editor.waits esc spec reading).saveLine surroundings =
      ((editor.saveLine surroundings).1,
        (editor.saveLine surroundings).2.waits esc spec reading) := by
    unfold Editor.saveLine Editor.waits
    dsimp only
    split
    · split <;> rfl
    · rfl
  have shown (other : Editor) : (other.waits esc spec reading).showOlder =
      other.showOlder.waits esc spec reading := by
    unfold Editor.showOlder Editor.waits
    dsimp only
    split
    · rfl
    · split <;> rfl
  unfold Editor.cmdUpKey
  rw [saved]
  cases editor.saveLine surroundings with
  | mk answer other =>
      cases answer with
      | false => rfl
      | true => exact shown other

theorem Editor.waits_cmdDownKey :
    (editor.waits esc spec reading).cmdDownKey surroundings =
      (editor.cmdDownKey surroundings).waits esc spec reading := by
  unfold Editor.cmdDownKey Editor.waits
  dsimp only
  split <;> rfl

theorem Editor.waits_lineEnd : ∃ esc' spec' reading',
    (editor.waits esc spec reading).lineEnd surroundings =
      (editor.lineEnd surroundings).waits esc' spec' reading' := by
  by_cases empty : editor.line.curMax = 0
  · refine ⟨esc, spec, .key, ?_⟩
    unfold Editor.lineEnd Editor.waits
    rw [if_pos empty, if_pos empty]
  · refine ⟨false, false, .key, ?_⟩
    unfold Editor.lineEnd Editor.waits
    rw [if_neg empty, if_neg empty]
    rfl

end Waits

/-- A character that reaches the `switch` takes its branch. -/
theorem step_of_branch (names : List (List UInt8))
    (surroundings : Surroundings) {char : UInt8} {editor : Editor}
    {action : Action} (reached : editor.branch char = some action) :
    ∃ esc spec, editor.step names char surroundings =
      { editor with escSequence := esc, specKey := spec }.perform names
        surroundings char action := by
  cases reading : editor.reading with
  | key =>
      simp only [Editor.branch, reading] at reached
      split at reached
      · cases reached
      · rename_i other
        obtain rfl := Option.some.inj reached
        exact ⟨false, false, by
          simp only [Editor.step, reading, if_neg other]⟩
  | escape =>
      simp only [Editor.branch, reading] at reached
      split at reached
      · cases reached
      · rename_i other
        obtain rfl := Option.some.inj reached
        refine ⟨editor.escSequence, editor.specKey, ?_⟩
        rw [← reading]
        change _ = editor.perform names surroundings char _
        simp only [Editor.step, reading, if_neg other]
  | bracket =>
      simp only [Editor.branch, reading] at reached
      obtain rfl := Option.some.inj reached
      refine ⟨editor.escSequence, editor.specKey, ?_⟩
      rw [← reading]
      change _ = editor.perform names surroundings char _
      simp only [Editor.step, reading]
  | homeOrEnd =>
      simp only [Editor.branch, reading] at reached
      cases reached
  | delete =>
      simp only [Editor.branch, reading] at reached
      cases reached

section Rule

variable {P : Editor → Prop} {names : List (List UInt8)}
  {surroundings : Surroundings} {char : UInt8} {editor : Editor}
  (waits : ∀ other esc spec reading, P other →
    P (other.waits esc spec reading))
  (edited : ∀ line, Edits names surroundings char editor line →
    P (editor.withLine line))
  (ended : ∀ line, Edits names surroundings char editor line →
    P ((editor.withLine line).lineEnd surroundings))
  (up : P (editor.cmdUpKey surroundings))
  (down : P (editor.cmdDownKey surroundings))

include waits edited ended up down

theorem perform_rule {action : Action}
    (reached : editor.branch char = some action) (esc spec : Bool)
    (reading : Reading) :
    P ((editor.waits esc spec reading).perform names surroundings char
      action) := by
  have moved (line : Line)
      (edits : Edits names surroundings char editor line) (next : Reading) :
      P ((editor.withLine line).waits esc spec next) :=
    waits _ esc spec next (edited line edits)
  have closed (line : Line)
      (edits : Edits names surroundings char editor line) (next : Reading) :
      P (((editor.withLine line).waits esc spec next).lineEnd
        surroundings) := by
    obtain ⟨esc', spec', reading', same⟩ :=
      @Editor.waits_lineEnd surroundings (editor.withLine line) esc spec next
    rw [same]
    exact waits _ _ _ _ (ended line edits)
  cases action with
  | complete =>
      simp only [Editor.perform]
      split
      · rename_i status
        exact moved _ (.completed reached status) .key
      · exact moved _ .same .key
  | enter => exact closed _ .same reading
  | interrupt => exact closed _ .dropped .key
  | backspace =>
      simp only [Editor.perform]
      split
      · rename_i positive
        exact moved _ (.erased positive) .key
      · exact moved _ .same .key
  | up =>
      simp only [Editor.perform, Editor.waits_cmdUpKey]
      exact waits (editor.cmdUpKey surroundings) esc spec .key up
  | down =>
      simp only [Editor.perform, Editor.waits_cmdDownKey]
      exact waits (editor.cmdDownKey surroundings) esc spec .key down
  | right => exact moved _ .right .key
  | left => exact moved _ .left .key
  | special next => exact moved _ .same next
  | print => exact moved _ (.printed reached) .key
  | ignore => exact moved _ .same .key

/-- What holds whatever the editor waits for holds after a character when it
holds after every edit of the line, at its end, and after Up and Down. -/
theorem step_rule : P (editor.step names char surroundings) := by
  have last (line : Line)
      (edits : Edits names surroundings char editor line) :
      P (editor.afterSpecial surroundings char line) := by
    unfold Editor.afterSpecial
    split
    · exact ended line edits
    · exact edited line edits
  cases reached : editor.branch char with
  | some action =>
      obtain ⟨esc, spec, next⟩ := step_of_branch names surroundings reached
      rw [next]
      exact perform_rule waits edited ended up down reached esc spec
        editor.reading
  | none =>
      let here := editor.withLine editor.line
      have first : P here := edited _ .same
      cases reading : editor.reading with
      | key =>
          simp only [Editor.branch, reading] at reached
          split at reached
          · rename_i escape
            simp only [Editor.step, reading, if_pos escape]
            exact waits here editor.escSequence true .escape first
          · cases reached
      | escape =>
          simp only [Editor.branch, reading] at reached
          split at reached
          · rename_i bracket
            simp only [Editor.step, reading, if_pos bracket]
            exact waits here true editor.specKey .bracket first
          · cases reached
      | bracket =>
          simp only [Editor.branch, reading] at reached
          cases reached
      | homeOrEnd =>
          simp only [Editor.step, reading]
          apply last
          split
          · exact .home
          · split
            · exact .toEnd
            · exact .same
      | delete =>
          simp only [Editor.step, reading]
          apply last
          split
          · exact .deleted
          · exact .same

end Rule

namespace Sound

variable {editor : Editor}

theorem withLine (sound : Sound editor) {line : Line}
    (bounded : line.Bounded) : Sound (editor.withLine line) :=
  ⟨bounded, sound.commands, sound.filled⟩

theorem curMax_lt (sound : Sound editor) :
    editor.line.curMax < maxArgLen := by
  have short := sound.bounded.short
  simp only [maxArgLen] at short ⊢
  omega

theorem lineEnd (sound : Sound editor) (surroundings : Surroundings) :
    Sound (editor.lineEnd surroundings) := by
  unfold Editor.lineEnd
  split
  · exact ⟨sound.bounded, sound.commands, sound.filled⟩
  · have stored := sound.bounded.store 0 sound.curMax_lt
    refine ⟨.clear stored.inside, ?_, .present⟩
    simp only [Editor.start, cmdUpdateHistory]
    split
    · exact sound.commands
    · exact write_short
        ((length_stringTo_le _ _).trans_lt sound.curMax_lt) sound.commands

theorem cmdDownKey (sound : Sound editor) (surroundings : Surroundings) :
    Sound (editor.cmdDownKey surroundings) := by
  unfold Editor.cmdDownKey
  split
  · exact sound
  · rename_i passed
    obtain atHist | ⟨-, next, later⟩ := filled_iff.mp sound.filled
    · exact absurd atHist passed
    · obtain ⟨command, held⟩ := Option.ne_none_iff_exists'.mp next
      have short := sound.commands _ command held
      refine ⟨?_, sound.commands, later⟩
      simp only [held, Option.getD_some]
      exact sound.bounded.recalled short

theorem saveLine (sound : Sound editor) (surroundings : Surroundings) :
    Sound (editor.saveLine surroundings).2 := by
  have room : editor.line.curPos < maxArgLen :=
    sound.bounded.order.trans_lt sound.curMax_lt
  have stored := sound.bounded.store 0 room
  unfold Editor.saveLine
  simp only
  split
  · split
    · exact ⟨stored, sound.commands, sound.filled⟩
    · exact ⟨stored,
        write_short ((length_stringTo_le _ _).trans_lt room)
          sound.commands,
        sound.filled.write _ _⟩
  · exact sound

theorem showOlder (sound : Sound editor)
    (here : editor.commands.stack editor.hstPos ≠ none) :
    Sound editor.showOlder := by
  unfold Editor.showOlder
  simp only
  split
  · exact sound
  · rename_i command held
    split
    · have short := sound.commands _ command held
      exact ⟨sound.bounded.recalled short, sound.commands,
        sound.filled.back here (by simp [held])⟩
    · exact sound

theorem cmdUpKey (sound : Sound editor) (surroundings : Surroundings) :
    Sound (editor.cmdUpKey surroundings) := by
  have saved := sound.saveLine surroundings
  have here := @Filled.stack_of_saveLine editor sound.filled surroundings
  unfold Editor.cmdUpKey
  split
  · rename_i next failed
    rwa [failed] at saved
  · rename_i next done
    rw [done] at saved here
    exact saved.showOlder (here rfl)

end Sound

theorem Edits.bounded {names : List (List UInt8)}
    {surroundings : Surroundings} {char : UInt8} {editor : Editor}
    {line : Line} (edits : Edits names surroundings char editor line)
    (room : HasRoom names char surroundings editor)
    (bounded : editor.line.Bounded) : line.Bounded := by
  cases edits with
  | same => exact bounded
  | completed reached status =>
      unfold cmdMatch
      split
      · rename_i memory
        exact bounded.insertAll _ (room.complete reached status memory)
      · exact bounded
  | erased positive => exact bounded.backspaceOneKey positive
  | dropped => exact bounded.reset
  | right => exact bounded.cmdRightKey
  | left => exact bounded.cmdLeftKey
  | printed reached =>
      unfold Line.printInput
      split
      · rename_i early
        exact bounded.insertOneKey char (room.print reached early)
      · exact bounded
  | home => exact bounded.moveTo (Nat.zero_le _)
  | toEnd => exact bounded.moveTo (Nat.le_refl _)
  | deleted => exact bounded.deleteOneKey

theorem Sound.step {names : List (List UInt8)} {char : UInt8}
    {surroundings : Surroundings} {editor : Editor} (sound : Sound editor)
    (room : HasRoom names char surroundings editor) :
    Sound (editor.step names char surroundings) := by
  have kept (line : Line)
      (edits : Edits names surroundings char editor line) :
      Sound (editor.withLine line) :=
    sound.withLine (edits.bounded room sound.bounded)
  refine step_rule ?_ kept ?_ ?_ ?_
  · intro other _ _ _ sound
    exact ⟨sound.bounded, sound.commands, sound.filled⟩
  · intro line edits
    exact (kept line edits).lineEnd surroundings
  · exact sound.cmdUpKey surroundings
  · exact sound.cmdDownKey surroundings

/-- A key without room leaves the bounds. -/
theorem hasRoom_of_bounded {names : List (List UInt8)} {char : UInt8}
    {surroundings : Surroundings} {editor : Editor}
    (bounded : (editor.step names char surroundings).line.Bounded) :
    HasRoom names char surroundings editor where
  print := by
    intro reached early
    obtain ⟨esc, spec, next⟩ :=
      step_of_branch names surroundings reached
    have short := bounded.short
    rw [next] at short
    simp only [Editor.perform, Editor.withLine, Line.printInput,
      if_pos early, Line.insertOneKey_curMax] at short
    exact short
  complete := by
    intro reached status memory
    obtain ⟨esc, spec, next⟩ :=
      step_of_branch names surroundings reached
    have short := bounded.short
    rw [next] at short
    simp only [Editor.perform, if_pos status, Editor.withLine, cmdMatch,
      if_pos memory, insertAll_curMax] at short
    exact short

/-- The editor as `shell` starts it.  The line lies on the stack. -/
def shellInit (stack : Nat → UInt8) : Editor :=
  .start ⟨stack, 0, 0, true⟩ ⟨fun _ => none, ⟨0, by decide⟩⟩ []

theorem sound_shellInit (stack : Nat → UInt8) : Sound (shellInit stack) :=
  ⟨.clear rfl, by simp [shellInit, Editor.start], .present⟩

/-- In a run of the shell the bounds hold after every character if and only if
every key that inserts finds room. -/
theorem line_bounded_iff_hasRoom (names : List (List UInt8))
    (stack : Nat → UInt8) (inputs : List (UInt8 × Surroundings)) :
    (∀ front back, inputs = front ++ back →
      ((shellInit stack).run names front).line.Bounded) ↔
    ∀ front input back, inputs = front ++ input :: back →
      HasRoom names input.1 input.2
        ((shellInit stack).run names front) :=
  Trace.throughout_iff_allowed
    (fun _ _ sound room => Sound.step sound room)
    (fun _ sound => sound.bounded)
    (fun _ _ _ bounded => hasRoom_of_bounded bounded)
    (sound_shellInit stack)

/-- A line of `count` letters. -/
theorem run_letters (names : List (List UInt8)) (stack : Nat → UInt8)
    (count : Nat) (room : count < maxArgLen) :
    let typed := (shellInit stack).run names
      (List.replicate count (0x61, calm))
    typed.line.curPos = count ∧ typed.line.curMax = count ∧
      typed.reading = .key := by
  induction count with
  | zero => exact ⟨rfl, rfl, rfl⟩
  | succ count induction =>
      obtain ⟨cursor, length, reading⟩ := induction (by omega)
      have space : ((shellInit stack).run names
          (List.replicate count (0x61, calm))).line.curPos <
            maxArgLen - 1 := by
        omega
      have letter : isPrintable 0x61 := by decide
      rw [List.replicate_succ', Editor.run_concat,
        step_plain letter reading space]
      simp only [Editor.withLine, Line.insertOneKey_curPos,
        Line.insertOneKey_curMax, cursor, length, and_self]

theorem run_left_letter (names : List (List UInt8)) {editor : Editor}
    (reading : editor.reading = .key) (cursor : editor.line.curPos = 511)
    (length : editor.line.curMax = 511) :
    let next := editor.run names
      [(escapeKey, calm), (bracketKey, calm), (0x44, calm), (0x62, calm)]
    next.line.curMax = 512 ∧ next.reading = .key := by
  have letter : isPrintable 0x62 := by decide
  have space : editor.line.cmdLeftKey.curPos < maxArgLen - 1 := by
    simp [cursor, maxArgLen]
  have same : editor.line.cmdLeftKey.curMax = editor.line.curMax := by
    unfold Line.cmdLeftKey
    split <;> rfl
  intro next
  have next_eq : next = { editor with
      escSequence := false
      specKey := false }.withLine
        (editor.line.cmdLeftKey.insertOneKey 0x62) := by
    simp only [next]
    rw [run_bracket reading]
    change Editor.step names 0x62 calm ({ editor with
      escSequence := true
      specKey := true }.withLine editor.line.cmdLeftKey) = _
    rw [step_plain letter rfl space]
    rfl
  rw [next_eq]
  exact ⟨congrArg (· + 1) (same.trans length), rfl⟩

theorem step_enter_full {names : List (List UInt8)} {editor : Editor}
    (reading : editor.reading = .key) (length : editor.line.curMax = 512) :
    (editor.step names newline calm).line.inside = false := by
  have other : newline ≠ escapeKey := by decide
  have action : actionOf false false newline = .enter := rfl
  rw [Editor.step, reading]
  simp only [if_neg other, action, Editor.perform, Editor.lineEnd, length,
    Editor.start]
  rw [if_neg (by decide), Line.clear_inside]
  simp [Line.store, maxArgLen]

/-- 511 letters, Left, another letter: the line gets 512 characters long, and
Enter stores its terminator outside of the buffer. -/
theorem line_not_bounded_letter_inside :
    let typed : List (UInt8 × Surroundings) :=
      List.replicate 511 (0x61, calm) ++
        [(escapeKey, calm), (bracketKey, calm), (0x44, calm), (0x62, calm)]
    ((shellInit fun _ => 0).run [] typed).line.curMax = 512 ∧
      ((shellInit fun _ => 0).run []
        (typed ++ [(newline, calm)])).line.inside = false ∧
      ¬∀ front back, typed = front ++ back →
        ((shellInit fun _ => 0).run [] front).line.Bounded := by
  obtain ⟨cursor, length, reading⟩ :=
    run_letters [] (fun _ => 0) 511 (by decide)
  generalize List.replicate 511 ((0x61 : UInt8), calm) = letters at *
  intro typed
  have full := run_left_letter [] reading cursor length
  simp only [← Editor.run_append] at full
  refine ⟨full.1, ?_, ?_⟩
  · rw [Editor.run_concat]
    exact step_enter_full full.2 full.1
  · intro bounded
    have short := (bounded typed [] (by simp)).short
    simp only [typed, full.1, maxArgLen] at short
    omega

end Witos.Shell
