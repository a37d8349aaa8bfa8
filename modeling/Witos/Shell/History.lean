import Witos.Shell.EditorBounds

/-!
# The history of the shell

The ring of 16 slots holds the lines entered last, and the slot that the next
one goes to also holds the line being edited while the history is browsed.
Whatever is browsed, nothing but that slot is written until a line is entered,
so the 15 lines before it stay where Up looks for them.
-/

namespace Witos.Shell

open Library

theorem neZero_slots : NeZero 16 :=
  ⟨by decide⟩

attribute [local instance] neZero_slots

/-- The slot so many lines before another. -/
def older : Nat → Fin 16 → Fin 16
  | 0, slot => slot
  | count + 1, slot => older count slot - 1

theorem older_val (count : Nat) (slot : Fin 16) :
    (older count slot).val = (slot.val + 15 * count) % 16 := by
  have back : ∀ slot : Fin 16, (slot - 1).val = (slot.val + 15) % 16 := by
    decide
  induction count with
  | zero =>
      have bound := slot.isLt
      rw [older]
      omega
  | succ count induction =>
      rw [older, back, induction]
      omega

theorem older_ne {count : Nat} (positive : 1 ≤ count) (few : count ≤ 15)
    (slot : Fin 16) : older count slot ≠ slot := by
  intro same
  have value := older_val count slot
  rw [same] at value
  have bound := slot.isLt
  omega

theorem older_next (count : Nat) (slot : Fin 16) :
    older (count + 1) (slot + 1) = older count slot := by
  have next : ∀ slot : Fin 16, (slot + 1).val = (slot.val + 1) % 16 := by
    decide
  apply Fin.ext
  rw [older_val, older_val, next]
  omega

theorem older_succ (count : Nat) (slot : Fin 16) :
    older (count + 1) slot + 1 = older count slot := by
  have next : ∀ slot : Fin 16, slot - 1 + 1 = slot := by
    decide
  exact next _

/-- The history and the lines entered after a character: as they were, with a
line saved, or with a line entered. -/
inductive Records (memory : Bool) (before after : Editor) : Prop where
  | same (commands : after.commands = before.commands)
      (returned : after.returned = before.returned)
  | saved (text : List UInt8)
      (commands : after.commands =
        before.commands.write before.commands.hist text)
      (returned : after.returned = before.returned)
  | entered (text : List UInt8)
      (commands : after.commands =
        cmdUpdateHistory memory text before.commands)
      (returned : after.returned = before.returned ++ [text])

section Records

variable {memory : Bool} {before after : Editor}
  (records : Records memory before after) {other : Editor}

include records

theorem Records.of_after (commands : other.commands = after.commands)
    (returned : other.returned = after.returned) :
    Records memory before other := by
  cases records with
  | same sameCommands sameReturned =>
      exact .same (commands.trans sameCommands) (returned.trans sameReturned)
  | saved text written sameReturned =>
      exact .saved text (commands.trans written) (returned.trans sameReturned)
  | entered text updated appended =>
      exact .entered text (commands.trans updated) (returned.trans appended)

theorem Records.of_before (commands : before.commands = other.commands)
    (returned : before.returned = other.returned) :
    Records memory other after := by
  cases records with
  | same sameCommands sameReturned =>
      exact .same (sameCommands.trans commands) (sameReturned.trans returned)
  | saved text written sameReturned =>
      rw [commands] at written
      exact .saved text written (sameReturned.trans returned)
  | entered text updated appended =>
      rw [commands] at updated
      rw [returned] at appended
      exact .entered text updated appended

end Records

section Step

variable {editor : Editor} (surroundings : Surroundings)

theorem lineEnd_records (editor : Editor) :
    Records surroundings.memory editor (editor.lineEnd surroundings) := by
  unfold Editor.lineEnd
  split
  · exact .same rfl rfl
  · exact .entered _ rfl rfl

theorem saveLine_cases (editor : Editor) :
    (editor.saveLine surroundings).2.commands = editor.commands ∨
      ∃ text, (editor.saveLine surroundings).2.commands =
        editor.commands.write editor.commands.hist text := by
  unfold Editor.saveLine
  dsimp only
  split
  · split
    · exact Or.inl rfl
    · exact Or.inr ⟨_, rfl⟩
  · exact Or.inl rfl

theorem saveLine_returned (editor : Editor) :
    (editor.saveLine surroundings).2.returned = editor.returned := by
  unfold Editor.saveLine
  dsimp only
  split
  · split <;> rfl
  · rfl

theorem showOlder_commands (editor : Editor) :
    editor.showOlder.commands = editor.commands := by
  unfold Editor.showOlder
  dsimp only
  split
  · rfl
  · split <;> rfl

theorem showOlder_returned (editor : Editor) :
    editor.showOlder.returned = editor.returned := by
  unfold Editor.showOlder
  dsimp only
  split
  · rfl
  · split <;> rfl

theorem cmdUpKey_commands (editor : Editor) :
    (editor.cmdUpKey surroundings).commands =
      (editor.saveLine surroundings).2.commands := by
  unfold Editor.cmdUpKey
  split
  · rename_i saved failed
    rw [failed]
  · rename_i saved done
    rw [showOlder_commands, done]

theorem cmdUpKey_records (editor : Editor) :
    Records surroundings.memory editor (editor.cmdUpKey surroundings) := by
  have returned : (editor.cmdUpKey surroundings).returned =
      editor.returned := by
    rw [← saveLine_returned surroundings editor]
    unfold Editor.cmdUpKey
    split
    · rename_i saved failed
      rw [failed]
    · rename_i saved done
      rw [showOlder_returned, done]
  have commands := cmdUpKey_commands surroundings editor
  rcases saveLine_cases surroundings editor with same | ⟨text, saved⟩
  · exact .same (commands.trans same) returned
  · exact .saved text (commands.trans saved) returned

theorem cmdDownKey_records (editor : Editor) :
    Records surroundings.memory editor (editor.cmdDownKey surroundings) := by
  unfold Editor.cmdDownKey
  split
  · exact .same rfl rfl
  · exact .same rfl rfl

theorem step_records (names : List (List UInt8)) (char : UInt8)
    (editor : Editor) :
    Records surroundings.memory editor
      (editor.step names char surroundings) := by
  refine step_rule ?_ ?_ ?_ ?_ ?_
  · intro other _ _ _ records
    exact records.of_after rfl rfl
  · intro line _
    exact .same rfl rfl
  · intro line _
    exact (lineEnd_records surroundings _).of_before rfl rfl
  · exact cmdUpKey_records surroundings editor
  · exact cmdDownKey_records surroundings editor

end Step

/-- The 15 lines entered last are in the slots before the present one. -/
def Recent (editor : Editor) : Prop :=
  ∀ count command, count < 15 →
    editor.returned.reverse[count]? = some command →
    editor.commands.stack (older (count + 1) editor.commands.hist) =
      some command

theorem Recent.records {before after : Editor} (recent : Recent before)
    (records : Records true before after) : Recent after := by
  intro count command few found
  cases records with
  | same commands returned =>
      rw [commands]
      rw [returned] at found
      exact recent count command few found
  | saved text commands returned =>
      have other := older_ne (Nat.succ_pos count) few before.commands.hist
      rw [commands]
      rw [returned] at found
      exact (if_neg other).trans (recent count command few found)
  | entered text commands returned =>
      have written : after.commands =
          { before.commands.write before.commands.hist text with
            hist := before.commands.hist + 1 } := by
        rw [commands, cmdUpdateHistory, if_neg]
        simp
      rw [written]
      rw [returned, List.reverse_append, List.reverse_singleton,
        List.singleton_append] at found
      dsimp only [CommandStack.write]
      rw [older_next]
      cases count with
      | zero =>
          rw [List.getElem?_cons_zero] at found
          exact (if_pos rfl).trans found
      | succ count =>
          rw [List.getElem?_cons_succ] at found
          have other := older_ne (Nat.succ_pos count)
            (Nat.le_of_succ_le few) before.commands.hist
          exact (if_neg other).trans
            (recent count command (Nat.lt_of_succ_lt few) found)

theorem Recent.run {names : List (List UInt8)}
    {inputs : List (UInt8 × Surroundings)} {editor : Editor}
    (recent : Recent editor)
    (memory : ∀ input ∈ inputs, input.2.memory = true) :
    Recent (editor.run names inputs) := by
  induction inputs generalizing editor with
  | nil => exact recent
  | cons input inputs induction =>
      have records := step_records input.2 names input.1 editor
      rw [memory input List.mem_cons_self] at records
      exact induction (recent.records records)
        (fun other member => memory other (List.mem_cons_of_mem _ member))

theorem recent_shellInit (stack : Nat → UInt8) : Recent (shellInit stack) := by
  intro count command few found
  cases found

def upLetter : UInt8 := 0x41

def upKeys : List UInt8 := [escapeKey, bracketKey, upLetter]

theorem run_up {names : List (List UInt8)} {editor : Editor}
    (reading : editor.reading = .key) (first second third : Surroundings)
    (inputs : List (UInt8 × Surroundings)) :
    ∃ esc spec,
      editor.run names ((escapeKey, first) :: (bracketKey, second) ::
          (upLetter, third) :: inputs) =
        Editor.run names inputs
          { Editor.cmdUpKey third { editor with
              escSequence := esc
              specKey := spec
              reading := .bracket } with
            reading := .key } :=
  ⟨true, true, run_bracket reading upLetter first second third⟩

theorem saveLine_place (surroundings : Surroundings) (editor : Editor) :
    (editor.saveLine surroundings).2.hstPos = editor.hstPos ∧
      (editor.saveLine surroundings).2.commands.hist =
        editor.commands.hist := by
  unfold Editor.saveLine
  dsimp only
  split
  · split
    · exact ⟨rfl, rfl⟩
    · exact ⟨rfl, rfl⟩
  · exact ⟨rfl, rfl⟩

theorem saveLine_slots (surroundings : Surroundings) (editor : Editor)
    {slot : Fin 16} (other : slot ≠ editor.commands.hist) :
    (editor.saveLine surroundings).2.commands.stack slot =
      editor.commands.stack slot := by
  rcases saveLine_cases surroundings editor with same | ⟨text, saved⟩
  · rw [same]
  · rw [saved]
    exact if_neg other

theorem saveLine_memory {surroundings : Surroundings} {editor : Editor}
    (memory : surroundings.memory = true) :
    (editor.saveLine surroundings).1 = true := by
  unfold Editor.saveLine
  dsimp only
  split
  · rw [if_neg (by simp [memory])]
  · rfl

theorem cmdUpKey_of_older {surroundings : Surroundings} {editor : Editor}
    (saved : (editor.saveLine surroundings).1 = true)
    (other : editor.hstPos - 1 ≠ editor.commands.hist)
    {command : List UInt8}
    (held : editor.commands.stack (editor.hstPos - 1) = some command) :
    editor.cmdUpKey surroundings =
      { (editor.saveLine surroundings).2 with
        line := (editor.saveLine surroundings).2.line.recalled command
        hstPos := editor.hstPos - 1 } := by
  obtain ⟨samePlace, sameHist⟩ := saveLine_place surroundings editor
  have sameSlot := saveLine_slots surroundings editor other
  cases result : editor.saveLine surroundings with
  | mk answer next =>
      rw [result] at saved samePlace sameHist sameSlot
      dsimp only at saved samePlace sameHist sameSlot
      subst saved
      unfold Editor.cmdUpKey
      rw [result]
      dsimp only
      unfold Editor.showOlder
      dsimp only
      rw [samePlace, sameSlot, held, sameHist]
      exact if_pos other

/-- The editor shows the line so many lines back. -/
structure Recalls (commands : CommandStack) (count : Nat) (editor : Editor) :
    Prop where
  reading : editor.reading = .key
  place : editor.hstPos = older count commands.hist
  hist : editor.commands.hist = commands.hist
  slots : ∀ slot, slot ≠ commands.hist →
    editor.commands.stack slot = commands.stack slot

theorem Recalls.up {names : List (List UInt8)} {commands : CommandStack}
    {count : Nat} {editor : Editor} (recalls : Recalls commands count editor)
    (few : count < 15) {command : List UInt8}
    (held : commands.stack (older (count + 1) commands.hist) = some command)
    {first second third : Surroundings} (memory : third.memory = true) :
    let after := editor.run names
      [(escapeKey, first), (bracketKey, second), (upLetter, third)]
    Recalls commands (count + 1) after ∧ after.line.text = command ∧
      after.line.curPos = command.length := by
  intro after
  obtain ⟨esc, spec, pressed⟩ := @run_up names editor recalls.reading first
    second third []
  let bracket : Editor :=
    { editor with escSequence := esc, specKey := spec, reading := .bracket }
  have back : bracket.hstPos - 1 = older (count + 1) commands.hist :=
    congrArg (· - 1) recalls.place
  have isOther := older_ne (Nat.succ_pos count) few commands.hist
  have other : bracket.hstPos - 1 ≠ bracket.commands.hist := by
    rw [back]
    exact fun same => isOther (same.trans recalls.hist)
  have heldHere : bracket.commands.stack (bracket.hstPos - 1) =
      some command := by
    rw [back]
    exact (recalls.slots _ isOther).trans held
  have shown := cmdUpKey_of_older (saveLine_memory memory) other heldHere
  have whole : after = { bracket.cmdUpKey third with reading := .key } :=
    pressed
  rw [shown] at whole
  rw [whole]
  obtain ⟨-, sameHist⟩ := saveLine_place third bracket
  refine ⟨⟨rfl, back, sameHist.trans recalls.hist, ?_⟩,
    Line.recalled_text command _, rfl⟩
  intro slot otherSlot
  have otherHere : slot ≠ bracket.commands.hist :=
    fun same => otherSlot (same.trans recalls.hist)
  exact (saveLine_slots third bracket otherHere).trans
    (recalls.slots slot otherSlot)

theorem Recalls.run {names : List (List UInt8)} {commands : CommandStack}
    {editor : Editor} (recalls : Recalls commands 0 editor) {count : Nat}
    (few : count ≤ 15) (held : ∀ back < count,
      commands.stack (older (back + 1) commands.hist) ≠ none)
    {inputs : List (UInt8 × Surroundings)}
    (sent : inputs.map Prod.fst = (List.replicate count upKeys).flatten)
    (memory : ∀ input ∈ inputs, input.2.memory = true) :
    Recalls commands count (editor.run names inputs) ∧
      (1 ≤ count → commands.stack (older count commands.hist) =
          some (editor.run names inputs).line.text ∧
        (editor.run names inputs).line.curPos =
          (editor.run names inputs).line.text.length) := by
  induction count generalizing inputs with
  | zero =>
      obtain rfl := List.map_eq_nil_iff.mp sent
      exact ⟨recalls, fun positive => absurd positive (Nat.not_succ_le_zero 0)⟩
  | succ count induction =>
      rw [List.replicate_succ', List.flatten_concat] at sent
      obtain ⟨front, last, rfl, sentFront, sentLast⟩ :=
        List.map_eq_append_iff.mp sent
      obtain ⟨first, second, third, rfl⟩ := three_inputs sentLast
      have before := (induction (Nat.le_of_succ_le few)
        (fun back inside => held back (Nat.lt_succ_of_lt inside)) sentFront
        (fun input member => memory input
          (List.mem_append_left _ member))).1
      obtain ⟨command, isHeld⟩ :=
        Option.ne_none_iff_exists'.mp (held count (Nat.lt_succ_self _))
      have lastMemory : third.memory = true :=
        memory (upLetter, third) (List.mem_append_right _ (by simp))
      obtain ⟨after, text, cursor⟩ :=
        @Recalls.up names commands count _ before few command isHeld first
          second third lastMemory
      rw [Editor.run_append]
      refine ⟨after, fun _ => ⟨?_, ?_⟩⟩
      · rw [text]
        exact isHeld
      · rw [text]
        exact cursor

/-- Pressing Up so many times as the first keys of a line shows the line
entered so many lines before, with the cursor at its end. -/
theorem historyRecall (names : List (List UInt8)) (stack : Nat → UInt8)
    {inputs presses : List (UInt8 × Surroundings)} {line : Line}
    {commands : CommandStack} {returned : List (List UInt8)}
    (started : (shellInit stack).run names inputs =
      Editor.start line commands returned)
    {count : Nat} (positive : 1 ≤ count) (few : count ≤ 15)
    (entered : count ≤ returned.length)
    (sent : presses.map Prod.fst = (List.replicate count upKeys).flatten)
    (memory : ∀ input ∈ inputs ++ presses, input.2.memory = true) :
    let after := (shellInit stack).run names (inputs ++ presses)
    returned.reverse[count - 1]? = some after.line.text ∧
      after.line.curPos = after.line.text.length := by
  intro after
  have recent : Recent (Editor.start line commands returned) := by
    rw [← started]
    exact (recent_shellInit stack).run fun input member =>
      memory input (List.mem_append_left _ member)
  have found (back : Nat) (inside : back < count) :
      ∃ command, returned.reverse[back]? = some command ∧
        commands.stack (older (back + 1) commands.hist) = some command := by
    have bound : back < returned.reverse.length := by
      rw [List.length_reverse]
      omega
    refine ⟨returned.reverse[back], List.getElem?_eq_getElem bound, ?_⟩
    exact recent back _ (Nat.lt_of_lt_of_le inside few)
      (List.getElem?_eq_getElem bound)
  have recalls : Recalls commands 0 (Editor.start line commands returned) :=
    ⟨rfl, rfl, rfl, fun _ _ => rfl⟩
  have held (back : Nat) (inside : back < count) :
      commands.stack (older (back + 1) commands.hist) ≠ none := by
    obtain ⟨command, -, isHeld⟩ := found back inside
    exact Option.ne_none_iff_exists'.mpr ⟨command, isHeld⟩
  have pressed := @Recalls.run names commands _ recalls count few held presses
    sent (fun input member => memory input (List.mem_append_right _ member))
  have same : after = (Editor.start line commands returned).run names
      presses := by
    rw [← started, ← Editor.run_append]
  obtain ⟨shown, cursor⟩ := pressed.2 positive
  rw [same]
  refine ⟨?_, cursor⟩
  have last : count - 1 + 1 = count := Nat.sub_add_cancel positive
  obtain ⟨command, isCommand, held⟩ := found (count - 1) (by omega)
  rw [last, shown] at held
  rw [isCommand, held]

/-- The keys of a line of one character. -/
def enterKeys (char : UInt8) : List (UInt8 × Surroundings) :=
  [(char, calm), (newline, calm)]

/-- The editor behind such a line. -/
def entered (char : UInt8) (editor : Editor) : Editor :=
  Editor.start ((editor.run [] [(char, calm)]).line.store 1 0)
    (cmdUpdateHistory true [char] editor.commands)
    (editor.returned ++ [[char]])

/-- The lines `a`, `b` and `c`, and then Up twice. -/
theorem historyRecall_two :
    ((shellInit fun _ => 0).run [] (((enterKeys 0x61 ++ enterKeys 0x62) ++
      enterKeys 0x63) ++ (upKeys ++ upKeys).map (·, calm))).line.text =
        [0x62] := by
  let first := entered 0x61 (shellInit fun _ => 0)
  let second := entered 0x62 first
  have startsFirst : (shellInit fun _ => 0).run [] (enterKeys 0x61) =
      first := rfl
  have startsSecond : first.run [] (enterKeys 0x62) = second := rfl
  have startsThird : second.run [] (enterKeys 0x63) = entered 0x63 second :=
    rfl
  have started : (shellInit fun _ => 0).run []
      ((enterKeys 0x61 ++ enterKeys 0x62) ++ enterKeys 0x63) =
        entered 0x63 second := by
    rw [Editor.run_append, Editor.run_append, startsFirst, startsSecond,
      startsThird]
  have memory : ∀ input ∈ ((enterKeys 0x61 ++ enterKeys 0x62) ++
      enterKeys 0x63) ++ (upKeys ++ upKeys).map (·, calm),
      input.2.memory = true := by
    decide
  have recalled := historyRecall [] (fun _ => 0) started (by decide : 1 ≤ 2)
    (by decide) (by decide) rfl memory
  exact (Option.some.inj recalled.1).symm

end Witos.Shell
