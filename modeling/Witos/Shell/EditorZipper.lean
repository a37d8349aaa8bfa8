import Mathlib.Data.List.TakeWhile
import Witos.Library.Zipper
import Witos.Shell.LineRules

/-!
# The line editor as a zipper

The keys that edit a line do to the buffer what they do to a text with a
cursor.  Bytes beyond `cur_max` are stale and are never looked at.
-/

namespace Witos.Shell

open Library

def isPrintable (char : UInt8) : Prop :=
  0x20 ≤ char ∧ char ≤ 0x7e

instance (char : UInt8) : Decidable (isPrintable char) :=
  inferInstanceAs (Decidable (_ ∧ _))

/-- The keys that edit a line. -/
inductive Key
  | plain (char : UInt8) (printable : isPrintable char)
  | backspace | rubout | delete | left | right | home | stop

/-- The characters a key sends. -/
def Key.encode : Key → List UInt8
  | .plain char _ => [char]
  | .backspace => [0x08]
  | .rubout => [0x7f]
  | .delete => [escapeKey, bracketKey, 0x33, tilde]
  | .left => [escapeKey, bracketKey, 0x44]
  | .right => [escapeKey, bracketKey, 0x43]
  | .home => [escapeKey, 0x4f, 0x48]
  | .stop => [escapeKey, 0x4f, 0x46]

/-- What a key does to a text with a cursor. -/
def Key.edit : Key → Zipper UInt8 → Zipper UInt8
  | .plain char _ => Zipper.insert char
  | .backspace => Zipper.backspace
  | .rubout => Zipper.backspace
  | .delete => Zipper.delete
  | .left => Zipper.left
  | .right => Zipper.right
  | .home => Zipper.home
  | .stop => Zipper.stop

def editAll (keys : List Key) (zipper : Zipper UInt8) : Zipper UInt8 :=
  keys.foldl (fun zipper key => key.edit zipper) zipper

/-- The text stays short enough after every key. -/
def Fits (keys : List Key) (zipper : Zipper UInt8) : Prop :=
  ∀ count, (editAll (keys.take count) zipper).text.length < maxArgLen

/-- The editor reads a key, and its line is the text with its cursor. -/
structure Shows (editor : Editor) (zipper : Zipper UInt8)
    (commands : CommandStack) (returned : List (List UInt8)) : Prop where
  text : editor.line.text = zipper.text
  cursor : editor.line.curPos = zipper.cursor
  reading : editor.reading = .key
  commands : editor.commands = commands
  returned : editor.returned = returned

namespace Shows

variable {editor : Editor} {zipper : Zipper UInt8}
  {commands : CommandStack} {returned : List (List UInt8)}

theorem curMax (shows : Shows editor zipper commands returned) :
    editor.line.curMax = zipper.text.length := by
  rw [← shows.text, Line.length_text]

theorem order (shows : Shows editor zipper commands returned) :
    editor.line.curPos ≤ editor.line.curMax := by
  rw [shows.cursor, shows.curMax, Zipper.length_text]
  omega

theorem withLine {line : Line} {next : Zipper UInt8} {esc spec : Bool}
    (shows : Shows editor zipper commands returned)
    (text : line.text = next.text) (cursor : line.curPos = next.cursor) :
    Shows ({ editor with escSequence := esc, specKey := spec }.withLine
      line) next commands returned :=
  ⟨text, cursor, rfl, shows.commands, shows.returned⟩

end Shows

theorem ne_of_isPrintable {char other : UInt8}
    (printable : isPrintable char) (hidden : ¬isPrintable other) :
    char ≠ other := by
  rintro rfl
  exact hidden printable

theorem actionOf_printable {char : UInt8} (printable : isPrintable char) :
    actionOf false false char = .print := by
  have range : 0x20 ≤ char ∧ char ≤ 0x7f :=
    ⟨printable.1, UInt8.le_trans printable.2 (by decide)⟩
  have hidden : char ≠ tab ∧ char ≠ carriageReturn ∧ char ≠ newline ∧
      char ≠ interruptKey ∧ char ≠ 0x08 ∧ char ≠ 0x7f := by
    refine ⟨?_, ?_, ?_, ?_, ?_, ?_⟩ <;>
      exact ne_of_isPrintable printable (by decide)
  obtain ⟨notTab, notReturn, notNewline, notInterrupt, notBackspace,
    notRubout⟩ := hidden
  simp [actionOf, notTab, notReturn, notNewline, notInterrupt,
    notBackspace, notRubout, range]

section OneKey

variable {names : List (List UInt8)} {editor : Editor}
  {zipper : Zipper UInt8} {commands : CommandStack}
  {returned : List (List UInt8)} {inputs : List (UInt8 × Surroundings)}

/-- A plain character is inserted, whatever letter or digit it is. -/
theorem step_plain {char : UInt8} (printable : isPrintable char)
    (reading : editor.reading = .key)
    (space : editor.line.curPos < maxArgLen - 1)
    (surroundings : Surroundings) :
    editor.step names char surroundings =
      { editor with escSequence := false, specKey := false }.withLine
        (editor.line.insertOneKey char) := by
  have notEscape : char ≠ escapeKey :=
    ne_of_isPrintable printable (by decide)
  rw [Editor.step, reading]
  simp only [if_neg notEscape, actionOf_printable printable,
    Editor.perform, Line.printInput, if_pos space]

theorem Shows.plain {char : UInt8} (printable : isPrintable char)
    (shows : Shows editor zipper commands returned)
    (room : (zipper.insert char).text.length < maxArgLen)
    (surroundings : Surroundings) :
    Shows (editor.step names char surroundings) (zipper.insert char)
      commands returned := by
  have space : editor.line.curPos < maxArgLen - 1 := by
    have order := shows.order
    have length := shows.curMax
    rw [Zipper.insert_text] at room
    simp only [List.length_append, List.length_cons, List.length_take,
      List.length_drop] at room
    omega
  rw [step_plain printable shows.reading space]
  refine shows.withLine ?_ ?_
  · rw [Line.insertOneKey_text _ _ shows.order, Zipper.insert_text,
      shows.text, shows.cursor]
  · simp [shows.cursor]

theorem Shows.backspace {char : UInt8} (erases : char = 0x08 ∨ char = 0x7f)
    (shows : Shows editor zipper commands returned)
    (surroundings : Surroundings) :
    Shows (editor.step names char surroundings) zipper.backspace
      commands returned := by
  have action : actionOf false false char = .backspace := by
    rcases erases with rfl | rfl <;> rfl
  have notEscape : char ≠ escapeKey := by
    rcases erases with rfl | rfl <;> decide
  rw [Editor.step, shows.reading]
  simp only [if_neg notEscape, action, Editor.perform]
  split
  · rename_i positive
    refine shows.withLine ?_ ?_
    · rw [Line.backspaceOneKey_text _ positive shows.order,
        Zipper.backspace_text, shows.text, shows.cursor]
    · simp [shows.cursor]
  · rename_i zero
    have start : zipper.cursor = 0 := by
      have cursor := shows.cursor
      omega
    refine shows.withLine ?_ ?_
    · simp [Zipper.backspace_text, start, shows.text]
    · simp [shows.cursor, start]

theorem step_escape (reading : editor.reading = .key)
    (surroundings : Surroundings) :
    editor.step names escapeKey surroundings =
      { editor with specKey := true, reading := .escape } := by
  rw [Editor.step, reading]
  rfl

/-- A key behind ESC and `[`. -/
theorem run_bracket (reading : editor.reading = .key) (char : UInt8)
    (first second third : Surroundings) :
    Editor.run names ((escapeKey, first) :: (bracketKey, second) ::
        (char, third) :: inputs) editor =
      Editor.run names inputs ({ editor with
          escSequence := true
          specKey := true
          reading := .bracket }.perform names third char
        (actionOf true true char)) := by
  rw [Editor.run, Trace.run, step_escape reading]
  rfl

/-- A key behind ESC and `O`. -/
theorem run_letterO (reading : editor.reading = .key) (char : UInt8)
    (first second third : Surroundings) :
    Editor.run names ((escapeKey, first) :: (0x4f, second) ::
        (char, third) :: inputs) editor =
      Editor.run names inputs ({ editor with
          specKey := true
          reading := .homeOrEnd }.afterSpecial third char
        (if char = 0x48 then { editor.line with curPos := 0 }
        else if char = 0x46 then
          { editor.line with curPos := editor.line.curMax }
        else editor.line)) := by
  rw [Editor.run, Trace.run, step_escape reading]
  cases esc : editor.escSequence <;> rfl

theorem Shows.left (shows : Shows editor zipper commands returned)
    (first second third : Surroundings) :
    Shows (Editor.run names
        [(escapeKey, first), (bracketKey, second), (0x44, third)] editor)
      zipper.left commands returned := by
  rw [run_bracket shows.reading]
  refine shows.withLine ?_ ?_
  · rw [Line.cmdLeftKey_text, Zipper.left_text]
    exact shows.text
  · rw [Line.cmdLeftKey_curPos, Zipper.left_cursor, ← shows.cursor]

theorem Shows.right (shows : Shows editor zipper commands returned)
    (first second third : Surroundings) :
    Shows (Editor.run names
        [(escapeKey, first), (bracketKey, second), (0x43, third)] editor)
      zipper.right commands returned := by
  rw [run_bracket shows.reading]
  refine shows.withLine ?_ ?_
  · rw [Line.cmdRightKey_text, Zipper.right_text]
    exact shows.text
  · rw [Line.cmdRightKey_curPos, Zipper.right_cursor, ← shows.cursor,
      ← shows.curMax]

theorem Shows.delete (shows : Shows editor zipper commands returned)
    (first second third fourth : Surroundings) :
    Shows (Editor.run names
        [(escapeKey, first), (bracketKey, second), (0x33, third),
          (tilde, fourth)] editor)
      zipper.delete commands returned := by
  rw [run_bracket shows.reading]
  refine shows.withLine ?_ ?_
  · rw [Zipper.delete_text, ← shows.text, ← shows.cursor]
    exact Line.deleteOneKey_text _ shows.order
  · rw [Zipper.delete_cursor, ← shows.cursor]
    exact Line.deleteOneKey_curPos _

theorem Shows.home (shows : Shows editor zipper commands returned)
    (first second third : Surroundings) :
    Shows (Editor.run names
        [(escapeKey, first), (0x4f, second), (0x48, third)] editor)
      zipper.home commands returned := by
  rw [run_letterO shows.reading]
  refine shows.withLine ?_ ?_
  · rw [Zipper.home_text, ← shows.text]
    rfl
  · rfl

theorem Shows.stop (shows : Shows editor zipper commands returned)
    (first second third : Surroundings) :
    Shows (Editor.run names
        [(escapeKey, first), (0x4f, second), (0x46, third)] editor)
      zipper.stop commands returned := by
  rw [run_letterO shows.reading]
  refine shows.withLine ?_ ?_
  · rw [Zipper.stop_text, ← shows.text]
    rfl
  · rw [Zipper.stop_cursor, ← shows.curMax]
    rfl

theorem three_inputs {first second third : UInt8}
    (sent : inputs.map Prod.fst = [first, second, third]) :
    ∃ one two three,
      inputs = [(first, one), (second, two), (third, three)] := by
  match inputs, sent with
  | [(_, one), (_, two), (_, three)], sent =>
      obtain ⟨rfl, rfl, rfl, -⟩ := by simpa using sent
      exact ⟨one, two, three, rfl⟩

theorem Shows.key (key : Key)
    (shows : Shows editor zipper commands returned)
    (sent : inputs.map Prod.fst = key.encode)
    (room : (key.edit zipper).text.length < maxArgLen) :
    Shows (editor.run names inputs) (key.edit zipper) commands
      returned := by
  cases key with
  | plain char printable =>
      obtain ⟨⟨_, first⟩, rfl, rfl⟩ := List.map_eq_singleton_iff.mp sent
      exact shows.plain printable room first
  | backspace =>
      obtain ⟨⟨_, first⟩, rfl, rfl⟩ := List.map_eq_singleton_iff.mp sent
      exact shows.backspace (.inl rfl) first
  | rubout =>
      obtain ⟨⟨_, first⟩, rfl, rfl⟩ := List.map_eq_singleton_iff.mp sent
      exact shows.backspace (.inr rfl) first
  | delete =>
      match inputs, sent with
      | [(_, first), (_, second), (_, third), (_, fourth)], sent =>
          obtain ⟨rfl, rfl, rfl, rfl, -⟩ := by
            simpa [Key.encode] using sent
          exact shows.delete first second third fourth
  | left =>
      obtain ⟨first, second, third, rfl⟩ := three_inputs sent
      exact shows.left first second third
  | right =>
      obtain ⟨first, second, third, rfl⟩ := three_inputs sent
      exact shows.right first second third
  | home =>
      obtain ⟨first, second, third, rfl⟩ := three_inputs sent
      exact shows.home first second third
  | stop =>
      obtain ⟨first, second, third, rfl⟩ := three_inputs sent
      exact shows.stop first second third

end OneKey

section WholeLine

variable {names : List (List UInt8)} {editor : Editor}
  {zipper : Zipper UInt8} {commands : CommandStack}
  {returned : List (List UInt8)} {inputs : List (UInt8 × Surroundings)}

theorem Shows.keys {keys : List Key}
    (shows : Shows editor zipper commands returned)
    (sent : inputs.map Prod.fst = keys.flatMap Key.encode)
    (fits : Fits keys zipper) :
    Shows (editor.run names inputs) (editAll keys zipper) commands
      returned := by
  induction keys generalizing editor zipper inputs with
  | nil =>
      obtain rfl := List.map_eq_nil_iff.mp sent
      exact shows
  | cons key keys induction =>
      rw [List.flatMap_cons] at sent
      obtain ⟨first, others, rfl, sentFirst, sentOthers⟩ :=
        List.map_eq_append_iff.mp sent
      have next : Shows (editor.run names first) (key.edit zipper) commands
          returned := shows.key key sentFirst (fits 1)
      rw [Editor.run_append]
      exact induction next sentOthers fun count => fits (count + 1)

theorem isPrintable_of_mem_edit (key : Key) {char : UInt8}
    (member : char ∈ (key.edit zipper).text)
    (before : ∀ other ∈ zipper.text, isPrintable other) :
    isPrintable char := by
  cases key with
  | plain typed printable =>
      rcases Zipper.mem_insert_text.mp member with rfl | old
      · exact printable
      · exact before char old
  | backspace => exact before char (zipper.backspace_text_subset member)
  | rubout => exact before char (zipper.backspace_text_subset member)
  | delete => exact before char (zipper.delete_text_subset member)
  | left => exact before char (by simpa [Key.edit] using member)
  | right => exact before char (by simpa [Key.edit] using member)
  | home => exact before char (by simpa [Key.edit] using member)
  | stop => exact before char (by simpa [Key.edit] using member)

theorem isPrintable_of_mem_editAll (keys : List Key)
    (before : ∀ other ∈ zipper.text, isPrintable other) :
    ∀ char ∈ (editAll keys zipper).text, isPrintable char := by
  induction keys generalizing zipper with
  | nil => exact before
  | cons key keys induction =>
      exact induction fun char member =>
        isPrintable_of_mem_edit key member before

theorem stringTo_store_curMax (line : Line)
    (visible : ∀ char ∈ line.text, char ≠ 0) :
    (line.store line.curMax 0).stringTo line.curMax = line.text := by
  have same : (List.range line.curMax).map
      (line.store line.curMax 0).bytes = line.text := by
    apply List.map_congr_left
    intro index member
    have other : index ≠ line.curMax := by
      have bound := List.mem_range.mp member
      omega
    simp [Line.store, other]
  rw [Line.stringTo, same, List.takeWhile_eq_self_iff]
  intro char member
  simpa using visible char member

theorem Shows.enter {char : UInt8}
    (ends : char = carriageReturn ∨ char = newline)
    (shows : Shows editor zipper commands returned)
    (visible : ∀ char ∈ zipper.text, char ≠ 0)
    (filled : zipper.text ≠ []) (surroundings : Surroundings) :
    (editor.step names char surroundings).returned =
      returned ++ [zipper.text] := by
  have notEscape : char ≠ escapeKey := by
    rcases ends with rfl | rfl <;> decide
  have action : actionOf false false char = .enter := by
    rcases ends with rfl | rfl <;> rfl
  have some_ : editor.line.curMax ≠ 0 := by
    rw [shows.curMax]
    exact List.length_eq_zero_iff.not.mpr filled
  have text := stringTo_store_curMax editor.line
    (by rw [shows.text]; exact visible)
  rw [Editor.step, shows.reading]
  simp only [if_neg notEscape, action, Editor.perform, Editor.lineEnd,
    if_neg some_, Editor.start]
  rw [shows.returned, ← shows.text, ← text]
  rfl

end WholeLine

/-- For every sequence of editing keys that keeps the text short enough, with
Enter behind it, the line returned is the text of the zipper. -/
theorem command_read_line_refines_zipper (names : List (List UInt8))
    (line : Line) (commands : CommandStack) (keys : List Key)
    (enter : UInt8 × Surroundings)
    (inputs : List (UInt8 × Surroundings))
    (ends : enter.1 = carriageReturn ∨ enter.1 = newline)
    (sent : inputs.map Prod.fst = keys.flatMap Key.encode)
    (fits : Fits keys .empty)
    (filled : (editAll keys .empty).text ≠ []) :
    ((Editor.start line commands []).run names
      (inputs ++ [enter])).returned = [(editAll keys .empty).text] := by
  have first : Shows (Editor.start line commands []) .empty commands [] :=
    ⟨rfl, rfl, rfl, rfl, rfl⟩
  have last : Shows ((Editor.start line commands []).run names inputs)
      (editAll keys .empty) commands [] := first.keys sent fits
  have printable : ∀ char ∈ (editAll keys .empty).text,
      isPrintable char :=
    isPrintable_of_mem_editAll keys (by simp [Zipper.empty, Zipper.text])
  rw [Editor.run_append]
  exact last.enter ends
    (fun char member => ne_of_isPrintable (printable char member)
      (by decide)) filled enter.2

/-- Memory is left, and it is zero everywhere else. -/
def calm : Surroundings :=
  ⟨true, fun _ _ => 0, 0, []⟩

/-- `a`, `3`, Left, `O`, Home, Delete and Enter return `O3`. -/
theorem command_read_line_refines_zipper_keys :
    let keys : List Key :=
      [.plain 0x61 (by decide), .plain 0x33 (by decide), .left,
        .plain 0x4f (by decide), .home, .delete]
    let inputs := (keys.flatMap Key.encode).map (·, calm)
    (editAll keys .empty).text = [0x4f, 0x33] ∧
      ((Editor.start ⟨fun _ => 0, 0, 0, true⟩ ⟨fun _ => none, 0⟩ []).run []
        (inputs ++ [(newline, calm)])).returned =
        [[0x4f, 0x33]] := by
  intro keys inputs
  refine ⟨by decide, command_read_line_refines_zipper [] _ _ keys _ inputs
    (.inr rfl) rfl ?_ (by decide)⟩
  intro count
  match count with
  | 0 | 1 | 2 | 3 | 4 | 5 => decide
  | _ + 6 =>
      rw [List.take_of_length_le (by simp [keys])]
      decide

end Witos.Shell
