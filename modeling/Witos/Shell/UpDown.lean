import Witos.Shell.History

/-!
# Down undoes Up

`cmd_up_key` saves the line being edited before it shows an older one, but it
ends the line at the cursor to do so, and it does this even if there is no older
one.  The text comes back where the cursor is at its end; where a line of the
history was edited, it comes back as it was entered.
-/

namespace Witos.Shell

open Library

attribute [local instance] neZero_slots

/-- What holds of the editor whatever is typed. -/
structure Editable (editor : Editor) : Prop where
  order : editor.line.curPos ≤ editor.line.curMax
  filled : Filled editor.commands editor.hstPos

/-- The value that `cmd_up_key` returns. -/
def Editor.upReturns (surroundings : Surroundings) (editor : Editor) : Int :=
  let (answer, saved) := editor.saveLine surroundings
  let index := saved.hstPos - 1
  if answer = true ∧ index ≠ saved.commands.hist ∧
      saved.commands.stack index ≠ none then 0
  else -1

/-- Every press of Up finds an older line. -/
def UpsSucceed : List Surroundings → Editor → Prop
  | [], _ => True
  | surroundings :: ups, editor =>
      editor.upReturns surroundings = 0 ∧
        UpsSucceed ups (editor.cmdUpKey surroundings)

def Editor.pressUps : List Surroundings → Editor → Editor :=
  Trace.run fun surroundings editor => editor.cmdUpKey surroundings

def Editor.pressDowns : List Surroundings → Editor → Editor :=
  Trace.run fun surroundings editor => editor.cmdDownKey surroundings

/-- Down undoes Up as often as it is pressed, and an Up that fails changes
neither the text nor the cursor. -/
structure UpUndone (editor : Editor) : Prop where
  restored : ∀ ups downs, ups.length = downs.length →
    UpsSucceed ups editor →
    ((editor.pressUps ups).pressDowns downs).line.text = editor.line.text
  unchanged : ∀ surroundings, editor.upReturns surroundings ≠ 0 →
    (editor.cmdUpKey surroundings).line.text = editor.line.text ∧
      (editor.cmdUpKey surroundings).line.curPos = editor.line.curPos

/-- There is a line before the one shown. -/
def HasOlder (editor : Editor) : Prop :=
  editor.hstPos - 1 ≠ editor.commands.hist ∧
    editor.commands.stack (editor.hstPos - 1) ≠ none

/-- The line being edited has its cursor at the end, or a line of the history is
as it was entered.  Where there is no older line, only the character at the
cursor matters. -/
structure TextSaved (editor : Editor) : Prop where
  present : editor.hstPos = editor.commands.hist → HasOlder editor →
    editor.line.curPos = editor.line.curMax ∧ 0 ∉ editor.line.text
  oldest : editor.hstPos = editor.commands.hist → ¬ HasOlder editor →
    editor.line.curPos = editor.line.curMax ∨
      editor.line.bytes editor.line.curPos = 0
  browsing : editor.hstPos ≠ editor.commands.hist → HasOlder editor →
    editor.commands.stack editor.hstPos = some editor.line.text

section Saving

variable {editor : Editor} (surroundings : Surroundings)

theorem saveLine_browsing (browsing : editor.hstPos ≠ editor.commands.hist) :
    editor.saveLine surroundings = (true, editor) := by
  unfold Editor.saveLine
  exact if_neg browsing

/-- The line is ended at the cursor, whatever comes of it. -/
theorem saveLine_line (present : editor.hstPos = editor.commands.hist) :
    (editor.saveLine surroundings).2.line =
      editor.line.store editor.line.curPos 0 := by
  unfold Editor.saveLine
  dsimp only
  rw [if_pos present]
  split <;> rfl

theorem saveLine_saved (present : editor.hstPos = editor.commands.hist)
    (saved : (editor.saveLine surroundings).1 = true) :
    (editor.saveLine surroundings).2.commands.stack editor.hstPos =
      some ((editor.line.store editor.line.curPos 0).stringTo
        editor.line.curPos) := by
  unfold Editor.saveLine at saved ⊢
  dsimp only at saved ⊢
  rw [if_pos present] at saved ⊢
  split at saved
  · cases saved
  · rename_i memory
    rw [if_neg memory]
    exact if_pos present

theorem stringTo_store_curPos {line : Line}
    (order : line.curPos ≤ line.curMax) :
    (line.store line.curPos 0).stringTo line.curPos =
      (line.text.take line.curPos).takeWhile (· != 0) := by
  have same : (List.range line.curPos).map (line.store line.curPos 0).bytes =
      line.text.take line.curPos := by
    have short : min line.curPos line.curMax = line.curPos :=
      Nat.min_eq_left order
    rw [Line.text, ← List.map_take, List.take_range, short]
    apply List.map_congr_left
    intro index member
    exact if_neg (Nat.ne_of_lt (List.mem_range.mp member))
  rw [Line.stringTo, same]

theorem saved_eq_text_iff {line : Line} (order : line.curPos ≤ line.curMax) :
    (line.text.take line.curPos).takeWhile (· != 0) = line.text ↔
      line.curPos = line.curMax ∧ 0 ∉ line.text := by
  constructor
  · intro same
    have short := (List.takeWhile_sublist (· != 0)
      (l := line.text.take line.curPos)).length_le
    rw [same, List.length_take, Line.length_text] at short
    have atEnd : line.curPos = line.curMax := by omega
    refine ⟨atEnd, ?_⟩
    intro zero
    rw [← same] at zero
    have kept := List.mem_takeWhile_imp zero
    simp at kept
  · rintro ⟨atEnd, noZero⟩
    have whole : line.text.take line.curPos = line.text := by
      apply List.take_of_length_le
      rw [Line.length_text, atEnd]
    rw [whole, List.takeWhile_eq_self_iff]
    intro char member
    apply bne_iff_ne.mpr
    rintro rfl
    exact noZero member

end Saving

section Keys

variable {editor : Editor} {surroundings : Surroundings}

theorem upReturns_zero_iff :
    editor.upReturns surroundings = 0 ↔
      (editor.saveLine surroundings).1 = true ∧ HasOlder editor := by
  obtain ⟨samePlace, sameHist⟩ := saveLine_place surroundings editor
  have holds : ((editor.saveLine surroundings).2.hstPos - 1 ≠
      (editor.saveLine surroundings).2.commands.hist ∧
      (editor.saveLine surroundings).2.commands.stack
        ((editor.saveLine surroundings).2.hstPos - 1) ≠ none) ↔
      HasOlder editor := by
    rw [samePlace, sameHist, HasOlder]
    apply and_congr_right
    intro other
    rw [saveLine_slots surroundings editor other]
  rw [← holds]
  unfold Editor.upReturns
  dsimp only
  constructor
  · intro zero
    by_contra fails
    rw [if_neg fails] at zero
    cases zero
  · exact fun succeeds => if_pos succeeds

theorem cmdUpKey_of_failed (failed : editor.upReturns surroundings ≠ 0) :
    editor.cmdUpKey surroundings = (editor.saveLine surroundings).2 := by
  rw [ne_eq, upReturns_zero_iff] at failed
  obtain ⟨samePlace, sameHist⟩ := saveLine_place surroundings editor
  cases result : editor.saveLine surroundings with
  | mk answer saved =>
      rw [result] at failed samePlace sameHist
      unfold Editor.cmdUpKey
      rw [result]
      cases answer with
      | false => rfl
      | true =>
          dsimp only at samePlace sameHist ⊢
          have none : ¬ HasOlder editor := fun has => failed ⟨rfl, has⟩
          unfold Editor.showOlder
          dsimp only
          split
          · rfl
          · rename_i command held
            apply if_neg
            intro other
            rw [samePlace, sameHist] at other
            have slot := saveLine_slots surroundings editor other
            rw [result, ← samePlace, held] at slot
            rw [samePlace] at slot
            exact none ⟨other, by rw [← slot]; exact Option.some_ne_none _⟩

theorem cmdUpKey_succeeds (succeeds : editor.upReturns surroundings = 0) :
    (editor.cmdUpKey surroundings).hstPos = editor.hstPos - 1 := by
  obtain ⟨saved, other, some_⟩ := upReturns_zero_iff.mp succeeds
  obtain ⟨command, held⟩ := Option.ne_none_iff_exists'.mp some_
  rw [cmdUpKey_of_older saved other held]

theorem cmdDownKey_browsing (browsing : editor.hstPos ≠ editor.commands.hist) :
    (editor.cmdDownKey surroundings).commands = editor.commands ∧
      (editor.cmdDownKey surroundings).hstPos = editor.hstPos + 1 ∧
      (editor.cmdDownKey surroundings).line.text =
        (editor.commands.stack (editor.hstPos + 1)).getD
          surroundings.atNull := by
  unfold Editor.cmdDownKey
  rw [if_neg browsing]
  exact ⟨rfl, rfl, Line.recalled_text _ _⟩

end Keys

theorem older_back (count : Nat) (slot : Fin 16) :
    older count (slot - 1) = older (count + 1) slot := by
  induction count with
  | zero => rfl
  | succ count induction =>
      rw [older, induction]
      rfl

theorem pressUps_browsing {ups : List Surroundings} {editor : Editor}
    (browsing : editor.hstPos ≠ editor.commands.hist)
    (succeed : UpsSucceed ups editor) :
    (editor.pressUps ups).commands = editor.commands ∧
      (editor.pressUps ups).hstPos = older ups.length editor.hstPos ∧
      ∀ back < ups.length,
        older (back + 1) editor.hstPos ≠ editor.commands.hist := by
  induction ups generalizing editor with
  | nil =>
      exact ⟨rfl, rfl, fun back inside => absurd inside (Nat.not_lt_zero _)⟩
  | cons surroundings ups induction =>
      obtain ⟨succeeds, later⟩ := succeed
      have place := cmdUpKey_succeeds succeeds
      have commands : (editor.cmdUpKey surroundings).commands =
          editor.commands := by
        rw [cmdUpKey_commands, saveLine_browsing surroundings browsing]
      have other := (upReturns_zero_iff.mp succeeds).2.1
      obtain ⟨sameCommands, samePlace, passed⟩ := @induction
        (editor.cmdUpKey surroundings) (by rw [place, commands]; exact other)
        later
      rw [commands] at sameCommands
      rw [place, older_back] at samePlace
      refine ⟨sameCommands, samePlace, ?_⟩
      intro back inside
      cases back with
      | zero => exact other
      | succ back =>
          have later := passed back (Nat.lt_of_succ_lt_succ inside)
          rw [place, older_back, commands] at later
          exact later

theorem pressUps_succeed {first : Surroundings} {ups : List Surroundings}
    {editor : Editor} (succeed : UpsSucceed (first :: ups) editor) :
    let after := editor.pressUps (first :: ups)
    after.commands = (editor.saveLine first).2.commands ∧
      after.hstPos = older (ups.length + 1) editor.hstPos ∧
      ∀ back ≤ ups.length,
        older (back + 1) editor.hstPos ≠ after.commands.hist := by
  obtain ⟨succeeds, later⟩ := succeed
  have place := cmdUpKey_succeeds succeeds
  have commands := cmdUpKey_commands first editor
  have sameHist := (saveLine_place first editor).2
  have other := (upReturns_zero_iff.mp succeeds).2.1
  have hist : (editor.cmdUpKey first).commands.hist =
      editor.commands.hist := by
    rw [commands, sameHist]
  obtain ⟨sameCommands, samePlace, passed⟩ := @pressUps_browsing ups
    (editor.cmdUpKey first) (by rw [place, hist]; exact other) later
  rw [place, older_back] at samePlace
  refine ⟨sameCommands.trans commands, samePlace, ?_⟩
  have whole : (editor.pressUps (first :: ups)).commands.hist =
      editor.commands.hist :=
    (congrArg CommandStack.hist sameCommands).trans hist
  rw [whole]
  intro back inside
  cases back with
  | zero => exact other
  | succ back =>
      have later := passed back inside
      rw [place, older_back, hist] at later
      exact later

theorem pressDowns_text {place : Fin 16} {text : List UInt8}
    {downs : List Surroundings} {editor : Editor} {count : Nat}
    (length : downs.length = count + 1)
    (isPlace : editor.hstPos = older (count + 1) place)
    (passed : ∀ back ≤ count,
      older (back + 1) place ≠ editor.commands.hist)
    (held : editor.commands.stack place = some text) :
    (editor.pressDowns downs).line.text = text := by
  induction count generalizing downs editor with
  | zero =>
      obtain ⟨surroundings, rfl⟩ := List.length_eq_one_iff.mp length
      have browsing : editor.hstPos ≠ editor.commands.hist := by
        rw [isPlace]
        exact passed 0 (Nat.le_refl 0)
      obtain ⟨-, -, shown⟩ := @cmdDownKey_browsing editor surroundings browsing
      rw [isPlace, older_succ, older, held] at shown
      exact shown
  | succ count induction =>
      cases downs with
      | nil => cases length
      | cons surroundings downs =>
          have browsing : editor.hstPos ≠ editor.commands.hist := by
            rw [isPlace]
            exact passed (count + 1) (Nat.le_refl _)
          obtain ⟨commands, next, -⟩ :=
            @cmdDownKey_browsing editor surroundings browsing
          rw [isPlace, older_succ] at next
          apply @induction downs (editor.cmdDownKey surroundings)
            (Nat.succ.inj length) next
          · intro back inside
            rw [commands]
            exact passed back (Nat.le_succ_of_le inside)
          · rw [commands]
            exact held

theorem upsDowns_text {first : Surroundings} {ups downs : List Surroundings}
    {editor : Editor} (length : (first :: ups).length = downs.length)
    (succeed : UpsSucceed (first :: ups) editor) {text : List UInt8}
    (held : (editor.saveLine first).2.commands.stack editor.hstPos =
      some text) :
    ((editor.pressUps (first :: ups)).pressDowns downs).line.text = text := by
  obtain ⟨commands, place, passed⟩ := pressUps_succeed succeed
  apply pressDowns_text length.symm place passed
  rw [commands]
  exact held

section Order

variable {line : Line}

theorem cmdMatch_order (names : List (List UInt8))
    (surroundings : Surroundings) (order : line.curPos ≤ line.curMax) :
    (cmdMatch names surroundings line).curPos ≤
      (cmdMatch names surroundings line).curMax := by
  unfold cmdMatch
  split
  · rw [insertAll_curPos, insertAll_curMax]
    exact Nat.add_le_add_right order _
  · exact order

theorem deleteOneKey_order (order : line.curPos ≤ line.curMax) :
    line.deleteOneKey.curPos ≤ line.deleteOneKey.curMax := by
  unfold Line.deleteOneKey
  split
  · exact order
  · rename_i inner
    simp only [Line.shiftDown_curPos, Line.store]
    omega

theorem Edits.order {names : List (List UInt8)} {surroundings : Surroundings}
    {char : UInt8} {editor : Editor}
    (edits : Edits names surroundings char editor line)
    (order : editor.line.curPos ≤ editor.line.curMax) :
    line.curPos ≤ line.curMax := by
  cases edits with
  | same => exact order
  | completed => exact cmdMatch_order names surroundings order
  | erased => exact Nat.sub_le_sub_right order 1
  | dropped => exact Nat.le_refl 0
  | right =>
      unfold Line.cmdRightKey
      split
      · rename_i inside
        exact inside
      · exact order
  | left =>
      unfold Line.cmdLeftKey
      split
      · exact Nat.le_trans (Nat.sub_le _ 1) order
      · exact order
  | printed =>
      unfold Line.printInput
      split
      · exact Nat.succ_le_succ order
      · exact order
  | home => exact Nat.zero_le _
  | toEnd => exact Nat.le_refl _
  | deleted => exact deleteOneKey_order order

end Order

namespace Editable

variable {editor : Editor} (editable : Editable editor)

include editable

theorem withLine {line : Line} (order : line.curPos ≤ line.curMax) :
    Editable (editor.withLine line) :=
  ⟨order, editable.filled⟩

theorem lineEnd (surroundings : Surroundings) :
    Editable (editor.lineEnd surroundings) := by
  unfold Editor.lineEnd
  split
  · exact ⟨editable.order, editable.filled⟩
  · exact ⟨Nat.le_refl _, .present⟩

theorem saveLine (surroundings : Surroundings) :
    Editable (editor.saveLine surroundings).2 := by
  unfold Editor.saveLine
  dsimp only
  split
  · split
    · exact ⟨editable.order, editable.filled⟩
    · exact ⟨editable.order, editable.filled.write _ _⟩
  · exact editable

theorem cmdUpKey (surroundings : Surroundings) :
    Editable (editor.cmdUpKey surroundings) := by
  have kept := editable.saveLine surroundings
  by_cases succeeds : editor.upReturns surroundings = 0
  · obtain ⟨saved, other, some_⟩ := upReturns_zero_iff.mp succeeds
    obtain ⟨command, held⟩ := Option.ne_none_iff_exists'.mp some_
    have samePlace := (saveLine_place surroundings editor).1
    have here := editable.filled.stack_of_saveLine saved
    have filled := kept.filled
    rw [samePlace] at filled here
    rw [cmdUpKey_of_older saved other held]
    refine ⟨Nat.le_refl _, filled.back here ?_⟩
    rw [saveLine_slots surroundings editor other]
    exact some_
  · rw [cmdUpKey_of_failed succeeds]
    exact kept

theorem cmdDownKey (surroundings : Surroundings) :
    Editable (editor.cmdDownKey surroundings) := by
  unfold Editor.cmdDownKey
  split
  · exact editable
  · rename_i browsing
    rcases filled_iff.mp editable.filled with present | ⟨-, -, later⟩
    · exact absurd present browsing
    · exact ⟨Nat.le_refl _, later⟩

theorem step (names : List (List UInt8)) (char : UInt8)
    (surroundings : Surroundings) :
    Editable (editor.step names char surroundings) := by
  have kept (line : Line)
      (edits : Edits names surroundings char editor line) :
      Editable (editor.withLine line) :=
    editable.withLine (edits.order editable.order)
  refine step_rule ?_ kept ?_ ?_ ?_
  · intro other _ _ _ editable
    exact ⟨editable.order, editable.filled⟩
  · intro line edits
    exact (kept line edits).lineEnd surroundings
  · exact editable.cmdUpKey surroundings
  · exact editable.cmdDownKey surroundings

end Editable

theorem editable_run (names : List (List UInt8)) (stack : Nat → UInt8)
    (inputs : List (UInt8 × Surroundings)) :
    Editable ((shellInit stack).run names inputs) := by
  have start : Editable (shellInit stack) := ⟨Nat.le_refl _, .present⟩
  generalize shellInit stack = editor at start
  induction inputs generalizing editor with
  | nil => exact start
  | cons input inputs induction =>
      exact induction _ (start.step names input.1 input.2)

theorem store_text_eq_iff {line : Line} (order : line.curPos ≤ line.curMax) :
    (line.store line.curPos 0).text = line.text ↔
      line.curPos = line.curMax ∨ line.bytes line.curPos = 0 := by
  constructor
  · intro same
    by_cases atEnd : line.curPos = line.curMax
    · exact Or.inl atEnd
    · have inside : line.curPos < line.curMax :=
        Nat.lt_of_le_of_ne order atEnd
      have cell := congrArg (fun text => text[line.curPos]?) same
      have stored : (line.store line.curPos 0).curMax = line.curMax := rfl
      simp only [Line.text, List.getElem?_map, stored,
        List.getElem?_range inside, Option.map_some,
        Option.some.injEq] at cell
      have zero : (line.store line.curPos 0).bytes line.curPos = 0 :=
        if_pos rfl
      exact Or.inr (cell.symm.trans zero)
  · intro kept
    apply List.map_congr_left
    intro index member
    by_cases here : index = line.curPos
    · rcases kept with atEnd | zero
      · have inside : index < line.curMax := List.mem_range.mp member
        omega
      · rw [here]
        exact (if_pos rfl).trans zero.symm
    · exact if_neg here

theorem UpUndone.saved_eq_text {editor : Editor} (undone : UpUndone editor)
    (has : HasOlder editor) {text : List UInt8}
    (held : (editor.saveLine calm).2.commands.stack editor.hstPos =
      some text) : text = editor.line.text := by
  have succeeds : UpsSucceed [calm] editor :=
    ⟨upReturns_zero_iff.mpr ⟨saveLine_memory rfl, has⟩, trivial⟩
  have back : ((editor.pressUps [calm]).pressDowns [calm]).line.text =
      text :=
    upsDowns_text rfl succeeds held
  rw [← back]
  exact undone.restored [calm] [calm] rfl succeeds

theorem UpUndone.textSaved {editor : Editor} (undone : UpUndone editor)
    (editable : Editable editor) : TextSaved editor := by
  have order := editable.order
  refine ⟨?_, ?_, ?_⟩
  · intro present has
    have held := saveLine_saved calm present (saveLine_memory rfl)
    rw [stringTo_store_curPos order] at held
    exact (saved_eq_text_iff order).mp (undone.saved_eq_text has held)
  · intro present none
    have failed : editor.upReturns calm ≠ 0 := by
      rw [ne_eq, upReturns_zero_iff]
      exact fun both => none both.2
    have same := (undone.unchanged calm failed).1
    rw [cmdUpKey_of_failed failed, saveLine_line calm present] at same
    exact (store_text_eq_iff order).mp same
  · intro browsing has
    rcases filled_iff.mp editable.filled with present | ⟨here, -⟩
    · exact absurd present browsing
    · obtain ⟨command, held⟩ := Option.ne_none_iff_exists'.mp here
      have saved : (editor.saveLine calm).2.commands.stack editor.hstPos =
          some command := by
        rw [saveLine_browsing calm browsing]
        exact held
      rw [← undone.saved_eq_text has saved]
      exact held

theorem TextSaved.upUndone {editor : Editor} (textSaved : TextSaved editor)
    (editable : Editable editor) : UpUndone editor := by
  have order := editable.order
  refine ⟨?_, ?_⟩
  · intro ups downs length succeed
    cases ups with
    | nil =>
        obtain rfl := List.length_eq_zero_iff.mp length.symm
        rfl
    | cons first ups =>
        obtain ⟨saved, has⟩ := upReturns_zero_iff.mp succeed.1
        apply upsDowns_text length succeed
        by_cases present : editor.hstPos = editor.commands.hist
        · have whole := textSaved.present present has
          rw [saveLine_saved first present saved,
            stringTo_store_curPos order]
          exact congrArg some ((saved_eq_text_iff order).mpr whole)
        · rw [saveLine_browsing first present]
          exact textSaved.browsing present has
  · intro surroundings failed
    rw [cmdUpKey_of_failed failed]
    by_cases present : editor.hstPos = editor.commands.hist
    · rw [saveLine_line surroundings present]
      refine ⟨(store_text_eq_iff order).mpr ?_, rfl⟩
      by_cases has : HasOlder editor
      · exact Or.inl (textSaved.present present has).1
      · exact textSaved.oldest present has
    · rw [saveLine_browsing surroundings present]
      exact ⟨rfl, rfl⟩

/-- The text comes back from Up and Down, and an Up that fails leaves it alone,
exactly where all of it is saved. -/
theorem upUndone_iff {editor : Editor} (editable : Editable editor) :
    UpUndone editor ↔ TextSaved editor :=
  ⟨fun undone => undone.textSaved editable,
    fun textSaved => textSaved.upUndone editable⟩

/-- The shell after `a`, Enter, `b`, `c`. -/
def behindC : Editor :=
  (shellInit fun _ => 0).run []
    ([0x61, newline, 0x62, 0x63].map (·, calm))

theorem textSaved_behindC : TextSaved behindC := by
  have present : behindC.hstPos = behindC.commands.hist := rfl
  have has : HasOlder behindC := ⟨by decide, by decide⟩
  refine ⟨?_, ?_, ?_⟩
  · intro _ _
    exact ⟨rfl, by decide⟩
  · intro _ none
    exact absurd has none
  · intro browsing _
    exact absurd present browsing

theorem upUndone_iff_behindC : UpUndone behindC :=
  (upUndone_iff (editable_run [] (fun _ => 0) _)).mpr textSaved_behindC

/-- The shell after `a`, Enter, `b`, `c`, Left. -/
def leftOfC : Editor :=
  (shellInit fun _ => 0).run []
    ([0x61, newline, 0x62, 0x63, escapeKey, bracketKey, 0x44].map (·, calm))

/-- Up and Down with the cursor in front of `c` leave `b`. -/
theorem not_upUndone_leftOfC : ¬ UpUndone leftOfC := by
  intro undone
  have succeeds : UpsSucceed [calm] leftOfC :=
    ⟨by decide, trivial⟩
  have same := undone.restored [calm] [calm] rfl succeeds
  exact absurd same (by decide)

end Witos.Shell
