import Mathlib.Data.Fin.Basic
import Witos.Library.Trace
import Witos.Library.Word

/-!
# The line editor of the shell

`command_read_line` of `shell/shell.c` with what it calls.  The editor takes
one character of the console at a time.  The buffer is memory from the address
of the line on, and a store outside of its `MAX_ARG_LEN` bytes is remembered:
from there on the program has destroyed its own stack.  What is printed is left
out.
-/

namespace Witos.Shell

open Library

/-- `MAX_ARG_LEN`. -/
def maxArgLen : Nat := 512

def tab : UInt8 := 0x09
def newline : UInt8 := 0x0a
def carriageReturn : UInt8 := 0x0d
def interruptKey : UInt8 := 0x03
def escapeKey : UInt8 := 0x1b
def blank : UInt8 := 0x20
def dash : UInt8 := 0x2d
def bracketKey : UInt8 := 0x5b
def tilde : UInt8 := 0x7e

/-- `buf` with the two cursors. -/
structure Line where
  bytes : Nat → UInt8
  curPos : Nat
  curMax : Nat
  inside : Bool

namespace Line

def store (index : Nat) (byte : UInt8) (line : Line) : Line :=
  { line with
    bytes := fun place => if place = index then byte else line.bytes place
    inside := line.inside && decide (index < maxArgLen) }

/-- The characters up to `cur_max`. -/
def text (line : Line) : List UInt8 :=
  (List.range line.curMax).map line.bytes

/-- The C string at `buf`, which ends before `stop`. -/
def stringTo (stop : Nat) (line : Line) : List UInt8 :=
  ((List.range stop).map line.bytes).takeWhile (· != 0)

/-- `buf[i] = buf[i - 1]` from the index given down to `stop + 1`. -/
def shiftUp (stop : Nat) : Nat → Line → Line
  | 0, line => line
  | index + 1, line =>
      if stop < index + 1 then
        shiftUp stop index (line.store (index + 1) (line.bytes index))
      else line

/-- `buf[i - 1] = buf[i]` for `count` indices from `index` on. -/
def shiftDown : Nat → Nat → Line → Line
  | 0, _, line => line
  | count + 1, index, line =>
      shiftDown count (index + 1)
        (line.store (index - 1) (line.bytes index))

def insertOneKey (char : UInt8) (line : Line) : Line :=
  let shifted := line.shiftUp line.curPos line.curMax
  { shifted.store line.curPos char with
    curPos := line.curPos + 1
    curMax := line.curMax + 1 }

def backspaceOneKey (line : Line) : Line :=
  let shifted := line.shiftDown (line.curMax - line.curPos) line.curPos
  { shifted.store (line.curMax - 1) 0 with
    curPos := line.curPos - 1
    curMax := line.curMax - 1 }

def deleteOneKey (line : Line) : Line :=
  if line.curPos = line.curMax then line
  else
    let shifted := line.shiftDown (line.curMax - 1 - line.curPos)
      (line.curPos + 1)
    { shifted.store line.curMax 0 with curMax := line.curMax - 1 }

def printInput (char : UInt8) (line : Line) : Line :=
  if line.curPos < maxArgLen - 1 then line.insertOneKey char else line

def cmdRightKey (line : Line) : Line :=
  if line.curPos < line.curMax then
    { line with curPos := line.curPos + 1 }
  else line

def cmdLeftKey (line : Line) : Line :=
  if 0 < line.curPos then { line with curPos := line.curPos - 1 } else line

/-- Store a list of bytes from an index on. -/
def storeAll (index : Nat) : List UInt8 → Line → Line
  | [], line => line
  | byte :: others, line =>
      storeAll (index + 1) others (line.store index byte)

/-- The line replaced by a command of the history: what was before the cursor
is erased, and `strcpy` stores the command with its terminator. -/
def recalled (command : List UInt8) (line : Line) : Line :=
  let erased := line.storeAll 0 (List.replicate line.curPos 0)
  { erased.storeAll 0 (command ++ [0]) with
    curPos := command.length
    curMax := command.length }

/-- The line as `command_read_line` sets it up. -/
def clear (line : Line) : Line :=
  { line.storeAll 0 (List.replicate maxArgLen 0) with
    curPos := 0
    curMax := 0 }

end Line

/-- `g_cmd_stack`.  Indices wrap around as `APP_ADJUST_INDEX` has it. -/
structure CommandStack where
  stack : Fin 16 → Option (List UInt8)
  hist : Fin 16

def CommandStack.write (index : Fin 16) (command : List UInt8)
    (commands : CommandStack) : CommandStack :=
  { commands with
    stack := fun slot =>
      if slot = index then some command else commands.stack slot }

/-- What the rest of the machine decides when a character is handled. -/
structure Surroundings where
  /-- Whether `malloc` finds memory. -/
  memory : Bool
  /-- The bytes of a row of `psz_result` in front of its name and behind it. -/
  around : Nat → Int → UInt8
  /-- The byte before the buffer. -/
  before : UInt8
  /-- The string at address 0. -/
  atNull : List UInt8

/-- `cmd_update_history`. -/
def cmdUpdateHistory (memory : Bool) (line : List UInt8)
    (commands : CommandStack) : CommandStack :=
  if commands.stack commands.hist = none ∧ ¬memory then commands
  else { commands.write commands.hist line with hist := commands.hist + 1 }

/-- `get_pre_space_count`, within the buffer. -/
def preSpaceCount (line : Line) : Nat :=
  (((List.range maxArgLen).map line.bytes).takeWhile (· == blank)).length

/-- Whether `strncmp` finds a name equal to the `count` bytes from `index` on,
up to a terminator. -/
def sameName (bytes : Nat → UInt8) : List UInt8 → Nat → Nat → Bool
  | [], index, count => count == 0 || bytes index == 0
  | char :: others, index, count =>
      count == 0 ||
        (bytes index == char &&
          sameName bytes others (index + 1) (count - 1))

/-- `*cur_pos - pre_space_count` as the unsigned count of `strncmp`, which
counts from 1 and takes a count of 0 for no limit. -/
def compared (line : Line) : Nat :=
  if preSpaceCount line < line.curPos then
    line.curPos - preSpaceCount line
  else 2 ^ 32 + line.curPos - preSpaceCount line

def helpName : List UInt8 := [0x68, 0x65, 0x6c, 0x70]

/-- The names in `psz_result`.  `names` are those between `g_exe_begin` and
`g_exe_end`. -/
def pszResult (names : List (List UInt8)) (line : Line) :
    List (List UInt8) :=
  (helpName :: names).filter fun name =>
    line.curPos == 0 ||
      sameName line.bytes name (preSpaceCount line) (compared line)

/-- `psz_result[row][index]`. -/
def resultChar (around : Nat → Int → UInt8) (results : List (List UInt8))
    (row : Nat) (index : Int) : UInt8 :=
  let name := results.getD row []
  if 0 ≤ index ∧ index ≤ name.length then name.getD index.toNat 0
  else around row index

/-- The bytes on which all results agree, from `index` on.  The loop is cut off
when the buffer is more than full. -/
def agreed (around : Nat → Int → UInt8) (results : List (List UInt8)) :
    Nat → Int → List UInt8
  | 0, _ => []
  | fuel + 1, index =>
      let char := resultChar around results 0 index
      if char = 0 then []
      else if (List.range results.length).all fun row =>
          resultChar around results row index == char then
        char :: agreed around results fuel (index + 1)
      else []

/-- The bytes `cmd_match` inserts. -/
def completion (names : List (List UInt8)) (surroundings : Surroundings)
    (line : Line) : List UInt8 :=
  let results := pszResult names line
  let start : Int := line.curPos - preSpaceCount line
  match results with
  | [] => []
  | [name] =>
      (List.range (name.length + preSpaceCount line - line.curPos)).map
          (fun offset =>
            resultChar surroundings.around results 0 (start + offset)) ++
        if line.curPos = line.curMax then [blank] else []
  | _ => agreed surroundings.around results maxArgLen start

/-- `cmd_match`. -/
def cmdMatch (names : List (List UInt8)) (surroundings : Surroundings)
    (line : Line) : Line :=
  if surroundings.memory then
    (completion names surroundings line).foldl
      (fun line char => line.insertOneKey char) line
  else line

/-- Whether `cmd_line_status` answers `IS_CMD_MATCH`: no option begins before
the cursor or the end of the string. -/
def isCmdMatch (before : UInt8) (line : Line) : Bool :=
  let seen := line.stringTo line.curPos
  (List.range seen.length).all fun index =>
    !(line.bytes index == dash &&
      (if index = 0 then before else line.bytes (index - 1)) == blank)

/-- What `shell_getchar` was called for. -/
inductive Reading
  | key
  /-- Behind ESC. -/
  | escape
  /-- Behind ESC and `[`. -/
  | bracket
  /-- Behind `O` of a special key. -/
  | homeOrEnd
  /-- Behind `3` of a special key. -/
  | delete
deriving DecidableEq

/-- The editor, the history and the lines returned so far. -/
structure Editor where
  line : Line
  commands : CommandStack
  hstPos : Fin 16
  escSequence : Bool
  specKey : Bool
  reading : Reading
  returned : List (List UInt8)

namespace Editor

/-- The state in which `command_read_line` reads its first key. -/
def start (line : Line) (commands : CommandStack)
    (returned : List (List UInt8)) : Editor :=
  { line := line.clear
    commands := commands
    hstPos := commands.hist
    escSequence := false
    specKey := false
    reading := .key
    returned := returned }

/-- The part of `cmd_up_key` that saves the present line, and whether there was
memory for it. -/
def saveLine (surroundings : Surroundings) (editor : Editor) :
    Bool × Editor :=
  let { commands, .. } := editor
  if editor.hstPos = commands.hist then
    let line := editor.line.store editor.line.curPos 0
    if commands.stack commands.hist = none ∧ ¬surroundings.memory then
      (false, { editor with line := line })
    else
      (true, { editor with
        line := line
        commands :=
          commands.write commands.hist (line.stringTo line.curPos) })
  else (true, editor)

/-- The part of `cmd_up_key` that shows an older command. -/
def showOlder (editor : Editor) : Editor :=
  let index := editor.hstPos - 1
  match editor.commands.stack index with
  | none => editor
  | some command =>
      if index ≠ editor.commands.hist then
        { editor with line := editor.line.recalled command, hstPos := index }
      else editor

/-- `cmd_up_key`. -/
def cmdUpKey (surroundings : Surroundings) (editor : Editor) : Editor :=
  match editor.saveLine surroundings with
  | (false, saved) => saved
  | (true, saved) => saved.showOlder

/-- `cmd_down_key`. -/
def cmdDownKey (surroundings : Surroundings) (editor : Editor) : Editor :=
  if editor.hstPos = editor.commands.hist then editor
  else
    let index := editor.hstPos + 1
    let command :=
      (editor.commands.stack index).getD surroundings.atNull
    { editor with line := editor.line.recalled command, hstPos := index }

/-- The inner loop is over.  With an empty line there is another prompt, else
the line is returned and the shell calls `command_read_line` again. -/
def lineEnd (surroundings : Surroundings) (editor : Editor) : Editor :=
  if editor.line.curMax = 0 then { editor with reading := .key }
  else
    let line := editor.line.store editor.line.curMax 0
    let text := line.stringTo line.curMax
    start line
      (cmdUpdateHistory surroundings.memory text editor.commands)
      (editor.returned ++ [text])

end Editor

/-- The branches of the `switch`. -/
inductive Action
  | complete | enter | interrupt | backspace | up | down | right | left
  | special (reading : Reading)
  | print
  | ignore
deriving DecidableEq

/-- The branch a character takes. -/
def actionOf (escSequence specKey : Bool) (char : UInt8) : Action :=
  if char = tab then .complete
  else if char = carriageReturn ∨ char = newline then .enter
  else if char = interruptKey then .interrupt
  else if char = 0x08 ∨ char = 0x7f then .backspace
  else if char = 0x41 then if escSequence then .up else .print
  else if char = 0x42 then if escSequence then .down else .print
  else if char = 0x43 then if escSequence then .right else .print
  else if char = 0x44 then if escSequence then .left else .print
  else if char = 0x4f then if specKey then .special .homeOrEnd else .print
  else if char = 0x33 then if specKey then .special .delete else .print
  else if 0x20 ≤ char ∧ char ≤ 0x7f then .print
  else .ignore

namespace Editor

def withLine (line : Line) (editor : Editor) : Editor :=
  { editor with line := line, reading := .key }

/-- What a branch of the `switch` does. -/
def perform (names : List (List UInt8)) (surroundings : Surroundings)
    (char : UInt8) (editor : Editor) : Action → Editor
  | .complete =>
      if isCmdMatch surroundings.before editor.line then
        editor.withLine (cmdMatch names surroundings editor.line)
      else editor.withLine editor.line
  | .enter => editor.lineEnd surroundings
  | .interrupt =>
      (editor.withLine
        { editor.line with curPos := 0, curMax := 0 }).lineEnd surroundings
  | .backspace =>
      if 0 < editor.line.curPos then
        editor.withLine editor.line.backspaceOneKey
      else editor.withLine editor.line
  | .up => { editor.cmdUpKey surroundings with reading := .key }
  | .down => { editor.cmdDownKey surroundings with reading := .key }
  | .right => editor.withLine editor.line.cmdRightKey
  | .left => editor.withLine editor.line.cmdLeftKey
  | .special reading => { editor with reading := reading }
  | .print => editor.withLine (editor.line.printInput char)
  | .ignore => editor.withLine editor.line

/-- The character behind a special `O` or `3`.  The loop ends with it if it is
a line end. -/
def afterSpecial (surroundings : Surroundings) (char : UInt8) (line : Line)
    (editor : Editor) : Editor :=
  if char = carriageReturn ∨ char = newline then
    (editor.withLine line).lineEnd surroundings
  else editor.withLine line

/-- One character of the console. -/
def step (names : List (List UInt8)) (char : UInt8)
    (surroundings : Surroundings) (editor : Editor) : Editor :=
  match editor.reading with
  | .key =>
      if char = escapeKey then
        { editor with specKey := true, reading := .escape }
      else
        { editor with specKey := false, escSequence := false }.perform
          names surroundings char (actionOf false false char)
  | .escape =>
      if char = bracketKey then
        { editor with escSequence := true, reading := .bracket }
      else
        editor.perform names surroundings char
          (actionOf editor.escSequence editor.specKey char)
  | .bracket =>
      editor.perform names surroundings char
        (actionOf editor.escSequence editor.specKey char)
  | .homeOrEnd =>
      editor.afterSpecial surroundings char
        (if char = 0x48 then { editor.line with curPos := 0 }
        else if char = 0x46 then
          { editor.line with curPos := editor.line.curMax }
        else editor.line)
  | .delete =>
      editor.afterSpecial surroundings char
        (if char = tilde then editor.line.deleteOneKey else editor.line)

/-- The editor after the characters of the console. -/
def run (names : List (List UInt8)) :
    List (UInt8 × Surroundings) → Editor → Editor :=
  Trace.run fun input editor => editor.step names input.1 input.2

end Editor

end Witos.Shell
