import Witos.Library.Swap

/-!
# getopt

`lib/extra/getopt.c`.  An argument is a C string without its terminator, and
`argv` holds the arguments with the program in front.  The state between two
calls is what the file keeps in its global and static variables.
-/

namespace Witos.Extra

open Library.Swap

abbrev Arg := List UInt8

def dash : UInt8 := 0x2d
def colon : UInt8 := 0x3a
def questionMark : UInt8 := 0x3f

/-- `arg[pos]`, with the terminator at the end. -/
def charAt (arg : Arg) (pos : Nat) : UInt8 :=
  arg.getD pos 0

/-- The variables of the file and the arguments they are about. -/
structure Getopt where
  argv : List Arg
  optarg : Option Arg
  optind : Nat
  optopt : UInt8
  opterr : Bool
  optPos : Nat
  nonArgStart : Nat
  nonArgEnd : Nat
  console : List UInt8
deriving DecidableEq

def argOf (state : Getopt) (index : Nat) : Arg :=
  state.argv.getD index []

def getoptInit (state : Getopt) : Getopt :=
  { state with optind := 1, optPos := 1, nonArgStart := 0, nonArgEnd := 0 }

/-- One round of the outer loop of `adjust_argv`. -/
def adjustOne (state : Getopt) : Getopt :=
  { state with
    argv := sink state.nonArgStart (state.nonArgEnd + 1) state.argv
    nonArgStart := state.nonArgStart + 1
    nonArgEnd := state.nonArgEnd + 1 }

def adjustRounds : Nat → Getopt → Getopt
  | 0, state => state
  | rounds + 1, state => adjustRounds rounds (adjustOne state)

/-- `adjust_argv`.  `n` runs from `non_arg_end + 1` up to `optind`. -/
def adjustArgv (state : Getopt) : Getopt :=
  if 0 < state.nonArgStart then
    adjustRounds (state.optind - (state.nonArgEnd + 1)) state
  else state

/-- One round of the loop over arguments that do not begin with `-`. -/
def passOperand (state : Getopt) : Getopt :=
  { state with
    nonArgEnd := state.optind
    nonArgStart :=
      if state.nonArgStart = 0 then state.optind else state.nonArgStart
    optind := state.optind + 1 }

/-- The loop over arguments that do not begin with `-`, with `rounds` of
`argv` left. -/
def passOperands : Nat → Getopt → Getopt
  | 0, state => state
  | rounds + 1, state =>
      if charAt (argOf state state.optind) 0 = dash then state
      else passOperands rounds (passOperand state)

/-- What is behind the first `char` of a string, as `strchr` finds it.  The
characters looked for are never the terminator. -/
def strchr (text : Arg) (char : UInt8) : Option Arg :=
  match text with
  | [] => none
  | first :: rest => if first = char then some rest else strchr rest char

def bytesOf (text : String) : List UInt8 :=
  text.toList.map Char.toUInt8

/-- Print a message, unless `opterr` or the option string forbids it. -/
def complain (allowed : Bool) (message : List UInt8) (state : Getopt) :
    Getopt :=
  if state.opterr && allowed then
    { state with console := state.console ++ message }
  else state

/-- The branch for a letter the option string does not have. -/
def invalidOption (optStr : Arg) (char : UInt8) (state : Getopt) :
    Int × Getopt :=
  let state := complain (charAt optStr 0 != colon)
    (argOf state 0 ++ bytesOf ":  invalid option: -- '" ++ [char] ++
      bytesOf "'\n") { state with optopt := char }
  if charAt (argOf state state.optind) (state.optPos + 1) = 0 then
    (questionMark.toNat,
      { state with optind := state.optind + 1, optPos := 1 })
  else (questionMark.toNat, { state with optPos := state.optPos + 1 })

/-- The branch for a letter whose argument is missing. -/
def missingArgument (optStr : Arg) (char : UInt8) (state : Getopt) :
    Int × Getopt :=
  let state := complain true
    (argOf state 0 ++ bytesOf ":  option:'-" ++ [char] ++
      bytesOf "' requires an argument\n") { state with optopt := char }
  if charAt optStr 0 = colon then (colon.toNat, { state with optPos := 1 })
  else (questionMark.toNat, { state with optPos := 1 })

/-- The branch for a letter with `:` behind it in the option string.  `behind`
is what follows that `:`. -/
def takeArgument (optStr behind : Arg) (char : UInt8) (state : Getopt) :
    Int × Getopt :=
  let word := argOf state state.optind
  if charAt word (state.optPos + 1) ≠ 0 then
    (char.toNat, adjustArgv { state with
      optarg := some (word.drop (state.optPos + 1))
      optind := state.optind + 1
      optPos := 1 })
  else
    let state := { state with optind := state.optind + 1 }
    if state.argv.length ≤ state.optind ∨
        charAt (argOf state state.optind) 0 = dash then
      if charAt behind 0 = colon then
        (char.toNat, adjustArgv { state with optarg := none, optPos := 1 })
      else missingArgument optStr char state
    else
      (char.toNat, adjustArgv { state with
        optarg := some (argOf state state.optind)
        optind := state.optind + 1
        optPos := 1 })

/-- The branch for a letter without an argument. -/
def takeLetter (char : UInt8) (state : Getopt) : Int × Getopt :=
  if charAt (argOf state state.optind) (state.optPos + 1) = 0 then
    (char.toNat, adjustArgv { state with
      optarg := none, optind := state.optind + 1, optPos := 1 })
  else
    (char.toNat, adjustArgv { state with
      optarg := none, optPos := state.optPos + 1 })

/-- `getopt` from the letter at `opt_pos` on. -/
def takeOption (optStr : Arg) (state : Getopt) : Int × Getopt :=
  let char := charAt (argOf state state.optind) state.optPos
  match if char = colon then none else strchr optStr char with
  | none => invalidOption optStr char state
  | some behind =>
      if charAt behind 0 = colon then
        takeArgument optStr behind.tail char state
      else takeLetter char state

/-- `getopt`.  A character is returned as an unsigned value. -/
def getopt (optStr : Arg) (state : Getopt) : Int × Getopt :=
  if state.optPos = 1 then
    let state := passOperands (state.argv.length - state.optind) state
    if state.argv.length ≤ state.optind ∨
        charAt (argOf state state.optind) state.optPos = 0 then
      (-1, { state with
        optind :=
          if state.nonArgStart ≠ 0 then state.nonArgStart
          else state.optind })
    else takeOption optStr state
  else takeOption optStr state

/-- Call `getopt` until it returns -1, at most `calls` times.  The options are
listed with the `optarg` of their call. -/
def getoptLoop (optStr : Arg) :
    Nat → Getopt → Option (List (Int × Option Arg) × Getopt)
  | 0, _ => none
  | calls + 1, state =>
      match getopt optStr state with
      | (value, next) =>
          if value = -1 then some ([], next)
          else
            (getoptLoop optStr calls next).map fun (options, final) =>
              ((value, next.optarg) :: options, final)

end Witos.Extra
