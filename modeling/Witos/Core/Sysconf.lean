import Mathlib.Data.List.Basic

/-!
# The board configuration

`core/sysconf.c`.  The text lies in memory between one byte that precedes it and
one that follows it.  These two are read in some cases.  A read farther away is
not modelled: what comes of it depends on the rest of the memory.
-/

namespace Witos.Core

def newline : UInt8 := 0x0a
def blank : UInt8 := 0x20
def doubleQuote : UInt8 := 0x22
def equals : UInt8 := 0x3d

/-- `LINE_LEN`. -/
def lineLen : Nat := 512

/-- `struct sysconfig` with the bytes around its text. -/
structure Sysconfig where
  text : List UInt8
  before : UInt8
  behind : UInt8
  offset : Int
deriving DecidableEq

def Sysconfig.seek (offset : Int) (cfg : Sysconfig) : Sysconfig :=
  { cfg with offset := offset }

/-- The bytes from `cfg->offset` up to the end of the text. -/
def Sysconfig.rest (cfg : Sysconfig) : List UInt8 :=
  if cfg.offset < 0 then cfg.before :: cfg.text
  else cfg.text.drop cfg.offset.toNat

/-- The loop of `_syscfg_read_line`, with room for some more characters. -/
def readChars : Nat → List UInt8 → List UInt8
  | 0, _ => []
  | _ + 1, [] => []
  | room + 1, char :: bytes =>
      if char = newline then [] else char :: readChars room bytes

/-- What a function of the file comes to.  It may read outside of the memory
that is modelled. -/
inductive Answer (α : Type)
  | noData
  | value (value : α)
  | outside
deriving DecidableEq

/-- `_syscfg_read_line`: the characters stored in `line`, and the structure with
its new offset.  Behind the byte that follows the text, `size` has wrapped
around. -/
def syscfgReadLine (cfg : Sysconfig) (room : Nat) :
    Answer (List UInt8 × Sysconfig) :=
  if cfg.offset = cfg.text.length then .noData
  else if (cfg.text.length : Int) < cfg.offset ∨ cfg.offset < -1 then
    .outside
  else
    let line := readChars (room - 1) cfg.rest
    let stop := cfg.rest.getD line.length cfg.behind
    .value (line, { cfg with
      offset := cfg.offset + line.length + if stop = newline then 1 else 0 })

/-- A character array as a C string. -/
def cString (bytes : List UInt8) : List UInt8 :=
  bytes.takeWhile (· != 0)

/-- Whether `strncmp(attr, p, strlen(attr))` is 0 and `p` goes on with a blank
or `=`.  `strncmp` takes a count of 0 for no limit, and `p` is not empty. -/
def attrAt (attr p : List UInt8) : Bool :=
  attr != [] && attr.isPrefixOf p &&
    (p.getD attr.length 0 == blank || p.getD attr.length 0 == equals)

/-- `_is_attr_string`. -/
def isAttrString (attr : List UInt8) : List UInt8 → Bool
  | [] => false
  | char :: rest => attrAt attr (char :: rest) || isAttrString attr rest

/-- `search_attr`, for a number of lines: the length of the line found. -/
def searchAttr (attr : List UInt8) :
    Nat → Sysconfig → Answer (Nat × Sysconfig)
  | 0, _ => .outside
  | lines + 1, cfg =>
      match syscfgReadLine cfg lineLen with
      | .noData => .noData
      | .outside => .outside
      | .value (line, next) =>
          if isAttrString attr (cString line) then
            .value (line.length, next)
          else searchAttr attr lines next

/-- Where the value starts in a line, if there is a `=`. -/
def valueStart (line : List UInt8) : Option Nat :=
  if equals ∈ line then
    let start := line.idxOf equals + 1
    let start := start +
      ((line.drop start).takeWhile (· == blank)).length
    if line.getD start 0 = doubleQuote then some (start + 1)
    else some start
  else none

/-- The address of the value, counted from the text, and the string stored in
`val`.  The loops over `end` do nothing, for it points to the terminator. -/
def extractValue (offset : Int) (line : List UInt8) :
    Answer (Int × List UInt8) :=
  match valueStart line with
  | none => .outside
  | some start => .value (offset + start, line.drop start)

/-- The second half of `conf_get_attr`: the line found is read again. -/
def readValue (length : Nat) (found : Sysconfig) :
    Answer (Int × List UInt8) :=
  let again := found.seek (found.offset - (length + 1))
  match syscfgReadLine again lineLen with
  | .value (line, _) => extractValue again.offset (cString line)
  | _ => .outside

/-- `conf_get_attr` on the configuration as `_syscfg_open` gives it.  Every line
that is read moves on, so the number of lines does not limit the search. -/
def confGetAttr (cfg : Sysconfig) (attr : List UInt8) :
    Answer (Int × List UInt8) :=
  match searchAttr attr (cfg.text.length + 2) (cfg.seek 0) with
  | .noData => .noData
  | .outside => .outside
  | .value (length, found) => readValue length found

end Witos.Core
