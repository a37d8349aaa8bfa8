import Witos.Extra.Strex

/-!
# Partition definitions

`flash_parse_part` of `driver/flash/flash_core.c`.  The pointer into the
definition is the list of the characters that it has in front of it.  Numbers
are copied to a buffer on the stack, and behind a label that is not closed the
pointer passes the end of the string.  Labels and tables have any length here:
`PartAttr.Valid` and `Outcome.StaysInside` say when they fit in their arrays.
-/

namespace Witos.Flash

open Library Extra

def blank : UInt8 := 0x20
def openBracket : UInt8 := 0x28
def closeBracket : UInt8 := 0x29
def comma : UInt8 := 0x2c
def dash : UInt8 := 0x2d
def colon : UInt8 := 0x3a
def semicolon : UInt8 := 0x3b
def atSign : UInt8 := 0x40
def letterO : UInt8 := 0x6f
def letterR : UInt8 := 0x72

/-- `-EINVAL`. -/
def einval : Int := -22

/-- `MAX_FLASH_PARTS`. -/
def maxFlashParts : Nat := 16

/-- `LABEL_NAME_SIZE`. -/
def labelNameSize : Nat := 32

/-- The size of `buff`. -/
def buffSize : Nat := 128

/-- The fields of the host that are read. -/
structure Geometry where
  eraseSize : Nat
  chipSize : Nat
  eraseSize_pos : 0 < eraseSize
  eraseSize_lt : eraseSize < 2 ^ 32
  chipSize_lt : chipSize < 2 ^ 32

/-- `struct part_attr`.  The label is what was stored before its terminator. -/
structure PartAttr where
  base : Nat
  size : Nat
  label : List UInt8
  readOnly : Bool
deriving DecidableEq

/-- A part of the work on an item: an error with the value to return, an access
outside of the buffer or the string, or a result. -/
inductive Step (α : Type)
  | error (ret : Int)
  | outside
  | next (value : α)

def Step.bind {α β : Type} (step : Step α) (more : α → Step β) : Step β :=
  match step with
  | .error ret => .error ret
  | .outside => .outside
  | .next value => more value

/-- A number up to one of the characters that end it. -/
def number (stops text : List UInt8) : Step (Nat × List UInt8) :=
  let digits := text.takeWhile (!stops.contains ·)
  if buffSize ≤ digits.length then .outside
  else
    match hrStrToVal digits with
    | none => .error einval
    | some value => .next (value, text.dropWhile (!stops.contains ·))

def sizeStops : List UInt8 := [atSign, openBracket, letterR, comma]

def baseStops : List UInt8 := [openBracket, letterR, comma]

section Items

variable (geometry : Geometry)

/-- The size of a part, with the value that `ret` has then. -/
def partSize (base : Nat) (ret : Int) (text : List UInt8) :
    Step (Nat × Int × List UInt8) :=
  if text.head? = some dash then
    .next (sub32 geometry.chipSize base, ret, text.tail)
  else
    (number sizeStops text).bind fun (value, rest) =>
      .next (alignUp 32 geometry.eraseSize value, 0, rest)

/-- The base of a part. -/
def partBase (base : Nat) (ret : Int) (text : List UInt8) :
    Step (Nat × Int × List UInt8) :=
  if text.head? = some atSign then
    (number baseStops text.tail).bind fun (value, rest) =>
      .next (alignUp 32 geometry.eraseSize value, 0, rest)
  else .next (base, ret, text)

/-- The label of a part.  Where the bracket is missing, the pointer goes past
the terminator. -/
def partLabel (text : List UInt8) : Step (List UInt8 × List UInt8) :=
  if text.head? = some openBracket then
    match text.tail.dropWhile (· != closeBracket) with
    | [] => .outside
    | _ :: rest =>
        .next (text.tail.takeWhile (· != closeBracket), rest)
  else .next ([], text)

/-- Whether `BDF_RDONLY` is set. -/
def partFlags (text : List UInt8) : Step (Bool × List UInt8) :=
  if text.head? = some letterR then
    if text.tail.head? = some letterO then .next (true, text.tail.tail)
    else .error einval
  else .next (false, text)

def skipComma (text : List UInt8) : List UInt8 :=
  if text.head? = some comma then text.tail else text

/-- One round of the loop. -/
def parsePart (base : Nat) (ret : Int) (text : List UInt8) :
    Step (PartAttr × Int × List UInt8) :=
  (partSize geometry base ret (text.dropWhile (· == blank))).bind
    fun (size, ret, text) =>
  (partBase geometry base ret text).bind fun (start, ret, text) =>
  (partLabel text).bind fun (label, text) =>
  (partFlags text).bind fun (readOnly, text) =>
  .next ({ base := start, size, label, readOnly }, ret, skipComma text)

/-- What a call comes to.  The table has the entries that were completed. -/
inductive Outcome
  | returned (ret : Int) (table : List PartAttr)
  | outside
deriving DecidableEq

/-- The loop, with fuel for the characters of the definition. -/
def parseLoop : Nat → List UInt8 → Nat → Int → List PartAttr → Outcome
  | 0, _, _, _, _ => .outside
  | fuel + 1, text, base, ret, table =>
      if text = [] ∨ text.head? = some semicolon then
        .returned table.length table
      else if geometry.chipSize ≤ base then .returned ret table
      else
        match parsePart geometry base ret text with
        | .error ret => .returned ret table
        | .outside => .outside
        | .next (part, ret, text) =>
            parseLoop fuel text (add32 part.base part.size) ret
              (table ++ [part])

/-- `flash_parse_part`. -/
def flashParsePart (partDef : List UInt8) : Outcome :=
  match partDef.dropWhile (· != colon) with
  | [] => .returned einval []
  | _ :: text => parseLoop geometry (text.length + 1) text 0 einval []

end Items

end Witos.Flash
