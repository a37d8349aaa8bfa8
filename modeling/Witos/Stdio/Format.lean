import Mathlib.Data.Finset.BooleanAlgebra
import Witos.Library.Word

/-!
# The two formatters

`vsprintf` and `vsnprintf` of `lib/std/stdio.c` with `num_to_ascii`.  They scan
a conversion in the same way and differ in what their `switch` makes of its
letter.  `para` is the stack from the first argument on, and `strings` are the
strings in memory by their address.
-/

namespace Witos.Stdio

open Library

/-- The bits of `output_style`. -/
inductive Flag
  | left | sign | space | plus | zero | signInt
deriving DecidableEq

instance : Fintype Flag where
  elems := {.left, .sign, .space, .plus, .zero, .signInt}
  complete := by
    intro flag
    cases flag <;> decide

abbrev Style := Finset Flag

def dash : UInt8 := 0x2d
def cross : UInt8 := 0x2b
def blank : UInt8 := 0x20
def hash : UInt8 := 0x23
def nought : UInt8 := 0x30
def percent : UInt8 := 0x25
def asterisk : UInt8 := 0x2a

def pdigit (digit : Nat) : UInt8 :=
  [0x30, 0x31, 0x32, 0x33, 0x34, 0x35, 0x36, 0x37, 0x38, 0x39,
    0x41, 0x42, 0x43, 0x44, 0x45, 0x46].getD digit 0

/-- The loop over the digits, the last one first, with room for `fuel`. -/
def digitsFrom (base : Nat) : Nat → Nat → List UInt8
  | 0, _ => []
  | fuel + 1, num =>
      if num = 0 then []
      else pdigit (num % base) :: digitsFrom base fuel (num / base)

/-- `tmp_array` of `num_to_ascii`. -/
def tmpArray (num base : Nat) : List UInt8 :=
  if num = 0 then [nought] else digitsFrom base 32 num

def signOf (num base : Nat) (style : Style) : Option UInt8 :=
  if Flag.sign ∈ style ∧ base = 10 then
    if 2 ^ 31 ≤ num then some dash
    else if Flag.signInt ∈ style then none
    else some cross
  else if ¬(Flag.sign ∈ style ∨ 2 ^ 31 ≤ num) ∧ base = 10 ∧
      Flag.space ∈ style then some blank
  else none

/-- The number after the sign was taken off. -/
def unsign (num base : Nat) (style : Style) : Nat :=
  if Flag.sign ∈ style ∧ base = 10 ∧ 2 ^ 31 ≤ num then sub32 0 num else num

/-- What `pre_fixnum` stands for. -/
def leader (base : Nat) (style : Style) : List UInt8 :=
  if Flag.plus ∈ style then
    if base = 16 then [nought, 0x78]
    else if base = 8 then [nought]
    else []
  else []

def fillChar (style : Style) : UInt8 :=
  if Flag.zero ∈ style then nought else blank

/-- A value as a signed 32-bit number. -/
def toInt32 (value : Int) : Int :=
  value.bmod (2 ^ 32)

/-- What `while (width-- > len)` stores. -/
def fillDown (width len : Int) (fill : UInt8) : List UInt8 :=
  List.replicate (width - len).toNat fill

/-- The width behind that loop, which counts down once more as it ends. -/
def widthBehind (width len : Int) : Int :=
  toInt32 (min width len - 1)

/-- The text `num_to_ascii` stores. -/
def numToAscii (num : Nat) (width : Int) (base : Nat) (style : Style) :
    List UInt8 :=
  let digits := tmpArray (unsign num base style) base
  let sign := (signOf num base style).toList
  let room := toInt32 (width - (leader base style).length - sign.length -
    digits.length)
  let fill := fillChar style
  (if Flag.left ∈ style then [] else fillDown room 0 fill) ++
    leader base style ++ sign ++ digits.reverse ++
    fillDown (if Flag.left ∈ style then room else widthBehind room 0) 0 fill

def isDigit (char : UInt8) : Bool :=
  0x30 ≤ char ∧ char ≤ 0x39

/-- `get_sign`. -/
def getSign (style : Style) : List UInt8 → Style × List UInt8
  | [] => (style, [])
  | char :: fmt =>
      if char = dash then
        getSign ((insert Flag.left style).erase Flag.zero) fmt
      else if char = cross then getSign (insert Flag.sign style) fmt
      else if char = blank then getSign (insert Flag.space style) fmt
      else if char = hash then getSign (insert Flag.plus style) fmt
      else if char = nought then
        getSign
          (if Flag.left ∈ style then style else insert Flag.zero style) fmt
      else (style, char :: fmt)

def getWidth (width : Int) : List UInt8 → Int × List UInt8
  | [] => (width, [])
  | char :: fmt =>
      if isDigit char then
        getWidth (toInt32 (width * 10 + char.toNat - 0x30)) fmt
      else (width, char :: fmt)

/-- The digits of an argument behind `*`, the last one first. -/
def starDigits : Nat → Int → List UInt8
  | 0, _ => []
  | fuel + 1, value =>
      if value = 0 then []
      else
        UInt8.ofNat (value.tmod 10 + 0x30).toNat ::
          starDigits fuel (value.tdiv 10)

/-- `l` and `ll` are skipped. -/
def skipLong : List UInt8 → List UInt8
  | 0x6c :: 0x6c :: fmt => fmt
  | 0x6c :: fmt => fmt
  | fmt => fmt

/-- What the `switch` over the letter of a conversion decides. -/
inductive Conversion
  | number (base : Nat) (style : Style)
  | string
  | character
  | unknown

/-- What an iteration stores, whether it went through `ch_num`, and where it
leaves the format and the arguments. -/
structure Chunk where
  text : List UInt8
  viaScratch : Bool
  fmt : List UInt8
  para : Nat → UInt32

def nextArg (para : Nat → UInt32) : Nat → UInt32 :=
  fun index => para (index + 1)

/-- Text in a field: filled on its left unless `LEFT` is set, and on its right
with blanks. -/
def inField (style : Style) (width : Int) (text : List UInt8) : List UInt8 :=
  let len := toInt32 text.length
  (if Flag.left ∈ style then [] else fillDown width len (fillChar style)) ++
    text ++
    fillDown (if Flag.left ∈ style then width else widthBehind width len) len
      blank

/-- The `switch`, and what follows it; `roll` is the format behind the `%`. -/
def convert (decide : Option UInt8 → Style → Conversion)
    (strings : UInt32 → List UInt8) (roll : List UInt8) (style : Style)
    (width : Int) (fmt : List UInt8) (para : Nat → UInt32) : Chunk :=
  match decide fmt.head? style with
  | .number base style =>
      ⟨numToAscii (para 0).toNat width base style, true, fmt.tail,
        nextArg para⟩
  | .string =>
      ⟨inField style width (strings (para 0)), false, fmt.tail, nextArg para⟩
  | .character =>
      ⟨inField style width [(para 0).toUInt8], false, fmt.tail, nextArg para⟩
  | .unknown => ⟨[percent], false, roll, para⟩

/-- One iteration of the loop of a formatter over a format that goes on. -/
def iteration (decide : Option UInt8 → Style → Conversion)
    (strings : UInt32 → List UInt8) (char : UInt8) (fmt : List UInt8)
    (para : Nat → UInt32) : Chunk :=
  if char ≠ percent then ⟨[char], false, fmt, para⟩
  else if fmt.head? = some percent then ⟨[percent], false, fmt.tail, para⟩
  else
    let (style, behindFlags) := getSign ∅ fmt
    let (width, behindWidth) := getWidth 0 behindFlags
    if behindWidth.head? = some asterisk then
      let behindStar := behindWidth.tail
      if (behindStar.head?.map isDigit) = some true then
        ⟨(starDigits 32 (toInt32 (para 0).toNat)).reverse, false, behindStar,
          nextArg para⟩
      else
        convert decide strings fmt (style.erase Flag.left)
          (toInt32 (para 0).toNat) (skipLong behindStar) (nextArg para)
    else convert decide strings fmt style width (skipLong behindWidth) para

def sprintfSwitch (letter : Option UInt8) (style : Style) : Conversion :=
  match letter with
  | some 0x75 => .number 10 (style \ {Flag.sign, Flag.plus})
  | some 0x64 | some 0x69 =>
      .number 10
        (if Flag.sign ∈ style then style
        else style ∪ {Flag.signInt, Flag.sign})
  | some 0x70 => .number 16 (insert Flag.plus style)
  | some 0x58 | some 0x78 => .number 16 style
  | some 0x6f => .number 8 style
  | some 0x73 => .string
  | some 0x63 => .character
  | _ => .unknown

/-- The loop of `vsprintf`; every iteration takes a character of the format. -/
def vsprintfLoop (strings : UInt32 → List UInt8) :
    Nat → List UInt8 → (Nat → UInt32) → List UInt8
  | 0, _, _ => []
  | _ + 1, [], _ => []
  | fuel + 1, char :: fmt, para =>
      let chunk := iteration sprintfSwitch strings char fmt para
      chunk.text ++ vsprintfLoop strings fuel chunk.fmt chunk.para

/-- The text `sprintf` stores in front of a zero; it returns its length. -/
def sprintf (strings : UInt32 → List UInt8) (fmt : List UInt8)
    (para : Nat → UInt32) : List UInt8 :=
  vsprintfLoop strings fmt.length fmt para

/-- The mask of the case `u` has all bits set, and the case goes on with that
of `d`, which does not set the sign bits. -/
def snprintfSwitch (letter : Option UInt8) (style : Style) : Conversion :=
  match letter with
  | some 0x75 => .number 10 (style ∩ ({Flag.sign}ᶜ ∪ {Flag.plus}ᶜ))
  | some 0x64 | some 0x69 => .number 10 style
  | some 0x70 => .number 16 (insert Flag.plus style)
  | some 0x58 | some 0x78 => .number 16 style
  | some 0x6f => .number 8 style
  | some 0x73 => .string
  | some 0x63 => .character
  | _ => .unknown

/-- The text stored so far, and the number of characters there were. -/
structure Stored where
  text : List UInt8
  strCount : Nat
deriving DecidableEq

/-- `IF_UNOVER`. -/
def ifUnover (size : Nat) (stored : Stored) (char : UInt8) : Stored where
  text :=
    if stored.strCount < size - 1 then stored.text ++ [char] else stored.text
  strCount := stored.strCount + 1

def chNumSize : Nat := 32

/-- The loop of `vsnprintf`, which does not survive a number that is longer
than `ch_num`. -/
def vsnprintfLoop (strings : UInt32 → List UInt8) (size : Nat) :
    Nat → List UInt8 → (Nat → UInt32) → Stored → Option Stored
  | 0, _, _, stored => some stored
  | _ + 1, [], _, stored => some stored
  | fuel + 1, char :: fmt, para, stored =>
      let chunk := iteration snprintfSwitch strings char fmt para
      if chunk.viaScratch ∧ chNumSize < chunk.text.length then none
      else
        vsnprintfLoop strings size fuel chunk.fmt chunk.para
          (chunk.text.foldl (ifUnover size) stored)

/-- The text `snprintf` stores in front of a zero, and what it returns. -/
def snprintf (strings : UInt32 → List UInt8) (size : Nat)
    (fmt : List UInt8) (para : Nat → UInt32) : Option Stored :=
  vsnprintfLoop strings size fmt.length fmt para ⟨[], 0⟩

end Witos.Stdio
