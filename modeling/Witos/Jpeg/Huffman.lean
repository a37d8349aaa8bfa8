import Mathlib.Logic.Function.Basic
import Witos.Library.CanonicalCode

/-!
# Huffman tables and blocks

`init_tag` (its case `M_DHT`), `read_u8`, `decode_element`, `HufBlock` and the
dequantisation loop of `IQtIZzBlock` in `lib/display/jpeg/djpeg.c`.  The static
tables are kept by their first index.  What the code reads behind a table or the
stream is what the memory holds there.
-/

namespace Witos.Jpeg

open Library

/-- A 16-bit word as a `short`. -/
def toShort (value : Nat) : Int :=
  if value < 2 ^ 15 then value else value - 2 ^ 16

/-- `code_len_table[n]`, `huf_min_value[n]`, `huf_max_value[n]`,
`code_pos_table[n]` and `code_value_table[n]`. -/
structure HufTable where
  codeLen : Nat → Nat
  hufMinValue : Nat → Nat
  hufMaxValue : Nat → Nat
  codePos : Nat → Nat
  codeValue : Nat → Nat

/-- An array of 16 entries. -/
def row16 (entry : Nat → Nat) (i : Nat) : Nat :=
  if i < 16 then entry i else 0

def readCodeLen (memory : Nat → UInt8) (lptemp : Nat) : Nat → Nat :=
  row16 fun i => (memory (lptemp + i)).toNat

/-- The loop over `k`, which copies the values of one length. -/
def copyValues (memory : Nat → UInt8) (lptemp j count : Nat)
    (values : Nat → Nat) (n : Nat) : Nat :=
  if j ≤ n ∧ n < j + count then (memory (lptemp + (n - j))).toNat else values n

/-- `j` and the values after some rounds of the loop over the lengths; `lptemp`
has moved by `j`. -/
def loadValues (memory : Nat → UInt8) (codeLen : Nat → Nat) (lptemp : Nat)
    (values : Nat → Nat) : Nat → Nat × (Nat → Nat)
  | 0 => (0, values)
  | i + 1 =>
      let (j, values) := loadValues memory codeLen lptemp values i
      (j + codeLen i, copyValues memory (lptemp + j) j (codeLen i) values)

/-- The shortest length that is used; without one the loop of the source leaves
the table. -/
def firstLength (codeLen : Nat → Nat) : Nat :=
  ((List.range 16).find? fun i => codeLen i ≠ 0).getD 16

/-- `huf_min_value` and `huf_max_value` in 16 bits. -/
def hufBounds (codeLen : Nat → Nat) (first : Nat) : Nat → Nat × Nat
  | 0 => (0, if first = 0 then (codeLen 0 + 65535) % 2 ^ 16 else 0)
  | j + 1 =>
      if j + 1 < first then (0, 0)
      else if j + 1 = first then (0, (codeLen (j + 1) + 65535) % 2 ^ 16)
      else
        let least := ((hufBounds codeLen first j).2 + 1) * 2 % 2 ^ 16
        (least, (least + codeLen (j + 1) + 65535) % 2 ^ 16)

/-- The body that both branches of the case `M_DHT` have, with `lptemp` at the
16 lengths. -/
def loadTable (memory : Nat → UInt8) (lptemp : Nat) (table : HufTable) :
    HufTable :=
  let codeLen := readCodeLen memory lptemp
  let bounds := hufBounds codeLen (firstLength codeLen)
  { codeLen
    hufMinValue := row16 fun j => (bounds j).1
    hufMaxValue := row16 fun j => (bounds j).2
    codePos := row16 (codesBefore codeLen)
    codeValue :=
      (loadValues memory codeLen (lptemp + 16) table.codeValue 16).2 }

/-- `huftab1 * 2 + huftab2`. -/
def hufTabIndex (byte : UInt8) : Nat :=
  byte.toNat / 16 * 2 + byte.toNat % 16

/-- The table whose class and destination are at `lp`. -/
def loadTableAt (memory : Nat → UInt8) (lp : Nat) (tables : Nat → HufTable) :
    Nat → HufTable :=
  let index := hufTabIndex (memory lp)
  Function.update tables index (loadTable memory (lp + 1) (tables index))

/-- The bytes of the table at `lp`. -/
def ccount (memory : Nat → UInt8) (lp : Nat) : Nat :=
  codesBefore (readCodeLen memory (lp + 1)) 16 + 17

/-- The loop of the second branch, with the number of rounds left. -/
def loadTables (memory : Nat → UInt8) :
    Nat → Nat → (Nat → HufTable) → Option (Nat × (Nat → HufTable))
  | 0, _, _ => none
  | fuel + 1, lp, tables =>
      if memory lp = 0xff then some (lp, tables)
      else
        loadTables memory fuel (lp + ccount memory lp)
          (loadTableAt memory lp tables)

/-- `llength`, which is a `short`. -/
def segmentLength (memory : Nat → UInt8) (lp : Nat) : Int :=
  toShort ((memory lp).toNat * 256 + (memory (lp + 1)).toNat)

/-- The case `M_DHT` of `init_tag`, with `lp` behind the marker. -/
def initTagDht (memory : Nat → UInt8) (fuel lp : Nat)
    (tables : Nat → HufTable) : Option (Nat × (Nat → HufTable)) :=
  if segmentLength memory lp < 0xd0 then
    some ((lp + segmentLength memory lp).toNat,
      loadTableAt memory (lp + 2) tables)
  else loadTables memory fuel (lp + 2) tables

/-- `lp`, `bit_pos` and `cur_byte`. -/
structure BitReader where
  lp : Nat
  bitPos : Nat
  curByte : Nat
  deriving DecidableEq

/-- The byte behind `0xff` is passed over. -/
def readU8 (memory : Nat → UInt8) (reader : BitReader) : Nat × BitReader :=
  let byte := memory reader.lp
  (byte.toNat, ⟨if byte = 0xff then reader.lp + 2 else reader.lp + 1, 8,
    byte.toNat⟩)

/-- `bit_pos -= count`, and `cur_byte & And[bit_pos]`. -/
def BitReader.drop (reader : BitReader) (count : Nat) : BitReader :=
  { reader with
    bitPos := reader.bitPos - count
    curByte := reader.curByte % 2 ^ (reader.bitPos - count) }

/-- The bit that `decode_element` reads first and in its loop. -/
def takeBit (memory : Nat → UInt8) (reader : BitReader) : Nat × BitReader :=
  if 1 ≤ reader.bitPos then
    (reader.curByte % 256 / 2 ^ (reader.bitPos - 1), reader.drop 1)
  else
    let (lastU8, reader) := readU8 memory reader
    (lastU8 / 2 ^ 7, reader.drop 1)

/-- The loop that looks for a code: `thiscode`, `codelen` and the reader behind
the code.  `left` more bits are read until `codelen` is 16. -/
def searchCode (memory : Nat → UInt8) (table : HufTable) :
    Nat → Nat → Nat → BitReader → Option (Nat × Nat × BitReader)
  | left, codelen, thiscode, reader =>
      if thiscode < table.hufMinValue (codelen - 1) ∨
          table.codeLen (codelen - 1) = 0 ∨
          table.hufMaxValue (codelen - 1) < thiscode then
        match left with
        | 0 => none
        | left + 1 =>
            let (tempcode, reader) := takeBit memory reader
            searchCode memory table left (codelen + 1)
              (2 * thiscode + tempcode) reader
      else some (thiscode, codelen, reader)

/-- The loop over whole bytes: `tempsize`, `valueex` and the reader behind it.
Each round takes eight bits, so that a fuel of `tempsize` is enough. -/
def readWhole (memory : Nat → UInt8) :
    Nat → Nat → Nat → BitReader → Nat × Nat × BitReader
  | 0, tempsize, valueex, reader => (tempsize, valueex, reader)
  | fuel + 1, tempsize, valueex, reader =>
      if 8 < tempsize then
        let (lastU8, reader) := readU8 memory reader
        readWhole memory fuel (tempsize - 8)
          ((valueex * 2 ^ 8 + lastU8) % 2 ^ 16) reader
      else (tempsize, valueex, reader)

/-- `valueex`, the `runsize` bits behind a code. -/
def readExtra (memory : Nat → UInt8) (runsize : Nat) (reader : BitReader) :
    Nat × BitReader :=
  if runsize ≤ reader.bitPos then
    (reader.curByte % 256 / 2 ^ (reader.bitPos - runsize),
      reader.drop runsize)
  else
    let left := runsize - reader.bitPos
    let (tempsize, valueex, reader) :=
      readWhole memory left left reader.curByte reader
    let (lastU8, reader) := readU8 memory reader
    ((valueex * 2 ^ tempsize + lastU8 / 2 ^ (reader.bitPos - tempsize)) %
      2 ^ 16, reader.drop tempsize)

/-- `vvalue` of a number of `runsize` bits: a number with a leading zero stands
for a negative one. -/
def extendValue (runsize valueex : Nat) : Int :=
  if valueex / 2 ^ (runsize - 1) % 256 ≠ 0 then toShort valueex
  else -toShort (valueex ^^^ 0xffff ^^^ 0xffff * 2 ^ runsize % 2 ^ 16)

/-- `decode_element` with the table of `HufTabIndex`: `rrun` and `vvalue`, or
nothing where it returns an error. -/
def decodeElement (memory : Nat → UInt8) (table : HufTable)
    (reader : BitReader) : Option ((Nat × Int) × BitReader) :=
  let (thiscode, reader) := takeBit memory reader
  match searchCode memory table 15 1 thiscode reader with
  | none => none
  | some (thiscode, codelen, reader) =>
      let temp := (thiscode - table.hufMinValue (codelen - 1) +
        table.codePos (codelen - 1)) % 2 ^ 16
      let hufexu8 := table.codeValue temp % 256
      let rrun := hufexu8 / 16
      let runsize := hufexu8 % 16
      if runsize = 0 then some ((rrun, 0), reader)
      else
        let (valueex, reader) := readExtra memory runsize reader
        some ((rrun, extendValue runsize valueex), reader)

/-- What `HufBlock` returns, and what it has stored: the stores go to
`BlockBuffer[0]`, `BlockBuffer[1]` and so on, so that `count` is the number of
stores. -/
structure Block where
  ret : Int
  stores : List Int
  reader : BitReader
  deriving DecidableEq

/-- The loop over the AC coefficients.  Each round stores something, so that 64
rounds are enough. -/
def hufBlockAc (memory : Nat → UInt8) (table : HufTable) :
    Nat → List Int → BitReader → Block
  | 0, stores, reader => ⟨0, stores, reader⟩
  | fuel + 1, stores, reader =>
      if stores.length < 64 then
        match decodeElement memory table reader with
        | none => ⟨-1, stores, reader⟩
        | some ((rrun, vvalue), reader) =>
            if rrun = 0 ∧ vvalue = 0 then
              ⟨0, stores ++ List.replicate (64 - stores.length) 0, reader⟩
            else
              hufBlockAc memory table fuel
                (stores ++ (List.replicate rrun 0 ++ [vvalue])) reader
      else ⟨0, stores, reader⟩

def hufBlock (memory : Nat → UInt8) (tables : Nat → HufTable)
    (dchufindex achufindex : Nat) (reader : BitReader) : Block :=
  match decodeElement memory (tables dchufindex) reader with
  | none => ⟨-1, [], reader⟩
  | some ((_, vvalue), reader) =>
      hufBlockAc memory (tables achufindex) 64 [vvalue] reader

/-- `Zig_Zag`. -/
def zigZag : List (List Nat) :=
  [[0, 1, 5, 6, 14, 15, 27, 28],
   [2, 4, 7, 13, 16, 26, 29, 42],
   [3, 8, 12, 17, 25, 30, 41, 43],
   [9, 11, 18, 24, 37, 40, 44, 53],
   [10, 19, 23, 32, 39, 45, 52, 54],
   [20, 22, 33, 38, 46, 51, 55, 60],
   [21, 34, 37, 47, 50, 56, 59, 61],
   [35, 36, 48, 49, 57, 58, 62, 63]]

/-- `buffer2[i][j]` of `IQtIZzBlock` before the transform.  A product of two
`short` fits into an `int`. -/
def dequantised (s pQt : Nat → Int) (i j : Nat) : Int :=
  let tag := (zigZag.getD i []).getD j 0
  s tag * pQt tag

end Witos.Jpeg
