import Mathlib.Logic.Function.Basic
import Witos.Library.Bytes

/-!
# Software ECC of NAND pages

`nand_write_page_swecc` and `nand_read_page_swecc` of
`driver/flash/nand/nand_core.c` with `nand_correct_data` of
`driver/flash/nand/nand_ecc.c`.  The code of a step of 256 bytes is a
parameter.
-/

namespace Witos.Flash

open Library

/-- `SOFT_ECC_DATA_LEN`. -/
def softEccDataLen : Nat := 256

/-- `SOFT_ECC_CODE_NUM`. -/
def softEccCodeNum : Nat := 3

/-- Number of ECC steps in a page. -/
def eccSteps (writeSize : Nat) : Nat :=
  (writeSize + (softEccDataLen - 1)) / softEccDataLen

/-- The sizes of a page and the `ecc_pos` of `curr_oob_layout`: a page is a
number of whole steps, and every code byte has a spare byte of its own. -/
structure PageLayout where
  writeSize : Nat
  oobSize : Nat
  eccPos : Nat → Nat
  whole : writeSize % softEccDataLen = 0
  inside : ∀ i < softEccCodeNum * eccSteps writeSize, eccPos i < oobSize
  once : ∀ i < softEccCodeNum * eccSteps writeSize,
    ∀ j < softEccCodeNum * eccSteps writeSize,
      eccPos i = eccPos j → i = j

/-- The code of one step, `code[0]` to `code[2]`. -/
structure EccCode where
  code0 : UInt8
  code1 : UInt8
  code2 : UInt8
deriving DecidableEq

def EccCode.bytes (code : EccCode) : List UInt8 :=
  [code.code0, code.code1, code.code2]

/-- The three bytes behind a pointer. -/
def eccCodeAt (codes : Nat → UInt8) (i : Nat) : EccCode :=
  ⟨codes i, codes (i + 1), codes (i + 2)⟩

/-- A page on flash with its spare bytes, and the fields of
`struct nand_chip` that the two functions use: `oob_buf`, the buffers
`ecccalc` and `ecccode`, and the counters of `eccstat`. -/
structure NandChip where
  data : Nat → UInt8
  oob : Nat → UInt8
  oobBuf : Nat → UInt8
  eccCalc : Nat → UInt8
  eccCode : Nat → UInt8
  eccCorrectCount : UInt32
  eccFailedCount : UInt32

/-- `nand_calculate_ecc` for the bytes of one step. -/
abbrev Calculate := List UInt8 → EccCode

/-- `nand_correct_data` on the step at `p` of a buffer, with the saved and the
calculated code: its result and the buffer. -/
abbrev Correct :=
  (Nat → UInt8) → Nat → EccCode → EccCode → Int × (Nat → UInt8)

def nandReadPageRaw (layout : PageLayout) (chip : NandChip)
    (buff : Nat → UInt8) : NandChip × (Nat → UInt8) :=
  ({ chip with oobBuf := patch layout.oobSize chip.oob chip.oobBuf },
    patch layout.writeSize chip.data buff)

def nandWritePageRaw (layout : PageLayout) (chip : NandChip)
    (buff : Nat → UInt8) : NandChip :=
  { chip with
    data := patch layout.writeSize buff chip.data
    oob := patch layout.oobSize chip.oobBuf chip.oob }

/-- The loops around `nand_calculate_ecc`, with the number of steps left. -/
def calculateSteps (calculate : Calculate) (buff : Nat → UInt8) :
    Nat → Nat → Nat → (Nat → UInt8) → Nat → UInt8
  | 0, _, _, codes => codes
  | steps + 1, i, p, codes =>
      calculateSteps calculate buff steps (i + softEccCodeNum)
        (p + softEccDataLen)
        (overlayAt i (calculate (slice buff p softEccDataLen)).bytes codes)

/-- `while (--i >= 0)` of the write: the code bytes go to the spare bytes. -/
def scatterCodes (eccPos : Nat → Nat) (codes : Nat → UInt8) :
    Nat → (Nat → UInt8) → Nat → UInt8
  | 0, oobBuf => oobBuf
  | i + 1, oobBuf =>
      scatterCodes eccPos codes i
        (Function.update oobBuf (eccPos i) (codes i))

/-- `while (--i >= 0)` of the read: the code bytes come from the spare
bytes. -/
def gatherCodes (eccPos : Nat → Nat) (oobBuf : Nat → UInt8) :
    Nat → (Nat → UInt8) → Nat → UInt8
  | 0, codes => codes
  | i + 1, codes =>
      gatherCodes eccPos oobBuf i
        (Function.update codes i (oobBuf (eccPos i)))

/-- `addressbits`: every second bit of a byte. -/
def addressbits : List Nat :=
  [
   0, 0, 1, 1, 0, 0, 1, 1, 2, 2, 3, 3, 2, 2, 3, 3,
   0, 0, 1, 1, 0, 0, 1, 1, 2, 2, 3, 3, 2, 2, 3, 3,
   4, 4, 5, 5, 4, 4, 5, 5, 6, 6, 7, 7, 6, 6, 7, 7,
   4, 4, 5, 5, 4, 4, 5, 5, 6, 6, 7, 7, 6, 6, 7, 7,
   0, 0, 1, 1, 0, 0, 1, 1, 2, 2, 3, 3, 2, 2, 3, 3,
   0, 0, 1, 1, 0, 0, 1, 1, 2, 2, 3, 3, 2, 2, 3, 3,
   4, 4, 5, 5, 4, 4, 5, 5, 6, 6, 7, 7, 6, 6, 7, 7,
   4, 4, 5, 5, 4, 4, 5, 5, 6, 6, 7, 7, 6, 6, 7, 7,
   8, 8, 9, 9, 8, 8, 9, 9, 10, 10, 11, 11, 10, 10, 11, 11,
   8, 8, 9, 9, 8, 8, 9, 9, 10, 10, 11, 11, 10, 10, 11, 11,
   12, 12, 13, 13, 12, 12, 13, 13, 14, 14, 15, 15, 14, 14, 15, 15,
   12, 12, 13, 13, 12, 12, 13, 13, 14, 14, 15, 15, 14, 14, 15, 15,
   8, 8, 9, 9, 8, 8, 9, 9, 10, 10, 11, 11, 10, 10, 11, 11,
   8, 8, 9, 9, 8, 8, 9, 9, 10, 10, 11, 11, 10, 10, 11, 11,
   12, 12, 13, 13, 12, 12, 13, 13, 14, 14, 15, 15, 14, 14, 15, 15,
   12, 12, 13, 13, 12, 12, 13, 13, 14, 14, 15, 15, 14, 14, 15, 15]

/-- `bitsperbyte`: the number of bits that are set. -/
def bitsperbyte : List Nat :=
  [
   0, 1, 1, 2, 1, 2, 2, 3, 1, 2, 2, 3, 2, 3, 3, 4,
   1, 2, 2, 3, 2, 3, 3, 4, 2, 3, 3, 4, 3, 4, 4, 5,
   1, 2, 2, 3, 2, 3, 3, 4, 2, 3, 3, 4, 3, 4, 4, 5,
   2, 3, 3, 4, 3, 4, 4, 5, 3, 4, 4, 5, 4, 5, 5, 6,
   1, 2, 2, 3, 2, 3, 3, 4, 2, 3, 3, 4, 3, 4, 4, 5,
   2, 3, 3, 4, 3, 4, 4, 5, 3, 4, 4, 5, 4, 5, 5, 6,
   2, 3, 3, 4, 3, 4, 4, 5, 3, 4, 4, 5, 4, 5, 5, 6,
   3, 4, 4, 5, 4, 5, 5, 6, 4, 5, 5, 6, 5, 6, 6, 7,
   1, 2, 2, 3, 2, 3, 3, 4, 2, 3, 3, 4, 3, 4, 4, 5,
   2, 3, 3, 4, 3, 4, 4, 5, 3, 4, 4, 5, 4, 5, 5, 6,
   2, 3, 3, 4, 3, 4, 4, 5, 3, 4, 4, 5, 4, 5, 5, 6,
   3, 4, 4, 5, 4, 5, 5, 6, 4, 5, 5, 6, 5, 6, 6, 7,
   2, 3, 3, 4, 3, 4, 4, 5, 3, 4, 4, 5, 4, 5, 5, 6,
   3, 4, 4, 5, 4, 5, 5, 6, 4, 5, 5, 6, 5, 6, 6, 7,
   3, 4, 4, 5, 4, 5, 5, 6, 4, 5, 5, 6, 5, 6, 6, 7,
   4, 5, 5, 6, 5, 6, 6, 7, 5, 6, 6, 7, 6, 7, 7, 8]

/-- `__nand_correct_data`.  The bytes `b0` to `b2` are what the saved and the
calculated code differ in. -/
def nandCorrectStep (eccsize : Nat) : Correct :=
  fun buff p readEcc calcEcc =>
    let eccsizeMult := eccsize >>> 8
    let b0 := readEcc.code1 ^^^ calcEcc.code1
    let b1 := readEcc.code0 ^^^ calcEcc.code0
    let b2 := readEcc.code2 ^^^ calcEcc.code2
    if b0 ||| b1 ||| b2 = 0 then
      (0, buff)
    else if (b0 ^^^ (b0 >>> 1)) &&& 0x55 = 0x55 ∧
        (b1 ^^^ (b1 >>> 1)) &&& 0x55 = 0x55 ∧
        (eccsizeMult = 1 ∧ (b2 ^^^ (b2 >>> 1)) &&& 0x54 = 0x54 ∨
          eccsizeMult = 2 ∧ (b2 ^^^ (b2 >>> 1)) &&& 0x55 = 0x55) then
      let low :=
        addressbits.getD b1.toNat 0 * 16 + addressbits.getD b0.toNat 0
      let byteAddr :=
        if eccsizeMult = 1 then low
        else addressbits.getD (b2 &&& 0x3).toNat 0 * 256 + low
      let bitAddr := addressbits.getD (b2 >>> 2).toNat 0
      (1, Function.update buff (p + byteAddr)
        (buff (p + byteAddr) ^^^ (1 <<< UInt8.ofNat bitAddr)))
    else if bitsperbyte.getD b0.toNat 0 + bitsperbyte.getD b1.toNat 0 +
        bitsperbyte.getD b2.toNat 0 = 1 then
      (1, buff)
    else
      (-1, buff)

/-- The loop around `nand_correct_data`, with the number of steps left. -/
def correctSteps (correct : Correct) :
    Nat → Nat → Nat → NandChip × (Nat → UInt8) → NandChip × (Nat → UInt8)
  | 0, _, _, state => state
  | steps + 1, i, p, (chip, buff) =>
      let (stat, buff) := correct buff p (eccCodeAt chip.eccCode i)
        (eccCodeAt chip.eccCalc i)
      let chip :=
        if stat < 0 then
          { chip with eccFailedCount := chip.eccFailedCount + 1 }
        else
          { chip with
            eccCorrectCount :=
              chip.eccCorrectCount + UInt32.ofNat stat.toNat }
      correctSteps correct steps (i + softEccCodeNum) (p + softEccDataLen)
        (chip, buff)

/-- The body of `nand_read_page_swecc` with any `nand_correct_data`. -/
def readPageWith (correct : Correct) (calculate : Calculate)
    (layout : PageLayout) (chip : NandChip) (buff : Nat → UInt8) :
    NandChip × (Nat → UInt8) :=
  let (chip, buff) := nandReadPageRaw layout chip buff
  let steps := eccSteps layout.writeSize
  let chip := { chip with
    eccCalc := calculateSteps calculate buff steps 0 0 chip.eccCalc }
  let chip := { chip with
    eccCode := gatherCodes layout.eccPos chip.oobBuf (softEccCodeNum * steps)
      chip.eccCode }
  correctSteps correct steps 0 0 (chip, buff)

/-- `nand_correct_data`.  Its first statement is `return 0;`, so the call of
`__nand_correct_data` (`nandCorrectStep`) behind it is never reached. -/
def nandCorrectData : Correct :=
  fun buff _ _ _ => (0, buff)

def nandReadPageSwecc : Calculate → PageLayout → NandChip →
    (Nat → UInt8) → NandChip × (Nat → UInt8) :=
  readPageWith nandCorrectData

def nandWritePageSwecc (calculate : Calculate) (layout : PageLayout)
    (chip : NandChip) (buff : Nat → UInt8) : NandChip :=
  let steps := eccSteps layout.writeSize
  let chip := { chip with
    eccCalc := calculateSteps calculate buff steps 0 0 chip.eccCalc }
  let chip := { chip with
    oobBuf := scatterCodes layout.eccPos chip.eccCalc (softEccCodeNum * steps)
      chip.oobBuf }
  nandWritePageRaw layout chip buff

end Witos.Flash
