import Witos.Library.Bytes
import Witos.Library.Word

/-!
# Files on flash partitions

`lib/flash/flash_fops.c` and the `part_` functions of
`driver/flash/flash_core.c`.  A file collects what is written in a block buffer
and hands full blocks to the master device, which is a parameter: it answers
every access and changes a state of its own.  All accesses to it are logged.
-/

namespace Witos.Flash

open Library

/-- `OOB_MODE`. -/
inductive OobMode
  | place | auto | raw
deriving DecidableEq

/-- The fields of a slave `mtd_info` that do not change: the geometry of the
chip, and where the partition lies.  The shifts belong to the sizes up to a
factor: a page of data flash is no power of two. -/
structure Mtd where
  writeShift : Nat
  eraseShift : Nat
  writeSize : Nat
  eraseSize : Nat
  oobSize : Nat
  chipSize : Nat
  base : Nat
  size : Nat
  writeSize_pos : 0 < writeSize
  eraseSize_eq : eraseSize = writeSize * 2 ^ (eraseShift - writeShift)
  chipSize_lt : chipSize < 2 ^ 32

/-- The size of a page with its spare bytes. -/
def Mtd.rawSize (mtd : Mtd) : Nat :=
  mtd.writeSize + mtd.oobSize

/-- `(write_size + oob_size) << (erase_shift - write_shift)`. -/
def Mtd.rawBlock (mtd : Mtd) : Nat :=
  mtd.rawSize * 2 ^ (mtd.eraseShift - mtd.writeShift)

/-- What reaches the master device.  The data are what the pointer of the call
points to. -/
inductive Access
  | write (addr len : Nat) (data : Nat → UInt8)
  | writeOob (mode : OobMode) (addr len : Nat) (data : Nat → UInt8)
  | erase (addr len : Nat)

/-- How the master device answers: fine, with a negative number, or with fewer
bytes written than asked for. -/
inductive Response
  | fine | error | short
deriving DecidableEq

/-- A master device with a state. -/
abbrev Master (σ : Type) := Access → σ → Response × σ

/-- The device, what was sent to it, and whether the program hangs in `BUG`. -/
structure Chip (σ : Type) where
  device : σ
  log : List Access
  hung : Bool

/-- `struct file` with its `blk_buf`.  `inside` is whether all stores so far
were inside of the buffer. -/
structure File where
  fPos : Nat
  buff : Nat → UInt8
  used : Nat
  blkSize : Nat
  maxSize : Nat
  inside : Bool

section Operations

variable {σ : Type} (mtd : Mtd) (master : Master σ)

def Chip.access (access : Access) (chip : Chip σ) : Response × Chip σ :=
  let (response, device) := master access chip.device
  (response, { chip with device := device, log := chip.log ++ [access] })

/-- An access that must succeed: the answer is whether `ret >= 0`. -/
def Chip.send (access : Access) (chip : Chip σ) : Bool × Chip σ :=
  match chip.access master access with
  | (.fine, next) => (true, next)
  | (.error, next) => (false, next)
  | (.short, next) => (false, { next with hung := true })

/-- The loop of `__flash_write` for `MTD_OPS_AUTO_OOB`. -/
def writePages (data : Nat → UInt8) :
    Nat → Nat → Chip σ → Bool × Chip σ
  | 0, _, chip => (true, chip)
  | pages + 1, ppos, chip =>
      match chip.send master (.writeOob .auto (add32 mtd.base ppos)
          mtd.writeSize data) with
      | (false, next) => (false, next)
      | (true, next) =>
          writePages (fun index => data (index + mtd.rawSize)) pages
            (add32 ppos mtd.writeSize) next

/-- `__flash_write` through `part_write` and `part_write_oob`.  Where
`mtd->write` fails, the assertion does; how many bytes it wrote is not looked
at. -/
def mtdFlashWrite (mode : OobMode) (data : Nat → UInt8) (count ppos : Nat)
    (chip : Chip σ) : Bool × Chip σ :=
  match mode with
  | .raw =>
      chip.send master (.writeOob .raw (add32 mtd.base ppos) count data)
  | .auto =>
      if count % mtd.rawSize ≠ 0 then (false, chip)
      else writePages mtd master data (count / mtd.rawSize) ppos chip
  | .place =>
      if ppos = mtd.chipSize then (false, chip)
      else
        let count :=
          if mtd.chipSize < add32 ppos count then sub32 mtd.chipSize ppos
          else count
        if count = 0 then (true, chip)
        else
          match chip.access master
              (.write (add32 mtd.base ppos) count data) with
          | (.error, next) => (false, { next with hung := true })
          | (_, next) => (true, next)

/-- `memcpy` to `blk_off`. -/
def File.copy (bytes : List UInt8) (file : File) : File :=
  { file with
    buff := overlayAt file.used bytes file.buff
    inside := file.inside && decide (file.used + bytes.length ≤ file.maxSize) }

/-- `flash_pos` of `flash_write` for a position in the file. -/
def flashPos (mode : OobMode) (pos : Nat) : Nat :=
  match mode with
  | .place => pos
  | _ => pos / mtd.rawSize * 2 ^ mtd.writeShift % 2 ^ 32

/-- `flash_pos` of `flash_close`, which multiplies by the size of a page. -/
def closePos (mode : OobMode) (pos : Nat) : Nat :=
  match mode with
  | .place => pos
  | _ => pos / mtd.rawSize * mtd.writeSize % 2 ^ 32

/-- The loop of `flash_write`, with fuel for the bytes left. -/
def writeLoop (mode : OobMode) :
    Nat → List UInt8 → Nat → File → Chip σ → File × Chip σ
  | 0, _, _, file, chip => (file, chip)
  | fuel + 1, data, room, file, chip =>
      if data = [] then (file, chip)
      else if room ≤ data.length then
        let file := file.copy (data.take room)
        match mtdFlashWrite mtd master mode file.buff file.blkSize
            (flashPos mtd mode file.fPos) chip with
        | (false, next) => (file, next)
        | (true, next) =>
            writeLoop mode fuel (data.drop room) file.blkSize
              { file with fPos := add32 file.fPos file.blkSize, used := 0 }
              next
      else
        ({ file.copy data with used := file.used + data.length }, chip)

/-- `flash_write`.  A block that is not filled takes no more than one round. -/
def flashWrite (mode : OobMode) (data : List UInt8) (file : File)
    (chip : Chip σ) : File × Chip σ :=
  if data = [] then (file, chip)
  else if mtd.size < add32 data.length file.fPos then (file, chip)
  else
    writeLoop mtd master mode (data.length + 2) data
      (sub32 file.blkSize file.used) file chip

/-- `flash_close`, up to the release of the buffer. -/
def flashClose (mode : OobMode) (file : File) (chip : Chip σ) :
    File × Chip σ :=
  if file.used = 0 then (file, chip)
  else
    let file := file.copy (List.replicate file.used 0xff)
    let (_, next) := mtdFlashWrite mtd master mode file.buff file.blkSize
      (closePos mtd mode file.fPos) chip
    (file, next)

/-- The length that `__flash_erase` asks for. -/
def eraseLen (len : Nat) : Nat :=
  if len &&& (mtd.eraseSize - 1) = 0 then len
  else alignUp 64 mtd.eraseSize len

/-- `FLASH_IOC_ERASE` through `part_erase`. -/
def flashErase (addr len : Nat) (chip : Chip σ) : Chip σ :=
  (chip.access master
    (.erase ((addr + mtd.base) % 2 ^ 64) (eraseLen mtd len))).2

end Operations

end Witos.Flash
