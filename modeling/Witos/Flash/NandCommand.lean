import Witos.Flash.NandRead

/-!
# Commands to a NAND chip

`nand_write_by_opt`, `nand_write`, `nand_write_oob` and `nand_erase` of
`driver/flash/nand/nand_core.c` with all calls of `nfc->command`.  The bytes
that the driver reads for a status or a mark are a parameter: they may depend
on all the commands before.  `page_in_buff` is -1 from `nand_register` on, and
no callback is set.
-/

namespace Witos.Flash

open Library

/-- The commands of `nand.h` that are sent here. -/
inductive NandCmmd
  | read0 | readoob | seqin | pageprog | erase1 | erase2 | status
deriving DecidableEq

/-- A call of `nfc->command`.  A column or a row of -1 is `none`; a row is the
number of a page. -/
structure NandCommand where
  cmmd : NandCmmd
  col : Option Nat
  row : Option Nat
deriving DecidableEq

/-- What `read_byte` and `read_word` of the controller return after the
commands that were sent.  After a status command it is the last status. -/
structure NandAnswers where
  readByte : List NandCommand → UInt8
  readWord : List NandCommand → UInt16

/-- A chip as `probe_nand_chip` and `nand_register` set it up.  The sizes are
those of `g_nand_chip_desc` or come from the ID: at least eight pages in a
block, and at most one spare byte for 32 of data. -/
structure NandDevice extends NandFlash where
  eraseShift : Nat
  eightPages : writeShift + 3 ≤ eraseShift
  wholeBlocks : eraseShift ≤ writeShift + pageShift
  fewSpare : 32 * layout.oobSize ≤ layout.writeSize
  buswidth16 : Bool
  fourPageArray : Bool
  bbt : Option (Nat → UInt8)

/-- `mtd->erase_size`. -/
def NandDevice.eraseSize (device : NandDevice) : Nat :=
  2 ^ device.eraseShift

/-- `nand->bad_blk_oob_pos`: `NAND_BBP_LARGE` or `NAND_BBP_SMALL`. -/
def NandDevice.badBlkOobPos (device : NandDevice) : Nat :=
  if 512 < device.layout.writeSize then 0 else 5

/-- What a function returns: zero or a negative number. -/
inductive NandReturn
  | zero | einval | eio | ebadmsg | euclean
deriving DecidableEq

/-- What a function returns and the commands it sent.  As long as it runs, and
behind `BUG`, it does not return. -/
structure NandOutcome where
  returned : Option NandReturn
  commands : List NandCommand

/-- The bytes in the pages of a chip. -/
structure NandCells where
  content : Nat → UInt8
  spare : Nat → UInt8

/-- The chip with other bytes in its pages. -/
def NandFlash.holding (flash : NandFlash) (cells : NandCells) : NandFlash :=
  { flash with content := cells.content, spare := cells.spare }

/-- `struct oob_free_region`. -/
structure OobFreeRegion where
  nOfOffset : Nat
  nOfLen : Nat

/-- `struct mtd_oob_ops` of a write, with the bytes behind `oobbuf` if there
are any. -/
structure MtdOobWrite extends MtdOobOps where
  ooblen : Nat
  oobbuf : Option (Nat → UInt8)

section Requests

variable (answers : NandAnswers)

/-- `nand_check_wp`: whether the chip is write protected. -/
def nandCheckWp (commands : List NandCommand) : Bool × List NandCommand :=
  let commands := commands ++ [⟨.status, none, none⟩]
  (answers.readByte commands &&& 0x80 = 0, commands)

/-- `nand_wait`.  `nfc->state` is never `FL_ERASING`. -/
def nandWait (commands : List NandCommand) : UInt8 × List NandCommand :=
  let commands := commands ++ [⟨.status, none, none⟩]
  (answers.readByte commands, commands)

variable (device : NandDevice)

/-- `nand_blk_bad`. -/
def nandBlkBad (ofs : Nat) (commands : List NandCommand) :
    Bool × List NandCommand :=
  let page := (ofs >>> device.writeShift) &&& device.pageNumMask
  if device.buswidth16 then
    let commands := commands ++
      [⟨.readoob, some (device.badBlkOobPos &&& 0xfe), some page⟩]
    let bad := answers.readWord commands
    let bad := if device.badBlkOobPos &&& 1 ≠ 0 then bad >>> 8 else bad
    (bad &&& 0xff ≠ 0xff, commands)
  else
    let commands := commands ++
      [⟨.readoob, some device.badBlkOobPos, some page⟩]
    (answers.readByte commands ≠ 0xff, commands)

/-- `nand_is_bad_bbt`.  `bad_allow` is set for every NAND chip, so that a
reserved block is none. -/
def nandIsBadBbt (bbt : Nat → UInt8) (offs : Nat) : Bool :=
  let block := offs >>> (device.eraseShift - 1)
  let ret := (bbt (block >>> 3) >>> UInt8.ofNat (block &&& 0x06)) &&& 0x03
  ret = 1 ∨ ret = 3

/-- `nand_check_blk_bad`. -/
def nandCheckBlkBad (ofs : Nat) (commands : List NandCommand) :
    Bool × List NandCommand :=
  match device.bbt with
  | none => nandBlkBad answers device ofs commands
  | some bbt => (nandIsBadBbt device bbt ofs, commands)

/-- `nfc->erase_block`: `erase_one_block`, or `erase_block_ex` for
`NAND_4PAGE_ARRAY`. -/
def eraseBlock (page : Nat) (commands : List NandCommand) :
    List NandCommand :=
  let pages :=
    if device.fourPageArray then [page, page + 1, page + 2, page + 3]
    else [page]
  commands ++ pages.map (fun page => ⟨.erase1, none, some page⟩) ++
    [⟨.erase2, none, none⟩]

end Requests

/-- The loop of `nand_fill_oob` for `MTD_OPS_AUTO_OOB`, with the number of
bytes that were taken. -/
def fillRegions (source : Nat → UInt8) :
    List OobFreeRegion → Nat → Nat → Nat → (Nat → UInt8) →
      (Nat → UInt8) × Nat
  | [], _, _, taken, oobBuf => (oobBuf, taken)
  | free :: regions, len, woffs, taken, oobBuf =>
      if len = 0 then (oobBuf, taken)
      else if woffs ≠ 0 ∧ free.nOfLen ≤ woffs then
        fillRegions source regions len (woffs - free.nOfLen) taken oobBuf
      else
        let bytes := min len (free.nOfLen - woffs)
        fillRegions source regions (len - bytes) 0 (taken + bytes)
          (overlayAt (free.nOfOffset + woffs) (slice source taken bytes)
            oobBuf)

/-- `nand_fill_oob`: `nand->oob_buf`, and how far the pointer moves that is
returned. -/
def nandFillOob (freeRegion : List OobFreeRegion) (opt : MtdOobWrite)
    (source oobBuf : Nat → UInt8) : (Nat → UInt8) × Nat :=
  match opt.mode with
  | .auto => fillRegions source freeRegion opt.ooblen opt.ooboffs 0 oobBuf
  | _ => (overlayAt opt.ooboffs (slice source 0 opt.ooblen) oobBuf, opt.ooblen)

/-- A `write_page` of the controller. -/
abbrev PageWriter := NandChip → (Nat → UInt8) → NandChip

/-- What the loop of `nand_write_by_opt` changes.  The pointers are offsets
behind `datbuf` and `oobbuf`. -/
structure WriteLoop where
  cells : NandCells
  chip : NandChip
  commands : List NandCommand
  buff : Nat
  oobPos : Nat
  realPage : Nat
  writeLen : Nat
  failed : Bool

/-- What a write leaves behind. -/
structure WriteResult extends NandOutcome where
  retlen : Nat
  cells : NandCells
  chip : NandChip

section Write

variable (flash : NandFlash) (freeRegion : List OobFreeRegion)
  (writer : PageWriter) (answers : NandAnswers)

/-- `NAND_CMMD_PAGEPROG` of the bytes in the page register: the chip stores
them as they are. -/
def programPage (page : Nat) (chip : NandChip) (cells : NandCells) :
    NandCells :=
  { content := overlayAt (page * flash.layout.writeSize)
      (slice chip.data 0 flash.layout.writeSize) cells.content
    spare := overlayAt (page * flash.layout.oobSize)
      (slice chip.oob 0 flash.layout.oobSize) cells.spare }

/-- One round of the loop. -/
def nandWriteStep (opt : MtdOobWrite) (datbuf : Nat → UInt8)
    (state : WriteLoop) : WriteLoop :=
  let page := state.realPage &&& flash.pageNumMask
  let currBuff := fun i => datbuf (state.buff + i)
  let buff := state.buff + flash.layout.writeSize
  let writeLen := add32 state.writeLen flash.layout.writeSize
  let commands := state.commands ++ [⟨.seqin, some 0, some page⟩]
  let filled : WriteLoop :=
    match opt.mode with
    | .raw =>
        let (oobBuf, moved) := nandFillOob freeRegion opt
          (fun i => datbuf (buff + i)) state.chip.oobBuf
        { state with
          chip := nandWritePageRaw flash.layout
            { state.chip with oobBuf := oobBuf } currBuff
          buff := buff + moved
          writeLen := add32 writeLen flash.layout.oobSize }
    | _ =>
        let (oobBuf, moved) :=
          match opt.oobbuf with
          | none => (state.chip.oobBuf, 0)
          | some source => nandFillOob freeRegion opt
              (fun i => source (state.oobPos + i)) state.chip.oobBuf
        { state with
          chip := writer { state.chip with oobBuf := oobBuf } currBuff
          buff := buff
          oobPos := state.oobPos + moved
          writeLen := writeLen }
  let (status, commands) :=
    nandWait answers (commands ++ [⟨.pageprog, none, none⟩])
  { filled with
    cells := programPage flash page filled.chip state.cells
    commands := commands
    realPage := state.realPage + 1
    failed := status &&& 0x01 ≠ 0 }

/-- The loop of `nand_write_by_opt` after some rounds, behind the check of the
write protection.  Without an `oobbuf` no spare byte is programmed. -/
def nandWriteLoop (rounds : Nat) (cells : NandCells) (chip : NandChip)
    (start : Nat) (opt : MtdOobWrite) (datbuf : Nat → UInt8) : WriteLoop :=
  let chip :=
    if opt.oobbuf.isNone then
      { chip with
        oobBuf := patch flash.layout.oobSize (fun _ => 0xff) chip.oobBuf }
    else chip
  Loop.rounds
    (fun state => decide (state.writeLen < opt.len) && !state.failed)
    (nandWriteStep flash freeRegion writer answers opt datbuf) rounds
    ⟨cells, chip, (nandCheckWp answers []).2, 0, 0,
      start >>> flash.writeShift, 0, false⟩

/-- `nand_write_by_opt` after some rounds of its loop, with the bytes in the
chip before. -/
def nandWriteByOpt (rounds : Nat) (cells : NandCells) (chip : NandChip)
    (start : Nat) (opt : MtdOobWrite) (datbuf : Nat → UInt8) : WriteResult :=
  if opt.len = 0 then ⟨⟨some .zero, []⟩, 0, cells, chip⟩
  else if start &&& (flash.layout.writeSize - 1) ≠ 0 then
    ⟨⟨some .einval, []⟩, 0, cells, chip⟩
  else if (nandCheckWp answers []).1 then
    ⟨⟨none, (nandCheckWp answers []).2⟩, 0, cells, chip⟩
  else
    let final := nandWriteLoop flash freeRegion writer answers rounds cells
      chip start opt datbuf
    let ended := !final.failed && decide (opt.len ≤ final.writeLen)
    { returned :=
        if final.failed then some .eio
        else if ended then some .zero else none
      commands := final.commands
      retlen := if ended then final.writeLen else 0
      cells := final.cells
      chip := final.chip }

/-- `nand_write`, with the value that `*retlen` has before. -/
def nandWrite (rounds : Nat) (cells : NandCells) (chip : NandChip)
    (start len retlen : Nat) (buff : Nat → UInt8) : WriteResult :=
  if flash.chipSize < add32 start len then
    ⟨⟨some .einval, []⟩, retlen, cells, chip⟩
  else if len = 0 then ⟨⟨some .zero, []⟩, retlen, cells, chip⟩
  else
    nandWriteByOpt flash freeRegion writer answers rounds cells chip start
      ⟨⟨.place, len, 0⟩, 0, none⟩ buff

/-- `nand_write_oob` with a `datbuf`. -/
def nandWriteOob (rounds : Nat) (cells : NandCells) (chip : NandChip)
    (start : Nat) (opt : MtdOobWrite) (datbuf : Nat → UInt8) : WriteResult :=
  if flash.chipSize < add32 start opt.len then
    ⟨⟨some .einval, []⟩, 0, cells, chip⟩
  else
    nandWriteByOpt flash freeRegion writer answers rounds cells chip start opt
      datbuf

end Write

/-- A loop of reads with the commands it sent. -/
structure LoggedLoop where
  loop : PageLoop
  commands : List NandCommand

/-- The end of `nand_read_by_opt`, with the counters before and behind it. -/
def eccReturn (stats chip : NandChip) : NandReturn :=
  if chip.eccFailedCount - stats.eccFailedCount ≠ 0 then .ebadmsg
  else if chip.eccCorrectCount - stats.eccCorrectCount ≠ 0 then .euclean
  else .zero

section Read

variable (flash : NandFlash) (reader : PageReader flash.layout)

/-- One round of `nand_read_by_opt` with its command. -/
def loggedReadStep (opt : MtdOobOps) (state : LoggedLoop) : LoggedLoop :=
  { loop := readPageStep flash reader opt state.loop
    commands := state.commands ++
      [⟨.read0, some 0, some (state.loop.realPage &&& flash.pageNumMask)⟩] }

/-- `nand_read` with its commands, after some rounds of its loop. -/
def nandReadLogged (rounds : Nat) (chip : NandChip) (start len : Nat)
    (memory : Nat → UInt8) : NandOutcome :=
  if flash.chipSize < add32 start len then ⟨some .einval, []⟩
  else if len = 0 then ⟨some .zero, []⟩
  else
    let final := Loop.rounds (fun state => decide (state.loop.readlen < len))
      (loggedReadStep flash reader ⟨.place, len, 0⟩) rounds
      ⟨⟨chip, memory, 0, start >>> flash.writeShift, 0⟩, []⟩
    { returned :=
        if final.loop.readlen < len then none
        else some (eccReturn chip final.loop.chip)
      commands := final.commands }

/-- `nand_read_oob` with a `datbuf`. -/
def nandReadOob (rounds : Nat) (chip : NandChip) (start : Nat)
    (opt : MtdOobOps) (memory : Nat → UInt8) : Option ReadResult :=
  if flash.chipSize < add32 start opt.len then some ⟨.einval, 0, memory⟩
  else nandReadByOpt flash reader rounds chip start opt memory

def ReadStatus.toReturn : ReadStatus → NandReturn
  | .done => .zero
  | .einval => .einval
  | .ebadmsg => .ebadmsg
  | .euclean => .euclean

/-- With its commands a read returns what it returns without them. -/
theorem nandReadLogged_returned (rounds : Nat) (chip : NandChip)
    (start len retlen : Nat) (memory : Nat → UInt8) :
    (nandReadLogged flash reader rounds chip start len memory).returned =
      (nandRead flash reader (rounds + 1) chip start len retlen memory).map
        (fun result => result.status.toReturn) := by
  unfold nandReadLogged nandRead
  by_cases rejected : flash.chipSize < add32 start len
  · rw [if_pos rejected, if_pos rejected]
    rfl
  rw [if_neg rejected, if_neg rejected]
  by_cases empty : len = 0
  · rw [if_pos empty, if_pos empty]
    rfl
  rw [if_neg empty, if_neg empty]
  have loops : (Loop.rounds
        (fun state : LoggedLoop => decide (state.loop.readlen < len))
        (loggedReadStep flash reader ⟨.place, len, 0⟩) rounds
        ⟨⟨chip, memory, 0, start >>> flash.writeShift, 0⟩, []⟩).loop =
      Loop.rounds (fun state : PageLoop => decide (state.readlen < len))
        (readPageStep flash reader ⟨.place, len, 0⟩) rounds
        ⟨chip, memory, 0, start >>> flash.writeShift, 0⟩ :=
    Loop.rounds_of_part (fun state : PageLoop => decide (state.readlen < len))
      _ LoggedLoop.loop (fun _ => rfl) (fun _ => rfl) rounds _
  dsimp only
  rw [nandReadByOpt, Loop.runWhile_succ, loops]
  generalize Loop.rounds _ _ rounds _ = final
  by_cases goesOn : final.readlen < len
  · rw [if_pos goesOn, if_pos (decide_eq_true goesOn)]
    rfl
  · rw [if_neg goesOn, if_neg (by simpa using goesOn), eccReturn,
      Option.map_some, Option.map_some, apply_ite ReadStatus.toReturn,
      apply_ite ReadStatus.toReturn]
    rfl

end Read

/-- `opt->state` of an erase. -/
inductive EraseState
  | erasing | done | failed
deriving DecidableEq

/-- The fields of `struct erase_info` that are read: 64-bit numbers and two
flags. -/
structure EraseInfo where
  addr : Nat
  len : Nat
  allowBb : Bool
  jffs2 : Bool

/-- What the loop of `nand_erase` changes. -/
structure EraseLoop where
  eraseCount : Nat
  pageIndex : Nat
  state : EraseState
  failAddr : Nat
  commands : List NandCommand

/-- What an erase leaves behind. -/
structure EraseResult extends NandOutcome where
  state : Option EraseState
  failAddr : Option Nat

section Erase

variable (device : NandDevice) (answers : NandAnswers)

/-- The check of a block, which `EDF_ALLOWBB` passes over. -/
def checkUnlessAllowed (opt : EraseInfo) (ofs : Nat)
    (commands : List NandCommand) : Bool × List NandCommand :=
  if opt.allowBb then (false, commands)
  else nandCheckBlkBad answers device ofs commands

/-- One round of the loop. -/
def nandEraseStep (opt : EraseInfo) (state : EraseLoop) : EraseLoop :=
  let ofs := state.pageIndex <<< device.writeShift
  let bad := checkUnlessAllowed device answers opt ofs state.commands
  if bad.1 then { state with state := .failed, commands := bad.2 }
  else
    let status := nandWait answers
      (eraseBlock device (state.pageIndex &&& device.pageNumMask) bad.2)
    if status.1 &&& 0x01 ≠ 0 then
      { state with state := .failed, failAddr := ofs, commands := status.2 }
    else
      { state with
        eraseCount := sub32 state.eraseCount device.eraseSize
        pageIndex := state.pageIndex +
          (device.eraseSize >>> device.writeShift)
        commands :=
          if opt.jffs2 then
            -- the page number of the clean mark is not masked
            (nandWait answers (status.2 ++
              [⟨.seqin, some (device.layout.writeSize + 8),
                some state.pageIndex⟩] ++ [⟨.pageprog, none, none⟩])).2
          else status.2 }

/-- The loop of `nand_erase` after some rounds, behind the check of the write
protection. -/
def nandEraseLoop (rounds : Nat) (opt : EraseInfo) : EraseLoop :=
  Loop.rounds
    (fun state => decide (state.eraseCount ≠ 0) &&
      decide (state.state = .erasing))
    (nandEraseStep device answers opt) rounds
    ⟨opt.len % 2 ^ 32, opt.addr >>> device.writeShift, .erasing, 0xffffffff,
      (nandCheckWp answers []).2⟩

/-- `nand_erase` after some rounds of its loop.  `bad_allow` is set for every
NAND chip, so that the table of bad blocks is not written again. -/
def nandErase (rounds : Nat) (opt : EraseInfo) : EraseResult :=
  if opt.addr &&& (device.eraseSize - 1) ≠ 0 then
    ⟨⟨some .einval, []⟩, none, none⟩
  else if opt.len &&& (device.eraseSize - 1) ≠ 0 then
    ⟨⟨some .einval, []⟩, none, none⟩
  else if device.chipSize < (opt.len + opt.addr) % 2 ^ 64 then
    ⟨⟨some .einval, []⟩, none, none⟩
  else if (nandCheckWp answers []).1 then
    ⟨⟨some .eio, (nandCheckWp answers []).2⟩, some .failed, some 0xffffffff⟩
  else
    let final := nandEraseLoop device answers rounds opt
    let state :=
      if final.state = .erasing ∧ final.eraseCount = 0 then .done
      else final.state
    { returned :=
        match state with
        | .erasing => none
        | .done => some .zero
        | .failed => some .eio
      commands := final.commands
      state := some state
      failAddr := some final.failAddr }

end Erase

end Witos.Flash
