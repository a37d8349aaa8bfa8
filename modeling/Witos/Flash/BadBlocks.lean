import Witos.Flash.BadBlockTable
import Witos.Flash.SpareAccess

/-!
# Bad blocks of a NAND chip

The scan of `driver/flash/nand/nand_bbt.c` that builds `nand->bbt`, and
`nand_block_mark_bad` of `driver/flash/nand/nand_core.c`.  A block is bad when
a byte of the mark is not 0xff in the spare bytes of its first page, or of its
first two.  No descriptor of a table on the chip is set, so that the table is
kept in memory.
-/

namespace Witos.Flash

open Library Library.BitFields

/-- The fields of `struct nand_bad_blk` that a scan reads. -/
structure NandBadBlk where
  scan2ndPage : Bool
  offs : Nat
  len : Nat
  pattern : Nat → UInt8

/-- `g_bbLargePageMemBased` or `g_bbSmallPageMemBased`. -/
def NandDevice.badBlkPatt (device : NandDevice) : NandBadBlk :=
  if 512 < device.layout.writeSize then ⟨false, 0, 2, fun _ => 0xff⟩
  else ⟨true, 5, 1, fun _ => 0xff⟩

/-- `len` of `create_bbt`. -/
def NandBadBlk.scanPages (bd : NandBadBlk) : Nat :=
  if bd.scan2ndPage then 2 else 1

/-- `check_short_pattern`: whether a byte is another one. -/
def checkShortPattern (buf : Nat → UInt8) (td : NandBadBlk) : Bool :=
  (List.range td.len).any fun i => buf (td.offs + i) != td.pattern i

/-- What a function of the scan returns, without a value for an error, and the
two buffers. -/
structure BlockScan where
  ret : Option Bool
  oobBuf : Nat → UInt8
  memory : Nat → UInt8

/-- What the loop of `create_bbt` changes. -/
structure BbtCreation where
  i : Nat
  start : Nat
  bbt : Nat → UInt8
  oobBuf : Nat → UInt8
  memory : Nat → UInt8
  failed : Bool

section Scan

variable (device : NandDevice) (freeRegion : List OobFreeRegion)
  (freeOobSum : Nat) (canAutoIncr : Bool) (bd : NandBadBlk)

/-- `scan_block_fast`. -/
def scanBlockFast : Nat → Nat → (Nat → UInt8) → (Nat → UInt8) → BlockScan
  | 0, _, oobBuf, memory => ⟨some false, oobBuf, memory⟩
  | len + 1, offs, oobBuf, memory =>
      let read := nandDoReadOob device freeRegion freeOobSum canAutoIncr offs
        ⟨.place, device.layout.oobSize, 0⟩ oobBuf memory
      if read.returned ≠ .zero then ⟨none, read.oobBuf, read.memory⟩
      else if checkShortPattern read.memory bd then
        ⟨some true, read.oobBuf, read.memory⟩
      else
        scanBlockFast len (add32 offs device.layout.writeSize) read.oobBuf
          read.memory

/-- One round of the loop of `create_bbt`. -/
def createBbtStep (state : BbtCreation) : BbtCreation :=
  let scan := scanBlockFast device freeRegion freeOobSum canAutoIncr bd
    bd.scanPages state.start state.oobBuf state.memory
  match scan.ret with
  | none =>
      { state with
        oobBuf := scan.oobBuf
        memory := scan.memory
        failed := true }
  | some bad =>
      { state with
        i := state.i + 2
        start := add32 state.start device.eraseSize
        bbt :=
          if bad then orByte state.bbt (state.i >>> 3) (state.i &&& 0x06) 0x03
          else state.bbt
        oobBuf := scan.oobBuf
        memory := scan.memory }

/-- `create_bbt` for all chips, without `NAND_BBT_SCANALLPAGES`.  Each round
goes one block on, and `numblocks` is twice their number. -/
def createBbt (bbt oobBuf memory : Nat → UInt8) : BbtCreation :=
  let numblocks := device.chipSize >>> (device.eraseShift - 1)
  Loop.rounds (fun state => decide (state.i < numblocks) && !state.failed)
    (createBbtStep device freeRegion freeOobSum canAutoIncr bd) numblocks
    ⟨0, 0, bbt, oobBuf, memory, false⟩

end Scan

/-- The number of blocks of a chip. -/
def NandDevice.blocks (device : NandDevice) : Nat :=
  device.chipSize / device.eraseSize

/-- A byte of the mark is another one in a page that is scanned. -/
def HasMark (device : NandDevice) (bd : NandBadBlk) (spare : Nat → UInt8)
    (block : Nat) : Prop :=
  ∃ page < bd.scanPages, ∃ i < bd.len,
    spare ((block * device.pagesPerBlock + page) * device.layout.oobSize +
      (bd.offs + i)) ≠ bd.pattern i

theorem checkShortPattern_iff (buf : Nat → UInt8) (td : NandBadBlk) :
    checkShortPattern buf td = true ↔
      ∃ i < td.len, buf (td.offs + i) ≠ td.pattern i := by
  simp [checkShortPattern]

theorem NandDevice.pages_eq (device : NandDevice) :
    device.blocks * device.pagesPerBlock = device.pages := by
  have pages := device.eightPages
  have whole := device.wholeBlocks
  have order : device.writeShift ≤ device.eraseShift := by omega
  have rest : device.writeShift + device.pageShift - device.eraseShift +
      (device.eraseShift - device.writeShift) = device.pageShift := by omega
  rw [NandDevice.blocks, NandFlash.chipSize, NandDevice.pagesPerBlock,
    NandDevice.eraseSize, NandFlash.pages, Nat.shiftRight_eq_div_pow,
    Nat.pow_div order Nat.zero_lt_two, Nat.pow_div whole Nat.zero_lt_two,
    ← Nat.pow_add, rest]

theorem NandDevice.blocks_mul (device : NandDevice) :
    device.blocks * device.eraseSize = device.chipSize := by
  apply Nat.div_mul_cancel
  exact pow_dvd_pow 2 device.wholeBlocks

theorem NandFlash.pages_mul (flash : NandFlash) :
    flash.pages * flash.layout.writeSize = flash.chipSize := by
  rw [NandFlash.pages, flash.writeSize_eq, NandFlash.chipSize, Nat.pow_add,
    Nat.mul_comm]

theorem NandFlash.page_of_mul (flash : NandFlash) (page : Nat) {rest : Nat}
    (small : rest < flash.layout.writeSize) :
    (page * flash.layout.writeSize + rest) >>> flash.writeShift = page := by
  rw [Nat.shiftRight_eq_div_pow, ← flash.writeSize_eq, Nat.mul_comm,
    Nat.mul_add_div (Nat.zero_lt_of_lt small), Nat.div_eq_of_lt small,
    Nat.add_zero]

section Found

variable {device : NandDevice} (freeRegion : List OobFreeRegion)
  (freeOobSum : Nat) (canAutoIncr : Bool) {bd : NandBadBlk}

/-- The spare bytes of a page, read and compared with the pattern. -/
theorem readSpare_pattern (room : bd.offs + bd.len ≤ device.layout.oobSize)
    (some_ : 0 < bd.len) {page : Nat} (inside : page < device.pages)
    (oobBuf memory : Nat → UInt8) :
    ∃ read, nandDoReadOob device freeRegion freeOobSum canAutoIncr
        (page * device.layout.writeSize) ⟨.place, device.layout.oobSize, 0⟩
        oobBuf memory = read ∧ read.returned = .zero ∧
      (checkShortPattern read.memory bd = true ↔
        ∃ i < bd.len, device.spare (page * device.layout.oobSize +
          (bd.offs + i)) ≠ bd.pattern i) := by
  have size := device.writeSize_pos
  have inChip : page * device.layout.writeSize < device.chipSize := by
    rw [← device.pages_mul]
    exact Nat.mul_lt_mul_of_pos_right inside size
  have small := NandFlash.oobSize_small device
  have isPage : (page * device.layout.writeSize) >>> device.writeShift =
      page := device.page_of_mul page size
  have onePage : device.layout.oobSize ≤
      (device.pages - page) * device.layout.oobSize := by
    apply Nat.le_mul_of_pos_left
    omega
  have readable : ReadableSpare device (page * device.layout.writeSize)
      ⟨.place, device.layout.oobSize, 0⟩ := by
    refine ⟨nofun, ?_, ?_, inChip, ?_⟩ <;> dsimp only
    · omega
    · omega
    · rw [isPage]
      omega
  obtain ⟨read, isRead, returned, stored, -⟩ := nandDoReadOob_spare device
    freeRegion freeOobSum canAutoIncr readable (Or.inl rfl)
    (by dsimp only; omega) oobBuf memory
  rw [isPage] at stored
  have bytes : ∀ i < bd.len, read.memory (bd.offs + i) =
      device.spare (page * device.layout.oobSize + (bd.offs + i)) := by
    intro i within
    rw [stored, patch, if_pos (by dsimp only; omega)]
    rfl
  refine ⟨read, isRead, returned, ?_⟩
  rw [checkShortPattern_iff]
  constructor
  · rintro ⟨i, within, other⟩
    rw [bytes i within] at other
    exact ⟨i, within, other⟩
  · rintro ⟨i, within, other⟩
    rw [← bytes i within] at other
    exact ⟨i, within, other⟩

/-- `scan_block_fast` finds a mark in one of the pages. -/
theorem scanBlockFast_ret (room : bd.offs + bd.len ≤ device.layout.oobSize)
    (some_ : 0 < bd.len) {len first : Nat}
    (inside : first + len ≤ device.pages) (oobBuf memory : Nat → UInt8) :
    ∃ found, (scanBlockFast device freeRegion freeOobSum canAutoIncr bd len
        (first * device.layout.writeSize) oobBuf memory).ret = some found ∧
      (found = true ↔ ∃ page < len, ∃ i < bd.len,
        device.spare ((first + page) * device.layout.oobSize +
          (bd.offs + i)) ≠ bd.pattern i) := by
  induction len generalizing first oobBuf memory with
  | zero => exact ⟨false, rfl, by simp⟩
  | succ len induction =>
      have inChip : first < device.pages := by omega
      obtain ⟨read, isRead, returned, inFirst⟩ :=
        readSpare_pattern freeRegion freeOobSum canAutoIncr room some_ inChip
          oobBuf memory
      unfold scanBlockFast
      dsimp only
      rw [isRead, returned, if_neg (not_not_intro rfl)]
      by_cases marked : checkShortPattern read.memory bd = true
      · rw [if_pos marked]
        refine ⟨true, rfl, iff_of_true rfl ?_⟩
        exact ⟨0, Nat.succ_pos len, inFirst.mp marked⟩
      · have next : add32 (first * device.layout.writeSize)
            device.layout.writeSize =
            (first + 1) * device.layout.writeSize := by
          have bounded : (first + 1) * device.layout.writeSize ≤
              device.chipSize := by
            rw [← device.pages_mul]
            exact Nat.mul_le_mul_right _ (by omega)
          have size := device.writeSize_pos
          have most := device.chipSize_le
          rw [Nat.succ_mul] at bounded ⊢
          exact add32_of_lt (by omega)
        have fewer : first + 1 + len ≤ device.pages := by omega
        obtain ⟨found, isFound, finds⟩ := induction fewer read.oobBuf
          read.memory
        rw [if_neg marked, next]
        refine ⟨found, isFound, finds.trans ?_⟩
        constructor
        · rintro ⟨page, within, other⟩
          refine ⟨page + 1, Nat.succ_lt_succ within, ?_⟩
          rw [← Nat.add_assoc, Nat.add_right_comm]
          exact other
        · rintro ⟨page, within, other⟩
          cases page with
          | zero => exact absurd (inFirst.mpr other) marked
          | succ page =>
              refine ⟨page, Nat.lt_of_succ_lt_succ within, ?_⟩
              rw [Nat.add_right_comm, Nat.add_assoc]
              exact other

/-- The table of a scan that has done so many blocks. -/
structure ScannedBlocks (device : NandDevice) (bd : NandBadBlk)
    (before : Nat → UInt8) (count : Nat) (state : BbtCreation) : Prop where
  i : state.i = 2 * count
  start : state.start = count * device.eraseSize
  failed : state.failed = false
  inside : count ≤ device.blocks
  done : ∀ block < count,
    (HasMark device bd device.spare block →
      bbtEntry state.bbt block = bbtEntry before block ||| 3) ∧
    (¬HasMark device bd device.spare block →
      bbtEntry state.bbt block = bbtEntry before block)
  left : ∀ block, count ≤ block →
    bbtEntry state.bbt block = bbtEntry before block

theorem NandDevice.scanPages_le (device : NandDevice) (bd : NandBadBlk) :
    bd.scanPages ≤ device.pagesPerBlock := by
  have pages := device.eight_le_pagesPerBlock
  unfold NandBadBlk.scanPages
  split <;> omega

theorem ScannedBlocks.next (room : bd.offs + bd.len ≤ device.layout.oobSize)
    (some_ : 0 < bd.len) {before : Nat → UInt8} {count : Nat}
    {state : BbtCreation}
    (scanned : ScannedBlocks device bd before count state)
    (more : count < device.blocks) :
    ScannedBlocks device bd before (count + 1)
      (createBbtStep device freeRegion freeOobSum canAutoIncr bd state) := by
  have fewer := device.scanPages_le bd
  have next : (count + 1) * device.pagesPerBlock ≤ device.pages := by
    rw [← device.pages_eq]
    exact Nat.mul_le_mul_right _ more
  rw [Nat.succ_mul] at next
  have inside : count * device.pagesPerBlock + bd.scanPages ≤ device.pages := by
    omega
  obtain ⟨found, isFound, finds⟩ := scanBlockFast_ret freeRegion freeOobSum
    canAutoIncr room some_ inside state.oobBuf state.memory
  have first : count * device.pagesPerBlock * device.layout.writeSize =
      state.start := by
    rw [scanned.start, Nat.mul_assoc, device.pagesPerBlock_mul]
  rw [first] at isFound
  have start : add32 state.start device.eraseSize =
      (count + 1) * device.eraseSize := by
    have bounded : (count + 1) * device.eraseSize ≤ device.chipSize := by
      rw [← device.blocks_mul]
      exact Nat.mul_le_mul_right _ more
    have most := device.chipSize_le
    rw [scanned.start, Nat.succ_mul] at *
    exact add32_of_lt (by omega)
  have even : state.i % 2 = 0 := by
    rw [scanned.i]
    omega
  have half : 4 * 0 + state.i / 2 = count := by
    rw [scanned.i]
    omega
  have entry : ∀ block, bbtEntry (if found then
        orByte state.bbt (state.i >>> 3) (state.i &&& 0x06) 0x03
      else state.bbt) block =
      if block = count ∧ found = true then bbtEntry state.bbt block ||| 3
      else bbtEntry state.bbt block := by
    intro block
    cases found with
    | false => simp
    | true =>
        have stored : bbtEntry (orByte state.bbt (0 + state.i >>> 3)
              (state.i &&& 0x06) 0x03) block =
            if block = 4 * 0 + state.i / 2 then bbtEntry state.bbt block ||| 3
            else bbtEntry state.bbt block :=
          bbtEntry_orByte state.bbt even (by decide)
        rw [Nat.zero_add, half] at stored
        simpa using stored
  unfold createBbtStep
  dsimp only
  rw [isFound]
  refine ⟨?_, start, scanned.failed, more, ?_, ?_⟩
  · dsimp only
    rw [scanned.i]
    omega
  · intro block within
    dsimp only
    rw [entry]
    by_cases same : block = count
    · have untouched := scanned.left count (Nat.le_refl count)
      rw [same, untouched]
      constructor
      · intro marked
        rw [if_pos ⟨rfl, finds.mpr marked⟩]
      · intro unmarked
        rw [if_neg fun both => unmarked (finds.mp both.2)]
    · rw [if_neg fun both => same both.1]
      exact scanned.done block (by omega)
  · intro block behind
    dsimp only
    rw [entry, if_neg (by omega)]
    exact scanned.left block (by omega)

end Found

end Witos.Flash
