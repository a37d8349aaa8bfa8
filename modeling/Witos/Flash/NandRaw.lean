import Witos.Flash.NandRange

/-!
# Raw pages of a NAND chip

`nand_write_oob` and `nand_read_oob` with `FLASH_OOB_RAW`.  The caller's buffer
holds the spare bytes of a page behind its data.  The write takes them apart
and the read puts them together again.  Both compare the length of the buffer,
spare bytes included, with the size of the chip, which is that of the data.
-/

namespace Witos.Flash

open Library

/-- A page with its spare bytes. -/
def PageLayout.rawSize (layout : PageLayout) : Nat :=
  layout.writeSize + layout.oobSize

/-- The chip is not write protected, and no command fails. -/
structure Succeeds (answers : NandAnswers) : Prop where
  writable : ∀ commands, answers.readByte commands &&& 0x80 ≠ 0
  passed : ∀ commands, answers.readByte commands &&& 0x01 = 0

/-- What `nand_write_oob` stores, `nand_read_oob` of the same range stores into
the memory, and both report the whole length. -/
def RawRoundTrip (flash : NandFlash) (reader : PageReader flash.layout)
    (freeRegion : List OobFreeRegion) (writer : PageWriter)
    (answers : NandAnswers) (cells : NandCells) (chip : NandChip)
    (oobbuf : Option (Nat → UInt8)) (start len : Nat)
    (datbuf memory : Nat → UInt8) : Prop :=
  ∃ writeRounds written readRounds result,
    nandWriteOob flash freeRegion writer answers writeRounds cells chip
        start ⟨⟨.raw, len, 0⟩, flash.layout.oobSize, oobbuf⟩ datbuf =
      written ∧
    written.returned = some .zero ∧ written.retlen = len ∧
    nandReadOob (flash.holding written.cells) reader readRounds written.chip
      start ⟨.raw, len, 0⟩ memory = some result ∧
    result.status = .done ∧ result.retlen = len ∧
    slice result.memory 0 len = slice datbuf 0 len

/-- So many pages hold the first bytes of a stream: each of them its data and
then its spare bytes. -/
structure HoldsRaw (layout : PageLayout) (source : Nat → UInt8)
    (first pages : Nat) (cells : NandCells) : Prop where
  data : ∀ page < pages, ∀ i < layout.writeSize,
    cells.content ((first + page) * layout.writeSize + i) =
      source (page * layout.rawSize + i)
  spare : ∀ page < pages, ∀ i < layout.oobSize,
    cells.spare ((first + page) * layout.oobSize + i) =
      source (page * layout.rawSize + layout.writeSize + i)

theorem unit_before {unit first page pages i : Nat} (earlier : page < pages)
    (within : i < unit) :
    (first + page) * unit + i < (first + pages) * unit := by
  have next : (first + page + 1) * unit ≤ (first + pages) * unit := by
    apply Nat.mul_le_mul_right
    omega
  rw [Nat.succ_mul] at next
  omega

theorem holdsRaw_zero (layout : PageLayout) (source : Nat → UInt8)
    (first : Nat) (cells : NandCells) :
    HoldsRaw layout source first 0 cells := by
  constructor
  · intro page before
    exact absurd before (Nat.not_lt_zero page)
  · intro page before
    exact absurd before (Nat.not_lt_zero page)

theorem HoldsRaw.program {flash : NandFlash} {source : Nat → UInt8}
    {first pages : Nat} {cells : NandCells}
    (holds : HoldsRaw flash.layout source first pages cells) {chip : NandChip}
    (data : ∀ i < flash.layout.writeSize,
      chip.data i = source (pages * flash.layout.rawSize + i))
    (spare : ∀ i < flash.layout.oobSize,
      chip.oob i =
        source (pages * flash.layout.rawSize + flash.layout.writeSize + i)) :
    HoldsRaw flash.layout source first (pages + 1)
      (programPage flash (first + pages) chip cells) := by
  constructor
  · intro page before i within
    rcases Nat.lt_succ_iff_lt_or_eq.mp before with earlier | rfl
    · rw [← holds.data page earlier i within]
      exact overlayAt_of_lt _ _ (unit_before earlier within)
    · apply (overlayAt_slice _ 0 within chip.data cells.content).trans
      rw [Nat.zero_add]
      exact data i within
  · intro page before i within
    rcases Nat.lt_succ_iff_lt_or_eq.mp before with earlier | rfl
    · rw [← holds.spare page earlier i within]
      exact overlayAt_of_lt _ _ (unit_before earlier within)
    · apply (overlayAt_slice _ 0 within chip.oob cells.spare).trans
      rw [Nat.zero_add]
      exact spare i within

section Write

variable {flash : NandFlash} {start pages : Nat} {datbuf : Nat → UInt8}

theorem NandFlash.rawSize_pos (flash : NandFlash) : 0 < flash.layout.rawSize :=
  Nat.add_pos_left flash.writeSize_pos _

theorem NandFlash.writeSize_le_rawSize (flash : NandFlash) :
    flash.layout.writeSize ≤ flash.layout.rawSize :=
  Nat.le_add_right _ _

/-- After some rounds of the write. -/
structure RawWritten (flash : NandFlash) (start pages : Nat)
    (datbuf : Nat → UInt8) (done : Nat) (state : WriteLoop) : Prop where
  holds : HoldsRaw flash.layout datbuf (start / flash.layout.writeSize) done
    state.cells
  few : done ≤ pages
  pointer : state.buff = done * flash.layout.rawSize
  next : state.realPage = start / flash.layout.writeSize + done
  counted : state.writeLen = done * flash.layout.rawSize
  passed : state.failed = false

theorem NandFlash.raw_left (flash : NandFlash) {done : Nat}
    (goesOn : done * flash.layout.rawSize < pages * flash.layout.rawSize) :
    done + 1 ≤ pages ∧
      (done + 1) * flash.layout.rawSize ≤ pages * flash.layout.rawSize ∧
      done * flash.layout.writeSize < pages * flash.layout.rawSize := by
  have next : done + 1 ≤ pages := Nat.lt_of_mul_lt_mul_right goesOn
  refine ⟨next, Nat.mul_le_mul_right _ next, ?_⟩
  apply Nat.lt_of_le_of_lt _ goesOn
  exact Nat.mul_le_mul_left done flash.writeSize_le_rawSize

theorem NandFlash.add32_raw (flash : NandFlash) {done : Nat}
    (goesOn : done * flash.layout.rawSize < pages * flash.layout.rawSize)
    (inside : start + pages * flash.layout.rawSize ≤ flash.chipSize) :
    add32 (add32 (done * flash.layout.rawSize) flash.layout.writeSize)
        flash.layout.oobSize = (done + 1) * flash.layout.rawSize ∧
      add32 (done * flash.layout.rawSize) flash.layout.rawSize =
        (done + 1) * flash.layout.rawSize := by
  obtain ⟨-, bounded, -⟩ := flash.raw_left goesOn
  have small : flash.chipSize < 2 ^ 32 := flash.small
  have parts : flash.layout.rawSize =
    flash.layout.writeSize + flash.layout.oobSize := rfl
  rw [Nat.add_one_mul] at bounded ⊢
  constructor
  · have first : done * flash.layout.rawSize + flash.layout.writeSize <
        2 ^ 32 := by omega
    rw [add32_of_lt first, add32_of_lt (by omega)]
    omega
  · exact add32_of_lt (by omega)

theorem RawWritten.step (freeRegion : List OobFreeRegion)
    (writer : PageWriter) {answers : NandAnswers} (succeeds : Succeeds answers)
    (oobbuf : Option (Nat → UInt8))
    (inside : start + pages * flash.layout.rawSize ≤ flash.chipSize)
    {done : Nat}
    {state : WriteLoop} (written : RawWritten flash start pages datbuf done
      state) (goesOn : state.writeLen < pages * flash.layout.rawSize) :
    RawWritten flash start pages datbuf (done + 1)
      (nandWriteStep flash freeRegion writer answers
        ⟨⟨.raw, pages * flash.layout.rawSize, 0⟩, flash.layout.oobSize,
          oobbuf⟩ datbuf state) := by
  rw [written.counted] at goesOn
  obtain ⟨next, -, begins⟩ := flash.raw_left goesOn
  have masked : state.realPage &&& flash.pageNumMask =
      start / flash.layout.writeSize + done := by
    rw [written.next]
    exact flash.and_pageNumMask_add inside begins
  constructor
  · rw [nandWriteStep, masked]
    apply written.holds.program
    · intro i within
      simp only [nandWritePageRaw, patch, within, if_true, written.pointer]
    · intro i within
      have filled := overlayAt_slice 0 0 within
        (fun i => datbuf (state.buff + flash.layout.writeSize + i))
        state.chip.oobBuf
      rw [Nat.zero_add, written.pointer] at filled
      simp only [nandWritePageRaw, nandFillOob, patch, within, if_true,
        written.pointer]
      exact filled
  · exact next
  · simp only [nandWriteStep, nandFillOob, written.pointer, Nat.add_one_mul,
      Nat.add_assoc, PageLayout.rawSize]
  · rw [nandWriteStep, written.next, Nat.add_assoc]
  · simp only [nandWriteStep, written.counted]
    exact (flash.add32_raw goesOn inside).1
  · simp only [nandWriteStep, nandWait, succeeds.passed, ne_eq,
      not_true_eq_false, decide_false]

theorem NandFlash.raw_less (flash : NandFlash) {done : Nat}
    (goesOn : done * flash.layout.rawSize < pages * flash.layout.rawSize) :
    pages * flash.layout.rawSize - (done + 1) * flash.layout.rawSize <
      pages * flash.layout.rawSize - done * flash.layout.rawSize := by
  have positive := flash.rawSize_pos
  rw [Nat.add_one_mul]
  omega

theorem NandFlash.all_done (flash : NandFlash) {done : Nat}
    (few : done ≤ pages)
    (reached : ¬ done * flash.layout.rawSize < pages * flash.layout.rawSize) :
    done = pages := by
  apply Nat.le_antisymm few
  apply Nat.le_of_mul_le_mul_right _ flash.rawSize_pos
  exact Nat.le_of_not_lt reached

theorem exists_rawWritten (freeRegion : List OobFreeRegion)
    (writer : PageWriter) {answers : NandAnswers} (succeeds : Succeeds answers)
    (oobbuf : Option (Nat → UInt8)) (cells : NandCells) (chip : NandChip)
    (datbuf : Nat → UInt8)
    (inside : start + pages * flash.layout.rawSize ≤ flash.chipSize) :
    ∃ rounds, RawWritten flash start pages datbuf pages
      (nandWriteLoop flash freeRegion writer answers rounds cells chip start
        ⟨⟨.raw, pages * flash.layout.rawSize, 0⟩, flash.layout.oobSize,
          oobbuf⟩ datbuf) := by
  have begun (chip : NandChip) : RawWritten flash start pages datbuf 0
      ⟨cells, chip, (nandCheckWp answers []).2, 0, 0,
        start >>> flash.writeShift, 0, false⟩ := by
    constructor
    · exact holdsRaw_zero _ _ _ _
    · exact Nat.zero_le pages
    · rw [Nat.zero_mul]
    · rw [Nat.shiftRight_eq_div_pow, flash.writeSize_eq, Nat.add_zero]
    · rw [Nat.zero_mul]
    · rfl
  unfold nandWriteLoop
  dsimp only
  generalize (if oobbuf.isNone = true then _ else chip) = blank
  obtain ⟨rounds, ⟨done, final⟩, stops⟩ := Loop.exists_rounds
    (fun state =>
      decide (state.writeLen < pages * flash.layout.rawSize) && !state.failed)
    (nandWriteStep flash freeRegion writer answers
      ⟨⟨.raw, pages * flash.layout.rawSize, 0⟩, flash.layout.oobSize, oobbuf⟩
      datbuf)
    (fun state => ∃ done, RawWritten flash start pages datbuf done state)
    (fun state => pages * flash.layout.rawSize - state.writeLen)
    (fun state reached goesOn => by
      obtain ⟨done, written⟩ := reached
      have less : state.writeLen < pages * flash.layout.rawSize :=
        of_decide_eq_true (Bool.and_eq_true_iff.mp goesOn).1
      have after := written.step freeRegion writer succeeds oobbuf inside less
      refine ⟨⟨done + 1, after⟩, ?_⟩
      rw [written.counted] at less
      rw [after.counted, written.counted]
      exact flash.raw_less less)
    ⟨0, begun blank⟩
  refine ⟨rounds, ?_⟩
  rw [final.passed, final.counted, Bool.not_false, Bool.and_true] at stops
  have all := flash.all_done final.few (of_decide_eq_false stops)
  rw [all] at final
  exact final

theorem nandWriteOob_raw (freeRegion : List OobFreeRegion)
    (writer : PageWriter) {answers : NandAnswers} (succeeds : Succeeds answers)
    (cells : NandCells) (chip : NandChip) (oobbuf : Option (Nat → UInt8))
    (aligned : start % flash.layout.writeSize = 0)
    (inside : start + pages * flash.layout.rawSize ≤ flash.chipSize)
    (datbuf : Nat → UInt8) :
    ∃ rounds written,
      nandWriteOob flash freeRegion writer answers rounds cells chip start
        ⟨⟨.raw, pages * flash.layout.rawSize, 0⟩, flash.layout.oobSize,
          oobbuf⟩ datbuf = written ∧
      written.returned = some .zero ∧
      written.retlen = pages * flash.layout.rawSize ∧
      HoldsRaw flash.layout datbuf (start / flash.layout.writeSize) pages
        written.cells := by
  have passes := flash.passes_of_inside inside
  by_cases empty : pages * flash.layout.rawSize = 0
  · have none : pages = 0 :=
      (Nat.mul_eq_zero.mp empty).resolve_right (Nat.ne_of_gt flash.rawSize_pos)
    refine ⟨0, _, rfl, ?_⟩
    rw [nandWriteOob, if_neg passes, nandWriteByOpt, if_pos empty]
    refine ⟨rfl, empty.symm, ?_⟩
    rw [none]
    exact holdsRaw_zero _ _ _ _
  · obtain ⟨rounds, final⟩ := exists_rawWritten freeRegion writer succeeds
      oobbuf cells chip datbuf inside
    have whole : ¬ start &&& (flash.layout.writeSize - 1) ≠ 0 := by
      rw [flash.unaligned_iff]
      exact not_not_intro aligned
    have open' : ¬ (nandCheckWp answers []).1 = true := by
      simp only [nandCheckWp, decide_eq_true_eq]
      exact succeeds.writable _
    refine ⟨rounds, _, rfl, ?_⟩
    rw [nandWriteOob, if_neg passes, nandWriteByOpt, if_neg empty,
      if_neg whole, if_neg open']
    simp only [final.passed, final.counted, Bool.not_false, Nat.le_refl,
      decide_true, Bool.and_true, if_true, Bool.false_eq_true, if_false]
    exact ⟨trivial, trivial, final.holds⟩

end Write

section Read

variable {flash : NandFlash} {start pages : Nat}
  {source memory : Nat → UInt8} {before : NandChip}

/-- After some rounds of the read. -/
structure RawStored (flash : NandFlash) (start pages : Nat)
    (source memory : Nat → UInt8) (before : NandChip) (done : Nat)
    (state : PageLoop) : Prop where
  stored : state.memory = patch (done * flash.layout.rawSize) source memory
  few : done ≤ pages
  pointer : state.buff = done * flash.layout.rawSize
  next : state.realPage = start / flash.layout.writeSize + done
  counted : state.readlen = done * flash.layout.rawSize
  corrected : state.chip.eccCorrectCount = before.eccCorrectCount
  failed : state.chip.eccFailedCount = before.eccFailedCount

theorem RawStored.step (reader : PageReader flash.layout)
    (holds : HoldsRaw flash.layout source (start / flash.layout.writeSize) pages
      ⟨flash.content, flash.spare⟩)
    (inside : start + pages * flash.layout.rawSize ≤ flash.chipSize)
    {done : Nat}
    {state : PageLoop}
    (stored : RawStored flash start pages source memory before done state)
    (goesOn : state.readlen < pages * flash.layout.rawSize) :
    RawStored flash start pages source memory before (done + 1)
      (readPageStep flash reader ⟨.raw, pages * flash.layout.rawSize, 0⟩
        state) := by
  rw [stored.counted] at goesOn
  obtain ⟨next, -, begins⟩ := flash.raw_left goesOn
  have masked : state.realPage &&& flash.pageNumMask =
      start / flash.layout.writeSize + done := by
    rw [stored.next]
    exact flash.and_pageNumMask_add inside begins
  have data : patch flash.layout.writeSize
        (fun i => flash.content ((start / flash.layout.writeSize + done) *
          flash.layout.writeSize + i))
        (fun i => patch (done * flash.layout.rawSize) source memory
          (done * flash.layout.rawSize + i)) =
      patch flash.layout.writeSize
        (fun i => source (done * flash.layout.rawSize + i))
        (fun i => patch (done * flash.layout.rawSize) source memory
          (done * flash.layout.rawSize + i)) :=
    patch_congr (fun i within => holds.data done next i within) _
  have spare : slice (patch flash.layout.oobSize
        (fun i => flash.spare ((start / flash.layout.writeSize + done) *
          flash.layout.oobSize + i)) state.chip.oobBuf) 0
        flash.layout.oobSize =
      slice source (done * flash.layout.rawSize + flash.layout.writeSize)
        flash.layout.oobSize := by
    apply slice_congr
    intro i within
    rw [Nat.zero_add, patch, if_pos within]
    exact holds.spare done next i within
  have total : done * flash.layout.rawSize + flash.layout.writeSize +
      flash.layout.oobSize = (done + 1) * flash.layout.rawSize := by
    rw [Nat.add_one_mul, Nat.add_assoc, PageLayout.rawSize]
  rw [readPageStep, masked]
  constructor
  · simp only [nandReadPageRaw, commandRead0, stored.stored, stored.pointer]
    rw [data, spare, behindPointer_patch, overlayAt_patch, total]
  · exact next
  · simp only [stored.pointer, Nat.add_one_mul, Nat.add_assoc,
      PageLayout.rawSize]
  · simp only [stored.next, Nat.add_assoc]
  · simp only [stored.counted]
    exact (flash.add32_raw goesOn inside).2
  · exact stored.corrected
  · exact stored.failed

/-- The loop of the read comes to its end with the whole stream stored. -/
theorem nandReadByOpt_raw (flash : NandFlash)
    (reader : PageReader flash.layout)
    (holds : HoldsRaw flash.layout source (start / flash.layout.writeSize) pages
      ⟨flash.content, flash.spare⟩)
    (inside : start + pages * flash.layout.rawSize ≤ flash.chipSize)
    (chip : NandChip) (memory : Nat → UInt8) :
    ∃ rounds result, nandReadByOpt flash reader rounds chip start
        ⟨.raw, pages * flash.layout.rawSize, 0⟩ memory = some result ∧
      result.status = .done ∧ result.retlen = pages * flash.layout.rawSize ∧
      result.memory = patch (pages * flash.layout.rawSize) source memory := by
  have begun : RawStored flash start pages source memory chip 0
      ⟨chip, memory, 0, start >>> flash.writeShift, 0⟩ := by
    constructor
    · funext index
      simp only [patch, Nat.zero_mul, Nat.not_lt_zero, if_false]
    · exact Nat.zero_le pages
    · rw [Nat.zero_mul]
    · rw [Nat.shiftRight_eq_div_pow, flash.writeSize_eq, Nat.add_zero]
    · rw [Nat.zero_mul]
    · rfl
    · rfl
  obtain ⟨rounds, ⟨done, final⟩, stops⟩ := Loop.exists_rounds
    (fun state => decide (state.readlen < pages * flash.layout.rawSize))
    (readPageStep flash reader ⟨.raw, pages * flash.layout.rawSize, 0⟩)
    (fun state => ∃ done,
      RawStored flash start pages source memory chip done state)
    (fun state => pages * flash.layout.rawSize - state.readlen)
    (fun state reached goesOn => by
      obtain ⟨done, stored⟩ := reached
      have less : state.readlen < pages * flash.layout.rawSize :=
        of_decide_eq_true goesOn
      have after := stored.step reader holds inside less
      refine ⟨⟨done + 1, after⟩, ?_⟩
      rw [stored.counted] at less
      rw [after.counted, stored.counted]
      exact flash.raw_less less)
    ⟨0, begun⟩
  have reached := stops
  rw [final.counted] at reached
  have all := flash.all_done final.few (of_decide_eq_false reached)
  rw [all] at final
  refine ⟨rounds + 1, ?_⟩
  rw [nandReadByOpt, Loop.runWhile_succ, stops, if_neg Bool.false_ne_true]
  refine ⟨_, rfl, ?_, final.counted, final.stored⟩
  simp only [final.failed, final.corrected, UInt32.sub_self, ne_eq,
    not_true_eq_false, if_false]

end Read

/-- A power of two below `2 ^ 32`. -/
theorem NandFlash.chipSize_le (flash : NandFlash) :
    flash.chipSize ≤ 2 ^ 31 := by
  have bits : flash.writeShift + flash.pageShift ≤ 31 :=
    Nat.le_of_lt_succ ((Nat.pow_lt_pow_iff_right Nat.one_lt_two).mp flash.small)
  exact Nat.pow_le_pow_right Nat.zero_lt_two bits

/-- Of a range of whole pages in the chip, the raw bytes come back if and only
if the offset and the length with the spare bytes are in the size of the
chip. -/
theorem rawRoundTrip_iff (device : NandDevice)
    (reader : PageReader device.layout) (freeRegion : List OobFreeRegion)
    (writer : PageWriter) {answers : NandAnswers} (succeeds : Succeeds answers)
    (cells : NandCells) (chip : NandChip) (oobbuf : Option (Nat → UInt8))
    {start pages : Nat} (aligned : start % device.layout.writeSize = 0)
    (fits : start + pages * device.layout.writeSize ≤ device.chipSize)
    (datbuf memory : Nat → UInt8) :
    RawRoundTrip device.toNandFlash reader freeRegion writer answers cells chip
        oobbuf start (pages * device.layout.rawSize) datbuf memory ↔
      start + pages * device.layout.rawSize ≤ device.chipSize := by
  have small : start + pages * device.layout.rawSize < 2 ^ 32 := by
    have half := device.chipSize_le
    have spare : 32 * (pages * device.layout.oobSize) ≤
        pages * device.layout.writeSize := by
      rw [Nat.mul_left_comm]
      exact Nat.mul_le_mul_left pages device.fewSpare
    rw [PageLayout.rawSize, Nat.mul_add]
    omega
  have sum := add32_of_lt small
  constructor
  · rintro ⟨writeRounds, written, readRounds, result, write, returned, -⟩
    by_contra beyond
    rw [nandWriteOob, sum, if_pos (Nat.lt_of_not_le beyond)] at write
    rw [← write] at returned
    cases returned
  · intro inside
    have passes : ¬ device.chipSize < start + pages * device.layout.rawSize :=
      Nat.not_lt_of_le inside
    have wrote := nandWriteOob_raw freeRegion writer succeeds cells chip oobbuf
      aligned inside datbuf
    obtain ⟨writeRounds, written, write, returned, length, holds⟩ := wrote
    obtain ⟨readRounds, result, read, status, retlen, stored⟩ :=
      nandReadByOpt_raw (device.holding written.cells) reader holds inside
        written.chip memory
    refine ⟨writeRounds, written, readRounds, result, write, returned, length,
      ?_, status, retlen, ?_⟩
    · unfold nandReadOob
      rw [sum]
      exact (if_neg passes).trans read
    · rw [stored]
      apply slice_congr
      intro index within
      rw [Nat.zero_add, patch]
      exact if_pos within

/-- Always ready, not write protected, and without a failure. -/
def readyAnswers : NandAnswers :=
  ⟨fun _ => 0xc0, fun _ => 0xffff⟩

theorem succeeds_ready : Succeeds readyAnswers := by
  constructor
  · intro _
    show (0xc0 : UInt8) &&& 0x80 ≠ 0
    decide
  · intro _
    show (0xc0 : UInt8) &&& 0x01 = 0
    decide

/-- The erased chip, with a page register and buffers of zeros. -/
def erasedCells : NandCells :=
  ⟨fun _ => 0xff, fun _ => 0xff⟩

/-- The first two pages of a chip. -/
theorem rawRoundTrip_twoPages :
    RawRoundTrip small16MB.toNandFlash (rawReader small16MB.layout) []
      (nandWritePageRaw small16MB.layout) readyAnswers erasedCells blankChip
      none 0 (2 * small16MB.layout.rawSize) UInt8.ofNat (fun _ => 0) :=
  (rawRoundTrip_iff small16MB (rawReader small16MB.layout) []
    (nandWritePageRaw small16MB.layout) succeeds_ready erasedCells blankChip
    none (by decide) (by decide) UInt8.ofNat (fun _ => 0)).mpr (by decide)

/-- The last page of a chip cannot be written raw. -/
theorem not_rawRoundTrip_lastPage :
    ¬ RawRoundTrip small16MB.toNandFlash (rawReader small16MB.layout) []
      (nandWritePageRaw small16MB.layout) readyAnswers erasedCells blankChip
      none (2 ^ 24 - 512) (1 * small16MB.layout.rawSize) UInt8.ofNat
      (fun _ => 0) := by
  rintro ⟨writeRounds, written, readRounds, result, write, returned, -⟩
  have beyond : small16MB.chipSize <
      add32 (2 ^ 24 - 512) (1 * small16MB.layout.rawSize) := by decide
  rw [nandWriteOob, if_pos beyond] at write
  rw [← write] at returned
  cases returned

end Witos.Flash
