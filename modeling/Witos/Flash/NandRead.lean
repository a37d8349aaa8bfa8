import Witos.Flash.FlashFile
import Witos.Flash.NandRepair
import Witos.Library.Loop

/-!
# Reads of a NAND chip

`nand_read` and `nand_read_by_opt` of `driver/flash/nand/nand_core.c`.  The
loop stores whole pages from the start of a page on.  What a caller gets is
right for whole pages only: the bytes before the offset are not skipped, and
the last page goes behind the end of the buffer.
-/

namespace Witos.Flash

open Library

/-- A chip whose sizes are powers of two, with the bytes of its pages and its
spare bytes. -/
structure NandFlash where
  layout : PageLayout
  writeShift : Nat
  pageShift : Nat
  writeSize_eq : layout.writeSize = 2 ^ writeShift
  small : 2 ^ (writeShift + pageShift) < 2 ^ 32
  content : Nat → UInt8
  spare : Nat → UInt8

def NandFlash.chipSize (flash : NandFlash) : Nat :=
  2 ^ (flash.writeShift + flash.pageShift)

def NandFlash.pageNumMask (flash : NandFlash) : Nat :=
  (flash.chipSize >>> flash.writeShift) - 1

/-- A `read_page` of the controller where no bit is wrong: it delivers the page
that is selected and corrects nothing.  Each of them returns zero. -/
structure PageReader (layout : PageLayout) where
  readPage : NandChip → (Nat → UInt8) → NandChip × (Nat → UInt8)
  delivers : ∀ chip buff,
    (readPage chip buff).2 = patch layout.writeSize chip.data buff
  noneCorrected : ∀ chip buff,
    (readPage chip buff).1.eccCorrectCount = chip.eccCorrectCount
  noneFailed : ∀ chip buff,
    (readPage chip buff).1.eccFailedCount = chip.eccFailedCount

/-- `NAND_ECC_NONE`. -/
def rawReader (layout : PageLayout) : PageReader layout where
  readPage := nandReadPageRaw layout
  delivers := fun _ _ => rfl
  noneCorrected := fun _ _ => rfl
  noneFailed := fun _ _ => rfl

theorem nandReadPageSwecc_failed (calculate : Calculate)
    (layout : PageLayout) (chip : NandChip) (buff : Nat → UInt8) :
    (nandReadPageSwecc calculate layout chip buff).1.eccFailedCount =
      chip.eccFailedCount := by
  unfold nandReadPageSwecc readPageWith
  simp only [nandReadPageRaw, correctSteps_nandCorrectData]

/-- `NAND_ECC_SW`. -/
def sweccReader (calculate : Calculate) (layout : PageLayout) :
    PageReader layout where
  readPage := nandReadPageSwecc calculate layout
  delivers := fun chip buff =>
    (nandReadPageSwecc_result calculate layout chip buff).1
  noneCorrected := fun chip buff =>
    (nandReadPageSwecc_result calculate layout chip buff).2
  noneFailed := nandReadPageSwecc_failed calculate layout

/-- `struct mtd_oob_ops` without an `oobbuf`. -/
structure MtdOobOps where
  mode : OobMode
  len : Nat
  ooboffs : Nat

/-- What the loop of `nand_read_by_opt` changes.  The pointer `buff` is an
offset in the memory behind `datbuf`. -/
structure PageLoop where
  chip : NandChip
  memory : Nat → UInt8
  buff : Nat
  realPage : Nat
  readlen : Nat

/-- The end of `nand_read_by_opt`. -/
inductive ReadStatus
  | done | einval | ebadmsg | euclean
deriving DecidableEq

/-- What a read leaves behind. -/
structure ReadResult where
  status : ReadStatus
  retlen : Nat
  memory : Nat → UInt8

section Operations

variable (flash : NandFlash) (reader : PageReader flash.layout)

/-- `NAND_CMMD_READ0` for a page. -/
def commandRead0 (page : Nat) (chip : NandChip) : NandChip :=
  { chip with
    data := fun i => flash.content (page * flash.layout.writeSize + i)
    oob := fun i => flash.spare (page * flash.layout.oobSize + i) }

/-- What a function does that gets a pointer into the memory. -/
def behindPointer (buff : Nat) (changed memory : Nat → UInt8) :
    Nat → UInt8 :=
  fun index => if index < buff then memory index else changed (index - buff)

/-- One round of the loop. -/
def readPageStep (opt : MtdOobOps) (state : PageLoop) : PageLoop :=
  let chip := commandRead0 flash (state.realPage &&& flash.pageNumMask)
    state.chip
  let pointed := fun i => state.memory (state.buff + i)
  match opt.mode with
  | .raw =>
      let (chip, changed) := nandReadPageRaw flash.layout chip pointed
      let memory := overlayAt (state.buff + flash.layout.writeSize)
        (slice chip.oobBuf opt.ooboffs flash.layout.oobSize)
        (behindPointer state.buff changed state.memory)
      { chip := chip
        memory := memory
        buff := state.buff + flash.layout.writeSize + flash.layout.oobSize
        realPage := state.realPage + 1
        readlen := add32 state.readlen
          (flash.layout.writeSize + flash.layout.oobSize) }
  | _ =>
      let (chip, changed) := reader.readPage chip pointed
      { chip := chip
        memory := behindPointer state.buff changed state.memory
        buff := state.buff + flash.layout.writeSize
        realPage := state.realPage + 1
        readlen := add32 state.readlen flash.layout.writeSize }

/-- `nand_read_by_opt`.  Without a result the loop goes on after all the
rounds. -/
def nandReadByOpt (rounds : Nat) (chip : NandChip) (start : Nat)
    (opt : MtdOobOps) (memory : Nat → UInt8) : Option ReadResult :=
  (Loop.runWhile (fun state => decide (state.readlen < opt.len))
    (readPageStep flash reader opt) rounds
    ⟨chip, memory, 0, start >>> flash.writeShift, 0⟩).map fun final =>
      { status :=
          if final.chip.eccFailedCount - chip.eccFailedCount ≠ 0 then .ebadmsg
          else if final.chip.eccCorrectCount - chip.eccCorrectCount ≠ 0 then
            .euclean
          else .done
        retlen := final.readlen
        memory := final.memory }

/-- `nand_read` with the value that `*retlen` has before.  The mode of
`nand->opt` is zero from its allocation on, and `nand_write` sets it to the
same. -/
def nandRead (rounds : Nat) (chip : NandChip) (start len retlen : Nat)
    (memory : Nat → UInt8) : Option ReadResult :=
  if flash.chipSize < add32 start len then some ⟨.einval, retlen, memory⟩
  else if len = 0 then some ⟨.done, retlen, memory⟩
  else nandReadByOpt flash reader rounds chip start ⟨.place, len, 0⟩ memory

/-- The read ends, stores just the bytes from `start` on, and reports their
number: whatever is in the memory and in `*retlen` before. -/
def ReadsExactly (chip : NandChip) (start len : Nat) : Prop :=
  ∀ (retlen : Nat) (memory : Nat → UInt8), ∃ rounds result,
    nandRead flash reader rounds chip start len retlen memory =
      some result ∧
    result.memory =
      patch len (fun i => flash.content (start + i)) memory ∧
    result.retlen = len

end Operations

/-- `page & page_num_mask` is the page where the chip has it. -/
theorem NandFlash.and_pageNumMask (flash : NandFlash) {page : Nat}
    (inside : page * flash.layout.writeSize < flash.chipSize) :
    page &&& flash.pageNumMask = page := by
  have pages : flash.chipSize >>> flash.writeShift = 2 ^ flash.pageShift := by
    rw [NandFlash.chipSize, Nat.shiftRight_eq_div_pow, Nat.pow_add]
    exact Nat.mul_div_cancel_left _ (Nat.two_pow_pos _)
  have below : page < 2 ^ flash.pageShift := by
    rw [flash.writeSize_eq, NandFlash.chipSize, Nat.pow_add,
      Nat.mul_comm] at inside
    exact Nat.lt_of_mul_lt_mul_left inside
  rw [NandFlash.pageNumMask, pages, Nat.and_two_pow_sub_one_eq_mod]
  exact Nat.mod_eq_of_lt below

theorem behindPointer_patch (count more : Nat)
    (source memory : Nat → UInt8) :
    behindPointer count
        (patch more (fun i => source (count + i))
          (fun i => patch count source memory (count + i)))
        (patch count source memory) =
      patch (count + more) source memory := by
  funext index
  unfold behindPointer patch
  by_cases before : index < count
  · have inside : index < count + more := by omega
    simp only [before, inside, if_true]
  · have position : count + (index - count) = index := by omega
    have within : index - count < more ↔ index < count + more := by omega
    simp only [before, if_false, position, within]

section Run

variable {flash : NandFlash} {reader : PageReader flash.layout}
  {chip : NandChip} {memory : Nat → UInt8} {start len : Nat}

/-- The bytes from the start of the page on. -/
def NandFlash.fromPage (flash : NandFlash) (start : Nat) : Nat → UInt8 :=
  fun i => flash.content (start - start % flash.layout.writeSize + i)

/-- After some rounds: so many pages are stored, from the start of the page
on. -/
structure Rounds (flash : NandFlash) (chip : NandChip)
    (memory : Nat → UInt8) (start len : Nat) (pages : Nat)
    (state : PageLoop) : Prop where
  stored : state.memory =
    patch (pages * flash.layout.writeSize) (flash.fromPage start) memory
  pointer : state.buff = pages * flash.layout.writeSize
  next : state.realPage = start / flash.layout.writeSize + pages
  counted : state.readlen = pages * flash.layout.writeSize
  needed : pages * flash.layout.writeSize < len + flash.layout.writeSize
  corrected : state.chip.eccCorrectCount = chip.eccCorrectCount
  failed : state.chip.eccFailedCount = chip.eccFailedCount

theorem NandFlash.writeSize_pos (flash : NandFlash) :
    0 < flash.layout.writeSize := by
  rw [flash.writeSize_eq]
  exact Nat.two_pow_pos _

theorem NandFlash.round_small (flash : NandFlash) :
    flash.chipSize + flash.layout.writeSize ≤ 2 ^ 32 := by
  have bits : flash.writeShift + flash.pageShift ≤ 31 :=
    Nat.le_of_lt_succ ((Nat.pow_lt_pow_iff_right Nat.one_lt_two).mp flash.small)
  have chip : flash.chipSize ≤ 2 ^ 31 :=
    Nat.pow_le_pow_right Nat.zero_lt_two bits
  have page : flash.layout.writeSize ≤ 2 ^ 31 := by
    rw [flash.writeSize_eq]
    exact Nat.pow_le_pow_right Nat.zero_lt_two (Nat.le_of_add_right_le bits)
  omega

/-- The count of the bytes does not wrap with a page that begins inside the
chip. -/
theorem NandFlash.add32_writeSize (flash : NandFlash) {pages : Nat}
    (begins : pages * flash.layout.writeSize < flash.chipSize) :
    add32 (pages * flash.layout.writeSize) flash.layout.writeSize =
      (pages + 1) * flash.layout.writeSize := by
  have small := flash.round_small
  rw [Nat.add_one_mul]
  apply add32_of_lt
  omega

theorem Rounds.step {pages : Nat} {state : PageLoop}
    (rounds : Rounds flash chip memory start len pages state)
    (reader : PageReader flash.layout) {opt : MtdOobOps}
    (place : opt.mode = .place) (inside : start + len ≤ flash.chipSize)
    (goesOn : state.readlen < len) :
    Rounds flash chip memory start len (pages + 1)
      (readPageStep flash reader opt state) := by
  have begins : pages * flash.layout.writeSize < len := by
    rw [← rounds.counted]
    exact goesOn
  have base := Nat.div_add_mod start flash.layout.writeSize
  have product : (start / flash.layout.writeSize + pages) *
        flash.layout.writeSize =
      start - start % flash.layout.writeSize +
        pages * flash.layout.writeSize := by
    rw [Nat.add_mul, Nat.mul_comm (start / _)]
    omega
  have masked : state.realPage &&& flash.pageNumMask =
      start / flash.layout.writeSize + pages := by
    rw [rounds.next]
    apply flash.and_pageNumMask
    omega
  have counter := @NandFlash.add32_writeSize flash pages (by omega)
  have page : (fun i => flash.content ((start / flash.layout.writeSize +
      pages) * flash.layout.writeSize + i)) = fun i =>
        flash.fromPage start (pages * flash.layout.writeSize + i) := by
    funext i
    rw [NandFlash.fromPage, product, Nat.add_assoc]
  rw [readPageStep, place]
  constructor
  · simp only [reader.delivers, commandRead0, masked, rounds.stored,
      rounds.pointer, page, Nat.add_one_mul]
    apply behindPointer_patch
  · simp only [rounds.pointer, Nat.add_one_mul]
  · simp only [rounds.next, Nat.add_assoc]
  · simp only [rounds.counted, counter]
  · rw [Nat.add_one_mul]
    omega
  · simp only [reader.noneCorrected, commandRead0, rounds.corrected]
  · simp only [reader.noneFailed, commandRead0, rounds.failed]

theorem rounds_zero (flash : NandFlash) (chip : NandChip)
    (memory : Nat → UInt8) (start len : Nat) :
    Rounds flash chip memory start len 0
      ⟨chip, memory, 0, start >>> flash.writeShift, 0⟩ := by
  constructor
  · funext index
    simp only [patch, Nat.zero_mul, Nat.not_lt_zero, if_false]
  · rw [Nat.zero_mul]
  · rw [Nat.shiftRight_eq_div_pow, flash.writeSize_eq, Nat.add_zero]
  · rw [Nat.zero_mul]
  · have := flash.writeSize_pos
    omega
  · rfl
  · rfl

/-- A read of the whole pages that the bytes reach into, from the start of the
page on. -/
structure StoresPages (flash : NandFlash) (memory : Nat → UInt8)
    (start len : Nat) (result : ReadResult) : Prop where
  status : result.status = .done
  whole : result.retlen % flash.layout.writeSize = 0
  enough : len ≤ result.retlen
  needed : result.retlen < len + flash.layout.writeSize
  stored : result.memory =
    patch result.retlen (flash.fromPage start) memory

/-- `nand_read_by_opt` in the range of the chip ends. -/
theorem exists_nandReadByOpt (reader : PageReader flash.layout)
    (chip : NandChip) (memory : Nat → UInt8) {opt : MtdOobOps}
    (place : opt.mode = .place)
    (inside : start + opt.len ≤ flash.chipSize) :
    ∃ rounds result, nandReadByOpt flash reader rounds chip start opt memory =
      some result := by
  have ends : ∃ final,
      Loop.runWhile (fun state => decide (state.readlen < opt.len))
        (readPageStep flash reader opt) (opt.len + 1)
        ⟨chip, memory, 0, start >>> flash.writeShift, 0⟩ = some final := by
    apply Loop.exists_runWhile
      (fun state => ∃ pages,
        Rounds flash chip memory start opt.len pages state)
      (fun state => opt.len - state.readlen)
    · rintro state ⟨pages, rounds⟩ goesOn
      have before := of_decide_eq_true goesOn
      have after := rounds.step reader place inside before
      refine ⟨⟨pages + 1, after⟩, ?_⟩
      rw [after.counted, rounds.counted, Nat.add_one_mul]
      rw [rounds.counted] at before
      have := flash.writeSize_pos
      omega
    · exact Nat.lt_succ_self _
    · exact ⟨0, rounds_zero flash chip memory start opt.len⟩
  obtain ⟨final, ended⟩ := ends
  refine ⟨opt.len + 1, ?_⟩
  rw [nandReadByOpt, ended]
  exact ⟨_, rfl⟩

/-- What `nand_read_by_opt` leaves behind. -/
theorem nandReadByOpt_storesPages {opt : MtdOobOps} {rounds : Nat}
    {result : ReadResult} (place : opt.mode = .place)
    (inside : start + opt.len ≤ flash.chipSize)
    (ended : nandReadByOpt flash reader rounds chip start opt memory =
      some result) :
    StoresPages flash memory start opt.len result := by
  obtain ⟨final, loopEnded, outcome⟩ := Option.map_eq_some_iff.mp ended
  have kept := Loop.invariant_of_runWhile
    (fun state => ∃ pages,
      Rounds flash chip memory start opt.len pages state)
    (fun state ⟨pages, rounds⟩ goesOn =>
      ⟨pages + 1, rounds.step reader place inside (of_decide_eq_true goesOn)⟩)
    loopEnded ⟨0, rounds_zero flash chip memory start opt.len⟩
  obtain ⟨⟨pages, rounds⟩, stops⟩ := kept
  have reached := of_decide_eq_false stops
  rw [← outcome]
  constructor
  · simp only [rounds.failed, rounds.corrected, UInt32.sub_self, ne_eq,
      not_true_eq_false, if_false]
  · simp only [rounds.counted, Nat.mul_mod_left]
  · exact Nat.le_of_not_lt reached
  · simp only [rounds.counted, rounds.needed]
  · simp only [rounds.stored, rounds.counted]

end Run

/-- A read is exact if and only if it is of at least one whole page and the
bytes from the start of the page on are those from the offset on. -/
theorem readsExactly_iff (flash : NandFlash)
    (reader : PageReader flash.layout) (chip : NandChip) {start len : Nat}
    (inside : start + len ≤ flash.chipSize) :
    ReadsExactly flash reader chip start len ↔
      len ≠ 0 ∧ len % flash.layout.writeSize = 0 ∧
        ∀ i < len, flash.content (start - start % flash.layout.writeSize + i) =
          flash.content (start + i) := by
  have checked : ¬ flash.chipSize < add32 start len := by
    have small := flash.small
    rw [add32_of_lt (Nat.lt_of_le_of_lt inside small)]
    exact Nat.not_lt_of_le inside
  constructor
  · intro reads
    obtain ⟨rounds, result, ended, stored, reported⟩ := reads 1 fun _ => 0
    rw [nandRead, if_neg checked] at ended
    by_cases empty : len = 0
    · rw [if_pos empty] at ended
      cases ended
      rw [empty] at reported
      cases reported
    · rw [if_neg empty] at ended
      have pages := nandReadByOpt_storesPages rfl inside ended
      refine ⟨empty, ?_, ?_⟩
      · rw [← pages.whole, reported]
      · intro i below
        have cells := congrFun (pages.stored.symm.trans stored) i
        rw [reported] at cells
        simp only [patch, below, if_true] at cells
        exact cells
  · rintro ⟨nonempty, whole, same⟩ retlen memory
    have ends : ∃ rounds result, nandReadByOpt flash reader rounds chip start
        ⟨.place, len, 0⟩ memory = some result :=
      exists_nandReadByOpt reader chip memory rfl inside
    obtain ⟨rounds, result, ended⟩ := ends
    have pages : StoresPages flash memory start len result :=
      nandReadByOpt_storesPages rfl inside ended
    have length : result.retlen = len := by
      have divides := Nat.dvd_sub (Nat.dvd_of_mod_eq_zero pages.whole)
        (Nat.dvd_of_mod_eq_zero whole)
      have enough := pages.enough
      have less := pages.needed
      have none := Nat.eq_zero_of_dvd_of_lt divides (by omega)
      exact Nat.le_antisymm (Nat.sub_eq_zero_iff_le.mp none) enough
    refine ⟨rounds, result, ?_, ?_, length⟩
    · rw [nandRead, if_neg checked, if_neg nonempty, ended]
    · rw [pages.stored, length]
      funext index
      unfold patch
      split
      · exact same index ‹_›
      · rfl

/-- The bytes of the spare area that hold the code of a page of 512 bytes. -/
def eccPos16 (i : Nat) : Nat := [0, 1, 2, 3, 6, 7].getD i 0

theorem eccPos16_inside :
    ∀ i < softEccCodeNum * eccSteps 512, eccPos16 i < 16 := by
  decide

theorem eccPos16_injective : ∀ i < softEccCodeNum * eccSteps 512,
    ∀ j < softEccCodeNum * eccSteps 512, eccPos16 i = eccPos16 j → i = j := by
  decide

theorem smallPages_small : 2 ^ (9 + 16) < 2 ^ 32 := by
  decide

/-- A chip of 32 MiB with pages of 512 bytes. -/
def smallPages : NandFlash where
  layout := ⟨512, 16, eccPos16, rfl, eccPos16_inside, eccPos16_injective⟩
  writeShift := 9
  pageShift := 16
  writeSize_eq := rfl
  small := smallPages_small
  content := UInt8.ofNat
  spare := fun _ => 0xff

def blankChip : NandChip :=
  ⟨fun _ => 0xff, fun _ => 0xff, fun _ => 0xff, fun _ => 0, fun _ => 0, 0, 0⟩

/-- Two whole pages are read as they are. -/
theorem readsExactly_twoPages :
    ReadsExactly smallPages (rawReader smallPages.layout) blankChip 512 1024 :=
  (readsExactly_iff smallPages (rawReader smallPages.layout) blankChip
    (by decide)).mpr ⟨by decide, by decide, fun _ _ => rfl⟩

/-- Of sixteen bytes in the first page, the whole page is stored. -/
theorem not_readsExactly :
    ¬ ∀ (flash : NandFlash) (reader : PageReader flash.layout)
        (chip : NandChip) (start len : Nat),
      start + len ≤ flash.chipSize →
      ReadsExactly flash reader chip start len := by
  intro always
  have inside : 100 + 16 ≤ smallPages.chipSize := by decide
  have reads := always smallPages (sweccReader hammingCode smallPages.layout)
    blankChip 100 16 inside
  obtain ⟨rounds, result, ended, -, reported⟩ := reads 0 fun _ => 0
  have checked : ¬ smallPages.chipSize < add32 100 16 := by decide
  rw [nandRead, if_neg checked, if_neg (by decide)] at ended
  have pages := nandReadByOpt_storesPages rfl inside ended
  have whole := pages.whole
  rw [reported] at whole
  exact absurd whole (by decide)

end Witos.Flash
