import Witos.Flash.NandRaw
import Witos.Flash.OobRegions

/-!
# The spare bytes of a NAND chip

`nand_do_read_oob` and `nand_do_write_oob` of
`driver/flash/nand/nand_core.c`, where no data is read or written.  A read
goes from page to page, and on a chip that counts the pages itself it sends a
command for the first page of a block only.  A write programs the spare bytes
of one page: it clears bits and sets none.
-/

namespace Witos.Flash

open Library

/-- What the two functions return. -/
inductive SpareReturn
  | zero | einval | erofs | eio
deriving DecidableEq

/-- `struct mtd_oob_ops` without a `datbuf`. -/
structure SpareOps where
  mode : OobMode
  ooblen : Nat
  ooboffs : Nat

/-- What the loop of `nand_do_read_oob` changes.  The chip delivers the spare
bytes of the page that is selected, and then it selects the next one. -/
structure SpareLoop where
  selected : Nat
  oobBuf : Nat → UInt8
  memory : Nat → UInt8
  buff : Nat
  realPage : Nat
  len : Nat
  readlen : Nat
  sndcmd : Bool
  goesOn : Bool
  commands : List NandCommand

/-- What a read of spare bytes leaves behind. -/
structure SpareRead where
  returned : SpareReturn
  oobBuf : Nat → UInt8
  memory : Nat → UInt8
  commands : List NandCommand

/-- `nand_copy_oob`: the memory, and the pointer that is returned. -/
def nandCopyOob (freeRegion : List OobFreeRegion) (opt : SpareOps) (len : Nat)
    (oobBuf : Nat → UInt8) (buff : Nat) (memory : Nat → UInt8) :
    (Nat → UInt8) × Nat :=
  match opt.mode with
  | .auto => nandCopyOobAuto freeRegion opt.ooboffs len oobBuf buff memory
  | _ => (overlayAt buff (slice oobBuf opt.ooboffs len) memory, buff + len)

/-- The spare bytes that are counted for a page. -/
def spareLen (layout : PageLayout) (freeOobSum : Nat) (mode : OobMode) : Nat :=
  match mode with
  | .auto => freeOobSum
  | _ => layout.oobSize

section Read

variable (device : NandDevice) (freeRegion : List OobFreeRegion)
  (freeOobSum : Nat) (canAutoIncr : Bool)

/-- `blkcheck`. -/
def NandDevice.blkcheck (device : NandDevice) : Nat :=
  (1 <<< (device.eraseShift - device.writeShift)) - 1

/-- One round, with `nand_read_oob_std`. -/
def spareReadStep (opt : SpareOps) (state : SpareLoop) : SpareLoop :=
  let page := state.realPage &&& device.pageNumMask
  let selected := if state.sndcmd then page else state.selected
  let commands :=
    if state.sndcmd then state.commands ++ [⟨.readoob, some 0, some page⟩]
    else state.commands
  let oobBuf := patch device.layout.oobSize
    (fun i => device.spare (selected * device.layout.oobSize + i)) state.oobBuf
  let len := min state.len state.readlen
  let copied := nandCopyOob freeRegion opt len oobBuf state.buff state.memory
  let readlen := state.readlen - len
  let next := (state.realPage + 1) &&& device.pageNumMask
  { selected := selected + 1
    oobBuf := oobBuf
    memory := copied.1
    buff := copied.2
    realPage := state.realPage + 1
    len := len
    readlen := readlen
    sndcmd := !canAutoIncr || decide (next &&& device.blkcheck = 0)
    goesOn := decide (readlen ≠ 0)
    commands := commands }

/-- `nand_do_read_oob`.  Each round takes at least one byte. -/
def nandDoReadOob (start : Nat) (opt : SpareOps) (oobBuf memory : Nat → UInt8) :
    SpareRead :=
  let len := spareLen device.layout freeOobSum opt.mode
  if len ≤ opt.ooboffs then ⟨.einval, oobBuf, memory, []⟩
  else if device.chipSize ≤ start ∨
      (device.chipSize >>> device.writeShift - start >>> device.writeShift) *
        len < add32 opt.ooboffs opt.ooblen then
    ⟨.einval, oobBuf, memory, []⟩
  else
    let final := Loop.rounds SpareLoop.goesOn
      (spareReadStep device freeRegion canAutoIncr opt) (opt.ooblen + 1)
      ⟨0, oobBuf, memory, 0, start >>> device.writeShift, len, opt.ooblen,
        true, true, []⟩
    ⟨.zero, final.oobBuf, final.memory, final.commands⟩

end Read

/-- What a write of spare bytes leaves behind. -/
structure SpareWrite where
  returned : SpareReturn
  cells : NandCells
  oobBuf : Nat → UInt8
  commands : List NandCommand

/-- `NAND_CMMD_PAGEPROG` with the spare bytes of a page: no bit is set that was
not set before. -/
def programSpare (oobSize page : Nat) (bytes : Nat → UInt8)
    (cells : NandCells) : NandCells :=
  { cells with
    spare := fun i =>
      if page * oobSize ≤ i ∧ i < (page + 1) * oobSize then
        cells.spare i &&& bytes (i - page * oobSize)
      else cells.spare i }

section Write

variable (device : NandDevice) (freeRegion : List OobFreeRegion)
  (freeOobSum : Nat) (answers : NandAnswers)

/-- `nand_do_write_oob` with `nand_write_oob_std`.  The reset in front of the
status command is not a command that changes a page. -/
def nandDoWriteOob (cells : NandCells) (oobBuf : Nat → UInt8) (target : Nat)
    (opt : SpareOps) (oobbuf : Nat → UInt8) : SpareWrite :=
  let len := spareLen device.layout freeOobSum opt.mode
  if len < add32 opt.ooboffs opt.ooblen then ⟨.einval, cells, oobBuf, []⟩
  else if len ≤ opt.ooboffs then ⟨.einval, cells, oobBuf, []⟩
  else if device.chipSize ≤ target ∨
      (device.chipSize >>> device.writeShift - target >>> device.writeShift) *
        len < add32 opt.ooboffs opt.ooblen then
    ⟨.einval, cells, oobBuf, []⟩
  else
    let protection := nandCheckWp answers []
    if protection.1 then ⟨.erofs, cells, oobBuf, protection.2⟩
    else
      let page := (target >>> device.writeShift) &&& device.pageNumMask
      let erased := patch device.layout.oobSize (fun _ => 0xff) oobBuf
      let filled := nandFillOob freeRegion
        ⟨⟨opt.mode, 0, opt.ooboffs⟩, opt.ooblen, some oobbuf⟩ oobbuf erased
      let waited := nandWait answers (protection.2 ++
        [⟨.seqin, some device.layout.writeSize, some page⟩,
          ⟨.pageprog, none, none⟩])
      { returned := if waited.1 &&& 0x01 ≠ 0 then .eio else .zero
        cells := programSpare device.layout.oobSize page filled.1 cells
        oobBuf := patch device.layout.oobSize (fun _ => 0xff) filled.1
        commands := waited.2 }

end Write

/-- The number of pages of a chip. -/
def NandFlash.pages (flash : NandFlash) : Nat :=
  2 ^ flash.pageShift

theorem NandFlash.chipSize_shift (flash : NandFlash) :
    flash.chipSize >>> flash.writeShift = flash.pages := by
  rw [NandFlash.chipSize, Nat.shiftRight_eq_div_pow, Nat.pow_add]
  exact Nat.mul_div_cancel_left _ (Nat.two_pow_pos _)

theorem NandFlash.page_and_mask (flash : NandFlash) {page : Nat}
    (inside : page < flash.pages) : page &&& flash.pageNumMask = page := by
  rw [NandFlash.pageNumMask, flash.chipSize_shift, NandFlash.pages,
    Nat.and_two_pow_sub_one_eq_mod]
  exact Nat.mod_eq_of_lt inside

theorem NandDevice.and_blkcheck (device : NandDevice) (page : Nat) :
    page &&& device.blkcheck = page % device.pagesPerBlock := by
  have pages := device.eightPages
  have order : device.writeShift ≤ device.eraseShift := by omega
  rw [NandDevice.blkcheck, Nat.one_shiftLeft, Nat.and_two_pow_sub_one_eq_mod,
    NandDevice.pagesPerBlock, NandDevice.eraseSize,
    Nat.shiftRight_eq_div_pow, Nat.pow_div order Nat.zero_lt_two]

/-- The spare bytes from an offset in those of a page on. -/
def NandFlash.spareFrom (flash : NandFlash) (page ooboffs : Nat) :
    Nat → UInt8 :=
  fun i => flash.spare (page * flash.layout.oobSize + ooboffs + i)

/-- The pages for which `nand_do_read_oob` sends a command. -/
def commandPages (device : NandDevice) (canAutoIncr : Bool)
    (first count : Nat) : List Nat :=
  (List.range' first count).filter fun page =>
    page = first || !canAutoIncr || page % device.pagesPerBlock = 0

theorem commandPages_succ (device : NandDevice) (canAutoIncr : Bool)
    (first count : Nat) :
    commandPages device canAutoIncr first (count + 1) =
      commandPages device canAutoIncr first count ++
        if first + count = first ∨ canAutoIncr = false ∨
          (first + count) % device.pagesPerBlock = 0
        then [first + count] else [] := by
  unfold commandPages
  rw [List.range'_concat, List.filter_append, Nat.one_mul]
  congr 1
  simp only [List.filter_cons, List.filter_nil, Bool.or_eq_true,
    decide_eq_true_eq, Bool.not_eq_true', or_assoc]

/-- So many pages are read, the last of them perhaps in part. -/
structure SpareReading (device : NandDevice) (canAutoIncr : Bool)
    (first : Nat) (opt : SpareOps) (before : Nat → UInt8) (count : Nat)
    (state : SpareLoop) : Prop where
  page : state.realPage = first + count
  taken : state.buff =
    min (count * device.layout.oobSize) opt.ooblen
  readlen : state.readlen = opt.ooblen - state.buff
  memory : state.memory =
    patch state.buff (device.spareFrom first opt.ooboffs) before
  commands : state.commands =
    (commandPages device canAutoIncr first count).map fun page =>
      ⟨.readoob, some 0, some page⟩
  fewer : count ≤ (opt.ooblen + (device.layout.oobSize - 1)) /
    device.layout.oobSize
  goesOn : state.goesOn = true →
    state.buff = count * device.layout.oobSize ∧
    state.len = device.layout.oobSize ∧
    count * device.layout.oobSize < opt.ooblen ∧
    (count = 0 ∨ state.selected = first + count) ∧
    (state.sndcmd = true ↔ first + count = first ∨ canAutoIncr = false ∨
      (first + count) % device.pagesPerBlock = 0)
  ends : state.goesOn = false → state.buff = opt.ooblen

section SpareReading

variable {device : NandDevice} {freeRegion : List OobFreeRegion}
  {canAutoIncr : Bool} {first : Nat} {opt : SpareOps} {before : Nat → UInt8}
  {count : Nat} {state : SpareLoop}

theorem nandCopyOob_place (notAuto : opt.mode ≠ .auto) (len : Nat)
    (oobBuf : Nat → UInt8) (buff : Nat) (memory : Nat → UInt8) :
    nandCopyOob freeRegion opt len oobBuf buff memory =
      (overlayAt buff (slice oobBuf opt.ooboffs len) memory, buff + len) := by
  unfold nandCopyOob
  split
  · exact absurd ‹_› notAuto
  · rfl

/-- A page whose spare bytes are asked for is one of the chip. -/
theorem page_inChip
    (fits : opt.ooblen ≤ (device.pages - first) * device.layout.oobSize)
    (more : count * device.layout.oobSize < opt.ooblen) :
    first + count < device.pages := by
  have less := Nat.lt_of_lt_of_le more fits
  have fewer := Nat.lt_of_mul_lt_mul_right less
  omega

theorem oobSize_pos
    (fits : opt.ooblen ≤ (device.pages - first) * device.layout.oobSize)
    (more : count * device.layout.oobSize < opt.ooblen) :
    0 < device.layout.oobSize := by
  by_contra none_
  have isZero : device.layout.oobSize = 0 := by omega
  rw [isZero, Nat.mul_zero] at fits
  omega

/-- The spare bytes of a page are the next ones of those asked for. -/
theorem slice_spareOfPage
    (inPage : opt.ooboffs = 0 ∨
      opt.ooboffs + opt.ooblen ≤ device.layout.oobSize)
    {buff : Nat} (isBuff : buff = count * device.layout.oobSize)
    (oobBuf : Nat → UInt8) :
    slice (patch device.layout.oobSize
        (fun i => device.spare
          ((first + count) * device.layout.oobSize + i)) oobBuf)
        opt.ooboffs (min device.layout.oobSize (opt.ooblen - buff)) =
      slice (device.spareFrom first opt.ooboffs) buff
        (min device.layout.oobSize (opt.ooblen - buff)) := by
  rw [slice_eq_iff]
  intro i within
  have inside : opt.ooboffs + i < device.layout.oobSize := by
    rcases inPage with atStart | onePage <;> omega
  have place : (first + count) * device.layout.oobSize + (opt.ooboffs + i) =
      first * device.layout.oobSize + opt.ooboffs + (buff + i) := by
    rw [Nat.add_mul, isBuff]
    omega
  rw [patch, if_pos inside, NandFlash.spareFrom, place]

/-- What a round leaves in its variables. -/
theorem SpareReading.step_eq (notAuto : opt.mode ≠ .auto)
    (inPage : opt.ooboffs = 0 ∨
      opt.ooboffs + opt.ooblen ≤ device.layout.oobSize)
    (fits : opt.ooblen ≤ (device.pages - first) * device.layout.oobSize)
    (reading : SpareReading device canAutoIncr first opt before count state)
    (goesOn : state.goesOn = true) :
    spareReadStep device freeRegion canAutoIncr opt state =
      { selected := first + count + 1
        oobBuf := patch device.layout.oobSize (fun i => device.spare
          ((first + count) * device.layout.oobSize + i)) state.oobBuf
        memory := patch (min ((count + 1) * device.layout.oobSize) opt.ooblen)
          (device.spareFrom first opt.ooboffs) before
        buff := min ((count + 1) * device.layout.oobSize) opt.ooblen
        realPage := first + count + 1
        len := min device.layout.oobSize (opt.ooblen - state.buff)
        readlen := opt.ooblen -
          min ((count + 1) * device.layout.oobSize) opt.ooblen
        sndcmd := !canAutoIncr || decide
          (((first + count + 1) &&& device.pageNumMask) &&& device.blkcheck = 0)
        goesOn := decide (opt.ooblen -
          min ((count + 1) * device.layout.oobSize) opt.ooblen ≠ 0)
        commands := if state.sndcmd then
            state.commands ++ [⟨.readoob, some 0, some (first + count)⟩]
          else state.commands } := by
  obtain ⟨buff, len, more, selected, sends⟩ := reading.goesOn goesOn
  have page : state.realPage &&& device.pageNumMask = first + count := by
    rw [reading.page]
    exact device.page_and_mask (page_inChip fits more)
  have chosen : (if state.sndcmd then first + count else state.selected) =
      first + count := by
    split
    · rfl
    · rename_i notSent
      rcases selected with isFirst | isSelected
      · exact absurd (sends.mpr (Or.inl (by omega))) notSent
      · exact isSelected
  have taken : min state.len state.readlen =
      min device.layout.oobSize (opt.ooblen - state.buff) := by
    rw [len, reading.readlen]
  have whole : (count + 1) * device.layout.oobSize =
      state.buff + device.layout.oobSize := by
    rw [Nat.succ_mul, buff]
  have upTo : state.buff + min device.layout.oobSize
        (opt.ooblen - state.buff) =
      min ((count + 1) * device.layout.oobSize) opt.ooblen := by omega
  have copied : nandCopyOob freeRegion opt
        (min device.layout.oobSize (opt.ooblen - state.buff))
        (patch device.layout.oobSize (fun i => device.spare
          ((first + count) * device.layout.oobSize + i)) state.oobBuf)
        state.buff state.memory =
      (patch (state.buff + min device.layout.oobSize
          (opt.ooblen - state.buff)) (device.spareFrom first opt.ooboffs)
          before,
        state.buff + min device.layout.oobSize (opt.ooblen - state.buff)) := by
    rw [nandCopyOob_place notAuto, slice_spareOfPage inPage buff,
      reading.memory, overlayAt_patch]
  have rest : opt.ooblen - state.buff -
        min device.layout.oobSize (opt.ooblen - state.buff) =
      opt.ooblen - min ((count + 1) * device.layout.oobSize) opt.ooblen := by
    omega
  unfold spareReadStep
  dsimp only
  rw [page, chosen, taken, copied, upTo, reading.readlen, rest, reading.page]

theorem SpareReading.next (notAuto : opt.mode ≠ .auto)
    (inPage : opt.ooboffs = 0 ∨
      opt.ooboffs + opt.ooblen ≤ device.layout.oobSize)
    (fits : opt.ooblen ≤ (device.pages - first) * device.layout.oobSize)
    (reading : SpareReading device canAutoIncr first opt before count state)
    (goesOn : state.goesOn = true) :
    SpareReading device canAutoIncr first opt before (count + 1)
      (spareReadStep device freeRegion canAutoIncr opt state) := by
  obtain ⟨buff, -, more, -, sends⟩ := reading.goesOn goesOn
  have some_ := oobSize_pos fits more
  have whole : (count + 1) * device.layout.oobSize =
      state.buff + device.layout.oobSize := by
    rw [Nat.succ_mul, buff]
  rw [reading.step_eq notAuto inPage fits goesOn]
  refine ⟨(Nat.add_assoc first count 1), rfl, rfl, rfl, ?_, ?_, ?_, ?_⟩
  · dsimp only
    rw [commandPages_succ, List.map_append, ← reading.commands]
    by_cases sent : state.sndcmd = true
    · rw [if_pos sent, if_pos (sends.mp sent)]
      rfl
    · rw [if_neg sent, if_neg fun needed => sent (sends.mpr needed),
        List.map_nil, List.append_nil]
  · rw [Nat.le_div_iff_mul_le some_]
    omega
  · intro again
    have further : (count + 1) * device.layout.oobSize < opt.ooblen := by
      have left := of_decide_eq_true again
      omega
    have nextInChip : first + (count + 1) < device.pages :=
      page_inChip fits further
    rw [← Nat.add_assoc] at nextInChip
    dsimp only
    rw [device.page_and_mask nextInChip, device.and_blkcheck]
    refine ⟨?_, ?_, further, ?_, ?_⟩
    · omega
    · omega
    · omega
    · have notFirst : ¬(first + (count + 1) = first) := by omega
      simp only [Bool.or_eq_true, Bool.not_eq_true', decide_eq_true_eq,
        notFirst, false_or, Nat.add_assoc]
  · intro ended
    have left := of_decide_eq_false ended
    dsimp only
    omega

/-- A round that is not the last takes bytes away from those that are left. -/
theorem SpareReading.less (notAuto : opt.mode ≠ .auto)
    (inPage : opt.ooboffs = 0 ∨
      opt.ooboffs + opt.ooblen ≤ device.layout.oobSize)
    (fits : opt.ooblen ≤ (device.pages - first) * device.layout.oobSize)
    (reading : SpareReading device canAutoIncr first opt before count state)
    (goesOn : state.goesOn = true) :
    (spareReadStep device freeRegion canAutoIncr opt state).readlen <
      state.readlen := by
  obtain ⟨buff, -, more, -⟩ := reading.goesOn goesOn
  have next : SpareReading device canAutoIncr first opt before (count + 1)
      (spareReadStep device freeRegion canAutoIncr opt state) :=
    reading.next notAuto inPage fits goesOn
  have some_ := oobSize_pos fits more
  have whole : (count + 1) * device.layout.oobSize =
      count * device.layout.oobSize + device.layout.oobSize :=
    Nat.succ_mul count device.layout.oobSize
  rw [next.readlen, reading.readlen, next.taken, buff]
  omega

end SpareReading

/-- Requests that `nand_do_read_oob` takes. -/
structure ReadableSpare (device : NandDevice) (start : Nat) (opt : SpareOps) :
    Prop where
  notAuto : opt.mode ≠ .auto
  small : opt.ooboffs + opt.ooblen < 2 ^ 32
  offs : opt.ooboffs < device.layout.oobSize
  inside : start < device.chipSize
  fits : opt.ooboffs + opt.ooblen ≤
    (device.pages - start >>> device.writeShift) * device.layout.oobSize

/-- `nand_do_read_oob` from the start of the spare bytes on, or in those of one
page, reads the spare bytes of the pages one behind the other.  It sends a
command for each page; where the chip counts the pages, for the first page and
for the first of each block only. -/
theorem nandDoReadOob_spare (device : NandDevice)
    (freeRegion : List OobFreeRegion) (freeOobSum : Nat) (canAutoIncr : Bool)
    {start : Nat} {opt : SpareOps} (readable : ReadableSpare device start opt)
    (inPage : opt.ooboffs = 0 ∨
      opt.ooboffs + opt.ooblen ≤ device.layout.oobSize)
    (some_ : 0 < opt.ooblen) (oobBuf memory : Nat → UInt8) :
    ∃ read, nandDoReadOob device freeRegion freeOobSum canAutoIncr start opt
        oobBuf memory = read ∧ read.returned = .zero ∧
      read.memory = patch opt.ooblen
        (device.spareFrom (start >>> device.writeShift) opt.ooboffs) memory ∧
      read.commands = (commandPages device canAutoIncr
          (start >>> device.writeShift)
          ((opt.ooblen + (device.layout.oobSize - 1)) /
            device.layout.oobSize)).map fun page =>
        ⟨.readoob, some 0, some page⟩ := by
  obtain ⟨notAuto, small, offs, inside, fits⟩ := readable
  have len : spareLen device.layout freeOobSum opt.mode =
      device.layout.oobSize := by
    unfold spareLen
    split
    · exact absurd ‹_› notAuto
    · rfl
  generalize firstPage : start >>> device.writeShift = first at *
  have taken : opt.ooblen ≤ (device.pages - first) * device.layout.oobSize := by
    omega
  have begins : ∃ count, SpareReading device canAutoIncr first opt memory count
      ⟨0, oobBuf, memory, 0, first, device.layout.oobSize, opt.ooblen, true,
        true, []⟩ := by
    refine ⟨0, rfl, ?_, rfl, ?_, rfl, Nat.zero_le _, ?_, ?_⟩
    · dsimp only
      omega
    · funext i
      rfl
    · intro _
      refine ⟨(Nat.zero_mul _).symm, rfl, ?_, Or.inl rfl, ?_⟩
      · rw [Nat.zero_mul]
        exact some_
      · exact iff_of_true rfl (Or.inl rfl)
    · intro ended
      cases ended
  have step : ∀ state : SpareLoop,
      (∃ count, SpareReading device canAutoIncr first opt memory count state) →
      state.goesOn = true →
      (∃ count, SpareReading device canAutoIncr first opt memory count
        (spareReadStep device freeRegion canAutoIncr opt state)) ∧
      (if (spareReadStep device freeRegion canAutoIncr opt state).goesOn then
          (spareReadStep device freeRegion canAutoIncr opt state).readlen + 1
        else 0) < if state.goesOn then state.readlen + 1 else 0 := by
    rintro state ⟨count, reading⟩ goesOn
    refine ⟨⟨count + 1, reading.next notAuto inPage taken goesOn⟩, ?_⟩
    have less :
        (spareReadStep device freeRegion canAutoIncr opt state).readlen <
        state.readlen := reading.less notAuto inPage taken goesOn
    rw [if_pos goesOn]
    split <;> omega
  obtain ⟨⟨count, reading⟩, ends⟩ := Loop.ended_of_rounds
    (fun state => ∃ count,
      SpareReading device canAutoIncr first opt memory count state)
    (fun state => if state.goesOn then state.readlen + 1 else 0)
    step begins (Nat.le_refl (opt.ooblen + 1))
  have isLast := reading.ends ends
  have fewer := reading.fewer
  have all : count = (opt.ooblen + (device.layout.oobSize - 1)) /
      device.layout.oobSize := by
    apply Nat.le_antisymm fewer
    rw [← Nat.lt_succ_iff, Nat.div_lt_iff_lt_mul (by omega), Nat.succ_mul]
    have enough := reading.taken
    omega
  unfold nandDoReadOob
  rw [len, if_neg (by omega), firstPage, device.chipSize_shift, if_neg]
  · refine ⟨_, rfl, rfl, ?_, ?_⟩
    · have stored := reading.memory
      rw [isLast] at stored
      exact stored
    · rw [← all]
      exact reading.commands
  · rw [add32_of_lt small]
    omega

/-- Requests that `nand_do_write_oob` takes. -/
structure WritableSpare (device : NandDevice) (target : Nat) (opt : SpareOps) :
    Prop where
  notAuto : opt.mode ≠ .auto
  some_ : 0 < opt.ooblen
  inPage : opt.ooboffs + opt.ooblen ≤ device.layout.oobSize
  inside : target < device.chipSize

theorem WritableSpare.page {device : NandDevice} {target : Nat}
    {opt : SpareOps} (writable : WritableSpare device target opt) :
    target >>> device.writeShift < device.pages := by
  have inside := writable.inside
  rw [NandFlash.chipSize, Nat.pow_add] at inside
  rw [Nat.shiftRight_eq_div_pow, NandFlash.pages]
  exact Nat.div_lt_of_lt_mul inside

theorem NandFlash.oobSize_small (device : NandDevice) :
    device.layout.oobSize < 2 ^ 32 := by
  have few := device.fewSpare
  have small := device.small
  have size := device.writeSize_eq
  have page : 2 ^ device.writeShift ≤
      2 ^ (device.writeShift + device.pageShift) :=
    Nat.pow_le_pow_right Nat.zero_lt_two (Nat.le_add_right _ _)
  omega

/-- The spare bytes of a chip where some of one page are programmed. -/
def programmedSpare (page ooboffs ooblen oobSize : Nat)
    (bytes spare : Nat → UInt8) : Nat → UInt8 :=
  fun i =>
    if page * oobSize + ooboffs ≤ i ∧ i < page * oobSize + ooboffs + ooblen then
      spare i &&& bytes (i - (page * oobSize + ooboffs))
    else spare i

theorem and_ones (byte : UInt8) : byte &&& 0xff = byte :=
  UInt8.and_neg_one

/-- Of a page whose other bytes are set, only those that were filled in are
programmed. -/
theorem programmed_of_filled (page : Nat) {ooboffs ooblen oobSize : Nat}
    (inPage : ooboffs + ooblen ≤ oobSize) (bytes oobBuf spare : Nat → UInt8) :
    (fun i => if page * oobSize ≤ i ∧ i < (page + 1) * oobSize then
        spare i &&& overlayAt ooboffs (slice bytes 0 ooblen)
          (patch oobSize (fun _ => 0xff) oobBuf) (i - page * oobSize)
      else spare i) =
      programmedSpare page ooboffs ooblen oobSize bytes spare := by
  funext i
  unfold programmedSpare
  rw [Nat.succ_mul]
  by_cases inside : page * oobSize ≤ i ∧ i < page * oobSize + oobSize
  · rw [if_pos inside]
    have erased : patch oobSize (fun _ => 0xff) oobBuf (i - page * oobSize) =
        0xff := if_pos (by omega)
    by_cases isFilled : page * oobSize + ooboffs ≤ i ∧
        i < page * oobSize + ooboffs + ooblen
    · have place : i - page * oobSize =
          ooboffs + (i - (page * oobSize + ooboffs)) := by omega
      rw [if_pos isFilled, place, overlayAt_slice _ _ (by omega), Nat.zero_add]
    · rw [if_neg isFilled]
      have untouched : overlayAt ooboffs (slice bytes 0 ooblen)
          (patch oobSize (fun _ => 0xff) oobBuf) (i - page * oobSize) =
          0xff := by
        by_cases before : i - page * oobSize < ooboffs
        · rw [overlayAt_of_lt _ _ before, erased]
        · rw [overlayAt, if_neg before, List.getD_eq_getElem?_getD,
            List.getElem?_eq_none (by rw [length_slice]; omega),
            Option.getD_none, erased]
      rw [untouched, and_ones]
  · rw [if_neg inside, if_neg (by omega)]

/-- `nand_do_write_oob` programs the bytes that it gets and no other ones. -/
theorem nandDoWriteOob_spare (device : NandDevice)
    (freeRegion : List OobFreeRegion) (freeOobSum : Nat)
    {answers : NandAnswers} (succeeds : Succeeds answers) (cells : NandCells)
    (oobBuf : Nat → UInt8) {target : Nat} {opt : SpareOps}
    (writable : WritableSpare device target opt) (oobbuf : Nat → UInt8) :
    ∃ write, nandDoWriteOob device freeRegion freeOobSum answers cells oobBuf
        target opt oobbuf = write ∧ write.returned = .zero ∧
      write.cells = { cells with
        spare := programmedSpare (target >>> device.writeShift) opt.ooboffs
          opt.ooblen device.layout.oobSize oobbuf cells.spare } := by
  have inPage := writable.inPage
  have some_ := writable.some_
  have page := writable.page
  have len : spareLen device.layout freeOobSum opt.mode =
      device.layout.oobSize := by
    unfold spareLen
    split
    · exact absurd ‹_› writable.notAuto
    · rfl
  have small : add32 opt.ooboffs opt.ooblen = opt.ooboffs + opt.ooblen :=
    add32_of_lt (Nat.lt_of_le_of_lt inPage (NandFlash.oobSize_small device))
  have onePage : device.layout.oobSize ≤
      (device.pages - target >>> device.writeShift) *
        device.layout.oobSize := by
    apply Nat.le_mul_of_pos_left
    omega
  have filled : nandFillOob freeRegion
      ⟨⟨opt.mode, 0, opt.ooboffs⟩, opt.ooblen, some oobbuf⟩ oobbuf
        (patch device.layout.oobSize (fun _ => 0xff) oobBuf) =
      (overlayAt opt.ooboffs (slice oobbuf 0 opt.ooblen)
        (patch device.layout.oobSize (fun _ => 0xff) oobBuf), opt.ooblen) := by
    unfold nandFillOob
    split
    · exact absurd ‹_› writable.notAuto
    · rfl
  have isWritable : (nandCheckWp answers []).1 = false :=
    decide_eq_false (succeeds.writable _)
  have passed : ∀ commands, (nandWait answers commands).1 &&& 0x01 = 0 :=
    fun commands => succeeds.passed _
  unfold nandDoWriteOob
  rw [len, small, if_neg (by omega), if_neg (by omega), device.chipSize_shift,
    if_neg (by have inside := writable.inside; omega)]
  dsimp only
  rw [isWritable, if_neg Bool.false_ne_true, filled, device.page_and_mask page]
  refine ⟨_, rfl, ?_, ?_⟩
  · dsimp only
    rw [passed, if_neg (not_not_intro rfl)]
  · dsimp only
    unfold programSpare
    congr 1
    exact programmed_of_filled _ inPage oobbuf oobBuf cells.spare

/-- The chip with other bytes in its pages. -/
def NandDevice.withCells (device : NandDevice) (cells : NandCells) :
    NandDevice :=
  { device with content := cells.content, spare := cells.spare }

/-- A call of `nand_do_write_oob`. -/
structure SpareRequest where
  target : Nat
  opt : SpareOps
  oobbuf : Nat → UInt8

/-- The bits of a spare byte that a request leaves. -/
def SpareRequest.leaves (device : NandDevice) (request : SpareRequest)
    (place : Nat) : UInt8 :=
  let first := (request.target >>> device.writeShift) * device.layout.oobSize +
    request.opt.ooboffs
  if first ≤ place ∧ place < first + request.opt.ooblen then
    request.oobbuf (place - first)
  else 0xff

section Runs

variable (device : NandDevice) (freeRegion : List OobFreeRegion)
  (freeOobSum : Nat) (answers : NandAnswers)

/-- One call after the other. -/
def writeSpares (requests : List SpareRequest) (cells : NandCells)
    (oobBuf : Nat → UInt8) : NandCells × (Nat → UInt8) :=
  requests.foldl (fun state request =>
    let write := nandDoWriteOob device freeRegion freeOobSum answers state.1
      state.2 request.target request.opt request.oobbuf
    (write.cells, write.oobBuf)) (cells, oobBuf)

variable {answers}

theorem writeSpares_cells (succeeds : Succeeds answers)
    {requests : List SpareRequest}
    (writable : ∀ request ∈ requests,
      WritableSpare device request.target request.opt)
    (cells : NandCells) (oobBuf : Nat → UInt8) :
    ∃ oobBuf', writeSpares device freeRegion freeOobSum answers requests cells
        oobBuf =
      ({ cells with
        spare := fun place => requests.foldl
          (fun byte request => byte &&& request.leaves device place)
          (cells.spare place) }, oobBuf') := by
  induction requests generalizing cells oobBuf with
  | nil => exact ⟨oobBuf, rfl⟩
  | cons request requests induction =>
      rw [List.forall_mem_cons] at writable
      obtain ⟨write, isWrite, -, isCells⟩ := nandDoWriteOob_spare device
        freeRegion freeOobSum succeeds cells oobBuf writable.1 request.oobbuf
      obtain ⟨oobBuf', rest⟩ := induction writable.2 write.cells write.oobBuf
      refine ⟨oobBuf', ?_⟩
      have first : ∀ place, write.cells.spare place =
          cells.spare place &&& request.leaves device place := by
        intro place
        rw [isCells, SpareRequest.leaves]
        dsimp only [programmedSpare]
        split
        · rfl
        · rw [and_ones]
      have content : write.cells.content = cells.content := by rw [isCells]
      unfold writeSpares at rest ⊢
      rw [List.foldl_cons]
      dsimp only
      rw [isWrite, rest]
      simp only [content, first, List.foldl_cons]

/-- After a run of writes of spare bytes, a read of spare bytes delivers of
each byte the bits that it had before and that no write cleared. -/
theorem nandDoReadOob_writeSpares (succeeds : Succeeds answers)
    {requests : List SpareRequest}
    (writable : ∀ request ∈ requests,
      WritableSpare device request.target request.opt)
    (cells : NandCells) (oobBuf : Nat → UInt8) (canAutoIncr : Bool)
    {start : Nat} {opt : SpareOps} (readable : ReadableSpare device start opt)
    (inPage : opt.ooboffs = 0 ∨
      opt.ooboffs + opt.ooblen ≤ device.layout.oobSize)
    (some_ : 0 < opt.ooblen) (memory : Nat → UInt8) :
    ∃ after read,
      writeSpares device freeRegion freeOobSum answers requests cells oobBuf =
        after ∧
      nandDoReadOob (device.withCells after.1) freeRegion freeOobSum
        canAutoIncr start opt after.2 memory = read ∧
      read.returned = .zero ∧
      after.1.content = cells.content ∧
      read.memory = patch opt.ooblen (fun i =>
        let place := (start >>> device.writeShift) * device.layout.oobSize +
          opt.ooboffs + i
        requests.foldl
          (fun byte request => byte &&& request.leaves device place)
          (cells.spare place)) memory := by
  obtain ⟨oobBuf', isAfter⟩ := writeSpares_cells device freeRegion freeOobSum
    succeeds writable cells oobBuf
  obtain ⟨read, isRead, returned, isMemory, -⟩ := nandDoReadOob_spare
    (device.withCells { cells with
        spare := fun place => requests.foldl
          (fun byte request => byte &&& request.leaves device place)
          (cells.spare place) }) freeRegion freeOobSum canAutoIncr
    ⟨readable.notAuto, readable.small, readable.offs, readable.inside,
      readable.fits⟩ inPage some_ oobBuf' memory
  exact ⟨_, read, isAfter, isRead, returned, rfl, isMemory⟩

end Runs

theorem nandDoReadOob_twoWrites :
    ∃ after read,
      writeSpares small16MB [] 0 readyAnswers
          [⟨0x200, ⟨.place, 2, 4⟩, fun _ => 0xf3⟩,
            ⟨0x200, ⟨.place, 2, 4⟩, fun _ => 0x3f⟩]
          erasedCells (fun _ => 0) = after ∧
      nandDoReadOob (small16MB.withCells after.1) [] 0 true 0
        ⟨.place, 32, 0⟩ after.2 (fun _ => 0) = read ∧
      read.returned = .zero ∧ after.1.content = erasedCells.content ∧
      read.memory 20 = 0x33 := by
  have writable : ∀ request ∈ ([⟨0x200, ⟨.place, 2, 4⟩, fun _ => 0xf3⟩,
      ⟨0x200, ⟨.place, 2, 4⟩, fun _ => 0x3f⟩] : List SpareRequest),
      WritableSpare small16MB request.target request.opt := by
    intro request listed
    simp only [List.mem_cons, List.not_mem_nil, or_false] at listed
    rcases listed with rfl | rfl <;>
      exact ⟨nofun, by decide, by decide, by decide⟩
  have readable : ReadableSpare small16MB 0 ⟨.place, 32, 0⟩ :=
    ⟨nofun, by decide, by decide, by decide, by decide⟩
  obtain ⟨after, read, isAfter, isRead, returned, content, stored⟩ :=
    nandDoReadOob_writeSpares small16MB [] 0 succeeds_ready writable
      erasedCells (fun _ => 0) true readable (Or.inl rfl) (by decide) fun _ => 0
  refine ⟨after, read, isAfter, isRead, returned, content, ?_⟩
  rw [stored]
  rfl

end Witos.Flash
