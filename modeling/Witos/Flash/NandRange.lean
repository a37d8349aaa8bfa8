import Witos.Flash.NandCommand

/-!
# Ranges of a NAND chip

Which page numbers `nand_read`, `nand_write` and `nand_erase` send.  An erase
adds its 64-bit fields and keeps to the range.  A read and a write add 32-bit
numbers, and a sum that wraps around passes their check.
-/

namespace Witos.Flash

open Library

/-- The pages from the one of the offset to the last one that the bytes reach
into. -/
def NandFlash.PageInside (flash : NandFlash) (offset len page : Nat) : Prop :=
  offset >>> flash.writeShift ≤ page ∧
    page < (offset + len + flash.layout.writeSize - 1) / flash.layout.writeSize

/-- All the page numbers that are sent are those of the range. -/
def SendsInside (flash : NandFlash) (offset len : Nat)
    (commands : List NandCommand) : Prop :=
  ∀ command ∈ commands, ∀ page, command.row = some page →
    flash.PageInside offset len page

/-- A range beyond the chip is an error without a command, and in a range of
the chip no other page is sent. -/
def RangeChecked (flash : NandFlash) (offset len : Nat)
    (operation : Nat → NandOutcome) : Prop :=
  ∀ rounds,
    (flash.chipSize < offset + len →
      (∃ error, (operation rounds).returned = some error ∧ error ≠ .zero) ∧
        (operation rounds).commands = []) ∧
    (offset + len ≤ flash.chipSize →
      SendsInside flash offset len (operation rounds).commands)

/-- The sum of offset and length wraps around to one that is in the chip. -/
def WrapsInside (flash : NandFlash) (offset len : Nat) : Prop :=
  2 ^ 32 ≤ offset + len ∧ offset + len - 2 ^ 32 ≤ flash.chipSize

section Sent

variable {flash : NandFlash} {offset len : Nat}

theorem sendsInside_nil : SendsInside flash offset len [] := by
  intro command member
  cases member

theorem sendsInside_append {first second : List NandCommand} :
    SendsInside flash offset len (first ++ second) ↔
      SendsInside flash offset len first ∧
        SendsInside flash offset len second :=
  List.forall_mem_append

/-- A command with the number of a page, or without one. -/
theorem SendsInside.push {commands : List NandCommand}
    (before : SendsInside flash offset len commands) {command : NandCommand}
    (inside : ∀ page, command.row = some page →
      flash.PageInside offset len page) :
    SendsInside flash offset len (commands ++ [command]) := by
  apply sendsInside_append.mpr
  refine ⟨before, ?_⟩
  intro other member
  rw [List.mem_singleton.mp member]
  exact inside

theorem SendsInside.pushPage {commands : List NandCommand}
    (before : SendsInside flash offset len commands) {page : Nat}
    (inside : flash.PageInside offset len page) (cmmd : NandCmmd)
    (col : Option Nat) :
    SendsInside flash offset len (commands ++ [⟨cmmd, col, some page⟩]) := by
  apply before.push
  intro other same
  rw [← Option.some.inj same]
  exact inside

theorem SendsInside.pushNone {commands : List NandCommand}
    (before : SendsInside flash offset len commands) (cmmd : NandCmmd)
    (col : Option Nat) :
    SendsInside flash offset len (commands ++ [⟨cmmd, col, none⟩]) := by
  apply before.push
  intro page absent
  cases absent

theorem nandCheckWp_inside (answers : NandAnswers) :
    SendsInside flash offset len (nandCheckWp answers []).2 :=
  sendsInside_nil.pushNone _ _

theorem SendsInside.wait {commands : List NandCommand}
    (before : SendsInside flash offset len commands) (answers : NandAnswers) :
    SendsInside flash offset len (nandWait answers commands).2 :=
  before.pushNone _ _

/-- A page of the range that begins so many pages behind its first one. -/
theorem NandFlash.pageInside_add (flash : NandFlash) {offset len pages : Nat}
    (begins : pages * flash.layout.writeSize < len) :
    flash.PageInside offset len (offset / flash.layout.writeSize + pages) := by
  have positive := flash.writeSize_pos
  have base := Nat.div_mul_le_self offset flash.layout.writeSize
  constructor
  · rw [Nat.shiftRight_eq_div_pow, ← flash.writeSize_eq]
    exact Nat.le_add_right _ _
  · apply Nat.lt_of_succ_le
    rw [Nat.le_div_iff_mul_le positive, Nat.succ_mul, Nat.add_mul]
    omega

theorem NandFlash.and_pageNumMask_add (flash : NandFlash)
    {offset len pages : Nat} (inside : offset + len ≤ flash.chipSize)
    (begins : pages * flash.layout.writeSize < len) :
    offset / flash.layout.writeSize + pages &&& flash.pageNumMask =
      offset / flash.layout.writeSize + pages := by
  apply flash.and_pageNumMask
  have base := Nat.div_mul_le_self offset flash.layout.writeSize
  rw [Nat.add_mul]
  omega

end Sent

theorem rangeChecked_of_einval {flash : NandFlash} {offset len : Nat}
    {operation : Nat → NandOutcome}
    (rejects : flash.chipSize < offset + len → ∀ rounds,
      operation rounds = ⟨some .einval, []⟩)
    (sends : offset + len ≤ flash.chipSize → ∀ rounds,
      SendsInside flash offset len (operation rounds).commands) :
    RangeChecked flash offset len operation := by
  intro rounds
  constructor
  · intro beyond
    rw [rejects beyond rounds]
    exact ⟨⟨.einval, rfl, NandReturn.noConfusion⟩, rfl⟩
  · intro inside
    exact sends inside rounds

theorem NandFlash.passes_iff (flash : NandFlash) {offset len : Nat}
    (offsetWord : offset < 2 ^ 32) (lenWord : len < 2 ^ 32)
    (beyond : flash.chipSize < offset + len) :
    ¬ flash.chipSize < add32 offset len ↔ WrapsInside flash offset len := by
  have small : flash.chipSize < 2 ^ 32 := flash.small
  unfold add32 WrapsInside
  constructor
  · intro passes
    omega
  · intro wraps
    omega

theorem NandFlash.passes_of_inside (flash : NandFlash) {offset len : Nat}
    (inside : offset + len ≤ flash.chipSize) :
    ¬ flash.chipSize < add32 offset len := by
  rw [add32_of_lt (Nat.lt_of_le_of_lt inside flash.small)]
  exact Nat.not_lt_of_le inside

theorem WrapsInside.beyond {flash : NandFlash} {offset len : Nat}
    (wraps : WrapsInside flash offset len) : flash.chipSize < offset + len :=
  Nat.lt_of_lt_of_le flash.small wraps.1

theorem WrapsInside.len_ne_zero {flash : NandFlash} {offset len : Nat}
    (wraps : WrapsInside flash offset len) (offsetWord : offset < 2 ^ 32) :
    len ≠ 0 := by
  intro empty
  rw [WrapsInside, empty] at wraps
  exact Nat.not_lt_of_le wraps.1 offsetWord

section Read

variable {flash : NandFlash} {chip : NandChip} {memory : Nat → UInt8}
  {start len : Nat}

/-- After some rounds: so many pages are stored, and the commands are those of
the range. -/
structure ReadsInside (flash : NandFlash) (chip : NandChip)
    (memory : Nat → UInt8) (start len : Nat) (state : LoggedLoop) : Prop where
  rounds : ∃ pages, Rounds flash chip memory start len pages state.loop
  sent : SendsInside flash start len state.commands

theorem ReadsInside.step (reader : PageReader flash.layout) (opt : MtdOobOps)
    (place : opt.mode = .place) (inside : start + len ≤ flash.chipSize)
    {state : LoggedLoop}
    (reads : ReadsInside flash chip memory start len state)
    (goesOn : state.loop.readlen < len) :
    ReadsInside flash chip memory start len
      (loggedReadStep flash reader opt state) := by
  obtain ⟨pages, done⟩ := reads.rounds
  have begins : pages * flash.layout.writeSize < len := by
    rw [← done.counted]
    exact goesOn
  constructor
  · exact ⟨pages + 1, done.step reader place inside goesOn⟩
  · apply reads.sent.pushPage
    rw [done.next, flash.and_pageNumMask_add inside begins]
    exact flash.pageInside_add begins

theorem nandReadLogged_inside (reader : PageReader flash.layout)
    (chip : NandChip) (memory : Nat → UInt8)
    (inside : start + len ≤ flash.chipSize) (rounds : Nat) :
    SendsInside flash start len
      (nandReadLogged flash reader rounds chip start len memory).commands := by
  have before : ReadsInside flash chip memory start len
      ⟨⟨chip, memory, 0, start >>> flash.writeShift, 0⟩, []⟩ := by
    constructor
    · exact ⟨0, rounds_zero flash chip memory start len⟩
    · exact sendsInside_nil
  have after := Loop.invariant_of_rounds
    (ReadsInside flash chip memory start len)
    (fun state reads goesOn => reads.step reader ⟨.place, len, 0⟩ rfl inside
      (of_decide_eq_true goesOn))
    before rounds
  unfold nandReadLogged
  split
  · exact sendsInside_nil
  split
  · exact sendsInside_nil
  exact after.sent

theorem nandReadLogged_sends (reader : PageReader flash.layout)
    (chip : NandChip) (memory : Nat → UInt8)
    (passes : ¬ flash.chipSize < add32 start len) (nonempty : len ≠ 0) :
    (nandReadLogged flash reader 1 chip start len memory).commands ≠ [] := by
  have goesOn : 0 < len := Nat.pos_of_ne_zero nonempty
  unfold nandReadLogged
  rw [if_neg passes, if_neg nonempty]
  simp only [Loop.rounds, decide_eq_true goesOn, if_true, loggedReadStep,
    List.nil_append, ne_eq, List.cons_ne_nil, not_false_eq_true]

theorem nandReadLogged_rejects (reader : PageReader flash.layout)
    (chip : NandChip) (memory : Nat → UInt8)
    (rejected : flash.chipSize < add32 start len) (rounds : Nat) :
    nandReadLogged flash reader rounds chip start len memory =
      ⟨some .einval, []⟩ := by
  unfold nandReadLogged
  exact if_pos rejected

theorem nandReadLogged_rangeChecked_iff (reader : PageReader flash.layout)
    (chip : NandChip) (memory : Nat → UInt8)
    (startWord : start < 2 ^ 32) (lenWord : len < 2 ^ 32) :
    RangeChecked flash start len
        (fun rounds =>
          nandReadLogged flash reader rounds chip start len memory) ↔
      ¬ WrapsInside flash start len := by
  constructor
  · intro checked wraps
    have passes := (flash.passes_iff startWord lenWord wraps.beyond).mpr wraps
    have sends := nandReadLogged_sends reader chip memory passes
      (wraps.len_ne_zero startWord)
    exact sends ((checked 1).1 wraps.beyond).2
  · intro noWrap
    apply rangeChecked_of_einval
    · intro beyond rounds
      apply nandReadLogged_rejects
      by_contra passes
      exact noWrap ((flash.passes_iff startWord lenWord beyond).mp passes)
    · intro inside rounds
      exact nandReadLogged_inside reader chip memory inside rounds

end Read

section Write

variable {flash : NandFlash} {start len : Nat}

/-- After some rounds of a write: so many pages are sent, all of the range. -/
structure WritesInside (flash : NandFlash) (start len : Nat)
    (state : WriteLoop) : Prop where
  pages : ∃ pages, state.realPage = start / flash.layout.writeSize + pages ∧
    state.writeLen = pages * flash.layout.writeSize
  sent : SendsInside flash start len state.commands

theorem WritesInside.step (freeRegion : List OobFreeRegion)
    (writer : PageWriter) (answers : NandAnswers) {opt : MtdOobWrite}
    (place : opt.mode = .place) (datbuf : Nat → UInt8)
    (inside : start + len ≤ flash.chipSize) {state : WriteLoop}
    (writes : WritesInside flash start len state)
    (goesOn : state.writeLen < len) :
    WritesInside flash start len
      (nandWriteStep flash freeRegion writer answers opt datbuf state) := by
  obtain ⟨pages, next, counted⟩ := writes.pages
  have begins : pages * flash.layout.writeSize < len := by
    rw [← counted]
    exact goesOn
  have counter := @NandFlash.add32_writeSize flash pages (by omega)
  constructor
  · refine ⟨pages + 1, ?_, ?_⟩
    · rw [nandWriteStep, next, Nat.add_assoc]
    · rw [nandWriteStep, place, counted]
      exact counter
  · have page : flash.PageInside start len
        (state.realPage &&& flash.pageNumMask) := by
      rw [next, flash.and_pageNumMask_add inside begins]
      exact flash.pageInside_add begins
    have programmed := (writes.sent.pushPage page .seqin (some 0)).pushNone
      .pageprog none
    exact programmed.wait answers

theorem nandWriteLoop_inside (freeRegion : List OobFreeRegion)
    (writer : PageWriter) (answers : NandAnswers) (cells : NandCells)
    (chip : NandChip) {opt : MtdOobWrite} (place : opt.mode = .place)
    (datbuf : Nat → UInt8) (inside : start + opt.len ≤ flash.chipSize)
    (rounds : Nat) :
    SendsInside flash start opt.len
      (nandWriteLoop flash freeRegion writer answers rounds cells chip start
        opt datbuf).commands := by
  unfold nandWriteLoop
  dsimp only
  apply WritesInside.sent
  apply Loop.invariant_of_rounds
  · intro state writes goesOn
    have less : state.writeLen < opt.len :=
      of_decide_eq_true (Bool.and_eq_true_iff.mp goesOn).1
    exact writes.step freeRegion writer answers place datbuf inside less
  · constructor
    · refine ⟨0, ?_, ?_⟩
      · rw [Nat.shiftRight_eq_div_pow, flash.writeSize_eq, Nat.add_zero]
      · rw [Nat.zero_mul]
    · exact nandCheckWp_inside answers

variable (freeRegion : List OobFreeRegion) (writer : PageWriter)
  (answers : NandAnswers) (cells : NandCells) (chip : NandChip)
  (retlen : Nat) (buff : Nat → UInt8)

theorem nandWrite_inside (inside : start + len ≤ flash.chipSize)
    (rounds : Nat) :
    SendsInside flash start len
      (nandWrite flash freeRegion writer answers rounds cells chip start len
        retlen buff).commands := by
  unfold nandWrite nandWriteByOpt
  by_cases rejected : flash.chipSize < add32 start len
  · rw [if_pos rejected]
    exact sendsInside_nil
  rw [if_neg rejected]
  by_cases empty : len = 0
  · rw [if_pos empty]
    exact sendsInside_nil
  rw [if_neg empty, if_neg empty]
  split
  · exact sendsInside_nil
  split
  · exact nandCheckWp_inside answers
  · exact nandWriteLoop_inside freeRegion writer answers cells chip rfl buff
      inside rounds

theorem NandFlash.unaligned_iff (flash : NandFlash) (start : Nat) :
    start &&& (flash.layout.writeSize - 1) ≠ 0 ↔
      start % flash.layout.writeSize ≠ 0 := by
  rw [flash.writeSize_eq, Nat.and_two_pow_sub_one_eq_mod]

/-- A write that passes its check with a length from the start of a page on
sends a command. -/
theorem nandWrite_sends (passes : ¬ flash.chipSize < add32 start len)
    (nonempty : len ≠ 0) (aligned : start % flash.layout.writeSize = 0) :
    (nandWrite flash freeRegion writer answers 0 cells chip start len retlen
      buff).commands ≠ [] := by
  have whole : ¬ start &&& (flash.layout.writeSize - 1) ≠ 0 := by
    rw [flash.unaligned_iff]
    exact not_not_intro aligned
  unfold nandWrite nandWriteByOpt
  rw [if_neg passes, if_neg nonempty, if_neg nonempty, if_neg whole]
  split
  · exact List.cons_ne_nil _ _
  · exact List.cons_ne_nil _ _

theorem nandWrite_rejects
    (rejected : flash.chipSize < add32 start len ∨
      len ≠ 0 ∧ start % flash.layout.writeSize ≠ 0) (rounds : Nat) :
    (nandWrite flash freeRegion writer answers rounds cells chip start len
      retlen buff).toNandOutcome = ⟨some .einval, []⟩ := by
  unfold nandWrite nandWriteByOpt
  by_cases checked : flash.chipSize < add32 start len
  · rw [if_pos checked]
  · obtain ⟨nonempty, unaligned⟩ := rejected.resolve_left checked
    rw [if_neg checked, if_neg nonempty, if_neg nonempty,
      if_pos ((flash.unaligned_iff start).mpr unaligned)]

/-- A write is checked except where the sum wraps around and a page begins. -/
theorem nandWrite_rangeChecked_iff (startWord : start < 2 ^ 32)
    (lenWord : len < 2 ^ 32) :
    RangeChecked flash start len
        (fun rounds => (nandWrite flash freeRegion writer answers rounds cells
          chip start len retlen buff).toNandOutcome) ↔
      ¬ WrapsInside flash start len ∨ start % flash.layout.writeSize ≠ 0 := by
  constructor
  · intro checked
    by_contra! neither
    obtain ⟨wraps, aligned⟩ := neither
    have passes := (flash.passes_iff startWord lenWord wraps.beyond).mpr wraps
    have sends := nandWrite_sends freeRegion writer answers cells chip retlen
      buff passes (wraps.len_ne_zero startWord) aligned
    exact sends ((checked 0).1 wraps.beyond).2
  · intro either
    apply rangeChecked_of_einval
    · intro beyond rounds
      apply nandWrite_rejects
      by_contra! neither
      obtain ⟨passes, whole⟩ := neither
      have wraps := (flash.passes_iff startWord lenWord beyond).mp
        (Nat.not_lt_of_le passes)
      have unaligned := either.resolve_left (not_not_intro wraps)
      exact unaligned (whole (wraps.len_ne_zero startWord))
    · intro inside rounds
      exact nandWrite_inside freeRegion writer answers cells chip retlen buff
        inside rounds

end Write

/-- `nPagesPerBlock`. -/
def NandDevice.pagesPerBlock (device : NandDevice) : Nat :=
  device.eraseSize >>> device.writeShift

theorem NandDevice.pagesPerBlock_mul (device : NandDevice) :
    device.pagesPerBlock * device.layout.writeSize = device.eraseSize := by
  have pages := device.eightPages
  have order : device.writeShift ≤ device.eraseShift := by omega
  rw [pagesPerBlock, eraseSize, Nat.shiftRight_eq_div_pow, device.writeSize_eq]
  exact Nat.div_mul_cancel (pow_dvd_pow 2 order)

theorem NandDevice.eight_le_pagesPerBlock (device : NandDevice) :
    8 ≤ device.pagesPerBlock := by
  have pages := device.eightPages
  have order : device.writeShift ≤ device.eraseShift := by omega
  have shift : 3 ≤ device.eraseShift - device.writeShift := by omega
  rw [pagesPerBlock, eraseSize, Nat.shiftRight_eq_div_pow,
    Nat.pow_div order Nat.zero_lt_two]
  exact Nat.pow_le_pow_right Nat.zero_lt_two shift

section Erase

variable {device : NandDevice} {opt : EraseInfo}

/-- After some rounds of an erase: so many blocks are erased, and the commands
are those of the range. -/
structure ErasesInside (device : NandDevice) (opt : EraseInfo)
    (state : EraseLoop) : Prop where
  blocks : ∃ blocks, state.pageIndex =
      opt.addr / device.layout.writeSize + blocks * device.pagesPerBlock ∧
    blocks * device.eraseSize ≤ opt.len ∧
    state.eraseCount = opt.len - blocks * device.eraseSize
  sent : SendsInside device.toNandFlash opt.addr opt.len state.commands

theorem NandDevice.page_begins (device : NandDevice) {len blocks page : Nat}
    (whole : len % device.eraseSize = 0)
    (left : blocks * device.eraseSize < len)
    (inside : page < device.pagesPerBlock) :
    (blocks * device.pagesPerBlock + page) * device.layout.writeSize <
      len := by
  have room : blocks * device.eraseSize + device.eraseSize ≤ len :=
    add_unit_le (Nat.mul_mod_left _ _) whole left
  have before : blocks * device.pagesPerBlock * device.layout.writeSize =
      blocks * device.eraseSize := by
    rw [Nat.mul_assoc, device.pagesPerBlock_mul]
  have within : page * device.layout.writeSize < device.eraseSize := by
    rw [← device.pagesPerBlock_mul]
    exact Nat.mul_lt_mul_of_pos_right inside device.writeSize_pos
  rw [Nat.add_mul, before]
  omega

theorem nandBlkBad_inside {answers : NandAnswers} {offset len ofs : Nat}
    {commands : List NandCommand}
    (before : SendsInside device.toNandFlash offset len commands)
    (page : device.PageInside offset len
      (ofs >>> device.writeShift &&& device.pageNumMask)) :
    SendsInside device.toNandFlash offset len
      (nandBlkBad answers device ofs commands).2 := by
  unfold nandBlkBad
  dsimp only
  split
  · exact before.pushPage page _ _
  · exact before.pushPage page _ _

theorem nandCheckBlkBad_inside {answers : NandAnswers} {offset len ofs : Nat}
    {commands : List NandCommand}
    (before : SendsInside device.toNandFlash offset len commands)
    (page : device.PageInside offset len
      (ofs >>> device.writeShift &&& device.pageNumMask)) :
    SendsInside device.toNandFlash offset len
      (nandCheckBlkBad answers device ofs commands).2 := by
  unfold nandCheckBlkBad
  split
  · exact nandBlkBad_inside before page
  · exact before

theorem eraseBlock_inside {offset len page : Nat}
    {commands : List NandCommand}
    (before : SendsInside device.toNandFlash offset len commands)
    (pages : ∀ i < device.pagesPerBlock,
      device.PageInside offset len (page + i)) :
    SendsInside device.toNandFlash offset len
      (eraseBlock device page commands) := by
  have eight := device.eight_le_pagesPerBlock
  have first (i : Nat) (few : i < 4) :
      device.PageInside offset len (page + i) :=
    pages i (by omega)
  unfold eraseBlock
  apply SendsInside.pushNone
  apply sendsInside_append.mpr
  refine ⟨before, ?_⟩
  intro command member other same
  obtain ⟨sent, listed, rfl⟩ := List.mem_map.mp member
  obtain rfl := Option.some.inj same
  split at listed
  · simp only [List.mem_cons, List.not_mem_nil, or_false] at listed
    rcases listed with rfl | rfl | rfl | rfl
    · exact first 0 (by decide)
    · exact first 1 (by decide)
    · exact first 2 (by decide)
    · exact first 3 (by decide)
  · rw [List.mem_singleton.mp listed]
    exact first 0 (by decide)

theorem ErasesInside.step (answers : NandAnswers)
    (inside : opt.addr + opt.len ≤ device.chipSize)
    (whole : opt.len % device.eraseSize = 0) {state : EraseLoop}
    (erases : ErasesInside device opt state) (goesOn : state.eraseCount ≠ 0) :
    ErasesInside device opt (nandEraseStep device answers opt state) := by
  obtain ⟨blocks, next, bounded, counted⟩ := erases.blocks
  have left : blocks * device.eraseSize < opt.len := by omega
  have page (i : Nat) (few : i < device.pagesPerBlock) :
      device.PageInside opt.addr opt.len (state.pageIndex + i) := by
    rw [next, Nat.add_assoc]
    exact device.pageInside_add (device.page_begins whole left few)
  have eight := device.eight_le_pagesPerBlock
  have begins : blocks * device.pagesPerBlock * device.layout.writeSize <
      opt.len :=
    device.page_begins whole left (by omega : 0 < device.pagesPerBlock)
  have masked : state.pageIndex &&& device.pageNumMask = state.pageIndex := by
    rw [next]
    exact device.and_pageNumMask_add inside begins
  have first : device.PageInside opt.addr opt.len state.pageIndex :=
    page 0 (by omega)
  have marked : device.PageInside opt.addr opt.len
      (state.pageIndex <<< device.writeShift >>> device.writeShift &&&
        device.pageNumMask) := by
    rw [Nat.shiftLeft_shiftRight, masked]
    exact first
  have room : blocks * device.eraseSize + device.eraseSize ≤ opt.len :=
    add_unit_le (Nat.mul_mod_left _ _) whole left
  have checked : SendsInside device.toNandFlash opt.addr opt.len
      (checkUnlessAllowed device answers opt
        (state.pageIndex <<< device.writeShift) state.commands).2 := by
    unfold checkUnlessAllowed
    split
    · exact erases.sent
    · exact nandCheckBlkBad_inside erases.sent marked
  have erased := (eraseBlock_inside checked page).wait answers
  unfold nandEraseStep
  rw [masked]
  dsimp only
  split
  · exact ⟨erases.blocks, checked⟩
  split
  · exact ⟨erases.blocks, erased⟩
  constructor
  · refine ⟨blocks + 1, ?_, ?_, ?_⟩
    · have advanced : device.eraseSize >>> device.writeShift =
          device.pagesPerBlock := rfl
      rw [next, advanced, Nat.add_one_mul, Nat.add_assoc]
    · rw [Nat.add_one_mul]
      exact room
    · have word : opt.len < 2 ^ 32 :=
        Nat.lt_of_le_of_lt (Nat.le_of_add_left_le inside) device.small
      have below : state.eraseCount < 2 ^ 32 := by omega
      have enough : device.eraseSize ≤ state.eraseCount := by omega
      rw [sub32_of_le below enough, counted, Nat.add_one_mul, Nat.sub_sub]
  · split
    · have marks := (erased.pushPage first .seqin
        (some (device.layout.writeSize + 8))).pushNone .pageprog none
      exact marks.wait answers
    · exact erased

theorem nandEraseLoop_inside (answers : NandAnswers)
    (inside : opt.addr + opt.len ≤ device.chipSize)
    (whole : opt.len % device.eraseSize = 0) (rounds : Nat) :
    SendsInside device.toNandFlash opt.addr opt.len
      (nandEraseLoop device answers rounds opt).commands := by
  have word : opt.len < 2 ^ 32 :=
    Nat.lt_of_le_of_lt (Nat.le_of_add_left_le inside) device.small
  unfold nandEraseLoop
  apply ErasesInside.sent
  apply Loop.invariant_of_rounds
  · intro state erases goesOn
    have left : state.eraseCount ≠ 0 :=
      of_decide_eq_true (Bool.and_eq_true_iff.mp goesOn).1
    exact erases.step answers inside whole left
  · constructor
    · refine ⟨0, ?_, ?_, ?_⟩
      · rw [Nat.shiftRight_eq_div_pow, device.writeSize_eq, Nat.zero_mul,
          Nat.add_zero]
      · rw [Nat.zero_mul]
        exact Nat.zero_le _
      · rw [Nat.mod_eq_of_lt word, Nat.zero_mul, Nat.sub_zero]
    · exact nandCheckWp_inside answers

/-- An erase with 32-bit numbers is checked: the sum of the fields does not
wrap around. -/
theorem nandErase_rangeChecked (answers : NandAnswers) (opt : EraseInfo)
    (addrWord : opt.addr < 2 ^ 32) (lenWord : opt.len < 2 ^ 32) :
    RangeChecked device.toNandFlash opt.addr opt.len
      (fun rounds => (nandErase device answers rounds opt).toNandOutcome) := by
  have sum : (opt.len + opt.addr) % 2 ^ 64 = opt.addr + opt.len := by omega
  apply rangeChecked_of_einval
  · intro beyond rounds
    unfold nandErase
    rw [sum, if_pos beyond]
    split
    · rfl
    split
    · rfl
    · rfl
  · intro inside rounds
    unfold nandErase
    rw [sum]
    split
    · exact sendsInside_nil
    split
    · exact sendsInside_nil
    rename_i aligned
    rw [if_neg (Nat.not_lt_of_le inside)]
    split
    · exact nandCheckWp_inside answers
    · have whole : opt.len % device.eraseSize = 0 := by
        rw [NandDevice.eraseSize, ← Nat.and_two_pow_sub_one_eq_mod]
        exact not_not.mp aligned
      exact nandEraseLoop_inside answers inside whole rounds

end Erase

/-- A read is checked except where the 32-bit sum wraps around to one in the
chip, a write except where it does and the offset begins a page, and an erase
always. -/
theorem rangeChecked_iff (device : NandDevice)
    (reader : PageReader device.layout) (freeRegion : List OobFreeRegion)
    (writer : PageWriter) (answers : NandAnswers) (cells : NandCells)
    (chip : NandChip) (retlen : Nat) (memory : Nat → UInt8)
    (allowBb jffs2 : Bool) (offset len : UInt32) :
    (RangeChecked device.toNandFlash offset.toNat len.toNat
        (fun rounds => nandReadLogged device.toNandFlash reader rounds chip
          offset.toNat len.toNat memory) ↔
      ¬ WrapsInside device.toNandFlash offset.toNat len.toNat) ∧
    (RangeChecked device.toNandFlash offset.toNat len.toNat
        (fun rounds => (nandWrite device.toNandFlash freeRegion writer answers
          rounds cells chip offset.toNat len.toNat retlen
          memory).toNandOutcome) ↔
      ¬ WrapsInside device.toNandFlash offset.toNat len.toNat ∨
        offset.toNat % device.layout.writeSize ≠ 0) ∧
    RangeChecked device.toNandFlash offset.toNat len.toNat
      (fun rounds => (nandErase device answers rounds
        ⟨offset.toNat, len.toNat, allowBb, jffs2⟩).toNandOutcome) := by
  have offsetWord := offset.toNat_lt
  have lenWord := len.toNat_lt
  refine ⟨?_, ?_, ?_⟩
  · exact nandReadLogged_rangeChecked_iff reader chip memory offsetWord lenWord
  · exact nandWrite_rangeChecked_iff freeRegion writer answers cells chip
      retlen memory offsetWord lenWord
  · exact nandErase_rangeChecked answers
      ⟨offset.toNat, len.toNat, allowBb, jffs2⟩ offsetWord lenWord

/-- `ecc_pos` of `g_oob16_layout`. -/
def oob16EccPos (i : Nat) : Nat :=
  [0, 1, 2, 3, 6, 7].getD i 0

theorem oob16EccPos_inside :
    ∀ i < softEccCodeNum * eccSteps 512, oob16EccPos i < 16 := by
  decide

theorem oob16EccPos_once :
    ∀ i < softEccCodeNum * eccSteps 512,
      ∀ j < softEccCodeNum * eccSteps 512,
        oob16EccPos i = oob16EccPos j → i = j := by
  decide

theorem small16MB_small : 2 ^ (9 + 15) < 2 ^ 32 := by
  decide

theorem small16MB_eightPages : 9 + 3 ≤ 14 := by
  decide

theorem small16MB_wholeBlocks : 14 ≤ 9 + 15 := by
  decide

theorem small16MB_fewSpare : 32 * 16 ≤ 512 := by
  decide

theorem small16MB_whole : 512 % softEccDataLen = 0 :=
  rfl

theorem small16MB_writeSize : 512 = 2 ^ 9 :=
  rfl

/-- "NAND 16MB 3.3V 8-bit", erased. -/
def small16MB : NandDevice where
  layout := ⟨512, 16, oob16EccPos, small16MB_whole, oob16EccPos_inside,
    oob16EccPos_once⟩
  writeShift := 9
  pageShift := 15
  writeSize_eq := small16MB_writeSize
  small := small16MB_small
  content := fun _ => 0xff
  spare := fun _ => 0xff
  eraseShift := 14
  eightPages := small16MB_eightPages
  wholeBlocks := small16MB_wholeBlocks
  fewSpare := small16MB_fewSpare
  buswidth16 := false
  fourPageArray := false
  bbt := none

/-- 512 bytes from 512 bytes below the end of the 32-bit numbers on: the sum is
zero, and the last page of the chip is read. -/
theorem nandReadLogged_wraps :
    (nandReadLogged small16MB.toNandFlash (rawReader small16MB.layout) 1
        blankChip 0xfffffe00 0x200 (fun _ => 0)).commands =
      [⟨.read0, some 0, some 0x7fff⟩] ∧
    ¬ RangeChecked small16MB.toNandFlash 0xfffffe00 0x200
      (fun rounds => nandReadLogged small16MB.toNandFlash
        (rawReader small16MB.layout) rounds blankChip 0xfffffe00 0x200
        (fun _ => 0)) := by
  constructor
  · decide
  · intro checked
    have beyond : small16MB.chipSize < 0xfffffe00 + 0x200 := by decide
    have none := ((checked 1).1 beyond).2
    exact absurd none (by decide)

end Witos.Flash
