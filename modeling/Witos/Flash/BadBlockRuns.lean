import Witos.Flash.BadBlocks

/-!
# Runs over bad blocks

`nand_block_mark_bad`, `nand_erase` without `EDF_ALLOWBB` and the scan of
`FLASH_IOC_SCANBB`, in any order behind the first scan.  The table and the
marks on the chip stay those of the same blocks, and these are never erased.
-/

namespace Witos.Flash

open Library Library.BitFields

/-- The cells with the rows of `ERASE1` commands that wait for an `ERASE2`, and
that of a `SEQIN` that waits for a `PAGEPROG`. -/
structure CellEffect where
  erasing : List Nat
  marking : Option Nat
  cells : NandCells

/-- The size of the spare bytes of a block. -/
def NandDevice.spareOfBlock (device : NandDevice) : Nat :=
  device.pagesPerBlock * device.layout.oobSize

/-- The block of a page is erased. -/
def eraseCells (device : NandDevice) (cells : NandCells) (page : Nat) :
    NandCells :=
  let block := page / device.pagesPerBlock
  { content := fun i =>
      if i / device.eraseSize = block then 0xff else cells.content i
    spare := fun i =>
      if i / device.spareOfBlock = block then 0xff else cells.spare i }

/-- The bytes of `struct jffs2_clean_mark`. -/
def cleanMark (oobSize : Nat) (i : Nat) : UInt8 :=
  [0x85, 0x19, 0x03, 0x20, if oobSize = 16 then 8 else 0, 0, 0, 0].getD i 0

/-- What a command of `nand_erase` does.  The only bytes that it programs are
the eight of a clean mark behind the first eight spare bytes. -/
def applyCommand (device : NandDevice) (effect : CellEffect)
    (command : NandCommand) : CellEffect :=
  match command.cmmd, command.row with
  | .erase1, some page => { effect with erasing := effect.erasing ++ [page] }
  | .erase2, _ =>
      { effect with
        erasing := []
        cells := effect.erasing.foldl (eraseCells device) effect.cells }
  | .seqin, some page => { effect with marking := some page }
  | .pageprog, _ =>
      match effect.marking with
      | none => effect
      | some page =>
          { effect with
            marking := none
            cells := { effect.cells with
              spare :=
                programmedSpare page 8 (min 8 (device.layout.oobSize - 8))
                device.layout.oobSize (cleanMark device.layout.oobSize)
                effect.cells.spare } }
  | _, _ => effect

/-- The cells after commands. -/
def applyCommands (device : NandDevice) (commands : List NandCommand)
    (cells : NandCells) : CellEffect :=
  commands.foldl (applyCommand device) ⟨[], none, cells⟩

/-- The chip, `nand->oob_buf`, the buffer of a scan, and `nand->bbt`. -/
structure BadBlockState where
  cells : NandCells
  oobBuf : Nat → UInt8
  dataBuff : Nat → UInt8
  bbt : Nat → UInt8

/-- The chip with its table, as the driver sees it. -/
def BadBlockState.device (state : BadBlockState) (device : NandDevice) :
    NandDevice :=
  { device.withCells state.cells with bbt := some state.bbt }

/-- The calls that change the state. -/
inductive BadBlockOp
  | blockMarkBad (ofs : Nat)
  | erase (opt : EraseInfo) (rounds : Nat)
  | scanBbt

section Operations

variable (device : NandDevice) (freeRegion : List OobFreeRegion)
  (freeOobSum : Nat) (canAutoIncr : Bool) (answers : NandAnswers)

/-- `nand_mark_blk_bad` without `NAND_USE_FLASH_BBT`. -/
def nandMarkBlkBad (ofs : Nat) (state : BadBlockState) :
    SpareReturn × BadBlockState :=
  let block := ofs >>> device.eraseShift
  let bbt := orByte state.bbt (block >>> 2) ((block &&& 0x03) <<< 1) 0x01
  let write := nandDoWriteOob device freeRegion freeOobSum answers state.cells
    state.oobBuf (add32 ofs device.layout.oobSize)
    ⟨.place, 2, clearLow 2 device.badBlkOobPos⟩ fun _ => 0
  (write.returned,
    { state with cells := write.cells, oobBuf := write.oobBuf, bbt := bbt })

/-- `nand_block_mark_bad`. -/
def nandBlockMarkBad (ofs : Nat) (state : BadBlockState) :
    SpareReturn × BadBlockState :=
  if device.chipSize < ofs then (.einval, state)
  else if nandIsBadBbt device state.bbt ofs then (.zero, state)
  else nandMarkBlkBad device freeRegion freeOobSum answers ofs state

/-- `nand_scan_bbt`, which begins with a table of zeros. -/
def nandScanBbt (state : BadBlockState) : BadBlockState :=
  let created := createBbt (device.withCells state.cells) freeRegion
    freeOobSum canAutoIncr device.badBlkPatt (fun _ => 0) state.oobBuf
    state.dataBuff
  { state with
    bbt := created.bbt
    oobBuf := created.oobBuf
    dataBuff := created.memory }

def BadBlockState.step (state : BadBlockState) : BadBlockOp → BadBlockState
  | .blockMarkBad ofs =>
      (nandBlockMarkBad device freeRegion freeOobSum answers ofs state).2
  | .erase opt rounds =>
      let result := nandErase (state.device device) answers rounds opt
      { state with
        cells := (applyCommands device result.commands state.cells).cells }
  | .scanBbt => nandScanBbt device freeRegion freeOobSum canAutoIncr state

/-- One call after the other. -/
def BadBlockState.run (state : BadBlockState) (ops : List BadBlockOp) :
    BadBlockState :=
  ops.foldl (fun state op =>
    state.step device freeRegion freeOobSum canAutoIncr answers op) state

end Operations

/-- A block with the same bytes. -/
structure SameBlock (device : NandDevice) (left right : NandCells)
    (block : Nat) : Prop where
  content : ∀ i, i / device.eraseSize = block → left.content i = right.content i
  spare : ∀ i, i / device.spareOfBlock = block → left.spare i = right.spare i

theorem SameBlock.refl (device : NandDevice) (cells : NandCells)
    (block : Nat) : SameBlock device cells cells block :=
  ⟨fun _ _ => rfl, fun _ _ => rfl⟩

theorem SameBlock.trans {device : NandDevice} {first second third : NandCells}
    {block : Nat} (left : SameBlock device first second block)
    (right : SameBlock device second third block) :
    SameBlock device first third block :=
  ⟨fun i within => (left.content i within).trans (right.content i within),
    fun i within => (left.spare i within).trans (right.spare i within)⟩

section Marks

variable {device : NandDevice}

theorem badBlkPatt_small (device : NandDevice) :
    device.badBlkPatt.offs + device.badBlkPatt.len ≤ 6 := by
  unfold NandDevice.badBlkPatt
  split <;> decide

theorem badBlkPatt_pattern (device : NandDevice) (i : Nat) :
    device.badBlkPatt.pattern i = 0xff := by
  unfold NandDevice.badBlkPatt
  split <;> rfl

theorem pageOfBlock_place (block : Nat) {page i : Nat}
    (inBlock : page < device.pagesPerBlock)
    (small : i < device.layout.oobSize) :
    ((block * device.pagesPerBlock + page) * device.layout.oobSize + i) /
      device.spareOfBlock = block := by
  have within : page * device.layout.oobSize + i < device.spareOfBlock := by
    have next : (page + 1) * device.layout.oobSize ≤
        device.pagesPerBlock * device.layout.oobSize :=
      Nat.mul_le_mul_right _ inBlock
    rw [Nat.succ_mul] at next
    unfold NandDevice.spareOfBlock
    omega
  have place : (block * device.pagesPerBlock + page) * device.layout.oobSize +
      i = device.spareOfBlock * block + (page * device.layout.oobSize + i) := by
    unfold NandDevice.spareOfBlock
    ring
  rw [place, Nat.mul_add_div (by omega), Nat.div_eq_of_lt within, Nat.add_zero]

theorem spare_place (room : 8 ≤ device.layout.oobSize) (block : Nat)
    {page i : Nat} (inBlock : page < device.pagesPerBlock) (small : i < 6) :
    ((block * device.pagesPerBlock + page) * device.layout.oobSize + i) /
      device.spareOfBlock = block :=
  pageOfBlock_place block inBlock (by omega)

theorem SameBlock.hasMark (room : 8 ≤ device.layout.oobSize)
    {left right : NandCells} {block : Nat}
    (same : SameBlock device left right block) :
    HasMark device device.badBlkPatt left.spare block ↔
      HasMark device device.badBlkPatt right.spare block := by
  have small := badBlkPatt_small device
  have fewer := device.scanPages_le device.badBlkPatt
  unfold HasMark
  constructor
  · rintro ⟨page, scanned, i, within, other⟩
    refine ⟨page, scanned, i, within, ?_⟩
    rw [← same.spare _ (spare_place room block (by omega) (by omega))]
    exact other
  · rintro ⟨page, scanned, i, within, other⟩
    refine ⟨page, scanned, i, within, ?_⟩
    rw [same.spare _ (spare_place room block (by omega) (by omega))]
    exact other

end Marks

section Erases

variable {device : NandDevice}

theorem eraseCells_other (cells : NandCells) {page block : Nat}
    (other : block ≠ page / device.pagesPerBlock) :
    SameBlock device cells (eraseCells device cells page) block := by
  unfold eraseCells
  constructor
  · intro i within
    dsimp only
    rw [within, if_neg other]
  · intro i within
    dsimp only
    rw [within, if_neg other]

theorem eraseCells_again (cells : NandCells) {page again : Nat}
    (same : again / device.pagesPerBlock = page / device.pagesPerBlock) :
    eraseCells device (eraseCells device cells page) again =
      eraseCells device cells page := by
  unfold eraseCells
  dsimp only
  rw [same]
  congr 1
  · funext i
    split <;> rfl
  · funext i
    split <;> rfl

/-- The commands of `nfc->erase_block` erase the block of the page. -/
theorem applyCommands_eraseBlock {block : Nat} {commands : List NandCommand}
    {effect : CellEffect} {cells : NandCells}
    (before : applyCommands device commands cells = effect)
    (idle : effect.erasing = []) :
    applyCommands device
        (eraseBlock device (block * device.pagesPerBlock) commands) cells =
      { effect with
        cells := eraseCells device effect.cells
          (block * device.pagesPerBlock) } := by
  have eight := device.eight_le_pagesPerBlock
  have inBlock : ∀ page, page < device.pagesPerBlock →
      (block * device.pagesPerBlock + page) / device.pagesPerBlock =
        block * device.pagesPerBlock / device.pagesPerBlock := by
    intro page within
    rw [Nat.mul_comm, Nat.mul_add_div (by omega), Nat.div_eq_of_lt within,
      Nat.add_zero, Nat.mul_div_cancel_left _ (by omega)]
  have second := inBlock 1 (by omega)
  have third := inBlock 2 (by omega)
  have fourth := inBlock 3 (by omega)
  unfold applyCommands at before
  unfold applyCommands eraseBlock
  rw [List.foldl_append, List.foldl_append, before]
  obtain ⟨erasing, marking, held⟩ := effect
  dsimp only at idle
  subst idle
  split
  · simp only [List.map_cons, List.map_nil, List.foldl_cons, List.foldl_nil,
      applyCommand, List.nil_append, List.cons_append]
    rw [eraseCells_again _ second, eraseCells_again _ third,
      eraseCells_again _ fourth]
  · rfl

theorem applyCommands_status (commands : List NandCommand)
    (cells : NandCells) :
    applyCommands device (commands ++ [⟨.status, none, none⟩]) cells =
      applyCommands device commands cells := by
  unfold applyCommands
  rw [List.foldl_append]
  rfl

theorem hasMark_cleanMark (room : 8 ≤ device.layout.oobSize)
    (cells : NandCells) (page block : Nat) :
    HasMark device device.badBlkPatt
        (programmedSpare page 8 (min 8 (device.layout.oobSize - 8))
          device.layout.oobSize (cleanMark device.layout.oobSize)
          cells.spare) block ↔
      HasMark device device.badBlkPatt cells.spare block := by
  have small := badBlkPatt_small device
  have untouched : ∀ row i, i < 6 →
      programmedSpare page 8 (min 8 (device.layout.oobSize - 8))
          device.layout.oobSize (cleanMark device.layout.oobSize) cells.spare
          (row * device.layout.oobSize + i) =
        cells.spare (row * device.layout.oobSize + i) := by
    intro row i within
    unfold programmedSpare
    rw [if_neg]
    rintro ⟨begun, ends⟩
    have same : row = page := by
      have low : page * device.layout.oobSize <
          (row + 1) * device.layout.oobSize := by
        rw [Nat.succ_mul]
        omega
      have high : row * device.layout.oobSize <
          (page + 1) * device.layout.oobSize := by
        rw [Nat.succ_mul]
        omega
      have first := Nat.lt_of_mul_lt_mul_right low
      have last := Nat.lt_of_mul_lt_mul_right high
      omega
    subst same
    omega
  unfold HasMark
  constructor
  · rintro ⟨row, scanned, i, inMark, other⟩
    rw [untouched _ _ (by omega)] at other
    exact ⟨row, scanned, i, inMark, other⟩
  · rintro ⟨row, scanned, i, inMark, other⟩
    refine ⟨row, scanned, i, inMark, ?_⟩
    rw [untouched _ _ (by omega)]
    exact other

/-- Cells where the blocks that are bad in the table are as before, and the
marks are in the same blocks. -/
structure KeepsBad (device : NandDevice) (bbt : Nat → UInt8)
    (before after : NandCells) : Prop where
  bad : ∀ block, IsBadEntry (bbtEntry bbt block) →
    SameBlock device before after block
  marks : ∀ block < device.blocks,
    HasMark device device.badBlkPatt after.spare block ↔
      HasMark device device.badBlkPatt before.spare block

/-- An erase that keeps the bad blocks, after some rounds. -/
structure ErasesGood (device : NandDevice) (opt : EraseInfo)
    (bbt : Nat → UInt8) (before : NandCells) (state : EraseLoop) : Prop where
  inside : ErasesInside device opt state
  idle : (applyCommands device state.commands before).erasing = []
  keeps : KeepsBad device bbt before
    (applyCommands device state.commands before).cells

theorem ErasesInside.block {opt : EraseInfo} {state : EraseLoop}
    (erases : ErasesInside device opt state)
    (aligned : opt.addr % device.eraseSize = 0)
    (inside : opt.addr + opt.len ≤ device.chipSize)
    (goesOn : state.eraseCount ≠ 0) :
    ∃ block < device.blocks,
      state.pageIndex = block * device.pagesPerBlock := by
  obtain ⟨done, isPage, -, isCount⟩ := erases.blocks
  have size : 0 < device.eraseSize := Nat.two_pow_pos _
  have first : opt.addr / device.layout.writeSize =
      opt.addr / device.eraseSize * device.pagesPerBlock := by
    have whole : opt.addr = opt.addr / device.eraseSize *
        device.pagesPerBlock * device.layout.writeSize := by
      rw [Nat.mul_assoc, device.pagesPerBlock_mul,
        Nat.div_mul_cancel (Nat.dvd_of_mod_eq_zero aligned)]
    rw [Nat.div_eq_of_eq_mul_left device.writeSize_pos whole]
  refine ⟨opt.addr / device.eraseSize + done, ?_, ?_⟩
  · apply Nat.lt_of_mul_lt_mul_right (a := device.eraseSize)
    rw [device.blocks_mul, Nat.add_mul,
      Nat.div_mul_cancel (Nat.dvd_of_mod_eq_zero aligned)]
    omega
  · rw [isPage, first, Nat.add_mul]

theorem NandDevice.block_lt_page (device : NandDevice) {block : Nat}
    (inside : block < device.blocks) :
    block * device.pagesPerBlock < device.pages := by
  have eight := device.eight_le_pagesPerBlock
  rw [← device.pages_eq]
  exact Nat.mul_lt_mul_of_pos_right inside (by omega)

theorem hasMark_eraseCells (room : 8 ≤ device.layout.oobSize)
    (cells : NandCells) (block : Nat) :
    ¬HasMark device device.badBlkPatt
      (eraseCells device cells (block * device.pagesPerBlock)).spare block := by
  have small := badBlkPatt_small device
  have fewer := device.scanPages_le device.badBlkPatt
  have eight := device.eight_le_pagesPerBlock
  have erased : block * device.pagesPerBlock / device.pagesPerBlock = block :=
    Nat.mul_div_cancel _ (by omega)
  rintro ⟨page, scanned, i, inMark, other⟩
  apply other
  unfold eraseCells
  dsimp only
  rw [badBlkPatt_pattern, erased, if_pos]
  exact spare_place room block (by omega) (by omega)

theorem KeepsBad.erase (room : 8 ≤ device.layout.oobSize)
    {bbt : Nat → UInt8} {before after : NandCells}
    (keeps : KeepsBad device bbt before after) {block : Nat}
    (notBad : ¬IsBadEntry (bbtEntry bbt block))
    (notMarked : ¬HasMark device device.badBlkPatt before.spare block) :
    KeepsBad device bbt before
      (eraseCells device after (block * device.pagesPerBlock)) := by
  have eight := device.eight_le_pagesPerBlock
  have erased : block * device.pagesPerBlock / device.pagesPerBlock = block :=
    Nat.mul_div_cancel _ (by omega)
  constructor
  · intro other isBad
    have apart : other ≠ block := by
      rintro rfl
      exact notBad isBad
    apply (keeps.bad other isBad).trans
    apply eraseCells_other
    rw [erased]
    exact apart
  · intro other inChip
    by_cases same : other = block
    · subst same
      exact iff_of_false (hasMark_eraseCells room after other) notMarked
    · rw [← keeps.marks other inChip]
      apply Iff.symm
      apply SameBlock.hasMark room
      apply eraseCells_other
      rw [erased]
      exact same

theorem sameBlock_programmed (cells : NandCells)
    {block page offs len other : Nat} (inBlock : page < device.pagesPerBlock)
    (inPage : offs + len ≤ device.layout.oobSize) (bytes : Nat → UInt8)
    (apart : other ≠ block) :
    SameBlock device cells { cells with
      spare := programmedSpare (block * device.pagesPerBlock + page) offs len
        device.layout.oobSize bytes cells.spare } other := by
  constructor
  · intro i _
    rfl
  · intro i within
    dsimp only
    unfold programmedSpare
    rw [if_neg]
    rintro ⟨begun, ends⟩
    apply apart
    generalize row : (block * device.pagesPerBlock + page) *
      device.layout.oobSize = start at begun ends
    have place : i = (block * device.pagesPerBlock + page) *
        device.layout.oobSize + (i - start) := by
      rw [row]
      omega
    rw [← within, place]
    apply pageOfBlock_place block inBlock
    omega

theorem KeepsBad.cleanMark (room : 8 ≤ device.layout.oobSize)
    {bbt : Nat → UInt8} {before after : NandCells}
    (keeps : KeepsBad device bbt before after) {block : Nat}
    (notBad : ¬IsBadEntry (bbtEntry bbt block)) :
    KeepsBad device bbt before { after with
      spare := programmedSpare (block * device.pagesPerBlock) 8
        (min 8 (device.layout.oobSize - 8)) device.layout.oobSize
        (Flash.cleanMark device.layout.oobSize) after.spare } := by
  have eight := device.eight_le_pagesPerBlock
  constructor
  · intro other isBad
    have apart : other ≠ block := by
      rintro rfl
      exact notBad isBad
    apply (keeps.bad other isBad).trans
    have first : 0 < device.pagesPerBlock := by omega
    exact sameBlock_programmed after first (by omega) _ apart
  · intro other inChip
    rw [← keeps.marks other inChip]
    exact hasMark_cleanMark room after _ other

/-- The commands of a round: none for a bad block; for a good one those that
erase it, with those of a clean mark perhaps. -/
theorem nandEraseStep_commands (answers : NandAnswers) {opt : EraseInfo}
    {bbt : Nat → UInt8} (hasTable : device.bbt = some bbt)
    (refused : opt.allowBb = false) {state : EraseLoop} {block : Nat}
    (inChip : block < device.blocks)
    (isPage : state.pageIndex = block * device.pagesPerBlock) :
    (nandEraseStep device answers opt state).commands = state.commands ∨
      ¬IsBadEntry (bbtEntry bbt block) ∧ ∃ commands, commands =
          eraseBlock device (block * device.pagesPerBlock) state.commands ++
            [⟨.status, none, none⟩] ∧
        ((nandEraseStep device answers opt state).commands = commands ∨
          (nandEraseStep device answers opt state).commands = commands ++
            [⟨.seqin, some (device.layout.writeSize + 8),
              some (block * device.pagesPerBlock)⟩] ++
            [⟨.pageprog, none, none⟩] ++ [⟨.status, none, none⟩]) := by
  have masked : state.pageIndex &&& device.pageNumMask =
      block * device.pagesPerBlock := by
    rw [isPage]
    exact device.page_and_mask (device.block_lt_page inChip)
  have size : 0 < device.eraseSize := Nat.two_pow_pos _
  have address : state.pageIndex <<< device.writeShift / device.eraseSize =
      block := by
    rw [isPage, Nat.shiftLeft_eq, ← device.writeSize_eq, Nat.mul_assoc,
      device.pagesPerBlock_mul, Nat.mul_div_cancel _ size]
  have checked : checkUnlessAllowed device answers opt
      (state.pageIndex <<< device.writeShift) state.commands =
      (nandIsBadBbt device bbt (state.pageIndex <<< device.writeShift),
        state.commands) := by
    unfold checkUnlessAllowed nandCheckBlkBad
    rw [refused, hasTable]
    rfl
  have isBad := nandIsBadBbt_iff device bbt
    (state.pageIndex <<< device.writeShift)
  rw [address] at isBad
  unfold nandEraseStep
  dsimp only
  rw [checked, masked]
  split
  · exact Or.inl rfl
  · rename_i notBad
    refine Or.inr ⟨fun entry => notBad (isBad.mpr entry), _, rfl, ?_⟩
    split
    · exact Or.inl rfl
    · dsimp only
      split
      · rw [isPage]
        exact Or.inr rfl
      · exact Or.inl rfl

/-- The commands of a clean mark, behind others. -/
theorem applyCommands_cleanMark (commands : List NandCommand)
    (before : NandCells) (page : Nat) :
    applyCommands device (commands ++
        [⟨.seqin, some (device.layout.writeSize + 8), some page⟩] ++
        [⟨.pageprog, none, none⟩] ++ [⟨.status, none, none⟩]) before =
      { erasing := (applyCommands device commands before).erasing
        marking := none
        cells := { (applyCommands device commands before).cells with
          spare := programmedSpare page 8
            (min 8 (device.layout.oobSize - 8)) device.layout.oobSize
            (cleanMark device.layout.oobSize)
            (applyCommands device commands before).cells.spare } } := by
  rw [applyCommands_status]
  unfold applyCommands
  rw [List.foldl_append, List.foldl_append]
  rfl

theorem ErasesGood.step (room : 8 ≤ device.layout.oobSize)
    (answers : NandAnswers) {opt : EraseInfo} {bbt : Nat → UInt8}
    (hasTable : device.bbt = some bbt) {before : NandCells}
    (consistent : ∀ block < device.blocks,
      IsBadEntry (bbtEntry bbt block) ↔
        HasMark device device.badBlkPatt before.spare block)
    (refused : opt.allowBb = false)
    (aligned : opt.addr % device.eraseSize = 0)
    (whole : opt.len % device.eraseSize = 0)
    (inside : opt.addr + opt.len ≤ device.chipSize) {state : EraseLoop}
    (erases : ErasesGood device opt bbt before state)
    (goesOn : state.eraseCount ≠ 0) :
    ErasesGood device opt bbt before
      (nandEraseStep device answers opt state) := by
  have next := erases.inside.step answers inside whole goesOn
  obtain ⟨block, inChip, isPage⟩ :=
    erases.inside.block aligned inside goesOn
  rcases nandEraseStep_commands answers hasTable refused inChip isPage with
    none_ | ⟨notBad, commands, isCommands, sent⟩
  · refine ⟨next, ?_, ?_⟩
    · rw [none_]
      exact erases.idle
    · rw [none_]
      exact erases.keeps
  have notMarked : ¬HasMark device device.badBlkPatt before.spare block :=
    fun marked => notBad ((consistent block inChip).mpr marked)
  have keeps := erases.keeps.erase room notBad notMarked
  have effect : applyCommands device commands before =
      { applyCommands device state.commands before with
        cells := eraseCells device
          (applyCommands device state.commands before).cells
          (block * device.pagesPerBlock) } := by
    rw [isCommands, applyCommands_status]
    exact applyCommands_eraseBlock rfl erases.idle
  rcases sent with erased | marked
  · refine ⟨next, ?_, ?_⟩
    · rw [erased, effect]
      exact erases.idle
    · rw [erased, effect]
      exact keeps
  · refine ⟨next, ?_, ?_⟩
    · rw [marked, applyCommands_cleanMark, effect]
      exact erases.idle
    · rw [marked, applyCommands_cleanMark, effect]
      exact keeps.cleanMark room notBad

theorem KeepsBad.refl (device : NandDevice) (bbt : Nat → UInt8)
    (cells : NandCells) : KeepsBad device bbt cells cells :=
  ⟨fun block _ => SameBlock.refl device cells block, fun _ _ => Iff.rfl⟩

end Erases

section Marking

variable {device : NandDevice} (freeRegion : List OobFreeRegion)
  (freeOobSum : Nat) {answers : NandAnswers}

/-- The page in its block where `nand_mark_blk_bad` puts the mark. -/
def NandDevice.markPage (device : NandDevice) (ofs : Nat) : Nat :=
  (ofs % device.eraseSize + device.layout.oobSize) / device.layout.writeSize

end Marking

section Runs

variable (device : NandDevice)

/-- Calls as they are meant.  A mark is put in a page that the scan looks at,
as at the start of a block, and an erase refuses bad blocks. -/
def BadBlockOp.Allowed : BadBlockOp → Prop
  | .blockMarkBad ofs => ofs < device.chipSize ∧
      device.markPage ofs < device.badBlkPatt.scanPages
  | .erase opt _ => opt.allowBb = false ∧ opt.addr + opt.len < 2 ^ 64
  | .scanBbt => True

variable {device} (freeRegion : List OobFreeRegion) (freeOobSum : Nat)
  (canAutoIncr : Bool) {answers : NandAnswers}

end Runs

section Runs

variable {device : NandDevice} (freeRegion : List OobFreeRegion)
  (freeOobSum : Nat) (canAutoIncr : Bool) {answers : NandAnswers}

end Runs

end Witos.Flash
