import Witos.Flash.FlashFile

/-!
# Writing through the block buffer

What was written to a file is on flash up to the last full block, and the rest
is in the buffer.  Behind the rest the buffer still holds the end of the block
before, or what `malloc` gave if there was none.  `flash_close` fills as many
bytes with 0xFF as are used instead of those that are free.
-/

namespace Witos.Flash

open Library

/-- A device on which a write of whole pages to erased ones stores the data.
The range has to lie in the chip. -/
def Programs (mtd : Mtd) (master : Master (Nat → UInt8)) : Prop :=
  ∀ addr len data flash, addr % mtd.writeSize = 0 →
    len % mtd.writeSize = 0 → addr + len ≤ mtd.chipSize →
    (∀ index < len, flash (addr + index) = 0xff) →
    master (.write addr len data) flash =
      (.fine, overlayAt addr (slice data 0 len) flash)

/-- A partition that consists of erase blocks of the chip, and is erased. -/
structure Erased (mtd : Mtd) (flash : Nat → UInt8) : Prop where
  base : mtd.base % mtd.eraseSize = 0
  size : mtd.size % mtd.eraseSize = 0
  inChip : mtd.base + mtd.size ≤ mtd.chipSize
  erased : ∀ index < mtd.size, flash (mtd.base + index) = 0xff

/-- A file with an empty block buffer that is set up for `FLASH_OOB_PLACE`. -/
structure SetUp (mtd : Mtd) (file : File) : Prop where
  used : file.used = 0
  blkSize : file.blkSize = mtd.eraseSize
  maxSize : file.maxSize = mtd.rawBlock
  inside : file.inside = true
  aligned : file.fPos % mtd.eraseSize = 0

/-- A sequence of `flash_write` calls. -/
def writeAll {σ : Type} (mtd : Mtd) (master : Master σ)
    (chunks : List (List UInt8)) (file : File) (chip : Chip σ) :
    File × Chip σ :=
  chunks.foldl
    (fun state chunk =>
      flashWrite mtd master .place chunk state.1 state.2) (file, chip)

/-- All calls with the close behind them. -/
def writeClose {σ : Type} (mtd : Mtd) (master : Master σ)
    (chunks : List (List UInt8)) (file : File) (chip : Chip σ) :
    File × Chip σ :=
  let (written, next) := writeAll mtd master chunks file chip
  flashClose mtd master .place written next

/-- The bytes of a whole number of blocks: the data and 0xFF behind them. -/
def padded (block : Nat) (data : List UInt8) : List UInt8 :=
  data ++ List.replicate ((block - data.length % block) % block) 0xff

/-- What the buffer holds behind the bytes of an unfinished block. -/
def staleByte (block : Nat) (buff : Nat → UInt8) (data : List UInt8)
    (index : Nat) : UInt8 :=
  if data.length < block then buff index
  else data.getD (data.length / block * block - block + index) 0

/-- The unfinished block leaves nothing to fill, or filling as much again stays
in the buffer and what is not filled is 0xFF already. -/
def TailErased (mtd : Mtd) (file : File) (data : List UInt8) : Prop :=
  let rest := data.length % mtd.eraseSize
  rest = 0 ∨ 2 * rest ≤ mtd.rawBlock ∧
    ∀ index, 2 * rest ≤ index → index < mtd.eraseSize →
      staleByte mtd.eraseSize file.buff data index = 0xff

/-- The data are on flash with 0xFF up to the end of the block, nothing else
changed, and all stores were inside of the buffer. -/
structure WrittenOut (mtd : Mtd) (first : File) (flash : Nat → UInt8)
    (data : List UInt8) (result : File × Chip (Nat → UInt8)) : Prop where
  device : result.2.device = overlayAt (mtd.base + first.fPos)
    (padded mtd.eraseSize data) flash
  inside : result.1.inside = true
  running : result.2.hung = false

section Geometry

variable (mtd : Mtd)

theorem eraseSize_pos : 0 < mtd.eraseSize := by
  rw [mtd.eraseSize_eq]
  exact Nat.mul_pos mtd.writeSize_pos (Nat.two_pow_pos _)

theorem eraseSize_le_rawBlock : mtd.eraseSize ≤ mtd.rawBlock := by
  rw [mtd.eraseSize_eq]
  exact Nat.mul_le_mul_right _ (Nat.le_add_right _ _)

theorem page_aligned {addr : Nat} (aligned : addr % mtd.eraseSize = 0) :
    addr % mtd.writeSize = 0 := by
  apply Nat.mod_eq_zero_of_dvd
  refine Nat.dvd_trans ?_ (Nat.dvd_of_mod_eq_zero aligned)
  rw [mtd.eraseSize_eq]
  exact Nat.dvd_mul_right _ _

end Geometry

/-- The last full block, or the buffer as it was. -/
def lastBlock (block : Nat) (buff : Nat → UInt8) (full : List UInt8) :
    Nat → UInt8 :=
  if full = [] then buff else fun index =>
    full.getD (full.length - block + index) 0

/-- `full` is on flash and `part` in the buffer. -/
structure Buffered (mtd : Mtd) (first : File) (flash : Nat → UInt8)
    (full part : List UInt8) (file : File) (chip : Chip (Nat → UInt8)) :
    Prop where
  aligned : full.length % mtd.eraseSize = 0
  short : part.length < mtd.eraseSize
  fPos : file.fPos = first.fPos + full.length
  used : file.used = part.length
  blkSize : file.blkSize = mtd.eraseSize
  maxSize : file.maxSize = mtd.rawBlock
  inside : file.inside = true
  device : chip.device = overlayAt (mtd.base + first.fPos) full flash
  running : chip.hung = false
  buff : ∀ index < mtd.eraseSize, file.buff index =
    overlayAt 0 part (lastBlock mtd.eraseSize first.buff full) index

theorem overlayAt_zero_append {first second : List UInt8}
    {memory before : Nat → UInt8} {bound : Nat}
    (holds : ∀ index < bound, memory index =
      overlayAt 0 first before index) :
    ∀ index < bound, overlayAt first.length second memory index =
      overlayAt 0 (first ++ second) before index := by
  intro index inside
  rw [← overlayAt_append 0 first second before, Nat.zero_add]
  unfold overlayAt
  split
  · rw [holds index inside, overlayAt]
  · rw [holds index inside]
    rfl

section Steps

variable {mtd : Mtd} {master : Master (Nat → UInt8)} {first file : File}
  {flash : Nat → UInt8} {full part bytes : List UInt8}
  {chip : Chip (Nat → UInt8)}

theorem Buffered.copy_inside
    (buffered : Buffered mtd first flash full part file chip)
    (room : part.length + bytes.length ≤ mtd.eraseSize) :
    (file.copy bytes).inside = true := by
  have fits := eraseSize_le_rawBlock mtd
  simp only [File.copy, buffered.inside, buffered.used, buffered.maxSize,
    Bool.true_and, decide_eq_true_eq]
  exact Nat.le_trans room fits

theorem Buffered.copy
    (buffered : Buffered mtd first flash full part file chip)
    (room : part.length + bytes.length < mtd.eraseSize) :
    Buffered mtd first flash full (part ++ bytes)
      { file.copy bytes with used := file.used + bytes.length } chip where
  aligned := buffered.aligned
  short := by simpa using room
  fPos := buffered.fPos
  used := by simp [buffered.used]
  blkSize := buffered.blkSize
  maxSize := buffered.maxSize
  inside := buffered.copy_inside (Nat.le_of_lt room)
  device := buffered.device
  running := buffered.running
  buff := by
    simp only [File.copy, buffered.used]
    exact overlayAt_zero_append buffered.buff

variable (programs : Programs mtd master) (erased : Erased mtd flash)
  (start : first.fPos % mtd.eraseSize = 0)

/-- The chip after a block was written behind the full ones. -/
def written (mtd : Mtd) (first : File) (flash : Nat → UInt8)
    (blocks : List UInt8) (data : Nat → UInt8) (file : File)
    (chip : Chip (Nat → UInt8)) : Chip (Nat → UInt8) where
  device := overlayAt (mtd.base + first.fPos) blocks flash
  log := chip.log ++ [.write (mtd.base + file.fPos) mtd.eraseSize data]
  hung := false

include programs erased start in
theorem Buffered.write
    (buffered : Buffered mtd first flash full part file chip)
    (room : first.fPos + full.length + mtd.eraseSize ≤ mtd.size)
    (data : Nat → UInt8) :
    mtdFlashWrite mtd master .place data mtd.eraseSize file.fPos chip =
      (true, written mtd first flash
        (full ++ slice data 0 mtd.eraseSize) data file chip) := by
  have block := eraseSize_pos mtd
  have inChip := erased.inChip
  have small := mtd.chipSize_lt
  have addr : mtd.base + file.fPos =
      mtd.base + first.fPos + full.length := by
    rw [buffered.fPos, Nat.add_assoc]
  have aligned : (mtd.base + file.fPos) % mtd.eraseSize = 0 := by
    rw [addr]
    exact Nat.mod_eq_zero_of_dvd (Nat.dvd_add (Nat.dvd_add
      (Nat.dvd_of_mod_eq_zero erased.base) (Nat.dvd_of_mod_eq_zero start))
      (Nat.dvd_of_mod_eq_zero buffered.aligned))
  have before : ∀ index < mtd.eraseSize,
      chip.device (mtd.base + file.fPos + index) = 0xff := by
    intro index inside
    rw [buffered.device, addr]
    have untouched := (slice_eq_iff _ _ _ _ mtd.eraseSize).mp
      (slice_overlayAt_of_disjoint full flash (.inr (Nat.le_refl
        (mtd.base + first.fPos + full.length)))) index inside
    rw [untouched, Nat.add_assoc, Nat.add_assoc]
    exact erased.erased _ (by omega)
  have stored := programs (mtd.base + file.fPos) mtd.eraseSize data
    chip.device (page_aligned mtd aligned)
    (page_aligned mtd (Nat.mod_self mtd.eraseSize)) (by omega) before
  have notFull : file.fPos ≠ mtd.chipSize := by
    rw [buffered.fPos]
    omega
  have noCut : ¬ mtd.chipSize < add32 file.fPos mtd.eraseSize := by
    rw [buffered.fPos, add32_of_lt (by omega)]
    omega
  have place : add32 mtd.base file.fPos = mtd.base + file.fPos :=
    add32_of_lt (by omega)
  simp only [mtdFlashWrite, if_neg notFull, if_neg noCut,
    if_neg (Nat.ne_of_gt block), place, Chip.access, stored, written,
    buffered.running]
  rw [buffered.device, addr, overlayAt_append]

theorem Buffered.slice_buff
    (buffered : Buffered mtd first flash full part file chip)
    (filled : part.length + bytes.length = mtd.eraseSize) :
    slice (file.copy bytes).buff 0 mtd.eraseSize = part ++ bytes := by
  have length : (part ++ bytes).length = mtd.eraseSize := by simpa using filled
  have same : slice (file.copy bytes).buff 0 mtd.eraseSize =
      slice (overlayAt 0 (part ++ bytes)
        (lastBlock mtd.eraseSize first.buff full)) 0 mtd.eraseSize := by
    apply slice_congr
    intro index inside
    simp only [File.copy, buffered.used]
    exact overlayAt_zero_append buffered.buff _ (by omega)
  rw [same, ← length, slice_overlayAt]

theorem lastBlock_append (block : Nat) (buff : Nat → UInt8)
    (full last : List UInt8) (length : last.length = block)
    {index : Nat} (inside : index < block) :
    lastBlock block buff (full ++ last) index = last.getD index 0 := by
  have notNil : full ++ last ≠ [] := by
    rintro nil
    rw [List.append_eq_nil_iff] at nil
    simp only [nil.2, List.length_nil] at length
    omega
  have place : (full ++ last).length - block + index =
      full.length + index := by
    rw [List.length_append, length, Nat.add_sub_cancel]
  rw [lastBlock, if_neg notNil, place, List.getD_eq_getElem?_getD,
    List.getElem?_append_right (Nat.le_add_right _ _),
    Nat.add_sub_cancel_left, List.getD_eq_getElem?_getD]

include erased in
theorem Buffered.flush
    (buffered : Buffered mtd first flash full part file chip)
    (filled : part.length + bytes.length = mtd.eraseSize)
    (room : first.fPos + full.length + mtd.eraseSize ≤ mtd.size) :
    Buffered mtd first flash (full ++ (part ++ bytes)) []
      { file.copy bytes with
        fPos := add32 file.fPos file.blkSize
        used := 0 }
      (written mtd first flash (full ++ (part ++ bytes))
        (file.copy bytes).buff file chip) where
  aligned := by
    have length : (full ++ (part ++ bytes)).length =
        full.length + mtd.eraseSize := by simp [filled]
    rw [length, Nat.add_mod_right, buffered.aligned]
  short := eraseSize_pos mtd
  fPos := by
    have inChip := erased.inChip
    have small := mtd.chipSize_lt
    simp only [buffered.blkSize, buffered.fPos]
    rw [add32_of_lt (by omega)]
    simp [filled, Nat.add_assoc]
  used := rfl
  blkSize := buffered.blkSize
  maxSize := buffered.maxSize
  inside := buffered.copy_inside (Nat.le_of_eq filled)
  device := rfl
  running := rfl
  buff := by
    intro index inside
    have length : (part ++ bytes).length = mtd.eraseSize := by
      simpa using filled
    have holds := (slice_eq_iff _ _ 0 0 mtd.eraseSize).mp
      ((buffered.slice_buff filled).trans (by
        rw [← length, slice_overlayAt 0 (part ++ bytes) fun _ => 0]))
      index inside
    rw [overlayAt_nil, lastBlock_append _ _ _ _ length inside]
    simpa [overlayAt] using holds

include programs erased start in
theorem Buffered.writeLoop (data : List UInt8) {fuel : Nat} (room : Nat)
    (buffered : Buffered mtd first flash full part file chip)
    (enough : data.length < fuel)
    (roomLeft : part.length + room = mtd.eraseSize)
    (fits : first.fPos + full.length + part.length + data.length ≤
      mtd.size) :
    ∃ full' part', full' ++ part' = full ++ part ++ data ∧
      Buffered mtd first flash full' part'
        (writeLoop mtd master .place fuel data room file chip).1
        (writeLoop mtd master .place fuel data room file chip).2 := by
  induction fuel generalizing data room full part file chip with
  | zero => omega
  | succ fuel induction =>
      have short := buffered.short
      unfold Flash.writeLoop
      split
      · rename_i nil
        exact ⟨full, part, by simp [nil], buffered⟩
      · split
        · rename_i notNil filled
          have length : part.length + (data.take room).length =
              mtd.eraseSize := by
            rw [List.length_take, Nat.min_eq_left filled, roomLeft]
          have blockRoom :
              first.fPos + full.length + mtd.eraseSize ≤ mtd.size := by
            omega
          have wrote := buffered.write programs erased start blockRoom
            (file.copy (data.take room)).buff
          rw [buffered.slice_buff length] at wrote
          have blk : (file.copy (data.take room)).blkSize =
              mtd.eraseSize := buffered.blkSize
          have pos : flashPos mtd .place (file.copy (data.take room)).fPos =
              file.fPos := rfl
          simp only [blk, pos, wrote]
          have flushed := buffered.flush erased length blockRoom
          obtain ⟨full', part', whole, later⟩ := induction
            (data.drop room) mtd.eraseSize flushed
            (by rw [List.length_drop]; omega) (Nat.zero_add _) (by
              simp only [List.length_append, List.length_drop,
                List.length_take, List.length_nil]
              omega)
          refine ⟨full', part', ?_, ?_⟩
          · rw [whole, List.append_nil, List.append_assoc, List.append_assoc,
              List.take_append_drop, ← List.append_assoc]
          · simp only [blk, buffered.blkSize] at later
            exact later
        · rename_i notNil notFilled
          refine ⟨full, part ++ data, by simp, ?_⟩
          exact buffered.copy (by omega)

include programs erased start in
/-- One call of `flash_write`. -/
theorem Buffered.flashWrite (data : List UInt8)
    (buffered : Buffered mtd first flash full part file chip)
    (fits : first.fPos + full.length + part.length + data.length ≤
      mtd.size) :
    ∃ full' part', full' ++ part' = full ++ part ++ data ∧
      Buffered mtd first flash full' part'
        (flashWrite mtd master .place data file chip).1
        (flashWrite mtd master .place data file chip).2 := by
  unfold Flash.flashWrite
  split
  · rename_i nil
    exact ⟨full, part, by simp [nil], buffered⟩
  · rename_i notNil
    have short := buffered.short
    have inChip := erased.inChip
    have small := mtd.chipSize_lt
    have block : mtd.eraseSize ≤ mtd.size := by
      apply Nat.le_of_dvd
      · have some := List.length_pos_iff.mpr notNil
        omega
      · exact Nat.dvd_of_mod_eq_zero erased.size
    have accepted : ¬ mtd.size < add32 data.length file.fPos := by
      rw [buffered.fPos, add32_of_lt (by omega)]
      omega
    have room : sub32 file.blkSize file.used =
        mtd.eraseSize - part.length := by
      rw [buffered.blkSize, buffered.used, sub32_of_le (by omega)
        (by omega)]
    rw [if_neg accepted, room]
    exact Buffered.writeLoop programs erased start data _ buffered
      (by omega) (by omega) fits

include programs erased start in
/-- All calls of `flash_write`. -/
theorem Buffered.writeAll (chunks : List (List UInt8))
    (buffered : Buffered mtd first flash full part file chip)
    (fits : first.fPos + full.length + part.length +
      chunks.flatten.length ≤ mtd.size) :
    ∃ full' part', full' ++ part' = full ++ part ++ chunks.flatten ∧
      Buffered mtd first flash full' part'
        (writeAll mtd master chunks file chip).1
        (writeAll mtd master chunks file chip).2 := by
  induction chunks generalizing full part file chip with
  | nil => exact ⟨full, part, by simp, buffered⟩
  | cons chunk chunks induction =>
      rw [List.flatten_cons, List.length_append] at fits
      obtain ⟨full', part', whole, wrote⟩ :=
        Buffered.flashWrite programs erased start chunk buffered (by omega)
      have length := congrArg List.length whole
      simp only [List.length_append] at length
      obtain ⟨full'', part'', whole', later⟩ := induction wrote (by omega)
      refine ⟨full'', part'', ?_, later⟩
      rw [whole', whole, List.flatten_cons, List.append_assoc]

theorem SetUp.buffered (setUp : SetUp mtd file)
    (device : chip.device = flash) (running : chip.hung = false) :
    Buffered mtd file flash [] [] file chip where
  aligned := Nat.zero_mod _
  short := eraseSize_pos mtd
  fPos := rfl
  used := setUp.used
  blkSize := setUp.blkSize
  maxSize := setUp.maxSize
  inside := setUp.inside
  device := by rw [device, overlayAt_nil]
  running := running
  buff := by
    intro index inside
    rw [overlayAt_nil]
    rfl

theorem Buffered.length_div
    (buffered : Buffered mtd first flash full part file chip) :
    (full ++ part).length / mtd.eraseSize * mtd.eraseSize = full.length ∧
      (full ++ part).length % mtd.eraseSize = part.length := by
  obtain ⟨blocks, length⟩ := Nat.dvd_of_mod_eq_zero buffered.aligned
  have positive := eraseSize_pos mtd
  rw [List.length_append, length, Nat.mul_add_div positive,
    Nat.div_eq_of_lt buffered.short, Nat.mul_add_mod,
    Nat.mod_eq_of_lt buffered.short, Nat.add_zero, Nat.mul_comm]
  exact ⟨rfl, rfl⟩

theorem Buffered.staleByte_eq
    (buffered : Buffered mtd first flash full part file chip)
    {index : Nat} (inside : index < mtd.eraseSize) :
    staleByte mtd.eraseSize first.buff (full ++ part) index =
      lastBlock mtd.eraseSize first.buff full index := by
  obtain ⟨blocks, -⟩ := buffered.length_div
  have short := buffered.short
  unfold staleByte lastBlock
  rw [blocks]
  by_cases nil : full = []
  · rw [if_pos nil, if_pos (by simpa [nil] using short)]
  · have most : mtd.eraseSize ≤ full.length :=
      Nat.le_of_dvd (List.length_pos_iff.mpr nil)
        (Nat.dvd_of_mod_eq_zero buffered.aligned)
    have notShort : ¬ (full ++ part).length < mtd.eraseSize := by
      rw [List.length_append]
      omega
    rw [if_neg nil, if_neg notShort, List.getD_eq_getElem?_getD,
      List.getElem?_append_left (by omega), List.getD_eq_getElem?_getD]

theorem Buffered.padded_eq
    (buffered : Buffered mtd first flash full part file chip)
    (some : part ≠ []) :
    padded mtd.eraseSize (full ++ part) = full ++ (part ++
      List.replicate (mtd.eraseSize - part.length) 0xff) := by
  have positive := List.length_pos_iff.mpr some
  have short := buffered.short
  rw [padded, buffered.length_div.2, Nat.mod_eq_of_lt (by omega),
    List.append_assoc]

theorem slice_overlayAt_const {block : Nat} {part : List UInt8}
    (fill : UInt8) (short : part.length ≤ block) :
    slice (overlayAt 0 part fun _ => fill) 0 block =
      part ++ List.replicate (block - part.length) fill := by
  have length : part.length + (block - part.length) = block := by omega
  rw [← length, ← slice_append, slice_overlayAt, Nat.zero_add,
    slice_overlayAt_of_disjoint _ _ (.inr (by omega)), length]
  simp [slice, List.map_const']

theorem slice_fill_iff {block : Nat} {part : List UInt8} (fill : UInt8)
    (before : Nat → UInt8) (short : part.length ≤ block) :
    slice (overlayAt 0 (part ++ List.replicate part.length fill) before)
        0 block =
        part ++ List.replicate (block - part.length) fill ↔
      ∀ index, 2 * part.length ≤ index → index < block →
        before index = fill := by
  rw [← slice_overlayAt_const fill short, slice_eq_iff]
  simp only [Nat.zero_add, overlayAt, Nat.not_lt_zero, if_false,
    Nat.sub_zero, List.getD_eq_getElem?_getD]
  constructor
  · intro same index behind inside
    have here := same index inside
    rw [List.getElem?_eq_none (by simp; omega),
      List.getElem?_eq_none (by omega)] at here
    exact here
  · intro erased index inside
    by_cases data : index < part.length
    · rw [List.getElem?_append_left data, List.getElem?_eq_getElem data]
      rfl
    · rw [List.getElem?_append_right (by omega),
        List.getElem?_eq_none (l := part) (by omega), Option.getD_none]
      by_cases filled : index - part.length < part.length
      · rw [List.getElem?_replicate_of_lt filled, Option.getD_some]
      · rw [List.getElem?_eq_none (by simpa using filled),
          Option.getD_none]
        exact erased index (by omega) inside

include programs erased start in
theorem Buffered.flashClose
    (buffered : Buffered mtd first flash full part file chip)
    (some : part ≠ [])
    (fits : first.fPos + full.length + part.length ≤ mtd.size) :
    flashClose mtd master .place file chip =
      (file.copy (List.replicate part.length 0xff),
        written mtd first flash
          (full ++ slice (overlayAt 0
            (part ++ List.replicate part.length 0xff)
            (lastBlock mtd.eraseSize first.buff full)) 0 mtd.eraseSize)
          (file.copy (List.replicate part.length 0xff)).buff file
          chip) := by
  have positive := List.length_pos_iff.mpr some
  have blockRoom : first.fPos + full.length + mtd.eraseSize ≤ mtd.size :=
    add_unit_le
      (Nat.mod_eq_zero_of_dvd (Nat.dvd_add (Nat.dvd_of_mod_eq_zero start)
        (Nat.dvd_of_mod_eq_zero buffered.aligned)))
      erased.size (by omega)
  have wrote := buffered.write programs erased start blockRoom
    (file.copy (List.replicate part.length 0xff)).buff
  have same : slice (file.copy (List.replicate part.length 0xff)).buff 0
      mtd.eraseSize = slice (overlayAt 0
        (part ++ List.replicate part.length 0xff)
        (lastBlock mtd.eraseSize first.buff full)) 0 mtd.eraseSize := by
    apply slice_congr
    intro index inside
    simp only [File.copy, buffered.used]
    exact overlayAt_zero_append buffered.buff _ (by omega)
  have blk : (file.copy (List.replicate part.length 0xff)).blkSize =
      mtd.eraseSize := buffered.blkSize
  have pos : closePos mtd .place
      (file.copy (List.replicate part.length 0xff)).fPos = file.fPos := rfl
  rw [same] at wrote
  simp only [Flash.flashClose, buffered.used, if_neg (Nat.ne_of_gt positive),
    blk, pos, wrote]

/-- The block that is closed is the padded one just where the tail is erased. -/
theorem Buffered.closed_block_iff
    (buffered : Buffered mtd first flash full part file chip)
    (some : part ≠ []) :
    overlayAt (mtd.base + first.fPos) (full ++ slice (overlayAt 0
        (part ++ List.replicate part.length 0xff)
        (lastBlock mtd.eraseSize first.buff full)) 0 mtd.eraseSize) flash =
      overlayAt (mtd.base + first.fPos)
        (padded mtd.eraseSize (full ++ part)) flash ↔
    ∀ index, 2 * part.length ≤ index → index < mtd.eraseSize →
      staleByte mtd.eraseSize first.buff (full ++ part) index = 0xff := by
  have length : (full ++ slice (overlayAt 0
      (part ++ List.replicate part.length 0xff)
      (lastBlock mtd.eraseSize first.buff full)) 0 mtd.eraseSize).length =
      (full ++ (part ++ List.replicate
        (mtd.eraseSize - part.length) 0xff)).length := by
    have short := buffered.short
    simp
    omega
  rw [buffered.padded_eq some, overlayAt_inj _ _ length,
    List.append_cancel_left_eq,
    slice_fill_iff 0xff _ (Nat.le_of_lt buffered.short)]
  constructor
  · intro erased index behind below
    rw [buffered.staleByte_eq below]
    exact erased index behind below
  · intro erased index behind below
    rw [← buffered.staleByte_eq below]
    exact erased index behind below

/-- Filling stays in the buffer if it is no longer than what is left. -/
theorem Buffered.fill_inside_iff
    (buffered : Buffered mtd first flash full part file chip) :
    (file.copy (List.replicate part.length 0xff)).inside = true ↔
      2 * part.length ≤ mtd.rawBlock := by
  simp only [File.copy, buffered.inside, buffered.used, buffered.maxSize,
    Bool.true_and, decide_eq_true_eq, List.length_replicate, Nat.two_mul]

include programs erased start in
theorem Buffered.close_writtenOut_iff
    (buffered : Buffered mtd first flash full part file chip)
    (fits : first.fPos + full.length + part.length ≤ mtd.size) :
    WrittenOut mtd first flash (full ++ part)
        (Flash.flashClose mtd master .place file chip) ↔
      TailErased mtd first (full ++ part) := by
  have rest := buffered.length_div.2
  unfold TailErased
  rw [rest]
  by_cases nil : part = []
  · subst nil
    simp only [List.length_nil, true_or, iff_true]
    have closed : Flash.flashClose mtd master .place file chip =
        (file, chip) := if_pos buffered.used
    have exactly : padded mtd.eraseSize (full ++ []) = full := by
      rw [padded, rest]
      simp
    rw [closed]
    refine ⟨?_, buffered.inside, buffered.running⟩
    rw [exactly]
    exact buffered.device
  · have positive := List.length_pos_iff.mpr nil
    have block := buffered.closed_block_iff nil
    have inside := buffered.fill_inside_iff
    rw [buffered.flashClose programs erased start nil fits]
    constructor
    · intro out
      exact .inr ⟨inside.mp out.inside, block.mp out.device⟩
    · rintro (none | ⟨room, tail⟩)
      · omega
      · exact ⟨block.mpr tail, inside.mpr room, rfl⟩

end Steps

/-- Writing any chunks and closing the file puts them on flash with 0xFF behind
them just where the tail of the buffer was 0xFF already or gets filled. -/
theorem writeClose_writtenOut_iff {mtd : Mtd}
    {master : Master (Nat → UInt8)} {file : File} {flash : Nat → UInt8}
    {chip : Chip (Nat → UInt8)} (chunks : List (List UInt8))
    (programs : Programs mtd master) (erased : Erased mtd flash)
    (setUp : SetUp mtd file) (device : chip.device = flash)
    (running : chip.hung = false)
    (fits : file.fPos + chunks.flatten.length ≤ mtd.size) :
    WrittenOut mtd file flash chunks.flatten
        (writeClose mtd master chunks file chip) ↔
      TailErased mtd file chunks.flatten := by
  obtain ⟨full, part, whole, buffered⟩ :=
    Buffered.writeAll programs erased setUp.aligned chunks
      (setUp.buffered device running) (by simpa using fits)
  simp only [List.append_nil, List.nil_append] at whole
  rw [← whole] at fits ⊢
  rw [List.length_append] at fits
  exact buffered.close_writtenOut_iff programs erased setUp.aligned
    (by omega)

/-- A device on which programming clears bits and erasing sets them. -/
def programmable : Master (Nat → UInt8)
  | .write addr len data, flash | .writeOob _ addr len data, flash =>
      (.fine, fun index =>
        if addr ≤ index ∧ index < addr + len then
          flash index &&& data (index - addr)
        else flash index)
  | .erase addr len, flash =>
      (.fine, fun index =>
        if addr ≤ index ∧ index < addr + len then 0xff else flash index)

theorem programmable_programs (mtd : Mtd) : Programs mtd programmable := by
  intro addr len data flash _ _ _ erased
  simp only [programmable, Prod.mk.injEq, true_and]
  funext index
  unfold overlayAt
  by_cases before : index < addr
  · rw [if_neg (by omega), if_pos before]
  · rw [if_neg before]
    by_cases inside : index < addr + len
    · have bound : index - addr < len := by omega
      have cell := erased (index - addr) bound
      rw [Nat.add_sub_cancel' (Nat.le_of_not_lt before)] at cell
      rw [if_pos ⟨Nat.le_of_not_lt before, inside⟩, cell,
        show (0xff : UInt8) = -1 from rfl, UInt8.neg_one_and]
      simp [slice, bound]
    · rw [if_neg (by omega), List.getD_eq_getElem?_getD,
        List.getElem?_eq_none (by simp; omega), Option.getD_none]

/-- Pages of 512 bytes, blocks of 16 KiB, and a partition of 4 MiB. -/
def smallBlocks : Mtd where
  writeShift := 9
  eraseShift := 14
  writeSize := 512
  eraseSize := 0x4000
  oobSize := 16
  chipSize := 0x1000000
  base := 0x100000
  size := 0x400000
  writeSize_pos := by decide
  eraseSize_eq := rfl
  chipSize_lt := by decide

/-- A file at the start of `smallBlocks` with a byte in all of its buffer. -/
def filledFile (byte : UInt8) : File where
  fPos := 0
  buff _ := byte
  used := 0
  blkSize := 0x4000
  maxSize := 0x4200
  inside := true

def erasedChip : Chip (Nat → UInt8) where
  device _ := 0xff
  log := []
  hung := false

theorem smallBlocks_erased : Erased smallBlocks erasedChip.device where
  base := rfl
  size := rfl
  inChip := by decide
  erased _ _ := rfl

theorem filledFile_setUp (byte : UInt8) :
    SetUp smallBlocks (filledFile byte) where
  used := rfl
  blkSize := rfl
  maxSize := rfl
  inside := rfl
  aligned := rfl

theorem writeClose_writtenOut_fresh :
    WrittenOut smallBlocks (filledFile 0xff) erasedChip.device
      [1, 2, 3, 4, 5, 6]
      (writeClose smallBlocks programmable [[1, 2, 3], [4, 5, 6]]
        (filledFile 0xff) erasedChip) := by
  apply (writeClose_writtenOut_iff [[1, 2, 3], [4, 5, 6]]
    (programmable_programs smallBlocks) smallBlocks_erased
    (filledFile_setUp 0xff) rfl rfl (by decide)).mpr
  refine .inr ⟨by decide, ?_⟩
  intro index _ _
  exact if_pos (by decide)

/-- After a single byte the block on flash ends as the buffer did. -/
theorem writeClose_not_writtenOut_byte :
    Programs smallBlocks programmable ∧
      Erased smallBlocks erasedChip.device ∧
      SetUp smallBlocks (filledFile 0) ∧
      (filledFile 0).fPos + [[(7 : UInt8)]].flatten.length ≤
        smallBlocks.size ∧
      ¬ WrittenOut smallBlocks (filledFile 0) erasedChip.device [7]
        (writeClose smallBlocks programmable [[7]] (filledFile 0)
          erasedChip) := by
  refine ⟨programmable_programs smallBlocks, smallBlocks_erased,
    filledFile_setUp 0, by decide, ?_⟩
  intro out
  have cell := congrFun out.device (0x100000 + 2)
  revert cell
  decide +kernel

end Witos.Flash
