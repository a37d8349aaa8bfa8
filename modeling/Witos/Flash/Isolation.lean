import Witos.Flash.BufferedWrite
import Witos.Library.Trace

/-!
# Partitions kept apart

The files of a partition share its OOB mode.  `flash_write` compares the length
and the position of the file with the size of the partition, but hands whole
blocks to the master device; `flash_close` and `FLASH_IOC_ERASE` compare
nothing.  A run stays in its partition where every block that gets full, every
block that is closed and every range to erase lies in it.
-/

namespace Witos.Flash

open Library

section Ranges

variable (mtd : Mtd)

/-- The pages that some bytes with their spare bytes take. -/
def Mtd.pages (count : Nat) : Nat :=
  (count + mtd.rawSize - 1) / mtd.rawSize

def Access.addr : Access → Nat
  | .write addr _ _ | .writeOob _ addr _ _ | .erase addr _ => addr

/-- The bytes of the chip that an access is about. -/
def Access.extent : Access → Nat
  | .write _ len _ | .erase _ len => len
  | .writeOob .raw _ len _ => mtd.pages len * mtd.writeSize
  | .writeOob _ _ len _ => len

/-- The address and all that is accessed from it on lie in the partition. -/
def Access.Within (access : Access) : Prop :=
  mtd.base ≤ access.addr ∧ access.addr < mtd.base + mtd.size ∧
    access.addr + access.extent mtd ≤ mtd.base + mtd.size

instance (access : Access) : Decidable (access.Within mtd) :=
  inferInstanceAs (Decidable (_ ∧ _ ∧ _))

/-- No access so far left the partition. -/
def Confined {σ : Type} (chip : Chip σ) : Prop :=
  ∀ access ∈ chip.log, access.Within mtd

instance {σ : Type} (chip : Chip σ) : Decidable (Confined mtd chip) :=
  inferInstanceAs (Decidable (∀ access ∈ chip.log, access.Within mtd))

/-- A block that `__flash_write` does not write. -/
def Refused (mode : OobMode) (count pos : Nat) : Prop :=
  match mode with
  | .place => pos = mtd.chipSize
  | .auto => count % mtd.rawSize ≠ 0
  | .raw => False

/-- A block at a position on flash that lies in the partition.  Without spare
bytes it is cut at the end of the chip. -/
def BlockInside (mode : OobMode) (count pos : Nat) : Prop :=
  match mode with
  | .place => pos < mtd.size ∧ pos + count < 2 ^ 32 ∧
      min (pos + count) mtd.chipSize ≤ mtd.size
  | _ => pos < mtd.size ∧
      pos + mtd.pages count * mtd.writeSize ≤ mtd.size

instance (mode : OobMode) (count pos : Nat) :
    Decidable (BlockInside mtd mode count pos) :=
  match mode with
  | .place => inferInstanceAs (Decidable (_ ∧ _ ∧ _))
  | .auto | .raw => inferInstanceAs (Decidable (_ ∧ _))

end Ranges

/-- A partition with its open files. -/
structure Partition (σ : Type) where
  mode : OobMode
  files : Nat → Option File
  chip : Chip σ

inductive Operation
  | write (fd : Nat) (data : List UInt8)
  | close (fd : Nat)
  | erase (fd addr len : Nat)
  | oobMode (fd : Nat) (mode : OobMode)

/-- `FLASH_IOCS_OOB_MODE` on the file. -/
def File.oobMode (mtd : Mtd) (mode : OobMode) (file : File) : File :=
  { file with
    blkSize := match mode with
      | .place => mtd.eraseSize
      | _ => mtd.rawBlock }

/-- One operation on an open file.  After `BUG` there is none. -/
def step {σ : Type} (mtd : Mtd) (master : Master σ) (operation : Operation)
    (part : Partition σ) : Partition σ :=
  if part.chip.hung then part
  else
    match operation with
    | .write fd data =>
        match part.files fd with
        | none => part
        | some file =>
            let (file, chip) :=
              flashWrite mtd master part.mode data file part.chip
            { part with
              files := Function.update part.files fd (some file)
              chip := chip }
    | .close fd =>
        match part.files fd with
        | none => part
        | some file =>
            let (_, chip) := flashClose mtd master part.mode file part.chip
            { part with
              files := Function.update part.files fd none
              chip := chip }
    | .erase fd addr len =>
        match part.files fd with
        | none => part
        | some _ =>
            { part with chip := flashErase mtd master addr len part.chip }
    | .oobMode fd mode =>
        match part.files fd with
        | none => part
        | some file =>
            { part with
              mode := mode
              files := Function.update part.files fd
                (some (file.oobMode mtd mode)) }

/-- What an operation has to keep to.  Block number `index` of an accepted write
gets full if there are enough data for it. -/
def Stays {σ : Type} (mtd : Mtd) (operation : Operation)
    (part : Partition σ) : Prop :=
  match operation with
  | .write fd data => ∀ file, part.files fd = some file →
      add32 data.length file.fPos ≤ mtd.size →
      Refused mtd part.mode file.blkSize (flashPos mtd part.mode file.fPos) ∨
      ∀ index, sub32 file.blkSize file.used + index * file.blkSize ≤
          data.length →
        file.fPos + index * file.blkSize < 2 ^ 32 ∧
          BlockInside mtd part.mode file.blkSize
            (flashPos mtd part.mode (file.fPos + index * file.blkSize))
  | .close fd => ∀ file, part.files fd = some file → file.used ≠ 0 →
      Refused mtd part.mode file.blkSize (closePos mtd part.mode file.fPos) ∨
      BlockInside mtd part.mode file.blkSize
        (closePos mtd part.mode file.fPos)
  | .erase fd addr len => ∀ file, part.files fd = some file →
      addr < mtd.size ∧ addr + eraseLen mtd len ≤ mtd.size
  | .oobMode _ _ => True

section Steps

variable {σ : Type} {mtd : Mtd} {master : Master σ} {chip : Chip σ}
  {mode : OobMode} {request : Access} {data : Nat → UInt8}

theorem Confined.access (master : Master σ) (confined : Confined mtd chip)
    (within : request.Within mtd) :
    Confined mtd (chip.access master request).2 := by
  intro other member
  rcases List.mem_append.mp member with old | new
  · exact confined other old
  · rw [List.mem_singleton.mp new]
    exact within

theorem Confined.send (master : Master σ) (confined : Confined mtd chip)
    (within : request.Within mtd) :
    Confined mtd (chip.send master request).2 := by
  have accessed := confined.access master within
  unfold Chip.send
  split <;> rename_i result <;> rw [result] at accessed <;> exact accessed

variable (inChip : mtd.base + mtd.size ≤ mtd.chipSize)

include inChip in
theorem add32_base {pos : Nat} (inside : pos < mtd.size) :
    add32 mtd.base pos = mtd.base + pos := by
  have small := mtd.chipSize_lt
  exact add32_of_lt (by omega)

include inChip in
theorem Confined.writePages {pages ppos : Nat}
    (confined : Confined mtd chip)
    (inside : ppos + pages * mtd.writeSize ≤ mtd.size) :
    Confined mtd (writePages mtd master data pages ppos chip).2 := by
  induction pages generalizing ppos data chip with
  | zero => exact confined
  | succ pages induction =>
      have positive := mtd.writeSize_pos
      have small := mtd.chipSize_lt
      rw [Nat.succ_mul] at inside
      have within : Access.Within mtd (.writeOob .auto
          (add32 mtd.base ppos) mtd.writeSize data) := by
        rw [add32_base inChip (by omega)]
        refine ⟨?_, ?_, ?_⟩ <;> simp only [Access.addr, Access.extent] <;>
          omega
      have sent := confined.send master within
      unfold Flash.writePages
      split
      · rename_i next result
        rw [result] at sent
        exact sent
      · rename_i next result
        rw [result] at sent
        rw [add32_of_lt (by omega)]
        exact induction sent (by omega)

theorem pages_of_mod {count : Nat} (whole : count % mtd.rawSize = 0) :
    mtd.pages count = count / mtd.rawSize := by
  have positive : 0 < mtd.rawSize :=
    Nat.lt_of_lt_of_le mtd.writeSize_pos (Nat.le_add_right _ _)
  obtain ⟨number, rfl⟩ := Nat.dvd_of_mod_eq_zero whole
  rw [Mtd.pages, Nat.mul_div_cancel_left _ positive, Nat.add_sub_assoc
    positive, Nat.mul_add_div positive, Nat.div_eq_of_lt (by omega),
    Nat.add_zero]

include inChip in
/-- A block for which `__flash_write` is called. -/
theorem Confined.mtdFlashWrite (master : Master σ) (data : Nat → UInt8)
    {count pos : Nat} (confined : Confined mtd chip)
    (inside : BlockInside mtd mode count pos) :
    Confined mtd (mtdFlashWrite mtd master mode data count pos chip).2 := by
  have small := mtd.chipSize_lt
  cases mode with
  | raw =>
      obtain ⟨start, stop⟩ := inside
      apply confined.send master
      rw [add32_base inChip start]
      refine ⟨?_, ?_, ?_⟩ <;> simp only [Access.addr, Access.extent] <;>
        omega
  | auto =>
      obtain ⟨start, stop⟩ := inside
      unfold Flash.mtdFlashWrite
      dsimp only
      split
      · exact confined
      · rename_i whole
        rw [pages_of_mod (Decidable.of_not_not whole)] at stop
        exact confined.writePages inChip stop
  | place =>
      obtain ⟨start, small', stop⟩ := inside
      have notEnd : pos ≠ mtd.chipSize := by omega
      have left : sub32 mtd.chipSize pos = mtd.chipSize - pos :=
        sub32_of_le (by omega) (by omega)
      simp only [Flash.mtdFlashWrite, if_neg notEnd,
        add32_of_lt small', left]
      -- The bytes up to the end of the chip are inside of the partition.
      generalize kept : (if mtd.chipSize < pos + count then
        mtd.chipSize - pos else count) = length
      have bound : pos + length ≤ mtd.size := by
        rw [← kept]
        split <;> omega
      split
      · exact confined
      · have within : Access.Within mtd
            (.write (add32 mtd.base pos) length data) := by
          rw [add32_base inChip start]
          refine ⟨?_, ?_, ?_⟩ <;>
            simp only [Access.addr, Access.extent] <;> omega
        have accessed := confined.access master within
        split <;> rename_i result <;> rw [result] at accessed <;>
          exact accessed

theorem mtdFlashWrite_of_refused (master : Master σ) (data : Nat → UInt8)
    (chip : Chip σ) {count pos : Nat}
    (refused : Refused mtd mode count pos) :
    mtdFlashWrite mtd master mode data count pos chip = (false, chip) := by
  cases mode with
  | raw => exact refused.elim
  | auto => exact if_pos refused
  | place => exact if_pos refused

include inChip in
/-- A block that is either refused or inside. -/
theorem Confined.block (master : Master σ) (data : Nat → UInt8)
    {count pos : Nat} (confined : Confined mtd chip)
    (stays : Refused mtd mode count pos ∨ BlockInside mtd mode count pos) :
    Confined mtd
      (Flash.mtdFlashWrite mtd master mode data count pos chip).2 := by
  rcases stays with refused | inside
  · rw [mtdFlashWrite_of_refused master data chip refused]
    exact confined
  · exact Confined.mtdFlashWrite inChip master data confined inside

theorem blocks_behind {room size fPos length left index : Nat}
    (inside : ∀ index, room + index * size ≤ length →
      fPos + index * size < 2 ^ 32 ∧
        BlockInside mtd mode size
          (flashPos mtd mode (fPos + index * size)))
    (rest : left = length - room) (filled : room ≤ length)
    (enough : size + index * size ≤ left) :
    add32 fPos size + index * size < 2 ^ 32 ∧
      BlockInside mtd mode size
        (flashPos mtd mode (add32 fPos size + index * size)) := by
  have same : fPos + (index + 1) * size = fPos + size + index * size := by
    rw [Nat.succ_mul]
    omega
  have block := inside (index + 1) (by
    rw [Nat.succ_mul]
    omega)
  rw [same] at block
  rw [add32_of_lt (by omega)]
  exact block

include inChip in
/-- The loop of `flash_write`, block by block. -/
theorem Confined.writeLoop {fuel room : Nat} {bytes : List UInt8}
    {file : File} (confined : Confined mtd chip)
    (stays : Refused mtd mode file.blkSize (flashPos mtd mode file.fPos) ∨
      ∀ index, room + index * file.blkSize ≤ bytes.length →
        file.fPos + index * file.blkSize < 2 ^ 32 ∧
          BlockInside mtd mode file.blkSize
            (flashPos mtd mode (file.fPos + index * file.blkSize))) :
    Confined mtd
      (writeLoop mtd master mode fuel bytes room file chip).2 := by
  induction fuel generalizing bytes room file chip with
  | zero => exact confined
  | succ fuel induction =>
      unfold Flash.writeLoop
      split
      · exact confined
      · split
        · rename_i notNil filled
          have first : Refused mtd mode file.blkSize
                (flashPos mtd mode file.fPos) ∨
              BlockInside mtd mode file.blkSize
                (flashPos mtd mode file.fPos) := by
            refine stays.imp_right fun inside => ?_
            simpa using (inside 0 (by simpa using filled)).2
          have wrote := confined.block inChip master
            (file.copy (bytes.take room)).buff first
          dsimp only
          split
          · rename_i next result
            simp only [File.copy] at wrote result
            rw [result] at wrote
            exact wrote
          · rename_i next result
            simp only [File.copy] at wrote result
            rw [result] at wrote
            rcases stays with refused | inside
            · -- A refused block does not come back as written.
              rw [mtdFlashWrite_of_refused master _ chip refused] at result
              cases result
            · refine induction wrote (.inr fun index enough => ?_)
              simp only [File.copy] at enough ⊢
              exact blocks_behind inside List.length_drop filled enough
        · exact confined

include inChip in
theorem Confined.flashWrite {bytes : List UInt8} {file : File}
    (confined : Confined mtd chip)
    (stays : add32 bytes.length file.fPos ≤ mtd.size →
      Refused mtd mode file.blkSize (flashPos mtd mode file.fPos) ∨
      ∀ index, sub32 file.blkSize file.used + index * file.blkSize ≤
          bytes.length →
        file.fPos + index * file.blkSize < 2 ^ 32 ∧
          BlockInside mtd mode file.blkSize
            (flashPos mtd mode (file.fPos + index * file.blkSize))) :
    Confined mtd (flashWrite mtd master mode bytes file chip).2 := by
  unfold Flash.flashWrite
  split
  · exact confined
  · split
    · exact confined
    · rename_i accepted
      exact confined.writeLoop inChip (stays (by omega))

include inChip in
theorem Confined.flashClose {file : File} (confined : Confined mtd chip)
    (stays : file.used ≠ 0 →
      Refused mtd mode file.blkSize (closePos mtd mode file.fPos) ∨
      BlockInside mtd mode file.blkSize (closePos mtd mode file.fPos)) :
    Confined mtd (flashClose mtd master mode file chip).2 := by
  unfold Flash.flashClose
  split
  · exact confined
  · rename_i used
    exact confined.block inChip master _ (stays used)

include inChip in
theorem Confined.flashErase {addr len : Nat}
    (confined : Confined mtd chip) (start : addr < mtd.size)
    (stop : addr + eraseLen mtd len ≤ mtd.size) :
    Confined mtd (flashErase mtd master addr len chip) := by
  have small := mtd.chipSize_lt
  have exactly : (addr + mtd.base) % 2 ^ 64 = addr + mtd.base :=
    Nat.mod_eq_of_lt (by omega)
  apply confined.access master
  refine ⟨?_, ?_, ?_⟩ <;>
    simp only [Access.addr, Access.extent, exactly] <;> omega

include inChip in
theorem Confined.step {part : Partition σ} {operation : Operation}
    (confined : Confined mtd part.chip)
    (stays : Stays mtd operation part) :
    Confined mtd (step mtd master operation part).chip := by
  unfold Flash.step
  split
  · exact confined
  · cases operation with
    | write fd data =>
        dsimp only
        split
        · exact confined
        · rename_i file found
          exact confined.flashWrite inChip (stays file found)
    | close fd =>
        dsimp only
        split
        · exact confined
        · rename_i file found
          exact confined.flashClose inChip (stays file found)
    | erase fd addr len =>
        dsimp only
        split
        · exact confined
        · rename_i file found
          obtain ⟨start, stop⟩ := stays file found
          exact confined.flashErase inChip start stop
    | oobMode fd mode =>
        dsimp only
        split <;> exact confined

end Steps

/-- In every run all of whose operations keep to the partition, no access ever
leaves it. -/
theorem run_confined {σ : Type} {mtd : Mtd} {master : Master σ}
    {part : Partition σ} {operations : List Operation}
    (inChip : mtd.base + mtd.size ≤ mtd.chipSize)
    (fresh : part.chip.log = [])
    (allowed : Trace.Allowed (step mtd master) (Stays mtd) operations part) :
    Trace.Throughout (step mtd master)
      (fun part => Confined mtd part.chip) operations part := by
  have start : Confined mtd part.chip := by
    intro access member
    rw [fresh] at member
    exact absurd member List.not_mem_nil
  exact Trace.Allowed.throughout
    (fun _ _ confined stays => confined.step inChip stays) start allowed

/-- A partition with one open file. -/
def single (file : File) : Partition (Nat → UInt8) where
  mode := .place
  files := Function.update (fun _ => none) 0 (some file)
  chip := erasedChip

theorem run_confined_blocks :
    Trace.Throughout (step smallBlocks programmable)
      (fun part => Confined smallBlocks part.chip)
      [.write 0 [1, 2, 3, 4, 5, 6], .erase 0 0x4000 3, .close 0]
      (single (filledFile 0)) := by
  refine run_confined (by decide) rfl
    (Trace.allowed_cons.mpr ⟨?_, Trace.allowed_cons.mpr ⟨?_,
      Trace.allowed_cons.mpr ⟨?_, ?_⟩⟩⟩)
  · rintro file found -
    obtain rfl := Option.some.inj found
    refine .inr fun index enough => ?_
    have few : index = 0 := by
      simp [filledFile, sub32] at enough
      omega
    subst few
    decide
  · rintro file -
    decide
  · rintro file found -
    obtain rfl := Option.some.inj found
    exact .inr (by decide)
  · exact Trace.allowed_nil

/-- A partition of one block. -/
def oneBlock : Mtd :=
  { smallBlocks with size := 0x4000 }

/-- Behind `flash_open` the blocks are larger than those of the chip, and the
last one crosses the end of the partition.  Erasing is not checked at all. -/
theorem run_not_confined :
    ¬ Trace.Throughout (step oneBlock programmable)
      (fun part => Confined oneBlock part.chip) [.write 0 [7, 8], .close 0]
      (single { filledFile 0 with blkSize := 0x4200 }) ∧
    ¬ Trace.Throughout (step oneBlock programmable)
      (fun part => Confined oneBlock part.chip) [.erase 0 0x4000 0x4000]
      (single (filledFile 0)) := by
  constructor
  · intro holds
    have last := holds _ [] (List.append_nil _).symm
    revert last
    decide +kernel
  · intro holds
    have last := holds _ [] (List.append_nil _).symm
    revert last
    decide +kernel

end Witos.Flash
