import Mathlib.Data.Nat.ModEq
import Witos.Fs.Ext2Map

/-!
# Reading a file of an ext2 volume

`ext2_read` computes the number of blocks from the number of bytes alone, so it
is only right when the range does not cross a block boundary from the middle of
a block.
-/

namespace Witos.Fs

open Library

section Volume

variable {sb : SuperBlock} {disk : Nat → UInt8}

/-- The inode of a number, in the table of its group. -/
def inodeAt (sb : SuperBlock) (disk : Nat → UInt8) (ino : Nat) : Inode :=
  Inode.ofBytes (slice (wrapped disk)
    (sb.bgInodeTable ((ino - 1) / sb.sInodesPerGroup) * sb.blockSize +
      (ino - 1) % sb.sInodesPerGroup * sb.sInodeSize)
    sb.sInodeSize)

/-- A byte of a file; a hole would be taken for block 0. -/
def fileByte (sb : SuperBlock) (disk : Nat → UInt8) (inode : Inode) :
    Nat → UInt8 :=
  contentByte disk sb.blockSize (blockPointer sb disk inode)

theorem WellFormed.blockSize_le (wellFormed : WellFormed sb) :
    sb.blockSize ≤ 2 ^ 16 := by
  have bound := wellFormed.indexPerBlock_le
  rw [blockSize_eq]
  omega

theorem blockSize_pos (sb : SuperBlock) : 0 < sb.blockSize :=
  Nat.two_pow_pos _

theorem WellFormed.inodesPerBlock (wellFormed : WellFormed sb) :
    sb.blockSize / sb.sInodeSize * sb.sInodeSize = sb.blockSize :=
  Nat.div_mul_cancel wellFormed.divides

theorem WellFormed.inodePlace (wellFormed : WellFormed sb)
    (table inoNo : Nat) :
    (table + inoNo / (sb.blockSize / sb.sInodeSize)) * sb.blockSize +
        inoNo % (sb.blockSize / sb.sInodeSize) * sb.sInodeSize =
      table * sb.blockSize + inoNo * sb.sInodeSize := by
  have product := wellFormed.inodesPerBlock
  generalize sb.blockSize / sb.sInodeSize = count at product ⊢
  have split := Nat.div_add_mod inoNo count
  calc (table + inoNo / count) * sb.blockSize +
        inoNo % count * sb.sInodeSize
      = table * sb.blockSize +
          (count * (inoNo / count) + inoNo % count) * sb.sInodeSize := by
        rw [← product]
        ring
    _ = table * sb.blockSize + inoNo * sb.sInodeSize := by rw [split]

theorem WellFormed.inodeInside (wellFormed : WellFormed sb) (inoNo : Nat) :
    inoNo % (sb.blockSize / sb.sInodeSize) * sb.sInodeSize +
      sb.sInodeSize ≤ sb.blockSize := by
  have product := wellFormed.inodesPerBlock
  have positive := blockSize_pos sb
  generalize sb.blockSize / sb.sInodeSize = count at product ⊢
  have countPos : 0 < count := by
    rcases Nat.eq_zero_or_pos count with zero | positiveCount
    · rw [zero, Nat.zero_mul] at product
      omega
    · exact positiveCount
  have below := Nat.mod_lt inoNo countPos
  calc inoNo % count * sb.sInodeSize + sb.sInodeSize
      = (inoNo % count + 1) * sb.sInodeSize := (Nat.succ_mul _ _).symm
    _ ≤ count * sb.sInodeSize := Nat.mul_le_mul_right _ below
    _ = sb.blockSize := product

theorem ext2GetInode_eq (wellFormed : WellFormed sb)
    (serves : Serves sb.drive disk) (ino : Nat) :
    ext2GetInode sb ino = inodeAt sb disk ino := by
  have bound := wellFormed.blockSize_le
  unfold ext2GetInode inodeAt
  simp only
  generalize sb.bgInodeTable ((ino - 1) / sb.sInodesPerGroup) = table
  generalize (ino - 1) % sb.sInodesPerGroup = inoNo
  have inside := wellFormed.inodeInside inoNo
  have place := wellFormed.inodePlace table inoNo
  generalize sb.blockSize / sb.sInodeSize = count at inside place ⊢
  rw [ext2ReadBlock_eq serves _ (by unfold sectSize; omega)]
  apply congrArg Inode.ofBytes
  apply slice_congr
  intro index _
  apply wrapped_mod
  rw [← place]
  exact (((Nat.mod_modEq _ _).mul_right _).add_right _).add_right _

theorem iSize_lt (wellFormed : WellFormed sb) (ino : Nat) :
    (inodeAt sb disk ino).iSize < 2 ^ 32 := by
  have inodeSize := wellFormed.inodeSize
  unfold inodeAt Inode.ofBytes
  simp only
  rw [entry_slice _ _ (by omega)]
  have bound := leValue_lt (slice (wrapped disk)
    (sb.bgInodeTable ((ino - 1) / sb.sInodesPerGroup) * sb.blockSize +
      (ino - 1) % sb.sInodesPerGroup * sb.sInodeSize + 4 * 1) 4)
  rw [length_slice] at bound
  exact bound

theorem lastLen_eq {blockSize realSize block : Nat}
    (above : block * blockSize < realSize)
    (below : realSize ≤ (block + 1) * blockSize) :
    (if realSize % blockSize = 0 then blockSize
      else realSize % blockSize) = realSize - block * blockSize := by
  rw [Nat.succ_mul] at below
  have split : realSize = realSize - block * blockSize +
      blockSize * block := by
    rw [Nat.mul_comm blockSize]
    omega
  by_cases full : realSize - block * blockSize = blockSize
  · have multiple : realSize % blockSize = 0 := by
      rw [split, full, Nat.add_mul_mod_self_left, Nat.mod_self]
    rw [if_pos multiple, full]
  · have rest : realSize % blockSize = realSize - block * blockSize := by
      conv => lhs; rw [split]
      rw [Nat.add_mul_mod_self_left]
      apply Nat.mod_eq_of_lt
      omega
    rw [rest, if_neg (by omega)]

/-- From the start of a block on, the loop copies the rest of the range. -/
theorem ext2ReadLoop_eq (wellFormed : WellFormed sb)
    (serves : Serves sb.drive disk) (inode : Inode)
    {indexs : Nat → Nat} {first blocks realSize : Nat}
    (pointers : ∀ i < blocks,
      indexs i = blockPointer sb disk inode (first + i))
    (above : (blocks - 1) * sb.blockSize < realSize)
    (below : realSize ≤ blocks * sb.blockSize)
    {left i fPos : Nat} (position : i + left = blocks) (buff : List UInt8)
    (small : fPos + (realSize - i * sb.blockSize) < 2 ^ 32) :
    ext2ReadLoop sb indexs blocks realSize left i 0 sb.blockSize
        (buff, fPos) =
      (buff ++ slice (fileByte sb disk inode) ((first + i) * sb.blockSize)
          (realSize - i * sb.blockSize),
        fPos + (realSize - i * sb.blockSize)) := by
  have sizeBound := wellFormed.blockSize_le
  induction left generalizing i buff fPos with
  | zero =>
      have done : realSize - i * sb.blockSize = 0 := by
        rw [show i = blocks by omega]
        omega
      rw [ext2ReadLoop, done, slice_zero, List.append_nil, Nat.add_zero]
  | succ left induction =>
      rw [ext2ReadLoop]
      have block : ∀ {len : Nat}, len ≤ sb.blockSize →
          ext2ReadBlock sb (indexs i) 0 len =
            slice (fileByte sb disk inode) ((first + i) * sb.blockSize)
              len := by
        intro len bound
        rw [pointers i (by omega), ext2ReadBlock_eq serves _
          (by unfold sectSize; omega), slice_contentByte disk _ (by omega),
          Nat.add_zero]
        rfl
      by_cases last : i = blocks - 1
      · have final : blocks = i + 1 := by omega
        rw [final] at below
        rw [← last] at above
        have length := lastLen_eq above below
        rw [Nat.succ_mul] at below
        rw [if_pos last, length, block (by omega), add32_of_lt small,
          show left = 0 by omega, ext2ReadLoop]
      · have more : (i + 1) * sb.blockSize ≤ (blocks - 1) * sb.blockSize :=
          Nat.mul_le_mul_right _ (by omega)
        rw [Nat.succ_mul] at more
        have rest : realSize - i * sb.blockSize =
            sb.blockSize + (realSize - (i + 1) * sb.blockSize) := by
          rw [Nat.succ_mul]
          omega
        rw [rest] at small ⊢
        rw [if_neg last, block (Nat.le_refl _), add32_of_lt (by omega),
          induction (by omega) _ (by omega), List.append_assoc,
          ← Nat.add_assoc first, Nat.succ_mul (first + i), slice_append,
          Nat.add_assoc fPos]

/-- The whole loop.  Unless it starts at a block, it copies a range that goes
on behind the block, or leaves out as many bytes as it skipped. -/
theorem ext2ReadLoop_start (wellFormed : WellFormed sb)
    (serves : Serves sb.drive disk) (inode : Inode)
    {indexs : Nat → Nat} {first blocks realSize offset fPos : Nat}
    (pointers : ∀ i < blocks,
      indexs i = blockPointer sb disk inode (first + i))
    (nonzero : 0 < blocks)
    (above : (blocks - 1) * sb.blockSize < realSize)
    (below : realSize ≤ blocks * sb.blockSize)
    (inBlock : offset < sb.blockSize) (small : fPos + realSize < 2 ^ 32) :
    let state := ext2ReadLoop sb indexs blocks realSize blocks 0 offset
      (sb.blockSize - offset) ([], fPos)
    (offset = 0 → state =
      (slice (fileByte sb disk inode) (first * sb.blockSize) realSize,
        fPos + realSize)) ∧
    (blocks = 1 → state =
      (slice (wrapped disk)
          (blockPointer sb disk inode first * sb.blockSize + offset) realSize,
        fPos + realSize)) ∧
    (1 < blocks → state.2 + offset = fPos + realSize) := by
  have sizeBound := wellFormed.blockSize_le
  refine ⟨?_, ?_, ?_⟩
  · intro aligned
    rw [aligned, Nat.sub_zero, ext2ReadLoop_eq wellFormed serves inode
      pointers above below (Nat.zero_add blocks) _ (by omega)]
    simp
  · intro single
    subst single
    have length := @lastLen_eq sb.blockSize realSize 0 (by omega) below
    simp only [ext2ReadLoop, length, Nat.sub_self, if_true, Nat.zero_mul,
      Nat.sub_zero, List.nil_append]
    rw [add32_of_lt small, pointers 0 (by decide), Nat.add_zero,
      ext2ReadBlock_eq serves _ (by unfold sectSize; omega)]
  · intro several
    obtain ⟨left, rfl⟩ : ∃ left, blocks = left + 1 :=
      ⟨blocks - 1, by omega⟩
    have more : 1 * sb.blockSize ≤ (left + 1 - 1) * sb.blockSize :=
      Nat.mul_le_mul_right _ (by omega)
    rw [ext2ReadLoop, if_neg (by omega), add32_of_lt (by omega),
      ext2ReadLoop_eq wellFormed serves inode pointers above below
        (by omega) _ (by omega)]
    simp only
    omega

/-- The blocks that hold a number of bytes from the start of a block on. -/
theorem blocks_bounds {blockSize realSize : Nat} (positive : 0 < blockSize)
    (some : 0 < realSize) :
    let blocks := (realSize + (blockSize - 1)) / blockSize
    0 < blocks ∧ (blocks - 1) * blockSize < realSize ∧
      realSize ≤ blocks * blockSize := by
  intro blocks
  have split := Nat.div_add_mod' (realSize + (blockSize - 1)) blockSize
  have rest := Nat.mod_lt (realSize + (blockSize - 1)) positive
  change blocks * blockSize + _ = _ at split
  have nonzero : 0 < blocks := by
    apply Nat.div_pos _ positive
    omega
  refine ⟨nonzero, ?_, by omega⟩
  rw [Nat.sub_mul]
  omega

theorem blocks_fit {blockSize fPos count total : Nat}
    (positive : 0 < blockSize) (below : fPos + count ≤ blockSize * total) :
    fPos / blockSize + (count + (blockSize - 1)) / blockSize ≤ total := by
  have start := Nat.div_mul_le_self fPos blockSize
  have within : fPos / blockSize * blockSize + (count + (blockSize - 1)) <
      (total + 1) * blockSize := by
    rw [Nat.succ_mul, Nat.mul_comm total]
    omega
  have moved := (Nat.div_lt_iff_lt_mul positive).mpr within
  rw [Nat.add_comm, Nat.add_mul_div_right _ _ positive] at moved
  omega

/-- The number of bytes a read is to copy. -/
def readCount (inode : Inode) (fPos size : Nat) : Nat :=
  min size (inode.iSize - fPos)

/-- The range is copied, counted and skipped. -/
def ReadsRange (sb : SuperBlock) (disk : Nat → UInt8) (inode : Inode)
    (fPos size : Nat) (result : ReadResult) : Prop :=
  result.buff =
      slice (fileByte sb disk inode) fPos (readCount inode fPos size) ∧
    result.ret = readCount inode fPos size ∧
    result.fPos = fPos + readCount inode fPos size

/-- The count is not taken for an error, and the range starts at a block, or
stays within one, or is no longer than one and goes on on the disk as it does
in the file. -/
def Readable (sb : SuperBlock) (disk : Nat → UInt8) (inode : Inode)
    (fPos size : Nat) : Prop :=
  let count := readCount inode fPos size
  let offset := fPos % sb.blockSize
  count < 2 ^ 31 ∧
    (offset = 0 ∨ offset + count ≤ sb.blockSize ∨
      count ≤ sb.blockSize ∧ ∀ index < count,
        wrapped disk
          (blockPointer sb disk inode (fPos / sb.blockSize) * sb.blockSize +
            offset + index) = fileByte sb disk inode (fPos + index))

/-- Of the three ways the loop can go, only those within a block or from the
start of one copy the range. -/
theorem loop_reads_iff {inode : Inode} {fPos count blocks : Nat}
    {state : List UInt8 × Nat}
    (start : fPos / sb.blockSize * sb.blockSize + fPos % sb.blockSize = fPos)
    (nonzero : 0 < blocks) (above : (blocks - 1) * sb.blockSize < count)
    (below : count ≤ blocks * sb.blockSize)
    (aligned : fPos % sb.blockSize = 0 → state =
      (slice (fileByte sb disk inode) (fPos / sb.blockSize * sb.blockSize)
        count, fPos + count))
    (single : blocks = 1 → state =
      (slice (wrapped disk)
        (blockPointer sb disk inode (fPos / sb.blockSize) * sb.blockSize +
          fPos % sb.blockSize) count, fPos + count))
    (several : 1 < blocks → state.2 + fPos % sb.blockSize = fPos + count) :
    state.1 = slice (fileByte sb disk inode) fPos count ∧
        state.2 = fPos + count ↔
      fPos % sb.blockSize = 0 ∨
        fPos % sb.blockSize + count ≤ sb.blockSize ∨
        count ≤ sb.blockSize ∧ ∀ index < count,
          wrapped disk
            (blockPointer sb disk inode (fPos / sb.blockSize) *
              sb.blockSize + fPos % sb.blockSize + index) =
            fileByte sb disk inode (fPos + index) := by
  by_cases atBlock : fPos % sb.blockSize = 0
  · have begins : fPos / sb.blockSize * sb.blockSize = fPos := by omega
    rw [aligned atBlock, begins]
    simp [atBlock]
  · by_cases one : blocks = 1
    · rw [one, Nat.one_mul] at below
      rw [single one, ← slice_eq_iff]
      simp only [atBlock, and_true, false_or, below, true_and]
      constructor
      · exact Or.inr
      · rintro (within | same)
        · rw [slice_contentByte disk _ within, start]
          rfl
        · exact same
    · have many : 1 < blocks := by omega
      have wrong := several many
      have longer : 1 * sb.blockSize ≤ (blocks - 1) * sb.blockSize :=
        Nat.mul_le_mul_right _ (by omega)
      constructor
      · rintro ⟨-, moved⟩
        omega
      · rintro (zero | within | ⟨short, -⟩) <;> omega

section Read

variable (wellFormed : WellFormed sb) (serves : Serves sb.drive disk)
  (stack : Nat → Nat) {ino fPos : Nat}

include wellFormed serves

/-- A read that is not at the end of the file, as a run of the loop. -/
theorem ext2Read_eq (size : Nat)
    (before : fPos ≤ (inodeAt sb disk ino).iSize)
    (inside : fPos ≠ (inodeAt sb disk ino).iSize) :
    let inode := inodeAt sb disk ino
    let count := readCount inode fPos size
    let blocks := add32 count (sb.blockSize - 1) / sb.blockSize
    let indexs := getBlockIndexs sb inode (fPos / sb.blockSize) blocks
    let state := ext2ReadLoop sb (fun i => indexs.getD i (stack i)) blocks
      count blocks 0 (fPos % sb.blockSize)
      (sb.blockSize - fPos % sb.blockSize) ([], fPos)
    ext2Read sb stack ino fPos size =
      ⟨state.1, state.2, signed32 count⟩ := by
  have small := @iSize_lt sb disk wellFormed ino
  unfold ext2Read
  rw [ext2GetInode_eq wellFormed serves]
  simp only [if_neg inside]
  rw [sub32_of_le small before]
  rfl

variable
  (fits : (inodeAt sb disk ino).iSize ≤ sb.blockSize *
    (ext2IndBlock + sb.indexPerBlock + sb.indexPerBlock * sb.indexPerBlock))

include fits

theorem readIndexs_pointer {count : Nat}
    (within : fPos + count ≤ (inodeAt sb disk ino).iSize) {i : Nat}
    (inside : i < (count + (sb.blockSize - 1)) / sb.blockSize) :
    (getBlockIndexs sb (inodeAt sb disk ino) (fPos / sb.blockSize)
      ((count + (sb.blockSize - 1)) / sb.blockSize)).getD i (stack i) =
      blockPointer sb disk (inodeAt sb disk ino)
        (fPos / sb.blockSize + i) := by
  rw [getBlockIndexs_eq wellFormed serves
    (blocks_fit (blockSize_pos sb) (by omega))]
  simp [slice, inside]

/-- A read copies, counts and skips exactly its range if and only if the
range is readable. -/
theorem ext2Read_reads_iff (before : fPos ≤ (inodeAt sb disk ino).iSize)
    (size : Nat) :
    ReadsRange sb disk (inodeAt sb disk ino) fPos size
        (ext2Read sb stack ino fPos size) ↔
      Readable sb disk (inodeAt sb disk ino) fPos size := by
  have positive := blockSize_pos sb
  have inBlock := Nat.mod_lt fPos positive
  have start := Nat.div_add_mod' fPos sb.blockSize
  have sizeBound := wellFormed.blockSize_le
  have iSizeBound := @iSize_lt sb disk wellFormed ino
  by_cases atEnd : fPos = (inodeAt sb disk ino).iSize
  · have none : readCount (inodeAt sb disk ino) fPos size = 0 := by
      unfold readCount
      omega
    have result : ext2Read sb stack ino fPos size = ⟨[], fPos, 0⟩ := by
      unfold ext2Read
      rw [ext2GetInode_eq wellFormed serves]
      exact if_pos atEnd
    simp [ReadsRange, Readable, none, result, Nat.le_of_lt inBlock]
  · have run := ext2Read_eq wellFormed serves stack size before atEnd
    have within : fPos + readCount (inodeAt sb disk ino) fPos size ≤
        (inodeAt sb disk ino).iSize := by
      unfold readCount
      omega
    simp only at run
    unfold ReadsRange Readable
    rw [run]
    generalize readCount (inodeAt sb disk ino) fPos size = count at *
    simp only [signed32_eq_iff]
    by_cases small : count < 2 ^ 31
    · have noWrap : add32 count (sb.blockSize - 1) =
          count + (sb.blockSize - 1) := add32_of_lt (by omega)
      rw [noWrap]
      by_cases empty : count = 0
      · have noBlocks : (0 + (sb.blockSize - 1)) / sb.blockSize = 0 :=
          Nat.div_eq_of_lt (by omega)
        rw [empty, noBlocks]
        simp [ext2ReadLoop, Nat.le_of_lt inBlock]
      · obtain ⟨nonzero, above, below⟩ :=
          blocks_bounds positive (Nat.pos_of_ne_zero empty)
        obtain ⟨aligned, single, several⟩ := ext2ReadLoop_start wellFormed
          serves (inodeAt sb disk ino)
          (fun i => readIndexs_pointer wellFormed serves stack fits within)
          nonzero above below inBlock
          (show fPos + count < 2 ^ 32 by omega)
        generalize ext2ReadLoop sb _ _ count _ 0 _ _ ([], fPos) = state at *
        simp only [small, true_and]
        exact loop_reads_iff start nonzero above below aligned single several
    · simp only [small, false_and, and_false]

end Read

/-- Reads one after the other until one returns 0: the bytes they copy, and
whether one did. -/
def readRun (sb : SuperBlock) (stack : Nat → Nat) (ino : Nat) :
    List Nat → Nat → List UInt8 × Bool
  | [], _ => ([], false)
  | size :: sizes, fPos =>
      let result := ext2Read sb stack ino fPos size
      if result.ret = 0 then ([], true)
      else
        let rest := readRun sb stack ino sizes result.fPos
        (result.buff ++ rest.1, rest.2)

/-- Every read of the run is of a readable range. -/
def ReadableRun (sb : SuperBlock) (disk : Nat → UInt8) (inode : Inode) :
    List Nat → Nat → Prop
  | [], _ => True
  | size :: sizes, fPos =>
      Readable sb disk inode fPos size ∧
        ReadableRun sb disk inode sizes (fPos + readCount inode fPos size)

theorem readRun_eq (wellFormed : WellFormed sb)
    (serves : Serves sb.drive disk) (stack : Nat → Nat) {ino : Nat}
    (fits : (inodeAt sb disk ino).iSize ≤ sb.blockSize *
      (ext2IndBlock + sb.indexPerBlock +
        sb.indexPerBlock * sb.indexPerBlock))
    {sizes : List Nat} (positive : ∀ size ∈ sizes, 0 < size) {fPos : Nat}
    (before : fPos ≤ (inodeAt sb disk ino).iSize)
    (readable : ReadableRun sb disk (inodeAt sb disk ino) sizes fPos)
    (ended : (readRun sb stack ino sizes fPos).2 = true) :
    (readRun sb stack ino sizes fPos).1 =
      slice (fileByte sb disk (inodeAt sb disk ino)) fPos
        ((inodeAt sb disk ino).iSize - fPos) := by
  induction sizes generalizing fPos with
  | nil => cases ended
  | cons size sizes induction =>
      obtain ⟨first, later⟩ := readable
      obtain ⟨copied, counted, moved⟩ :=
        (ext2Read_reads_iff wellFormed serves stack fits before size).mpr
          first
      have within : fPos + readCount (inodeAt sb disk ino) fPos size ≤
          (inodeAt sb disk ino).iSize := by
        unfold readCount
        omega
      have some : 0 < size := positive size List.mem_cons_self
      unfold readRun at ended ⊢
      simp only at ended ⊢
      by_cases zero : (ext2Read sb stack ino fPos size).ret = 0
      · have done : (inodeAt sb disk ino).iSize - fPos = 0 := by
          rw [counted] at zero
          unfold readCount at zero
          omega
        rw [if_pos zero, done, slice_zero]
      · rw [if_neg zero] at ended ⊢
        rw [moved] at ended ⊢
        simp only at ended ⊢
        have whole : (inodeAt sb disk ino).iSize - fPos =
            readCount (inodeAt sb disk ino) fPos size +
              ((inodeAt sb disk ino).iSize -
                (fPos + readCount (inodeAt sb disk ino) fPos size)) := by
          omega
        rw [copied, induction (fun size member =>
          positive size (List.mem_cons_of_mem _ member)) within later ended,
          slice_append, ← whole]

/-- A read copies, counts and skips exactly its range if and only if the range
is readable; a run of readable reads from the start of the file that ends with
0 yields the file. -/
theorem ext2Read_file (sb : SuperBlock) (disk : Nat → UInt8)
    (wellFormed : WellFormed sb) (serves : Serves sb.drive disk)
    (stack : Nat → Nat) (ino : Nat)
    (fits : (inodeAt sb disk ino).iSize ≤ sb.blockSize *
      (ext2IndBlock + sb.indexPerBlock +
        sb.indexPerBlock * sb.indexPerBlock)) :
    (∀ fPos ≤ (inodeAt sb disk ino).iSize, ∀ size,
      ReadsRange sb disk (inodeAt sb disk ino) fPos size
          (ext2Read sb stack ino fPos size) ↔
        Readable sb disk (inodeAt sb disk ino) fPos size) ∧
    (∀ sizes, (∀ size ∈ sizes, 0 < size) →
      ReadableRun sb disk (inodeAt sb disk ino) sizes 0 →
      (readRun sb stack ino sizes 0).2 = true →
      (readRun sb stack ino sizes 0).1 =
        slice (fileByte sb disk (inodeAt sb disk ino)) 0
          (inodeAt sb disk ino).iSize) := by
  constructor
  · intro fPos before size
    exact ext2Read_reads_iff wellFormed serves stack fits before size
  · intro sizes positive readable ended
    exact readRun_eq wellFormed serves stack fits positive (Nat.zero_le _)
      readable ended

/-- A disk with blocks of 1024 bytes: the inode table is block 5, and its
first inode is of a file of 2000 bytes in the blocks 10 and 20. -/
def sampleDisk (position : Nat) : UInt8 :=
  if position = 5 * 1024 + 4 then 0xd0
  else if position = 5 * 1024 + 5 then 0x07
  else if position = 5 * 1024 + 40 then 10
  else if position = 5 * 1024 + 44 then 20
  else if position / 1024 = 10 then 1
  else if position / 1024 = 20 then 2
  else 0

def sampleVolume : SuperBlock where
  drive := ⟨fun position => some (slice sampleDisk position sectSize),
    fun _ => 0⟩
  sLogBlockSize := 0
  sInodeSize := 128
  sInodesPerGroup := 8
  bgInodeTable := fun _ => 5

theorem sampleVolume_wellFormed : WellFormed sampleVolume := by
  refine ⟨by decide, by decide, ?_, by decide⟩
  exact ⟨8, by decide⟩

theorem iSize_sample : (inodeAt sampleVolume sampleDisk 1).iSize = 2000 := by
  decide +kernel

theorem ext2Read_file_sample :
    (readRun sampleVolume (fun _ => 0) 1 [2000, 1] 0).1 =
      slice (fileByte sampleVolume sampleDisk
        (inodeAt sampleVolume sampleDisk 1)) 0 2000 := by
  have fits : (inodeAt sampleVolume sampleDisk 1).iSize ≤
      sampleVolume.blockSize *
        (ext2IndBlock + sampleVolume.indexPerBlock +
          sampleVolume.indexPerBlock * sampleVolume.indexPerBlock) := by
    rw [iSize_sample]
    decide
  have readable : ReadableRun sampleVolume sampleDisk
      (inodeAt sampleVolume sampleDisk 1) [2000, 1] 0 := by
    simp only [ReadableRun, Readable, readCount, iSize_sample]
    decide
  have ended :
      (readRun sampleVolume (fun _ => 0) 1 [2000, 1] 0).2 = true := by
    decide +kernel
  rw [← iSize_sample]
  exact (ext2Read_file sampleVolume sampleDisk sampleVolume_wellFormed
    (fun _ => rfl) (fun _ => 0) 1 fits).2 [2000, 1] (by decide) readable
    ended

/-- A range of 100 bytes from position 1000 of the sample file is read from
block 10 and the block behind it on the disk. -/
theorem ext2Read_not_file :
    ¬ ReadsRange sampleVolume sampleDisk
      (inodeAt sampleVolume sampleDisk 1) 1000 100
      (ext2Read sampleVolume (fun _ => 0) 1 1000 100) := by
  unfold ReadsRange
  decide +kernel

end Volume

end Witos.Fs
