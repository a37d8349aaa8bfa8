import Witos.Fs.Ext2

/-!
# The block map of an ext2 file

The pointer of a logical block is a direct entry of the inode, an entry of the
indirect block, or an entry of an entry of the double indirect block.
`get_block_indexs` finds the pointers of any range of blocks in this region.
-/

namespace Witos.Fs

open Library

/-- What the code takes for granted about a volume. -/
structure WellFormed (sb : SuperBlock) : Prop where
  logBlockSize : sb.sLogBlockSize ≤ 6
  inodeSize : 128 ≤ sb.sInodeSize
  divides : sb.sInodeSize ∣ sb.blockSize
  inodesPerGroup : 0 < sb.sInodesPerGroup

theorem blockSize_eq (sb : SuperBlock) :
    sb.blockSize = 4 * sb.indexPerBlock := by
  unfold SuperBlock.indexPerBlock SuperBlock.blockSize
  rw [show sb.sLogBlockSize + 10 = sb.sLogBlockSize + 8 + 2 by rfl, pow_add]
  omega

theorem sectors_blockSize (sb : SuperBlock) :
    2 ^ (sb.sLogBlockSize + 1) * sectSize = sb.blockSize := by
  unfold sectSize SuperBlock.blockSize
  rw [show sb.sLogBlockSize + 10 = sb.sLogBlockSize + 1 + 9 by rfl,
    pow_add 2 (sb.sLogBlockSize + 1) 9]
  rfl

theorem indexPerBlock_pos (sb : SuperBlock) : 0 < sb.indexPerBlock := by
  have positive : 0 < sb.blockSize := Nat.two_pow_pos _
  rw [blockSize_eq] at positive
  omega

theorem indexPerBlock_eq (sb : SuperBlock) :
    sb.indexPerBlock = 2 ^ (sb.sLogBlockSize + 8) := by
  have split : sb.blockSize = 4 * 2 ^ (sb.sLogBlockSize + 8) := by
    unfold SuperBlock.blockSize
    rw [show sb.sLogBlockSize + 10 = 2 + (sb.sLogBlockSize + 8) by omega,
      pow_add]
    rfl
  have size := blockSize_eq sb
  omega

theorem indexPerBlock_le {sb : SuperBlock} {log : Nat}
    (small : sb.sLogBlockSize ≤ log) : sb.indexPerBlock ≤ 2 ^ (log + 8) := by
  rw [indexPerBlock_eq]
  exact Nat.pow_le_pow_right (by decide) (by omega)

theorem WellFormed.indexPerBlock_le {sb : SuperBlock}
    (wellFormed : WellFormed sb) : sb.indexPerBlock ≤ 2 ^ 14 :=
  Fs.indexPerBlock_le wellFormed.logBlockSize

/-- `1 << (s_log_block_size + 10)` is a word. -/
theorem WellFormed.shifts {sb : SuperBlock} (wellFormed : WellFormed sb) :
    sb.sLogBlockSize ≤ 21 :=
  Nat.le_trans wellFormed.logBlockSize (by decide)

section Map

variable {sb : SuperBlock} {disk : Nat → UInt8}

/-- A drive that never fails gives the bytes at the block's position. -/
theorem ext2ReadBlock_eq (serves : Serves sb.drive disk) (blkNo : Nat)
    {off size : Nat} (small : off + size + sectSize ≤ 2 ^ 32) :
    ext2ReadBlock sb blkNo off size =
      slice (wrapped disk) (blkNo * sb.blockSize + off) size := by
  have whole : (off + size + sectSize - 1) % 2 ^ 32 =
      off + size + sectSize - 1 := by
    apply Nat.mod_eq_of_lt
    unfold sectSize at *
    omega
  have enough : min size
      (clearLow sectSize (off + size + sectSize - 1) / sectSize * sectSize -
        off) = size := by
    unfold clearLow sectSize
    omega
  unfold ext2ReadBlock
  simp only
  rw [whole, submitBio_eq serves, take_drop_slice, enough]
  apply slice_congr
  intro index inside
  apply wrapped_mod
  rw [← sectors_blockSize, ← Nat.mul_assoc]
  unfold sectSize
  omega

/-- An entry of a block of pointers on the disk. -/
def entryAt (sb : SuperBlock) (disk : Nat → UInt8) (blkNo index : Nat) : Nat :=
  leValue (slice (wrapped disk) (blkNo * sb.blockSize + 4 * index) 4)

theorem entry_slice (memory : Nat → UInt8) (offset : Nat) {count index : Nat}
    (inside : 4 * index + 4 ≤ count) :
    entry (slice memory offset count) index =
      leValue (slice memory (offset + 4 * index) 4) := by
  have enough : min 4 (count - 4 * index) = 4 := by omega
  rw [entry, take_drop_slice, enough]

theorem readIndexs_eq (shifts : sb.sLogBlockSize ≤ 21)
    (serves : Serves sb.drive disk) (blkNo : Nat) :
    readIndexs sb blkNo =
      slice (entryAt sb disk blkNo) 0 sb.indexPerBlock := by
  have bound := indexPerBlock_le shifts
  have size := blockSize_eq sb
  apply slice_congr
  intro index inside
  rw [ext2ReadBlock_eq serves blkNo (by unfold sectSize; omega),
    entry_slice _ _ (by omega)]
  rfl

/-- The pointers behind the double indirect block. -/
def dindPointer (sb : SuperBlock) (disk : Nat → UInt8) (inode : Inode)
    (index : Nat) : Nat :=
  entryAt sb disk
    (entryAt sb disk (inode.iBlock ext2DindBlock) (index / sb.indexPerBlock))
    (index % sb.indexPerBlock)

/-- The pointer of a logical block. -/
def blockPointer (sb : SuperBlock) (disk : Nat → UInt8) (inode : Inode)
    (block : Nat) : Nat :=
  if block < ext2IndBlock then inode.iBlock block
  else if block < ext2IndBlock + sb.indexPerBlock then
    entryAt sb disk (inode.iBlock ext2IndBlock) (block - ext2IndBlock)
  else dindPointer sb disk inode (block - ext2IndBlock - sb.indexPerBlock)

theorem getIndBlock_eq (shifts : sb.sLogBlockSize ≤ 21)
    (serves : Serves sb.drive disk) (inode : Inode) (startBlock : Int)
    (len : Nat) :
    getIndBlock sb inode startBlock len =
      slice (entryAt sb disk (inode.iBlock ext2IndBlock)) startBlock.toNat
        (min len (sb.indexPerBlock - startBlock.toNat)) := by
  unfold getIndBlock
  split
  case isTrue empty => simp [empty]
  case isFalse =>
    rw [readIndexs_eq shifts serves, take_drop_slice, Nat.zero_add]

theorem getD_readIndexs (shifts : sb.sLogBlockSize ≤ 21)
    (serves : Serves sb.drive disk) (blkNo : Nat) {index : Nat}
    (inside : index < sb.indexPerBlock) :
    (readIndexs sb blkNo).getD index 0 = entryAt sb disk blkNo index := by
  rw [readIndexs_eq shifts serves]
  simp [slice, inside]

/-- The loop of `get_dind_block` is the inner one of `get_tind_block`. -/
theorem dindLoop_eq_tindInner (buff : List Nat) (len left j k : Nat)
    (indexs : List Nat) :
    dindLoop sb buff len left j k indexs =
      (tindInner sb buff len left j k indexs).1 := by
  induction left generalizing j k indexs with
  | zero => rfl
  | succ left induction =>
      rw [dindLoop, tindInner]
      split
      · rfl
      · exact induction _ _ _

theorem slice_entryAt_of_block {pointer : Nat → Nat} {blkNo base : Nat}
    (behind : ∀ index < sb.indexPerBlock * sb.indexPerBlock,
      pointer (base + index) =
        entryAt sb disk (entryAt sb disk blkNo (index / sb.indexPerBlock))
          (index % sb.indexPerBlock))
    {k h count : Nat} (bound : k < sb.indexPerBlock)
    (within : h + count ≤ sb.indexPerBlock) :
    slice (entryAt sb disk (entryAt sb disk blkNo k)) h count =
      slice pointer (base + k * sb.indexPerBlock + h) count := by
  apply slice_congr
  intro index small
  have below : k * sb.indexPerBlock + sb.indexPerBlock ≤
      sb.indexPerBlock * sb.indexPerBlock := by
    rw [← Nat.succ_mul]
    exact Nat.mul_le_mul_right _ bound
  have inside : h + index < sb.indexPerBlock := by omega
  obtain ⟨inBlock, place⟩ := div_mod_of_block k inside
  rw [Nat.add_assoc, Nat.add_assoc, behind _ (by omega), inBlock, place]

/-- The loop has copied the pointers before its position; each block of
pointers adds those up to its end.  The index behind the last block is 0. -/
theorem tindInner_range (shifts : sb.sLogBlockSize ≤ 21)
    (serves : Serves sb.drive disk) {pointer : Nat → Nat}
    {blkNo base start len : Nat}
    (behind : ∀ index < sb.indexPerBlock * sb.indexPerBlock,
      pointer (base + index) =
        entryAt sb disk (entryAt sb disk blkNo (index / sb.indexPerBlock))
          (index % sb.indexPerBlock))
    {left k h count : Nat}
    (position : start + count = base + k * sb.indexPerBlock + h)
    (inside : h < sb.indexPerBlock) (unfinished : count < len)
    (blocks : k + left = sb.indexPerBlock) (ended : left = 0 → h = 0) :
    (tindInner sb (readIndexs sb blkNo) len left k h
        (slice pointer start count)).1 =
      slice pointer start
        (min len (base + sb.indexPerBlock * sb.indexPerBlock - start)) ∧
    (base + sb.indexPerBlock * sb.indexPerBlock - start < len →
      (tindInner sb (readIndexs sb blkNo) len left k h
        (slice pointer start count)).2 = 0) := by
  induction left generalizing k h count with
  | zero =>
      obtain rfl : k = sb.indexPerBlock := by omega
      have all : base + sb.indexPerBlock * sb.indexPerBlock - start =
          count := by
        have first := ended rfl
        omega
      rw [all, Nat.min_eq_right (Nat.le_of_lt unfinished)]
      exact ⟨rfl, fun _ => ended rfl⟩
  | succ left induction =>
      have bound : k < sb.indexPerBlock := by omega
      have below : k * sb.indexPerBlock + sb.indexPerBlock ≤
          sb.indexPerBlock * sb.indexPerBlock := by
        rw [← Nat.succ_mul]
        exact Nat.mul_le_mul_right _ bound
      have copied :
          slice (entryAt sb disk (entryAt sb disk blkNo k)) h
              (min (len - count) (sb.indexPerBlock - h)) =
            slice pointer (start + count)
              (min (len - count) (sb.indexPerBlock - h)) := by
        rw [position]
        exact slice_entryAt_of_block behind bound (by omega)
      unfold tindInner
      simp only [length_slice]
      rw [getD_readIndexs shifts serves blkNo bound,
        readIndexs_eq shifts serves, take_drop_slice, Nat.zero_add, copied,
        slice_append, length_slice]
      by_cases done : len - count ≤ sb.indexPerBlock - h
      · have whole : count + min (len - count) (sb.indexPerBlock - h) =
            len := by omega
        rw [whole, if_pos (Nat.le_refl len), Nat.min_eq_left (by omega)]
        exact ⟨rfl, fun missing => by omega⟩
      · have more : count + min (len - count) (sb.indexPerBlock - h) =
            count + (sb.indexPerBlock - h) := by omega
        rw [more, if_neg (by omega)]
        apply induction
        · rw [Nat.succ_mul]
          omega
        · exact indexPerBlock_pos sb
        · omega
        · omega
        · exact fun _ => rfl

theorem getDindBlock_eq (shifts : sb.sLogBlockSize ≤ 21)
    (serves : Serves sb.drive disk) (inode : Inode) {startBlock : Int}
    {len : Nat}
    (fits : startBlock.toNat + len ≤ sb.indexPerBlock * sb.indexPerBlock) :
    getDindBlock sb inode startBlock len =
      slice (dindPointer sb disk inode) startBlock.toNat len := by
  unfold getDindBlock
  split
  case isTrue empty => simp [empty]
  case isFalse nonempty =>
    have positive := indexPerBlock_pos sb
    have first : startBlock.toNat / sb.indexPerBlock < sb.indexPerBlock := by
      apply Nat.div_lt_of_lt_mul
      omega
    have behind (index : Nat)
        (_ : index < sb.indexPerBlock * sb.indexPerBlock) :
        dindPointer sb disk inode (0 + index) =
          entryAt sb disk (entryAt sb disk (inode.iBlock ext2DindBlock)
            (index / sb.indexPerBlock)) (index % sb.indexPerBlock) := by
      rw [Nat.zero_add]
      rfl
    have position : startBlock.toNat + 0 =
        0 + startBlock.toNat / sb.indexPerBlock * sb.indexPerBlock +
          startBlock.toNat % sb.indexPerBlock := by
      rw [Nat.add_zero, Nat.zero_add, Nat.div_add_mod']
    have loop := tindInner_range shifts serves behind position
      (Nat.mod_lt _ positive) (Nat.pos_of_ne_zero nonempty)
      (Nat.add_sub_cancel' (Nat.le_of_lt first)) (by omega)
    simp only [dindLoop_eq_tindInner]
    rw [slice_zero] at loop
    rw [loop.1, Nat.min_eq_left (by omega)]

/-- The pointers of the range below `bound` have been found. -/
structure Covers (pointer : Nat → Nat) (startBlock len bound : Nat)
    (first : Int) (state : List Nat × Int) : Prop where
  indexs : state.1 = slice pointer startBlock (min len (bound - startBlock))
  used : startBlock < bound → state.2 = -1 ∨ len ≤ bound - startBlock
  unused : bound ≤ startBlock → state.2 = first

theorem useLayer_of_found (layer : Int) (get : Nat → List Nat) {len : Nat}
    {state : List Nat × Int} (found : len ≤ state.1.length) :
    useLayer layer get len state = state :=
  if_neg fun chosen => by omega

theorem missing_le {startBlock len bound total : Nat}
    (fits : startBlock + len ≤ total) (missing : bound - startBlock < len) :
    len - (bound - startBlock) ≤ total - max startBlock bound := by
  omega

theorem useLayer_covers {pointer : Nat → Nat}
    {startBlock len bound width : Nat} {first layer : Int}
    {state : List Nat × Int} {get : Nat → List Nat}
    (covers : Covers pointer startBlock len bound first state)
    (here : bound ≤ startBlock → startBlock < bound + width → first = layer)
    (later : bound + width ≤ startBlock → first ≠ layer ∧ first ≠ -1)
    (gets : startBlock < bound + width → bound - startBlock < len →
      get (len - (bound - startBlock)) =
        slice pointer (max startBlock bound)
          (min (len - (bound - startBlock))
            (bound + width - max startBlock bound))) :
    Covers pointer startBlock len (bound + width) first
      (useLayer layer get len state) := by
  have length : state.1.length = min len (bound - startBlock) := by
    rw [covers.indexs, length_slice]
  unfold useLayer
  by_cases found : len ≤ bound - startBlock
  · have all : min len (bound + width - startBlock) =
        min len (bound - startBlock) := by omega
    rw [if_neg (by omega)]
    refine ⟨by rw [all, covers.indexs], fun _ => Or.inr (by omega), ?_⟩
    intro beyond
    exact covers.unused (by omega)
  · have known : state.1.length = bound - startBlock := by omega
    by_cases within : startBlock < bound + width
    · have chosen : state.2 = layer ∨ state.2 = -1 := by
        by_cases before : startBlock < bound
        · exact Or.inr ((covers.used before).resolve_right found)
        · left
          rw [covers.unused (by omega), here (by omega) within]
      have begins : startBlock + (bound - startBlock) =
          max startBlock bound := by omega
      have total : bound - startBlock + min (len - (bound - startBlock))
          (bound + width - max startBlock bound) =
          min len (bound + width - startBlock) := by omega
      rw [if_pos ⟨by omega, chosen⟩]
      refine ⟨?_, fun _ => Or.inl rfl, fun beyond => by omega⟩
      simp only
      rw [known, gets within (by omega), covers.indexs, ← total, ← begins,
        Nat.min_eq_right (by omega), slice_append]
    · have other := later (by omega)
      have same : state.2 = first := covers.unused (by omega)
      have none : min len (bound + width - startBlock) =
          min len (bound - startBlock) := by omega
      rw [if_neg (by
        rw [same]
        exact fun chosen => chosen.2.elim other.1 other.2)]
      exact ⟨by rw [none, covers.indexs], fun inside => absurd inside within,
        fun _ => same⟩

theorem WellFormed.square_le (wellFormed : WellFormed sb) :
    sb.indexPerBlock * sb.indexPerBlock ≤ 2 ^ 28 := by
  have bound := wellFormed.indexPerBlock_le
  calc sb.indexPerBlock * sb.indexPerBlock ≤ 2 ^ 14 * 2 ^ 14 :=
        Nat.mul_le_mul bound bound
    _ = 2 ^ 28 := rfl

theorem getStartLayer_eq (shifts : sb.sLogBlockSize ≤ 21)
    (startBlock : Nat) :
    getStartLayer startBlock sb.indexPerBlock =
      if startBlock < ext2IndBlock then 0
      else if startBlock < ext2IndBlock + sb.indexPerBlock then 1
      else if startBlock < add32 (ext2IndBlock + sb.indexPerBlock)
          (sb.indexPerBlock * sb.indexPerBlock % 2 ^ 32) then 2
      else 3 := by
  have bound := indexPerBlock_le shifts
  have inner : add32 ext2IndBlock sb.indexPerBlock =
      ext2IndBlock + sb.indexPerBlock :=
    add32_of_lt (by unfold ext2IndBlock; omega)
  unfold getStartLayer
  rw [inner]

/-- Up to 128 KiB a block, the blocks of the double indirect region are
numbered without wrapping. -/
theorem getStartLayer_dind (small : sb.sLogBlockSize ≤ 7) {startBlock : Nat}
    (after : ext2IndBlock + sb.indexPerBlock ≤ startBlock)
    (before : startBlock < ext2IndBlock + sb.indexPerBlock +
      sb.indexPerBlock * sb.indexPerBlock) :
    getStartLayer startBlock sb.indexPerBlock = 2 := by
  have bound := indexPerBlock_le small
  have square : sb.indexPerBlock * sb.indexPerBlock ≤ 2 ^ 15 * 2 ^ 15 :=
    Nat.mul_le_mul bound bound
  have indBlock : ext2IndBlock = 12 := rfl
  rw [getStartLayer_eq (by omega), if_neg (by omega), if_neg (by omega),
    Nat.mod_eq_of_lt (by omega), add32_of_lt (by omega), if_pos before]

theorem useDirect_covers (shifts : sb.sLogBlockSize ≤ 21)
    (disk : Nat → UInt8) (inode : Inode) (startBlock len : Nat) :
    Covers (blockPointer sb disk inode) startBlock len ext2IndBlock
      (getStartLayer startBlock sb.indexPerBlock)
      (useDirect inode startBlock len
        (getStartLayer startBlock sb.indexPerBlock)) := by
  have layer := getStartLayer_eq shifts startBlock
  unfold useDirect
  by_cases direct : startBlock < ext2IndBlock
  · rw [if_pos direct] at layer
    rw [if_pos layer]
    refine ⟨?_, fun _ => Or.inl rfl, fun beyond => by omega⟩
    apply slice_congr
    intro index inside
    rw [blockPointer, if_pos (by omega)]
  · have empty : min len (ext2IndBlock - startBlock) = 0 := by omega
    have indirect : getStartLayer startBlock sb.indexPerBlock ≠ 0 := by
      rw [layer, if_neg direct]
      split
      · decide
      · split <;> decide
    rw [if_neg indirect]
    exact ⟨by rw [empty, slice_zero], fun inside => absurd inside direct,
      fun _ => rfl⟩

section Layers

variable (shifts : sb.sLogBlockSize ≤ 21) (serves : Serves sb.drive disk)
  {inode : Inode} {startBlock len : Nat} {state : List Nat × Int}

include shifts serves

theorem indLayer_covers (small : startBlock < 2 ^ 31)
    (direct : Covers (blockPointer sb disk inode) startBlock len ext2IndBlock
      (getStartLayer startBlock sb.indexPerBlock) state) :
    Covers (blockPointer sb disk inode) startBlock len
      (ext2IndBlock + sb.indexPerBlock)
      (getStartLayer startBlock sb.indexPerBlock)
      (useLayer 1 (getIndBlock sb inode
        (signed32 (sub32 startBlock ext2IndBlock))) len state) := by
  have layer := getStartLayer_eq shifts startBlock
  apply useLayer_covers direct
  · intro after before
    rw [layer, if_neg (by omega), if_pos before]
  · intro after
    rw [layer, if_neg (by omega), if_neg (by omega)]
    split <;> decide
  · intro before missing
    rw [getIndBlock_eq shifts serves,
      toNat_signed32_sub32 small (by decide)]
    have rest : sb.indexPerBlock - (startBlock - ext2IndBlock) =
        ext2IndBlock + sb.indexPerBlock - max startBlock ext2IndBlock := by
      omega
    rw [rest]
    apply slice_congr
    intro index inside
    rw [blockPointer, if_neg (by omega), if_pos (by omega)]
    congr 1
    omega

theorem dindLayer_covers (small : startBlock < 2 ^ 31)
    (layered : sb.sLogBlockSize ≤ 7 ∨
      startBlock < ext2IndBlock + sb.indexPerBlock)
    (fits : startBlock + len ≤ ext2IndBlock + sb.indexPerBlock +
      sb.indexPerBlock * sb.indexPerBlock) (nonempty : len ≠ 0)
    (ind : Covers (blockPointer sb disk inode) startBlock len
      (ext2IndBlock + sb.indexPerBlock)
      (getStartLayer startBlock sb.indexPerBlock) state) :
    Covers (blockPointer sb disk inode) startBlock len
      (ext2IndBlock + sb.indexPerBlock +
        sb.indexPerBlock * sb.indexPerBlock)
      (getStartLayer startBlock sb.indexPerBlock)
      (useLayer 2 (getDindBlock sb inode
        (signed32 (sub32 (sub32 startBlock ext2IndBlock) sb.indexPerBlock)))
        len state) := by
  have bound := indexPerBlock_le shifts
  apply useLayer_covers ind
  · intro after before
    exact getStartLayer_dind (layered.resolve_right (by omega)) after before
  · intro after
    have empty : len = 0 := by omega
    exact absurd empty nonempty
  · intro before missing
    have start : (signed32 (sub32 (sub32 startBlock ext2IndBlock)
        sb.indexPerBlock)).toNat =
        startBlock - (ext2IndBlock + sb.indexPerBlock) := by
      rw [sub32_sub32]
      apply toNat_signed32_sub32 small
      unfold ext2IndBlock
      omega
    have all : min (len - (ext2IndBlock + sb.indexPerBlock - startBlock))
        (ext2IndBlock + sb.indexPerBlock +
          sb.indexPerBlock * sb.indexPerBlock -
          max startBlock (ext2IndBlock + sb.indexPerBlock)) =
        len - (ext2IndBlock + sb.indexPerBlock - startBlock) := by
      apply Nat.min_eq_left
      exact missing_le fits missing
    rw [all, getDindBlock_eq shifts serves inode (by rw [start]; omega),
      start]
    apply slice_congr
    intro index inside
    rw [blockPointer, if_neg (by omega), if_neg (by omega)]
    congr 1
    omega

theorem getBlockIndexs_range
    (layered : sb.sLogBlockSize ≤ 7 ∨
      startBlock < ext2IndBlock + sb.indexPerBlock)
    (fits : startBlock + len ≤ ext2IndBlock + sb.indexPerBlock +
      sb.indexPerBlock * sb.indexPerBlock) :
    getBlockIndexs sb inode startBlock len =
      slice (blockPointer sb disk inode) startBlock len := by
  have indBlock : ext2IndBlock = 12 := rfl
  have small : startBlock < 2 ^ 31 := by
    rcases layered with few | early
    · have bound := indexPerBlock_le few
      have square : sb.indexPerBlock * sb.indexPerBlock ≤ 2 ^ 15 * 2 ^ 15 :=
        Nat.mul_le_mul bound bound
      omega
    · have bound := indexPerBlock_le shifts
      omega
  unfold getBlockIndexs
  split
  case isTrue empty => rw [empty, slice_zero]
  case isFalse nonempty =>
    have direct := useDirect_covers shifts disk inode startBlock len
    have ind := indLayer_covers shifts serves small direct
    have dind := dindLayer_covers shifts serves small layered fits nonempty
      ind
    have all : min len (ext2IndBlock + sb.indexPerBlock +
        sb.indexPerBlock * sb.indexPerBlock - startBlock) = len := by
      omega
    have indexs := dind.indexs
    rw [all] at indexs
    have found := congrArg List.length indexs
    rw [length_slice] at found
    simp only
    rw [useLayer_of_found 3 _ (Nat.le_of_eq found.symm), indexs]

end Layers

theorem getBlockIndexs_eq (wellFormed : WellFormed sb)
    (serves : Serves sb.drive disk) {inode : Inode} {startBlock len : Nat}
    (fits : startBlock + len ≤ ext2IndBlock + sb.indexPerBlock +
      sb.indexPerBlock * sb.indexPerBlock) :
    getBlockIndexs sb inode startBlock len =
      slice (blockPointer sb disk inode) startBlock len :=
  getBlockIndexs_range wellFormed.shifts serves
    (.inl (Nat.le_trans wellFormed.logBlockSize (by decide))) fits

end Map

end Witos.Fs
