import Mathlib.Data.List.GetD
import Witos.Fs.Ext2Map

/-!
# The ranges that the block map finds

`get_start_layer` squares the number of entries of a block in 32 bits.  With
blocks of 256 KiB or more the square is a multiple of `2 ^ 32`, so a range
that starts in the double indirect region is looked up in the triple indirect
one.  Ranges that start before that region are found at any block size, since
the later layers follow from the first one.
-/

namespace Witos.Fs

open Library

/-- Whatever the inode and the disk, `get_block_indexs` returns `len` and fills
in the pointers of the blocks from `startBlock` on. -/
def MapsRange (logBlockSize startBlock len : Nat) : Prop :=
  ∀ (sb : SuperBlock) (disk : Nat → UInt8) (inode : Inode),
    sb.sLogBlockSize = logBlockSize → Serves sb.drive disk →
    (getBlockIndexs sb inode startBlock len).length = len ∧
      ∀ index < len,
        (getBlockIndexs sb inode startBlock len).getD index 0 =
          blockPointer sb disk inode (startBlock + index)

/-- Entries of a block of pointers. -/
def entriesOf (logBlockSize : Nat) : Nat :=
  2 ^ (logBlockSize + 8)

/-- A layer that is not the first one and does not follow a used one. -/
theorem useLayer_of_other (layer : Int) (get : Nat → List Nat) (len : Nat)
    {state : List Nat × Int} (other : state.2 ≠ layer)
    (unused : state.2 ≠ -1) : useLayer layer get len state = state :=
  if_neg fun chosen => chosen.2.elim other unused

/-- Every entry of block 0 is 0, and every entry of block 1 is 1. -/
def twoBlocksDisk (blockSize : Nat) : Nat → UInt8 :=
  fun position => if blockSize ≤ position ∧ position % 4 = 0 then 1 else 0

def twoBlocksVolume (logBlockSize : Nat) : SuperBlock where
  drive :=
    { getBlock := fun position =>
        some (slice (twoBlocksDisk (2 ^ (logBlockSize + 10))) position
          sectSize)
      junk := fun _ => 0 }
  sLogBlockSize := logBlockSize
  sInodeSize := 128
  sInodesPerGroup := 1
  bgInodeTable := fun _ => 0

/-- Only the triple indirect block is block 1. -/
def tripleInode : Inode where
  iSize := 0
  iBlock := fun index => if index = ext2TindBlock then 1 else 0

theorem twoBlocksVolume_serves (logBlockSize : Nat) :
    Serves (twoBlocksVolume logBlockSize).drive
      (twoBlocksDisk (2 ^ (logBlockSize + 10))) :=
  fun _ => rfl

section TwoBlocks

variable {logBlockSize : Nat} (shifts : logBlockSize ≤ 21)

include shifts

theorem entryAt_twoBlocks {blkNo index : Nat} (known : blkNo ≤ 1)
    (inside : index < (twoBlocksVolume logBlockSize).indexPerBlock) :
    entryAt (twoBlocksVolume logBlockSize)
      (twoBlocksDisk (2 ^ (logBlockSize + 10))) blkNo index = blkNo := by
  have size := blockSize_eq (twoBlocksVolume logBlockSize)
  have bound : (twoBlocksVolume logBlockSize).indexPerBlock ≤ 2 ^ 29 :=
    indexPerBlock_le shifts
  have same : (twoBlocksVolume logBlockSize).blockSize =
      2 ^ (logBlockSize + 10) := rfl
  rw [entryAt, ← same, size]
  generalize (twoBlocksVolume logBlockSize).indexPerBlock = count at *
  have bytes : slice (wrapped (twoBlocksDisk (4 * count)))
      (blkNo * (4 * count) + 4 * index) 4 =
      [UInt8.ofNat blkNo, 0, 0, 0] := by
    have cell : ∀ j < 4, wrapped (twoBlocksDisk (4 * count))
        (blkNo * (4 * count) + 4 * index + j) =
          if j = 0 then UInt8.ofNat blkNo else 0 := by
      intro j below
      rcases Nat.le_one_iff_eq_zero_or_eq_one.mp known with rfl | rfl
      · have small : 0 * (4 * count) + 4 * index + j < 2 ^ 32 := by omega
        have outside : ¬(4 * count ≤ 0 * (4 * count) + 4 * index + j ∧
            (0 * (4 * count) + 4 * index + j) % 4 = 0) := by omega
        rw [wrapped, Nat.mod_eq_of_lt small, twoBlocksDisk, if_neg outside]
        exact (ite_self _).symm
      · have small : 1 * (4 * count) + 4 * index + j < 2 ^ 32 := by omega
        have first : (4 * count ≤ 1 * (4 * count) + 4 * index + j ∧
            (1 * (4 * count) + 4 * index + j) % 4 = 0) ↔ j = 0 := by omega
        rw [wrapped, Nat.mod_eq_of_lt small, twoBlocksDisk]
        simp only [first]
        rfl
    simp only [slice, List.range_succ, List.range_zero, List.nil_append,
      List.cons_append, List.map_cons, List.map_nil]
    rw [cell 0 (by decide), cell 1 (by decide), cell 2 (by decide),
      cell 3 (by decide)]
    rfl
  rw [bytes]
  rcases Nat.le_one_iff_eq_zero_or_eq_one.mp known with rfl | rfl <;> rfl

theorem readIndexs_twoBlocks {blkNo : Nat} (known : blkNo ≤ 1) :
    readIndexs (twoBlocksVolume logBlockSize) blkNo =
      List.replicate (twoBlocksVolume logBlockSize).indexPerBlock blkNo := by
  rw [readIndexs_eq shifts (twoBlocksVolume_serves logBlockSize)]
  apply List.eq_replicate_iff.mpr
  refine ⟨length_slice _ _ _, ?_⟩
  intro entry member
  obtain ⟨index, inside, rfl⟩ := List.mem_map.mp member
  rw [Nat.zero_add]
  exact entryAt_twoBlocks shifts known (List.mem_range.mp inside)

theorem tindInner_ones {len left k h : Nat} {indexs : List Nat}
    (room : k + left ≤ (twoBlocksVolume logBlockSize).indexPerBlock)
    (ones : ∀ index ∈ indexs, index = 1) :
    ∀ index ∈ (tindInner (twoBlocksVolume logBlockSize)
      (List.replicate (twoBlocksVolume logBlockSize).indexPerBlock 1) len
      left k h indexs).1, index = 1 := by
  induction left generalizing k h indexs with
  | zero => exact ones
  | succ left induction =>
      have next : (List.replicate
          (twoBlocksVolume logBlockSize).indexPerBlock 1).getD k 0 = 1 := by
        exact List.getD_replicate 1 (by omega)
      have more : ∀ index ∈ indexs ++ ((readIndexs
          (twoBlocksVolume logBlockSize) 1).drop h).take
            (len - indexs.length), index = 1 := by
        intro index member
        rcases List.mem_append.mp member with old | new
        · exact ones index old
        · have copied := List.mem_of_mem_drop (List.mem_of_mem_take new)
          rw [readIndexs_twoBlocks shifts (Nat.le_refl 1)] at copied
          exact List.eq_of_mem_replicate copied
      unfold tindInner
      simp only [next]
      split
      · exact more
      · exact induction (by omega) more

theorem tindOuter_ones {len kStart left j h : Nat} {indexs : List Nat}
    (room : j + left ≤ (twoBlocksVolume logBlockSize).indexPerBlock)
    (ones : ∀ index ∈ indexs, index = 1) :
    ∀ index ∈ tindOuter (twoBlocksVolume logBlockSize)
      (List.replicate (twoBlocksVolume logBlockSize).indexPerBlock 1) len
      kStart left j h indexs, index = 1 := by
  induction left generalizing j h indexs with
  | zero => exact ones
  | succ left induction =>
      have next : (List.replicate
          (twoBlocksVolume logBlockSize).indexPerBlock 1).getD j 0 = 1 := by
        exact List.getD_replicate 1 (by omega)
      have inner : ∀ index ∈ (tindInner (twoBlocksVolume logBlockSize)
          (List.replicate (twoBlocksVolume logBlockSize).indexPerBlock 1) len
          ((twoBlocksVolume logBlockSize).indexPerBlock - kStart) kStart h
          indexs).1, index = 1 := by
        by_cases early :
            kStart ≤ (twoBlocksVolume logBlockSize).indexPerBlock
        · exact tindInner_ones shifts (by omega) ones
        · rw [Nat.sub_eq_zero_of_le (by omega)]
          exact ones
      unfold tindOuter
      simp only [next, readIndexs_twoBlocks shifts (Nat.le_refl 1)]
      split
      · exact inner
      · exact induction (by omega) inner

theorem dindPointer_zero {index : Nat}
    (inside : index < (twoBlocksVolume logBlockSize).indexPerBlock *
      (twoBlocksVolume logBlockSize).indexPerBlock) :
    dindPointer (twoBlocksVolume logBlockSize)
      (twoBlocksDisk (2 ^ (logBlockSize + 10))) tripleInode index = 0 := by
  have zero : tripleInode.iBlock ext2DindBlock = 0 := rfl
  rw [dindPointer, zero, entryAt_twoBlocks shifts (Nat.zero_le 1)
    (Nat.div_lt_of_lt_mul inside)]
  exact entryAt_twoBlocks shifts (Nat.zero_le 1)
    (Nat.mod_lt _ (indexPerBlock_pos _))

omit shifts in
/-- From 256 KiB a block on, the square of the entries is a multiple of
`2 ^ 32`. -/
theorem square_wraps (large : 8 ≤ logBlockSize) :
    (twoBlocksVolume logBlockSize).indexPerBlock *
      (twoBlocksVolume logBlockSize).indexPerBlock % 2 ^ 32 = 0 := by
  have count : (twoBlocksVolume logBlockSize).indexPerBlock =
      2 ^ (logBlockSize + 8) := indexPerBlock_eq _
  rw [count, ← pow_add]
  exact Nat.mod_eq_zero_of_dvd (pow_dvd_pow 2 (by omega))

/-- A range that starts in the double indirect region is looked up behind the
triple indirect block. -/
theorem getBlockIndexs_ones (large : 8 ≤ logBlockSize) {startBlock len : Nat}
    (late : ext2IndBlock + (twoBlocksVolume logBlockSize).indexPerBlock ≤
      startBlock) :
    ∀ index ∈ getBlockIndexs (twoBlocksVolume logBlockSize) tripleInode
      startBlock len, index = 1 := by
  have layer : getStartLayer startBlock
      (twoBlocksVolume logBlockSize).indexPerBlock = 3 := by
    have bound : (twoBlocksVolume logBlockSize).indexPerBlock ≤ 2 ^ 29 :=
      indexPerBlock_le shifts
    have indBlock : ext2IndBlock = 12 := rfl
    rw [getStartLayer_eq shifts, square_wraps large,
      add32_of_lt (by omega), if_neg (by omega), if_neg (by omega),
      if_neg (by omega)]
  have direct : useDirect tripleInode startBlock len 3 = ([], 3) := rfl
  unfold getBlockIndexs
  split
  · simp
  · simp only [layer, direct]
    rw [useLayer_of_other 1 _ len (by decide) (by decide),
      useLayer_of_other 2 _ len (by decide) (by decide)]
    unfold useLayer
    split
    · unfold getTindBlock
      split
      · simp
      · have triple : tripleInode.iBlock ext2TindBlock = 1 := rfl
        simp only [square_wraps large, Nat.div_zero, Nat.sub_zero,
          List.nil_append, triple, readIndexs_twoBlocks shifts (Nat.le_refl 1)]
        exact tindOuter_ones shifts (by omega) (by simp)
    · simp

end TwoBlocks

variable {logBlockSize startBlock len : Nat}

/-- A range in the double indirect region of a volume with large blocks. -/
theorem not_mapsRange (shifts : logBlockSize ≤ 21)
    (large : 8 ≤ logBlockSize)
    (late : ext2IndBlock + entriesOf logBlockSize ≤ startBlock)
    (nonempty : len ≠ 0)
    (fits : startBlock + len ≤ ext2IndBlock + entriesOf logBlockSize +
      entriesOf logBlockSize * entriesOf logBlockSize) :
    ¬MapsRange logBlockSize startBlock len := by
  intro maps
  have positive := Nat.pos_of_ne_zero nonempty
  have count : (twoBlocksVolume logBlockSize).indexPerBlock =
      entriesOf logBlockSize := indexPerBlock_eq _
  obtain ⟨length, pointers⟩ := maps (twoBlocksVolume logBlockSize) _
    tripleInode rfl (twoBlocksVolume_serves logBlockSize)
  have first := pointers 0 positive
  -- The pointer found is 1, and the one behind the double indirect block
  -- is 0.
  have found := getBlockIndexs_ones shifts large (by rw [count]; omega)
    _ (List.getElem_mem (length.symm ▸ positive))
  rw [List.getD_eq_getElem _ _ (by omega), found, blockPointer,
    if_neg (by omega), if_neg (by rw [count]; omega),
    dindPointer_zero shifts (by rw [count]; omega)] at first
  cases first

/-- A range that starts before the double indirect region, or any range of a
volume with blocks of at most 128 KiB. -/
theorem mapsRange_of_layered (shifts : logBlockSize ≤ 21)
    (layered : logBlockSize ≤ 7 ∨
      startBlock < ext2IndBlock + entriesOf logBlockSize)
    (fits : startBlock + len ≤ ext2IndBlock + entriesOf logBlockSize +
      entriesOf logBlockSize * entriesOf logBlockSize) :
    MapsRange logBlockSize startBlock len := by
  intro sb disk inode size serves
  subst size
  have count : sb.indexPerBlock = entriesOf sb.sLogBlockSize :=
    indexPerBlock_eq sb
  rw [← count] at fits layered
  rw [getBlockIndexs_range shifts serves layered fits]
  refine ⟨length_slice _ _ _, ?_⟩
  intro index inside
  simp [slice, inside]

/-- The ranges that are found at a block size. -/
theorem getBlockIndexs_mapsRange_iff (shifts : logBlockSize ≤ 21)
    (fits : startBlock + len ≤ ext2IndBlock + entriesOf logBlockSize +
      entriesOf logBlockSize * entriesOf logBlockSize) :
    MapsRange logBlockSize startBlock len ↔
      logBlockSize ≤ 7 ∨
        startBlock < ext2IndBlock + entriesOf logBlockSize ∨ len = 0 := by
  constructor
  · intro maps
    by_contra fails
    obtain ⟨large, late, nonempty⟩ : ¬logBlockSize ≤ 7 ∧
        ¬startBlock < ext2IndBlock + entriesOf logBlockSize ∧ ¬len = 0 := by
      simpa only [not_or] using fails
    exact not_mapsRange shifts (by omega) (by omega) nonempty fits maps
  · rintro (small | early | empty)
    · exact mapsRange_of_layered shifts (.inl small) fits
    · exact mapsRange_of_layered shifts (.inr early) fits
    · subst empty
      intro sb disk inode _ _
      exact ⟨rfl, by simp⟩

/-- A range of 300 blocks of 1 KiB from the direct into the double indirect
region. -/
theorem getBlockIndexs_mapsRange_iff_kilobyte :
    MapsRange 0 5 300 :=
  (getBlockIndexs_mapsRange_iff (by decide) (by decide)).mpr
    (.inl (by decide))

/-- The first block of the double indirect region of a volume with blocks of
256 KiB is not found. -/
theorem getBlockIndexs_not_mapsRange :
    ¬∀ logBlockSize startBlock len : Nat, logBlockSize ≤ 21 →
      startBlock + len ≤ ext2IndBlock + entriesOf logBlockSize +
        entriesOf logBlockSize * entriesOf logBlockSize →
      MapsRange logBlockSize startBlock len := by
  intro always
  exact not_mapsRange (by decide) (by decide) (by decide) (by decide)
    (by decide) (always 8 (12 + 2 ^ 16) 1 (by decide) (by decide))

end Witos.Fs
