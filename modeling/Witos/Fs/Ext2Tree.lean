import Witos.Fs.Directory
import Witos.Fs.Ext2Map

/-!
# All blocks of a file

The pointers of a file form a tree of up to three levels under its inode.
From the first block of a file on, `get_block_indexs` finds the pointers of
all of them, behind the triple indirect block too.
-/

namespace Witos.Fs

open Library

section Tree

variable (sb : SuperBlock) (disk : Nat → UInt8) (inode : Inode)

/-- The number of blocks the pointers in the inode, the indirect block and the
double indirect block lead to. -/
def lowBlocks : Nat :=
  ext2IndBlock + sb.indexPerBlock + sb.indexPerBlock * sb.indexPerBlock

theorem lowBlocks_pos : 0 < lowBlocks sb :=
  Nat.add_pos_left (Nat.add_pos_left (by decide) _) _

/-- The pointers behind two levels of blocks of pointers. -/
def twoLevels (blkNo index : Nat) : Nat :=
  entryAt sb disk (entryAt sb disk blkNo (index / sb.indexPerBlock))
    (index % sb.indexPerBlock)

/-- The pointers behind the triple indirect block. -/
def tindPointer (index : Nat) : Nat :=
  twoLevels sb disk
    (entryAt sb disk (inode.iBlock ext2TindBlock)
      (index / (sb.indexPerBlock * sb.indexPerBlock)))
    (index % (sb.indexPerBlock * sb.indexPerBlock))

/-- The pointer of any logical block. -/
def treePointer (block : Nat) : Nat :=
  if block < lowBlocks sb then blockPointer sb disk inode block
  else tindPointer sb disk inode (block - lowBlocks sb)

/-- The blocks of pointers on the way to a logical block. -/
def indirections (block : Nat) : List Nat :=
  let count := sb.indexPerBlock
  if block < ext2IndBlock then []
  else if block < ext2IndBlock + count then [inode.iBlock ext2IndBlock]
  else if block < lowBlocks sb then
    let dind := inode.iBlock ext2DindBlock
    [dind, entryAt sb disk dind ((block - ext2IndBlock - count) / count)]
  else
    let index := block - lowBlocks sb
    let tind := inode.iBlock ext2TindBlock
    let dind := entryAt sb disk tind (index / (count * count))
    [tind, dind, entryAt sb disk dind (index % (count * count) / count)]

/-- The blocks of pointers on the way to a logical block of a file, and the
block it is in.  A pointer that is 0 stands for a hole. -/
def ext2Path (block : Nat) : List Nat × Option Nat :=
  let path := indirections sb disk inode block
  let pointer := treePointer sb disk inode block
  (path.takeWhile (· ≠ 0),
    if 0 ∈ path ∨ pointer = 0 then none else some pointer)

end Tree

section Whole

variable {sb : SuperBlock} {disk : Nat → UInt8}

theorem useLayer_first {pointer : Nat → Nat} {len bound width : Nat}
    {first layer : Int} {state : List Nat × Int} {get : Nat → List Nat}
    (covers : Covers pointer 0 len bound first state) (positive : 0 < bound)
    (gets : get (len - bound) =
      slice pointer bound (min (len - bound) width)) :
    Covers pointer 0 len (bound + width) first
      (useLayer layer get len state) := by
  apply useLayer_covers covers
  · intro before
    omega
  · intro before
    omega
  · intro _ _
    rw [Nat.sub_zero, Nat.zero_max, Nat.add_sub_cancel_left, gets]

variable {pointer : Nat → Nat} {len : Nat}

/-- The outer loop, when it starts in the first block of each block of
pointers, appends the pointers behind each of them in turn. -/
theorem tindOuter_range (shifts : sb.sLogBlockSize ≤ 21)
    (serves : Serves sb.drive disk) {blkNo start : Nat}
    (behind : ∀ index, pointer index =
      twoLevels sb disk (entryAt sb disk blkNo
        (index / (sb.indexPerBlock * sb.indexPerBlock)))
        (index % (sb.indexPerBlock * sb.indexPerBlock)))
    {left j h count : Nat}
    (position : start + count =
      j * (sb.indexPerBlock * sb.indexPerBlock) + h)
    (inside : h < sb.indexPerBlock) (unfinished : count < len)
    (blocks : j + left = sb.indexPerBlock) (ended : left = 0 → h = 0) :
    tindOuter sb (readIndexs sb blkNo) len 0 left j h
        (slice pointer start count) =
      slice pointer start (min len (sb.indexPerBlock *
        (sb.indexPerBlock * sb.indexPerBlock) - start)) := by
  induction left generalizing j h count with
  | zero =>
      obtain rfl : j = sb.indexPerBlock := by omega
      have all : sb.indexPerBlock * (sb.indexPerBlock * sb.indexPerBlock) -
          start = count := by
        have first := ended rfl
        omega
      rw [tindOuter, all, Nat.min_eq_right (Nat.le_of_lt unfinished)]
  | succ left induction =>
      have bound : j < sb.indexPerBlock := by omega
      have below : j * (sb.indexPerBlock * sb.indexPerBlock) +
          sb.indexPerBlock * sb.indexPerBlock ≤
          sb.indexPerBlock * (sb.indexPerBlock * sb.indexPerBlock) := by
        rw [← Nat.succ_mul]
        exact Nat.mul_le_mul_right _ bound
      have chunk (index : Nat)
          (within : index < sb.indexPerBlock * sb.indexPerBlock) :
          pointer (j * (sb.indexPerBlock * sb.indexPerBlock) + index) =
            twoLevels sb disk (entryAt sb disk blkNo j) index := by
        obtain ⟨inBlock, place⟩ := div_mod_of_block j within
        rw [behind, inBlock, place]
      have row : sb.indexPerBlock ≤ sb.indexPerBlock * sb.indexPerBlock :=
        Nat.le_mul_of_pos_left _ (indexPerBlock_pos sb)
      obtain ⟨inner, reset⟩ := tindInner_range (k := 0) shifts serves chunk
        (by rw [Nat.zero_mul, Nat.add_zero]; exact position) inside
        unfinished (Nat.zero_add _)
        (fun none => absurd none (Nat.ne_of_gt (indexPerBlock_pos sb)))
      rw [tindOuter, getD_readIndexs shifts serves blkNo bound]
      simp only [Nat.sub_zero, inner, length_slice]
      by_cases done : len ≤ j * (sb.indexPerBlock * sb.indexPerBlock) +
          sb.indexPerBlock * sb.indexPerBlock - start
      · rw [Nat.min_eq_left done, if_pos (Nat.le_refl _),
          Nat.min_eq_left (by omega)]
      · rw [Nat.min_eq_right (by omega), if_neg done, reset (by omega)]
        apply induction
        · rw [Nat.succ_mul]
          omega
        · exact indexPerBlock_pos sb
        · omega
        · omega
        · exact fun _ => rfl

variable (wellFormed : WellFormed sb) (serves : Serves sb.drive disk)

include wellFormed serves

variable (inode : Inode) {startBlock : Int} (isFirst : startBlock.toNat = 0)

section

include isFirst

theorem getDindBlock_first (len : Nat) :
    getDindBlock sb inode startBlock len =
      slice (dindPointer sb disk inode) 0
        (min len (sb.indexPerBlock * sb.indexPerBlock)) := by
  unfold getDindBlock
  split
  · rename_i empty
    simp [empty]
  · rename_i nonempty
    have behind (index : Nat)
        (_ : index < sb.indexPerBlock * sb.indexPerBlock) :
        dindPointer sb disk inode (0 + index) =
          twoLevels sb disk (inode.iBlock ext2DindBlock) index := by
      rw [Nat.zero_add]
      rfl
    have position : 0 + 0 = 0 + 0 * sb.indexPerBlock + 0 := by
      rw [Nat.zero_mul]
    have inner := tindInner_range wellFormed.shifts serves behind position
      (indexPerBlock_pos sb) (Nat.pos_of_ne_zero nonempty) (Nat.zero_add _)
      (fun _ => rfl)
    simp only [slice_zero, Nat.zero_add, Nat.sub_zero] at inner
    simp only [isFirst, Nat.zero_div, Nat.zero_mod, Nat.sub_zero,
      dindLoop_eq_tindInner, inner.1]

theorem getTindBlock_first (len : Nat) :
    getTindBlock sb inode startBlock len =
      slice (tindPointer sb disk inode) 0
        (min len (sb.indexPerBlock *
          (sb.indexPerBlock * sb.indexPerBlock))) := by
  unfold getTindBlock
  split
  · rename_i empty
    simp [empty]
  · rename_i nonempty
    have position : 0 + 0 =
        0 * (sb.indexPerBlock * sb.indexPerBlock) + 0 := by
      rw [Nat.zero_mul]
    have outer := tindOuter_range wellFormed.shifts serves
      (fun index => Eq.refl (tindPointer sb disk inode index)) position
      (indexPerBlock_pos sb) (Nat.pos_of_ne_zero nonempty) (Nat.zero_add _)
      (fun _ => rfl)
    simp only [slice_zero, Nat.sub_zero] at outer
    simp only [isFirst, Nat.zero_div, Nat.zero_mod, Nat.sub_zero, outer]

variable {first : Int} {state : List Nat × Int}

theorem dindLayer_first
    (covers : Covers (treePointer sb disk inode) 0 len
      (ext2IndBlock + sb.indexPerBlock) first state) :
    Covers (treePointer sb disk inode) 0 len (lowBlocks sb) first
      (useLayer 2 (getDindBlock sb inode startBlock) len state) := by
  apply useLayer_first covers (Nat.add_pos_left (by decide) _)
  rw [getDindBlock_first wellFormed serves inode isFirst]
  apply slice_congr
  intro index inside
  have below : ext2IndBlock + sb.indexPerBlock + index < lowBlocks sb :=
    Nat.add_lt_add_left (by omega) _
  rw [treePointer, if_pos below, blockPointer, if_neg (by omega),
    if_neg (by omega)]
  congr 1
  omega

theorem tindLayer_first
    (covers : Covers (treePointer sb disk inode) 0 len (lowBlocks sb) first
      state) :
    Covers (treePointer sb disk inode) 0 len
      (lowBlocks sb + sb.indexPerBlock *
        (sb.indexPerBlock * sb.indexPerBlock)) first
      (useLayer 3 (getTindBlock sb inode startBlock) len state) := by
  apply useLayer_first covers (lowBlocks_pos sb)
  rw [getTindBlock_first wellFormed serves inode isFirst]
  apply slice_congr
  intro index _
  rw [treePointer, if_neg (by omega), Nat.add_sub_cancel_left, Nat.zero_add]

end

theorem getBlockIndexs_first
    (fits : len ≤ lowBlocks sb + sb.indexPerBlock *
      (sb.indexPerBlock * sb.indexPerBlock)) :
    getBlockIndexs sb inode 0 len =
      slice (treePointer sb disk inode) 0 len := by
  have bound := wellFormed.indexPerBlock_le
  have square := wellFormed.square_le
  have indBlock : ext2IndBlock = 12 := rfl
  have dindStart : (signed32 (sub32 (sub32 0 ext2IndBlock)
      sb.indexPerBlock)).toNat = 0 := by
    rw [sub32_sub32, toNat_signed32_sub32 (by decide) (by omega),
      Nat.zero_sub]
  have tindStart : (signed32 (sub32 (sub32 (sub32 0 ext2IndBlock)
      sb.indexPerBlock)
      (sb.indexPerBlock * sb.indexPerBlock % 2 ^ 32))).toNat = 0 := by
    rw [sub32_sub32, sub32_sub32,
      toNat_signed32_sub32 (by decide) (by omega), Nat.zero_sub]
  unfold getBlockIndexs
  split
  · rename_i empty
    rw [empty, slice_zero]
  · have direct := useDirect_covers wellFormed.shifts disk inode 0 len
    have ind := indLayer_covers wellFormed.shifts serves (by decide) direct
    have low : slice (treePointer sb disk inode) 0
          (min len (ext2IndBlock + sb.indexPerBlock)) =
        slice (blockPointer sb disk inode) 0
          (min len (ext2IndBlock + sb.indexPerBlock)) := by
      apply slice_congr
      intro block inside
      have below : 0 + block < lowBlocks sb := by
        unfold lowBlocks
        omega
      rw [treePointer, if_pos below]
    have dind := dindLayer_first wellFormed serves inode dindStart
      ⟨ind.indexs.trans low.symm, ind.used, ind.unused⟩
    have tind := tindLayer_first wellFormed serves inode tindStart dind
    rw [tind.indexs, Nat.sub_zero, Nat.min_eq_left fits]

omit wellFormed serves in
theorem blocksOf_le (size : Nat) :
    blocksOf size sb.blockSize ≤ lowBlocks sb + sb.indexPerBlock *
      (sb.indexPerBlock * sb.indexPerBlock) := by
  have whole : add32 size (sb.blockSize - 1) < 2 ^ 32 :=
    Nat.mod_lt _ (by decide)
  have least : 2 ^ 8 ≤ sb.indexPerBlock := by
    have power : 2 ^ 10 ≤ sb.blockSize :=
      Nat.pow_le_pow_right (by decide) (Nat.le_add_left _ _)
    rw [blockSize_eq] at power
    omega
  calc blocksOf size sb.blockSize ≤ 2 ^ 32 / sb.blockSize :=
        Nat.div_le_div_right (Nat.le_of_lt whole)
    _ ≤ 2 ^ 32 / 2 ^ 10 := by
        apply Nat.div_le_div_left _ (by decide)
        rw [blockSize_eq]
        omega
    _ ≤ 2 ^ 8 * (2 ^ 8 * 2 ^ 8) := by decide
    _ ≤ sb.indexPerBlock * (sb.indexPerBlock * sb.indexPerBlock) :=
        Nat.mul_le_mul least (Nat.mul_le_mul least least)
    _ ≤ _ := Nat.le_add_left _ _

end Whole

end Witos.Fs
