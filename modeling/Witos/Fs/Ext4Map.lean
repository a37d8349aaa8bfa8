import Mathlib.Data.Nat.ModEq
import Witos.Fs.Ext2Tree
import Witos.Fs.Ext4
import Witos.Vfs.State

/-!
# The block map of an ext4 file

`ext4_get_blknums` of `fs/ext4/ext4.c`.  The map of a file without extents is
the text of `fs/ext2/ext2.c` again, over `__ext4_read_block`.  The map of a
file with extents uses only those in the inode, and takes every twelfth of
them: `sizeof(*extent)` is added to a pointer to extents.
-/

namespace Witos.Fs

open Library

/-- The fields of a mounted volume that the map uses; `bgInodeTable` is
`bg_inode_table_lo` of the group descriptors. -/
structure Ext4SuperBlock extends SuperBlock where
  sFeatureIncompat : Nat

def ext4FeatureIncompatExtents : Nat := 0x40
def ext4InodeExtent : Nat := 0x80000
def ext4ExtMagic : Nat := 0xf30a

/-- The size of an extent, of an index entry and of the header in front of
them. -/
def extentSize : Nat := 12

def half (memory : Nat → UInt8) (offset : Nat) : Nat :=
  leValue (slice memory offset 2)

def word (memory : Nat → UInt8) (offset : Nat) : Nat :=
  leValue (slice memory offset 4)

/-- The inode as the map of blocks without extents uses it; `i_block` has 15
entries. -/
def indirectInode (e4In : Nat → UInt8) : Inode where
  iSize := word e4In 4
  iBlock := fun index => if index < 15 then word e4In (40 + 4 * index) else 0

/-- The array `i_block`, which may hold a node of extents. -/
def iBlockNode (e4In : Nat → UInt8) : Nat → UInt8 :=
  fun offset => e4In (40 + offset)

def isExtent (sb : Ext4SuperBlock) (e4In : Nat → UInt8) : Bool :=
  sb.sFeatureIncompat &&& ext4FeatureIncompatExtents ≠ 0 ∧
    word e4In 32 &&& ext4InodeExtent ≠ 0

section Node

variable (node : Nat → UInt8)

def ehMagic : Nat := half node 0
def ehEntries : Nat := half node 2
def ehDepth : Nat := half node 6

variable (place : Nat)

def eeBlock : Nat := word node place
def eeLen : Nat := half node (place + 4)
def eeStartHi : Nat := half node (place + 6)
def eeStartLo : Nat := word node (place + 8)

def eiBlock : Nat := word node place
def eiLeafLo : Nat := word node (place + 4)
def eiLeafHi : Nat := half node (place + 8)

end Node

/-- The inner loop of `ext4_get_extent_blkbums`, of at most `left` iterations,
with `iter` and the array behind it. -/
def extentFill (skip start len addr : Nat) :
    Nat → Nat → (Nat → Nat) → Nat × (Nat → Nat)
  | 0, iter, block => (iter, block)
  | left + 1, iter, block =>
      let logical := add32 iter skip
      if start ≤ logical ∧ logical < add32 start len then
        extentFill skip start len addr left (iter + 1)
          (Function.update block iter (add32 addr (sub32 logical start)))
      else (iter, block)

/-- The loop over `left` more extents. -/
def extentLoop (node : Nat → UInt8) (skip nums : Nat) :
    Nat → Nat → Nat → (Nat → Nat) → Nat → Nat
  | 0, _, _, block => block
  | left + 1, place, iter, block =>
      let filled := extentFill skip (eeBlock node place) (eeLen node place)
        (eeStartLo node place) (nums - iter) iter block
      if filled.1 = nums then filled.2
      else
        extentLoop node skip nums left (place + extentSize * extentSize)
          filled.1 filled.2

/-- The value returned and the array, which holds `stack` before. -/
def ext4GetExtentBlkbums (e4In : Nat → UInt8) (stack : Nat → Nat)
    (skip nums : Nat) : Int × (Nat → Nat) :=
  let node := iBlockNode e4In
  if ehMagic node ≠ ext4ExtMagic then (-Vfs.einval, stack)
  -- The loop over index entries only prints that they are not supported.
  else if 0 < ehDepth node then (0, stack)
  else
    (0, extentLoop node skip nums (ehEntries node) extentSize 0 stack)

def ext4GetBlknums (sb : Ext4SuperBlock) (e4In : Nat → UInt8)
    (stack : Nat → Nat) (skip nums : Nat) : Int × (Nat → Nat) :=
  if isExtent sb e4In then ext4GetExtentBlkbums e4In stack skip nums
  else
    let indexs :=
      getBlockIndexs sb.toSuperBlock (indirectInode e4In) skip nums
    (indexs.length, fun index => indexs.getD index (stack index))

theorem submitBio_congr (drive : Drive) {sect other : Nat}
    (same : sect * sectSize % 2 ^ 32 = other * sectSize % 2 ^ 32)
    (count : Nat) :
    submitBio drive sect count = submitBio drive other count := by
  induction count generalizing sect other with
  | zero => rfl
  | succ count induction =>
      have step (value : Nat) : add32 value 1 * sectSize % 2 ^ 32 =
          (value * sectSize % 2 ^ 32 + sectSize) % 2 ^ 32 := by
        rw [Nat.mod_add_mod, ← Nat.succ_mul]
        exact (Nat.mod_modEq _ _).mul_right _
      have next : add32 sect 1 * sectSize % 2 ^ 32 =
          add32 other 1 * sectSize % 2 ^ 32 := by
        rw [step, step, same]
      rw [submitBio, submitBio, same, induction next]

theorem ext4ReadBlock_eq (sb : SuperBlock) (blkNo : Nat) :
    ext4ReadBlock sb.drive sb.blockSize blkNo =
      ext2ReadBlock sb blkNo 0 sb.blockSize := by
  have sectors := sectors_blockSize sb
  have product : blkNo * sb.blockSize =
      blkNo * 2 ^ (sb.sLogBlockSize + 1) * sectSize := by
    rw [← sectors, Nat.mul_assoc]
  have aligned : blkNo * sb.blockSize % 2 ^ 32 % sectSize = 0 := by
    rw [product]
    unfold sectSize
    omega
  unfold ext4ReadBlock ext4ReadBuff ext2ReadBlock
  simp only [aligned, Nat.zero_add]
  rw [submitBio_congr]
  rw [product]
  unfold sectSize
  omega

/-- The block of a leaf that holds a logical block, unless it is not written
yet. -/
def leafPointer (node : Nat → UInt8) (block : Nat) : Option Nat :=
  ((List.range (ehEntries node)).map
      fun index => extentSize + extentSize * index).findSome? fun place =>
    if eeBlock node place ≤ block ∧
        block < eeBlock node place + eeLen node place ∧
        eeLen node place ≤ 2 ^ 15 then
      some (eeStartLo node place + eeStartHi node place * 2 ^ 32 +
        (block - eeBlock node place))
    else none

/-- The child of a node of index entries on the way to a logical block: the
last one that starts at it or before. -/
def indexChild (node : Nat → UInt8) (block : Nat) : Option Nat :=
  (((List.range (ehEntries node)).map
      fun index => extentSize + extentSize * index).filter
    fun place => eiBlock node place ≤ block).getLast?.map fun place =>
      eiLeafLo node place + eiLeafHi node place * 2 ^ 32

/-- A block of a disk. -/
def blockAt (disk : Nat → UInt8) (blockSize pointer : Nat) : Nat → UInt8 :=
  fun offset => wrapped disk (pointer * blockSize + offset)

/-- The blocks of index entries on the way to a logical block below a node,
and the block it is in. -/
def extentPath (disk : Nat → UInt8) (blockSize : Nat) :
    Nat → (Nat → UInt8) → Nat → List Nat × Option Nat
  | 0, node, block => ([], leafPointer node block)
  | depth + 1, node, block =>
      match indexChild node block with
      | none => ([], none)
      | some child =>
          let path := extentPath disk blockSize depth
            (blockAt disk blockSize child) block
          (child :: path.1, path.2)

/-- The blocks of pointers or index entries on the way to a logical block of a
file, and the block it is in. -/
def ext4Path (sb : Ext4SuperBlock) (disk : Nat → UInt8)
    (e4In : Nat → UInt8) (block : Nat) : List Nat × Option Nat :=
  if isExtent sb e4In then
    let node := iBlockNode e4In
    if ehMagic node = ext4ExtMagic then
      extentPath disk sb.blockSize (ehDepth node) node block
    else ([], none)
  else ext2Path sb.toSuperBlock disk (indirectInode e4In) block

/-- The first extent in the inode holds the first blocks of the file. -/
structure InFirstExtent (node : Nat → UInt8) (blocks : Nat) : Prop where
  magic : ehMagic node = ext4ExtMagic
  depth : ehDepth node = 0
  entries : 0 < ehEntries node
  start : eeBlock node extentSize = 0
  enough : blocks ≤ eeLen node extentSize
  written : eeLen node extentSize ≤ 2 ^ 15

theorem extentFill_within {skip start len addr nums : Nat}
    (begins : start ≤ skip) (enough : skip + nums ≤ start + len)
    (small : start + len < 2 ^ 32) {left iter : Nat}
    (position : iter + left = nums) (block : Nat → Nat) :
    extentFill skip start len addr left iter block =
      (nums, fun index =>
        if iter ≤ index ∧ index < nums then
          add32 addr (skip + index - start)
        else block index) := by
  induction left generalizing iter block with
  | zero =>
      obtain rfl : iter = nums := position
      rw [extentFill]
      rw [Prod.mk.injEq]
      refine ⟨rfl, ?_⟩
      funext index
      exact (if_neg (by omega)).symm
  | succ left induction =>
      have logical : add32 iter skip = skip + iter := by
        rw [add32_of_lt (by omega), Nat.add_comm]
      have same : sub32 (skip + iter) start = skip + iter - start :=
        sub32_of_le (by omega) (by omega)
      rw [extentFill]
      simp only [logical, add32_of_lt small, same]
      rw [if_pos ⟨by omega, by omega⟩, induction (by omega)]
      rw [Prod.mk.injEq]
      refine ⟨rfl, ?_⟩
      funext index
      simp only [Function.update_apply]
      by_cases isFirst : index = iter
      · rw [if_neg (by omega), if_pos isFirst, if_pos (by omega), isFirst]
      · rw [if_neg isFirst]
        apply if_congr _ rfl rfl
        omega

theorem extentLoop_within {node : Nat → UInt8} {skip nums : Nat}
    (entries : 0 < ehEntries node) (begins : eeBlock node extentSize ≤ skip)
    (enough : skip + nums ≤ eeBlock node extentSize + eeLen node extentSize)
    (small : eeBlock node extentSize + eeLen node extentSize < 2 ^ 32)
    (stack : Nat → Nat) {i : Nat} (inside : i < nums) :
    extentLoop node skip nums (ehEntries node) extentSize 0 stack i =
      add32 (eeStartLo node extentSize)
        (skip + i - eeBlock node extentSize) := by
  obtain ⟨left, more⟩ := Nat.exists_eq_succ_of_ne_zero (Nat.ne_of_gt entries)
  rw [more, extentLoop, Nat.sub_zero,
    extentFill_within begins enough small (Nat.zero_add _)]
  simp only [if_true]
  rw [if_pos ⟨Nat.zero_le _, inside⟩]

section First

variable {node : Nat → UInt8} {blocks : Nat}
  (inFirst : InFirstExtent node blocks)

include inFirst

theorem extentLoop_first (stack : Nat → Nat) {i : Nat} (inside : i < blocks) :
    extentLoop node 0 blocks (ehEntries node) extentSize 0 stack i =
      add32 (eeStartLo node extentSize) i := by
  have start := inFirst.start
  have enough := inFirst.enough
  have written := inFirst.written
  rw [extentLoop_within inFirst.entries (Nat.le_of_eq start) (by omega)
    (by omega) stack inside, start, Nat.zero_add, Nat.sub_zero]

theorem leafPointer_first {i : Nat} (inside : i < blocks) :
    leafPointer node i = some (eeStartLo node extentSize +
      eeStartHi node extentSize * 2 ^ 32 + i) := by
  obtain ⟨left, more⟩ := Nat.exists_eq_succ_of_ne_zero
    (Nat.ne_of_gt inFirst.entries)
  have enough := inFirst.enough
  rw [leafPointer, more, List.range_succ_eq_map, List.map_cons,
    List.findSome?_cons]
  simp only [Nat.mul_zero, Nat.add_zero, inFirst.start, Nat.zero_le,
    Nat.zero_add, true_and, Nat.sub_zero]
  rw [if_pos ⟨by omega, inFirst.written⟩]

end First

theorem blockAt_mod (disk : Nat → UInt8) (blockSize : Nat)
    {pointer other : Nat} (same : pointer % 2 ^ 32 = other % 2 ^ 32) :
    blockAt disk blockSize pointer = blockAt disk blockSize other := by
  funext offset
  apply wrapped_mod
  have congruent : pointer ≡ other [MOD 2 ^ 32] := same
  exact (congruent.mul_right _).add_right _

end Witos.Fs
