import Witos.Fs.Extents
import Witos.Fs.NameSearch

/-!
# Searching the directories of a disk

`ext2_inode_by_name` of `fs/ext2/ext2.c` and `ext4_inode_by_name` of
`fs/ext4/ext4.c`.  The two find what is in the first block of a directory, and
the second one only if the blocks are in the inode's own extents.
-/

namespace Witos.Fs

open Library

section Ext2

variable {sb : SuperBlock} {disk : Nat → UInt8} {inode : Inode} {count : Nat}

theorem Ext2Directory.searchable
    (directory : Ext2Directory sb disk inode count)
    (unique : UniqueNames
      (dirRecords (ext2DirBlocks sb disk inode) sb.blockSize count))
    {name : Vfs.Name} (counts : CountsTo inode.iSize name) :
    Searchable (ext2DirBlocks sb disk inode) sb.blockSize inode.iSize count
      name where
  positive := blockSize_pos sb
  short := directory.wellFormed.blockSize_le
  total := directory.blocksOf_eq
  whole := directory.size
  tiled := directory.tiled
  unique := unique
  counts := counts

theorem Ext2Directory.readFirst
    (directory : Ext2Directory sb disk inode count) (positive : 0 < count)
    (scratch : Vfs.Scratch) :
    ext2ReadBlock sb ((getBlockIndexs sb inode 0
        (blocksOf inode.iSize sb.blockSize)).getD 0 (scratch.words 0)) 0
        sb.blockSize =
      slice (ext2DirBlocks sb disk inode 0) 0 sb.blockSize := by
  have first : (getBlockIndexs sb inode 0
      (blocksOf inode.iSize sb.blockSize)).getD 0 (scratch.words 0) =
        treePointer sb disk inode 0 := by
    rw [getBlockIndexs_first directory.wellFormed directory.serves inode
      (blocksOf_le inode.iSize), directory.blocksOf_eq]
    simp [slice, positive]
  rw [first]
  exact ext2ReadBlock_whole directory.wellFormed directory.serves _

/-- The names that are found in a directory, whatever is on the stack. -/
theorem Ext2Directory.findsEntry_iff
    (directory : Ext2Directory sb disk inode count)
    (unique : UniqueNames
      (dirRecords (ext2DirBlocks sb disk inode) sb.blockSize count))
    {name : Vfs.Name} (counts : CountsTo inode.iSize name) :
    (∀ scratch, FindsEntry
      (dirRecords (ext2DirBlocks sb disk inode) sb.blockSize count) name
      (ext2InodeByName sb scratch inode name)) ↔
      FoundFirst (ext2DirBlocks sb disk inode) sb.blockSize count name :=
  (directory.searchable unique counts).findsEntry_iff directory.readFirst

end Ext2

/-- The blocks of a directory of an ext4 volume. -/
def ext4DirBlocks (sb : Ext4SuperBlock) (disk : Nat → UInt8)
    (e4In : Nat → UInt8) (i : Nat) : Nat → UInt8 :=
  blockAt disk sb.blockSize ((ext4Path sb disk e4In i).2.getD 0)

/-- The extents of the file, if it has any, are in its inode. -/
def OwnExtents (sb : Ext4SuperBlock) (e4In : Nat → UInt8) : Prop :=
  isExtent sb e4In = true → ehDepth (iBlockNode e4In) = 0

/-- A directory of `count` blocks of whole records without holes, on a drive
that does not fail. -/
structure Ext4Directory (sb : Ext4SuperBlock) (disk : Nat → UInt8)
    (e4In : Nat → UInt8) (count : Nat) : Prop where
  wellFormed : WellFormed sb.toSuperBlock
  serves : Serves sb.drive disk
  size : word e4In 4 = count * sb.blockSize
  mapped : ∀ i < count, (ext4Path sb disk e4In i).2 ≠ none
  leaf : isExtent sb e4In = true → ehDepth (iBlockNode e4In) = 0 →
    Leaf (iBlockNode e4In)
  full : isExtent sb e4In = true → ehDepth (iBlockNode e4In) = 0 →
    ∀ index < ehEntries (iBlockNode e4In),
      0 < eeLen (iBlockNode e4In) (extentPlace index)
  tiled : ∀ i < count, Tiled (ext4DirBlocks sb disk e4In i) sb.blockSize

theorem extentFill_before (skip start len addr left iter : Nat)
    (block : Nat → Nat) {i : Nat} (before : i < iter) :
    (extentFill skip start len addr left iter block).2 i = block i := by
  induction left generalizing iter block with
  | zero => rfl
  | succ left induction =>
      rw [extentFill]
      split
      · rw [induction _ _ (Nat.lt_succ_of_lt before)]
        exact Function.update_of_ne (Nat.ne_of_lt before) _ _
      · rfl

theorem extentLoop_before (node : Nat → UInt8) (skip nums left place : Nat)
    {iter : Nat} (block : Nat → Nat) {i : Nat} (before : i < iter) :
    extentLoop node skip nums left place iter block i = block i := by
  induction left generalizing place iter block with
  | zero => rfl
  | succ left induction =>
      have kept := extentFill_before skip (eeBlock node place)
        (eeLen node place) (eeStartLo node place) (nums - iter) iter block
        before
      have forward := (extentFill_spec skip (eeBlock node place)
        (eeLen node place) (eeStartLo node place) (nums - iter) iter
        block).1.forward
      rw [extentLoop]
      split
      · exact kept
      · rw [induction _ _ (Nat.lt_of_lt_of_le before forward)]
        exact kept

theorem extentLoop_zero {node : Nat → UInt8} {nums : Nat} (positive : 0 < nums)
    (entries : 0 < ehEntries node) (begins : eeBlock node extentSize = 0)
    (full : 0 < eeLen node extentSize) (stack : Nat → Nat) :
    extentLoop node 0 nums (ehEntries node) extentSize 0 stack 0 =
      add32 (eeStartLo node extentSize) 0 := by
  obtain ⟨more, isEntries⟩ :=
    Nat.exists_eq_succ_of_ne_zero (Nat.ne_of_gt entries)
  obtain ⟨left, rfl⟩ := Nat.exists_eq_succ_of_ne_zero (Nat.ne_of_gt positive)
  have len : eeLen node extentSize < 2 ^ 16 := by
    have bound := leValue_lt (slice node (extentSize + 4) 2)
    rw [length_slice] at bound
    exact bound
  have here : 0 ≤ add32 0 0 ∧
      add32 0 0 < add32 0 (eeLen node extentSize) := by
    have whole : add32 0 (eeLen node extentSize) = eeLen node extentSize := by
      rw [add32_of_lt (by omega), Nat.zero_add]
    rw [whole]
    exact ⟨Nat.zero_le _, full⟩
  have filled : extentFill 0 0 (eeLen node extentSize)
      (eeStartLo node extentSize) (left + 1) 0 stack =
        extentFill 0 0 (eeLen node extentSize) (eeStartLo node extentSize)
          left 1 (Function.update stack 0
            (add32 (eeStartLo node extentSize) 0)) := if_pos here
  rw [isEntries, extentLoop, Nat.sub_zero, begins, Nat.succ_eq_add_one, filled]
  have first := extentFill_before 0 0 (eeLen node extentSize)
    (eeStartLo node extentSize) left 1 (Function.update stack 0
      (add32 (eeStartLo node extentSize) 0)) Nat.one_pos
  rw [Function.update_self] at first
  have forward := (extentFill_spec 0 0 (eeLen node extentSize)
    (eeStartLo node extentSize) left 1 (Function.update stack 0
      (add32 (eeStartLo node extentSize) 0))).1.forward
  split
  · exact first
  · rw [extentLoop_before _ _ _ _ _ _ forward]
    exact first

theorem leafPointer_zero {node : Nat → UInt8} (leaf : Leaf node)
    (full : ∀ index < ehEntries node, 0 < eeLen node (extentPlace index))
    {pointer : Nat} (found : leafPointer node 0 = some pointer) :
    0 < ehEntries node ∧ eeBlock node extentSize = 0 ∧
      pointer = eeStartLo node extentSize +
        eeStartHi node extentSize * 2 ^ 32 := by
  obtain ⟨place, member, covers⟩ := List.exists_of_findSome?_eq_some found
  obtain ⟨index, inRange, rfl⟩ := List.mem_map.mp member
  have inside := List.mem_range.mp inRange
  have isFirst : index = 0 := by
    by_contra later
    split at covers
    · rename_i covered
      have apart := leaf.sorted 0 index (Nat.pos_of_ne_zero later) inside
      have nonempty := full 0 (Nat.zero_lt_of_lt inside)
      have before := covered.1
      change eeBlock node (extentPlace index) ≤ 0 at before
      omega
    · cases covers
  rw [isFirst, Nat.mul_zero, Nat.add_zero] at covers
  split at covers
  · rename_i covered
    have start := Nat.le_zero.mp covered.1
    rw [start, Nat.sub_zero, Nat.add_zero] at covers
    exact ⟨Nat.zero_lt_of_lt inside, start, (Option.some.inj covers).symm⟩
  · cases covers

section Ext4

variable {sb : Ext4SuperBlock} {disk : Nat → UInt8} {e4In : Nat → UInt8}
  {count : Nat} (directory : Ext4Directory sb disk e4In count)

include directory

theorem Ext4Directory.blocksOf_eq :
    blocksOf (word e4In 4) sb.blockSize = count := by
  have small := leValue_lt (slice e4In 4 4)
  rw [length_slice] at small
  exact blocksOf_whole directory.wellFormed directory.size small

theorem Ext4Directory.searchable
    (unique : UniqueNames
      (dirRecords (ext4DirBlocks sb disk e4In) sb.blockSize count))
    {name : Vfs.Name} (counts : CountsTo (word e4In 4) name) :
    Searchable (ext4DirBlocks sb disk e4In) sb.blockSize (word e4In 4) count
      name where
  positive := blockSize_pos sb.toSuperBlock
  short := directory.wellFormed.blockSize_le
  total := directory.blocksOf_eq
  whole := directory.size
  tiled := directory.tiled
  unique := unique
  counts := counts

theorem Ext4Directory.blknum_zero (own : OwnExtents sb e4In)
    (positive : 0 < count) (stack : Nat → Nat) {pointer : Nat}
    (isPath : (ext4Path sb disk e4In 0).2 = some pointer) :
    (ext4GetBlknums sb e4In stack 0 count).2 0 % 2 ^ 32 =
      pointer % 2 ^ 32 := by
  unfold ext4Path at isPath
  unfold ext4GetBlknums
  by_cases extents : isExtent sb e4In = true
  · have depth := own extents
    have leaf := directory.leaf extents depth
    simp only [if_pos extents, if_pos leaf.magic, depth, extentPath] at isPath
    obtain ⟨entries, begins, isPointer⟩ :=
      leafPointer_zero leaf (directory.full extents depth) isPath
    rw [if_pos extents, ext4GetExtentBlkbums_leaf leaf fun _ _ => rfl]
    simp only
    rw [extentLoop_zero positive entries begins
      (directory.full extents depth 0 entries), isPointer]
    unfold add32
    omega
  · rw [if_neg extents] at isPath ⊢
    have few : blocksOf (word e4In 4) sb.toSuperBlock.blockSize ≤ _ :=
      blocksOf_le (word e4In 4)
    rw [directory.blocksOf_eq] at few
    simp only
    rw [getBlockIndexs_first directory.wellFormed directory.serves _ few]
    simp [slice, positive, treePointer_of_ext2Path isPath]

theorem Ext4Directory.readFirst (own : OwnExtents sb e4In)
    (positive : 0 < count) (scratch : Vfs.Scratch) :
    ext4ReadBlock sb.drive sb.blockSize ((ext4GetBlknums sb e4In scratch.words
        0 (blocksOf (word e4In 4) sb.blockSize)).2 0) =
      slice (ext4DirBlocks sb disk e4In 0) 0 sb.blockSize := by
  obtain ⟨pointer, isPath⟩ :=
    Option.ne_none_iff_exists'.mp (directory.mapped 0 positive)
  have first := directory.blknum_zero own positive scratch.words isPath
  rw [directory.blocksOf_eq, ext4ReadBlock_eq,
    ext2ReadBlock_whole directory.wellFormed directory.serves,
    blockAt_mod disk _ first, ext4DirBlocks, isPath, Option.getD_some]

theorem Ext4Directory.findsEntry_iff (own : OwnExtents sb e4In)
    (unique : UniqueNames
      (dirRecords (ext4DirBlocks sb disk e4In) sb.blockSize count))
    {name : Vfs.Name} (counts : CountsTo (word e4In 4) name) :
    (∀ scratch, FindsEntry
      (dirRecords (ext4DirBlocks sb disk e4In) sb.blockSize count) name
      (ext4InodeByName sb scratch e4In name)) ↔
      FoundFirst (ext4DirBlocks sb disk e4In) sb.blockSize count name :=
  (directory.searchable unique counts).findsEntry_iff
    (directory.readFirst own)

theorem Ext4Directory.findsEntry_nothing
    (unique : UniqueNames
      (dirRecords (ext4DirBlocks sb disk e4In) sb.blockSize count))
    {name : Vfs.Name} (counts : CountsTo (word e4In 4) name)
    (nothing : count = 0 ∨ 255 < name.length) (scratch : Vfs.Scratch) :
    FindsEntry (dirRecords (ext4DirBlocks sb disk e4In) sb.blockSize count)
      name (ext4InodeByName sb scratch e4In name) := by
  have search := directory.searchable unique counts
  rcases nothing with empty | long
  · exact search.findsEntry_empty empty scratch.stack
  · exact search.findsEntry_long long scratch.stack

end Ext4

/-- There is nothing to find, or the first block has it and the inode the
extents. -/
def FoundOwn (sb : Ext4SuperBlock) (disk : Nat → UInt8) (e4In : Nat → UInt8)
    (count : Nat) (name : Vfs.Name) : Prop :=
  (count = 0 ∨ 255 < name.length) ∨
    OwnExtents sb e4In ∧
      FirstBlockHas
        (dirRecords (ext4DirBlocks sb disk e4In) sb.blockSize count)
        (blockRecords (ext4DirBlocks sb disk e4In 0) sb.blockSize 0) name

/-- The names that are found in a directory of either file system, whatever is
on the stack.  The block numbers of an ext4 directory with levels of index
entries are what is on the stack. -/
theorem inodeByName_findsEntry_iff (count : Nat) (name : Vfs.Name) :
    (∀ (sb : SuperBlock) (disk : Nat → UInt8) (inode : Inode),
      Ext2Directory sb disk inode count →
      UniqueNames
        (dirRecords (ext2DirBlocks sb disk inode) sb.blockSize count) →
      CountsTo inode.iSize name →
      ((∀ scratch, FindsEntry
        (dirRecords (ext2DirBlocks sb disk inode) sb.blockSize count) name
        (ext2InodeByName sb scratch inode name)) ↔
        FoundFirst (ext2DirBlocks sb disk inode) sb.blockSize count name)) ∧
    (∀ (sb : Ext4SuperBlock) (disk e4In : Nat → UInt8),
      Ext4Directory sb disk e4In count →
      UniqueNames
        (dirRecords (ext4DirBlocks sb disk e4In) sb.blockSize count) →
      CountsTo (word e4In 4) name →
      (FoundOwn sb disk e4In count name → ∀ scratch, FindsEntry
        (dirRecords (ext4DirBlocks sb disk e4In) sb.blockSize count) name
        (ext4InodeByName sb scratch e4In name)) ∧
      (OwnExtents sb e4In →
        (∀ scratch, FindsEntry
          (dirRecords (ext4DirBlocks sb disk e4In) sb.blockSize count) name
          (ext4InodeByName sb scratch e4In name)) →
        FoundOwn sb disk e4In count name)) := by
  constructor
  · intro sb disk inode directory unique counts
    exact directory.findsEntry_iff unique counts
  · intro sb disk e4In directory unique counts
    constructor
    · rintro (nothing | ⟨own, has⟩)
      · exact directory.findsEntry_nothing unique counts nothing
      · exact (directory.findsEntry_iff own unique counts).mpr
          (.inr (.inr has))
    · intro own finds
      rcases (directory.findsEntry_iff own unique counts).mp finds with
        empty | long | has
      · exact .inl (.inl empty)
      · exact .inl (.inr long)
      · exact .inr ⟨own, has⟩

theorem dirRecords_one (blocks : Nat → Nat → UInt8) (blockSize : Nat) :
    dirRecords blocks blockSize 1 = blockRecords (blocks 0) blockSize 0 := by
  rw [dirRecords, recordsFrom_succ, Nat.zero_mul, recordsFrom,
    List.range'_zero, List.flatMap_nil, List.append_nil]

/-- The records "." and "..". -/
def dotRecords : List DirRecord :=
  [⟨[46], 5, 0, 2⟩, ⟨[46, 46], 2, 12, 2⟩]

theorem dirRecords_dot :
    dirRecords (ext2DirBlocks (entriesVolume 5) (entriesDisk 5) entriesInode)
      (entriesVolume 5).blockSize 1 = dotRecords :=
  dirRecords_entries 5

theorem blockRecords_dot :
    blockRecords (ext2DirBlocks (entriesVolume 5) (entriesDisk 5) entriesInode
      0) (entriesVolume 5).blockSize 0 = dotRecords := by
  rw [← dirRecords_one]
  exact dirRecords_dot

theorem uniqueNames_dot : UniqueNames dotRecords := by
  unfold UniqueNames dotRecords
  decide

theorem firstBlockHas_dot : FirstBlockHas dotRecords dotRecords [46] :=
  ⟨[], ⟨[46], 5, 0, 2⟩, [⟨[46, 46], 2, 12, 2⟩], rfl, by simp, rfl, by simp,
    fun _ => .inr rfl⟩

theorem countsTo_short (size : Nat) {name : Vfs.Name}
    (short : name.length ≤ 255) : CountsTo size name :=
  fun long => absurd short (Nat.not_le_of_lt long)

/-- The same directory on an ext4 volume without extents. -/
def entriesExt4 : Ext4SuperBlock where
  toSuperBlock := entriesVolume 5
  sFeatureIncompat := 0

def entriesE4In : Nat → UInt8 :=
  fun offset => if offset = 5 then 4 else if offset = 40 then 1 else 0

theorem isExtent_entries : isExtent entriesExt4 entriesE4In = false := rfl

theorem ext4Path_entries :
    (ext4Path entriesExt4 (entriesDisk 5) entriesE4In 0).2 = some 1 := by
  have pointer : treePointer (entriesVolume 5) (entriesDisk 5)
      (indirectInode entriesE4In) 0 = 1 := by
    rw [treePointer_direct _ (by decide)]
    rfl
  have direct : indirections (entriesVolume 5) (entriesDisk 5)
      (indirectInode entriesE4In) 0 = [] := by
    unfold indirections
    exact if_pos (by decide)
  rw [ext4Path, isExtent_entries]
  change (ext2Path (entriesVolume 5) _ _ _).2 = _
  simp [ext2Path, direct, pointer]

theorem ext4DirBlocks_entries :
    ext4DirBlocks entriesExt4 (entriesDisk 5) entriesE4In 0 =
      ext2DirBlocks (entriesVolume 5) (entriesDisk 5) entriesInode 0 := by
  rw [ext4DirBlocks, ext4Path_entries, ext2DirBlocks,
    treePointer_direct _ (by decide)]
  rfl

theorem ext4_directory : Ext4Directory entriesExt4 (entriesDisk 5) entriesE4In
    1 := by
  have ext2 := entries_directory 5
  have none : ¬isExtent entriesExt4 entriesE4In = true := by
    rw [isExtent_entries]
    exact Bool.false_ne_true
  constructor
  · exact ext2.wellFormed
  · exact ext2.serves
  · change 1024 = 1 * (entriesVolume 5).blockSize
    rw [blockSize_entries]
  · intro i inside
    obtain rfl : i = 0 := by omega
    rw [ext4Path_entries]
    exact Option.some_ne_none 1
  · exact fun extents => absurd extents none
  · exact fun extents => absurd extents none
  · intro i inside
    obtain rfl : i = 0 := by omega
    rw [ext4DirBlocks_entries]
    exact ext2.tiled 0 inside

theorem dirRecords_ext4 :
    dirRecords (ext4DirBlocks entriesExt4 (entriesDisk 5) entriesE4In)
      entriesExt4.blockSize 1 = dotRecords := by
  rw [dirRecords_one, ext4DirBlocks_entries]
  exact blockRecords_dot

theorem inodeByName_findsEntry_iff_dot :
    (∀ scratch, FindsEntry dotRecords [46]
      (ext2InodeByName (entriesVolume 5) scratch entriesInode [46])) ∧
    (∀ scratch, FindsEntry dotRecords [46]
      (ext4InodeByName entriesExt4 scratch entriesE4In [46])) := by
  have short : ([46] : Vfs.Name).length ≤ 255 := by decide
  constructor
  · rw [← dirRecords_dot]
    apply ((inodeByName_findsEntry_iff 1 [46]).1 _ _ _ (entries_directory 5)
      (dirRecords_dot ▸ uniqueNames_dot) (countsTo_short _ short)).mpr
    rw [FoundFirst, dirRecords_dot, blockRecords_dot]
    exact .inr (.inr firstBlockHas_dot)
  · rw [← dirRecords_ext4]
    apply ((inodeByName_findsEntry_iff 1 [46]).2 _ _ _ ext4_directory
      (dirRecords_ext4 ▸ uniqueNames_dot) (countsTo_short _ short)).1
    have block : blockRecords (ext4DirBlocks entriesExt4 (entriesDisk 5)
        entriesE4In 0) entriesExt4.blockSize 0 = dotRecords := by
      rw [← dirRecords_one]
      exact dirRecords_ext4
    rw [FoundOwn, dirRecords_ext4, block]
    refine .inr ⟨fun extents => ?_, firstBlockHas_dot⟩
    rw [isExtent_entries] at extents
    cases extents

/-- A name that no record has is found on the stack. -/
theorem not_ext2InodeByName_findsEntry :
    ¬∀ (sb : SuperBlock) (disk : Nat → UInt8) (inode : Inode) (count : Nat)
      (name : Vfs.Name) (scratch : Vfs.Scratch),
      Ext2Directory sb disk inode count →
      UniqueNames
        (dirRecords (ext2DirBlocks sb disk inode) sb.blockSize count) →
      CountsTo inode.iSize name →
      FindsEntry (dirRecords (ext2DirBlocks sb disk inode) sb.blockSize count)
        name (ext2InodeByName sb scratch inode name) := by
  intro always
  have directory := entries_directory 5
  have unique := uniqueNames_dot
  have counts : CountsTo entriesInode.iSize [120] :=
    countsTo_short _ (by decide)
  rw [← dirRecords_dot] at unique
  have finds (scratch : Vfs.Scratch) :=
    always _ _ _ _ [120] scratch directory unique counts
  have found := (directory.findsEntry_iff unique counts).mp finds
  rw [FoundFirst, dirRecords_dot, blockRecords_dot] at found
  rcases found with empty | long | ⟨before, record, after, split, _, isName, _⟩
  · exact absurd empty (by decide)
  · exact absurd long (by decide)
  · have member : record ∈ dotRecords := by
      rw [split]
      exact List.mem_append_right _ List.mem_cons_self
    have other : ∀ record ∈ dotRecords, record.name ≠ [120] := by
      unfold dotRecords
      decide
    exact other record member isName

end Witos.Fs
