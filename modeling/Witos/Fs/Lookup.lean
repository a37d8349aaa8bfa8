import Witos.Fs.Ext2Read
import Witos.Fs.Ext4Map
import Witos.Fs.Ext4Read

/-!
# Looking up names on a disk

`ext2_lookup` and `ext4_lookup`, with the inodes they return.  The inode of the
directory is in memory: it was read when the directory was looked up.
-/

namespace Witos.Fs

open Library

/-- `S_ISREG` and `S_ISDIR` are about the highest four bits of a mode. -/
def isReg (mode : Nat) : Bool := mode / 2 ^ 12 = 8
def isDir (mode : Nat) : Bool := mode / 2 ^ 12 = 4

/-- The end of `ext2_iget` and `ext4_iget`: the inode, or a null pointer if
there is no memory for it.  A mode of neither a file nor a directory ends in
`BUG`. -/
def iget (room : Bool) (ino mode size : Nat) : Option (Option Vfs.Inode) :=
  if room then
    if isReg mode then some (some ⟨ino, size, false⟩)
    else if isDir mode then some (some ⟨ino, size, true⟩)
    else none
  else some none

/-- `ext2_lookup` and `ext4_lookup`, from the number found and its `iget`. -/
def lookup (found : Option Nat) (iget : Nat → Option (Option Vfs.Inode)) :
    Option (Except Int Vfs.Inode) :=
  match found with
  | none => none
  | some ino =>
      if ino = 0 then some (.error (-Vfs.enoent))
      else
        match iget ino with
        | none => none
        | some none => some (.error (-Vfs.eio))
        | some (some inode) => some (.ok inode)

/-- The bytes `ext2_get_inode` reads. -/
def ext2InodeBytes (sb : SuperBlock) (ino : Nat) : List UInt8 :=
  let count := sb.blockSize / sb.sInodeSize
  let table := sb.bgInodeTable ((ino - 1) / sb.sInodesPerGroup)
  let inoNo := (ino - 1) % sb.sInodesPerGroup
  ext2ReadBlock sb (add32 table (inoNo / count))
    (inoNo % count * sb.sInodeSize) sb.sInodeSize

def ext2Iget (sb : SuperBlock) (room : Bool) (ino : Nat) :
    Option (Option Vfs.Inode) :=
  let e2In := ext2InodeBytes sb ino
  iget room ino (leValue (e2In.take 2)) (Inode.ofBytes e2In).iSize

def ext2InodeByName (sb : SuperBlock) (scratch : Vfs.Scratch)
    (parent : Inode) (unit : Vfs.Name) : Option Nat :=
  let blocks := blocksOf parent.iSize sb.blockSize
  let blockIndexs := getBlockIndexs sb parent 0 blocks
  inodeByName parent.iSize sb.blockSize
    (fun i => ext2ReadBlock sb (blockIndexs.getD i (scratch.words i)) 0
      sb.blockSize)
    scratch.stack unit

def ext2Lookup (sb : SuperBlock) (scratch : Vfs.Scratch) (parent : Inode)
    (name : Vfs.Name) : Option (Except Int Vfs.Inode) :=
  lookup (ext2InodeByName sb scratch parent name)
    (ext2Iget sb scratch.room)

/-- The memory from the inode on, which holds `heap` before it is read. -/
def ext4GetInode (sb : Ext4SuperBlock) (heap : Nat → UInt8) (ino : Nat) :
    Nat → UInt8 :=
  let count := sb.blockSize / sb.sInodeSize
  let table := sb.bgInodeTable ((ino - 1) / sb.sInodesPerGroup)
  let inoNo := (ino - 1) % sb.sInodesPerGroup
  let off := ((table + inoNo / count) * sb.blockSize +
    inoNo % count * sb.sInodeSize) % 2 ^ 32
  overlay (ext4ReadBuff sb.drive off sb.sInodeSize) heap

def ext4Iget (sb : Ext4SuperBlock) (heap : Nat → UInt8) (room : Bool)
    (ino : Nat) : Option (Option Vfs.Inode) :=
  let e4In := ext4GetInode sb heap ino
  iget room ino (half e4In 0) (word e4In 4)

def ext4InodeByName (sb : Ext4SuperBlock) (scratch : Vfs.Scratch)
    (parent : Nat → UInt8) (unit : Vfs.Name) : Option Nat :=
  let size := word parent 4
  let blocks := blocksOf size sb.blockSize
  let blockIndexs := (ext4GetBlknums sb parent scratch.words 0 blocks).2
  inodeByName size sb.blockSize
    (fun i => ext4ReadBlock sb.drive sb.blockSize (blockIndexs i))
    scratch.stack unit

def ext4Lookup (sb : Ext4SuperBlock) (scratch : Vfs.Scratch)
    (parent : Nat → UInt8) (name : Vfs.Name) :
    Option (Except Int Vfs.Inode) :=
  lookup (ext4InodeByName sb scratch parent name)
    (ext4Iget sb scratch.heap scratch.room)

theorem lookup_error {found : Option Nat}
    {iget : Nat → Option (Option Vfs.Inode)} {ret : Int}
    (failed : lookup found iget = some (.error ret)) : ret < 0 := by
  unfold lookup at failed
  split at failed
  · cases failed
  · split at failed
    · cases failed
      decide
    · split at failed
      · cases failed
      · cases failed
        decide
      · cases failed

theorem lookup_ok {found : Option Nat}
    {iget : Nat → Option (Option Vfs.Inode)} {inode : Vfs.Inode}
    (isOk : lookup found iget = some (.ok inode)) :
    ∃ ino ≠ 0, found = some ino ∧ iget ino = some (some inode) := by
  unfold lookup at isOk
  split at isOk
  · cases isOk
  · rename_i ino
    split at isOk
    · cases isOk
    · rename_i inUse
      split at isOk
      · cases isOk
      · cases isOk
      · rename_i other isInode
        cases isOk
        exact ⟨ino, inUse, rfl, isInode⟩

theorem iget_room {ino mode size : Nat} {inode : Vfs.Inode} {room : Bool}
    (isInode : iget room ino mode size = some (some inode)) :
    room = true := by
  unfold iget at isInode
  split at isInode
  · assumption
  · cases isInode

theorem ext2Lookup_room {sb : SuperBlock} {scratch : Vfs.Scratch}
    {parent : Inode} {inode : Vfs.Inode} {name : Vfs.Name}
    (isOk : ext2Lookup sb scratch parent name = some (.ok inode)) :
    scratch.room = true := by
  obtain ⟨ino, -, -, isInode⟩ := lookup_ok isOk
  exact iget_room isInode

theorem ext4Lookup_room {sb : Ext4SuperBlock} {scratch : Vfs.Scratch}
    {parent : Nat → UInt8} {inode : Vfs.Inode} {name : Vfs.Name}
    (isOk : ext4Lookup sb scratch parent name = some (.ok inode)) :
    scratch.room = true := by
  obtain ⟨ino, -, -, isInode⟩ := lookup_ok isOk
  exact iget_room isInode

/-- A directory of the disk has the name.  Its blocks are where `path`
says. -/
def DirectoryHas (disk : Nat → UInt8) (blockSize size : Nat)
    (path : Nat → Option Nat) (name : Vfs.Name) : Prop :=
  ∃ i pointer, i * blockSize < size ∧ path i = some pointer ∧
    HasName (blockAt disk blockSize pointer) blockSize name

/-- The directory has no holes, its blocks consist of whole records, and the
search for the name looks at no others. -/
structure SoundSearch (disk : Nat → UInt8) (blockSize size : Nat)
    (path : Nat → Option Nat) (stack : Nat → UInt8) (name : Vfs.Name) :
    Prop where
  tiled : ∀ i, i * blockSize < size → ∃ pointer, path i = some pointer ∧
    Tiled (blockAt disk blockSize pointer) blockSize
  inside : StaysInside size blockSize
    (fun i => slice (blockAt disk blockSize ((path i).getD 0)) 0 blockSize)
    stack name

theorem SoundSearch.found {disk : Nat → UInt8} {blockSize size : Nat}
    {path : Nat → Option Nat} {stack : Nat → UInt8} {name : Vfs.Name}
    (sound : SoundSearch disk blockSize size path stack name)
    {readBlock : Nat → List UInt8}
    (reads : ∀ i < blocksOf size blockSize, ∀ pointer,
      path i = some pointer →
        readBlock i = slice (blockAt disk blockSize pointer) 0 blockSize)
    {ino : Nat}
    (found : inodeByName size blockSize readBlock stack name = some ino)
    (inUse : ino ≠ 0) : DirectoryHas disk blockSize size path name := by
  have same : ∀ i < blocksOf size blockSize, readBlock i =
      slice (blockAt disk blockSize ((path i).getD 0)) 0 blockSize := by
    intro i below
    obtain ⟨pointer, isPath, -⟩ := sound.tiled i (blocksOf_bound below)
    rw [isPath, Option.getD_some]
    exact reads i below pointer isPath
  have tiled : ∀ i, i * blockSize < size →
      Tiled (blockAt disk blockSize ((path i).getD 0)) blockSize := by
    intro i below
    obtain ⟨pointer, isPath, isTiled⟩ := sound.tiled i below
    rw [isPath]
    exact isTiled
  rw [inodeByName_congr same] at found
  obtain ⟨i, below, hasName⟩ :=
    inodeByName_found tiled sound.inside found inUse
  obtain ⟨pointer, isPath, -⟩ := sound.tiled i below
  rw [isPath] at hasName
  exact ⟨i, pointer, below, isPath, hasName⟩

section Ext2

variable (sb : SuperBlock) (disk : Nat → UInt8)

/-- The blocks of a directory. -/
def ext2Blocks (dir : Vfs.Inode) (i : Nat) : Option Nat :=
  (ext2Path sb disk (inodeAt sb disk dir.iNo) i).2

def Ext2Holds (dir : Vfs.Inode) (name : Vfs.Name) : Prop :=
  DirectoryHas disk sb.blockSize (inodeAt sb disk dir.iNo).iSize
    (ext2Blocks sb disk dir) name

/-- A lookup in a directory that is in order, on a drive that does not
fail. -/
structure Ext2Sound (scratch : Vfs.Scratch) (dir : Vfs.Inode)
    (name : Vfs.Name) : Prop where
  wellFormed : WellFormed sb
  serves : Serves sb.drive disk
  search : SoundSearch disk sb.blockSize (inodeAt sb disk dir.iNo).iSize
    (ext2Blocks sb disk dir) scratch.stack name

variable {sb disk}

theorem slice_blockAt (blockSize pointer : Nat) :
    slice (blockAt disk blockSize pointer) 0 blockSize =
      slice (wrapped disk) (pointer * blockSize) blockSize := by
  apply slice_congr
  intro index _
  rw [blockAt, Nat.zero_add]

theorem ext2ReadBlock_whole (wellFormed : WellFormed sb)
    (serves : Serves sb.drive disk) (pointer : Nat) :
    ext2ReadBlock sb pointer 0 sb.blockSize =
      slice (blockAt disk sb.blockSize pointer) 0 sb.blockSize := by
  have bound := wellFormed.blockSize_le
  rw [ext2ReadBlock_eq serves pointer (by unfold sectSize; omega),
    Nat.add_zero, slice_blockAt]

theorem treePointer_of_ext2Path {inode : Inode} {i pointer : Nat}
    (isPath : (ext2Path sb disk inode i).2 = some pointer) :
    treePointer sb disk inode i = pointer := by
  unfold ext2Path at isPath
  simp only at isPath
  split at isPath
  · cases isPath
  · exact Option.some.inj isPath

theorem getD_getBlockIndexs (wellFormed : WellFormed sb)
    (serves : Serves sb.drive disk) (inode : Inode) (words : Nat → Nat)
    {size i pointer : Nat} (below : i < blocksOf size sb.blockSize)
    (isPath : (ext2Path sb disk inode i).2 = some pointer) :
    (getBlockIndexs sb inode 0 (blocksOf size sb.blockSize)).getD i
      (words i) = pointer := by
  rw [getBlockIndexs_first wellFormed serves inode (blocksOf_le size)]
  simp [slice, below, treePointer_of_ext2Path isPath]

theorem Ext2Sound.found {scratch : Vfs.Scratch} {dir inode : Vfs.Inode}
    {name : Vfs.Name} (sound : Ext2Sound sb disk scratch dir name)
    (isOk : ext2Lookup sb scratch (ext2GetInode sb dir.iNo) name =
      some (.ok inode)) : Ext2Holds sb disk dir name := by
  obtain ⟨ino, inUse, found, -⟩ := lookup_ok isOk
  rw [ext2GetInode_eq sound.wellFormed sound.serves] at found
  apply sound.search.found _ found inUse
  intro i below pointer isPath
  rw [getD_getBlockIndexs sound.wellFormed sound.serves _ _ below isPath]
  exact ext2ReadBlock_whole sound.wellFormed sound.serves pointer

end Ext2

section Ext4

variable (sb : Ext4SuperBlock) (disk : Nat → UInt8)

/-- The inode of a number on the disk. -/
def e4InAt (ino : Nat) : Nat → UInt8 :=
  fun offset => wrapped disk
    (sb.bgInodeTable ((ino - 1) / sb.sInodesPerGroup) * sb.blockSize +
      (ino - 1) % sb.sInodesPerGroup * sb.sInodeSize + offset)

def ext4Blocks (dir : Vfs.Inode) (i : Nat) : Option Nat :=
  (ext4Path sb disk (e4InAt sb disk dir.iNo) i).2

def Ext4Holds (dir : Vfs.Inode) (name : Vfs.Name) : Prop :=
  DirectoryHas disk sb.blockSize (word (e4InAt sb disk dir.iNo) 4)
    (ext4Blocks sb disk dir) name

/-- A lookup in a directory that is in order, on a drive that does not fail.
Of a directory with extents, one extent has to hold all blocks. -/
structure Ext4Sound (scratch : Vfs.Scratch) (dir : Vfs.Inode)
    (name : Vfs.Name) : Prop where
  wellFormed : WellFormed sb.toSuperBlock
  serves : Serves sb.drive disk
  search : SoundSearch disk sb.blockSize (word (e4InAt sb disk dir.iNo) 4)
    (ext4Blocks sb disk dir) scratch.stack name
  oneExtent : isExtent sb (e4InAt sb disk dir.iNo) = true →
    0 < blocksOf (word (e4InAt sb disk dir.iNo) 4) sb.blockSize →
      InFirstExtent (iBlockNode (e4InAt sb disk dir.iNo))
        (blocksOf (word (e4InAt sb disk dir.iNo) 4) sb.blockSize)

variable {sb disk}

/-- The bytes of an inode that the map uses. -/
def SameInode (left right : Nat → UInt8) : Prop :=
  ∀ offset < 128, left offset = right offset

theorem ext4GetInode_eq (wellFormed : WellFormed sb.toSuperBlock)
    (serves : Serves sb.drive disk) (heap : Nat → UInt8) (ino : Nat) :
    SameInode (ext4GetInode sb heap ino) (e4InAt sb disk ino) := by
  intro offset below
  have bound := wellFormed.blockSize_le
  have least := wellFormed.inodeSize
  unfold ext4GetInode e4InAt
  generalize sb.bgInodeTable ((ino - 1) / sb.sInodesPerGroup) = table
  generalize (ino - 1) % sb.sInodesPerGroup = inoNo
  have inside := wellFormed.inodeInside inoNo
  rw [wellFormed.inodePlace, ext4ReadBuff_block serves _ (by omega)]
  have within : offset < sb.sInodeSize := by omega
  simp [overlay, slice, within]

section Same

variable {left right : Nat → UInt8} (same : SameInode left right)

include same

theorem SameInode.slice_eq {offset count : Nat}
    (inside : offset + count ≤ 128) :
    slice left offset count = slice right offset count := by
  apply slice_congr
  intro index below
  exact same _ (by omega)

theorem SameInode.word_eq {offset : Nat} (inside : offset + 4 ≤ 128) :
    word left offset = word right offset := by
  rw [word, word, same.slice_eq inside]

theorem SameInode.isExtent_eq : isExtent sb left = isExtent sb right := by
  rw [isExtent, isExtent, same.word_eq (by decide)]

theorem SameInode.indirectInode_eq :
    indirectInode left = indirectInode right := by
  unfold indirectInode
  rw [same.word_eq (by decide)]
  congr 1
  funext index
  split
  · exact same.word_eq (by omega)
  · rfl

theorem SameInode.node_half {offset : Nat} (inside : offset + 2 ≤ 24) :
    half (iBlockNode left) offset = half (iBlockNode right) offset := by
  unfold half
  congr 1
  apply slice_congr
  intro index below
  exact same _ (by omega)

theorem SameInode.node_word {offset : Nat} (inside : offset + 4 ≤ 24) :
    word (iBlockNode left) offset = word (iBlockNode right) offset := by
  unfold word
  congr 1
  apply slice_congr
  intro index below
  exact same _ (by omega)

theorem SameInode.inFirstExtent {blocks : Nat}
    (inFirst : InFirstExtent (iBlockNode right) blocks) :
    InFirstExtent (iBlockNode left) blocks := by
  obtain ⟨magic, depth, entries, start, enough, written⟩ := inFirst
  constructor
  · exact (same.node_half (by decide)).trans magic
  · exact (same.node_half (by decide)).trans depth
  · exact entries.trans_eq (same.node_half (by decide)).symm
  · exact (same.node_word (by decide)).trans start
  · exact enough.trans_eq (same.node_half (by decide)).symm
  · exact (same.node_half (by decide)).trans_le written

end Same

theorem Ext4Sound.blockIndexs {scratch : Vfs.Scratch} {dir : Vfs.Inode}
    {name : Vfs.Name} (sound : Ext4Sound sb disk scratch dir name)
    {e4In : Nat → UInt8} (same : SameInode e4In (e4InAt sb disk dir.iNo))
    {i pointer : Nat}
    (below : i < blocksOf (word (e4InAt sb disk dir.iNo) 4) sb.blockSize)
    (isPath : ext4Blocks sb disk dir i = some pointer) :
    (ext4GetBlknums sb e4In scratch.words 0
        (blocksOf (word (e4InAt sb disk dir.iNo) 4) sb.blockSize)).2 i %
      2 ^ 32 = pointer % 2 ^ 32 := by
  unfold ext4Blocks ext4Path at isPath
  unfold ext4GetBlknums
  rw [same.isExtent_eq]
  split at isPath
  · rename_i extents
    have onDisk := sound.oneExtent extents (Nat.zero_lt_of_lt below)
    have inMemory := same.inFirstExtent onDisk
    have start : eeStartLo (iBlockNode e4In) extentSize =
        eeStartLo (iBlockNode (e4InAt sb disk dir.iNo)) extentSize :=
      same.node_word (by decide)
    have noDepth : ¬0 < ehDepth (iBlockNode e4In) :=
      Nat.not_lt.mpr (Nat.le_of_eq inMemory.depth)
    simp only [if_pos onDisk.magic, onDisk.depth, extentPath,
      leafPointer_first onDisk below, Option.some.injEq] at isPath
    rw [if_pos extents, ext4GetExtentBlkbums]
    simp only [inMemory.magic, ne_eq, not_true_eq_false, if_false, noDepth]
    rw [extentLoop_first inMemory _ below, start, ← isPath]
    unfold add32
    omega
  · rename_i noExtents
    rw [if_neg noExtents, same.indirectInode_eq]
    simp only
    rw [getD_getBlockIndexs sound.wellFormed sound.serves _ _ below isPath]

theorem Ext4Sound.found {scratch : Vfs.Scratch} {dir inode : Vfs.Inode}
    {name : Vfs.Name} (sound : Ext4Sound sb disk scratch dir name)
    (isOk : ext4Lookup sb scratch (ext4GetInode sb scratch.heap dir.iNo)
      name = some (.ok inode)) : Ext4Holds sb disk dir name := by
  obtain ⟨ino, inUse, found, -⟩ := lookup_ok isOk
  have same := ext4GetInode_eq sound.wellFormed sound.serves scratch.heap
    dir.iNo
  have size : word (ext4GetInode sb scratch.heap dir.iNo) 4 =
      word (e4InAt sb disk dir.iNo) 4 := same.word_eq (by decide)
  unfold ext4InodeByName at found
  rw [size] at found
  apply sound.search.found _ found inUse
  intro i below pointer isPath
  rw [ext4ReadBlock_eq, ext2ReadBlock_whole sound.wellFormed sound.serves,
    blockAt_mod disk _ (sound.blockIndexs same below isPath)]

end Ext4

end Witos.Fs
