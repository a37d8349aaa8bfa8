import Witos.Fs.Lookup

/-!
# Errors of the drive

`submit_bio` notes a failed sector in the flags of the request, and nobody
looks at them: what the buffer held before is taken for the sector.
-/

namespace Witos.Fs

open Library

/-- A drive over a disk that fails for some sectors; `junk` is what the buffer
holds for them. -/
def failingDrive (disk : Nat → UInt8) (fails : Nat → Bool)
    (junk : Nat → UInt8) : Drive where
  getBlock := fun position =>
    if fails position then none else some (slice disk position sectSize)
  junk := junk

/-- A drive that never fails. -/
def soundDrive (disk : Nat → UInt8) : Drive :=
  failingDrive disk (fun _ => false) (fun _ => 0)

def SuperBlock.over (sb : SuperBlock) (drive : Drive) : SuperBlock :=
  { sb with drive := drive }

def Ext4SuperBlock.over (sb : Ext4SuperBlock) (drive : Drive) :
    Ext4SuperBlock :=
  { sb with toSuperBlock := sb.toSuperBlock.over drive }

/-- The sector of a byte. -/
def sectorOf (position : Nat) : Nat :=
  position / sectSize * sectSize % 2 ^ 32

/-- The sector has one of the bytes from a position on. -/
def Touches (start count sector : Nat) : Prop :=
  ∃ index < count, sector = sectorOf (start + index)

section Needs

variable (blockSize : Nat) (path : Nat → List Nat × Option Nat)

/-- A sector of the blocks of pointers or index entries on the way to a
logical block. -/
def NeedsWay (block sector : Nat) : Prop :=
  ∃ pointers ∈ (path block).1, Touches (pointers * blockSize) blockSize sector

/-- A sector needed for a byte of a file. -/
def NeedsByte (index sector : Nat) : Prop :=
  NeedsWay blockSize path (index / blockSize) sector ∨
    ∃ pointer, (path (index / blockSize)).2 = some pointer ∧
      sector = sectorOf (pointer * blockSize + index % blockSize)

/-- A sector needed for a whole block of a directory. -/
def NeedsBlock (block sector : Nat) : Prop :=
  NeedsWay blockSize path block sector ∨
    ∃ pointer, (path block).2 = some pointer ∧
      Touches (pointer * blockSize) blockSize sector

/-- The block of a directory that has the first record of a name, and the
number in the record. -/
def FoundIn (disk : Nat → UInt8) (size : Nat) (name : Vfs.Name)
    (block ino : Nat) : Prop :=
  block * blockSize < size ∧
    (∃ pointer place, (path block).2 = some pointer ∧
      RecordAt (blockAt disk blockSize pointer) blockSize place ∧
      deName (blockAt disk blockSize pointer) place = name ∧
      deInode (blockAt disk blockSize pointer) place = ino ∧ ino ≠ 0) ∧
    ∀ earlier < block, ∀ pointer, (path earlier).2 = some pointer →
      ¬HasName (blockAt disk blockSize pointer) blockSize name

end Needs

section Requests

variable (sb : SuperBlock) (disk : Nat → UInt8)

/-- Where the inode of a number is. -/
def inodePosition (ino : Nat) : Nat :=
  sb.bgInodeTable ((ino - 1) / sb.sInodesPerGroup) * sb.blockSize +
    (ino - 1) % sb.sInodesPerGroup * sb.sInodeSize

/-- The sectors of the inode and of the bytes of the range. -/
def Ext2ReadNeeds (ino fPos size sector : Nat) : Prop :=
  Touches (inodePosition sb ino) sb.sInodeSize sector ∨
    ∃ index < readCount (inodeAt sb disk ino) fPos size,
      NeedsByte sb.blockSize (ext2Path sb disk (inodeAt sb disk ino))
        (fPos + index) sector

/-- The sectors of the directory up to the record of the name, and of the
inode it names.  Of a name that is not there, all sectors of the directory. -/
def LookupNeeds (path : Nat → List Nat × Option Nat) (size : Nat)
    (name : Vfs.Name) (sector : Nat) : Prop :=
  (∃ block ino, FoundIn sb.blockSize path disk size name block ino ∧
    ((∃ earlier ≤ block, NeedsBlock sb.blockSize path earlier sector) ∨
      Touches (inodePosition sb ino) sb.sInodeSize sector)) ∨
  ((∀ block ino, ¬FoundIn sb.blockSize path disk size name block ino) ∧
    ∃ block, block * sb.blockSize < size ∧
      NeedsBlock sb.blockSize path block sector)

end Requests

/-- `ext4_read` of a file with the inode `e4In` in memory, on the map of
`ext4_get_blknums`. -/
def ext4FileRead (sb : Ext4SuperBlock) (stack : Nat → Nat)
    (e4In : Nat → UInt8) (fPos size : Nat) (buff : Nat → UInt8) :
    Option Ext4Result :=
  ext4Read sb.drive sb.blockSize (ext4GetBlknums sb e4In stack)
    (word e4In 4) fPos size buff

/-- The sectors of the bytes of the range; the inode is in memory. -/
def Ext4ReadNeeds (sb : Ext4SuperBlock) (disk : Nat → UInt8)
    (ino fPos size sector : Nat) : Prop :=
  ∃ index < min size (word (e4InAt sb disk ino) 4 - fPos),
    NeedsByte sb.blockSize (ext4Path sb disk (e4InAt sb disk ino))
      (fPos + index) sector

section Reports

variable (disk : Nat → UInt8) (fails : Nat → Bool)

/-- One of the sectors fails. -/
def Fails (needs : Nat → Prop) : Prop :=
  ∃ sector, needs sector ∧ fails sector = true

def Ext2ReadReports (sb : SuperBlock) (ino fPos size : Nat) : Prop :=
  Fails fails (Ext2ReadNeeds sb disk ino fPos size) → ∀ junk stack,
    (ext2Read (sb.over (failingDrive disk fails junk)) stack ino fPos
      size).ret < 0

def Ext4ReadReports (sb : Ext4SuperBlock) (ino fPos size : Nat) : Prop :=
  Fails fails (Ext4ReadNeeds sb disk ino fPos size) →
    ∀ junk stack heap buff, ∃ result,
      ext4FileRead (sb.over (failingDrive disk fails junk)) stack
        (ext4GetInode (sb.over (soundDrive disk)) heap ino) fPos size buff =
          some result ∧ result.ret < 0

/-- The sectors that the lookup of a name needs. -/
def Ext2LookupNeeds (sb : SuperBlock) (ino : Nat) (name : Vfs.Name) :
    Nat → Prop :=
  LookupNeeds sb disk (ext2Path sb disk (inodeAt sb disk ino))
    (inodeAt sb disk ino).iSize name

def Ext4LookupNeeds (sb : Ext4SuperBlock) (ino : Nat) (name : Vfs.Name) :
    Nat → Prop :=
  LookupNeeds sb.toSuperBlock disk (ext4Path sb disk (e4InAt sb disk ino))
    (word (e4InAt sb disk ino) 4) name

def Ext2LookupReports (sb : SuperBlock) (scratch : Vfs.Scratch) (ino : Nat)
    (name : Vfs.Name) : Prop :=
  Fails fails (Ext2LookupNeeds disk sb ino name) →
    ∀ junk, ∃ ret < 0, ext2Lookup (sb.over (failingDrive disk fails junk))
      scratch (inodeAt sb disk ino) name = some (.error ret)

def Ext4LookupReports (sb : Ext4SuperBlock) (scratch : Vfs.Scratch)
    (ino : Nat) (name : Vfs.Name) : Prop :=
  Fails fails (Ext4LookupNeeds disk sb ino name) →
    ∀ junk, ∃ ret < 0, ext4Lookup (sb.over (failingDrive disk fails junk))
      scratch (ext4GetInode (sb.over (soundDrive disk)) scratch.heap ino)
      name = some (.error ret)

/-- The other disk differs only in sectors that fail. -/
def DiffersInFailed (other : Nat → UInt8) : Prop :=
  ∀ sect, fails (sect * sectSize % 2 ^ 32) = false →
    slice other (sect * sectSize % 2 ^ 32) sectSize =
      slice disk (sect * sectSize % 2 ^ 32) sectSize

end Reports

section Same

variable {drive other : Drive}
  (same : ∀ sect, drive.sector (sect * sectSize % 2 ^ 32) =
    other.sector (sect * sectSize % 2 ^ 32))

include same

theorem submitBio_same (sect count : Nat) :
    submitBio drive sect count = submitBio other sect count := by
  induction count generalizing sect with
  | zero => rfl
  | succ count induction => rw [submitBio, submitBio, same, induction]

theorem ext4ReadBuff_same : ext4ReadBuff drive = ext4ReadBuff other := by
  funext offset size
  simp only [ext4ReadBuff, submitBio_same same]

variable (sb : SuperBlock)

theorem ext2ReadBlock_same :
    ext2ReadBlock (sb.over drive) = ext2ReadBlock (sb.over other) := by
  funext blkNo off size
  exact congrArg (fun bytes => (bytes.drop off).take size)
    (submitBio_same same _ _)

theorem readIndexs_same :
    readIndexs (sb.over drive) = readIndexs (sb.over other) := by
  funext blkNo
  unfold readIndexs
  rw [ext2ReadBlock_same same]
  rfl

theorem tindInner_same (dbuff : List Nat) (len left k h : Nat)
    (indexs : List Nat) :
    tindInner (sb.over drive) dbuff len left k h indexs =
      tindInner (sb.over other) dbuff len left k h indexs := by
  induction left generalizing k h indexs with
  | zero => rfl
  | succ left induction =>
      rw [tindInner, tindInner, readIndexs_same same]
      simp only [induction]

theorem tindOuter_same (buff : List Nat) (len kStart left j h : Nat)
    (indexs : List Nat) :
    tindOuter (sb.over drive) buff len kStart left j h indexs =
      tindOuter (sb.over other) buff len kStart left j h indexs := by
  induction left generalizing j h indexs with
  | zero => rfl
  | succ left induction =>
      rw [tindOuter, tindOuter, readIndexs_same same]
      simp only [tindInner_same same, induction]
      rfl

theorem getBlockIndexs_same (inode : Inode) (startBlock len : Nat) :
    getBlockIndexs (sb.over drive) inode startBlock len =
      getBlockIndexs (sb.over other) inode startBlock len := by
  have ind : getIndBlock (sb.over drive) inode =
      getIndBlock (sb.over other) inode := by
    funext start count
    rw [getIndBlock, getIndBlock, readIndexs_same same]
  have dind : getDindBlock (sb.over drive) inode =
      getDindBlock (sb.over other) inode := by
    funext start count
    rw [getDindBlock, getDindBlock, readIndexs_same same]
    simp only [dindLoop_eq_tindInner, tindInner_same same]
    rfl
  have tind : getTindBlock (sb.over drive) inode =
      getTindBlock (sb.over other) inode := by
    funext start count
    rw [getTindBlock, getTindBlock, readIndexs_same same]
    simp only [tindOuter_same same]
    rfl
  rw [getBlockIndexs, getBlockIndexs, ind, dind, tind]
  rfl

theorem ext2Lookup_same (scratch : Vfs.Scratch) (parent : Inode)
    (name : Vfs.Name) :
    ext2Lookup (sb.over drive) scratch parent name =
      ext2Lookup (sb.over other) scratch parent name := by
  have byName : ext2InodeByName (sb.over drive) scratch parent name =
      ext2InodeByName (sb.over other) scratch parent name := by
    unfold ext2InodeByName
    rw [ext2ReadBlock_same same]
    simp only [getBlockIndexs_same same]
    rfl
  have get : ext2Iget (sb.over drive) scratch.room =
      ext2Iget (sb.over other) scratch.room := by
    funext ino
    unfold ext2Iget ext2InodeBytes
    rw [ext2ReadBlock_same same]
    rfl
  rw [ext2Lookup, ext2Lookup, byName, get]

theorem ext4Lookup_same (sb : Ext4SuperBlock) (scratch : Vfs.Scratch)
    (parent : Nat → UInt8) (name : Vfs.Name) :
    ext4Lookup (sb.over drive) scratch parent name =
      ext4Lookup (sb.over other) scratch parent name := by
  have indexs (nums : Nat) :
      getBlockIndexs (sb.over drive).toSuperBlock (indirectInode parent) 0
          nums =
        getBlockIndexs (sb.over other).toSuperBlock (indirectInode parent) 0
          nums :=
    getBlockIndexs_same same sb.toSuperBlock _ _ _
  have map (nums : Nat) :
      ext4GetBlknums (sb.over drive) parent scratch.words 0 nums =
        ext4GetBlknums (sb.over other) parent scratch.words 0 nums := by
    unfold ext4GetBlknums
    rw [indexs]
    rfl
  have read : ext4ReadBuff (sb.over drive).drive =
      ext4ReadBuff (sb.over other).drive := ext4ReadBuff_same same
  have byName : ext4InodeByName (sb.over drive) scratch parent name =
      ext4InodeByName (sb.over other) scratch parent name := by
    unfold ext4InodeByName ext4ReadBlock
    rw [read]
    simp only [map]
    rfl
  have get : ext4Iget (sb.over drive) scratch.heap scratch.room =
      ext4Iget (sb.over other) scratch.heap scratch.room := by
    funext ino
    unfold ext4Iget ext4GetInode
    rw [read]
    rfl
  rw [ext4Lookup, ext4Lookup, byName, get]

end Same

section Reported

variable (disk : Nat → UInt8) (fails : Nat → Bool)

variable {disk fails} in
/-- The buffers may by chance hold any bytes of the sectors that failed. -/
theorem DiffersInFailed.sector {other : Nat → UInt8}
    (differs : DiffersInFailed disk fails other) (sect : Nat) :
    (failingDrive disk fails other).sector (sect * sectSize % 2 ^ 32) =
      (soundDrive other).sector (sect * sectSize % 2 ^ 32) := by
  have same := differs sect
  generalize sect * sectSize % 2 ^ 32 = position at same ⊢
  cases failed : fails position with
  | false => simp [Drive.sector, failingDrive, soundDrive, failed, same failed]
  | true => simp [Drive.sector, failingDrive, soundDrive, failed]

theorem signed32_neg_iff {value : Nat} (small : value < 2 ^ 32) :
    signed32 value < 0 ↔ 2 ^ 31 ≤ value := by
  unfold signed32
  split
  · omega
  · omega

/-- The number of bytes `ext2_read` reports does not depend on what it could
read. -/
theorem ext2Read_ret (sb : SuperBlock) (stack : Nat → Nat)
    (ino fPos size : Nat) :
    (ext2Read sb stack ino fPos size).ret =
      signed32 (min size (sub32 (ext2GetInode sb ino).iSize fPos)) := by
  unfold ext2Read
  simp only
  split
  · rename_i atEnd
    have none : sub32 (ext2GetInode sb ino).iSize fPos = 0 := by
      rw [atEnd]
      unfold sub32
      omega
    rw [none, Nat.min_zero]
    rfl
  · rfl

theorem ext2ReadReports_iff (sb : SuperBlock) (ino fPos size : Nat) :
    Ext2ReadReports disk fails sb ino fPos size ↔
      ¬Fails fails (Ext2ReadNeeds sb disk ino fPos size) ∨
        ∀ junk, 2 ^ 31 ≤ min size (sub32 (ext2GetInode
          (sb.over (failingDrive disk fails junk)) ino).iSize fPos) := by
  have negative (junk : Nat → UInt8) (stack : Nat → Nat) :
      (ext2Read (sb.over (failingDrive disk fails junk)) stack ino fPos
          size).ret < 0 ↔
        2 ^ 31 ≤ min size (sub32 (ext2GetInode
          (sb.over (failingDrive disk fails junk)) ino).iSize fPos) := by
    rw [ext2Read_ret]
    apply signed32_neg_iff
    exact Nat.lt_of_le_of_lt (Nat.min_le_right _ _)
      (Nat.mod_lt _ (by decide))
  unfold Ext2ReadReports
  simp only [negative]
  constructor
  · intro reports
    by_cases failed : Fails fails (Ext2ReadNeeds sb disk ino fPos size)
    · exact .inr fun junk => reports failed junk (fun _ => 0)
    · exact .inl failed
  · rintro (noFailure | long) failed junk _
    · exact absurd failed noFailure
    · exact long junk

theorem ext2LookupReports_iff (sb : SuperBlock) (scratch : Vfs.Scratch)
    (ino : Nat) (name : Vfs.Name) {other : Nat → UInt8} {inode : Vfs.Inode}
    (differs : DiffersInFailed disk fails other)
    (found : ext2Lookup (sb.over (soundDrive other)) scratch
      (inodeAt sb disk ino) name = some (.ok inode)) :
    Ext2LookupReports disk fails sb scratch ino name ↔
      ¬Fails fails (Ext2LookupNeeds disk sb ino name) := by
  constructor
  · intro reports failed
    obtain ⟨ret, -, isError⟩ := reports failed other
    rw [ext2Lookup_same differs.sector, found] at isError
    cases isError
  · intro noFailure failed
    exact absurd failed noFailure

theorem ext4LookupReports_iff (sb : Ext4SuperBlock) (scratch : Vfs.Scratch)
    (ino : Nat) (name : Vfs.Name) {other : Nat → UInt8} {inode : Vfs.Inode}
    (differs : DiffersInFailed disk fails other)
    (found : ext4Lookup (sb.over (soundDrive other)) scratch
      (ext4GetInode (sb.over (soundDrive disk)) scratch.heap ino) name =
        some (.ok inode)) :
    Ext4LookupReports disk fails sb scratch ino name ↔
      ¬Fails fails (Ext4LookupNeeds disk sb ino name) := by
  constructor
  · intro reports failed
    obtain ⟨ret, -, isError⟩ := reports failed other
    rw [ext4Lookup_same differs.sector, found] at isError
    cases isError
  · intro noFailure failed
    exact absurd failed noFailure

theorem ext4ReadLoop_returns (drive : Drive) (blkSize : Nat)
    (blkNum : Nat → Nat) {room left i : Nat} (enough : i + left ≤ room)
    (state : (Nat → UInt8) × Nat) :
    ∃ after, ext4ReadLoop drive blkSize blkNum room left i state =
      some after := by
  induction left generalizing i state with
  | zero => exact ⟨state, rfl⟩
  | succ left induction =>
      rw [ext4ReadLoop, if_neg (by omega)]
      exact induction (by omega) _

theorem ext4Copy_returns (drive : Drive) (blkSize : Nat)
    (blkNum : Nat → Nat) {room blks : Nat} (some : 2 ≤ room)
    (enough : blks ≤ room) (offset size : Nat) (buff : Nat → UInt8) :
    ∃ after, ext4Copy drive blkSize blkNum room blks offset size buff =
      .some after := by
  have head : (ext4Head drive blkSize blkNum offset buff).1 ≤ 1 := by
    unfold ext4Head
    split
    · exact Nat.le_refl _
    · exact Nat.zero_le _
  obtain ⟨after, loop⟩ := ext4ReadLoop_returns drive blkSize blkNum
    (show (ext4Head drive blkSize blkNum offset buff).1 +
      (blks - 1 - (ext4Head drive blkSize blkNum offset buff).1) ≤ room by
        omega)
    (ext4Head drive blkSize blkNum offset buff).2
  unfold ext4Copy
  simp only [loop]
  rw [if_neg (by omega)]
  exact ⟨_, rfl⟩

theorem ext4Blks_le {blkSize offset size : Nat} (bound : blkSize ≤ 2 ^ 16)
    (long : 2 ^ 31 ≤ size) (small : size < 2 ^ 32) :
    ext4Blks blkSize offset size ≤ sub32 size 1 / blkSize + 2 := by
  unfold ext4Blks
  split
  · apply Nat.add_le_add_right
    apply Nat.div_le_div_right
    rw [sub32_of_le small (by omega), sub32_of_le small (by omega),
      sub32_of_le (by omega) (by omega)]
    omega
  · omega

theorem ext4Read_ret {drive : Drive} {blkSize : Nat}
    {getBlknums : Nat → Nat → Int × (Nat → Nat)} {iSize fPos size : Nat}
    {buff : Nat → UInt8} {result : Ext4Result} (inside : fPos < iSize)
    (mapped : ∀ skip nums, 0 ≤ (getBlknums skip nums).1)
    (run : ext4Read drive blkSize getBlknums iSize fPos size buff =
      some result) : result.ret = signed32 size := by
  unfold ext4Read at run
  simp only [if_neg (Nat.not_le.mpr inside)] at run
  rw [if_neg (Int.not_lt.mpr (mapped _ _))] at run
  split at run
  · cases run
  · cases run
    rfl

theorem ext4Read_returns {drive : Drive} {blkSize : Nat}
    (getBlknums : Nat → Nat → Int × (Nat → Nat)) (iSize fPos : Nat)
    {size : Nat} (buff : Nat → UInt8) (bound : blkSize ≤ 2 ^ 16)
    (long : 2 ^ 31 ≤ size) (small : size < 2 ^ 32) :
    ∃ result, ext4Read drive blkSize getBlknums iSize fPos size buff =
      some result := by
  unfold ext4Read
  simp only
  split
  · exact ⟨_, rfl⟩
  · split
    · exact ⟨_, rfl⟩
    · obtain ⟨after, copied⟩ := ext4Copy_returns drive blkSize
        (getBlknums (fPos / blkSize)
          (ext4Blks blkSize (fPos % blkSize) size)).2
        (Nat.le_add_left 2 _) (ext4Blks_le bound long small)
        (fPos % blkSize) size buff
      rw [copied]
      exact ⟨_, rfl⟩

theorem ext4GetBlknums_nonneg {sb : Ext4SuperBlock} {drive : Drive}
    {e4In : Nat → UInt8} {ino index sector : Nat}
    (same : SameInode e4In (e4InAt sb disk ino))
    (needs : NeedsByte sb.blockSize (ext4Path sb disk (e4InAt sb disk ino))
      index sector) (stack : Nat → Nat) (skip nums : Nat) :
    0 ≤ (ext4GetBlknums (sb.over drive) e4In stack skip nums).1 := by
  unfold ext4GetBlknums
  split
  · rename_i extents
    have magic : ehMagic (iBlockNode e4In) = ext4ExtMagic := by
      by_contra isOther
      have onDisk : ehMagic (iBlockNode (e4InAt sb disk ino)) ≠
          ext4ExtMagic := by
        rw [ehMagic, ← same.node_half (by decide)]
        exact isOther
      have isExtents : isExtent sb (e4InAt sb disk ino) = true := by
        rw [← same.isExtent_eq]
        exact extents
      have empty (block : Nat) :
          ext4Path sb disk (e4InAt sb disk ino) block = ([], none) := by
        rw [ext4Path, if_pos isExtents]
        exact if_neg onDisk
      rcases needs with ⟨pointers, member, -⟩ | ⟨pointer, isPointer, -⟩
      · rw [empty] at member
        cases member
      · rw [empty] at isPointer
        cases isPointer
    unfold ext4GetExtentBlkbums
    simp only [magic, ne_eq, not_true_eq_false, if_false]
    split
    · exact Int.le_refl 0
    · exact Int.le_refl 0
  · exact Int.natCast_nonneg _

theorem ext4GetInode_sound {sb : Ext4SuperBlock}
    (wellFormed : WellFormed sb.toSuperBlock) (heap : Nat → UInt8)
    (ino : Nat) :
    SameInode (ext4GetInode (sb.over (soundDrive disk)) heap ino)
      (e4InAt sb disk ino) := by
  have isWellFormed : WellFormed (sb.over (soundDrive disk)).toSuperBlock :=
    ⟨wellFormed.logBlockSize, wellFormed.inodeSize, wellFormed.divides,
      wellFormed.inodesPerGroup⟩
  have serves : Serves (sb.over (soundDrive disk)).drive disk :=
    fun _ => rfl
  exact ext4GetInode_eq isWellFormed serves heap ino

theorem ext4ReadReports_iff {sb : Ext4SuperBlock}
    (wellFormed : WellFormed sb.toSuperBlock) (ino fPos : Nat) {size : Nat}
    (small : size < 2 ^ 32) :
    Ext4ReadReports disk fails sb ino fPos size ↔
      ¬Fails fails (Ext4ReadNeeds sb disk ino fPos size) ∨
        2 ^ 31 ≤ size := by
  -- A read that needs a sector is of a file with a map and before its end.
  have counted (failed : Fails fails (Ext4ReadNeeds sb disk ino fPos size))
      (junk : Nat → UInt8) (stack : Nat → Nat) (heap buff : Nat → UInt8)
      {result : Ext4Result}
      (run : ext4FileRead (sb.over (failingDrive disk fails junk)) stack
        (ext4GetInode (sb.over (soundDrive disk)) heap ino) fPos size buff =
          some result) : result.ret = signed32 size := by
    obtain ⟨sector, ⟨index, below, needs⟩, -⟩ := failed
    have same := ext4GetInode_sound disk wellFormed heap ino
    refine ext4Read_ret ?_ (ext4GetBlknums_nonneg disk same needs stack) run
    rw [same.word_eq (by decide)]
    omega
  constructor
  · intro reports
    by_cases failed : Fails fails (Ext4ReadNeeds sb disk ino fPos size)
    · obtain ⟨result, run, negative⟩ := reports failed (fun _ => 0)
        (fun _ => 0) (fun _ => 0) (fun _ => 0)
      rw [counted failed _ _ _ _ run, signed32_neg_iff small] at negative
      exact .inr negative
    · exact .inl failed
  · rintro (noFailure | long) failed junk stack heap buff
    · exact absurd failed noFailure
    · obtain ⟨result, run⟩ := ext4Read_returns _ _ fPos buff
        wellFormed.blockSize_le long small
      refine ⟨result, run, ?_⟩
      rw [counted failed _ _ _ _ run]
      exact (signed32_neg_iff small).mpr long

end Reported

/-- A request reports the failure of a sector it needs exactly if no such
sector fails, but for reads of so many bytes that their number is negative as
it is returned.  Of a lookup this is said for every name that is there, on the
disk or in what the buffers hold for the sectors that fail; for all others it is
enough. -/
theorem requests_report_iff (sb : SuperBlock) (sb4 : Ext4SuperBlock)
    (wellFormed : WellFormed sb4.toSuperBlock) (disk : Nat → UInt8)
    (fails : Nat → Bool) :
    (∀ ino fPos size, Ext2ReadReports disk fails sb ino fPos size ↔
      ¬Fails fails (Ext2ReadNeeds sb disk ino fPos size) ∨
        ∀ junk, 2 ^ 31 ≤ min size (sub32 (ext2GetInode
          (sb.over (failingDrive disk fails junk)) ino).iSize fPos)) ∧
    (∀ ino fPos size, size < 2 ^ 32 →
      (Ext4ReadReports disk fails sb4 ino fPos size ↔
        ¬Fails fails (Ext4ReadNeeds sb4 disk ino fPos size) ∨
          2 ^ 31 ≤ size)) ∧
    (∀ scratch ino name,
      (¬Fails fails (Ext2LookupNeeds disk sb ino name) →
        Ext2LookupReports disk fails sb scratch ino name) ∧
      ∀ other inode, DiffersInFailed disk fails other →
        ext2Lookup (sb.over (soundDrive other)) scratch
          (inodeAt sb disk ino) name = some (.ok inode) →
        (Ext2LookupReports disk fails sb scratch ino name ↔
          ¬Fails fails (Ext2LookupNeeds disk sb ino name))) ∧
    (∀ scratch ino name,
      (¬Fails fails (Ext4LookupNeeds disk sb4 ino name) →
        Ext4LookupReports disk fails sb4 scratch ino name) ∧
      ∀ other inode, DiffersInFailed disk fails other →
        ext4Lookup (sb4.over (soundDrive other)) scratch
          (ext4GetInode (sb4.over (soundDrive disk)) scratch.heap ino)
          name = some (.ok inode) →
        (Ext4LookupReports disk fails sb4 scratch ino name ↔
          ¬Fails fails (Ext4LookupNeeds disk sb4 ino name))) := by
  refine ⟨?_, ?_, ?_, ?_⟩
  · exact ext2ReadReports_iff disk fails sb
  · intro ino fPos size small
    exact ext4ReadReports_iff disk fails wellFormed ino fPos small
  · intro scratch ino name
    constructor
    · intro noFailure failed
      exact absurd failed noFailure
    · intro other inode differs found
      exact ext2LookupReports_iff disk fails sb scratch ino name differs found
  · intro scratch ino name
    constructor
    · intro noFailure failed
      exact absurd failed noFailure
    · intro other inode differs found
      exact ext4LookupReports_iff disk fails sb4 scratch ino name differs found

/-- The first sector of the sample file fails. -/
def firstFails (position : Nat) : Bool :=
  position = 10 * 1024

/-- A volume with the sample file, for the other file system. -/
def sampleVolume4 : Ext4SuperBlock where
  toSuperBlock := sampleVolume
  sFeatureIncompat := 0

/-- `ext4_read` counts four bytes of the sample file, which it could not
read.  Asked for 2 GiB it returns a negative number. -/
theorem requests_report_iff_sample :
    ¬Ext4ReadReports sampleDisk firstFails sampleVolume4 1 0 4 ∧
      Ext4ReadReports sampleDisk firstFails sampleVolume4 1 0 (2 ^ 31) := by
  have requests := requests_report_iff sampleVolume sampleVolume4
    sampleVolume_wellFormed sampleDisk firstFails
  constructor
  · have size : word (e4InAt sampleVolume4 sampleDisk 1) 4 = 2000 := by
      decide +kernel
    have path : (ext4Path sampleVolume4 sampleDisk
        (e4InAt sampleVolume4 sampleDisk 1) 0).2 = some 10 := by
      decide +kernel
    have failed : Fails firstFails
        (Ext4ReadNeeds sampleVolume4 sampleDisk 1 0 4) := by
      refine ⟨10 * 1024, ⟨0, ?_, .inr ⟨10, path, by decide⟩⟩, by decide⟩
      rw [size]
      decide
    intro reports
    rcases (requests.2.1 1 0 4 (by decide)).mp reports with noFailure | long
    · exact noFailure failed
    · exact absurd long (by decide)
  · apply (requests.2.1 1 0 (2 ^ 31) (by decide)).mpr
    right
    exact Nat.le_refl _

/-- So does `ext2_read`. -/
theorem ext2Read_not_reports :
    ¬Ext2ReadReports sampleDisk firstFails sampleVolume 1 0 4 := by
  have path : (ext2Path sampleVolume sampleDisk
      (inodeAt sampleVolume sampleDisk 1) 0).2 = some 10 := by
    decide +kernel
  have failed : Fails firstFails
      (Ext2ReadNeeds sampleVolume sampleDisk 1 0 4) := by
    refine ⟨10 * 1024, .inr ⟨0, ?_, .inr ⟨10, path, by decide⟩⟩, by decide⟩
    rw [readCount, iSize_sample]
    decide
  intro reports
  have negative := reports failed (fun _ => 7) (fun _ => 0)
  have counted : (ext2Read (sampleVolume.over
      (failingDrive sampleDisk firstFails (fun _ => 7))) (fun _ => 0) 1 0
      4).ret = 4 := by
    decide +kernel
  rw [counted] at negative
  exact absurd negative (by decide)

end Witos.Fs
