import Witos.Fs.Lookup

/-!
# Listing a directory

`ext2_readdir` of `fs/ext2/ext2.c` with `filldir` of `fs/core/readdir.c`.  Each
call reads the block of `f_pos` again and reports the record there, whether it
is in use or not, with the number of the directory.
-/

namespace Witos.Fs

open Library

/-- `struct linux_dirent`; `dName` is the name before the terminating zero. -/
structure LinuxDirent where
  dIno : Nat
  dOff : Nat
  dReclen : Nat
  dType : Nat
  dName : List UInt8
  deriving DecidableEq

/-- `offsetof(struct linux_dirent, d_name)`. -/
def dNameOffset : Nat := 11

def filldir (name : List UInt8) (offset ino type : Nat) : LinuxDirent where
  dIno := ino
  dOff := offset
  dReclen := alignUp 32 4 (dNameOffset + name.length + 2) % 2 ^ 16
  dType := type % 2 ^ 8
  dName := name

def enodata : Int := 61

/-- The value returned, what `filldir` has filled in, if it was called, and
`fp->f_pos`. -/
structure ReaddirResult where
  ret : Int
  dirent : Option LinuxDirent
  fPos : Nat

/-- `ext2_inode_read_block`; `words` is what `blk_index` holds before it is
filled. -/
def ext2InodeReadBlock (sb : SuperBlock) (words : Nat → Nat) (inode : Inode)
    (blkNo : Nat) : List UInt8 :=
  let blkIndex := getBlockIndexs sb inode 0 (inode.iSize / sb.blockSize)
  ext2ReadBlock sb (blkIndex.getD blkNo (words blkNo)) 0 sb.blockSize

def deFileType (memory : Nat → UInt8) (place : Nat) : Nat :=
  (memory (place + 7)).toNat

/-- `ext2_readdir` of the directory with number `iNo`; the stack behind the
block is `scratch.stack`. -/
def ext2Readdir (sb : SuperBlock) (scratch : Vfs.Scratch) (inode : Inode)
    (iNo fPos : Nat) : ReaddirResult :=
  if fPos = inode.iSize then ⟨0, none, fPos⟩
  else
    let blkNum := fPos / sb.blockSize
    let blkOff := fPos % sb.blockSize
    let buff := overlay (ext2InodeReadBlock sb scratch.words inode blkNum)
      scratch.stack
    let recLen := deRecLen buff blkOff
    if inode.iSize < add32 recLen fPos then ⟨-enodata, none, fPos⟩
    else
      ⟨recLen, some (filldir (deName buff blkOff) fPos iNo
        (deFileType buff blkOff)), add32 fPos recLen⟩

/-- Repeated calls until 0 is returned, at most `fuel` of them; what the calls
have reported, unless one of them fails. -/
def readdirAll (call : Nat → ReaddirResult) :
    Nat → Nat → Option (List LinuxDirent)
  | 0, _ => none
  | fuel + 1, fPos =>
      let result := call fPos
      if result.ret = 0 then some []
      else
        match result.dirent with
        | none => none
        | some dirent =>
            (readdirAll call fuel result.fPos).map (dirent :: ·)

/-- The places of the records of a block from a place on, at most `fuel` of
them. -/
def placesFrom (block : Nat → UInt8) (blockSize : Nat) : Nat → Nat → List Nat
  | 0, _ => []
  | fuel + 1, place =>
      if place < blockSize then
        place :: placesFrom block blockSize fuel (place + deRecLen block place)
      else []

/-- A record of a directory. -/
structure DirRecord where
  name : List UInt8
  ino : Nat
  offset : Nat
  fileType : Nat
  deriving DecidableEq

def DirRecord.ofPlace (block : Nat → UInt8) (start place : Nat) :
    DirRecord where
  name := deName block place
  ino := deInode block place
  offset := start + place
  fileType := deFileType block place

/-- The records of a block that starts at an offset of the directory. -/
def blockRecords (block : Nat → UInt8) (blockSize start : Nat) :
    List DirRecord :=
  (placesFrom block blockSize blockSize 0).map (.ofPlace block start)

/-- The records of `left` blocks of a directory from block `i` on, in the order
on the disk. -/
def recordsFrom (blocks : Nat → Nat → UInt8) (blockSize i left : Nat) :
    List DirRecord :=
  (List.range' i left).flatMap fun i =>
    blockRecords (blocks i) blockSize (i * blockSize)

/-- The records of a directory of `count` blocks. -/
def dirRecords (blocks : Nat → Nat → UInt8) (blockSize count : Nat) :
    List DirRecord :=
  recordsFrom blocks blockSize 0 count

theorem recordsFrom_succ (blocks : Nat → Nat → UInt8)
    (blockSize i left : Nat) :
    recordsFrom blocks blockSize i (left + 1) =
      blockRecords (blocks i) blockSize (i * blockSize) ++
        recordsFrom blocks blockSize (i + 1) left := by
  rw [recordsFrom, List.range'_succ, List.flatMap_cons]
  rfl

/-- What the code reports of a record in the directory with number `iNo`. -/
def DirRecord.report (iNo : Nat) (record : DirRecord) : LinuxDirent :=
  filldir record.name record.offset iNo record.fileType

/-- The blocks of a directory of an ext2 volume. -/
def ext2DirBlocks (sb : SuperBlock) (disk : Nat → UInt8) (inode : Inode)
    (i : Nat) : Nat → UInt8 :=
  blockAt disk sb.blockSize (treePointer sb disk inode i)

/-- A directory of `count` blocks of whole records, on a drive that does not
fail. -/
structure Ext2Directory (sb : SuperBlock) (disk : Nat → UInt8) (inode : Inode)
    (count : Nat) : Prop where
  wellFormed : WellFormed sb
  serves : Serves sb.drive disk
  size : inode.iSize = count * sb.blockSize
  small : inode.iSize < 2 ^ 32
  tiled : ∀ i < count, Tiled (ext2DirBlocks sb disk inode i) sb.blockSize

theorem slice_overlay_block (block stack : Nat → UInt8)
    {size offset count : Nat} (inside : offset + count ≤ size) :
    slice (overlay (slice block 0 size) stack) offset count =
      slice block offset count := by
  have enough : min count (size - offset) = count := by omega
  rw [slice_overlay _ (by rwa [length_slice]), take_drop_slice, Nat.zero_add,
    enough]

theorem length_placesFrom (block : Nat → UInt8) (blockSize fuel place : Nat) :
    (placesFrom block blockSize fuel place).length ≤ fuel := by
  induction fuel generalizing place with
  | zero => exact Nat.le_refl 0
  | succ fuel induction =>
      rw [placesFrom]
      split
      · exact Nat.succ_le_succ (induction _)
      · exact Nat.zero_le _

theorem blocksOf_whole {sb : SuperBlock} (wellFormed : WellFormed sb)
    {size count : Nat} (whole : size = count * sb.blockSize)
    (small : size < 2 ^ 32) : blocksOf size sb.blockSize = count := by
  have positive := blockSize_pos sb
  have sum : add32 size (sb.blockSize - 1) =
      sb.blockSize - 1 + count * sb.blockSize := by
    have divides : sb.blockSize * 2 ^ (22 - sb.sLogBlockSize) = 2 ^ 32 := by
      have log := wellFormed.logBlockSize
      rw [SuperBlock.blockSize, ← pow_add]
      congr 1
      omega
    have last : (count + 1) * sb.blockSize ≤ 2 ^ 32 := by
      rw [whole, ← divides, Nat.mul_comm sb.blockSize] at small
      rw [← divides, Nat.mul_comm sb.blockSize]
      exact Nat.mul_le_mul_right _ (Nat.lt_of_mul_lt_mul_right small)
    rw [Nat.succ_mul] at last
    rw [add32_of_lt (by omega), whole]
    omega
  rw [blocksOf, sum, Nat.add_mul_div_right _ _ positive,
    Nat.div_eq_of_lt (Nat.sub_lt positive Nat.one_pos), Nat.zero_add]

section Directory

variable {sb : SuperBlock} {disk : Nat → UInt8} {inode : Inode} {count : Nat}
  (directory : Ext2Directory sb disk inode count)

include directory

theorem Ext2Directory.blocksOf_eq :
    blocksOf inode.iSize sb.blockSize = count :=
  blocksOf_whole directory.wellFormed directory.size directory.small

theorem Ext2Directory.readBlock (words : Nat → Nat) {i : Nat}
    (inside : i < count) :
    ext2InodeReadBlock sb words inode i =
      slice (ext2DirBlocks sb disk inode i) 0 sb.blockSize := by
  have quotient : inode.iSize / sb.blockSize = count := by
    rw [directory.size, Nat.mul_div_cancel _ (blockSize_pos sb)]
  have few : blocksOf inode.iSize sb.blockSize ≤ _ := blocksOf_le inode.iSize
  rw [directory.blocksOf_eq] at few
  rw [ext2InodeReadBlock]
  simp only [quotient]
  rw [getBlockIndexs_first directory.wellFormed directory.serves inode few,
    ext2ReadBlock_whole directory.wellFormed directory.serves]
  simp [slice, inside, ext2DirBlocks]

theorem Ext2Directory.readdir (scratch : Vfs.Scratch) (iNo : Nat)
    {i place : Nat} (inside : i < count)
    (record : RecordAt (ext2DirBlocks sb disk inode i) sb.blockSize place)
    (within : place < sb.blockSize) :
    ext2Readdir sb scratch inode iNo (i * sb.blockSize + place) =
      ⟨deRecLen (ext2DirBlocks sb disk inode i) place,
        some ((DirRecord.ofPlace (ext2DirBlocks sb disk inode i)
          (i * sb.blockSize) place).report iNo),
        i * sb.blockSize +
          (place + deRecLen (ext2DirBlocks sb disk inode i) place)⟩ := by
  obtain ⟨room, ends⟩ := directory.tiled i inside place record
  have below : i * sb.blockSize + sb.blockSize ≤ inode.iSize := by
    rw [directory.size, ← Nat.succ_mul]
    exact Nat.mul_le_mul_right _ inside
  have small := directory.small
  have number : (i * sb.blockSize + place) / sb.blockSize = i := by
    rw [Nat.add_comm, Nat.add_mul_div_right _ _ (blockSize_pos sb),
      Nat.div_eq_of_lt within, Nat.zero_add]
  have offset : (i * sb.blockSize + place) % sb.blockSize = place := by
    rw [Nat.add_comm, Nat.add_mul_mod_self_right, Nat.mod_eq_of_lt within]
  have recLen : deRecLen (overlay (slice (ext2DirBlocks sb disk inode i) 0
      sb.blockSize) scratch.stack) place =
      deRecLen (ext2DirBlocks sb disk inode i) place :=
    congrArg leValue (slice_overlay_block _ _ (by omega))
  have byte (index : Nat) (before : index < sb.blockSize) :
      overlay (slice (ext2DirBlocks sb disk inode i) 0 sb.blockSize)
        scratch.stack index = ext2DirBlocks sb disk inode i index := by
    simp [overlay, slice, before]
  have name : deName (overlay (slice (ext2DirBlocks sb disk inode i) 0
      sb.blockSize) scratch.stack) place =
      deName (ext2DirBlocks sb disk inode i) place := by
    unfold deName deNameLen at *
    rw [byte (place + 6) (by omega)]
    exact slice_overlay_block _ _ (by omega)
  have fileType : deFileType (overlay (slice (ext2DirBlocks sb disk inode i) 0
      sb.blockSize) scratch.stack) place =
      deFileType (ext2DirBlocks sb disk inode i) place := by
    rw [deFileType, deFileType, byte _ (by omega)]
  have sum : add32 (deRecLen (ext2DirBlocks sb disk inode i) place)
      (i * sb.blockSize + place) = i * sb.blockSize +
        (place + deRecLen (ext2DirBlocks sb disk inode i) place) := by
    rw [add32_of_lt (by omega)]
    omega
  have sum' : add32 (i * sb.blockSize + place)
      (deRecLen (ext2DirBlocks sb disk inode i) place) = i * sb.blockSize +
        (place + deRecLen (ext2DirBlocks sb disk inode i) place) := by
    rw [add32_of_lt (by omega), Nat.add_assoc]
  unfold ext2Readdir
  rw [if_neg (by omega)]
  simp only [number, offset, directory.readBlock scratch.words inside, recLen,
    name, fileType, sum, sum']
  rw [if_neg (by omega)]
  rfl

theorem Ext2Directory.readdirAll_block (scratch : Vfs.Scratch) (iNo : Nat)
    {i : Nat} (inside : i < count) (left : Nat) {fuel place : Nat}
    (record : place < sb.blockSize →
      RecordAt (ext2DirBlocks sb disk inode i) sb.blockSize place)
    (bounded : place ≤ sb.blockSize) (enough : sb.blockSize - place ≤ fuel) :
    readdirAll (ext2Readdir sb scratch inode iNo)
        ((placesFrom (ext2DirBlocks sb disk inode i) sb.blockSize fuel
          place).length + left) (i * sb.blockSize + place) =
      (readdirAll (ext2Readdir sb scratch inode iNo) left
        ((i + 1) * sb.blockSize)).map
          (((placesFrom (ext2DirBlocks sb disk inode i) sb.blockSize fuel
            place).map fun place => (DirRecord.ofPlace
              (ext2DirBlocks sb disk inode i) (i * sb.blockSize)
                place).report iNo) ++ ·) := by
  induction fuel generalizing place with
  | zero =>
      obtain rfl : place = sb.blockSize := by omega
      simp [placesFrom, Nat.succ_mul]
  | succ fuel induction =>
      rw [placesFrom]
      by_cases within : place < sb.blockSize
      · obtain ⟨room, ends⟩ := directory.tiled i inside place (record within)
        have step := induction (RecordAt.next (record within)) ends (by omega)
        have call := directory.readdir scratch iNo inside (record within)
          within
        rw [if_pos within, List.length_cons, Nat.add_right_comm, readdirAll,
          call]
        simp only [step, List.map_cons, Option.map_map]
        rw [if_neg (by omega)]
        rfl
      · obtain rfl : place = sb.blockSize := by omega
        rw [if_neg within]
        simp [Nat.succ_mul]

theorem Ext2Directory.readdirAll_blocks (scratch : Vfs.Scratch)
    (iNo extra : Nat) {left i : Nat} (position : i + left = count) :
    readdirAll (ext2Readdir sb scratch inode iNo)
        ((recordsFrom (ext2DirBlocks sb disk inode) sb.blockSize i
          left).length + (extra + 1)) (i * sb.blockSize) =
      some ((recordsFrom (ext2DirBlocks sb disk inode) sb.blockSize i
        left).map (DirRecord.report iNo)) := by
  induction left generalizing i with
  | zero =>
      have ended : i * sb.blockSize = inode.iSize := by
        rw [directory.size, ← position, Nat.add_zero]
      have call : ext2Readdir sb scratch inode iNo (i * sb.blockSize) =
          ⟨0, none, i * sb.blockSize⟩ := if_pos ended
      rw [recordsFrom, List.range'_zero, List.flatMap_nil, List.length_nil,
        Nat.zero_add, readdirAll, call]
      rfl
  | succ left induction =>
      have block := directory.readdirAll_block scratch iNo (i := i)
        (by omega) ((recordsFrom (ext2DirBlocks sb disk inode) sb.blockSize
          (i + 1) left).length + (extra + 1))
        (fun _ => RecordAt.first) (Nat.zero_le _)
        (Nat.le_of_eq (Nat.sub_zero _))
      rw [induction (by omega), Nat.add_zero (i * sb.blockSize)] at block
      rw [recordsFrom_succ, List.length_append, blockRecords,
        List.length_map, Nat.add_assoc, block]
      simp [Function.comp_def]

omit directory in
theorem length_recordsFrom (blocks : Nat → Nat → UInt8)
    (blockSize i left : Nat) :
    (recordsFrom blocks blockSize i left).length ≤ left * blockSize := by
  induction left generalizing i with
  | zero => exact Nat.zero_le _
  | succ left induction =>
      have first := length_placesFrom (blocks i) blockSize blockSize 0
      have rest := induction (i + 1)
      rw [recordsFrom_succ, List.length_append, blockRecords,
        List.length_map, Nat.succ_mul]
      omega

/-- The calls report all records of the directory, with its own number. -/
theorem Ext2Directory.readdirAll_eq (scratch : Vfs.Scratch) (iNo : Nat) :
    readdirAll (ext2Readdir sb scratch inode iNo) (inode.iSize + 1) 0 =
      some ((dirRecords (ext2DirBlocks sb disk inode) sb.blockSize count).map
        (DirRecord.report iNo)) := by
  have bound := length_recordsFrom (ext2DirBlocks sb disk inode) sb.blockSize
    0 count
  rw [← directory.size] at bound
  obtain ⟨extra, enough⟩ := Nat.exists_eq_add_of_le bound
  have all := directory.readdirAll_blocks scratch iNo extra
    (Nat.zero_add count)
  rw [Nat.zero_mul, ← Nat.add_assoc] at all
  rw [enough]
  exact all

end Directory

/-- The calls come to their end and report the names and numbers of the
records that are in use, in order. -/
def ListsLive (records : List DirRecord)
    (listed : Option (List LinuxDirent)) : Prop :=
  listed.map (List.map fun dirent => (dirent.dName, dirent.dIno)) =
    some ((records.filter (·.ino ≠ 0)).map fun record =>
      (record.name, record.ino))

theorem listsLive_report_iff (records : List DirRecord) (iNo : Nat) :
    ListsLive records (some (records.map (DirRecord.report iNo))) ↔
      ∀ record ∈ records, record.ino ≠ 0 ∧ record.ino = iNo := by
  have reported : (records.map (DirRecord.report iNo)).map
        (fun dirent => (dirent.dName, dirent.dIno)) =
      records.map fun record => (record.name, iNo) := by
    rw [List.map_map]
    rfl
  unfold ListsLive
  rw [Option.map_some, reported, Option.some.injEq]
  constructor
  · intro same record member
    have lengths := congrArg List.length same
    rw [List.length_map, List.length_map] at lengths
    have live := List.length_filter_eq_length_iff.mp lengths.symm
    rw [List.filter_eq_self.mpr live] at same
    have numbers := (List.map_inj_left.mp same) record member
    exact ⟨of_decide_eq_true (live record member),
      (congrArg Prod.snd numbers).symm⟩
  · intro own
    rw [List.filter_eq_self.mpr fun record member =>
      decide_eq_true (own record member).1]
    apply List.map_congr_left
    intro record member
    rw [(own record member).2]

/-- The directories that are listed as they are: whatever is on the stack,
every record is in use and has the number of the directory. -/
theorem ext2Readdir_listsLive_iff {sb : SuperBlock} {disk : Nat → UInt8}
    {inode : Inode} {count : Nat}
    (directory : Ext2Directory sb disk inode count) (scratch : Vfs.Scratch)
    (iNo : Nat) :
    ListsLive (dirRecords (ext2DirBlocks sb disk inode) sb.blockSize count)
        (readdirAll (ext2Readdir sb scratch inode iNo) (inode.iSize + 1) 0) ↔
      ∀ record ∈
        dirRecords (ext2DirBlocks sb disk inode) sb.blockSize count,
        record.ino ≠ 0 ∧ record.ino = iNo := by
  rw [directory.readdirAll_eq]
  exact listsLive_report_iff _ iNo

/-- The entries "." and ".." of a directory below the root. -/
def twoEntries (own : UInt8) : List UInt8 :=
  [own, 0, 0, 0, 12, 0, 1, 2, 46, 0, 0, 0,
    2, 0, 0, 0, 0xf4, 3, 2, 2, 46, 46]

def entriesDisk (own : UInt8) : Nat → UInt8 :=
  overlayAt 1024 (twoEntries own) (fun _ => 0)

def entriesVolume (own : UInt8) : SuperBlock where
  drive := ⟨fun position => some (slice (entriesDisk own) position sectSize),
    fun _ => 0⟩
  sLogBlockSize := 0
  sInodeSize := 128
  sInodesPerGroup := 8
  bgInodeTable := fun _ => 5

def entriesInode : Inode where
  iSize := 1024
  iBlock := fun index => if index = 0 then 1 else 0

theorem blockSize_entries (own : UInt8) :
    (entriesVolume own).blockSize = 1024 := by
  simp [SuperBlock.blockSize, entriesVolume]

theorem treePointer_direct {sb : SuperBlock} {disk : Nat → UInt8}
    (inode : Inode) {block : Nat} (direct : block < ext2IndBlock) :
    treePointer sb disk inode block = inode.iBlock block := by
  have low : block < lowBlocks sb := by
    unfold lowBlocks
    omega
  rw [treePointer, if_pos low, blockPointer, if_pos direct]

/-- The only block of the directory. -/
def entriesBlock (own : UInt8) : Nat → UInt8 :=
  overlay (twoEntries own) (fun _ => 0)

theorem ext2DirBlocks_entries (own : UInt8) {offset : Nat}
    (inside : offset < 1024) :
    ext2DirBlocks (entriesVolume own) (entriesDisk own) entriesInode 0 offset =
      entriesBlock own offset := by
  have pointer : treePointer (entriesVolume own) (entriesDisk own) entriesInode
      0 = 1 := by
    rw [treePointer_direct _ (by decide)]
    rfl
  have place : (1 * 1024 + offset) % 2 ^ 32 = 1024 + offset := by omega
  have index : 1024 + offset - 1024 = offset := by omega
  unfold ext2DirBlocks
  rw [pointer, blockSize_entries]
  unfold blockAt wrapped entriesDisk overlayAt
  rw [place, if_neg (by omega), index]
  rfl

theorem slice_entries (own : UInt8) {offset count : Nat}
    (inside : offset + count ≤ 1024) :
    slice (ext2DirBlocks (entriesVolume own) (entriesDisk own) entriesInode 0)
        offset count = slice (entriesBlock own) offset count := by
  apply slice_congr
  intro index below
  exact ext2DirBlocks_entries own (by omega)

theorem deRecLen_entries (own : UInt8) {place : Nat}
    (inside : place + 6 ≤ 1024) :
    deRecLen (ext2DirBlocks (entriesVolume own) (entriesDisk own)
        entriesInode 0) place = deRecLen (entriesBlock own) place :=
  congrArg leValue (slice_entries own inside)

theorem recordAt_entries {own : UInt8} {place : Nat}
    (record : RecordAt (ext2DirBlocks (entriesVolume own) (entriesDisk own)
      entriesInode 0) 1024 place) : place = 0 ∨ place = 12 := by
  have first : deRecLen (entriesBlock own) 0 = 12 := rfl
  have second : deRecLen (entriesBlock own) 12 = 1012 := rfl
  induction record with
  | first => exact .inl rfl
  | next _ below induction =>
      rcases induction with rfl | rfl
      · rw [deRecLen_entries own (by decide), first]
        exact .inr rfl
      · rw [deRecLen_entries own (by decide), second] at below
        omega

theorem entries_directory (own : UInt8) :
    Ext2Directory (entriesVolume own) (entriesDisk own) entriesInode 1 := by
  have name (place : Nat) (inside : place < 1018) :
      deNameLen (ext2DirBlocks (entriesVolume own) (entriesDisk own)
        entriesInode 0) place = deNameLen (entriesBlock own) place := by
    rw [deNameLen, deNameLen, ext2DirBlocks_entries own (by omega)]
  have size := blockSize_entries own
  have wellFormed : WellFormed (entriesVolume own) := by
    refine ⟨Nat.zero_le 6, Nat.le_refl 128, ⟨8, ?_⟩, Nat.zero_lt_succ 7⟩
    rw [size]
    rfl
  refine ⟨wellFormed, fun _ => rfl, ?_, by decide, ?_⟩
  · rw [size]
    rfl
  · intro i inside place record
    obtain rfl : i = 0 := by omega
    rw [size] at record ⊢
    rcases recordAt_entries record with rfl | rfl
    · rw [name _ (by decide), deRecLen_entries own (by decide)]
      have recLen : deRecLen (entriesBlock own) 0 = 12 := rfl
      have nameLen : deNameLen (entriesBlock own) 0 = 1 := rfl
      omega
    · rw [name _ (by decide), deRecLen_entries own (by decide)]
      have recLen : deRecLen (entriesBlock own) 12 = 1012 := rfl
      have nameLen : deNameLen (entriesBlock own) 12 = 2 := rfl
      omega

theorem ofPlace_entries (own : UInt8) (start : Nat) {place : Nat}
    (inside : place + 263 ≤ 1024) :
    DirRecord.ofPlace (ext2DirBlocks (entriesVolume own) (entriesDisk own)
        entriesInode 0) start place =
      DirRecord.ofPlace (entriesBlock own) start place := by
  have short := (entriesBlock own (place + 6)).toNat_lt
  unfold DirRecord.ofPlace deName deInode deNameLen deFileType
  rw [ext2DirBlocks_entries own (by omega),
    ext2DirBlocks_entries own (by omega), slice_entries own (by omega),
    slice_entries own (by omega)]

theorem dirRecords_entries (own : UInt8) :
    dirRecords (ext2DirBlocks (entriesVolume own) (entriesDisk own)
        entriesInode) (entriesVolume own).blockSize 1 =
      [⟨[46], own.toNat, 0, 2⟩, ⟨[46, 46], 2, 12, 2⟩] := by
  have first : deRecLen (entriesBlock own) 0 = 12 := rfl
  have second : deRecLen (entriesBlock own) 12 = 1012 := rfl
  have places : placesFrom (ext2DirBlocks (entriesVolume own)
      (entriesDisk own) entriesInode 0) 1024 1024 0 = [0, 12] := by
    rw [placesFrom, if_pos (by decide), deRecLen_entries own (by decide),
      first, placesFrom, if_pos (by decide),
      deRecLen_entries own (by decide), second, placesFrom,
      if_neg (by decide)]
  have name : DirRecord.ofPlace (entriesBlock own) 0 0 =
      ⟨[46], own.toNat, 0, 2⟩ := by
    change DirRecord.mk _ (own.toNat + 256 * 0) 0 2 = _
    rfl
  rw [blockSize_entries, dirRecords, recordsFrom_succ, blockRecords, places,
    Nat.zero_mul, List.map_cons, List.map_cons,
    ofPlace_entries own 0 (by decide), ofPlace_entries own 0 (by decide),
    name]
  rfl

theorem ext2Readdir_listsLive_iff_root :
    ListsLive (dirRecords (ext2DirBlocks (entriesVolume 2) (entriesDisk 2)
        entriesInode) (entriesVolume 2).blockSize 1)
      (readdirAll (ext2Readdir (entriesVolume 2)
        ⟨fun _ => 0, fun _ => 0, fun _ => 0, true⟩ entriesInode 2) 1025 0) := by
  refine (ext2Readdir_listsLive_iff (entries_directory 2) _ 2).mpr ?_
  rw [dirRecords_entries]
  decide

/-- The entry ".." of a directory below the root is reported with the number of
the directory itself. -/
theorem ext2Readdir_not_listsLive :
    ¬∀ (sb : SuperBlock) (disk : Nat → UInt8) (inode : Inode) (count : Nat)
      (scratch : Vfs.Scratch) (iNo : Nat), Ext2Directory sb disk inode count →
      ListsLive (dirRecords (ext2DirBlocks sb disk inode) sb.blockSize count)
        (readdirAll (ext2Readdir sb scratch inode iNo) (inode.iSize + 1)
          0) := by
  intro always
  have listed := always (entriesVolume 5) (entriesDisk 5) entriesInode 1
    ⟨fun _ => 0, fun _ => 0, fun _ => 0, true⟩ 5 (entries_directory 5)
  rw [(entries_directory 5).readdirAll_eq, listsLive_report_iff,
    dirRecords_entries] at listed
  exact absurd listed (by decide)

end Witos.Fs
