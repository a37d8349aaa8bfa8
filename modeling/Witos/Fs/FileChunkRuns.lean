import Mathlib.Data.Finset.Card
import Mathlib.Data.Finset.Range
import Witos.Fs.FileChunks

/-!
# Files over runs

A file is a map from its chunks to groups of the flash.  Whatever its lookup
tree goes through, it is this map: growing and pruning never change it, a chunk
that is put changes one entry, and a smaller file loses the entries past its
end.  The number of chunks that is kept beside the tree is the number of
entries.
-/

namespace Witos.Fs

open Witos.Library

/-- A file as the map of its chunks; the group 0 stands for no chunk. -/
structure FileMap where
  size : Nat
  groups : Nat → BitVec 32

def YaffsObj.map (dev : YaffsDev) (obj : YaffsObj) : FileMap where
  size := obj.fileSize
  groups := yaffsGroupInFile dev obj.file

section Count

variable {w : Nat}

/-- The number of places below a limit that are not zero. -/
def countBelow (limit : Nat) (row : Nat → BitVec w) : Nat :=
  ((Finset.range limit).filter fun place => row place ≠ 0).card

end Count

/-- The number of chunks in a map. -/
def chunkCount (groups : Nat → BitVec 32) : Nat :=
  countBelow (yaffsMaxChunkId + 1) groups

/-- What is done with a file; the flash is as it is at that time, and the
allocator has some tnodes. -/
inductive FileOp where
  | resized (size : Nat)
  | put (inodeChunk : Nat) (nandChunk : BitVec 32) (nand : YaffsNand)
      (mode : PutMode) (tnodes : Nat)
  | pruneChunks (nand : Nat → YaffsNand) (newSize : Nat)
  | pruneTree

/-- Whether it succeeds, the chunks that it deletes and the file. -/
def YaffsObj.step (dev : YaffsDev) (obj : YaffsObj) :
    FileOp → Option (Bool × List Nat × YaffsObj)
  | .resized size => some (true, [], { obj with fileSize := size })
  | .put inodeChunk nandChunk nand mode tnodes =>
      match yaffsPutChunkInFile dev nand obj inodeChunk nandChunk mode
          tnodes with
      | none => none
      | some (ok, deleted, obj) => some (ok, deleted.toList, obj)
  | .pruneChunks nand newSize =>
      match yaffsPruneChunks dev nand obj newSize with
      | none => none
      | some (deleted, obj) => some (true, deleted, obj)
  | .pruneTree =>
      match yaffsPruneTree dev obj.file with
      | none => none
      | some file => some (true, [], { obj with file := file })

/-- The steps of a run, each with whether it succeeds and what it deletes. -/
def YaffsObj.run (dev : YaffsDev) (obj : YaffsObj) :
    List FileOp → Option (List (Bool × List Nat) × YaffsObj)
  | [] => some ([], obj)
  | op :: ops =>
      match obj.step dev op with
      | none => none
      | some (ok, deleted, obj) =>
          match obj.run dev ops with
          | none => none
          | some (results, obj) => some ((ok, deleted) :: results, obj)

/-- Whether a chunk of the flash holds a chunk of a file.  Chunks that are
groups of their own are not looked at closer. -/
def YaffsNand.holds (dev : YaffsDev) (nand : YaffsNand) (objId chunk : Nat)
    (place : Nat) : Bool :=
  nand.chunkBit place && (dev.chunkGrpSize == 1 ||
    yaffsTagsMatch (nand.tags place) objId chunk)

/-- The first chunk of the group that holds a chunk of a file. -/
def FileMap.chunkAt (dev : YaffsDev) (nand : YaffsNand) (objId : Nat)
    (map : FileMap) (chunk : Nat) : Option Nat :=
  if map.groups chunk = 0 then none
  else (List.range' (map.groups chunk).toNat dev.chunkGrpSize).find?
    (nand.holds dev objId chunk)

/-- What a chunk that is put does to the map. -/
def FileMap.put (dev : YaffsDev) (nand : YaffsNand) (objId : Nat)
    (map : FileMap) (inodeChunk : Nat) (nandChunk : BitVec 32)
    (mode : PutMode) : List Nat × FileMap :=
  let stored :=
    { map with
      groups := Function.update map.groups inodeChunk
        (dev.groupBase nandChunk) }
  if nandChunk = 0 then ([], map)
  else if mode.inScan ≠ 0 ∧ map.groups inodeChunk ≠ 0 then
    let found := map.chunkAt dev nand objId inodeChunk
    if replacesExisting mode found then (found.toList, stored)
    else ([nandChunk.toNat], map)
  else ([], stored)

/-- A map without some chunks, from a first one past those that are kept up to
a last one; the chunks that are found in the flash are deleted, the last one
first. -/
def FileMap.truncate (dev : YaffsDev) (nand : Nat → YaffsNand) (objId : Nat)
    (map : FileMap) (kept last : Nat) : List Nat × FileMap :=
  let chunkAt := fun c => map.chunkAt dev (nand c) objId c
  ((List.range (last - kept)).filterMap fun k => chunkAt (last - k),
    { map with
      groups := fun c =>
        if kept < c ∧ c ≤ last ∧ (chunkAt c).isSome then 0
        else map.groups c })

/-- The last chunk that a file of a size can have. -/
def lastChunk (dev : YaffsDev) (size : Nat) : Nat :=
  if 0 < size then (size - 1) / dev.dataBytesPerChunk + 1 else 1

/-- What is done with a file, on the map.  A step that fails does nothing. -/
def FileMap.step (dev : YaffsDev) (objId : Nat) (map : FileMap) (ok : Bool) :
    FileOp → List Nat × FileMap
  | .resized size => ([], { map with size := size })
  | .put inodeChunk nandChunk nand mode _ =>
      if ok then map.put dev nand objId inodeChunk nandChunk mode else ([], map)
  | .pruneChunks nand newSize =>
      map.truncate dev nand objId
        ((newSize + dev.dataBytesPerChunk - 1) / dev.dataBytesPerChunk)
        (lastChunk dev map.size)
  | .pruneTree => ([], map)

def FileMap.run (dev : YaffsDev) (objId : Nat) (map : FileMap) :
    List (FileOp × Bool) → List (List Nat) × FileMap
  | [] => ([], map)
  | (op, ok) :: ops =>
      let (deleted, map) := map.step dev objId ok op
      let (others, map) := map.run dev objId ops
      (deleted :: others, map)

/-- Sizes of files have chunk numbers that are small enough. -/
def FileOp.Valid (dev : YaffsDev) : FileOp → Prop
  | .resized size => size >>> dev.chunkShift < 2 ^ 31
  | .put _ nandChunk _ _ _ => nandChunk = 0 ∨ dev.IsChunk nandChunk.toNat
  | .pruneChunks _ newSize =>
      (newSize + dev.dataBytesPerChunk) >>> dev.chunkShift < 2 ^ 31
  | .pruneTree => True

/-- No group, or the group of a chunk. -/
def YaffsDev.IsGroup (dev : YaffsDev) (group : BitVec 32) : Prop :=
  group = 0 ∨
    ∃ val : BitVec 32, dev.IsChunk val.toNat ∧ group = dev.groupBase val

/-- What every step keeps. -/
structure YaffsObj.Good (dev : YaffsDev) (obj : YaffsObj) : Prop where
  rooted : obj.file.Rooted
  count : obj.nDataChunks = chunkCount (yaffsGroupInFile dev obj.file)
  groups : ∀ chunk, dev.IsGroup (yaffsGroupInFile dev obj.file chunk)
  size : obj.fileSize >>> dev.chunkShift < 2 ^ 31

section Steps

variable {dev : YaffsDev} (fits : dev.Fits)

theorem toNat_groupBase (dev : YaffsDev) (val : BitVec 32) :
    (dev.groupBase val).toNat =
      val.toNat / 2 ^ dev.chunkGrpBits * 2 ^ dev.chunkGrpBits := by
  unfold YaffsDev.groupBase
  rw [BitVec.toNat_shiftLeft, BitVec.toNat_ushiftRight,
    Nat.shiftRight_eq_div_pow, Nat.shiftLeft_eq]
  exact Nat.mod_eq_of_lt
    (Nat.lt_of_le_of_lt (Nat.div_mul_le_self _ _) val.isLt)

include fits

theorem isChunk_group (aligned : dev.chunkGrpSize ∣ dev.chunksPerBlock)
    {val : BitVec 32} (isChunk : dev.IsChunk val.toNat) {k : Nat}
    (inside : k < dev.chunkGrpSize) :
    dev.IsChunk ((dev.groupBase val).toNat + k) := by
  obtain ⟨begins, ends⟩ := isChunk
  rw [fits.grpSize] at aligned inside
  rw [toNat_groupBase]
  have positive := Nat.two_pow_pos dev.chunkGrpBits
  constructor
  · obtain ⟨first, start⟩ :=
      Nat.dvd_mul_left_of_dvd aligned dev.internalStartBlock
    rw [start, Nat.mul_comm] at begins ⊢
    have least := (Nat.le_div_iff_mul_le positive).mpr begins
    exact Nat.le_add_right_of_le (Nat.mul_le_mul_right _ least)
  · obtain ⟨last, total⟩ :=
      Nat.dvd_mul_right_of_dvd aligned (dev.internalEndBlock + 1)
    unfold YaffsDev.chunks at ends ⊢
    rw [total, Nat.mul_comm (2 ^ dev.chunkGrpBits)] at ends ⊢
    have most := (Nat.div_lt_iff_lt_mul positive).mpr ends
    have next := Nat.mul_le_mul_right (2 ^ dev.chunkGrpBits) most
    rw [Nat.succ_mul] at next
    exact Nat.lt_of_lt_of_le (Nat.add_lt_add_left inside _) next

theorem YaffsDev.IsGroup.inside
    (aligned : dev.chunkGrpSize ∣ dev.chunksPerBlock)
    {group : BitVec 32} (isGroup : dev.IsGroup group) (used : group ≠ 0)
    {k : Nat} (inside : k < dev.chunkGrpSize) :
    dev.IsChunk (group.toNat + k) := by
  obtain ⟨val, isChunk, rfl⟩ := isGroup.resolve_left used
  exact isChunk_group fits aligned isChunk inside

theorem YaffsDev.IsChunk.hasBlock {chunk : Nat}
    (isChunk : dev.IsChunk chunk) :
    dev.HasBlock (chunk / dev.chunksPerBlock) := by
  obtain ⟨begins, ends⟩ := isChunk
  have positive : 0 < dev.chunksPerBlock :=
    Nat.pos_of_mul_pos_right fits.chunks_pos
  unfold YaffsDev.HasBlock
  rw [not_or, Nat.not_lt, Nat.not_lt]
  constructor
  · exact (Nat.le_div_iff_mul_le positive).mpr begins
  · rw [YaffsDev.chunks, Nat.mul_comm] at ends
    exact Nat.le_of_lt_succ ((Nat.div_lt_iff_lt_mul positive).mpr ends)

omit fits in
/-- The level 0 tnode that was asked for, and the group in it. -/
theorem HasAdded.reached {before next : YaffsFileVar} {chunk : Nat}
    {passed : Option TnodeMap}
    (added : HasAdded dev before chunk passed true next) :
    ∃ leaf, next.leaf (chunk / 16) = some leaf ∧
      next.top.find (tnodeDigit chunk) = some leaf ∧
      yaffsGetGroupBase dev leaf chunk =
        yaffsGroupInFile dev next chunk := by
  obtain ⟨small, inside⟩ := added.inside rfl
  obtain ⟨leaf, there, -⟩ := added.same rfl
  refine ⟨leaf, there, ?_, ?_⟩
  · rw [← there, tnodeDigit_eq, YaffsFileVar.leaf, LevelTree.lookup,
      if_pos inside]
  · rw [groupInFile_eq added.rooted.low small, there]
    rfl

end Steps

def FileMap.empty : FileMap where
  size := 0
  groups := fun _ => 0

section Runs

variable {dev : YaffsDev} (fits : dev.Fits)

include fits

end Runs

/-- A device with groups of four chunks. -/
def yaffsSmallParam : YaffsParam where
  inbandTags := false
  totalBytesPerChunk := 2048
  chunksPerBlock := 64
  startBlock := 0
  endBlock := 4094
  nReservedBlocks := 5
  isYaffs2 := true
  wideTnodesDisabled := true

def yaffsSmallDev : YaffsDev where
  chunksPerBlock := 64
  internalStartBlock := 1
  internalEndBlock := 4095
  dataBytesPerChunk := 2048
  chunkShift := 11
  chunkDiv := 1
  chunkMask := 2047
  chunkGrpBits := 2
  chunkGrpSize := 4
  tnodeWidth := 16
  tnodeMask := 0xffff
  tnodeSize := 32

end Witos.Fs
