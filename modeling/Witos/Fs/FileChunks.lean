import Witos.Fs.TnodeTree

/-!
# Chunks of files

The chunks of a file are put into its lookup tree as they are written or
scanned, and they are taken out when the file gets smaller.  What this does is
a change of one entry of a map from chunks of the file to groups of the flash.
-/

namespace Witos.Fs

open Witos.Library

structure YaffsExtTags where
  objId : Nat
  chunkId : Nat
  isDeleted : Bool
  deriving DecidableEq, Repr

/-- What the flash tells of its chunks. -/
structure YaffsNand where
  chunkBit : Nat → Bool
  tags : Nat → YaffsExtTags

/-- A file, with the size and the number of chunks that are kept beside its
tree. -/
structure YaffsObj where
  objId : Nat
  fileSize : Nat
  nDataChunks : Int
  file : YaffsFileVar

def yaffsTagsMatch (tags : YaffsExtTags) (objId chunkObj : Nat) : Bool :=
  tags.chunkId == chunkObj && tags.objId == objId && !tags.isDeleted

def YaffsDev.HasBlock (dev : YaffsDev) (blk : Nat) : Prop :=
  ¬(blk < dev.internalStartBlock ∨ dev.internalEndBlock < blk)

instance (dev : YaffsDev) (blk : Nat) : Decidable (dev.HasBlock blk) :=
  inferInstanceAs (Decidable (¬_))

/-- The bit of a chunk; `none` is the `BUG()` for a block that is none of the
device. -/
def yaffsCheckChunkBit (dev : YaffsDev) (nand : YaffsNand) (chunk : Nat) :
    Option Bool :=
  if dev.HasBlock (chunk / dev.chunksPerBlock) then some (nand.chunkBit chunk)
  else none

/-- The loop of `yaffs_find_chunk_in_group`. -/
def findChunkLoop (dev : YaffsDev) (nand : YaffsNand) (objId inodeChunk : Nat) :
    Nat → Nat → Option (Option Nat)
  | 0, _ => some none
  | rounds + 1, theChunk =>
      if theChunk = 0 then some none
      else
        match yaffsCheckChunkBit dev nand theChunk with
        | none => none
        | some bit =>
            if bit ∧ (dev.chunkGrpSize = 1 ∨
                yaffsTagsMatch (nand.tags theChunk) objId inodeChunk) then
              some (some theChunk)
            else findChunkLoop dev nand objId inodeChunk rounds (theChunk + 1)

/-- The chunk of a group, if there is one; `none` if the call does not
return. -/
def yaffsFindChunkInGroup (dev : YaffsDev) (nand : YaffsNand) (theChunk : Nat)
    (objId inodeChunk : Nat) : Option (Option Nat) :=
  findChunkLoop dev nand objId inodeChunk dev.chunkGrpSize theChunk

def yaffsFindChunkInFile (dev : YaffsDev) (nand : YaffsNand) (obj : YaffsObj)
    (inodeChunk : Nat) : Option (Option Nat) :=
  match yaffsFindTnode0 obj.file inodeChunk with
  | none => some none
  | some tn =>
      yaffsFindChunkInGroup dev nand (yaffsGetGroupBase dev tn inodeChunk).toNat
        obj.objId inodeChunk

/-- `yaffs_load_tnode_0` at the level 0 tnode of a chunk. -/
def YaffsFileVar.load (dev : YaffsDev) (file : YaffsFileVar) (chunk : Nat)
    (val : BitVec 32) : YaffsFileVar :=
  { file with
    top := file.top.modify (fun tn => yaffsLoadTnode0 dev tn chunk val)
      (tnodeDigit chunk) }

def yaffsFindDelFileChunk (dev : YaffsDev) (nand : YaffsNand) (obj : YaffsObj)
    (inodeChunk : Nat) : Option (Option Nat × YaffsObj) :=
  match yaffsFindChunkInFile dev nand obj inodeChunk with
  | none => none
  | some none => some (none, obj)
  | some (some chunk) =>
      some (some chunk, { obj with file := obj.file.load dev inodeChunk 0 })

/-- Where a chunk comes from that is put into a file: 0 is no scan, a positive
number a forward scan and a negative number a backward scan.  A forward scan
reads the serial numbers of the new chunk and of the existing one. -/
structure PutMode where
  inScan : Int
  newSerial : Nat
  existingSerial : Nat
  deriving DecidableEq, Repr

/-- A chunk that was found in a scan replaces the existing one. -/
def replacesExisting (mode : PutMode) (existing : Option Nat) : Bool :=
  0 < mode.inScan &&
    (existing.isNone || (mode.existingSerial + 1) &&& 3 == mode.newSerial)

/-- Whether the call succeeds, the chunk that it deletes and the file; `none`
if a null pointer is used or the call does not return. -/
def yaffsPutChunkInFile (dev : YaffsDev) (nand : YaffsNand) (obj : YaffsObj)
    (inodeChunk : Nat) (nandChunk : BitVec 32) (mode : PutMode)
    (tnodes : Nat) : Option (Bool × Option Nat × YaffsObj) :=
  match yaffsAddFindTnode0 dev obj.file inodeChunk none tnodes with
  | none => none
  | some (false, file) => some (false, none, { obj with file := file })
  | some (true, file) =>
      let obj := { obj with file := file }
      -- a dummy insert only adds the tnodes
      if nandChunk = 0 then some (true, none, obj)
      else
        match file.top.find (tnodeDigit inodeChunk) with
        | none => none
        | some tn =>
            let existing := yaffsGetGroupBase dev tn inodeChunk
            let loaded := obj.file.load dev inodeChunk nandChunk
            if mode.inScan ≠ 0 ∧ 0 < existing.toInt then
              -- a backward scan does not look for the existing chunk
              match if 0 < mode.inScan then
                  yaffsFindChunkInFile dev nand obj inodeChunk
                else some none with
              | none => none
              | some found =>
                  if replacesExisting mode found then
                    some (true, found, { obj with file := loaded })
                  else some (true, some nandChunk.toNat, obj)
            else
              some (true, none,
                { obj with
                  nDataChunks :=
                    if existing = 0 then obj.nDataChunks + 1
                    else obj.nDataChunks
                  file := loaded })

/-- The loop of `yaffs_prune_chunks`: it goes down from a chunk, so many times,
and collects the chunks that it deletes.  The flash is as it is when each chunk
is looked for. -/
def pruneChunksLoop (dev : YaffsDev) (nand : Nat → YaffsNand) :
    Nat → Nat → YaffsObj → Option (List Nat × YaffsObj)
  | 0, _, obj => some ([], obj)
  | rounds + 1, i, obj =>
      match yaffsFindDelFileChunk dev (nand i) obj i with
      | none => none
      | some (none, obj) => pruneChunksLoop dev nand rounds (i - 1) obj
      | some (some chunk, obj) =>
          if chunk < 1 then pruneChunksLoop dev nand rounds (i - 1) obj
          else if chunk < dev.internalStartBlock * dev.chunksPerBlock ∨
              (dev.internalEndBlock + 1) * dev.chunksPerBlock ≤ chunk then
            pruneChunksLoop dev nand rounds (i - 1) obj
          else
            match pruneChunksLoop dev nand rounds (i - 1)
                { obj with nDataChunks := obj.nDataChunks - 1 } with
            | none => none
            | some (deleted, obj) => some (chunk :: deleted, obj)

def yaffsPruneChunks (dev : YaffsDev) (nand : Nat → YaffsNand) (obj : YaffsObj)
    (newSize : Nat) : Option (List Nat × YaffsObj) :=
  let lastDel :=
    if 0 < obj.fileSize then (yaffsAddrToChunk dev (obj.fileSize - 1)).1 else 0
  let startDel :=
    (yaffsAddrToChunk dev (newSize + dev.dataBytesPerChunk - 1)).1
  pruneChunksLoop dev nand (lastDel + 1 - startDel) (lastDel + 1) obj

section Groups

variable {dev : YaffsDev} (fits : dev.Fits)

theorem groupInFile_eq {file : YaffsFileVar} (low : file.topLevel ≤ 8)
    {chunk : Nat} (small : chunk ≤ yaffsMaxChunkId) :
    yaffsGroupInFile dev file chunk =
      ((file.leaf (chunk / 16)).map
        fun map => yaffsGetGroupBase dev map chunk).getD 0 := by
  unfold yaffsGroupInFile
  rw [findTnode0_eq low small]
  cases file.leaf (chunk / 16) with
  | none => rfl
  | some map => rfl

include fits

end Groups

end Witos.Fs
