import Witos.Fs.Drive

/-!
# Reading files of an ext2 volume

The block map and `ext2_read` of `fs/ext2/ext2.c`.  Memory for requests and
buffers is always there.
-/

namespace Witos.Fs

open Library

def ext2IndBlock : Nat := 12
def ext2DindBlock : Nat := ext2IndBlock + 1
def ext2TindBlock : Nat := ext2DindBlock + 1

/-- The fields of a mounted volume that reading uses; `bgInodeTable` is the
field of the group descriptors. -/
structure SuperBlock where
  drive : Drive
  sLogBlockSize : Nat
  sInodeSize : Nat
  sInodesPerGroup : Nat
  bgInodeTable : Nat → Nat

def SuperBlock.blockSize (sb : SuperBlock) : Nat :=
  2 ^ (sb.sLogBlockSize + 10)

def SuperBlock.indexPerBlock (sb : SuperBlock) : Nat :=
  sb.blockSize / 4

/-- The fields of `struct ext2_inode` that reading uses. -/
structure Inode where
  iSize : Nat
  iBlock : Nat → Nat

/-- An entry of an array of `__le32`. -/
def entry (bytes : List UInt8) (index : Nat) : Nat :=
  leValue ((bytes.drop (4 * index)).take 4)

/-- The size is the second word of an inode and the block pointers start at
the eleventh. -/
def Inode.ofBytes (bytes : List UInt8) : Inode where
  iSize := entry bytes 1
  iBlock := fun index => entry bytes (10 + index)

def ext2ReadBlock (sb : SuperBlock) (blkNo off size : Nat) : List UInt8 :=
  let startBlk := blkNo * 2 ^ (sb.sLogBlockSize + 1) % 2 ^ 32
  let bioSize := clearLow sectSize ((off + size + sectSize - 1) % 2 ^ 32)
  ((submitBio sb.drive startBlk (bioSize / sectSize)).drop off).take size

def getStartLayer (startBlock indexPerBlock : Nat) : Int :=
  if startBlock < ext2IndBlock then 0
  else if startBlock < add32 ext2IndBlock indexPerBlock then 1
  else if startBlock <
      add32 (add32 ext2IndBlock indexPerBlock)
        (indexPerBlock * indexPerBlock % 2 ^ 32) then 2
  else 3

/-- A block of pointers. -/
def readIndexs (sb : SuperBlock) (blkNo : Nat) : List Nat :=
  slice (entry (ext2ReadBlock sb blkNo 0 sb.blockSize)) 0 sb.indexPerBlock

def getIndBlock (sb : SuperBlock) (inode : Inode) (startBlock : Int)
    (len : Nat) : List Nat :=
  if len = 0 then []
  else
    ((readIndexs sb (inode.iBlock ext2IndBlock)).drop startBlock.toNat).take
      len

/-- The loop of `get_dind_block` over `left` more blocks of pointers, from
entry `j` of `buff` and entry `k` of the first of them. -/
def dindLoop (sb : SuperBlock) (buff : List Nat) (len : Nat) :
    Nat → Nat → Nat → List Nat → List Nat
  | 0, _, _, indexs => indexs
  | left + 1, j, k, indexs =>
      let dbuff := readIndexs sb (buff.getD j 0)
      let indexs := indexs ++ (dbuff.drop k).take (len - indexs.length)
      if len ≤ indexs.length then indexs
      else dindLoop sb buff len left (j + 1) 0 indexs

def getDindBlock (sb : SuperBlock) (inode : Inode) (startBlock : Int)
    (len : Nat) : List Nat :=
  if len = 0 then []
  else
    let buff := readIndexs sb (inode.iBlock ext2DindBlock)
    let j := startBlock.toNat / sb.indexPerBlock
    dindLoop sb buff len (sb.indexPerBlock - j) j
      (startBlock.toNat % sb.indexPerBlock) []

/-- The inner loop of `get_tind_block`, with the value of `h` behind it. -/
def tindInner (sb : SuperBlock) (dbuff : List Nat) (len : Nat) :
    Nat → Nat → Nat → List Nat → List Nat × Nat
  | 0, _, h, indexs => (indexs, h)
  | left + 1, k, h, indexs =>
      let tbuff := readIndexs sb (dbuff.getD k 0)
      let indexs := indexs ++ (tbuff.drop h).take (len - indexs.length)
      if len ≤ indexs.length then (indexs, h)
      else tindInner sb dbuff len left (k + 1) 0 indexs

/-- The outer loop of `get_tind_block`; the inner one starts at the same
entry each time. -/
def tindOuter (sb : SuperBlock) (buff : List Nat) (len kStart : Nat) :
    Nat → Nat → Nat → List Nat → List Nat
  | 0, _, _, indexs => indexs
  | left + 1, j, h, indexs =>
      let dbuff := readIndexs sb (buff.getD j 0)
      let inner :=
        tindInner sb dbuff len (sb.indexPerBlock - kStart) kStart h indexs
      if len ≤ inner.1.length then inner.1
      else tindOuter sb buff len kStart left (j + 1) inner.2 inner.1

def getTindBlock (sb : SuperBlock) (inode : Inode) (startBlock : Int)
    (len : Nat) : List Nat :=
  if len = 0 then []
  else
    let buff := readIndexs sb (inode.iBlock ext2TindBlock)
    let start := startBlock.toNat
    let j := start / (sb.indexPerBlock * sb.indexPerBlock % 2 ^ 32)
    tindOuter sb buff len (start / sb.indexPerBlock) (sb.indexPerBlock - j) j
      (start % sb.indexPerBlock) []

/-- The pointers found so far and `start_layer`, which is -1 once a layer was
used.  A further layer is used if pointers are missing and it is the first one
or follows one that was used. -/
def useLayer (layer : Int) (get : Nat → List Nat) (len : Nat)
    (state : List Nat × Int) : List Nat × Int :=
  if state.1.length < len ∧ (state.2 = layer ∨ state.2 = -1) then
    (state.1 ++ get (len - state.1.length), -1)
  else state

def useDirect (inode : Inode) (startBlock len : Nat) (layer : Int) :
    List Nat × Int :=
  if layer = 0 then
    (slice inode.iBlock startBlock (min len (ext2IndBlock - startBlock)), -1)
  else ([], layer)

/-- The pointers of `len` blocks of a file. -/
def getBlockIndexs (sb : SuperBlock) (inode : Inode)
    (startBlock len : Nat) : List Nat :=
  if len = 0 then []
  else
    let count := sb.indexPerBlock
    let direct :=
      useDirect inode startBlock len (getStartLayer startBlock count)
    let indStart := sub32 startBlock ext2IndBlock
    let ind :=
      useLayer 1 (getIndBlock sb inode (signed32 indStart)) len direct
    let dindStart := sub32 indStart count
    let dind :=
      useLayer 2 (getDindBlock sb inode (signed32 dindStart)) len ind
    let tindStart := sub32 dindStart (count * count % 2 ^ 32)
    (useLayer 3 (getTindBlock sb inode (signed32 tindStart)) len dind).1

/-- `ext2_get_inode`; inodes are numbered from 1. -/
def ext2GetInode (sb : SuperBlock) (ino : Nat) : Inode :=
  let count := sb.blockSize / sb.sInodeSize
  let table := sb.bgInodeTable ((ino - 1) / sb.sInodesPerGroup)
  let inoNo := (ino - 1) % sb.sInodesPerGroup
  Inode.ofBytes (ext2ReadBlock sb (add32 table (inoNo / count))
    (inoNo % count * sb.sInodeSize) sb.sInodeSize)

/-- What a read leaves: the bytes copied to `buff`, `fp->f_pos` and the value
returned. -/
structure ReadResult where
  buff : List UInt8
  fPos : Nat
  ret : Int

/-- The loop of `ext2_read` over `left` more blocks. -/
def ext2ReadLoop (sb : SuperBlock) (blockIndexs : Nat → Nat)
    (blocks realSize : Nat) :
    Nat → Nat → Nat → Nat → List UInt8 × Nat → List UInt8 × Nat
  | 0, _, _, _, state => state
  | left + 1, i, offset, len, (buff, fPos) =>
      let blockSize := sb.blockSize
      let len :=
        if i = blocks - 1 then
          if realSize % blockSize = 0 then blockSize
          else realSize % blockSize
        else len
      ext2ReadLoop sb blockIndexs blocks realSize left (i + 1) 0 blockSize
        (buff ++ ext2ReadBlock sb (blockIndexs i) offset len, add32 fPos len)

/-- `ext2_read`; `stack` is what `block_indexs` holds before it is filled. -/
def ext2Read (sb : SuperBlock) (stack : Nat → Nat) (ino fPos size : Nat) :
    ReadResult :=
  let inode := ext2GetInode sb ino
  if fPos = inode.iSize then ⟨[], fPos, 0⟩
  else
    let blockSize := sb.blockSize
    let realSize := min size (sub32 inode.iSize fPos)
    let blocks := add32 realSize (blockSize - 1) / blockSize
    let indexs := getBlockIndexs sb inode (fPos / blockSize) blocks
    let offset := fPos % blockSize
    let state := ext2ReadLoop sb (fun i => indexs.getD i (stack i)) blocks
      realSize blocks 0 offset (blockSize - offset) ([], fPos)
    ⟨state.1, state.2, signed32 realSize⟩

end Witos.Fs
