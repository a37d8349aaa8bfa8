import Witos.Fs.Drive

/-!
# Reading files of an ext4 volume

`ext4_read` of `fs/ext4/ext4.c`.  The block map is a parameter: the value
`ext4_get_blknums` returns and what it leaves in the array.
-/

namespace Witos.Fs

open Library

def ext4ReadBuff (drive : Drive) (offset size : Nat) : List UInt8 :=
  let bioSize :=
    clearLow sectSize ((offset % sectSize + size + sectSize - 1) % 2 ^ 32)
  ((submitBio drive (offset / sectSize) (bioSize / sectSize)).drop
    (offset % sectSize)).take size

def ext4ReadBlock (drive : Drive) (blocksize blkNo : Nat) : List UInt8 :=
  ext4ReadBuff drive (blkNo * blocksize % 2 ^ 32) blocksize

/-- The memory from `buff` on, `fp->f_pos` and the value returned. -/
structure Ext4Result where
  buff : Nat → UInt8
  fPos : Nat
  ret : Int

/-- The loop over whole blocks, with `left` more of them, on the memory from
`buff` on and `count`.  There is no element behind the `room` of the array. -/
def ext4ReadLoop (drive : Drive) (blkSize : Nat) (blkNum : Nat → Nat)
    (room : Nat) :
    Nat → Nat → (Nat → UInt8) × Nat → Option ((Nat → UInt8) × Nat)
  | 0, _, state => some state
  | left + 1, i, (buff, count) =>
      if room ≤ i then none
      else
        ext4ReadLoop drive blkSize blkNum room left (i + 1)
          (overlayAt (i * blkSize) (ext4ReadBlock drive blkSize (blkNum i))
            buff, add32 count blkSize)

/-- The number of blocks `ext4_read` asks for. -/
def ext4Blks (blkSize offset size : Nat) : Nat :=
  if offset ≠ 0 then
    sub32 (sub32 size (blkSize - offset)) 1 / blkSize + 2
  else sub32 size 1 / blkSize + 1

/-- The first, partial block, with the index of the next one. -/
def ext4Head (drive : Drive) (blkSize : Nat) (blkNum : Nat → Nat)
    (offset : Nat) (buff : Nat → UInt8) : Nat × (Nat → UInt8) × Nat :=
  if offset ≠ 0 then
    (1,
      overlayAt 0 (ext4ReadBuff drive (blkNum 0 * blkSize % 2 ^ 32)
        (blkSize - (offset + 1))) buff,
      blkSize - (offset + 1))
  else (0, buff, 0)

/-- The copies of `ext4_read`, up to the last block. -/
def ext4Copy (drive : Drive) (blkSize : Nat) (blkNum : Nat → Nat)
    (room blks offset size : Nat) (buff : Nat → UInt8) :
    Option (Nat → UInt8) :=
  let head := ext4Head drive blkSize blkNum offset buff
  match ext4ReadLoop drive blkSize blkNum room (blks - 1 - head.1) head.1
      head.2 with
  | none => none
  | some (buff, count) =>
      if room ≤ blks - 1 then none
      else
        some (overlayAt count (ext4ReadBuff drive
          (blkNum (blks - 1) * blkSize % 2 ^ 32) (sub32 size count)) buff)

/-- `ext4_read`, unless it uses an element behind its array. -/
def ext4Read (drive : Drive) (blkSize : Nat)
    (getBlknums : Nat → Nat → Int × (Nat → Nat)) (iSize fPos size : Nat)
    (buff : Nat → UInt8) : Option Ext4Result :=
  let room := sub32 size 1 / blkSize + 2
  if iSize ≤ fPos then some ⟨buff, fPos, 0⟩
  else
    let offset := fPos % blkSize
    let blks := ext4Blks blkSize offset size
    let map := getBlknums (fPos / blkSize) blks
    if map.1 < 0 then some ⟨buff, fPos, map.1⟩
    else
      match ext4Copy drive blkSize map.2 room blks offset size buff with
      | none => none
      | some buff => some ⟨buff, add32 fPos size, signed32 size⟩

end Witos.Fs
