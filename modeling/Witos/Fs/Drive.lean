import Witos.Library.Bytes
import Witos.Library.Word

/-!
# Reading from a drive

`submit_bio` in `driver/block/block.c` reads a buffer sector by sector.  A
position on a drive is a 32-bit number.
-/

namespace Witos.Fs

open Library

def sectSize : Nat := 512

/-- `get_block` by the position of the sector, and what the buffer for a
sector holds if it fails. -/
structure Drive where
  getBlock : Nat → Option (List UInt8)
  junk : Nat → UInt8

def Drive.sector (drive : Drive) (position : Nat) : List UInt8 :=
  (drive.getBlock position).getD (slice drive.junk position sectSize)

/-- `submit_bio(READ, bio)` for a buffer of `count` sectors. -/
def submitBio (drive : Drive) : Nat → Nat → List UInt8
  | _, 0 => []
  | sect, count + 1 =>
      drive.sector (sect * sectSize % 2 ^ 32) ++
        submitBio drive (add32 sect 1) count

/-- The drive never fails, and its bytes are those of the disk. -/
def Serves (drive : Drive) (disk : Nat → UInt8) : Prop :=
  ∀ position, drive.getBlock position = some (slice disk position sectSize)

/-- The bytes of a disk by positions that wrap. -/
def wrapped (disk : Nat → UInt8) : Nat → UInt8 :=
  fun position => disk (position % 2 ^ 32)

theorem wrapped_mod (disk : Nat → UInt8) {left right : Nat}
    (same : left % 2 ^ 32 = right % 2 ^ 32) :
    wrapped disk left = wrapped disk right := by
  rw [wrapped, wrapped, same]

theorem sector_eq {drive : Drive} {disk : Nat → UInt8}
    (serves : Serves drive disk) (sect : Nat) :
    drive.sector (sect * sectSize % 2 ^ 32) =
      slice (wrapped disk) (sect * sectSize) sectSize := by
  rw [Drive.sector, serves, Option.getD_some]
  apply slice_congr
  intro index inside
  unfold wrapped sectSize at *
  congr 1
  omega

/-- What a drive that never fails puts into the buffer. -/
theorem submitBio_eq {drive : Drive} {disk : Nat → UInt8}
    (serves : Serves drive disk) (sect count : Nat) :
    submitBio drive sect count =
      slice (wrapped disk) (sect * sectSize) (count * sectSize) := by
  induction count generalizing sect with
  | zero => simp [submitBio]
  | succ count induction =>
      have next : slice (wrapped disk) (add32 sect 1 * sectSize)
          (count * sectSize) =
          slice (wrapped disk) (sect * sectSize + sectSize)
            (count * sectSize) := by
        apply slice_congr
        intro index inside
        apply wrapped_mod
        unfold add32 sectSize
        omega
      rw [submitBio, sector_eq serves, induction, next, slice_append,
        Nat.succ_mul, Nat.add_comm]

/-- A byte of a file whose blocks are where `pointer` says. -/
def contentByte (disk : Nat → UInt8) (blockSize : Nat) (pointer : Nat → Nat)
    (index : Nat) : UInt8 :=
  wrapped disk (pointer (index / blockSize) * blockSize + index % blockSize)

theorem slice_contentByte (disk : Nat → UInt8) {blockSize : Nat}
    (pointer : Nat → Nat) {block off len : Nat}
    (within : off + len ≤ blockSize) :
    slice (wrapped disk) (pointer block * blockSize + off) len =
      slice (contentByte disk blockSize pointer) (block * blockSize + off)
        len := by
  apply slice_congr
  intro index inside
  have small : off + index < blockSize := by omega
  obtain ⟨inBlock, place⟩ := div_mod_of_block block small
  rw [contentByte, Nat.add_assoc, Nat.add_assoc, inBlock, place]

end Witos.Fs
