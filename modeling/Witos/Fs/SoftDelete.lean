import Mathlib.Data.Finset.Dedup
import Witos.Fs.FileChunkRuns

/-!
# Soft deletion of files

A deleted file gives up its chunks from the last one to the first one, and each
is counted in the block of its group.
-/

namespace Witos.Fs

open Witos.Library

/-- The counters of the blocks, and the free chunks. -/
structure BlockCounts where
  softDelPages : Nat → BitVec 10
  nFreeChunks : Int

/-- `none` is the `BUG()` for a block that is none of the device. -/
def yaffsSoftDelChunk (dev : YaffsDev) (counts : BlockCounts)
    (chunk : BitVec 32) : Option BlockCounts :=
  let blockNo := chunk.toNat / dev.chunksPerBlock
  if dev.HasBlock blockNo then
    some {
      softDelPages := Function.update counts.softDelPages blockNo
        (counts.softDelPages blockNo + 1)
      nFreeChunks := counts.nFreeChunks + 1 }
  else none

section SoftDelete

variable {dev : YaffsDev} (fits : dev.Fits)

include fits

end SoftDelete

/-- A chunk at the start of a block whose group is counted in this block starts
its group. -/
theorem dvd_of_block {dev : YaffsDev} (fits : dev.Fits) {block : Nat}
    (first : dev.internalStartBlock ≤ block)
    (last : block ≤ dev.internalEndBlock)
    (counted : ∀ val : BitVec 32, dev.IsChunk val.toNat →
      (dev.groupBase val).toNat / dev.chunksPerBlock =
        val.toNat / dev.chunksPerBlock) :
    dev.chunkGrpSize ∣ block * dev.chunksPerBlock := by
  have positive : 0 < dev.chunksPerBlock :=
    Nat.pos_of_mul_pos_right fits.chunks_pos
  have inside : block * dev.chunksPerBlock < dev.chunks := by
    unfold YaffsDev.chunks
    rw [Nat.mul_comm dev.chunksPerBlock]
    exact Nat.mul_lt_mul_of_pos_right (Nat.lt_succ_of_le last) positive
  have number : (BitVec.ofNat 32 (block * dev.chunksPerBlock)).toNat =
      block * dev.chunksPerBlock := by
    have small := fits.small
    rw [BitVec.toNat_ofNat]
    exact Nat.mod_eq_of_lt (by omega)
  have isChunk : dev.IsChunk (block * dev.chunksPerBlock) :=
    ⟨Nat.mul_le_mul_right _ first, inside⟩
  rw [← number] at isChunk
  have same := counted _ isChunk
  rw [toNat_groupBase, number, Nat.mul_div_cancel _ positive] at same
  have floor := Nat.div_mul_le_self (block * dev.chunksPerBlock)
    (2 ^ dev.chunkGrpBits)
  have reached : block * dev.chunksPerBlock ≤
      block * dev.chunksPerBlock / 2 ^ dev.chunkGrpBits *
        2 ^ dev.chunkGrpBits :=
    (Nat.le_div_iff_mul_le positive).mp (Nat.le_of_eq same.symm)
  rw [fits.grpSize]
  exact Dvd.intro_left _ (Nat.le_antisymm floor reached)

/-- A soft deletion counts every chunk in the block that it is in just when the
groups divide the blocks.  The initialisation only checks that they are not
larger. -/
theorem softDelete_block_iff {param : YaffsParam} {dev : YaffsDev}
    (accepted : yaffsGutsInitialise param = some dev)
    (sized : 16 < param.totalBytesPerChunk)
    (bounded : param.totalBytesPerChunk < 2 ^ 32)
    (small : dev.chunks ≤ 2 ^ 30) :
    (∀ (val : BitVec 32) (counts : BlockCounts), dev.IsChunk val.toNat →
      ∃ after, yaffsSoftDelChunk dev counts (dev.groupBase val) = some after ∧
        after.softDelPages (val.toNat / dev.chunksPerBlock) =
          counts.softDelPages (val.toNat / dev.chunksPerBlock) + 1) ↔
      dev.chunkGrpSize ∣ dev.chunksPerBlock := by
  have fits := YaffsDev.fits_of_initialise accepted sized bounded small
  constructor
  · intro counted
    have blocks : ∀ val : BitVec 32, dev.IsChunk val.toNat →
        (dev.groupBase val).toNat / dev.chunksPerBlock =
          val.toNat / dev.chunksPerBlock := by
      intro val isChunk
      obtain ⟨after, called, count⟩ :=
        counted val { softDelPages := fun _ => 0, nFreeChunks := 0 } isChunk
      by_contra differs
      unfold yaffsSoftDelChunk at called
      simp only at called
      split at called
      · cases called
        simp only [Function.update_of_ne (Ne.symm differs)] at count
        exact absurd count (by decide)
      · cases called
    have low := dvd_of_block fits (Nat.le_refl _) (Nat.le_of_lt fits.blocks)
      blocks
    have high := dvd_of_block fits (Nat.le_succ _) fits.blocks blocks
    rw [Nat.succ_mul] at high
    exact (Nat.dvd_add_right low).mp high
  · rintro ⟨groups, parts⟩ val counts isChunk
    rw [fits.grpSize] at parts
    have same : (dev.groupBase val).toNat / dev.chunksPerBlock =
        val.toNat / dev.chunksPerBlock := by
      rw [toNat_groupBase, parts, ← Nat.div_div_eq_div_mul,
        ← Nat.div_div_eq_div_mul,
        Nat.mul_div_cancel _ (Nat.two_pow_pos dev.chunkGrpBits)]
    have block : dev.HasBlock
        ((dev.groupBase val).toNat / dev.chunksPerBlock) := by
      rw [same]
      exact isChunk.hasBlock fits
    refine ⟨_, if_pos block, ?_⟩
    rw [same]
    exact Function.update_self ..

/-- A device with blocks of 96 chunks and groups of 64. -/
def yaffsOddParam : YaffsParam :=
  { yaffsSmallParam with chunksPerBlock := 96, endBlock := 39998 }

def yaffsOddDev : YaffsDev :=
  { yaffsSmallDev with
    chunksPerBlock := 96
    internalEndBlock := 39999
    chunkGrpBits := 6
    chunkGrpSize := 64 }

theorem yaffsGutsInitialise_odd :
    yaffsGutsInitialise yaffsOddParam = some yaffsOddDev := by
  have bits : calcShiftsCeiling 3840000 = 22 := by
    rw [calcShiftsCeiling_eq]
    apply Nat.le_antisymm
    · exact Nat.clog_le_of_le_pow (by decide)
    · exact (Nat.lt_clog_iff_pow_lt Nat.one_lt_two).mpr (by decide)
  have shift : calcShifts 2048 = 11 := by simp [calcShifts]
  unfold yaffsGutsInitialise
  simp [yaffsOddParam, yaffsOddDev, yaffsSmallParam, yaffsSmallDev,
    YaffsParam.Refused, yaffsTnodeWidth, bits, shift]

theorem softDelete_block_odd :
    ¬∀ (val : BitVec 32) (counts : BlockCounts), yaffsOddDev.IsChunk val.toNat →
      ∃ after, yaffsSoftDelChunk yaffsOddDev counts
          (yaffsOddDev.groupBase val) = some after ∧
        after.softDelPages (val.toNat / yaffsOddDev.chunksPerBlock) =
          counts.softDelPages (val.toNat / yaffsOddDev.chunksPerBlock) +
            1 := by
  rw [softDelete_block_iff yaffsGutsInitialise_odd (by decide) (by decide)
    (by decide)]
  decide

end Witos.Fs
