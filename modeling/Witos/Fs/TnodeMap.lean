import Mathlib.Data.Nat.Log
import Witos.Library.BitFields

/-!
# Level 0 tnodes

A file of the log-structured file system finds its chunks through tnodes.  A
level 0 tnode packs the groups of sixteen chunks into 32-bit words, in as many
bits as the device needs for them.
-/

namespace Witos.Fs

open Witos.Library Witos.Library.BitFields

/-- The parameters that the geometry of a device is checked and worked out
from. -/
structure YaffsParam where
  inbandTags : Bool
  totalBytesPerChunk : Nat
  chunksPerBlock : Nat
  startBlock : Nat
  endBlock : Nat
  nReservedBlocks : Nat
  isYaffs2 : Bool
  wideTnodesDisabled : Bool
  deriving DecidableEq, Repr

structure YaffsDev where
  chunksPerBlock : Nat
  internalStartBlock : Nat
  internalEndBlock : Nat
  dataBytesPerChunk : Nat
  chunkShift : Nat
  chunkDiv : Nat
  chunkMask : Nat
  chunkGrpBits : Nat
  chunkGrpSize : Nat
  tnodeWidth : Nat
  tnodeMask : BitVec 32
  tnodeSize : Nat
  deriving DecidableEq, Repr

/-- The zero bits below the lowest set bit. -/
def calcShifts (x : Nat) : Nat :=
  if x = 0 then 0
  else if x &&& 1 = 0 then calcShifts (x >>> 1) + 1 else 0
termination_by x
decreasing_by
  rw [Nat.shiftRight_one]
  omega

theorem calcShifts_spec (x : Nat) :
    (x >>> calcShifts x) * 2 ^ calcShifts x = x := by
  induction x using Nat.strong_induction_on with
  | h x induction =>
      rw [calcShifts]
      by_cases zero : x = 0
      · rw [if_pos zero, Nat.pow_zero, Nat.mul_one]
        rfl
      rw [if_neg zero]
      by_cases even : x &&& 1 = 0
      · rw [if_pos even]
        have half := induction (x >>> 1) (by rw [Nat.shiftRight_one]; omega)
        rw [Nat.and_one_is_mod] at even
        rw [Nat.pow_succ, Nat.add_comm, Nat.shiftRight_add, ← Nat.mul_assoc,
          half, Nat.shiftRight_one]
        omega
      · rw [if_neg even, Nat.pow_zero, Nat.mul_one]
        rfl

/-- The loop of `calc_shifts_ceiling`: the set bits that were shifted out, and
the shifts. -/
def calcShiftsLoop (x extraBits shifts : Nat) : Nat × Nat :=
  if 1 < x then
    calcShiftsLoop (x >>> 1)
      (if x &&& 1 ≠ 0 then extraBits + 1 else extraBits) (shifts + 1)
  else (extraBits, shifts)
termination_by x
decreasing_by
  rw [Nat.shiftRight_one]
  omega

def calcShiftsCeiling (x : Nat) : Nat :=
  let (extraBits, shifts) := calcShiftsLoop x 0 0
  if extraBits ≠ 0 then shifts + 1 else shifts

theorem calcShiftsLoop_spec (x extraBits shifts : Nat) (some_ : 0 < x) :
    ∃ more, (calcShiftsLoop x extraBits shifts).2 = shifts + more ∧
      x < 2 ^ (more + 1) ∧ 2 ^ more ≤ x ∧
      extraBits ≤ (calcShiftsLoop x extraBits shifts).1 ∧
      ((calcShiftsLoop x extraBits shifts).1 = extraBits ↔ x = 2 ^ more) := by
  induction x using Nat.strong_induction_on generalizing extraBits shifts with
  | h x induction =>
      rw [calcShiftsLoop]
      by_cases large : 1 < x
      · rw [if_pos large]
        have half : x >>> 1 = x / 2 := Nat.shiftRight_one x
        have low : x &&& 1 = x % 2 := Nat.and_one_is_mod x
        rw [half, low]
        generalize bits : (if x % 2 ≠ 0 then extraBits + 1 else extraBits) =
          next
        obtain ⟨more, shifted, below, above, counted, exact_⟩ :=
          induction (x / 2) (by omega) next (shifts + 1) (by omega)
        refine ⟨more + 1, by rw [shifted]; omega, ?_, ?_, ?_, ?_⟩
        · rw [Nat.pow_succ]
          omega
        · rw [Nat.pow_succ]
          omega
        · by_cases odd : x % 2 = 0 <;> simp [odd] at bits <;> omega
        · rw [Nat.pow_succ]
          by_cases odd : x % 2 = 0
          · simp only [odd, ne_eq, not_true_eq_false, if_false] at bits
            rw [← bits] at exact_ ⊢
            rw [exact_]
            omega
          · simp only [odd, ne_eq, not_false_eq_true, if_true] at bits
            constructor
            · intro same
              omega
            · intro even
              omega
      · have one : x = 1 := by omega
        subst one
        exact ⟨0, by simp⟩

theorem calcShiftsCeiling_eq (x : Nat) :
    calcShiftsCeiling x = Nat.clog 2 x := by
  rcases Nat.eq_zero_or_pos x with zero | some_
  · subst zero
    simp [calcShiftsCeiling, calcShiftsLoop]
  obtain ⟨more, shifted, below, above, -, exact_⟩ :=
    calcShiftsLoop_spec x 0 0 some_
  rw [Nat.zero_add] at shifted
  unfold calcShiftsCeiling
  simp only [shifted]
  by_cases power : x = 2 ^ more
  · rw [if_neg (not_not.mpr (exact_.mpr power)), power,
      Nat.clog_pow 2 more Nat.one_lt_two]
  · rw [if_pos fun same => power (exact_.mp same)]
    apply Nat.le_antisymm
    · apply (Nat.lt_clog_iff_pow_lt Nat.one_lt_two).mpr
      omega
    · apply Nat.clog_le_of_le_pow
      omega

/-- The bits of a chunk number and the width of a tnode's fields.  Wide tnodes
round the bits up to an even number. -/
def yaffsTnodeWidth (wideTnodesDisabled : Bool) (bits : Nat) : Nat × Nat :=
  if wideTnodesDisabled then (bits, 16)
  else
    let bits := if bits &&& 1 ≠ 0 then bits + 1 else bits
    (bits, if bits < 16 then 16 else bits)

theorem yaffsTnodeWidth_spec (disabled : Bool) {bits : Nat}
    (few : bits ≤ 30) :
    bits ≤ (yaffsTnodeWidth disabled bits).1 ∧
      (yaffsTnodeWidth disabled bits).1 ≤ 30 ∧
      (yaffsTnodeWidth disabled bits).2 % 2 = 0 ∧
      16 ≤ (yaffsTnodeWidth disabled bits).2 ∧
      (yaffsTnodeWidth disabled bits).2 ≤ 30 := by
  cases disabled with
  | true =>
      change bits ≤ bits ∧ bits ≤ 30 ∧ 16 % 2 = 0 ∧ 16 ≤ 16 ∧ 16 ≤ 30
      omega
  | false =>
      simp only [yaffsTnodeWidth, Bool.false_eq_true, if_false,
        Nat.and_one_is_mod]
      by_cases odd : bits % 2 = 0
      · simp only [odd, ne_eq, not_true_eq_false, if_false]
        split <;> omega
      · simp only [odd, ne_eq, not_false_eq_true, if_true]
        split <;> omega

/-- The geometry that the initialisation refuses. -/
def YaffsParam.Refused (param : YaffsParam)
    (internalStartBlock internalEndBlock : Nat) : Prop :=
  (param.inbandTags = false ∧ param.isYaffs2 = true ∧
      param.totalBytesPerChunk < 1024) ∨
    (param.isYaffs2 = false ∧ param.totalBytesPerChunk < 512) ∨
    (param.inbandTags = true ∧ param.isYaffs2 = false) ∨
    param.chunksPerBlock < 2 ∨ param.nReservedBlocks < 2 ∨
    internalStartBlock = 0 ∨ internalEndBlock = 0 ∨
    internalEndBlock ≤ internalStartBlock + param.nReservedBlocks + 2

instance (param : YaffsParam) (first last : Nat) :
    Decidable (param.Refused first last) :=
  inferInstanceAs (Decidable (_ ∨ _))

/-- The geometry that `yaffs_guts_initialise` works out: packed tags take 16
bytes and a `struct yaffs_tnode` takes 32. -/
def yaffsGutsInitialise (param : YaffsParam) : Option YaffsDev :=
  -- block 0 is never used: the blocks are shifted up instead
  let shift := if param.startBlock = 0 then 1 else 0
  let internalStartBlock := param.startBlock + shift
  let internalEndBlock := param.endBlock + shift
  if param.Refused internalStartBlock internalEndBlock then none
  else
    let dataBytesPerChunk :=
      if param.inbandTags then param.totalBytesPerChunk - 16
      else param.totalBytesPerChunk
    let chunkShift := calcShifts dataBytesPerChunk
    let x := param.chunksPerBlock * (internalEndBlock + 1) % 2 ^ 32
    let (bits, tnodeWidth) :=
      yaffsTnodeWidth param.wideTnodesDisabled (calcShiftsCeiling x)
    let chunkGrpBits := if bits ≤ tnodeWidth then 0 else bits - tnodeWidth
    let tnodeSize := tnodeWidth * 16 / 8
    let chunkGrpSize := 2 ^ chunkGrpBits % 2 ^ 16
    if param.chunksPerBlock < chunkGrpSize then none
    else
      some {
        chunksPerBlock := param.chunksPerBlock
        internalStartBlock := internalStartBlock
        internalEndBlock := internalEndBlock
        dataBytesPerChunk := dataBytesPerChunk
        chunkShift := chunkShift
        chunkDiv := dataBytesPerChunk >>> chunkShift
        chunkMask := 2 ^ chunkShift - 1
        chunkGrpBits := chunkGrpBits
        chunkGrpSize := chunkGrpSize
        tnodeWidth := tnodeWidth
        tnodeMask := (1#32 <<< tnodeWidth) - 1#32
        tnodeSize := if tnodeSize < 32 then 32 else tnodeSize }

/-- The chunks of the device, counted from 0. -/
def YaffsDev.chunks (dev : YaffsDev) : Nat :=
  dev.chunksPerBlock * (dev.internalEndBlock + 1)

/-- A chunk that the file system may write. -/
def YaffsDev.IsChunk (dev : YaffsDev) (chunk : Nat) : Prop :=
  dev.internalStartBlock * dev.chunksPerBlock ≤ chunk ∧ chunk < dev.chunks

instance (dev : YaffsDev) (chunk : Nat) : Decidable (dev.IsChunk chunk) :=
  inferInstanceAs (Decidable (_ ∧ _))

/-- What tnodes and chunk numbers rely on. -/
structure YaffsDev.Fits (dev : YaffsDev) : Prop where
  sized : 0 < dev.dataBytesPerChunk
  bounded : dev.dataBytesPerChunk < 2 ^ 32
  parts : dev.chunkDiv * 2 ^ dev.chunkShift = dev.dataBytesPerChunk
  chunkMask : dev.chunkMask = 2 ^ dev.chunkShift - 1
  even : dev.tnodeWidth % 2 = 0
  wide : 16 ≤ dev.tnodeWidth
  narrow : dev.tnodeWidth ≤ 32
  mask : dev.tnodeMask.toNat = 2 ^ dev.tnodeWidth - 1
  size : dev.tnodeSize = 2 * dev.tnodeWidth
  grpSize : dev.chunkGrpSize = 2 ^ dev.chunkGrpBits
  group : dev.chunkGrpSize ≤ dev.internalStartBlock * dev.chunksPerBlock
  reach : dev.chunks ≤ 2 ^ (dev.chunkGrpBits + dev.tnodeWidth)
  small : dev.chunks ≤ 2 ^ 30
  blocks : dev.internalStartBlock < dev.internalEndBlock

theorem YaffsDev.Fits.chunks_pos {dev : YaffsDev} (fits : dev.Fits) :
    0 < dev.chunks := by
  have group := fits.group
  rw [fits.grpSize] at group
  have some_ := Nat.lt_of_lt_of_le (Nat.two_pow_pos dev.chunkGrpBits) group
  exact Nat.mul_pos (Nat.pos_of_mul_pos_left some_) (Nat.succ_pos _)

theorem toNat_tnodeMask {width : Nat} (narrow : width ≤ 30) :
    ((1#32 <<< width) - 1#32).toNat = 2 ^ width - 1 := by
  have low : 2 ^ width ≤ 2 ^ 30 := Nat.pow_le_pow_right Nat.zero_lt_two narrow
  have some_ : 0 < 2 ^ width := Nat.two_pow_pos width
  have one : (1#32).toNat = 1 := rfl
  have shifted : (1#32 <<< width).toNat = 2 ^ width := by
    rw [BitVec.toNat_shiftLeft, Nat.shiftLeft_eq, one, Nat.one_mul]
    apply Nat.mod_eq_of_lt
    omega
  rw [BitVec.toNat_sub, shifted, one]
  omega

/-- A device of at most 2 ^ 30 chunks that is not refused has tnodes which
reach all its chunks, and groups no larger than a block. -/
theorem YaffsDev.fits_of_initialise {param : YaffsParam} {dev : YaffsDev}
    (accepted : yaffsGutsInitialise param = some dev)
    (sized : 16 < param.totalBytesPerChunk)
    (bounded : param.totalBytesPerChunk < 2 ^ 32)
    (small : dev.chunks ≤ 2 ^ 30) : dev.Fits := by
  unfold yaffsGutsInitialise at accepted
  simp only at accepted
  generalize param.startBlock + (if param.startBlock = 0 then 1 else 0) = first
    at accepted
  generalize param.endBlock + (if param.startBlock = 0 then 1 else 0) = last
    at accepted
  generalize data : (if param.inbandTags then param.totalBytesPerChunk - 16
    else param.totalBytesPerChunk) = bytes at accepted
  have inChunk : 0 < bytes ∧ bytes < 2 ^ 32 := by
    rw [← data]
    split <;> omega
  split at accepted
  · cases accepted
  rename_i geometry
  have begins : 1 ≤ first ∧ first < last := by
    by_contra zero
    apply geometry
    unfold YaffsParam.Refused
    omega
  generalize widths : yaffsTnodeWidth param.wideTnodesDisabled
    (calcShiftsCeiling (param.chunksPerBlock * (last + 1) % 2 ^ 32)) = pair
    at accepted
  obtain ⟨bits, width⟩ := pair
  simp only at accepted
  generalize group : (if bits ≤ width then 0 else bits - width) = grpBits
    at accepted
  generalize sized : (if width * 16 / 8 < 32 then 32 else width * 16 / 8) =
    tnodeSize at accepted
  split at accepted
  · cases accepted
  rename_i grouped
  have same := Option.some.inj accepted
  subst same
  change param.chunksPerBlock * (last + 1) ≤ 2 ^ 30 at small
  have unwrapped : param.chunksPerBlock * (last + 1) % 2 ^ 32 =
      param.chunksPerBlock * (last + 1) := Nat.mod_eq_of_lt (by omega)
  rw [unwrapped, calcShiftsCeiling_eq] at widths
  have cover := Nat.le_pow_clog Nat.one_lt_two
    (param.chunksPerBlock * (last + 1))
  have few := Nat.clog_le_of_le_pow small
  have spec := yaffsTnodeWidth_spec param.wideTnodesDisabled few
  rw [widths] at spec
  obtain ⟨rounded, bounded, even, wide, narrow⟩ := spec
  have together : bits ≤ grpBits + width ∧ grpBits ≤ 14 := by
    rw [← group]
    split <;> omega
  have grpSize : 2 ^ grpBits % 2 ^ 16 = 2 ^ grpBits := by
    apply Nat.mod_eq_of_lt
    apply Nat.pow_lt_pow_right Nat.one_lt_two
    omega
  refine ⟨inChunk.1, inChunk.2, calcShifts_spec bytes, rfl, even, wide,
    Nat.le_trans narrow (by decide), toNat_tnodeMask narrow, ?_, grpSize, ?_,
    ?_, small, begins.2⟩
  · change tnodeSize = 2 * width
    rw [← sized]
    split <;> omega
  · change 2 ^ grpBits % 2 ^ 16 ≤ first * param.chunksPerBlock
    calc
      2 ^ grpBits % 2 ^ 16 ≤ param.chunksPerBlock := Nat.le_of_not_lt grouped
      _ = 1 * param.chunksPerBlock := (Nat.one_mul _).symm
      _ ≤ first * param.chunksPerBlock := Nat.mul_le_mul_right _ begins.1
  · change param.chunksPerBlock * (last + 1) ≤ 2 ^ (grpBits + width)
    apply Nat.le_trans cover
    apply Nat.pow_le_pow_right Nat.zero_lt_two
    omega

/-- The chunk of an address, counted from 0, and the offset in it. -/
def yaffsAddrToChunk (dev : YaffsDev) (addr : Nat) : Nat × Nat :=
  let chunk := addr >>> dev.chunkShift % 2 ^ 32
  if dev.chunkDiv = 1 then (chunk, (addr &&& dev.chunkMask) % 2 ^ 32)
  else
    let chunk := chunk / dev.chunkDiv
    (chunk, (addr - chunk * dev.dataBytesPerChunk) % 2 ^ 32)

/-- The words of a level 0 tnode. -/
abbrev TnodeMap := Nat → BitVec 32

/-- `map[word] &= ~mask; map[word] |= (mask & bits);` -/
def storeBits (map : TnodeMap) (word : Nat) (mask bits : BitVec 32) :
    TnodeMap :=
  Function.update map word (map word &&& ~~~mask ||| mask &&& bits)

def yaffsLoadTnode0 (dev : YaffsDev) (map : TnodeMap) (pos : Nat)
    (val : BitVec 32) : TnodeMap :=
  let pos := pos &&& 15
  let val := val >>> dev.chunkGrpBits
  let bitInMap := pos * dev.tnodeWidth
  let wordInMap := bitInMap / 32
  let bitInWord := bitInMap &&& (32 - 1)
  let stored :=
    storeBits map wordInMap (dev.tnodeMask <<< bitInWord) (val <<< bitInWord)
  if dev.tnodeWidth > 32 - bitInWord then
    storeBits stored (wordInMap + 1) (dev.tnodeMask >>> (32 - bitInWord))
      (val >>> (32 - bitInWord))
  else stored

def yaffsGetGroupBase (dev : YaffsDev) (map : TnodeMap) (pos : Nat) :
    BitVec 32 :=
  let pos := pos &&& 15
  let bitInMap := pos * dev.tnodeWidth
  let wordInMap := bitInMap / 32
  let bitInWord := bitInMap &&& (32 - 1)
  let val := map wordInMap >>> bitInWord
  let val :=
    if dev.tnodeWidth > 32 - bitInWord then
      val ||| map (wordInMap + 1) <<< (32 - bitInWord)
    else val
  (val &&& dev.tnodeMask) <<< dev.chunkGrpBits

/-- The group that a chunk belongs to, as its first chunk. -/
def YaffsDev.groupBase (dev : YaffsDev) (chunk : BitVec 32) : BitVec 32 :=
  chunk >>> dev.chunkGrpBits <<< dev.chunkGrpBits

section Fields

variable {dev : YaffsDev} (fits : dev.Fits)

include fits

end Fields

end Witos.Fs
