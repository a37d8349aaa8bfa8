import Witos.Library.Copies

/-!
# `memmove`

`memcpy` and `memmove` of `lib/std/string.c` in a memory of 32-bit addresses.
-/

namespace Witos.Strings

open Library Library.Copies

abbrev Address := BitVec 32

abbrev Memory := Address → UInt8

/-- The loop that copies upwards. -/
def copyUp : Nat → Address → Address → Memory → Memory
  | 0, _, _, memory => memory
  | count + 1, d, s, memory =>
      copyUp count (d + 1) (s + 1) (Function.update memory d (memory s))

/-- The loop that copies downwards; the pointers are decremented first. -/
def copyDown : Nat → Address → Address → Memory → Memory
  | 0, _, _, memory => memory
  | count + 1, d, s, memory =>
      copyDown count (d - 1) (s - 1)
        (Function.update memory (d - 1) (memory (s - 1)))

/-- `memcpy`: the memory, and `dst`. -/
def memcpy (dst src : Address) (count : BitVec 32) (memory : Memory) :
    Memory × Address :=
  (copyUp count.toNat dst src memory, dst)

/-- `memmove`: the memory, and `dst`. -/
def memmove (dst src : Address) (count : BitVec 32) (memory : Memory) :
    Memory × Address :=
  if dst < src then (copyUp count.toNat dst src memory, dst)
  else (copyDown count.toNat (dst + count) (src + count) memory, dst)

/-- A range does not go on behind the last address. -/
def Fits (start : Address) (count : BitVec 32) : Prop :=
  start.toNat + count.toNat ≤ 2 ^ 32

/-- An address is one of a range. -/
def InRange (start : Address) (count : BitVec 32) (address : Address) : Prop :=
  start.toNat ≤ address.toNat ∧ address.toNat < start.toNat + count.toNat

/-- The cell behind an address. -/
def cellAt (start : Address) (index : Nat) : Address :=
  start + BitVec.ofNat 32 index

/-- The destination holds what the source held, and everything else is as
before. -/
structure Moved (dst src : Address) (count : BitVec 32)
    (before after : Memory) : Prop where
  copied : ∀ index < count.toNat,
    after (cellAt dst index) = before (cellAt src index)
  outside : ∀ address, ¬InRange dst count address →
    after address = before address

theorem cellAt_zero (start : Address) : cellAt start 0 = start := by
  unfold cellAt
  bv_omega

theorem cellAt_succ (start : Address) (index : Nat) :
    cellAt start (index + 1) = cellAt start index + 1 := by
  unfold cellAt
  bv_omega

theorem toNat_cellAt {start : Address} {index : Nat}
    (fits : start.toNat + index < 2 ^ 32) :
    (cellAt start index).toNat = start.toNat + index := by
  unfold cellAt
  rw [BitVec.toNat_add, BitVec.toNat_ofNat]
  omega

theorem copyUp_eq (d s : Address) (done count : Nat) (memory : Memory) :
    copyUp count (cellAt d done) (cellAt s done) memory =
      transfer (cellAt d) (cellAt s) (List.range' done count) memory := by
  induction count generalizing done memory with
  | zero => rfl
  | succ count induction =>
      rw [copyUp, ← cellAt_succ, ← cellAt_succ, induction]
      rfl

theorem copyDown_eq (count : Nat) (d s : Address) (memory : Memory) :
    copyDown count (cellAt d count) (cellAt s count) memory =
      transfer (cellAt d) (cellAt s) (List.range count).reverse memory := by
  induction count generalizing memory with
  | zero => rfl
  | succ count induction =>
      have below (start : Address) :
          cellAt start (count + 1) - 1 = cellAt start count := by
        unfold cellAt
        bv_omega
      rw [copyDown, below, below, induction, List.range_succ,
        List.reverse_append]
      rfl

section Ranges

variable {dst src : Address} {count : BitVec 32}

theorem cellAt_nodup (fits : Fits dst count) {indices : List Nat}
    (nodup : indices.Nodup) (inside : ∀ index ∈ indices,
      index < count.toNat) :
    (indices.map (cellAt dst)).Nodup := by
  unfold Fits at fits
  apply nodup.map_on
  intro left leftMember right rightMember same
  have leftInside := inside left leftMember
  have rightInside := inside right rightMember
  have places := congrArg BitVec.toNat same
  rw [toNat_cellAt (by omega), toNat_cellAt (by omega)] at places
  omega

theorem inRange_cellAt (fits : Fits dst count) {index : Nat}
    (inside : index < count.toNat) : InRange dst count (cellAt dst index) := by
  unfold Fits at fits
  unfold InRange
  rw [toNat_cellAt (by omega)]
  omega

theorem moved_transfer (fits : Fits dst count) {indices : List Nat}
    (members : ∀ index, index ∈ indices ↔ index < count.toNat)
    (nodup : indices.Nodup)
    (readFirst : indices.Pairwise fun earlier later =>
      cellAt dst earlier ≠ cellAt src later) (memory : Memory) :
    Moved dst src count memory
      (transfer (cellAt dst) (cellAt src) indices memory) := by
  constructor
  · intro index inside
    have distinct := cellAt_nodup fits nodup fun index => (members index).mp
    exact transfer_inside distinct readFirst memory ((members index).mpr inside)
  · intro address outside
    apply transfer_outside
    rintro index member rfl
    exact outside (inRange_cellAt fits ((members index).mp member))

/-- A cell of the source that lies elsewhere than one of the destination. -/
theorem cellAt_ne (dstFits : Fits dst count) (srcFits : Fits src count)
    {stored read : Nat} (storedInside : stored < count.toNat)
    (readInside : read < count.toNat)
    (apart : dst.toNat + stored ≠ src.toNat + read) :
    cellAt dst stored ≠ cellAt src read := by
  unfold Fits at dstFits srcFits
  intro same
  have places := congrArg BitVec.toNat same
  rw [toNat_cellAt (by omega), toNat_cellAt (by omega)] at places
  exact apart places

/-- Upwards, the cells behind a stored one are read after it.  None of them is
its place if the destination is lower, or behind the source. -/
theorem moved_copyUp (dstFits : Fits dst count) (srcFits : Fits src count)
    (safe : dst < src ∨ src.toNat + count.toNat ≤ dst.toNat)
    (memory : Memory) :
    Moved dst src count memory (copyUp count.toNat dst src memory) := by
  have copied := copyUp_eq dst src 0 count.toNat memory
  rw [cellAt_zero, cellAt_zero, ← List.range_eq_range'] at copied
  rw [copied]
  apply moved_transfer dstFits (fun _ => List.mem_range) List.nodup_range
  rw [List.pairwise_iff_getElem]
  intro earlier later earlierInside laterInside before
  rw [List.length_range] at earlierInside laterInside
  rw [List.getElem_range, List.getElem_range]
  apply cellAt_ne dstFits srcFits earlierInside laterInside
  rcases safe with lower | behind
  · have lowerPlace := BitVec.lt_def.mp lower
    omega
  · omega

theorem moved_copyDown (dstFits : Fits dst count) (srcFits : Fits src count)
    (notLower : ¬dst < src) (memory : Memory) :
    Moved dst src count memory
      (copyDown count.toNat (dst + count) (src + count) memory) := by
  have behind (start : Address) : start + count = cellAt start count.toNat := by
    unfold cellAt
    bv_omega
  rw [behind, behind, copyDown_eq]
  apply moved_transfer dstFits
  · intro index
    rw [List.mem_reverse, List.mem_range]
  · exact List.nodup_reverse.mpr List.nodup_range
  · rw [List.pairwise_reverse, List.pairwise_iff_getElem]
    intro later earlier laterInside earlierInside before
    rw [List.length_range] at earlierInside laterInside
    rw [List.getElem_range, List.getElem_range]
    apply cellAt_ne dstFits srcFits earlierInside laterInside
    have higherPlace := mt BitVec.lt_def.mpr notLower
    omega

/-- `memcpy` moves a range to a lower one, and one that does not overlap. -/
theorem memcpy_moves (dstFits : Fits dst count) (srcFits : Fits src count)
    (safe : dst < src ∨ src.toNat + count.toNat ≤ dst.toNat)
    (memory : Memory) :
    Moved dst src count memory (memcpy dst src count memory).1 :=
  moved_copyUp dstFits srcFits safe memory

end Ranges

/-- `memmove` moves a range however it overlaps with its destination. -/
theorem memmove_moves (memory : Memory) (dst src : Address)
    (count : BitVec 32) (dstFits : Fits dst count)
    (srcFits : Fits src count) :
    Moved dst src count memory (memmove dst src count memory).1 := by
  unfold memmove
  split
  · rename_i lower
    exact moved_copyUp dstFits srcFits (Or.inl lower) memory
  · rename_i notLower
    exact moved_copyDown dstFits srcFits notLower memory

/-- Three bytes at 0, moved up by one. -/
theorem memmove_moves_three :
    Moved 1 0 3 (fun address => UInt8.ofNat address.toNat)
      (memmove 1 0 3 fun address => UInt8.ofNat address.toNat).1 :=
  memmove_moves (fun address => UInt8.ofNat address.toNat) 1 0 3
    (by unfold Fits; decide) (by unfold Fits; decide)

end Witos.Strings
