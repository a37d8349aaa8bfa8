import Mathlib.Data.List.ProdSigma
import Witos.Flash.NandEcc
import Witos.Library.Parity

/-!
# The Hamming code of an ECC step

The standard code of 256 bytes has a pair of parities for each bit of the
address of a bit: one over the bits whose address has it clear, one over those
whose address has it set.  A flipped bit shows in one parity of each pair, so
the difference of two codes spells its address.
-/

namespace Witos.Flash

open Library

/-- The bits of a step, as byte and bit number. -/
def stepBits : List (Nat × Nat) :=
  List.range softEccDataLen ×ˢ List.range 8

def bitOf (data : List UInt8) (place : Nat × Nat) : Bool :=
  (data.getD place.1 0).toNat.testBit place.2

/-- Parity of the bits of a step whose place is selected. -/
def selectedParity (select : Nat × Nat → Bool) (data : List UInt8) : Bool :=
  parity stepBits fun place => select place && bitOf data place

/-- A byte with these bits, the first the lowest. -/
def codeByte (bits : Nat → Bool) : UInt8 :=
  .ofBitVec (BitVec.ofBoolListLE [bits 0, bits 1, bits 2, bits 3, bits 4,
    bits 5, bits 6, bits 7] : BitVec 8)

/-- Places that the row parity `rp<index>` is about. -/
def inRow (index : Nat) (place : Nat × Nat) : Bool :=
  place.1.testBit (index / 2) == (index % 2 == 1)

/-- Places that the column parity `cp<index>` is about. -/
def inColumn (index : Nat) (place : Nat × Nat) : Bool :=
  place.2.testBit (index / 2) == (index % 2 == 1)

/-- The standard code: inverted parities, and two bits that are set. -/
def hammingCode (data : List UInt8) : EccCode where
  code0 := codeByte fun i => !selectedParity (inRow (8 + i)) data
  code1 := codeByte fun i => !selectedParity (inRow i) data
  code2 := codeByte fun i =>
    if i < 2 then true else !selectedParity (inColumn (i - 2)) data

theorem codeByte_xor (left right : Nat → Bool) :
    codeByte left ^^^ codeByte right = codeByte fun i => left i ^^ right i := by
  apply UInt8.toBitVec_inj.mp
  rw [UInt8.toBitVec_xor]
  apply BitVec.eq_of_getLsbD_eq
  intro i inByte
  have bitAt : ∀ bits : Nat → Bool, (codeByte bits).toBitVec.getLsbD i =
      [bits 0, bits 1, bits 2, bits 3, bits 4, bits 5, bits 6,
        bits 7].getD i false := by
    intro bits
    exact BitVec.getLsbD_ofBoolListLE
  rw [BitVec.getLsbD_xor, bitAt, bitAt, bitAt]
  have cases : i = 0 ∨ i = 1 ∨ i = 2 ∨ i = 3 ∨ i = 4 ∨ i = 5 ∨ i = 6 ∨
      i = 7 := by omega
  rcases cases with rfl | rfl | rfl | rfl | rfl | rfl | rfl | rfl <;> rfl

/-- A step of which the bit at `flipped` is the other one. -/
def FlippedAt (flipped : Nat × Nat) (data data' : List UInt8) : Prop :=
  ∀ place ∈ stepBits,
    bitOf data' place = (bitOf data place ^^ decide (place = flipped))

theorem stepBits_nodup : stepBits.Nodup :=
  List.nodup_range.product List.nodup_range

theorem mem_stepBits {place : Nat × Nat} :
    place ∈ stepBits ↔ place.1 < softEccDataLen ∧ place.2 < 8 := by
  unfold stepBits
  rw [List.mem_product, List.mem_range, List.mem_range]

theorem selectedParity_flipped {flipped : Nat × Nat}
    {data data' : List UInt8} (member : flipped ∈ stepBits)
    (flip : FlippedAt flipped data data') (select : Nat × Nat → Bool) :
    selectedParity select data' =
      (selectedParity select data ^^ select flipped) := by
  unfold selectedParity
  calc
    parity stepBits (fun place => select place && bitOf data' place) =
        parity stepBits (fun place => (select place && bitOf data place) ^^
          (select place && decide (place = flipped))) := by
      apply parity_congr
      intro place inStep
      rw [flip place inStep, Bool.and_xor_distrib_left]
    _ = _ := by
      rw [parity_xor, parity_single stepBits_nodup member]

/-- How the bytes of the two codes differ. -/
def difference (select : Nat → Nat × Nat → Bool) (flipped : Nat × Nat) :
    UInt8 :=
  codeByte fun i => select i flipped

theorem hammingCode_flipped {flipped : Nat × Nat} {data data' : List UInt8}
    (member : flipped ∈ stepBits) (flip : FlippedAt flipped data data') :
    (hammingCode data).code0 ^^^ (hammingCode data').code0 =
        difference (fun i => inRow (8 + i)) flipped ∧
      (hammingCode data).code1 ^^^ (hammingCode data').code1 =
        difference inRow flipped ∧
      (hammingCode data).code2 ^^^ (hammingCode data').code2 =
        difference (fun i place => decide (2 ≤ i) && inColumn (i - 2) place)
          flipped := by
  have toggled : ∀ select : Nat × Nat → Bool,
      ((!selectedParity select data) ^^ !selectedParity select data') =
        select flipped := by
    intro select
    rw [selectedParity_flipped member flip]
    cases selectedParity select data <;> cases select flipped <;> rfl
  refine ⟨?_, ?_, ?_⟩
  · simp only [hammingCode, codeByte_xor, toggled, difference]
  · simp only [hammingCode, codeByte_xor, toggled, difference]
  · simp only [hammingCode, codeByte_xor, difference]
    congr 1
    funext i
    by_cases low : i < 2
    · have notHigh : ¬ 2 ≤ i := by omega
      simp [low, notHigh]
    · have high : 2 ≤ i := by omega
      simp only [low, if_false, toggled, high, decide_true, Bool.true_and]

theorem rows_spell : ∀ byte < softEccDataLen,
    let b0 := difference inRow (byte, 0)
    let b1 := difference (fun i => inRow (8 + i)) (byte, 0)
    (b0 ^^^ (b0 >>> 1)) &&& 0x55 = 0x55 ∧
      (b1 ^^^ (b1 >>> 1)) &&& 0x55 = 0x55 ∧
      addressbits.getD b1.toNat 0 * 16 + addressbits.getD b0.toNat 0 =
        byte := by
  decide +kernel

theorem columns_spell : ∀ bit < 8,
    let b2 := difference
      (fun i place => decide (2 ≤ i) && inColumn (i - 2) place) (0, bit)
    (b2 ^^^ (b2 >>> 1)) &&& 0x54 = 0x54 ∧
      addressbits.getD (b2 >>> 2).toNat 0 = bit := by
  decide +kernel

/-- `__nand_correct_data` flips the bit back in which two steps differ. -/
theorem nandCorrectStep_flipped {flipped : Nat × Nat}
    {data data' : List UInt8} (member : flipped ∈ stepBits)
    (flip : FlippedAt flipped data data') (buff : Nat → UInt8) (p : Nat) :
    nandCorrectStep softEccDataLen buff p (hammingCode data)
        (hammingCode data') =
      ((1 : Int), Function.update buff (p + flipped.1)
        (buff (p + flipped.1) ^^^ (1 <<< UInt8.ofNat flipped.2))) := by
  obtain ⟨byte, bit⟩ := flipped
  obtain ⟨inStep, inByte⟩ := mem_stepBits.mp member
  obtain ⟨code0, code1, code2⟩ := hammingCode_flipped member flip
  obtain ⟨pairs0, pairs1, address⟩ := rows_spell byte inStep
  obtain ⟨pairs2, column⟩ := columns_spell bit inByte
  -- Rows do not depend on the bit, columns not on the byte.
  have row1 : difference inRow (byte, bit) = difference inRow (byte, 0) := rfl
  have row0 : difference (fun i => inRow (8 + i)) (byte, bit) =
      difference (fun i => inRow (8 + i)) (byte, 0) := rfl
  have col2 : difference
      (fun i place => decide (2 ≤ i) && inColumn (i - 2) place) (byte, bit) =
      difference
        (fun i place => decide (2 ≤ i) && inColumn (i - 2) place)
        (0, bit) := rfl
  rw [row0] at code0
  rw [row1] at code1
  rw [col2] at code2
  have some : difference inRow (byte, 0) ≠ 0 := by
    intro none
    rw [none] at pairs0
    exact absurd pairs0 (by decide)
  have mult : softEccDataLen >>> 8 = 1 := rfl
  unfold nandCorrectStep
  simp only [code0, code1, code2, mult]
  rw [if_neg, if_pos]
  · simp only [if_true, address, column]
  · exact ⟨pairs0, pairs1, .inl ⟨trivial, pairs2⟩⟩
  · intro none
    exact some (UInt8.or_eq_zero_iff.mp (UInt8.or_eq_zero_iff.mp none).1).1

theorem nandCorrectStep_same (eccsize : Nat) (code : EccCode)
    (buff : Nat → UInt8) (p : Nat) :
    nandCorrectStep eccsize buff p code code = (0, buff) := by
  simp [nandCorrectStep]

end Witos.Flash
