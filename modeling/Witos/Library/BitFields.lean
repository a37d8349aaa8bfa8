import Mathlib.Data.Nat.Bitwise

/-!
# Numbers packed into words

A row of words is a row of bits, the least significant bit of each word first.
A field is a number in some of these bits; it may lie in two words.
-/

namespace Witos.Library.BitFields

variable {size : Nat}

/-- The bit at a position. -/
def bitAt (words : Nat → BitVec size) (position : Nat) : Bool :=
  (words (position / size)).getLsbD (position % size)

/-- The number in some bits from a position on. -/
def numberAt (words : Nat → BitVec size) (start width : Nat) : Nat :=
  Nat.ofBits fun i : Fin width => bitAt words (start + i)

/-- The bits of one field are combined with those of a number, and all others
are as before. -/
def Changes (op : Bool → Bool → Bool) (start width value : Nat)
    (before after : Nat → BitVec size) : Prop :=
  ∀ position, bitAt after position =
    if start ≤ position ∧ position < start + width then
      op (bitAt before position) (value.testBit (position - start))
    else bitAt before position

theorem testBit_numberAt (words : Nat → BitVec size) (start width i : Nat) :
    (numberAt words start width).testBit i =
      (decide (i < width) && bitAt words (start + i)) := by
  unfold numberAt
  by_cases inside : i < width
  · rw [Nat.testBit_ofBits_lt _ _ inside]
    simp [inside]
  · rw [Nat.testBit_ofBits_ge _ _ (Nat.le_of_not_lt inside)]
    simp [inside]

theorem numberAt_lt (words : Nat → BitVec size) (start width : Nat) :
    numberAt words start width < 2 ^ width := by
  apply Nat.lt_pow_two_of_testBit
  intro i large
  rw [testBit_numberAt]
  simp [Nat.not_lt_of_le large]

theorem numberAt_congr {left right : Nat → BitVec size} {start width : Nat}
    (same : ∀ i < width, bitAt left (start + i) = bitAt right (start + i)) :
    numberAt left start width = numberAt right start width := by
  apply Nat.eq_of_testBit_eq
  intro i
  rw [testBit_numberAt, testBit_numberAt]
  by_cases inside : i < width
  · rw [same i inside]
  · simp [inside]

theorem numberAt_of_inside (words : Nat → BitVec size) {start width : Nat}
    (inside : start % size + width ≤ size) :
    numberAt words start width =
      (words (start / size) >>> (start % size)).toNat % 2 ^ width := by
  apply Nat.eq_of_testBit_eq
  intro i
  rw [testBit_numberAt, Nat.testBit_mod_two_pow, BitVec.testBit_toNat,
    BitVec.getLsbD_ushiftRight]
  by_cases below : i < width
  · have place : start + i = size * (start / size) + (start % size + i) := by
      rw [← Nat.add_assoc, Nat.div_add_mod]
    have within : start % size + i < size := by omega
    have word : (start + i) / size = start / size := by
      rw [place, Nat.mul_add_div (by omega), Nat.div_eq_of_lt within,
        Nat.add_zero]
    have bit : (start + i) % size = start % size + i := by
      rw [place, Nat.mul_add_mod, Nat.mod_eq_of_lt within]
    rw [bitAt, word, bit]
  · simp [below]

theorem place_of {start index shift : Nat}
    (begin : start = size * index + shift) (begins : shift < size) :
    start / size = index ∧ start % size = shift := by
  subst begin
  constructor
  · rw [Nat.mul_add_div (Nat.zero_lt_of_lt begins), Nat.div_eq_of_lt begins,
      Nat.add_zero]
  · rw [Nat.mul_add_mod, Nat.mod_eq_of_lt begins]

theorem getLsbD_shifted (value shift : Nat) {i : Nat} (within : i < size) :
    (BitVec.ofNat size (value <<< shift)).getLsbD i =
      (decide (shift ≤ i) && value.testBit (i - shift)) := by
  rw [BitVec.getLsbD_ofNat, Nat.testBit_shiftLeft, decide_eq_true within,
    Bool.true_and]

theorem testBit_outside {value width shift i : Nat} (small : value < 2 ^ width)
    (outside : ¬(shift ≤ i ∧ i < shift + width)) :
    (decide (shift ≤ i) && value.testBit (i - shift)) = false := by
  by_cases begun : shift ≤ i
  · have high : 2 ^ width ≤ 2 ^ (i - shift) := by
      apply Nat.pow_le_pow_right Nat.zero_lt_two
      omega
    rw [Nat.testBit_lt_two_pow (Nat.lt_of_lt_of_le small high), Bool.and_false]
  · rw [decide_eq_false begun, Bool.false_and]

section Changes

variable {op : Bool → Bool → Bool} {start width value : Nat}
  {before after : Nat → BitVec size}

theorem Changes.testBit (changes : Changes op start width value before after)
    (i : Nat) :
    (numberAt after start width).testBit i =
      (decide (i < width) &&
        op ((numberAt before start width).testBit i) (value.testBit i)) := by
  rw [testBit_numberAt, testBit_numberAt, changes]
  by_cases inside : i < width
  · have place : start ≤ start + i ∧ start + i < start + width := by omega
    simp [inside, place]
  · simp [inside]

theorem Changes.numberAt_outside
    (changes : Changes op start width value before after) {other width' : Nat}
    (apart : other + width' ≤ start ∨ start + width ≤ other) :
    numberAt after other width' = numberAt before other width' := by
  apply numberAt_congr
  intro i inside
  have outside :
      ¬(start ≤ other + i ∧ other + i < start + width) := by omega
  rw [changes, if_neg outside]

theorem Changes.numberAt_or
    (changes : Changes or start width value before after)
    (small : value < 2 ^ width) :
    numberAt after start width = numberAt before start width ||| value := by
  apply Nat.eq_of_testBit_eq
  intro i
  rw [changes.testBit, Nat.testBit_or]
  by_cases inside : i < width
  · simp [inside]
  · have high : 2 ^ width ≤ 2 ^ i :=
      Nat.pow_le_pow_right Nat.zero_lt_two (Nat.le_of_not_lt inside)
    rw [testBit_numberAt,
      Nat.testBit_lt_two_pow (Nat.lt_of_lt_of_le small high)]
    simp [inside]

/-- The field after bits are cleared in one whose bits are all set. -/
theorem Changes.numberAt_clear
    (changes : Changes (fun old bit => old && !bit) start width value before
      after)
    (full : numberAt before start width = 2 ^ width - 1)
    (small : value < 2 ^ width) :
    numberAt after start width = 2 ^ width - 1 - value := by
  have form : 2 ^ width - 1 - value = 2 ^ width - (value + 1) := by omega
  apply Nat.eq_of_testBit_eq
  intro i
  rw [changes.testBit, full, form, Nat.testBit_two_pow_sub_succ small,
    Nat.testBit_two_pow_sub_one]
  cases decide (i < width) <;> rfl

theorem Changes.trans {low high : Nat} {between : Nat → BitVec size}
    (first : Changes op start low value before between)
    (second : Changes op (start + low) high (value >>> low) between after) :
    Changes op start (low + high) value before after := by
  intro position
  rw [second]
  by_cases isLow : position < start + low
  · have notHigh : ¬(start + low ≤ position ∧
        position < start + low + high) := by omega
    rw [if_neg notHigh, first]
    by_cases begun : start ≤ position
    · rw [if_pos ⟨begun, isLow⟩, if_pos (by omega)]
    · rw [if_neg (by omega), if_neg (by omega)]
  · have notLow : ¬(start ≤ position ∧ position < start + low) := by omega
    rw [first, if_neg notLow]
    by_cases inside : position < start + low + high
    · have bit : low + (position - (start + low)) = position - start := by
        omega
      rw [if_pos (by omega), if_pos (by omega), Nat.testBit_shiftRight, bit]
    · rw [if_neg (by omega), if_neg (by omega)]

theorem bitAt_update (words : Nat → BitVec size) (index : Nat)
    (word : BitVec size) (position : Nat) :
    bitAt (Function.update words index word) position =
      if position / size = index then word.getLsbD (position % size)
      else bitAt words position := by
  unfold bitAt
  rw [Function.update_apply]
  split <;> rfl

theorem changes_update {words : Nat → BitVec size} {word : BitVec size}
    (inside : start % size + width ≤ size)
    (bits : ∀ i < size, word.getLsbD i =
      if start % size ≤ i ∧ i < start % size + width then
        op ((words (start / size)).getLsbD i)
          (value.testBit (i - start % size))
      else (words (start / size)).getLsbD i) :
    Changes op start width value words
      (Function.update words (start / size) word) := by
  intro position
  rw [bitAt_update]
  have begin := Nat.div_add_mod start size
  have whole := Nat.div_add_mod position size
  by_cases same : position / size = start / size
  · rw [if_pos same]
    rw [same] at whole
    by_cases some_ : size = 0
    · subst some_
      have none_ : width = 0 := by omega
      subst none_
      rw [if_neg (by omega), bitAt, BitVec.getLsbD_of_ge _ _ (Nat.zero_le _),
        BitVec.getLsbD_of_ge _ _ (Nat.zero_le _)]
    · have within := Nat.mod_lt position (Nat.pos_of_ne_zero some_)
      have place : position - start = position % size - start % size ∨
          position < start := by omega
      rw [bits _ within]
      unfold bitAt
      rw [same]
      by_cases isInside : start ≤ position ∧ position < start + width
      · have bit : position - start = position % size - start % size := by
          omega
        rw [if_pos isInside, if_pos (by omega), bit]
      · rw [if_neg isInside, if_neg (by omega)]
  · rw [if_neg same, if_neg]
    rintro ⟨begun, ends⟩
    apply same
    have some_ : 0 < size := by
      by_contra none_
      have zero : size = 0 := by omega
      subst zero
      omega
    have low : start / size ≤ position / size := Nat.div_le_div_right begun
    have high : position / size ≤ start / size := by
      rw [Nat.div_le_iff_le_mul_add_pred some_]
      omega
    omega

theorem changes_or {words : Nat → BitVec size} {index shift : Nat}
    (begin : start = size * index + shift) (inside : shift + width ≤ size)
    (begins : shift < size) (small : value < 2 ^ width) :
    Changes or start width value words (Function.update words index
      (words index ||| BitVec.ofNat size (value <<< shift))) := by
  obtain ⟨word, place⟩ := place_of begin begins
  rw [← word]
  apply changes_update (by rw [place]; exact inside)
  intro i within
  rw [BitVec.getLsbD_or, getLsbD_shifted _ _ within, place]
  by_cases isInside : shift ≤ i ∧ i < shift + width
  · simp [isInside]
  · rw [if_neg isInside, testBit_outside small isInside, Bool.or_false]

theorem changes_clear {words : Nat → BitVec size} {index shift : Nat}
    (begin : start = size * index + shift) (inside : shift + width ≤ size)
    (begins : shift < size) (small : value < 2 ^ width) :
    Changes (fun old bit => old && !bit) start width value words
      (Function.update words index
        (words index &&& ~~~BitVec.ofNat size (value <<< shift))) := by
  obtain ⟨word, place⟩ := place_of begin begins
  rw [← word]
  apply changes_update (by rw [place]; exact inside)
  intro i within
  rw [BitVec.getLsbD_and, BitVec.getLsbD_not, getLsbD_shifted _ _ within,
    place, decide_eq_true within, Bool.true_and]
  by_cases isInside : shift ≤ i ∧ i < shift + width
  · simp [isInside]
  · rw [if_neg isInside, testBit_outside small isInside, Bool.not_false,
      Bool.and_true]

end Changes

/-- A row of bytes. -/
def byteRow (bytes : Nat → UInt8) : Nat → BitVec 8 :=
  fun index => (bytes index).toBitVec

theorem byteRow_update (bytes : Nat → UInt8) (index : Nat) (byte : UInt8) :
    byteRow (Function.update bytes index byte) =
      Function.update (byteRow bytes) index byte.toBitVec := by
  funext place
  unfold byteRow
  rw [Function.update_apply, Function.update_apply]
  split <;> rfl

/-- A field inside a byte, as `(byte >> shift) & mask`. -/
theorem numberAt_byteRow (bytes : Nat → UInt8) {start index shift width : Nat}
    (begin : start = 8 * index + shift) (inside : shift + width ≤ 8)
    (begins : shift < 8) :
    numberAt (byteRow bytes) start width =
      (bytes index).toNat >>> shift % 2 ^ width := by
  obtain ⟨word, place⟩ := place_of begin begins
  rw [numberAt_of_inside _ (by rw [place]; exact inside), word, place,
    BitVec.toNat_ushiftRight]
  rfl

/-- `bytes[index] |= value << shift`. -/
def orByte (bytes : Nat → UInt8) (index shift value : Nat) : Nat → UInt8 :=
  Function.update bytes index
    (bytes index ||| UInt8.ofNat (value <<< shift))

/-- `bytes[index] &= ~(value << shift)`. -/
def clearByte (bytes : Nat → UInt8) (index shift value : Nat) :
    Nat → UInt8 :=
  Function.update bytes index
    (bytes index &&& ~~~UInt8.ofNat (value <<< shift))

section ByteChanges

variable {start index shift width value : Nat}

theorem changes_orByte (bytes : Nat → UInt8)
    (begin : start = 8 * index + shift) (inside : shift + width ≤ 8)
    (begins : shift < 8) (small : value < 2 ^ width) :
    Changes or start width value (byteRow bytes)
      (byteRow (orByte bytes index shift value)) := by
  rw [orByte, byteRow_update]
  exact changes_or begin inside begins small

theorem changes_clearByte (bytes : Nat → UInt8)
    (begin : start = 8 * index + shift) (inside : shift + width ≤ 8)
    (begins : shift < 8) (small : value < 2 ^ width) :
    Changes (fun old bit => old && !bit) start width value (byteRow bytes)
      (byteRow (clearByte bytes index shift value)) := by
  rw [clearByte, byteRow_update]
  exact changes_clear begin inside begins small

end ByteChanges

end Witos.Library.BitFields
