import Mathlib.Data.Nat.Size
import Witos.Jpeg.BitStream
import Witos.Jpeg.DhtSegment

/-!
# Decoding Huffman codes

`decode_element` compares the bits read so far with the least and the greatest
code of their length.  With the tables of a canonical code it stops behind the
code of the symbol, and reads the value behind it.
-/

namespace Witos.Jpeg

open Library

/-- The bits that a value needs besides its sign. -/
def magnitudeSize (value : Int) : Nat := Nat.size value.natAbs

/-- A negative value is stored less one. -/
def magnitudeBits (value : Int) : List Bool :=
  toBits (magnitudeSize value)
    (if 0 ≤ value then value.natAbs
     else 2 ^ magnitudeSize value - 1 - value.natAbs)

/-- A run of zeros and the value behind it. -/
structure Element where
  run : Nat
  value : Int
  deriving DecidableEq

namespace Element

def symbol (element : Element) : Nat :=
  element.run * 16 + magnitudeSize element.value

end Element

/-- A code of a symbol: the word at the place of the symbol. -/
def HuffmanSpec.Codes (spec : HuffmanSpec) (symbol : Nat)
    (bits : List Bool) : Prop :=
  ∃ l < 16, ∃ place < spec.count l,
    (spec.symbols.getD (codesBefore spec.count l + place) 0).toNat = symbol ∧
    bits = codeWord spec.count l place

/-- The bits of an element: a code of its symbol, and the value. -/
def HuffmanSpec.Encodes (spec : HuffmanSpec) (element : Element)
    (bits : List Bool) : Prop :=
  magnitudeSize element.value ≤ 15 ∧
    ∃ code, spec.Codes element.symbol code ∧
      bits = code ++ magnitudeBits element.value

@[simp] theorem length_magnitudeBits (value : Int) :
    (magnitudeBits value).length = magnitudeSize value :=
  length_toBits _ _

theorem xor_mask {size number : Nat} (small : number < 2 ^ size)
    (few : size ≤ 15) :
    number ^^^ 0xffff ^^^ 0xffff * 2 ^ size % 2 ^ 16 =
      2 ^ size - 1 - number := by
  have mask : ∀ size ≤ 15,
      0xffff ^^^ 0xffff * 2 ^ size % 2 ^ 16 = 2 ^ size - 1 := by decide
  rw [Nat.xor_assoc, mask size few, Nat.sub_sub, Nat.add_comm 1]
  apply Nat.eq_of_testBit_eq
  intro place
  rw [Nat.testBit_xor, Nat.testBit_two_pow_sub_one,
    Nat.testBit_two_pow_sub_succ small]
  by_cases inside : place < size
  · simp [inside]
  · have high : number.testBit place = false := by
      apply Nat.testBit_lt_two_pow
      apply Nat.lt_of_lt_of_le small
      exact Nat.pow_le_pow_right (by decide) (by omega)
    simp [inside, high]

theorem extendValue_magnitude {value : Int} (some : 0 < magnitudeSize value)
    (few : magnitudeSize value ≤ 15) :
    extendValue (magnitudeSize value) (ofBits (magnitudeBits value)) =
      value := by
  have above : value.natAbs < 2 ^ magnitudeSize value := Nat.lt_size_self _
  have below : 2 ^ (magnitudeSize value - 1) ≤ value.natAbs := by
    apply Nat.lt_size.mp
    exact Nat.sub_lt some (by decide)
  have twice : 2 ^ magnitudeSize value =
      2 * 2 ^ (magnitudeSize value - 1) := by
    rw [← Nat.pow_succ']
    congr 1
    omega
  have limit : 2 ^ magnitudeSize value ≤ 2 ^ 15 :=
    Nat.pow_le_pow_right (by decide) few
  rw [magnitudeBits, extendValue]
  by_cases positive : 0 ≤ value
  · rw [if_pos positive, ofBits_toBits_of_lt above]
    have leading : value.natAbs / 2 ^ (magnitudeSize value - 1) = 1 := by
      apply Nat.div_eq_of_lt_le
      · omega
      · omega
    rw [leading, if_pos (by decide), toShort, if_pos (by omega)]
    omega
  · have stored : 2 ^ magnitudeSize value - 1 - value.natAbs <
        2 ^ magnitudeSize value := by omega
    have leading : (2 ^ magnitudeSize value - 1 - value.natAbs) /
        2 ^ (magnitudeSize value - 1) = 0 :=
      Nat.div_eq_of_lt (by omega)
    rw [if_neg positive, ofBits_toBits_of_lt stored, leading,
      if_neg (by decide), xor_mask stored few, toShort, if_pos (by omega)]
    omega

theorem firstLength_spec {codeLen : Nat → Nat}
    (used : ∃ i < 16, codeLen i ≠ 0) :
    firstLength codeLen < 16 ∧ codeLen (firstLength codeLen) ≠ 0 ∧
      ∀ i < firstLength codeLen, codeLen i = 0 := by
  cases found : (List.range 16).find? fun i => codeLen i ≠ 0 with
  | none =>
      obtain ⟨i, inside, nonzero⟩ := used
      have zero := List.find?_eq_none.mp found i (List.mem_range.mpr inside)
      exact absurd (by simpa using zero) nonzero
  | some first =>
      have first_eq : firstLength codeLen = first := by
        rw [firstLength, found]
        rfl
      obtain ⟨nonzero, member, earlier⟩ :=
        List.find?_range_eq_some.mp found
      rw [first_eq]
      refine ⟨List.mem_range.mp member, by simpa using nonzero, ?_⟩
      intro i before
      simpa using earlier i before

/-- The 16-bit loop computes the first code and the last of each length. -/
theorem hufBounds_eq {codeLen : Nat → Nat} {first : Nat}
    (zero : ∀ i < first, codeLen i = 0) {j : Nat} (from_first : first ≤ j) :
    hufBounds codeLen first j =
      (firstCode codeLen j % 2 ^ 16,
        (firstCode codeLen j + codeLen j + 65535) % 2 ^ 16) := by
  have start : ∀ i ≤ first, firstCode codeLen i = 0 := by
    intro i before
    induction i with
    | zero => rfl
    | succ i induction =>
        rw [firstCode, induction (by omega), zero i (by omega)]
  induction j, from_first using Nat.le_induction with
  | base =>
      rw [start first (Nat.le_refl _)]
      cases first with
      | zero => simp [hufBounds]
      | succ first => simp [hufBounds]
  | succ j later induction =>
      rw [hufBounds, if_neg (by omega), if_neg (by omega), induction]
      simp only [firstCode, Prod.mk.injEq]
      omega

/-- A row of the static tables with a Huffman table. -/
structure Loaded (table : HufTable) (spec : HuffmanSpec) : Prop where
  codeLen : ∀ l < 16, table.codeLen l = spec.count l
  least : ∀ l < 16, spec.count l ≠ 0 →
    table.hufMinValue l = firstCode spec.count l
  greatest : ∀ l < 16, spec.count l ≠ 0 →
    table.hufMaxValue l + 1 = firstCode spec.count l + spec.count l
  codePos : ∀ l < 16, table.codePos l = codesBefore spec.count l
  codeValue : ∀ n < spec.symbols.length,
    table.codeValue n = (spec.symbols.getD n 0).toNat

theorem HuffmanSpec.count_used (spec : HuffmanSpec) :
    ∃ i < 16, spec.count i ≠ 0 := by
  obtain ⟨i, inside, nonzero⟩ := spec.used
  refine ⟨i, inside, ?_⟩
  rw [count, row16, if_pos inside]
  intro zero
  exact nonzero (UInt8.toNat_inj.mp zero)

theorem HuffmanSpec.row_loaded (spec : HuffmanSpec) (table : HufTable) :
    Loaded (spec.row table) spec := by
  obtain ⟨-, -, zero⟩ := firstLength_spec spec.count_used
  have bounds : ∀ l < 16, spec.count l ≠ 0 →
      hufBounds spec.count (firstLength spec.count) l =
        (firstCode spec.count l,
          firstCode spec.count l + spec.count l - 1) := by
    intro l inside nonzero
    have later : firstLength spec.count ≤ l := by
      by_contra before
      exact nonzero (zero l (by omega))
    have fits := spec.kraft.fits inside
    have power : 2 ^ (l + 1) ≤ 2 ^ 16 :=
      Nat.pow_le_pow_right (by decide) inside
    change firstCode spec.count l + spec.count l ≤ _ at fits
    rw [hufBounds_eq zero later]
    simp only [Prod.mk.injEq]
    omega
  constructor
  · intro l inside
    rfl
  · intro l inside nonzero
    simp only [row, row16, if_pos inside, bounds l inside nonzero]
  · intro l inside nonzero
    simp only [row, row16, if_pos inside, bounds l inside nonzero]
    omega
  · intro l inside
    simp only [row, row16, if_pos inside]
  · intro n inside
    simp only [row, if_pos inside]

theorem HuffmanSpec.load_loaded (spec : HuffmanSpec)
    (tables : Nat → HufTable) :
    Loaded (spec.load tables spec.index) spec := by
  rw [load, Function.update_self]
  exact spec.row_loaded _

/-- What makes the loop go on. -/
def HufTable.Misses (table : HufTable) (codelen thiscode : Nat) : Prop :=
  thiscode < table.hufMinValue (codelen - 1) ∨
    table.codeLen (codelen - 1) = 0 ∨
    table.hufMaxValue (codelen - 1) < thiscode

theorem searchCode_found {memory : Nat → UInt8} {table : HufTable}
    {left codelen thiscode : Nat} {reader : BitReader}
    (found : ¬table.Misses codelen thiscode) :
    searchCode memory table left codelen thiscode reader =
      some (thiscode, codelen, reader) := by
  unfold HufTable.Misses at found
  unfold searchCode
  rw [if_neg found]

theorem searchCode_longer {memory : Nat → UInt8} {table : HufTable}
    {left codelen thiscode : Nat} {reader : BitReader}
    (misses : table.Misses codelen thiscode) :
    searchCode memory table (left + 1) codelen thiscode reader =
      searchCode memory table left (codelen + 1)
        (2 * thiscode + (takeBit memory reader).1)
        (takeBit memory reader).2 := by
  unfold HufTable.Misses at misses
  rw [searchCode.eq_def]
  simp only [if_pos misses]

theorem div_pow_succ (number left : Nat) :
    number / 2 ^ left =
      2 * (number / 2 ^ (left + 1)) + (number.testBit left).toNat := by
  rw [Nat.testBit_eq_decide_div_mod_eq, Nat.pow_succ,
    ← Nat.div_div_eq_div_mul]
  rcases Nat.mod_two_eq_zero_or_one (number / 2 ^ left) with even | odd
  · simp [even]
    omega
  · simp [odd]
    omega

section Loaded

variable {memory : Nat → UInt8} {limit : Nat} {table : HufTable}
  {spec : HuffmanSpec} (loaded : Loaded table spec)

include loaded

theorem misses_prefix {k l : Nat} (inside : l < 16) (shorter : k < l)
    (place : Nat) :
    table.Misses (k + 1)
      ((firstCode spec.count l + place) / 2 ^ (l - k)) := by
  have above := le_prefix_of_lt spec.count shorter place
  rw [HufTable.Misses, Nat.add_sub_cancel, loaded.codeLen k (by omega)]
  by_cases nonzero : spec.count k = 0
  · exact .inr (.inl nonzero)
  · have greatest := loaded.greatest k (by omega) nonzero
    exact .inr (.inr (by omega))

theorem not_misses_code {l place : Nat} (inside : l < 16)
    (among : place < spec.count l) :
    ¬table.Misses (l + 1) (firstCode spec.count l + place) := by
  have nonzero : spec.count l ≠ 0 := by omega
  have greatest := loaded.greatest l inside nonzero
  rw [HufTable.Misses, Nat.add_sub_cancel, loaded.least l inside nonzero,
    loaded.codeLen l inside]
  omega

/-- The loop goes on up to the length of the code, of which all but `left` bits
have been read. -/
theorem searchCode_reading {l place : Nat} (inside : l < 16)
    (among : place < spec.count l) {rest : List Bool} {left : Nat}
    (remains : left ≤ l) {reader : BitReader}
    (reading : Reading memory limit reader
      (toBits left (firstCode spec.count l + place) ++ rest)) :
    ∃ next, searchCode memory table (15 - (l - left)) (l - left + 1)
        ((firstCode spec.count l + place) / 2 ^ left) reader =
        some (firstCode spec.count l + place, l + 1, next) ∧
      Reading memory limit next rest := by
  induction left generalizing reader with
  | zero =>
      refine ⟨reader, ?_, reading⟩
      rw [Nat.pow_zero, Nat.div_one]
      exact searchCode_found (not_misses_code loaded inside among)
  | succ left induction =>
      obtain ⟨next, taken, after⟩ := takeBit_reading reading
      obtain ⟨final, found, done⟩ := induction (by omega) after
      refine ⟨final, ?_, done⟩
      have more : 15 - (l - (left + 1)) = 15 - (l - left) + 1 := by omega
      have longer : l - (left + 1) + 1 = l - left := by omega
      have behind : l - (l - (left + 1)) = left + 1 := by omega
      have misses := misses_prefix loaded (k := l - (left + 1)) inside
        (by omega) place
      rw [behind] at misses
      rw [more, searchCode_longer misses, taken, longer, ← div_pow_succ]
      exact found

theorem codeValue_code {l place : Nat} (inside : l < 16)
    (among : place < spec.count l) :
    table.codeValue ((firstCode spec.count l + place -
        table.hufMinValue (l + 1 - 1) + table.codePos (l + 1 - 1)) % 2 ^ 16) =
      (spec.symbols.getD (codesBefore spec.count l + place) 0).toNat := by
  have nonzero : spec.count l ≠ 0 := by omega
  have total : spec.symbols.length = codesBefore spec.count 16 := spec.size
  have few := spec.few
  have mono := codesBefore_mono spec.count (show l + 1 ≤ 16 from inside)
  have next : codesBefore spec.count (l + 1) =
      spec.count l + codesBefore spec.count l := rfl
  have temp : (firstCode spec.count l + place - firstCode spec.count l +
      codesBefore spec.count l) % 2 ^ 16 =
        codesBefore spec.count l + place := by omega
  rw [Nat.add_sub_cancel, loaded.least l inside nonzero,
    loaded.codePos l inside, temp, loaded.codeValue _ (by omega)]

/-- `decode_element` takes the bits of an element and nothing more. -/
theorem decodeElement_reading {element : Element} {bits rest : List Bool}
    (encodes : spec.Encodes element bits) {reader : BitReader}
    (reading : Reading memory limit reader (bits ++ rest)) :
    ∃ next, decodeElement memory table reader =
        some ((element.run, element.value), next) ∧
      Reading memory limit next rest := by
  obtain ⟨few, code, ⟨l, inside, place, among, symbol, rfl⟩, rfl⟩ := encodes
  rw [codeWord, List.append_assoc] at reading
  obtain ⟨first, taken, after⟩ := takeBit_reading reading
  obtain ⟨next, found, behind⟩ := searchCode_reading loaded inside among
    (Nat.le_refl l) after
  have fits := spec.kraft.fits inside
  change firstCode spec.count l + spec.count l ≤ _ at fits
  have leading := div_pow_succ (firstCode spec.count l + place) l
  rw [Nat.div_eq_of_lt (a := firstCode spec.count l + place)
    (b := 2 ^ (l + 1)) (by omega), Nat.mul_zero, Nat.zero_add] at leading
  rw [Nat.sub_self, leading] at found
  have small := (spec.symbols.getD
    (codesBefore spec.count l + place) 0).toNat_lt
  rw [Element.symbol] at symbol
  have whole : (element.run * 16 + magnitudeSize element.value) % 256 =
      element.run * 16 + magnitudeSize element.value := by omega
  have run : (element.run * 16 + magnitudeSize element.value) / 16 =
      element.run := by omega
  have size : (element.run * 16 + magnitudeSize element.value) % 16 =
      magnitudeSize element.value := by omega
  rw [decodeElement, taken]
  simp only [found, codeValue_code loaded inside among, symbol, whole, run,
    size]
  by_cases zero : magnitudeSize element.value = 0
  · have value : element.value = 0 :=
      Int.natAbs_eq_zero.mp (Nat.size_eq_zero.mp zero)
    have nothing : magnitudeBits element.value = [] :=
      List.eq_nil_of_length_eq_zero (by rw [length_magnitudeBits, zero])
    rw [nothing] at behind
    rw [if_pos zero, value]
    exact ⟨next, rfl, behind⟩
  · obtain ⟨final, extra, done⟩ := readExtra_reading
      (by rw [length_magnitudeBits]; omega)
      (by rw [length_magnitudeBits]; omega) behind
    rw [length_magnitudeBits] at extra
    rw [if_neg zero, extra]
    refine ⟨final, ?_, done⟩
    simp only [extendValue_magnitude (Nat.pos_of_ne_zero zero) few]

end Loaded

/-- `decode_element` called again and again. -/
def decodeElements (memory : Nat → UInt8) (table : HufTable) :
    Nat → BitReader → Option (List Element × BitReader)
  | 0, reader => some ([], reader)
  | count + 1, reader =>
      match decodeElement memory table reader with
      | none => none
      | some ((rrun, vvalue), reader) =>
          (decodeElements memory table count reader).map
            fun (elements, reader) => (⟨rrun, vvalue⟩ :: elements, reader)

theorem decodeElements_reading {memory : Nat → UInt8} {limit : Nat}
    {table : HufTable} {spec : HuffmanSpec} (loaded : Loaded table spec)
    {elements : List Element} {codes : List (List Bool)}
    (encodes : List.Forall₂ spec.Encodes elements codes)
    {rest : List Bool} {reader : BitReader}
    (reading : Reading memory limit reader (codes.flatten ++ rest)) :
    ∃ next, decodeElements memory table elements.length reader =
        some (elements, next) ∧ Reading memory limit next rest := by
  induction encodes generalizing reader with
  | nil => exact ⟨reader, rfl, reading⟩
  | cons first later induction =>
      rw [List.flatten_cons, List.append_assoc] at reading
      obtain ⟨middle, taken, after⟩ :=
        decodeElement_reading loaded first reading
      obtain ⟨next, others, done⟩ := induction after
      refine ⟨next, ?_, done⟩
      rw [List.length_cons, decodeElements, taken]
      simp only [others, Option.map_some]

/-- A table that a segment of its own has loaded decodes every list of elements
from the bits of their codes, and takes just these bits. -/
theorem decodeElements_initTagDht (memory : Nat → UInt8) (lp : Nat)
    (spec : HuffmanSpec) (segment : Segment memory lp [spec])
    (tables : Nat → HufTable) :
    ∃ after, initTagDht memory 2 lp tables =
        some (lp + (segmentBytes [spec]).length, after) ∧
      ∀ (stream : Nat → UInt8) (limit : Nat) (reader : BitReader)
        (elements : List Element) (codes : List (List Bool))
        (rest : List Bool), List.Forall₂ spec.Encodes elements codes →
        Reading stream limit reader (codes.flatten ++ rest) →
        ∃ next, decodeElements stream (after spec.index) elements.length
            reader = some (elements, next) ∧
          Reading stream limit next rest := by
  refine ⟨_, initTagDht_single segment tables, ?_⟩
  intro stream limit reader elements codes rest encodes reading
  exact decodeElements_reading (spec.load_loaded tables) encodes reading

theorem bitSpec_encodes_one : (bitSpec 0 Nat.zero_lt_two).Encodes ⟨0, 1⟩
    [true, true] :=
  ⟨by decide, [true], ⟨0, by decide, 1, by decide, by decide, by decide⟩,
    by decide⟩

theorem bitSpec_encodes_zero : (bitSpec 0 Nat.zero_lt_two).Encodes ⟨0, 0⟩
    [false] :=
  ⟨by decide, [false], ⟨0, by decide, 0, by decide, by decide, by decide⟩,
    by decide⟩

/-- The bits of four ones fill a byte, behind which a byte is stuffed. -/
theorem decodeElements_initTagDht_ones :
    ∃ after next, initTagDht (segmentMemory [bitSpec 0 Nat.zero_lt_two]) 2 0
        noTables = some (21, after) ∧
      decodeElements (overlay [0xff, 0, 0] fun _ => 0) (after 0) 5
        ⟨0, 0, 0⟩ = some ([⟨0, 1⟩, ⟨0, 1⟩, ⟨0, 1⟩, ⟨0, 1⟩, ⟨0, 0⟩], next) ∧
      Reading (overlay [0xff, 0, 0] fun _ => 0) 3 next
        (List.replicate 7 false) := by
  obtain ⟨after, loaded, decodes⟩ := decodeElements_initTagDht _ 0
    (bitSpec 0 Nat.zero_lt_two) ⟨lies_overlay _ _, by decide⟩ noTables
  have one := bitSpec_encodes_one
  have reading : Reading (overlay [0xff, 0, 0] fun _ => 0) 3 ⟨0, 0, 0⟩
      ([[true, true], [true, true], [true, true], [true, true],
        [false]].flatten ++ List.replicate 7 false) :=
    ⟨[0xff, 0], ⟨lies_overlay _ _, rfl, by decide, by decide⟩, by decide⟩
  obtain ⟨next, decoded, rest⟩ := decodes _ 3 ⟨0, 0, 0⟩ _ _ _
    (.cons one (.cons one (.cons one (.cons one
      (.cons bitSpec_encodes_zero .nil))))) reading
  exact ⟨after, next, loaded, decoded, rest⟩

end Witos.Jpeg
