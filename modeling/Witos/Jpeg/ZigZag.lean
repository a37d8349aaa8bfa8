import Witos.Jpeg.Block

/-!
# The order of the coefficients

The coefficients of a block come in zigzag order.  `Zig_Zag` has 37 where the
order has 31, at row 3 and column 4, so that the coefficient of that position
is lost and the one of row 6 and column 2 is used twice.
-/

namespace Witos.Jpeg

open Library

/-- The place of a position: the diagonals are run through up and down in
turn. -/
def zigZagPlace (i j : Nat) : Nat :=
  let diagonal := i + j
  let before :=
    if diagonal < 8 then diagonal * (diagonal + 1) / 2
    else 64 - (15 - diagonal) * (16 - diagonal) / 2
  before + ((if diagonal % 2 = 0 then j else i) - (diagonal - 7))

/-- The position of a place. -/
def cellAt (n : Nat) : Nat × Nat :=
  (((List.range 64).map fun k => (k / 8, k % 8)).find?
    fun cell => zigZagPlace cell.1 cell.2 = n).getD (0, 0)

/-- A matrix in zigzag order. -/
def scan (matrix : Nat → Nat → Int) : List Int :=
  (List.range 64).map fun n => matrix (cellAt n).1 (cellAt n).2

@[simp] theorem length_scan (matrix : Nat → Nat → Int) :
    (scan matrix).length = 64 := by
  simp [scan]

theorem zigZagPlace_lt : ∀ i < 8, ∀ j < 8, zigZagPlace i j < 64 := by
  decide +kernel

theorem cellAt_zigZagPlace :
    ∀ i < 8, ∀ j < 8, cellAt (zigZagPlace i j) = (i, j) := by
  decide +kernel

/-- All entries of `Zig_Zag` but one are in order. -/
theorem zigZag_eq : ∀ i < 8, ∀ j < 8, (zigZag.getD i []).getD j 0 =
    if i = 3 ∧ j = 4 then zigZagPlace 6 2 else zigZagPlace i j := by
  decide +kernel

theorem scan_zigZagPlace (matrix : Nat → Nat → Int) {i j : Nat} (row : i < 8)
    (column : j < 8) :
    (scan matrix).getD (zigZagPlace i j) 0 = matrix i j := by
  have place := zigZagPlace_lt i row j column
  rw [List.getD_eq_getElem _ _ (by rwa [length_scan])]
  simp only [scan, List.getElem_map, List.getElem_range,
    cellAt_zigZagPlace i row j column]

/-- Every coefficient is multiplied with the quantiser of its position. -/
def Dequantises (stores : List Int) (matrix quantiser : Nat → Nat → Int) :
    Prop :=
  ∀ i < 8, ∀ j < 8,
    dequantised (fun n => stores.getD n 0)
      (fun n => (scan quantiser).getD n 0) i j = matrix i j * quantiser i j

theorem dequantises_iff (matrix quantiser : Nat → Nat → Int) :
    Dequantises (scan matrix) matrix quantiser ↔
      matrix 6 2 * quantiser 6 2 = matrix 3 4 * quantiser 3 4 := by
  have product : ∀ i < 8, ∀ j < 8,
      dequantised (fun n => (scan matrix).getD n 0)
        (fun n => (scan quantiser).getD n 0) i j =
        if i = 3 ∧ j = 4 then matrix 6 2 * quantiser 6 2
        else matrix i j * quantiser i j := by
    intro i row j column
    simp only [dequantised, zigZag_eq i row j column]
    split
    · rw [scan_zigZagPlace matrix (by decide) (by decide),
        scan_zigZagPlace quantiser (by decide) (by decide)]
    · rw [scan_zigZagPlace matrix row column,
        scan_zigZagPlace quantiser row column]
  constructor
  · intro all
    have one := all 3 (by decide) 4 (by decide)
    rwa [product 3 (by decide) 4 (by decide), if_pos ⟨rfl, rfl⟩] at one
  · intro same i row j column
    rw [product i row j column]
    split
    · rename_i position
      rw [position.1, position.2, same]
    · rfl

/-- Of a block that was coded `HufBlock` recovers the coefficients, and the
dequantisation is right exactly if the product that is used twice is also that
of the position that is left out. -/
theorem hufBlock_dequantises_iff (memory : Nat → UInt8) (limit : Nat)
    (tables : Nat → HufTable) (dc ac : HuffmanSpec)
    (loadedDc : Loaded (tables dc.index) dc)
    (loadedAc : Loaded (tables ac.index) ac)
    (matrix quantiser : Nat → Nat → Int) (bits rest : List Bool)
    (coded : Coded dc ac (scan matrix) bits) (reader : BitReader)
    (reading : Reading memory limit reader (bits ++ rest)) :
    ∃ next, hufBlock memory tables dc.index ac.index reader =
        ⟨0, scan matrix, next⟩ ∧
      Reading memory limit next rest ∧
      (Dequantises (hufBlock memory tables dc.index ac.index reader).stores
          matrix quantiser ↔
        matrix 6 2 * quantiser 6 2 = matrix 3 4 * quantiser 3 4) := by
  obtain ⟨next, stored, done⟩ := hufBlock_coded loadedDc loadedAc
    (length_scan matrix) coded reading
  refine ⟨next, stored, done, ?_⟩
  rw [stored]
  exact dequantises_iff matrix quantiser

/-- One code of one bit and two of two bits. -/
def cornerCounts (i : Nat) : UInt8 := [1, 2].getD i 0

theorem cornerCounts_used : ∃ i < 16, cornerCounts i ≠ 0 := ⟨0, by decide⟩

theorem cornerCounts_size :
    3 = codesBefore (row16 fun i => (cornerCounts i).toNat) 16 := by decide

theorem cornerCounts_few : 3 ≤ 256 := by decide

theorem cornerCounts_kraft :
    Kraft (row16 fun i => (cornerCounts i).toNat) 16 := by
  decide

/-- The end of a block in one bit; 16 zeros, and a run of 14 zeros with one bit
behind it, in two. -/
def cornerSpec : HuffmanSpec where
  tableClass := 1
  destination := 0
  counts := cornerCounts
  symbols := [0, 0xf0, 0xe1]
  class_lt := Nat.one_lt_two
  destination_lt := Nat.zero_lt_two
  used := cornerCounts_used
  size := cornerCounts_size
  few := cornerCounts_few
  kraft := cornerCounts_kraft

/-- The static tables with both tables. -/
def cornerTables : Nat → HufTable :=
  cornerSpec.load ((bitSpec 0 Nat.zero_lt_two).load noTables)

theorem cornerTables_dc :
    Loaded (cornerTables (bitSpec 0 Nat.zero_lt_two).index)
      (bitSpec 0 Nat.zero_lt_two) := by
  rw [cornerTables, HuffmanSpec.load, Function.update_of_ne (by decide)]
  exact HuffmanSpec.load_loaded _ _

theorem cornerTables_ac :
    Loaded (cornerTables cornerSpec.index) cornerSpec :=
  cornerSpec.load_loaded _

theorem cornerSpec_encodes_end : cornerSpec.Encodes endOfBlock [false] :=
  ⟨by decide, [false], ⟨0, by decide, 0, by decide, by decide, by decide⟩,
    by decide⟩

/-- A matrix with one coefficient. -/
def single (row column : Nat) (i j : Nat) : Int :=
  if i = row ∧ j = column then 1 else 0

theorem cornerSpec_encodes_one : cornerSpec.Encodes ⟨14, 1⟩
    [true, true, true] :=
  ⟨by decide, [true, true],
    ⟨1, by decide, 1, by decide, by decide, by decide⟩, by decide⟩

theorem cornerSpec_encodes_minus : cornerSpec.Encodes ⟨14, -1⟩
    [true, true, false] :=
  ⟨by decide, [true, true],
    ⟨1, by decide, 1, by decide, by decide, by decide⟩, by decide⟩

/-- The coefficient of the mean, and two more at the places 15 and 30. -/
def threeCoefficients (i j : Nat) : Int :=
  single 0 0 i j - single 0 5 i j + single 2 5 i j

theorem hufBlock_dequantises_iff_three :
    ∃ next, hufBlock (overlay [0xf7, 0] fun _ => 0) cornerTables 0 2
        ⟨0, 0, 0⟩ = ⟨0, scan threeCoefficients, next⟩ ∧
      Dequantises (hufBlock (overlay [0xf7, 0] fun _ => 0) cornerTables 0 2
        ⟨0, 0, 0⟩).stores threeCoefficients (fun i j => 16 + i + 2 * j) := by
  have scanned : scan threeCoefficients =
      1 :: (List.replicate 14 0 ++ -1 :: (List.replicate 14 0 ++
        1 :: List.replicate 33 0)) := by
    decide +kernel
  have coded : Coded (bitSpec 0 Nat.zero_lt_two) cornerSpec
      (scan threeCoefficients) ([true, true] ++
        [[true, true, false], [true, true, true], [false]].flatten) := by
    rw [scanned]
    exact .intro bitSpec_encodes_one (.cons cornerSpec_encodes_minus
      (.cons cornerSpec_encodes_one (.cons cornerSpec_encodes_end .nil)))
  have reading : Reading (overlay [0xf7, 0] fun _ => 0) 2 ⟨0, 0, 0⟩
      ([true, true] ++ [[true, true, false], [true, true, true],
        [false]].flatten ++ List.replicate 7 false) :=
    ⟨[0xf7, 0], ⟨lies_overlay _ _, rfl, by decide, by decide⟩, by decide⟩
  obtain ⟨next, stored, -, right⟩ := hufBlock_dequantises_iff _ 2 cornerTables
    _ _ cornerTables_dc cornerTables_ac threeCoefficients
    (fun i j => 16 + i + 2 * j) _ _ coded _ reading
  exact ⟨next, stored, right.mpr (by decide)⟩

/-- The only coefficient is at row 3 and column 4. -/
theorem not_hufBlock_dequantises :
    ¬∀ (memory : Nat → UInt8) (limit : Nat) (tables : Nat → HufTable)
        (dc ac : HuffmanSpec), Loaded (tables dc.index) dc →
      Loaded (tables ac.index) ac →
      ∀ (matrix quantiser : Nat → Nat → Int) (bits rest : List Bool),
        Coded dc ac (scan matrix) bits →
        ∀ reader, Reading memory limit reader (bits ++ rest) →
          Dequantises (hufBlock memory tables dc.index ac.index reader).stores
            matrix quantiser := by
  intro always
  have scanned : scan (single 3 4) =
      0 :: (List.replicate 30 0 ++ 1 :: List.replicate 32 0) := by
    decide +kernel
  have zeros : cornerSpec.Encodes ⟨15, 0⟩ [true, false] :=
    ⟨by decide, [true, false],
      ⟨1, by decide, 0, by decide, by decide, by decide⟩, by decide⟩
  have coded : Coded (bitSpec 0 Nat.zero_lt_two) cornerSpec (scan (single 3 4))
      ([false] ++ [[true, false], [true, true, true], [false]].flatten) := by
    rw [scanned]
    exact .intro bitSpec_encodes_zero
      (.cons zeros (.cons cornerSpec_encodes_one
        (.cons cornerSpec_encodes_end .nil)))
  have reading : Reading (overlay [0x5c] fun _ => 0) 1 ⟨0, 0, 0⟩
      ([false] ++ [[true, false], [true, true, true], [false]].flatten ++
        [false]) :=
    ⟨[0x5c], ⟨lies_overlay _ _, rfl, by decide, by decide⟩, by decide⟩
  have all := always _ 1 cornerTables _ _ cornerTables_dc cornerTables_ac
    (single 3 4) (fun _ _ => 1) _ _ coded _ reading
  obtain ⟨next, stored, -⟩ := hufBlock_coded cornerTables_dc cornerTables_ac
    (length_scan _) coded reading
  rw [stored, dequantises_iff] at all
  exact absurd all (by decide)

end Witos.Jpeg
