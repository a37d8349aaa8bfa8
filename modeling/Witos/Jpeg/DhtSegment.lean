import Witos.Jpeg.Huffman
import Witos.Library.Bytes

/-!
# Segments of Huffman tables

The case `M_DHT` of `init_tag` takes a segment of less than `0xd0` bytes for a
segment of one table; in a longer one it loads tables until it finds the first
byte of the next marker.
-/

namespace Witos.Jpeg

open Library

/-- A Huffman table of the baseline process, with its class and destination. -/
structure HuffmanSpec where
  tableClass : Nat
  destination : Nat
  counts : Nat → UInt8
  symbols : List UInt8
  class_lt : tableClass < 2
  destination_lt : destination < 2
  used : ∃ i < 16, counts i ≠ 0
  size : symbols.length = codesBefore (row16 fun i => (counts i).toNat) 16
  few : symbols.length ≤ 256
  kraft : Kraft (row16 fun i => (counts i).toNat) 16

namespace HuffmanSpec

variable (spec : HuffmanSpec)

/-- The number of codes of `i + 1` bits. -/
def count : Nat → Nat := row16 fun i => (spec.counts i).toNat

def selector : UInt8 := UInt8.ofNat (spec.tableClass * 16 + spec.destination)

def index : Nat := spec.tableClass * 2 + spec.destination

/-- The table as a segment carries it. -/
def bytes : List UInt8 :=
  spec.selector :: (slice spec.counts 0 16 ++ spec.symbols)

/-- What the table makes of a row of the static tables. -/
def row (table : HufTable) : HufTable :=
  let bounds := hufBounds spec.count (firstLength spec.count)
  { codeLen := spec.count
    hufMinValue := row16 fun j => (bounds j).1
    hufMaxValue := row16 fun j => (bounds j).2
    codePos := row16 (codesBefore spec.count)
    codeValue := fun n =>
      if n < spec.symbols.length then (spec.symbols.getD n 0).toNat
      else table.codeValue n }

/-- The static tables with the table in its place. -/
def load (tables : Nat → HufTable) : Nat → HufTable :=
  Function.update tables spec.index (spec.row (tables spec.index))

theorem length_bytes : spec.bytes.length = spec.symbols.length + 17 := by
  simp [bytes]
  omega

theorem selector_toNat :
    spec.selector.toNat = spec.tableClass * 16 + spec.destination := by
  have first := spec.class_lt
  have second := spec.destination_lt
  rw [selector, UInt8.toNat_ofNat']
  omega

theorem hufTabIndex_selector : hufTabIndex spec.selector = spec.index := by
  have second := spec.destination_lt
  rw [hufTabIndex, selector_toNat, index]
  omega

theorem selector_ne : spec.selector ≠ 0xff := by
  intro same
  have value := congrArg UInt8.toNat same
  have first := spec.class_lt
  have second := spec.destination_lt
  rw [selector_toNat] at value
  simp at value
  omega

end HuffmanSpec

/-- The segment behind its marker: the length, and the tables. -/
def segmentBytes (specs : List HuffmanSpec) : List UInt8 :=
  beBytes 2 (2 + (specs.flatMap HuffmanSpec.bytes).length) ++
    specs.flatMap HuffmanSpec.bytes

theorem length_segmentBytes (specs : List HuffmanSpec) :
    (segmentBytes specs).length =
      2 + (specs.flatMap HuffmanSpec.bytes).length := by
  simp [segmentBytes]

/-- A segment lies at `lp`, and the next marker behind it. -/
structure Segment (memory : Nat → UInt8) (lp : Nat)
    (specs : List HuffmanSpec) : Prop where
  lies : Lies memory lp (segmentBytes specs ++ [0xff])
  fits : (segmentBytes specs).length < 2 ^ 16

theorem loadValues_eq (memory : Nat → UInt8) (codeLen : Nat → Nat)
    (lptemp : Nat) (values : Nat → Nat) (i : Nat) :
    loadValues memory codeLen lptemp values i =
      (codesBefore codeLen i, fun n =>
        if n < codesBefore codeLen i then (memory (lptemp + n)).toNat
        else values n) := by
  induction i with
  | zero => simp [loadValues, codesBefore]
  | succ i induction =>
      have next : codesBefore codeLen (i + 1) =
          codeLen i + codesBefore codeLen i := rfl
      rw [loadValues, induction, Prod.mk.injEq]
      refine ⟨Nat.add_comm _ _, ?_⟩
      funext n
      simp only [copyValues]
      by_cases early : n < codesBefore codeLen i
      · rw [if_neg (by omega), if_pos early, if_pos (by omega)]
      · by_cases inside : n < codesBefore codeLen (i + 1)
        · have place : lptemp + codesBefore codeLen i +
              (n - codesBefore codeLen i) = lptemp + n := by omega
          rw [if_pos (by omega), if_pos inside, place]
        · rw [if_neg (by omega), if_neg early, if_neg inside]

section Table

variable {memory : Nat → UInt8} {lp : Nat} {spec : HuffmanSpec}
  (lies : Lies memory lp spec.bytes)

include lies

theorem readCodeLen_eq : readCodeLen memory (lp + 1) = spec.count := by
  obtain ⟨lengths, -⟩ := lies_append.mp (lies_cons.mp lies).2
  have agree := lies_slice.mp lengths
  funext i
  rw [readCodeLen, HuffmanSpec.count, row16, row16]
  split
  · rename_i inside
    rw [agree i inside, Nat.zero_add]
  · rfl

theorem symbol_eq {n : Nat} (inside : n < spec.symbols.length) :
    memory (lp + 1 + 16 + n) = spec.symbols.getD n 0 := by
  obtain ⟨-, symbols⟩ := lies_append.mp (lies_cons.mp lies).2
  rw [length_slice] at symbols
  rw [symbols.getElem inside, List.getD_eq_getElem _ _ inside]

theorem loadTable_eq (table : HufTable) :
    loadTable memory (lp + 1) table = spec.row table := by
  have total : codesBefore spec.count 16 = spec.symbols.length :=
    spec.size.symm
  have values : (fun n => if n < spec.symbols.length then
        (memory (lp + 1 + 16 + n)).toNat else table.codeValue n) =
      fun n => if n < spec.symbols.length then (spec.symbols.getD n 0).toNat
        else table.codeValue n := by
    funext n
    by_cases inside : n < spec.symbols.length
    · rw [if_pos inside, if_pos inside, symbol_eq lies inside]
    · rw [if_neg inside, if_neg inside]
  rw [loadTable, HuffmanSpec.row]
  simp only [readCodeLen_eq lies, loadValues_eq, total, values]

theorem loadTableAt_eq (tables : Nat → HufTable) :
    loadTableAt memory lp tables = spec.load tables := by
  rw [loadTableAt, (lies_cons.mp lies).1, spec.hufTabIndex_selector]
  simp only [loadTable_eq lies]
  rfl

theorem ccount_eq : ccount memory lp = spec.bytes.length := by
  rw [ccount, readCodeLen_eq lies, spec.length_bytes, spec.size]
  rfl

end Table

/-- The tables after those of a segment. -/
def loadAll (specs : List HuffmanSpec) (tables : Nat → HufTable) :
    Nat → HufTable :=
  specs.foldl (fun tables spec => spec.load tables) tables

theorem loadTables_eq {memory : Nat → UInt8} {lp fuel : Nat}
    {specs : List HuffmanSpec}
    (lies : Lies memory lp (specs.flatMap HuffmanSpec.bytes ++ [0xff]))
    (enough : specs.length < fuel) (tables : Nat → HufTable) :
    loadTables memory fuel lp tables =
      some (lp + (specs.flatMap HuffmanSpec.bytes).length,
        loadAll specs tables) := by
  induction specs generalizing lp fuel tables with
  | nil =>
      obtain ⟨fuel, rfl⟩ := Nat.exists_eq_add_of_lt enough
      have marker : memory lp = 0xff := (lies_cons.mp lies).1
      rw [loadTables, if_pos marker]
      rfl
  | cons spec specs induction =>
      obtain ⟨fuel, rfl⟩ : ∃ rounds, fuel = rounds + 1 :=
        ⟨fuel - 1, by omega⟩
      rw [List.flatMap_cons, List.append_assoc] at lies
      obtain ⟨first, rest⟩ := lies_append.mp lies
      have selector : ¬memory lp = 0xff := by
        rw [(lies_cons.mp first).1]
        exact spec.selector_ne
      rw [loadTables, if_neg selector, ccount_eq first, loadTableAt_eq first,
        induction rest (by simpa using enough), List.flatMap_cons,
        List.length_append, Nat.add_assoc]
      rfl

section Branches

variable {memory : Nat → UInt8} {lp : Nat} {first : HuffmanSpec}
  {rest : List HuffmanSpec} (segment : Segment memory lp (first :: rest))

include segment

/-- A length from `2 ^ 15` on is negative. -/
theorem segmentLength_eq :
    segmentLength memory lp =
      toShort (segmentBytes (first :: rest)).length := by
  have fits := segment.fits
  obtain ⟨header, -⟩ := lies_append.mp (lies_append.mp segment.lies).1
  have value : (memory lp).toNat * 256 + (memory (lp + 1)).toNat =
      beValue (slice memory lp 2) := by
    simp [slice, List.range_succ, beValue]
  unfold Lies at header
  rw [length_beBytes] at header
  rw [length_segmentBytes] at fits ⊢
  have small : 2 + ((first :: rest).flatMap HuffmanSpec.bytes).length <
      256 ^ 2 := fits
  rw [segmentLength, value, header, beValue_beBytes, Nat.mod_eq_of_lt small]

theorem segment_tables :
    Lies memory (lp + 2)
      ((first :: rest).flatMap HuffmanSpec.bytes ++ [0xff]) := by
  have lies := segment.lies
  rw [segmentBytes, List.append_assoc] at lies
  have tables := (lies_append.mp lies).2
  rwa [length_beBytes] at tables

theorem loadFirst_eq (tables : Nat → HufTable) :
    loadTableAt memory (lp + 2) tables = first.load tables := by
  have lies := segment_tables segment
  rw [List.flatMap_cons, List.append_assoc] at lies
  exact loadTableAt_eq (lies_append.mp lies).1 tables

theorem initTagDht_short
    (short : (segmentBytes (first :: rest)).length < 0xd0) (fuel : Nat)
    (tables : Nat → HufTable) :
    initTagDht memory fuel lp tables =
      some (lp + (segmentBytes (first :: rest)).length,
        first.load tables) := by
  have length : segmentLength memory lp =
      (segmentBytes (first :: rest)).length := by
    rw [segmentLength_eq segment, toShort, if_pos (by omega)]
  rw [initTagDht, length, if_pos (by omega), loadFirst_eq segment]
  rfl

theorem initTagDht_long
    (long : 0xd0 ≤ (segmentBytes (first :: rest)).length)
    (fits : (segmentBytes (first :: rest)).length < 2 ^ 15) {fuel : Nat}
    (enough : (first :: rest).length < fuel) (tables : Nat → HufTable) :
    initTagDht memory fuel lp tables =
      some (lp + (segmentBytes (first :: rest)).length,
        loadAll (first :: rest) tables) := by
  have length : segmentLength memory lp =
      (segmentBytes (first :: rest)).length := by
    rw [segmentLength_eq segment, toShort, if_pos (by omega)]
  rw [initTagDht, length, if_neg (by omega),
    loadTables_eq (segment_tables segment) enough, length_segmentBytes,
    Nat.add_assoc]

theorem initTagDht_negative
    (negative : 2 ^ 15 ≤ (segmentBytes (first :: rest)).length)
    (fuel : Nat) (tables : Nat → HufTable) :
    ∃ back < lp + (segmentBytes (first :: rest)).length,
      initTagDht memory fuel lp tables =
        some (back, first.load tables) := by
  have fits := segment.fits
  have length : segmentLength memory lp =
      (segmentBytes (first :: rest)).length - 2 ^ 16 := by
    rw [segmentLength_eq segment, toShort, if_neg (by omega)]
  refine ⟨_, ?_, by
    rw [initTagDht, if_pos (by omega), loadFirst_eq segment]⟩
  rw [length]
  omega

end Branches

/-- A memory with the segment of one table. -/
def ownSegment (spec : HuffmanSpec) : Nat → UInt8 :=
  overlay (segmentBytes [spec] ++ [0xff]) fun _ => 0

theorem length_ownSegment (spec : HuffmanSpec) :
    (segmentBytes [spec]).length = spec.symbols.length + 19 := by
  rw [length_segmentBytes, List.flatMap_singleton, spec.length_bytes]
  omega

theorem segment_ownSegment (spec : HuffmanSpec) :
    Segment (ownSegment spec) 0 [spec] where
  lies := lies_overlay _ _
  fits := by
    have few := spec.few
    rw [length_ownSegment]
    omega

/-- One table is loaded by both branches. -/
theorem initTagDht_single {memory : Nat → UInt8} {lp : Nat}
    {spec : HuffmanSpec} (segment : Segment memory lp [spec])
    (tables : Nat → HufTable) :
    initTagDht memory 2 lp tables =
      some (lp + (segmentBytes [spec]).length, spec.load tables) := by
  have few := spec.few
  have length := length_ownSegment spec
  by_cases short : (segmentBytes [spec]).length < 0xd0
  · exact initTagDht_short segment short 2 tables
  · exact initTagDht_long segment (by omega) (by omega) (by simp) tables

/-- The tables after `init_tag` has seen a segment of its own for each. -/
def loadSeparately :
    List HuffmanSpec → (Nat → HufTable) → Option (Nat → HufTable)
  | [], tables => some tables
  | spec :: specs, tables => do
      let (_, tables) ← initTagDht (ownSegment spec) 2 0 tables
      loadSeparately specs tables

theorem loadSeparately_eq (specs : List HuffmanSpec)
    (tables : Nat → HufTable) :
    loadSeparately specs tables = some (loadAll specs tables) := by
  induction specs generalizing tables with
  | nil => rfl
  | cons spec specs induction =>
      rw [loadSeparately, initTagDht_single (segment_ownSegment spec)]
      exact induction (spec.load tables)

/-- `init_tag` makes of the segment what it makes of separate ones, and goes on
at the next marker. -/
def SameAsSeparate (memory : Nat → UInt8) (lp : Nat)
    (specs : List HuffmanSpec) (tables : Nat → HufTable) : Prop :=
  ∃ fuel after, initTagDht memory fuel lp tables =
      some (lp + (segmentBytes specs).length, after) ∧
    loadSeparately specs tables = some after

section Same

variable {memory : Nat → UInt8} {lp : Nat} {first : HuffmanSpec}
  {rest : List HuffmanSpec} (segment : Segment memory lp (first :: rest))

include segment

theorem sameAsSeparate_short
    (short : (segmentBytes (first :: rest)).length < 0xd0)
    (tables : Nat → HufTable) :
    SameAsSeparate memory lp (first :: rest) tables ↔
      loadAll rest (first.load tables) = first.load tables := by
  have separate := loadSeparately_eq (first :: rest) tables
  constructor
  · rintro ⟨fuel, after, loaded, same⟩
    rw [initTagDht_short segment short, Option.some.injEq,
      Prod.mk.injEq] at loaded
    rw [separate, Option.some.injEq, ← loaded.2] at same
    exact same
  · intro nothing
    exact ⟨0, _, initTagDht_short segment short 0 tables,
      separate.trans (congrArg some nothing)⟩

theorem sameAsSeparate_long
    (long : 0xd0 ≤ (segmentBytes (first :: rest)).length)
    (tables : Nat → HufTable) :
    SameAsSeparate memory lp (first :: rest) tables ↔
      (segmentBytes (first :: rest)).length < 2 ^ 15 := by
  constructor
  · rintro ⟨fuel, after, loaded, -⟩
    by_contra negative
    obtain ⟨back, before, outcome⟩ := initTagDht_negative segment
      (Nat.le_of_not_lt negative) fuel tables
    rw [outcome, Option.some.injEq, Prod.mk.injEq] at loaded
    omega
  · intro fits
    exact ⟨_, _, initTagDht_long segment long fits (Nat.lt_succ_self _) tables,
      loadSeparately_eq (first :: rest) tables⟩

end Same

/-- A segment is loaded like separate ones exactly if it reaches the branch with
the loop or has nothing to load behind its first table. -/
theorem sameAsSeparate_iff (memory : Nat → UInt8) (lp : Nat)
    (first : HuffmanSpec) (rest : List HuffmanSpec)
    (segment : Segment memory lp (first :: rest))
    (tables : Nat → HufTable) :
    SameAsSeparate memory lp (first :: rest) tables ↔
      if (segmentBytes (first :: rest)).length < 0xd0 then
        loadAll rest (first.load tables) = first.load tables
      else (segmentBytes (first :: rest)).length < 2 ^ 15 := by
  split
  · rename_i short
    exact sameAsSeparate_short segment short tables
  · rename_i long
    exact sameAsSeparate_long segment (Nat.le_of_not_lt long) tables

/-- Two codes of one bit. -/
def pairCounts (i : Nat) : UInt8 := if i = 0 then 2 else 0

theorem pairCounts_used : ∃ i < 16, pairCounts i ≠ 0 := ⟨0, by decide⟩

theorem pairCounts_size :
    2 = codesBefore (row16 fun i => (pairCounts i).toNat) 16 := by decide

theorem pairCounts_few : 2 ≤ 256 := by decide

theorem pairCounts_kraft : Kraft (row16 fun i => (pairCounts i).toNat) 16 := by
  decide

/-- Two codes of one bit, for the symbols 0 and 1. -/
def bitSpec (tableClass : Nat) (known : tableClass < 2) : HuffmanSpec where
  tableClass := tableClass
  destination := 0
  counts := pairCounts
  symbols := [0, 1]
  class_lt := known
  destination_lt := Nat.zero_lt_two
  used := pairCounts_used
  size := pairCounts_size
  few := pairCounts_few
  kraft := pairCounts_kraft

/-- The static tables before the first segment. -/
def noTables : Nat → HufTable :=
  fun _ => ⟨fun _ => 0, fun _ => 0, fun _ => 0, fun _ => 0, fun _ => 0⟩

/-- A memory with a segment. -/
def segmentMemory (specs : List HuffmanSpec) : Nat → UInt8 :=
  overlay (segmentBytes specs ++ [0xff]) fun _ => 0

/-- 190 codes of eight bits. -/
def wideCounts (i : Nat) : UInt8 := if i = 7 then 190 else 0

theorem wideCounts_used : ∃ i < 16, wideCounts i ≠ 0 := ⟨7, by decide⟩

theorem wideCounts_size : ((List.range 190).map UInt8.ofNat).length =
    codesBefore (row16 fun i => (wideCounts i).toNat) 16 := by
  rw [List.length_map, List.length_range]
  rfl

theorem wideCounts_few : ((List.range 190).map UInt8.ofNat).length ≤ 256 := by
  rw [List.length_map, List.length_range]
  decide

theorem wideCounts_kraft : Kraft (row16 fun i => (wideCounts i).toNat) 16 := by
  decide

/-- An AC table with 190 symbols. -/
def wideSpec : HuffmanSpec where
  tableClass := 1
  destination := 0
  counts := wideCounts
  symbols := (List.range 190).map UInt8.ofNat
  class_lt := Nat.one_lt_two
  destination_lt := Nat.zero_lt_two
  used := wideCounts_used
  size := wideCounts_size
  few := wideCounts_few
  kraft := wideCounts_kraft

/-- A DC and an AC table in a segment of 228 bytes. -/
theorem sameAsSeparate_iff_both :
    SameAsSeparate (segmentMemory [bitSpec 0 Nat.zero_lt_two, wideSpec]) 0
      [bitSpec 0 Nat.zero_lt_two, wideSpec] noTables := by
  have length : (segmentBytes
      [bitSpec 0 Nat.zero_lt_two, wideSpec]).length = 228 := by
    decide +kernel
  have segment : Segment
      (segmentMemory [bitSpec 0 Nat.zero_lt_two, wideSpec]) 0
      [bitSpec 0 Nat.zero_lt_two, wideSpec] :=
    ⟨lies_overlay _ _, by rw [length]; decide⟩
  apply (sameAsSeparate_iff _ 0 _ _ segment noTables).mpr
  rw [length, if_neg (by decide)]
  decide

/-- Of a DC and an AC table in one segment the second is not loaded. -/
theorem not_sameAsSeparate :
    ¬∀ (memory : Nat → UInt8) (lp : Nat) (first : HuffmanSpec)
        (rest : List HuffmanSpec), Segment memory lp (first :: rest) →
      ∀ tables, SameAsSeparate memory lp (first :: rest) tables := by
  intro always
  let dc := bitSpec 0 Nat.zero_lt_two
  let ac := bitSpec 1 Nat.one_lt_two
  have segment : Segment (segmentMemory [dc, ac]) 0 [dc, ac] :=
    ⟨lies_overlay _ _, by decide⟩
  have same := (sameAsSeparate_short segment (by decide) noTables).mp
    (always _ 0 dc [ac] segment noTables)
  have lengths := congrArg (fun tables => (tables 2).codeLen 0) same
  exact absurd lengths (by decide)

end Witos.Jpeg
