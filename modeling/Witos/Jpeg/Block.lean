import Witos.Jpeg.Decode

/-!
# Blocks of coefficients

`HufBlock` expands runs of zeros until it has 64 coefficients.  It looks at the
number only between two elements, so that a run may go past the end; of a block
that was coded by the rules it recovers every coefficient.
-/

namespace Witos.Jpeg

open Library

/-- The end of a block. -/
def endOfBlock : Element := ⟨0, 0⟩

/-- The coefficients of an element. -/
def Element.coefficients (element : Element) : List Int :=
  List.replicate element.run 0 ++ [element.value]

def expand (elements : List Element) : List Int :=
  elements.flatMap Element.coefficients

@[simp] theorem expand_nil : expand [] = [] := rfl

@[simp] theorem expand_cons (element : Element) (elements : List Element) :
    expand (element :: elements) = element.coefficients ++ expand elements :=
  rfl

@[simp] theorem expand_append (first second : List Element) :
    expand (first ++ second) = expand first ++ expand second :=
  List.flatMap_append

@[simp] theorem length_coefficients (element : Element) :
    element.coefficients.length = element.run + 1 := by
  simp [Element.coefficients]

theorem ne_endOfBlock_iff (element : Element) :
    element ≠ endOfBlock ↔ ¬(element.run = 0 ∧ element.value = 0) := by
  rw [endOfBlock, Ne, Element.mk.injEq]

section Round

variable {memory : Nat → UInt8} {table : HufTable} {fuel : Nat}
  {stores : List Int} {reader next : BitReader} {element : Element}
  (room : stores.length < 64)

include room

theorem hufBlockAc_error (failed : decodeElement memory table reader = none) :
    hufBlockAc memory table (fuel + 1) stores reader =
      ⟨-1, stores, reader⟩ := by
  rw [hufBlockAc, if_pos room, failed]

variable (decoded : decodeElement memory table reader =
  some ((element.run, element.value), next))

include decoded

theorem hufBlockAc_end (ends : element = endOfBlock) :
    hufBlockAc memory table (fuel + 1) stores reader =
      ⟨0, stores ++ List.replicate (64 - stores.length) 0, next⟩ := by
  rw [hufBlockAc, if_pos room, decoded, ends]
  rfl

theorem hufBlockAc_element (other : element ≠ endOfBlock) :
    hufBlockAc memory table (fuel + 1) stores reader =
      hufBlockAc memory table fuel (stores ++ element.coefficients) next := by
  rw [hufBlockAc, if_pos room, decoded]
  simp only [if_neg ((ne_endOfBlock_iff element).mp other)]
  rfl

end Round

theorem hufBlockAc_full {memory : Nat → UInt8} {table : HufTable}
    {stores : List Int} (full : 64 ≤ stores.length) (fuel : Nat)
    (reader : BitReader) :
    hufBlockAc memory table fuel stores reader = ⟨0, stores, reader⟩ := by
  cases fuel with
  | zero => rfl
  | succ fuel => rw [hufBlockAc, if_neg (by omega)]

/-- The stores stay in the array, and a block is complete or an error. -/
structure Block.Bounded (block : Block) : Prop where
  inside : block.stores.length ≤ 64
  complete : block.ret = 0 → block.stores.length = 64

/-- The elements in front of a reader up to an error or the end of the block,
at most `count`. -/
def acElements (memory : Nat → UInt8) (table : HufTable) :
    Nat → BitReader → List Element
  | 0, _ => []
  | count + 1, reader =>
      match decodeElement memory table reader with
      | none => []
      | some ((rrun, vvalue), reader) =>
          if rrun = 0 ∧ vvalue = 0 then []
          else ⟨rrun, vvalue⟩ :: acElements memory table count reader

/-- Every element that begins in a block ends in it. -/
def EndsInside (count : Nat) (elements : List Element) : Prop :=
  ∀ n < elements.length, count + (expand (elements.take n)).length < 64 →
    count + (expand (elements.take (n + 1))).length ≤ 64

theorem endsInside_nil (count : Nat) : EndsInside count [] :=
  fun _ inside => absurd inside (Nat.not_lt_zero _)

theorem endsInside_full {count : Nat} (full : 64 ≤ count)
    (elements : List Element) : EndsInside count elements :=
  fun _ _ room => absurd room (by omega)

theorem endsInside_cons {count : Nat} (room : count < 64) (element : Element)
    (elements : List Element) :
    EndsInside count (element :: elements) ↔
      count + (element.run + 1) ≤ 64 ∧
        EndsInside (count + (element.run + 1)) elements := by
  have shift : ∀ n,
      count + (expand ((element :: elements).take (n + 1))).length =
        count + (element.run + 1) + (expand (elements.take n)).length := by
    intro n
    rw [List.take_succ_cons, expand_cons, List.length_append,
      length_coefficients, ← Nat.add_assoc]
  constructor
  · intro inside
    refine ⟨?_, ?_⟩
    · have first := inside 0 (Nat.succ_pos _) room
      rw [shift] at first
      simpa using first
    · intro n more begins
      have later := inside (n + 1) (Nat.succ_lt_succ more)
      rw [shift, shift] at later
      exact later begins
  · rintro ⟨first, later⟩ n more begins
    cases n with
    | zero =>
        rw [shift]
        simpa using first
    | succ n =>
        rw [shift] at begins ⊢
        exact later n (Nat.lt_of_succ_lt_succ more) begins

theorem hufBlockAc_bounded_iff (memory : Nat → UInt8) (table : HufTable)
    {fuel : Nat} {stores : List Int} (inside : stores.length ≤ 64)
    (enough : 64 ≤ fuel + stores.length) (reader : BitReader) :
    (hufBlockAc memory table fuel stores reader).Bounded ↔
      EndsInside stores.length (acElements memory table fuel reader) := by
  induction fuel generalizing stores reader with
  | zero =>
      have full : stores.length = 64 := by omega
      rw [hufBlockAc_full (Nat.le_of_eq full.symm)]
      exact ⟨fun _ => endsInside_nil _, fun _ => ⟨inside, fun _ => full⟩⟩
  | succ fuel induction =>
      by_cases room : stores.length < 64
      · cases decoded : decodeElement memory table reader with
        | none =>
            rw [hufBlockAc_error room decoded, acElements, decoded]
            exact ⟨fun _ => endsInside_nil _, fun _ => ⟨inside, nofun⟩⟩
        | some found =>
            obtain ⟨⟨rrun, vvalue⟩, next⟩ := found
            let element : Element := ⟨rrun, vvalue⟩
            have found : decodeElement memory table reader =
              some ((element.run, element.value), next) := decoded
            by_cases ends : element = endOfBlock
            · have zero : rrun = 0 ∧ vvalue = 0 := Element.mk.inj ends
              rw [hufBlockAc_end room found ends, acElements, decoded]
              simp only [if_pos zero]
              have full : (stores ++ List.replicate (64 - stores.length)
                  (0 : Int)).length = 64 := by
                rw [List.length_append, List.length_replicate]
                omega
              exact ⟨fun _ => endsInside_nil _,
                fun _ => ⟨Nat.le_of_eq full, fun _ => full⟩⟩
            · have other : ¬(rrun = 0 ∧ vvalue = 0) :=
                (ne_endOfBlock_iff element).mp ends
              have longer : (stores ++ element.coefficients).length =
                  stores.length + (rrun + 1) := by
                rw [List.length_append, length_coefficients]
              rw [hufBlockAc_element room found ends, acElements, decoded]
              simp only [if_neg other]
              rw [endsInside_cons room]
              by_cases fits : stores.length + (rrun + 1) ≤ 64
              · rw [induction (by omega) (by omega), longer]
                exact (and_iff_right fits).symm
              · rw [hufBlockAc_full (by omega)]
                constructor
                · rintro ⟨within, -⟩
                  exact absurd (longer ▸ within) fits
                · exact fun both => absurd both.1 fits
      · have full : stores.length = 64 := by omega
        rw [hufBlockAc_full (Nat.le_of_eq full.symm)]
        exact ⟨fun _ => endsInside_full (Nat.le_of_eq full.symm) _,
          fun _ => ⟨inside, fun _ => full⟩⟩

/-- `HufBlock` keeps to the array exactly if no element of the stream passes
its end. -/
theorem hufBlock_bounded_iff (memory : Nat → UInt8) (tables : Nat → HufTable)
    (dchufindex achufindex : Nat) (reader : BitReader) :
    (hufBlock memory tables dchufindex achufindex reader).Bounded ↔
      ∀ dc next, decodeElement memory (tables dchufindex) reader =
          some (dc, next) →
        EndsInside 1 (acElements memory (tables achufindex) 64 next) := by
  rw [hufBlock]
  cases decoded : decodeElement memory (tables dchufindex) reader with
  | none => exact ⟨fun _ => nofun, fun _ => ⟨Nat.zero_le _, nofun⟩⟩
  | some found =>
      obtain ⟨⟨run, value⟩, next⟩ := found
      have bounded := hufBlockAc_bounded_iff memory (tables achufindex)
        (show [value].length ≤ 64 by simp)
        (show 64 ≤ 64 + [value].length by simp) next
      simp only
      rw [bounded]
      constructor
      · rintro inside dc other same
        rw [Option.some.injEq, Prod.mk.injEq] at same
        rw [← same.2]
        exact inside
      · intro inside
        exact inside _ _ rfl

/-- Two codes of one bit, for the end of a block and for a run of 15 zeros with
one bit behind it. -/
def runSpec : HuffmanSpec where
  tableClass := 1
  destination := 0
  counts := pairCounts
  symbols := [0, 0xf1]
  class_lt := Nat.one_lt_two
  destination_lt := Nat.zero_lt_two
  used := pairCounts_used
  size := pairCounts_size
  few := pairCounts_few
  kraft := pairCounts_kraft

/-- Four runs of 15 zeros make 65 coefficients. -/
theorem not_hufBlock_bounded :
    ¬∀ specs tables, loadSeparately specs noTables = some tables →
      ∀ (memory : Nat → UInt8) (dchufindex achufindex : Nat)
        (reader : BitReader),
        (hufBlock memory tables dchufindex achufindex reader).Bounded := by
  intro always
  have bounded := always _ _
    (loadSeparately_eq [bitSpec 0 Nat.zero_lt_two, runSpec] noTables)
    (overlay [0x7f, 0x80] fun _ => 0) 0 2 ⟨0, 0, 0⟩
  exact absurd bounded.inside (by decide +kernel)

/-- The elements of coefficients behind a number of zeros, and the number of
zeros that are left at the end. -/
def runLengths : Nat → List Int → List Element × Nat
  | run, [] => ([], run)
  | run, value :: values =>
      if value = 0 then runLengths (run + 1) values
      else
        let (elements, left) := runLengths 0 values
        (List.replicate (run / 16) ⟨15, 0⟩ ++ ⟨run % 16, value⟩ :: elements,
          left)

/-- The elements of the AC coefficients, with the end of the block behind them
unless the last is not zero. -/
def acCoding (values : List Int) : List Element :=
  let (elements, left) := runLengths 0 values
  if left = 0 then elements else elements ++ [endOfBlock]

/-- A block with its coefficients in zigzag order is coded by bits. -/
inductive Coded (dc ac : HuffmanSpec) : List Int → List Bool → Prop where
  | intro {first : Int} {values : List Int} {code : List Bool}
      {codes : List (List Bool)} :
      dc.Encodes ⟨0, first⟩ code →
      List.Forall₂ ac.Encodes (acCoding values) codes →
      Coded dc ac (first :: values) (code ++ codes.flatten)

theorem expand_zeroRuns (count : Nat) :
    expand (List.replicate count ⟨15, 0⟩) = List.replicate (16 * count) 0 := by
  induction count with
  | zero => rfl
  | succ count induction =>
      have one : Element.coefficients ⟨15, 0⟩ = List.replicate 16 0 := rfl
      rw [List.replicate_succ, expand_cons, induction, one,
        ← List.replicate_add]
      congr 1
      omega

/-- No element is the end of the block, and expanded they are the
coefficients. -/
theorem runLengths_spec (run : Nat) (values : List Int) :
    (∀ element ∈ (runLengths run values).1, element ≠ endOfBlock) ∧
      expand (runLengths run values).1 ++
        List.replicate (runLengths run values).2 0 =
        List.replicate run 0 ++ values := by
  induction values generalizing run with
  | nil => simp [runLengths]
  | cons value values induction =>
      by_cases zero : value = 0
      · obtain ⟨others, expanded⟩ := induction (run + 1)
        rw [runLengths, if_pos zero]
        refine ⟨others, ?_⟩
        rw [expanded, zero, List.replicate_succ']
        simp
      · obtain ⟨others, expanded⟩ := induction 0
        rw [List.replicate_zero, List.nil_append] at expanded
        rw [runLengths, if_neg zero]
        constructor
        · intro element member
          rcases List.mem_append.mp member with zeros | later
          · rw [List.eq_of_mem_replicate zeros]
            decide
          · rcases List.mem_cons.mp later with rfl | later
            · rw [ne_endOfBlock_iff]
              exact fun both => zero both.2
            · exact others element later
        · have split : run = 16 * (run / 16) + run % 16 :=
            (Nat.div_add_mod run 16).symm
          have zeros : List.replicate run (0 : Int) =
              List.replicate (16 * (run / 16)) 0 ++
                List.replicate (run % 16) 0 := by
            rw [← List.replicate_add, ← split]
          simp only [expand_append, expand_cons, expand_zeroRuns,
            Element.coefficients, List.append_assoc]
          rw [expanded, zeros, List.append_assoc]
          rfl

section Recover

variable {memory : Nat → UInt8} {limit : Nat} {table : HufTable}
  {spec : HuffmanSpec} (loaded : Loaded table spec)

include loaded

theorem hufBlockAc_expand {elements tail : List Element}
    {codes : List (List Bool)}
    (encodes : List.Forall₂ spec.Encodes (elements ++ tail) codes)
    (others : ∀ element ∈ elements, element ≠ endOfBlock)
    {rest : List Bool} {stores : List Int} {reader : BitReader}
    (room : stores.length + (expand elements).length ≤ 64)
    (reading : Reading memory limit reader (codes.flatten ++ rest))
    (fuel : Nat) :
    ∃ next codes', hufBlockAc memory table (fuel + elements.length) stores
        reader = hufBlockAc memory table fuel (stores ++ expand elements)
          next ∧
      List.Forall₂ spec.Encodes tail codes' ∧
      Reading memory limit next (codes'.flatten ++ rest) := by
  induction elements generalizing codes stores reader with
  | nil =>
      refine ⟨reader, codes, ?_, encodes, reading⟩
      rw [expand_nil, List.append_nil]
      rfl
  | cons element elements induction =>
      obtain ⟨code, codes, first, later, rfl⟩ :=
        List.forall₂_cons_left_iff.mp encodes
      rw [List.flatten_cons, List.append_assoc] at reading
      obtain ⟨middle, decoded, after⟩ :=
        decodeElement_reading loaded first reading
      rw [expand_cons, List.length_append, length_coefficients] at room
      have left : (stores ++ element.coefficients).length +
          (expand elements).length ≤ 64 := by
        rw [List.length_append, length_coefficients]
        omega
      obtain ⟨next, codes', stored, done⟩ := induction later
        (fun element member =>
          others element (List.mem_cons_of_mem _ member)) left after
      refine ⟨next, codes', ?_, done⟩
      rw [List.length_cons, ← Nat.add_assoc,
        hufBlockAc_element (by omega) decoded
          (others element List.mem_cons_self), stored, expand_cons,
        List.append_assoc]

omit loaded in
theorem length_le_expand (elements : List Element) :
    elements.length ≤ (expand elements).length := by
  induction elements with
  | nil => exact Nat.le_refl _
  | cons element elements induction =>
      rw [expand_cons, List.length_append, length_coefficients,
        List.length_cons]
      omega

theorem hufBlockAc_coded {first : Int} {values : List Int}
    (size : values.length = 63) {codes : List (List Bool)}
    (encodes : List.Forall₂ spec.Encodes (acCoding values) codes)
    {rest : List Bool} {reader : BitReader}
    (reading : Reading memory limit reader (codes.flatten ++ rest)) :
    ∃ next, hufBlockAc memory table 64 [first] reader =
        ⟨0, first :: values, next⟩ ∧
      Reading memory limit next rest := by
  obtain ⟨others, expanded⟩ := runLengths_spec 0 values
  rw [acCoding] at encodes
  revert encodes others expanded
  generalize runLengths 0 values = runs
  obtain ⟨elements, left⟩ := runs
  rw [List.replicate_zero, List.nil_append]
  rintro encodes others expanded
  have total := congrArg List.length expanded
  rw [List.length_append, List.length_replicate, size] at total
  have few := length_le_expand elements
  obtain ⟨fuel, rounds⟩ : ∃ fuel, 64 = fuel + 1 + elements.length :=
    ⟨63 - elements.length, by simp only at few total; omega⟩
  have room : [first].length + (expand elements).length ≤ 64 := by
    simp only [List.length_singleton] at total ⊢
    omega
  by_cases none : left = 0
  · simp only [if_pos none] at encodes
    rw [← List.append_nil elements] at encodes
    obtain ⟨next, codes', stored, nothing, done⟩ :=
      hufBlockAc_expand loaded encodes others room reading (fuel + 1)
    rw [List.forall₂_nil_left_iff.mp nothing] at done
    refine ⟨next, ?_, done⟩
    simp only [none, List.replicate_zero, List.append_nil] at expanded
    rw [rounds, stored, expanded]
    apply hufBlockAc_full
    simp [size]
  · simp only [if_neg none] at encodes
    obtain ⟨middle, codes', stored, last, after⟩ :=
      hufBlockAc_expand loaded encodes others room reading (fuel + 1)
    obtain ⟨code, codes, ends, nothing, rfl⟩ :=
      List.forall₂_cons_left_iff.mp last
    rw [List.forall₂_nil_left_iff.mp nothing, List.flatten_singleton] at after
    obtain ⟨next, decoded, done⟩ := decodeElement_reading loaded ends after
    refine ⟨next, ?_, done⟩
    have length : ([first] ++ expand elements).length = 64 - left := by
      rw [List.length_append, List.length_singleton]
      simp only at total
      omega
    have zeros : 64 - ([first] ++ expand elements).length = left := by
      simp only at total
      omega
    rw [rounds, stored, hufBlockAc_end (by omega) decoded rfl, zeros,
      List.append_assoc]
    simp only at expanded
    rw [expanded]
    rfl

end Recover

/-- `HufBlock` recovers the coefficients of a block that was coded. -/
theorem hufBlock_coded {memory : Nat → UInt8} {limit : Nat}
    {tables : Nat → HufTable} {dc ac : HuffmanSpec}
    (loadedDc : Loaded (tables dc.index) dc)
    (loadedAc : Loaded (tables ac.index) ac) {coefficients : List Int}
    (size : coefficients.length = 64) {bits rest : List Bool}
    (coded : Coded dc ac coefficients bits) {reader : BitReader}
    (reading : Reading memory limit reader (bits ++ rest)) :
    ∃ next, hufBlock memory tables dc.index ac.index reader =
        ⟨0, coefficients, next⟩ ∧
      Reading memory limit next rest := by
  obtain @⟨first, values, code, codes, dcCode, acCodes⟩ := coded
  rw [List.append_assoc] at reading
  obtain ⟨middle, decoded, after⟩ :=
    decodeElement_reading loadedDc dcCode reading
  obtain ⟨next, stored, done⟩ := hufBlockAc_coded loadedAc
    (Nat.succ.inj size) acCodes after
  refine ⟨next, ?_, done⟩
  rw [hufBlock, decoded]
  exact stored

end Witos.Jpeg
