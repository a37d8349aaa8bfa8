import Mathlib.Logic.Basic
import Mathlib.Tactic.Linarith
import Mathlib.Tactic.Ring

/-!
# Numbers as bytes

Big-endian and little-endian representations of natural numbers as lists of
bytes, and the numbers denoted by such lists.
-/

namespace Witos.Library

/-- The low `count` bytes of a number, most significant byte first. -/
def beBytes : Nat → Nat → List UInt8
  | 0, _ => []
  | count + 1, value =>
      UInt8.ofNat (value / 256 ^ count) :: beBytes count value

/-- The low `count` bytes of a number, least significant byte first. -/
def leBytes : Nat → Nat → List UInt8
  | 0, _ => []
  | count + 1, value => UInt8.ofNat value :: leBytes count (value / 256)

/-- A property of all bytes, to be checked byte by byte. -/
theorem forall_byte {property : UInt8 → Prop}
    (each : ∀ value < 256, property (UInt8.ofNat value)) (byte : UInt8) :
    property byte := by
  have holds := each byte.toNat byte.toNat_lt
  rw [UInt8.ofNat_toNat] at holds
  exact holds

/-- The number denoted by bytes, most significant byte first. -/
def beValue (bytes : List UInt8) : Nat :=
  bytes.foldl (fun value byte => value * 256 + byte.toNat) 0

/-- The number denoted by bytes, least significant byte first. -/
def leValue : List UInt8 → Nat
  | [] => 0
  | byte :: bytes => byte.toNat + 256 * leValue bytes

/-- `count` cells of a memory from an offset on. -/
def slice {α : Type} (mem : Nat → α) (offset count : Nat) : List α :=
  (List.range count).map (fun index => mem (offset + index))

/-- The number denoted by `count` bytes of a memory from an offset on. -/
def field (memory : Nat → UInt8) (offset count : Nat) : Nat :=
  beValue (slice memory offset count)

/-- A memory whose first bytes are replaced. -/
def overlay (bytes : List UInt8) (memory : Nat → UInt8) : Nat → UInt8 :=
  fun index => bytes.getD index (memory index)

@[simp] theorem length_beBytes (count value : Nat) :
    (beBytes count value).length = count := by
  induction count with
  | zero => rfl
  | succ count induction => simp [beBytes, induction]

@[simp] theorem length_leBytes (count value : Nat) :
    (leBytes count value).length = count := by
  induction count generalizing value with
  | zero => rfl
  | succ count induction => simp [leBytes, induction]

@[simp] theorem length_slice {α : Type} (mem : Nat → α)
    (offset count : Nat) : (slice mem offset count).length = count := by
  simp [slice]

@[simp] theorem slice_zero {α : Type} (mem : Nat → α) (offset : Nat) :
    slice mem offset 0 = [] := rfl

theorem slice_succ {α : Type} (mem : Nat → α) (offset count : Nat) :
    slice mem offset (count + 1) =
      mem offset :: slice mem (offset + 1) count := by
  simp only [slice, List.range_succ_eq_map, List.map_cons, List.map_map,
    Nat.add_zero, Function.comp_def, Nat.succ_eq_add_one, Nat.add_assoc,
    Nat.add_comm 1]

theorem slice_append {α : Type} (mem : Nat → α) (offset count more : Nat) :
    slice mem offset count ++ slice mem (offset + count) more =
      slice mem offset (count + more) := by
  simp only [slice, List.range_add, List.map_append, List.map_map,
    Function.comp_def, Nat.add_assoc]

theorem slice_congr {α : Type} {left right : Nat → α}
    {offset offset' count : Nat}
    (agree : ∀ index < count, left (offset + index) =
      right (offset' + index)) :
    slice left offset count = slice right offset' count := by
  apply List.map_congr_left
  intro index member
  exact agree index (List.mem_range.mp member)

theorem take_drop_slice {α : Type} (mem : Nat → α)
    (offset count skip length : Nat) :
    ((slice mem offset count).drop skip).take length =
      slice mem (offset + skip) (min length (count - skip)) := by
  apply List.ext_getElem
  · simp
  · intro index left right
    simp [slice, Nat.add_assoc]

/-- What was read before some bytes lies before them in the memory. -/
theorem slice_of_parts {α : Type} {mem : Nat → α} {count : Nat}
    (before middle after : List α)
    (whole : slice mem 0 count = before ++ (middle ++ after)) :
    slice mem before.length middle.length = middle := by
  have length : count = before.length + (middle.length + after.length) := by
    have lengths := congrArg List.length whole
    simpa using lengths
  have read := take_drop_slice mem 0 count before.length middle.length
  have enough : min middle.length (count - before.length) =
      middle.length := by omega
  rw [enough, Nat.zero_add, whole, List.drop_left, List.take_left] at read
  exact read.symm

theorem slice_eq_iff {α : Type} (left right : Nat → α)
    (offset offset' count : Nat) :
    slice left offset count = slice right offset' count ↔
      ∀ index < count, left (offset + index) = right (offset' + index) := by
  constructor
  · intro same index inside
    have cells := congrArg (fun cells => cells[index]?) same
    simpa [slice, inside] using cells
  · exact slice_congr

private theorem foldl_bytes (bytes : List UInt8) (start : Nat) :
    bytes.foldl (fun value byte => value * 256 + byte.toNat) start =
      start * 256 ^ bytes.length + beValue bytes := by
  induction bytes generalizing start with
  | nil => simp [beValue]
  | cons byte bytes induction =>
      have unfolded : beValue (byte :: bytes) =
          byte.toNat * 256 ^ bytes.length + beValue bytes := by
        have := induction (0 * 256 + byte.toNat)
        simpa [beValue] using this
      rw [List.foldl_cons, induction, unfolded, List.length_cons]
      ring

theorem beValue_cons (byte : UInt8) (bytes : List UInt8) :
    beValue (byte :: bytes) =
      byte.toNat * 256 ^ bytes.length + beValue bytes := by
  have := foldl_bytes bytes (0 * 256 + byte.toNat)
  simpa [beValue] using this

theorem beValue_lt (bytes : List UInt8) :
    beValue bytes < 256 ^ bytes.length := by
  induction bytes with
  | nil => simp [beValue]
  | cons byte bytes induction =>
      have byteBound : byte.toNat < 256 := byte.toNat_lt
      rw [beValue_cons, List.length_cons, pow_succ]
      nlinarith

theorem leValue_lt (bytes : List UInt8) :
    leValue bytes < 256 ^ bytes.length := by
  induction bytes with
  | nil => simp [leValue]
  | cons byte bytes induction =>
      have byteBound : byte.toNat < 256 := byte.toNat_lt
      rw [leValue, List.length_cons, pow_succ]
      omega

/-- Decoding what was encoded gives the number back, up to its width. -/
theorem beValue_beBytes (count value : Nat) :
    beValue (beBytes count value) = value % 256 ^ count := by
  induction count with
  | zero => simp [beBytes, beValue, Nat.mod_one]
  | succ count induction =>
      have split : value % (256 ^ count * 256) =
          value % 256 ^ count +
            256 ^ count * (value / 256 ^ count % 256) := Nat.mod_mul
      rw [beBytes, beValue_cons, induction, length_beBytes,
        UInt8.toNat_ofNat', pow_succ 256 count, split]
      ring

theorem leValue_leBytes (count value : Nat) :
    leValue (leBytes count value) = value % 256 ^ count := by
  induction count generalizing value with
  | zero => simp [leBytes, leValue, Nat.mod_one]
  | succ count induction =>
      have split : value % (256 * 256 ^ count) =
          value % 256 + 256 * (value / 256 % 256 ^ count) := Nat.mod_mul
      rw [leBytes, leValue, induction, UInt8.toNat_ofNat',
        pow_succ' 256 count, split]

theorem leBytes_leValue (bytes : List UInt8) :
    leBytes bytes.length (leValue bytes) = bytes := by
  induction bytes with
  | nil => rfl
  | cons byte bytes induction =>
      have bound := byte.toNat_lt
      have first : UInt8.ofNat (byte.toNat + 256 * leValue bytes) = byte := by
        apply UInt8.toNat_inj.mp
        rw [UInt8.toNat_ofNat']
        omega
      have rest : (byte.toNat + 256 * leValue bytes) / 256 =
          leValue bytes := by omega
      rw [List.length_cons, leValue, leBytes, first, rest, induction]

theorem beValue_slice_lt (mem : Nat → UInt8) (offset count : Nat) :
    beValue (slice mem offset count) < 256 ^ count := by
  have := beValue_lt (slice mem offset count)
  simpa using this

theorem slice_overlay {bytes : List UInt8} (memory : Nat → UInt8)
    {offset count : Nat} (inside : offset + count ≤ bytes.length) :
    slice (overlay bytes memory) offset count =
      (bytes.drop offset).take count := by
  apply List.ext_getElem
  · simp
    omega
  · intro index left right
    have bound : offset + index < bytes.length := by
      simp at left
      omega
    simp [slice, overlay, bound]

/-- A memory in which bytes are written from an offset on. -/
def overlayAt (offset : Nat) (bytes : List UInt8) (memory : Nat → UInt8) :
    Nat → UInt8 :=
  fun index =>
    if index < offset then memory index
    else bytes.getD (index - offset) (memory index)

theorem overlayAt_of_lt {offset index : Nat} (bytes : List UInt8)
    (memory : Nat → UInt8) (before : index < offset) :
    overlayAt offset bytes memory index = memory index :=
  if_pos before

theorem overlayAt_of_le {offset index : Nat} (bytes : List UInt8)
    (memory : Nat → UInt8) (behind : offset + bytes.length ≤ index) :
    overlayAt offset bytes memory index = memory index := by
  unfold overlayAt
  rw [if_neg (by omega), List.getD_eq_getElem?_getD,
    List.getElem?_eq_none (by omega), Option.getD_none]

theorem slice_overlayAt (offset : Nat) (bytes : List UInt8)
    (memory : Nat → UInt8) :
    slice (overlayAt offset bytes memory) offset bytes.length = bytes := by
  apply List.ext_getElem
  · simp
  · intro index left right
    simp [slice, overlayAt, right]

/-- What is read before the bytes that were written, or behind them. -/
theorem slice_overlayAt_of_disjoint {offset start count : Nat}
    (bytes : List UInt8) (memory : Nat → UInt8)
    (apart : start + count ≤ offset ∨ offset + bytes.length ≤ start) :
    slice (overlayAt offset bytes memory) start count =
      slice memory start count := by
  apply slice_congr
  intro index inside
  unfold overlayAt
  split
  · rfl
  · rw [List.getD_eq_getElem?_getD, List.getElem?_eq_none (by omega),
      Option.getD_none]

/-- A cell that was written is one of those it was copied from. -/
theorem overlayAt_slice (offset place : Nat) {count index : Nat}
    (inside : index < count) (source memory : Nat → UInt8) :
    overlayAt offset (slice source place count) memory (offset + index) =
      source (place + index) := by
  have cells := slice_overlayAt offset (slice source place count) memory
  rw [length_slice, slice_eq_iff] at cells
  exact cells index inside

theorem overlayAt_append (offset : Nat) (first second : List UInt8)
    (memory : Nat → UInt8) :
    overlayAt (offset + first.length) second
        (overlayAt offset first memory) =
      overlayAt offset (first ++ second) memory := by
  funext index
  unfold overlayAt
  by_cases before : index < offset
  · rw [if_pos (by omega), if_pos before, if_pos before]
  · rw [if_neg before, if_neg before]
    by_cases inside : index < offset + first.length
    · rw [if_pos inside]
      simp [List.getElem?_append_left
        (show index - offset < first.length by omega)]
    · rw [if_neg inside]
      have place : index - (offset + first.length) =
          index - offset - first.length := by omega
      simp [List.getElem?_append_right
        (show first.length ≤ index - offset by omega), place,
        List.getElem?_eq_none
          (show first.length ≤ index - offset by omega)]

theorem overlayAt_nil (offset : Nat) (memory : Nat → UInt8) :
    overlayAt offset [] memory = memory := by
  funext index
  unfold overlayAt
  split <;> rfl

theorem overlayAt_singleton (offset : Nat) (byte : UInt8)
    (memory : Nat → UInt8) :
    overlayAt offset [byte] memory = Function.update memory offset byte := by
  funext index
  unfold overlayAt
  rcases Nat.lt_trichotomy index offset with before | rfl | behind
  · rw [if_pos before, Function.update_of_ne (Nat.ne_of_lt before)]
  · rw [if_neg (Nat.lt_irrefl index), Function.update_self, Nat.sub_self]
    rfl
  · rw [if_neg (Nat.not_lt_of_gt behind),
      Function.update_of_ne (Nat.ne_of_gt behind)]
    rw [List.getD_eq_getElem?_getD,
      List.getElem?_eq_none (Nat.sub_pos_of_lt behind), Option.getD_none]

theorem overlayAt_overlayAt (offset : Nat) {first second : List UInt8}
    (covered : first.length ≤ second.length) (memory : Nat → UInt8) :
    overlayAt offset second (overlayAt offset first memory) =
      overlayAt offset second memory := by
  funext index
  unfold overlayAt
  by_cases before : index < offset
  · rw [if_pos before, if_pos before, if_pos before]
  · rw [if_neg before, if_neg before, if_neg before]
    simp only [List.getD_eq_getElem?_getD]
    by_cases inside : index - offset < second.length
    · rw [List.getElem?_eq_getElem inside, Option.getD_some, Option.getD_some]
    · have beyond := Nat.le_of_not_lt inside
      rw [List.getElem?_eq_none beyond,
        List.getElem?_eq_none (Nat.le_trans covered beyond)]
      rfl

/-- Writing over the first of the bytes written before. -/
theorem overlayAt_front (offset : Nat) {first second : List UInt8}
    (length : first.length = second.length) (rest : List UInt8)
    (memory : Nat → UInt8) :
    overlayAt offset first (overlayAt offset (second ++ rest) memory) =
      overlayAt offset (first ++ rest) memory := by
  funext index
  unfold overlayAt
  by_cases before : index < offset
  · rw [if_pos before, if_pos before, if_pos before]
  · rw [if_neg before, if_neg before, if_neg before]
    simp only [List.getD_eq_getElem?_getD]
    by_cases inside : index - offset < first.length
    · rw [List.getElem?_append_left inside, List.getElem?_eq_getElem inside,
        Option.getD_some, Option.getD_some]
    · have beyond := Nat.le_of_not_lt inside
      rw [List.getElem?_append_right beyond,
        List.getElem?_append_right (length ▸ beyond), length,
        List.getElem?_eq_none (length ▸ beyond), Option.getD_none]

theorem overlayAt_slice_apply (offset place count : Nat)
    (source memory : Nat → UInt8) (index : Nat) :
    overlayAt offset (slice source place count) memory index =
      if offset ≤ index ∧ index < offset + count then
        source (place + (index - offset))
      else memory index := by
  by_cases before : index < offset
  · rw [overlayAt_of_lt _ _ before, if_neg (by omega)]
  · by_cases inside : index - offset < count
    · rw [if_pos (by omega)]
      obtain ⟨further, rfl⟩ :=
        Nat.exists_eq_add_of_le (Nat.le_of_not_lt before)
      rw [Nat.add_sub_cancel_left] at inside ⊢
      exact overlayAt_slice offset place inside source memory
    · rw [if_neg (by omega)]
      exact overlayAt_of_le _ _ (by rw [length_slice]; omega)

/-- Bytes of one length written at one place are told apart. -/
theorem overlayAt_inj (offset : Nat) {left right : List UInt8}
    (memory : Nat → UInt8) (length : left.length = right.length) :
    overlayAt offset left memory = overlayAt offset right memory ↔
      left = right := by
  constructor
  · intro same
    rw [← slice_overlayAt offset left memory, same, length,
      slice_overlayAt]
  · rintro rfl
    rfl

/-- A memory whose first cells are those of another. -/
def patch (count : Nat) (source memory : Nat → UInt8) : Nat → UInt8 :=
  fun index => if index < count then source index else memory index

theorem patch_congr {count : Nat} {first second : Nat → UInt8}
    (agree : ∀ index < count, first index = second index)
    (memory : Nat → UInt8) :
    patch count first memory = patch count second memory := by
  funext index
  unfold patch
  split
  · exact agree index ‹_›
  · rfl

theorem overlayAt_patch (source memory : Nat → UInt8) (count more : Nat) :
    overlayAt count (slice source count more) (patch count source memory) =
      patch (count + more) source memory := by
  funext index
  unfold overlayAt patch
  by_cases before : index < count
  · rw [if_pos before, if_pos before, if_pos (by omega)]
  · rw [if_neg before, if_neg before]
    by_cases inside : index < count + more
    · have bound : index - count < more := by omega
      have place : count + (index - count) = index := by omega
      simp [slice, bound, inside, place]
    · have bound : more ≤ index - count := by omega
      simp [slice, inside, bound]

theorem field_of_parts {memory : Nat → UInt8} {total count value : Nat}
    (before after : List UInt8) (small : value < 256 ^ count)
    (whole : slice memory 0 total =
      before ++ (beBytes count value ++ after)) :
    field memory before.length count = value := by
  have bytes := slice_of_parts before _ after whole
  rw [length_beBytes] at bytes
  rw [field, bytes, beValue_beBytes, Nat.mod_eq_of_lt small]

theorem byte_of_parts {α : Type} {memory : Nat → α} {total : Nat}
    (before : List α) (byte : α) (after : List α)
    (whole : slice memory 0 total = before ++ byte :: after) :
    memory before.length = byte := by
  have bytes := slice_of_parts before [byte] after whole
  rw [List.length_singleton, slice_succ] at bytes
  exact (List.cons.inj bytes).1

/-- The number denoted by `count` bytes of a list from an offset on. -/
def fieldAt (bytes : List UInt8) (offset count : Nat) : Nat :=
  beValue ((bytes.drop offset).take count)

/-- A field of what was written is a field of the bytes. -/
theorem field_overlay {bytes : List UInt8} (memory : Nat → UInt8)
    {offset count : Nat} (inside : offset + count ≤ bytes.length) :
    field (overlay bytes memory) offset count =
      fieldAt bytes offset count := by
  rw [field, fieldAt, slice_overlay memory inside]

/-- A field in the middle of bytes that were cut off behind it. -/
theorem fieldAt_take (before middle after : List UInt8) {length : Nat}
    (inside : before.length + middle.length ≤ length) :
    fieldAt ((before ++ (middle ++ after)).take length) before.length
      middle.length = beValue middle := by
  have enough : middle.length ≤ length - before.length := by omega
  rw [fieldAt, List.drop_take, List.drop_left, List.take_take,
    Nat.min_eq_left enough, List.take_left]

/-- The cells from an offset on. -/
def Lies {α : Type} (memory : Nat → α) (offset : Nat) (cells : List α) :
    Prop :=
  slice memory offset cells.length = cells

theorem lies_append {α : Type} {memory : Nat → α} {offset : Nat}
    {first second : List α} :
    Lies memory offset (first ++ second) ↔
      Lies memory offset first ∧
        Lies memory (offset + first.length) second := by
  unfold Lies
  rw [List.length_append, ← slice_append]
  constructor
  · intro same
    exact List.append_inj same (length_slice _ _ _)
  · rintro ⟨before, after⟩
    rw [before, after]

theorem lies_cons {α : Type} {memory : Nat → α} {offset : Nat} {cell : α}
    {cells : List α} :
    Lies memory offset (cell :: cells) ↔
      memory offset = cell ∧ Lies memory (offset + 1) cells := by
  unfold Lies
  rw [List.length_cons, slice_succ, List.cons.injEq]

theorem lies_slice {α : Type} {memory source : Nat → α}
    {offset place count : Nat} :
    Lies memory offset (slice source place count) ↔
      ∀ index < count, memory (offset + index) = source (place + index) := by
  unfold Lies
  rw [length_slice]
  exact slice_eq_iff memory source offset place count

theorem Lies.getElem {α : Type} {memory : Nat → α} {offset : Nat}
    {cells : List α} (lies : Lies memory offset cells) {index : Nat}
    (inside : index < cells.length) :
    memory (offset + index) = cells[index] := by
  have cell := congrArg (fun read => read[index]?) lies
  simpa [slice, inside] using cell

/-- Bytes that lie in a memory already can be written there. -/
theorem overlayAt_eq_self_iff (offset : Nat) (bytes : List UInt8)
    (memory : Nat → UInt8) :
    overlayAt offset bytes memory = memory ↔ Lies memory offset bytes := by
  constructor
  · intro same
    unfold Lies
    rw [← same, slice_overlayAt]
  · intro lies
    funext index
    unfold overlayAt
    split
    · rfl
    · rename_i notBefore
      by_cases inside : index - offset < bytes.length
      · have cell := lies.getElem inside
        rw [Nat.add_sub_cancel' (Nat.le_of_not_lt notBefore)] at cell
        rw [List.getD_eq_getElem?_getD, List.getElem?_eq_getElem inside,
          Option.getD_some, cell]
      · rw [List.getD_eq_getElem?_getD,
          List.getElem?_eq_none (Nat.le_of_not_lt inside), Option.getD_none]

theorem lies_overlayAt (offset : Nat) (bytes : List UInt8)
    (memory : Nat → UInt8) :
    Lies (overlayAt offset bytes memory) offset bytes :=
  slice_overlayAt offset bytes memory

theorem lies_overlay (cells : List UInt8) (memory : Nat → UInt8) :
    Lies (overlay cells memory) 0 cells := by
  unfold Lies
  rw [slice_overlay memory (by omega)]
  simp

end Witos.Library
