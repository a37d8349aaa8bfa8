import Witos.Stdio.NumberLayout
import Witos.Stdio.Truncation

/-!
# The scratch buffers

`vsnprintf` has two buffers of 32 bytes: `ch_num`, in which `num_to_ascii` lays
out a number in its field, and `tmp_array` for the digits of an argument behind
`*`.  Neither function checks an index.
-/

namespace Witos.Stdio

open Library

inductive Scratch
  | chNum | tmpArray

/-- What an iteration puts into the buffers: a number in a field, the digits of
an argument, or nothing. -/
inductive ScratchUse
  | unused
  | number (num : UInt32) (width : Int) (base : Nat) (style : Style)
  | starred (value : Int)

/-- The indices that are stored, one character after the other. -/
def ScratchUse.stores : ScratchUse → List (Scratch × Nat)
  | unused => []
  | number num width base style =>
      (List.range (numToAscii num.toNat width base style).length).map
        (Scratch.chNum, ·)
  | starred value =>
      (List.range (starDigits 32 value).length).map (Scratch.tmpArray, ·)

/-- The `switch` and `num_to_ascii`. -/
def convertUse (style : Style) (width : Int) (fmt : List UInt8)
    (para : Nat → UInt32) : ScratchUse :=
  match snprintfSwitch fmt.head? style with
  | .number base style => .number (para 0) width base style
  | _ => .unused

/-- An iteration of `vsnprintf`. -/
def scratchUse (char : UInt8) (fmt : List UInt8) (para : Nat → UInt32) :
    ScratchUse :=
  if char ≠ percent then .unused
  else if fmt.head? = some percent then .unused
  else
    let (style, behindFlags) := getSign ∅ fmt
    let (width, behindWidth) := getWidth 0 behindFlags
    if behindWidth.head? = some asterisk then
      let behindStar := behindWidth.tail
      if (behindStar.head?.map isDigit) = some true then
        .starred (toInt32 (para 0).toNat)
      else
        convertUse (style.erase Flag.left) (toInt32 (para 0).toNat)
          (skipLong behindStar) (nextArg para)
    else convertUse style width (skipLong behindWidth) para

/-- All iterations, as long as the stores of the ones before did no harm. -/
def scratchUsesFrom (strings : UInt32 → List UInt8) :
    Nat → List UInt8 → (Nat → UInt32) → List ScratchUse
  | 0, _, _ => []
  | _ + 1, [], _ => []
  | fuel + 1, char :: fmt, para =>
      let chunk := iteration snprintfSwitch strings char fmt para
      scratchUse char fmt para ::
        scratchUsesFrom strings fuel chunk.fmt chunk.para

def scratchUses (strings : UInt32 → List UInt8) (fmt : List UInt8)
    (para : Nat → UInt32) : List ScratchUse :=
  scratchUsesFrom strings fmt.length fmt para

/-- No store of `snprintf` is outside of the buffer it is for. -/
def ScratchSafe (strings : UInt32 → List UInt8) (fmt : List UInt8)
    (para : Nat → UInt32) : Prop :=
  ∀ use ∈ scratchUses strings fmt para, ∀ store ∈ use.stores,
    store.2 < chNumSize

/-- A number has a field of at most 32 characters, and one that is not so far
below zero that what remains of the width is no `int`. -/
def ScratchUse.Narrow : ScratchUse → Prop
  | unused => True
  | number num width base style =>
      width ≤ 32 ∧ RoomIsInt num.toNat width base style
  | starred _ => True

theorem int32_toInt32 (value : Int) :
    -2 ^ 31 ≤ toInt32 value ∧ toInt32 value < 2 ^ 31 := by
  have low := Int.le_bmod (x := value) (m := 2 ^ 32) (by decide)
  refine ⟨?_, toInt32_lt value⟩
  unfold toInt32
  omega

theorem int32_getWidth {width : Int} (int : -2 ^ 31 ≤ width ∧ width < 2 ^ 31)
    (fmt : List UInt8) :
    -2 ^ 31 ≤ (getWidth width fmt).1 ∧ (getWidth width fmt).1 < 2 ^ 31 := by
  induction fmt generalizing width with
  | nil => exact int
  | cons char fmt induction =>
      rw [getWidth]
      split
      · exact induction (int32_toInt32 _)
      · exact int

/-- The width of a number is an `int`, and its base one of three. -/
def ScratchUse.Valid : ScratchUse → Prop
  | number _ width base _ =>
      (-2 ^ 31 ≤ width ∧ width < 2 ^ 31) ∧ (base = 8 ∨ base = 10 ∨ base = 16)
  | starred value => -2 ^ 31 ≤ value ∧ value < 2 ^ 31
  | unused => True

theorem snprintfSwitch_base {letter : Option UInt8} {style style' : Style}
    {base : Nat} (decided : snprintfSwitch letter style = .number base style') :
    base = 8 ∨ base = 10 ∨ base = 16 := by
  unfold snprintfSwitch at decided
  split at decided <;> simp at decided <;> omega

theorem convertUse_valid (style : Style) {width : Int}
    (int : -2 ^ 31 ≤ width ∧ width < 2 ^ 31) (fmt : List UInt8)
    (para : Nat → UInt32) : (convertUse style width fmt para).Valid := by
  unfold convertUse
  split
  · rename_i decided
    exact ⟨int, snprintfSwitch_base decided⟩
  · trivial

theorem scratchUse_valid (char : UInt8) (fmt : List UInt8)
    (para : Nat → UInt32) : (scratchUse char fmt para).Valid := by
  unfold scratchUse
  split
  · trivial
  split
  · trivial
  dsimp only
  split
  · split
    · exact int32_toInt32 _
    · exact convertUse_valid _ (int32_toInt32 _) _ _
  · exact convertUse_valid _ (int32_getWidth (by decide) _) _ _

/-- What an iteration emits is what it has in the buffers. -/
def ScratchUse.Emitted (chunk : Chunk) : ScratchUse → Prop
  | unused => chunk.viaScratch = false
  | number num width base style =>
      chunk.viaScratch = true ∧
        chunk.text = numToAscii num.toNat width base style
  | starred value =>
      chunk.viaScratch = false ∧ chunk.text = (starDigits 32 value).reverse

theorem convertUse_emitted (strings : UInt32 → List UInt8)
    (roll : List UInt8) (style : Style) (width : Int) (fmt : List UInt8)
    (para : Nat → UInt32) :
    (convertUse style width fmt para).Emitted
      (convert snprintfSwitch strings roll style width fmt para) := by
  unfold convertUse convert
  cases snprintfSwitch fmt.head? style with
  | number base style => exact ⟨rfl, rfl⟩
  | string => rfl
  | character => rfl
  | unknown => rfl

theorem scratchUse_emitted (strings : UInt32 → List UInt8) (char : UInt8)
    (fmt : List UInt8) (para : Nat → UInt32) :
    (scratchUse char fmt para).Emitted
      (iteration snprintfSwitch strings char fmt para) := by
  unfold scratchUse iteration
  by_cases isPlain : char ≠ percent
  · rw [if_pos isPlain, if_pos isPlain]
    rfl
  rw [if_neg isPlain, if_neg isPlain]
  by_cases isPercent : fmt.head? = some percent
  · rw [if_pos isPercent, if_pos isPercent]
    rfl
  rw [if_neg isPercent, if_neg isPercent]
  dsimp only
  generalize getSign ∅ fmt = scanned
  generalize getWidth 0 scanned.2 = field
  by_cases isStar : field.2.head? = some asterisk
  · rw [if_pos isStar, if_pos isStar]
    by_cases starred : field.2.tail.head?.map isDigit = some true
    · rw [if_pos starred, if_pos starred]
      simp only [ScratchUse.Emitted, and_self]
    · rw [if_neg starred, if_neg starred]
      exact convertUse_emitted strings _ _ _ _ _
  · rw [if_neg isStar, if_neg isStar]
    exact convertUse_emitted strings _ _ _ _ _

theorem starDigits_length_le (fuel : Nat) {value : Int} {count : Nat}
    (bounded : value.natAbs < 10 ^ count) :
    (starDigits fuel value).length ≤ count := by
  induction fuel generalizing value count with
  | zero => exact Nat.zero_le count
  | succ fuel induction =>
      rw [starDigits]
      split
      · exact Nat.zero_le count
      · rename_i notZero
        cases count with
        | zero =>
            rw [Nat.pow_zero] at bounded
            omega
        | succ count =>
            rw [Nat.pow_succ] at bounded
            have shorter : (value.tdiv 10).natAbs < 10 ^ count := by
              rw [Int.natAbs_tdiv]
              exact Nat.div_lt_of_lt_mul (by simpa [Nat.mul_comm] using bounded)
            exact Nat.succ_le_succ (induction shorter)

/-- The loop over the digits of an `int` ends by itself. -/
theorem starDigits_of_more {fuel : Nat} {value : Int}
    (bounded : value.natAbs < 10 ^ fuel) (more : Nat) :
    starDigits (fuel + more) value = starDigits fuel value := by
  induction fuel generalizing value with
  | zero =>
      have isZero : value = 0 := by
        rw [Nat.pow_zero] at bounded
        omega
      cases more <;> simp [starDigits, isZero]
  | succ fuel induction =>
      rw [Nat.pow_succ] at bounded
      have shorter : (value.tdiv 10).natAbs < 10 ^ fuel := by
        rw [Int.natAbs_tdiv]
        exact Nat.div_lt_of_lt_mul (by simpa [Nat.mul_comm] using bounded)
      rw [Nat.add_right_comm, starDigits, starDigits, induction shorter]

section Numbers

variable {num base : Nat} (style : Style) (word : num < 2 ^ 32)
  (isBase : base = 8 ∨ base = 10 ∨ base = 16)

include word isBase

theorem naturalLength_le_thirteen : naturalLength num base style ≤ 13 := by
  have head : (headText num base style).length ≤ 2 := by
    have lengths : ∀ head ∈
        [[], [dash], [cross], [blank], [nought], [nought, 0x78]],
        head.length ≤ 2 := by decide
    exact lengths _ (headText_cases style num base)
  have digits : (digitsOf base (magnitude num base style)).length ≤ 11 := by
    apply length_digitsOf_le (by omega) _ (by decide)
    calc magnitude num base style < 2 ^ 32 := magnitude_lt style word
      _ ≤ 8 ^ 11 := by decide
      _ ≤ base ^ 11 := Nat.pow_le_pow_left (by omega) 11
  exact Nat.add_le_add head digits

theorem numToAscii_length_eq {width : Int} (high : width < 2 ^ 31)
    (isInt : RoomIsInt num width base style) :
    (numToAscii num width base style).length =
      max width.toNat (naturalLength num base style) := by
  have text := numToAscii_of_roomIsInt style word isBase high isInt
  dsimp only at text
  rw [text]
  split
  all_goals
    rw [List.length_append, bareText_length, List.length_replicate]
    omega

/-- The text of a number fits exactly if its field does and nothing wraps
around. -/
theorem numToAscii_length_le_iff {width : Int}
    (int : -2 ^ 31 ≤ width ∧ width < 2 ^ 31) :
    (numToAscii num width base style).length ≤ chNumSize ↔
      width ≤ 32 ∧ RoomIsInt num width base style := by
  have short := naturalLength_le_thirteen style word isBase
  unfold chNumSize
  by_cases isInt : RoomIsInt num width base style
  · rw [numToAscii_length_eq style word isBase int.2 isInt]
    simp only [isInt, and_true]
    omega
  · have long := numToAscii_wraps style word isBase int.1 isInt
    simp only [isInt, and_false, iff_false]
    omega

end Numbers

/-- Storing one character after the other needs as much room as there are. -/
theorem stores_inside_iff (buffer : Scratch) (count size : Nat) :
    (∀ store ∈ (List.range count).map (buffer, ·), store.2 < size) ↔
      count ≤ size := by
  constructor
  · intro inside
    by_contra long
    have last := inside (buffer, size)
      (List.mem_map_of_mem (List.mem_range.mpr (Nat.lt_of_not_le long)))
    exact absurd last (Nat.lt_irrefl size)
  · intro enough store member
    obtain ⟨index, inRange, rfl⟩ := List.mem_map.mp member
    exact Nat.lt_of_lt_of_le (List.mem_range.mp inRange) enough

theorem ScratchUse.inside_iff {use : ScratchUse} (valid : use.Valid) :
    (∀ store ∈ use.stores, store.2 < chNumSize) ↔ use.Narrow := by
  cases use with
  | unused => simp [stores, Narrow]
  | number num width base style =>
      rw [stores, stores_inside_iff]
      exact numToAscii_length_le_iff style num.toNat_lt valid.2 valid.1
  | starred value =>
      rw [stores, stores_inside_iff]
      have few : (starDigits 32 value).length ≤ 10 := by
        obtain ⟨low, high⟩ := valid
        apply starDigits_length_le
        omega
      exact iff_of_true (Nat.le_trans few (by decide)) trivial

theorem scratchUses_valid (strings : UInt32 → List UInt8) (fmt : List UInt8)
    (para : Nat → UInt32) :
    ∀ use ∈ scratchUses strings fmt para, use.Valid := by
  unfold scratchUses
  generalize fmt.length = fuel
  induction fuel generalizing fmt para with
  | zero => simp [scratchUsesFrom]
  | succ fuel induction =>
      cases fmt with
      | nil => simp [scratchUsesFrom]
      | cons char fmt =>
          intro use member
          rw [scratchUsesFrom, List.mem_cons] at member
          rcases member with rfl | later
          · exact scratchUse_valid char fmt para
          · exact induction _ _ use later

theorem ScratchUse.inside_iff_fits {use : ScratchUse} (valid : use.Valid)
    {chunk : Chunk} (emitted : use.Emitted chunk) :
    (∀ store ∈ use.stores, store.2 < chNumSize) ↔
      (chunk.viaScratch = true → chunk.text.length ≤ chNumSize) := by
  cases use with
  | unused => simp [stores, show chunk.viaScratch = false from emitted]
  | number num width base style =>
      rw [stores, stores_inside_iff, emitted.1, emitted.2]
      simp
  | starred value =>
      rw [inside_iff valid, emitted.1]
      simp [Narrow]

/-- The loops that do not survive a long number are those of safe calls. -/
theorem scratchSafe_iff_numbersFit (strings : UInt32 → List UInt8)
    (fmt : List UInt8) (para : Nat → UInt32) :
    ScratchSafe strings fmt para ↔ NumbersFit strings fmt para := by
  unfold ScratchSafe NumbersFit scratchUses chunks
  generalize fmt.length = fuel
  induction fuel generalizing fmt para with
  | zero => simp [scratchUsesFrom, chunksFrom]
  | succ fuel induction =>
      cases fmt with
      | nil => simp [scratchUsesFrom, chunksFrom]
      | cons char fmt =>
          rw [scratchUsesFrom, chunksFrom, List.forall_mem_cons,
            List.forall_mem_cons, induction,
            ScratchUse.inside_iff_fits (scratchUse_valid char fmt para)
              (scratchUse_emitted strings char fmt para)]

/-- No conversion stores outside of the scratch buffers exactly if no number
has a field of more than 32 characters, or one so far below zero that what
remains of the width wraps around. -/
theorem scratchSafe_iff (strings : UInt32 → List UInt8) (fmt : List UInt8)
    (para : Nat → UInt32) :
    ScratchSafe strings fmt para ↔
      ∀ use ∈ scratchUses strings fmt para, use.Narrow := by
  have valid := scratchUses_valid strings fmt para
  constructor
  · intro safe use member
    exact (ScratchUse.inside_iff (valid use member)).mp (safe use member)
  · intro narrow use member
    exact (ScratchUse.inside_iff (valid use member)).mpr (narrow use member)

/-- `%40d` stores 40 characters in `ch_num`. -/
theorem not_scratchSafe :
    ¬∀ (strings : UInt32 → List UInt8) (fmt : List UInt8)
      (para : Nat → UInt32), ScratchSafe strings fmt para := by
  intro always
  have isUse : scratchUses (fun _ => []) [percent, 0x34, 0x30, 0x64]
      (fun _ => 7) = [.number 7 40 10 ∅] := rfl
  have safe := always (fun _ => []) [percent, 0x34, 0x30, 0x64] (fun _ => 7)
  unfold ScratchSafe at safe
  rw [isUse] at safe
  have enough := (stores_inside_iff _ _ _).mp (safe _ List.mem_cons_self)
  exact absurd enough (by decide)

end Witos.Stdio
