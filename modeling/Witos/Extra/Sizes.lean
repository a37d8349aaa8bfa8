import Witos.Extra.NumberText
import Witos.Extra.Strex

/-!
# Sizes

The strings that `hr_str_to_val` accepts: groups of digits with the units `G`,
`M` and `K`, each of which may be missing, and digits behind them.
-/

namespace Witos.Extra

open Library

/-- A letter, which may also be a capital, and the power of two it is for. -/
structure SizeUnit where
  small : UInt8
  capital : UInt8
  shift : Nat
deriving DecidableEq

def SizeUnit.Spells (unit : SizeUnit) (char : UInt8) : Prop :=
  char = unit.small ∨ char = unit.capital

instance (unit : SizeUnit) (char : UInt8) : Decidable (unit.Spells char) :=
  inferInstanceAs (Decidable (char = unit.small ∨ char = unit.capital))

def gUnit : SizeUnit := ⟨0x67, 0x47, 30⟩
def mUnit : SizeUnit := ⟨0x6d, 0x4d, 20⟩
def kUnit : SizeUnit := ⟨0x6b, 0x4b, 10⟩

/-- A string of groups and what it denotes, its first digits being behind
others that stand for `start`. -/
def SizeFrom : List SizeUnit → Nat → List UInt8 → Nat → Prop
  | [], start, str, value =>
      (∀ char ∈ str, isDigit char = true) ∧ value = decimalFrom start str
  | unit :: units, start, str, value =>
      SizeFrom units start str value ∨
        ∃ digits letter rest later,
          (∀ char ∈ digits, isDigit char = true) ∧
            unit.Spells letter ∧
              SizeFrom units 0 rest later ∧
                str = digits ++ letter :: rest ∧
                  value = decimalFrom start digits * 2 ^ unit.shift + later

/-- A string that denotes a size. -/
def IsSize (str : List UInt8) (value : Nat) : Prop :=
  SizeFrom [gUnit, mUnit, kUnit] 0 str value

/-- `hr_str_to_val`: what it returns, and `*val` afterwards. -/
def hrStrToValOut (str : List UInt8) (val : Nat) : Int × Nat :=
  match hrStrToVal str with
  | some num => (0, num)
  | none => (-einval, val)

section Characters

variable {units : List SizeUnit} {start value : Nat} {char : UInt8}
  {str : List UInt8}

theorem sizeFrom_nil : SizeFrom units start [] value ↔ value = start := by
  induction units with
  | nil => simp [SizeFrom, decimalFrom]
  | cons unit units induction => simp [SizeFrom, induction]

theorem sizeFrom_digit (digit : isDigit char = true)
    (apart : ∀ unit ∈ units, ¬unit.Spells char) :
    SizeFrom units start (char :: str) value ↔
      SizeFrom units (10 * start + (char.toNat - 0x30)) str value := by
  induction units with
  | nil => simp [SizeFrom, decimalFrom, digit]
  | cons unit units induction =>
      have notLetter := apart unit List.mem_cons_self
      have others := induction
        (fun other member => apart other (List.mem_cons_of_mem _ member))
      rw [SizeFrom, SizeFrom, others]
      apply or_congr_right
      constructor
      · rintro ⟨digits, letter, rest, later, areDigits, isLetter, behind,
          spelled, rfl⟩
        cases digits with
        | nil =>
            obtain ⟨rfl, -⟩ := List.cons.inj spelled
            exact absurd isLetter notLetter
        | cons first digits =>
            obtain ⟨rfl, rfl⟩ := List.cons.inj spelled
            exact ⟨digits, letter, rest, later,
              fun other member =>
                areDigits other (List.mem_cons_of_mem _ member),
              isLetter, behind, rfl, rfl⟩
      · rintro ⟨digits, letter, rest, later, areDigits, isLetter, behind,
          rfl, rfl⟩
        refine ⟨char :: digits, letter, rest, later, ?_, isLetter, behind,
          rfl, rfl⟩
        exact List.forall_mem_cons.mpr ⟨digit, areDigits⟩

/-- The units behind that of a letter, and its power of two. -/
def behindLetter (char : UInt8) : List SizeUnit → Option (Nat × List SizeUnit)
  | [] => none
  | unit :: units =>
      if unit.Spells char then some (unit.shift, units)
      else behindLetter char units

theorem sizeFrom_letter_of_behindLetter {shift later : Nat}
    {others : List SizeUnit}
    (found : behindLetter char units = some (shift, others))
    (behind : SizeFrom others 0 str later) :
    SizeFrom units start (char :: str) (start * 2 ^ shift + later) := by
  induction units with
  | nil => cases found
  | cons unit units induction =>
      rw [behindLetter] at found
      rw [SizeFrom]
      split at found
      · rename_i isLetter
        obtain ⟨rfl, rfl⟩ := Prod.mk.inj (Option.some.inj found)
        exact Or.inr ⟨[], char, str, later, by simp, isLetter, behind, rfl,
          rfl⟩
      · exact Or.inl (induction found)

theorem spells_of_behindLetter {found : Nat × List SizeUnit}
    (isFound : behindLetter char units = some found) :
    ∃ unit ∈ units, unit.Spells char := by
  induction units with
  | nil => cases isFound
  | cons unit units induction =>
      rw [behindLetter] at isFound
      split at isFound
      · rename_i isLetter
        exact ⟨unit, List.mem_cons_self, isLetter⟩
      · obtain ⟨other, member, isLetter⟩ := induction isFound
        exact ⟨other, List.mem_cons_of_mem _ member, isLetter⟩

theorem behindLetter_of_sizeFrom
    (apart : units.Pairwise fun unit other =>
      ∀ char, unit.Spells char → ¬other.Spells char)
    (notDigit : isDigit char = false)
    (isSize : SizeFrom units start (char :: str) value) :
    ∃ shift others later, behindLetter char units = some (shift, others) ∧
      SizeFrom others 0 str later ∧ value = start * 2 ^ shift + later := by
  induction units with
  | nil =>
      have digit := isSize.1 char List.mem_cons_self
      rw [notDigit] at digit
      cases digit
  | cons unit units induction =>
      obtain ⟨first, rest⟩ := List.pairwise_cons.mp apart
      rw [behindLetter]
      rw [SizeFrom] at isSize
      rcases isSize with skips | ⟨digits, letter, rest, later, areDigits,
        isLetter, behind, spelled, rfl⟩
      · obtain ⟨shift, others, later, found, behind, isValue⟩ :=
          induction rest skips
        obtain ⟨other, member, isLetter⟩ := spells_of_behindLetter found
        rw [if_neg (fun earlier => first other member char earlier isLetter)]
        exact ⟨shift, others, later, found, behind, isValue⟩
      · cases digits with
        | nil =>
            obtain ⟨rfl, rfl⟩ := List.cons.inj spelled
            rw [if_pos isLetter]
            exact ⟨unit.shift, units, later, rfl, behind, rfl⟩
        | cons digit digits =>
            obtain ⟨rfl, -⟩ := List.cons.inj spelled
            have digit := areDigits char List.mem_cons_self
            rw [notDigit] at digit
            cases digit

theorem not_sizeFrom
    (apart : units.Pairwise fun unit other =>
      ∀ char, unit.Spells char → ¬other.Spells char)
    (notDigit : isDigit char = false)
    (notFound : behindLetter char units = none)
    (value : Nat) : ¬SizeFrom units start (char :: str) value := by
  intro isSize
  obtain ⟨shift, others, later, found, -⟩ :=
    behindLetter_of_sizeFrom apart notDigit isSize
  rw [notFound] at found
  cases found

theorem sizeFrom_letter_iff {shift : Nat} {others : List SizeUnit}
    (apart : units.Pairwise fun unit other =>
      ∀ char, unit.Spells char → ¬other.Spells char)
    (notDigit : isDigit char = false)
    (isFound : behindLetter char units = some (shift, others))
    (value : Nat) :
    SizeFrom units start (char :: str) value ↔
      ∃ later, SizeFrom others 0 str later ∧
        value = start * 2 ^ shift + later := by
  constructor
  · intro isSize
    obtain ⟨_, _, later, found, behind, isValue⟩ :=
      behindLetter_of_sizeFrom apart notDigit isSize
    rw [isFound] at found
    obtain ⟨rfl, rfl⟩ := Prod.mk.inj (Option.some.inj found)
    exact ⟨later, behind, isValue⟩
  · rintro ⟨later, behind, rfl⟩
    exact sizeFrom_letter_of_behindLetter isFound behind

end Characters

/-- The units that may still follow. -/
def unitsLeft (mark : UInt8) : List SizeUnit :=
  if mark &&& kMark ≠ 0 then []
  else if mark &&& mMark ≠ 0 then [kUnit]
  else if mark &&& gMark ≠ 0 then [mUnit, kUnit]
  else [gUnit, mUnit, kUnit]

def marks : List UInt8 :=
  [0, gMark, mMark, gMark ||| mMark, kMark, gMark ||| kMark, mMark ||| kMark,
    gMark ||| mMark ||| kMark]

theorem unitsLeft_suffix (mark : UInt8) :
    unitsLeft mark <:+ [gUnit, mUnit, kUnit] := by
  unfold unitsLeft
  split
  · exact List.nil_suffix
  · split
    · exact ⟨[gUnit, mUnit], rfl⟩
    · split
      · exact ⟨[gUnit], rfl⟩
      · exact List.suffix_rfl

theorem unitsLeft_apart (mark : UInt8) :
    (unitsLeft mark).Pairwise fun unit other =>
      ∀ char, unit.Spells char → ¬other.Spells char := by
  have apart : [gUnit, mUnit, kUnit].Pairwise fun unit other =>
      ¬other.Spells unit.small ∧ ¬other.Spells unit.capital := by
    decide
  refine (apart.sublist (unitsLeft_suffix mark).sublist).imp ?_
  rintro unit other ⟨small, capital⟩ char (rfl | rfl)
  · exact small
  · exact capital

/-- The letters of the units. -/
def letters : List UInt8 := [0x67, 0x47, 0x6d, 0x4d, 0x6b, 0x4b]

theorem mem_letters_of_behindLetter {mark char : UInt8}
    {found : Nat × List SizeUnit}
    (isFound : behindLetter char (unitsLeft mark) = some found) :
    char ∈ letters := by
  obtain ⟨unit, member, isLetter⟩ := spells_of_behindLetter isFound
  have small : ∀ unit ∈ [gUnit, mUnit, kUnit],
      unit.small ∈ letters ∧ unit.capital ∈ letters := by
    decide
  obtain ⟨isSmall, isCapital⟩ :=
    small unit ((unitsLeft_suffix mark).subset member)
  rcases isLetter with rfl | rfl
  · exact isSmall
  · exact isCapital

theorem mem_letters_of_hrUnit {char : UInt8} {unit : HrUnit}
    (isUnit : hrUnit char = some unit) : char ∈ letters := by
  by_contra other
  simp only [letters, List.mem_cons, List.not_mem_nil, or_false,
    not_or] at other
  obtain ⟨_, _, _, _, _, _⟩ := other
  simp [hrUnit, *] at isUnit

theorem not_spells_of_isDigit {char : UInt8} (digit : isDigit char = true)
    (mark : UInt8) : ∀ unit ∈ unitsLeft mark, ¬unit.Spells char := by
  intro unit member isLetter
  have noDigit : ∀ unit ∈ [gUnit, mUnit, kUnit],
      isDigit unit.small = false ∧ isDigit unit.capital = false := by
    decide
  obtain ⟨small, capital⟩ :=
    noDigit unit ((unitsLeft_suffix mark).subset member)
  rcases isLetter with rfl | rfl
  · rw [small] at digit
    cases digit
  · rw [capital] at digit
    cases digit

theorem behindLetter_unitsLeft {mark : UInt8} (isMark : mark ∈ marks)
    (char : UInt8) :
    behindLetter char (unitsLeft mark) =
      (hrUnit char).bind fun unit =>
        if mark &&& unit.blocked ≠ 0 then none
        else some (unit.shift, unitsLeft (mark ||| unit.mark)) := by
  by_cases isLetter : char ∈ letters
  · have each : letters.all (fun char => marks.all fun mark =>
        decide (behindLetter char (unitsLeft mark) =
          (hrUnit char).bind fun unit =>
            if mark &&& unit.blocked ≠ 0 then none
            else some (unit.shift, unitsLeft (mark ||| unit.mark)))) =
          true := by
      decide
    simp only [List.all_eq_true, decide_eq_true_eq] at each
    exact each char isLetter mark isMark
  · have noUnit : hrUnit char = none := by
      cases isUnit : hrUnit char with
      | none => rfl
      | some unit => exact absurd (mem_letters_of_hrUnit isUnit) isLetter
    rw [noUnit, Option.bind_none]
    cases isFound : behindLetter char (unitsLeft mark) with
    | none => rfl
    | some found =>
        exact absurd (mem_letters_of_behindLetter isFound) isLetter

theorem mark_mem_marks {mark char : UInt8} (isMark : mark ∈ marks)
    {unit : HrUnit} (isUnit : hrUnit char = some unit) :
    mark ||| unit.mark ∈ marks := by
  have each : letters.all (fun char => marks.all fun mark =>
      (hrUnit char).all fun unit => decide (mark ||| unit.mark ∈ marks)) =
        true := by
    decide
  simp only [List.all_eq_true, Option.all_eq_true, decide_eq_true_eq] at each
  exact each char (mem_letters_of_hrUnit isUnit) mark isMark unit isUnit

theorem hrLoop_eq_some_iff {str : List UInt8} {mark : UInt8}
    (isMark : mark ∈ marks) (num start result : Nat) :
    hrLoop str mark num (start % 2 ^ 32) = some result ↔
      ∃ value, SizeFrom (unitsLeft mark) start str value ∧
        result = (num + value) % 2 ^ 32 := by
  induction str generalizing mark num start with
  | nil =>
      simp only [hrLoop, sizeFrom_nil, add32, Option.some.injEq,
        exists_eq_left, Nat.add_mod_mod]
      exact eq_comm
  | cons char str induction =>
      rw [hrLoop]
      by_cases digit : isDigit char = true
      · have isDigitChar : 0x30 ≤ char ∧ char ≤ 0x39 := by
          simpa [isDigit] using digit
        have wraps : (start % 2 ^ 32 * 10 + (char.toNat - 0x30)) % 2 ^ 32 =
            (10 * start + (char.toNat - 0x30)) % 2 ^ 32 := by
          omega
        rw [if_pos isDigitChar, wraps, induction isMark]
        simp only [sizeFrom_digit digit (not_spells_of_isDigit digit mark)]
      · have notDigit : isDigit char = false := by
          simpa using digit
        have other : ¬(0x30 ≤ char ∧ char ≤ 0x39) := by
          simpa [isDigit] using digit
        have left := behindLetter_unitsLeft isMark char
        have apart := unitsLeft_apart mark
        rw [if_neg other]
        cases isUnit : hrUnit char with
        | none =>
            rw [isUnit, Option.bind_none] at left
            simp only [reduceCtorEq, false_iff]
            rintro ⟨value, isSize, -⟩
            exact not_sizeFrom apart notDigit left value isSize
        | some unit =>
            rw [isUnit, Option.bind_some] at left
            simp only
            by_cases blocked : mark &&& unit.blocked ≠ 0
            · rw [if_pos blocked] at left ⊢
              simp only [reduceCtorEq, false_iff]
              rintro ⟨value, isSize, -⟩
              exact not_sizeFrom apart notDigit left value isSize
            · rw [if_neg blocked] at left ⊢
              have step := induction (mark_mem_marks isMark isUnit)
                (add32 num (start % 2 ^ 32 * 2 ^ unit.shift % 2 ^ 32)) 0
              rw [Nat.zero_mod] at step
              rw [step]
              have adds (later : Nat) :
                  (add32 num (start % 2 ^ 32 * 2 ^ unit.shift % 2 ^ 32) +
                    later) % 2 ^ 32 =
                  (num + (start * 2 ^ unit.shift + later)) % 2 ^ 32 := by
                rw [add32, Nat.mod_mul_mod, Nat.add_mod_mod, Nat.mod_add_mod,
                  Nat.add_assoc]
              simp only [sizeFrom_letter_iff apart notDigit left]
              constructor
              · rintro ⟨later, behind, rfl⟩
                exact ⟨_, ⟨later, behind, rfl⟩, adds later⟩
              · rintro ⟨_, ⟨later, behind, rfl⟩, rfl⟩
                exact ⟨later, behind, (adds later).symm⟩

theorem hrStrToVal_eq_some_iff (str : List UInt8) (result : Nat) :
    hrStrToVal str = some result ↔
      ∃ value, IsSize str value ∧ result = value % 2 ^ 32 := by
  have isMark : 0 ∈ marks := by decide
  have read : hrLoop str 0 0 (0 % 2 ^ 32) = some result ↔ _ :=
    hrLoop_eq_some_iff isMark 0 0 result
  have all : unitsLeft 0 = [gUnit, mUnit, kUnit] := by decide
  simp only [Nat.zero_mod, Nat.zero_add, all] at read
  exact read

/-- `hr_str_to_val` accepts the strings that denote a size, and no others. -/
theorem hrStrToValOut_isSize (str : List UInt8) (val : Nat) :
    (∀ value, IsSize str value →
      hrStrToValOut str val = (0, value % 2 ^ 32)) ∧
    ((¬∃ value, IsSize str value) →
      hrStrToValOut str val = (-einval, val)) := by
  unfold hrStrToValOut
  constructor
  · intro value isSize
    rw [(hrStrToVal_eq_some_iff str _).mpr ⟨value, isSize, rfl⟩]
  · intro noSize
    have rejected : hrStrToVal str = none := by
      cases read : hrStrToVal str with
      | none => rfl
      | some result =>
          obtain ⟨value, isSize, -⟩ := (hrStrToVal_eq_some_iff str _).mp read
          exact absurd ⟨value, isSize⟩ noSize
    rw [rejected]

end Witos.Extra
