import Witos.Library.Word

/-!
# Numbers in human form

`hr_str_to_val` of `lib/extra/strex.c`: a number with the units `G`, `M` and `K`
in this order, each at most once.
-/

namespace Witos.Extra

open Library

/-- A unit: the marks it may not follow, its own mark and its power of two. -/
structure HrUnit where
  blocked : UInt8
  mark : UInt8
  shift : Nat

def gMark : UInt8 := 0x80
def mMark : UInt8 := 0x40
def kMark : UInt8 := 0x20

def hrUnit (char : UInt8) : Option HrUnit :=
  if char = 0x67 ∨ char = 0x47 then some ⟨gMark ||| mMark ||| kMark, gMark, 30⟩
  else if char = 0x6d ∨ char = 0x4d then some ⟨mMark ||| kMark, mMark, 20⟩
  else if char = 0x6b ∨ char = 0x4b then some ⟨kMark, kMark, 10⟩
  else none

/-- The loop of `hr_str_to_val`. -/
def hrLoop : List UInt8 → UInt8 → Nat → Nat → Option Nat
  | [], _, num, tmp => some (add32 num tmp)
  | char :: str, mark, num, tmp =>
      if 0x30 ≤ char ∧ char ≤ 0x39 then
        hrLoop str mark num ((tmp * 10 + (char.toNat - 0x30)) % 2 ^ 32)
      else
        match hrUnit char with
        | none => none
        | some unit =>
            if mark &&& unit.blocked ≠ 0 then none
            else
              hrLoop str (mark ||| unit.mark)
                (add32 num (tmp * 2 ^ unit.shift % 2 ^ 32)) 0

/-- `hr_str_to_val`; `none` is `-EINVAL`. -/
def hrStrToVal (str : List UInt8) : Option Nat :=
  hrLoop str 0 0 0

theorem hrLoop_lt {str : List UInt8} {mark : UInt8} {num tmp value : Nat}
    (result : hrLoop str mark num tmp = some value) : value < 2 ^ 32 := by
  induction str generalizing mark num tmp with
  | nil =>
      obtain rfl := Option.some.inj result
      exact Nat.mod_lt _ (by decide)
  | cons char str induction =>
      unfold hrLoop at result
      split at result
      · exact induction result
      · split at result
        · cases result
        · split at result
          · cases result
          · exact induction result

theorem hrStrToVal_lt {str : List UInt8} {value : Nat}
    (result : hrStrToVal str = some value) : value < 2 ^ 32 :=
  hrLoop_lt result

end Witos.Extra
