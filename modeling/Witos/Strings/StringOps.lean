import Witos.Library.Bytes

/-!
# Strings

The functions of `lib/std/string.c` that compare, copy and search strings.  A
string is the list of its characters, and what is read behind them is its
terminator.  Pointers into a string that is searched are counted from its
start.  Plain `char` is unsigned, as it is on the machines the system is built
for, and no string is as long as the address space, so that no counter wraps
around.
-/

namespace Witos.Strings

open Library

/-- A string without its terminator. -/
structure CStr where
  chars : List UInt8
  noNul : 0 ∉ chars
deriving DecidableEq

def strlen : List UInt8 → Nat
  | [] => 0
  | _ :: rest => strlen rest + 1

def strnlen : List UInt8 → Nat → Nat
  | [], _ => 0
  | _ :: _, 0 => 0
  | _ :: rest, count + 1 => strnlen rest count + 1

def strcmp : List UInt8 → List UInt8 → Int
  | [], right => if right.headD 0 = 0 then 0 else 0 - (right.headD 0).toNat
  | char :: left, right =>
      if char = right.headD 0 then
        if char = 0 then 0 else strcmp left right.tail
      else char.toNat - (right.headD 0).toNat

/-- The loop of `strncmp`. -/
def strncmpFrom (count : Nat) : Nat → List UInt8 → List UInt8 → Int
  | _, [], right =>
      if right.headD 0 = 0 then 0 else 0 - (right.headD 0).toNat
  | n, char :: left, right =>
      if char = right.headD 0 then
        if char = 0 ∨ n = count then 0
        else strncmpFrom count (n + 1) left right.tail
      else char.toNat - (right.headD 0).toNat

def strncmp (left right : List UInt8) (count : Nat) : Int :=
  strncmpFrom count 1 left right

/-- `while ((*iter = *src) != '\0')`. -/
def strcpyLoop : List UInt8 → Nat → (Nat → UInt8) → Nat → UInt8
  | [], iter, memory => Function.update memory iter 0
  | char :: src, iter, memory =>
      strcpyLoop src (iter + 1) (Function.update memory iter char)

/-- `strcpy`: what it returns, and the memory. -/
def strcpy (dst : Nat) (src : List UInt8) (memory : Nat → UInt8) :
    Nat × (Nat → UInt8) :=
  (dst, strcpyLoop src dst memory)

/-- `while ((n < count) && (*iter = *src))`: `iter`, `n` and the memory.  The
terminator is stored, but not passed. -/
def copyChars (count : Nat) :
    List UInt8 → Nat → Nat → (Nat → UInt8) → Nat × Nat × (Nat → UInt8)
  | [], iter, n, memory =>
      (iter, n, if n < count then Function.update memory iter 0 else memory)
  | char :: src, iter, n, memory =>
      if n < count then
        copyChars count src (iter + 1) (n + 1)
          (Function.update memory iter char)
      else (iter, n, memory)

/-- So many rounds of the loop that stores zeros. -/
def fillZeros : Nat → Nat → (Nat → UInt8) → Nat → UInt8
  | 0, _, memory => memory
  | rounds + 1, iter, memory =>
      fillZeros rounds (iter + 1) (Function.update memory iter 0)

/-- `while (n < count)`. -/
def zeroRest (count : Nat) : Nat × Nat × (Nat → UInt8) → Nat → UInt8
  | (iter, n, memory) => fillZeros (count - n) iter memory

/-- Both loops, which `strncpy` and `strncat` have in common. -/
def copyPadded (src : List UInt8) (count iter : Nat) (memory : Nat → UInt8) :
    Nat → UInt8 :=
  zeroRest count (copyChars count src iter 0 memory)

def strncpy (dst : Nat) (src : List UInt8) (count : Nat)
    (memory : Nat → UInt8) : Nat × (Nat → UInt8) :=
  (dst, copyPadded src count dst memory)

/-- `strncat`, for the string that is at `dst`. -/
def strncat (dst : Nat) (text src : List UInt8) (count : Nat)
    (memory : Nat → UInt8) : Nat × (Nat → UInt8) :=
  (dst, copyPadded src count (dst + strlen text) memory)

/-- `while (q[i] && q[i] == p[i])`, and whether it ends with the needle. -/
def startsWith : List UInt8 → List UInt8 → Bool
  | [], _ => true
  | char :: needle, p =>
      if char = p.headD 0 then startsWith needle p.tail else false

def strstr (haystack needle : List UInt8) : Option Nat :=
  match haystack with
  | [] => none
  | char :: rest =>
      if startsWith needle (char :: rest) then some 0
      else (strstr rest needle).map (· + 1)

def strchr (src : List UInt8) (c : Int) : Option Nat :=
  match src with
  | [] => none
  | char :: rest =>
      if char.toNat = c then some 0 else (strchr rest c).map (· + 1)

/-- The downward loop of `strrchr`. -/
def strrchrFrom (src : List UInt8) (c : Int) : Nat → Option Nat
  | 0 => none
  | iter + 1 =>
      if (src.getD iter 0).toNat = c then some iter
      else strrchrFrom src c iter

def strrchr (src : List UInt8) (c : Int) : Option Nat :=
  strrchrFrom src c (strlen src)

theorem strlen_eq_length (src : List UInt8) : strlen src = src.length := by
  induction src with
  | nil => rfl
  | cons char src induction => rw [strlen, induction, List.length_cons]

theorem strnlen_eq_min (src : List UInt8) (count : Nat) :
    strnlen src count = min src.length count := by
  induction src generalizing count with
  | nil => simp [strnlen]
  | cons char src induction =>
      cases count with
      | zero => rfl
      | succ count => rw [strnlen, induction, List.length_cons,
          Nat.add_min_add_right]

theorem strcpyLoop_eq (src : List UInt8) (iter : Nat)
    (memory : Nat → UInt8) :
    strcpyLoop src iter memory = overlayAt iter (src ++ [0]) memory := by
  induction src generalizing iter memory with
  | nil => exact (overlayAt_singleton iter 0 memory).symm
  | cons char src induction =>
      rw [strcpyLoop, induction, ← overlayAt_singleton]
      exact overlayAt_append iter [char] (src ++ [0]) memory

theorem fillZeros_eq (rounds iter : Nat) (memory : Nat → UInt8) :
    fillZeros rounds iter memory =
      overlayAt iter (List.replicate rounds 0) memory := by
  induction rounds generalizing iter memory with
  | zero => exact (overlayAt_nil iter memory).symm
  | succ rounds induction =>
      rw [fillZeros, induction, ← overlayAt_singleton]
      exact overlayAt_append iter [0] (List.replicate rounds 0) memory

theorem zeroRest_copyChars (count : Nat) (src : List UInt8) (iter n : Nat)
    (memory : Nat → UInt8) :
    zeroRest count (copyChars count src iter n memory) =
      overlayAt iter (src.take (count - n) ++
        List.replicate (count - n - src.length) 0) memory := by
  induction src generalizing iter n memory with
  | nil =>
      rw [copyChars, zeroRest, fillZeros_eq, List.take_nil, List.nil_append,
        List.length_nil, Nat.sub_zero]
      split
      · rename_i more
        have covered : [(0 : UInt8)].length ≤
            (List.replicate (count - n) (0 : UInt8)).length := by
          simp
          omega
        rw [← overlayAt_singleton, overlayAt_overlayAt iter covered]
      · rfl
  | cons char src induction =>
      rw [copyChars]
      split
      · rename_i more
        obtain ⟨left, rounds⟩ : ∃ left, count - n = left + 1 :=
          ⟨count - n - 1, by omega⟩
        have fewer : count - (n + 1) = left := by omega
        rw [induction, fewer, rounds, ← overlayAt_singleton,
          List.take_succ_cons, List.length_cons, Nat.add_sub_add_right]
        exact overlayAt_append iter [char] _ memory
      · rename_i last
        have noRounds : count - n = 0 := by omega
        simp [zeroRest, noRounds, fillZeros, overlayAt_nil]

theorem copyPadded_eq (src : List UInt8) (count iter : Nat)
    (memory : Nat → UInt8) :
    copyPadded src count iter memory =
      overlayAt iter (src.take count ++
        List.replicate (count - src.length) 0) memory := by
  rw [copyPadded, zeroRest_copyChars, Nat.sub_zero]

theorem startsWith_iff {needle : List UInt8} (noNul : 0 ∉ needle)
    (text : List UInt8) : startsWith needle text = true ↔ needle <+: text := by
  induction needle generalizing text with
  | nil => simp [startsWith]
  | cons char needle induction =>
      rw [List.mem_cons, not_or] at noNul
      cases text with
      | nil => simp [startsWith, Ne.symm noNul.1]
      | cons first text =>
          rw [startsWith, List.cons_prefix_cons, ← induction noNul.2]
          simp

end Witos.Strings
