import Witos.Library.Bytes
import Witos.Library.Word

/-!
# Addresses in text form

`str_to_ip` and `str_to_mac` of `lib/extra/strex.c`, with `hex_str_to_val`.
-/

namespace Witos.Extra

open Library

def isDigit (char : UInt8) : Bool := 0x30 ≤ char ∧ char ≤ 0x39

def fullStop : UInt8 := 0x2e
def macSeparator : UInt8 := 0x3a

/-- The loop of `str_to_ip`, with the bytes that it has stored and `num`; `dot`
is the number of these bytes. -/
def strToIpLoop : List UInt8 → List UInt8 → Nat → Option (List UInt8)
  | [], ipVal, num =>
      if ipVal.length < 3 ∨ 255 < num then none
      else some (ipVal ++ [UInt8.ofNat num])
  | char :: str, ipVal, num =>
      if isDigit char then
        strToIpLoop str ipVal ((10 * num + (char.toNat - 0x30)) % 2 ^ 32)
      else if char = fullStop ∧ num ≤ 255 ∧ ipVal.length < 3 then
        strToIpLoop str (ipVal ++ [UInt8.ofNat num]) 0
      else none

/-- `str_to_ip`; `none` is `-EINVAL`. -/
def strToIp (str : List UInt8) : Option (List UInt8) :=
  strToIpLoop str [] 0

def hexDigit (char : UInt8) : Option Nat :=
  if 0x30 ≤ char ∧ char ≤ 0x39 then some (char.toNat - 0x30)
  else if 0x61 ≤ char ∧ char ≤ 0x66 then some (char.toNat - 0x61 + 10)
  else if 0x41 ≤ char ∧ char ≤ 0x46 then some (char.toNat - 0x41 + 10)
  else none

/-- The loop of `hex_str_to_val`: the length of the string and the value. -/
def hexLoop : List UInt8 → Nat → Nat → Option (Nat × Nat)
  | [], len, tmp => some (len, tmp)
  | char :: str, len, tmp =>
      match hexDigit char with
      | none => none
      | some digit =>
          if 8 < len + 1 then none
          else hexLoop str (len + 1) (tmp * 16 % 2 ^ 32 + digit)

def hexStrToVal (str : List UInt8) : Option (Nat × Nat) :=
  hexLoop str 0 0

def macStrLen : Nat := 18
def macAdrLen : Nat := 6

/-- The loop of `str_to_mac` over the rest of `buf`, with the characters from
`p` on and the bytes that it has stored. -/
def strToMacLoop :
    List UInt8 → List UInt8 → List UInt8 → Option (List UInt8)
  | [], _, mac => if mac.length = macAdrLen then some mac else none
  | char :: buf, p, mac =>
      if mac.length = macAdrLen then some mac
      else if char = macSeparator ∨ char = 0 then
        match hexStrToVal p with
        | some (len, num) =>
            if 0 < len ∧ num ≤ 255 then
              strToMacLoop buf [] (mac ++ [UInt8.ofNat num])
            else none
        | none => none
      else strToMacLoop buf (p ++ [char]) mac

/-- `str_to_mac`; `none` is `-EINVAL`.  The loop also looks at the byte behind
`buf`. -/
def strToMac (behind : UInt8) (str : List UInt8) : Option (List UInt8) :=
  strToMacLoop
    (str.take macStrLen ++ List.replicate (macStrLen - str.length) 0 ++
      [behind]) [] []

/-- The number that a string of digits stands for, behind `num`. -/
def decimalFrom (num : Nat) (digits : List UInt8) : Nat :=
  digits.foldl (fun num char => 10 * num + (char.toNat - 0x30)) num

/-- A byte in decimal form. -/
structure IsDecimal (digits : List UInt8) (byte : UInt8) : Prop where
  nonempty : digits ≠ []
  digit : ∀ char ∈ digits, isDigit char = true
  value : decimalFrom 0 digits = byte.toNat

/-- Four bytes in decimal form with dots between them. -/
def Dotted (str bytes : List UInt8) : Prop :=
  ∃ first second third fourth a b c d, bytes = [a, b, c, d] ∧
    IsDecimal first a ∧ IsDecimal second b ∧ IsDecimal third c ∧
    IsDecimal fourth d ∧
    str = first ++ fullStop :: (second ++ fullStop ::
      (third ++ fullStop :: fourth))

theorem Dotted.length {str bytes : List UInt8} (dotted : Dotted str bytes) :
    bytes.length = 4 := by
  obtain ⟨_, _, _, _, a, b, c, d, rfl, _⟩ := dotted
  rfl

theorem le_decimalFrom (num : Nat) (digits : List UInt8) :
    num ≤ decimalFrom num digits := by
  induction digits generalizing num with
  | nil => exact Nat.le_refl num
  | cons char digits induction =>
      have step := induction (10 * num + (char.toNat - 0x30))
      have rest : decimalFrom num (char :: digits) =
          decimalFrom (10 * num + (char.toNat - 0x30)) digits := rfl
      rw [rest]
      omega

/-- Digits of a number that is no more than a byte do not wrap around. -/
theorem strToIpLoop_digits {digits : List UInt8}
    (digit : ∀ char ∈ digits, isDigit char = true) {num : Nat}
    (small : decimalFrom num digits ≤ 255) (str ipVal : List UInt8) :
    strToIpLoop (digits ++ str) ipVal num =
      strToIpLoop str ipVal (decimalFrom num digits) := by
  induction digits generalizing num with
  | nil => rfl
  | cons char digits induction =>
      have rest : decimalFrom num (char :: digits) =
          decimalFrom (10 * num + (char.toNat - 0x30)) digits := rfl
      rw [rest] at small ⊢
      have bound := le_decimalFrom (10 * num + (char.toNat - 0x30)) digits
      have whole : (10 * num + (char.toNat - 0x30)) % 2 ^ 32 =
          10 * num + (char.toNat - 0x30) := Nat.mod_eq_of_lt (by omega)
      rw [List.cons_append, strToIpLoop, if_pos (digit char List.mem_cons_self),
        whole]
      exact induction
        (fun other member => digit other (List.mem_cons_of_mem _ member)) small

theorem strToIpLoop_part {digits : List UInt8} {byte : UInt8}
    (isDecimal : IsDecimal digits byte) (str : List UInt8)
    {ipVal : List UInt8} (few : ipVal.length < 3) :
    strToIpLoop (digits ++ fullStop :: str) ipVal 0 =
      strToIpLoop str (ipVal ++ [byte]) 0 := by
  have bound := byte.toNat_lt
  have small : byte.toNat ≤ 255 := by omega
  rw [strToIpLoop_digits isDecimal.digit (by rwa [isDecimal.value]),
    isDecimal.value, strToIpLoop, if_neg (by decide), if_pos ⟨rfl, small, few⟩,
    UInt8.ofNat_toNat]

theorem strToIpLoop_last {digits : List UInt8} {byte : UInt8}
    (isDecimal : IsDecimal digits byte) {ipVal : List UInt8}
    (three : ipVal.length = 3) :
    strToIpLoop digits ipVal 0 = some (ipVal ++ [byte]) := by
  have bound := byte.toNat_lt
  have small : byte.toNat ≤ 255 := by omega
  have read := strToIpLoop_digits isDecimal.digit
    (by rwa [isDecimal.value]) [] ipVal
  rw [List.append_nil] at read
  rw [read, isDecimal.value, strToIpLoop, if_neg (by omega), UInt8.ofNat_toNat]

theorem strToIp_dotted {str bytes : List UInt8} (dotted : Dotted str bytes) :
    strToIp str = some bytes := by
  obtain ⟨first, second, third, fourth, a, b, c, d, rfl, isFirst, isSecond,
    isThird, isFourth, rfl⟩ := dotted
  rw [strToIp, strToIpLoop_part isFirst _ (by simp),
    strToIpLoop_part isSecond _ (by simp),
    strToIpLoop_part isThird _ (by simp), strToIpLoop_last isFourth rfl]
  rfl

end Witos.Extra
