import Witos.Extra.NumberText
import Witos.Stdio.FormatAgree
import Witos.Stdio.NumberLayout

/-!
# IP addresses in text form

The strings that `str_to_ip` accepts, and `ip_to_str` of `lib/extra/strex.c`.
-/

namespace Witos.Extra

open Library

/-- A string of digits, maybe empty, and the byte that is left of its value
behind `start`. -/
def IsGroup (start : Nat) (digits : List UInt8) (byte : UInt8) : Prop :=
  (∀ char ∈ digits, isDigit char = true) ∧
    decimalFrom start digits % 2 ^ 32 = byte.toNat

/-- Groups with so many dots between them. -/
def GroupsFrom : Nat → Nat → List UInt8 → List UInt8 → Prop
  | 0, start, str, bytes =>
      ∃ byte, IsGroup start str byte ∧ bytes = [byte]
  | dots + 1, start, str, bytes =>
      ∃ digits byte rest later, IsGroup start digits byte ∧
        GroupsFrom dots 0 rest later ∧ str = digits ++ fullStop :: rest ∧
          bytes = byte :: later

section Characters

variable {dots start : Nat} {str bytes : List UInt8} {char : UInt8}

theorem isGroup_nil_iff {byte : UInt8} :
    IsGroup start [] byte ↔
      start % 2 ^ 32 ≤ 255 ∧ byte = UInt8.ofNat (start % 2 ^ 32) := by
  constructor
  · rintro ⟨-, value⟩
    have isByte : start % 2 ^ 32 = byte.toNat := value
    have bound := byte.toNat_lt
    rw [isByte]
    exact ⟨by omega, UInt8.ofNat_toNat.symm⟩
  · rintro ⟨small, rfl⟩
    have isByte : start % 2 ^ 32 < 2 ^ 8 := by omega
    refine ⟨by simp, ?_⟩
    rw [UInt8.toNat_ofNat']
    exact (Nat.mod_eq_of_lt isByte).symm

theorem isGroup_cons_iff {digits : List UInt8} {byte : UInt8} :
    IsGroup start (char :: digits) byte ↔ isDigit char = true ∧
      IsGroup (10 * start + (char.toNat - 0x30)) digits byte := by
  unfold IsGroup
  rw [List.forall_mem_cons, and_assoc]
  rfl

theorem groupsFrom_nil_iff :
    GroupsFrom dots start [] bytes ↔ dots = 0 ∧
      start % 2 ^ 32 ≤ 255 ∧ bytes = [UInt8.ofNat (start % 2 ^ 32)] := by
  cases dots with
  | zero => simp [GroupsFrom, isGroup_nil_iff]
  | succ dots => simp [GroupsFrom]

theorem groupsFrom_digit_iff (digit : isDigit char = true) :
    GroupsFrom dots start (char :: str) bytes ↔
      GroupsFrom dots (10 * start + (char.toNat - 0x30)) str bytes := by
  cases dots with
  | zero => simp only [GroupsFrom, isGroup_cons_iff, digit, true_and]
  | succ dots =>
      constructor
      · rintro ⟨digits, byte, rest, later, isGroup, behind, spelled, rfl⟩
        cases digits with
        | nil =>
            obtain ⟨rfl, -⟩ := List.cons.inj spelled
            exact absurd digit (by decide)
        | cons first digits =>
            obtain ⟨rfl, rfl⟩ := List.cons.inj spelled
            exact ⟨digits, byte, rest, later, (isGroup_cons_iff.mp isGroup).2,
              behind, rfl, rfl⟩
      · rintro ⟨digits, byte, rest, later, isGroup, behind, rfl, rfl⟩
        exact ⟨char :: digits, byte, rest, later,
          isGroup_cons_iff.mpr ⟨digit, isGroup⟩, behind, rfl, rfl⟩

theorem groupsFrom_other_iff (notDigit : isDigit char = false) :
    GroupsFrom dots start (char :: str) bytes ↔
      char = fullStop ∧ start % 2 ^ 32 ≤ 255 ∧
        ∃ less later, dots = less + 1 ∧ GroupsFrom less 0 str later ∧
          bytes = UInt8.ofNat (start % 2 ^ 32) :: later := by
  cases dots with
  | zero => simp [GroupsFrom, isGroup_cons_iff, notDigit]
  | succ dots =>
      constructor
      · rintro ⟨digits, byte, rest, later, isGroup, behind, spelled, rfl⟩
        cases digits with
        | nil =>
            obtain ⟨rfl, rfl⟩ := List.cons.inj spelled
            obtain ⟨small, rfl⟩ := isGroup_nil_iff.mp isGroup
            exact ⟨rfl, small, dots, later, rfl, behind, rfl⟩
        | cons first digits =>
            obtain ⟨rfl, -⟩ := List.cons.inj spelled
            rw [isGroup_cons_iff, notDigit] at isGroup
            cases isGroup.1
      · rintro ⟨rfl, small, less, later, same, behind, rfl⟩
        obtain rfl := Nat.succ.inj same
        exact ⟨[], _, str, later, isGroup_nil_iff.mpr ⟨small, rfl⟩, behind,
          rfl, rfl⟩

theorem strToIpLoop_eq_some_iff {ipVal : List UInt8}
    (few : ipVal.length + dots = 3) :
    strToIpLoop str ipVal (start % 2 ^ 32) = some bytes ↔
      ∃ later, GroupsFrom dots start str later ∧ bytes = ipVal ++ later := by
  induction str generalizing ipVal dots start with
  | nil =>
      rw [strToIpLoop]
      simp only [groupsFrom_nil_iff]
      by_cases bad : ipVal.length < 3 ∨ 255 < start % 2 ^ 32
      · rw [if_pos bad]
        constructor
        · intro none
          cases none
        · rintro ⟨later, ⟨rfl, small, -⟩, -⟩
          omega
      · rw [if_neg bad]
        constructor
        · intro read
          obtain rfl := Option.some.inj read
          exact ⟨_, ⟨by omega, by omega, rfl⟩, rfl⟩
        · rintro ⟨later, ⟨-, -, rfl⟩, rfl⟩
          rfl
  | cons char str induction =>
      rw [strToIpLoop]
      by_cases digit : isDigit char = true
      · have wraps : (10 * (start % 2 ^ 32) + (char.toNat - 0x30)) % 2 ^ 32 =
            (10 * start + (char.toNat - 0x30)) % 2 ^ 32 := by
          omega
        rw [if_pos digit, wraps, induction few]
        simp only [groupsFrom_digit_iff digit]
      · have notDigit : isDigit char = false := by simpa using digit
        rw [if_neg digit]
        simp only [groupsFrom_other_iff notDigit]
        by_cases good : char = fullStop ∧ start % 2 ^ 32 ≤ 255 ∧
            ipVal.length < 3
        · obtain ⟨rfl, small, room⟩ := good
          obtain ⟨less, rfl⟩ : ∃ less, dots = less + 1 :=
            ⟨dots - 1, by omega⟩
          have next : (ipVal ++ [UInt8.ofNat (start % 2 ^ 32)]).length +
              less = 3 := by
            rw [List.length_append, List.length_singleton]
            omega
          have behind : strToIpLoop str
              (ipVal ++ [UInt8.ofNat (start % 2 ^ 32)]) (0 % 2 ^ 32) =
                some bytes ↔ _ := induction next
          rw [Nat.zero_mod] at behind
          rw [if_pos ⟨rfl, small, room⟩, behind]
          constructor
          · rintro ⟨later, groups, rfl⟩
            exact ⟨_, ⟨rfl, small, less, later, rfl, groups, rfl⟩, by simp⟩
          · rintro ⟨_, ⟨-, -, other, later, same, groups, rfl⟩, rfl⟩
            obtain rfl := Nat.succ.inj same
            exact ⟨later, groups, by simp⟩
        · rw [if_neg good]
          constructor
          · intro none
            cases none
          · rintro ⟨_, ⟨rfl, small, less, later, rfl, -⟩, -⟩
            exact absurd ⟨rfl, small, by omega⟩ good

/-- Four groups with dots between them, and what is left of their values. -/
theorem strToIp_eq_some_iff :
    strToIp str = some bytes ↔ GroupsFrom 3 0 str bytes := by
  have few : ([] : List UInt8).length + 3 = 3 := rfl
  have read : strToIpLoop str [] (0 % 2 ^ 32) = some bytes ↔ _ :=
    strToIpLoop_eq_some_iff few
  simp only [List.nil_append, exists_eq_right', Nat.zero_mod] at read
  exact read

end Characters

/-- A string is accepted exactly if it is an address, and read as it. -/
def ExactIp (str : List UInt8) : Prop :=
  ∀ bytes, strToIp str = some bytes ↔ Dotted str bytes

def dotted (first second third fourth : List UInt8) : List UInt8 :=
  first ++ fullStop :: (second ++ fullStop :: (third ++ fullStop :: fourth))

/-- Groups that are left as bytes are not empty, and do not wrap around. -/
def PlainGroups (str : List UInt8) : Prop :=
  ∀ first second third fourth, str = dotted first second third fourth →
    (∀ group ∈ [first, second, third, fourth],
      (∀ char ∈ group, isDigit char = true) ∧
        decimalFrom 0 group % 2 ^ 32 ≤ 255) →
      ∀ group ∈ [first, second, third, fourth],
        group ≠ [] ∧ decimalFrom 0 group < 2 ^ 32

theorem digits_append_inj {digits others rest behind : List UInt8}
    (areDigits : ∀ char ∈ digits, isDigit char = true)
    (areOthers : ∀ char ∈ others, isDigit char = true)
    (same : digits ++ fullStop :: rest = others ++ fullStop :: behind) :
    digits = others ∧ rest = behind := by
  have stop : ¬isDigit fullStop = true := by decide
  have first := congrArg (List.takeWhile isDigit) same
  rw [List.takeWhile_append_of_pos areDigits,
    List.takeWhile_append_of_pos areOthers, List.takeWhile_cons_of_neg stop,
    List.takeWhile_cons_of_neg stop, List.append_nil, List.append_nil] at first
  subst first
  exact ⟨rfl, (List.cons.inj (List.append_cancel_left same)).2⟩

theorem groupsFrom_three_iff {str bytes : List UInt8} :
    GroupsFrom 3 0 str bytes ↔
      ∃ first second third fourth a b c d, IsGroup 0 first a ∧
        IsGroup 0 second b ∧ IsGroup 0 third c ∧ IsGroup 0 fourth d ∧
          str = dotted first second third fourth ∧ bytes = [a, b, c, d] := by
  constructor
  · rintro ⟨first, a, _, _, isFirst, ⟨second, b, _, _, isSecond,
      ⟨third, c, fourth, _, isThird, ⟨d, isFourth, rfl⟩, rfl, rfl⟩, rfl, rfl⟩,
      rfl, rfl⟩
    exact ⟨first, second, third, fourth, a, b, c, d, isFirst, isSecond,
      isThird, isFourth, rfl, rfl⟩
  · rintro ⟨first, second, third, fourth, a, b, c, d, isFirst, isSecond,
      isThird, isFourth, rfl, rfl⟩
    exact ⟨first, a, _, _, isFirst, ⟨second, b, _, _, isSecond,
      ⟨third, c, fourth, _, isThird, ⟨d, isFourth, rfl⟩, rfl, rfl⟩, rfl, rfl⟩,
      rfl, rfl⟩

theorem IsGroup.isDecimal {digits : List UInt8} {byte : UInt8}
    (isGroup : IsGroup 0 digits byte) (some_ : digits ≠ [])
    (small : decimalFrom 0 digits < 2 ^ 32) : IsDecimal digits byte where
  nonempty := some_
  digit := isGroup.1
  value := (Nat.mod_eq_of_lt small).symm.trans isGroup.2

theorem IsGroup.small {start : Nat} {digits : List UInt8} {byte : UInt8}
    (isGroup : IsGroup start digits byte) :
    decimalFrom start digits % 2 ^ 32 ≤ 255 := by
  have bound := byte.toNat_lt
  rw [isGroup.2]
  omega

theorem isGroup_ofNat {start : Nat} {digits : List UInt8}
    (areDigits : ∀ char ∈ digits, isDigit char = true)
    (small : decimalFrom start digits % 2 ^ 32 ≤ 255) :
    IsGroup start digits
      (UInt8.ofNat (decimalFrom start digits % 2 ^ 32)) := by
  have isByte : decimalFrom start digits % 2 ^ 32 < 2 ^ 8 := by omega
  refine ⟨areDigits, ?_⟩
  rw [UInt8.toNat_ofNat']
  exact (Nat.mod_eq_of_lt isByte).symm

theorem IsDecimal.plain {digits : List UInt8} {byte : UInt8}
    (isDecimal : IsDecimal digits byte) :
    digits ≠ [] ∧ decimalFrom 0 digits < 2 ^ 32 := by
  have bound := byte.toNat_lt
  refine ⟨isDecimal.nonempty, ?_⟩
  rw [isDecimal.value]
  omega

theorem exactIp_iff (str : List UInt8) : ExactIp str ↔ PlainGroups str := by
  constructor
  · intro exact_ first second third fourth spelled groups
    simp only [List.mem_cons, List.not_mem_nil, or_false, forall_eq_or_imp,
      forall_eq] at groups ⊢
    obtain ⟨isFirst, isSecond, isThird, isFourth⟩ := groups
    have read := strToIp_eq_some_iff.mpr (groupsFrom_three_iff.mpr
      ⟨first, second, third, fourth, _, _, _, _,
        isGroup_ofNat isFirst.1 isFirst.2,
        isGroup_ofNat isSecond.1 isSecond.2,
        isGroup_ofNat isThird.1 isThird.2,
        isGroup_ofNat isFourth.1 isFourth.2, spelled, rfl⟩)
    obtain ⟨one, two, three, four, a, b, c, d, -, isOne, isTwo, isThree,
      isFour, same⟩ := (exact_ _).mp read
    rw [spelled] at same
    obtain ⟨rfl, afterFirst⟩ := digits_append_inj isFirst.1 isOne.digit same
    obtain ⟨rfl, afterSecond⟩ :=
      digits_append_inj isSecond.1 isTwo.digit afterFirst
    obtain ⟨rfl, rfl⟩ :=
      digits_append_inj isThird.1 isThree.digit afterSecond
    exact ⟨isOne.plain, isTwo.plain, isThree.plain, isFour.plain⟩
  · intro plain bytes
    refine ⟨?_, strToIp_dotted⟩
    intro read
    obtain ⟨first, second, third, fourth, a, b, c, d, isFirst, isSecond,
      isThird, isFourth, spelled, rfl⟩ :=
      groupsFrom_three_iff.mp (strToIp_eq_some_iff.mp read)
    have all := plain first second third fourth spelled (by
      simp only [List.mem_cons, List.not_mem_nil, or_false, forall_eq_or_imp,
        forall_eq]
      exact ⟨⟨isFirst.1, isFirst.small⟩, ⟨isSecond.1, isSecond.small⟩,
        ⟨isThird.1, isThird.small⟩, ⟨isFourth.1, isFourth.small⟩⟩)
    simp only [List.mem_cons, List.not_mem_nil, or_false, forall_eq_or_imp,
      forall_eq] at all
    obtain ⟨one, two, three, four⟩ := all
    exact ⟨first, second, third, fourth, a, b, c, d, rfl,
      isFirst.isDecimal one.1 one.2, isSecond.isDecimal two.1 two.2,
      isThird.isDecimal three.1 three.2, isFourth.isDecimal four.1 four.2,
      spelled⟩

open Stdio (sprintf sprintfSwitch plainSigned Flag)

/-- `"%d.%d.%d.%d"`. -/
def ipFormat : List UInt8 :=
  [0x25, 0x64, 0x2e, 0x25, 0x64, 0x2e, 0x25, 0x64, 0x2e, 0x25, 0x64]

/-- The bytes of the address, as arguments of `sprintf`. -/
def ipArguments (ip : UInt32) (index : Nat) : UInt32 :=
  ip >>> UInt32.ofNat (8 * index) &&& 0xff

theorem stop_ne_percent : fullStop ≠ Stdio.percent := by
  decide

/-- The string that `ip_to_str` stores. -/
def ipToStr (strings : UInt32 → List UInt8) (ip : UInt32) : List UInt8 :=
  sprintf strings ipFormat (ipArguments ip)

theorem pdigit_eq_digitChar : ∀ digit < 10,
    Stdio.pdigit digit = digitChar digit := by
  decide

/-- `%d` of a byte. -/
theorem plainSigned_byte (strings : UInt32 → List UInt8) {word : UInt32}
    (byte : word.toNat < 256) :
    plainSigned.text sprintfSwitch strings word =
      decimalText word.toNat := by
  have isBase : (10 : Nat) = 8 ∨ (10 : Nat) = 10 ∨ (10 : Nat) = 16 :=
    Or.inr (Or.inl rfl)
  have short : Stdio.naturalLength word.toNat 10 {Flag.signInt, Flag.sign} ≤
      34 := Stdio.naturalLength_le _ word.toNat_lt (by decide)
  have room : Stdio.RoomIsInt word.toNat 0 10 {Flag.signInt, Flag.sign} := by
    unfold Stdio.RoomIsInt
    split <;> omega
  have isInt : Stdio.toInt32 word.toNat = word.toNat :=
    Stdio.toInt32_of_range (by omega) (by omega)
  have notNegative : ¬(word.toNat : Int) < 0 := by omega
  have noFill : (0 - (Stdio.naturalLength word.toNat 10
      {Flag.signInt, Flag.sign} : Int)).toNat = 0 := by omega
  have bare : Stdio.bareText word.toNat 10 {Flag.signInt, Flag.sign} =
      decimalText word.toNat := by
    simp [Stdio.bareText, Stdio.headText, Stdio.magnitude, isInt,
      notNegative, decimalText]
    intro digit member
    exact pdigit_eq_digitChar digit
      ((digitsOf_canonical (by decide) _).below digit member)
  have text : plainSigned.text sprintfSwitch strings word =
      Stdio.numToAscii word.toNat 0 10 {Flag.signInt, Flag.sign} := by
    rfl
  rw [text, Stdio.numToAscii_of_roomIsInt _ word.toNat_lt isBase (by decide)
    room, noFill, bare]
  simp

open Stdio (Piece) in
/-- The pieces of the format. -/
def ipPieces : List Piece :=
  [.conversion plainSigned, .plain fullStop stop_ne_percent,
    .conversion plainSigned, .plain fullStop stop_ne_percent,
    .conversion plainSigned, .plain fullStop stop_ne_percent,
    .conversion plainSigned]

theorem ipPieces_small : ∀ piece ∈ ipPieces, piece.Small := by
  intro piece member
  simp only [ipPieces, List.mem_cons, List.not_mem_nil, or_false] at member
  rcases member with rfl | rfl | rfl | rfl | rfl | rfl | rfl
  all_goals first
    | trivial
    | exact Stdio.plainSigned_small _ (List.mem_singleton.mpr rfl)

theorem ipArguments_toNat (ip : UInt32) {index : Nat} (small : index < 4) :
    (ipArguments ip index).toNat = ip.toNat / 2 ^ (8 * index) % 256 := by
  have mask : ∀ value : Nat, value &&& 0xff = value % 256 := by
    intro value
    exact Nat.and_two_pow_sub_one_eq_mod value 8
  have shift : (UInt32.ofNat (8 * index)).toNat % 32 = 8 * index := by
    rw [UInt32.toNat_ofNat']
    omega
  rw [ipArguments, UInt32.toNat_and, UInt32.toNat_shiftRight, shift,
    Nat.shiftRight_eq_div_pow]
  exact mask _

theorem ipToStr_eq (strings : UInt32 → List UInt8) (ip : UInt32) :
    ipToStr strings ip =
      dotted (decimalText (ip.toNat % 256))
        (decimalText (ip.toNat / 256 % 256))
        (decimalText (ip.toNat / 256 ^ 2 % 256))
        (decimalText (ip.toNat / 256 ^ 3 % 256)) := by
  have isFormat : ipFormat = Stdio.spelled ipPieces := rfl
  have printed (index : Nat) (small : index < 4) :
      plainSigned.text sprintfSwitch strings (ipArguments ip index) =
        decimalText (ip.toNat / 256 ^ index % 256) := by
    have isByte : (ipArguments ip index).toNat =
        ip.toNat / 256 ^ index % 256 := by
      rw [ipArguments_toNat ip small, Nat.pow_mul]
    have byte : (ipArguments ip index).toNat < 256 := by
      rw [isByte]
      exact Nat.mod_lt _ (by decide)
    rw [plainSigned_byte strings byte, isByte]
  have first := printed 0 (by decide)
  have second := printed 1 (by decide)
  have third := printed 2 (by decide)
  have fourth := printed 3 (by decide)
  rw [Nat.pow_zero, Nat.div_one] at first
  rw [Nat.pow_one] at second
  rw [ipToStr, sprintf, isFormat, Stdio.vsprintfLoop_spelled strings
    ipPieces_small _ (Nat.le_refl _)]
  simp only [ipPieces, Stdio.textOf, Stdio.Piece.text, Stdio.Piece.behind,
    Stdio.nextArg, first, second, third, fourth, dotted, List.append_nil,
    List.singleton_append]

theorem isDecimal_decimalText {value : Nat} (byte : value < 256) :
    IsDecimal (decimalText value) (UInt8.ofNat value) where
  nonempty := decimalText_ne_nil value
  digit := decimalText_isDigit value
  value := by
    rw [decimalFrom_decimalText, UInt8.toNat_ofNat']
    exact (Nat.mod_eq_of_lt byte).symm

theorem strToIp_ipToStr (strings : UInt32 → List UInt8) (ip : UInt32) :
    strToIp (ipToStr strings ip) = some (leBytes 4 ip.toNat) := by
  have isByte (value : Nat) : value % 256 < 256 :=
    Nat.mod_lt value (by decide)
  have isDotted : Dotted (ipToStr strings ip)
      [UInt8.ofNat (ip.toNat % 256), UInt8.ofNat (ip.toNat / 256 % 256),
        UInt8.ofNat (ip.toNat / 256 ^ 2 % 256),
        UInt8.ofNat (ip.toNat / 256 ^ 3 % 256)] :=
    ⟨_, _, _, _, _, _, _, _, rfl, isDecimal_decimalText (isByte _),
      isDecimal_decimalText (isByte _), isDecimal_decimalText (isByte _),
      isDecimal_decimalText (isByte _), ipToStr_eq strings ip⟩
  have low (value : Nat) : UInt8.ofNat (value % 256) = UInt8.ofNat value := by
    apply UInt8.toNat_inj.mp
    simp
  have square : 256 ^ 2 = 256 * 256 := by decide
  have cube : 256 ^ 3 = 256 * 256 * 256 := by decide
  rw [strToIp_dotted isDotted]
  simp only [low, leBytes, Nat.div_div_eq_div_mul, square, cube]

/-- `str_to_ip` is right on a string exactly if no group that is left as a byte
is empty or wraps around, and it reads what `ip_to_str` writes. -/
theorem strToIp_exact_iff (str : List UInt8) (strings : UInt32 → List UInt8)
    (ip : UInt32) :
    (ExactIp str ↔ PlainGroups str) ∧
      strToIp (ipToStr strings ip) = some (leBytes 4 ip.toNat) :=
  ⟨exactIp_iff str, strToIp_ipToStr strings ip⟩

/-- `...` is accepted. -/
theorem strToIp_not_exact : ¬∀ str, ExactIp str := by
  intro always
  have plain := (exactIp_iff [fullStop, fullStop, fullStop]).mp (always _)
  have some_ := plain [] [] [] [] rfl (by simp [decimalFrom]) []
    List.mem_cons_self
  exact some_.1 rfl

end Witos.Extra
