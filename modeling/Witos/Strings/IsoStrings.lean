import Mathlib.Data.List.Lex
import Witos.Strings.StringOps

/-!
# The string functions of ISO C

What ISO C says of the functions of `lib/std/string.c`, and exactly when each
of them does so.
-/

namespace Witos.Strings

open Library

/-- An index with a property, or none if there is none. -/
def Finds (property : Nat → Prop) : Option Nat → Prop
  | none => ∀ index, ¬property index
  | some index => property index

/-- The first index with a property, if there is one. -/
def IsFirst (property : Nat → Prop) (result : Option Nat) : Prop :=
  Finds property result ∧
    ∀ index ∈ result, ∀ earlier < index, ¬property earlier

/-- The last one. -/
def IsLast (property : Nat → Prop) (result : Option Nat) : Prop :=
  Finds property result ∧
    ∀ index ∈ result, ∀ later, index < later → ¬property later

/-- An `int` converted to a character is at an index of a string, whose
terminator belongs to it. -/
def HasChar (src : List UInt8) (c : Int) (index : Nat) : Prop :=
  (src ++ [0])[index]? = some (UInt8.ofInt c)

/-- `strncmp`: the sign tells the order of the strings up to the count. -/
def Compares (left right : List UInt8) (count : Nat) (result : Int) : Prop :=
  (result < 0 ↔ left.take count < right.take count) ∧
    (0 < result ↔ right.take count < left.take count)

/-- `strncpy`: characters up to the count, then zeros up to it. -/
def isoStrncpy (dst : Nat) (src : List UInt8) (count : Nat)
    (memory : Nat → UInt8) : Nat × (Nat → UInt8) :=
  (dst, overlayAt dst
    (src.take count ++ List.replicate (count - src.length) 0) memory)

/-- `strncat`: characters up to the count behind the string, and always a
terminator. -/
def isoStrncat (dst : Nat) (text src : List UInt8) (count : Nat)
    (memory : Nat → UInt8) : Nat × (Nat → UInt8) :=
  (dst, overlayAt (dst + text.length) (src.take count ++ [0]) memory)

/-- A call of one of the functions.  At `dst` of `strncat` there is a string,
in front of any bytes. -/
inductive StringCall
  | strncmp (left right : CStr) (count : Nat)
  | strncpy (dst : Nat) (src : CStr) (count : Nat) (memory : Nat → UInt8)
  | strncat (dst : Nat) (text src : CStr) (count : Nat)
      (memory : Nat → UInt8)
  | strnlen (src : CStr) (count : Nat)
  | strchr (src : CStr) (c : Int)
  | strrchr (src : CStr) (c : Int)
  | strstr (haystack needle : CStr)

/-- The memory in which a string is at an address. -/
def withString (dst : Nat) (text : CStr) (memory : Nat → UInt8) :
    Nat → UInt8 :=
  overlayAt dst (text.chars ++ [0]) memory

/-- A call gives what ISO C says. -/
def StringCall.Agrees : StringCall → Prop
  | .strncmp left right count =>
      Compares left.chars right.chars count
        (Strings.strncmp left.chars right.chars count)
  | .strncpy dst src count memory =>
      Strings.strncpy dst src.chars count memory =
        isoStrncpy dst src.chars count memory
  | .strncat dst text src count memory =>
      Strings.strncat dst text.chars src.chars count
          (withString dst text memory) =
        isoStrncat dst text.chars src.chars count (withString dst text memory)
  | .strnlen src count =>
      Strings.strnlen src.chars count = min src.chars.length count
  | .strchr src c =>
      IsFirst (HasChar src.chars c) (Strings.strchr src.chars c)
  | .strrchr src c =>
      IsLast (HasChar src.chars c) (Strings.strrchr src.chars c)
  | .strstr haystack needle =>
      IsFirst (fun index => needle.chars <+: haystack.chars.drop index)
        (Strings.strstr haystack.chars needle.chars)

/-- A character that is none of the string, or one that needs no conversion;
the terminator is never found. -/
def CharFound (src : List UInt8) (c : Int) : Prop :=
  UInt8.ofInt c ≠ 0 ∧ (0 ≤ c ∧ c < 256 ∨ UInt8.ofInt c ∉ src)

/-- The cells where `strncat` does not do what it should have the right bytes
before: the one behind characters that the count cuts off, or those behind the
terminator up to the count. -/
def ZerosBehind (dst : Nat) (src : List UInt8) (count : Nat)
    (memory : Nat → UInt8) : Prop :=
  if count ≤ src.length then memory (dst + count) = 0
  else
    ∀ index, src.length < index → index < count → memory (dst + index) = 0

/-- When a call gives what ISO C says. -/
def StringCall.Proper : StringCall → Prop
  | .strncmp left right count => count ≠ 0 ∨ left = right
  | .strncpy _ _ _ _ => True
  | .strncat dst text src count memory =>
      ZerosBehind (dst + text.chars.length) src.chars count
        (withString dst text memory)
  | .strnlen _ _ => True
  | .strchr src c => CharFound src.chars c
  | .strrchr src c => CharFound src.chars c
  | .strstr haystack needle => haystack.chars ≠ [] ∨ needle.chars ≠ []

theorem Compares.cons {left right : List UInt8} {count : Nat} {result : Int}
    (char : UInt8) (compares : Compares left right count result) :
    Compares (char :: left) (char :: right) (count + 1) result := by
  unfold Compares at *
  simp only [List.take_succ_cons, List.cons_lt_cons_iff, true_and]
  have irrefl : ¬char < char := UInt8.lt_irrefl char
  simp only [irrefl, false_or]
  exact compares

theorem compares_of_ne {first second : UInt8} (differ : first ≠ second)
    (left right : List UInt8) (count : Nat) :
    Compares (first :: left) (second :: right) (count + 1)
      (first.toNat - second.toNat) := by
  unfold Compares
  simp only [List.take_succ_cons, List.cons_lt_cons_iff, differ, differ.symm,
    false_and, or_false, UInt8.lt_iff_toNat_lt]
  omega

theorem toNat_pos {char : UInt8} (notNul : char ≠ 0) : 0 < char.toNat := by
  apply Nat.pos_of_ne_zero
  intro isZero
  exact notNul (UInt8.toNat_inj.mp isZero)

theorem compares_nil_cons {char : UInt8} (notNul : char ≠ 0)
    (right : List UInt8) (count : Nat) :
    Compares [] (char :: right) (count + 1) (0 - char.toNat) := by
  have positive := toNat_pos notNul
  unfold Compares
  simp
  omega

theorem compares_cons_nil {char : UInt8} (notNul : char ≠ 0)
    (left : List UInt8) (count : Nat) :
    Compares (char :: left) [] (count + 1) char.toNat := by
  have positive := toNat_pos notNul
  unfold Compares
  simp
  omega

theorem compares_zero_iff {left right : List UInt8} {result : Int} :
    Compares left right 0 result ↔ result = 0 := by
  unfold Compares
  simp
  omega

theorem strncmpFrom_compares {count : Nat} {left right : List UInt8}
    (leftNoNul : 0 ∉ left) (rightNoNul : 0 ∉ right) {n : Nat}
    (within : n ≤ count) :
    Compares left right (count - n + 1)
      (strncmpFrom count n left right) := by
  induction left generalizing n right with
  | nil =>
      cases right with
      | nil => simp [strncmpFrom, Compares]
      | cons char right =>
          have notNul := (List.ne_of_not_mem_cons rightNoNul).symm
          rw [strncmpFrom, List.headD_cons, if_neg notNul]
          exact compares_nil_cons notNul right _
  | cons char left induction =>
      have notNul := (List.ne_of_not_mem_cons leftNoNul).symm
      rw [List.mem_cons, not_or] at leftNoNul
      cases right with
      | nil =>
          rw [strncmpFrom, List.headD_nil, if_neg notNul]
          simpa using compares_cons_nil notNul left (count - n)
      | cons second right =>
          rw [List.mem_cons, not_or] at rightNoNul
          rw [strncmpFrom, List.headD_cons, List.tail_cons]
          by_cases same : char = second
          · subst same
            rw [if_pos rfl]
            by_cases last : n = count
            · rw [if_pos (Or.inr last), last, Nat.sub_self]
              exact (compares_zero_iff.mpr rfl).cons char
            · have rounds : count - n = count - (n + 1) + 1 := by omega
              rw [if_neg (by simp [notNul, last]), rounds]
              exact (induction leftNoNul.2 rightNoNul.2 (by omega)).cons char
          · rw [if_neg same]
            exact compares_of_ne same left right _

theorem strncmpFrom_zero (n : Nat) (left right : List UInt8) :
    strncmpFrom 0 (n + 1) left right = strcmp left right := by
  induction left generalizing n right with
  | nil => rfl
  | cons char left induction => simp [strncmpFrom, strcmp, induction]

theorem strcmp_eq_zero_iff {left right : List UInt8} (leftNoNul : 0 ∉ left)
    (rightNoNul : 0 ∉ right) : strcmp left right = 0 ↔ left = right := by
  induction left generalizing right with
  | nil =>
      cases right with
      | nil => simp [strcmp]
      | cons char right =>
          have notNul := (List.ne_of_not_mem_cons rightNoNul).symm
          simp [strcmp, notNul, (toNat_pos notNul).ne']
  | cons char left induction =>
      have notNul := (List.ne_of_not_mem_cons leftNoNul).symm
      rw [List.mem_cons, not_or] at leftNoNul
      cases right with
      | nil => simp [strcmp, notNul, (toNat_pos notNul).ne']
      | cons second right =>
          rw [List.mem_cons, not_or] at rightNoNul
          rw [strcmp, List.headD_cons, List.tail_cons, if_neg notNul,
            List.cons.injEq, ← induction leftNoNul.2 rightNoNul.2]
          split
          · rename_i same
            simp [same]
          · rename_i differ
            have values := UInt8.toNat_inj.not.mpr differ
            simp only [differ, false_and, iff_false]
            omega

theorem strncmp_agrees_iff (left right : CStr) (count : Nat) :
    Compares left.chars right.chars count
        (strncmp left.chars right.chars count) ↔
      count ≠ 0 ∨ left = right := by
  unfold strncmp
  cases count with
  | zero =>
      rw [compares_zero_iff, strncmpFrom_zero,
        strcmp_eq_zero_iff left.noNul right.noNul]
      cases left
      cases right
      simp
  | succ count =>
      have compared := strncmpFrom_compares left.noNul right.noNul
        (Nat.le_add_left 1 count)
      simpa using compared

theorem strncpy_agrees (dst : Nat) (src : List UInt8) (count : Nat)
    (memory : Nat → UInt8) :
    strncpy dst src count memory = isoStrncpy dst src count memory := by
  rw [strncpy, isoStrncpy, copyPadded_eq]

theorem overlayAt_append_eq_iff (offset : Nat) (bytes more : List UInt8)
    (memory : Nat → UInt8) :
    overlayAt offset (bytes ++ more) memory = overlayAt offset bytes memory ↔
      Lies memory (offset + bytes.length) more := by
  rw [← overlayAt_append, overlayAt_eq_self_iff]
  unfold Lies
  rw [slice_overlayAt_of_disjoint _ _ (Or.inr (Nat.le_refl _))]

theorem lies_zeros_iff (memory : Nat → UInt8) (offset rounds : Nat) :
    Lies memory offset (List.replicate rounds 0) ↔
      ∀ index < rounds, memory (offset + index) = 0 := by
  unfold Lies
  rw [List.length_replicate, List.eq_replicate_iff, length_slice]
  simp [slice]

theorem strncat_agrees_iff (dst : Nat) (text src : List UInt8) (count : Nat)
    (memory : Nat → UInt8) :
    strncat dst text src count memory = isoStrncat dst text src count memory ↔
      ZerosBehind (dst + text.length) src count memory := by
  rw [strncat, isoStrncat, copyPadded_eq, strlen_eq_length, Prod.mk.injEq]
  simp only [true_and]
  unfold ZerosBehind
  generalize dst + text.length = start
  split
  · rename_i cut
    have noZeros : count - src.length = 0 := by omega
    have length : (src.take count).length = count := List.length_take_of_le cut
    rw [noZeros, List.replicate_zero, List.append_nil, eq_comm,
      overlayAt_append_eq_iff, length]
    simp [Lies, slice]
  · rename_i whole
    obtain ⟨zeros, rounds⟩ : ∃ zeros, count - src.length = zeros + 1 :=
      ⟨count - src.length - 1, by omega⟩
    rw [List.take_of_length_le (by omega), rounds, List.replicate_succ,
      ← List.singleton_append, ← List.append_assoc, overlayAt_append_eq_iff,
      lies_zeros_iff, List.length_append, List.length_singleton]
    constructor
    · intro stored index behind inside
      have place : start + (src.length + 1) + (index - (src.length + 1)) =
          start + index := by omega
      rw [← place]
      exact stored _ (by omega)
    · intro zero index inside
      rw [Nat.add_assoc]
      exact zero _ (by omega) (by omega)

/-- A character with the value of an `int` is at an index of a string. -/
def HasValue (src : List UInt8) (c : Int) (index : Nat) : Prop :=
  ∃ char, src[index]? = some char ∧ (char.toNat : Int) = c

theorem isFirst_zero {property : Nat → Prop} (holds : property 0) :
    IsFirst property (some 0) := by
  constructor
  · exact holds
  · rintro index member earlier before
    cases member
    exact absurd before (Nat.not_lt_zero earlier)

theorem IsFirst.behind {property : Nat → Prop} (not : ¬property 0)
    {result : Option Nat}
    (rest : IsFirst (fun index => property (index + 1)) result) :
    IsFirst property (result.map (· + 1)) := by
  obtain ⟨found, first⟩ := rest
  cases result with
  | none =>
      constructor
      · intro index
        cases index with
        | zero => exact not
        | succ index => exact found index
      · rintro index ⟨⟩
  | some place =>
      constructor
      · exact found
      · rintro index member earlier before
        cases member
        cases earlier with
        | zero => exact not
        | succ earlier =>
            exact first place rfl earlier (Nat.lt_of_succ_lt_succ before)

theorem strchr_first (src : List UInt8) (c : Int) :
    IsFirst (HasValue src c) (strchr src c) := by
  induction src with
  | nil =>
      constructor
      · rintro index ⟨char, isAt, _⟩
        cases isAt
      · rintro index ⟨⟩
  | cons char src induction =>
      rw [strchr]
      split
      · rename_i isChar
        exact isFirst_zero ⟨char, rfl, isChar⟩
      · rename_i isNot
        apply IsFirst.behind
        · rintro ⟨other, isAt, value⟩
          cases isAt
          exact isNot value
        · exact induction

theorem strstr_first {haystack needle : List UInt8} (noNul : 0 ∉ needle)
    (notBothEmpty : haystack ≠ [] ∨ needle ≠ []) :
    IsFirst (fun index => needle <+: haystack.drop index)
      (strstr haystack needle) := by
  induction haystack with
  | nil =>
      have notEmpty := notBothEmpty.resolve_left (fun differ => differ rfl)
      constructor
      · intro index isPrefix
        rw [List.drop_nil, List.prefix_nil] at isPrefix
        exact notEmpty isPrefix
      · rintro index ⟨⟩
  | cons char haystack induction =>
      rw [strstr]
      split
      · rename_i starts
        exact isFirst_zero ((startsWith_iff noNul _).mp starts)
      · rename_i startsNot
        have notHere := mt (startsWith_iff noNul (char :: haystack)).mpr
          startsNot
        apply IsFirst.behind notHere
        apply induction
        right
        rintro rfl
        exact notHere List.nil_prefix

theorem strrchrFrom_last (src : List UInt8) (c : Int) {iter : Nat}
    (inside : iter ≤ src.length) :
    IsLast (fun index => index < iter ∧ HasValue src c index)
      (strrchrFrom src c iter) := by
  induction iter with
  | zero =>
      constructor
      · rintro index ⟨before, _⟩
        exact Nat.not_lt_zero index before
      · rintro index ⟨⟩
  | succ iter induction =>
      have char : src[iter]? = some (src.getD iter 0) := by
        rw [List.getD_eq_getElem?_getD, List.getElem?_eq_getElem inside]
        rfl
      rw [strrchrFrom]
      split
      · rename_i isChar
        constructor
        · exact ⟨Nat.lt_succ_self iter, _, char, isChar⟩
        · rintro index ⟨⟩ later behind ⟨before, _⟩
          omega
      · rename_i isNot
        have notHere : ¬HasValue src c iter := by
          rintro ⟨other, isAt, value⟩
          rw [char, Option.some.injEq] at isAt
          exact isNot (isAt ▸ value)
        have same (index : Nat) : index < iter + 1 ∧ HasValue src c index ↔
            index < iter ∧ HasValue src c index := by
          constructor
          · rintro ⟨before, has⟩
            have differ : index ≠ iter := by
              rintro rfl
              exact notHere has
            exact ⟨by omega, has⟩
          · rintro ⟨before, has⟩
            exact ⟨by omega, has⟩
        simp only [same]
        exact induction (Nat.le_of_succ_le inside)

theorem strrchr_last (src : List UInt8) (c : Int) :
    IsLast (HasValue src c) (strrchr src c) := by
  have last := strrchrFrom_last src c (Nat.le_refl src.length)
  have same (index : Nat) : index < src.length ∧ HasValue src c index ↔
      HasValue src c index := by
    constructor
    · exact And.right
    · rintro ⟨char, isAt, value⟩
      exact ⟨(List.getElem?_eq_some_iff.mp isAt).1, char, isAt, value⟩
  simp only [same] at last
  rw [strrchr, strlen_eq_length]
  exact last

section Characters

variable {src : List UInt8} {c : Int}

theorem value_iff_ofInt (isChar : 0 ≤ c ∧ c < 256) (char : UInt8) :
    (char.toNat : Int) = c ↔ char = UInt8.ofInt c := by
  rw [← UInt8.toNat_inj, UInt8.ofInt, UInt8.toNat_ofNat']
  omega

theorem hasChar_iff (notNul : UInt8.ofInt c ≠ 0) (index : Nat) :
    HasChar src c index ↔ src[index]? = some (UInt8.ofInt c) := by
  unfold HasChar
  rw [List.getElem?_append]
  split
  · rfl
  · rename_i behind
    rw [List.getElem?_eq_none (Nat.le_of_not_lt behind)]
    constructor
    · intro isAt
      have member := List.mem_of_getElem? isAt
      exact absurd (List.mem_singleton.mp member) notNul
    · rintro ⟨⟩

theorem value_range {char : UInt8} (value : (char.toNat : Int) = c) :
    0 ≤ c ∧ c < 256 := by
  have bound := char.toNat_lt
  omega

theorem hasChar_eq_hasValue (found : CharFound src c) :
    HasChar src c = HasValue src c := by
  obtain ⟨notNul, unconverted⟩ := found
  funext index
  rw [eq_iff_iff, hasChar_iff notNul]
  constructor
  · intro isAt
    rcases unconverted with isChar | noMember
    · exact ⟨_, isAt, (value_iff_ofInt isChar _).mpr rfl⟩
    · exact absurd (List.mem_of_getElem? isAt) noMember
  · rintro ⟨char, isAt, value⟩
    have same := (value_iff_ofInt (value_range value) char).mp value
    rw [← same]
    exact isAt

/-- Whatever is found both ways tells that the terminator was not looked for,
and that no conversion changed what is found. -/
theorem charFound_of_finds (noNul : 0 ∉ src) {result : Option Nat}
    (converted : Finds (HasChar src c) result)
    (plain : Finds (HasValue src c) result) : CharFound src c := by
  cases result with
  | none =>
      have notNul : UInt8.ofInt c ≠ 0 := by
        intro isNul
        apply converted src.length
        simp [HasChar, isNul]
      have noMember : UInt8.ofInt c ∉ src := by
        intro member
        obtain ⟨index, isAt⟩ := List.mem_iff_getElem?.mp member
        exact converted index ((hasChar_iff notNul index).mpr isAt)
      exact ⟨notNul, Or.inr noMember⟩
  | some index =>
      obtain ⟨char, isAt, value⟩ := plain
      have isChar := value_range value
      have same := (value_iff_ofInt isChar char).mp value
      have member := List.mem_of_getElem? isAt
      refine ⟨?_, Or.inl isChar⟩
      rw [← same]
      rintro rfl
      exact noNul member

theorem strchr_agrees_iff (noNul : 0 ∉ src) :
    IsFirst (HasChar src c) (strchr src c) ↔ CharFound src c := by
  constructor
  · intro agrees
    exact charFound_of_finds noNul agrees.1 (strchr_first src c).1
  · intro found
    rw [hasChar_eq_hasValue found]
    exact strchr_first src c

theorem strrchr_agrees_iff (noNul : 0 ∉ src) :
    IsLast (HasChar src c) (strrchr src c) ↔ CharFound src c := by
  constructor
  · intro agrees
    exact charFound_of_finds noNul agrees.1 (strrchr_last src c).1
  · intro found
    rw [hasChar_eq_hasValue found]
    exact strrchr_last src c

end Characters

theorem strstr_agrees_iff {haystack needle : List UInt8}
    (noNul : 0 ∉ needle) :
    IsFirst (fun index => needle <+: haystack.drop index)
        (strstr haystack needle) ↔
      haystack ≠ [] ∨ needle ≠ [] := by
  constructor
  · rintro ⟨found, _⟩
    by_contra bothEmpty
    obtain ⟨rfl, rfl⟩ : haystack = [] ∧ needle = [] := by
      simpa [not_or] using bothEmpty
    exact found 0 List.nil_prefix
  · exact strstr_first noNul

/-- A call gives what ISO C says exactly if a comparison has a count or two
equal strings, a search is for none but a character or for one that is not
there, a string is searched for or in something, and the cells where `strncat`
stores too little or too much hold zeros already. -/
theorem call_agrees_iff (call : StringCall) : call.Agrees ↔ call.Proper := by
  cases call with
  | strncmp left right count => exact strncmp_agrees_iff left right count
  | strncpy dst src count memory =>
      exact iff_true_intro (strncpy_agrees dst src.chars count memory)
  | strncat dst text src count memory =>
      exact strncat_agrees_iff dst text.chars src.chars count _
  | strnlen src count =>
      exact iff_true_intro (strnlen_eq_min src.chars count)
  | strchr src c => exact strchr_agrees_iff src.noNul
  | strrchr src c => exact strrchr_agrees_iff src.noNul
  | strstr haystack needle => exact strstr_agrees_iff needle.noNul

/-- `strncmp("a", "b", 0)` is -1. -/
theorem not_call_agrees : ¬∀ call : StringCall, call.Agrees := by
  intro always
  have agrees := always
    (.strncmp ⟨[0x61], by decide⟩ ⟨[0x62], by decide⟩ 0)
  have isZero := compares_zero_iff.mp agrees
  exact absurd isZero (by decide)

end Witos.Strings
