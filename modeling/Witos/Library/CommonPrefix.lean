import Mathlib.Data.List.Infix

/-!
# Common prefixes

The longest list that all lists of a collection begin with, and how it is found
one element at a time.
-/

namespace Witos.Library

variable {α : Type} {lists : List (List α)} {shared : List α}

/-- All lists begin so. -/
def IsCommonPrefix (lists : List (List α)) (shared : List α) : Prop :=
  ∀ list ∈ lists, shared <+: list

/-- All lists begin so, and no longer. -/
structure IsLongestCommon (lists : List (List α)) (shared : List α) :
    Prop where
  common : IsCommonPrefix lists shared
  longest : ∀ other, IsCommonPrefix lists other → other <+: shared

theorem IsCommonPrefix.longest_of_mem (common : IsCommonPrefix lists shared)
    (member : shared ∈ lists) : IsLongestCommon lists shared :=
  ⟨common, fun _ begins => begins shared member⟩

theorem IsCommonPrefix.longest_of_ne (common : IsCommonPrefix lists shared)
    {first second : List α} (firstMember : first ∈ lists)
    (secondMember : second ∈ lists)
    (differ : first[shared.length]? ≠ second[shared.length]?) :
    IsLongestCommon lists shared := by
  refine ⟨common, ?_⟩
  intro other begins
  by_cases short : other.length ≤ shared.length
  · exact List.prefix_of_prefix_length_le (begins first firstMember)
      (common first firstMember) short
  · have inside : shared.length < other.length := Nat.lt_of_not_le short
    have goesOn (list : List α) (member : list ∈ lists) :
        list[shared.length]? = some other[shared.length] := by
      obtain ⟨rest, rfl⟩ := begins list member
      rw [List.getElem?_append_left inside, List.getElem?_eq_getElem inside]
    have same := (goesOn first firstMember).trans
      (goesOn second secondMember).symm
    exact absurd same differ

theorem IsCommonPrefix.concat (common : IsCommonPrefix lists shared)
    {item : α}
    (goOn : ∀ list ∈ lists, list[shared.length]? = some item) :
    IsCommonPrefix lists (shared ++ [item]) := by
  intro list member
  obtain ⟨rest, rfl⟩ := common list member
  have next := goOn _ member
  rw [List.getElem?_append_right (Nat.le_refl _), Nat.sub_self] at next
  cases rest with
  | nil => cases next
  | cons first rest =>
      obtain rfl := Option.some.inj next
      exact ⟨rest, by simp⟩

end Witos.Library
