import Mathlib.Data.List.Induction

/-!
# Moving an item by neighbour swaps

An item is brought to an earlier place of a list by swapping it with its left
neighbour again and again.  The items it passes keep their order.
-/

namespace Witos.Library.Swap

variable {α : Type}

/-- Swap the item at `index` with the one before it. -/
def swapBelow (items : List α) (index : Nat) : List α :=
  match items[index - 1]?, items[index]? with
  | some left, some right => (items.set (index - 1) right).set index left
  | _, _ => items

/-- Swap the item at the given index down to `start`. -/
def sink (start : Nat) : Nat → List α → List α
  | 0, items => items
  | index + 1, items =>
      if start < index + 1 then
        sink start index (swapBelow items (index + 1))
      else items

theorem swapBelow_append (before after : List α) (left right : α) :
    swapBelow (before ++ left :: right :: after) (before.length + 1) =
      before ++ right :: left :: after := by
  simp [swapBelow]

theorem sink_start (start : Nat) (items : List α) :
    sink start start items = items := by
  cases start with
  | zero => rfl
  | succ start => simp [sink]

theorem sink_append (before passed after : List α) (item : α) :
    sink before.length (before.length + passed.length)
        (before ++ passed ++ item :: after) =
      before ++ item :: passed ++ after := by
  induction passed using List.reverseRecOn generalizing after with
  | nil => simpa using sink_start before.length (before ++ item :: after)
  | append_singleton passed last induction =>
      have swapped := swapBelow_append (before ++ passed) after last item
      rw [List.length_append] at swapped
      have shape : before ++ (passed ++ [last]) ++ item :: after =
          before ++ passed ++ last :: item :: after := by
        simp
      have place : before.length + (passed ++ [last]).length =
          before.length + passed.length + 1 := by
        simp
        omega
      have below : before.length < before.length + passed.length + 1 := by
        omega
      rw [shape, place, sink, if_pos below, swapped, induction]
      simp

end Witos.Library.Swap
