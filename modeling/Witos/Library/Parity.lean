import Mathlib.Data.Bool.Basic
import Mathlib.Data.List.Nodup

/-!
# Parities

The parity of the bits of a list of places is linear, and one bit that changes
at one place shows in it exactly if the place is selected.
-/

namespace Witos.Library

variable {α : Type*}

/-- Whether an odd number of the bits is set. -/
def parity (items : List α) (bit : α → Bool) : Bool :=
  items.foldr (fun item odd => bit item ^^ odd) false

@[simp] theorem parity_nil (bit : α → Bool) : parity [] bit = false := rfl

@[simp] theorem parity_cons (item : α) (items : List α) (bit : α → Bool) :
    parity (item :: items) bit = (bit item ^^ parity items bit) := rfl

theorem parity_congr {items : List α} {left right : α → Bool}
    (same : ∀ item ∈ items, left item = right item) :
    parity items left = parity items right := by
  induction items with
  | nil => rfl
  | cons item items induction =>
      rw [parity_cons, parity_cons, same item List.mem_cons_self,
        induction fun other member =>
          same other (List.mem_cons_of_mem _ member)]

theorem parity_xor (items : List α) (left right : α → Bool) :
    parity items (fun item => left item ^^ right item) =
      (parity items left ^^ parity items right) := by
  induction items with
  | nil => rfl
  | cons item items induction =>
      simp only [parity_cons, induction]
      rw [Bool.xor_assoc, Bool.xor_assoc, Bool.xor_left_comm (right item)]

theorem parity_false (items : List α) :
    parity items (fun _ => false) = false := by
  induction items with
  | nil => rfl
  | cons item items induction => simp [induction]

theorem parity_single [DecidableEq α] {items : List α} {chosen : α}
    (once : items.Nodup) (member : chosen ∈ items) (select : α → Bool) :
    parity items (fun item => select item && decide (item = chosen)) =
      select chosen := by
  induction items with
  | nil => simp at member
  | cons item items induction =>
      obtain ⟨absent, onceRest⟩ := List.nodup_cons.mp once
      rcases List.mem_cons.mp member with rfl | later
      · have rest : parity items
            (fun item => select item && decide (item = chosen)) = false := by
          rw [← parity_false items]
          apply parity_congr
          intro other inRest
          have different : other ≠ chosen := by
            rintro rfl
            exact absent inRest
          simp [different]
        rw [parity_cons, rest]
        simp
      · have different : item ≠ chosen := by
          rintro rfl
          exact absent later
        rw [parity_cons, induction onceRest later]
        simp [different]

end Witos.Library
