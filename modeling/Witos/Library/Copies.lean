import Mathlib.Data.List.Nodup
import Mathlib.Logic.Function.Basic
import Witos.Library.Bytes

/-!
# Copies cell by cell

Cells that are copied one after the other within one memory, in an order in
which none is stored before it was read, and cells that are spread over places
of a memory and collected from them.
-/

namespace Witos.Library.Copies

variable {ι A α : Type} [DecidableEq A]

/-- Copy the cell behind `source` to the place `target`, for one index after
the other. -/
def transfer (target source : ι → A) : List ι → (A → α) → A → α
  | [], memory => memory
  | index :: indices, memory =>
      transfer target source indices
        (Function.update memory (target index) (memory (source index)))

theorem transfer_outside {target source : ι → A} {indices : List ι}
    (memory : A → α) {place : A}
    (outside : ∀ index ∈ indices, place ≠ target index) :
    transfer target source indices memory place = memory place := by
  induction indices generalizing memory with
  | nil => rfl
  | cons index indices induction =>
      rw [transfer, induction _ fun index member =>
        outside index (List.mem_cons_of_mem _ member)]
      exact Function.update_of_ne (outside _ List.mem_cons_self) _ _

/-- A copy whose places are distinct and that stores no cell before it was
read. -/
theorem transfer_inside {target source : ι → A} {indices : List ι}
    (distinct : (indices.map target).Nodup)
    (readFirst : indices.Pairwise fun earlier later =>
      target earlier ≠ source later)
    (memory : A → α) {index : ι} (member : index ∈ indices) :
    transfer target source indices memory (target index) =
      memory (source index) := by
  induction indices generalizing memory with
  | nil => cases member
  | cons first indices induction =>
      rw [List.map_cons, List.nodup_cons] at distinct
      rw [List.pairwise_cons] at readFirst
      rw [transfer]
      rcases List.mem_cons.mp member with rfl | later
      · rw [transfer_outside, Function.update_self]
        rintro other inRest same
        exact distinct.1 (same ▸ List.mem_map_of_mem inRest)
      · rw [induction distinct.2 readFirst.2 _ later]
        exact Function.update_of_ne (readFirst.1 index later).symm _ _

/-- Store a cell at each place. -/
def scatter : List A → List α → (A → α) → A → α
  | place :: places, cell :: cells, memory =>
      scatter places cells (Function.update memory place cell)
  | _, _, memory => memory

theorem scatter_of_notMem {places : List A} (cells : List α) (memory : A → α)
    {place : A} (outside : place ∉ places) :
    scatter places cells memory place = memory place := by
  induction places generalizing cells memory with
  | nil => rfl
  | cons first places induction =>
      cases cells with
      | nil => rfl
      | cons cell cells =>
          rw [List.mem_cons, not_or] at outside
          rw [scatter, induction _ _ outside.2]
          exact Function.update_of_ne outside.1 cell memory

/-- What is stored at distinct places is collected again. -/
theorem map_scatter {places : List A} (distinct : places.Nodup)
    {cells : List α} (length : places.length = cells.length)
    (memory : A → α) : places.map (scatter places cells memory) = cells := by
  induction places generalizing cells memory with
  | nil => exact (List.eq_nil_of_length_eq_zero length.symm).symm
  | cons place places induction =>
      cases cells with
      | nil => cases length
      | cons cell cells =>
          rw [List.nodup_cons] at distinct
          have first : scatter places cells
              (Function.update memory place cell) place = cell := by
            rw [scatter_of_notMem _ _ distinct.1, Function.update_self]
          rw [scatter, List.map_cons, first,
            induction distinct.2 (Nat.succ.inj length)]

theorem scatter_append {places : List A} {cells : List α}
    (length : places.length = cells.length) (morePlaces : List A)
    (moreCells : List α) (memory : A → α) :
    scatter (places ++ morePlaces) (cells ++ moreCells) memory =
      scatter morePlaces moreCells (scatter places cells memory) := by
  induction places generalizing cells memory with
  | nil => rw [List.eq_nil_of_length_eq_zero length.symm]; rfl
  | cons place places induction =>
      cases cells with
      | nil => cases length
      | cons cell cells => exact induction (Nat.succ.inj length) _

/-- Bytes written from an offset on are stored at the places from there on. -/
theorem overlayAt_eq_scatter (offset : Nat) (bytes : List UInt8)
    (memory : Nat → UInt8) :
    overlayAt offset bytes memory =
      scatter (List.range' offset bytes.length) bytes memory := by
  induction bytes generalizing offset memory with
  | nil => exact overlayAt_nil offset memory
  | cons byte bytes induction =>
      rw [List.length_cons, List.range'_succ, scatter, ← induction,
        ← overlayAt_singleton]
      exact (overlayAt_append offset [byte] bytes memory).symm

theorem slice_eq_map (memory : Nat → α) (offset count : Nat) :
    slice memory offset count = (List.range' offset count).map memory := by
  rw [slice, List.range'_eq_map_range, List.map_map]
  rfl

end Witos.Library.Copies
