import Mathlib.Data.List.Basic
import Mathlib.Tactic.Tauto

/-!
# Text with a cursor

A zipper keeps the items before the cursor, the nearest one first, and the
items after it.  What an edit does to the text is said with the cursor as a
position, which is how an editor on an array knows it.
-/

namespace Witos.Library

structure Zipper (α : Type) where
  before : List α
  after : List α
deriving DecidableEq

namespace Zipper

variable {α : Type}

def empty : Zipper α :=
  ⟨[], []⟩

def text (zipper : Zipper α) : List α :=
  zipper.before.reverse ++ zipper.after

def cursor (zipper : Zipper α) : Nat :=
  zipper.before.length

def insert (item : α) (zipper : Zipper α) : Zipper α :=
  ⟨item :: zipper.before, zipper.after⟩

def backspace (zipper : Zipper α) : Zipper α :=
  ⟨zipper.before.tail, zipper.after⟩

def delete (zipper : Zipper α) : Zipper α :=
  ⟨zipper.before, zipper.after.tail⟩

def left : Zipper α → Zipper α
  | ⟨[], after⟩ => ⟨[], after⟩
  | ⟨item :: before, after⟩ => ⟨before, item :: after⟩

def right : Zipper α → Zipper α
  | ⟨before, []⟩ => ⟨before, []⟩
  | ⟨before, item :: after⟩ => ⟨item :: before, after⟩

def home (zipper : Zipper α) : Zipper α :=
  ⟨[], zipper.text⟩

def stop (zipper : Zipper α) : Zipper α :=
  ⟨zipper.text.reverse, []⟩

theorem length_text (zipper : Zipper α) :
    zipper.text.length = zipper.cursor + zipper.after.length := by
  simp [text, cursor]

theorem take_cursor (zipper : Zipper α) :
    zipper.text.take zipper.cursor = zipper.before.reverse := by
  simp [text, cursor]

theorem drop_cursor (zipper : Zipper α) :
    zipper.text.drop zipper.cursor = zipper.after := by
  simp [text, cursor]

theorem insert_text (item : α) (zipper : Zipper α) :
    (zipper.insert item).text =
      zipper.text.take zipper.cursor ++
        item :: zipper.text.drop zipper.cursor := by
  rw [take_cursor, drop_cursor]
  simp [insert, text]

theorem mem_insert_text {item other : α} {zipper : Zipper α} :
    other ∈ (zipper.insert item).text ↔
      other = item ∨ other ∈ zipper.text := by
  simp only [insert, text, List.mem_append, List.mem_reverse,
    List.mem_cons]
  tauto

@[simp] theorem insert_cursor (item : α) (zipper : Zipper α) :
    (zipper.insert item).cursor = zipper.cursor + 1 :=
  rfl

theorem backspace_text (zipper : Zipper α) :
    zipper.backspace.text =
      zipper.text.take (zipper.cursor - 1) ++
        zipper.text.drop zipper.cursor := by
  rw [drop_cursor]
  obtain ⟨before, after⟩ := zipper
  cases before with
  | nil => simp [backspace, text, cursor]
  | cons item before => simp [backspace, text, cursor]

theorem backspace_text_subset (zipper : Zipper α) :
    zipper.backspace.text ⊆ zipper.text := by
  rw [backspace_text]
  exact List.append_subset.mpr
    ⟨List.take_subset _ _, List.drop_subset _ _⟩

@[simp] theorem backspace_cursor (zipper : Zipper α) :
    zipper.backspace.cursor = zipper.cursor - 1 := by
  simp [backspace, cursor]

theorem delete_text (zipper : Zipper α) :
    zipper.delete.text =
      zipper.text.take zipper.cursor ++
        zipper.text.drop (zipper.cursor + 1) := by
  rw [take_cursor, ← List.tail_drop, drop_cursor]
  rfl

theorem delete_text_subset (zipper : Zipper α) :
    zipper.delete.text ⊆ zipper.text := by
  rw [delete_text]
  exact List.append_subset.mpr
    ⟨List.take_subset _ _, List.drop_subset _ _⟩

@[simp] theorem delete_cursor (zipper : Zipper α) :
    zipper.delete.cursor = zipper.cursor :=
  rfl

@[simp] theorem left_text (zipper : Zipper α) :
    zipper.left.text = zipper.text := by
  obtain ⟨before, after⟩ := zipper
  cases before with
  | nil => rfl
  | cons item before => simp [left, text]

@[simp] theorem left_cursor (zipper : Zipper α) :
    zipper.left.cursor = zipper.cursor - 1 := by
  obtain ⟨before, after⟩ := zipper
  cases before with
  | nil => rfl
  | cons item before => simp [left, cursor]

@[simp] theorem right_text (zipper : Zipper α) :
    zipper.right.text = zipper.text := by
  obtain ⟨before, after⟩ := zipper
  cases after with
  | nil => rfl
  | cons item after => simp [right, text]

theorem right_cursor (zipper : Zipper α) :
    zipper.right.cursor =
      if zipper.cursor < zipper.text.length then zipper.cursor + 1
      else zipper.cursor := by
  rw [length_text]
  obtain ⟨before, after⟩ := zipper
  cases after with
  | nil => simp [right, cursor]
  | cons item after => simp [right, cursor]

@[simp] theorem home_text (zipper : Zipper α) :
    zipper.home.text = zipper.text := by
  simp [home, text]

@[simp] theorem home_cursor (zipper : Zipper α) :
    zipper.home.cursor = 0 :=
  rfl

@[simp] theorem stop_text (zipper : Zipper α) :
    zipper.stop.text = zipper.text := by
  simp [stop, text]

@[simp] theorem stop_cursor (zipper : Zipper α) :
    zipper.stop.cursor = zipper.text.length := by
  simp [stop, cursor]

end Zipper

end Witos.Library
