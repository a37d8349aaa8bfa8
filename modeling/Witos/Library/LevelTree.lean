import Mathlib.Algebra.Order.Ring.Nat
import Mathlib.Data.List.FinRange
import Mathlib.Logic.Function.Basic

/-!
# Trees with levels

A tree of a level has children of the level below it, each under a digit, and
leaves at level 0.  Any part of it may be absent.  A path gives the digit for
each level.
-/

namespace Witos.Library

/-- Trees with so many levels of nodes above their leaves. -/
inductive LevelTree (ι α : Type) : Nat → Type
  | absent {level : Nat} : LevelTree ι α level
  | leaf (value : α) : LevelTree ι α 0
  | node {level : Nat} (children : ι → LevelTree ι α level) :
      LevelTree ι α (level + 1)

namespace LevelTree

variable {ι α : Type}

def isAbsent {level : Nat} : LevelTree ι α level → Bool
  | .absent => true
  | _ => false

/-- The leaf at the end of a path. -/
def find (path : Nat → ι) : {level : Nat} → LevelTree ι α level → Option α
  | _, .absent => none
  | _, .leaf value => some value
  | below + 1, .node children => find path (children (path below))

@[simp] theorem find_absent {level : Nat} (path : Nat → ι) :
    find path (absent : LevelTree ι α level) = none := rfl

section Changes

variable [DecidableEq ι]

/-- A tree that is made taller: the old one is the child under a digit. -/
def raise (digit : ι) {level : Nat} (tree : LevelTree ι α level) :
    LevelTree ι α (level + 1) :=
  .node fun other => if other = digit then tree else .absent

/-- The leaf at the end of a path is changed. -/
def modify (change : α → α) (path : Nat → ι) :
    {level : Nat} → LevelTree ι α level → LevelTree ι α level
  | _, .absent => .absent
  | _, .leaf value => .leaf (change value)
  | below + 1, .node children =>
      .node (Function.update children (path below)
        (modify change path (children (path below))))

end Changes

section Digits

variable {base : Nat} [NeZero base]

/-- A digit of a number. -/
def digit (base : Nat) [NeZero base] (number k : Nat) : Fin base :=
  Fin.ofNat base (number / base ^ k)

/-- The leaf of a number: a tree has none for a number with more digits than
it has levels. -/
def lookup {level : Nat} (tree : LevelTree (Fin base) α level) (number : Nat) :
    Option α :=
  if number < base ^ level then find (digit base number) tree else none

/-- The leaves below a node with their numbers, the smallest one first.  The
node has a number in its level. -/
def leaves : {level : Nat} → LevelTree (Fin base) α level → Nat → List (Nat × α)
  | _, .absent, _ => []
  | _, .leaf value, number => [(number, value)]
  | _ + 1, .node children, number =>
      (List.finRange base).flatMap fun i =>
        leaves (children i) (base * number + i)

end Digits

end LevelTree

end Witos.Library
