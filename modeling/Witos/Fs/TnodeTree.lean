import Witos.Fs.TnodeMap
import Witos.Library.LevelTree

/-!
# Lookup trees of files

The level 0 tnodes of a file are the leaves of a tree.  The tree grows at its
top when a chunk with a larger number is put into the file, and its missing
tnodes are added on the way down.  Pruning takes away tnodes without chunks.
-/

namespace Witos.Fs

open Witos.Library

/-- A tree of tnodes, from a level down. -/
abbrev Tnode := LevelTree (Fin 8) TnodeMap

structure YaffsFileVar where
  topLevel : Nat
  top : Tnode topLevel

def yaffsTnodesMaxLevel : Nat := 8

def yaffsMaxChunkId : Nat := 2 ^ 28 - 1

/-- A new level 0 tnode. -/
def clearTnode : TnodeMap := fun _ => 0

/-- The child of a tnode of a level that leads to a chunk; the level counts
from 0. -/
def tnodeDigit (chunk level : Nat) : Fin 8 :=
  ⟨chunk >>> (4 + level * 3) &&& 7,
    Nat.and_lt_two_pow _ (by decide : 7 < 2 ^ 3)⟩

def requiredDepth (i : Nat) : Nat :=
  if i = 0 then 0 else requiredDepth (i >>> 3) + 1
termination_by i
decreasing_by
  rw [Nat.shiftRight_eq_div_pow]
  omega

def yaffsFindTnode0 (file : YaffsFileVar) (chunkId : Nat) : Option TnodeMap :=
  if file.topLevel > yaffsTnodesMaxLevel then none
  else if chunkId > yaffsMaxChunkId then none
  else if requiredDepth (chunkId >>> 4) > file.topLevel then none
  else file.top.find (tnodeDigit chunkId)

/-- The group that the tnodes have for a chunk of a file; 0 stands for none. -/
def yaffsGroupInFile (dev : YaffsDev) (file : YaffsFileVar) (chunkId : Nat) :
    BitVec 32 :=
  match yaffsFindTnode0 file chunkId with
  | none => 0
  | some map => yaffsGetGroupBase dev map chunkId

/-- The tree is made taller by some levels, while there are tnodes for them.
The tnodes that are left are given back. -/
def makeTaller : Nat → Nat → YaffsFileVar → Option Nat × YaffsFileVar
  | 0, tnodes, file => (some tnodes, file)
  | _ + 1, 0, file => (none, file)
  | rounds + 1, tnodes + 1, file =>
      makeTaller rounds tnodes
        { topLevel := file.topLevel + 1, top := .raise 0 file.top }

/-- The child to go on with: it is added if it is missing, and a level 0 tnode
that was passed is plugged in. -/
def addMissing (passed : Option TnodeMap) (tnodes : Nat) :
    {level : Nat} → Tnode level → Option (Nat × Tnode level)
  | 0, child =>
      match passed, child with
      | some map, _ => some (tnodes, .leaf map)
      | none, .absent =>
          if tnodes = 0 then none else some (tnodes - 1, .leaf clearTnode)
      | none, .leaf map => some (tnodes, .leaf map)
  | _ + 1, .absent =>
      if tnodes = 0 then none
      else some (tnodes - 1, .node fun _ => .absent)
  | _ + 1, .node children => some (tnodes, .node children)

/-- The way down to level 0, and whether it gets there. -/
def addDown (path : Nat → Fin 8) (passed : Option TnodeMap) :
    {level : Nat} → Nat → Tnode level → Bool × Tnode level
  | 0, _, tn => (!tn.isAbsent, tn)
  | _ + 1, _, .absent => (false, .absent)
  | level + 1, tnodes, .node children =>
      match addMissing passed tnodes (children (path level)) with
      | none => (false, .node children)
      | some (tnodes, child) =>
          let (found, child) := addDown path passed tnodes child
          (found, .node (Function.update children (path level) child))

/-- `memcpy(tn, passed_tn, (dev->tnode_width * YAFFS_NTNODES_LEVEL0) / 8);` -/
def copyTnode (dev : YaffsDev) (tn passed : TnodeMap) : TnodeMap :=
  fun word =>
    if word < dev.tnodeWidth * 16 / 8 / 4 then passed word else tn word

/-- `none` if a tnode is copied to a null pointer; otherwise whether there is a
level 0 tnode now, which is the one that the digits of the chunk lead to.  The
allocator has some tnodes before it fails. -/
def yaffsAddFindTnode0 (dev : YaffsDev) (file : YaffsFileVar) (chunkId : Nat)
    (passed : Option TnodeMap) (tnodes : Nat) :
    Option (Bool × YaffsFileVar) :=
  if file.topLevel > yaffsTnodesMaxLevel then some (false, file)
  else if chunkId > yaffsMaxChunkId then some (false, file)
  else
    match makeTaller (requiredDepth (chunkId >>> 4) - file.topLevel) tnodes
        file with
    | (none, file) => some (false, file)
    | (some tnodes, ⟨level + 1, top⟩) =>
        let (found, top) := addDown (tnodeDigit chunkId) passed tnodes top
        some (found, ⟨level + 1, top⟩)
    | (some _, ⟨0, .leaf map⟩) =>
        match passed with
        | some other => some (true, ⟨0, .leaf (copyTnode dev map other)⟩)
        | none => some (true, ⟨0, .leaf map⟩)
    | (some _, ⟨0, .absent⟩) =>
        if passed.isSome then none else some (false, ⟨0, .absent⟩)

/-- Some word of a level 0 tnode is not 0. -/
def tnodeHasData (dev : YaffsDev) (map : TnodeMap) : Bool :=
  (List.range (dev.tnodeSize / 4)).any fun i => map i != 0

def yaffsPruneWorker (dev : YaffsDev) :
    {level : Nat} → Tnode level → Bool → Tnode level
  | _, .absent, _ => .absent
  | _, .leaf map, del0 =>
      if !tnodeHasData dev map && del0 then .absent else .leaf map
  | _ + 1, .node children, del0 =>
      let pruned := fun i =>
        yaffsPruneWorker dev (children i) (if i = 0 then del0 else true)
      let hasData := (List.finRange 8).any fun i => !(pruned i).isAbsent
      if !hasData && del0 then .absent else .node pruned

/-- Tnodes at the top with a child under 0 only are taken away; `none` if the
null pointer is read. -/
def shortenTree : {level : Nat} → Tnode level → Option YaffsFileVar
  | 0, top => some ⟨0, top⟩
  | _ + 1, .absent => none
  | level + 1, .node children =>
      if (List.finRange 8).any fun i => i != 0 && !(children i).isAbsent then
        some ⟨level + 1, .node children⟩
      else shortenTree (children 0)

def yaffsPruneTree (dev : YaffsDev) (file : YaffsFileVar) :
    Option YaffsFileVar :=
  if file.topLevel < 1 then some file
  else shortenTree (yaffsPruneWorker dev file.top false)

theorem tnodeDigit_eq (chunk : Nat) :
    tnodeDigit chunk = LevelTree.digit 8 (chunk / 16) := by
  funext level
  have shifted : chunk >>> (4 + level * 3) = chunk / 16 / 8 ^ level := by
    rw [Nat.shiftRight_add, Nat.shiftRight_eq_div_pow,
      Nat.shiftRight_eq_div_pow, Nat.mul_comm level 3, Nat.pow_mul]
  apply Fin.ext
  change chunk >>> (4 + level * 3) &&& 7 = chunk / 16 / 8 ^ level % 8
  rw [shifted]
  exact Nat.and_two_pow_sub_one_eq_mod _ 3

theorem requiredDepth_le_iff (i level : Nat) :
    requiredDepth i ≤ level ↔ i < 8 ^ level := by
  induction level generalizing i with
  | zero =>
      rw [requiredDepth, Nat.pow_zero]
      split <;> omega
  | succ level induction =>
      rw [requiredDepth]
      split
      · rename_i zero
        have positive : 0 < 8 ^ (level + 1) := Nat.pow_pos (by decide)
        omega
      · rw [Nat.succ_le_succ_iff, induction, Nat.shiftRight_eq_div_pow,
          Nat.pow_succ]
        omega

/-- The leaf of sixteen chunks. -/
def YaffsFileVar.leaf (file : YaffsFileVar) (row : Nat) : Option TnodeMap :=
  file.top.lookup row

/-- A tree that can be walked: its first level 0 tnode is there, and it is not
too tall. -/
structure YaffsFileVar.Rooted (file : YaffsFileVar) : Prop where
  low : file.topLevel ≤ 8
  first : (file.leaf 0).isSome

theorem findTnode0_eq {file : YaffsFileVar} (low : file.topLevel ≤ 8)
    {chunk : Nat} (small : chunk ≤ yaffsMaxChunkId) :
    yaffsFindTnode0 file chunk = file.leaf (chunk / 16) := by
  have notTall : ¬file.topLevel > yaffsTnodesMaxLevel := Nat.not_lt_of_le low
  unfold yaffsFindTnode0
  rw [if_neg notTall, if_neg (Nat.not_lt_of_le small), tnodeDigit_eq,
    YaffsFileVar.leaf, LevelTree.lookup]
  have row : chunk >>> 4 = chunk / 16 := Nat.shiftRight_eq_div_pow chunk 4
  rw [row]
  by_cases inside : chunk / 16 < 8 ^ file.topLevel
  · have reached := (requiredDepth_le_iff _ _).mpr inside
    rw [if_neg (Nat.not_lt_of_le reached), if_pos inside]
  · have far := mt (requiredDepth_le_iff _ _).mp inside
    rw [if_pos (Nat.lt_of_not_le far), if_neg inside]

theorem YaffsFileVar.Rooted.present {file : YaffsFileVar}
    (rooted : file.Rooted) : file.top.isAbsent = false := by
  obtain ⟨low, first⟩ := rooted
  obtain ⟨level, top⟩ := file
  cases top with
  | absent =>
      unfold YaffsFileVar.leaf LevelTree.lookup at first
      rw [LevelTree.find_absent, ite_self] at first
      cases first
  | leaf map => rfl
  | node children => rfl

section Adding

/-- What a level 0 tnode is after the way down to it. -/
def addedLeaf (passed before : Option TnodeMap) : TnodeMap :=
  passed.getD (before.getD clearTnode)

/-- A level 0 tnode with the chunks of another. -/
def SameGroups (dev : YaffsDev) (left right : TnodeMap) : Prop :=
  ∀ pos, yaffsGetGroupBase dev left pos = yaffsGetGroupBase dev right pos

/-- What the tree is when a level 0 tnode was asked for. -/
structure HasAdded (dev : YaffsDev) (file : YaffsFileVar) (chunk : Nat)
    (passed : Option TnodeMap) (found : Bool) (next : YaffsFileVar) :
    Prop where
  rooted : next.Rooted
  others : ∀ row, row ≠ chunk / 16 ∨ found = false →
    next.leaf row = file.leaf row
  same : found = true → ∃ leaf, next.leaf (chunk / 16) = some leaf ∧
    SameGroups dev leaf (addedLeaf passed (file.leaf (chunk / 16)))
  inside : found = true →
    chunk ≤ yaffsMaxChunkId ∧ chunk / 16 < 8 ^ next.topLevel

theorem SameGroups.refl (dev : YaffsDev) (map : TnodeMap) :
    SameGroups dev map map :=
  fun _ => rfl

theorem HasAdded.failed {dev : YaffsDev} {file next : YaffsFileVar}
    {chunk : Nat} {passed : Option TnodeMap} (rooted : file.Rooted)
    (low : next.topLevel ≤ 8) (leaves : ∀ row, next.leaf row = file.leaf row) :
    HasAdded dev file chunk passed false next where
  rooted := ⟨low, by rw [leaves]; exact rooted.first⟩
  others row _ := leaves row
  same found := by cases found
  inside found := by cases found

end Adding

section Pruning

variable (dev : YaffsDev)

end Pruning

end Witos.Fs
