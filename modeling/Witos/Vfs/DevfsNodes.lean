import Witos.Vfs.Devfs
import Witos.Vfs.Walk

/-!
# What is found in `/dev`

`devfs_mknod` does not store the new inode in the dentry that `dev_mknod` made
for it, and this dentry is what a walk finds from then on.  So no node is ever
found by its name, while a name that is only the beginning of a node's name
finds its inode.
-/

namespace Witos.Vfs

/-- What a successful `dev_mknod` was called with. -/
structure Node where
  name : Name
  mode : Nat
  rdev : Nat
deriving DecidableEq

namespace Devfs

open State (IsUnit unitsFrom_append)

/-- Successful calls of `dev_mknod` with distinct names without slashes, and
walks of any paths below `/dev`, with the nodes that were made. -/
inductive Run : Devfs → List Node → Prop
  | start : Run mounted []
  | mknod {s final : Devfs} {nodes : List Node} {env : DevEnv} {node : Node} :
      Run s nodes → slash ∉ node.name →
      (∀ other ∈ nodes, other.name ≠ node.name) →
      s.devMknod env node.name node.mode node.rdev = some (final, 0) →
      Run final (nodes ++ [node])
  | walk {s final : Devfs} {nodes : List Node} {env : DevEnv}
      {path : List UInt8} {result : Except Int (Option Nat)} :
      Run s nodes → s.pathWalk env path = some (final, result) →
      Run final nodes

/-- With memory for every dentry: each node is found by its name, with the
inode that was made for it, and nothing else is found. -/
structure NodesFound (s : Devfs) (nodes : List Node) : Prop where
  found : ∀ (env : DevEnv) (place : Nat) (node : Node),
    (∀ dentry, env.dentryRoom dentry = true) → nodes[place]? = some node →
    ∃ final dentry inode,
      s.pathWalk env node.name = some (final, .ok (some dentry)) ∧
      final.inodeOf dentry = some (.node place) ∧
      final.inodes[place]? = some inode ∧
      inode.iMode = node.mode ∧ inode.iRdev = node.rdev
  others : ∀ (env : DevEnv) (name : Name),
    (∀ dentry, env.dentryRoom dentry = true) → slash ∉ name → name ≠ [] →
    name ≠ dot → name ≠ dotdot → (∀ node ∈ nodes, node.name ≠ name) →
    ∃ final ret, s.pathWalk env name = some (final, .error ret)

section Step

variable {s final : Devfs} {env : DevEnv}

/-- A successful `dev_mknod` adds a dentry without an inode, and an inode. -/
theorem devMknod_cases {name : Name} {mode dev : Nat}
    (made : s.devMknod env name mode dev = some (final, 0)) :
    ∃ inode, inode.iMode = mode ∧ inode.iRdev = dev ∧
      (∀ position < name.length,
        inode.name position = name.getD position 0) ∧
      final = { s with
        dentries := s.dentries ++ [⟨0, name, none, true⟩]
        inodes := s.inodes ++ [inode]
        iSize := s.iSize + 1 } := by
  unfold devMknod devfsMknod at made
  split at made
  · split at made
    · split at made
      · split at made
        · rename_i short
          cases made
          refine ⟨_, rfl, rfl, ?_, rfl⟩
          intro position below
          exact if_pos (Nat.lt_of_lt_of_le below short)
        · cases made
      · cases made
    · cases made
  · cases made

/-- A lookup leaves all as it was, or adds a dentry for a name that no dentry
in the directory has: linked, with the inode of a node, or not linked. -/
inductive Grows (s : Devfs) : Devfs → Prop
  | same : Grows s s
  | failed (parent : Nat) (name : Name) :
      Grows s { s with
        dentries := s.dentries ++ [⟨parent, name, none, false⟩] }
  | found {parent place : Nat} {name : Name} :
      s.dLookup parent name = none → place < s.inodes.length →
      Grows s { s with
        dentries := s.dentries ++ [⟨parent, name, some (.node place), true⟩] }

theorem doLookup_grows {nd : Nat} {name : Name}
    {result : Except Int (Option Nat)}
    (looked : s.doLookup env nd name = some (final, result)) :
    s.Grows final := by
  unfold doLookup at looked
  split at looked
  · cases looked
    exact .same
  · split at looked
    · split at looked
      · cases looked
        exact .same
      · cases looked
        exact .same
    · cases cached : s.dLookup nd name with
      | some dentry =>
          rw [cached] at looked
          cases looked
          exact .same
      | none =>
          rw [cached, realLookup] at looked
          cases room : env.dentryRoom s.dentries.length with
          | false =>
              rw [room] at looked
              cases looked
          | true =>
              rw [room, if_pos rfl] at looked
              cases listed : s.devfsLookup name with
              | none =>
                  rw [listed] at looked
                  cases looked
                  exact .failed nd name
              | some place =>
                  rw [listed] at looked
                  cases looked
                  have inside := (List.findIdx?_eq_some_iff_getElem.mp
                    listed).1
                  exact .found cached inside

theorem walk_keeps (keeps : Devfs → Prop)
    (step : ∀ {s final : Devfs}, keeps s → s.Grows final → keeps final)
    (holds : keeps s) {nd : Nat} {names : List Name}
    {result : Except Int (Option Nat)}
    (walked : s.walk env nd names = some (final, result)) : keeps final := by
  induction names generalizing s nd with
  | nil =>
      cases walked
      exact holds
  | cons unit names induction =>
      rw [walk] at walked
      split at walked
      · cases walked
      · split at walked
        · split at walked
          · cases walked
          · rename_i looked
            cases walked
            exact step holds (doLookup_grows looked)
          · rename_i looked
            cases walked
            exact step holds (doLookup_grows looked)
          · rename_i looked
            exact induction (step holds (doLookup_grows looked)) walked
        · cases walked
          exact holds

end Step

/-- What every run keeps.  A linked dentry of the root is one that `dev_mknod`
made, without an inode, or it has the inode of a node that is older than any
node of its name. -/
structure Kept (s : Devfs) (nodes : List Node) : Prop where
  top : s.inodeOf 0 = some .top
  made : ∀ (place : Nat) (node : Node), nodes[place]? = some node →
    ∃ inode : DevfsInode, s.inodes[place]? = some inode ∧
      inode.iMode = node.mode ∧ inode.iRdev = node.rdev ∧
      ∀ position < node.name.length,
        inode.name position = node.name.getD position 0
  length : s.inodes.length = nodes.length
  noSlash : ∀ node ∈ nodes, slash ∉ node.name
  cached : ∀ node ∈ nodes, s.dLookup 0 node.name ≠ none
  linked : ∀ dentry ∈ s.dentries, dentry.linked = true →
    dentry.dParent = 0 →
    (dentry.dInode = none ∧ ∃ node ∈ nodes, node.name = dentry.dName) ∨
    ∃ place, dentry.dInode = some (.node place) ∧ place < s.inodes.length ∧
      ∀ (later : Nat) (node : Node), nodes[later]? = some node →
        node.name = dentry.dName → place < later

section Runs

variable {s final : Devfs} {nodes : List Node} {env : DevEnv}

theorem dLookup_append {dentry : DevDentry} {parent : Nat} {name : Name}
    (cached : s.dLookup parent name ≠ none) :
    ({ s with dentries := s.dentries ++ [dentry] } : Devfs).dLookup parent
      name ≠ none := by
  unfold dLookup at *
  rw [List.findIdx?_append]
  intro missing
  rw [Option.or_eq_none_iff] at missing
  exact cached missing.1

theorem inodeOf_append {dentry : DevDentry} {place : Nat} {inode : InodeRef}
    (has : s.inodeOf place = some inode) :
    ({ s with dentries := s.dentries ++ [dentry] } : Devfs).inodeOf place =
      some inode := by
  obtain ⟨old, isOld, hasInode⟩ := Option.bind_eq_some_iff.mp has
  obtain ⟨inside, -⟩ := List.getElem?_eq_some_iff.mp isOld
  rw [inodeOf, List.getElem?_append_left inside, isOld]
  exact hasInode

theorem mounted_kept : Kept mounted [] := by
  constructor
  · rfl
  · intro place node isNode
    cases isNode
  · rfl
  · intro node member
    cases member
  · intro node member
    cases member
  · intro dentry member isLinked
    rw [List.mem_singleton.mp member] at isLinked
    cases isLinked

/-- One more dentry, which is not linked or finds an inode by a name that no
node has. -/
theorem Kept.append (kept : Kept s nodes) {dentry : DevDentry}
    (fresh : dentry.linked = true → dentry.dParent = 0 →
      ∃ place, dentry.dInode = some (.node place) ∧
        place < s.inodes.length ∧
        ∀ node ∈ nodes, node.name ≠ dentry.dName) :
    Kept { s with dentries := s.dentries ++ [dentry] } nodes := by
  constructor
  · exact inodeOf_append kept.top
  · exact kept.made
  · exact kept.length
  · exact kept.noSlash
  · exact fun node member => dLookup_append (kept.cached node member)
  · intro other member isLinked isChild
    rcases List.mem_append.mp member with old | new
    · exact kept.linked other old isLinked isChild
    · obtain rfl := List.mem_singleton.mp new
      obtain ⟨place, hasInode, inside, unused⟩ := fresh isLinked isChild
      refine .inr ⟨place, hasInode, inside, ?_⟩
      intro later node isNode isName
      exact absurd isName (unused node (List.mem_of_getElem? isNode))

theorem Kept.grows (kept : Kept s nodes) (grows : s.Grows final) :
    Kept final nodes := by
  cases grows with
  | same => exact kept
  | failed parent name =>
      apply kept.append
      intro isLinked
      cases isLinked
  | @found parent place name missing inside =>
      apply kept.append
      intro _ isChild
      obtain rfl : parent = 0 := isChild
      refine ⟨place, rfl, inside, ?_⟩
      rintro node member rfl
      exact kept.cached node member missing

theorem getElem?_concat_cases {α : Type} {items : List α} {item last : α}
    {place : Nat} (isItem : (items ++ [last])[place]? = some item) :
    items[place]? = some item ∨ place = items.length ∧ last = item := by
  rcases Nat.lt_or_ge place items.length with before | after
  · rw [List.getElem?_append_left before] at isItem
    exact .inl isItem
  · rw [List.getElem?_append_right after, List.getElem?_singleton] at isItem
    split at isItem
    · cases isItem
      exact .inr ⟨by omega, rfl⟩
    · cases isItem

theorem Kept.mknod {node : Node} (kept : Kept s nodes)
    (noSlash : slash ∉ node.name)
    (made : s.devMknod env node.name node.mode node.rdev = some (final, 0)) :
    Kept final (nodes ++ [node]) := by
  obtain ⟨inode, mode, rdev, isName, rfl⟩ := devMknod_cases made
  constructor
  · exact inodeOf_append kept.top
  · intro place other isNode
    rcases getElem?_concat_cases isNode with old | ⟨last, rfl⟩
    · obtain ⟨inode, isInode, holds⟩ := kept.made place other old
      obtain ⟨inside, -⟩ := List.getElem?_eq_some_iff.mp isInode
      exact ⟨inode, by rw [List.getElem?_append_left inside, isInode], holds⟩
    · refine ⟨inode, ?_, mode, rdev, isName⟩
      rw [last, ← kept.length]
      exact List.getElem?_concat_length
  · rw [List.length_append, List.length_append, kept.length]
    rfl
  · intro other member
    rcases List.mem_append.mp member with old | new
    · exact kept.noSlash other old
    · rw [List.mem_singleton.mp new]
      exact noSlash
  · intro other member
    rcases List.mem_append.mp member with old | new
    · exact dLookup_append (kept.cached other old)
    · rw [List.mem_singleton.mp new]
      intro missing
      have absent := List.findIdx?_eq_none_iff.mp missing
        ⟨0, node.name, none, true⟩ List.mem_concat_self
      simp at absent
  · intro dentry member isLinked isChild
    rcases List.mem_append.mp member with old | new
    · rcases kept.linked dentry old isLinked isChild with
        ⟨isNone, other, isOther, same⟩ | ⟨place, isSome, inside, older⟩
      · exact .inl ⟨isNone, other, List.mem_append_left _ isOther, same⟩
      · refine .inr ⟨place, isSome, ?_, ?_⟩
        · rw [List.length_append]
          exact Nat.lt_add_right _ inside
        · intro later other isNode same
          rcases getElem?_concat_cases isNode with before | ⟨last, -⟩
          · exact older later other before same
          · rw [last, ← kept.length]
            exact inside
    · rw [List.mem_singleton.mp new]
      exact .inl ⟨rfl, node, List.mem_concat_self, rfl⟩

theorem Run.kept (run : Run s nodes) : Kept s nodes := by
  induction run with
  | start => exact mounted_kept
  | mknod _ noSlash _ made induction => exact induction.mknod noSlash made
  | @walk s final nodes env path result _ walked induction =>
      exact walk_keeps (fun s => Kept s nodes)
        (fun kept grows => kept.grows grows) induction walked

theorem units_of_noSlash {name : Name} (noSlash : slash ∉ name) :
    units name = if name = [] then [] else [name] := by
  have parts := unitsFrom_append noSlash [] []
  rw [List.append_nil, List.nil_append] at parts
  exact parts

theorem pathWalk_unit (top : s.inodeOf 0 = some .top) {name : Name}
    (isUnit : IsUnit name) : s.pathWalk env name = s.doLookup env 0 name := by
  rw [pathWalk, units_of_noSlash isUnit.2, if_neg isUnit.1, walk, top]
  simp only [isDirectory, if_true]
  rcases s.doLookup env 0 name with - | ⟨final, - | - | dentry⟩
  · rfl
  · rfl
  · rfl
  · rfl

theorem Kept.dLookup_cases (kept : Kept s nodes) {name : Name} {dentry : Nat}
    (found : s.dLookup 0 name = some dentry) :
    (s.inodeOf dentry = none ∧ ∃ node ∈ nodes, node.name = name) ∨
    ∃ place, s.inodeOf dentry = some (.node place) ∧
      place < s.inodes.length ∧ ∀ (later : Nat) (node : Node),
        nodes[later]? = some node → node.name = name → place < later := by
  obtain ⟨inside, holds, -⟩ := List.findIdx?_eq_some_iff_getElem.mp found
  simp only [Bool.and_eq_true, decide_eq_true_eq] at holds
  obtain ⟨⟨isLinked, isChild⟩, isName⟩ := holds
  have isInode : s.inodeOf dentry = s.dentries[dentry].dInode := by
    rw [inodeOf, List.getElem?_eq_getElem inside]
    rfl
  rw [isInode, ← isName]
  rcases kept.linked _ (List.getElem_mem inside) isLinked isChild with
    unset | isSome
  · exact .inl unset
  · exact .inr isSome

theorem Kept.not_found (kept : Kept s nodes) {place dentry : Nat}
    {node : Node} (isNode : nodes[place]? = some node)
    (walked : s.pathWalk env node.name = some (final, .ok (some dentry))) :
    final.inodeOf dentry ≠ some (.node place) := by
  have atTop : final = s → dentry = 0 →
      final.inodeOf dentry ≠ some (.node place) := by
    rintro rfl rfl same
    rw [kept.top] at same
    cases same
  have member := List.mem_of_getElem? isNode
  by_cases empty : node.name = []
  · rw [empty] at walked
    cases walked
    exact atTop rfl rfl
  · rw [pathWalk_unit kept.top ⟨empty, kept.noSlash node member⟩, doLookup]
      at walked
    split at walked
    · cases walked
      exact atTop rfl rfl
    · split at walked
      · rw [if_pos rfl] at walked
        cases walked
      · obtain ⟨cached, isCached⟩ := Option.ne_none_iff_exists'.mp
          (kept.cached node member)
        rw [isCached] at walked
        cases walked
        rcases kept.dLookup_cases isCached with
          ⟨unset, -⟩ | ⟨old, isOld, -, older⟩
        · rw [unset]
          exact Ne.symm (Option.some_ne_none _)
        · rw [isOld]
          intro same
          cases same
          exact Nat.lt_irrefl _ (older place node isNode rfl)

theorem Kept.fails (kept : Kept s []) {name : Name} (isUnit : IsUnit name)
    (notDot : name ≠ dot) (notUp : name ≠ dotdot)
    (room : ∀ dentry, env.dentryRoom dentry = true) :
    ∃ final ret, s.pathWalk env name = some (final, .error ret) := by
  have noInode : s.inodes = [] := List.eq_nil_of_length_eq_zero kept.length
  have missing : s.dLookup 0 name = none := by
    cases cached : s.dLookup 0 name with
    | none => rfl
    | some dentry =>
        rcases kept.dLookup_cases cached with
          ⟨-, node, member, -⟩ | ⟨place, -, inside, -⟩
        · cases member
        · rw [noInode] at inside
          exact absurd inside (Nat.not_lt_zero _)
  have listed : s.devfsLookup name = none := by
    rw [devfsLookup, noInode]
    rfl
  rw [pathWalk_unit kept.top isUnit, doLookup, if_neg notDot, if_neg notUp,
    missing, realLookup, room, if_pos rfl, listed]
  exact ⟨_, _, rfl⟩

theorem strncmpZero_of_agree {left right : Nat → UInt8} {position count : Nat}
    (agree : ∀ index < count,
      left (position + index) = right (position + index)) :
    strncmpZero left right position count = true := by
  induction count generalizing position with
  | zero => rfl
  | succ count induction =>
      have first : left position = right position :=
        agree 0 (Nat.succ_pos count)
      rw [strncmpZero, if_pos first]
      split
      · rfl
      · apply induction
        intro index below
        rw [Nat.add_assoc, Nat.add_comm 1]
        exact agree (index + 1) (Nat.succ_lt_succ below)

end Runs

/-- Memory for everything. -/
def roomyDev : DevEnv :=
  ⟨fun _ => true, true, fun _ => 0⟩

/-- Nodes are found by their names, and only they, in just the runs that make
none. -/
theorem nodesFound_iff {s : Devfs} {nodes : List Node} (run : Run s nodes) :
    NodesFound s nodes ↔ nodes = [] := by
  constructor
  · intro finds
    cases nodes with
    | nil => rfl
    | cons node nodes =>
        obtain ⟨final, dentry, inode, walked, isInode, -⟩ :=
          finds.found roomyDev 0 node (fun _ => rfl) rfl
        exact absurd isInode (run.kept.not_found rfl walked)
  · rintro rfl
    constructor
    · intro env place node _ isNode
      cases isNode
    · intro env name room noSlash notEmpty notDot notUp _
      exact run.kept.fails ⟨notEmpty, noSlash⟩ notDot notUp room

/-- A name that only begins like a node's name finds the inode of a node. -/
theorem Run.beginning_found {s : Devfs} {nodes : List Node}
    (run : Run s nodes) {env : DevEnv} {node : Node}
    (member : node ∈ nodes) {name : Name} (isUnit : IsUnit name)
    (notDot : name ≠ dot) (notUp : name ≠ dotdot)
    (begins : name <+: node.name)
    (other : ∀ node ∈ nodes, node.name ≠ name)
    (room : ∀ dentry, env.dentryRoom dentry = true) :
    ∃ final dentry place,
      s.pathWalk env name = some (final, .ok (some dentry)) ∧
      final.inodeOf dentry = some (.node place) := by
  have kept := run.kept
  rw [pathWalk_unit kept.top isUnit, doLookup, if_neg notDot, if_neg notUp]
  cases cached : s.dLookup 0 name with
  | some dentry =>
      rcases kept.dLookup_cases cached with
        ⟨-, same, isNode, isName⟩ | ⟨place, isSome, -⟩
      · exact absurd isName (other same isNode)
      · exact ⟨s, dentry, place, rfl, isSome⟩
  | none =>
      obtain ⟨place, isNode⟩ := List.mem_iff_getElem?.mp member
      obtain ⟨inode, isInode, -, -, bytes⟩ := kept.made place node isNode
      obtain ⟨rest, isName⟩ := begins
      have equal : strncmpZero inode.name (stringAt name) 0 name.length =
          true := by
        apply strncmpZero_of_agree
        intro index below
        have inside : index < node.name.length := by
          rw [← isName, List.length_append]
          exact Nat.lt_add_right _ below
        rw [Nat.zero_add, bytes index inside, ← isName, stringAt,
          List.getD_eq_getElem?_getD, List.getD_eq_getElem?_getD,
          List.getElem?_append_left below]
      have listed : s.devfsLookup name ≠ none := by
        intro missing
        have different := List.findIdx?_eq_none_iff.mp missing inode
          (List.mem_of_getElem? isInode)
        rw [equal] at different
        cases different
      obtain ⟨first, isFirst⟩ := Option.ne_none_iff_exists'.mp listed
      refine ⟨{ s with dentries := s.dentries ++
        [⟨0, name, some (.node first), true⟩] }, s.dentries.length, first, ?_,
        ?_⟩
      · rw [realLookup, room, if_pos rfl, isFirst]
      · rw [inodeOf, List.getElem?_concat_length]
        rfl

/-- The node `tty`. -/
def ttyNode : Node :=
  ⟨[116, 116, 121], 0o020666, 0x400⟩

/-- After `dev_mknod` of `tty`. -/
def withTty : Devfs where
  dentries := [⟨0, [slash], some .top, false⟩,
    ⟨0, ttyNode.name, none, true⟩]
  inodes := [⟨ttyNode.mode, ttyNode.rdev, fun position =>
    if position < fileNameSize then ttyNode.name.getD position 0 else 0⟩]
  iSize := 1

theorem withTty_run : Run withTty [ttyNode] := by
  have made : mounted.devMknod roomyDev ttyNode.name ttyNode.mode
      ttyNode.rdev = some (withTty, 0) := rfl
  have noSlash : slash ∉ ttyNode.name := by decide
  exact .mknod .start noSlash (fun _ member => nomatch member) made

/-- Before the first `dev_mknod` all nodes are found, and behind it not. -/
theorem nodesFound_tty :
    NodesFound mounted [] ∧ ¬ NodesFound withTty [ttyNode] := by
  constructor
  · exact (nodesFound_iff .start).mpr rfl
  · intro found
    exact absurd ((nodesFound_iff withTty_run).mp found) (by decide)

/-- `/dev/tty` is a dentry without an inode. -/
theorem not_nodesFound :
    ¬ ∀ s nodes, Run s nodes → NodesFound s nodes := by
  intro always
  have finds := always withTty [ttyNode] withTty_run
  obtain ⟨final, dentry, inode, walked, isInode, -⟩ :=
    finds.found roomyDev 0 ttyNode (fun _ => rfl) rfl
  have cached : withTty.pathWalk roomyDev ttyNode.name =
      some (withTty, .ok (some 1)) := rfl
  rw [cached] at walked
  cases walked
  cases isInode

end Devfs

end Witos.Vfs
