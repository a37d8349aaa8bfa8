import Mathlib.Data.List.Basic
import Witos.Vfs.Calls

/-!
# What a walk changes

A walk only adds dentries for names it had to look up.  Where it leads to is
therefore a function of the tree it starts with, `trace`, which looks names up
and forgets them.
-/

namespace Witos.Vfs.State

/-- A unit of a path. -/
def IsUnit (name : Name) : Prop :=
  name ≠ [] ∧ slash ∉ name

theorem isUnit_of_mem {unit : Name} (noSlash : slash ∉ unit)
    {path : List UInt8} {name : Name} (member : name ∈ unitsFrom unit path) :
    IsUnit name := by
  induction path generalizing unit with
  | nil =>
      rw [unitsFrom] at member
      split at member
      · cases member
      · rename_i notEmpty
        rw [List.mem_singleton.mp member]
        exact ⟨notEmpty, noSlash⟩
  | cons char path induction =>
      rw [unitsFrom] at member
      split at member
      · split at member
        · exact induction List.not_mem_nil member
        · rename_i notEmpty
          rcases List.mem_cons.mp member with rfl | later
          · exact ⟨notEmpty, noSlash⟩
          · exact induction List.not_mem_nil later
      · rename_i notSlash
        apply induction _ member
        rw [List.mem_append, List.mem_singleton, not_or]
        exact ⟨noSlash, Ne.symm notSlash⟩

theorem unitsFrom_append {name : Name} (noSlash : slash ∉ name) (unit : Name)
    (path : List UInt8) :
    unitsFrom unit (name ++ path) = unitsFrom (unit ++ name) path := by
  induction name generalizing unit with
  | nil => rw [List.nil_append, List.append_nil]
  | cons char name induction =>
      rw [List.mem_cons, not_or] at noSlash
      rw [List.cons_append, unitsFrom, if_neg (Ne.symm noSlash.1),
        induction noSlash.2, List.append_assoc, List.singleton_append]

/-- The dentry is in the tree. -/
def Here (s : State) : Dentry → Prop
  | .root mnt => mnt < s.mounts.length
  | .child parent name copy => .child parent name copy ∈ s.subdirs parent

def OnDisk (s : State) (dentry : Dentry) : Prop :=
  ∃ volume, s.fs dentry = some (.disk volume)

/-- The dentry is in the tree, and in the file system of the mount. -/
def Valid (s : State) (path : Path) : Prop :=
  s.Here path.dentry ∧ path.dentry.dSb = path.mnt

def IsDirectory (s : State) (dentry : Dentry) : Prop :=
  ∃ inode, s.inode dentry = some inode ∧ inode.isDir = true

/-- What every call keeps. -/
structure WellFormed (s : State) : Prop where
  child : ∀ parent, ∀ dentry ∈ s.subdirs parent, s.Here parent ∧
    ∃ name copy, dentry = .child parent name copy ∧
      copy < (s.subdirs parent).countP (fun other => other.dName = name)
  absent : ∀ dentry, ¬s.Here dentry →
    s.inode dentry = none ∧ s.subdirs dentry = []
  onDisk : ∀ parent, ∀ dentry ∈ s.subdirs parent, s.OnDisk parent →
    s.inode dentry ≠ none
  first : ∃ fs, s.mounts[0]? = some ⟨none, fs⟩
  mounted : ∀ mnt path, s.mounts[mnt]?.bind Mount.mountedOn = some path →
    path.mnt < mnt ∧ s.Valid path
  root : s.root = ⟨0, .root 0⟩
  pwd : s.Valid s.pwd

section Tree

variable {s : State} {parent dentry : Dentry} {name : Name}

theorem dLookup_mem (found : s.dLookup parent name = some dentry) :
    dentry ∈ s.subdirs parent :=
  List.mem_of_find?_eq_some found

theorem dLookup_dName (found : s.dLookup parent name = some dentry) :
    dentry.dName = name := by
  simpa using List.find?_some found

theorem newDentry_of_dLookup (missing : s.dLookup parent name = none) :
    s.newDentry parent name = .child parent name 0 := by
  unfold newDentry
  congr 1
  apply List.countP_eq_zero.mpr
  intro other member
  simpa using List.find?_eq_none.mp missing other member

namespace WellFormed

variable (wf : s.WellFormed)
include wf

theorem here_of_mem (member : dentry ∈ s.subdirs parent) : s.Here dentry := by
  obtain ⟨-, name, copy, rfl, -⟩ := wf.child parent dentry member
  exact member

theorem newDentry_notMem :
    s.newDentry parent name ∉ s.subdirs parent := by
  intro member
  obtain ⟨-, other, copy, same, below⟩ := wf.child parent _ member
  obtain ⟨-, rfl, rfl⟩ := Dentry.child.inj same
  exact Nat.lt_irrefl _ below

theorem here_dParent (here : s.Here dentry) : s.Here dentry.dParent := by
  cases dentry with
  | root mnt => exact here
  | child parent name copy => exact (wf.child parent _ here).1

theorem here_of_subdirs (member : dentry ∈ s.subdirs parent) :
    s.Here parent :=
  (wf.child parent dentry member).1

theorem dSb_lt (here : s.Here dentry) : dentry.dSb < s.mounts.length := by
  induction dentry with
  | root mnt => exact here
  | child parent name copy induction => exact induction (wf.here_dParent here)

theorem valid_dParent {path : Path} (valid : s.Valid path) :
    s.Valid ⟨path.mnt, path.dentry.dParent⟩ := by
  refine ⟨wf.here_dParent valid.1, ?_⟩
  rw [← valid.2]
  cases path.dentry with
  | root mnt => rfl
  | child parent name copy => rfl

end WellFormed

end Tree

section Alloc

variable {s : State} {parent : Dentry} {name : Name}

theorem child_ne_parent (parent : Dentry) (name : Name) (copy : Nat) :
    Dentry.child parent name copy ≠ parent := by
  intro same
  have size := congrArg sizeOf same
  simp at size
  omega

theorem newDentry_ne_parent : s.newDentry parent name ≠ parent :=
  child_ne_parent _ _ _

theorem subdirs_dAlloc (wf : s.WellFormed) (other : Dentry) :
    (s.dAlloc parent name).subdirs other =
      if other = parent then s.subdirs parent ++ [s.newDentry parent name]
      else s.subdirs other := by
  have fresh := (wf.absent (s.newDentry parent name) wf.newDentry_notMem).2
  by_cases isParent : other = parent
  · simp [dAlloc, setSubdirs, isParent]
  · by_cases isNew : other = s.newDentry parent name
    · rw [if_neg isParent, isNew, fresh]
      simp [dAlloc, setSubdirs, newDentry_ne_parent]
    · rw [if_neg isParent]
      simp [dAlloc, setSubdirs, setInode, isParent, isNew]

theorem inode_dAlloc (wf : s.WellFormed) :
    (s.dAlloc parent name).inode = s.inode := by
  have fresh := (wf.absent (s.newDentry parent name) wf.newDentry_notMem).1
  change Function.update s.inode _ none = s.inode
  rw [← fresh, Function.update_eq_self]

theorem dAlloc_dput (wf : s.WellFormed) (parent : Dentry) (name : Name) :
    (s.dAlloc parent name).dput (s.newDentry parent name) = s := by
  have children : ((s.dAlloc parent name).dput
      (s.newDentry parent name)).subdirs = s.subdirs := by
    funext other
    change Function.update (s.dAlloc parent name).subdirs parent
      (((s.dAlloc parent name).subdirs parent).erase
        (s.newDentry parent name)) other = s.subdirs other
    rw [subdirs_dAlloc wf, if_pos rfl,
      List.erase_append_right _ wf.newDentry_notMem, List.erase_cons_head,
      List.append_nil]
    by_cases isParent : other = parent
    · rw [isParent, Function.update_self]
    · rw [Function.update_of_ne isParent, subdirs_dAlloc wf,
        if_neg isParent]
  have inodes : ((s.dAlloc parent name).dput
      (s.newDentry parent name)).inode = s.inode := inode_dAlloc wf
  calc (s.dAlloc parent name).dput (s.newDentry parent name)
      = { s with
          subdirs := ((s.dAlloc parent name).dput
            (s.newDentry parent name)).subdirs
          inode := ((s.dAlloc parent name).dput
            (s.newDentry parent name)).inode } := rfl
    _ = s := by rw [children, inodes]

/-- The tree with a new dentry and its inode. -/
def adopt (s : State) (parent : Dentry) (name : Name)
    (inode : Option Inode) : State :=
  (s.dAlloc parent name).setInode (s.newDentry parent name) inode

variable {inode : Option Inode}

theorem inode_adopt (wf : s.WellFormed) (dentry : Dentry) :
    (s.adopt parent name inode).inode dentry =
      if dentry = s.newDentry parent name then inode
      else s.inode dentry := by
  change Function.update (s.dAlloc parent name).inode _ inode dentry = _
  rw [inode_dAlloc wf, Function.update_apply]

theorem mem_subdirs_adopt (wf : s.WellFormed) {other dentry : Dentry} :
    dentry ∈ (s.adopt parent name inode).subdirs other ↔
      dentry ∈ s.subdirs other ∨
        other = parent ∧ dentry = s.newDentry parent name := by
  change dentry ∈ (s.dAlloc parent name).subdirs other ↔ _
  rw [subdirs_dAlloc wf]
  by_cases isParent : other = parent
  · simp [isParent]
  · simp [isParent]

theorem here_adopt (wf : s.WellFormed) {dentry : Dentry} :
    (s.adopt parent name inode).Here dentry ↔
      s.Here dentry ∨ dentry = s.newDentry parent name := by
  cases dentry with
  | root mnt =>
      constructor
      · exact .inl
      · rintro (here | isNew)
        · exact here
        · cases isNew
  | child other otherName copy =>
      change _ ∈ (s.adopt parent name inode).subdirs other ↔ _
      rw [mem_subdirs_adopt wf]
      apply or_congr_right
      constructor
      · exact And.right
      · intro same
        exact ⟨(Dentry.child.inj same).1, same⟩

theorem dLookup_adopt (wf : s.WellFormed) (other : Dentry)
    (otherName : Name) :
    (s.adopt parent name inode).dLookup other otherName =
      (s.dLookup other otherName).or
        (if other = parent ∧ otherName = name then
          some (s.newDentry parent name) else none) := by
  change ((s.dAlloc parent name).subdirs other).find? _ = _
  rw [subdirs_dAlloc wf]
  by_cases isParent : other = parent
  · rw [if_pos isParent, List.find?_append, isParent]
    by_cases isName : otherName = name
    · simp [dLookup, isName, newDentry, Dentry.dName]
    · have differs : ¬name = otherName := Ne.symm isName
      simp [dLookup, isName, differs, newDentry, Dentry.dName]
  · simp [isParent, dLookup]

theorem fs_adopt (dentry : Dentry) :
    (s.adopt parent name inode).fs dentry = s.fs dentry := rfl

theorem countP_subdirs_adopt (wf : s.WellFormed) (other : Dentry)
    (otherName : Name) :
    ((s.adopt parent name inode).subdirs other).countP
        (fun dentry => dentry.dName = otherName) =
      (s.subdirs other).countP (fun dentry => dentry.dName = otherName) +
        if other = parent ∧ otherName = name then 1 else 0 := by
  change ((s.dAlloc parent name).subdirs other).countP _ = _
  rw [subdirs_dAlloc wf]
  by_cases isParent : other = parent
  · rw [if_pos isParent, List.countP_append, isParent]
    by_cases isName : otherName = name
    · simp [isName, newDentry, Dentry.dName]
    · have differs : ¬name = otherName := Ne.symm isName
      simp [isName, differs, newDentry, Dentry.dName]
  · simp [isParent]

theorem WellFormed.adopt (wf : s.WellFormed) (here : s.Here parent)
    (onDisk : s.OnDisk parent → inode ≠ none) :
    (s.adopt parent name inode).WellFormed where
  child := by
    intro other dentry member
    rcases (mem_subdirs_adopt wf).mp member with old | ⟨rfl, rfl⟩
    · obtain ⟨otherHere, otherName, copy, rfl, below⟩ :=
        wf.child other dentry old
      refine ⟨(here_adopt wf).mpr (.inl otherHere), otherName, copy, rfl, ?_⟩
      rw [countP_subdirs_adopt wf]
      exact Nat.lt_add_right _ below
    · refine ⟨(here_adopt wf).mpr (.inl here), name, _, rfl, ?_⟩
      rw [countP_subdirs_adopt wf, if_pos ⟨rfl, rfl⟩]
      exact Nat.lt_succ_self _
  absent := by
    intro dentry notHere
    rw [here_adopt wf, not_or] at notHere
    have old := wf.absent dentry notHere.1
    constructor
    · rw [inode_adopt wf, if_neg notHere.2, old.1]
    · apply List.eq_nil_iff_forall_not_mem.mpr
      intro child member
      rcases (mem_subdirs_adopt wf).mp member with inOld | ⟨rfl, -⟩
      · rw [old.2] at inOld
        cases inOld
      · exact notHere.1 here
  onDisk := by
    intro other dentry member isDisk
    rw [inode_adopt wf]
    by_cases isNew : dentry = s.newDentry parent name
    · rw [if_pos isNew]
      rcases (mem_subdirs_adopt wf).mp member with old | ⟨rfl, -⟩
      · obtain ⟨-, otherName, copy, isChild, -⟩ := wf.child other dentry old
        rw [isNew] at isChild
        rw [← (Dentry.child.inj isChild).1] at isDisk
        exact onDisk isDisk
      · exact onDisk isDisk
    · rw [if_neg isNew]
      rcases (mem_subdirs_adopt wf).mp member with old | ⟨-, same⟩
      · exact wf.onDisk other dentry old isDisk
      · exact absurd same isNew
  first := wf.first
  mounted := by
    intro mnt path isMounted
    obtain ⟨below, valid⟩ := wf.mounted mnt path isMounted
    exact ⟨below, (here_adopt wf).mpr (.inl valid.1), valid.2⟩
  root := wf.root
  pwd := ⟨(here_adopt wf).mpr (.inl wf.pwd.1), wf.pwd.2⟩

end Alloc

/-- The inode of a dentry, or of one that a lookup would add. -/
def seen (env : Env) (s : State) : Dentry → Option Inode
  | .root mnt => s.inode (.root mnt)
  | .child parent name copy =>
      if .child parent name copy ∈ s.subdirs parent then
        s.inode (.child parent name copy)
      else
        match seen env s parent with
        | none => none
        | some dir =>
            match s.iLookup env dir (.child parent name copy) with
            | some (.ok inode) => inode
            | _ => none

/-- The dentry a name leads to, before a mount on it is followed. -/
def peek (env : Env) (s : State) (parent : Dentry) (name : Name) :
    Option (Except Int Dentry) :=
  match s.dLookup parent name with
  | some dentry => some (.ok dentry)
  | none =>
      let dentry := Dentry.child parent name 0
      if env.room dentry then
        match s.seen env parent with
        | none => none
        | some dir =>
            (s.iLookup env dir dentry).map (Except.map (fun _ => dentry))
      else none

/-- `do_lookup`, without adding dentries. -/
def glance (env : Env) (s : State) (nd : Path) (name : Name)
    (next : Option Path) : Option (Except Int Path) :=
  if name = dot then some (.ok nd)
  else if name = dotdot then
    match s.leaves env next with
    | none => none
    | some up =>
        match if up then s.followUp nd else some nd with
        | none => none
        | some nd => some (.ok ⟨nd.mnt, nd.dentry.dParent⟩)
  else
    match s.peek env nd.dentry name with
    | none => none
    | some (.error ret) => some (.error ret)
    | some (.ok dentry) => some (.ok (s.followMount ⟨nd.mnt, dentry⟩))

/-- `path_walk`, without adding dentries. -/
def trace (env : Env) (s : State) (nd : Path) (next : Option Path) :
    List Name → Option (Except Int Path)
  | [] => some (.ok nd)
  | unit :: units =>
      match s.seen env nd.dentry with
      | none => none
      | some inode =>
          if inode.isDir then
            match s.glance env nd unit next with
            | none => none
            | some (.error ret) => some (.error ret)
            | some (.ok next) => trace env s next (some next) units
          else some (.error (-enotdir))

/-- The second state is the first one with dentries added that lookups in the
first one would add. -/
structure Grown (env : Env) (s later : State) : Prop where
  mounts : later.mounts = s.mounts
  root : later.root = s.root
  pwd : later.pwd = s.pwd
  inodeCount : later.inodeCount = s.inodeCount
  subdirs : ∀ parent, ∀ dentry ∈ s.subdirs parent,
    dentry ∈ later.subdirs parent
  kept : ∀ parent name dentry, s.dLookup parent name = some dentry →
    later.dLookup parent name = some dentry
  found : ∀ parent name dentry, later.dLookup parent name = some dentry →
    s.peek env parent name = some (.ok dentry)
  inode : ∀ dentry, later.Here dentry →
    later.inode dentry = s.seen env dentry

section Growth

variable {env : Env} {s later : State}

theorem seen_of_here {dentry : Dentry} (here : s.Here dentry) :
    s.seen env dentry = s.inode dentry := by
  cases dentry with
  | root mnt => rfl
  | child parent name copy =>
      rw [seen]
      exact if_pos here

theorem peek_of_dLookup {parent dentry : Dentry} {name : Name}
    (found : s.dLookup parent name = some dentry) :
    s.peek env parent name = some (.ok dentry) := by
  simp [peek, found]

theorem peek_room {parent : Dentry} {name : Name}
    (missing : s.dLookup parent name = none) {found : Dentry}
    (isPeek : s.peek env parent name = some (.ok found)) :
    env.room (.child parent name 0) = true ∧
      found = .child parent name 0 ∧
      ∃ dir inode, s.seen env parent = some dir ∧
        s.iLookup env dir (.child parent name 0) = some (.ok inode) := by
  unfold peek at isPeek
  simp only [missing] at isPeek
  split at isPeek
  · rename_i room
    split at isPeek
    · cases isPeek
    · rename_i dir isDir
      cases answer : s.iLookup env dir (.child parent name 0) with
      | none => simp [answer] at isPeek
      | some outcome =>
          cases outcome with
          | error ret => simp [answer, Except.map] at isPeek
          | ok inode =>
              simp only [answer, Option.map_some, Except.map,
                Option.some.injEq, Except.ok.injEq] at isPeek
              exact ⟨room, isPeek.symm, dir, inode, isDir, answer⟩
  · cases isPeek

theorem Grown.refl (env : Env) (s : State) : Grown env s s where
  mounts := rfl
  root := rfl
  pwd := rfl
  inodeCount := rfl
  subdirs := fun _ _ member => member
  kept := fun _ _ _ found => found
  found := fun _ _ _ found => peek_of_dLookup found
  inode := fun _ here => (seen_of_here here).symm

theorem Grown.here (grown : Grown env s later) {dentry : Dentry}
    (here : s.Here dentry) : later.Here dentry := by
  cases dentry with
  | root mnt =>
      change mnt < later.mounts.length
      rw [grown.mounts]
      exact here
  | child parent name copy => exact grown.subdirs _ _ here

theorem Grown.fs (grown : Grown env s later) (dentry : Dentry) :
    later.fs dentry = s.fs dentry := by
  unfold State.fs
  rw [grown.mounts]

theorem Grown.iLookup (grown : Grown env s later) (dir : Inode)
    (dentry : Dentry) :
    later.iLookup env dir dentry = s.iLookup env dir dentry := by
  unfold State.iLookup
  rw [grown.fs]

theorem Grown.lookupMnt (grown : Grown env s later) (dentry : Dentry) :
    later.lookupMnt dentry = s.lookupMnt dentry := by
  unfold State.lookupMnt
  rw [grown.mounts]

theorem Grown.followMount (grown : Grown env s later) (path : Path) :
    later.followMount path = s.followMount path := by
  unfold State.followMount
  rw [grown.lookupMnt]

theorem Grown.followUp (grown : Grown env s later) (path : Path) :
    later.followUp path = s.followUp path := by
  unfold State.followUp
  rw [grown.mounts]

theorem Grown.leaves (grown : Grown env s later) (next : Option Path) :
    later.leaves env next = s.leaves env next := by
  cases next with
  | none => rfl
  | some next =>
      unfold State.leaves
      rw [grown.mounts]

theorem Grown.missing (grown : Grown env s later) {parent : Dentry}
    {name : Name} (missing : later.dLookup parent name = none) :
    s.dLookup parent name = none := by
  cases found : s.dLookup parent name with
  | none => rfl
  | some dentry =>
      rw [grown.kept _ _ _ found] at missing
      cases missing

theorem notMem_of_dLookup {parent : Dentry} {name : Name} (copy : Nat)
    (missing : s.dLookup parent name = none) :
    Dentry.child parent name copy ∉ s.subdirs parent := by
  intro member
  have differs := List.find?_eq_none.mp missing _ member
  simp [Dentry.dName] at differs

theorem seen_of_missing {parent : Dentry} {name : Name} {dir : Inode}
    {inode : Option Inode} {copy : Nat}
    (missing : s.dLookup parent name = none)
    (isDir : s.seen env parent = some dir)
    (answer : s.iLookup env dir (.child parent name copy) =
      some (.ok inode)) :
    s.seen env (.child parent name copy) = inode := by
  rw [seen, if_neg (notMem_of_dLookup copy missing), isDir]
  simp [answer]

theorem iLookup_disk {parent : Dentry} {name : Name} {dir : Inode}
    {volume : Volume} (isDisk : s.fs parent = some (.disk volume)) :
    s.iLookup env dir (.child parent name 0) =
      (volume.lookup (env.scratch (.child parent name 0)) dir name).map
        (Except.map some) := by
  have childDisk : s.fs (.child parent name 0) = some (.disk volume) := isDisk
  rw [iLookup, childDisk]
  rfl

/-- A lookup on a disk that succeeds has the inode the volume returned. -/
theorem iLookup_ok {dir : Inode} {dentry : Dentry} {inode : Option Inode}
    {volume : Volume} (isDisk : s.fs dentry = some (.disk volume))
    (answer : s.iLookup env dir dentry = some (.ok inode)) :
    ∃ found, inode = some found ∧
      volume.lookup (env.scratch dentry) dir dentry.dName =
        some (.ok found) := by
  unfold iLookup at answer
  rw [isDisk] at answer
  cases result : volume.lookup (env.scratch dentry) dir dentry.dName with
  | none => simp [result] at answer
  | some outcome =>
      cases outcome with
      | error ret => simp [result, Except.map] at answer
      | ok found =>
          simp only [result, Option.map_some, Except.map, Option.some.injEq,
            Except.ok.injEq] at answer
          exact ⟨found, answer.symm, rfl⟩

theorem iLookup_onDisk {dir : Inode} {dentry : Dentry}
    {inode : Option Inode} (onDisk : s.OnDisk dentry)
    (answer : s.iLookup env dir dentry = some (.ok inode)) :
    inode ≠ none := by
  obtain ⟨volume, isDisk⟩ := onDisk
  obtain ⟨found, rfl, -⟩ := iLookup_ok isDisk answer
  exact Option.some_ne_none found

theorem Grown.adopt (grown : Grown env s later) (wf : later.WellFormed)
    {parent : Dentry} {name : Name} {inode : Option Inode}
    (missing : later.dLookup parent name = none)
    (isChild : s.peek env parent name =
      some (.ok (.child parent name 0)))
    (isInode : s.seen env (.child parent name 0) = inode) :
    Grown env s (later.adopt parent name inode) where
  mounts := grown.mounts
  root := grown.root
  pwd := grown.pwd
  inodeCount := grown.inodeCount
  subdirs := by
    intro other dentry member
    exact (mem_subdirs_adopt wf).mpr (.inl (grown.subdirs _ _ member))
  kept := by
    intro other otherName dentry found
    rw [dLookup_adopt wf, grown.kept _ _ _ found, Option.some_or]
  found := by
    intro other otherName dentry found
    rw [dLookup_adopt wf] at found
    cases cached : later.dLookup other otherName with
    | some old =>
        rw [cached, Option.some_or] at found
        rw [← Option.some.inj found]
        exact grown.found _ _ _ cached
    | none =>
        rw [cached, Option.none_or] at found
        split at found
        · rename_i same
          obtain ⟨rfl, rfl⟩ := same
          rw [newDentry_of_dLookup missing] at found
          rw [← Option.some.inj found]
          exact isChild
        · cases found
  inode := by
    intro dentry here
    rw [inode_adopt wf, newDentry_of_dLookup missing]
    by_cases isNew : dentry = .child parent name 0
    · rw [if_pos isNew, isNew, isInode]
    · rw [if_neg isNew]
      rcases (here_adopt wf).mp here with old | same
      · exact grown.inode dentry old
      · rw [newDentry_of_dLookup missing] at same
        exact absurd same isNew

theorem realLookup_spec (grown : Grown env s later) (wf : later.WellFormed)
    {parent : Dentry} {name : Name} (here : later.Here parent)
    (missing : later.dLookup parent name = none) :
    match later.realLookup env parent name with
    | none => s.peek env parent name = none
    | some (final, .error ret) =>
        final = later ∧ s.peek env parent name = some (.error ret)
    | some (final, .ok dentry) =>
        s.peek env parent name = some (.ok dentry) ∧
          dentry = .child parent name 0 ∧
          ∃ inode, final = later.adopt parent name inode ∧
            Grown env s final ∧ final.WellFormed := by
  have missingHere := grown.missing missing
  have isNew := newDentry_of_dLookup missing
  have known := grown.inode parent here
  unfold realLookup
  simp only [isNew]
  by_cases room : env.room (.child parent name 0) = true
  · rw [if_pos room]
    cases isDir : later.inode parent with
    | none => simp [peek, missingHere, room, ← known, isDir]
    | some dir =>
        rw [isDir] at known
        have same := grown.iLookup dir (.child parent name 0)
        cases answer : later.iLookup env dir (.child parent name 0) with
        | none =>
            simp [peek, missingHere, room, ← known, ← same, answer]
        | some outcome =>
            cases outcome with
            | error ret =>
                have restored := dAlloc_dput wf parent name
                rw [isNew] at restored
                simp [peek, missingHere, room, ← known, ← same, answer,
                  Except.map, restored]
            | ok inode =>
                have isChild : s.peek env parent name =
                    some (.ok (.child parent name 0)) := by
                  simp [peek, missingHere, room, ← known, ← same, answer,
                    Except.map]
                have isAdopt : (later.dAlloc parent name).setInode
                    (.child parent name 0) inode =
                    later.adopt parent name inode := by
                  rw [State.adopt, isNew]
                simp only [answer, isAdopt]
                refine ⟨isChild, trivial, inode, rfl, ?_⟩
                constructor
                · apply grown.adopt wf missing isChild
                  exact seen_of_missing missingHere known.symm
                    (same ▸ answer)
                · apply wf.adopt here
                  intro onDisk
                  have childOnDisk : later.OnDisk (.child parent name 0) :=
                    onDisk
                  exact iLookup_onDisk childOnDisk answer
  · rw [if_neg room]
    simp [peek, missingHere, room]

theorem followMount_valid {path : Path}
    (valid : s.Valid path) : s.Valid (s.followMount path) := by
  unfold followMount
  cases found : s.lookupMnt path.dentry with
  | none => exact valid
  | some mnt =>
      refine ⟨?_, rfl⟩
      exact (List.findIdx?_eq_some_iff_findIdx_eq.mp found).1

theorem followUp_lookupMnt {dentry : Dentry} {mnt : Nat}
    (found : s.lookupMnt dentry = some mnt) :
    (s.followUp ⟨mnt, .root mnt⟩).map Path.dentry = some dentry := by
  obtain ⟨inside, isOn, -⟩ := List.findIdx?_eq_some_iff_getElem.mp found
  unfold followUp
  rw [List.getElem?_eq_getElem inside]
  simpa using isOn

theorem followUp_entered (wf : s.WellFormed) {dentry : Dentry} {mnt : Nat}
    (found : s.lookupMnt dentry = some mnt) :
    s.followUp ⟨mnt, .root mnt⟩ = some ⟨dentry.dSb, dentry⟩ := by
  obtain ⟨point, followed, isPoint⟩ :=
    Option.map_eq_some_iff.mp (followUp_lookupMnt found)
  have valid := (wf.mounted _ _ followed).2
  rw [followed, ← isPoint, valid.2]

theorem WellFormed.followUp_first (wf : s.WellFormed) (dentry : Dentry) :
    s.followUp ⟨0, dentry⟩ = none := by
  obtain ⟨fs, isFirst⟩ := wf.first
  rw [followUp, isFirst]
  rfl

theorem dLookup_child (wf : s.WellFormed) {parent dentry : Dentry}
    {name : Name} (found : s.dLookup parent name = some dentry) :
    ∃ copy, dentry = .child parent name copy := by
  obtain ⟨-, other, copy, rfl, -⟩ := wf.child _ _ (dLookup_mem found)
  obtain rfl : other = name := dLookup_dName found
  exact ⟨copy, rfl⟩

theorem peek_child (wf : s.WellFormed) {parent dentry : Dentry} {name : Name}
    (isPeek : s.peek env parent name = some (.ok dentry)) :
    ∃ copy, dentry = .child parent name copy := by
  cases cached : s.dLookup parent name with
  | some found =>
      rw [peek_of_dLookup cached] at isPeek
      cases isPeek
      exact dLookup_child wf cached
  | none => exact ⟨0, (peek_room cached isPeek).2.1⟩

theorem followUp_valid (wf : s.WellFormed) {path up : Path}
    (followed : s.followUp path = some up) : s.Valid up :=
  (wf.mounted _ _ followed).2

/-- What a call that walks leaves: where it leads to is what the tree says it
started from, and the tree has grown. -/
def Follows (env : Env) (s : State)
    (outcome : Option (State × Except Int Path))
    (expected : Option (Except Int Path)) : Prop :=
  outcome.map Prod.snd = expected ∧
    ∀ final result, outcome = some (final, result) →
      Grown env s final ∧ final.WellFormed ∧
        ∀ path, result = .ok path → final.Valid path

theorem Follows.noReturn {env : Env} {s : State} :
    Follows env s none none := by
  refine ⟨rfl, ?_⟩
  intro final result isResult
  cases isResult

theorem Follows.returned {final : State} (grown : Grown env s final)
    (wf : final.WellFormed) {result : Except Int Path}
    (valid : ∀ path, result = .ok path → final.Valid path) :
    Follows env s (some (final, result)) (some result) := by
  refine ⟨rfl, ?_⟩
  intro _ _ isResult
  cases isResult
  exact ⟨grown, wf, valid⟩

theorem Follows.error {final : State} (grown : Grown env s final)
    (wf : final.WellFormed) (ret : Int) :
    Follows env s (some (final, .error ret)) (some (.error ret)) := by
  apply Follows.returned grown wf
  intro path isPath
  cases isPath

theorem Follows.ok {final : State} (grown : Grown env s final)
    (wf : final.WellFormed) {path : Path} (valid : final.Valid path) :
    Follows env s (some (final, .ok path)) (some (.ok path)) := by
  apply Follows.returned grown wf
  intro other isPath
  cases isPath
  exact valid

theorem doLookup_follows_up (grown : Grown env s later)
    (wf : later.WellFormed) {nd : Path} (valid : later.Valid nd)
    (next : Option Path) :
    Follows env s (later.doLookup env nd dotdot next)
      (s.glance env nd dotdot next) := by
  have notDot : dotdot ≠ dot := by decide
  unfold doLookup glance
  rw [if_neg notDot, if_neg notDot, if_pos rfl, if_pos rfl, grown.leaves,
    grown.followUp]
  cases s.leaves env next with
  | none => exact .noReturn
  | some up =>
      cases up with
      | false => exact .ok grown wf (wf.valid_dParent valid)
      | true =>
          simp only [if_true]
          cases followed : s.followUp nd with
          | none => exact .noReturn
          | some path =>
              rw [← grown.followUp] at followed
              exact .ok grown wf
                (wf.valid_dParent (followUp_valid wf followed))

theorem doLookup_follows_child (grown : Grown env s later)
    (wf : later.WellFormed) {nd : Path} (valid : later.Valid nd)
    {name : Name} (notDot : name ≠ dot) (notUp : name ≠ dotdot)
    (next : Option Path) :
    Follows env s (later.doLookup env nd name next)
      (s.glance env nd name next) := by
  unfold doLookup glance
  rw [if_neg notDot, if_neg notDot, if_neg notUp, if_neg notUp]
  cases cached : later.dLookup nd.dentry name with
  | some dentry =>
      rw [grown.found _ _ _ cached]
      simp only [grown.followMount]
      apply Follows.ok grown wf
      rw [← grown.followMount]
      apply followMount_valid
      obtain ⟨-, other, copy, rfl, -⟩ := wf.child _ _ (dLookup_mem cached)
      exact ⟨dLookup_mem cached, valid.2⟩
  | none =>
      have spec := realLookup_spec grown wf valid.1 cached
      simp only
      cases outcome : later.realLookup env nd.dentry name with
      | none =>
          rw [outcome] at spec
          rw [spec]
          exact .noReturn
      | some pair =>
          obtain ⟨final, result⟩ := pair
          rw [outcome] at spec
          cases result with
          | error ret =>
              obtain ⟨rfl, isPeek⟩ := spec
              rw [isPeek]
              exact .error grown wf ret
          | ok dentry =>
              obtain ⟨isPeek, rfl, inode, rfl, finalGrown, finalWf⟩ := spec
              rw [isPeek]
              simp only [finalGrown.followMount]
              apply Follows.ok finalGrown finalWf
              rw [← finalGrown.followMount]
              apply followMount_valid
              refine ⟨(here_adopt wf).mpr (.inr ?_), valid.2⟩
              rw [newDentry_of_dLookup cached]

theorem doLookup_follows (grown : Grown env s later)
    (wf : later.WellFormed) {nd : Path} (valid : later.Valid nd)
    (name : Name) (next : Option Path) :
    Follows env s (later.doLookup env nd name next)
      (s.glance env nd name next) := by
  by_cases isDot : name = dot
  · unfold doLookup glance
    rw [if_pos isDot, if_pos isDot]
    exact .ok grown wf valid
  · by_cases isUp : name = dotdot
    · rw [isUp]
      exact doLookup_follows_up grown wf valid next
    · exact doLookup_follows_child grown wf valid isDot isUp next

/-- A walk in a tree that has grown leads to where it would in the tree from
before, and lets it grow on. -/
theorem walk_follows (grown : Grown env s later) (wf : later.WellFormed)
    {nd : Path} (valid : later.Valid nd) (next : Option Path)
    (units : List Name) :
    Follows env s (later.walk env nd next units)
      (s.trace env nd next units) := by
  induction units generalizing later nd next with
  | nil => exact .ok grown wf valid
  | cons unit units induction =>
      rw [walk, trace, ← grown.inode _ valid.1]
      cases later.inode nd.dentry with
      | none => exact .noReturn
      | some inode =>
          by_cases isDir : inode.isDir = true
          · simp only [isDir, if_true]
            obtain ⟨same, kept⟩ :=
              doLookup_follows grown wf valid unit next
            cases outcome : later.doLookup env nd unit next with
            | none =>
                rw [outcome] at same
                simp only [Option.map_none] at same
                rw [← same]
                exact .noReturn
            | some pair =>
                obtain ⟨final, result⟩ := pair
                rw [outcome] at same
                simp only [Option.map_some] at same
                rw [← same]
                obtain ⟨finalGrown, finalWf, finalValid⟩ :=
                  kept final result outcome
                cases result with
                | error ret => exact .error finalGrown finalWf ret
                | ok path =>
                    exact induction finalGrown finalWf
                      (finalValid path rfl) (some path)
          · simp only [isDir]
            exact .error grown wf _

end Growth

section Errors

variable {env : Env} {s : State} {ret : Int}

theorem iLookup_error {dir : Inode} {dentry : Dentry}
    (failed : s.iLookup env dir dentry = some (.error ret)) : ret < 0 := by
  unfold iLookup at failed
  split at failed
  · cases failed
  · cases failed
  · rename_i volume isDisk
    cases result : volume.lookup (env.scratch dentry) dir dentry.dName with
    | none => simp [result] at failed
    | some outcome =>
        cases outcome with
        | ok inode => simp [result, Except.map] at failed
        | error error =>
            simp only [result, Option.map_some, Except.map,
              Option.some.injEq, Except.error.injEq] at failed
            rw [← failed]
            exact volume.negative _ _ _ _ result

theorem peek_error {parent : Dentry} {name : Name}
    (failed : s.peek env parent name = some (.error ret)) : ret < 0 := by
  unfold peek at failed
  split at failed
  · cases failed
  · simp only at failed
    split at failed
    · split at failed
      · cases failed
      · rename_i dir isDir
        cases answer : s.iLookup env dir (.child parent name 0) with
        | none => simp [answer] at failed
        | some outcome =>
            cases outcome with
            | ok inode => simp [answer, Except.map] at failed
            | error error =>
                simp only [answer, Option.map_some, Except.map,
                  Option.some.injEq, Except.error.injEq] at failed
                rw [← failed]
                exact iLookup_error answer
    · cases failed

theorem glance_error {nd : Path} {name : Name} {next : Option Path}
    (failed : s.glance env nd name next = some (.error ret)) : ret < 0 := by
  unfold glance at failed
  split at failed
  · cases failed
  · split at failed
    · split at failed
      · cases failed
      · split at failed
        · cases failed
        · cases failed
    · split at failed
      · cases failed
      · rename_i error isError
        cases failed
        exact peek_error isError
      · cases failed

theorem trace_error {nd : Path} {next : Option Path} {units : List Name}
    (failed : s.trace env nd next units = some (.error ret)) : ret < 0 := by
  induction units generalizing nd next with
  | nil => cases failed
  | cons unit units induction =>
      rw [trace] at failed
      split at failed
      · cases failed
      · split at failed
        · split at failed
          · cases failed
          · rename_i error isError
            cases failed
            exact glance_error isError
          · exact induction failed
        · cases failed
          decide

end Errors

section Steps

variable {env : Env} {s : State} {nd place : Path} {next : Option Path}

theorem glance_cases {name : Name}
    (isGlance : s.glance env nd name next = some (.ok place)) :
    (name = dot ∧ place = nd) ∨
    (name = dotdot ∧ s.leaves env next = some false ∧
      place = ⟨nd.mnt, nd.dentry.dParent⟩) ∨
    (name = dotdot ∧ s.leaves env next = some true ∧
      ∃ point, s.followUp nd = some point ∧
        place = ⟨point.mnt, point.dentry.dParent⟩) ∨
    (name ≠ dot ∧ name ≠ dotdot ∧
      ∃ dentry, s.peek env nd.dentry name = some (.ok dentry) ∧
        place = s.followMount ⟨nd.mnt, dentry⟩) := by
  unfold glance at isGlance
  split at isGlance
  · rename_i isDot
    cases isGlance
    exact .inl ⟨isDot, rfl⟩
  · rename_i notDot
    split at isGlance
    · rename_i isUp
      split at isGlance
      · cases isGlance
      · rename_i up isLeaves
        cases up with
        | false =>
            cases isGlance
            exact .inr (.inl ⟨isUp, isLeaves, rfl⟩)
        | true =>
            rw [if_pos rfl] at isGlance
            split at isGlance
            · cases isGlance
            · rename_i point followed
              cases isGlance
              exact .inr (.inr (.inl ⟨isUp, isLeaves, point, followed, rfl⟩))
    · rename_i notUp
      split at isGlance
      · cases isGlance
      · cases isGlance
      · rename_i dentry isPeek
        cases isGlance
        exact .inr (.inr (.inr ⟨notDot, notUp, dentry, isPeek, rfl⟩))

theorem glance_name {name : Name} (notDot : name ≠ dot)
    (notUp : name ≠ dotdot)
    (isGlance : s.glance env nd name next = some (.ok place)) :
    ∃ dentry, s.peek env nd.dentry name = some (.ok dentry) ∧
      place = s.followMount ⟨nd.mnt, dentry⟩ := by
  rcases glance_cases isGlance with
    ⟨isDot, -⟩ | ⟨isUp, -⟩ | ⟨isUp, -⟩ | ⟨-, -, found⟩
  · exact absurd isDot notDot
  · exact absurd isUp notUp
  · exact absurd isUp notUp
  · exact found

theorem trace_cons_ok {unit : Name} {units : List Name}
    (traced : s.trace env nd next (unit :: units) = some (.ok place)) :
    ∃ inode later, s.seen env nd.dentry = some inode ∧
      inode.isDir = true ∧ s.glance env nd unit next = some (.ok later) ∧
      s.trace env later (some later) units = some (.ok place) := by
  rw [trace] at traced
  split at traced
  · cases traced
  · rename_i inode isInode
    split at traced
    · rename_i isDir
      split at traced
      · cases traced
      · cases traced
      · rename_i later isGlance
        exact ⟨inode, later, isInode, isDir, isGlance, traced⟩
    · cases traced

end Steps

def isMountRoot (s : State) (path : Path) : Bool :=
  path.dentry = .root path.mnt ∧ (s.followUp path).isSome

def cachedStep (s : State) (nd : Path) (name : Name) : Option Path :=
  if name = dot then some nd
  else if name = dotdot then
    (if s.isMountRoot nd then s.followUp nd else some nd).map
      fun place => ⟨place.mnt, place.dentry.dParent⟩
  else (s.dLookup nd.dentry name).map fun dentry =>
    s.followMount ⟨nd.mnt, dentry⟩

/-- A walk that finds every name in the tree and every test set. -/
def cachedTrace (s : State) (nd : Path) : List Name → Option Path
  | [] => some nd
  | unit :: units =>
      match s.inode nd.dentry with
      | none => none
      | some inode =>
          if inode.isDir then
            (s.cachedStep nd unit).bind (cachedTrace s · units)
          else none

section Cached

variable {env : Env} {s later : State}

theorem cachedTrace_cons {nd place : Path} {unit : Name}
    {units : List Name} :
    s.cachedTrace nd (unit :: units) = some place ↔
      ∃ inode first, s.inode nd.dentry = some inode ∧
        inode.isDir = true ∧ s.cachedStep nd unit = some first ∧
        s.cachedTrace first units = some place := by
  rw [cachedTrace]
  constructor
  · intro traced
    split at traced
    · cases traced
    · rename_i inode isInode
      split at traced
      · rename_i isDir
        obtain ⟨first, step, rest⟩ := Option.bind_eq_some_iff.mp traced
        exact ⟨inode, first, isInode, isDir, step, rest⟩
      · cases traced
  · rintro ⟨inode, first, isInode, isDir, step, rest⟩
    simp only [isInode, isDir, if_true, step, Option.bind_some]
    exact rest

theorem leaves_of_valid (wf : s.WellFormed) {nd : Path} (valid : s.Valid nd) :
    s.leaves env (some nd) = some (s.isMountRoot nd) := by
  have inside : nd.mnt < s.mounts.length := by
    rw [← valid.2]
    exact wf.dSb_lt valid.1
  simp [leaves, isMountRoot, followUp, List.getElem?_eq_getElem inside]

/-- Whatever a walk over known dentries comes upon, it takes the same step. -/
theorem glance_of_cachedStep (wf : s.WellFormed) (env : Env)
    {nd place : Path} (valid : s.Valid nd) {name : Name} {next : Option Path}
    (isSet : name = dotdot → next = some nd)
    (step : s.cachedStep nd name = some place) :
    s.glance env nd name next = some (.ok place) ∧ s.Valid place := by
  unfold cachedStep at step
  unfold glance
  split at step
  · rename_i isDot
    cases step
    rw [if_pos isDot]
    exact ⟨rfl, valid⟩
  · rename_i notDot
    rw [if_neg notDot]
    split at step
    · rename_i isUp
      rw [if_pos isUp, isSet isUp, leaves_of_valid wf valid]
      cases isRoot : s.isMountRoot nd with
      | false =>
          rw [isRoot] at step
          cases step
          exact ⟨rfl, wf.valid_dParent valid⟩
      | true =>
          rw [isRoot] at step
          simp only [if_true] at step ⊢
          obtain ⟨above, followed, rfl⟩ := Option.map_eq_some_iff.mp step
          rw [followed]
          exact ⟨rfl, wf.valid_dParent (followUp_valid wf followed)⟩
    · rename_i notUp
      rw [if_neg notUp]
      obtain ⟨dentry, found, rfl⟩ := Option.map_eq_some_iff.mp step
      rw [peek_of_dLookup found]
      refine ⟨rfl, followMount_valid ?_⟩
      obtain ⟨-, other, copy, rfl, -⟩ := wf.child _ _ (dLookup_mem found)
      exact ⟨dLookup_mem found, valid.2⟩

theorem trace_of_cachedTrace (wf : s.WellFormed) (env : Env)
    {nd place : Path} (valid : s.Valid nd) {next : Option Path}
    {units : List Name} (isSet : units.head? = some dotdot → next = some nd)
    (traced : s.cachedTrace nd units = some place) :
    s.trace env nd next units = some (.ok place) ∧ s.Valid place := by
  induction units generalizing nd next with
  | nil =>
      cases traced
      exact ⟨rfl, valid⟩
  | cons unit units induction =>
      obtain ⟨inode, first, isInode, isDir, step, rest⟩ :=
        cachedTrace_cons.mp traced
      obtain ⟨isGlance, firstValid⟩ := glance_of_cachedStep wf env
        valid (fun isUp => isSet (congrArg some isUp)) step
      rw [trace, seen_of_here valid.1, isInode]
      simp only [isDir, if_true, isGlance]
      exact induction firstValid (fun _ => rfl) rest

theorem Grown.cachedStep (grown : Grown env s later) {nd place : Path}
    {name : Name} (step : s.cachedStep nd name = some place) :
    later.cachedStep nd name = some place := by
  have sameRoot : later.isMountRoot nd = s.isMountRoot nd := by
    unfold isMountRoot
    rw [grown.followUp]
  unfold State.cachedStep at step ⊢
  split at step
  · rename_i isDot
    rw [if_pos isDot]
    exact step
  · rename_i notDot
    rw [if_neg notDot]
    split at step
    · rename_i isUp
      rw [if_pos isUp, sameRoot, grown.followUp]
      exact step
    · rename_i notUp
      rw [if_neg notUp]
      obtain ⟨dentry, found, rfl⟩ := Option.map_eq_some_iff.mp step
      rw [grown.kept _ _ _ found, Option.map_some, grown.followMount]

theorem cachedStep_of_doLookup (wf : s.WellFormed) {nd place : Path}
    (valid : s.Valid nd) {name : Name} {next : Option Path} {final : State}
    (isSet : name = dotdot → next = some nd)
    (step : s.doLookup env nd name next = some (final, .ok place)) :
    final.cachedStep nd name = some place := by
  unfold doLookup at step
  unfold cachedStep
  split at step
  · rename_i isDot
    cases step
    rw [if_pos isDot]
  · rename_i notDot
    rw [if_neg notDot]
    split at step
    · rename_i isUp
      rw [isSet isUp, leaves_of_valid wf valid] at step
      rw [if_pos isUp]
      cases isRoot : s.isMountRoot nd with
      | false =>
          simp only [isRoot, Bool.false_eq_true, if_false, Option.some.injEq,
            Prod.mk.injEq, Except.ok.injEq] at step
          obtain ⟨rfl, rfl⟩ := step
          rw [isRoot]
          rfl
      | true =>
          simp only [isRoot, if_true] at step
          split at step
          · cases step
          · rename_i above followed
            cases step
            rw [isRoot]
            simp only [if_true, followed, Option.map_some]
    · rename_i notUp
      rw [if_neg notUp]
      split at step
      · rename_i dentry found
        cases step
        rw [found, Option.map_some]
      · rename_i missing
        have spec := realLookup_spec (Grown.refl env s) wf valid.1 missing
        split at step
        · cases step
        · cases step
        · rename_i walked dentry isOk
          cases step
          rw [isOk] at spec
          obtain ⟨-, rfl, inode, rfl, -, -⟩ := spec
          rw [dLookup_adopt wf, missing, Option.none_or, if_pos ⟨rfl, rfl⟩,
            newDentry_of_dLookup missing, Option.map_some]

theorem cachedTrace_of_walk (wf : s.WellFormed) {nd place : Path}
    (valid : s.Valid nd) {next : Option Path} {units : List Name}
    {final : State}
    (isSet : units.head? = some dotdot → next = some nd)
    (walked : s.walk env nd next units = some (final, .ok place)) :
    final.cachedTrace nd units = some place := by
  induction units generalizing s nd next with
  | nil =>
      cases walked
      rfl
  | cons unit units induction =>
      have grown := ((walk_follows (Grown.refl env s) wf valid next
        (unit :: units)).2 _ _ walked).1
      have sameInode := grown.inode nd.dentry (grown.here valid.1)
      rw [seen_of_here valid.1] at sameInode
      rw [walk] at walked
      split at walked
      · cases walked
      · rename_i inode isInode
        split at walked
        · rename_i isDir
          split at walked
          · cases walked
          · cases walked
          · rename_i middle first step
            obtain ⟨-, middleWf, middleValid⟩ :=
              (doLookup_follows (Grown.refl env s) wf valid unit next).2 _ _
                step
            have firstValid := middleValid first rfl
            have known := cachedStep_of_doLookup wf valid
              (fun isUp => isSet (congrArg some isUp)) step
            have rest := induction middleWf firstValid (fun _ => rfl) walked
            have restGrown := ((walk_follows (Grown.refl env middle) middleWf
              firstValid (some first) units).2 _ _ walked).1
            rw [cachedTrace, sameInode, isInode]
            simp only [isDir, if_true, restGrown.cachedStep known]
            exact rest
        · cases walked

end Cached

/-- `path_walk`, without adding dentries. -/
def pathTrace (env : Env) (s : State) (path : List UInt8) :
    Option (Except Int Path) :=
  s.trace env (s.start path) none (units path)

theorem WellFormed.valid_start {s : State} (wf : s.WellFormed)
    (path : List UInt8) : s.Valid (s.start path) := by
  unfold start
  split
  · rw [wf.root]
    refine ⟨?_, rfl⟩
    obtain ⟨fs, isFirst⟩ := wf.first
    exact (List.getElem?_eq_some_iff.mp isFirst).1
  · exact wf.pwd

theorem pathWalk_follows {s : State} (wf : s.WellFormed) (env : Env)
    (path : List UInt8) :
    Follows env s (s.pathWalk env path) (s.pathTrace env path) :=
  walk_follows (Grown.refl env s) wf (wf.valid_start path) none (units path)

theorem pathWalk_error {s : State} (wf : s.WellFormed) {env : Env}
    {path : List UInt8} {final : State} {ret : Int}
    (failed : s.pathWalk env path = some (final, .error ret)) : ret < 0 := by
  have same := (pathWalk_follows wf env path).1
  rw [failed] at same
  exact trace_error same.symm

end Witos.Vfs.State
