import Witos.Vfs.Runs

/-!
# Resolving paths

A reference resolver on the tree of objects, and when `path_walk` agrees with
it.  The code tests the uninitialised `next` if the first component is `..`,
leaves only one of two mounts that share a root, takes a dentry without an
inode for an object, and finds the oldest of several mounts on a directory.
-/

namespace Witos.Vfs.State

/-- The inode a directory on the disk has under a name, whatever a lookup with
room for it comes upon. -/
noncomputable def held (volume : Volume) (dir : Inode) (name : Name) :
    Option Inode :=
  open Classical in
  if found : ∃ inode, ∀ scratch : Scratch, scratch.room = true →
      volume.lookup scratch dir name = some (.ok inode) then
    some found.choose
  else none

/-- The inode of an object, which may not have a dentry yet. -/
noncomputable def objectInode (s : State) : Dentry → Option Inode
  | .root mnt => s.inode (.root mnt)
  | .child parent name copy =>
      if .child parent name copy ∈ s.subdirs parent then
        s.inode (.child parent name copy)
      else
        match objectInode s parent, s.fs parent with
        | some dir, some (.disk volume) => held volume dir name
        | _, _ => none

/-- The object of a name in a directory. -/
noncomputable def objectNamed (s : State) (parent : Dentry) (name : Name) :
    Option Dentry :=
  match (s.subdirs parent).find?
      (fun dentry => dentry.dName = name ∧ (s.inode dentry).isSome) with
  | some dentry => some dentry
  | none =>
      if (s.objectInode (.child parent name 0)).isSome then
        some (.child parent name 0)
      else none

/-- The mount on a dentry that was made last. -/
def newestOn (s : State) (dentry : Dentry) : Option Nat :=
  (List.range s.mounts.length).reverse.find? fun mnt =>
    (s.followUp ⟨mnt, .root mnt⟩).map Path.dentry = some dentry

/-- The parent of a place: at the root of a mount, that of the place it is
mounted on. -/
def parentFrom (s : State) : Nat → Path → Path
  | 0, path => path
  | fuel + 1, path =>
      if path.dentry = .root path.mnt then
        match s.followUp path with
        | none => path
        | some point => parentFrom s fuel point
      else ⟨path.mnt, path.dentry.dParent⟩

def parentOf (s : State) (path : Path) : Path :=
  s.parentFrom (path.mnt + 1) path

/-- The object with the file system on it entered. -/
def entered (s : State) (mnt : Nat) (dentry : Dentry) : Path :=
  match s.newestOn dentry with
  | some mnt => ⟨mnt, .root mnt⟩
  | none => ⟨mnt, dentry⟩

noncomputable def resolveStep (s : State) (path : Path) (name : Name) :
    Option Path :=
  match s.objectInode path.dentry with
  | none => none
  | some inode =>
      if inode.isDir then
        if name = dot then some path
        else if name = dotdot then some (s.parentOf path)
        else (s.objectNamed path.dentry name).map (s.entered path.mnt)
      else none

noncomputable def resolve (s : State) (path : Path) : List Name → Option Path
  | [] => some path
  | name :: names => (s.resolveStep path name).bind (resolve s · names)

/-- The root of a mount whose place is itself the root of a mount that has a
place. -/
def Stacked (s : State) (path : Path) : Prop :=
  path.dentry = .root path.mnt ∧
    ∃ point, s.followUp path = some point ∧ s.isMountRoot point = true

/-- What a component needs to be taken as the reference resolver takes it:
the test before `..` must come out right, also on a `next` that was never set,
and no mount may be stacked on another; the dentry of a name must have an
inode, or memory if it is a new one, and carry at most one mount. -/
structure StepMeets (env : Env) (s : State) (next : Option Path)
    (path : Path) (name : Name) : Prop where
  up : name = dotdot →
    s.leaves env next = some (s.isMountRoot path) ∧ ¬s.Stacked path
  cached : name ≠ dot → name ≠ dotdot → ∀ dentry,
    s.dLookup path.dentry name = some dentry → s.inode dentry ≠ none
  room : name ≠ dot → name ≠ dotdot →
    s.dLookup path.dentry name = none →
      env.room (.child path.dentry name 0) = true ∧
        (env.scratch (.child path.dentry name 0)).room = true
  single : name ≠ dot → name ≠ dotdot → ∀ dentry,
    s.objectNamed path.dentry name = some dentry →
      s.newestOn dentry = s.lookupMnt dentry

/-- Every component meets the condition where the reference resolver takes
it. -/
def Meets (env : Env) (s : State) (next : Option Path) (path : Path) :
    List Name → Prop
  | [] => True
  | name :: names =>
      s.StepMeets env next path name ∧
        ∀ later, s.resolveStep path name = some later →
          Meets env s (some later) later names

section Resolve

variable {env : Env} {s : State}

theorem parentFrom_congr (wf : s.WellFormed) {fuel other : Nat}
    {path : Path}
    (enough : path.mnt < fuel) (otherEnough : path.mnt < other) :
    s.parentFrom fuel path = s.parentFrom other path := by
  induction fuel generalizing other path with
  | zero => cases enough
  | succ fuel induction =>
      cases other with
      | zero => cases otherEnough
      | succ other =>
          rw [parentFrom, parentFrom]
          split
          · cases followed : s.followUp path with
            | none => rfl
            | some point =>
                have below := (wf.mounted _ _ followed).1
                apply induction
                · exact Nat.lt_of_lt_of_le below (Nat.le_of_lt_succ enough)
                · exact Nat.lt_of_lt_of_le below
                    (Nat.le_of_lt_succ otherEnough)
          · rfl

theorem parentOf_of_followUp (wf : s.WellFormed) {path point : Path}
    (isRoot : path.dentry = .root path.mnt)
    (followed : s.followUp path = some point) :
    s.parentOf path = s.parentOf point := by
  have below := (wf.mounted _ _ followed).1
  rw [parentOf, parentFrom, if_pos isRoot, followed]
  exact parentFrom_congr wf below (Nat.lt_succ_self _)

theorem parentOf_of_not_isMountRoot {path : Path}
    (notRoot : s.isMountRoot path = false) :
    s.parentOf path = ⟨path.mnt, path.dentry.dParent⟩ := by
  rw [parentOf, parentFrom]
  by_cases isRoot : path.dentry = .root path.mnt
  · rw [if_pos isRoot]
    cases followed : s.followUp path with
    | none =>
        rw [isRoot]
        cases path
        simp only at isRoot
        rw [isRoot]
        rfl
    | some point => simp [isMountRoot, isRoot, followed] at notRoot
  · rw [if_neg isRoot]

theorem followUp_of_isMountRoot (wf : s.WellFormed) {path : Path}
    (isRoot : s.isMountRoot path = true) :
    path.dentry = .root path.mnt ∧
      ∃ point, s.followUp path = some point ∧ point.mnt < path.mnt := by
  simp only [isMountRoot, decide_eq_true_eq] at isRoot
  obtain ⟨point, followed⟩ := Option.isSome_iff_exists.mp isRoot.2
  exact ⟨isRoot.1, point, followed, (wf.mounted _ _ followed).1⟩

/-- The parent of a place is never in a younger mount. -/
theorem parentOf_le (wf : s.WellFormed) (path : Path) :
    (s.parentOf path).mnt ≤ path.mnt := by
  induction h : path.mnt using Nat.strongRecOn generalizing path with
  | _ mnt induction =>
      subst h
      cases isRoot : s.isMountRoot path with
      | false =>
          have sameMount : (s.parentOf path).mnt = path.mnt := by
            rw [parentOf_of_not_isMountRoot isRoot]
          exact Nat.le_of_eq sameMount
      | true =>
          obtain ⟨isRoot, point, followed, below⟩ :=
            followUp_of_isMountRoot wf isRoot
          rw [parentOf_of_followUp wf isRoot followed]
          exact Nat.le_trans (induction _ below point rfl)
            (Nat.le_of_lt below)

theorem parentOf_lt (wf : s.WellFormed) {path : Path}
    (isRoot : s.isMountRoot path = true) :
    (s.parentOf path).mnt < path.mnt := by
  obtain ⟨atRoot, point, followed, below⟩ :=
    followUp_of_isMountRoot wf isRoot
  rw [parentOf_of_followUp wf atRoot followed]
  exact Nat.lt_of_le_of_lt (parentOf_le wf point) below

/-- `d_parent` leads to the parent except at the root of a mount. -/
theorem parentOf_eq_iff (wf : s.WellFormed) (path : Path) :
    ⟨path.mnt, path.dentry.dParent⟩ = s.parentOf path ↔
      s.isMountRoot path = false := by
  constructor
  · intro same
    by_contra other
    have below := parentOf_lt wf (Bool.not_eq_false _ ▸ other)
    rw [← same] at below
    exact Nat.lt_irrefl _ below
  · intro notRoot
    exact (parentOf_of_not_isMountRoot notRoot).symm

theorem stacked_iff {path point : Path} (atRoot : path.dentry = .root path.mnt)
    (followed : s.followUp path = some point) :
    s.Stacked path ↔ s.isMountRoot point = true := by
  constructor
  · rintro ⟨-, other, isOther, pointRoot⟩
    rw [followed] at isOther
    cases isOther
    exact pointRoot
  · exact fun pointRoot => ⟨atRoot, point, followed, pointRoot⟩

/-- `..` leads to the parent exactly if the test comes out right and no mount
is stacked. -/
theorem glance_dotdot_iff (wf : s.WellFormed) (next : Option Path)
    (path : Path) :
    s.glance env path dotdot next = some (.ok (s.parentOf path)) ↔
      s.leaves env next = some (s.isMountRoot path) ∧ ¬s.Stacked path := by
  have notDot : dotdot ≠ dot := by decide
  rw [glance, if_neg notDot, if_pos rfl]
  cases test : s.leaves env next with
  | none => simp
  | some up =>
      simp only [Option.some.injEq]
      cases isRoot : s.isMountRoot path with
      | false =>
          have notStacked : ¬s.Stacked path := by
            rintro ⟨isRoot', point, followed, -⟩
            simp [isMountRoot, isRoot', followed] at isRoot
          cases up with
          | false =>
              simp [parentOf_of_not_isMountRoot isRoot, notStacked]
          | true =>
              simp only [if_true]
              cases followed : s.followUp path with
              | none => simp
              | some point =>
                  have below := (wf.mounted _ _ followed).1
                  simp only [Option.some.injEq, Except.ok.injEq,
                    Bool.true_eq_false, false_and, iff_false]
                  intro same
                  rw [parentOf_of_not_isMountRoot isRoot,
                    Path.mk.injEq] at same
                  exact Nat.ne_of_lt below same.1
      | true =>
          cases up with
          | false =>
              have differ := (not_congr (parentOf_eq_iff wf path)).mpr
                (Bool.not_eq_false _ ▸ isRoot)
              simp only [Bool.false_eq_true, if_false, Option.some.injEq,
                Except.ok.injEq, false_and, iff_false]
              exact differ
          | true =>
              obtain ⟨atRoot, point, followed, -⟩ :=
                followUp_of_isMountRoot wf isRoot
              simp only [followed, if_true, Option.some.injEq,
                Except.ok.injEq, true_and]
              rw [parentOf_of_followUp wf atRoot followed,
                stacked_iff atRoot followed, Bool.not_eq_true]
              exact parentOf_eq_iff wf point

theorem held_spec {volume : Volume} {dir inode : Inode} {name : Name}
    (isHeld : held volume dir name = some inode) {scratch : Scratch}
    (room : scratch.room = true) :
    volume.lookup scratch dir name = some (.ok inode) := by
  unfold held at isHeld
  split at isHeld
  · rename_i found
    cases isHeld
    exact found.choose_spec scratch room
  · cases isHeld

theorem followUp_newestOn {dentry : Dentry} {mnt : Nat}
    (newest : s.newestOn dentry = some mnt) :
    (s.followUp ⟨mnt, .root mnt⟩).map Path.dentry = some dentry := by
  simpa using List.find?_some newest

/-- From two children of one directory, the code and the reference resolver
get to the same place only if they are one and carry no second mount. -/
theorem followMount_eq_entered_iff (mnt : Nat) {parent : Dentry}
    {name : Name} {copy other : Nat} :
    s.followMount ⟨mnt, .child parent name copy⟩ =
        s.entered mnt (.child parent name other) ↔
      copy = other ∧ s.newestOn (.child parent name other) =
        s.lookupMnt (.child parent name other) := by
  unfold followMount entered
  cases first : s.lookupMnt (.child parent name copy) with
  | none =>
      cases newest : s.newestOn (.child parent name other) with
      | none =>
          simp only [Path.mk.injEq, Dentry.child.injEq, true_and]
          constructor
          · rintro rfl
            exact ⟨rfl, first.symm⟩
          · exact And.left
      | some mnt =>
          simp only [Path.mk.injEq, reduceCtorEq, and_false, false_iff]
          rintro ⟨rfl, same⟩
          rw [first] at same
          cases same
  | some firstMnt =>
      cases newest : s.newestOn (.child parent name other) with
      | none =>
          simp only [Path.mk.injEq, reduceCtorEq, and_false, false_iff]
          rintro ⟨rfl, same⟩
          rw [first] at same
          cases same
      | some newestMnt =>
          simp only [Path.mk.injEq, Dentry.root.injEq, and_self]
          constructor
          · rintro rfl
            have isChild := followUp_lookupMnt first
            rw [followUp_newestOn newest, Option.some.injEq,
              Dentry.child.injEq] at isChild
            obtain ⟨-, -, rfl⟩ := isChild
            exact ⟨rfl, first.symm⟩
          · rintro ⟨rfl, same⟩
            rw [first, Option.some.injEq] at same
            exact same.symm

theorem objectNamed_of_dLookup {parent dentry : Dentry} {name : Name}
    (found : s.dLookup parent name = some dentry)
    (object : s.inode dentry ≠ none) :
    s.objectNamed parent name = some dentry := by
  have isFirst : (s.subdirs parent).find?
      (fun dentry => dentry.dName = name ∧ (s.inode dentry).isSome) =
      some dentry := by
    obtain ⟨isName, before, after, split, skipped⟩ :=
      List.find?_eq_some_iff_append.mp found
    apply List.find?_eq_some_iff_append.mpr
    refine ⟨?_, before, after, split, ?_⟩
    · simp only [decide_eq_true_eq] at isName ⊢
      exact ⟨isName, Option.isSome_iff_ne_none.mpr object⟩
    · intro other member
      have differs := skipped other member
      simp only [Bool.not_eq_true', decide_eq_false_iff_not] at differs ⊢
      exact fun both => differs both.1
  rw [objectNamed, isFirst]

/-- An object without a dentry is on a disk. -/
theorem objectNamed_cases {parent dentry : Dentry} {name : Name}
    (object : s.objectNamed parent name = some dentry) :
    (dentry ∈ s.subdirs parent ∧ dentry.dName = name ∧
      s.inode dentry ≠ none) ∨
      dentry = .child parent name 0 ∧
        dentry ∉ s.subdirs parent ∧
        ∃ dir volume inode, s.objectInode parent = some dir ∧
          s.fs parent = some (.disk volume) ∧
          held volume dir name = some inode ∧
          s.objectInode dentry = some inode := by
  unfold objectNamed at object
  cases found : (s.subdirs parent).find?
      (fun dentry => dentry.dName = name ∧ (s.inode dentry).isSome) with
  | some other =>
      simp only [found, Option.some.injEq] at object
      subst object
      have isObject := List.find?_some found
      simp only [decide_eq_true_eq] at isObject
      exact .inl ⟨List.mem_of_find?_eq_some found, isObject.1,
        Option.isSome_iff_ne_none.mp isObject.2⟩
  | none =>
      simp only [found] at object
      split at object
      · rename_i isObject
        cases object
        obtain ⟨inode, isInode⟩ := Option.isSome_iff_exists.mp isObject
        have notMem : Dentry.child parent name 0 ∉ s.subdirs parent := by
          intro member
          have differs := List.find?_eq_none.mp found _ member
          rw [objectInode, if_pos member] at isInode
          simp [Dentry.dName, isInode] at differs
        refine .inr ⟨rfl, notMem, ?_⟩
        have unfolded := isInode
        rw [objectInode, if_neg notMem] at unfolded
        split at unfolded
        · rename_i dir volume isDir isDisk
          exact ⟨dir, volume, inode, isDir, isDisk, unfolded, isInode⟩
        · cases unfolded
      · cases object

/-- The lookup of an object that has no dentry, exactly if there is room. -/
theorem peek_held_iff {parent : Dentry} {name : Name} {dir inode : Inode}
    {volume : Volume} (missing : s.dLookup parent name = none)
    (isDir : s.seen env parent = some dir)
    (isDisk : s.fs parent = some (.disk volume))
    (isHeld : held volume dir name = some inode) :
    s.peek env parent name = some (.ok (.child parent name 0)) ↔
      env.room (.child parent name 0) = true ∧
        (env.scratch (.child parent name 0)).room = true := by
  constructor
  · intro isPeek
    obtain ⟨room, -, other, found, isOther, answer⟩ :=
      peek_room missing isPeek
    refine ⟨room, ?_⟩
    rw [isDir] at isOther
    cases isOther
    have childDisk : s.fs (.child parent name 0) = some (.disk volume) :=
      isDisk
    obtain ⟨lost, -, result⟩ := iLookup_ok childDisk answer
    cases inodeRoom : (env.scratch (.child parent name 0)).room with
    | true => rfl
    | false => exact absurd result (volume.noRoom _ dir name lost inodeRoom)
  · rintro ⟨room, inodeRoom⟩
    have found := held_spec isHeld inodeRoom
    simp [peek, missing, room, isDir, iLookup_disk isDisk, found, Except.map]

/-- A name leads to its object exactly if its dentry has an inode or memory
and no second mount. -/
theorem glance_name_iff (wf : s.WellFormed) {path : Path} {name : Name}
    (next : Option Path) (notDot : name ≠ dot) (notUp : name ≠ dotdot)
    {dentry : Dentry}
    (object : s.objectNamed path.dentry name = some dentry)
    (sound : s.seen env path.dentry = s.objectInode path.dentry) :
    s.glance env path name next =
        some (.ok (s.entered path.mnt dentry)) ↔
      (∀ found, s.dLookup path.dentry name = some found →
        s.inode found ≠ none) ∧
      (s.dLookup path.dentry name = none →
        env.room (.child path.dentry name 0) = true ∧
          (env.scratch (.child path.dentry name 0)).room = true) ∧
      s.newestOn dentry = s.lookupMnt dentry := by
  rw [glance, if_neg notDot, if_neg notUp]
  cases cached : s.dLookup path.dentry name with
  | some found =>
      rw [peek_of_dLookup cached]
      obtain ⟨-, foundName, copy, rfl, -⟩ := wf.child _ _ (dLookup_mem cached)
      obtain rfl : foundName = name := dLookup_dName cached
      simp only [Option.some.injEq, Except.ok.injEq, forall_eq',
        reduceCtorEq, false_implies, true_and]
      by_cases isObject : s.inode (.child path.dentry foundName copy) ≠ none
      · rw [objectNamed_of_dLookup cached isObject] at object
        cases object
        rw [followMount_eq_entered_iff]
        simp [isObject]
      · simp only [isObject, false_and, iff_false]
        rcases objectNamed_cases object with
          ⟨member, isName, hasInode⟩ | ⟨-, -, dir, volume, inode, -, isDisk, -⟩
        · obtain ⟨-, otherName, other, rfl, -⟩ := wf.child _ _ member
          obtain rfl : otherName = foundName := isName
          rw [followMount_eq_entered_iff]
          rintro ⟨rfl, -⟩
          exact isObject hasInode
        · exact absurd (wf.onDisk _ _ (dLookup_mem cached) ⟨volume, isDisk⟩)
            isObject
  | none =>
      simp only [reduceCtorEq, false_implies, implies_true, true_and,
        forall_const]
      rcases objectNamed_cases object with
        ⟨member, isName, -⟩ | ⟨rfl, -, dir, volume, inode, isDir, isDisk,
          isHeld, -⟩
      · have differs := List.find?_eq_none.mp cached _ member
        simp [isName] at differs
      · rw [← sound] at isDir
        rw [← peek_held_iff cached isDir isDisk isHeld]
        cases isPeek : s.peek env path.dentry name with
        | none => simp
        | some outcome =>
            cases outcome with
            | error ret => simp
            | ok found =>
                obtain ⟨-, rfl, -⟩ := peek_room cached isPeek
                simp only [Option.some.injEq, Except.ok.injEq, true_and]
                rw [followMount_eq_entered_iff]
                simp

/-- The code and the reference resolver see the same inode, here and above. -/
def Sound (env : Env) (s : State) : Dentry → Prop
  | .root _ => True
  | .child parent name copy =>
      s.seen env (.child parent name copy) =
          s.objectInode (.child parent name copy) ∧
        Sound env s parent

theorem Sound.seen_eq {dentry : Dentry} (sound : s.Sound env dentry) :
    s.seen env dentry = s.objectInode dentry := by
  cases dentry with
  | root mnt => rfl
  | child parent name copy => exact sound.1

theorem Sound.dParent {dentry : Dentry} (sound : s.Sound env dentry) :
    s.Sound env dentry.dParent := by
  cases dentry with
  | root mnt => trivial
  | child parent name copy => exact sound.2

theorem sound_of_here (wf : s.WellFormed) {dentry : Dentry}
    (here : s.Here dentry) : s.Sound env dentry := by
  induction dentry with
  | root mnt => trivial
  | child parent name copy induction =>
      refine ⟨?_, induction (wf.here_dParent here)⟩
      rw [seen_of_here here, objectInode]
      exact (if_pos here).symm

/-- A place the reference resolver may stand at. -/
def Tracked (env : Env) (s : State) (path : Path) : Prop :=
  s.Sound env path.dentry ∧ path.mnt < s.mounts.length

theorem Valid.tracked (wf : s.WellFormed) (env : Env) {path : Path}
    (valid : s.Valid path) : s.Tracked env path := by
  refine ⟨sound_of_here wf valid.1, ?_⟩
  rw [← valid.2]
  exact wf.dSb_lt valid.1

theorem Tracked.parentOf (wf : s.WellFormed) {path : Path}
    (tracked : s.Tracked env path) : s.Tracked env (s.parentOf path) := by
  induction h : path.mnt using Nat.strongRecOn generalizing path with
  | _ mnt induction =>
      subst h
      cases isRoot : s.isMountRoot path with
      | false =>
          rw [parentOf_of_not_isMountRoot isRoot]
          exact ⟨tracked.1.dParent, tracked.2⟩
      | true =>
          obtain ⟨atRoot, point, followed, below⟩ :=
            followUp_of_isMountRoot wf isRoot
          rw [parentOf_of_followUp wf atRoot followed]
          have valid := (wf.mounted _ _ followed).2
          exact induction _ below (valid.tracked wf env) rfl

theorem newestOn_lt {dentry : Dentry} {mnt : Nat}
    (newest : s.newestOn dentry = some mnt) : mnt < s.mounts.length := by
  have member := List.mem_of_find?_eq_some newest
  simpa using member

theorem Tracked.entered {path : Path} (tracked : s.Tracked env path)
    {dentry : Dentry} (sound : s.Sound env dentry) :
    s.Tracked env (s.entered path.mnt dentry) := by
  unfold State.entered
  cases newest : s.newestOn dentry with
  | none => exact ⟨sound, tracked.2⟩
  | some mnt => exact ⟨trivial, newestOn_lt newest⟩

theorem Tracked.sound_object (wf : s.WellFormed) {path : Path}
    (tracked : s.Tracked env path) {name : Name} {dentry : Dentry}
    (object : s.objectNamed path.dentry name = some dentry)
    (room : s.dLookup path.dentry name = none →
      env.room (.child path.dentry name 0) = true ∧
        (env.scratch (.child path.dentry name 0)).room = true)
    (cached : ∀ found, s.dLookup path.dentry name = some found →
      s.inode found ≠ none) : s.Sound env dentry := by
  rcases objectNamed_cases object with
    ⟨member, -, -⟩ | ⟨rfl, notMem, dir, volume, inode, isDir, isDisk,
      isHeld, isInode⟩
  · exact sound_of_here wf (wf.here_of_mem member)
  · cases found : s.dLookup path.dentry name with
    | some other =>
        rw [objectNamed_of_dLookup found (cached _ found)] at object
        cases object
        exact absurd (dLookup_mem found) notMem
    | none =>
        refine ⟨?_, tracked.1⟩
        rw [isInode]
        rw [← tracked.1.seen_eq] at isDir
        have answer := held_spec isHeld (room found).2
        apply seen_of_missing found isDir
        rw [iLookup_disk isDisk, answer]
        rfl

theorem resolveStep_cases {path later : Path} {name : Name}
    (step : s.resolveStep path name = some later) :
    (∃ inode, s.objectInode path.dentry = some inode ∧
      inode.isDir = true) ∧
    ((name = dot ∧ later = path) ∨
      (name = dotdot ∧ later = s.parentOf path) ∨
      (name ≠ dot ∧ name ≠ dotdot ∧
        ∃ dentry, s.objectNamed path.dentry name = some dentry ∧
          later = s.entered path.mnt dentry)) := by
  unfold resolveStep at step
  split at step
  · cases step
  · rename_i inode isInode
    split at step
    · rename_i isDir
      refine ⟨⟨inode, isInode, isDir⟩, ?_⟩
      split at step
      · rename_i isDot
        cases step
        exact .inl ⟨isDot, rfl⟩
      · rename_i notDot
        split at step
        · rename_i isUp
          cases step
          exact .inr (.inl ⟨isUp, rfl⟩)
        · rename_i notUp
          obtain ⟨dentry, object, rfl⟩ := Option.map_eq_some_iff.mp step
          exact .inr (.inr ⟨notDot, notUp, dentry, object, rfl⟩)
    · cases step

/-- What one component needs, exactly. -/
theorem glance_iff (wf : s.WellFormed) {path later : Path} {name : Name}
    (next : Option Path) (tracked : s.Tracked env path)
    (step : s.resolveStep path name = some later) :
    s.glance env path name next = some (.ok later) ↔
      s.StepMeets env next path name := by
  obtain ⟨-, ⟨rfl, rfl⟩ | ⟨rfl, rfl⟩ | ⟨notDot, notUp, dentry, object, rfl⟩⟩ :=
    resolveStep_cases step
  · have notUp : dot ≠ dotdot := by decide
    constructor
    · intro _
      exact ⟨fun isUp => absurd isUp notUp, fun not => absurd rfl not,
        fun not => absurd rfl not, fun not => absurd rfl not⟩
    · intro _
      rw [glance, if_pos rfl]
  · rw [glance_dotdot_iff wf]
    constructor
    · intro right
      exact ⟨fun _ => right, fun _ not => absurd rfl not,
        fun _ not => absurd rfl not, fun _ not => absurd rfl not⟩
    · intro meets
      exact meets.up rfl
  · rw [glance_name_iff wf next notDot notUp object tracked.1.seen_eq]
    constructor
    · rintro ⟨cached, room, single⟩
      refine ⟨fun isUp => absurd isUp notUp, fun _ _ => cached,
        fun _ _ => room, ?_⟩
      intro _ _ other isOther
      rw [object] at isOther
      cases isOther
      exact single
    · intro meets
      exact ⟨meets.cached notDot notUp, meets.room notDot notUp,
        meets.single notDot notUp dentry object⟩

theorem Tracked.step (wf : s.WellFormed) {path later : Path} {name : Name}
    {next : Option Path} (tracked : s.Tracked env path)
    (step : s.resolveStep path name = some later)
    (meets : s.StepMeets env next path name) : s.Tracked env later := by
  obtain ⟨-, ⟨-, rfl⟩ | ⟨-, rfl⟩ | ⟨notDot, notUp, dentry, object, rfl⟩⟩ :=
    resolveStep_cases step
  · exact tracked
  · exact tracked.parentOf wf
  · apply tracked.entered
    exact tracked.sound_object wf object (meets.room notDot notUp)
      (meets.cached notDot notUp)

/-- The walk takes a component in a directory of the reference resolver. -/
theorem trace_cons {path later : Path} {name : Name}
    (next : Option Path) (tracked : s.Tracked env path)
    (step : s.resolveStep path name = some later) (names : List Name) :
    s.trace env path next (name :: names) =
      match s.glance env path name next with
      | none => none
      | some (.error ret) => some (.error ret)
      | some (.ok next) => s.trace env next (some next) names := by
  obtain ⟨⟨inode, isInode, isDir⟩, -⟩ := resolveStep_cases step
  rw [trace, tracked.1.seen_eq, isInode]
  exact if_pos isDir

/-- After each of the components the walk stands where the reference resolver
does, exactly if all of them meet the condition. -/
theorem trace_iff (wf : s.WellFormed) {path target : Path}
    (next : Option Path) (tracked : s.Tracked env path) (names : List Name)
    (resolved : s.resolve path names = some target) :
    (∀ part, part <+: names → ∀ place, s.resolve path part = some place →
        s.trace env path next part = some (.ok place)) ↔
      s.Meets env next path names := by
  induction names generalizing path next with
  | nil =>
      constructor
      · intro _
        trivial
      · intro _ part isPart place isPlace
        rw [List.prefix_nil.mp isPart] at isPlace ⊢
        cases isPlace
        rfl
  | cons name names induction =>
      obtain ⟨later, step, rest⟩ := Option.bind_eq_some_iff.mp resolved
      have stepIff := glance_iff wf next tracked step
      constructor
      · intro right
        have first := right [name] (by simp) later (by simp [resolve, step])
        have isGlance : s.glance env path name next = some (.ok later) := by
          rw [trace_cons next tracked step] at first
          split at first
          · cases first
          · cases first
          · rename_i other isOther
            cases first
            exact isOther
        have meets := stepIff.mp isGlance
        refine ⟨meets, ?_⟩
        intro other isOther
        rw [step] at isOther
        cases isOther
        apply (induction (some later) (tracked.step wf step meets) rest).mp
        intro part isPart place isPlace
        have whole := right (name :: part)
          (List.cons_prefix_cons.mpr ⟨rfl, isPart⟩) place
          (by simp [resolve, step, isPlace])
        rw [trace_cons next tracked step, isGlance] at whole
        exact whole
      · rintro ⟨meets, restMeets⟩ part isPart place isPlace
        cases part with
        | nil =>
            cases isPlace
            rfl
        | cons head part =>
            obtain ⟨rfl, isRest⟩ := List.cons_prefix_cons.mp isPart
            rw [trace_cons next tracked step, stepIff.mpr meets]
            rw [resolve, step] at isPlace
            exact (induction (some later) (tracked.step wf step meets)
              rest).mpr (restMeets later step) part isRest place isPlace

end Resolve

/-- `path_walk` returns where the reference resolver leads if every component
meets the condition.  Only then does it stand there after each of them. -/
theorem pathWalk_resolves_iff (env : Env) (s : State) (wf : s.WellFormed)
    (path : List UInt8) (target : Path)
    (resolved : s.resolve (s.start path) (units path) = some target) :
    (s.Meets env none (s.start path) (units path) →
      (s.pathWalk env path).map Prod.snd = some (.ok target)) ∧
    ((∀ part, part <+: units path →
        ∀ place, s.resolve (s.start path) part = some place →
          (s.walk env (s.start path) none part).map Prod.snd =
            some (.ok place)) ↔
      s.Meets env none (s.start path) (units path)) := by
  have valid := wf.valid_start path
  have exact := trace_iff wf none (valid.tracked wf env) (units path) resolved
  have follows (part : List Name) :
      (s.walk env (s.start path) none part).map Prod.snd =
        s.trace env (s.start path) none part :=
    (walk_follows (Grown.refl env s) wf valid none part).1
  constructor
  · intro meets
    rw [pathWalk, follows]
    exact exact.mpr meets _ (List.prefix_refl _) target resolved
  · simp only [follows]
    exact exact

theorem treeWithA_meets :
    treeWithA.Meets (roomy none) none ⟨0, .root 0⟩ [[97]] := by
  refine ⟨⟨?_, ?_, ?_, ?_⟩, fun _ _ => trivial⟩
  · intro isUp
    cases isUp
  · intro _ _ dentry found
    cases found
    exact Option.some_ne_none _
  · intro _ _ missing
    cases missing
  · intro _ _ dentry object
    cases object
    rfl

theorem pathWalk_resolves_iff_a :
    (treeWithA.pathWalk (roomy none) [47, 97]).map Prod.snd =
      some (.ok ⟨0, .child (.root 0) [97] 0⟩) :=
  (pathWalk_resolves_iff (roomy none) treeWithA treeWithA_reachable.wellFormed
    [47, 97]
    ⟨0, .child (.root 0) [97] 0⟩ rfl).1 treeWithA_meets

/-- The first component is `..`, at the root, and what `next` happens to hold
is the root of the file system mounted on `/a`, from a walk before: the walk
follows the null pointer of the root. -/
theorem pathWalk_not_resolves_dotdot :
    ¬∀ (env : Env) (s : State), s.WellFormed → ∀ (path : List UInt8) target,
      s.resolve (s.start path) (units path) = some target →
        (s.pathWalk env path).map Prod.snd = some (.ok target) := by
  intro always
  have mounted : treeMountedA.leaves (roomy none) (some ⟨1, .root 1⟩) =
      some true := rfl
  have wrong := always
    (roomy (treeMountedA.leaves (roomy none) (some ⟨1, .root 1⟩))) treeMountedA
    treeMountedA_reachable.wellFormed dotdot ⟨0, .root 0⟩ rfl
  rw [mounted] at wrong
  cases wrong

end Witos.Vfs.State
