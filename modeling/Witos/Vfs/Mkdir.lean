import Witos.Vfs.Runs

/-!
# Making directories

`sys_mkdir` takes what follows the leading slashes as one name in the working
directory, and does not look for it before.
-/

namespace Witos.Vfs.State

/-- The path leads to an object. -/
def Exists (s : State) (path : List UInt8) : Prop :=
  ∃ env walked nd, s.pathWalk env path = some (walked, .ok nd) ∧
    walked.inode nd.dentry ≠ none

/-- No two dentries of a directory have the same name. -/
def Distinct (s : State) : Prop :=
  ∀ parent, ((s.subdirs parent).map Dentry.dName).Nodup

/-- The directory `sys_mkdir` makes. -/
def newDirectory (s : State) (path : List UInt8) : Path :=
  ⟨s.pwd.mnt, s.newDentry s.pwd.dentry (mkdirName path)⟩

/-- If `sys_mkdir` returns 0, the path did not exist and leads to the new
directory now, and names stay distinct; if it fails, nothing changes. -/
structure MakesRight (s : State) (path : List UInt8) : Prop where
  made : ∀ env final, s.sysMkdir env path = some (final, 0) →
    ¬s.Exists path ∧
    (∀ other, (final.pathWalk other path).map Prod.snd =
      some (.ok (s.newDirectory path))) ∧
    (s.Distinct → final.Distinct)
  failed : ∀ env final ret, s.sysMkdir env path = some (final, ret) →
    ret ≠ 0 → final = s

/-- What follows the leading slashes is a name that is not there yet, and a
path from the root is taken in the root. -/
structure MakesName (s : State) (path : List UInt8) : Prop where
  isUnit : IsUnit (mkdirName path)
  notDot : mkdirName path ≠ dot
  notUp : mkdirName path ≠ dotdot
  missing : s.dLookup s.pwd.dentry (mkdirName path) = none
  fromRoot : path.head? = some slash → s.pwd = s.root

/-- The working directory is one in memory, where directories can be made. -/
def CanMake (s : State) : Prop :=
  s.fs s.pwd.dentry = some .ramfs ∧ s.IsDirectory s.pwd.dentry

section Make

variable {s : State} {env : Env} {path : List UInt8}

theorem units_mkdirName (path : List UInt8) :
    units path = units (mkdirName path) := by
  induction path with
  | nil => rfl
  | cons char path induction =>
      by_cases isSlash : char = slash
      · have dropped : mkdirName (char :: path) = mkdirName path := by
          simp [mkdirName, isSlash]
        rw [dropped, ← induction, units, unitsFrom, if_pos isSlash,
          if_pos rfl]
        rfl
      · simp [mkdirName, isSlash]

theorem units_of_isUnit (isUnit : IsUnit (mkdirName path)) :
    units path = [mkdirName path] := by
  rw [units_mkdirName, units]
  have whole := unitsFrom_append isUnit.2 [] []
  rw [List.append_nil, List.nil_append] at whole
  rw [whole, unitsFrom, if_neg isUnit.1]

theorem lookupMnt_newDentry (wf : s.WellFormed) (parent : Dentry)
    (name : Name) : s.lookupMnt (s.newDentry parent name) = none := by
  cases found : s.lookupMnt (s.newDentry parent name) with
  | none => rfl
  | some mnt =>
      have followed := followUp_entered wf found
      have here := (wf.mounted _ _ followed).2.1
      exact absurd here wf.newDentry_notMem

theorem start_eq_pwd (fromRoot : path.head? = some slash → s.pwd = s.root) :
    s.start path = s.pwd := by
  unfold start
  split
  · rename_i isAbsolute
    exact (fromRoot isAbsolute).symm
  · rfl

theorem notExists (wf : s.WellFormed) (canMake : s.CanMake)
    (makes : s.MakesName path) : ¬s.Exists path := by
  rintro ⟨env, walked, nd, walk, isObject⟩
  apply isObject
  obtain ⟨isRam, dir, isInode, isDir⟩ := canMake
  obtain ⟨same, kept⟩ := pathWalk_follows wf env path
  obtain ⟨grown, -, valid⟩ := kept _ _ walk
  rw [grown.inode _ (valid nd rfl).1]
  have seenPwd : s.seen env s.pwd.dentry = some dir := by
    rw [seen_of_here wf.pwd.1, isInode]
  have answer : s.iLookup env dir
      (.child s.pwd.dentry (mkdirName path) 0) = some (.ok none) := by
    have childRam : s.fs (.child s.pwd.dentry (mkdirName path) 0) =
        some .ramfs := isRam
    rw [iLookup, childRam]
  have noMount := lookupMnt_newDentry wf s.pwd.dentry (mkdirName path)
  rw [newDentry_of_dLookup makes.missing] at noMount
  have leads : s.pathTrace env path = some (.ok nd) := by
    rw [← same, walk]
    rfl
  rw [pathTrace, start_eq_pwd makes.fromRoot, units_of_isUnit makes.isUnit,
    trace, seenPwd, glance, if_neg makes.notDot, if_neg makes.notUp,
    peek, makes.missing] at leads
  cases room : env.room (.child s.pwd.dentry (mkdirName path) 0) with
  | false => simp [isDir, room] at leads
  | true =>
      simp only [isDir, if_true, room, seenPwd, answer, Option.map_some,
        Except.map, followMount, noMount, trace, Option.some.injEq,
        Except.ok.injEq] at leads
      rw [← leads]
      exact seen_of_missing makes.missing seenPwd answer

theorem pathWalk_created (wf : s.WellFormed) {dir : Inode}
    (isDir : dir.isDir = true) (makes : s.MakesName path) (other : Env) :
    ((s.created dir (mkdirName path)).pathWalk other path).map Prod.snd =
      some (.ok (s.newDirectory path)) := by
  have finalWf := wf.created dir (mkdirName path)
  have isStart : (s.created dir (mkdirName path)).start path = s.pwd :=
    start_eq_pwd makes.fromRoot
  have found : (s.created dir (mkdirName path)).dLookup s.pwd.dentry
      (mkdirName path) = some (s.newDentry s.pwd.dentry (mkdirName path)) := by
    rw [dLookup_created wf, makes.missing, Option.none_or, if_pos ⟨rfl, rfl⟩]
  have noMount : (s.created dir (mkdirName path)).lookupMnt
      (s.newDentry s.pwd.dentry (mkdirName path)) = none :=
    lookupMnt_newDentry wf s.pwd.dentry (mkdirName path)
  have traced : (s.created dir (mkdirName path)).cachedTrace s.pwd
      [mkdirName path] = some (s.newDirectory path) := by
    rw [cachedTrace, inode_created wf, if_pos rfl]
    simp only [isDir, if_true, cachedStep, if_neg makes.notDot,
      if_neg makes.notUp, found, Option.map_some, Option.bind_some,
      followMount, noMount, cachedTrace, newDirectory]
  have set : [mkdirName path].head? = some dotdot → none = some s.pwd := by
    intro isUp
    exact absurd (Option.some.inj isUp) makes.notUp
  rw [(pathWalk_follows finalWf other path).1, pathTrace, isStart,
    units_of_isUnit makes.isUnit]
  exact (trace_of_cachedTrace finalWf other finalWf.pwd set traced).1

theorem Distinct.created (distinct : s.Distinct) (wf : s.WellFormed)
    (dir : Inode) {unit : Name}
    (missing : s.dLookup s.pwd.dentry unit = none) :
    (s.created dir unit).Distinct := by
  intro parent
  change (((s.dAlloc s.pwd.dentry unit).subdirs parent).map
    Dentry.dName).Nodup
  rw [subdirs_dAlloc wf]
  split
  · rw [List.map_append, List.map_singleton, List.nodup_append]
    refine ⟨distinct s.pwd.dentry, List.pairwise_singleton _ _, ?_⟩
    intro name member other isOther same
    obtain ⟨dentry, inside, isName⟩ := List.mem_map.mp member
    have differs := List.find?_eq_none.mp missing dentry inside
    rw [List.mem_singleton.mp isOther] at same
    have isUnit : dentry.dName = unit := isName.trans same
    simp [isUnit] at differs
  · exact distinct parent

/-- The dentry is `top` or below it. -/
def Under (top : Dentry) : Dentry → Prop
  | .root mnt => .root mnt = top
  | .child parent name copy =>
      .child parent name copy = top ∨ Under top parent

theorem under_of_dParent {top dentry : Dentry}
    (under : Under top dentry.dParent) : Under top dentry := by
  cases dentry with
  | root mnt => exact under
  | child parent name copy => exact .inr under

theorem not_under_of_here (wf : s.WellFormed) {top dentry : Dentry}
    (absent : ¬s.Here top) (here : s.Here dentry) : ¬Under top dentry := by
  induction dentry with
  | root mnt =>
      rintro rfl
      exact absent here
  | child parent name copy induction =>
      rintro (rfl | under)
      · exact absent here
      · exact induction (wf.here_dParent here) under

/-- Without a step by its name, a walk does not get to a child that is not on
the way to a mount. -/
theorem glance_not_under (wf : s.WellFormed) {parent : Dentry} {name : Name}
    {copy : Nat}
    (outside : ∀ nd point, s.followUp nd = some point →
      ¬Under (.child parent name copy) point.dentry)
    {nd place : Path} {unit : Name} {next : Option Path}
    (other : unit ≠ dot → unit ≠ dotdot → unit ≠ name)
    (start : ¬Under (.child parent name copy) nd.dentry)
    (step : s.glance env nd unit next = some (.ok place)) :
    ¬Under (.child parent name copy) place.dentry := by
  rcases glance_cases step with
    ⟨-, rfl⟩ | ⟨-, -, rfl⟩ | ⟨-, -, point, followed, rfl⟩ |
      ⟨notDot, notUp, dentry, isPeek, rfl⟩
  · exact start
  · exact fun under => start (under_of_dParent under)
  · exact fun under => outside _ _ followed (under_of_dParent under)
  · obtain ⟨number, rfl⟩ := peek_child wf isPeek
    unfold followMount
    split
    · exact nofun
    · rintro (same | under)
      · exact other notDot notUp (Dentry.child.inj same).2.1
      · exact start under

theorem trace_not_under (wf : s.WellFormed) {parent : Dentry} {name : Name}
    {copy : Nat}
    (outside : ∀ nd point, s.followUp nd = some point →
      ¬Under (.child parent name copy) point.dentry)
    {nd place : Path} {units : List Name} {next : Option Path}
    (other : ∀ unit ∈ units, unit ≠ dot → unit ≠ dotdot → unit ≠ name)
    (start : ¬Under (.child parent name copy) nd.dentry)
    (traced : s.trace env nd next units = some (.ok place)) :
    ¬Under (.child parent name copy) place.dentry := by
  induction units generalizing nd next with
  | nil =>
      cases traced
      exact start
  | cons unit units induction =>
      obtain ⟨-, first, -, -, step, rest⟩ := trace_cons_ok traced
      have firstOut := glance_not_under wf outside
        (other unit List.mem_cons_self) start step
      exact induction (fun unit member =>
        other unit (List.mem_cons_of_mem _ member)) firstOut rest

/-- If the path leads to the new directory, its name is a unit of the path. -/
theorem name_of_reached (wf : s.WellFormed) {dir : Inode}
    (reached : (s.created dir (mkdirName path)).pathTrace env path =
      some (.ok (s.newDirectory path))) :
    IsUnit (mkdirName path) ∧ mkdirName path ≠ dot ∧
      mkdirName path ≠ dotdot := by
  have finalWf := wf.created dir (mkdirName path)
  have outside : ∀ nd point,
      (s.created dir (mkdirName path)).followUp nd = some point →
        ¬Under (s.newDentry s.pwd.dentry (mkdirName path)) point.dentry := by
    intro nd point followed
    exact not_under_of_here wf wf.newDentry_notMem
      (wf.mounted _ _ followed).2.1
  have absent : ¬s.Here (s.newDentry s.pwd.dentry (mkdirName path)) :=
    wf.newDentry_notMem
  have startOut := not_under_of_here wf absent (wf.valid_start path).1
  by_contra notName
  have other : ∀ unit ∈ units path, unit ≠ dot → unit ≠ dotdot →
      unit ≠ mkdirName path := by
    rintro unit member notDot notUp rfl
    exact notName ⟨isUnit_of_mem List.not_mem_nil member, notDot, notUp⟩
  exact trace_not_under finalWf outside other startOut reached (.inl rfl)

theorem makesName_of_reached (wf : s.WellFormed) {dir : Inode}
    (reached : (s.created dir (mkdirName path)).pathTrace env path =
      some (.ok (s.newDirectory path))) : s.MakesName path := by
  obtain ⟨isUnit, notDot, notUp⟩ := name_of_reached wf reached
  have finalWf := wf.created dir (mkdirName path)
  have isStart : (s.created dir (mkdirName path)).start path =
      s.start path := rfl
  rw [pathTrace, units_of_isUnit isUnit, isStart] at reached
  obtain ⟨-, place, -, -, isGlance, same⟩ := trace_cons_ok reached
  cases same
  obtain ⟨dentry, isPeek, isPlace⟩ := glance_name notDot notUp isGlance
  obtain ⟨copy, rfl⟩ := peek_child finalWf isPeek
  have isNew : Dentry.child (s.start path).dentry (mkdirName path)
      copy = s.newDentry s.pwd.dentry (mkdirName path) := by
    unfold followMount at isPlace
    split at isPlace
    · cases isPlace
    · exact (congrArg Path.dentry isPlace).symm
  have inPwd : (s.start path).dentry = s.pwd.dentry :=
    (Dentry.child.inj isNew).1
  refine ⟨isUnit, notDot, notUp, ?_, ?_⟩
  · rw [isNew, inPwd] at isPeek
    cases old : s.dLookup s.pwd.dentry (mkdirName path) with
    | none => rfl
    | some found =>
        have stays : (s.created dir (mkdirName path)).dLookup
            s.pwd.dentry (mkdirName path) = some found := by
          rw [dLookup_created wf, old, Option.some_or]
        rw [peek_of_dLookup stays] at isPeek
        cases isPeek
        exact absurd (dLookup_mem old) wf.newDentry_notMem
  · intro isAbsolute
    rw [start, if_pos isAbsolute] at inPwd
    have sameMnt : s.pwd.mnt = s.root.mnt := by
      rw [← wf.pwd.2, ← inPwd, wf.root]
      rfl
    calc s.pwd = ⟨s.pwd.mnt, s.pwd.dentry⟩ := rfl
      _ = ⟨s.root.mnt, s.root.dentry⟩ := by rw [sameMnt, inPwd]
      _ = s.root := rfl

theorem sysMkdir_roomy {dir : Inode}
    (isRam : s.fs s.pwd.dentry = some .ramfs)
    (isInode : s.inode s.pwd.dentry = some dir) (isDir : dir.isDir = true) :
    s.sysMkdir (roomy none) path =
      some (s.created dir (mkdirName path), 0) := by
  have newRam : (s.dAlloc s.pwd.dentry (mkdirName path)).fs
      (s.newDentry s.pwd.dentry (mkdirName path)) = some .ramfs := isRam
  have room (dentry : Dentry) : (roomy none).room dentry = true := rfl
  have inodeRoom (dentry : Dentry) :
      ((roomy none).scratch dentry).room = true := rfl
  rw [sysMkdir, if_pos (room _), isInode]
  simp only
  rw [vfsMkdir, newRam]
  simp only
  rw [if_pos isDir, if_pos (inodeRoom _)]
  rfl

end Make

/-- In every state that calls lead to, `sys_mkdir` does what it should for
exactly those paths that are new names in the working directory. -/
theorem sysMkdir_right_iff (s : State) (reachable : Reachable s)
    (path : List UInt8) :
    s.MakesRight path ↔ (s.CanMake → s.MakesName path) := by
  have wf := reachable.wellFormed
  constructor
  · rintro right ⟨isRam, dir, isInode, isDir⟩
    have reached := (right.made (roomy none) _
      (sysMkdir_roomy isRam isInode isDir)).2.1 (roomy none)
    have finalWf := wf.created dir (mkdirName path)
    rw [(pathWalk_follows finalWf (roomy none) path).1] at reached
    exact makesName_of_reached wf reached
  · intro makes
    constructor
    · intro env final returned
      rcases sysMkdir_cases wf returned with
        ⟨negative, -⟩ | ⟨-, isRam, dir, isInode, isDir, rfl⟩
      · exact absurd negative (by decide)
      · have canMake : s.CanMake := ⟨isRam, dir, isInode, isDir⟩
        have isName := makes canMake
        refine ⟨notExists wf canMake isName, ?_, ?_⟩
        · exact pathWalk_created wf isDir isName
        · exact fun distinct => distinct.created wf dir isName.missing
    · intro env final ret returned isError
      rcases sysMkdir_cases wf returned with ⟨-, same⟩ | ⟨isZero, -⟩
      · exact same
      · exact absurd isZero isError

theorem sysMkdir_right_iff_a : (mountRoot .ramfs).MakesRight [97] := by
  refine (sysMkdir_right_iff (mountRoot .ramfs) (.start .ramfs) [97]).mpr
    (fun _ => ⟨?_, by decide, by decide, rfl, by decide⟩)
  exact ⟨by decide, by decide⟩

/-- The directory `a` is there, and is made a second time. -/
theorem sysMkdir_not_right_again :
    ¬∀ (s : State), Reachable s → ∀ path, s.MakesRight path := by
  intro always
  have right := always treeWithA treeWithA_reachable [97]
  apply (right.made (roomy none) (treeWithA.created ⟨1, 1, true⟩ [97])
    rfl).1
  exact ⟨roomy none, treeWithA, ⟨0, .child (.root 0) [97] 0⟩, rfl,
    Option.some_ne_none _⟩

end Witos.Vfs.State
