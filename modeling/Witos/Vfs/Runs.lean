import Witos.Vfs.Walk

/-!
# Runs of calls

What each call does to the tree, and the trees that calls can lead to.
-/

namespace Witos.Vfs.State

variable {env : Env} {s : State}

/-- The tree with a new directory in the working directory, whose inode is
`dir`. -/
def created (s : State) (dir : Inode) (unit : Name) : State :=
  { (s.adopt s.pwd.dentry unit (some ⟨s.inodeCount, 0, true⟩)).setInode
      s.pwd.dentry (some { dir with iSize := dir.iSize + 1 }) with
    inodeCount := s.inodeCount + 1 }

theorem dLookup_created (wf : s.WellFormed) (dir : Inode) (unit : Name)
    (parent : Dentry) (name : Name) :
    (s.created dir unit).dLookup parent name =
      (s.dLookup parent name).or
        (if parent = s.pwd.dentry ∧ name = unit then
          some (s.newDentry s.pwd.dentry unit) else none) := by
  change (s.adopt s.pwd.dentry unit
    (some ⟨s.inodeCount, 0, true⟩)).dLookup parent name = _
  exact dLookup_adopt wf parent name

theorem inode_created (wf : s.WellFormed) (dir : Inode) (unit : Name)
    (dentry : Dentry) :
    (s.created dir unit).inode dentry =
      if dentry = s.pwd.dentry then some { dir with iSize := dir.iSize + 1 }
      else if dentry = s.newDentry s.pwd.dentry unit then
        some ⟨s.inodeCount, 0, true⟩
      else s.inode dentry := by
  change Function.update
    (s.adopt s.pwd.dentry unit (some ⟨s.inodeCount, 0, true⟩)).inode _ _ _ = _
  rw [Function.update_apply, inode_adopt wf]

theorem vfsMkdir_cases (env : Env) (s : State) (dir : Inode)
    (dentry : Dentry) :
    (∃ ret < 0, s.vfsMkdir env dir dentry = (s, ret)) ∨
      s.fs dentry = some .ramfs ∧ dir.isDir = true ∧
        s.vfsMkdir env dir dentry =
          ({ (s.setInode dentry (some ⟨s.inodeCount, 0, true⟩)).setInode
                dentry.dParent (some { dir with iSize := dir.iSize + 1 }) with
              inodeCount := s.inodeCount + 1 }, 0) := by
  unfold vfsMkdir
  split
  · rename_i isRam
    split
    · rename_i isDir
      split
      · exact .inr ⟨isRam, isDir, rfl⟩
      · exact .inl ⟨-enomem, by decide, rfl⟩
    · exact .inl ⟨-enotsupp, by decide, rfl⟩
  · exact .inl ⟨-enotsupp, by decide, rfl⟩

/-- A call of `sys_mkdir` that returns: it failed and nothing changed, or it
made a directory. -/
theorem sysMkdir_cases (wf : s.WellFormed) {path : List UInt8}
    {final : State} {ret : Int}
    (returned : s.sysMkdir env path = some (final, ret)) :
    (ret < 0 ∧ final = s) ∨
      ret = 0 ∧ s.fs s.pwd.dentry = some .ramfs ∧
        ∃ dir, s.inode s.pwd.dentry = some dir ∧ dir.isDir = true ∧
          final = s.created dir (mkdirName path) := by
  unfold sysMkdir at returned
  simp only at returned
  split at returned
  · cases isInode : s.inode s.pwd.dentry with
    | none => simp [isInode] at returned
    | some dir =>
        simp only [isInode] at returned
        rcases vfsMkdir_cases env (s.dAlloc s.pwd.dentry (mkdirName path)) dir
          (s.newDentry s.pwd.dentry (mkdirName path)) with
          ⟨error, negative, outcome⟩ | ⟨isRam, isDir, outcome⟩
        · rw [outcome] at returned
          simp only [negative, if_true, dAlloc_dput wf] at returned
          cases returned
          exact .inl ⟨negative, rfl⟩
        · rw [outcome] at returned
          simp only [Int.lt_irrefl, if_false] at returned
          cases returned
          exact .inr ⟨rfl, isRam, dir, rfl, isDir, rfl⟩
  · cases returned

theorem WellFormed.setInode (wf : s.WellFormed) {dentry : Dentry}
    (here : s.Here dentry) (inode : Inode) (count : Nat) :
    WellFormed { s.setInode dentry (some inode) with
      inodeCount := count } where
  child := wf.child
  absent := by
    intro other notHere
    have old := wf.absent other notHere
    refine ⟨?_, old.2⟩
    have differs : other ≠ dentry := by
      rintro rfl
      exact notHere here
    rw [← old.1]
    exact Function.update_of_ne differs _ _
  onDisk := by
    intro parent other member isDisk
    by_cases same : other = dentry
    · rw [same]
      simp [State.setInode]
    · change Function.update s.inode dentry _ other ≠ none
      rw [Function.update_of_ne same]
      exact wf.onDisk parent other member isDisk
  first := wf.first
  mounted := wf.mounted
  root := wf.root
  pwd := wf.pwd

theorem WellFormed.created (wf : s.WellFormed) (dir : Inode) (unit : Name) :
    (s.created dir unit).WellFormed := by
  have adopted : (s.adopt s.pwd.dentry unit
      (some ⟨s.inodeCount, 0, true⟩)).WellFormed := by
    apply wf.adopt wf.pwd.1
    intro _
    exact Option.some_ne_none _
  apply adopted.setInode
  exact (here_adopt wf).mpr (.inl wf.pwd.1)

theorem sysMkdir_wellFormed (wf : s.WellFormed) {path : List UInt8}
    {final : State} {ret : Int}
    (returned : s.sysMkdir env path = some (final, ret)) :
    final.WellFormed := by
  rcases sysMkdir_cases wf returned with
    ⟨-, rfl⟩ | ⟨-, -, dir, -, -, rfl⟩
  · exact wf
  · exact wf.created dir (mkdirName path)

/-- A call of `sys_chdir` that returns. -/
theorem sysChdir_cases (wf : s.WellFormed) {path : List UInt8}
    {final : State} {ret : Int}
    (returned : s.sysChdir env path = some (final, ret)) :
    (ret < 0 ∧ s.pathWalk env path = some (final, .error ret)) ∨
      ret = 0 ∧ ∃ walked nd, s.pathWalk env path = some (walked, .ok nd) ∧
        final = { walked with pwd := nd } := by
  unfold sysChdir at returned
  split at returned
  · cases returned
  · rename_i walk
    cases returned
    exact .inl ⟨pathWalk_error wf walk, walk⟩
  · rename_i walked nd walk
    cases returned
    exact .inr ⟨rfl, walked, nd, walk, rfl⟩

theorem WellFormed.setPwd (wf : s.WellFormed) {path : Path}
    (valid : s.Valid path) : WellFormed { s with pwd := path } where
  child := wf.child
  absent := wf.absent
  onDisk := wf.onDisk
  first := wf.first
  mounted := wf.mounted
  root := wf.root
  pwd := valid

theorem sysChdir_wellFormed (wf : s.WellFormed) {path : List UInt8}
    {final : State} {ret : Int}
    (returned : s.sysChdir env path = some (final, ret)) :
    final.WellFormed := by
  have follows := (pathWalk_follows wf env path).2
  rcases sysChdir_cases wf returned with
    ⟨-, walk⟩ | ⟨-, walked, nd, walk, rfl⟩
  · exact (follows _ _ walk).2.1
  · obtain ⟨-, walkedWf, valid⟩ := follows _ _ walk
    exact walkedWf.setPwd (valid nd rfl)

theorem doMount_error {type : Name} {devName : Option Name} {ret : Int}
    (failed : doMount env type devName = .error ret) : ret < 0 := by
  unfold doMount at failed
  split at failed
  · cases failed
    decide
  · split at failed
    · cases failed
      decide
    · cases failed

/-- A call of `sys_mount` that returns: it failed after at most a walk, or it
added a mount. -/
theorem sysMount_cases (wf : s.WellFormed) {devName : Option Name}
    {path : List UInt8} {type : Option Name} {final : State} {ret : Int}
    (returned : s.sysMount env devName path type = some (final, ret)) :
    (ret < 0 ∧ (final = s ∨
      ∃ result, s.pathWalk env path = some (final, result))) ∨
      ret = 0 ∧ ∃ walked nd fs, s.pathWalk env path = some (walked, .ok nd) ∧
        final = walked.addMount (some nd) fs := by
  unfold sysMount at returned
  split at returned
  · cases returned
    exact .inl ⟨by decide, .inl rfl⟩
  · split at returned
    · cases returned
    · rename_i walk
      cases returned
      exact .inl ⟨pathWalk_error wf walk, .inr ⟨_, walk⟩⟩
    · rename_i walked nd walk
      split at returned
      · split at returned
        · rename_i failed
          cases returned
          exact .inl ⟨doMount_error failed, .inr ⟨_, walk⟩⟩
        · rename_i fs isMount
          cases returned
          exact .inr ⟨rfl, walked, nd, fs, walk, rfl⟩
      · cases returned
        exact .inl ⟨by decide, .inr ⟨_, walk⟩⟩

section Mounting

variable {mountedOn : Option Path} {fs : FileSystem}

theorem WellFormed.absent_root (wf : s.WellFormed) :
    s.inode (.root s.mounts.length) = none ∧
      s.subdirs (.root s.mounts.length) = [] :=
  wf.absent (.root s.mounts.length) (Nat.lt_irrefl _)

theorem subdirs_addMount (wf : s.WellFormed) :
    (s.addMount mountedOn fs).subdirs = s.subdirs := by
  change Function.update s.subdirs _ [] = s.subdirs
  rw [← wf.absent_root.2, Function.update_eq_self]

theorem inode_addMount (dentry : Dentry) :
    (s.addMount mountedOn fs).inode dentry =
      if dentry = .root s.mounts.length then some (s.rootInode fs).1
      else s.inode dentry :=
  Function.update_apply _ _ _ _

theorem inode_addMount_child (parent : Dentry) (name : Name) (copy : Nat) :
    (s.addMount mountedOn fs).inode (.child parent name copy) =
      s.inode (.child parent name copy) := by
  rw [inode_addMount]
  exact if_neg Dentry.noConfusion

theorem here_addMount (wf : s.WellFormed) {dentry : Dentry} :
    (s.addMount mountedOn fs).Here dentry ↔
      s.Here dentry ∨ dentry = .root s.mounts.length := by
  cases dentry with
  | root mnt =>
      change mnt < (s.mounts ++ [_]).length ↔ mnt < s.mounts.length ∨ _
      rw [List.length_append, Dentry.root.injEq]
      exact Nat.lt_succ_iff_lt_or_eq
  | child parent name copy =>
      change _ ∈ (s.addMount mountedOn fs).subdirs parent ↔ _
      rw [subdirs_addMount wf]
      simp [Here]

theorem fs_addMount (wf : s.WellFormed) {dentry : Dentry}
    (here : s.Here dentry) :
    (s.addMount mountedOn fs).fs dentry = s.fs dentry := by
  change (s.mounts ++ [_])[dentry.dSb]?.map Mount.fs = _
  rw [List.getElem?_append_left (wf.dSb_lt here)]
  rfl

theorem valid_addMount (wf : s.WellFormed) {path : Path}
    (valid : s.Valid path) : (s.addMount mountedOn fs).Valid path :=
  ⟨(here_addMount wf).mpr (.inl valid.1), valid.2⟩

theorem followUp_addMount (path : Path) :
    (s.addMount mountedOn fs).followUp path =
      if path.mnt = s.mounts.length then mountedOn else s.followUp path := by
  change (s.mounts ++ [_])[path.mnt]?.bind Mount.mountedOn = _
  rcases Nat.lt_trichotomy path.mnt s.mounts.length with
    below | equal | above
  · rw [List.getElem?_append_left below, if_neg (Nat.ne_of_lt below)]
    rfl
  · rw [if_pos equal, equal]
    simp
  · rw [if_neg (Nat.ne_of_gt above)]
    have beyond : (s.mounts ++ [Mount.mk mountedOn fs]).length ≤
        path.mnt := by
      rw [List.length_append]
      exact above
    rw [List.getElem?_eq_none beyond, followUp,
      List.getElem?_eq_none (Nat.le_of_lt above)]

theorem lookupMnt_addMount (point : Path) (dentry : Dentry) :
    (s.addMount (some point) fs).lookupMnt dentry =
      (s.lookupMnt dentry).or
        (if point.dentry = dentry then some s.mounts.length else none) := by
  change (s.mounts ++ [_]).findIdx? _ = _
  rw [List.findIdx?_append]
  by_cases isPoint : point.dentry = dentry
  · simp [lookupMnt, isPoint]
  · simp [lookupMnt, isPoint]

theorem WellFormed.addMount (wf : s.WellFormed) {path : Path}
    (valid : s.Valid path) (fs : FileSystem) :
    (s.addMount (some path) fs).WellFormed where
  child := by
    intro parent dentry member
    rw [subdirs_addMount wf] at *
    obtain ⟨here, rest⟩ := wf.child parent dentry member
    exact ⟨(here_addMount wf).mpr (.inl here), rest⟩
  absent := by
    intro dentry notHere
    rw [here_addMount wf, not_or] at notHere
    rw [subdirs_addMount wf, inode_addMount, if_neg notHere.2]
    exact wf.absent dentry notHere.1
  onDisk := by
    intro parent dentry member isDisk
    rw [subdirs_addMount wf] at member
    obtain ⟨here, name, copy, rfl, -⟩ := wf.child parent dentry member
    rw [inode_addMount_child]
    apply wf.onDisk parent _ member
    obtain ⟨volume, isVolume⟩ := isDisk
    rw [fs_addMount wf here] at isVolume
    exact ⟨volume, isVolume⟩
  first := by
    obtain ⟨fs, isFirst⟩ := wf.first
    refine ⟨fs, ?_⟩
    change (s.mounts ++ [_])[0]? = _
    rw [List.getElem?_append_left (List.getElem?_eq_some_iff.mp isFirst).1,
      isFirst]
  mounted := by
    intro mnt other isMounted
    change (s.addMount (some path) fs).followUp ⟨mnt, .root mnt⟩ = _
      at isMounted
    rw [followUp_addMount] at isMounted
    split at isMounted
    · rename_i isNew
      cases isMounted
      refine ⟨?_, valid_addMount wf valid⟩
      calc path.mnt = path.dentry.dSb := valid.2.symm
        _ < s.mounts.length := wf.dSb_lt valid.1
        _ = mnt := isNew.symm
    · obtain ⟨below, otherValid⟩ := wf.mounted mnt other isMounted
      exact ⟨below, valid_addMount wf otherValid⟩
  root := wf.root
  pwd := valid_addMount wf wf.pwd

end Mounting

theorem sysMount_wellFormed (wf : s.WellFormed) {devName : Option Name}
    {path : List UInt8} {type : Option Name} {final : State} {ret : Int}
    (returned : s.sysMount env devName path type = some (final, ret)) :
    final.WellFormed := by
  have follows := (pathWalk_follows wf env path).2
  rcases sysMount_cases wf returned with
    ⟨-, rfl | ⟨result, walk⟩⟩ | ⟨-, walked, nd, fs, walk, rfl⟩
  · exact wf
  · exact (follows _ _ walk).2.1
  · obtain ⟨-, walkedWf, valid⟩ := follows _ _ walk
    exact walkedWf.addMount (valid nd rfl) fs

theorem subdirs_mountRoot (fs : FileSystem) (parent : Dentry) :
    (mountRoot fs).subdirs parent = [] := by
  change Function.update (fun _ => []) _ [] parent = []
  rw [Function.update_apply, ite_self]

theorem mountRoot_wellFormed (fs : FileSystem) :
    (mountRoot fs).WellFormed := by
  constructor
  · intro parent dentry member
    rw [subdirs_mountRoot] at member
    cases member
  · intro dentry notHere
    refine ⟨?_, subdirs_mountRoot fs dentry⟩
    rw [mountRoot, inode_addMount, if_neg]
    · rfl
    · rintro rfl
      exact notHere Nat.zero_lt_one
  · intro parent dentry member
    rw [subdirs_mountRoot] at member
    cases member
  · exact ⟨fs, rfl⟩
  · intro mnt path isMounted
    cases mnt with
    | zero => cases isMounted
    | succ mnt => cases isMounted
  · rfl
  · exact ⟨Nat.zero_lt_one, rfl⟩

/-- The calls that read or change the tree; `sys_open` uses it like
`path_walk`. -/
inductive Call
  | mkdir (name : List UInt8)
  | chdir (path : List UInt8)
  | mount (devName : Option Name) (path : List UInt8) (type : Option Name)
  | walk (path : List UInt8)

def perform (env : Env) (s : State) : Call → Option (State × Int)
  | .mkdir name => s.sysMkdir env name
  | .chdir path => s.sysChdir env path
  | .mount devName path type => s.sysMount env devName path type
  | .walk path =>
      match s.pathWalk env path with
      | none => none
      | some (final, .error ret) => some (final, ret)
      | some (final, .ok _) => some (final, 0)

/-- The states calls lead to, after a root was mounted. -/
inductive Reachable : State → Prop
  | start (fs : FileSystem) : Reachable (mountRoot fs)
  | step {s final : State} {env : Env} {call : Call} {ret : Int} :
      Reachable s → s.perform env call = some (final, ret) → Reachable final

theorem perform_wellFormed (wf : s.WellFormed) {call : Call} {final : State}
    {ret : Int} (returned : s.perform env call = some (final, ret)) :
    final.WellFormed := by
  cases call with
  | mkdir name => exact sysMkdir_wellFormed wf returned
  | chdir path => exact sysChdir_wellFormed wf returned
  | mount devName path type => exact sysMount_wellFormed wf returned
  | walk path =>
      have follows := (pathWalk_follows wf env path).2
      rw [perform] at returned
      split at returned
      · cases returned
      · rename_i walk
        cases returned
        exact (follows _ _ walk).2.1
      · rename_i walk
        cases returned
        exact (follows _ _ walk).2.1

theorem Reachable.wellFormed (reachable : Reachable s) : s.WellFormed := by
  induction reachable with
  | start fs => exact mountRoot_wellFormed fs
  | step _ returned induction => exact perform_wellFormed induction returned

def ramfsName : Name := [114, 97, 109, 102, 115]

/-- Memory for everything, and only `ramfs` to mount. -/
def roomy (unset : Option Bool) : Env where
  unset := unset
  room := fun _ => true
  scratch := fun _ => ⟨fun _ => 0, fun _ => 0, fun _ => 0, true⟩
  mountRoom := true
  fsTypes := [⟨ramfsName, fun _ => some .ramfs⟩]

/-- A root in memory with the directory `a`. -/
def treeWithA : State :=
  (mountRoot .ramfs).created ⟨1, 0, true⟩ [97]

theorem treeWithA_reachable : Reachable treeWithA := by
  have returned : (mountRoot .ramfs).perform (roomy none) (.mkdir [97]) =
      some (treeWithA, 0) := rfl
  exact .step (.start .ramfs) returned

/-- Another file system in memory is mounted on `/a`. -/
def treeMountedA : State :=
  treeWithA.addMount (some ⟨0, .child (.root 0) [97] 0⟩) .ramfs

theorem sysMount_treeWithA :
    treeWithA.sysMount (roomy none) none [47, 97] (some ramfsName) =
      some (treeMountedA, 0) :=
  rfl

theorem treeMountedA_reachable : Reachable treeMountedA := by
  have returned : treeWithA.perform (roomy none)
      (.mount none [47, 97] (some ramfsName)) = some (treeMountedA, 0) :=
    sysMount_treeWithA
  exact .step treeWithA_reachable returned

end Witos.Vfs.State
