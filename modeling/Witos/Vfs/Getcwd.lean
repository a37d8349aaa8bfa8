import Witos.Vfs.Runs

/-!
# The path of the working directory

`sys_getcwd` climbs from the working directory to the root and `path_walk`
comes down by the names.  The two meet unless a file system was mounted on a
directory on the way while the working directory was at or below it.
-/

namespace Witos.Vfs.State

/-- The text of the names, as `sys_getcwd` writes it. -/
def textOf (names : List Name) : List UInt8 :=
  if names = [] then [slash] else names.flatMap (fun name => slash :: name)

theorem unitsFrom_flatMap {names : List Name}
    (areUnits : ∀ name ∈ names, IsUnit name) {unit : Name}
    (notEmpty : unit ≠ []) :
    unitsFrom unit (names.flatMap (fun name => slash :: name)) =
      unit :: names := by
  induction names generalizing unit with
  | nil => rw [List.flatMap_nil, unitsFrom, if_neg notEmpty]
  | cons name names induction =>
      have isUnit := areUnits name List.mem_cons_self
      rw [List.flatMap_cons, List.cons_append, unitsFrom, if_pos rfl,
        if_neg notEmpty, unitsFrom_append isUnit.2, List.nil_append]
      congr 1
      apply induction _ isUnit.1
      intro other member
      exact areUnits other (List.mem_cons_of_mem _ member)

theorem units_textOf {names : List Name}
    (areUnits : ∀ name ∈ names, IsUnit name) :
    units (textOf names) = names := by
  unfold textOf
  cases names with
  | nil => rfl
  | cons name names =>
      have isUnit := areUnits name List.mem_cons_self
      rw [if_neg (List.cons_ne_nil _ _), units, List.flatMap_cons,
        List.cons_append, unitsFrom, if_pos rfl, if_pos rfl,
        unitsFrom_append isUnit.2, List.nil_append]
      apply unitsFrom_flatMap _ isUnit.1
      intro other member
      exact areUnits other (List.mem_cons_of_mem _ member)

theorem head_textOf (names : List Name) :
    (textOf names).head? = some slash := by
  unfold textOf
  cases names with
  | nil => rfl
  | cons name names => rfl

/-- A way from the root by names that are found, through the mounts on them.
A directory that is not left for the mount on it is in `hidden`. -/
inductive Route (s : State) (hidden : Dentry → Prop) :
    List Dentry → Path → Prop
  | top : Route s hidden [] ⟨0, .root 0⟩
  | child {stack : List Dentry} {mnt : Nat} {parent dentry : Dentry}
      {name : Name} :
      Route s hidden stack ⟨mnt, parent⟩ → s.IsDirectory parent →
      IsUnit name → name ≠ dot → name ≠ dotdot →
      s.dLookup parent name = some dentry →
      (s.lookupMnt dentry ≠ none → hidden dentry) →
      Route s hidden (stack ++ [dentry]) ⟨mnt, dentry⟩
  | cross {stack : List Dentry} {mnt : Nat} {parent dentry : Dentry}
      {name : Name} {entered : Nat} :
      Route s hidden stack ⟨mnt, parent⟩ → s.IsDirectory parent →
      IsUnit name → name ≠ dot → name ≠ dotdot →
      s.dLookup parent name = some dentry →
      s.lookupMnt dentry = some entered →
      Route s hidden (stack ++ [dentry]) ⟨entered, .root entered⟩

/-- The names of the dentries from the root down to a place. -/
inductive Spells (s : State) : List Name → Path → Prop
  | root (mnt : Nat) : Spells s [] ⟨mnt, s.root.dentry⟩
  | child {names : List Name} {mnt : Nat} {parent : Dentry} {name : Name}
      {copy : Nat} :
      Spells s names ⟨mnt, parent⟩ →
      Spells s (names ++ [name]) ⟨mnt, .child parent name copy⟩
  | mount {names : List Name} {mnt : Nat} {point : Path} :
      s.followUp ⟨mnt, .root mnt⟩ = some point → Spells s names point →
      Spells s names ⟨mnt, .root mnt⟩

/-- The directory is the one at the place or one of its ancestors. -/
inductive Above (s : State) (dentry : Dentry) : Path → Prop
  | here (mnt : Nat) : Above s dentry ⟨mnt, dentry⟩
  | parent {mnt : Nat} {parent : Dentry} {name : Name} {copy : Nat} :
      Above s dentry ⟨mnt, parent⟩ →
      Above s dentry ⟨mnt, .child parent name copy⟩
  | mount {mnt : Nat} {point : Path} :
      s.followUp ⟨mnt, .root mnt⟩ = some point → Above s dentry point →
      Above s dentry ⟨mnt, .root mnt⟩

section Ways

variable {s final : State} {hidden : Dentry → Prop} {stack : List Dentry}
  {path : Path}

theorem Route.dSb_eq (wf : s.WellFormed)
    (route : s.Route hidden stack path) : path.dentry.dSb = path.mnt := by
  induction route with
  | top => rfl
  | child _ _ _ _ _ found _ induction =>
      obtain ⟨copy, rfl⟩ := dLookup_child wf found
      exact induction
  | cross => rfl

theorem Route.followUp_cross (wf : s.WellFormed) {mnt entered : Nat}
    {parent dentry : Dentry} {name : Name}
    (route : s.Route hidden stack ⟨mnt, parent⟩)
    (found : s.dLookup parent name = some dentry)
    (isMount : s.lookupMnt dentry = some entered) :
    s.followUp ⟨entered, .root entered⟩ = some ⟨mnt, dentry⟩ := by
  obtain ⟨copy, rfl⟩ := dLookup_child wf found
  rw [followUp_entered wf isMount]
  congr 2
  exact route.dSb_eq wf

/-- A way stays one in a tree that keeps its dentries, directories and
mounts. -/
theorem Route.mono {later : Dentry → Prop}
    (route : s.Route hidden stack path)
    (lookups : ∀ parent name dentry, s.dLookup parent name = some dentry →
      final.dLookup parent name = some dentry)
    (directories : ∀ dentry, s.IsDirectory dentry → final.IsDirectory dentry)
    (mounts : ∀ dentry mnt, s.lookupMnt dentry = some mnt →
      final.lookupMnt dentry = some mnt)
    (covered : ∀ dentry ∈ stack, hidden dentry → later dentry)
    (newMounts : ∀ dentry ∈ stack, s.lookupMnt dentry = none →
      final.lookupMnt dentry ≠ none → later dentry) :
    final.Route later stack path := by
  induction route with
  | top => exact .top
  | @child stack mnt parent dentry name _ isDir isUnit notDot notUp found
      isHidden induction =>
      have inFront : ∀ other ∈ stack, other ∈ stack ++ [dentry] :=
        fun other member => List.mem_append_left _ member
      have atEnd : dentry ∈ stack ++ [dentry] := List.mem_concat_self
      refine .child (induction ?_ ?_) (directories _ isDir) isUnit notDot
        notUp (lookups _ _ _ found) ?_
      · exact fun other member => covered other (inFront other member)
      · exact fun other member => newMounts other (inFront other member)
      · intro isMount
        by_cases wasMount : s.lookupMnt dentry = none
        · exact newMounts dentry atEnd wasMount isMount
        · exact covered dentry atEnd (isHidden wasMount)
  | @cross stack mnt parent dentry name entered _ isDir isUnit notDot notUp
      found isMount induction =>
      have inFront : ∀ other ∈ stack, other ∈ stack ++ [dentry] :=
        fun other member => List.mem_append_left _ member
      refine .cross (induction ?_ ?_) (directories _ isDir) isUnit notDot
        notUp (lookups _ _ _ found) (mounts _ _ isMount)
      · exact fun other member => covered other (inFront other member)
      · exact fun other member => newMounts other (inFront other member)

theorem Route.hide {later : Dentry → Prop}
    (route : s.Route hidden stack path)
    (covered : ∀ dentry ∈ stack, hidden dentry → later dentry) :
    s.Route later stack path := by
  apply route.mono
  · exact fun _ _ _ found => found
  · exact fun _ isDirectory => isDirectory
  · exact fun _ _ isMount => isMount
  · exact covered
  · exact fun _ _ noMount isMount => absurd noMount isMount

theorem Route.above (wf : s.WellFormed) (route : s.Route hidden stack path)
    {dentry : Dentry} (member : dentry ∈ stack) : s.Above dentry path := by
  induction route with
  | top => cases member
  | child _ _ _ _ _ found _ induction =>
      obtain ⟨copy, rfl⟩ := dLookup_child wf found
      rcases List.mem_append.mp member with before | last
      · exact .parent (induction before)
      · rw [List.mem_singleton.mp last]
        exact .here _
  | cross route _ _ _ _ found isMount induction =>
      refine .mount (route.followUp_cross wf found isMount) ?_
      obtain ⟨copy, rfl⟩ := dLookup_child wf found
      rcases List.mem_append.mp member with before | last
      · exact .parent (induction before)
      · rw [List.mem_singleton.mp last]
        exact .here _

theorem Route.spells (wf : s.WellFormed)
    (route : s.Route hidden stack path) :
    s.Spells (stack.map Dentry.dName) path := by
  induction route with
  | top =>
      have isRoot : s.root.dentry = .root 0 := by rw [wf.root]
      rw [← isRoot]
      exact .root 0
  | child _ _ _ _ _ found _ induction =>
      obtain ⟨copy, rfl⟩ := dLookup_child wf found
      rw [List.map_append]
      exact .child induction
  | cross route _ _ _ _ found isMount induction =>
      refine .mount (route.followUp_cross wf found isMount) ?_
      obtain ⟨copy, rfl⟩ := dLookup_child wf found
      rw [List.map_append]
      exact .child induction

theorem isUnit_concat {stack : List Dentry} {last : Dentry}
    (units : ∀ name ∈ stack.map Dentry.dName, IsUnit name ∧ name ≠ dotdot)
    (isUnit : IsUnit last.dName) (notUp : last.dName ≠ dotdot) :
    ∀ name ∈ (stack ++ [last]).map Dentry.dName,
      IsUnit name ∧ name ≠ dotdot := by
  intro name member
  rw [List.map_append, List.mem_append] at member
  rcases member with before | added
  · exact units name before
  · rw [List.map_singleton, List.mem_singleton] at added
    rw [added]
    exact ⟨isUnit, notUp⟩

theorem Route.isUnit (route : s.Route hidden stack path) :
    ∀ name ∈ stack.map Dentry.dName, IsUnit name ∧ name ≠ dotdot := by
  induction route with
  | top =>
      intro name member
      cases member
  | child _ _ isUnit _ notUp found _ induction =>
      rw [← dLookup_dName found] at isUnit notUp
      exact isUnit_concat induction isUnit notUp
  | cross _ _ isUnit _ notUp found _ induction =>
      rw [← dLookup_dName found] at isUnit notUp
      exact isUnit_concat induction isUnit notUp

theorem climb_child (wf : s.WellFormed) {mnt : Nat} {parent : Dentry}
    {name : Name} {copy fuel : Nat} {pushed : List Dentry}
    (small : pushed.length + 1 < pathStackSize) :
    s.climb (fuel + 1) ⟨mnt, .child parent name copy⟩ pushed =
      s.climb fuel ⟨mnt, parent⟩ (.child parent name copy :: pushed) := by
  rw [climb, wf.root, if_neg Dentry.noConfusion, if_neg Dentry.noConfusion,
    if_neg (Nat.not_le.mpr small)]
  rfl

theorem climb_route (wf : s.WellFormed) (route : s.Route hidden stack path)
    {fuel : Nat} {pushed : List Dentry} (enough : 2 * stack.length < fuel)
    (small : stack.length + pushed.length < pathStackSize) :
    s.climb fuel path pushed = some (stack ++ pushed) := by
  induction route generalizing fuel pushed with
  | top =>
      obtain ⟨fuel, rfl⟩ := Nat.exists_eq_succ_of_ne_zero
        (Nat.ne_of_gt enough)
      rw [climb, wf.root, if_pos rfl, List.nil_append]
  | @child stack mnt parent dentry name _ _ _ _ _ found _ induction =>
      obtain ⟨copy, rfl⟩ := dLookup_child wf found
      rw [List.length_append, List.length_singleton] at enough small
      obtain ⟨fuel, rfl⟩ : ∃ rest, fuel = rest + 1 := ⟨fuel - 1, by omega⟩
      rw [climb_child wf (by omega), induction (by omega)]
      · rw [List.append_assoc, List.singleton_append]
      · rw [List.length_cons]
        omega
  | @cross stack mnt parent dentry name entered route _ _ _ _ found isMount
      induction =>
      have followed := route.followUp_cross wf found isMount
      obtain ⟨copy, rfl⟩ := dLookup_child wf found
      rw [List.length_append, List.length_singleton] at enough small
      obtain ⟨fuel, rfl⟩ : ∃ rest, fuel = rest + 2 := ⟨fuel - 2, by omega⟩
      have notFirst : Dentry.root entered ≠ .root 0 := by
        intro same
        cases same
        rw [wf.followUp_first] at followed
        cases followed
      rw [climb, wf.root, if_neg notFirst, if_pos rfl, followed]
      simp only
      rw [climb_child wf (by omega), induction (by omega)]
      · rw [List.append_assoc, List.singleton_append]
      · rw [List.length_cons]
        omega

theorem cachedTrace_concat {nd place last : Path} {front rest : List Name}
    (toPlace : s.cachedTrace nd front = some place)
    (toLast : s.cachedTrace place rest = some last) :
    s.cachedTrace nd (front ++ rest) = some last := by
  induction front generalizing nd with
  | nil =>
      cases toPlace
      exact toLast
  | cons unit front induction =>
      obtain ⟨inode, first, isInode, isDir, step, rest⟩ :=
        cachedTrace_cons.mp toPlace
      exact cachedTrace_cons.mpr
        ⟨inode, first, isInode, isDir, step, induction rest⟩

theorem cachedTrace_route
    (route : s.Route (fun _ => False) stack path) :
    s.cachedTrace ⟨0, .root 0⟩ (stack.map Dentry.dName) = some path := by
  -- One name further, in a directory that is known.
  have down {place : Path} {name : Name} {dentry : Dentry}
      (isDirectory : s.IsDirectory place.dentry) (notDot : name ≠ dot)
      (notUp : name ≠ dotdot)
      (found : s.dLookup place.dentry name = some dentry) :
      s.cachedTrace place [name] =
        some (s.followMount ⟨place.mnt, dentry⟩) := by
    obtain ⟨inode, isInode, isDir⟩ := isDirectory
    rw [cachedTrace, isInode]
    simp only [isDir, if_true, cachedStep, if_neg notDot, if_neg notUp, found,
      Option.map_some, Option.bind_some, cachedTrace]
  induction route with
  | top => rfl
  | child _ isDir _ notDot notUp found isHidden induction =>
      rw [List.map_append, List.map_singleton, dLookup_dName found]
      apply cachedTrace_concat induction
      rw [down isDir notDot notUp found]
      simp only [followMount, Classical.not_not.mp isHidden]
  | cross _ isDir _ notDot notUp found isMount induction =>
      rw [List.map_append, List.map_singleton, dLookup_dName found]
      apply cachedTrace_concat induction
      rw [down isDir notDot notUp found]
      simp only [followMount, isMount]

theorem Route.up (wf : s.WellFormed) {stack : List Dentry} {path place : Path}
    (route : s.Route hidden stack path)
    (step : s.cachedStep path dotdot = some place) :
    ∃ rest, s.Route hidden rest place := by
  have notDot : dotdot ≠ dot := by decide
  rw [cachedStep, if_neg notDot, if_pos rfl] at step
  cases route with
  | top =>
      have notRoot : s.isMountRoot ⟨0, .root 0⟩ = false := by
        simp [isMountRoot, wf.followUp_first]
      rw [notRoot] at step
      cases step
      exact ⟨[], .top⟩
  | child route _ _ _ _ found _ =>
      obtain ⟨copy, rfl⟩ := dLookup_child wf found
      simp only [isMountRoot, reduceCtorEq, false_and, decide_false,
        Bool.false_eq_true, if_false, Option.map_some,
        Option.some.injEq] at step
      rw [← step]
      exact ⟨_, route⟩
  | cross route _ _ _ _ found isMount =>
      have followed := route.followUp_cross wf found isMount
      obtain ⟨copy, rfl⟩ := dLookup_child wf found
      simp only [isMountRoot, followed, Option.isSome_some, and_self,
        decide_true, if_true, Option.map_some, Option.some.injEq] at step
      rw [← step]
      exact ⟨_, route⟩

theorem Route.step (wf : s.WellFormed) (route : s.Route hidden stack path)
    (directory : s.IsDirectory path.dentry) {place : Path} {unit : Name}
    (isUnit : IsUnit unit) (step : s.cachedStep path unit = some place) :
    ∃ rest, s.Route hidden rest place := by
  by_cases isUp : unit = dotdot
  · rw [isUp] at step
    exact route.up wf step
  · rw [cachedStep] at step
    split at step
    · cases step
      exact ⟨stack, route⟩
    · rename_i notDot
      obtain ⟨dentry, found, rfl⟩ := Option.map_eq_some_iff.mp step
      unfold followMount
      cases isMount : s.lookupMnt dentry with
      | none =>
          refine ⟨_, .child route directory isUnit notDot isUp found ?_⟩
          intro isSome
          exact absurd isMount isSome
      | some mnt =>
          exact ⟨_, .cross route directory isUnit notDot isUp found isMount⟩

/-- A walk over known dentries from the end of a way leads to the end of
one. -/
theorem Route.walk (wf : s.WellFormed) (route : s.Route hidden stack path)
    {place : Path} {units : List Name}
    (areUnits : ∀ unit ∈ units, IsUnit unit)
    (traced : s.cachedTrace path units = some place) :
    ∃ rest, s.Route hidden rest place := by
  induction units generalizing stack path with
  | nil =>
      cases traced
      exact ⟨stack, route⟩
  | cons unit units induction =>
      obtain ⟨inode, first, isInode, isDir, step, rest⟩ :=
        cachedTrace_cons.mp traced
      obtain ⟨_, nextRoute⟩ := route.step wf ⟨inode, isInode, isDir⟩
        (areUnits unit List.mem_cons_self) step
      exact induction nextRoute
        (fun unit member => areUnits unit (List.mem_cons_of_mem _ member))
        rest

theorem Route.grown {env : Env} {later : State} (wf : s.WellFormed)
    (route : s.Route hidden stack path) (grown : Grown env s later) :
    later.Route hidden stack path := by
  apply route.mono grown.kept
  · rintro dentry ⟨inode, isInode, isDir⟩
    have here : s.Here dentry := by
      by_contra notHere
      rw [(wf.absent dentry notHere).1] at isInode
      cases isInode
    refine ⟨inode, ?_, isDir⟩
    rw [grown.inode _ (grown.here here), seen_of_here here, isInode]
  · intro dentry mnt isMount
    rw [grown.lookupMnt, isMount]
  · exact fun _ _ isHidden => isHidden
  · intro dentry _ noMount isMount
    rw [grown.lookupMnt] at isMount
    exact absurd noMount isMount

/-- The way to where `path_walk` leads. -/
theorem Route.pathWalk {env : Env} {walked : State} {text : List UInt8}
    {nd : Path} (wf : s.WellFormed) (route : s.Route hidden stack s.pwd)
    (set : (units text).head? ≠ some dotdot)
    (isWalk : s.pathWalk env text = some (walked, .ok nd)) :
    ∃ rest, walked.Route hidden rest nd := by
  obtain ⟨grown, walkedWf, -⟩ := (pathWalk_follows wf env text).2 _ _ isWalk
  have traced := cachedTrace_of_walk wf (wf.valid_start text)
    (fun isUp => absurd isUp set) isWalk
  have areUnits : ∀ unit ∈ units text, IsUnit unit :=
    fun unit member => isUnit_of_mem List.not_mem_nil member
  have start : ∃ first, s.Route hidden first (s.start text) := by
    unfold State.start
    split
    · rw [wf.root]
      exact ⟨[], .top⟩
    · exact ⟨stack, route⟩
  obtain ⟨first, startRoute⟩ := start
  exact (startRoute.grown wf grown).walk walkedWf areUnits traced

end Ways

/-- Runs of calls, with the directories something was mounted on while they
were the working directory or above it.  `keep` says which of them still count
after a new working directory is entered. -/
inductive Run (keep : State → (Dentry → Prop) → Dentry → Prop) :
    State → (Dentry → Prop) → Prop
  | start (fs : FileSystem) : Run keep (mountRoot fs) (fun _ => False)
  | mkdir {s final : State} {hidden : Dentry → Prop} {env : Env}
      {name : List UInt8} {ret : Int} :
      Run keep s hidden → s.sysMkdir env name = some (final, ret) →
      Run keep final hidden
  | chdir {s final : State} {hidden : Dentry → Prop} {env : Env}
      {path : List UInt8} {ret : Int} :
      Run keep s hidden → (units path).head? ≠ some dotdot →
      s.sysChdir env path = some (final, ret) →
      Run keep final (fun dentry =>
        if ret = 0 then keep final hidden dentry else hidden dentry)
  | mount {s final : State} {hidden : Dentry → Prop} {env : Env}
      {devName type : Option Name} {path : List UInt8} {ret : Int} :
      Run keep s hidden →
      s.sysMount env devName path type = some (final, ret) →
      Run keep final (fun dentry => hidden dentry ∨
        (final.followUp ⟨s.mounts.length, .root s.mounts.length⟩).map
            Path.dentry = some dentry ∧
          final.Above dentry final.pwd)

/-- What was hidden still is as long as it is the working directory or above
it. -/
def stillAbove (s : State) (hidden : Dentry → Prop) (dentry : Dentry) :
    Prop :=
  hidden dentry ∧ s.Above dentry s.pwd

/-- Only what is mounted after the working directory was entered counts. -/
def sinceEntered (_ : State) (_ : Dentry → Prop) (_ : Dentry) : Prop :=
  False

section Invariant

variable {s final : State} {hidden : Dentry → Prop} {env : Env} {ret : Int}

theorem route_mkdir (wf : s.WellFormed) {name : List UInt8}
    (returned : s.sysMkdir env name = some (final, ret))
    {stack : List Dentry} (route : s.Route hidden stack s.pwd) :
    final.Route hidden stack final.pwd := by
  rcases sysMkdir_cases wf returned with
    ⟨-, rfl⟩ | ⟨-, -, dir, isInode, isDir, rfl⟩
  · exact route
  · change (s.created dir (mkdirName name)).Route hidden stack s.pwd
    apply route.mono
    · intro parent other dentry found
      rw [dLookup_created wf, found, Option.some_or]
    · rintro dentry ⟨inode, isSome, isDirectory⟩
      rw [IsDirectory, inode_created wf]
      split
      · exact ⟨_, rfl, isDir⟩
      · split
        · exact ⟨_, rfl, rfl⟩
        · exact ⟨inode, isSome, isDirectory⟩
    · exact fun _ _ isMount => isMount
    · exact fun _ _ isHidden => isHidden
    · exact fun _ _ noMount isMount => absurd noMount isMount

theorem route_chdir (wf : s.WellFormed) {path : List UInt8}
    (set : (units path).head? ≠ some dotdot)
    (returned : s.sysChdir env path = some (final, ret))
    {stack : List Dentry} (route : s.Route hidden stack s.pwd) :
    ∃ rest, final.Route (fun dentry =>
      if ret = 0 then stillAbove final hidden dentry else hidden dentry)
      rest final.pwd := by
  have finalWf := sysChdir_wellFormed wf returned
  rcases sysChdir_cases wf returned with
    ⟨negative, walk⟩ | ⟨rfl, walked, nd, walk, rfl⟩
  · obtain ⟨grown, -, -⟩ := (pathWalk_follows wf env path).2 _ _ walk
    have failed : ret ≠ 0 := Int.ne_of_lt negative
    simp only [failed, if_false, grown.pwd]
    exact ⟨stack, route.grown wf grown⟩
  · obtain ⟨rest, isRoute⟩ := route.pathWalk wf set walk
    have same : State.Route { walked with pwd := nd } hidden rest nd := by
      apply isRoute.mono
      · exact fun _ _ _ found => found
      · exact fun _ isDirectory => isDirectory
      · exact fun _ _ isMount => isMount
      · exact fun _ _ isHidden => isHidden
      · exact fun _ _ noMount isMount => absurd noMount isMount
    refine ⟨rest, ?_⟩
    simp only [if_true]
    apply same.hide
    exact fun _ member isHidden => ⟨isHidden, same.above finalWf member⟩

theorem Above.addMount {dentry : Dentry} {path : Path}
    (above : s.Above dentry path) (point : Path) (fs : FileSystem) :
    (s.addMount (some point) fs).Above dentry path := by
  induction above with
  | here mnt => exact .here mnt
  | parent _ induction => exact .parent induction
  | @mount mnt place followed _ induction =>
      refine .mount ?_ induction
      rw [followUp_addMount, if_neg, followed]
      rintro rfl
      rw [followUp, List.getElem?_eq_none (Nat.le_refl _)] at followed
      cases followed

theorem route_mount (wf : s.WellFormed) {devName type : Option Name}
    {path : List UInt8}
    (returned : s.sysMount env devName path type = some (final, ret))
    {stack : List Dentry} (route : s.Route hidden stack s.pwd) :
    final.Route (fun dentry => hidden dentry ∨
      (final.followUp ⟨s.mounts.length, .root s.mounts.length⟩).map
          Path.dentry = some dentry ∧
        final.Above dentry final.pwd) stack final.pwd := by
  have finalWf := sysMount_wellFormed wf returned
  rcases sysMount_cases wf returned with
    ⟨-, rfl | ⟨result, walk⟩⟩ | ⟨-, walked, nd, fs, walk, rfl⟩
  · exact route.hide (fun _ _ isHidden => .inl isHidden)
  · obtain ⟨grown, -, -⟩ := (pathWalk_follows wf env path).2 _ _ walk
    rw [grown.pwd]
    exact (route.grown wf grown).hide (fun _ _ isHidden => .inl isHidden)
  · obtain ⟨grown, walkedWf, -⟩ := (pathWalk_follows wf env path).2 _ _ walk
    have walkedRoute := route.grown wf grown
    have isPoint : (walked.addMount (some nd) fs).followUp
        ⟨s.mounts.length, .root s.mounts.length⟩ = some nd := by
      rw [followUp_addMount, grown.mounts, if_pos rfl]
    have samePwd : (walked.addMount (some nd) fs).pwd = s.pwd := grown.pwd
    rw [isPoint, samePwd]
    apply walkedRoute.mono
    · intro parent name dentry found
      rw [dLookup, subdirs_addMount walkedWf]
      exact found
    · rintro dentry ⟨inode, isInode, isDir⟩
      refine ⟨inode, ?_, isDir⟩
      rw [inode_addMount, if_neg, isInode]
      rintro rfl
      rw [walkedWf.absent_root.1] at isInode
      cases isInode
    · intro dentry mnt isMount
      rw [lookupMnt_addMount, isMount, Option.some_or]
    · exact fun _ _ isHidden => .inl isHidden
    · intro dentry member noMount isMount
      rw [lookupMnt_addMount, noMount, Option.none_or] at isMount
      split at isMount
      · rename_i isNd
        rw [← isNd]
        refine .inr ⟨rfl, Above.addMount ?_ _ _⟩
        rw [isNd]
        exact walkedRoute.above walkedWf member
      · exact absurd rfl isMount

theorem Run.route (run : Run stillAbove s hidden) :
    s.WellFormed ∧ ∃ stack, s.Route hidden stack s.pwd := by
  induction run with
  | start fs => exact ⟨mountRoot_wellFormed fs, [], .top⟩
  | mkdir _ returned induction =>
      obtain ⟨wf, stack, route⟩ := induction
      exact ⟨sysMkdir_wellFormed wf returned, stack,
        route_mkdir wf returned route⟩
  | chdir _ set returned induction =>
      obtain ⟨wf, stack, route⟩ := induction
      exact ⟨sysChdir_wellFormed wf returned,
        route_chdir wf set returned route⟩
  | mount _ returned induction =>
      obtain ⟨wf, stack, route⟩ := induction
      exact ⟨sysMount_wellFormed wf returned, stack,
        route_mount wf returned route⟩

end Invariant

theorem writeNames_eq {size : Nat} {stack : List Dentry} {buff : List UInt8}
    (fits : (buff ++ (stack.map Dentry.dName).flatMap
      (fun name => slash :: name)).length < size) :
    writeNames size stack buff =
      buff ++ (stack.map Dentry.dName).flatMap
        (fun name => slash :: name) := by
  induction stack generalizing buff with
  | nil => rw [writeNames, List.map_nil, List.flatMap_nil, List.append_nil]
  | cons dentry stack induction =>
      rw [List.map_cons, List.flatMap_cons, ← List.append_assoc] at fits ⊢
      have room : (buff ++ slash :: dentry.dName).length < size := by
        rw [List.length_append] at fits
        omega
      rw [writeNames, if_neg (Nat.not_le.mpr room), induction fits]

theorem sysGetcwd_eq {s : State} {hidden : Dentry → Prop}
    {stack : List Dentry} (wf : s.WellFormed)
    (route : s.Route hidden stack s.pwd) {fuel size : Nat}
    (enough : 2 * stack.length < fuel)
    (small : stack.length < pathStackSize)
    (fits : (textOf (stack.map Dentry.dName)).length < size) :
    s.sysGetcwd fuel size = some (textOf (stack.map Dentry.dName)) := by
  have climbed := climb_route wf route enough
    (show stack.length + ([] : List Dentry).length < pathStackSize from small)
  rw [List.append_nil] at climbed
  rw [sysGetcwd, climbed]
  cases stack with
  | nil => rfl
  | cons dentry stack =>
      have isText : textOf ((dentry :: stack).map Dentry.dName) =
          ((dentry :: stack).map Dentry.dName).flatMap
            (fun name => slash :: name) := if_neg (List.cons_ne_nil _ _)
      rw [isText] at fits ⊢
      have written : writeNames size (dentry :: stack) [] = [] ++ _ :=
        writeNames_eq fits
      rw [List.nil_append] at written
      simp only [written]

/-- As long as nothing is hidden, `sys_getcwd` writes the names from the root
to the working directory, and they lead back to it. -/
theorem sysGetcwd_inverts (s : State) (hidden : Dentry → Prop)
    (run : Run stillAbove s hidden) (clear : ∀ dentry, ¬hidden dentry) :
    ∃ names, s.Spells names s.pwd ∧
      ∀ size, names.length < 256 → (textOf names).length < size →
        (∀ fuel, 2 * names.length < fuel →
          s.sysGetcwd fuel size = some (textOf names)) ∧
        ∀ env, (s.pathWalk env (textOf names)).map Prod.snd =
          some (.ok s.pwd) := by
  obtain ⟨wf, stack, route⟩ := run.route
  have isClear : s.Route (fun _ => False) stack s.pwd :=
    route.hide (fun dentry _ isHidden => clear dentry isHidden)
  have areUnits := route.isUnit
  refine ⟨stack.map Dentry.dName, route.spells wf, ?_⟩
  intro size small fits
  rw [List.length_map] at *
  constructor
  · intro fuel enough
    exact sysGetcwd_eq wf route enough small fits
  · intro env
    have isStart : s.start (textOf (stack.map Dentry.dName)) =
        ⟨0, .root 0⟩ := by
      rw [start, head_textOf, if_pos rfl, wf.root]
    have isUnits : units (textOf (stack.map Dentry.dName)) =
        stack.map Dentry.dName :=
      units_textOf (fun name member => (areUnits name member).1)
    have set : (stack.map Dentry.dName).head? = some dotdot →
        none = some (⟨0, .root 0⟩ : Path) := by
      intro isUp
      exact absurd rfl (areUnits dotdot (List.mem_of_mem_head? isUp)).2
    have valid := wf.valid_start (textOf (stack.map Dentry.dName))
    rw [isStart] at valid
    rw [(pathWalk_follows wf env _).1, pathTrace, isStart, isUnits]
    exact (trace_of_cachedTrace wf env valid set
      (cachedTrace_route isClear)).1

/-- The working directory is `/a`. -/
def treeInA : State :=
  { treeWithA with pwd := ⟨0, .child (.root 0) [97] 0⟩ }

theorem run_treeInA (keep : State → (Dentry → Prop) → Dentry → Prop) :
    Run keep treeInA (fun dentry =>
      if (0 : Int) = 0 then keep treeInA (fun _ => False) dentry
      else False) := by
  have made : (mountRoot .ramfs).sysMkdir (roomy none) [97] =
      some (treeWithA, 0) := rfl
  have entered : treeWithA.sysChdir (roomy none) [97] =
      some (treeInA, 0) := rfl
  exact .chdir (.mkdir (.start .ramfs) made) (by decide) entered

/-- The file system on `/a` with the directory `b` as working directory. -/
def treeInMount : State :=
  { State.created { treeMountedA with pwd := ⟨1, .root 1⟩ } ⟨3, 0, true⟩
      [98] with
    pwd := ⟨1, .child (.root 1) [98] 0⟩ }

/-- Nothing was mounted over the working directory on the way to `/a/b`. -/
theorem run_treeInMount :
    ∃ hidden, Run stillAbove treeInMount hidden ∧
      ∀ dentry, ¬hidden dentry := by
  have made : (mountRoot .ramfs).sysMkdir (roomy none) [97] =
      some (treeWithA, 0) := rfl
  have entered : treeMountedA.sysChdir (roomy none) [97] =
      some ({ treeMountedA with pwd := ⟨1, .root 1⟩ }, 0) := rfl
  have madeB : State.sysMkdir (roomy none)
      { treeMountedA with pwd := ⟨1, .root 1⟩ } [98] =
      some (State.created { treeMountedA with pwd := ⟨1, .root 1⟩ }
        ⟨3, 0, true⟩ [98], 0) := rfl
  have enteredB : State.sysChdir (roomy none)
      (State.created { treeMountedA with pwd := ⟨1, .root 1⟩ }
        ⟨3, 0, true⟩ [98]) [98] = some (treeInMount, 0) := rfl
  refine ⟨_, .chdir (.mkdir (.chdir (.mount (.mkdir (.start .ramfs) made)
    sysMount_treeWithA) (by decide) entered) madeB) (by decide) enteredB, ?_⟩
  rintro dentry ⟨⟨none | ⟨point, above⟩, -⟩, -⟩
  · exact none
  · -- The mount point is not above the root.
    cases point
    cases above with
    | mount followed _ => cases followed

/-- The way to the working directory crosses the mount on `/a`. -/
theorem sysGetcwd_inverts_mounted :
    ∃ names, treeInMount.Spells names treeInMount.pwd ∧
      ∀ size, names.length < 256 → (textOf names).length < size →
        (∀ fuel, 2 * names.length < fuel →
          treeInMount.sysGetcwd fuel size = some (textOf names)) ∧
        ∀ env, (treeInMount.pathWalk env (textOf names)).map Prod.snd =
          some (.ok treeInMount.pwd) := by
  obtain ⟨hidden, run, clear⟩ := run_treeInMount
  exact sysGetcwd_inverts treeInMount hidden run clear

/-- From `/a/b`, after something was mounted on `/a`, back to the `/a`
below. -/
def treeBelowMount : State :=
  { (treeInA.created ⟨2, 0, true⟩ [98]).addMount
      (some ⟨0, .child (.root 0) [97] 0⟩) .ramfs with
    pwd := ⟨0, .child (.root 0) [97] 0⟩ }

theorem run_treeBelowMount :
    ∃ hidden, Run sinceEntered treeBelowMount hidden ∧
      ∀ dentry, ¬hidden dentry := by
  have made : treeInA.sysMkdir (roomy none) [98] =
      some (treeInA.created ⟨2, 0, true⟩ [98], 0) := rfl
  have entered : (treeInA.created ⟨2, 0, true⟩ [98]).sysChdir (roomy none)
      [98] = some ({ treeInA.created ⟨2, 0, true⟩ [98] with
        pwd := ⟨0, .child (.child (.root 0) [97] 0) [98] 0⟩ }, 0) := rfl
  have mounted : State.sysMount (roomy none)
      { treeInA.created ⟨2, 0, true⟩ [98] with
        pwd := ⟨0, .child (.child (.root 0) [97] 0) [98] 0⟩ } none [47, 97]
      (some ramfsName) =
      some ({ (treeInA.created ⟨2, 0, true⟩ [98]).addMount
          (some ⟨0, .child (.root 0) [97] 0⟩) .ramfs with
        pwd := ⟨0, .child (.child (.root 0) [97] 0) [98] 0⟩ }, 0) := rfl
  have left : State.sysChdir (roomy none)
      { (treeInA.created ⟨2, 0, true⟩ [98]).addMount
          (some ⟨0, .child (.root 0) [97] 0⟩) .ramfs with
        pwd := ⟨0, .child (.child (.root 0) [97] 0) [98] 0⟩ }
      [46, 47, 46, 46] = some (treeBelowMount, 0) := rfl
  exact ⟨_, .chdir (.mount (.chdir (.mkdir (run_treeInA sinceEntered) made)
    (by decide) entered) mounted) (by decide) left, by simp [sinceEntered]⟩

theorem spells_treeBelowMount {names : List Name}
    (spells : treeBelowMount.Spells names ⟨0, .child (.root 0) [97] 0⟩) :
    names = [[97]] := by
  cases spells with
  | child rootSpells =>
      cases rootSpells with
      | root => rfl
      | mount followed _ => cases followed

/-- Counting only what was mounted after the working directory was entered is
not enough: its text leads to the file system mounted on it before. -/
theorem sysGetcwd_not_inverts_covered :
    ¬∀ (s : State) (hidden : Dentry → Prop), Run sinceEntered s hidden →
      (∀ dentry, ¬hidden dentry) →
        ∃ names, s.Spells names s.pwd ∧
          ∀ size, names.length < 256 → (textOf names).length < size →
            (∀ fuel, 2 * names.length < fuel →
              s.sysGetcwd fuel size = some (textOf names)) ∧
            ∀ env, (s.pathWalk env (textOf names)).map Prod.snd =
              some (.ok s.pwd) := by
  intro always
  obtain ⟨hidden, run, clear⟩ := run_treeBelowMount
  obtain ⟨names, spells, inverts⟩ := always treeBelowMount hidden run clear
  obtain rfl := spells_treeBelowMount spells
  have wrong := (inverts 3 (by decide) (by decide)).2 (roomy none)
  cases wrong

end Witos.Vfs.State
