import Witos.Vfs.Runs

/-!
# What a new mount shows

A new mount is entered only where a name leads to the directory it is mounted
on.  It is not if that directory is itself the root of a mount, so it stays
out of sight if it is mounted on `/` or a second time on the same path.
-/

namespace Witos.Vfs.State

variable {env : Env} {s later : State}

theorem Grown.seen (grown : Grown env s later) (wf : s.WellFormed)
    (laterWf : later.WellFormed) (dentry : Dentry) :
    later.seen env dentry = s.seen env dentry := by
  induction dentry with
  | root mnt =>
      by_cases here : later.Here (.root mnt)
      · exact grown.inode _ here
      · have notHere : ¬s.Here (.root mnt) := by
          intro isHere
          apply here
          change mnt < later.mounts.length
          rw [grown.mounts]
          exact isHere
        rw [State.seen, State.seen, (laterWf.absent _ here).1,
          (wf.absent _ notHere).1]
  | child parent name copy induction =>
      by_cases here : later.Here (.child parent name copy)
      · rw [seen_of_here here]
        exact grown.inode _ here
      · have notLater : Dentry.child parent name copy ∉
            later.subdirs parent := here
        have notHere : Dentry.child parent name copy ∉ s.subdirs parent :=
          fun member => here (grown.subdirs _ _ member)
        rw [State.seen, State.seen, if_neg notLater, if_neg notHere,
          induction]
        simp only [grown.iLookup]

theorem Grown.peek (grown : Grown env s later) (wf : s.WellFormed)
    (laterWf : later.WellFormed) (parent : Dentry) (name : Name) :
    later.peek env parent name = s.peek env parent name := by
  cases found : later.dLookup parent name with
  | some dentry =>
      rw [peek_of_dLookup found, grown.found _ _ _ found]
  | none =>
      rw [State.peek, State.peek, found, grown.missing found]
      simp only [grown.seen wf laterWf, grown.iLookup]

theorem Grown.glance (grown : Grown env s later) (wf : s.WellFormed)
    (laterWf : later.WellFormed) (nd : Path) (name : Name)
    (next : Option Path) :
    later.glance env nd name next = s.glance env nd name next := by
  unfold State.glance
  simp only [grown.leaves, grown.followUp, grown.peek wf laterWf,
    grown.followMount]

theorem Grown.trace (grown : Grown env s later) (wf : s.WellFormed)
    (laterWf : later.WellFormed) (nd : Path) (next : Option Path)
    (units : List Name) :
    later.trace env nd next units = s.trace env nd next units := by
  induction units generalizing nd next with
  | nil => rfl
  | cons unit units induction =>
      rw [State.trace, State.trace, grown.seen wf laterWf,
        grown.glance wf laterWf]
      simp only [induction]

/-- No name of the walk leads to the dentry. -/
def Avoids (env : Env) (s : State) (point : Dentry) (nd : Path)
    (next : Option Path) : List Name → Prop
  | [] => True
  | unit :: units =>
      (unit ≠ dot → unit ≠ dotdot →
        s.peek env nd.dentry unit ≠ some (.ok point)) ∧
      ∀ later, s.glance env nd unit next = some (.ok later) →
        Avoids env s point later (some later) units

theorem Grown.avoids (grown : Grown env s later) (wf : s.WellFormed)
    (laterWf : later.WellFormed) {point : Dentry} {nd : Path}
    {next : Option Path} {units : List Name}
    (avoids : s.Avoids env point nd next units) :
    later.Avoids env point nd next units := by
  induction units generalizing nd next with
  | nil => trivial
  | cons unit units induction =>
      obtain ⟨first, rest⟩ := avoids
      constructor
      · rw [grown.peek wf laterWf]
        exact first
      · intro place isPlace
        rw [grown.glance wf laterWf] at isPlace
        exact induction (rest place isPlace)

/-- A place in the mounts there are. -/
def Old (s : State) (path : Path) : Prop :=
  path.mnt < s.mounts.length ∧ path.dentry.dSb < s.mounts.length

theorem Valid.old (wf : s.WellFormed) {path : Path} (valid : s.Valid path) :
    s.Old path := by
  have below := wf.dSb_lt valid.1
  rw [Old, ← valid.2]
  exact ⟨below, below⟩

theorem dSb_dParent (dentry : Dentry) : dentry.dParent.dSb = dentry.dSb := by
  cases dentry with
  | root mnt => rfl
  | child parent name copy => rfl

section Added

variable {point : Path} {fs : FileSystem}

theorem fs_addMount_old {dentry : Dentry}
    (below : dentry.dSb < s.mounts.length) :
    (s.addMount (some point) fs).fs dentry = s.fs dentry := by
  change (s.mounts ++ [_])[dentry.dSb]?.map Mount.fs = _
  rw [List.getElem?_append_left below]
  rfl

theorem iLookup_addMount {dentry : Dentry} (dir : Inode)
    (below : dentry.dSb < s.mounts.length) :
    (s.addMount (some point) fs).iLookup env dir dentry =
      s.iLookup env dir dentry := by
  rw [iLookup, iLookup, fs_addMount_old below]

theorem seen_addMount (wf : s.WellFormed) {dentry : Dentry}
    (below : dentry.dSb < s.mounts.length) :
    (s.addMount (some point) fs).seen env dentry = s.seen env dentry := by
  induction dentry with
  | root mnt =>
      rw [seen, seen, inode_addMount, if_neg]
      intro same
      cases same
      exact Nat.lt_irrefl _ below
  | child parent name copy induction =>
      rw [seen, seen, subdirs_addMount wf, inode_addMount_child,
        induction below]
      simp only [iLookup_addMount _ below]

theorem peek_addMount (wf : s.WellFormed) {parent : Dentry}
    (below : parent.dSb < s.mounts.length) (name : Name) :
    (s.addMount (some point) fs).peek env parent name =
      s.peek env parent name := by
  have childBelow : (Dentry.child parent name 0).dSb < s.mounts.length :=
    below
  rw [peek, peek, dLookup, dLookup, subdirs_addMount wf,
    seen_addMount wf below]
  simp only [iLookup_addMount _ childBelow]

theorem leaves_addMount {next : Path} (below : next.mnt < s.mounts.length) :
    (s.addMount (some point) fs).leaves env (some next) =
      s.leaves env (some next) := by
  change ((s.mounts ++ [_])[next.mnt]?.map _) = _
  rw [List.getElem?_append_left below]
  rfl

/-- A step of a walk that does not lead to the new mount, which is behind an
earlier mount on the same dentry. -/
theorem glance_addMount (wf : s.WellFormed) {nd : Path} (old : s.Old nd)
    {next : Option Path} (oldNext : ∀ place, next = some place → s.Old place)
    {unit : Name} (avoids : s.lookupMnt point.dentry = none →
      unit ≠ dot → unit ≠ dotdot →
        s.peek env nd.dentry unit ≠ some (.ok point.dentry)) :
    (s.addMount (some point) fs).glance env nd unit next =
      s.glance env nd unit next := by
  have sameTest : (s.addMount (some point) fs).leaves env next =
      s.leaves env next := by
    cases next with
    | none => rfl
    | some place => exact leaves_addMount (oldNext place rfl).1
  have sameUp : (s.addMount (some point) fs).followUp nd =
      s.followUp nd := by
    rw [followUp_addMount, if_neg (Nat.ne_of_lt old.1)]
  unfold glance
  by_cases isDot : unit = dot
  · rw [if_pos isDot, if_pos isDot]
  · rw [if_neg isDot, if_neg isDot]
    by_cases isUp : unit = dotdot
    · rw [if_pos isUp, if_pos isUp, sameTest, sameUp]
    · rw [if_neg isUp, if_neg isUp, peek_addMount wf old.2]
      cases isPeek : s.peek env nd.dentry unit with
      | none => rfl
      | some outcome =>
          cases outcome with
          | error ret => rfl
          | ok dentry =>
              simp only [followMount, lookupMnt_addMount]
              cases mounted : s.lookupMnt dentry with
              | some mnt => rfl
              | none =>
                  have differs : point.dentry ≠ dentry := by
                    rintro rfl
                    exact avoids mounted isDot isUp isPeek
                  rw [if_neg differs]
                  rfl

theorem glance_old (wf : s.WellFormed) {nd place : Path} (old : s.Old nd)
    {next : Option Path} {unit : Name}
    (isGlance : s.glance env nd unit next = some (.ok place)) :
    s.Old place := by
  rcases glance_cases isGlance with
    ⟨-, rfl⟩ | ⟨-, -, rfl⟩ | ⟨-, -, above, followed, rfl⟩ |
      ⟨-, -, dentry, isPeek, rfl⟩
  · exact old
  · refine ⟨old.1, ?_⟩
    rw [dSb_dParent]
    exact old.2
  · have aboveOld := (wf.mounted _ _ followed).2.old wf
    refine ⟨aboveOld.1, ?_⟩
    rw [dSb_dParent]
    exact aboveOld.2
  · obtain ⟨copy, rfl⟩ := peek_child wf isPeek
    unfold followMount
    cases found : s.lookupMnt (.child nd.dentry unit copy) with
    | none => exact old
    | some mnt =>
        have inside : mnt < s.mounts.length :=
          (List.findIdx?_eq_some_iff_findIdx_eq.mp found).1
        exact ⟨inside, inside⟩

theorem trace_addMount (wf : s.WellFormed) {nd : Path} (old : s.Old nd)
    {next : Option Path} (oldNext : ∀ place, next = some place → s.Old place)
    {units : List Name} (avoids : s.lookupMnt point.dentry = none →
      s.Avoids env point.dentry nd next units) :
    (s.addMount (some point) fs).trace env nd next units =
      s.trace env nd next units := by
  induction units generalizing nd next with
  | nil => rfl
  | cons unit units induction =>
      rw [trace, trace, seen_addMount wf old.2,
        glance_addMount wf old oldNext (fun bare => (avoids bare).1)]
      cases s.seen env nd.dentry with
      | none => rfl
      | some inode =>
          cases isGlance : s.glance env nd unit next with
          | none => rfl
          | some outcome =>
              cases outcome with
              | error ret => rfl
              | ok place =>
                  have placeOld := glance_old wf old isGlance
                  have oldPlace : ∀ other, some place = some other →
                      s.Old other := by
                    rintro _ ⟨⟩
                    exact placeOld
                  simp only [induction placeOld oldPlace
                    (fun bare => (avoids bare).2 place isGlance)]

end Added

theorem trace_append (nd : Path) (next : Option Path)
    (front rest : List Name) :
    s.trace env nd next (front ++ rest) =
      match s.trace env nd next front with
      | none => none
      | some (.error ret) => some (.error ret)
      | some (.ok place) =>
          s.trace env place (if front = [] then next else some place) rest := by
  induction front generalizing nd next with
  | nil => rfl
  | cons unit front induction =>
      rw [List.cons_append, trace, trace]
      cases s.seen env nd.dentry with
      | none => rfl
      | some inode =>
          by_cases isDir : inode.isDir = true
          · simp only [isDir, if_true]
            cases s.glance env nd unit next with
            | none => rfl
            | some outcome =>
                cases outcome with
                | error ret => rfl
                | ok place =>
                    simp only [induction]
                    by_cases isEmpty : front = []
                    · simp [isEmpty, trace]
                    · simp [isEmpty]
          · simp only [isDir]
            rfl

theorem trace_front {nd place : Path} {next : Option Path}
    {front rest : List Name}
    (traced : s.trace env nd next (front ++ rest) = some (.ok place)) :
    ∃ middle, s.trace env nd next front = some (.ok middle) ∧
      s.trace env middle (if front = [] then next else some middle) rest =
        some (.ok place) := by
  rw [trace_append] at traced
  split at traced
  · cases traced
  · cases traced
  · rename_i middle toMiddle
    exact ⟨middle, toMiddle, traced⟩

theorem cachedTrace_append {nd place : Path} {front rest : List Name}
    (traced : s.cachedTrace nd (front ++ rest) = some place) :
    ∃ middle, s.cachedTrace nd front = some middle ∧
      s.cachedTrace middle rest = some place := by
  induction front generalizing nd with
  | nil => exact ⟨nd, rfl, traced⟩
  | cons unit front induction =>
      obtain ⟨inode, first, isInode, isDir, step, rest⟩ :=
        cachedTrace_cons.mp traced
      obtain ⟨middle, toMiddle, toPlace⟩ := induction rest
      refine ⟨middle, ?_, toPlace⟩
      exact cachedTrace_cons.mpr
        ⟨inode, first, isInode, isDir, step, toMiddle⟩

theorem cachedTrace_name {nd place : Path} {name : Name}
    {units : List Name} (notDot : name ≠ dot) (notUp : name ≠ dotdot)
    (traced : s.cachedTrace nd (name :: units) = some place) :
    ∃ inode, s.inode nd.dentry = some inode ∧ inode.isDir = true ∧
      ∃ dentry, s.dLookup nd.dentry name = some dentry := by
  obtain ⟨inode, reached, isInode, isDir, step, -⟩ :=
    cachedTrace_cons.mp traced
  rw [cachedStep, if_neg notDot, if_neg notUp] at step
  obtain ⟨dentry, found, -⟩ := Option.map_eq_some_iff.mp step
  exact ⟨inode, isInode, isDir, dentry, found⟩

theorem trace_dots_same {nd place : Path} {next : Option Path}
    {dots : List Name} (isDots : ∀ unit ∈ dots, unit = dot)
    (traced : s.trace env nd next dots = some (.ok place)) :
    nd = place := by
  induction dots generalizing next with
  | nil =>
      cases traced
      rfl
  | cons unit dots induction =>
      obtain rfl := isDots unit List.mem_cons_self
      obtain ⟨-, later, -, -, isGlance, rest⟩ := trace_cons_ok traced
      rw [glance, if_pos rfl] at isGlance
      cases isGlance
      exact induction (fun unit member =>
        isDots unit (List.mem_cons_of_mem _ member)) rest

/-- In a directory, `.` leads nowhere else. -/
theorem trace_dots {nd : Path} {next : Option Path} {dots : List Name}
    (isDots : ∀ unit ∈ dots, unit = dot) {inode : Inode}
    (isInode : s.seen env nd.dentry = some inode) :
    s.trace env nd next dots = some (.ok nd) ↔
      (dots ≠ [] → inode.isDir = true) := by
  induction dots generalizing next with
  | nil => simp [trace]
  | cons unit dots induction =>
      obtain rfl := isDots unit List.mem_cons_self
      have rest : s.trace env nd (some nd) dots = some (.ok nd) ↔ _ :=
        induction (fun unit member =>
          isDots unit (List.mem_cons_of_mem _ member))
      rw [trace, isInode]
      by_cases isDir : inode.isDir = true
      · simp only [isDir, if_true, implies_true, iff_true] at rest ⊢
        exact rest
      · simp [isDir]

/-- A walk over known dentries avoids what the same walk avoided before. -/
theorem avoids_of_cachedTrace (grown : Grown env s later)
    (wf : s.WellFormed) (laterWf : later.WellFormed) (other : Env)
    {point : Dentry} {nd place : Path} (valid : later.Valid nd)
    {next : Option Path} {units : List Name}
    (isSet : units.head? = some dotdot → next = some nd)
    (traced : later.cachedTrace nd units = some place)
    (avoids : s.Avoids env point nd next units) :
    later.Avoids other point nd next units := by
  induction units generalizing nd next with
  | nil => trivial
  | cons unit units induction =>
      have setUnit : unit = dotdot → next = some nd :=
        fun isUp => isSet (congrArg some isUp)
      obtain ⟨-, first, -, -, step, rest⟩ := cachedTrace_cons.mp traced
      obtain ⟨isGlance, firstValid⟩ :=
        glance_of_cachedStep laterWf env valid setUnit step
      have otherGlance :=
        (glance_of_cachedStep laterWf other valid setUnit step).1
      rw [grown.glance wf laterWf] at isGlance
      constructor
      · intro notDot notUp isPoint
        rw [cachedStep, if_neg notDot, if_neg notUp] at step
        obtain ⟨dentry, found, -⟩ := Option.map_eq_some_iff.mp step
        rw [peek_of_dLookup found] at isPoint
        cases isPoint
        exact avoids.1 notDot notUp (grown.found _ _ _ found)
      · intro reached isReached
        rw [otherGlance] at isReached
        cases isReached
        exact induction firstValid (fun _ => rfl) rest
          (avoids.2 first isGlance)

/-- The first name of a walk that leads to the dentry, and what is before and
behind it. -/
structure FirstAt (env : Env) (s : State) (point : Dentry) (nd : Path)
    (next : Option Path) (units front : List Name) (name : Name)
    (rest : List Name) : Prop where
  split : units = front ++ name :: rest
  avoids : s.Avoids env point nd next front
  notDot : name ≠ dot
  notUp : name ≠ dotdot
  leads : ∃ place, s.trace env nd next front = some (.ok place) ∧
    s.peek env place.dentry name = some (.ok point)

theorem FirstAt.cons {point : Dentry} {nd later : Path} {next : Option Path}
    {units front rest : List Name} {unit name : Name} {inode : Inode}
    (isInode : s.seen env nd.dentry = some inode)
    (isDir : inode.isDir = true)
    (isGlance : s.glance env nd unit next = some (.ok later))
    (other : unit ≠ dot → unit ≠ dotdot →
      s.peek env nd.dentry unit ≠ some (.ok point))
    (first : FirstAt env s point later (some later) units front name rest) :
    FirstAt env s point nd next (unit :: units) (unit :: front) name
      rest := by
  obtain ⟨split, avoids, notDot, notUp, place, toPlace, isPeek⟩ := first
  refine ⟨by rw [split, List.cons_append], ⟨other, ?_⟩, notDot, notUp, place,
    ?_, isPeek⟩
  · intro place isPlace
    rw [isGlance] at isPlace
    cases isPlace
    exact avoids
  · rw [trace, isInode]
    simp only [isDir, if_true, isGlance]
    exact toPlace

theorem Avoids.not_leads {point : Dentry} {nd place : Path}
    {next : Option Path} {front rest : List Name} {name : Name}
    (avoids : s.Avoids env point nd next (front ++ name :: rest))
    (notDot : name ≠ dot) (notUp : name ≠ dotdot)
    (traced : s.trace env nd next front = some (.ok place)) :
    s.peek env place.dentry name ≠ some (.ok point) := by
  induction front generalizing nd next with
  | nil =>
      cases traced
      exact avoids.1 notDot notUp
  | cons unit front induction =>
      obtain ⟨-, later, -, -, isGlance, toPlace⟩ := trace_cons_ok traced
      exact induction (avoids.2 later isGlance) toPlace

theorem exists_firstAt {point : Dentry} {nd place : Path}
    {next : Option Path} {units : List Name}
    (traced : s.trace env nd next units = some (.ok place))
    (comes : ¬s.Avoids env point nd next units) :
    ∃ front name rest,
      FirstAt env s point nd next units front name rest := by
  induction units generalizing nd next with
  | nil => exact absurd trivial comes
  | cons unit units induction =>
      obtain ⟨inode, later, isInode, isDir, isGlance, rest⟩ :=
        trace_cons_ok traced
      by_cases here : unit ≠ dot ∧ unit ≠ dotdot ∧
          s.peek env nd.dentry unit = some (.ok point)
      · obtain ⟨notDot, notUp, isPeek⟩ := here
        exact ⟨[], unit, units, rfl, trivial, notDot, notUp, nd, rfl, isPeek⟩
      · have other : unit ≠ dot → unit ≠ dotdot →
            s.peek env nd.dentry unit ≠ some (.ok point) :=
          fun notDot notUp isPeek => here ⟨notDot, notUp, isPeek⟩
        have laterComes : ¬s.Avoids env point later (some later) units := by
          intro avoids
          apply comes
          refine ⟨other, ?_⟩
          intro place isPlace
          rw [isGlance] at isPlace
          cases isPlace
          exact avoids
        obtain ⟨front, name, behind, first⟩ := induction rest laterComes
        exact ⟨unit :: front, name, behind,
          first.cons isInode isDir isGlance other⟩

/-- The root of the file system that is mounted next. -/
def newRoot (s : State) : Path :=
  ⟨s.mounts.length, .root s.mounts.length⟩

/-- The last component of a path other than `.`, and what is before it. -/
def Ends (path : List UInt8) (front : List Name) (last : Name)
    (dots : List Name) : Prop :=
  units path = front ++ last :: dots ∧ (∀ unit ∈ dots, unit = dot) ∧
    last ≠ dot

theorem exists_ends (names : List Name) :
    (∀ unit ∈ names, unit = dot) ∨
      ∃ front last dots, names = front ++ last :: dots ∧
        (∀ unit ∈ dots, unit = dot) ∧ last ≠ dot := by
  induction names with
  | nil => exact .inl (by simp)
  | cons unit names induction =>
      rcases induction with isDots | ⟨front, last, dots, rfl, isDots, notDot⟩
      · by_cases isDot : unit = dot
        · left
          intro other member
          rcases List.mem_cons.mp member with rfl | inRest
          · exact isDot
          · exact isDots other inRest
        · exact .inr ⟨[], unit, names, rfl, isDots, isDot⟩
      · exact .inr ⟨unit :: front, last, dots, rfl, isDots, notDot⟩

/-- If no name before the last one leads to the dentry, the first one that
does is the last one. -/
theorem FirstAt.ends {point : Dentry} {nd : Path} {next : Option Path}
    {path : List UInt8} {front rest before dots : List Name}
    {name last : Name}
    (first : FirstAt env s point nd next (units path) front name rest)
    (ends : Ends path before last dots)
    (avoids : s.Avoids env point nd next before) :
    rest = dots ∧ name = last ∧ front = before := by
  obtain ⟨split, -, notDot, notUp, place, toPlace, isPeek⟩ := first
  obtain ⟨splitLast, isDots, -⟩ := ends
  rw [split] at splitLast
  rcases List.append_eq_append_iff.mp splitLast with
    ⟨middle, isBefore, same⟩ | ⟨middle, isFront, same⟩
  · cases middle with
    | nil =>
        cases same
        exact ⟨rfl, rfl, by simp [isBefore]⟩
    | cons unit middle =>
        cases same
        rw [isBefore] at avoids
        exact absurd isPeek (avoids.not_leads notDot notUp toPlace)
  · cases middle with
    | nil =>
        cases same
        exact ⟨rfl, rfl, by simp [isFront]⟩
    | cons unit middle =>
        cases same
        exact absurd (isDots name (by simp)) notDot

/-- A walk that ends with a name comes upon the dentry where it ends. -/
theorem firstAt_of_ends {start nd : Path} {path : List UInt8}
    {front dots : List Name} {last : Name}
    (leads : s.trace env start none (units path) = some (.ok nd))
    (notRoot : ∀ mnt, nd.dentry ≠ .root mnt)
    (ends : Ends path front last dots) (notUp : last ≠ dotdot)
    (avoids : s.Avoids env nd.dentry start none front) :
    s.lookupMnt nd.dentry = none ∧
      FirstAt env s nd.dentry start none (units path) front last dots := by
  obtain ⟨split, isDots, notDot⟩ := ends
  rw [split] at leads
  obtain ⟨place, toPlace, toLast⟩ := trace_front leads
  obtain ⟨-, later, -, -, isGlance, toEnd⟩ := trace_cons_ok toLast
  obtain rfl := trace_dots_same isDots toEnd
  obtain ⟨dentry, isPeek, isLater⟩ := glance_name notDot notUp isGlance
  cases mounted : s.lookupMnt dentry with
  | some mnt =>
      simp only [followMount, mounted] at isLater
      rw [isLater] at notRoot
      exact absurd rfl (notRoot mnt)
  | none =>
      simp only [followMount, mounted] at isLater
      rw [isLater] at avoids ⊢
      exact ⟨mounted, split, avoids, notDot, notUp, place, toPlace, isPeek⟩

section Visible

variable {walked : State} {path : List UInt8} {nd : Path}

theorem start_addMount (grown : Grown env s walked) (fs : FileSystem)
    (other : List UInt8) :
    (walked.addMount (some nd) fs).start other = s.start other := by
  have sameRoot : (walked.addMount (some nd) fs).root = s.root := grown.root
  have samePwd : (walked.addMount (some nd) fs).pwd = s.pwd := grown.pwd
  unfold start
  rw [sameRoot, samePwd]

theorem old_start (grown : Grown env s walked) (wf : s.WellFormed)
    (other : List UInt8) : walked.Old (s.start other) := by
  rw [Old, grown.mounts]
  exact (wf.valid_start other).old wf

theorem old_none : ∀ place, (none : Option Path) = some place →
    s.Old place := by
  intro place isSome
  cases isSome

theorem pathWalk_addMount (wf : s.WellFormed)
    (walk : s.pathWalk env path = some (walked, .ok nd)) (fs : FileSystem)
    {other : List UInt8} (avoids : s.lookupMnt nd.dentry = none →
      s.Avoids env nd.dentry (s.start other) none (units other)) :
    ((walked.addMount (some nd) fs).pathWalk env other).map Prod.snd =
      (s.pathWalk env other).map Prod.snd := by
  obtain ⟨grown, walkedWf, valid⟩ :=
    (pathWalk_follows wf env path).2 _ _ walk
  have finalWf := walkedWf.addMount (valid nd rfl) fs
  rw [(pathWalk_follows finalWf env other).1,
    (pathWalk_follows wf env other).1, pathTrace, pathTrace,
    start_addMount grown, trace_addMount walkedWf (old_start grown wf other)
      old_none, grown.trace wf walkedWf]
  rw [grown.lookupMnt]
  exact fun bare => grown.avoids wf walkedWf (avoids bare)

/-- From the first name that leads to the mount point on, a path is taken from
the root of the new mount. -/
theorem trace_enters (wf : s.WellFormed)
    (walk : s.pathWalk env path = some (walked, .ok nd)) (fs : FileSystem)
    (other : Env) (set : (units path).head? ≠ some dotdot)
    (bare : s.lookupMnt nd.dentry = none)
    {front rest : List Name} {name : Name}
    (first : FirstAt env s nd.dentry (s.start path) none (units path) front
      name rest) :
    (walked.addMount (some nd) fs).trace other (s.start path) none
        (units path) =
      (walked.addMount (some nd) fs).trace other s.newRoot (some s.newRoot)
        rest := by
  obtain ⟨grown, walkedWf, valid⟩ :=
    (pathWalk_follows wf env path).2 _ _ walk
  obtain ⟨split, avoids, notDot, notUp, start, toStart, isPeek⟩ := first
  have startValid := wf.valid_start path
  have walkedStart : walked.Valid (s.start path) :=
    ⟨grown.here startValid.1, startValid.2⟩
  have known := cachedTrace_of_walk wf startValid
    (fun isUp => absurd isUp set) walk
  rw [split] at known set ⊢
  obtain ⟨place, toPlace, toEnd⟩ := cachedTrace_append known
  have frontSet : front.head? = some dotdot →
      none = some (s.start path) := by
    intro isUp
    rw [List.head?_append, isUp] at set
    exact absurd rfl set
  -- The walk before the mount took the same way.
  obtain rfl : start = place := by
    have same :=
      (trace_of_cachedTrace walkedWf env walkedStart frontSet toPlace).1
    rw [grown.trace wf walkedWf, toStart] at same
    cases same
    rfl
  obtain ⟨frontTrace, placeValid⟩ :=
    trace_of_cachedTrace walkedWf other walkedStart frontSet toPlace
  have frontAvoids := avoids_of_cachedTrace grown wf walkedWf other
    walkedStart frontSet toPlace avoids
  have placeOld := placeValid.old walkedWf
  obtain ⟨inode, isInode, isDir, found⟩ :=
    cachedTrace_name notDot notUp toEnd
  rw [trace_append, trace_addMount walkedWf (old_start grown wf path)
    old_none (fun _ => frontAvoids), frontTrace]
  simp only
  rw [trace, seen_addMount walkedWf placeOld.2,
    seen_of_here placeValid.1, isInode]
  have isGlance : (walked.addMount (some nd) fs).glance other start name
      (if front = [] then none else some start) = some (.ok s.newRoot) := by
    obtain ⟨dentry, isFound⟩ := found
    obtain rfl : nd.dentry = dentry := by
      have same := grown.found _ _ _ isFound
      rw [isPeek] at same
      cases same
      rfl
    rw [glance, if_neg notDot, if_neg notUp,
      peek_addMount walkedWf placeOld.2, peek_of_dLookup isFound]
    simp only [followMount, lookupMnt_addMount, grown.lookupMnt, bare,
      Option.none_or, if_true, grown.mounts, newRoot]
  simp only [isDir, if_true, isGlance]

/-- With a test on a `next` that was never set, the walk may not return. -/
theorem trace_unset {units : List Name} (isUp : units.head? = some dotdot)
    (noTest : env.unset = none) (nd place : Path) :
    s.trace env nd none units ≠ some (.ok place) := by
  cases units with
  | nil => cases isUp
  | cons unit units =>
      cases isUp
      have notDot : dotdot ≠ dot := by decide
      have noGlance : s.glance env nd dotdot none = none := by
        rw [glance, if_neg notDot, if_pos rfl, leaves, noTest]
      rw [trace, noGlance]
      intro leads
      split at leads
      · cases leads
      · split at leads
        · cases leads
        · cases leads

end Visible

/-- A path by which a new mount is entered.  One of its names leads to the
mount point, where no other mount is, and what is behind the first such name
leads from the new root back to it.  The first component may not be `..`. -/
structure Enters (env : Env) (s final : State) (path : List UInt8)
    (nd : Path) : Prop where
  set : (units path).head? ≠ some dotdot
  bare : s.lookupMnt nd.dentry = none
  byName : ∃ front name rest,
    FirstAt env s nd.dentry (s.start path) none (units path) front name
      rest ∧
    ∀ other, final.trace other s.newRoot (some s.newRoot) rest =
      some (.ok s.newRoot)

/-- A path that leads to a directory by its last component other than `.`,
which is a name, and not to the root of a mount.  The first one may not be
`..`, and if `.` is behind the name the new root must be a directory. -/
structure LeadsByName (path : List UInt8) (nd : Path) (root : Inode) :
    Prop where
  set : (units path).head? ≠ some dotdot
  notRoot : ∀ mnt, nd.dentry ≠ .root mnt
  byName : ∃ front last dots, Ends path front last dots ∧
    last ≠ dotdot ∧ (dots ≠ [] → root.isDir = true)

section Visible

variable {walked : State} {path : List UInt8} {nd : Path}

theorem visible_iff_enters (wf : s.WellFormed)
    (walk : s.pathWalk env path = some (walked, .ok nd)) (fs : FileSystem) :
    ((∀ other, ((walked.addMount (some nd) fs).pathWalk other path).map
        Prod.snd = some (.ok s.newRoot)) ∧
      ∀ other, s.Avoids env nd.dentry (s.start other) none (units other) →
        ((walked.addMount (some nd) fs).pathWalk env other).map Prod.snd =
          (s.pathWalk env other).map Prod.snd) ↔
      Enters env s (walked.addMount (some nd) fs) path nd := by
  have follows := pathWalk_follows wf env path
  have leads : some (.ok nd) = s.pathTrace env path := by
    rw [← follows.1, walk]
    rfl
  obtain ⟨grown, walkedWf, valid⟩ := follows.2 _ _ walk
  have finalWf := walkedWf.addMount (valid nd rfl) fs
  have isTrace (other : Env) :
      ((walked.addMount (some nd) fs).pathWalk other path).map Prod.snd =
        (walked.addMount (some nd) fs).trace other (s.start path) none
          (units path) := by
    rw [(pathWalk_follows finalWf other path).1, pathTrace,
      start_addMount grown]
  constructor
  · rintro ⟨visible, -⟩
    -- A walk to the mount point that is not led into the new mount stays.
    have hidden : ¬(s.lookupMnt nd.dentry = none →
        s.Avoids env nd.dentry (s.start path) none (units path)) := by
      intro avoids
      have same := visible env
      rw [pathWalk_addMount wf walk fs avoids, follows.1, ← leads] at same
      have isNew : nd = s.newRoot := by
        cases same
        rfl
      have below := ((valid nd rfl).old walkedWf).1
      rw [isNew, grown.mounts] at below
      exact Nat.lt_irrefl _ below
    obtain ⟨bare, comes⟩ := Classical.not_imp.mp hidden
    have set : (units path).head? ≠ some dotdot := by
      intro isUp
      have noReturn := visible { env with unset := none }
      rw [isTrace] at noReturn
      exact trace_unset isUp rfl _ _ noReturn
    obtain ⟨front, name, rest, first⟩ := exists_firstAt leads.symm comes
    refine ⟨set, bare, front, name, rest, first, ?_⟩
    intro other
    rw [← trace_enters wf walk fs other set bare first, ← isTrace]
    exact visible other
  · rintro ⟨set, bare, front, name, rest, first, back⟩
    constructor
    · intro other
      rw [isTrace, trace_enters wf walk fs other set bare first]
      exact back other
    · intro other avoids
      exact pathWalk_addMount wf walk fs (fun _ => avoids)

theorem enters_iff_leadsByName (wf : s.WellFormed)
    (leads : s.pathTrace env path = some (.ok nd)) {final : State}
    {root : Inode}
    (isRoot : ∀ other, final.seen other s.newRoot.dentry = some root)
    (before : ∀ front last dots, Ends path front last dots →
      s.Avoids env nd.dentry (s.start path) none front) :
    Enters env s final path nd ↔ LeadsByName path nd root := by
  constructor
  · rintro ⟨set, -, front, name, rest, first, back⟩
    have notRoot : ∀ mnt, nd.dentry ≠ .root mnt := by
      intro mnt isMnt
      obtain ⟨place, -, isPeek⟩ := first.leads
      obtain ⟨copy, isChild⟩ := peek_child wf isPeek
      rw [isMnt] at isChild
      cases isChild
    rcases exists_ends (units path) with
      isDots | ⟨earlier, last, dots, split, isDots, notDot⟩
    · have member : name ∈ units path := by simp [first.split]
      exact absurd (isDots name member) first.notDot
    have ends : Ends path earlier last dots := ⟨split, isDots, notDot⟩
    obtain ⟨rfl, rfl, -⟩ := first.ends ends (before _ _ _ ends)
    refine ⟨set, notRoot, earlier, name, rest, ends, first.notUp, ?_⟩
    exact (trace_dots isDots (isRoot env)).mp (back env)
  · rintro ⟨set, notRoot, front, last, dots, ends, notUp, isDir⟩
    obtain ⟨bare, first⟩ := firstAt_of_ends leads notRoot ends notUp
      (before _ _ _ ends)
    refine ⟨set, bare, front, last, dots, first, ?_⟩
    intro other
    exact (trace_dots ends.2.1 (isRoot other)).mpr isDir

end Visible

/-- After a mount its path leads to it exactly if the mount is entered by it.
Paths that do not lead there are taken as before.  If no earlier name leads to
the mount point, only the form of the path and the new root matter. -/
theorem sysMount_visible_iff (s : State) (reachable : Reachable s)
    (env : Env) (devName : Option Name) (path : List UInt8)
    (type : Option Name) (final : State)
    (returned : s.sysMount env devName path type = some (final, 0))
    (nd : Path) (leads : s.pathTrace env path = some (.ok nd)) :
    (((∀ other, (final.pathWalk other path).map Prod.snd =
        some (.ok s.newRoot)) ∧
      ∀ other, s.Avoids env nd.dentry (s.start other) none (units other) →
        (final.pathWalk env other).map Prod.snd =
          (s.pathWalk env other).map Prod.snd) ↔
      Enters env s final path nd) ∧
    ∀ root, final.inode (.root s.mounts.length) = some root →
      (∀ front last dots, Ends path front last dots →
        s.Avoids env nd.dentry (s.start path) none front) →
      (Enters env s final path nd ↔ LeadsByName path nd root) := by
  have wf := reachable.wellFormed
  rcases sysMount_cases wf returned with
    ⟨negative, -⟩ | ⟨-, walked, point, fs, walk, rfl⟩
  · exact absurd negative (by decide)
  obtain rfl : point = nd := by
    have same := (pathWalk_follows wf env path).1
    rw [walk, leads] at same
    cases same
    rfl
  refine ⟨visible_iff_enters wf walk fs, ?_⟩
  intro root isRoot before
  exact enters_iff_leadsByName wf leads (fun _ => isRoot) before

/-- A second file system in memory on `/a`. -/
def treeWithMount : State :=
  treeWithA.addMount (some ⟨0, .child (.root 0) [97] 0⟩) .ramfs

theorem sysMount_visible_iff_a :
    (treeWithMount.pathWalk (roomy none) [47, 97]).map Prod.snd =
      some (.ok ⟨1, .root 1⟩) := by
  have before : ∀ front last dots, Ends [47, 97] front last dots →
      treeWithA.Avoids (roomy none) (.child (.root 0) [97] 0)
        (treeWithA.start [47, 97]) none front := by
    rintro front last dots ⟨split, -, -⟩
    cases front with
    | nil => trivial
    | cons unit front => simp [units, unitsFrom, slash] at split
  have byName : LeadsByName [47, 97] ⟨0, .child (.root 0) [97] 0⟩
      ⟨3, 0, true⟩ := by
    refine ⟨by decide, ?_, [], [97], [], ⟨rfl, ?_, by decide⟩, by decide,
      ?_⟩
    · intro mnt isRoot
      cases isRoot
    · intro unit member
      cases member
    · exact fun not => absurd rfl not
  have iffs := sysMount_visible_iff treeWithA treeWithA_reachable
    (roomy none) none [47, 97] (some ramfsName) treeWithMount rfl
    ⟨0, .child (.root 0) [97] 0⟩ rfl
  have enters := (iffs.2 ⟨3, 0, true⟩ rfl before).mpr byName
  exact (iffs.1.mpr enters).1 (roomy none)

/-- A file system mounted on `/` is not entered. -/
theorem sysMount_not_visible_root :
    ¬∀ (s : State), Reachable s → ∀ env devName path type final,
      s.sysMount env devName path type = some (final, 0) →
        ∀ other, (final.pathWalk other path).map Prod.snd =
          some (.ok ⟨s.mounts.length, .root s.mounts.length⟩) := by
  intro always
  have wrong := always (mountRoot .ramfs) (.start .ramfs) (roomy none) none
    [slash] (some ramfsName)
    ((mountRoot .ramfs).addMount (some ⟨0, .root 0⟩) .ramfs) rfl (roomy none)
  cases wrong

end Witos.Vfs.State
