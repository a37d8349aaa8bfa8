import Witos.Fs.Lookup
import Witos.Vfs.Runs

/-!
# Names that exist

`real_lookup` adds a dentry and relies on the file system to fail if the name
does not exist.  `ramfs_lookup` returns 0 for every name, so a name that is
looked up in a directory in memory gets a dentry without an inode.  On a disk
the name exists if the directory is in order.
-/

namespace Witos.Vfs

open Fs (SuperBlock Ext4SuperBlock)

/-- A mounted ext2 volume, with the bytes of its disk.  Nobody writes to the
disk, so the inode of a directory in memory is what reading it again gives. -/
def ext2Volume (sb : SuperBlock) (disk : Nat → UInt8) : Volume where
  rootInode :=
    let e2In := Fs.ext2InodeBytes sb 2
    ⟨2, (Fs.Inode.ofBytes e2In).iSize,
      Fs.isDir (Library.leValue (e2In.take 2))⟩
  holds := Fs.Ext2Holds sb disk
  lookup := fun scratch dir =>
    Fs.ext2Lookup sb scratch (Fs.ext2GetInode sb dir.iNo)
  negative := fun _ _ _ _ failed => Fs.lookup_error failed
  noRoom := by
    intro scratch dir name inode noRoom isOk
    rw [Fs.ext2Lookup_room isOk] at noRoom
    cases noRoom

/-- A mounted ext4 volume; `heap` is what the memory for the inode of the root
held before. -/
def ext4Volume (sb : Ext4SuperBlock) (heap disk : Nat → UInt8) :
    Volume where
  rootInode :=
    let e4In := Fs.ext4GetInode sb heap 2
    ⟨2, Fs.word e4In 4, Fs.isDir (Fs.half e4In 0)⟩
  holds := Fs.Ext4Holds sb disk
  lookup := fun scratch dir =>
    Fs.ext4Lookup sb scratch (Fs.ext4GetInode sb scratch.heap dir.iNo)
  negative := fun _ _ _ _ failed => Fs.lookup_error failed
  noRoom := by
    intro scratch dir name inode noRoom isOk
    rw [Fs.ext4Lookup_room isOk] at noRoom
    cases noRoom

/-- A lookup in a directory on a disk that is in order. -/
inductive SoundLookup (scratch : Scratch) (dir : Inode) (name : Name) :
    FileSystem → Prop
  | ext2 {sb : SuperBlock} {disk : Nat → UInt8} :
      Fs.Ext2Sound sb disk scratch dir name →
      SoundLookup scratch dir name (.disk (ext2Volume sb disk))
  | ext4 {sb : Ext4SuperBlock} {heap disk : Nat → UInt8} :
      Fs.Ext4Sound sb disk scratch dir name →
      SoundLookup scratch dir name (.disk (ext4Volume sb heap disk))

theorem SoundLookup.holds {scratch : Scratch} {dir inode : Inode}
    {name : Name} {volume : Volume}
    (sound : SoundLookup scratch dir name (.disk volume))
    (isOk : volume.lookup scratch dir name = some (.ok inode)) :
    volume.holds dir name := by
  cases sound with
  | ext2 sound => exact sound.found isOk
  | ext4 sound => exact sound.found isOk

namespace State

/-- The directory has an object of the name: in memory a dentry with an inode,
on a disk a record. -/
def Names (s : State) (dentry : Dentry) (name : Name) : Prop :=
  match s.fs dentry with
  | some (.disk volume) =>
      ∃ dir, s.inode dentry = some dir ∧ volume.holds dir name
  | _ => ∃ child ∈ s.subdirs dentry, child.dName = name ∧
      s.inode child ≠ none

/-- A name that a walk or a listing of the directory can come upon. -/
def Visible (s : State) (dentry : Dentry) (name : Name) : Prop :=
  (∃ child ∈ s.subdirs dentry, child.dName = name) ∨ s.Names dentry name

/-- Every component of a walk is one of the two dots or names an object of the
directory that the components before it lead to. -/
def ComponentsExist (env : Env) (s : State) (path : List UInt8) : Prop :=
  ∀ before unit after, units path = before ++ unit :: after →
    ∃ middle nd, s.walk env (s.start path) none before =
        some (middle, .ok nd) ∧
      (unit = dot ∨ unit = dotdot ∨ middle.Names nd.dentry unit)

/-- A component that does not need a new dentry, or is looked up in a
directory on a disk that is in order. -/
def CarefulStep (env : Env) (s : State) (nd : Path) (name : Name) : Prop :=
  name ≠ dot → name ≠ dotdot → s.dLookup nd.dentry name = none →
    ∀ dir, s.inode nd.dentry = some dir →
      ∃ fs, s.fs nd.dentry = some fs ∧
        SoundLookup (env.scratch (.child nd.dentry name 0)) dir name fs

def CarefulWalk (env : Env) (s : State) (nd : Path) (next : Option Path) :
    List Name → Prop
  | [] => True
  | unit :: units =>
      s.CarefulStep env nd unit ∧
        ∀ later place,
          s.doLookup env nd unit next = some (later, .ok place) →
            CarefulWalk env later place (some place) units

def CarefulPath (env : Env) (s : State) (path : List UInt8) : Prop :=
  s.CarefulWalk env (s.start path) none (units path)

def CarefulCall (env : Env) (s : State) : Call → Prop
  | .mkdir _ => True
  | .chdir path => s.CarefulPath env path
  | .mount _ path _ => s.CarefulPath env path
  | .walk path => s.CarefulPath env path

/-- The states careful calls lead to. -/
inductive CarefulRun : State → Prop
  | start (fs : FileSystem) : CarefulRun (mountRoot fs)
  | step {s final : State} {env : Env} {call : Call} {ret : Int} :
      CarefulRun s → s.CarefulCall env call →
      s.perform env call = some (final, ret) → CarefulRun final

theorem CarefulRun.wellFormed {s : State} (run : CarefulRun s) :
    s.WellFormed := by
  induction run with
  | start fs => exact mountRoot_wellFormed fs
  | step _ _ returned induction => exact perform_wellFormed induction returned

/-- Every dentry has an inode, and every dentry on a disk the name of a
record. -/
structure AllExist (s : State) : Prop where
  inode : ∀ dentry, s.Here dentry → s.inode dentry ≠ none
  held : ∀ parent, ∀ child ∈ s.subdirs parent, ∀ volume dir,
    s.fs parent = some (.disk volume) → s.inode parent = some dir →
      volume.holds dir child.dName

section Invariant

variable {env : Env} {s : State}

theorem realLookup_cases (wf : s.WellFormed) {parent : Dentry} {name : Name}
    (missing : s.dLookup parent name = none) {final : State}
    {result : Except Int Dentry}
    (returned : s.realLookup env parent name = some (final, result)) :
    (final = s ∧ ∃ ret, result = .error ret) ∨
      ∃ dir inode, s.inode parent = some dir ∧
        s.iLookup env dir (.child parent name 0) = some (.ok inode) ∧
        final = s.adopt parent name inode := by
  unfold realLookup at returned
  simp only at returned
  split at returned
  · split at returned
    · cases returned
    · rename_i dir isDir
      split at returned
      · cases returned
      · cases returned
        exact .inl ⟨dAlloc_dput wf parent name, _, rfl⟩
      · rename_i inode answer
        cases returned
        rw [newDentry_of_dLookup missing] at answer
        exact .inr ⟨dir, inode, isDir, answer, rfl⟩
  · cases returned

theorem doLookup_cases (wf : s.WellFormed) {nd : Path} {name : Name}
    {next : Option Path} {final : State}
    {result : Except Int Path}
    (step : s.doLookup env nd name next = some (final, result)) :
    final = s ∨ name ≠ dot ∧ name ≠ dotdot ∧
      s.dLookup nd.dentry name = none ∧ ∃ dir inode,
        s.inode nd.dentry = some dir ∧
        s.iLookup env dir (.child nd.dentry name 0) = some (.ok inode) ∧
        final = s.adopt nd.dentry name inode := by
  unfold doLookup at step
  split at step
  · cases step
    exact .inl rfl
  · rename_i notDot
    split at step
    · split at step
      · cases step
      · split at step
        · cases step
        · cases step
          exact .inl rfl
    · rename_i notUp
      split at step
      · cases step
        exact .inl rfl
      · rename_i missing
        split at step
        · cases step
        · rename_i isError
          cases step
          rcases realLookup_cases wf missing isError with
            ⟨same, -⟩ | adopted
          · exact .inl same
          · exact .inr ⟨notDot, notUp, missing, adopted⟩
        · rename_i isOk
          cases step
          rcases realLookup_cases wf missing isOk with
            ⟨-, ret, isError⟩ | adopted
          · cases isError
          · exact .inr ⟨notDot, notUp, missing, adopted⟩

theorem CarefulStep.exists {nd : Path} {name : Name}
    (careful : s.CarefulStep env nd name) (notDot : name ≠ dot)
    (notUp : name ≠ dotdot) (missing : s.dLookup nd.dentry name = none)
    {dir : Inode} (isDir : s.inode nd.dentry = some dir)
    {inode : Option Inode}
    (answer : s.iLookup env dir (.child nd.dentry name 0) =
      some (.ok inode)) :
    inode ≠ none ∧ ∃ volume, s.fs nd.dentry = some (.disk volume) ∧
      volume.holds dir name := by
  obtain ⟨fs, isFs, sound⟩ := careful notDot notUp missing dir isDir
  cases fs with
  | ramfs => cases sound
  | disk volume =>
      have childDisk : s.fs (.child nd.dentry name 0) =
          some (.disk volume) := isFs
      obtain ⟨found, rfl, isOk⟩ := iLookup_ok childDisk answer
      exact ⟨Option.some_ne_none found, volume, isFs, sound.holds isOk⟩

theorem AllExist.adopt (wf : s.WellFormed) (all : s.AllExist)
    {parent : Dentry} (here : s.Here parent) {name : Name}
    {inode : Option Inode} (isObject : inode ≠ none)
    (held : ∀ volume dir, s.fs parent = some (.disk volume) →
      s.inode parent = some dir → volume.holds dir name) :
    (s.adopt parent name inode).AllExist where
  inode := by
    intro dentry hereNow
    rw [inode_adopt wf]
    split
    · exact isObject
    · rename_i isOld
      exact all.inode dentry
        (((here_adopt wf).mp hereNow).resolve_right isOld)
  held := by
    intro other child member volume dir isDisk isDir
    have old : other ≠ s.newDentry parent name := by
      rintro rfl
      rcases (mem_subdirs_adopt wf).mp member with before | ⟨same, -⟩
      · exact wf.newDentry_notMem (wf.here_of_subdirs before)
      · exact newDentry_ne_parent same
    rw [inode_adopt wf, if_neg old] at isDir
    rcases (mem_subdirs_adopt wf).mp member with before | ⟨rfl, rfl⟩
    · exact all.held other child before volume dir isDisk isDir
    · exact held volume dir isDisk isDir

theorem AllExist.doLookup (wf : s.WellFormed) (all : s.AllExist)
    {nd : Path} (valid : s.Valid nd) {name : Name}
    (careful : s.CarefulStep env nd name) {next : Option Path}
    {final : State} {result : Except Int Path}
    (step : s.doLookup env nd name next = some (final, result)) :
    final.AllExist := by
  rcases doLookup_cases wf step with
    rfl | ⟨notDot, notUp, missing, dir, inode, isDir, answer, rfl⟩
  · exact all
  · obtain ⟨isObject, volume, isDisk, holds⟩ :=
      careful.exists notDot notUp missing isDir answer
    apply all.adopt wf valid.1 isObject
    intro other otherDir isOther isOtherDir
    rw [isDisk] at isOther
    rw [isDir] at isOtherDir
    cases isOther
    cases isOtherDir
    exact holds

theorem walk_cons {nd : Path} {next : Option Path} {unit : Name}
    {units : List Name} {final : State} {result : Except Int Path}
    (walked : s.walk env nd next (unit :: units) = some (final, result)) :
    (final = s ∧ ∃ ret, result = .error ret) ∨
      (∃ ret, s.doLookup env nd unit next = some (final, .error ret) ∧
        result = .error ret) ∨
      ∃ later place, s.doLookup env nd unit next = some (later, .ok place) ∧
        later.walk env place (some place) units = some (final, result) ∧
        ∀ others, s.walk env nd next (unit :: others) =
          later.walk env place (some place) others := by
  rw [walk] at walked
  split at walked
  · cases walked
  · rename_i inode isInode
    split at walked
    · rename_i isDir
      split at walked
      · cases walked
      · rename_i isError
        cases walked
        exact .inr (.inl ⟨_, isError, rfl⟩)
      · rename_i isOk
        refine .inr (.inr ⟨_, _, isOk, walked, ?_⟩)
        intro others
        simp only [walk, isInode, isDir, if_true, isOk]
    · cases walked
      exact .inl ⟨rfl, _, rfl⟩

theorem doLookup_kept (wf : s.WellFormed) {nd : Path} (valid : s.Valid nd)
    {name : Name} {next : Option Path} {final : State}
    {result : Except Int Path}
    (step : s.doLookup env nd name next = some (final, result)) :
    final.WellFormed ∧ ∀ place, result = .ok place → final.Valid place :=
  ((doLookup_follows (Grown.refl env s) wf valid name next).2 _ _ step).2

theorem AllExist.walk (wf : s.WellFormed) (all : s.AllExist) {nd : Path}
    (valid : s.Valid nd) {next : Option Path} {units : List Name}
    (careful : s.CarefulWalk env nd next units) {final : State}
    {result : Except Int Path}
    (walked : s.walk env nd next units = some (final, result)) :
    final.AllExist := by
  induction units generalizing s nd next with
  | nil =>
      cases walked
      exact all
  | cons unit units induction =>
      rcases walk_cons walked with
        ⟨rfl, -⟩ | ⟨ret, step, -⟩ | ⟨later, place, step, rest, -⟩
      · exact all
      · exact all.doLookup wf valid careful.1 step
      · have laterAll := all.doLookup wf valid careful.1 step
        obtain ⟨laterWf, placeValid⟩ := doLookup_kept wf valid step
        exact induction laterWf laterAll (placeValid place rfl)
          (careful.2 later place step) rest

theorem AllExist.pathWalk (wf : s.WellFormed) (all : s.AllExist)
    {path : List UInt8} (careful : s.CarefulPath env path) {final : State}
    {result : Except Int Path}
    (walked : s.pathWalk env path = some (final, result)) :
    final.AllExist :=
  all.walk wf (wf.valid_start path) careful walked

theorem AllExist.addMount (wf : s.WellFormed) (all : s.AllExist)
    (mountedOn : Option Path) (fs : FileSystem) :
    (s.addMount mountedOn fs).AllExist where
  inode := by
    intro dentry here
    rw [inode_addMount]
    split
    · exact Option.some_ne_none _
    · rename_i isOld
      exact all.inode dentry (((here_addMount wf).mp here).resolve_right isOld)
  held := by
    intro parent child member volume dir isDisk isDir
    rw [subdirs_addMount wf] at member
    have here := wf.here_of_subdirs member
    have old : parent ≠ .root s.mounts.length := by
      rintro rfl
      exact Nat.lt_irrefl _ here
    rw [fs_addMount wf here] at isDisk
    rw [inode_addMount, if_neg old] at isDir
    exact all.held parent child member volume dir isDisk isDir

theorem AllExist.created (wf : s.WellFormed) (all : s.AllExist)
    (isRam : s.fs s.pwd.dentry = some .ramfs) (dir : Inode) (unit : Name) :
    (s.created dir unit).AllExist := by
  have adopted : (s.adopt s.pwd.dentry unit
      (some ⟨s.inodeCount, 0, true⟩)).AllExist := by
    apply all.adopt wf wf.pwd.1 (Option.some_ne_none _)
    intro volume _ isDisk
    rw [isRam] at isDisk
    cases isDisk
  constructor
  · intro dentry here
    change Function.update _ _ _ _ ≠ _
    rw [Function.update_apply]
    split
    · exact Option.some_ne_none _
    · exact adopted.inode dentry here
  · intro parent child member volume other isDisk isDir
    apply adopted.held parent child member volume other isDisk
    have notPwd : parent ≠ s.pwd.dentry := by
      rintro rfl
      change s.fs s.pwd.dentry = _ at isDisk
      rw [isRam] at isDisk
      cases isDisk
    change Function.update _ _ _ _ = _ at isDir
    rw [Function.update_of_ne notPwd] at isDir
    exact isDir

theorem mountRoot_allExist (fs : FileSystem) : (mountRoot fs).AllExist where
  inode := by
    intro dentry here
    cases dentry with
    | root mnt =>
        obtain rfl : mnt = 0 := Nat.lt_one_iff.mp here
        have isFirst : Dentry.root 0 = .root initial.mounts.length := rfl
        rw [mountRoot, inode_addMount, if_pos isFirst]
        exact Option.some_ne_none _
    | child parent name copy =>
        change _ ∈ (mountRoot fs).subdirs parent at here
        rw [subdirs_mountRoot] at here
        cases here
  held := by
    intro parent child member
    rw [subdirs_mountRoot] at member
    cases member

theorem perform_allExist (wf : s.WellFormed) (all : s.AllExist) {call : Call}
    (careful : s.CarefulCall env call) {final : State} {ret : Int}
    (returned : s.perform env call = some (final, ret)) :
    final.AllExist := by
  cases call with
  | mkdir name =>
      rcases sysMkdir_cases wf returned with
        ⟨-, rfl⟩ | ⟨-, isRam, dir, -, -, rfl⟩
      · exact all
      · exact all.created wf isRam dir (mkdirName name)
  | chdir path =>
      rcases sysChdir_cases wf returned with
        ⟨-, walk⟩ | ⟨-, walked, nd, walk, rfl⟩
      · exact all.pathWalk wf careful walk
      · have walkedAll := all.pathWalk wf careful walk
        exact ⟨walkedAll.inode, walkedAll.held⟩
  | mount devName path type =>
      rcases sysMount_cases wf returned with
        ⟨-, rfl | ⟨result, walk⟩⟩ | ⟨-, walked, nd, fs, walk, rfl⟩
      · exact all
      · exact all.pathWalk wf careful walk
      · have walkedWf := ((pathWalk_follows wf env path).2 _ _ walk).2.1
        exact (all.pathWalk wf careful walk).addMount walkedWf (some nd) fs
  | walk path =>
      rw [perform] at returned
      split at returned
      · cases returned
      · rename_i walk
        cases returned
        exact all.pathWalk wf careful walk
      · rename_i walk
        cases returned
        exact all.pathWalk wf careful walk

theorem CarefulRun.allExist (run : CarefulRun s) : s.AllExist := by
  induction run with
  | start fs => exact mountRoot_allExist fs
  | step run careful returned induction =>
      exact perform_allExist run.wellFormed induction careful returned

theorem AllExist.names (wf : s.WellFormed) (all : s.AllExist)
    {parent child : Dentry} (member : child ∈ s.subdirs parent) :
    s.Names parent child.dName := by
  unfold Names
  split
  · rename_i volume isDisk
    cases isDir : s.inode parent with
    | none => exact absurd isDir (all.inode parent (wf.here_of_subdirs member))
    | some dir =>
        exact ⟨dir, rfl, all.held parent child member volume dir isDisk isDir⟩
  · exact ⟨child, member, rfl, all.inode child (wf.here_of_mem member)⟩

/-- A component that leads somewhere exists in the tree before it is looked
up. -/
theorem names_of_doLookup (wf : s.WellFormed) (all : s.AllExist) {nd : Path}
    {name : Name} (careful : s.CarefulStep env nd name)
    {next : Option Path} {later : State} {place : Path}
    (step : s.doLookup env nd name next = some (later, .ok place)) :
    name = dot ∨ name = dotdot ∨ s.Names nd.dentry name := by
  by_cases isDot : name = dot
  · exact .inl isDot
  · by_cases isUp : name = dotdot
    · exact .inr (.inl isUp)
    · refine .inr (.inr ?_)
      cases cached : s.dLookup nd.dentry name with
      | some dentry =>
          have isName := dLookup_dName cached
          rw [← isName]
          exact all.names wf (dLookup_mem cached)
      | none =>
          rw [doLookup, if_neg isDot, if_neg isUp] at step
          simp only [cached] at step
          split at step
          · cases step
          · cases step
          · rename_i isOk
            rcases realLookup_cases wf cached isOk with
              ⟨-, ret, isError⟩ | ⟨dir, inode, isDir, answer, -⟩
            · cases isError
            · obtain ⟨-, volume, isDisk, holds⟩ :=
                careful.exists isDot isUp cached isDir answer
              unfold Names
              rw [isDisk]
              exact ⟨dir, isDir, holds⟩

theorem walk_component (wf : s.WellFormed) (all : s.AllExist) {nd : Path}
    (valid : s.Valid nd) {next : Option Path} {before after : List Name}
    {unit : Name}
    (careful : s.CarefulWalk env nd next (before ++ unit :: after))
    {final : State} {place : Path}
    (walked : s.walk env nd next (before ++ unit :: after) =
      some (final, .ok place)) :
    ∃ middle dir, s.walk env nd next before = some (middle, .ok dir) ∧
      (unit = dot ∨ unit = dotdot ∨ middle.Names dir.dentry unit) := by
  induction before generalizing s nd next with
  | nil =>
      rcases walk_cons walked with
        ⟨-, ret, isError⟩ | ⟨ret, -, isError⟩ | ⟨later, first, step, -, -⟩
      · cases isError
      · cases isError
      · exact ⟨s, nd, rfl, names_of_doLookup wf all careful.1 step⟩
  | cons first before induction =>
      rcases walk_cons walked with
        ⟨-, ret, isError⟩ | ⟨ret, -, isError⟩ |
          ⟨later, entered, step, rest, same⟩
      · cases isError
      · cases isError
      · have laterAll := all.doLookup wf valid careful.1 step
        obtain ⟨laterWf, enteredValid⟩ := doLookup_kept wf valid step
        rw [same]
        exact induction laterWf laterAll (enteredValid entered rfl)
          (careful.2 later entered step) rest

theorem visible_iff {dentry : Dentry} {name : Name} :
    s.Visible dentry name ↔
      (∃ child ∈ s.subdirs dentry, child.dName = name) ∨
        ∃ volume dir, s.fs dentry = some (.disk volume) ∧
          s.inode dentry = some dir ∧ volume.holds dir name := by
  unfold Visible Names
  constructor
  · rintro (cached | named)
    · exact .inl cached
    · split at named
      · rename_i volume isDisk
        obtain ⟨dir, isDir, holds⟩ := named
        exact .inr ⟨volume, dir, isDisk, isDir, holds⟩
      · obtain ⟨child, member, isName, -⟩ := named
        exact .inl ⟨child, member, isName⟩
  · rintro (cached | ⟨volume, dir, isDisk, isDir, holds⟩)
    · exact .inl cached
    · rw [isDisk]
      exact .inr ⟨dir, isDir, holds⟩

/-- A careful component makes no name visible in a directory of the tree. -/
theorem visible_doLookup (wf : s.WellFormed) {nd : Path} {unit : Name}
    (careful : s.CarefulStep env nd unit)
    {next : Option Path} {final : State} {result : Except Int Path}
    (step : s.doLookup env nd unit next = some (final, result))
    {dentry : Dentry} (here : s.Here dentry) (name : Name) :
    final.Here dentry ∧
      (final.Visible dentry name ↔ s.Visible dentry name) := by
  rcases doLookup_cases wf step with
    rfl | ⟨notDot, notUp, missing, dir, inode, isDir, answer, rfl⟩
  · exact ⟨here, Iff.rfl⟩
  · refine ⟨(here_adopt wf).mpr (.inl here), ?_⟩
    have isOld : dentry ≠ s.newDentry nd.dentry unit := by
      rintro rfl
      exact wf.newDentry_notMem here
    have sameInode : (s.adopt nd.dentry unit inode).inode dentry =
        s.inode dentry := by
      rw [inode_adopt wf, if_neg isOld]
    rw [visible_iff, visible_iff, sameInode, fs_adopt]
    constructor
    · rintro (⟨child, member, isName⟩ | onDisk)
      · rcases (mem_subdirs_adopt wf).mp member with old | ⟨rfl, rfl⟩
        · exact .inl ⟨child, old, isName⟩
        · obtain ⟨-, volume, isDisk, holds⟩ :=
            careful.exists notDot notUp missing isDir answer
          cases isName
          exact .inr ⟨volume, dir, isDisk, isDir, holds⟩
      · exact .inr onDisk
    · rintro (⟨child, member, isName⟩ | onDisk)
      · exact .inl ⟨child, (mem_subdirs_adopt wf).mpr (.inl member), isName⟩
      · exact .inr onDisk

theorem visible_walk (wf : s.WellFormed) {nd : Path} (valid : s.Valid nd)
    {next : Option Path} {units : List Name}
    (careful : s.CarefulWalk env nd next units) {final : State}
    {result : Except Int Path}
    (walked : s.walk env nd next units = some (final, result))
    {dentry : Dentry} (here : s.Here dentry) (name : Name) :
    final.Visible dentry name ↔ s.Visible dentry name := by
  induction units generalizing s nd next with
  | nil =>
      cases walked
      exact Iff.rfl
  | cons unit units induction =>
      rcases walk_cons walked with
        ⟨rfl, -⟩ | ⟨ret, step, -⟩ | ⟨later, place, step, rest, -⟩
      · exact Iff.rfl
      · exact (visible_doLookup wf careful.1 step here name).2
      · obtain ⟨hereLater, same⟩ :=
          visible_doLookup wf careful.1 step here name
        obtain ⟨laterWf, placeValid⟩ := doLookup_kept wf valid step
        exact (induction laterWf (placeValid place rfl)
          (careful.2 later place step) rest hereLater).trans same

end Invariant

/-- After careful calls, a careful walk that returns 0 has found every
component and leads to an object, and one that fails leaves the names visible
in every directory of the tree as they were. -/
theorem pathWalk_finds {s : State} (run : CarefulRun s) {env : Env}
    {path : List UInt8} (careful : s.CarefulPath env path) {final : State}
    {result : Except Int Path}
    (walked : s.pathWalk env path = some (final, result)) :
    (∀ place, result = .ok place →
      s.ComponentsExist env path ∧ final.inode place.dentry ≠ none) ∧
    (∀ ret, result = .error ret → ∀ dentry, s.Here dentry → ∀ name,
      final.Visible dentry name ↔ s.Visible dentry name) := by
  have wf := run.wellFormed
  have all := run.allExist
  constructor
  · rintro place rfl
    constructor
    · intro before unit after isSplit
      unfold CarefulPath at careful
      unfold pathWalk at walked
      rw [isSplit] at careful walked
      exact walk_component wf all (wf.valid_start path) careful walked
    · have valid := ((pathWalk_follows wf env path).2 _ _ walked).2.2
      exact (all.pathWalk wf careful walked).inode _ (valid place rfl).1
  · rintro ret rfl dentry here name
    exact visible_walk wf (wf.valid_start path) careful walked here name

/-- A disk with blocks of 1024 bytes: inode 2 is a directory in block 10,
which holds the record of the file `a` with inode 3. -/
def directoryDisk (position : Nat) : UInt8 :=
  if position = 5 * 1024 + 128 + 1 then 0x40
  else if position = 5 * 1024 + 128 + 5 then 4
  else if position = 5 * 1024 + 128 + 40 then 10
  else if position = 5 * 1024 + 256 + 1 then 0x80
  else if position = 10 * 1024 then 3
  else if position = 10 * 1024 + 5 then 4
  else if position = 10 * 1024 + 6 then 1
  else if position = 10 * 1024 + 8 then 97
  else 0

def directoryVolume : SuperBlock where
  drive := ⟨fun position =>
    some (Library.slice directoryDisk position Fs.sectSize), fun _ => 0⟩
  sLogBlockSize := 0
  sInodeSize := 128
  sInodesPerGroup := 8
  bgInodeTable := fun _ => 5

/-- The tree with that disk as its root. -/
def directoryTree : State :=
  mountRoot (.disk (ext2Volume directoryVolume directoryDisk))

theorem directory_tiled :
    Fs.Tiled (Fs.blockAt directoryDisk 1024 10) 1024 := by
  have length : Fs.deRecLen (Fs.blockAt directoryDisk 1024 10) 0 = 1024 := by
    decide +kernel
  intro place record
  have isFirst : place = 0 := by
    induction record with
    | first => rfl
    | next _ inside induction =>
        rw [induction, length] at inside
        omega
  rw [isFirst, length]
  decide +kernel

theorem directory_sound (scratch : Scratch) :
    Fs.Ext2Sound directoryVolume directoryDisk scratch ⟨2, 1024, true⟩
      [97] := by
  have size : (Fs.inodeAt directoryVolume directoryDisk 2).iSize = 1024 := by
    decide +kernel
  have pointer : Fs.ext2Blocks directoryVolume directoryDisk
      ⟨2, 1024, true⟩ 0 = some 10 := by
    decide +kernel
  refine ⟨⟨by decide, by decide, ⟨8, by decide⟩, by decide⟩, fun _ => rfl,
    ?_⟩
  constructor
  · intro i inside
    rw [size] at inside
    obtain rfl : i = 0 := by
      change i * 1024 < 1024 at inside
      omega
    exact ⟨10, pointer, directory_tiled⟩
  · have one : Fs.blocksOf 1024 directoryVolume.blockSize = 1 := by decide
    have isName := (Fs.agrees_start (Fs.blockAt directoryDisk 1024 10)
      scratch.stack 1024 0).name_eq directory_tiled (Nat.zero_lt_succ _)
    have found : Fs.deName (Fs.blockAt directoryDisk 1024 10) 0 = [97] := by
      decide +kernel
    unfold Fs.StaysInside
    rw [size, one]
    refine ⟨?_, fun _ _ => trivial⟩
    simp only [pointer, Option.getD_some]
    -- The search ends at the first record, whatever lies behind the block.
    generalize 2 ^ 32 = fuel
    cases fuel with
    | zero => trivial
    | succ fuel =>
        intro _
        refine ⟨Fs.blockSize_pos _, ?_⟩
        exact fun differs => absurd (isName.trans found) differs

theorem inode_directoryTree :
    directoryTree.inode (.root 0) = some ⟨2, 1024, true⟩ := by
  decide +kernel

theorem directoryTree_walk :
    directoryTree.pathWalk (roomy none) [97] =
      some (directoryTree.adopt (.root 0) [97] (some ⟨3, 0, false⟩),
        .ok ⟨0, .child (.root 0) [97] 0⟩) := by
  have found : (ext2Volume directoryVolume directoryDisk).lookup
      ((roomy none).scratch (.child (.root 0) [97] 0)) ⟨2, 1024, true⟩ [97] =
        some (.ok ⟨3, 0, false⟩) := by
    decide +kernel
  have missing : directoryTree.dLookup (.root 0) [97] = none := by
    rw [dLookup, directoryTree, subdirs_mountRoot]
    rfl
  have answer : directoryTree.iLookup (roomy none) ⟨2, 1024, true⟩
      (.child (.root 0) [97] 0) = some (.ok (some ⟨3, 0, false⟩)) := by
    have isDisk : directoryTree.fs (.root 0) =
        some (.disk (ext2Volume directoryVolume directoryDisk)) := rfl
    rw [iLookup_disk isDisk, found]
    rfl
  have looked : directoryTree.realLookup (roomy none) (.root 0) [97] =
      some (directoryTree.adopt (.root 0) [97] (some ⟨3, 0, false⟩),
        .ok (.child (.root 0) [97] 0)) := by
    rw [realLookup, newDentry_of_dLookup missing, inode_directoryTree]
    simp only [answer]
    rfl
  have step : directoryTree.doLookup (roomy none) ⟨0, .root 0⟩ [97] none =
      some (directoryTree.adopt (.root 0) [97] (some ⟨3, 0, false⟩),
        .ok ⟨0, .child (.root 0) [97] 0⟩) := by
    rw [doLookup, if_neg (by decide), if_neg (by decide)]
    simp only [missing, looked]
    rfl
  change directoryTree.walk (roomy none) ⟨0, .root 0⟩ none [[97]] = _
  rw [walk]
  simp only [inode_directoryTree, if_true, step, walk]

theorem directoryTree_careful :
    directoryTree.CarefulPath (roomy none) [97] := by
  refine ⟨?_, fun _ _ _ => trivial⟩
  intro _ _ _ dir isDir
  change directoryTree.inode (.root 0) = some dir at isDir
  rw [inode_directoryTree] at isDir
  cases isDir
  exact ⟨_, rfl, .ext2 (directory_sound _)⟩

/-- The file on the sample disk is found. -/
theorem pathWalk_finds_file :
    directoryTree.ComponentsExist (roomy none) [97] ∧
      (directoryTree.adopt (.root 0) [97] (some ⟨3, 0, false⟩)).inode
        (.child (.root 0) [97] 0) ≠ none :=
  (pathWalk_finds (.start _) directoryTree_careful directoryTree_walk).1 _ rfl

/-- In an empty directory in memory, the name `a` leads to a dentry without an
inode. -/
theorem pathWalk_finds_nothing :
    ¬∀ s, Reachable s → ∀ env path final result,
      s.pathWalk env path = some (final, result) →
        (∀ place, result = .ok place →
          s.ComponentsExist env path ∧ final.inode place.dentry ≠ none) ∧
        (∀ ret, result = .error ret → ∀ dentry, s.Here dentry → ∀ name,
          final.Visible dentry name ↔ s.Visible dentry name) := by
  intro claimed
  have walked : (mountRoot .ramfs).pathWalk (roomy none) [97] =
      some ((mountRoot .ramfs).adopt (.root 0) [97] none,
        .ok ⟨0, .child (.root 0) [97] 0⟩) := rfl
  have finds := claimed _ (.start .ramfs) _ _ _ _ walked
  exact (finds.1 _ rfl).2 rfl

end State

end Witos.Vfs
