import Witos.Vfs.Runs

/-!
# Open files

`open` and `close` of `fs/core/open.c` with the descriptors of `fs/core/fs.c`.
A `struct file` is the number of its allocation.  No `close` of a file system or
a driver frees it, so that only their results are taken from them.
-/

namespace Witos.Vfs

def ebusy : Int := 16
def enodev : Int := 19

/-- `MAX_FDS`. -/
def maxFds : Nat := 256

/-- `fd_array`, the number of files allocated so far and those freed, in the
order of the calls. -/
structure Files where
  fdArray : Fin maxFds → Option Nat
  count : Nat
  freed : List Nat

namespace Files

def initial : Files where
  fdArray := fun _ => none
  count := 0
  freed := []

def getUnusedFd (files : Files) : Option Nat :=
  ((List.finRange maxFds).find? fun fd => (files.fdArray fd).isNone).map
    Fin.val

def fdInstall (fd : Nat) (fp : Option Nat) (files : Files) : Files :=
  { files with
    fdArray := fun slot => if slot.val = fd then fp else files.fdArray slot }

/-- `fget`, of an unsigned number. -/
def fget (files : Files) (fd : Nat) : Option Nat :=
  if inside : fd < maxFds then files.fdArray ⟨fd, inside⟩ else none

/-- The files behind a `zalloc` that gives the next number. -/
def zalloc (files : Files) : Files :=
  { files with count := files.count + 1 }

def free (fp : Nat) (files : Files) : Files :=
  { files with freed := files.freed ++ [fp] }

end Files

/-- What an `open` comes upon besides the tree: whether there is memory for the
file, and for an inode what the `open` of its file operations returns, which is
0 where they have none.  `none` is an inode without file operations. -/
structure Services where
  fileRoom : Bool
  fops : Inode → Option Int

structure World where
  tree : State
  files : Files

/-- `__dentry_open` on the file `fp`, with what `sys_open` does behind it. -/
def dentryOpen (services : Services) (fd : Nat) (dentry : Dentry)
    (fp : Nat) (world : World) : Option (Int × World) :=
  match world.tree.inode dentry with
  | none => none
  | some inode =>
      match services.fops inode with
      | none => some (-enodev, { world with files := world.files.free fp })
      | some ret =>
          if ret < 0 then
            some (ret, { world with files := world.files.free fp })
          else
            some (fd,
              { world with files := world.files.fdInstall fd (some fp) })

def sysOpen (env : Env) (services : Services) (path : List UInt8)
    (world : World) : Option (Int × World) :=
  match world.files.getUnusedFd with
  | none => some (-ebusy, world)
  | some fd =>
      match world.tree.pathWalk env path with
      | none => none
      | some (tree, .error ret) => some (ret, { world with tree := tree })
      | some (tree, .ok nd) =>
          if services.fileRoom then
            dentryOpen services fd nd.dentry world.files.count
              { tree := tree, files := world.files.zalloc }
          else some (-enomem, { world with tree := tree })

/-- `close`, where the file operations return `ret`. -/
def close (fd : Nat) (ret : Int) (world : World) : Int × World :=
  match world.files.fget fd with
  | none => (-enoent, world)
  | some _ =>
      (ret, { world with files := world.files.fdInstall fd none })

inductive FileCall
  | open (env : Env) (services : Services) (path : List UInt8)
  | close (fd : Nat) (ret : Int)

def FileCall.perform (world : World) : FileCall → Option (Int × World)
  | .open env services path => sysOpen env services path world
  | .close fd ret => some (Vfs.close fd ret world)

/-- The results of the calls, and the world behind them. -/
def runCalls : List FileCall → World → Option (List Int × World)
  | [], world => some ([], world)
  | call :: calls, world =>
      match call.perform world with
      | none => none
      | some (ret, next) =>
          match runCalls calls next with
          | none => none
          | some (results, final) => some (ret :: results, final)

/-- Every descriptor that an `open` returned is closed later. -/
def AllClosed (calls : List FileCall) (results : List Int) : Prop :=
  ∀ front env services path back, ∀ fd : Nat,
    calls = front ++ .open env services path :: back →
    results[front.length]? = some (fd : Int) →
    ∃ ret, .close fd ret ∈ back

/-- No descriptor is used, and every file was freed once. -/
structure Files.Balanced (files : Files) : Prop where
  closed : files.fdArray = initial.fdArray
  freed : ∀ fp < files.count, files.freed.count fp = 1

/-- An `open` for which there is no descriptor, path, memory or operation. -/
def OpenFails (env : Env) (services : Services) (path : List UInt8)
    (world : World) : Prop :=
  world.files.getUnusedFd = none ∨
    (∃ tree ret,
      world.tree.pathWalk env path = some (tree, .error ret)) ∨
    ∃ tree nd, world.tree.pathWalk env path = some (tree, .ok nd) ∧
      (services.fileRoom = false ∨
        ∃ inode, tree.inode nd.dentry = some inode ∧
          ∀ ret, services.fops inode = some ret → ret < 0)

/-- Every `open` fails where it is called. -/
def EveryOpenFails (calls : List FileCall) (world : World) : Prop :=
  ∀ front env services path back results reached,
    calls = front ++ .open env services path :: back →
    runCalls front world = some (results, reached) →
    OpenFails env services path reached

section Steps

variable {env : Env} {services : Services} {path : List UInt8}
  {world next : World} {ret : Int}

/-- The file is freed where there are no operations or their `open` fails, and
installed otherwise. -/
theorem dentryOpen_cases {fd fp : Nat} {dentry : Dentry}
    (returned : dentryOpen services fd dentry fp world = some (ret, next)) :
    ∃ inode, world.tree.inode dentry = some inode ∧
      (((∀ ret, services.fops inode = some ret → ret < 0) ∧
          next.files = world.files.free fp) ∨
        ∃ result, services.fops inode = some result ∧ ¬ result < 0 ∧
          ret = fd ∧ next.files = world.files.fdInstall fd (some fp)) := by
  unfold dentryOpen at returned
  split at returned
  · cases returned
  · rename_i inode isInode
    refine ⟨inode, isInode, ?_⟩
    split at returned
    · rename_i noFops
      cases returned
      exact .inl ⟨by simp [noFops], rfl⟩
    · rename_i result hasFops
      split at returned
      · rename_i negative
        cases returned
        refine .inl ⟨?_, rfl⟩
        rintro other found
        rw [hasFops] at found
        obtain rfl := Option.some.inj found
        exact negative
      · rename_i notNegative
        cases returned
        exact .inr ⟨result, hasFops, notNegative, rfl, rfl⟩

/-- What an `open` does to the files: it fails, and a file that was allocated is
freed again, or it installs one. -/
theorem sysOpen_cases
    (returned : sysOpen env services path world = some (ret, next)) :
    (OpenFails env services path world ∧
      (next.files = world.files ∨
        next.files = world.files.zalloc.free world.files.count)) ∨
    (¬ OpenFails env services path world ∧
      ∃ fd : Nat, ret = fd ∧ next.files =
        world.files.zalloc.fdInstall fd (some world.files.count)) := by
  unfold sysOpen at returned
  split at returned
  · rename_i full
    cases returned
    exact .inl ⟨.inl full, .inl rfl⟩
  · rename_i fd unused
    split at returned
    · cases returned
    · rename_i tree error walked
      cases returned
      exact .inl ⟨.inr (.inl ⟨tree, ret, walked⟩), .inl rfl⟩
    · rename_i tree nd walked
      split at returned
      · rename_i room
        obtain ⟨inode, isInode, ⟨fails, freed⟩ |
          ⟨result, hasFops, notNegative, isFd, installed⟩⟩ :=
          dentryOpen_cases returned
        · exact .inl ⟨.inr (.inr ⟨tree, nd, walked,
            .inr ⟨inode, isInode, fails⟩⟩), .inr freed⟩
        · refine .inr ⟨?_, fd, isFd, installed⟩
          rintro (full | ⟨_, _, failed⟩ | ⟨_, _, found, noRoom | none⟩)
          · rw [unused] at full
            cases full
          · rw [walked] at failed
            cases failed
          · rw [room] at noRoom
            cases noRoom
          · rw [walked] at found
            cases found
            obtain ⟨other, isOther, fails⟩ := none
            rw [isInode] at isOther
            cases isOther
            exact notNegative (fails _ hasFops)
      · rename_i noRoom
        cases returned
        exact .inl ⟨.inr (.inr ⟨tree, nd, walked, .inl
          (by simpa using noRoom)⟩), .inl rfl⟩

theorem fget_eq (files : Files) (fd : Fin maxFds) :
    files.fget fd.val = files.fdArray fd :=
  dif_pos fd.isLt

/-- A `close` does nothing, or empties a slot. -/
theorem close_cases {fd : Nat} {result : Int}
    (performed :
      (FileCall.close fd result).perform world = some (ret, next)) :
    (world.files.fget fd = none ∧ next.files = world.files) ∨
      next.files = world.files.fdInstall fd none := by
  have same : (close fd result world).2 = next :=
    congrArg Prod.snd (Option.some.inj performed)
  rw [← same, close]
  split
  · rename_i none
    exact .inl ⟨none, rfl⟩
  · exact .inr rfl

/-- What a call does to the allocations: nothing, a file that comes and goes, or
a file that comes. -/
theorem perform_cases {call : FileCall}
    (performed : call.perform world = some (ret, next)) :
    (next.files.count = world.files.count ∧
      next.files.freed = world.files.freed) ∨
    (next.files.count = world.files.count + 1 ∧
      next.files.freed = world.files.freed ++ [world.files.count]) ∨
    (next.files.count = world.files.count + 1 ∧
      next.files.freed = world.files.freed) := by
  cases call with
  | «open» env services path =>
      rcases sysOpen_cases performed with
        ⟨-, same | same⟩ | ⟨-, slot, -, same⟩
      · exact .inl (by rw [same]; exact ⟨rfl, rfl⟩)
      · exact .inr (.inl (by rw [same]; exact ⟨rfl, rfl⟩))
      · exact .inr (.inr (by rw [same]; exact ⟨rfl, rfl⟩))
  | close fd result =>
      rcases close_cases performed with ⟨-, same⟩ | same
      · exact .inl (by rw [same]; exact ⟨rfl, rfl⟩)
      · exact .inl (by rw [same]; exact ⟨rfl, rfl⟩)

theorem runCalls_cons {call : FileCall} {calls : List FileCall}
    {results : List Int} {final : World}
    (ran : runCalls (call :: calls) world = some (results, final)) :
    ∃ ret next later, call.perform world = some (ret, next) ∧
      runCalls calls next = some (later, final) ∧
      results = ret :: later := by
  unfold runCalls at ran
  split at ran
  · cases ran
  · rename_i ret next performed
    split at ran
    · cases ran
    · rename_i later final' rest
      cases ran
      exact ⟨ret, next, later, performed, rest, rfl⟩

end Steps

section Descriptors

variable {calls : List FileCall} {results : List Int} {world final : World}

/-- A slot that is used after a call was used before and is not the one that
the call closes, or the call is an `open` that returned it. -/
theorem fdArray_step {call : FileCall} {ret : Int} {next : World}
    (performed : call.perform world = some (ret, next)) {fd : Fin maxFds}
    {fp : Nat} (used : next.files.fdArray fd = some fp) :
    (world.files.fdArray fd = some fp ∧
      ∀ result, call ≠ .close fd.val result) ∨
    ∃ env services path, call = .open env services path ∧
      ret = fd.val := by
  cases call with
  | «open» env services path =>
      rcases sysOpen_cases performed with
        ⟨-, same | same⟩ | ⟨-, slot, rfl, same⟩
      · rw [same] at used
        exact .inl ⟨used, fun _ => FileCall.noConfusion⟩
      · rw [same] at used
        exact .inl ⟨used, fun _ => FileCall.noConfusion⟩
      · rw [same] at used
        by_cases here : fd.val = slot
        · exact .inr ⟨env, services, path, rfl, by rw [here]⟩
        · refine .inl ⟨?_, fun _ => FileCall.noConfusion⟩
          simpa [Files.fdInstall, Files.zalloc, here] using used
  | close slot result =>
      refine .inl ?_
      by_cases here : fd.val = slot
      · subst here
        rcases close_cases performed with ⟨none, same⟩ | same
        · rw [same] at used
          rw [fget_eq, used] at none
          cases none
        · rw [same] at used
          simp [Files.fdInstall] at used
      · refine ⟨?_, fun _ same => here (FileCall.close.inj same).1.symm⟩
        rcases close_cases performed with ⟨-, same⟩ | same
        · rw [← same]
          exact used
        · rw [same] at used
          simpa [Files.fdInstall, here] using used

/-- A slot that is used was used before and not closed, or an `open` returned it
and it was not closed since. -/
theorem fdArray_run (ran : runCalls calls world = some (results, final))
    {fd : Fin maxFds} {fp : Nat} (used : final.files.fdArray fd = some fp) :
    (world.files.fdArray fd = some fp ∧
      ∀ ret, .close fd.val ret ∉ calls) ∨
    ∃ front env services path back,
      calls = front ++ .open env services path :: back ∧
        results[front.length]? = some (fd.val : Int) ∧
        ∀ ret, .close fd.val ret ∉ back := by
  induction calls generalizing world results with
  | nil =>
      cases ran
      exact .inl ⟨used, fun _ => List.not_mem_nil⟩
  | cons call calls induction =>
      obtain ⟨ret, next, later, performed, rest, rfl⟩ := runCalls_cons ran
      rcases induction rest with ⟨before, unclosed⟩ |
        ⟨front, env, services, path, back, parts, result, unclosed⟩
      · rcases fdArray_step performed before with ⟨old, kept⟩ |
          ⟨env, services, path, rfl, rfl⟩
        · refine .inl ⟨old, fun result member => ?_⟩
          rcases List.mem_cons.mp member with same | member
          · exact kept result same.symm
          · exact unclosed result member
        · exact .inr ⟨[], env, services, path, calls, rfl, rfl, unclosed⟩
      · refine .inr ⟨call :: front, env, services, path, back, ?_, result,
          unclosed⟩
        rw [parts, List.cons_append]

theorem fdArray_of_allClosed
    (ran : runCalls calls world = some (results, final))
    (start : world.files = Files.initial)
    (closed : AllClosed calls results) :
    final.files.fdArray = Files.initial.fdArray := by
  funext fd
  cases used : final.files.fdArray fd with
  | none => rfl
  | some fp =>
      rcases fdArray_run ran used with ⟨before, -⟩ |
        ⟨front, env, services, path, back, parts, result, unclosed⟩
      · rw [start] at before
        cases before
      · obtain ⟨ret, member⟩ :=
          closed front env services path back fd.val parts result
        exact absurd member (unclosed ret)

end Descriptors

section Allocation

variable {calls : List FileCall} {results : List Int} {world final : World}

/-- Only files that were allocated are freed, and one that is in use is freed by
no call. -/
theorem freed_run (ran : runCalls calls world = some (results, final))
    (freed : ∀ fp ∈ world.files.freed, fp < world.files.count) :
    (∀ fp ∈ final.files.freed, fp < final.files.count) ∧
      ∀ fp < world.files.count, fp ∉ world.files.freed →
        fp < final.files.count ∧ fp ∉ final.files.freed := by
  induction calls generalizing world results with
  | nil =>
      cases ran
      exact ⟨freed, fun fp old kept => ⟨old, kept⟩⟩
  | cons call calls induction =>
      obtain ⟨ret, next, later, performed, rest, rfl⟩ := runCalls_cons ran
      have step : (∀ fp ∈ next.files.freed, fp < next.files.count) ∧
          ∀ fp < world.files.count, fp ∉ world.files.freed →
            fp < next.files.count ∧ fp ∉ next.files.freed := by
        rcases perform_cases performed with
          ⟨count, same⟩ | ⟨count, same⟩ | ⟨count, same⟩
        · rw [count, same]
          exact ⟨freed, fun fp old kept => ⟨old, kept⟩⟩
        · rw [count, same]
          simp only [List.mem_append, List.mem_singleton]
          constructor
          · rintro fp (member | rfl)
            · exact Nat.lt_succ_of_lt (freed fp member)
            · exact Nat.lt_succ_self _
          · intro fp old kept
            refine ⟨Nat.lt_succ_of_lt old, ?_⟩
            rintro (member | rfl)
            · exact kept member
            · exact Nat.lt_irrefl _ old
        · rw [count, same]
          exact ⟨fun fp member => Nat.lt_succ_of_lt (freed fp member),
            fun fp old kept => ⟨Nat.lt_succ_of_lt old, kept⟩⟩
      obtain ⟨bound, keeps⟩ := induction rest step.1
      refine ⟨bound, fun fp old kept => ?_⟩
      obtain ⟨older, notYet⟩ := step.2 fp old kept
      exact keeps fp older notYet

theorem runCalls_append {front back : List FileCall}
    (ran : runCalls (front ++ back) world = some (results, final)) :
    ∃ early reached later, runCalls front world = some (early, reached) ∧
      runCalls back reached = some (later, final) := by
  induction front generalizing world results with
  | nil => exact ⟨[], world, results, rfl, ran⟩
  | cons call front induction =>
      obtain ⟨ret, next, rest, performed, after, -⟩ := runCalls_cons ran
      obtain ⟨early, reached, later, first, second⟩ := induction after
      refine ⟨ret :: early, reached, later, ?_, second⟩
      rw [runCalls, performed]
      dsimp only
      rw [first]

/-- The file of an `open` that does not fail is never freed. -/
theorem everyOpenFails_of_balanced
    (ran : runCalls calls world = some (results, final))
    (start : world.files = Files.initial)
    (balanced : final.files.Balanced) : EveryOpenFails calls world := by
  rintro front env services path back early reached rfl before
  by_contra succeeds
  obtain ⟨early', reached', later, first, second⟩ := runCalls_append ran
  rw [before] at first
  cases first
  obtain ⟨ret, next, rest, performed, after, -⟩ := runCalls_cons second
  rcases sysOpen_cases performed with ⟨fails, -⟩ | ⟨-, fd, -, same⟩
  · exact succeeds fails
  · obtain ⟨bound, -⟩ := freed_run before (by rw [start]; simp [Files.initial])
    have kept : reached.files.count ∉ next.files.freed := by
      rw [same]
      intro member
      exact Nat.lt_irrefl _ (bound _ member)
    have old : reached.files.count < next.files.count := by
      rw [same]
      exact Nat.lt_succ_self _
    have bound' : ∀ fp ∈ next.files.freed, fp < next.files.count := by
      rw [same]
      intro fp member
      exact Nat.lt_succ_of_lt (bound fp member)
    obtain ⟨below, never⟩ := (freed_run after bound').2 _ old kept
    have once := balanced.freed _ below
    rw [List.count_eq_zero_of_not_mem never] at once
    cases once

/-- Where every `open` fails, the files are freed in the order in which they
come and no slot is used. -/
theorem balanced_run (ran : runCalls calls world = some (results, final))
    (fails : EveryOpenFails calls world)
    (empty : world.files.fdArray = Files.initial.fdArray)
    (freed : world.files.freed = List.range world.files.count) :
    final.files.fdArray = Files.initial.fdArray ∧
      final.files.freed = List.range final.files.count := by
  induction calls generalizing world results with
  | nil =>
      cases ran
      exact ⟨empty, freed⟩
  | cons call calls induction =>
      obtain ⟨ret, next, later, performed, rest, rfl⟩ := runCalls_cons ran
      have step : next.files.fdArray = Files.initial.fdArray ∧
          next.files.freed = List.range next.files.count := by
        cases call with
        | «open» env services path =>
            rcases sysOpen_cases performed with
              ⟨-, same | same⟩ | ⟨succeeds, -⟩
            · rw [same]
              exact ⟨empty, freed⟩
            · rw [same]
              refine ⟨empty, ?_⟩
              simp only [Files.free, Files.zalloc, freed, List.range_succ]
            · exact absurd
                (fails [] env services path calls [] world rfl rfl) succeeds
        | close fd result =>
            rcases close_cases performed with ⟨-, same⟩ | same
            · rw [same]
              exact ⟨empty, freed⟩
            · rw [same]
              refine ⟨?_, freed⟩
              funext slot
              simp [Files.fdInstall, empty, Files.initial]
      refine induction rest ?_ step.1 step.2
      rintro front env services path back early reached rfl before
      refine fails (call :: front) env services path back (ret :: early)
        reached rfl ?_
      rw [runCalls, performed]
      dsimp only
      rw [before]

end Allocation

/-- In a run whose descriptors are all closed no slot stays in use, but the
files are all freed only if every `open` fails. -/
theorem runCalls_balanced_iff {calls : List FileCall} {results : List Int}
    {world final : World} (start : world.files = Files.initial)
    (ran : runCalls calls world = some (results, final))
    (closed : AllClosed calls results) :
    final.files.fdArray = Files.initial.fdArray ∧
      (final.files.Balanced ↔ EveryOpenFails calls world) := by
  refine ⟨fdArray_of_allClosed ran start closed,
    everyOpenFails_of_balanced ran start, ?_⟩
  intro fails
  obtain ⟨empty, freed⟩ := balanced_run ran fails (by rw [start])
    (by rw [start]; rfl)
  refine ⟨empty, fun fp below => ?_⟩
  rw [freed, List.nodup_range.count, if_pos (List.mem_range.mpr below)]

/-- The tree of a new file system in memory, and no files. -/
def emptyWorld : World where
  tree := State.mountRoot .ramfs
  files := Files.initial

/-- The file operations of a directory in memory, whose `open` returns 0. -/
def plainServices : Services where
  fileRoom := true
  fops := fun _ => some 0

/-- The calls in a run of an `open` and a `close`. -/
theorem open_of_pair {env other : Env} {services others : Services}
    {path text : List UInt8} {slot : Nat} {ret : Int}
    {front back : List FileCall}
    (parts : [.open env services path, .close slot ret] =
      front ++ .open other others text :: back) :
    front = [] ∧ back = [.close slot ret] ∧ other = env ∧
      others = services ∧ text = path := by
  cases front with
  | nil =>
      cases parts
      exact ⟨rfl, rfl, rfl, rfl, rfl⟩
  | cons first front =>
      have tail := (List.cons.inj parts).2
      cases front with
      | nil => cases (List.cons.inj tail).1
      | cons second front => simp at tail

/-- The root directory is opened and its descriptor closed. -/
def rootCalls (services : Services) : List FileCall :=
  [.open (State.roomy none) services [47], .close 0 0]

/-- An `open` of the directory that fails. -/
def refusingServices : Services where
  fileRoom := true
  fops := fun _ => some (-5)

/-- The world behind the calls. -/
def closedWorld : World where
  tree := emptyWorld.tree
  files := (emptyWorld.files.zalloc.fdInstall 0 (some 0)).fdInstall 0 none

theorem allClosed_rootCalls : AllClosed (rootCalls plainServices) [0, 0] := by
  intro front env services path back fd parts result
  obtain ⟨rfl, rfl, -⟩ := open_of_pair parts
  have first : (0 : Int) = fd := Option.some.inj result
  obtain rfl : fd = 0 := by omega
  exact ⟨0, List.mem_singleton.mpr rfl⟩

/-- The directory is opened and closed, and the table is as before.  Where its
`open` fails, the file was allocated and is freed. -/
theorem runCalls_balanced_root :
    (runCalls (rootCalls plainServices) emptyWorld =
        some ([0, 0], closedWorld) ∧
      closedWorld.files.fdArray = Files.initial.fdArray) ∧
    ∃ final, runCalls (rootCalls refusingServices) emptyWorld =
        some ([-5, -2], final) ∧
      final.files.count = 1 ∧ final.files.Balanced := by
  constructor
  · have ran : runCalls (rootCalls plainServices) emptyWorld =
        some ([0, 0], closedWorld) := rfl
    exact ⟨ran, (runCalls_balanced_iff rfl ran allClosed_rootCalls).1⟩
  · have ran : runCalls (rootCalls refusingServices) emptyWorld =
        some ([-5, -2], ⟨emptyWorld.tree, emptyWorld.files.zalloc.free 0⟩) :=
      rfl
    refine ⟨_, ran, rfl, (runCalls_balanced_iff rfl ran ?_).2.mpr ?_⟩
    · intro front env services path back fd parts result
      obtain ⟨rfl, -⟩ := open_of_pair parts
      have negative : (-5 : Int) = fd := Option.some.inj result
      omega
    · intro front env services path back results reached parts before
      obtain ⟨rfl, -, rfl, rfl, rfl⟩ := open_of_pair parts
      cases before
      refine .inr (.inr ⟨_, _, rfl, .inr ⟨_, rfl, ?_⟩⟩)
      rintro ret ⟨⟩
      decide

/-- The file of the root directory stays. -/
theorem runCalls_not_balanced :
    ∃ final,
      runCalls (rootCalls plainServices) emptyWorld =
        some ([0, 0], final) ∧
      AllClosed (rootCalls plainServices) [0, 0] ∧
      ¬ final.files.Balanced := by
  refine ⟨closedWorld, rfl, allClosed_rootCalls, ?_⟩
  intro balanced
  have once := balanced.freed 0 (by decide)
  revert once
  decide

end Witos.Vfs
