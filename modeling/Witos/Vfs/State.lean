import Mathlib.Logic.Function.Basic

/-!
# Dentries, mounts and the path walk

`path_walk` of `fs/core/open.c`, with the dentry functions of `fs/core/fs.c`
and `lookup_mnt` of `fs/core/mount.c`.  `none` stands for a call that never
returns: it follows a null pointer or one that was never set, or stops in
`BUG`.
-/

namespace Witos.Vfs

abbrev Name := List UInt8

def slash : UInt8 := 47
def dot : Name := [46]
def dotdot : Name := [46, 46]

def enoent : Int := 2
def eio : Int := 5
def enomem : Int := 12
def enotdir : Int := 20
def einval : Int := 22
def enotsupp : Int := 524

/-- A dentry by the fields that are set when it is allocated and kept from
then on: the root of the file system of a mount, or a child with its parent,
its name and the number of older siblings of that name. -/
inductive Dentry
  | root (mnt : Nat)
  | child (parent : Dentry) (name : Name) (copy : Nat)
deriving DecidableEq

namespace Dentry

/-- The super block; every mount makes one of its own. -/
def dSb : Dentry → Nat
  | root mnt => mnt
  | child parent _ _ => parent.dSb

def dParent : Dentry → Dentry
  | root mnt => root mnt
  | child parent _ _ => parent

def dName : Dentry → Name
  | root _ => [slash]
  | child _ name _ => name

end Dentry

/-- The fields of an inode the walk uses; `isDir` says whether `i_op` has a
`lookup`. -/
structure Inode where
  iNo : Nat
  iSize : Nat
  isDir : Bool
deriving DecidableEq

/-- What a lookup on a disk comes upon in memory: what is left on the stack,
in a buffer and in an array of words, what lies behind the inode of the
directory, and whether there is room for a new one. -/
structure Scratch where
  stack : Nat → UInt8
  words : Nat → Nat
  heap : Nat → UInt8
  room : Bool

/-- A file system on a disk: the inode of its root, the names its directories
have on the disk, and its `lookup`, whose errors are negative and which cannot
return an inode there is no room for. -/
structure Volume where
  rootInode : Inode
  holds : Inode → Name → Prop
  lookup : Scratch → Inode → Name → Option (Except Int Inode)
  negative : ∀ scratch dir name ret,
    lookup scratch dir name = some (.error ret) → ret < 0
  noRoom : ∀ scratch dir name inode, scratch.room = false →
    lookup scratch dir name ≠ some (.ok inode)

inductive FileSystem
  | ramfs
  | disk (volume : Volume)

structure Path where
  mnt : Nat
  dentry : Dentry
deriving DecidableEq

/-- A mount by its place in the list.  `mountedOn` is `mountpoint` and
`mnt_parent`, which are both null for the first one; `vfsmnt.root` is the root
dentry of the same number. -/
structure Mount where
  mountedOn : Option Path
  fs : FileSystem

structure State where
  mounts : List Mount
  subdirs : Dentry → List Dentry
  inode : Dentry → Option Inode
  inodeCount : Nat
  root : Path
  pwd : Path

/-- A type of file system and what its `mount` returns for a device. -/
structure FsType where
  name : Name
  mount : Option Name → Option FileSystem

/-- What a call comes upon: the value of the test of `do_lookup` on a `next`
that was never set (`none` if it does not survive it), the memory for each
dentry and each inode and for a mount, and the registered types. -/
structure Env where
  unset : Option Bool
  room : Dentry → Bool
  scratch : Dentry → Scratch
  mountRoom : Bool
  fsTypes : List FsType

namespace State

def fs (s : State) (dentry : Dentry) : Option FileSystem :=
  s.mounts[dentry.dSb]?.map Mount.fs

def dLookup (s : State) (parent : Dentry) (name : Name) : Option Dentry :=
  (s.subdirs parent).find? (fun dentry => dentry.dName = name)

/-- The dentry `d_alloc` makes. -/
def newDentry (s : State) (parent : Dentry) (name : Name) : Dentry :=
  .child parent name
    ((s.subdirs parent).countP (fun dentry => dentry.dName = name))

def setInode (s : State) (dentry : Dentry) (inode : Option Inode) : State :=
  { s with inode := Function.update s.inode dentry inode }

def setSubdirs (s : State) (dentry : Dentry) (children : List Dentry) :
    State :=
  { s with subdirs := Function.update s.subdirs dentry children }

def dAlloc (s : State) (parent : Dentry) (name : Name) : State :=
  let dentry := s.newDentry parent name
  ((s.setInode dentry none).setSubdirs dentry []).setSubdirs parent
    (s.subdirs parent ++ [dentry])

/-- `dput`, and the `list_del` of `sys_mkdir`. -/
def dput (s : State) (dentry : Dentry) : State :=
  s.setSubdirs dentry.dParent ((s.subdirs dentry.dParent).erase dentry)

/-- The `lookup` of the directory: an error, or the inode it gives the new
dentry. -/
def iLookup (env : Env) (s : State) (dir : Inode) (dentry : Dentry) :
    Option (Except Int (Option Inode)) :=
  match s.fs dentry with
  | none => none
  | some .ramfs => some (.ok none)
  | some (.disk volume) =>
      (volume.lookup (env.scratch dentry) dir dentry.dName).map
        (Except.map some)

/-- `d_alloc` does not check for memory. -/
def realLookup (env : Env) (s : State) (parent : Dentry) (name : Name) :
    Option (State × Except Int Dentry) :=
  let dentry := s.newDentry parent name
  if env.room dentry then
    match s.inode parent with
    | none => none
    | some dir =>
        match s.iLookup env dir dentry with
        | none => none
        | some (.error ret) =>
            some ((s.dAlloc parent name).dput dentry, .error ret)
        | some (.ok inode) =>
            some ((s.dAlloc parent name).setInode dentry inode, .ok dentry)
  else none

/-- The first mount on the dentry. -/
def lookupMnt (s : State) (dentry : Dentry) : Option Nat :=
  s.mounts.findIdx?
    (fun mount => mount.mountedOn.map Path.dentry = some dentry)

def followMount (s : State) (path : Path) : Path :=
  match s.lookupMnt path.dentry with
  | some mnt => ⟨mnt, .root mnt⟩
  | none => path

/-- `follow_up`, from a mount that has a parent. -/
def followUp (s : State) (path : Path) : Option Path :=
  s.mounts[path.mnt]?.bind Mount.mountedOn

/-- The test of `do_lookup` before `follow_up`, on `next`. -/
def leaves (env : Env) (s : State) : Option Path → Option Bool
  | none => env.unset
  | some next =>
      s.mounts[next.mnt]?.map fun mount =>
        next.dentry = .root next.mnt ∧ mount.mountedOn.isSome

def doLookup (env : Env) (s : State) (nd : Path) (name : Name)
    (next : Option Path) : Option (State × Except Int Path) :=
  if name = dot then some (s, .ok nd)
  else if name = dotdot then
    match s.leaves env next with
    | none => none
    | some up =>
        match if up then s.followUp nd else some nd with
        | none => none
        | some nd => some (s, .ok ⟨nd.mnt, nd.dentry.dParent⟩)
  else
    match s.dLookup nd.dentry name with
    | some dentry => some (s, .ok (s.followMount ⟨nd.mnt, dentry⟩))
    | none =>
        match s.realLookup env nd.dentry name with
        | none => none
        | some (s, .error ret) => some (s, .error ret)
        | some (s, .ok dentry) =>
            some (s, .ok (s.followMount ⟨nd.mnt, dentry⟩))

/-- The loop of `path_walk` over the units of the path.  Before the first of
them `next` is not set, and later it is where the walk stands. -/
def walk (env : Env) (s : State) (nd : Path) (next : Option Path) :
    List Name → Option (State × Except Int Path)
  | [] => some (s, .ok nd)
  | unit :: units =>
      match s.inode nd.dentry with
      | none => none
      | some inode =>
          if inode.isDir then
            match s.doLookup env nd unit next with
            | none => none
            | some (s, .error ret) => some (s, .error ret)
            | some (s, .ok next) => walk env s next (some next) units
          else some (s, .error (-enotdir))

end State

/-- The units of a path, the first of them with `unit` in front. -/
def unitsFrom : Name → List UInt8 → List Name
  | unit, [] => if unit = [] then [] else [unit]
  | unit, char :: path =>
      if char = slash then
        if unit = [] then unitsFrom [] path else unit :: unitsFrom [] path
      else unitsFrom (unit ++ [char]) path

def units (path : List UInt8) : List Name :=
  unitsFrom [] path

namespace State

/-- Where the walk of a path starts. -/
def start (s : State) (path : List UInt8) : Path :=
  if path.head? = some slash then s.root else s.pwd

def pathWalk (env : Env) (s : State) (path : List UInt8) :
    Option (State × Except Int Path) :=
  s.walk env (s.start path) none (units path)

end State

end Witos.Vfs
