import Witos.Vfs.State

/-!
# Device nodes

`devfs_mknod` and `devfs_lookup` of `fs/devfs/devfs.c`, `dev_mknod` of
`fs/core/inode.c`, and the walk of `fs/core/open.c` through the dentries of the
file system at `/dev`.  `none` stands for a call that never returns or leaves
its memory.
-/

namespace Witos.Vfs

def fileNameSize : Nat := 256

def sIfmt : Nat := 0o170000
def sIfblk : Nat := 0o060000
def sIfdir : Nat := 0o040000
def sIfchr : Nat := 0o020000

/-- `struct devfs_inode`; `name` is what is in memory from `name[0]` on. -/
structure DevfsInode where
  iMode : Nat
  iRdev : Nat
  name : Nat → UInt8

/-- Where a `d_inode` points to: the inode of the root, or one of
`g_devfs_list` by its place. -/
inductive InodeRef
  | top
  | node (place : Nat)
deriving DecidableEq

/-- A dentry; `linked` is whether it is in the `d_subdirs` of its parent. -/
structure DevDentry where
  dParent : Nat
  dName : Name
  dInode : Option InodeRef
  linked : Bool
deriving DecidableEq

/-- The dentries in the order of their allocation, the root first,
`g_devfs_list`, and the `i_size` of the root. -/
structure Devfs where
  dentries : List DevDentry
  inodes : List DevfsInode
  iSize : Nat

/-- What a call comes upon: the memory for each dentry by its place and for an
inode, and what is behind the name of the inode. -/
structure DevEnv where
  dentryRoom : Nat → Bool
  inodeRoom : Bool
  behind : Nat → UInt8

/-- Whether `strncmp` is zero, for a count that is not, from a position on. -/
def strncmpZero (left right : Nat → UInt8) : Nat → Nat → Bool
  | _, 0 => true
  | position, count + 1 =>
      if left position = right position then
        if left position = 0 then true
        else strncmpZero left right (position + 1) count
      else false

/-- The characters of a string and its zero. -/
def stringAt (name : Name) (position : Nat) : UInt8 :=
  name.getD position 0

namespace Devfs

/-- After `devfs_mount`. -/
def mounted : Devfs where
  dentries := [⟨0, [slash], some .top, false⟩]
  inodes := []
  iSize := 0

def inodeOf (s : Devfs) (dentry : Nat) : Option InodeRef :=
  s.dentries[dentry]?.bind DevDentry.dInode

/-- Whether the `i_op` has a `lookup`: it has the one of a directory. -/
def isDirectory (s : Devfs) : InodeRef → Bool
  | .top => true
  | .node place =>
      match s.inodes[place]? with
      | none => false
      | some inode => inode.iMode &&& sIfmt = sIfdir

def dLookup (s : Devfs) (parent : Nat) (name : Name) : Option Nat :=
  s.dentries.findIdx? fun dentry =>
    dentry.linked && dentry.dParent = parent && dentry.dName = name

/-- The place in `g_devfs_list` of the inode that the new dentry gets. -/
def devfsLookup (s : Devfs) (name : Name) : Option Nat :=
  s.inodes.findIdx? fun inode =>
    strncmpZero inode.name (stringAt name) 0 name.length

/-- `real_lookup`: a dentry whose lookup fails does not stay in the list. -/
def realLookup (env : DevEnv) (s : Devfs) (parent : Nat) (name : Name) :
    Option (Devfs × Except Int Nat) :=
  if env.dentryRoom s.dentries.length then
    match s.devfsLookup name with
    | none =>
        some ({ s with
          dentries := s.dentries ++ [⟨parent, name, none, false⟩] },
          .error (-enoent))
    | some place =>
        some ({ s with
          dentries :=
            s.dentries ++ [⟨parent, name, some (.node place), true⟩] },
          .ok s.dentries.length)
  else none

/-- `do_lookup`; `..` in the root leads out of the file system. -/
def doLookup (env : DevEnv) (s : Devfs) (nd : Nat) (name : Name) :
    Option (Devfs × Except Int (Option Nat)) :=
  if name = dot then some (s, .ok (some nd))
  else if name = dotdot then
    if nd = 0 then some (s, .ok none)
    else some (s, .ok (s.dentries[nd]?.map DevDentry.dParent))
  else
    match s.dLookup nd name with
    | some dentry => some (s, .ok (some dentry))
    | none =>
        match s.realLookup env nd name with
        | none => none
        | some (s, .error ret) => some (s, .error ret)
        | some (s, .ok dentry) => some (s, .ok (some dentry))

/-- The loop of `path_walk`, as long as it stays in the file system. -/
def walk (env : DevEnv) (s : Devfs) (nd : Nat) :
    List Name → Option (Devfs × Except Int (Option Nat))
  | [] => some (s, .ok (some nd))
  | unit :: units =>
      match s.inodeOf nd with
      | none => none
      | some inode =>
          if s.isDirectory inode then
            match s.doLookup env nd unit with
            | none => none
            | some (s, .error ret) => some (s, .error ret)
            | some (s, .ok none) => some (s, .ok none)
            | some (s, .ok (some next)) => walk env s next units
          else some (s, .error (-enotdir))

/-- `path_walk` of `/dev/` and a path: the first unit leads to the root of the
file system that is mounted there. -/
def pathWalk (env : DevEnv) (s : Devfs) (path : List UInt8) :
    Option (Devfs × Except Int (Option Nat)) :=
  s.walk env 0 (units path)

/-- `devfs_mknod`.  The new inode is not stored in the dentry. -/
def devfsMknod (env : DevEnv) (s : Devfs) (name : Name) (mode dev : Nat) :
    Option (Devfs × Int) :=
  if env.inodeRoom then
    if mode &&& sIfmt = sIfchr ∨ mode &&& sIfmt = sIfblk ∨
        mode &&& sIfmt = sIfdir then
      if name.length ≤ fileNameSize then
        let inode : DevfsInode :=
          { iMode := mode
            iRdev := dev
            name := fun position =>
              if position < fileNameSize then name.getD position 0
              else env.behind position }
        some ({ s with inodes := s.inodes ++ [inode], iSize := s.iSize + 1 },
          0)
      else none
    else none
  else some (s, -enomem)

/-- `dev_mknod`.  The dentry stays where the inode cannot be made. -/
def devMknod (env : DevEnv) (s : Devfs) (path : Name) (mode dev : Nat) :
    Option (Devfs × Int) :=
  if env.dentryRoom s.dentries.length then
    devfsMknod env
      { s with dentries := s.dentries ++ [⟨0, path, none, true⟩] } path mode
      dev
  else none

end Devfs

end Witos.Vfs
