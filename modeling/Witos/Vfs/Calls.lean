import Witos.Vfs.State

/-!
# Calls on the tree of directories

`sys_mkdir`, `sys_chdir` and `sys_getcwd` of `fs/core/fs.c`, `sys_mount` and
`mount_root` of `fs/core/mount.c` and `ramfs_mkdir` of `fs/ramfs/ramfs.c`.
-/

namespace Witos.Vfs.State

/-- `vfs_mkdir` with `ramfs_mkdir`: only directories in memory have a `mkdir`.
The inode of the parent is `dir`. -/
def vfsMkdir (env : Env) (s : State) (dir : Inode) (dentry : Dentry) :
    State × Int :=
  match s.fs dentry with
  | some .ramfs =>
      if dir.isDir then
        if (env.scratch dentry).room then
          ({ (s.setInode dentry (some ⟨s.inodeCount, 0, true⟩)).setInode
                dentry.dParent (some { dir with iSize := dir.iSize + 1 }) with
              inodeCount := s.inodeCount + 1 }, 0)
        else (s, -enomem)
      else (s, -enotsupp)
  | _ => (s, -enotsupp)

/-- The name `sys_mkdir` gives the new directory. -/
def mkdirName (name : List UInt8) : Name :=
  name.dropWhile (fun char => char = slash)

def sysMkdir (env : Env) (s : State) (name : List UInt8) :
    Option (State × Int) :=
  let parent := s.pwd.dentry
  let unit := mkdirName name
  let dentry := s.newDentry parent unit
  if env.room dentry then
    match s.inode parent with
    | none => none
    | some dir =>
        match (s.dAlloc parent unit).vfsMkdir env dir dentry with
        | (s, ret) =>
            if ret < 0 then some (s.dput dentry, ret) else some (s, ret)
  else none

def sysChdir (env : Env) (s : State) (path : List UInt8) :
    Option (State × Int) :=
  match s.pathWalk env path with
  | none => none
  | some (s, .error ret) => some (s, ret)
  | some (s, .ok nd) => some ({ s with pwd := nd }, 0)

def getFsType (env : Env) (name : Name) : Option FsType :=
  env.fsTypes.find? (fun fsType => fsType.name = name)

def doMount (env : Env) (type : Name) (devName : Option Name) :
    Except Int FileSystem :=
  match getFsType env type with
  | none => .error (-enoent)
  | some fsType =>
      match fsType.mount devName with
      | none => .error (-eio)
      | some fs => .ok fs

/-- The inode of the root of a file system that is being mounted, and the
number of inodes made in memory. -/
def rootInode (s : State) : FileSystem → Inode × Nat
  | .ramfs => (⟨s.inodeCount, 0, true⟩, s.inodeCount + 1)
  | .disk volume => (volume.rootInode, s.inodeCount)

/-- `add_mount`, with the root dentry of the new file system. -/
def addMount (s : State) (mountedOn : Option Path) (fs : FileSystem) :
    State :=
  let root := s.rootInode fs
  { (s.setInode (.root s.mounts.length) (some root.1)).setSubdirs
      (.root s.mounts.length) [] with
    mounts := s.mounts ++ [⟨mountedOn, fs⟩]
    inodeCount := root.2 }

def sysMount (env : Env) (s : State) (devName : Option Name)
    (path : List UInt8) (type : Option Name) : Option (State × Int) :=
  match type with
  | none => some (s, -einval)
  | some type =>
      match s.pathWalk env path with
      | none => none
      | some (s, .error ret) => some (s, ret)
      | some (s, .ok nd) =>
          if env.mountRoom then
            match doMount env type devName with
            | .error ret => some (s, ret)
            | .ok fs => some (s.addMount (some nd) fs, 0)
          else some (s, -enomem)

/-- Before `mount_root`. -/
def initial : State where
  mounts := []
  subdirs := fun _ => []
  inode := fun _ => none
  inodeCount := 1
  root := ⟨0, .root 0⟩
  pwd := ⟨0, .root 0⟩

/-- The state after a `mount_root` that returns 0. -/
def mountRoot (fs : FileSystem) : State :=
  initial.addMount none fs

def pathStackSize : Nat := 256

/-- The first loop of `sys_getcwd`, of at most `fuel` iterations; the dentry
pushed last is the first of `stack`. -/
def climb (s : State) : Nat → Path → List Dentry → Option (List Dentry)
  | 0, _, _ => none
  | fuel + 1, cwd, stack =>
      if cwd.dentry = s.root.dentry then some stack
      else if cwd.dentry = .root cwd.mnt then
        match s.followUp cwd with
        | none => none
        | some cwd => climb s fuel cwd stack
      else if pathStackSize ≤ stack.length + 1 then
        some (cwd.dentry :: stack)
      else
        climb s fuel ⟨cwd.mnt, cwd.dentry.dParent⟩ (cwd.dentry :: stack)

/-- The second loop of `sys_getcwd`: the text in `buff`. -/
def writeNames (size : Nat) : List Dentry → List UInt8 → List UInt8
  | [], buff => buff
  | dentry :: stack, buff =>
      let buff := buff ++ slash :: dentry.dName
      if size ≤ buff.length then buff else writeNames size stack buff

/-- `sys_getcwd`: the text it writes in front of a zero; its length is the
value returned. -/
def sysGetcwd (s : State) (fuel size : Nat) : Option (List UInt8) :=
  match s.climb fuel s.pwd [] with
  | none => none
  | some [] => some [slash]
  | some stack => some (writeNames size stack [])

end Witos.Vfs.State
