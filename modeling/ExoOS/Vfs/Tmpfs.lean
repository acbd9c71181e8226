import ExoOS.Vfs.Calls

/-!
# tmpfs

The operations of `fs/tmpfs/tmpfs.c` that `FsOps` has. Inodes are numbered by their place in `inodes` and are kept when
the last reference goes. `mem i` says whether the `i`-th allocation to come succeeds; whether a buffer must be grown
is left to it.
-/

namespace ExoOS.Vfs

open List Option

open Sched (Uid ENOMEM EINVAL)

def ENOSPC : Int := 28
def ENOTEMPTY : Int := 39

/-- `tmpfs_inode_t`; `data` is the first `size` bytes of the buffer. -/
structure Inode where
  mode : Mode
  uid : Uid
  gid : Uid
  data : Bytes
  entries : List (Path × Ino)
  target : Option Path
  deriving Inhabited

def Inode.new (mode : Mode) : Inode :=
  { mode := mode, uid := 0, gid := 0, data := [], entries := [], target := none }

structure Tmpfs where
  inodes : List Inode
  mem : Nat → Bool

namespace Tmpfs

variable (s : Tmpfs)

def inode (v : Ino) : Inode := s.inodes[v]?.getD default

def modify (v : Ino) (f : Inode → Inode) : Tmpfs := { s with inodes := s.inodes.modify v f }

def kzalloc : Bool × Tmpfs := (s.mem 0, { s with mem := fun i => s.mem (i + 1) })

/-- `make_vnode_from_ti` -/
def vnode (v : Ino) : Vnode :=
  let ti := s.inode v
  { ino := v, mode := ti.mode, uid := ti.uid, gid := ti.gid, size := ti.data.length }

def dirLookup (d : Ino) (name : Path) : Option Ino := ((s.inode d).entries.find? (·.1 == name)).map (·.2)

def dirAdd (d : Ino) (name : Path) (child : Ino) : Bool × Tmpfs :=
  if s.kzalloc.1 then
    (true, s.kzalloc.2.modify d fun ti => { ti with entries := (name.take VFS_NAME_MAX, child) :: ti.entries })
  else (false, s.kzalloc.2)

def dirRemove (d : Ino) (name : Path) : Int × Tmpfs :=
  if (s.dirLookup d name).isSome then
    (0, s.modify d fun ti => { ti with entries := ti.entries.eraseP (·.1 == name) })
  else (-ENOENT, s)

def inodeAlloc (ti : Inode) : Option Ino × Tmpfs :=
  if s.kzalloc.1 then (some s.inodes.length, { s.kzalloc.2 with inodes := s.inodes ++ [ti] }) else (none, s.kzalloc.2)

/-- The end of `tmpfs_create`, `tmpfs_mkdir` and `tmpfs_symlink`: the entry, then the vnode. -/
def addAndMake (d : Ino) (name : Path) (v : Ino) : Option Ino × Tmpfs :=
  let r := s.dirAdd d name v
  if r.1 then (if r.2.kzalloc.1 then some v else none, r.2.kzalloc.2) else (none, r.2)

def create (d : Ino) (name : Path) (mode : Mode) : Option Ino × Tmpfs :=
  if (s.dirLookup d name).isSome then (none, s)
  else
    match s.inodeAlloc (.new (S_IFREG ||| (mode &&& 0xFFF))) with
    | (none, s) => (none, s)
    | (some v, s) => s.addAndMake d name v

def rmdir (d : Ino) (name : Path) : Int × Tmpfs :=
  match s.dirLookup d name with
  | none => (-ENOENT, s)
  | some child =>
    if !(s.vnode child).isDir then (-ENOTDIR, s)
    else if 2 < (s.inode child).entries.length then (-ENOTEMPTY, s)
    else s.dirRemove d name

def truncate (v : Ino) (size : Nat) : Int × Tmpfs :=
  if size ≤ (s.inode v).data.length then (0, s.modify v fun ti => { ti with data := ti.data.take size })
  else if s.kzalloc.1 then
    (0, s.kzalloc.2.modify v fun ti => { ti with data := ti.data ++ replicate (size - ti.data.length) 0 })
  else (-ENOMEM, s.kzalloc.2)

def chmod (v : Ino) (mode : Mode) : Tmpfs :=
  s.modify v fun ti => { ti with mode := (ti.mode &&& S_IFMT) ||| (mode &&& 0o7777) }

def chown (v : Ino) (owner group : Uid) : Tmpfs :=
  s.modify v fun ti =>
    { ti with uid := if owner.msb then ti.uid else owner, gid := if group.msb then ti.gid else group }

def ops : FsOps Tmpfs where
  vnode := vnode
  lookup := dirLookup
  readlink s v := (s.inode v).target.map (·.take (VFS_MOUNT_PATH_MAX - 1))
  stat _ _ := 0
  openHook _ _ _ := 0
  truncate s v size := some (s.truncate v size)
  create s d name mode := some (s.create d name mode)
  unlink s d name := some (s.dirRemove d name)
  rmdir s d name := some (s.rmdir d name)
  chmod s v mode := some (s.chmod v mode)
  chown s v owner group := some (s.chown v owner group)

variable {s}

theorem inode_modify (v w : Ino) (f : Inode → Inode) :
    (s.modify v f).inode w = if w = v ∧ v < s.inodes.length then f (s.inode w) else s.inode w := by
  by_cases hw : w = v
  · subst hw
    by_cases hl : w < s.inodes.length <;> simp [inode, modify, hl]
  · simp [inode, modify, hw, Ne.symm hw]

theorem find?_eraseP_ne {l : List (Path × Ino)} {name m : Path} (h : m ≠ name) :
    (l.eraseP (·.1 == name)).find? (·.1 == m) = l.find? (·.1 == m) := by
  induction l with
  | nil => rfl
  | cons a l ih =>
    by_cases ha : a.1 = name
    · simp [ha, Ne.symm h]
    · rw [eraseP_cons_of_neg (by simpa using ha), find?_cons, find?_cons, ih]

end Tmpfs

end ExoOS.Vfs
