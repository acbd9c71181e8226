import ExoOS.Vfs.Lookup

/-!
# File systems and the system calls on them

Path calls of `syscall/file_syscalls.c` with their helpers, the `vfs_*` functions they use, and the part of
`sys_execve` that finds the file. `FsOps` is the table `fs_ops_t`, over a state that stands for all mounted file
systems; an operation is `none` where the table has a null pointer.

`Sys` is the view of one task. Its credentials `c` do not change in these calls. A call is `none` when a path
lookup does not return. `n` bounds the rounds of each lookup.

A file holds the vnode made when it was opened, so its attributes are those of that moment.
-/

namespace ExoOS.Vfs

open Sched (Uid Cred EPERM ENOMEM EACCES EINVAL TASK_MAX_GROUPS)

def ENOEXEC : Int := 8

def CAP_DAC_OVERRIDE : Nat := 1
def CAP_DAC_READ_SEARCH : Nat := 2
def CAP_FOWNER : Nat := 3

abbrev Flags := BitVec 32
abbrev Bytes := List (BitVec 8)

def O_ACCMODE : Flags := 3
def O_CREAT : Flags := 0x40
def O_EXCL : Flags := 0x80
def O_TRUNC : Flags := 0x200
def O_APPEND : Flags := 0x400
def O_CLOEXEC : Flags := 0x80000

def AT_FDCWD : Int := -100
def AT_SYMLINK_NOFOLLOW : Flags := 0x100
def AT_REMOVEDIR : Flags := 0x200
def AT_EACCESS : Flags := 0x200
def AT_NO_AUTOMOUNT : Flags := 0x800
def AT_EMPTY_PATH : Flags := 0x1000

def S_ISVTX : Mode := 0o1000

def FD_TABLE_SIZE : Nat := 256

def has (flags bit : BitVec 32) : Bool := flags &&& bit != 0

/-! ### Operations of a file system -/

structure FsOps (σ : Type) where
  vnode : σ → Ino → Vnode
  lookup : σ → Ino → Path → Option Ino
  readlink : σ → Ino → Option Path
  stat : σ → Ino → Int
  openHook : σ → Ino → Flags → Int
  truncate : σ → Ino → Nat → Option (Int × σ)
  create : σ → Ino → Path → Mode → Option (Option Ino × σ)
  unlink : σ → Ino → Path → Option (Int × σ)
  rmdir : σ → Ino → Path → Option (Int × σ)
  chmod : σ → Ino → Mode → Option σ
  chown : σ → Ino → Uid → Uid → Option σ

variable {σ : Type}

/-! ### Access checks -/

/-- Requested and granted permissions: 4 to read, 2 to write, 1 to execute or search. -/
abbrev Access := BitVec 3

def inGroup (c : Cred) (gid : Uid) : Bool :=
  c.gid == gid || c.egid == gid || c.fsgid == gid ||
    (List.range (min c.groupCount TASK_MAX_GROUPS)).any fun i => c.groups i == gid

def classPerm (c : Cred) (v : Vnode) : Access :=
  if c.fsuid = v.uid then v.mode.extractLsb' 6 3
  else if inGroup c v.gid then v.mode.extractLsb' 3 3
  else v.mode.extractLsb' 0 3

def checkVnodeAccess (c : Cred) (v : Vnode) (req : Access) : Int :=
  if req &&& 5 ≠ 0 ∧ c.capable CAP_DAC_READ_SEARCH then 0
  else if c.capable CAP_DAC_OVERRIDE ∧ (req &&& 1 = 0 ∨ v.isDir ∨ has v.mode 0o111) then 0
  else if req &&& 4 ≠ 0 ∧ classPerm c v &&& 4 = 0 then -EACCES
  else if req &&& 2 ≠ 0 ∧ classPerm c v &&& 2 = 0 then -EACCES
  else if req &&& 1 ≠ 0 ∧ classPerm c v &&& 1 = 0 then -EACCES
  else 0

/-! ### The task's view -/

structure OpenFile where
  vnode : Vnode
  flags : Flags
  offset : Nat
  path : Path

structure Sys (σ : Type) where
  fs : σ
  root : Option Ino
  mounts : List Mount
  /-- The descriptors of files with a vnode. -/
  files : Nat → Option OpenFile
  cwd : Path
  umask : Mode

def Sys.withFs (s : Sys σ) (fs : σ) : Sys σ := { s with fs := fs }

def Sys.setFile (s : Sys σ) (fd : Nat) (f : OpenFile) : Sys σ :=
  { s with files := Function.update s.files fd (some f) }

def Sys.fdGet (s : Sys σ) (fd : Int) : Option OpenFile :=
  if 0 ≤ fd ∧ fd < FD_TABLE_SIZE then s.files fd.toNat else none

def Sys.fdSlot (s : Sys σ) : Option Nat := (List.range FD_TABLE_SIZE).find? fun fd => (s.files fd).isNone

/-- `resolve_path`; also the start of `sys_execve`, which takes an empty path. -/
def Sys.resolvePath (s : Sys σ) (upath : Path) : Option Path :=
  if upath.head? = some '/' then pathNormalize upath else pathJoin s.cwd upath

def Sys.resolvePathAt (s : Sys σ) (dirfd : Int) (upath : Path) : Except Int Path :=
  let orInval (p : Option Path) : Except Int Path := p.elim (.error (-EINVAL)) .ok
  if upath = [] then .error (-EINVAL)
  else if upath.head? = some '/' then orInval (pathNormalize upath)
  else if dirfd = AT_FDCWD then orInval (pathJoin s.cwd upath)
  else
    match s.fdGet dirfd with
    | none => .error (-EBADF)
    | some f =>
      if !f.vnode.isDir then .error (-ENOTDIR)
      else if f.path = [] then .error (-EINVAL)
      else orInval (pathJoin f.path upath)

namespace FsOps

variable (F : FsOps σ) (n : Nat) (c : Cred) (s : Sys σ)

def tree : Tree where
  root := s.root
  mounts := s.mounts
  vnode := F.vnode s.fs
  lookup := fun d => some (F.lookup s.fs d)
  readlink := F.readlink s.fs

def node (v : Ino) : Vnode := F.vnode s.fs v

/-- `vfs_lookup` -/
def find (path : Path) (follow : Bool) : Option (Except Int Ino) := ((F.tree s).vfsLookup n path follow).res

def withFound {α : Type} (path : Path) (follow : Bool) (err : Int → α) (f : Ino → Option α) : Option α :=
  match F.find n s path follow with
  | none => none
  | some (.error e) => some (err e)
  | some (.ok v) => f v

def checkPathAccess (path : Path) (follow : Bool) (req : Access) : Option Int :=
  F.withFound n s path follow id fun v => some (checkVnodeAccess c (F.node s v) req)

def checkParentDirWx (path : Path) : Option Int :=
  if pathBasename (VFS_NAME_MAX + 1) path = [] then some (-EINVAL)
  else F.checkPathAccess n c s (pathDirname path) true 3

def stickyCheckUnlinkPath (path : Path) : Option Int :=
  F.withFound n s (pathDirname path) true id fun parent =>
    if !has (F.node s parent).mode S_ISVTX then some 0
    else if c.capable CAP_FOWNER then some 0
    else
      F.withFound n s path false id fun victim =>
        some (if c.euid = (F.node s victim).uid ∨ c.euid = (F.node s parent).uid then 0 else -EPERM)

/-! ### Changes to a directory -/

/-- The common part of `vfs_unlink` and `vfs_rmdir`: the operation is called on the parent directory. -/
def onParent (path : Path) (op : Ino → Path → Int × σ) : Option (Int × Sys σ) :=
  match splitPath path with
  | none => some (-EINVAL, s)
  | some (parent, name) =>
    F.withFound n s parent true (fun e => (e, s)) fun d => some ((op d name).1, s.withFs (op d name).2)

def vfsUnlink (path : Path) : Option (Int × Sys σ) :=
  F.onParent n s path fun d name => (F.unlink s.fs d name).getD (- EIO, s.fs)

def vfsRmdir (path : Path) : Option (Int × Sys σ) :=
  F.onParent n s path fun d name => ((F.rmdir s.fs d name).or (F.unlink s.fs d name)).getD (- EIO, s.fs)

/-- `apply_vnode_owner`; without a `chown` only the vnode changes. -/
def applyVnodeOwner (fs : σ) (v : Vnode) (owner group : Uid) : Vnode × σ :=
  match F.chown fs v.ino owner group with
  | some fs => (F.vnode fs v.ino, fs)
  | none =>
    ({ v with uid := if owner.msb then v.uid else owner, gid := if group.msb then v.gid else group }, fs)

def applyVnodeMode (fs : σ) (v : Vnode) (mode : Mode) : Vnode × σ :=
  match F.chmod fs v.ino mode with
  | some fs => (F.vnode fs v.ino, fs)
  | none => ({ v with mode := (v.mode &&& S_IFMT) ||| (mode &&& 0o7777) }, fs)

def applyOwnerMode (fs : σ) (v : Vnode) (mode : Mode) : Vnode × σ :=
  let r := F.applyVnodeOwner fs v c.fsuid c.fsgid
  F.applyVnodeMode r.2 r.1 mode

def createMode (mode dflt : Mode) : Mode := (if mode = 0 then dflt else mode) &&& ~~~s.umask

/-! ### `open` -/

/-- The permissions `do_open_abs` asks for. Access mode 3 counts as reading. -/
def needFor (flags : Flags) : Access :=
  if flags &&& O_ACCMODE = 1 then 2 else if flags &&& O_ACCMODE = 2 then 6 else 4

def openTrunc (v : Vnode) (flags : Flags) : Vnode × σ :=
  if has flags O_TRUNC && v.isReg && flags &&& O_ACCMODE != 0 then
    match F.truncate s.fs v.ino 0 with
    | some (_, fs) => ({ v with size := (F.vnode fs v.ino).size }, fs)
    | none => (v, s.fs)
  else (v, s.fs)

/-- `file_alloc` and `fd_alloc`; `mem` says if there is memory for the file. -/
def installFile (path : Path) (flags : Flags) (mem : Bool) (v : Vnode) : Int × Sys σ :=
  if !mem then (-ENOMEM, s)
  else
    match s.fdSlot with
    | none => (-EMFILE, s)
    | some fd =>
      let f : OpenFile :=
        { vnode := v, flags := flags &&& ~~~O_CLOEXEC, offset := if has flags O_APPEND then v.size else 0
          path := path }
      (fd, s.setFile fd f)

def openVnode (path : Path) (flags : Flags) (mem : Bool) (v : Vnode) : Int × Sys σ :=
  let acc := checkVnodeAccess c v (needFor flags)
  if acc < 0 then (acc, s)
  else if v.isDir && needFor flags &&& 2 != 0 then (-EISDIR, s)
  else
    let r := F.openTrunc s v flags
    let hook := F.openHook r.2 v.ino flags
    if hook < 0 then (hook, s.withFs r.2) else installFile (s.withFs r.2) path flags mem r.1

def openCreate (path : Path) (flags : Flags) (mode : Mode) (mem : Bool) : Option (Int × Sys σ) :=
  F.withFound n s (pathDirname path) true (fun e => (e, s)) fun parent =>
    let acc := checkVnodeAccess c (F.node s parent) 3
    if acc < 0 then some (acc, s)
    else if !(F.node s parent).isDir then some (-ENOTDIR, s)
    else
      let mode := createMode s mode 0o644
      match F.create s.fs parent (pathBasename (VFS_NAME_MAX + 1) path) mode with
      | none => some (-EPERM, s)
      | some (none, fs) => some (- EIO, s.withFs fs)
      | some (some v, fs) =>
        let r := F.applyOwnerMode c fs (F.vnode fs v) mode
        some (F.openVnode c (s.withFs r.2) path flags mem r.1)

def doOpenAbs (path : Path) (flags : Flags) (mode : Mode) (mem : Bool) : Option (Int × Sys σ) :=
  match F.find n s path true with
  | none => none
  | some (.ok v) =>
    if has flags O_EXCL then some (-EEXIST, s) else some (F.openVnode c s path flags mem (F.node s v))
  | some (.error e) =>
    if has flags O_CREAT ∧ e = -ENOENT then F.openCreate n c s path flags mode mem else some (e, s)

def withPath (dirfd : Int) (upath : Path) (f : Path → Option (Int × Sys σ)) : Option (Int × Sys σ) :=
  match s.resolvePathAt dirfd upath with
  | .error e => some (e, s)
  | .ok path => f path

/-- `sys_open`; `resolve_path` is `resolve_path_at` with `AT_FDCWD`. -/
def sysOpen (upath : Path) (flags : Flags) (mode : Mode) (mem : Bool) : Option (Int × Sys σ) :=
  withPath s AT_FDCWD upath fun path => F.doOpenAbs n c s path flags mode mem

/-! ### Calls that change a directory -/

def andIf (check : Option Int) (f : Option (Int × Sys σ)) : Option (Int × Sys σ) :=
  match check with
  | none => none
  | some r => if r < 0 then some (r, s) else f

def sysUnlinkat (dirfd : Int) (upath : Path) (flags : Flags) : Option (Int × Sys σ) :=
  if has flags (~~~AT_REMOVEDIR) then some (-EINVAL, s)
  else
    withPath s dirfd upath fun path =>
      andIf s (F.checkParentDirWx n c s path) <|
        andIf s (F.stickyCheckUnlinkPath n c s path) <|
          if has flags AT_REMOVEDIR then F.vfsRmdir n s path else F.vfsUnlink n s path

def sysFstatat (dirfd : Int) (upath : Path) (flags : Flags) : Option Int :=
  if has flags (~~~(AT_SYMLINK_NOFOLLOW ||| AT_NO_AUTOMOUNT ||| AT_EMPTY_PATH)) then some (-EINVAL)
  else if has flags AT_EMPTY_PATH ∧ upath = [] then
    -- `sys_fstat`
    match s.fdGet dirfd with
    | none => some (-EBADF)
    | some f => some (F.stat s.fs f.vnode.ino)
  else
    match s.resolvePathAt dirfd upath with
    | .error e => some e
    | .ok path => F.withFound n s path (!has flags AT_SYMLINK_NOFOLLOW) id fun v => some (F.stat s.fs v)

/-- The decision of `sys_faccessat`, which has a copy of the rule. -/
def statAccess (c : Cred) (v : Vnode) (mode : Access) : Int :=
  if mode = 0 then 0
  else if c.capable CAP_DAC_OVERRIDE then 0
  else if mode &&& 4 ≠ 0 ∧ classPerm c v &&& 4 = 0 then -EACCES
  else if mode &&& 2 ≠ 0 ∧ classPerm c v &&& 2 = 0 then -EACCES
  else if mode &&& 1 ≠ 0 ∧ classPerm c v &&& 1 = 0 then -EACCES
  else 0

def sysFaccessat (dirfd : Int) (upath : Path) (mode : BitVec 32) (flags : Flags) : Option Int :=
  if has flags (~~~(AT_EACCESS ||| AT_SYMLINK_NOFOLLOW)) then some (-EINVAL)
  else if has mode (~~~7) then some (-EINVAL)
  else
    -- `sys_fstatat`; what it reports are the attributes of a fresh vnode
    match s.resolvePathAt dirfd upath with
    | .error e => some e
    | .ok path =>
      F.withFound n s path (!has flags AT_SYMLINK_NOFOLLOW) id fun v =>
        let r := F.stat s.fs v
        if r < 0 then some r else some (statAccess c (F.node s v) (mode.setWidth 3))

def sysChdir (upath : Path) : Option (Int × Sys σ) :=
  withPath s AT_FDCWD upath fun path =>
    F.withFound n s path true (fun e => (e, s)) fun v =>
      if !(F.node s v).isDir then some (-ENOTDIR, s)
      else
        let r := checkVnodeAccess c (F.node s v) 1
        if r < 0 then some (r, s) else some (0, { s with cwd := path })

/-- `sys_execve` up to the point where the file is read; `load` is the result of all that follows. -/
def sysExecve (upath : Path) (load : Int) : Option Int :=
  match s.resolvePath upath with
  | none => some (-EINVAL)
  | some path =>
    F.withFound n s path true id fun v =>
      let size := (F.node s v).size
      if size = 0 ∨ 64 * 1024 * 1024 < size then some (-ENOEXEC) else some load

end FsOps

end ExoOS.Vfs
