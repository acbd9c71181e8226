import ExoOS.Sched.Cred
import ExoOS.Vfs.Search

/-!
# A regular file and its vnodes

`ext2_lookup` and `tmpfs_lookup` make a new vnode from the inode each time, and an open file keeps the one it was
opened with. What a call changes in its vnode only, nobody else sees. So `write` clears the set-uid bit for itself
(`suid_stays`) and appends behind the end that its own vnode knows (`append_overwrites`); and an inode of ext2 has
16 bits for an owner of 32 (`owner_lost`). `suid_dropped`, `append_in_order` and `owner_kept` say when no harm is
done.

`sendfile` writes by `sys_write`, and is as many writes here. A descriptor stands for all those that share its file.
-/

namespace ExoOS.Vfs

open Sched (Uid Cred Task ExecFile)
open Function Transition List Nat

def CAP_FSETID : Nat := 4
def S_ISUID : Mode := 0o4000
def S_ISGID : Mode := 0o2000

abbrev Block := Nat → BitVec 8

/-- `ext2_inode_t`, with what the logical blocks hold that are mapped. -/
structure Ext2Inode where
  mode : BitVec 16
  uid : BitVec 16
  gid : BitVec 16
  size : BitVec 32
  blocks : Nat → Option Block

inductive FileInode
  | ext2 (blockSize : Nat) (i : Ext2Inode)
  | tmpfs (ti : Inode)

def byteAt (bs : Nat) (blocks : Nat → Option Block) (p : Nat) : BitVec 8 := (blocks (p / bs)).elim 0 fun b => b (p % bs)

def overwrite (data buf : Bytes) (off : Nat) : Bytes :=
  (data ++ replicate (off - data.length) 0).take off ++ buf ++ data.drop (off + buf.length)

structure WriteEnv where
  /-- What is on the disk where a new block is allocated, by its index in the file. -/
  fresh : Nat → Block
  /-- An `ext2_write` that ends early or cannot store the inode: the bytes it counts, and what it leaves as blocks and
  as size in the vnode. -/
  short : Option (Nat × (Nat → Option Block) × Nat)
  /-- `ensure_capacity` of tmpfs -/
  mem : Bool

/-- The loop of `ext2_write`, when blocks can be had. A round takes at least one byte, so that `buf.length` rounds are
enough. -/
def ext2WriteLoop (bs : Nat) (fresh : Nat → Block) : Nat → (Nat → Option Block) → Bytes → Nat → Nat → Option Block
  | 0, blocks, _, _ => blocks
  | n + 1, blocks, buf, pos =>
    let logBlk := pos / bs % 2 ^ 32
    let blkOff := pos % bs
    let copy := min (bs - blkOff) buf.length
    let old := (blocks logBlk).getD (fresh logBlk)
    let new : Block := fun k => if blkOff ≤ k ∧ k < blkOff + copy then buf.getD (k - blkOff) 0 else old k
    if buf = [] then blocks
    else ext2WriteLoop bs fresh n (update blocks logBlk (some new)) (buf.drop copy) (pos + copy)

namespace FileInode

/-- `make_vnode` and `make_vnode_from_ti`; the number of the inode does not matter here. -/
def vnode : FileInode → Vnode
  | .ext2 _ i =>
    let bits : Mode := (i.mode &&& 0xFFF).setWidth 32
    let ifmt := i.mode &&& 0xF000
    { ino := 0
      mode := if ifmt = 0x8000 then S_IFREG ||| bits else if ifmt = 0x4000 then S_IFDIR ||| bits
        else if ifmt = 0xA000 then S_IFLNK ||| bits else bits
      uid := i.uid.setWidth 32
      gid := i.gid.setWidth 32
      size := i.size.toNat }
  | .tmpfs ti => { ino := 0, mode := ti.mode, uid := ti.uid, gid := ti.gid, size := ti.data.length }

/-- What `ext2_read` and `tmpfs_read` deliver. -/
def contents : FileInode → Bytes
  | .ext2 bs i => (range i.size.toNat).map (byteAt bs i.blocks)
  | .tmpfs ti => ti.data

/-- `ext2_write` and `tmpfs_write` of some bytes -/
def write (env : WriteEnv) (v : Vnode) (buf : Bytes) (off : Nat) : FileInode → Option (Nat × FileInode × Vnode)
  | .ext2 bs i =>
    match env.short with
    | some (n, blocks, size) => some (n, .ext2 bs { i with blocks := blocks }, { v with size := size })
    | none =>
      let blocks := ext2WriteLoop bs env.fresh buf.length i.blocks buf off
      let size := if i.size.toNat < off + buf.length then BitVec.ofNat 32 (off + buf.length) else i.size
      some (buf.length, .ext2 bs { i with blocks := blocks, size := size }, { v with size := size.toNat })
  | .tmpfs ti =>
    let data := overwrite ti.data buf off
    if env.mem then some (buf.length, .tmpfs { ti with data := data }, { v with size := data.length }) else none

/-- `ext2_truncate` and `tmpfs_truncate` to 0 -/
def truncate (v : Vnode) : FileInode → FileInode × Vnode
  | .ext2 bs i => (.ext2 bs { i with size := 0, blocks := fun _ => none }, { v with size := 0 })
  | .tmpfs ti => (.tmpfs { ti with data := [] }, { v with size := 0 })

def chmod (v : Vnode) (mode : Mode) : FileInode → FileInode × Vnode
  | .ext2 bs i =>
    (.ext2 bs { i with mode := (i.mode &&& 0xF000) ||| (mode &&& 0xFFF).setWidth 16 },
      { v with mode := (v.mode &&& S_IFMT) ||| (mode &&& 0o7777) })
  | .tmpfs ti =>
    let mode := (ti.mode &&& S_IFMT) ||| (mode &&& 0o7777)
    (.tmpfs { ti with mode := mode }, { v with mode := mode })

end FileInode

structure FileState where
  inode : FileInode
  files : Nat → Option OpenFile

/-- The new mode, if the task may change that of `v`: `sys_fchmodat` and `sys_fchmod`. -/
def desiredMode (c : Cred) (v : Vnode) (mode : Mode) : Option Mode :=
  if c.fsuid ≠ v.uid ∧ !c.capable CAP_FOWNER then none
  else some (if c.capable CAP_FSETID then mode &&& 0o7777 else mode &&& 0o7777 &&& ~~~(S_ISUID ||| S_ISGID))

def clearSuid (v : Vnode) : Vnode :=
  if v.isReg && has v.mode S_ISUID then { v with mode := v.mode &&& ~~~S_ISUID } else v

inductive FileEvent
  | openFile (c : Cred) (fd : Nat) (flags : Flags)
  /-- `sys_write`, or `sys_pwrite64` at an offset -/
  | write (c : Cred) (env : WriteEnv) (fd : Nat) (buf : Bytes) (pos : Option Nat)
  | chmod (c : Cred) (mode : Mode)
  | fchmod (c : Cred) (fd : Nat) (mode : Mode)
  | close (fd : Nat)

/-- A call that succeeds. -/
def fileStep (s : FileState) : FileEvent → Option FileState
  | .openFile c fd flags =>
    let v := s.inode.vnode
    let need := FsOps.needFor flags
    if (s.files fd).isSome ∨ has flags O_EXCL ∨ checkVnodeAccess c v need < 0 ∨ v.isDir ∧ need &&& 2 ≠ 0 then none
    else
      let r := if has flags O_TRUNC && v.isReg && flags &&& O_ACCMODE != 0 then s.inode.truncate v else (s.inode, v)
      let offset := if has flags O_APPEND then r.2.size else 0
      some ⟨r.1, update s.files fd (some ⟨r.2, flags &&& ~~~O_CLOEXEC, offset, []⟩)⟩
  | .write c env fd buf pos =>
    if buf = [] then some s
    else (s.files fd).bind fun f =>
      if f.flags &&& O_ACCMODE = 0 ∨ f.vnode.isDir ∨ checkVnodeAccess c f.vnode 2 < 0 then none
      else
        let off := pos.getD (if has f.flags O_APPEND then f.vnode.size else f.offset)
        (s.inode.write env f.vnode buf off).map fun r =>
          let v := if 0 < r.1 then clearSuid r.2.2 else r.2.2
          let offset := if pos.isSome then f.offset else off + r.1
          ⟨r.2.1, update s.files fd (some { f with vnode := v, offset := offset })⟩
  | .chmod c mode =>
    (desiredMode c s.inode.vnode mode).map fun m => { s with inode := (s.inode.chmod s.inode.vnode m).1 }
  | .fchmod c fd mode =>
    (s.files fd).bind fun f => (desiredMode c f.vnode mode).map fun m =>
      let r := s.inode.chmod f.vnode m
      ⟨r.1, update s.files fd (some { f with vnode := r.2 })⟩
  | .close fd => some { s with files := update s.files fd none }

/-- What `sys_execve` takes from a vnode. -/
def Vnode.execFile (v : Vnode) : ExecFile := ⟨has v.mode S_ISUID, has v.mode S_ISGID, v.uid, v.gid⟩

def Vnode.owner (v : Vnode) : Uid × Uid := (v.uid, v.gid)

variable {s s' s0 : FileState} {i i' : FileInode} {v v' : Vnode} {e : FileEvent} {es : List FileEvent}

/-! ### Modes and owners -/

theorem write_keeps {env : WriteEnv} {buf : Bytes} {off n : Nat} (h : i.write env v buf off = some (n, i', v')) :
    i'.vnode.mode = i.vnode.mode ∧ i'.vnode.owner = i.vnode.owner ∧ v'.owner = v.owner := by
  cases i with
  | ext2 bs i =>
    simp only [FileInode.write] at h
    split at h <;> cases h <;> exact ⟨rfl, rfl, rfl⟩
  | tmpfs ti =>
    simp only [FileInode.write] at h
    split at h <;> cases h
    exact ⟨rfl, rfl, rfl⟩

theorem truncate_keeps (i : FileInode) (v : Vnode) : (i.truncate v).1.vnode.mode = i.vnode.mode ∧
    (i.truncate v).1.vnode.owner = i.vnode.owner ∧ (i.truncate v).2.owner = v.owner := by
  cases i <;> exact ⟨rfl, rfl, rfl⟩

theorem chmod_keeps (i : FileInode) (v : Vnode) (m : Mode) : (i.chmod v m).1.vnode.owner = i.vnode.owner ∧
    (i.chmod v m).2.owner = v.owner ∧ (i.chmod v m).1.contents = i.contents := by
  cases i <;> exact ⟨rfl, rfl, rfl⟩

theorem clearSuid_owner (v : Vnode) : (clearSuid v).owner = v.owner := by
  unfold clearSuid
  split <;> rfl

theorem has_suid (m : Mode) : has m S_ISUID = m.getLsbD 11 := by
  have h : S_ISUID = BitVec.twoPow 32 11 := rfl
  rw [has, h, BitVec.and_twoPow]
  cases m.getLsbD 11 <;> rfl

theorem chmod_suid (i : FileInode) (v : Vnode) (m : Mode) : has (i.chmod v m).1.vnode.mode S_ISUID = has m S_ISUID := by
  rw [has_suid, has_suid]
  cases i with
  | ext2 bs i =>
    simp only [FileInode.chmod, FileInode.vnode]
    split_ifs <;> simp [S_IFREG, S_IFDIR, S_IFLNK]
  | tmpfs ti => simp [FileInode.chmod, FileInode.vnode, S_IFMT]

theorem desiredMode_suid {c : Cred} {mode m : Mode} (h : desiredMode c v mode = some m)
    (hoff : has mode S_ISUID = false) : has m S_ISUID = false := by
  obtain ⟨-, ⟨⟩⟩ := Option.ite_none_left_eq_some.1 h
  rw [has_suid] at hoff ⊢
  split_ifs
  · rw [BitVec.getLsbD_and, hoff]; rfl
  · rw [BitVec.getLsbD_and, BitVec.getLsbD_and, hoff]; rfl

/-- No `chmod` sets the bit. -/
def NoSuid (_ : FileState) : FileEvent → Prop
  | .chmod _ mode | .fchmod _ _ mode => has mode S_ISUID = false
  | _ => True

/-- All vnodes have the owner and the group, those of open files and the ones that lookups make. -/
structure Owned (o : Uid × Uid) (s : FileState) : Prop where
  inode : s.inode.vnode.owner = o
  file : ∀ fd, ∀ f ∈ s.files fd, f.vnode.owner = o

theorem forall_files {P : OpenFile → Prop} (h : ∀ fd, ∀ f ∈ s.files fd, P f) {x : Option OpenFile} (hx : x.elim True P)
    (fd : Nat) : ∀ fd', ∀ f ∈ update s.files fd x fd', P f := by
  refine (forall_update_iff _ fun _ x => ∀ f ∈ x, P f).2 ⟨?_, fun fd' _ => h fd'⟩
  rintro f ⟨⟩
  exact hx

/-- A call takes the bit from the mode that `chmod` gets, and keeps owners. -/
theorem fileStep_keeps (hs : fileStep s e = some s') :
    (NoSuid s e → has s.inode.vnode.mode S_ISUID = false → has s'.inode.vnode.mode S_ISUID = false) ∧
    ∀ o, Owned o s → Owned o s' := by
  cases e with
  | openFile c fd flags =>
    obtain ⟨-, ⟨⟩⟩ := Option.ite_none_left_eq_some.1 hs
    have hk := truncate_keeps s.inode s.inode.vnode
    split
    · exact ⟨fun _ h => hk.1 ▸ h,
        fun o h => ⟨hk.2.1.trans h.inode, forall_files h.file (by exact hk.2.2.trans h.inode) fd⟩⟩
    · exact ⟨fun _ h => h, fun o h => ⟨h.inode, forall_files h.file (by exact h.inode) fd⟩⟩
  | write c env fd buf pos =>
    simp only [fileStep] at hs
    split at hs
    · cases hs; exact ⟨fun _ h => h, fun _ h => h⟩
    obtain ⟨f, hf, hs⟩ := Option.bind_eq_some_iff.1 hs
    obtain ⟨-, hs⟩ := Option.ite_none_left_eq_some.1 hs
    obtain ⟨⟨n, i, v⟩, hw, rfl⟩ := Option.map_eq_some_iff.1 hs
    have hk := write_keeps hw
    refine ⟨fun _ h => hk.1 ▸ h, fun o h => ⟨hk.2.1.trans h.inode, forall_files h.file ?_ fd⟩⟩
    have hv := hk.2.2.trans (h.file fd f hf)
    dsimp only [Option.elim_some]
    split
    · exact (clearSuid_owner v).trans hv
    · exact hv
  | chmod c mode =>
    obtain ⟨m, hm, rfl⟩ := Option.map_eq_some_iff.1 hs
    exact ⟨fun hc _ => (chmod_suid ..).trans (desiredMode_suid hm hc),
      fun o h => ⟨(chmod_keeps ..).1.trans h.inode, h.file⟩⟩
  | fchmod c fd mode =>
    obtain ⟨f, hf, hs⟩ := Option.bind_eq_some_iff.1 hs
    obtain ⟨m, hm, rfl⟩ := Option.map_eq_some_iff.1 hs
    refine ⟨fun hc _ => (chmod_suid ..).trans (desiredMode_suid hm hc),
      fun o h => ⟨(chmod_keeps ..).1.trans h.inode, forall_files h.file ?_ fd⟩⟩
    exact (chmod_keeps ..).2.1.trans (h.file fd f hf)
  | close fd =>
    cases hs
    exact ⟨fun _ h => h, fun o h => ⟨h.inode, forall_files h.file (by trivial) fd⟩⟩

theorem execve_euid (t : Task) (f : ExecFile) :
    (t.execve f).cred.euid = if f.isuid && !t.noNewPrivs then f.uid else t.cred.euid := by
  have hcaps : ∀ (c : Cred) (u : Uid), (c.execCaps f u).euid = c.euid := by
    intro c u
    unfold Cred.execCaps
    dsimp only
    split_ifs <;> rfl
  unfold Task.execve
  cases t.noNewPrivs
  · simp only [Bool.false_eq_true, if_false, hcaps, Cred.execIds, Bool.not_false, Bool.and_true]
    split_ifs <;> rfl
  · simp

/-- After a write to a file that has no set-uid bit in the file system, every lookup and every `execve` sees none, until
a `chmod` sets it. -/
theorem suid_dropped {s1 s2 : FileState} {c : Cred} {env : WriteEnv} {fd : Nat} {buf : Bytes} {pos : Option Nat}
    (h : fileStep s (.write c env fd buf pos) = some s1) (hoff : has s.inode.vnode.mode S_ISUID = false)
    (hrun : Run fileStep NoSuid s1 es s2) : has s2.inode.vnode.mode S_ISUID = false ∧
      ∀ t : Task, (t.execve s2.inode.vnode.execFile).cred.euid = t.cred.euid := by
  have hlast : has s2.inode.vnode.mode S_ISUID = false :=
    hrun.inv (I := fun s => has s.inode.vnode.mode S_ISUID = false) (fun _ _ _ h hc hs => (fileStep_keeps hs).1 hc h)
      ((fileStep_keeps h).1 trivial hoff)
  refine ⟨hlast, fun t => ?_⟩
  rw [execve_euid, Vnode.execFile, hlast]
  rfl

/-- `ext2_chown`; negative numbers change nothing. -/
def ext2Chown (i : Ext2Inode) (v : Vnode) (owner group : Uid) : Ext2Inode × Vnode :=
  ({ i with
      uid := if owner.msb then i.uid else owner.setWidth 16
      gid := if group.msb then i.gid else group.setWidth 16 },
    { v with uid := if owner.msb then v.uid else owner, gid := if group.msb then v.gid else group })

/-- `ext2_create`, and the owner and mode that `do_open_abs` gives to the file. -/
def newExt2 (c : Cred) (bs : Nat) (mode umask : Mode) : FileInode × Vnode :=
  let mode := (if mode = 0 then 0o644 else mode) &&& ~~~umask
  let i : Ext2Inode := ⟨0x8000 ||| (mode &&& 0xFFF).setWidth 16, 0, 0, 0, fun _ => none⟩
  let r := ext2Chown i (FileInode.ext2 bs i).vnode c.fsuid c.fsgid
  FileInode.chmod r.2 mode (.ext2 bs r.1)

/-- `do_open_abs` creates a file on ext2 and installs it as descriptor 0, if the task may open it. -/
def createExt2 (c : Cred) (bs : Nat) (flags : Flags) (mode umask : Mode) : FileState :=
  let r := newExt2 c bs mode umask
  let file : OpenFile := ⟨r.2, flags &&& ~~~O_CLOEXEC, 0, []⟩
  ⟨r.1, fun fd => if fd = 0 ∧ 0 ≤ checkVnodeAccess c r.2 (FsOps.needFor flags) then some file else none⟩

/-! ### The opens of `Vfs/Calls.lean` -/

/-- The one file as a file system, for the part of `do_open_abs` that follows the lookup. -/
def FileInode.ops : FsOps FileInode where
  vnode i _ := i.vnode
  lookup _ _ _ := none
  readlink _ _ := none
  stat _ _ := 0
  openHook _ _ _ := 0
  truncate i _ _ := some (0, (i.truncate i.vnode).1)
  create _ _ _ _ := none
  unlink _ _ _ := none
  rmdir _ _ _ := none
  chmod _ _ _ := none
  chown _ _ _ _ := none

/-- `do_open_abs` once it has the vnode `v` of the file. -/
theorem openVnode_eq {sys : Sys FileInode} {fd : Nat} (c : Cred) (flags : Flags) (v : Vnode)
    (hfd : sys.fdSlot = some fd) : FileInode.ops.openVnode c sys [] flags true v =
      if checkVnodeAccess c v (FsOps.needFor flags) < 0 then (checkVnodeAccess c v (FsOps.needFor flags), sys)
      else if v.isDir && FsOps.needFor flags &&& 2 != 0 then (-EISDIR, sys)
      else
        let r := if has flags O_TRUNC && v.isReg && flags &&& O_ACCMODE != 0 then sys.fs.truncate v else (sys.fs, v)
        let file : OpenFile := ⟨r.2, flags &&& ~~~O_CLOEXEC, if has flags O_APPEND then r.2.size else 0, []⟩
        (fd, (sys.withFs r.1).setFile fd file) := by
  have htrunc : FileInode.ops.openTrunc sys v flags =
      let r := if has flags O_TRUNC && v.isReg && flags &&& O_ACCMODE != 0 then sys.fs.truncate v else (sys.fs, v)
      (r.2, r.1) := by
    unfold FsOps.openTrunc
    split
    · cases sys.fs <;> simp only [FileInode.ops] <;> rfl
    · rfl
  have hslot : ∀ fs, (sys.withFs fs).fdSlot = some fd := fun _ => hfd
  unfold FsOps.openVnode FsOps.installFile
  simp only [htrunc, hslot]
  rfl

/-- The step opens what `do_open_abs` opens, as the descriptor that `fd_alloc` finds. -/
theorem fileStep_openVnode {sys : Sys FileInode} {fd : Nat} {flags : Flags} (c : Cred) (hfd : sys.fdSlot = some fd)
    (hexcl : has flags O_EXCL = false) : fileStep ⟨sys.fs, sys.files⟩ (.openFile c fd flags) =
      let r := FileInode.ops.openVnode c sys [] flags true sys.fs.vnode
      if 0 ≤ r.1 then some ⟨r.2.fs, r.2.files⟩ else none := by
  have hnone : (sys.files fd).isSome = false := by
    have := find?_some hfd
    rwa [Option.isNone_iff_eq_none, ← Option.not_isSome_iff_eq_none, Bool.not_eq_true] at this
  simp only [fileStep, openVnode_eq c flags _ hfd, hnone, hexcl, Bool.false_eq_true, false_or]
  by_cases hacc : checkVnodeAccess c sys.fs.vnode (FsOps.needFor flags) < 0
  · simp only [hacc, true_or, if_true, if_neg (Int.not_le.2 hacc)]
  by_cases hdir : (sys.fs.vnode.isDir && FsOps.needFor flags &&& 2 != 0) = true
  · have hdir' : sys.fs.vnode.isDir = true ∧ FsOps.needFor flags &&& 2 ≠ 0 := by simpa using hdir
    rw [if_pos (.inr hdir'), if_neg hacc, if_pos hdir]
    exact (if_neg (show ¬ (0 : Int) ≤ -EISDIR by decide)).symm
  · have hdir' : ¬ (sys.fs.vnode.isDir = true ∧ FsOps.needFor flags &&& 2 ≠ 0) := by simpa using hdir
    rw [if_neg (not_or.2 ⟨hacc, hdir'⟩), if_neg hacc, if_neg hdir]
    exact (if_pos (Int.natCast_nonneg fd)).symm

theorem newExt2_isDir (c : Cred) (bs : Nat) (mode umask : Mode) : (newExt2 c bs mode umask).2.isDir = false := by
  have hfmt (m : Mode) : ((0x8000 : BitVec 16) ||| (m &&& 0xFFF).setWidth 16) &&& 0xF000 = 0x8000 := by
    rw [BitVec.setWidth_and, BitVec.and_or_distrib_right, BitVec.and_assoc]
    exact (congrArg (_ ||| ·) BitVec.and_zero).trans rfl
  rw [Vnode.isDir, beq_eq_false_iff_ne]
  unfold newExt2 FileInode.chmod ext2Chown FileInode.vnode
  dsimp only
  rw [if_pos (hfmt _)]
  intro h
  have hbit := congrArg (BitVec.getLsbD · 14) h
  simp [S_IFMT, S_IFDIR, S_IFREG] at hbit

theorem createExt2_openVnode (c : Cred) (bs : Nat) (flags : Flags) (mode umask : Mode) :
    let i := newExt2 c bs mode umask
    let r := FileInode.ops.openVnode c ⟨i.1, none, [], fun _ => none, [], umask⟩ [] flags true i.2
    createExt2 c bs flags mode umask = ⟨r.2.fs, r.2.files⟩ := by
  have hslot : (⟨(newExt2 c bs mode umask).1, none, [], fun _ => none, [], umask⟩ : Sys FileInode).fdSlot = some 0 :=
    rfl
  -- the new file is empty
  have htrunc : (newExt2 c bs mode umask).1.truncate (newExt2 c bs mode umask).2 = newExt2 c bs mode umask := rfl
  dsimp only
  rw [openVnode_eq c flags _ hslot, newExt2_isDir, htrunc, ite_self]
  unfold createExt2
  dsimp only
  by_cases hacc : checkVnodeAccess c (newExt2 c bs mode umask).2 (FsOps.needFor flags) < 0
  · rw [if_pos hacc]
    congr
    funext fd
    exact if_neg fun h => Int.not_le.2 hacc h.2
  · rw [if_neg hacc, if_neg (by simp)]
    congr
    funext fd
    by_cases hfd : fd = 0
    · rw [if_pos ⟨hfd, Int.not_lt.1 hacc⟩, hfd]
      have hsize : (if has flags O_APPEND then (newExt2 c bs mode umask).2.size else 0) = 0 := ite_self _
      rw [hsize]
      rfl
    · rw [if_neg fun h => hfd h.1]
      exact (update_of_ne hfd _ fun _ => none).symm

theorem setWidth_small {x : Uid} (h : x.toNat < 2 ^ 16) : x.msb = false ∧ (x.setWidth 16).setWidth 32 = x := by
  refine ⟨?_, BitVec.eq_of_toNat_eq ?_⟩
  · rw [BitVec.msb_eq_false_iff_two_mul_lt]
    omega
  · rw [BitVec.toNat_setWidth, BitVec.toNat_setWidth, mod_eq_of_lt h, mod_eq_of_lt (by omega)]

/-- A file that a task with small ids creates stays its own, and runs with nobody else's id. -/
theorem owner_kept {c : Cred} (hu : c.fsuid.toNat < 2 ^ 16) (hg : c.fsgid.toNat < 2 ^ 16) {bs : Nat} {flags : Flags}
    {mode umask : Mode} (hrun : Run fileStep Any (createExt2 c bs flags mode umask) es s) :
    Owned (c.fsuid, c.fsgid) s ∧ ∀ t : Task, (t.execve s.inode.vnode.execFile).cred.euid = t.cred.euid ∨
      (t.execve s.inode.vnode.execFile).cred.euid = c.fsuid := by
  obtain ⟨hum, hu⟩ := setWidth_small hu
  obtain ⟨hgm, hg⟩ := setWidth_small hg
  have hstart : Owned (c.fsuid, c.fsgid) (createExt2 c bs flags mode umask) := by
    constructor
    · simp [createExt2, newExt2, FileInode.chmod, ext2Chown, FileInode.vnode, Vnode.owner, hum, hgm, hu, hg]
    · intro fd f hf
      obtain ⟨-, ⟨⟩⟩ := Option.ite_none_right_eq_some.1 hf
      simp [newExt2, FileInode.chmod, ext2Chown, Vnode.owner, hum, hgm]
  have hlast : Owned (c.fsuid, c.fsgid) s := hrun.inv (fun _ _ _ h _ hs => (fileStep_keeps hs).2 _ h) hstart
  refine ⟨hlast, fun t => ?_⟩
  rw [execve_euid]
  split
  · exact .inr (Prod.mk.inj hlast.inode).1
  · exact .inl rfl

def noFailure : WriteEnv := ⟨fun _ _ => 0, none, true⟩

/-- A file without a set-uid bit, opened for writing. -/
def plainFile : FileState :=
  ⟨.tmpfs (.new (S_IFREG ||| 0o666)), fun _ => some ⟨⟨0, S_IFREG ||| 0o666, 0, 0, 0⟩, 1, 0, []⟩⟩

theorem suid_dropped_plain : ∃ s1 s2, fileStep plainFile (.write outsider noFailure 0 [1] none) = some s1 ∧
    Run fileStep NoSuid s1 [.close 0] s2 ∧ has s2.inode.vnode.mode S_ISUID = false := by
  obtain ⟨s1, hw⟩ : ∃ s1, fileStep plainFile (.write outsider noFailure 0 [1] none) = some s1 := ⟨_, rfl⟩
  have hrun : Run fileStep NoSuid s1 [.close 0] _ := .cons trivial rfl (.nil _)
  exact ⟨s1, _, hw, hrun, (suid_dropped hw rfl hrun).1⟩

/-- The owner writes a set-uid file. Who executes it then still gets the owner's id. -/
theorem suid_stays : ∃ s, exec fileStep ⟨.tmpfs { Inode.new (S_IFREG ||| 0o4755) with uid := 1000 }, fun _ => none⟩
      [.openFile outsider 0 1, .write outsider noFailure 0 [1] none, .close 0] = some s ∧ s.inode.contents = [1] ∧
    ∀ t : Task, t.noNewPrivs = false → (t.execve s.inode.vnode.execFile).cred.euid = 1000 :=
  ⟨_, rfl, rfl, fun t ht => by rw [execve_euid, ht]; rfl⟩

theorem owner_kept_outsider : ∃ s, Run fileStep Any (createExt2 outsider 1024 1 0o755 0o22) [.chmod outsider 0o700] s ∧
    Owned (1000, 1000) s :=
  have hrun := .cons trivial rfl (.nil _)
  ⟨_, hrun, (owner_kept (by decide) (by decide) hrun).1⟩

/-- User 65536 creates a set-uid file, and it runs as root. -/
theorem owner_lost : ∃ v, (createExt2 { outsider with fsuid := 65536 } 1024 1 0o4755 0o22).inode.vnode = v ∧ v.uid = 0 ∧
    ∀ t : Task, t.noNewPrivs = false → (t.execve v.execFile).cred.euid = 0 :=
  ⟨_, rfl, rfl, fun t ht => by rw [execve_euid, ht]; rfl⟩

/-! ### Appending -/

section

variable {bs pos p : Nat} {blocks : Nat → Option Block} {buf : Bytes}

/-- One round of the loop of `ext2_write`: the part of `buf` that goes into the block of `pos`. -/
theorem byteAt_update (hbs : 0 < bs) (hole : pos % bs ≠ 0 → (blocks (pos / bs)).isSome) (fresh : Block) {copy : Nat}
    (hcopy : copy ≤ bs - pos % bs) (hp : p < pos + copy) {new : Block}
    (hnew : ∀ k, new k = if pos % bs ≤ k ∧ k < pos % bs + copy then buf.getD (k - pos % bs) 0
      else (blocks (pos / bs)).getD fresh k) :
    byteAt bs (update blocks (pos / bs) (some new)) p =
      if pos ≤ p then buf.getD (p - pos) 0 else byteAt bs blocks p := by
  have hpos := div_add_mod pos bs
  have hr := mod_lt pos hbs
  have hdiv : ∀ k, k < bs → (bs * (pos / bs) + k) / bs = pos / bs ∧ (bs * (pos / bs) + k) % bs = k := fun k hk =>
    ⟨by rw [mul_add_div hbs, div_eq_of_lt hk, add_zero], by rw [mul_add_mod, mod_eq_of_lt hk]⟩
  by_cases hq : bs * (pos / bs) ≤ p
  · obtain ⟨k, rfl⟩ := Nat.exists_eq_add_of_le hq
    obtain ⟨hd, hm⟩ := hdiv k (by omega)
    simp only [byteAt, hd, hm, update_self, Option.elim_some, hnew]
    by_cases hk : pos % bs ≤ k
    · rw [if_pos ⟨hk, by omega⟩, if_pos (by omega)]
      congr 1
      omega
    · obtain ⟨b, hb⟩ := Option.isSome_iff_exists.1 (hole (by omega))
      rw [if_neg (fun h => hk h.1), if_neg (by omega), hb]
      rfl
  · have hlt : p / bs ≠ pos / bs := fun h => hq (h ▸ mul_div_le p bs)
    rw [byteAt, update_of_ne hlt, if_neg (by omega), byteAt]

theorem byteAt_ext2WriteLoop (hbs : 0 < bs) (fresh : Nat → Block) {n : Nat} (hn : buf.length ≤ n)
    (hmax : pos + buf.length < 2 ^ 32) (hole : pos % bs ≠ 0 → (blocks (pos / bs)).isSome) (hp : p < pos + buf.length) :
    byteAt bs (ext2WriteLoop bs fresh n blocks buf pos) p =
      if pos ≤ p then buf.getD (p - pos) 0 else byteAt bs blocks p := by
  induction n generalizing blocks buf pos with
  | zero => rw [if_neg (by omega)]; rfl
  | succ n ih =>
    unfold ext2WriteLoop
    dsimp only
    split
    · subst buf
      exact (if_neg (not_le.2 hp)).symm
    rw [mod_eq_of_lt (lt_of_le_of_lt (div_le_self pos bs) (by omega))]
    have hr := mod_lt pos hbs
    generalize hc : min (bs - pos % bs) buf.length = copy
    rw [ih (by rw [length_drop]; omega) (by rw [length_drop]; omega) ?_ (by rw [length_drop]; omega)]
    · split
      · rw [if_pos (by omega), getD_eq_getElem?_getD, getElem?_drop, ← getD_eq_getElem?_getD]
        congr 1
        omega
      · exact byteAt_update hbs hole (fresh (pos / bs)) (hc ▸ min_le_left _ _) (by omega) fun k => rfl
    · -- Another round starts at the beginning of a block, unless there is nothing left.
      intro hne
      have hpos := div_add_mod pos bs
      have hlt : pos % bs + copy < bs := by
        by_contra hge
        have : pos + copy = bs * (pos / bs) + bs := by omega
        rw [this, mul_add_mod, mod_self] at hne
        exact hne rfl
      have hsame : (pos + copy) / bs = pos / bs := by
        have : pos + copy = bs * (pos / bs) + (pos % bs + copy) := by omega
        rw [this, mul_add_div hbs, div_eq_of_lt hlt, add_zero]
      rw [hsame, update_self]
      rfl

end

/-- There is room behind the end of the file, and the last block is there if it is in use. -/
def FileInode.Room (env : WriteEnv) (buf : Bytes) : FileInode → Prop
  | .ext2 bs i => env.short = none ∧ 0 < bs ∧ i.size.toNat + buf.length < 2 ^ 32 ∧
      (i.size.toNat % bs ≠ 0 → (i.blocks (i.size.toNat / bs)).isSome)
  | .tmpfs _ => True

theorem write_append {env : WriteEnv} {buf : Bytes} {n : Nat} (hroom : i.Room env buf)
    (h : i.write env v buf i.vnode.size = some (n, i', v')) : i'.contents = i.contents ++ buf := by
  cases i with
  | ext2 bs i =>
    obtain ⟨hshort, hbs, hmax, hole⟩ := hroom
    change (FileInode.ext2 bs i).write env v buf i.size.toNat = _ at h
    simp only [FileInode.write, hshort] at h
    cases h
    have hsize : (if i.size.toNat < i.size.toNat + buf.length then BitVec.ofNat 32 (i.size.toNat + buf.length)
        else i.size).toNat = i.size.toNat + buf.length := by
      split
      · rw [BitVec.toNat_ofNat, mod_eq_of_lt hmax]
      · omega
    simp only [FileInode.contents]
    rw [hsize, range_add, map_append, map_map]
    congr 1
    · refine map_congr_left fun p hp => ?_
      have hp := mem_range.1 hp
      rw [byteAt_ext2WriteLoop hbs _ le_rfl hmax hole (by omega), if_neg (by omega)]
    · refine ext_getElem (by simp) fun k hk hk' => ?_
      rw [getElem_map, getElem_range, comp_apply, byteAt_ext2WriteLoop hbs _ le_rfl hmax hole (by omega),
        if_pos (by omega), Nat.add_sub_cancel_left, getD_eq_getElem?_getD, getElem?_eq_getElem hk',
        Option.getD_some]
  | tmpfs ti =>
    simp only [FileInode.vnode] at h
    obtain ⟨-, ⟨⟩⟩ := Option.ite_none_right_eq_some.1 h
    simp [FileInode.contents, overwrite]

/-- The file is opened for appending only, and written through vnodes that know its size. -/
def AppendOk (s : FileState) : FileEvent → Prop
  | .openFile _ _ flags => has flags O_APPEND ∧ has flags O_TRUNC = false
  | .write _ env fd buf pos => pos = none ∧ (∀ f ∈ s.files fd, f.vnode.size = s.inode.vnode.size) ∧ s.inode.Room env buf
  | _ => True

def FileEvent.written : FileEvent → Bytes
  | .write _ _ _ buf _ => buf
  | _ => []

theorem has_append (flags : Flags) : has (flags &&& ~~~O_CLOEXEC) O_APPEND = has flags O_APPEND := by
  rw [has, BitVec.and_assoc]
  rfl

theorem fileStep_append (hs : fileStep s e = some s') (hc : AppendOk s e)
    (h : ∀ fd, ∀ f ∈ s.files fd, has f.flags O_APPEND) :
    s'.inode.contents = s.inode.contents ++ e.written ∧ ∀ fd, ∀ f ∈ s'.files fd, has f.flags O_APPEND := by
  cases e with
  | openFile c fd flags =>
    simp only [fileStep, hc.2] at hs
    obtain ⟨-, ⟨⟩⟩ := Option.ite_none_left_eq_some.1 hs
    exact ⟨(append_nil _).symm, forall_files h (by exact (has_append flags).trans hc.1) fd⟩
  | write c env fd buf pos =>
    obtain ⟨rfl, hsize, hroom⟩ := hc
    simp only [fileStep] at hs
    split at hs
    · subst buf; cases hs
      exact ⟨(append_nil _).symm, h⟩
    obtain ⟨f, hf, hs⟩ := Option.bind_eq_some_iff.1 hs
    obtain ⟨-, hs⟩ := Option.ite_none_left_eq_some.1 hs
    obtain ⟨⟨n, i, v⟩, hw, rfl⟩ := Option.map_eq_some_iff.1 hs
    rw [if_pos (h fd f hf), hsize f hf] at hw
    exact ⟨write_append hroom hw, forall_files h (by exact h fd f hf) fd⟩
  | chmod c mode =>
    obtain ⟨m, -, rfl⟩ := Option.map_eq_some_iff.1 hs
    exact ⟨(chmod_keeps ..).2.2.trans (append_nil _).symm, h⟩
  | fchmod c fd mode =>
    obtain ⟨f, hf, hs⟩ := Option.bind_eq_some_iff.1 hs
    obtain ⟨m, -, rfl⟩ := Option.map_eq_some_iff.1 hs
    exact ⟨(chmod_keeps ..).2.2.trans (append_nil _).symm, forall_files h (by exact h fd f hf) fd⟩
  | close fd =>
    cases hs
    exact ⟨(append_nil _).symm, forall_files h (by trivial) fd⟩

/-- Where every writer's vnode knows the size, what is appended stands behind what was there, in the order of the
calls. -/
theorem append_in_order (h0 : ∀ fd, s0.files fd = none) (hrun : Run fileStep AppendOk s0 es s) :
    s.inode.contents = s0.inode.contents ++ es.flatMap FileEvent.written := by
  have hfiles : ∀ fd, ∀ f ∈ s0.files fd, has f.flags O_APPEND := fun fd f hf => by
    rw [h0] at hf
    cases hf
  clear h0
  induction hrun with
  | nil => exact (append_nil _).symm
  | cons hc hs _ ih =>
    obtain ⟨hw, hfiles⟩ := fileStep_append hs hc hfiles
    rw [ih hfiles, hw, append_assoc, flatMap_cons]

/-- Both blocks of a file are written, the second one twice. -/
theorem append_in_order_blocks : ∃ s, Run fileStep AppendOk
      ⟨.ext2 2 ⟨0x81B6, 0, 0, 0, fun _ => none⟩, fun _ => none⟩
      [.openFile outsider 0 (1 ||| O_APPEND), .write outsider noFailure 0 [65, 66, 67] none,
        .write outsider noFailure 0 [68] none] s ∧ s.inode.contents = [65, 66, 67, 68] :=
  have hrun := .cons ⟨rfl, rfl⟩ rfl
    (.cons ⟨rfl, fun _ hf => Option.some.inj hf ▸ rfl, rfl, by decide, by decide, nofun⟩ rfl
      (.cons ⟨rfl, fun _ hf => Option.some.inj hf ▸ rfl, rfl, by decide, by decide, fun _ => rfl⟩ rfl (.nil _)))
  ⟨_, hrun, append_in_order (fun _ => rfl) hrun⟩

/-- Two openers append; the second one's vnode still has the size 0. -/
theorem append_overwrites : (exec fileStep ⟨.tmpfs (.new (S_IFREG ||| 0o666)), fun _ => none⟩
    [.openFile outsider 0 (1 ||| O_APPEND), .openFile outsider 1 (1 ||| O_APPEND),
      .write outsider noFailure 0 [65] none, .write outsider noFailure 1 [66] none]).map (·.inode.contents) = some [66] :=
  rfl

end ExoOS.Vfs
