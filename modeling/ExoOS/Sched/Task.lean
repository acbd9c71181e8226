import ExoOS.Lib.Mask
import ExoOS.Lib.Run

/-!
# Tasks and credentials

`cred_t` and the parts of `task_t` that the identity and signal system calls use, the task table, and the
creation of tasks by `fork` and `clone`. A task object has an identity (`TaskId`) of its own, because the
table can lose a live task: user TIDs wrap around at `USER_TID_MAX` without a look at the slot.

Signal numbers and handler addresses follow `ipc/signal.h`. `sigHandlers` and `sigactions` are `none` when the
table was not allocated.
-/

namespace ExoOS.Sched

open Function

abbrev Uid := BitVec 32
abbrev Word := BitVec 64
abbrev TaskId := Nat

def EPERM : Int := 1
def ESRCH : Int := 3
def ENOMEM : Int := 12
def EACCES : Int := 13
def EFAULT : Int := 14
def EINVAL : Int := 22

/-! ### Credentials -/

def CAP_KILL : Nat := 5
def CAP_SETGID : Nat := 6
def CAP_SETUID : Nat := 7
def CAP_SETPCAP : Nat := 8
def CAP_SYS_ADMIN : Nat := 21
def CAP_LAST_CAP : Nat := 40

def SECBIT_NOROOT : BitVec 32 := 1#32

def TASK_MAX_GROUPS : Nat := 32

structure Cred where
  uid : Uid
  euid : Uid
  suid : Uid
  fsuid : Uid
  gid : Uid
  egid : Uid
  sgid : Uid
  fsgid : Uid
  capEffective : Word
  capPermitted : Word
  capInheritable : Word
  capBounding : Word
  securebits : BitVec 32
  groups : Nat → Uid
  groupCount : Nat

def capFullMask : Word := (1#64 <<< (CAP_LAST_CAP + 1)) - 1#64

def credInit : Cred :=
  { uid := 0, euid := 0, suid := 0, fsuid := 0, gid := 0, egid := 0, sgid := 0, fsgid := 0
    capEffective := capFullMask, capPermitted := capFullMask, capInheritable := 0
    capBounding := capFullMask, securebits := 0, groups := fun _ => 0, groupCount := 1 }

/-- `capable`; there are no bits from 64 on. -/
def Cred.capable (c : Cred) (cap : Nat) : Bool := c.capEffective.getLsbD cap

def Cred.noRoot (c : Cred) : Bool := c.securebits &&& SECBIT_NOROOT != 0

def NSIGS : Nat := 64

structure Sigaction where
  saHandler : Word
  saFlags : Word
  saRestorer : Word
  saMask : Word

inductive TaskState
  | runnable
  | running
  | blocked
  | dead
  | sleeping
  | zombie
  deriving DecidableEq

inductive SeccompMode
  | disabled
  | strict
  | filter
  deriving DecidableEq

structure Task where
  tid : BitVec 32
  pid : BitVec 32
  pgid : BitVec 32
  sid : BitVec 32
  cred : Cred
  noNewPrivs : Bool
  keepCaps : Bool
  seccompMode : SeccompMode
  parent : Option TaskId
  exitStatus : Nat
  isUser : Bool
  isKthread : Bool
  state : TaskState
  sigPending : Word
  sigMask : Word
  sigHandlers : Option (Nat → Word)
  sigactions : Option (Nat → Sigaction)
  altstackSp : Word
  altstackSize : Word
  altstackFlags : Word

/-- `task_alloc_common` and `task_create_user`; `handlers` says whether the handler table was allocated. -/
def taskCreateUser (tid : BitVec 32) (handlers : Bool) : Task :=
  { tid, pid := tid, pgid := tid, sid := tid, cred := credInit, noNewPrivs := false, keepCaps := false
    seccompMode := .disabled, parent := none, exitStatus := 0, isUser := true, isKthread := false
    state := .runnable, sigPending := 0, sigMask := 0
    sigHandlers := if handlers then some fun _ => 0 else none, sigactions := none
    altstackSp := 0, altstackSize := 0, altstackFlags := 0 }

def TASK_TABLE_SIZE : Nat := 1024
def USER_TID_MAX : Nat := 511

structure Kernel where
  tasks : TaskId → Option Task
  table : Nat → Option TaskId
  nextUserTid : Nat
  fresh : TaskId
  unused : ∀ i, fresh ≤ i → tasks i = none

namespace Kernel

variable (k : Kernel) (i : TaskId)

def modify (f : Task → Task) : Kernel :=
  { k with
    tasks := update k.tasks i ((k.tasks i).map f)
    unused := fun j hj => by
      by_cases h : j = i
      · subst h; simp [k.unused j hj]
      · simp [h, k.unused j hj] }

/-- `task_lookup`, and `task_get_from_table` for the indices from 1 on. -/
def taskLookup (tid : Nat) : Option TaskId :=
  if tid = 0 ∨ TASK_TABLE_SIZE ≤ tid then none else k.table tid

def newTid : Nat := if USER_TID_MAX < k.nextUserTid then 1 else k.nextUserTid

def register (t : Task) : Kernel where
  tasks := update k.tasks k.fresh (some t)
  table := update k.table k.newTid (some k.fresh)
  nextUserTid := k.newTid + 1
  fresh := k.fresh + 1
  unused j hj := by
    rw [update_of_ne (Nat.ne_of_gt (Nat.lt_of_succ_le hj))]
    exact k.unused j (Nat.le_of_succ_le hj)

variable {k i} {j : TaskId} {t : Task} {f : Task → Task}

theorem modify_tasks_self : (k.modify i f).tasks i = (k.tasks i).map f := update_self ..

theorem modify_tasks_ne (h : j ≠ i) : (k.modify i f).tasks j = k.tasks j := update_of_ne h ..

theorem register_tasks_self : (k.register t).tasks k.fresh = some t := update_self ..

theorem register_tasks_ne (h : j ≠ k.fresh) : (k.register t).tasks j = k.tasks j := update_of_ne h ..

theorem lt_fresh (h : k.tasks j = some t) : j < k.fresh := by
  by_contra hn
  rw [k.unused j (not_lt.1 hn)] at h
  cases h

theorem ne_fresh (h : k.tasks j = some t) : j ≠ k.fresh := (lt_fresh h).ne

end Kernel

def boot : Kernel where
  tasks := update (fun _ => none) 0 (some (taskCreateUser 1 true))
  table := update (fun _ => none) 1 (some 0)
  nextUserTid := 2
  fresh := 1
  unused _ hi := update_of_ne (Nat.ne_of_gt hi) ..

/-- What happens inside `task_create_user`: it fails, or succeeds with or without a handler table. -/
inductive CreateEnv
  | fails
  | creates (handlers : Bool)

def forkChild (parent : Task) (i : TaskId) (handlers : Bool) (tid : BitVec 32) : Task :=
  { taskCreateUser tid handlers with
    pgid := parent.pgid, sid := parent.sid, cred := parent.cred, parent := some i
    sigMask := parent.sigMask }

def sysFork (env : CreateEnv) (k : Kernel) (i : TaskId) : Int × Kernel :=
  match k.tasks i with
  | none => (-ESRCH, k)
  | some t =>
    match env with
    | .fails => (-ENOMEM, k)
    | .creates h =>
      let c := forkChild t i h (BitVec.ofNat 32 k.newTid)
      (c.pid.toNat, k.register c)

structure CloneFlags where
  vm : Bool
  sighand : Bool
  thread : Bool
  vfork : Bool

/-- The child that `sys_clone` makes; the signal mask is not copied. -/
def cloneChild (parent : Task) (i : TaskId) (thread handlers : Bool) (tid : BitVec 32) : Task :=
  { taskCreateUser tid handlers with
    pgid := parent.pgid, sid := parent.sid, cred := parent.cred, parent := some i
    pid := if thread then parent.pid else tid }

def sysClone (env : CreateEnv) (k : Kernel) (i : TaskId) (fl : CloneFlags) : Int × Kernel :=
  match k.tasks i with
  | none => (-ESRCH, k)
  | some t =>
    if fl.sighand && !fl.vm then (-EINVAL, k)
    else if fl.thread && !fl.vm then (-EINVAL, k)
    else
      match env with
      | .fails => (-ENOMEM, k)
      | .creates h =>
        let c := cloneChild t i fl.thread h (BitVec.ofNat 32 k.newTid)
        let k := k.register c
        -- the parent of a vfork waits
        (c.tid.toNat, if fl.vfork then k.modify i fun t => { t with state := .blocked } else k)

end ExoOS.Sched
