import ExoOS.Sched.Task

/-!
# The identity system calls

`setuid` and its relatives, `capset`, `prctl` and the credential part of `execve`, as `syscall/syscall.c` and
`sys_execve` have them. A call that works on the caller alone takes its task and gives the new one; `call` puts
them together over the task table. An id of all ones means "no change" where the source says so.
-/

namespace ExoOS.Sched

/-! ### User ids -/

/-- The options of `prctl` but those on the name. -/
inductive Prctl
  | setNoNewPrivs
  | getNoNewPrivs
  | setKeepcaps
  | getKeepcaps
  | setSeccomp
  | getSeccomp
  | other

def noChange : Uid := BitVec.allOnes 32

namespace Task

variable (t : Task)

def fixupCaps (old new : Uid) : Task :=
  if old = new then t
  else if t.cred.noRoot then t
  else if old = 0 ∧ new ≠ 0 then
    if t.keepCaps then
      { t with cred := { t.cred with capEffective := t.cred.capEffective &&& t.cred.capPermitted } }
    else { t with cred := { t.cred with capEffective := 0, capPermitted := 0 } }
  else if old ≠ 0 ∧ new = 0 then
    let caps := capFullMask &&& t.cred.capBounding
    { t with cred := { t.cred with capPermitted := caps, capEffective := caps } }
  else { t with cred := { t.cred with capEffective := t.cred.capEffective &&& t.cred.capPermitted } }

def canSetUid (uid : Uid) : Bool := uid == t.cred.uid || uid == t.cred.euid || uid == t.cred.suid

def canSetGid (gid : Uid) : Bool := gid == t.cred.gid || gid == t.cred.egid || gid == t.cred.sgid

/-- A field that `cred_setresuid` and `cred_setresgid` set, unless told not to. -/
def pick (new old : Uid) : Uid := if new = noChange then old else new

def setresuid (ruid euid suid : Uid) : Int × Task :=
  if !t.cred.capable CAP_SETUID && !([ruid, euid, suid].all fun u => u == noChange || t.canSetUid u) then
    (-EPERM, t)
  else
    let c := { t.cred with
      uid := pick ruid t.cred.uid
      euid := pick euid t.cred.euid
      fsuid := pick euid t.cred.fsuid
      suid := pick suid t.cred.suid }
    (0, fixupCaps { t with cred := c } t.cred.euid c.euid)

def setreuid (ruid euid : Uid) : Int × Task := t.setresuid ruid euid noChange

def setuid (uid : Uid) : Int × Task :=
  if t.cred.capable CAP_SETUID then
    (0, fixupCaps { t with cred := { t.cred with uid := uid, euid := uid, suid := uid, fsuid := uid } }
      t.cred.euid uid)
  else if !t.canSetUid uid then (-EPERM, t)
  else (0, fixupCaps { t with cred := { t.cred with euid := uid, fsuid := uid } } t.cred.euid uid)

def setfsuid (uid : Uid) : Int × Task :=
  (t.cred.fsuid.toNat,
    if t.cred.capable CAP_SETUID || t.canSetUid uid || uid == t.cred.fsuid then
      { t with cred := { t.cred with fsuid := uid } }
    else t)

/-! ### Group ids -/

def setresgid (rgid egid sgid : Uid) : Int × Task :=
  if !t.cred.capable CAP_SETGID && !([rgid, egid, sgid].all fun g => g == noChange || t.canSetGid g) then
    (-EPERM, t)
  else
    (0, { t with cred := { t.cred with
      gid := pick rgid t.cred.gid
      egid := pick egid t.cred.egid
      fsgid := pick egid t.cred.fsgid
      sgid := pick sgid t.cred.sgid } })

def setregid (rgid egid : Uid) : Int × Task := t.setresgid rgid egid noChange

end Task

/-- `if (t->cred.group_count == 0)`: the list is never left empty. -/
def Cred.fillGroups (c : Cred) (gid : Uid) : Cred :=
  if c.groupCount = 0 then { c with groups := Function.update c.groups 0 gid, groupCount := 1 } else c

namespace Task

variable (t : Task)

def setgid (gid : Uid) : Int × Task :=
  if t.cred.capable CAP_SETGID then
    let c := { t.cred with gid := gid, egid := gid, sgid := gid, fsgid := gid }
    (0, { t with cred := c.fillGroups gid })
  else if !t.canSetGid gid then (-EPERM, t)
  else
    let c := { t.cred with egid := gid, fsgid := gid }
    (0, { t with cred := c.fillGroups gid })

def setfsgid (gid : Uid) : Int × Task :=
  (t.cred.fsgid.toNat,
    if t.cred.capable CAP_SETGID || t.canSetGid gid || gid == t.cred.fsgid then
      { t with cred := { t.cred with fsgid := gid } }
    else t)

/-- `sc_setgroups`; the list is `none` for a null pointer. -/
def setgroups (size : Int) (list : Option (Nat → Uid)) : Int × Task :=
  if !t.cred.capable CAP_SETGID then (-EPERM, t)
  else if size < 0 ∨ (TASK_MAX_GROUPS : Int) < size then (-EINVAL, t)
  else
    match size, list with
    | 0, _ =>
      let c := { t.cred with groups := fun _ => 0, groupCount := 0 }
      (0, { t with cred := c.fillGroups t.cred.gid })
    | _, none => (-EFAULT, t)
    | n, some l =>
      let c := { t.cred with groups := fun i => if i < n.toNat then l i else 0, groupCount := n.toNat }
      (0, { t with cred := c.fillGroups t.cred.gid })

/-! ### `prctl` and `execve` -/

def SECCOMP_MODE_STRICT : Word := 1
def SECCOMP_MODE_FILTER : Word := 2

def prctl (op : Prctl) (b c d e : Word) : Int × Task :=
  match op with
  | .setNoNewPrivs =>
    if b ≠ 1 ∨ c ≠ 0 ∨ d ≠ 0 ∨ e ≠ 0 then (-EINVAL, t) else (0, { t with noNewPrivs := true })
  | .getNoNewPrivs => (if t.noNewPrivs then 1 else 0, t)
  | .setKeepcaps => if 1 < b.toNat then (-EINVAL, t) else (0, { t with keepCaps := b ≠ 0 })
  | .getKeepcaps => (if t.keepCaps then 1 else 0, t)
  | .setSeccomp =>
    if b = SECCOMP_MODE_STRICT then
      if c ≠ 0 ∨ d ≠ 0 ∨ e ≠ 0 then (-EINVAL, t)
      else if t.seccompMode = .filter then (-EINVAL, t)
      else (0, { t with seccompMode := .strict })
    else if b = SECCOMP_MODE_FILTER then
      if !t.noNewPrivs && !t.cred.capable CAP_SYS_ADMIN then (-EACCES, t)
      else (0, { t with seccompMode := .filter })
    else (-EINVAL, t)
  | .getSeccomp => (match t.seccompMode with | .disabled => 0 | .strict => 1 | .filter => 2, t)
  | .other => (-EINVAL, t)

end Task

structure ExecFile where
  isuid : Bool
  isgid : Bool
  uid : Uid
  gid : Uid

def Cred.execIds (c : Cred) (f : ExecFile) : Cred :=
  let c := if f.isuid then { c with euid := f.uid, suid := f.uid, fsuid := f.uid } else c
  if f.isgid then { c with egid := f.gid, sgid := f.gid, fsgid := f.gid } else c

/-- The capabilities after the set-id bits, in the order of the source. -/
def Cred.execCaps (c : Cred) (f : ExecFile) (oldEuid : Uid) : Cred :=
  let c := if f.isuid && f.uid == 0 && !c.noRoot then
      let caps := (c.capInheritable ||| c.capBounding) &&& c.capBounding
      { c with capPermitted := caps, capEffective := caps }
    else c
  if c.noRoot then c
  else if oldEuid = 0 ∧ c.euid ≠ 0 then { c with capEffective := 0 }
  else if oldEuid ≠ 0 ∧ c.euid = 0 then
    let caps := capFullMask &&& c.capBounding
    { c with capPermitted := caps, capEffective := caps }
  else c

/-- `sys_execve` once the image is loaded: the credentials, and the handlers reset to `SIG_DFL`. -/
def Task.execve (t : Task) (f : ExecFile) : Task :=
  { t with
    cred := if t.noNewPrivs then t.cred else (t.cred.execIds f).execCaps f t.cred.euid
    sigHandlers := t.sigHandlers.map fun _ _ => 0 }

/-! ### Capabilities of a task -/

/-- `linux_cap_user_data_t`, the two halves together. -/
structure CapData where
  effective : BitVec 32 × BitVec 32
  permitted : BitVec 32 × BitVec 32
  inheritable : BitVec 32 × BitVec 32

def capWord (w : BitVec 32 × BitVec 32) : Word := w.2 ++ w.1

def Task.capset (t : Task) (d : CapData) : Int × Task :=
  let eff := capWord d.effective
  let prm := capWord d.permitted
  let inh := capWord d.inheritable
  if ¬ Mask.Sub eff prm then (-EPERM, t)
  else if ¬ Mask.Sub prm t.cred.capPermitted then (-EPERM, t)
  else if ¬ Mask.Sub inh t.cred.capBounding then (-EPERM, t)
  else (0, { t with cred := { t.cred with capEffective := eff, capPermitted := prm, capInheritable := inh } })

def Kernel.on (k : Kernel) (i : TaskId) (f : Task → Int × Task) : Int × Kernel :=
  match k.tasks i with
  | none => (-ESRCH, k)
  | some t => ((f t).1, k.modify i fun t => (f t).2)

/-- `sc_capset`; the header's pid names another task if it is positive. -/
def scCapset (k : Kernel) (i : TaskId) (pid : Int) (d : CapData) : Int × Kernel :=
  match k.tasks i with
  | none => (-ESRCH, k)
  | some cur =>
    match if 0 < pid then k.taskLookup pid.toNat else some i with
    | none => (-ESRCH, k)
    | some j => if j ≠ i ∧ !cur.cred.capable CAP_SETPCAP then (-EPERM, k) else k.on j (·.capset d)

inductive Call
  | setuid (uid : Uid)
  | setreuid (ruid euid : Uid)
  | setresuid (ruid euid suid : Uid)
  | setfsuid (uid : Uid)
  | setgid (gid : Uid)
  | setregid (rgid egid : Uid)
  | setresgid (rgid egid sgid : Uid)
  | setfsgid (gid : Uid)
  | setgroups (size : Int) (list : Option (Nat → Uid))
  | capset (pid : Int) (data : CapData)
  | prctl (op : Prctl) (b c d e : Word)
  | fork (env : CreateEnv)
  | clone (env : CreateEnv) (flags : CloneFlags)
  /-- An `execve` that succeeds; one that fails changes nothing here. -/
  | execve (file : ExecFile)

def localCall : Call → Option (Task → Int × Task)
  | .setuid u => some (·.setuid u)
  | .setreuid r e => some (·.setreuid r e)
  | .setresuid r e s => some (·.setresuid r e s)
  | .setfsuid u => some (·.setfsuid u)
  | .setgid g => some (·.setgid g)
  | .setregid r e => some (·.setregid r e)
  | .setresgid r e s => some (·.setresgid r e s)
  | .setfsgid g => some (·.setfsgid g)
  | .setgroups n l => some (·.setgroups n l)
  | .prctl op b c d e => some (·.prctl op b c d e)
  | .execve f => some fun t => (0, t.execve f)
  | _ => none

def call (k : Kernel) (i : TaskId) : Call → Int × Kernel
  | .capset pid d => scCapset k i pid d
  | .fork env => sysFork env k i
  | .clone env fl => sysClone env k i fl
  | c => (localCall c).elim (0, k) (k.on i)

end ExoOS.Sched
