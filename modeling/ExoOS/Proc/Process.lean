import ExoOS.Fs.Fd
import ExoOS.Sched.Eevdf

/-!
# Processes

The life of a task, from `fork`, `clone` or the launcher of the first process to `exit`, a fatal signal or a fault,
and on to the `wait4` of its parent: `sched/task.c`, `sys_fork`, `sys_clone`, `sys_execve` and `sys_wait4` of
`syscall/proc_syscalls.c`, `sc_exit` of `syscall/syscall.c`, `signal_deliver_user`, the exception handlers of
`arch/x86_64/idt.c` and the launcher of `main.c`. The state joins the scheduler, the descriptor tables, the process
tree and the address spaces; of an address space only its users, its owner and its destruction are seen here.

Task objects and page tables are numbered in the order in which they are made. The memory of a destroyed task is
not used again, so a pointer to it reads what the task left there. Whether an allocation succeeds, the TID that the
registry gives, the CPU that `sched_pick_cpu` chooses and the task that a futex wakes are inputs.
-/

namespace ExoOS.Proc

open Sched Function

abbrev TaskId := Fs.TaskId
abbrev SpaceId := Nat

/-- The fields of `task_t` that make up the process tree and name the page table. -/
structure Process where
  pid : Nat
  parent : Option TaskId
  children : List TaskId
  vforkParent : Option TaskId
  isUser : Bool
  /-- `none` is the page table of the kernel. -/
  cr3 : Option SpaceId
  ownsAddressSpace : Bool

/-- `task_alloc_common`, with the page table that its callers set. -/
def Process.new (tid : Nat) (isUser : Bool) (cr3 : Option SpaceId) (owns : Bool) : Process :=
  { pid := tid, parent := none, children := [], vforkParent := none, isUser, cr3, ownsAddressSpace := owns }

structure Kernel (κ : Type) where
  sched : SchedState κ TaskId
  fs : Fs.Kernel
  procs : TaskId → Process
  initTask : Option TaskId
  nspaces : Nat
  /-- How often `vmm_destroy_address_space` has been called on each page table. -/
  destroys : SpaceId → Nat

variable {κ : Type} [DecidableEq κ]

namespace Kernel

variable (s : Kernel κ) (c : κ) (t p : TaskId) (σ : SpaceId)

def current : TaskId := (s.sched.cpus c).current

def setProc (g : Process → Process) : Kernel κ :=
  { s with procs := update s.procs t (g (s.procs t)) }

def unblock : Kernel κ := { s with sched := s.sched.schedUnblock t }

/-- `if (p) sched_unblock(p)` -/
def unblockIf : Option TaskId → Kernel κ
  | some p => s.unblock p
  | none => s

/-! ### Address spaces -/

def vmmCreateAddressSpace : SpaceId × Kernel κ :=
  (s.nspaces, { s with nspaces := s.nspaces + 1, destroys := update s.destroys s.nspaces 0 })

def vmmDestroyAddressSpace : Kernel κ := { s with destroys := update s.destroys σ (s.destroys σ + 1) }

def spoilAddressSpace : Kernel κ :=
  let (σ, s) := s.vmmCreateAddressSpace
  s.vmmDestroyAddressSpace σ

/-- The end of a task's hold on its page table, in `task_destroy` and in `execve`. -/
def dropAddressSpace (k : Process) : Kernel κ :=
  match k.cr3 with
  | some σ => if k.ownsAddressSpace then s.vmmDestroyAddressSpace σ else s
  | none => s

/-! ### The process tree -/

def taskAddChild : Kernel κ :=
  (s.setProc t fun k => { k with parent := some p }).setProc p fun k => { k with children := t :: k.children }

def taskRemoveChild : Kernel κ :=
  (s.setProc p fun k => { k with children := k.children.erase t }).setProc t fun k => { k with parent := none }

def moveChildren (newParent : TaskId) : Kernel κ :=
  ((s.procs p).children.foldl (fun s child => s.taskAddChild child newParent) s).setProc p fun k =>
    { k with children := [] }

def taskReparentChildren (newParent : TaskId) : Kernel κ :=
  if p = newParent then s
  else
    let hasZombie := (s.procs p).children.any fun child => s.sched.state child = .zombie
    let s := s.moveChildren p newParent
    if hasZombie then s.unblock newParent else s

/-- The children go to the first process, if there is one and `t` is another. -/
def orphan : Kernel κ :=
  match s.initTask with
  | some i => if t = i then s else s.taskReparentChildren t i
  | none => s

def taskDestroy : Kernel κ :=
  let s := s.orphan t
  let s := match (s.procs t).parent with
    | some p => s.taskRemoveChild t p
    | none => s
  let s := { s with fs := (Fs.fdCloseAll s.fs t).setTask t fun k => { k with alive := false } }
  let s := if (s.procs t).isUser then s.dropAddressSpace (s.procs t) else s
  { s with sched := s.sched.taskDestroy t }

/-- The scheduler has run; a tick has handed the dead tasks of its run queue to `task_destroy`. -/
def withSched (sched : SchedState κ TaskId) : Kernel κ :=
  (s.sched.objs.filter (· ∉ sched.objs)).foldl taskDestroy { s with sched }

/-! ### New tasks -/

def taskAlloc (k : Process) : Kernel κ :=
  { s with
    sched := s.sched.taskCreate c s.fs.ntasks
    fs := { s.fs with tasks := update s.fs.tasks s.fs.ntasks .new, ntasks := s.fs.ntasks + 1 }
    procs := update s.procs s.fs.ntasks k }

def taskCreateUser (cr3 : Option SpaceId) (tid : Nat) (owns : Bool) : TaskId × Kernel κ :=
  let t := s.fs.ntasks
  let s := s.taskAlloc c (.new tid true cr3 owns)
  (t, { s with initTask := if tid = 1 ∧ s.initTask = none then some t else s.initTask })

def schedAddTask : Kernel κ := { s with sched := s.sched.schedAddTask c t }

def schedSpawn (tid : Nat) : Kernel κ :=
  let t := s.fs.ntasks
  (s.taskAlloc c (.new tid false none false)).schedAddTask c t

/-- What the allocations of `fork` and `clone` give; `noCopy` is a failure inside `vmm_clone_address_space`. -/
inductive Alloc
  | noSpace
  | noCopy
  | noTask
  | ok (tid : Nat)

/-- The new process of `fork`, and of `clone` without `CLONE_VM`. -/
def cloneProcess : Alloc → Option TaskId × Kernel κ
  | .noSpace => (none, s)
  | .noCopy | .noTask => (none, s.spoilAddressSpace)
  | .ok tid =>
    let (σ, s) := s.vmmCreateAddressSpace
    let (t, s) := s.taskCreateUser c (some σ) tid true
    (some t, s)

/-- The new task of `clone` with `CLONE_VM`, on the page table of its parent `p`. -/
def cloneThread : Alloc → Option TaskId × Kernel κ
  | .ok tid =>
    let (t, s) := s.taskCreateUser c (s.procs p).cr3 tid false
    (some t, s)
  | _ => (none, s)

def startChild : Kernel κ :=
  let s := s.taskAddChild t p
  { s with fs := Fs.fdTableClone s.fs t p }.schedAddTask c t

def sysFork (m : Alloc) : Kernel κ :=
  let parent := s.current c
  let cpu := (s.sched.tasks parent).cpuId
  match s.cloneProcess cpu m with
  | (some child, s) => s.startChild cpu child parent
  | (none, s) => s

/-- `sched_pick_cpu` gives `cpu`. -/
def sysClone (flags : CloneFlags) (cpu : κ) (m : Alloc) : Option (Kernel κ) :=
  if (flags.sighand || flags.thread) && !flags.vm then some s
  else
    let parent := s.current c
    let cpu := if flags.vfork then (s.sched.tasks parent).cpuId else cpu
    match if flags.vm then s.cloneThread cpu parent m else s.cloneProcess cpu m with
    | (none, s) => some s
    | (some child, s) =>
      let s := if flags.thread then s.setProc child fun k => { k with pid := (s.procs parent).pid } else s
      let s := s.startChild cpu child parent
      if flags.vfork then
        let s := s.setProc child fun k => { k with vforkParent := some parent }
        (s.sched.schedBlock c).map s.withSched
      else some s

/-- How `execve` and the launcher fare with the image: it is not read, it cannot be loaded into the new address
space, or it is loaded. `tty` and `mem` are for the standard descriptors. -/
inductive Image
  | unread
  | bad
  | loaded (tty : Option (Fs.Vnode × Bool)) (mem : Nat → Bool)

def sysExecve : Image → Kernel κ
  | .unread => s
  | .bad => s.spoilAddressSpace
  | .loaded tty mem =>
    let cur := s.current c
    let old := s.procs cur
    let (σ, s) := s.vmmCreateAddressSpace
    let s := (s.setProc cur fun k => { k with cr3 := some σ }).dropAddressSpace old
    let s := s.setProc cur fun k => { k with ownsAddressSpace := true }
    let s := { s with fs := Fs.sysExecve s.fs cur tty mem }
    (s.unblockIf (s.procs cur).vforkParent).setProc cur fun k => { k with vforkParent := none }

/-- The first process; the task that launches it is not its parent. -/
def launcherExecPath (cpu : κ) : Image → Kernel κ
  | .unread => s
  | .bad => s.spoilAddressSpace
  | .loaded tty mem =>
    let (σ, s) := s.vmmCreateAddressSpace
    let (t, s) := s.taskCreateUser cpu (some σ) 1 true
    let s := match tty with
      | some (v, inject) => { s with fs := Fs.fdSetupStdio s.fs t v inject mem }
      | none => s
    s.schedAddTask cpu t

/-! ### The end of a task -/

def isThread : Bool :=
  match (s.procs t).parent with
  | some p => (s.procs t).pid = (s.procs p).pid
  | none => false

def schedTaskExit : Option (Kernel κ) :=
  let cur := s.current c
  let s := s.orphan cur
  (s.sched.schedTaskExit c (s.procs cur).parent (s.isThread cur)).map s.withSched

/-- `exit` and `exit_group`; the word at `clear_child_tid` may be a futex on which `woken` waits. -/
def scExit (woken : Option TaskId) : Option (Kernel κ) :=
  let cur := s.current c
  let s := s.unblockIf (s.procs cur).parent
  let s := (s.unblockIf (s.procs cur).vforkParent).setProc cur fun k => { k with vforkParent := none }
  (s.unblockIf woken).schedTaskExit c

/-- Death by `SIGKILL` or another fatal signal, or at once: by a fatal signal to a task without a handler table, or
by an exception that is not handled. -/
inductive Death
  | signal
  | atOnce
  deriving DecidableEq

/-- `signal_deliver_user` or an exception handler, and the tick that follows. -/
def die (how : Death) : Option (Kernel κ) :=
  let parent := match how with
    | .signal => (s.procs (s.current c)).parent
    | .atOnce => none
  (s.sched.schedTaskExit c parent false).map s.withSched

/-- `wait4` and `waitid` find the zombie `t` among the children. -/
def sysWait4 : Kernel κ := (s.taskRemoveChild t (s.current c)).taskDestroy t

end Kernel

inductive ProcEvent (κ : Type)
  | sched (e : SchedEvent κ TaskId)
  | file (c : κ) (e : Fs.Event)
  | fork (c : κ) (m : Kernel.Alloc)
  | clone (c : κ) (flags : CloneFlags) (cpu : κ) (m : Kernel.Alloc)
  | execve (c : κ) (i : Kernel.Image)
  | exit (c : κ) (woken : Option TaskId)
  | die (c : κ) (how : Kernel.Death)
  | wait (c : κ) (t : TaskId)
  | returns (c : κ)
  | spawn (cpu : κ) (tid : Nat)
  | launch (cpu : κ) (i : Kernel.Image)

namespace Kernel

def User (s : Kernel κ) (c : κ) : Prop := s.current c ≠ (s.sched.cpus c).idle ∧ (s.procs (s.current c)).isUser

/-- Who can make a call. A kernel thread has no process to wait for; the first process is launched once. -/
def Enabled (s : Kernel κ) : ProcEvent κ → Prop
  | .sched e => e.keeps ∧ s.sched.Enabled e
  | .file c e => s.User c ∧ e.task = s.current c ∧ e.isCall
  | .fork c _ | .clone c _ _ _ | .execve c _ => s.User c
  | .exit c woken => s.User c ∧ ∀ w ∈ woken, w ∈ s.sched.objs
  | .die c .signal => s.User c
  | .die c .atOnce => s.current c ≠ (s.sched.cpus c).idle
  | .wait c t => s.User c ∧ t ∈ (s.procs (s.current c)).children ∧ s.sched.state t = .zombie
  | .returns c => s.current c ≠ (s.sched.cpus c).idle ∧ (s.procs (s.current c)).isUser = false
  | .spawn _ _ => True
  | .launch _ _ => s.initTask = none

instance decidableUser (s : Kernel κ) (c : κ) : Decidable (s.User c) := inferInstanceAs (Decidable (_ ∧ _))

instance decidableEnabled (s : Kernel κ) : ∀ e, Decidable (s.Enabled e)
  | .sched _ => inferInstanceAs (Decidable (_ ∧ _))
  | .file _ _ => inferInstanceAs (Decidable (_ ∧ _ ∧ _))
  | .fork _ _ | .clone _ _ _ _ | .execve _ _ => inferInstanceAs (Decidable (s.User _))
  | .exit _ woken => inferInstanceAs (Decidable (_ ∧ ∀ w ∈ woken, w ∈ s.sched.objs))
  | .die _ .signal => inferInstanceAs (Decidable (s.User _))
  | .die _ .atOnce => inferInstanceAs (Decidable (_ ≠ _))
  | .wait _ _ => inferInstanceAs (Decidable (_ ∧ _ ∧ _))
  | .returns _ => inferInstanceAs (Decidable (_ ∧ _))
  | .spawn _ _ => inferInstanceAs (Decidable True)
  | .launch _ _ => inferInstanceAs (Decidable (_ = none))

def call (s : Kernel κ) : ProcEvent κ → Option (Kernel κ)
  | .sched e => (s.sched.call e).map s.withSched
  | .file _ e => (Fs.call s.fs e).map fun fs => { s with fs }
  | .fork c m => some (s.sysFork c m)
  | .clone c flags cpu m => s.sysClone c flags cpu m
  | .execve c i => some (s.sysExecve c i)
  | .exit c woken => s.scExit c woken
  | .die c how => s.die c how
  | .wait c t => some (s.sysWait4 c t)
  | .returns c => s.schedTaskExit c
  | .spawn cpu tid => some (s.schedSpawn cpu tid)
  | .launch cpu i => some (s.launcherExecPath cpu i)

end Kernel

def procStep (s : Kernel κ) (e : ProcEvent κ) : Option (Kernel κ) := if s.Enabled e then s.call e else none

/-- The kernel has booted: there are the idle tasks and no user process. -/
structure ProcInit (s : Kernel κ) : Prop where
  sched : SchedInit s.sched
  objs : ∀ t, t ∈ s.sched.objs ↔ t < s.fs.ntasks
  procs : ∀ t, (s.procs t).parent = none ∧ (s.procs t).children = [] ∧ (s.procs t).vforkParent = none ∧
    (s.procs t).isUser = false ∧ (s.procs t).cr3 = none ∧ (s.procs t).ownsAddressSpace = false
  initTask : s.initTask = none
  nspaces : s.nspaces = 0

end ExoOS.Proc
