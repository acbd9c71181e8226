import ExoOS.Lib.Run

/-!
# FP/SIMD state across kernel entries and task switches

The three places of the kernel that move the x87/SSE/AVX registers:

* the interrupt stub (`isr.asm`, `common_isr_stub_handler`) and the SYSCALL stub
  (`context_switch.asm`, `syscall_entry`) save the registers to the CPU's `isr_xsave_buf` on entry and
  reload them from there on exit, whatever mode was interrupted;
* `task_switch_asm` saves them to the outgoing task's `fpu_state` and loads the incoming task's;
* `clone_live_fpu_state` fills a forked child's `fpu_state`, `sys_execve` resets the caller's.

`Fp` is the content of the components 0-2 that `XSAVE64`/`XRSTOR64` move (mask 7); an XSAVE area is
identified with the registers `XRSTOR64` loads from it. `z` is what it loads from a zeroed page (a new
task), `x` what it loads from the image `sys_execve` writes. Everything else the kernel computes is
C code that may leave anything in the registers (`kernelCode`).
-/

namespace ExoOS.Fpu

abbrev CpuId := Nat
abbrev TaskId := Nat

/-- Where the control of a task is. `kernel fs`: in C code, under the stub frames `fs`, innermost
first; a frame is `true` when the stub was entered from ring 3. -/
inductive Ctl where
  | absent
  /-- Created and never run: the first switch to it lands in a trampoline, `user_mode_trampoline` or
  `user_fork_return_trampoline` for a user task, `task_trampoline` for a kernel thread. -/
  | fresh (isUser : Bool)
  | user
  | kernel (frames : List Bool)
deriving DecidableEq

/-- Where a task goes on when it is switched to: where it was switched away, or, for one that has not
run yet, straight through its trampoline. -/
def Ctl.resume : Ctl → Ctl
  | .fresh true => .user
  | .fresh false => .kernel []
  | ctl => ctl

structure Task (Fp : Type) where
  fpuState : Fp
  cpuId : CpuId
  ctl : Ctl
  /-- Ghost: the registers when the task last left user mode; before that, and after `execve`, the
  values it has to start with. -/
  userFp : Fp

structure Cpu (Fp : Type) where
  fp : Fp
  /-- `[gs:24]`; `none` before `smp_init` has set it. -/
  isrXsaveBuf : Option Fp
  current : TaskId

structure Machine (Fp : Type) where
  cpus : CpuId → Cpu Fp
  tasks : TaskId → Task Fp

variable {Fp : Type}

namespace Machine

def cur (m : Machine Fp) (c : CpuId) : Task Fp := m.tasks (m.cpus c).current

def setCpu (m : Machine Fp) (c : CpuId) (f : Cpu Fp → Cpu Fp) : Machine Fp :=
  { m with cpus := Function.update m.cpus c (f (m.cpus c)) }

def setTask (m : Machine Fp) (t : TaskId) (f : Task Fp → Task Fp) : Machine Fp :=
  { m with tasks := Function.update m.tasks t (f (m.tasks t)) }

/-- The entry half of the two stubs: `xsave64 [gs:24]` when the buffer is there. -/
def stubEnter (m : Machine Fp) (c : CpuId) : Machine Fp :=
  m.setCpu c fun p => { p with isrXsaveBuf := p.isrXsaveBuf.map fun _ => p.fp }

/-- The exit half: `xrstor64 [gs:24]`. -/
def stubExit (m : Machine Fp) (c : CpuId) : Machine Fp :=
  m.setCpu c fun p => { p with fp := p.isrXsaveBuf.getD p.fp }

def taskSwitchAsm (m : Machine Fp) (c : CpuId) (t : TaskId) : Machine Fp :=
  let m := m.setTask (m.cpus c).current fun k => { k with fpuState := (m.cpus c).fp }
  let m := m.setCpu c fun p => { p with fp := (m.tasks t).fpuState, current := t }
  m.setTask t fun k => { k with ctl := k.ctl.resume }

def cloneLiveFpuState (m : Machine Fp) (c : CpuId) : Fp :=
  (m.cpus c).isrXsaveBuf.getD (m.cur c).fpuState

/-- `task_create`, `task_create_user`: `fpu_state` is a zeroed page. -/
def taskCreate (z : Fp) (m : Machine Fp) (t : TaskId) (cpu : CpuId) (isUser : Bool) : Machine Fp :=
  m.setTask t fun _ => { fpuState := z, cpuId := cpu, ctl := .fresh isUser, userFp := z }

/-- The FP part of `sys_fork` and `sys_clone`: a new user task whose image is the live one. What the
child has to start with are the registers its parent made the call with. -/
def sysFork (z : Fp) (m : Machine Fp) (c : CpuId) (child : TaskId) (cpu : CpuId) : Machine Fp :=
  let fpu := m.cloneLiveFpuState c
  let want := (m.cur c).userFp
  (m.taskCreate z child cpu true).setTask child fun k => { k with fpuState := fpu, userFp := want }

/-- The FP part of `sys_execve`: reset `fpu_state`, `xrstor64` it, jump to `user_mode_trampoline`. A
vfork child unblocks its parent in between, in C code that leaves `clobber` in the registers. -/
def sysExecve (x : Fp) (m : Machine Fp) (c : CpuId) (clobber : Option Fp) : Machine Fp :=
  (m.setCpu c fun p => { p with fp := clobber.getD x }).setTask (m.cpus c).current fun k =>
    { k with fpuState := x, userFp := x, ctl := .user }

end Machine

inductive Event (Fp : Type) where
  /-- User code of the current task leaves `r` in the registers. -/
  | userCode (c : CpuId) (r : Fp)
  | kernelCode (c : CpuId) (r : Fp)
  /-- The CPU takes a vector: a timer tick, another interrupt or a page fault, in either mode. -/
  | interrupt (c : CpuId)
  | syscall (c : CpuId)
  /-- The dispatcher returns to the innermost stub. -/
  | ret (c : CpuId)
  /-- `sched_tick` picks `t`: a preemption, or the current task blocks, sleeps or exits. -/
  | switch (c : CpuId) (t : TaskId)
  | create (t : TaskId) (cpu : CpuId) (isUser : Bool)
  | fork (c : CpuId) (child : TaskId) (cpu : CpuId)
  | execve (c : CpuId) (clobber : Option Fp)

/-- Left user mode through a stub and not yet back. -/
def Task.InSyscall (k : Task Fp) : Prop := ∃ fs, k.ctl = .kernel fs ∧ true ∈ fs

instance (k : Task Fp) : Decidable k.InSyscall :=
  match h : k.ctl with
  | .kernel fs => if h' : true ∈ fs then isTrue ⟨fs, h, h'⟩ else
      isFalse fun ⟨_, hk, hm⟩ => by rw [h] at hk; cases hk; exact h' hm
  | .absent => isFalse fun ⟨_, hk, _⟩ => by rw [h] at hk; cases hk
  | .user => isFalse fun ⟨_, hk, _⟩ => by rw [h] at hk; cases hk
  | .fresh _ => isFalse fun ⟨_, hk, _⟩ => by rw [h] at hk; cases hk

/-- Can be switched to on CPU `c`: bound to it, and interrupted in the kernel or not yet run. -/
def Task.Switchable (k : Task Fp) (c : CpuId) : Prop :=
  k.cpuId = c ∧ k.ctl ≠ .absent ∧ k.ctl ≠ .user

instance (k : Task Fp) (c : CpuId) : Decidable (k.Switchable c) := inferInstanceAs (Decidable (_ ∧ _))

def step (z x : Fp) (m : Machine Fp) : Event Fp → Option (Machine Fp)
  | .userCode c r => match (m.cur c).ctl with
    | .user => some (m.setCpu c fun p => { p with fp := r })
    | _ => none
  | .kernelCode c r => match (m.cur c).ctl with
    | .kernel _ => some (m.setCpu c fun p => { p with fp := r })
    | _ => none
  | .interrupt c => match (m.cur c).ctl with
    | .user => some ((m.stubEnter c).setTask (m.cpus c).current fun k =>
        { k with ctl := .kernel [true], userFp := (m.cpus c).fp })
    | .kernel fs => some ((m.stubEnter c).setTask (m.cpus c).current fun k =>
        { k with ctl := .kernel (false :: fs) })
    | _ => none
  | .syscall c => match (m.cur c).ctl with
    | .user => some ((m.stubEnter c).setTask (m.cpus c).current fun k =>
        { k with ctl := .kernel [true], userFp := (m.cpus c).fp })
    | _ => none
  | .ret c => match (m.cur c).ctl with
    | .kernel (true :: _) => some ((m.stubExit c).setTask (m.cpus c).current fun k =>
        { k with ctl := .user })
    | .kernel (false :: fs) => some ((m.stubExit c).setTask (m.cpus c).current fun k =>
        { k with ctl := .kernel fs })
    | _ => none
  | .switch c t => match (m.cur c).ctl with
    | .kernel _ =>
      if t ≠ (m.cpus c).current ∧ (m.tasks t).Switchable c then some (m.taskSwitchAsm c t) else none
    | _ => none
  | .create t cpu isUser =>
    if (m.tasks t).ctl = .absent then some (m.taskCreate z t cpu isUser) else none
  | .fork c child cpu =>
    if (m.cur c).InSyscall ∧ (m.tasks child).ctl = .absent then some (m.sysFork z c child cpu) else none
  | .execve c clobber => if (m.cur c).InSyscall then some (m.sysExecve x c clobber) else none

/-- The machine when scheduling starts: every CPU has its save buffer and runs its idle thread; no task
has been in user mode. -/
structure Boot (m : Machine Fp) : Prop where
  buf : ∀ c, (m.cpus c).isrXsaveBuf.isSome
  idle : ∀ c, (m.cur c).ctl = .kernel [] ∧ (m.cur c).cpuId = c
  tasks : ∀ t, (m.tasks t).ctl ≠ .user ∧ ¬ (m.tasks t).InSyscall
  start : ∀ t, (m.tasks t).ctl = .fresh true → (m.tasks t).fpuState = (m.tasks t).userFp

/-- A task that goes (back) to user mode in the step from `m` to `m'` finds in the registers what it
left there, or what it has to start with. -/
def ReturnOk (m m' : Machine Fp) : Prop :=
  ∀ c, (m.tasks (m'.cpus c).current).ctl ≠ .user → (m'.cur c).ctl = .user →
    (m'.cpus c).fp = (m'.cur c).userFp

end ExoOS.Fpu
