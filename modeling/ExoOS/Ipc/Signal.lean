import ExoOS.Sched.CredSteps
import ExoOS.Ipc.Kill

/-!
# Signal delivery

`ipc/signal.c` and the signal calls of `proc_syscalls.c`: the actions and masks of a task, the delivery of a
pending signal on the way back to user space, and the return from a handler. A function on a task takes the task
and gives the new one. What it finds in user memory is an argument: `mapped` says which pages of the stack are
present, and the frame that `rt_sigreturn` reads is whatever the program left there.
-/

namespace ExoOS.Ipc

open Sched BitVec

def SIGINT : Nat := 2
def SIGQUIT : Nat := 3
def SIGILL : Nat := 4
def SIGABRT : Nat := 6
def SIGBUS : Nat := 7
def SIGFPE : Nat := 8
def SIGUSR1 : Nat := 10
def SIGSEGV : Nat := 11
def SIGUSR2 : Nat := 12
def SIGPIPE : Nat := 13
def SIGALRM : Nat := 14
def SIGTERM : Nat := 15
def SIGXCPU : Nat := 24
def SIGXFSZ : Nat := 25

def SA_RESTORER : Word := 0x04000000#64
def SA_ONSTACK : Word := 0x08000000#64
def SA_NODEFER : Word := 0x40000000#64
def SA_RESETHAND : Word := 0x80000000#64

/-- `SS_DISABLE` of `signal.h`; `sys_sigaltstack` has another one. -/
def SS_DISABLE : Word := 2

/-- The registers that a signal frame saves. -/
structure Regs where
  rax : Word
  rbx : Word
  rcx : Word
  rdx : Word
  rsi : Word
  rdi : Word
  rbp : Word
  rsp : Word
  r8 : Word
  r9 : Word
  r10 : Word
  r11 : Word
  r12 : Word
  r13 : Word
  r14 : Word
  r15 : Word
  rip : Word
  rflags : Word

structure Sigframe extends Regs where
  sigMask : Word
  signo : Word

def SIGFRAME_SIZE : Word := 160

def sigDefaultIsFatal (sig : Nat) : Bool :=
  [SIGHUP, SIGINT, SIGQUIT, SIGILL, SIGABRT, SIGFPE, SIGKILL, SIGSEGV, SIGPIPE, SIGALRM, SIGTERM, SIGUSR1,
    SIGUSR2, SIGBUS, SIGXCPU, SIGXFSZ].contains sig

inductive Action
  | die (notify : Bool)
  | ignore
  /-- `table` tells a `sigactions` entry from a legacy handler. -/
  | handle (sa : Sigaction) (table : Bool)

def sigactionOf (t : Task) (sig : Nat) : Option Sigaction :=
  t.sigactions.bind fun tbl => if (tbl sig).saHandler ≠ 0 then some (tbl sig) else none

def action (t : Task) (sig : Nat) : Action :=
  match sigactionOf t sig with
  | some sa =>
    if sa.saHandler.toNat ≤ 1 then
      if sa.saHandler = 0 ∧ sigDefaultIsFatal sig then .die false else .ignore
    else .handle sa true
  | none =>
    match t.sigHandlers with
    | some h =>
      if h sig = 0 then if sigDefaultIsFatal sig then .die true else .ignore
      else if h sig = 1 then .ignore
      else .handle { saHandler := h sig, saFlags := 0, saRestorer := 0, saMask := 0 } false
    | none => if sigDefaultIsFatal sig then .die false else .ignore

/-- What `signal_deliver_user` did: nothing (it returned false), it ended the task, whose parent may have to be
told, or it entered a handler with new registers, after it had written a frame and perhaps a return address. -/
inductive Outcome
  | idle
  | died (parent : Option TaskId)
  | handler (regs : Regs) (sp : Word) (frame : Sigframe) (ret : Option (Word × Word))

/-- A task ends by a signal; it stays as a zombie if its parent is told. -/
def die (t : Task) (sig : Nat) (notify : Bool) : Outcome × Task :=
  let parent := if notify then t.parent else none
  (.died parent, { t with exitStatus := sig, state := if parent.isSome then .zombie else .dead })

def frameSp (t : Task) (regs : Regs) (sa : Sigaction) : Word :=
  let sp := if sa.saFlags &&& SA_ONSTACK ≠ 0 ∧ t.altstackSp ≠ 0 ∧ t.altstackFlags &&& SS_DISABLE = 0 then
      t.altstackSp + t.altstackSize
    else regs.rsp
  (sp - SIGFRAME_SIZE) &&& ~~~0xF#64

def enterHandler (mapped : Word → Bool) (regs : Regs) (t : Task) (sig : Nat) (sa : Sigaction) (table : Bool) :
    Outcome × Task :=
  let sp := frameSp t regs sa
  if !mapped sp then (.idle, t)
  else if !mapped (sp + SIGFRAME_SIZE - 1) then (.idle, t)
  else
    let frame := { regs with sigMask := t.sigMask, signo := BitVec.ofNat 64 sig }
    let mask := if sa.saFlags &&& SA_NODEFER = 0 then t.sigMask ||| BitVec.twoPow 64 sig else t.sigMask
    let restorer : Bool := sa.saFlags &&& SA_RESTORER ≠ 0 && sa.saRestorer ≠ 0
    let rsp := if restorer then sp - 8 else sp
    let ret := if restorer && mapped (sp - 8) then some (sp - 8, sa.saRestorer) else none
    (.handler { regs with rdi := BitVec.ofNat 64 sig, rip := sa.saHandler, rsp := rsp } sp frame ret,
      { t with
        sigMask := mask ||| sa.saMask
        sigactions := if sa.saFlags &&& SA_RESETHAND ≠ 0 ∧ table then
            t.sigactions.map fun tbl => Function.update tbl sig { tbl sig with saHandler := 0 }
          else t.sigactions })

def deliverLoop (mapped : Word → Bool) (regs : Regs) (deliverable : Word) : List Nat → Task → Outcome × Task
  | [], t => (.idle, t)
  | sig :: sigs, t =>
    if !deliverable.getLsbD sig then deliverLoop mapped regs deliverable sigs t
    else
      let t := { t with sigPending := t.sigPending &&& ~~~twoPow 64 sig }
      if sig = SIGKILL then die t sig true
      else
        match action t sig with
        | .die notify => die t sig notify
        | .ignore => deliverLoop mapped regs deliverable sigs t
        | .handle sa table => enterHandler mapped regs t sig sa table

def deliverTask (mapped : Word → Bool) (regs : Regs) (t : Task) : Outcome × Task :=
  if !t.isUser then (.idle, t)
  else
    let deliverable := t.sigPending &&& ~~~t.sigMask
    if deliverable = 0 then (.idle, t)
    else deliverLoop mapped regs deliverable (List.range' 1 (NSIGS - 1)) t

def signalDeliverUser (mapped : Word → Bool) (regs : Regs) (k : Kernel) (i : TaskId) : Outcome × Kernel :=
  match k.tasks i with
  | none => (.idle, k)
  | some t =>
    let r := deliverTask mapped regs t
    let k := k.modify i fun _ => r.2
    (r.1, match r.1 with
      | .died (some p) => signalSend k p SIGCHLD
      | _ => k)

/-! ### The calls on actions and masks -/

def unblockable : Word := twoPow 64 SIGKILL ||| twoPow 64 SIGSTOP

/-- `sys_rt_sigaction`; `alloc` is the outcome of `kmalloc`. The second component goes to `oldact`. -/
def sysRtSigaction (t : Task) (alloc : Bool) (sig : Int) (act : Option Sigaction) :
    Int × Option Sigaction × Task :=
  if sig ≤ 0 ∨ (NSIGS : Int) ≤ sig then (-EINVAL, none, t)
  else if sig = SIGKILL ∨ sig = SIGSTOP then (-EINVAL, none, t)
  else
    match t.sigactions.orElse fun _ => if alloc then some fun _ => ⟨0, 0, 0, 0⟩ else none with
    | none => (-ENOMEM, none, t)
    | some tbl =>
      (0, some (tbl sig.toNat),
        match act with
        | none => { t with sigactions := some tbl }
        | some a =>
          { t with
            sigactions := some (Function.update tbl sig.toNat a)
            sigHandlers := t.sigHandlers.map fun h => Function.update h sig.toNat a.saHandler })

/-- `sys_rt_sigprocmask`; the second component goes to `oldset`. -/
def sysRtSigprocmask (t : Task) (how : Int) (set : Option Word) : Int × Word × Task :=
  match set with
  | none => (0, t.sigMask, t)
  | some s =>
    let s := s &&& ~~~unblockable
    if how = 0 then (0, t.sigMask, { t with sigMask := t.sigMask ||| s })
    else if how = 1 then (0, t.sigMask, { t with sigMask := t.sigMask &&& ~~~s })
    else if how = 2 then (0, t.sigMask, { t with sigMask := s })
    else (-EINVAL, t.sigMask, t)

/-- `sys_rt_sigreturn`; no frame if the page at the stack pointer is not present. -/
def sysRtSigreturn (t : Task) (frame : Option Sigframe) : Int × Option Regs × Task :=
  match frame with
  | none => (-EFAULT, none, t)
  | some f => (f.rax.toInt, some f.toRegs, { t with sigMask := f.sigMask })

structure KernelStack where
  ssSp : Word
  ssFlags : BitVec 32
  ssSize : Word

/-- `sys_sigaltstack`, with its own value of `SS_DISABLE`. -/
def sysSigaltstack (t : Task) (ss : Option KernelStack) : Int × Task :=
  match ss with
  | none => (0, t)
  | some s =>
    if s.ssFlags &&& ~~~(1#32 ||| 4#32) ≠ 0 then (-EINVAL, t)
    else if s.ssFlags &&& 4#32 ≠ 0 then
      (0, { t with altstackSp := 0, altstackSize := 0, altstackFlags := 4 })
    else if s.ssSp = 0 ∨ s.ssSize.toNat < 2048 then (-ENOMEM, t)
    else (0, { t with altstackSp := s.ssSp, altstackSize := s.ssSize, altstackFlags := 0 })

/-- `sys_rt_sigsuspend` up to the wait: the old mask, of which it keeps 32 bits, and the task. -/
def sigsuspendBegin (t : Task) (mask : Option Word) : BitVec 32 × Task :=
  (t.sigMask.setWidth 32,
    match mask with
    | none => t
    | some m => { t with sigMask := m &&& 0xFFFFFFFF#64 })

/-- The end of the wait: a signal among the first 32 is pending and not blocked. -/
def sigsuspendReady (t : Task) : Bool := (t.sigPending &&& ~~~t.sigMask).setWidth 32 != 0

def sigsuspendEnd (t : Task) (old : BitVec 32) : Task := { t with sigMask := old.setWidth 64 }

end ExoOS.Ipc
