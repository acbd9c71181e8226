import ExoOS.Ipc.SignalMask

/-!
# The flags of user code

Where the RFLAGS of a user task come from: `syscall_entry`, the interrupt stubs and the two trampolines of
`context_switch.asm`, over the signal calls. A task that is in the kernel has a `cpu_regs_t` on its kernel stack, and
`iretq` loads the flags from there. `rt_sigreturn` copies them from the user stack as they are, and a system call
stores where its pointer arguments say, which no call checks.
-/

namespace ExoOS.Ipc

open Option Sched Transition

inductive Ctx
  | user (rflags : Word)
  /-- In a system call or an interrupt, with the frame to return to. -/
  | kernel (regs : Regs)
  /-- Its next return is `user_mode_trampoline`. -/
  | born
  /-- Its next return is `user_fork_return_trampoline`. -/
  | forked (regs : Regs)

def Ctx.returnFlags : Ctx → Option Word
  | .kernel regs | .forked regs => some regs.rflags
  | .born => some 0x202
  | .user _ => none

/-- `loaded`: what `iretq` has loaded on returns to ring 3. -/
structure Machine where
  sys : Sys
  ctx : TaskId → Ctx
  loaded : List Word

inductive MachineEvent
  | user (i : TaskId) (rflags : Word)
  | enter (i : TaskId) (regs : Regs)
  | deliver (i : TaskId) (mapped : Word → Bool)
  | seccomp (i : TaskId) (mapped : Word → Bool)
  | sigreturn (i : TaskId) (frame : Option Sigframe)
  /-- `stack`: an argument of `clone`, 0 otherwise. -/
  | call (i : TaskId) (c : Call) (stack : Word)
  /-- The other signal calls, and a signal from anywhere. -/
  | signal (e : Event)
  /-- A call of `i` stores over the flags in the frame of `j`, through one of its pointer arguments. -/
  | store (i j : TaskId) (rflags : Word)
  | iretq (i : TaskId)

def iopl (rflags : Word) : BitVec 2 := rflags.extractLsb' 12 2

def interruptFlag (rflags : Word) : Bool := rflags.getLsbD 9

def ringThree (old new : Word) : Prop :=
  iopl old = 0 → interruptFlag new = interruptFlag old ∧ iopl new = iopl old

instance (old new : Word) : Decidable (ringThree old new) := inferInstanceAs (Decidable (_ → _))

def Outcome.regs : Outcome → Regs → Regs
  | .handler r _ _ _, _ => r
  | _, r => r

def Event.isQuiet : Event → Bool
  | .deliver .. | .sigreturn .. | .seccomp .. | .call .. => false
  | _ => true

namespace Machine

def frame (s : Machine) (i : TaskId) : Option Regs :=
  match s.ctx i with
  | .kernel regs => some regs
  | _ => none

def setCtx (s : Machine) (i : TaskId) (c : Ctx) : Machine := { s with ctx := Function.update s.ctx i c }

/-- The new tasks of a call start from a copy of the frame of their parent. -/
def withChildren (s : Machine) (k : Kernel) (regs : Regs) (stack : Word) : TaskId → Ctx := fun j =>
  if (s.sys.kernel.tasks j).isNone && (k.tasks j).isSome then
    .forked { regs with rax := 0, rsp := if stack = 0 then regs.rsp else stack }
  else s.ctx j

def step (s : Machine) : MachineEvent → Option Machine
  | .user i rflags =>
    match s.ctx i with
    | .user old => if ringThree old rflags then some (s.setCtx i (.user rflags)) else none
    | _ => none
  | .enter i regs =>
    match s.ctx i with
    | .user rflags => some (s.setCtx i (.kernel { regs with rflags }))
    | _ => none
  | .deliver i mapped => do
    let regs ← s.frame i
    let sys ← Ipc.step s.sys (.deliver i mapped regs)
    let o := (signalDeliverUser mapped regs s.sys.kernel i).1
    some ({ s with sys }.setCtx i (.kernel (o.regs regs)))
  | .seccomp i mapped => do
    let regs ← s.frame i
    let regs := { regs with rax := BitVec.ofInt 64 (-EPERM) }
    let sys ← Ipc.step s.sys (.seccomp i mapped regs)
    let o := (signalDeliverUser mapped regs (signalSend s.sys.kernel i SIGKILL) i).1
    some ({ s with sys }.setCtx i (.kernel (o.regs regs)))
  | .sigreturn i frame => do
    let regs ← s.frame i
    let t ← s.sys.actor i
    let sys ← Ipc.step s.sys (.sigreturn i frame)
    let (r, restored, _) := sysRtSigreturn t frame
    some ({ s with sys }.setCtx i (.kernel { restored.getD regs with rax := BitVec.ofInt 64 r }))
  | .call i c stack => do
    let regs ← s.frame i
    let sys ← Ipc.step s.sys (.call i c)
    let next := match c with
      | .execve _ => .born
      | _ => .kernel { regs with rax := BitVec.ofInt 64 (Sched.call s.sys.kernel i c).1 }
    some ({ s with sys, ctx := s.withChildren sys.kernel regs stack }.setCtx i next)
  | .signal e => if e.isQuiet then (Ipc.step s.sys e).map fun sys => { s with sys } else none
  | .store i j rflags => do
    let _ ← s.frame i
    match s.ctx j with
    | .kernel regs => some (s.setCtx j (.kernel { regs with rflags }))
    | .forked regs => some (s.setCtx j (.forked { regs with rflags }))
    | _ => none
  | .iretq i => do
    let _ ← s.sys.actor i
    let rflags ← (s.ctx i).returnFlags
    some { s.setCtx i (.user rflags) with loaded := rflags :: s.loaded }

end Machine

structure Unprivileged (rflags : Word) : Prop where
  interrupts : interruptFlag rflags = true
  level : iopl rflags = 0

def Ctx.Ok : Ctx → Prop
  | .user rflags => Unprivileged rflags
  | .kernel regs | .forked regs => Unprivileged regs.rflags
  | .born => True

/-- The flags that a program hands to the kernel are unprivileged. -/
def MachineEvent.Harmless : MachineEvent → Prop
  | .sigreturn _ (some frame) => Unprivileged frame.rflags
  | .store _ _ rflags => Unprivileged rflags
  | _ => True

variable {regs : Regs}

theorem deliverLoop_rflags {mapped : Word → Bool} {deliverable : Word} (sigs : List Nat) (t : Task) :
    ((deliverLoop mapped regs deliverable sigs t).1.regs regs).rflags = regs.rflags := by
  induction sigs generalizing t with
  | nil => rfl
  | cons sig sigs ih =>
    unfold deliverLoop
    split
    · exact ih t
    dsimp only
    split
    · rfl
    split
    · rfl
    · exact ih _
    · unfold enterHandler
      dsimp only
      split
      · rfl
      split <;> rfl

theorem signalDeliverUser_rflags {mapped : Word → Bool} {k : Kernel} {i : TaskId} :
    ((signalDeliverUser mapped regs k i).1.regs regs).rflags = regs.rflags := by
  unfold signalDeliverUser deliverTask
  split
  · rfl
  dsimp only
  split
  · rfl
  split
  · rfl
  · exact deliverLoop_rflags _ _

namespace Machine

variable {s s' : Machine} {i : TaskId}

structure Inv (s : Machine) : Prop where
  ctx : ∀ i, (s.ctx i).Ok
  loaded : ∀ rflags ∈ s.loaded, Unprivileged rflags

theorem setCtx_ctx (s : Machine) (i j : TaskId) (c : Ctx) : (s.setCtx i c).ctx j = if j = i then c else s.ctx j :=
  Function.update_apply ..

theorem Inv.setCtx (h : Inv s) {c : Ctx} (hc : c.Ok) : Inv (s.setCtx i c) := by
  refine ⟨fun j => ?_, h.loaded⟩
  rw [setCtx_ctx]
  split
  · exact hc
  · exact h.ctx j

theorem Inv.frame (h : Inv s) (hf : s.frame i = some regs) : Unprivileged regs.rflags := by
  unfold Machine.frame at hf
  have hok := h.ctx i
  split at hf
  next hctx =>
    cases hf
    rw [hctx] at hok
    exact hok
  · cases hf

theorem Inv.withSys (h : Inv s) (sys : Sys) : Inv { s with sys } := ⟨h.ctx, h.loaded⟩

theorem Inv.withChildren (h : Inv s) (hr : Unprivileged regs.rflags) (sys : Sys) (k : Kernel)
    (stack : Word) : Inv { s with sys, ctx := s.withChildren k regs stack } := by
  refine ⟨fun j => ?_, h.loaded⟩
  dsimp only [Machine.withChildren]
  split
  · exact hr
  · exact h.ctx j

theorem Inv.step {e : MachineEvent} (h : Inv s) (he : e.Harmless) (hs : s.step e = some s') : Inv s' := by
  cases e with
  | user i rflags =>
    rw [Machine.step] at hs
    have hok := h.ctx i
    split at hs
    next old hctx =>
      rw [hctx] at hok
      split at hs
      next hring =>
        cases hs
        obtain ⟨hif, hlevel⟩ := hring hok.level
        exact h.setCtx ⟨hif.trans hok.interrupts, hlevel.trans hok.level⟩
      · cases hs
    · cases hs
  | enter i regs =>
    rw [Machine.step] at hs
    have hok := h.ctx i
    split at hs
    next hctx =>
      cases hs
      rw [hctx] at hok
      exact h.setCtx hok
    · cases hs
  | deliver i mapped | seccomp i mapped =>
    obtain ⟨regs, hf, hs⟩ := bind_eq_some_iff.1 hs
    obtain ⟨sys, -, hs⟩ := bind_eq_some_iff.1 hs
    cases hs
    have hr := h.frame hf
    refine (h.withSys sys).setCtx ?_
    rw [Ctx.Ok, signalDeliverUser_rflags]
    exact hr
  | sigreturn i frame =>
    obtain ⟨regs, hf, hs⟩ := bind_eq_some_iff.1 hs
    obtain ⟨t, -, hs⟩ := bind_eq_some_iff.1 hs
    obtain ⟨sys, -, hs⟩ := bind_eq_some_iff.1 hs
    cases hs
    have hr := h.frame hf
    refine (h.withSys sys).setCtx ?_
    cases frame with
    | none => exact hr
    | some f => exact he
  | call i c stack =>
    obtain ⟨regs, hf, hs⟩ := bind_eq_some_iff.1 hs
    obtain ⟨sys, -, hs⟩ := bind_eq_some_iff.1 hs
    cases hs
    have hr := h.frame hf
    refine (h.withChildren hr sys _ stack).setCtx ?_
    split
    · trivial
    · exact hr
  | signal e =>
    obtain ⟨-, hs⟩ := ite_none_right_eq_some.1 hs
    obtain ⟨sys, -, rfl⟩ := map_eq_some_iff.1 hs
    exact h.withSys sys
  | store i j rflags =>
    obtain ⟨_, -, hs⟩ := bind_eq_some_iff.1 hs
    split at hs
    · cases hs
      exact h.setCtx he
    · cases hs
      exact h.setCtx he
    · cases hs
  | iretq i =>
    obtain ⟨_, -, hs⟩ := bind_eq_some_iff.1 hs
    obtain ⟨rflags, hr, hs⟩ := bind_eq_some_iff.1 hs
    cases hs
    have hok := h.ctx i
    have hgood : Unprivileged rflags := by
      cases hctx : s.ctx i with
      | user w =>
        rw [hctx] at hr
        cases hr
      | born =>
        rw [hctx] at hr
        cases hr
        exact ⟨by decide, by decide⟩
      | kernel regs | forked regs =>
        rw [hctx] at hr hok
        cases hr
        exact hok
    refine ⟨(h.setCtx (c := .user rflags) hgood).ctx, fun w hw => ?_⟩
    rcases List.mem_cons.1 hw with rfl | hw
    · exact hgood
    · exact h.loaded w hw

/-- No return to ring 3 loads privileged flags, in a run in which the program never hands such flags to the kernel. -/
theorem user_flags {s0 : Machine} {es : List MachineEvent} (hborn : ∀ i, s0.ctx i = .born) (hnew : s0.loaded = [])
    (h : Run step (fun _ e => e.Harmless) s0 es s) : ∀ rflags ∈ s.loaded, Unprivileged rflags := by
  have hinv : Inv s := by
    refine h.inv (fun _ _ _ hI hC hs => hI.step hC hs) ⟨fun i => ?_, fun w hw => ?_⟩
    · rw [hborn]
      trivial
    · rw [hnew] at hw
      cases hw
  exact hinv.loaded

def start : Machine := { sys := fresh, ctx := fun _ => .born, loaded := [] }

def arithFrame : Sigframe := { zeroRegs with rflags := 0x246, sigMask := 0, signo := 0 }

/-- `rt_sigreturn` on a frame with the arithmetic flags of the program. -/
theorem user_flags_sigreturn : ∃ s,
    Run step (fun _ e => e.Harmless) start [.iretq 0, .enter 0 zeroRegs, .sigreturn 0 (some arithFrame), .iretq 0] s ∧
      s.loaded = [0x246, 0x202] ∧ ∀ rflags ∈ s.loaded, Unprivileged rflags := by
  have hrun : Run step (fun _ e => e.Harmless) start
      [.iretq 0, .enter 0 zeroRegs, .sigreturn 0 (some arithFrame), .iretq 0] _ :=
    .cons trivial rfl (.cons trivial rfl (.cons ⟨by decide, by decide⟩ rfl (.cons trivial rfl (.nil _))))
  exact ⟨_, hrun, rfl, user_flags (fun _ => rfl) rfl hrun⟩

def ioFrame : Sigframe := { zeroRegs with rflags := 0x3002, sigMask := 0, signo := 0 }

/-- `rt_sigreturn` on a frame of the program's own. -/
theorem user_flags_gained : ∃ s,
    Run step Any start [.iretq 0, .enter 0 zeroRegs, .sigreturn 0 (some ioFrame), .iretq 0] s ∧
    s.loaded = [0x3002, 0x202] ∧ iopl 0x3002 = 3 ∧ interruptFlag 0x3002 = false := by
  refine ⟨_, .cons trivial rfl (.cons trivial rfl (.cons trivial rfl (.cons trivial rfl (.nil _)))), rfl, ?_, ?_⟩
  · decide
  · decide

end Machine

end ExoOS.Ipc
