import ExoOS.Sched.Quiet

/-!
# Wait queues

`sched/waitq.c` over the scheduler: first-in-first-out lists of blocked tasks, linked through the same `next` as the
run queues. A timed wait arms a timer, whose callback takes the task off the queue; a task that returns from its
timed wait cancels the timer and takes itself off the queue, if it is still there. `signal_send` wakes a task
without a look at the queue it is on.

`waits` is not in the source: it records the queue on which a task has blocked, for as long as it is blocked.
-/

namespace ExoOS.Sched

open Links Function

variable {κ τ ω : Type} [DecidableEq κ] [DecidableEq τ] [DecidableEq ω]

structure Waitq (τ : Type) where
  head : Option τ
  tail : Option τ

/-- `wq_timeout_ctx`; the timer is active until it has fired. -/
structure TimeoutCtx (ω : Type) where
  wq : ω
  fired : Bool

structure WaitState (κ τ ω : Type) where
  sched : SchedState κ τ
  wqs : ω → Waitq τ
  /-- The timed wait from which a task has not returned. -/
  ctx : τ → Option (TimeoutCtx ω)
  waits : τ → Option ω

def SchedState.setNext (s : SchedState κ τ) (t : τ) (n : Option τ) : SchedState κ τ :=
  s.modify t fun k => { k with next := n }

namespace WaitState

variable (s : WaitState κ τ ω) (c : κ) (w : ω) (t : τ)

/-- After a call into the scheduler, who is not blocked any more does not wait any more. -/
def withSched (sched : SchedState κ τ) : WaitState κ τ ω :=
  { s with sched := sched, waits := fun t => if sched.state t = .blocked then s.waits t else none }

def unblock : WaitState κ τ ω := s.withSched (s.sched.schedUnblock t)

def append : Option (WaitState κ τ ω) :=
  let sched := s.sched.setNext t none
  match (s.wqs w).head with
  | none => some { s with sched := sched, wqs := update s.wqs w { head := some t, tail := some t } }
  | some h =>
    (s.wqs w).tail.map fun p =>
      { s with
        sched := sched.setNext p (some t)
        wqs := update s.wqs w { head := some h, tail := some t } }

def waitqWait : Option (WaitState κ τ ω) :=
  let cur := (s.sched.cpus c).current
  (s.append w cur).bind fun s =>
    (s.sched.schedBlock c).map { s with waits := update s.waits cur (some w) }.withSched

/-- `waitq_wait_timeout` up to the return from `sched_block`. -/
def waitqWaitTimeout (ms : Nat) : Option (WaitState κ τ ω) :=
  if ms = 0 then some s
  else
    let cur := (s.sched.cpus c).current
    { s with ctx := update s.ctx cur (some { wq := w, fired := false }) }.waitqWait c w

def unlink (prev : Option τ) : WaitState κ τ ω :=
  { s with
    sched :=
      (match prev with
        | some p => s.sched.setNext p (s.sched.next t)
        | none => s.sched).setNext t none
    wqs := update s.wqs w
      { head := if prev = none then s.sched.next t else (s.wqs w).head
        tail := if (s.wqs w).tail = some t then prev else (s.wqs w).tail } }

def remove : Option (WaitState κ τ ω) :=
  (seek s.sched.next t s.sched.objs.length none (s.wqs w).head).map fun
    | none => s
    | some prev => s.unlink w t prev

/-- `waitq_wait_timeout` from the return of `sched_block`, by the current task. -/
def waitTimeoutEnd : Option (WaitState κ τ ω) :=
  let cur := (s.sched.cpus c).current
  match s.ctx cur with
  | none => some s
  | some x =>
    let s := { s with ctx := update s.ctx cur none }
    if x.fired then some s else s.remove x.wq cur

def wqTimeoutCb : Option (WaitState κ τ ω) :=
  match s.ctx t with
  | none => some s
  | some x =>
    let s := { s with ctx := update s.ctx t (some { x with fired := true }) }
    (s.remove x.wq t).map fun s => if s.sched.state t = .blocked then s.unblock t else s

def waitqWakeOne : WaitState κ τ ω :=
  match (s.wqs w).head with
  | none => s
  | some t =>
    let head := s.sched.next t
    let tail := if head = none then none else (s.wqs w).tail
    { s with
      sched := s.sched.setNext t none
      wqs := update s.wqs w { head := head, tail := tail } }.unblock t

def unblockList : Nat → Option τ → SchedState κ τ → Option (SchedState κ τ)
  | _, none, s => some s
  | 0, some _, _ => none
  | n + 1, some t, s => unblockList n (s.next t) ((s.setNext t none).schedUnblock t)

def waitqWakeAll : Option (WaitState κ τ ω) :=
  (unblockList s.sched.objs.length (s.wqs w).head s.sched).map
    { s with wqs := update s.wqs w { head := none, tail := none } }.withSched

/-- `signal_send`; the pending bit is not part of this model. -/
def signalSend (sig : Int) : WaitState κ τ ω :=
  if sig ≤ 0 ∨ (NSIGS : Int) ≤ sig then s else s.unblock t

end WaitState

/-- `waitEnd` is the rest of a timed wait, `expire` the timer's callback. -/
inductive WaitEvent (κ τ ω : Type)
  | sched (e : SchedEvent κ τ)
  | wait (c : κ) (w : ω)
  | waitTimeout (c : κ) (w : ω) (ms : Nat)
  | waitEnd (c : κ)
  | wakeOne (w : ω)
  | wakeAll (w : ω)
  | expire (t : τ)
  | signal (t : τ) (sig : Int)

namespace WaitState

variable (s : WaitState κ τ ω)

/-- The current task of `c` is no idle task and not inside a timed wait. -/
def Free (c : κ) : Prop :=
  (s.sched.cpus c).current ≠ (s.sched.cpus c).idle ∧ (s.ctx (s.sched.cpus c).current).isNone

instance (c : κ) : Decidable (s.Free c) := inferInstanceAs (Decidable (_ ∧ _))

def Enabled : WaitEvent κ τ ω → Prop
  | .sched e => s.sched.Enabled e ∧ ∀ c ∈ e.caller, s.Free c
  | .wait c _ | .waitTimeout c _ _ => s.Free c
  | .waitEnd c => (s.ctx (s.sched.cpus c).current).isSome
  | .wakeOne _ | .wakeAll _ => True
  | .expire t => (s.ctx t).any fun x => !x.fired
  | .signal t _ => t ∈ s.sched.objs

instance : ∀ e, Decidable (s.Enabled e)
  | .sched e => inferInstanceAs (Decidable (s.sched.Enabled e ∧ ∀ c ∈ e.caller, s.Free c))
  | .wait _ _ | .waitTimeout _ _ _ => inferInstanceAs (Decidable (_ ∧ _))
  | .wakeOne _ | .wakeAll _ => inferInstanceAs (Decidable True)
  | .waitEnd _ | .expire _ => inferInstanceAs (Decidable (_ = true))
  | .signal _ _ => inferInstanceAs (Decidable (_ ∈ _))

def call : WaitEvent κ τ ω → Option (WaitState κ τ ω)
  | .sched e => (s.sched.call e).map s.withSched
  | .wait c w => s.waitqWait c w
  | .waitTimeout c w ms => s.waitqWaitTimeout c w ms
  | .waitEnd c => s.waitTimeoutEnd c
  | .wakeOne w => some (s.waitqWakeOne w)
  | .wakeAll w => s.waitqWakeAll w
  | .expire t => s.wqTimeoutCb t
  | .signal t sig => some (s.signalSend t sig)

def target : WaitEvent κ τ ω → Option ω
  | .sched _ | .signal _ _ => none
  | .wait _ w | .waitTimeout _ w _ | .wakeOne w | .wakeAll w => some w
  | .waitEnd c => (s.ctx (s.sched.cpus c).current).map (·.wq)
  | .expire t => (s.ctx t).map (·.wq)

end WaitState

def waitStep (s : WaitState κ τ ω) (e : WaitEvent κ τ ω) : Option (WaitState κ τ ω) :=
  if s.Enabled e then s.call e else none

structure WaitInit (s : WaitState κ τ ω) : Prop where
  sched : SchedInit s.sched
  wqs : ∀ w, s.wqs w = { head := none, tail := none }
  ctx : ∀ t, s.ctx t = none
  waits : ∀ t, s.waits t = none

def Calm (s : WaitState κ τ ω) : WaitEvent κ τ ω → Prop
  | .sched e => ∀ t ∈ e.wakes, s.waits t = none
  | .signal t sig => 0 < sig ∧ sig < NSIGS → s.waits t = none
  | _ => True

instance (s : WaitState κ τ ω) : ∀ e, Decidable (Calm s e)
  | .sched e => inferInstanceAs (Decidable (∀ t ∈ e.wakes, s.waits t = none))
  | .signal t _ => inferInstanceAs (Decidable (_ → s.waits t = none))
  | .wait _ _ | .waitTimeout _ _ _ | .waitEnd _ | .wakeOne _ | .wakeAll _ | .expire _ =>
    inferInstanceAs (Decidable True)

end ExoOS.Sched
