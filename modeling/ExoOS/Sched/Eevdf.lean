import ExoOS.Lib.Links
import ExoOS.Sched.Task

/-!
# The scheduler

`sched/sched.c`: the run queue and the sleep list of each CPU, linked through `next` and `sleep_next` of the tasks
themselves, the tick that charges the running task and picks the next one, and the calls that block, wake, add and
end tasks. A call is one step: the locks and the switch of stacks are left out, and `smp_self` is the argument `c`.

Task objects are pointers of a type `τ`, CPUs indices of a type `κ`. `objs` are the task objects in use, the idle
tasks among them. A loop along a list takes at most as many steps as there are objects; a list that is longer
is circular, the source hangs on it, and the model gives `none`.

Times and counters of 64 bits are natural numbers below `2 ^ 64`; `queue_len` and `ticks_used` count tasks and
ticks of one slice and do not come near their 32 bits.
-/

namespace ExoOS.Sched

open Links

def EEVDF_TICK_SCALE : Nat := 1048576
def NPRIO : Nat := 8
def U64_MAX : Nat := 2 ^ 64 - 1

def prioToWeight : Nat → Nat
  | 0 => 16384
  | 1 => 8192
  | 2 => 4096
  | 3 => 2048
  | 4 => 1024
  | 5 => 512
  | 6 => 256
  | _ => 128

/-- The fields of `task_t` that belong to the scheduler. -/
structure SchedTask (κ τ : Type) where
  state : TaskState
  cpuId : κ
  next : Option τ
  priority : Nat
  weight : Nat
  vruntime : Nat
  deadline : Nat
  sliceTicks : Nat
  ticksUsed : Nat
  vruntimeInitialized : Bool
  sleepDeadline : Nat
  sleepNext : Option τ

/-- `task_alloc_common` -/
def SchedTask.new {κ τ : Type} (c : κ) : SchedTask κ τ :=
  { state := .runnable, cpuId := c, next := none, priority := 4, weight := 1024, vruntime := 0, deadline := 0
    sliceTicks := 10, ticksUsed := 0, vruntimeInitialized := false, sleepDeadline := 0, sleepNext := none }

structure CpuSched (τ : Type) where
  current : τ
  rqHead : Option τ
  vSystem : Nat
  idle : τ
  sleepHead : Option τ
  queueLen : Nat

structure SchedState (κ τ : Type) where
  tasks : τ → SchedTask κ τ
  cpus : κ → CpuSched τ
  jiffies : Nat
  objs : List τ

variable {κ τ : Type} [DecidableEq κ] [DecidableEq τ]

namespace SchedState

variable (s : SchedState κ τ) (c : κ) (t : τ)

def modify (f : SchedTask κ τ → SchedTask κ τ) : SchedState κ τ :=
  { s with tasks := Function.update s.tasks t (f (s.tasks t)) }

def onCpu (f : CpuSched τ → CpuSched τ) : SchedState κ τ :=
  { s with cpus := Function.update s.cpus c (f (s.cpus c)) }

def next : Option τ := (s.tasks t).next

def sleepNext : Option τ := (s.tasks t).sleepNext

def state : TaskState := (s.tasks t).state

/-! ### The run queue -/

/-- The runtime `rq_enqueue` gives a task: that of the system if it is new or too far behind. -/
def caughtUp (v : Nat) (k : SchedTask κ τ) : Nat :=
  if !k.vruntimeInitialized then v
  else if EEVDF_TICK_SCALE * 10 < v ∧ k.vruntime < v - EEVDF_TICK_SCALE * 10 then v - EEVDF_TICK_SCALE * 10
  else k.vruntime

def rqEnqueue : SchedState κ τ :=
  if t = (s.cpus c).idle then s
  else
    (s.modify t fun k =>
      let vr := caughtUp (s.cpus c).vSystem k
      let w := if k.weight = 0 then 1024 else k.weight
      { k with
        vruntime := vr
        vruntimeInitialized := true
        weight := w
        deadline := (vr + k.sliceTicks * EEVDF_TICK_SCALE / w) % 2 ^ 64
        next := (s.cpus c).rqHead }).onCpu c fun cs =>
      { cs with rqHead := some t, queueLen := cs.queueLen + 1 }

/-- The least `vruntime` of the queue `q` and of the task that is running. -/
def minVruntime (q : List τ) : Nat :=
  let m := minKey (fun t => (s.tasks t).vruntime) U64_MAX q
  let cur := (s.cpus c).current
  if cur ≠ (s.cpus c).idle ∧ s.state cur = .running ∧ (s.tasks cur).vruntime < m then (s.tasks cur).vruntime
  else m

def setVSystem (q : List τ) : SchedState κ τ :=
  if s.minVruntime c q = U64_MAX then s else s.onCpu c fun cs => { cs with vSystem := s.minVruntime c q }

/-- The task of the queue `q` that is taken and the one before it: the earliest deadline of those that are
eligible, or else the least `vruntime`. -/
def best (q : List τ) : Option (Option τ × τ) :=
  (least (fun t => (s.tasks t).vruntime ≤ (s.cpus c).vSystem) (fun t => (s.tasks t).deadline) U64_MAX q).or
    (least (fun _ => true) (fun t => (s.tasks t).vruntime) U64_MAX q)

def rqUnlink (prev : Option τ) : SchedState κ τ :=
  (match prev with
    | some p => s.modify p fun k => { k with next := s.next t }
    | none => s.onCpu c fun cs => { cs with rqHead := s.next t }).modify t (fun k => { k with next := none })
    |>.onCpu c fun cs => { cs with queueLen := cs.queueLen - 1 }

def rqDequeue : Option (Option τ × SchedState κ τ) :=
  if (s.cpus c).rqHead = none then some (none, s)
  else
    (walk s.next s.objs.length (s.cpus c).rqHead).map fun q =>
      let s := s.setVSystem c q
      match s.best c q with
      | none => (none, s)
      | some (prev, t) => (some t, s.rqUnlink c t prev)

/-! ### The tick -/

def charge : SchedState κ τ :=
  let prev := (s.cpus c).current
  if s.state prev = .running then
    s.modify prev fun k =>
      { k with
        vruntime :=
          if prev = (s.cpus c).idle then k.vruntime
          else (k.vruntime + EEVDF_TICK_SCALE / (if k.weight = 0 then 1024 else k.weight)) % 2 ^ 64
        ticksUsed := k.ticksUsed + 1 }
  else s

def Expired : Prop :=
  let cs := s.cpus c
  let prev := s.tasks cs.current
  prev.state = .running ∧ ((if cs.current = cs.idle then 1 else prev.sliceTicks) ≤ prev.ticksUsed ∨
    cs.current ≠ cs.idle ∧ prev.deadline ≤ prev.vruntime)

instance : Decidable (s.Expired c) := inferInstanceAs (Decidable (_ ∧ (_ ∨ _)))

def expire : SchedState κ τ :=
  if s.Expired c then
    (s.modify (s.cpus c).current fun k => { k with state := .runnable, ticksUsed := 0 }).rqEnqueue c
      (s.cpus c).current
  else s

def sleepUnlink (sp : Option τ) : SchedState κ τ :=
  (match sp with
    | some p => s.modify p fun k => { k with sleepNext := s.sleepNext t }
    | none => s.onCpu c fun cs => { cs with sleepHead := s.sleepNext t }).modify t fun k =>
      { k with sleepNext := none, sleepDeadline := 0, state := .runnable }

def wakeFrom (c : κ) : Nat → Option τ → Option τ → SchedState κ τ → Option (SchedState κ τ)
  | _, _, none, s => some s
  | 0, _, some _, _ => none
  | n + 1, sp, some t, s =>
    if (s.tasks t).sleepDeadline ≤ s.jiffies then
      wakeFrom c n sp (s.sleepNext t) ((s.sleepUnlink c t sp).rqEnqueue c t)
    else wakeFrom c n (some t) (s.sleepNext t) s

def wakeSleepers : Option (SchedState κ τ) := wakeFrom c s.objs.length none (s.cpus c).sleepHead s

def atSelection : Option (SchedState κ τ) := ((s.charge c).expire c).wakeSleepers c

/-- The loop that looks for a task that can run. `dead` is `dead_list`. The queue does not grow in the loop, so
that one round more than its length is enough. -/
def pickFrom (c : κ) : Nat → Nat → List τ → SchedState κ τ → Option (Option τ × List τ × SchedState κ τ)
  | 0, _, dead, s => some (none, dead, s)
  | n + 1, tried, dead, s =>
    if tried < (s.cpus c).queueLen + 1 then
      (s.rqDequeue c).bind fun r =>
        match r.1 with
        | none => some (none, dead, r.2)
        | some t =>
          match r.2.state t with
          | .runnable => some (some t, dead, r.2)
          | .dead => pickFrom c n (tried + 1) (t :: dead) (r.2.modify t fun k => { k with next := dead.head? })
          | .zombie => pickFrom c n (tried + 1) dead r.2
          | _ => pickFrom c n (tried + 1) dead (r.2.rqEnqueue c t)
    else some (none, dead, s)

def pick : Option (Option τ × List τ × SchedState κ τ) := pickFrom c ((s.cpus c).queueLen + 1) 0 [] s

/-- A task that is still running goes back to the queue when another one follows it. -/
def putBack (next : τ) : SchedState κ τ :=
  let prev := (s.cpus c).current
  if s.state prev = .running ∧ prev ≠ next then
    (s.modify prev fun k => { k with state := .runnable }).rqEnqueue c prev
  else s

/-- `task_destroy`, as far as the scheduler sees it. -/
def taskDestroy : SchedState κ τ := { s with objs := s.objs.erase t }

def destroyAll (dead : List τ) : SchedState κ τ :=
  dead.foldl (fun s d => (s.modify d fun k => { k with next := none }).taskDestroy d) s

def switchTo (next : τ) : SchedState κ τ :=
  (s.modify next fun k => { k with ticksUsed := 0, state := .running }).onCpu c fun cs => { cs with current := next }

def schedTick : Option (SchedState κ τ) :=
  (s.atSelection c).bind fun s =>
    (s.pick c).map fun r =>
      let next := r.1.getD (s.cpus c).idle
      ((r.2.2.putBack c next).destroyAll r.2.1).switchTo c next

def schedAddTask : SchedState κ τ := (s.modify t fun k => { k with state := .runnable }).rqEnqueue c t

def taskCreate : SchedState κ τ :=
  { s with tasks := Function.update s.tasks t (.new c), objs := t :: s.objs }

def schedBlock : Option (SchedState κ τ) :=
  (s.modify (s.cpus c).current fun k => { k with state := .blocked }).schedTick c

def schedUnblock : SchedState κ τ :=
  if s.state t = .blocked then
    (s.modify t fun k => { k with state := .runnable }).rqEnqueue (s.tasks t).cpuId t
  else s

def fallAsleep (ms : Nat) : SchedState κ τ :=
  let cur := (s.cpus c).current
  (s.modify cur fun k =>
    { k with
      sleepDeadline := (s.jiffies + ms) % 2 ^ 64
      state := .sleeping
      sleepNext := (s.cpus c).sleepHead }).onCpu c fun cs => { cs with sleepHead := some cur }

def schedSleep (ms : Nat) : Option (SchedState κ τ) :=
  if ms = 0 then some s else (s.fallAsleep c ms).schedTick c

def schedSetPriority (priority : Nat) : SchedState κ τ :=
  let p := if NPRIO ≤ priority then NPRIO - 1 else priority
  s.modify t fun k =>
    { k with
      priority := p
      weight := prioToWeight p
      ticksUsed := 0
      deadline := (k.vruntime + k.sliceTicks * EEVDF_TICK_SCALE / prioToWeight p) % 2 ^ 64 }

/-- `sched_task_exit` of the current task, whose parent is `parent` and in the same process if `thread`. -/
def schedTaskExit (parent : Option τ) (thread : Bool) : Option (SchedState κ τ) :=
  let cur := (s.cpus c).current
  match parent with
  | none => (s.modify cur fun k => { k with state := .dead }).schedTick c
  | some p =>
    if thread then (s.modify cur fun k => { k with state := .dead }).schedTick c
    -- `signal_send` wakes the parent
    else ((s.modify cur fun k => { k with state := .zombie }).schedUnblock p).schedTick c

end SchedState

/-- The calls into the scheduler. `addTask` creates the task; `timer` is the part of the timer interrupt that
advances the clock; `reap` is `task_destroy` of a task whose parent has waited for it. -/
inductive SchedEvent (κ τ : Type)
  | addTask (t : τ) (c : κ)
  | timer
  | tick (c : κ)
  | block (c : κ)
  | sleep (c : κ) (ms : Nat)
  | unblock (t : τ)
  | setPriority (t : τ) (priority : Nat)
  | exit (c : κ) (parent : Option τ) (thread : Bool)
  | reap (t : τ)

def SchedEvent.keeps : SchedEvent κ τ → Bool
  | .addTask .. | .exit .. | .reap _ => false
  | _ => true

/-- A new task has memory of its own, and the idle task, whose code only halts, is not made to wait by an interrupt
handler that runs on it. -/
def SchedState.Enabled (s : SchedState κ τ) : SchedEvent κ τ → Prop
  | .addTask t _ => t ∉ s.objs
  | .timer | .tick _ => True
  | .block c | .sleep c _ => (s.cpus c).current ≠ (s.cpus c).idle
  | .unblock t | .setPriority t _ => t ∈ s.objs
  | .exit c parent _ => (s.cpus c).current ≠ (s.cpus c).idle ∧ ∀ p ∈ parent, p ∈ s.objs
  | .reap t => t ∈ s.objs ∧ s.state t = .zombie

instance (s : SchedState κ τ) : ∀ e, Decidable (s.Enabled e)
  | .addTask _ _ => inferInstanceAs (Decidable (_ ∉ _))
  | .timer | .tick _ => inferInstanceAs (Decidable True)
  | .block _ | .sleep _ _ => inferInstanceAs (Decidable (_ ≠ _))
  | .unblock _ | .setPriority _ _ => inferInstanceAs (Decidable (_ ∈ _))
  | .exit _ parent _ => inferInstanceAs (Decidable (_ ∧ ∀ p ∈ parent, p ∈ s.objs))
  | .reap _ => inferInstanceAs (Decidable (_ ∧ _))

def SchedState.call (s : SchedState κ τ) : SchedEvent κ τ → Option (SchedState κ τ)
  | .addTask t c => some ((s.taskCreate c t).schedAddTask c t)
  | .timer => some { s with jiffies := (s.jiffies + 1) % 2 ^ 64 }
  | .tick c => s.schedTick c
  | .block c => s.schedBlock c
  | .sleep c ms => s.schedSleep c ms
  | .unblock t => some (s.schedUnblock t)
  | .setPriority t p => some (s.schedSetPriority t p)
  | .exit c parent thread => s.schedTaskExit c parent thread
  | .reap t => some (s.taskDestroy t)

/-- The state after `sched_init` of all CPUs. -/
structure SchedInit (s : SchedState κ τ) : Prop where
  cpus : ∀ c, ∃ i, s.cpus c =
    { current := i, rqHead := none, vSystem := 0, idle := i, sleepHead := none, queueLen := 0 }
  tasks : ∀ c, s.tasks (s.cpus c).idle = .new c
  objs : ∀ t, t ∈ s.objs ↔ ∃ c, t = (s.cpus c).idle
  nodup : s.objs.Nodup

end ExoOS.Sched
