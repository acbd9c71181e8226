import ExoOS.Lib.Run
import ExoOS.Lib.Wakeups

/-!
# Calls that block

`pipe_read_op` and `pipe_write_op`, `ipc_send` and `ipc_recv`, `sys_wait4` and the exit of a child, as programs of
tasks that take steps in any order. One step is a region under a lock, an enqueue of `waitq_wait`, a `sched_block`,
the removal from a queue in `waitq_wake_one` or `waitq_wake_all`, or a `sched_unblock`. What a task does next is
`op`, unless it has a wake-up to do first (`Room.duty`) or is about to wait (`Room.stage`).

A queue is the list of the tasks on it. A task that is put on a queue twice would damage the links of the real
queue; that happens only if it is woken while it sleeps on a pipe by somebody who did not take it off the queue.
-/

namespace ExoOS.Blocking

open Wakeups Transition Function

abbrev Byte := BitVec 8

def PIPE_BUF_SIZE : Nat := 4096
def IPC_QUEUE_CAP : Nat := 16

def ECHILD : Int := 10
def EAGAIN : Int := 11
def EPIPE : Int := 32

/-- `pipe_t`; the ring buffer is the list of its bytes. -/
structure Pipe where
  data : List Byte
  readers : Nat
  writers : Nat

structure IpcMsg where
  fromTid : BitVec 32
  type : BitVec 32
  data : List (BitVec 64)

/-- What a task waits for: bytes, room, a message, or a child that has ended. -/
inductive Chan (π : Type)
  | read (p : π)
  | write (p : π)
  | mail
  | child (pid : Int)
  deriving DecidableEq

def Chan.IsPipe {π : Type} : Chan π → Prop
  | .read _ | .write _ => True
  | .mail | .child _ => False

instance {π : Type} : DecidablePred (Chan.IsPipe (π := π))
  | .read _ | .write _ => isTrue trivial
  | .mail | .child _ => isFalse id

inductive Target (τ : Type)
  | parent
  | init
  | task (d : τ)

/-- The rest of a call. -/
inductive Op (π τ : Type)
  | idle
  | read (p : π) (count : Nat) (nonblock : Bool)
  /-- `pipe_write_op` before its loop. -/
  | writeOpen (p : π) (buf : List Byte) (nonblock : Bool)
  | write (p : π) (total : Nat) (rest : List Byte) (nonblock : Bool)
  | closeRead (p : π)
  | closeWrite (p : π)
  | send (dest : τ) (msg : IpcMsg)
  /-- `ipc_recv`, and whether it has slept. -/
  | recv (woken : Bool)
  | wait4 (pid : Int) (nohang : Bool)
  | fork (child : τ)
  /-- `signal_send`, or `sched_unblock` alone. -/
  | notify (who : Target τ) (signal : Bool) (next : Op π τ)
  /-- `task_reparent_children(x, g_init_task)` -/
  | reparent (x : τ) (next : Op π τ)
  /-- The end of `sched_task_exit`. -/
  | finish
  /-- The end by a signal, in `signal_deliver_user`. -/
  | die
  | gone

inductive Call (π τ : Type)
  | read (p : π) (count : Nat) (nonblock : Bool)
  | write (p : π) (buf : List Byte) (nonblock : Bool)
  | closeRead (p : π)
  | closeWrite (p : π)
  | send (dest : τ) (msg : IpcMsg)
  | recv
  | wait4 (pid : Int) (nohang : Bool)
  | fork (child : τ)
  | exit
  | die

def Call.op {π τ : Type} (t : τ) : Call π τ → Op π τ
  | .read p count nonblock => .read p count nonblock
  | .write p buf nonblock => .writeOpen p buf nonblock
  | .closeRead p => .closeRead p
  | .closeWrite p => .closeWrite p
  | .send dest msg => .send dest msg
  | .recv => .recv false
  | .wait4 pid nohang => .wait4 pid nohang
  | .fork child => .fork child
  | .exit => .notify .parent true (.notify .parent false (.reparent t .finish))
  | .die => .die

inductive Result
  | none
  | num (r : Int)
  | bytes (bs : List Byte)
  | msg (m : IpcMsg)

inductive Life
  | unborn
  | alive
  | zombie
  | dead
  deriving DecidableEq

/-- What does not change: the numbers of the tasks, and `g_init_task`. -/
structure Ids (τ : Type) where
  pid : τ → Nat
  pgid : τ → Nat
  init : Option τ

def Ids.Matches {τ : Type} (ids : Ids τ) (pid : Int) (t c : τ) : Prop :=
  (0 < pid → (ids.pid c : Int) = pid) ∧ (pid = 0 → ids.pgid c = ids.pgid t) ∧ (pid < -1 → (ids.pgid c : Int) = -pid)

instance {τ : Type} (ids : Ids τ) (pid : Int) (t c : τ) : Decidable (ids.Matches pid t c) :=
  inferInstanceAs (Decidable (_ ∧ _))

structure State (π τ : Type) where
  room : Room τ (Chan π)
  op : τ → Op π τ
  ret : τ → Result
  pipes : π → Pipe
  mail : τ → List IpcMsg
  signalled : τ → Bool
  parent : τ → Option τ
  children : τ → List τ
  life : τ → Life

variable {π τ : Type} [DecidableEq π] [DecidableEq τ]

namespace State

variable (s : State π τ) (ids : Ids τ) (t : τ)

def setOp (o : Op π τ) : State π τ := { s with op := update s.op t o }

def setPipe (p : π) (P : Pipe) : State π τ := { s with pipes := update s.pipes p P }

def setDuty (d : Duty τ (Chan π)) : State π τ := { s with room := s.room.setDuty t d }

def setStage (st : Stage (Chan π)) : State π τ := { s with room := s.room.setStage t st }

def setSignalled (b : Bool) : State π τ := { s with signalled := update s.signalled t b }

def setMail (ms : List IpcMsg) : State π τ := { s with mail := update s.mail t ms }

def setLife (l : Life) : State π τ := { s with life := update s.life t l }

def done (r : Result) : State π τ := { s.setOp t .idle with ret := update s.ret t r }

def schedUnblock (u : τ) : State π τ := { s with room := s.room.unblock u }

def signalSend (u : τ) : State π τ := (s.setSignalled u true).schedUnblock u

/-! ### Pipes -/

def readStep (p : π) (count : Nat) (nonblock : Bool) : State π τ :=
  let P := s.pipes p
  if P.data ≠ [] then
    ((s.setPipe p { P with data := P.data.drop count }).setDuty t (.one (.write p))).done t (.bytes (P.data.take count))
  else if P.writers = 0 then s.done t (.num 0)
  else if nonblock then s.done t (.num (-EAGAIN))
  else s.setStage t (.tested (.read p))

def writeOpenStep (p : π) (buf : List Byte) (nonblock : Bool) : State π τ :=
  if (s.pipes p).readers = 0 then (s.setSignalled t true).done t (.num (-EPIPE))
  else s.setOp t (.write p 0 buf nonblock)

/-- What `pipe_write_op` does after it has unlocked the pipe: `total` bytes are written, `rest` is left. -/
def afterWrite (p : π) (total : Nat) (rest : List Byte) (nonblock : Bool) : State π τ :=
  if rest = [] then s.setOp t (.write p total [] nonblock)
  else if nonblock then s.done t (.num (if 0 < total then total else -EAGAIN))
  else (s.setOp t (.write p total rest nonblock)).setStage t (.tested (.write p))

def writeStep (p : π) (total : Nat) (rest : List Byte) (nonblock : Bool) : State π τ :=
  let P := s.pipes p
  let room := PIPE_BUF_SIZE - P.data.length
  if rest = [] then s.done t (.num total)
  else if P.readers = 0 then s.done t (.num (if 0 < total then total else -EPIPE))
  else
    ((s.setPipe p { P with data := P.data ++ rest.take room }).setDuty t (.one (.read p))).afterWrite t p
      (total + (rest.take room).length) (rest.drop room) nonblock

def closeReadStep (p : π) : Option (State π τ) :=
  let P := s.pipes p
  if P.readers = 0 then none
  else some (((s.setPipe p { P with readers := P.readers - 1 }).setDuty t (.all (.write p))).done t (.num 0))

def closeWriteStep (p : π) : Option (State π τ) :=
  let P := s.pipes p
  if P.writers = 0 then none
  else some (((s.setPipe p { P with writers := P.writers - 1 }).setDuty t (.all (.read p))).done t (.num 0))

/-! ### Messages -/

def sendStep (dest : τ) (msg : IpcMsg) : State π τ :=
  if s.life dest = .dead ∨ s.life dest = .unborn ∨ IPC_QUEUE_CAP ≤ (s.mail dest).length then s.done t (.num (-1))
  else
    { s.setMail dest (s.mail dest ++ [msg]) with ret := update s.ret t (.num 0) }.setOp t
      (.notify (.task dest) false .idle)

/-- A round of the loop of `ipc_recv`; `signal_dispatch` only clears what is pending. -/
def recvStep (woken : Bool) : State π τ :=
  if woken && s.signalled t then (s.setSignalled t false).done t (.num (-1))
  else
    match s.mail t with
    | m :: ms => (s.setMail t ms).done t (.msg m)
    | [] => s.setStage t (.queued .mail)

/-! ### Children -/

def zombieOf (pid : Int) : Option τ := (s.children t).find? fun c => s.life c = .zombie ∧ ids.Matches pid t c

/-- `sys_wait4` under the lock. The child that is taken is destroyed, which moves its own children. -/
def wait4Step (pid : Int) (nohang : Bool) : State π τ :=
  match s.zombieOf ids t pid with
  | some c =>
    { s with
      children := update s.children t ((s.children t).erase c)
      parent := update s.parent c none
      life := update s.life c .dead
      ret := update s.ret t (.num (ids.pid c)) }.setOp t (.reparent c .idle)
  | none =>
    if s.children t = [] then s.done t (.num (-ECHILD))
    else if nohang then s.done t (.num 0)
    else s.setStage t (.queued (.child pid))

def forkStep (c : τ) : Option (State π τ) :=
  if s.life c = .unborn then
    some ({ s with
      life := update s.life c .alive
      parent := update s.parent c (some t)
      children := update s.children t (c :: s.children t) }.done t (.num (ids.pid c)))
  else none

def target : Target τ → Option τ
  | .parent => s.parent t
  | .init => ids.init
  | .task d => some d

def notifyStep (who : Target τ) (signal : Bool) (next : Op π τ) : State π τ :=
  match s.target ids t who with
  | none => s.setOp t next
  | some u => if signal then (s.setOp t next).signalSend u else (s.setOp t next).schedUnblock u

def moveChildren (x i : τ) : State π τ :=
  { s with
    parent := fun c => if c ∈ s.children x then some i else s.parent c
    children := update (update s.children i ((s.children x).reverse ++ s.children i)) x [] }

def reparentStep (x : τ) (next : Op π τ) : State π τ :=
  match ids.init with
  | none => s.setOp t next
  | some i =>
    if x = i then s.setOp t next
    else
      (s.moveChildren x i).setOp t
        (if ∃ c ∈ s.children x, s.life c = .zombie then .notify .init true (.notify .init false next) else next)

def endStep (alive : Bool) (next : Op π τ) : State π τ :=
  if alive then (s.setLife t .zombie).setOp t next else (s.setLife t .dead).setOp t .gone

/-- The end of `sched_task_exit`; a thread of its parent's process does not stay as a zombie. -/
def finishStep : State π τ :=
  s.endStep t ((s.parent t).any fun p => ids.pid t ≠ ids.pid p) (.notify .parent true .gone)

def dieStep : State π τ :=
  s.endStep t (s.parent t).isSome (.notify .parent true (.notify .parent false .gone))

def region : Op π τ → Option (State π τ)
  | .idle | .gone => none
  | .read p count nonblock => some (s.readStep t p count nonblock)
  | .writeOpen p buf nonblock => some (s.writeOpenStep t p buf nonblock)
  | .write p total rest nonblock => some (s.writeStep t p total rest nonblock)
  | .closeRead p => s.closeReadStep t p
  | .closeWrite p => s.closeWriteStep t p
  | .send dest msg => some (s.sendStep t dest msg)
  | .recv woken => some (s.recvStep t woken)
  | .wait4 pid nohang => some (s.wait4Step ids t pid nohang)
  | .fork c => s.forkStep ids t c
  | .notify who signal next => some (s.notifyStep ids t who signal next)
  | .reparent x next => some (s.reparentStep ids t x next)
  | .finish => some (s.finishStep ids t)
  | .die => some (s.dieStep t)

/-- `sched_block`. `ipc_recv` looks for a signal before. -/
def blockStep (w : Chan π) : State π τ :=
  if w = .mail then
    if s.signalled t then ((s.setStage t .off).setSignalled t false).done t (.num (-1))
    else (s.setStage t (.asleep w)).setOp t (.recv true)
  else s.setStage t (.asleep w)

def runTask : Option (State π τ) :=
  if s.room.duty t = .none then
    match s.room.stage t with
    | .off => s.region ids t (s.op t)
    | .tested w => some { s with room := s.room.enqueue t w }
    | .queued w => some (s.blockStep t w)
    | .asleep _ => none
  else some { s with room := s.room.wake t }

end State

/-- A task begins a call or goes on with one; `signal` and `wake` are `signal_send` and `sched_unblock` from
elsewhere. -/
inductive Event (π τ : Type)
  | call (t : τ) (c : Call π τ)
  | run (t : τ)
  | signal (u : τ)
  | wake (u : τ)

open State in
def step (ids : Ids τ) (s : State π τ) : Event π τ → Option (State π τ)
  | .call t c =>
    match s.op t with
    | .idle => if s.life t = .alive ∧ s.room.duty t = .none then some (s.setOp t (c.op t)) else none
    | _ => none
  | .run t => s.runTask ids t
  | .signal u => some (s.signalSend u)
  | .wake u => some (s.schedUnblock u)

namespace State

variable (s : State π τ) (ids : Ids τ)

def Holds (t : τ) : Chan π → Prop
  | .read p => (s.pipes p).data ≠ [] ∨ (s.pipes p).writers = 0
  | .write p => (s.pipes p).data.length < PIPE_BUF_SIZE ∨ (s.pipes p).readers = 0
  | .mail => s.mail t ≠ []
  | .child pid => ∃ c ∈ s.children t, s.life c = .zombie ∧ ids.Matches pid t c

instance (t : τ) : DecidablePred (s.Holds ids t)
  | .read _ | .write _ => inferInstanceAs (Decidable (_ ∨ _))
  | .mail => inferInstanceAs (Decidable (_ ≠ _))
  | .child _ => inferInstanceAs (Decidable (∃ c ∈ _, _))

def Called (t : τ) : Prop := ∃ u who signal next, s.op u = .notify who signal next ∧ s.target ids u who = some t

variable [Fintype τ]

/-- Nobody is blocked while what it waits for is there, unless it is going to be woken. -/
def NoLostWakeup : Prop :=
  ∀ t w, s.room.stage t = .asleep w → s.Holds ids t w → s.room.Pending t ∨ s.Called ids t

def NoneBetween (w : Chan π) : Prop := ∀ u, s.room.stage u ≠ .tested w ∧ s.room.stage u ≠ .queued w

/-- The tasks on the queue are going to be woken, but for one. -/
def OneLeft (w : Chan π) : Prop := (s.room.queue w).length ≤ s.room.ones w + 1

def OffPipes (u : τ) : Prop := ∀ w, s.room.stage u = .asleep w → ¬ w.IsPipe

/-- A zombie that `t` gets is none that it is about to sleep for. -/
def NotAwaited (t c : τ) : Prop := ∀ pid, s.room.stage t = .queued (.child pid) → ¬ ids.Matches pid t c

/-- When a region can be entered without a wake-up being lost. -/
def RegionOk (t : τ) : Op π τ → Prop
  | .read p _ _ =>
    (s.pipes p).data ≠ [] → s.NoneBetween (.write p) ∧
      ((s.pipes p).data.length < PIPE_BUF_SIZE ∨ s.OneLeft (.write p))
  | .write p _ rest _ =>
    rest ≠ [] → (s.pipes p).readers ≠ 0 → s.NoneBetween (.read p) ∧ ((s.pipes p).data ≠ [] ∨ s.OneLeft (.read p))
  | .closeRead p => (s.pipes p).readers = 1 → s.NoneBetween (.write p)
  | .closeWrite p => (s.pipes p).writers = 1 → s.NoneBetween (.read p)
  | .send dest _ => s.room.stage dest ≠ .queued .mail
  | .notify who _ _ => ∀ u, s.target ids t who = some u → s.OffPipes u
  | .reparent x _ => ∀ i, ids.init = some i → ∀ c ∈ s.children x, s.life c = .zombie → s.NotAwaited ids i c
  | .finish | .die => ∀ p, s.parent t = some p → s.NotAwaited ids p t
  | .idle | .gone | .writeOpen _ _ _ | .recv _ | .wait4 _ _ | .fork _ => True

end State

/-- A step that loses no wake-up: what makes a condition true does not fall between the test of it and the
`sched_block`; a wake-up of one task is enough for the queue; a task that was taken off a queue sleeps before it is
woken; nobody else wakes a task that sleeps on a pipe. -/
def Careful [Fintype τ] (ids : Ids τ) (s : State π τ) : Event π τ → Prop
  | .call _ _ => True
  | .run t =>
    (∀ u us, s.room.duty t = .taken (u :: us) → ∀ w, s.room.stage u ≠ .queued w) ∧
      (s.room.duty t = .none → s.room.stage t = .off → s.RegionOk ids t (s.op t))
  | .signal u | .wake u => s.OffPipes u

section Decide

variable (s : State π τ) (ids : Ids τ)

instance (u : τ) : Decidable (s.OffPipes u) :=
  match h : s.room.stage u with
  | .asleep w => decidable_of_iff (¬ w.IsPipe)
      ⟨fun hw _ hv => Stage.asleep.inj (h.symm.trans hv) ▸ hw, fun hv => hv w h⟩
  | .off | .tested _ | .queued _ => isTrue fun _ hw => by cases h.symm.trans hw

instance (t c : τ) : Decidable (s.NotAwaited ids t c) :=
  match h : s.room.stage t with
  | .queued (.child pid) => decidable_of_iff (¬ ids.Matches pid t c)
      ⟨fun hw _ hv => Chan.child.inj (Stage.queued.inj (h.symm.trans hv)) ▸ hw, fun hv => hv pid h⟩
  | .queued (.read _) | .queued (.write _) | .queued .mail | .off | .tested _ | .asleep _ =>
    isTrue fun _ hw => by cases h.symm.trans hw

variable [Fintype τ]

instance (w : Chan π) : Decidable (s.NoneBetween w) := inferInstanceAs (Decidable (∀ _, _))

instance (w : Chan π) : Decidable (s.OneLeft w) := inferInstanceAs (Decidable (_ ≤ _))

instance (t : τ) : DecidablePred (s.RegionOk ids t)
  | .read _ _ _ | .write _ _ _ _ | .closeRead _ | .closeWrite _ => inferInstanceAs (Decidable (_ → _))
  | .send _ _ => inferInstanceAs (Decidable (_ ≠ _))
  | .notify who _ _ => inferInstanceAs (Decidable (∀ u ∈ s.target ids t who, _))
  | .reparent _ _ => inferInstanceAs (Decidable (∀ i ∈ ids.init, ∀ c ∈ _, _ → _))
  | .finish | .die => inferInstanceAs (Decidable (∀ p ∈ s.parent t, _))
  | .idle | .gone | .writeOpen _ _ _ | .recv _ | .wait4 _ _ | .fork _ => isTrue trivial

/-- The task that is woken next is not about to sleep. -/
instance (t : τ) : Decidable (∀ u us, s.room.duty t = .taken (u :: us) → ∀ w, s.room.stage u ≠ .queued w) :=
  match h : s.room.duty t with
  | .taken (u :: _) =>
    match hu : s.room.stage u with
    | .queued w => isFalse fun hw => hw u _ rfl w hu
    | .off | .tested _ | .asleep _ => isTrue fun v _ hv w hw => by
      cases hv
      cases hu.symm.trans hw
  | .taken [] | .one _ | .all _ => isTrue fun _ _ hw => nomatch hw

instance (e : Event π τ) : Decidable (Careful ids s e) :=
  match e with
  | .call _ _ => isTrue trivial
  | .run _ => inferInstanceAs (Decidable (_ ∧ _))
  | .signal u | .wake u => inferInstanceAs (Decidable (s.OffPipes u))

end Decide

/-- Nobody waits and nobody wakes. -/
structure Init (s : State π τ) : Prop where
  stage : ∀ t, s.room.stage t = .off
  queue : ∀ w, s.room.queue w = []
  duty : ∀ t, s.room.duty t = .none
  op : ∀ t, s.op t = .idle
  parent : ∀ t, ∀ c ∈ s.children t, s.parent c = some t ∧ s.life c ≠ .unborn
  nodup : ∀ t, (s.children t).Nodup

end ExoOS.Blocking
