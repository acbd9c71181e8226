import ExoOS.Sched.CredSteps
import ExoOS.Ipc.Kill

/-!
# Process groups and sessions

`setpgid`, `setsid` and the life of processes, whose TIDs are used again. Nothing keeps account of the numbers that
are in use for groups: `setsid` takes the caller's PID, also when processes that stay in the old session form the group
of that number, and `setpgid` takes any PID of the session. So groups stay within sessions as long as these two calls
assign no number that a group of another session has (`groups_in_sessions`).
-/

namespace ExoOS.Sessions

open Ipc Option Sched Transition Function Kernel

def initTask : TaskId := 0

section

variable (k : Kernel) (i : TaskId)

def setpgidTarget (cur : Task) (pid : BitVec 32) : Option (TaskId × Task) :=
  if pid = 0 then some (i, cur) else target k pid.toNat

def setpgidNumber (t : Task) (pgid : BitVec 32) : BitVec 32 := if pgid = 0 then t.pid else pgid

def found (sid pgid : BitVec 32) : Bool :=
  match target k pgid.toNat with
  | none => false
  | some (_, g) => g.sid = sid

def scSetpgid (pid pgid : BitVec 32) : Int × Kernel :=
  match k.tasks i with
  | none => (-ESRCH, k)
  | some cur =>
    match setpgidTarget k i cur pid with
    | none => (-ESRCH, k)
    | some (j, t) =>
      if j ≠ i ∧ t.parent ≠ some i then (-EPERM, k)
      else if t.sid ≠ cur.sid then (-EPERM, k)
      else if t.pid = t.sid then (-EPERM, k)
      else
        let n := setpgidNumber t pgid
        if n.toInt < 0 then (-EINVAL, k)
        else if n ≠ t.pid ∧ !found k cur.sid n then (-EPERM, k)
        else (0, k.modify j fun t => { t with pgid := n })

def scSetsid : Int × Kernel :=
  match k.tasks i with
  | none => (-ESRCH, k)
  | some cur =>
    if cur.pgid = cur.pid ∧ cur.sid = cur.pid then (-EPERM, k)
    else (cur.pid.toNat, k.modify i fun t => { t with sid := t.pid, pgid := t.pid })

def reparent : Kernel :=
  if i = initTask then k
  else
    { k with
      tasks := fun j => (k.tasks j).map fun t => if t.parent = some i then { t with parent := some initTask } else t
      unused := fun j hj => by rw [k.unused j hj, Option.map_none] }

/-- `sched_task_exit`, and the end by a signal: a thread, and a process without a parent, is dead at once. -/
def taskExit : Kernel :=
  let k := reparent k i
  match (k.tasks i).bind fun t => t.parent.bind k.tasks with
  | none => k.modify i fun t => { t with state := .dead }
  | some p => k.modify i fun t => { t with state := if t.pid = p.pid then .dead else .zombie }

/-- `task_destroy`; the slot of its TID is cleared, whoever has it now. -/
def taskDestroy : Kernel :=
  let k := reparent k i
  { k with
    tasks := update k.tasks i none
    table := fun n => if (k.tasks i).any fun t => t.tid.toNat = n then none else k.table n
    unused := fun j hj => by
      by_cases h : j = i
      · rw [h, update_self]
      · rw [update_of_ne h]
        exact k.unused j hj }

def sendOne (pgid : BitVec 32) (sig : Int) (k : Kernel) (tid : Nat) : Kernel :=
  match target k tid with
  | none => k
  | some (j, t) => if t.isKthread then k else if t.pgid = pgid then signalSend k j sig else k

def signalSendPgrp (pgid : BitVec 32) (sig : Int) : Kernel :=
  if pgid = 0 ∨ sig ≤ 0 ∨ (NSIGS : Int) ≤ sig then k
  else (List.range' 1 (TASK_TABLE_SIZE - 1)).foldl (sendOne pgid sig) k

end

inductive Event
  | fork (i : TaskId) (env : CreateEnv)
  | clone (i : TaskId) (env : CreateEnv) (flags : CloneFlags)
  | setpgid (i : TaskId) (pid pgid : BitVec 32)
  | setsid (i : TaskId)
  | exit (i : TaskId)
  | destroy (i : TaskId)

def Live (t : Task) : Prop := t.isUser = true ∧ t.state ≠ .dead ∧ t.state ≠ .zombie

instance (t : Task) : Decidable (Live t) := inferInstanceAs (Decidable (_ ∧ _))

def byLive (k : Kernel) (i : TaskId) (k' : Kernel) : Option Kernel :=
  (k.tasks i).bind fun t => if Live t then some k' else none

def step (k : Kernel) : Event → Option Kernel
  | .fork i env => byLive k i (sysFork env k i).2
  | .clone i env flags => byLive k i (sysClone env k i flags).2
  | .setpgid i pid pgid => byLive k i (scSetpgid k i pid pgid).2
  | .setsid i => byLive k i (scSetsid k i).2
  | .exit i => byLive k i (taskExit k i)
  | .destroy i =>
    if (k.tasks i).any fun t => t.state = .dead ∨ t.state = .zombie then some (taskDestroy k i) else none

def OneSession (k : Kernel) : Prop :=
  ∀ j j' t t', k.tasks j = some t → k.tasks j' = some t' → Live t → Live t' → t.pgid = t'.pgid → t.sid = t'.sid

/-- No process of a session other than `sid`, apart from `j`, is in the group `n`. -/
def FreeElsewhere (k : Kernel) (j : TaskId) (n sid : BitVec 32) : Prop :=
  ∀ j' t, j' ≠ j → k.tasks j' = some t → Live t → t.pgid = n → t.sid = sid

/-- The number that the call is about to assign belongs to no group of another session. -/
def Careful (k : Kernel) : Event → Prop
  | .setpgid i pid pgid => ∀ cur j t, k.tasks i = some cur → setpgidTarget k i cur pid = some (j, t) →
      FreeElsewhere k j (setpgidNumber t pgid) t.sid
  | .setsid i => ∀ cur, k.tasks i = some cur → FreeElsewhere k i cur.pid cur.pid
  | _ => True

variable {k k' : Kernel} {i j : TaskId} {cur t : Task}

/-- Every process had its group and session from a process that was there. -/
def Inherits (k k' : Kernel) : Prop :=
  ∀ j t', k'.tasks j = some t' → Live t' →
    ∃ j0 t, k.tasks j0 = some t ∧ Live t ∧ t.pgid = t'.pgid ∧ t.sid = t'.sid

theorem Inherits.refl : Inherits k k := fun j t' ht' hl => ⟨j, t', ht', hl, rfl, rfl⟩

theorem OneSession.inherit (h : OneSession k) (hi : Inherits k k') : OneSession k' := by
  intro j j' t t' ht ht' hl hl' hg
  obtain ⟨j1, t1, h1, hl1, hg1, hs1⟩ := hi j t ht hl
  obtain ⟨j2, t2, h2, hl2, hg2, hs2⟩ := hi j' t' ht' hl'
  rw [← hs1, ← hs2]
  exact h j1 j2 t1 t2 h1 h2 hl1 hl2 (hg1.trans (hg.trans hg2.symm))

theorem inherits_register {c : Task} (hcur : k.tasks i = some cur) (hl : Live cur) (hg : cur.pgid = c.pgid)
    (hs : cur.sid = c.sid) : Inherits k (k.register c) := by
  intro j t' ht' hl'
  rcases register_tasks ht' with ht' | ⟨-, rfl⟩
  · exact ⟨j, t', ht', hl', rfl, rfl⟩
  · exact ⟨i, cur, hcur, hl, hg, hs⟩

theorem inherits_modify {f : Task → Task} (hf : ∀ t, (f t).pgid = t.pgid ∧ (f t).sid = t.sid ∧ (Live (f t) → Live t)) :
    Inherits k (k.modify i f) := by
  intro j t' ht' hl'
  by_cases hj : j = i
  · rw [hj, modify_tasks_self, map_eq_some_iff] at ht'
    obtain ⟨t, ht, rfl⟩ := ht'
    exact ⟨i, t, ht, (hf t).2.2 hl', (hf t).1.symm, (hf t).2.1.symm⟩
  · rw [modify_tasks_ne hj] at ht'
    exact ⟨j, t', ht', hl', rfl, rfl⟩

theorem Inherits.trans {k'' : Kernel} (h : Inherits k k') (h' : Inherits k' k'') : Inherits k k'' := by
  intro j t'' ht'' hl''
  obtain ⟨j', t', ht', hl', hg', hs'⟩ := h' j t'' ht'' hl''
  obtain ⟨j0, t, ht, hl, hg, hs⟩ := h j' t' ht' hl'
  exact ⟨j0, t, ht, hl, hg.trans hg', hs.trans hs'⟩

theorem inherits_reparent : Inherits k (reparent k i) := by
  unfold reparent
  split
  · exact .refl
  intro j t' ht' hl'
  obtain ⟨t, ht, rfl⟩ := map_eq_some_iff.1 ht'
  split at hl' <;> exact ⟨j, t, ht, hl', by split <;> rfl, by split <;> rfl⟩

theorem inherits_fork {env : CreateEnv} (hcur : k.tasks i = some cur) (hl : Live cur) :
    Inherits k (sysFork env k i).2 := by
  unfold sysFork
  rw [hcur]
  cases env with
  | fails => exact .refl
  | creates h => exact inherits_register hcur hl rfl rfl

theorem inherits_clone {env : CreateEnv} {fl : CloneFlags} (hcur : k.tasks i = some cur) (hl : Live cur) :
    Inherits k (sysClone env k i fl).2 := by
  unfold sysClone
  rw [hcur]
  dsimp only
  split
  · exact .refl
  split
  · exact .refl
  cases env with
  | fails => exact .refl
  | creates h =>
    have hchild : Inherits k (k.register (cloneChild cur i fl.thread h (BitVec.ofNat 32 k.newTid))) :=
      inherits_register hcur hl rfl rfl
    dsimp only
    split
    · -- the parent of a vfork is the process that was running
      intro j t' ht' hl'
      by_cases hj : j = i
      · rw [hj, modify_tasks_self, register_tasks_ne (ne_fresh hcur), hcur] at ht'
        cases ht'
        exact ⟨i, cur, hcur, hl, rfl, rfl⟩
      · rw [modify_tasks_ne hj] at ht'
        exact hchild j t' ht' hl'
    · exact hchild

theorem inherits_exit : Inherits k (taskExit k i) := by
  unfold taskExit
  dsimp only
  split
  · exact inherits_reparent.trans (inherits_modify fun t => ⟨rfl, rfl, fun hl => absurd rfl hl.2.1⟩)
  refine inherits_reparent.trans (inherits_modify fun t => ⟨rfl, rfl, fun hl => ?_⟩)
  obtain ⟨-, hdead, hzombie⟩ := hl
  split at hdead
  · exact absurd rfl hdead
  · rw [if_neg ‹_›] at hzombie
    exact absurd rfl hzombie

theorem inherits_destroy : Inherits k (taskDestroy k i) := by
  refine (inherits_reparent (i := i)).trans fun j t' ht' hl' => ⟨j, t', ?_, hl', rfl, rfl⟩
  have hj : j ≠ i := by
    rintro rfl
    cases (update_self ..).symm.trans ht'
  exact (update_of_ne hj ..).symm.trans ht'

theorem OneSession.move (h : OneSession k) {f : Task → Task} (ht : k.tasks j = some t)
    (hfree : FreeElsewhere k j (f t).pgid (f t).sid) : OneSession (k.modify j f) := by
  have hcases : ∀ {x u}, (k.modify j f).tasks x = some u → x = j ∧ u = f t ∨ x ≠ j ∧ k.tasks x = some u := by
    intro x u hu
    by_cases hx : x = j
    · rw [hx, modify_tasks_self, ht] at hu
      exact .inl ⟨hx, (some.inj hu).symm⟩
    · rw [modify_tasks_ne hx] at hu
      exact .inr ⟨hx, hu⟩
  intro x y u v hu hv hlu hlv hg
  rcases hcases hu with ⟨-, rfl⟩ | ⟨hx, hu⟩
  · rcases hcases hv with ⟨-, rfl⟩ | ⟨hy, hv⟩
    · rfl
    · exact (hfree y v hy hv hlv hg.symm).symm
  · rcases hcases hv with ⟨-, rfl⟩ | ⟨hy, hv⟩
    · exact hfree x u hx hu hlu hg
    · exact h x y u v hu hv hlu hlv hg

theorem OneSession.setpgid (h : OneSession k) {pid pgid : BitVec 32} (hc : Careful k (.setpgid i pid pgid)) :
    OneSession (scSetpgid k i pid pgid).2 := by
  unfold scSetpgid
  split
  · exact h
  next cur hcur =>
    split
    · exact h
    next j t htarget =>
      have ht : k.tasks j = some t := by
        unfold setpgidTarget at htarget
        split at htarget
        · cases htarget
          exact hcur
        · exact target_eq htarget
      split
      · exact h
      split
      · exact h
      split
      · exact h
      dsimp only
      split
      · exact h
      split
      · exact h
      · exact h.move ht (hc cur j t hcur htarget)

theorem OneSession.setsid (h : OneSession k) (hc : Careful k (.setsid i)) : OneSession (scSetsid k i).2 := by
  unfold scSetsid
  split
  · exact h
  next cur hcur =>
    split
    · exact h
    · exact h.move hcur (hc cur hcur)

theorem byLive_eq_some {x : Kernel} (h : byLive k i x = some k') : k' = x ∧ ∃ cur, k.tasks i = some cur ∧ Live cur := by
  obtain ⟨cur, hcur, h⟩ := bind_eq_some_iff.1 h
  obtain ⟨hl, h⟩ := ite_none_right_eq_some.1 h
  exact ⟨(some.inj h).symm, cur, hcur, hl⟩

theorem OneSession.step {e : Event} (h : OneSession k) (hc : Careful k e) (hs : step k e = some k') :
    OneSession k' := by
  cases e with
  | fork i env =>
    obtain ⟨rfl, cur, hcur, hl⟩ := byLive_eq_some hs
    exact h.inherit (inherits_fork hcur hl)
  | clone i env flags =>
    obtain ⟨rfl, cur, hcur, hl⟩ := byLive_eq_some hs
    exact h.inherit (inherits_clone hcur hl)
  | setpgid i pid pgid =>
    obtain ⟨rfl, -⟩ := byLive_eq_some hs
    exact h.setpgid hc
  | setsid i =>
    obtain ⟨rfl, -⟩ := byLive_eq_some hs
    exact h.setsid hc
  | exit i =>
    obtain ⟨rfl, -⟩ := byLive_eq_some hs
    exact h.inherit inherits_exit
  | destroy i =>
    obtain ⟨-, hs⟩ := ite_none_right_eq_some.1 hs
    cases hs
    exact h.inherit inherits_destroy

theorem signalSendPgrp_sends (k : Kernel) (pgid : BitVec 32) (sig : Int) :
    Sends (·.pgid = pgid) sig k (signalSendPgrp k pgid sig) := by
  unfold signalSendPgrp
  split
  · exact .refl
  generalize List.range' 1 (TASK_TABLE_SIZE - 1) = tids
  induction tids generalizing k with
  | nil => exact .refl
  | cons tid tids ih =>
    refine Sends.trans (fun t t' hs hg => ?_) ?_ (ih _)
    · rw [hs] at hg
      exact hg
    · unfold sendOne
      split
      · exact .refl
      split
      · exact .refl
      split
      · exact signalSend_sends _ (target_eq ‹_›) ‹_›
      · exact .refl

theorem groups_in_sessions {es : List Event} (h : Run step Careful boot es k) : OneSession k ∧
    ∀ i cur sig j t t' s, k.tasks i = some cur → Live cur → k.tasks j = some t → Live t →
      (signalSendPgrp k cur.pgid sig).tasks j = some t' → t.sigPending.getLsbD s = false →
        t'.sigPending.getLsbD s = true → t.sid = cur.sid := by
  have hone : OneSession k := by
    refine h.inv (fun _ _ _ hI hC hs => hI.step hC hs) fun j j' t t' ht ht' _ _ _ => ?_
    have hzero : ∀ {x u}, boot.tasks x = some u → x = 0 := fun {x u} hu => by
      by_contra hx
      rw [boot.unused x (Nat.pos_of_ne_zero hx)] at hu
      cases hu
    cases hzero ht
    cases hzero ht'
    cases ht.symm.trans ht'
    rfl
  refine ⟨hone, fun i cur sig j t t' s hcur hl ht hlt ht' hold hnew => ?_⟩
  obtain ⟨t0, ht0, -, hsent⟩ := signalSendPgrp_sends k cur.pgid sig j t' ht'
  cases ht.symm.trans ht0
  rcases hsent s hnew with hbit | ⟨-, hg⟩
  · cases hold.symm.trans hbit
  · exact hone j i t cur ht hcur hlt hl hg

/-- A child that leaves for a session of its own. -/
theorem groups_in_sessions_daemon : ∃ k, Run step Careful boot [.fork 0 (.creates true), .setsid 1] k ∧
    OneSession k := by
  have hrun : ∃ k, Run step Careful boot [.fork 0 (.creates true), .setsid 1] k := by
    refine ⟨_, .cons trivial rfl (.cons ?_ rfl (.nil _))⟩
    intro cur hcur j t hj ht hl hg
    cases hcur
    have hparent : j = 0 := by
      by_contra h0
      cases ht.symm.trans (unused _ j (Nat.lt_of_le_of_ne (Nat.pos_of_ne_zero h0) hj.symm))
    subst hparent
    cases ht
    exact absurd hg (by decide)
  obtain ⟨k, h⟩ := hrun
  exact ⟨k, h, (groups_in_sessions h).1⟩

/-- The leader of a group starts a session; its child stays behind in the group, and gets its signals. -/
theorem group_split : ∃ k t t', Run step Any boot
      [.fork 0 (.creates true), .setpgid 1 0 0, .fork 1 (.creates true), .setsid 1] k ∧
    k.tasks 1 = some t ∧ k.tasks 2 = some t' ∧ Live t ∧ Live t' ∧ t.pgid = 2 ∧ t'.pgid = 2 ∧ t.sid = 2 ∧ t'.sid = 1 :=
  ⟨_, _, _, .cons trivial rfl (.cons trivial rfl (.cons trivial rfl (.cons trivial rfl (.nil _)))), rfl, rfl,
    by decide, by decide, rfl, rfl, rfl, rfl⟩

end ExoOS.Sessions
