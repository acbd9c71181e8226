import ExoOS.Ipc.Sessions
import ExoOS.Proc.Effects
import ExoOS.Sched.Registry

/-!
# One life of a task, in several models

`task_create_user`, `task_destroy` and `sched_task_exit` are modelled for the registry of TIDs, for groups and sessions,
for the scheduler and for the resources of processes, each time with the fields that matter there. The models agree
where they overlap: a kernel of `Sched/Task.lean` has the registry of `Sched/Registry.lean` (`registry_register`,
`registry_taskDestroy`), and its process tree is that of `Proc/Process.lean` (`Sees.taskDestroy`, `Sees.taskExit`).
-/

namespace ExoOS.Proc

open Sched Function Option

/-! ### TIDs -/

section

variable {k : Sched.Kernel} {i : TaskId} {n : Nat} {init : Option TaskId}

def registry (k : Sched.Kernel) (nextKthreadTid : Nat) (init : Option TaskId) : Registry TaskId where
  tid i := (k.tasks i).map fun t => t.tid.toNat
  table := k.table
  nextUserTid := k.nextUserTid
  nextKthreadTid := nextKthreadTid
  initTask := init

theorem newTid_lt (k : Sched.Kernel) : k.newTid < TASK_TABLE_SIZE := by
  unfold Sched.Kernel.newTid USER_TID_MAX TASK_TABLE_SIZE
  split <;> omega

/-- The creation of a user task is the one that `Registry.create_some` describes. -/
theorem registry_register {t : Task} (ht : t.tid = BitVec.ofNat 32 k.newTid) :
    (registry k n init).Created false k.fresh (registry (k.register t) n init) := by
  refine ⟨funext fun j => ?_, rfl, rfl, rfl⟩
  by_cases hj : j = k.fresh
  · have hlt : k.newTid < 2 ^ 32 := (newTid_lt k).trans (by decide)
    rw [hj, update_self]
    show ((k.register t).tasks k.fresh).map _ = some k.newTid
    rw [Sched.Kernel.register_tasks_self, map_some, ht, BitVec.toNat_ofNat, Nat.mod_eq_of_lt hlt]
  · rw [update_of_ne hj]
    exact congrArg (Option.map _) (Sched.Kernel.register_tasks_ne hj)

theorem registry_reparent (k : Sched.Kernel) (i : TaskId) :
    registry (Sessions.reparent k i) n init = registry k n init := by
  unfold Sessions.reparent
  split
  · rfl
  refine congrArg (fun tid => Registry.mk tid k.table k.nextUserTid n init) (funext fun j => ?_)
  dsimp only
  cases k.tasks j with
  | none => rfl
  | some u =>
    dsimp only [Option.map_some]
    split <;> rfl

theorem registry_taskDestroy {t : Task} (ht : k.tasks i = some t) (hlt : t.tid.toNat < TASK_TABLE_SIZE) :
    registry (Sessions.taskDestroy k i) n init = (registry k n init).taskDestroy i := by
  have htid : (registry k n init).tid i = some t.tid.toNat := congrArg (Option.map _) ht
  rw [Registry.taskDestroy_eq htid hlt]
  rw [← registry_reparent k i] at htid ⊢
  obtain ⟨u, hu, hut⟩ := map_eq_some_iff.1 htid
  refine congrArg₂ (fun tid table => Registry.mk tid table (Sessions.reparent k i).nextUserTid n init)
    (funext fun j => ?_) (funext fun m => ?_)
  · show (update (Sessions.reparent k i).tasks i none j).map _ =
      update (registry (Sessions.reparent k i) n init).tid i none j
    by_cases hj : j = i
    · rw [hj, update_self, update_self]
      rfl
    · rw [update_of_ne hj, update_of_ne hj]
      rfl
  · show (if ((Sessions.reparent k i).tasks i).any _ then none else (Sessions.reparent k i).table m) =
      update (Sessions.reparent k i).table t.tid.toNat none m
    rw [hu, ← hut]
    by_cases hm : m = u.tid.toNat
    · rw [hm, update_self]
      exact if_pos (decide_eq_true rfl)
    · rw [update_of_ne hm]
      exact if_neg fun h => hm (of_decide_eq_true h).symm

end

/-! ### The process tree -/

variable {κ : Type} [DecidableEq κ] {s : Kernel κ} {k : Sched.Kernel} {t : TaskId}

/-- The tasks of `k` have the PIDs and the parents that `s` has for them. -/
structure Sees (s : Kernel κ) (k : Sched.Kernel) : Prop where
  pid : ∀ t u, k.tasks t = some u → (s.procs t).pid = u.pid.toNat
  parent : ∀ t u, k.tasks t = some u → (s.procs t).parent = u.parent
  child : ∀ t u p, k.tasks t = some u → (t ∈ (s.procs p).children ↔ u.parent = some p)
  init : s.initTask = some Sessions.initTask

section

variable (h : Sees s k)
include h

theorem Sees.orphan (t : TaskId) : Sees (s.orphan t) (Sessions.reparent k t) := by
  unfold Kernel.orphan Sessions.reparent
  rw [h.init]
  dsimp only
  split
  · exact h
  rename_i ht
  have hprocs : (s.taskReparentChildren t Sessions.initTask).procs = (s.moveChildren t Sessions.initTask).procs ∧
      (s.taskReparentChildren t Sessions.initTask).initTask = s.initTask := by
    obtain ⟨procs, hmove⟩ := s.moveChildren_eq t Sessions.initTask
    unfold Kernel.taskReparentChildren
    rw [if_neg ht, hmove]
    dsimp only
    split <;> exact ⟨rfl, rfl⟩
  have hmove := s.moveChildren_procs t Sessions.initTask
  have hparent (u : Task) : (if u.parent = some t then { u with parent := some Sessions.initTask } else u).parent =
      if u.parent = some t then some Sessions.initTask else u.parent := by split <;> rfl
  refine ⟨fun x u hx => ?_, fun x u hx => ?_, fun x u p hx => ?_, hprocs.2.trans h.init⟩ <;>
    obtain ⟨u, hu, rfl⟩ := map_eq_some_iff.1 hx
  · rw [Aside.taskReparentChildren.pid, h.pid x u hu]
    split <;> rfl
  · rw [hprocs.1, (hmove x).1, h.parent x u hu, hparent]
    simp only [h.child x u t hu]
  · rw [hprocs.1, (hmove p).2.1, hparent]
    have hold := h.child x u p hu
    have hmoved := h.child x u t hu
    grind

omit [DecidableEq κ] in
theorem Sees.congr {s' : Kernel κ} (hp : s'.procs = s.procs) (hi : s'.initTask = s.initTask) :
    Sees s' k := ⟨hp ▸ h.pid, hp ▸ h.parent, hp ▸ h.child, hi.trans h.init⟩

omit [DecidableEq κ] in
/-- A task that `k` does not have is taken off its parent's list. -/
theorem Sees.taskRemoveChild (ht : k.tasks t = none) (p : TaskId) : Sees (s.taskRemoveChild t p) k := by
  have hne : ∀ x u, k.tasks x = some u → x ≠ t := fun x u hx hxt => nomatch (hxt ▸ ht).symm.trans hx
  refine ⟨fun x u hx => ?_, fun x u hx => ?_, fun x u q hx => ?_, h.init⟩
  · exact (Aside.taskRemoveChild s t p).pid x |>.trans (h.pid x u hx)
  · rw [(s.taskRemoveChild_procs t p x).1, if_neg (hne x u hx), h.parent x u hx]
  · rw [(s.taskRemoveChild_procs t p q).2.1, ← h.child x u q hx]
    split
    · exact List.mem_erase_of_ne (hne x u hx)
    · rfl

theorem Sees.taskDestroy (t : TaskId) : Sees (s.taskDestroy t) (Sessions.taskDestroy k t) := by
  have hgone : (Sessions.taskDestroy k t).tasks t = none := update_self ..
  have hsub : ∀ x u, (Sessions.taskDestroy k t).tasks x = some u → (Sessions.reparent k t).tasks x = some u := by
    intro x u hx
    by_cases hxt : x = t
    · rw [hxt, hgone] at hx
      cases hx
    · change update (Sessions.reparent k t).tasks t none x = some u at hx
      rwa [update_of_ne hxt] at hx
  have h0 : Sees (s.orphan t) (Sessions.taskDestroy k t) := by
    have h' := h.orphan t
    exact ⟨fun x u hx => h'.pid x u (hsub x u hx), fun x u hx => h'.parent x u (hsub x u hx),
      fun x u p hx => h'.child x u p (hsub x u hx), h'.init⟩
  unfold Kernel.taskDestroy
  generalize s.orphan t = s at h0 ⊢
  cases hpar : (s.procs t).parent with
  | none =>
    simp only [hpar, Kernel.dropAddressSpace_eq]
    split
    · exact h0.congr rfl rfl
    · exact h0.congr rfl rfl
  | some p =>
    have h1 := h0.taskRemoveChild hgone p
    simp only [hpar, Kernel.dropAddressSpace_eq]
    generalize s.taskRemoveChild t p = s1 at h1 ⊢
    split
    · exact h1.congr rfl rfl
    · exact h1.congr rfl rfl

omit [DecidableEq κ] in
theorem Sees.modify {f : Task → Task} (hf : ∀ u, (f u).pid = u.pid ∧ (f u).parent = u.parent) :
    Sees s (k.modify t f) := by
  have hold : ∀ x u, (k.modify t f).tasks x = some u →
      ∃ v, k.tasks x = some v ∧ v.pid = u.pid ∧ v.parent = u.parent := by
    intro x u hx
    by_cases hxt : x = t
    · rw [hxt, Sched.Kernel.modify_tasks_self] at hx
      obtain ⟨v, hv, rfl⟩ := map_eq_some_iff.1 hx
      exact ⟨v, hxt ▸ hv, (hf v).1.symm, (hf v).2.symm⟩
    · exact ⟨u, (Sched.Kernel.modify_tasks_ne hxt).symm.trans hx, rfl, rfl⟩
  refine ⟨fun x u hx => ?_, fun x u hx => ?_, fun x u p hx => ?_, h.init⟩ <;>
    obtain ⟨v, hv, hpid, hpar⟩ := hold x u hx
  · rw [h.pid x v hv, hpid]
  · rw [h.parent x v hv, hpar]
  · rw [h.child x v p hv, hpar]

theorem Sees.taskExit {u : Task} (hu : (Sessions.reparent k t).tasks t = some u)
    (hp : ∀ p, u.parent = some p → ((Sessions.reparent k t).tasks p).isSome) :
    Sees (s.orphan t) (Sessions.taskExit k t) ∧ ((Sessions.taskExit k t).tasks t).map (·.state) =
        some (SchedState.exitState ((s.orphan t).procs t).parent ((s.orphan t).isThread t)) := by
  have h' := h.orphan t
  unfold Sessions.taskExit
  generalize s.orphan t = s at h' ⊢
  generalize Sessions.reparent k t = k at h' hu hp ⊢
  have hpar := h'.parent t u hu
  dsimp only
  rw [hu, Option.bind_some]
  cases hup : u.parent with
  | none =>
    refine ⟨h'.modify fun _ => ⟨rfl, rfl⟩, ?_⟩
    rw [Option.bind_none, hpar, hup]
    exact congrArg _ (Sched.Kernel.modify_tasks_self.trans (congrArg _ hu))
  | some p =>
    obtain ⟨v, hv⟩ := isSome_iff_exists.1 (hp p hup)
    have hthread : s.isThread t = decide (u.pid = v.pid) := by
      rw [Kernel.isThread, hpar, hup]
      dsimp only
      rw [h'.pid t u hu, h'.pid p v hv, decide_eq_decide, BitVec.toNat_inj]
    rw [Option.bind_some, hv]
    refine ⟨h'.modify fun _ => ⟨rfl, rfl⟩, ?_⟩
    rw [Sched.Kernel.modify_tasks_self, hu, hpar, hup, hthread]
    by_cases hpid : u.pid = v.pid
    · simp [SchedState.exitState, hpid]
    · simp [SchedState.exitState, hpid]

end

end ExoOS.Proc
