import ExoOS.Sched.CredSteps

/-!
# Privilege over runs

Three results about tasks that make identity calls, over every sequence of calls: the inclusions between the
capability sets (`capability_inclusion`), when giving up root is final (`privilege_drop`), and what
`no_new_privs` guarantees (`no_new_privs_exec`). The last two watch a task and its descendants.
-/

namespace ExoOS.Sched

open Transition Mask Sched.Task

variable {k k0 k1 : Kernel} {i j : TaskId} {c : Call} {t t' : Task}

/-! ### The capability sets -/

structure CapsOk (c : Cred) : Prop where
  effective : Sub c.capEffective c.capPermitted
  permitted : Sub c.capPermitted c.capBounding
  inheritable : Sub c.capInheritable c.capBounding

theorem CapsOk.init : CapsOk credInit := ⟨Sub.refl _, Sub.refl _, Sub.zero _⟩

theorem CapsOk.from {c d : Cred} (h : CapsOk c) (hd : CapsFrom c d) : CapsOk d := by
  obtain ⟨e, p, rfl, hc⟩ := hd
  rcases hc with ⟨rfl, rfl⟩ | ⟨rfl, rfl⟩ | ⟨rfl, rfl⟩ | ⟨-, rfl, rfl⟩
  · exact ⟨h.effective, h.permitted, h.inheritable⟩
  · exact ⟨Sub.refl _, Sub.zero _, h.inheritable⟩
  · exact ⟨Sub.and_self_right .., h.permitted, h.inheritable⟩
  · exact ⟨Sub.refl _, Sub.and_self_right .., h.inheritable⟩

theorem CapsOk.same {c d : Cred} (h : CapsOk c) (hd : SameCaps c d) : CapsOk d := by
  refine ⟨?_, ?_, ?_⟩
  · rw [hd.effective, hd.permitted]; exact h.effective
  · rw [hd.permitted, hd.bounding]; exact h.permitted
  · rw [hd.inheritable, hd.bounding]; exact h.inheritable

theorem CapsFrom.keeps {c d : Cred} (h : CapsFrom c d) :
    d.capBounding = c.capBounding ∧ d.euid = c.euid ∧ d.suid = c.suid := by
  obtain ⟨e, p, rfl, -⟩ := h
  exact ⟨rfl, rfl, rfl⟩

theorem IdStep.capsOk {c d : Cred} (hs : IdStep c d) (h : CapsOk c) : CapsOk d ∧ d.capBounding = c.capBounding := by
  obtain ⟨m, hm, -, hd⟩ := hs
  exact ⟨(h.same hm).from hd, hd.keeps.1.trans hm.bounding⟩

theorem execIds_same (c : Cred) (f : ExecFile) : SameCaps c (c.execIds f) := by
  unfold Cred.execIds
  split <;> split <;> exact ⟨rfl, rfl, rfl, rfl, rfl⟩

theorem execCaps_capsOk {c : Cred} (f : ExecFile) (old : Uid) (h : CapsOk c) :
    CapsOk (c.execCaps f old) ∧ (c.execCaps f old).capBounding = c.capBounding := by
  -- the first assignment, for a set-uid root file
  have hfirst : ∀ d, d = (if f.isuid && f.uid == 0 && !c.noRoot then
      { c with
        capPermitted := (c.capInheritable ||| c.capBounding) &&& c.capBounding
        capEffective := (c.capInheritable ||| c.capBounding) &&& c.capBounding }
      else c) → CapsOk d ∧ d.capBounding = c.capBounding := by
    rintro d rfl
    split
    · exact ⟨⟨Sub.refl _, Sub.and_self_right .., h.inheritable⟩, rfl⟩
    · exact ⟨h, rfl⟩
  unfold Cred.execCaps
  dsimp only
  obtain ⟨h1, h2⟩ := hfirst _ rfl
  generalize (if f.isuid && f.uid == 0 && !c.noRoot then _ else c) = d at h1 h2
  rw [← h2]
  split_ifs
  · exact ⟨h1, rfl⟩
  · exact ⟨⟨Sub.zero _, h1.permitted, h1.inheritable⟩, rfl⟩
  · exact ⟨⟨Sub.refl _, Sub.and_self_right .., h1.inheritable⟩, rfl⟩
  · exact ⟨h1, rfl⟩

theorem execve_capsOk (f : ExecFile) (h : CapsOk t.cred) :
    CapsOk (t.execve f).cred ∧ (t.execve f).cred.capBounding = t.cred.capBounding := by
  unfold execve
  split
  · exact ⟨h, rfl⟩
  · obtain ⟨h1, h2⟩ := execCaps_capsOk f t.cred.euid (h.same (execIds_same t.cred f))
    exact ⟨h1, h2.trans (execIds_same t.cred f).bounding⟩

theorem capset_capsOk (d : CapData) (h : CapsOk t.cred) :
    CapsOk (t.capset d).2.cred ∧ (t.capset d).2.cred.capBounding = t.cred.capBounding := by
  unfold capset
  dsimp only
  split_ifs with h1 h2 h3
  · exact ⟨⟨h1, h2.trans h.permitted, h3⟩, rfl⟩
  all_goals exact ⟨h, rfl⟩

theorem taskStep_capsOk {cur : Task} (hs : TaskStep cur i c j t t') (h : CapsOk t.cred) :
    CapsOk t'.cred ∧ t'.cred.capBounding = t.cred.capBounding := by
  rcases hs with _ | ⟨f, hf, -⟩ | ⟨_, pid, d, -, -⟩ | ⟨-⟩
  · exact ⟨h, rfl⟩
  · by_cases hx : ∃ file, c = .execve file
    · obtain ⟨file, rfl⟩ := hx
      cases hf
      exact execve_capsOk file h
    · exact (localCall_step hf (fun file hc => hx ⟨file, hc⟩) t).capsOk h
  · exact capset_capsOk d h
  · exact ⟨h, rfl⟩

def AllCapsOk (k : Kernel) : Prop := ∀ j t, k.tasks j = some t → CapsOk t.cred

theorem call_allCapsOk (h : AllCapsOk k) (i : TaskId) (c : Call) : AllCapsOk (call k i c).2 := by
  intro j t' ht'
  rcases call_tasks ht' with ht | ⟨cur, hcur, ⟨t, ht, hs⟩ | hc⟩
  · exact h j t' ht
  · exact (taskStep_capsOk hs (h j t ht)).1
  · rw [hc.cred]; exact h i cur hcur

def step (k : Kernel) (e : TaskId × Call) : Option Kernel := some (call k e.1 e.2).2

/-- In every state reached from tasks with the credentials of `cred_init`, the effective capabilities are
permitted, the permitted and inheritable ones are within the bound, and the next call gives no task, new or
old, a larger bound. -/
theorem capability_inclusion {es : List (TaskId × Call)} (h0 : ∀ j t, k0.tasks j = some t → t.cred = credInit)
    (hrun : Run step Any k0 es k) :
    (∀ j t, k.tasks j = some t → Sub t.cred.capEffective t.cred.capPermitted ∧
      Sub t.cred.capPermitted t.cred.capBounding ∧ Sub t.cred.capInheritable t.cred.capBounding) ∧
    ∀ i c j t', (call k i c).2.tasks j = some t' →
      (∃ t, k.tasks j = some t ∧ Sub t'.cred.capBounding t.cred.capBounding) ∨
      (k.tasks j = none ∧ ∃ cur, k.tasks i = some cur ∧ Sub t'.cred.capBounding cur.cred.capBounding) := by
  have hok : AllCapsOk k := by
    refine hrun.inv (fun k e k' h _ hs => ?_) fun j t ht => ?_
    · cases hs
      exact call_allCapsOk h e.1 e.2
    · rw [h0 j t ht]; exact .init
  refine ⟨fun j t ht => ?_, fun i c j t' ht' => ?_⟩
  · exact ⟨(hok j t ht).1, (hok j t ht).2, (hok j t ht).3⟩
  · rcases call_tasks ht' with ht | ⟨cur, hcur, ⟨t, ht, hs⟩ | hc⟩
    · exact .inl ⟨t', ht, .refl _⟩
    · refine .inl ⟨t, ht, ?_⟩
      rw [(taskStep_capsOk hs (hok j t ht)).2]
      exact .refl _
    · refine .inr ⟨?_, cur, hcur, ?_⟩
      · rw [hc.id]; exact k.unused _ le_rfl
      · rw [hc.cred]; exact .refl _

theorem boot_init (ht : boot.tasks j = some t) : t.cred = credInit := by
  by_cases hj : j = 0
  · subst hj
    cases ht
    rfl
  · have hn : boot.tasks j = none := boot.unused j (Nat.pos_of_ne_zero hj)
    rw [hn] at ht
    cases ht

theorem capability_inclusion_fork : ∃ k, Run step Any boot [(0, .fork (.creates true)), (1, .setuid 1000)] k ∧
    ∀ j t, k.tasks j = some t → Sub t.cred.capEffective t.cred.capPermitted ∧
      Sub t.cred.capPermitted t.cred.capBounding ∧ Sub t.cred.capInheritable t.cred.capBounding := by
  have hrun : Run step Any boot [(0, .fork (.creates true)), (1, .setuid 1000)] _ :=
    .cons trivial rfl (.cons trivial rfl (.nil _))
  exact ⟨_, hrun, (capability_inclusion (fun j t => boot_init) hrun).1⟩

/-! ### A task and its descendants -/

structure Watched where
  kernel : Kernel
  family : TaskId → Prop
  old : ∀ j, family j → j < kernel.fresh

/-- A call by some task; its child joins the family if the caller is in it. -/
def Watched.step (w : Watched) (e : TaskId × Call) : Option Watched :=
  let k := (call w.kernel e.1 e.2).2
  some
    { kernel := k
      family := fun j => w.family j ∨ w.family e.1 ∧ j = w.kernel.fresh ∧ w.kernel.fresh < k.fresh
      old := by
        rintro j (hj | ⟨-, rfl, h⟩)
        · exact (w.old j hj).trans_le (call_fresh ..)
        · exact h }

variable {w w' : Watched} {e : TaskId × Call}

theorem Watched.step_tasks (hs : w.step e = some w') (hj : w'.family j) (ht' : w'.kernel.tasks j = some t') :
    w.family j ∧ w.kernel.tasks j = some t' ∨
    (∃ cur t, w.kernel.tasks e.1 = some cur ∧ w.family j ∧ w.kernel.tasks j = some t ∧ TaskStep cur e.1 e.2 j t t') ∨
    ∃ cur, w.kernel.tasks e.1 = some cur ∧ w.family e.1 ∧ Child w.kernel cur j t' := by
  cases hs
  have hfam : ∀ t, w.kernel.tasks j = some t → w.family j := by
    intro t ht
    rcases hj with hj | ⟨-, rfl, -⟩
    · exact hj
    · rw [w.kernel.unused _ le_rfl] at ht; cases ht
  rcases call_tasks ht' with ht | ⟨cur, hcur, ⟨t, ht, hst⟩ | hc⟩
  · exact .inl ⟨hfam t' ht, ht⟩
  · exact .inr (.inl ⟨cur, t, hcur, hfam t ht, ht, hst⟩)
  · refine .inr (.inr ⟨cur, hcur, ?_, hc⟩)
    rcases hj with hj | ⟨hi, -, -⟩
    · -- the child is new, so it was not in the family
      have := w.old j hj
      rw [hc.id] at this
      exact absurd this (lt_irrefl _)
    · exact hi

/-! ### Giving up root -/

/-- No way back: no user id is root's, and no capability is left. -/
structure Dropped (c : Cred) : Prop where
  uid : c.uid ≠ 0
  euid : c.euid ≠ 0
  suid : c.suid ≠ 0
  fsuid : c.fsuid ≠ 0
  effective : c.capEffective = 0
  permitted : c.capPermitted = 0

theorem Dropped.not_capable {c : Cred} (h : Dropped c) (cap : Nat) : c.capable cap = false := by
  rw [Cred.capable, h.effective]
  simp

theorem Dropped.ids {c d : Cred} (h : Dropped c) (hd : IdsFrom c d) :
    d.uid ≠ 0 ∧ d.euid ≠ 0 ∧ d.suid ≠ 0 ∧ d.fsuid ≠ 0 := by
  have hall : ∀ u ∈ [c.uid, c.euid, c.suid, c.fsuid], u ≠ 0 := by
    simp only [List.forall_mem_cons]
    exact ⟨h.uid, h.euid, h.suid, h.fsuid, nofun⟩
  exact ⟨hall _ hd.uid, hall _ hd.euid, hall _ hd.suid, hall _ hd.fsuid⟩

theorem Dropped.idStep {c d : Cred} (h : Dropped c) (hs : IdStep c d) : Dropped d := by
  obtain ⟨m, hm, hids, e, p, rfl, hc⟩ := hs
  obtain ⟨h1, h2, h3, h4⟩ := h.ids (hids (h.not_capable _))
  have he : m.capEffective = 0 := hm.effective.trans h.effective
  have hp : m.capPermitted = 0 := hm.permitted.trans h.permitted
  rcases hc with ⟨rfl, rfl⟩ | ⟨rfl, rfl⟩ | ⟨rfl, rfl⟩ | ⟨hroot, -, -⟩
  · exact ⟨h1, h2, h3, h4, he, hp⟩
  · exact ⟨h1, h2, h3, h4, rfl, rfl⟩
  · exact ⟨h1, h2, h3, h4, by simp [he], hp⟩
  · exact absurd hroot h2

theorem Dropped.capset (h : Dropped t.cred) (d : CapData) : Dropped (t.capset d).2.cred := by
  unfold Task.capset
  dsimp only
  split_ifs with h1 h2
  · rw [h.permitted] at h2
    have hp := Sub.eq_zero h2
    rw [hp] at h1
    exact ⟨h.uid, h.euid, h.suid, h.fsuid, Sub.eq_zero h1, hp⟩
  all_goals exact h

def ExecFile.PlainIds (f : ExecFile) : Prop := f.isuid = false ∧ f.isgid = false

theorem execve_plain {f : ExecFile} (hf : f.PlainIds) : (t.execve f).cred = t.cred := by
  have hids : t.cred.execIds f = t.cred := by simp [Cred.execIds, hf.1, hf.2]
  have hcaps : t.cred.execCaps f t.cred.euid = t.cred := by
    have hset : (f.isuid && f.uid == 0 && !t.cred.noRoot) = false := by rw [hf.1]; rfl
    simp only [Cred.execCaps, hset, Bool.false_eq_true, if_false, and_not_self_iff, not_and_self_iff, ite_self]
  unfold execve
  rw [hids, hcaps]
  exact ite_self _

/-- The calls after the drop are made by the task and its descendants, and none runs a set-id file. -/
def ByFamily (w : Watched) (e : TaskId × Call) : Prop :=
  w.family e.1 ∧ ∀ file, e.2 = .execve file → file.PlainIds

def FamilyDropped (w : Watched) : Prop := ∀ j t, w.family j → w.kernel.tasks j = some t → Dropped t.cred

theorem Dropped.localCall {f : Task → Int × Task} (h : Dropped t.cred) (hf : localCall c = some f)
    (hx : ∀ file, c = .execve file → file.PlainIds) : Dropped (f t).2.cred := by
  by_cases hc : ∃ file, c = .execve file
  · obtain ⟨file, rfl⟩ := hc
    cases hf
    rw [execve_plain (hx file rfl)]
    exact h
  · exact h.idStep (localCall_step hf (fun file hfile => hc ⟨file, hfile⟩) t)

theorem FamilyDropped.step (h : FamilyDropped w) (hb : ByFamily w e) (hs : w.step e = some w') : FamilyDropped w' := by
  intro j t' hj ht'
  rcases w.step_tasks hs hj ht' with ⟨hf, ht⟩ | ⟨cur, t, hcur, hf, ht, hst⟩ | ⟨cur, hcur, -, hc⟩
  · exact h j t' hf ht
  · have htd := h j t hf ht
    rcases hst with _ | ⟨f, hlc, -⟩ | ⟨_, pid, d, -, -⟩ | ⟨-⟩
    · exact htd
    · exact htd.localCall hlc hb.2
    · exact htd.capset d
    · exact htd
  · rw [hc.cred]; exact h e.1 cur hb.1 hcur

def Watched.start (k : Kernel) (i : TaskId) : Watched where
  kernel := k
  family j := j = i ∧ j < k.fresh
  old _ h := h.2

inductive Drop
  | setuid
  | setreuid
  | setresuid

def Drop.syscall (u : Uid) : Drop → Call
  | .setuid => .setuid u
  | .setreuid => .setreuid u u
  | .setresuid => .setresuid u u u

/-- The calls that leave no root id behind: `setuid` without `CAP_SETUID` keeps the real and the saved id,
`setreuid` always keeps the saved one, and an id of all ones is no id for the last two. -/
def Drop.Final (t : Task) (u : Uid) : Drop → Prop
  | .setuid => t.cred.capable CAP_SETUID ∨ t.cred.uid ≠ 0 ∧ t.cred.suid ≠ 0
  | .setreuid => u ≠ noChange ∧ t.cred.suid ≠ 0
  | .setresuid => u ≠ noChange

structure Unprivileged (c : Cred) : Prop where
  euid : c.euid ≠ 0
  fsuid : c.fsuid ≠ 0
  effective : c.capEffective = 0
  permitted : c.capPermitted = 0

theorem Dropped.unprivileged {c : Cred} (h : Dropped c) : Unprivileged c := ⟨h.euid, h.fsuid, h.effective, h.permitted⟩

def Drop.run (t : Task) (u : Uid) : Drop → Int × Task
  | .setuid => t.setuid u
  | .setreuid => t.setreuid u u
  | .setresuid => t.setresuid u u u

theorem Drop.syscall_eq (d : Drop) (u : Uid) (ht : k.tasks i = some t) : (call k i (d.syscall u)).1 = (d.run t u).1 ∧
    (call k i (d.syscall u)).2.tasks i = some (d.run t u).2 :=
  call_local_self (f := (d.run · u)) (by rcases d <;> rfl) ht

theorem fixupCaps_drop {c : Cred} {u : Uid} (hr : c.noRoot = false) (hk : t.keepCaps = false) (hu : u ≠ 0) :
    (fixupCaps { t with cred := c } 0 u).cred = { c with capEffective := 0, capPermitted := 0 } := by
  unfold fixupCaps
  rw [if_neg hu.symm, if_neg (by simp [hr]), if_pos ⟨rfl, hu⟩, if_neg (by simp [hk])]

section drop

variable {u : Uid} (hr : t.cred.noRoot = false) (hk : t.keepCaps = false) (he : t.cred.euid = 0) (hu : u ≠ 0)

include hr hk he hu

theorem setuid_capable (hc : t.cred.capable CAP_SETUID) : (t.setuid u).2.cred =
    { t.cred with uid := u, euid := u, suid := u, fsuid := u, capEffective := 0, capPermitted := 0 } := by
  rw [setuid, if_pos hc, he, fixupCaps_drop (by exact hr) hk hu]

theorem setuid_incapable (hc : t.cred.capable CAP_SETUID ≠ true) (hret : (t.setuid u).1 = 0) :
    (t.setuid u).2.cred = { t.cred with euid := u, fsuid := u, capEffective := 0, capPermitted := 0 } := by
  unfold setuid at hret ⊢
  rw [if_neg hc] at hret ⊢
  split at hret
  · cases hret
  · rename_i hcan
    rw [if_neg hcan, he, fixupCaps_drop (by exact hr) hk hu]

theorem setresuid_after {s : Uid} (hn : u ≠ noChange) (hs : pick s t.cred.suid ≠ 0)
    (hret : (t.setresuid u u s).1 = 0) : Dropped (t.setresuid u u s).2.cred := by
  unfold setresuid at hret ⊢
  split at hret
  · cases hret
  rename_i hc
  rw [if_neg hc, he]
  simp only [pick, if_neg hn]
  rw [fixupCaps_drop (by exact hr) hk hu]
  exact ⟨hu, hu, hs, hu, rfl, rfl⟩

end drop

theorem setuid_zero (h : t.cred.uid = 0 ∨ t.cred.suid = 0) : (t.setuid 0).2.cred.euid = 0 := by
  unfold setuid
  split
  · exact (fixupCaps_from { t with cred := { t.cred with uid := 0, euid := 0, suid := 0, fsuid := 0 } } _).keeps.2.1
  · have hcan : t.canSetUid 0 := by
      rcases h with h | h <;> simp [canSetUid, h]
    rw [if_neg (by rw [hcan]; decide)]
    exact (fixupCaps_from { t with cred := { t.cred with euid := 0, fsuid := 0 } } _).keeps.2.1

theorem pick_noChange (old : Uid) : pick noChange old = old := if_pos rfl

theorem setresuid_suid (r e : Uid) : (t.setresuid r e noChange).2.cred.suid = t.cred.suid := by
  unfold setresuid
  split
  · rfl
  · exact (fixupCaps_from { t with cred := { t.cred with
      uid := pick r t.cred.uid, euid := pick e t.cred.euid, fsuid := pick e t.cred.fsuid
      suid := pick noChange t.cred.suid } } _).keeps.2.2.trans (pick_noChange _)

theorem setresuid_noChange (s : Uid) : (t.setresuid noChange noChange s).2.cred.euid = t.cred.euid := by
  unfold setresuid
  split
  · rfl
  · exact (fixupCaps_from { t with cred := { t.cred with suid := pick s t.cred.suid } } _).keeps.2.1

section drop

variable {u : Uid} (hr : t.cred.noRoot = false) (hk : t.keepCaps = false) (he : t.cred.euid = 0) (hu : u ≠ 0)

include hr hk he hu

theorem Drop.after_cases (d : Drop) (hret : (d.run t u).1 = 0) : d.Final t u ∧ Dropped (d.run t u).2.cred ∨
    ¬ d.Final t u ∧ ((d.run t u).2.cred.euid = 0 ∨ ((d.run t u).2.setuid 0).2.cred.euid = 0) := by
  rcases d
  case setuid =>
    by_cases hc : t.cred.capable CAP_SETUID
    · refine .inl ⟨.inl hc, ?_⟩
      show Dropped (t.setuid u).2.cred
      rw [setuid_capable hr hk he hu hc]
      exact ⟨hu, hu, hu, hu, rfl, rfl⟩
    have hcred := setuid_incapable hr hk he hu hc hret
    by_cases hids : t.cred.uid ≠ 0 ∧ t.cred.suid ≠ 0
    · refine .inl ⟨.inr hids, ?_⟩
      show Dropped (t.setuid u).2.cred
      rw [hcred]
      exact ⟨hids.1, hu, hids.2, hu, rfl, rfl⟩
    · refine .inr ⟨fun h => hids (h.resolve_left hc), .inr (setuid_zero ?_)⟩
      show (t.setuid u).2.cred.uid = 0 ∨ (t.setuid u).2.cred.suid = 0
      rw [hcred]
      tauto
  case setreuid =>
    by_cases hn : u = noChange
    · refine .inr ⟨fun h => h.1 hn, .inl ?_⟩
      subst hn
      exact (setresuid_noChange _).trans he
    · by_cases hs : t.cred.suid = 0
      · exact .inr ⟨fun h => h.2 hs, .inr (setuid_zero (.inr ((setresuid_suid u u).trans hs)))⟩
      · exact .inl ⟨⟨hn, hs⟩, setresuid_after hr hk he hu hn hs hret⟩
  case setresuid =>
    by_cases hn : u = noChange
    · refine .inr ⟨fun h => h hn, .inl ?_⟩
      subst hn
      exact (setresuid_noChange _).trans he
    · refine .inl ⟨hn, setresuid_after hr hk he hu hn ?_ hret⟩
      rw [pick, if_neg hn]
      exact hu

end drop

/-- For a root task that gives up root successfully, with capabilities tied to root: no later calls of its own
and of its descendants bring back an effective or file-system uid of root or any capability, if and only if the
drop left no root id behind. -/
theorem privilege_drop (d : Drop) {u : Uid} (ht : k.tasks i = some t) (hr : t.cred.noRoot = false)
    (hk : t.keepCaps = false) (he : t.cred.euid = 0) (hu : u ≠ 0) (hret : (call k i (d.syscall u)).1 = 0) :
    d.Final t u ↔ ∀ es w, Run Watched.step ByFamily (.start (call k i (d.syscall u)).2 i) es w →
      ∀ j t', w.family j → w.kernel.tasks j = some t' → Unprivileged t'.cred := by
  obtain ⟨hret', htask⟩ := d.syscall_eq u ht
  rw [hret'] at hret
  have hi : (Watched.start (call k i (d.syscall u)).2 i).family i := ⟨rfl, Kernel.lt_fresh htask⟩
  rcases d.after_cases hr hk he hu hret with ⟨hfin, hdr⟩ | ⟨hfin, hback⟩
  · refine iff_of_true hfin fun es w hrun => ?_
    have h0 : FamilyDropped (.start (call k i (d.syscall u)).2 i) := by
      rintro j t' ⟨rfl, -⟩ ht'
      have heq := htask.symm.trans ht'
      cases heq
      exact hdr
    have hdw := hrun.inv (fun w e w' h hb hs => FamilyDropped.step h hb hs) h0
    exact fun j t' hj ht' => (hdw j t' hj ht').unprivileged
  · refine iff_of_false hfin fun hall => ?_
    rcases hback with hback | hback
    · exact (hall [] _ (.nil _) i _ hi htask).euid hback
    -- `setuid(0)` by the task itself
    have hrun : Run Watched.step ByFamily (.start (call k i (d.syscall u)).2 i) [(i, .setuid 0)] _ :=
      .cons ⟨hi, nofun⟩ rfl (.nil _)
    obtain ⟨-, htask'⟩ := Drop.setuid.syscall_eq 0 htask
    exact (hall _ _ hrun i _ (.inl hi) htask').euid hback

theorem privilege_drop_setuid : (call boot 0 (.setuid 1000)).1 = 0 ∧ ∀ es w,
    Run Watched.step ByFamily (.start (call boot 0 (.setuid 1000)).2 0) es w →
      ∀ j t', w.family j → w.kernel.tasks j = some t' → Unprivileged t'.cred :=
  ⟨rfl, (privilege_drop .setuid rfl rfl rfl rfl
    (by decide) rfl).1 (.inl rfl)⟩

/-- Root gives up root by `setreuid(1000, 1000)` and takes it back by `setuid(0)`. -/
theorem privilege_drop_regained : (call boot 0 (.setreuid 1000 1000)).1 = 0 ∧
    ∃ w t', Run Watched.step ByFamily (.start (call boot 0 (.setreuid 1000 1000)).2 0) [(0, .setuid 0)] w ∧
      w.family 0 ∧ w.kernel.tasks 0 = some t' ∧ t'.cred.euid = 0 ∧ t'.cred.capEffective = capFullMask := by
  refine ⟨rfl, _, _, .cons ⟨⟨rfl, by decide⟩, nofun⟩ rfl (.nil _), .inl ⟨rfl, by decide⟩, rfl, rfl, by decide⟩

/-! ### `no_new_privs` -/

theorem call_noNewPrivs (h : ∀ t, k.tasks j = some t → t.noNewPrivs) (hj : j < k.fresh) (i : TaskId)
    (c : Call) (ht' : (call k i c).2.tasks j = some t') : t'.noNewPrivs := by
  rcases call_tasks ht' with ht | ⟨cur, hcur, ⟨t, ht, hst⟩ | hc⟩
  · exact h t' ht
  · have hflag := h t ht
    rcases hst with _ | ⟨f, hlc, -⟩ | ⟨_, pid, d, -, -⟩ | ⟨-⟩
    · exact hflag
    · exact (localCall_keeps hlc _).noNewPrivs hflag
    · exact (capset_keeps t d).1.noNewPrivs hflag
    · exact hflag
  · exact absurd hc.id (Nat.ne_of_lt hj)

/-- What `no_new_privs` promises of an `execve`. -/
structure NoGain (c d : Cred) : Prop where
  euid : d.euid = c.euid
  egid : d.egid = c.egid
  effective : Sub d.capEffective c.capEffective
  permitted : Sub d.capPermitted c.capPermitted
  inheritable : Sub d.capInheritable c.capInheritable
  bounding : Sub d.capBounding c.capBounding

theorem NoGain.refl (c : Cred) : NoGain c c := ⟨rfl, rfl, .refl _, .refl _, .refl _, .refl _⟩

theorem execve_noGain {f : ExecFile} (h : t.noNewPrivs ∨ f.PlainIds) : NoGain t.cred (t.execve f).cred := by
  rcases h with h | h
  · have hcred : (t.execve f).cred = t.cred := if_pos h
    rw [hcred]; exact .refl _
  · rw [execve_plain h]; exact .refl _

/-- A descendant of `i` runs a set-id file only after it has set the flag itself. -/
def SafeExec (i : TaskId) (w : Watched) (e : TaskId × Call) : Prop :=
  ∀ t file, w.family e.1 → e.1 ≠ i → w.kernel.tasks e.1 = some t → e.2 = .execve file →
    t.noNewPrivs = true ∨ file.PlainIds

/-- If the event is an `execve` of the family, it gives nothing new. -/
def ExecNoGain (w : Watched) (e : TaskId × Call) : Prop :=
  ∀ t t' file, w.family e.1 → w.kernel.tasks e.1 = some t → e.2 = .execve file →
    (call w.kernel e.1 e.2).2.tasks e.1 = some t' → NoGain t.cred t'.cred

structure Flagged (i : TaskId) (w : Watched) : Prop where
  lt : i < w.kernel.fresh
  flag : ∀ t, w.kernel.tasks i = some t → t.noNewPrivs = true

theorem Flagged.step (h : Flagged i w) (hs : w.step e = some w') : Flagged i w' := by
  cases hs
  exact ⟨h.lt.trans_le (call_fresh ..), fun t' ht' => call_noNewPrivs h.flag h.lt e.1 e.2 ht'⟩

/-- Once `prctl(PR_SET_NO_NEW_PRIVS)` has succeeded in `i`, every run in which its descendants obey `SafeExec`
is a run in which no `execve` of the family gives anything new. Nothing is asked of `i` itself. -/
theorem no_new_privs_exec {b c d e : Word} {es : List (TaskId × Call)}
    (hret : (call k i (.prctl .setNoNewPrivs b c d e)).1 = 0)
    (hrun : Run Watched.step (SafeExec i) (.start (call k i (.prctl .setNoNewPrivs b c d e)).2 i) es w) :
    Run Watched.step ExecNoGain (.start (call k i (.prctl .setNoNewPrivs b c d e)).2 i) es w := by
  refine hrun.weaken (I := Flagged i) (fun w e w' h _ hs => h.step hs) (fun w e h hsafe => ?_) ?_
  · rintro t t' file hfam ht hx ht'
    have hok : t.noNewPrivs = true ∨ file.PlainIds := by
      by_cases hi : e.1 = i
      · rw [hi] at ht
        exact .inl (h.flag t ht)
      · exact hsafe t file hfam hi ht hx
    rw [hx, (call_local_self rfl ht).2] at ht'
    cases ht'
    exact execve_noGain hok
  · rcases ht : k.tasks i with _ | t
    · -- no such task, so the call has failed
      rw [call_local rfl, Kernel.on, ht] at hret
      cases hret
    · obtain ⟨h1, h2⟩ := call_local_self (c := .prctl .setNoNewPrivs b c d e) rfl ht
      refine ⟨Kernel.lt_fresh h2, fun t' ht' => ?_⟩
      have heq := h2.symm.trans ht'
      cases heq
      rw [h1] at hret
      dsimp only [prctl] at hret ⊢
      split at hret
      · cases hret
      · rename_i hargs
        rw [if_neg hargs]

theorem no_new_privs_exec_boot : ∃ w, Run Watched.step ExecNoGain
    (.start (call boot 0 (.prctl .setNoNewPrivs 1 0 0 0)).2 0)
    [(0, .fork (.creates true)), (0, .execve ⟨true, false, 5, 0⟩)] w :=
  ⟨_, no_new_privs_exec rfl
    (.cons (fun _ _ _ h => absurd rfl h) rfl (.cons (fun _ _ _ h => absurd rfl h) rfl (.nil _)))⟩

def bootUser : Kernel := (call boot 0 (.setresuid 1000 1000 1000)).2

/-- User 1000 sets the flag and forks; the child, which does not have the flag, runs a set-uid root file. -/
theorem no_new_privs_exec_gained : (call bootUser 0 (.prctl .setNoNewPrivs 1 0 0 0)).1 = 0 ∧
    ∃ w t t', Run Watched.step Any (.start (call bootUser 0 (.prctl .setNoNewPrivs 1 0 0 0)).2 0)
        [(0, .fork (.creates true))] w ∧ w.family 1 ∧
      w.kernel.tasks 1 = some t ∧ t.cred.euid = 1000 ∧ t.cred.capEffective = 0 ∧
      (call w.kernel 1 (.execve ⟨true, false, 0, 0⟩)).2.tasks 1 = some t' ∧ t'.cred.euid = 0 ∧
      t'.cred.capEffective = capFullMask :=
  ⟨rfl, _, _, _, .cons trivial rfl (.nil _), .inr ⟨⟨rfl, by decide⟩, rfl, by decide⟩, rfl, rfl, rfl, rfl,
    rfl, by decide⟩

/-- No call of any task takes the flag from one that has it. -/
theorem no_new_privs_kept {es : List (TaskId × Call)} (ht : k0.tasks i = some t) (hflag : t.noNewPrivs)
    (hrun : Run step Any k0 es k) (ht' : k.tasks i = some t') : t'.noNewPrivs := by
  refine (hrun.inv (I := fun k => i < k.fresh ∧ ∀ t, k.tasks i = some t → t.noNewPrivs) (fun k e k' h _ hs => ?_)
    ⟨Kernel.lt_fresh ht, fun u hu => ?_⟩).2 t' ht'
  · cases hs
    exact ⟨h.1.trans_le (call_fresh ..), fun u hu => call_noNewPrivs h.2 h.1 e.1 e.2 hu⟩
  · cases ht.symm.trans hu
    exact hflag

theorem no_new_privs_kept_setuid : ∃ k0 k t, Run step Any k0 [(0, .setuid 5)] k ∧ k.tasks 0 = some t ∧ t.noNewPrivs :=
  have hrun : Run step Any (call boot 0 (.prctl .setNoNewPrivs 1 0 0 0)).2 _ _ := .cons trivial rfl (.nil _)
  ⟨_, _, _, hrun, rfl, no_new_privs_kept (i := 0) rfl rfl hrun rfl⟩

end ExoOS.Sched
