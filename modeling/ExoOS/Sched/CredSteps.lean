import ExoOS.Sched.Cred

/-!
# What the identity calls can do

One description for all calls that work on the caller alone: the sets of capabilities change in four ways
(`CapsChange`), and without `CAP_SETUID` no user id appears that the task did not have (`IdsFrom`). Over the task
table a call changes a task in one of the ways of `TaskStep`, or makes a child with the caller's credentials
(`call_tasks`).
-/

namespace ExoOS.Sched

open Kernel Sched.Task

variable {t t' : Task} {k : Kernel} {i j : TaskId} {c : Call}

/-- The changes to the capability sets: none, all dropped, the effective ones cut down to the permitted ones,
or the full set within the bound, which only root gets. -/
inductive CapsChange (c : Cred) (e p : Word) : Prop
  | keep (he : e = c.capEffective) (hp : p = c.capPermitted)
  | drop (he : e = 0) (hp : p = 0)
  | cut (he : e = c.capEffective &&& c.capPermitted) (hp : p = c.capPermitted)
  | full (hroot : c.euid = 0) (he : e = p) (hp : p = capFullMask &&& c.capBounding)

/-- `d` comes from `c` by a change of the capabilities alone. -/
def CapsFrom (c d : Cred) : Prop :=
  ∃ e p, d = { c with capEffective := e, capPermitted := p } ∧ CapsChange c e p

theorem CapsFrom.refl (c : Cred) : CapsFrom c c := ⟨_, _, rfl, .keep rfl rfl⟩

theorem fixupCaps_from (t : Task) (old : Uid) : CapsFrom t.cred (t.fixupCaps old t.cred.euid).cred := by
  unfold fixupCaps
  split
  · exact .refl _
  split
  · exact .refl _
  split
  · split
    · exact ⟨_, _, rfl, .cut rfl rfl⟩
    · exact ⟨_, _, rfl, .drop rfl rfl⟩
  split
  · rename_i h
    exact ⟨_, _, rfl, .full h.2 rfl rfl⟩
  · exact ⟨_, _, rfl, .cut rfl rfl⟩

/-- Credentials that differ in the user and group ids alone. -/
structure SameCaps (c d : Cred) : Prop where
  effective : d.capEffective = c.capEffective
  permitted : d.capPermitted = c.capPermitted
  inheritable : d.capInheritable = c.capInheritable
  bounding : d.capBounding = c.capBounding
  securebits : d.securebits = c.securebits

theorem SameCaps.refl (c : Cred) : SameCaps c c := ⟨rfl, rfl, rfl, rfl, rfl⟩

structure IdsFrom (c d : Cred) : Prop where
  uid : d.uid ∈ [c.uid, c.euid, c.suid, c.fsuid]
  euid : d.euid ∈ [c.uid, c.euid, c.suid, c.fsuid]
  suid : d.suid ∈ [c.uid, c.euid, c.suid, c.fsuid]
  fsuid : d.fsuid ∈ [c.uid, c.euid, c.suid, c.fsuid]

theorem IdsFrom.refl (c : Cred) : IdsFrom c c := ⟨by simp, by simp, by simp, by simp⟩

/-- An identity call: the ids change, then the capabilities; without `CAP_SETUID` the ids are old ones. -/
def IdStep (c d : Cred) : Prop :=
  ∃ m, SameCaps c m ∧ (c.capable CAP_SETUID = false → IdsFrom c m) ∧ CapsFrom m d

theorem IdStep.refl (c : Cred) : IdStep c c := ⟨c, .refl c, fun _ => .refl c, .refl c⟩

/-- Credentials that differ in the groups alone. -/
structure SameIds (c d : Cred) : Prop extends SameCaps c d where
  uid : d.uid = c.uid
  euid : d.euid = c.euid
  suid : d.suid = c.suid
  fsuid : d.fsuid = c.fsuid

theorem SameIds.step {c d : Cred} (h : SameIds c d) : IdStep c d :=
  ⟨d, h.1, fun _ => ⟨by simp [h.uid], by simp [h.euid], by simp [h.suid], by simp [h.fsuid]⟩, .refl d⟩

theorem canSetUid_mem {u : Uid} (h : t.canSetUid u) : u ∈ [t.cred.uid, t.cred.euid, t.cred.suid, t.cred.fsuid] := by
  simp only [canSetUid, Bool.or_eq_true, beq_iff_eq] at h
  simp only [List.mem_cons, List.not_mem_nil]
  tauto

theorem IdStep.fixup (t : Task) (m : Cred) (old : Uid) (hs : SameCaps t.cred m)
    (hi : t.cred.capable CAP_SETUID = false → IdsFrom t.cred m) :
    IdStep t.cred (Task.fixupCaps { t with cred := m } old m.euid).cred :=
  ⟨m, hs, hi, fixupCaps_from { t with cred := m } old⟩

theorem setuid_step (t : Task) (u : Uid) : IdStep t.cred (t.setuid u).2.cred := by
  unfold setuid
  split
  · rename_i hc
    refine .fixup t { t.cred with uid := u, euid := u, suid := u, fsuid := u } _ ⟨rfl, rfl, rfl, rfl, rfl⟩
      fun hn => ?_
    rw [hc] at hn; cases hn
  split
  · exact .refl _
  · rename_i hu
    have hu := canSetUid_mem (by simpa using hu)
    exact .fixup t { t.cred with euid := u, fsuid := u } _ ⟨rfl, rfl, rfl, rfl, rfl⟩
      fun _ => ⟨by simp, hu, by simp, hu⟩

theorem pick_mem {u old : Uid} {l : List Uid} (hold : old ∈ l) (h : u = noChange ∨ u ∈ l) : Task.pick u old ∈ l := by
  unfold pick
  split
  · exact hold
  · exact h.resolve_left ‹_›

theorem setresuid_step (t : Task) (r e s : Uid) : IdStep t.cred (t.setresuid r e s).2.cred := by
  unfold setresuid
  split
  · exact .refl _
  rename_i hc
  refine .fixup t { t.cred with
    uid := pick r t.cred.uid, euid := pick e t.cred.euid
    fsuid := pick e t.cred.fsuid, suid := pick s t.cred.suid } _ ⟨rfl, rfl, rfl, rfl, rfl⟩
    fun hn => ?_
  have hok : ∀ u ∈ [r, e, s], u = noChange ∨ u ∈ [t.cred.uid, t.cred.euid, t.cred.suid, t.cred.fsuid] := by
    simp only [hn, Bool.not_false, Bool.true_and, Bool.not_eq_true, Bool.not_eq_false', List.all_eq_true,
      Bool.or_eq_true, beq_iff_eq] at hc
    exact fun u hu => (hc u hu).imp_right canSetUid_mem
  exact ⟨pick_mem (by simp) (hok r (by simp)), pick_mem (by simp) (hok e (by simp)),
    pick_mem (by simp) (hok s (by simp)), pick_mem (by simp) (hok e (by simp))⟩

theorem setfsuid_step (t : Task) (u : Uid) : IdStep t.cred (t.setfsuid u).2.cred := by
  unfold setfsuid
  split
  · rename_i hc
    refine ⟨{ t.cred with fsuid := u }, ⟨rfl, rfl, rfl, rfl, rfl⟩, fun hn => ?_, .refl _⟩
    have hu : u ∈ [t.cred.uid, t.cred.euid, t.cred.suid, t.cred.fsuid] := by
      simp only [hn, Bool.false_or, Bool.or_eq_true, beq_iff_eq] at hc
      rcases hc with hc | hc
      · exact canSetUid_mem hc
      · simp [hc]
    exact ⟨by simp, by simp, by simp, hu⟩
  · exact .refl _

theorem SameIds.fillGroups {c d : Cred} (g : Uid) (h : SameIds c d) : IdStep c (d.fillGroups g) := by
  unfold Cred.fillGroups
  split
  · exact SameIds.step { h with }
  · exact h.step

theorem setgid_step (t : Task) (g : Uid) : IdStep t.cred (t.setgid g).2.cred := by
  unfold setgid
  split
  · exact SameIds.fillGroups g ⟨⟨rfl, rfl, rfl, rfl, rfl⟩, rfl, rfl, rfl, rfl⟩
  split
  · exact .refl _
  · exact SameIds.fillGroups g ⟨⟨rfl, rfl, rfl, rfl, rfl⟩, rfl, rfl, rfl, rfl⟩

theorem setresgid_step (t : Task) (r e s : Uid) : IdStep t.cred (t.setresgid r e s).2.cred := by
  unfold setresgid
  split
  · exact .refl _
  · exact SameIds.step ⟨⟨rfl, rfl, rfl, rfl, rfl⟩, rfl, rfl, rfl, rfl⟩

theorem setfsgid_step (t : Task) (g : Uid) : IdStep t.cred (t.setfsgid g).2.cred := by
  unfold setfsgid
  split
  · exact SameIds.step ⟨⟨rfl, rfl, rfl, rfl, rfl⟩, rfl, rfl, rfl, rfl⟩
  · exact .refl _

theorem setgroups_step (t : Task) (n : Int) (l : Option (Nat → Uid)) : IdStep t.cred (t.setgroups n l).2.cred := by
  unfold setgroups
  split
  · exact .refl _
  split
  · exact .refl _
  split
  · exact SameIds.fillGroups (d := { t.cred with groups := fun _ => 0, groupCount := 0 }) _
      ⟨⟨rfl, rfl, rfl, rfl, rfl⟩, rfl, rfl, rfl, rfl⟩
  · exact .refl _
  · exact SameIds.fillGroups _ ⟨⟨rfl, rfl, rfl, rfl, rfl⟩, rfl, rfl, rfl, rfl⟩

theorem prctl_cred (t : Task) (op : Prctl) (b c d e : Word) : (t.prctl op b c d e).2.cred = t.cred := by
  unfold prctl
  repeat' split
  all_goals rfl

/-! ### All calls on the caller -/

variable {f : Task → Int × Task}

theorem localCall_step (hf : localCall c = some f) (hx : ∀ file, c ≠ .execve file)
    (t : Task) : IdStep t.cred (f t).2.cred := by
  rcases c with u | ⟨r, e⟩ | ⟨r, e, s⟩ | u | g | ⟨r, e⟩ | ⟨r, e, s⟩ | g | ⟨n, l⟩ | ⟨pid, d⟩ | ⟨op, b, c, d, e⟩ |
      env | ⟨env, fl⟩ | file <;> cases hf
  · exact setuid_step t u
  · exact setresuid_step t r e noChange
  · exact setresuid_step t r e s
  · exact setfsuid_step t u
  · exact setgid_step t g
  · exact setresgid_step t r e noChange
  · exact setresgid_step t r e s
  · exact setfsgid_step t g
  · exact setgroups_step t n l
  · simp only [prctl_cred]
    exact .refl _
  · exact absurd rfl (hx file)

/-- A call on the caller leaves its mask and actions alone, and its handlers unless it resets them. -/
structure SameSignals (t t' : Task) : Prop where
  sigMask : t'.sigMask = t.sigMask
  sigactions : t'.sigactions = t.sigactions
  sigHandlers : t'.sigHandlers = t.sigHandlers ∨ t'.sigHandlers = t.sigHandlers.map fun _ _ => 0

/-- Nor does it clear `no_new_privs`. -/
structure LocalStep (t t' : Task) : Prop extends SameSignals t t' where
  noNewPrivs : t.noNewPrivs = true → t'.noNewPrivs = true

theorem LocalStep.refl (t : Task) : LocalStep t t := ⟨⟨rfl, rfl, .inl rfl⟩, id⟩

theorem fixupCaps_keeps (t : Task) (c : Cred) (old new : Uid) :
    LocalStep t (Task.fixupCaps { t with cred := c } old new) := by
  unfold fixupCaps
  repeat' split
  all_goals exact ⟨⟨rfl, rfl, .inl rfl⟩, id⟩

theorem localCall_keeps (hf : localCall c = some f) (t : Task) : LocalStep t (f t).2 := by
  cases c <;> cases hf
  case execve => exact ⟨⟨rfl, rfl, .inr rfl⟩, id⟩
  case setuid => dsimp only [setuid]; repeat' split
                 all_goals first | exact .refl t | exact fixupCaps_keeps ..
  case setreuid => dsimp only [setreuid, setresuid]; split
                   all_goals first | exact .refl t | exact fixupCaps_keeps ..
  case setresuid => dsimp only [setresuid]; split
                    all_goals first | exact .refl t | exact fixupCaps_keeps ..
  all_goals
    dsimp only [setfsuid, setgid, setregid, setresgid, setfsgid, setgroups, prctl]
    repeat' split
    all_goals first | exact ⟨⟨rfl, rfl, .inl rfl⟩, id⟩ | exact ⟨⟨rfl, rfl, .inl rfl⟩, fun _ => rfl⟩

theorem capset_keeps (t : Task) (d : CapData) :
    LocalStep t (t.capset d).2 ∧ (t.capset d).2.sigHandlers = t.sigHandlers := by
  unfold capset
  dsimp only
  repeat' split
  all_goals exact ⟨⟨⟨rfl, rfl, .inl rfl⟩, id⟩, rfl⟩

/-- How a call `c` by `i`, whose task was `cur`, changes the task `j`. -/
inductive TaskStep (cur : Task) (i : TaskId) (c : Call) (j : TaskId) : Task → Task → Prop
  | same (t : Task) : TaskStep cur i c j t t
  | own (f : Task → Int × Task) (hf : localCall c = some f) (hj : j = i) : TaskStep cur i c j cur (f cur).2
  | capset (t : Task) (pid : Int) (d : CapData) (hc : c = .capset pid d)
      (hj : j = i ∧ t = cur ∨ cur.cred.capable CAP_SETPCAP) : TaskStep cur i c j t (t.capset d).2
  | wait (hj : j = i) : TaskStep cur i c j cur { cur with state := .blocked }

structure Child (k : Kernel) (cur : Task) (j : TaskId) (t : Task) : Prop where
  id : j = k.fresh
  cred : t.cred = cur.cred
  noNewPrivs : t.noNewPrivs = false
  sigMask : t.sigMask = cur.sigMask ∨ t.sigMask = 0
  sigactions : t.sigactions = none
  sigHandlers : ∀ h, t.sigHandlers = some h → h = fun _ => 0

theorem createUser_handlers {b : Bool} {h : Nat → Word}
    (hh : (if b then some fun _ => 0 else none) = some h) : h = fun _ => 0 := by
  rcases b <;> cases hh
  rfl

theorem on_tasks (h : (k.on i f).2.tasks j = some t') :
    k.tasks j = some t' ∨ j = i ∧ ∃ t, k.tasks i = some t ∧ t' = (f t).2 := by
  unfold on at h
  split at h
  · exact .inl h
  rename_i t ht
  by_cases hj : j = i
  · subst hj
    rw [modify_tasks_self, ht] at h
    cases h
    exact .inr ⟨rfl, t, ht, rfl⟩
  · rw [modify_tasks_ne hj] at h
    exact .inl h

theorem call_local (hf : localCall c = some f) : call k i c = k.on i f := by
  rcases c <;> cases hf <;> rfl

theorem call_local_self (hf : localCall c = some f) (ht : k.tasks i = some t) :
    (call k i c).1 = (f t).1 ∧ (call k i c).2.tasks i = some (f t).2 := by
  rw [call_local hf, on, ht]
  rw [modify_tasks_self, ht]
  exact ⟨rfl, rfl⟩

theorem register_tasks {child : Task} (h : (k.register child).tasks j = some t') :
    k.tasks j = some t' ∨ j = k.fresh ∧ t' = child := by
  by_cases hj : j = k.fresh
  · subst hj
    rw [register_tasks_self] at h
    cases h
    exact .inr ⟨rfl, rfl⟩
  · rw [register_tasks_ne hj] at h
    exact .inl h

theorem call_tasks (h : (call k i c).2.tasks j = some t') : k.tasks j = some t' ∨ ∃ cur, k.tasks i = some cur ∧
      ((∃ t, k.tasks j = some t ∧ TaskStep cur i c j t t') ∨ Child k cur j t') := by
  rcases hf : localCall c with _ | f
  case some =>
    rw [call_local hf] at h
    rcases on_tasks h with h | ⟨rfl, t, ht, rfl⟩
    · exact .inl h
    · exact .inr ⟨t, ht, .inl ⟨t, ht, .own f hf rfl⟩⟩
  cases c
  case capset pid d =>
    dsimp only [call] at h
    unfold scCapset at h
    split at h
    · exact .inl h
    rename_i cur hcur
    split at h
    · exact .inl h
    split at h
    · exact .inl h
    rename_i hperm
    rcases on_tasks h with h | ⟨rfl, t, ht, rfl⟩
    · exact .inl h
    refine .inr ⟨cur, hcur, .inl ⟨t, ht, .capset t pid d rfl ?_⟩⟩
    by_cases hj : j = i
    · subst hj
      rw [hcur] at ht
      cases ht
      exact .inl ⟨rfl, rfl⟩
    · refine .inr ?_
      by_contra hn
      exact hperm ⟨hj, by simpa using hn⟩
  case fork =>
    dsimp only [call] at h
    unfold sysFork at h
    split at h
    · exact .inl h
    rename_i cur hcur
    split at h
    · exact .inl h
    · rcases register_tasks h with h | ⟨rfl, rfl⟩
      · exact .inl h
      · exact .inr ⟨cur, hcur, .inr ⟨rfl, rfl, rfl, .inl rfl, rfl, fun _ => createUser_handlers⟩⟩
  case clone env fl =>
    dsimp only [call] at h
    unfold sysClone at h
    split at h
    · exact .inl h
    rename_i cur hcur
    split at h
    · exact .inl h
    split at h
    · exact .inl h
    split at h
    · exact .inl h
    rename_i hd
    have hchild : ∀ t', (k.register (cloneChild cur i fl.thread hd (BitVec.ofNat 32 k.newTid))).tasks j = some t' →
        k.tasks j = some t' ∨ Child k cur j t' := by
      intro t' h
      rcases register_tasks h with h | ⟨rfl, rfl⟩
      · exact .inl h
      · exact .inr ⟨rfl, rfl, rfl, .inr rfl, rfl, fun _ => createUser_handlers⟩
    split at h
    · by_cases hj : j = i
      · subst hj
        rw [modify_tasks_self, register_tasks_ne (ne_fresh hcur), hcur] at h
        cases h
        exact .inr ⟨cur, hcur, .inl ⟨cur, hcur, .wait rfl⟩⟩
      · rw [modify_tasks_ne hj] at h
        rcases hchild t' h with h | h
        · exact .inl h
        · exact .inr ⟨cur, hcur, .inr h⟩
    · rcases hchild t' h with h | h
      · exact .inl h
      · exact .inr ⟨cur, hcur, .inr h⟩
  all_goals cases hf

@[simp] theorem on_fresh (f : Task → Int × Task) : (k.on i f).2.fresh = k.fresh := by
  unfold on; split <;> rfl

theorem call_fresh (k : Kernel) (i : TaskId) (c : Call) : k.fresh ≤ (call k i c).2.fresh := by
  cases c
  case capset | fork | clone =>
    dsimp only [call, scCapset, sysFork, sysClone]
    repeat' split
    all_goals first | exact le_rfl | exact Nat.le_succ _ | exact (on_fresh _).ge
  all_goals exact (on_fresh _).ge

end ExoOS.Sched
