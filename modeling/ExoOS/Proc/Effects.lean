import ExoOS.Fs.FdOwn
import ExoOS.Proc.ProcessInv

/-!
# What a call does to tasks, descriptors and page tables

One case for each way in which a call can change the tasks, their descriptor tables and their page tables
(`Effect`), and the case that each call falls in (`call_effect`). What follows about the life of tasks and of address
spaces uses nothing else of the calls.
-/

namespace ExoOS.Proc

open Function List Option Sched SchedState Shape Transition Kernel Aside

variable {κ : Type} {s s' s'' : Kernel κ} {c cpu : κ} {t u p q : TaskId} {fs : Fs.Kernel}

namespace Kernel

def ends (s : Kernel κ) : ProcEvent κ → Option (TaskId × TaskState)
  | .exit c _ | .returns c =>
    some (s.current c, SchedState.exitState (s.procs (s.current c)).parent (s.isThread (s.current c)))
  | .die c .signal => some (s.current c, SchedState.exitState (s.procs (s.current c)).parent false)
  | .die c .atOnce => some (s.current c, .dead)
  | _ => none

def releases (s : Kernel κ) : ProcEvent κ → Option TaskId
  | .execve c (.loaded _ _) => some (s.current c)
  | .wait _ t => some t
  | _ => none

end Kernel

/-- No task comes or goes, and the tables of those that have ended stay as they are. -/
structure Stays (s s' : Kernel κ) : Prop where
  keeps : Keeps s.sched.shape s'.sched.shape
  tasks : ∀ t, (s.sched.state t).Ended → s'.fs.tasks t = s.fs.tasks t

/-- Only the task `t` may have another page table. -/
structure SpacesBut (t : Option TaskId) (s s' : Kernel κ) : Prop where
  space : ∀ u, some u ≠ t → (s'.procs u).space = (s.procs u).space
  nspaces : s'.nspaces = s.nspaces
  destroys : s'.destroys = s.destroys

structure Born (s s' : Kernel κ) (space : Bool × Option SpaceId × Bool) : Prop where
  adds : Adds s.fs.ntasks s.sched.shape s'.sched.shape
  tasks : ∀ t, t ≠ s.fs.ntasks → s'.fs.tasks t = s.fs.tasks t
  spaces : SpacesBut (some s.fs.ntasks) s s'
  self : (s'.procs s.fs.ntasks).space = space

inductive Effect (s s' : Kernel κ) : Option (TaskId × TaskState) → Option TaskId → Prop
  | quiet (hst : Stays s s') (hsp : SpacesBut none s s') : Effect s s' none none
  | spoil (hst : Stays s s') (hsp : SpacesBut none s.spoilAddressSpace s') : Effect s s' none none
  | thread (p : TaskId) (hp : p ∈ s.sched.objs) (hb : Born s s' (true, (s.procs p).cr3, false)) : Effect s s' none none
  | process (hb : Born s.vmmCreateAddressSpace.2 s' (true, some s.nspaces, true)) : Effect s s' none none
  | kthread (hb : Born s s' (false, none, false)) : Effect s s' none none
  | dies (t : TaskId) (st : TaskState) (ht : t ∈ s.sched.objs) (hst : st.Ended)
    (he : Ends t st s.sched.shape s'.sched.shape) (hfs : s'.fs = s.fs) (hsp : SpacesBut none s s') :
    Effect s s' (some (t, st)) none
  | execs (t : TaskId) (ht : t ∈ s.sched.objs) (hu : (s.procs t).isUser) (hst : Stays s s')
    (hsp : SpacesBut (some t) (s.vmmCreateAddressSpace.2.dropAddressSpace (s.procs t)) s')
    (hself : (s'.procs t).space = (true, some s.nspaces, true)) : Effect s s' none (some t)
  | reaps (t : TaskId) (ht : t ∈ s.sched.objs) (hobjs : s'.sched.objs = s.sched.objs.erase t)
    (hst : ∀ u, (s'.sched.state u).Ended → s'.sched.state u = s.sched.state u)
    (htab : ∀ u, u ≠ t → s'.fs.tasks u = s.fs.tasks u)
    (hsp : SpacesBut none (if (s.procs t).isUser then s.dropAddressSpace (s.procs t) else s) s') :
    Effect s s' none (some t)

theorem Born.trans {space : Bool × Option SpaceId × Bool} (h : Born s s' space)
    (hk : Keeps s'.sched.shape s''.sched.shape) (hfs : s''.fs = s'.fs) (hsp : SpacesBut none s' s'') :
    Born s s'' space where
  adds := h.adds.trans hk
  tasks t ht := by
    rw [hfs]
    exact h.tasks t ht
  spaces :=
    { space := fun u hu => (hsp.space u nofun).trans (h.spaces.space u hu)
      nspaces := hsp.nspaces.trans h.spaces.nspaces
      destroys := hsp.destroys.trans h.spaces.destroys }
  self := (hsp.space _ nofun).trans h.self

theorem Aside.stays (h : Aside s s') : Stays s s' := ⟨h.keeps, fun _ _ => by rw [h.fs]⟩

theorem Aside.spacesBut (h : Aside s s') : SpacesBut none s s' := ⟨fun u _ => h.space u, h.nspaces, h.destroys⟩

theorem Aside.busy (h : Aside s s') (hc : s.current c ≠ (s.sched.cpus c).idle) :
    s'.current c ≠ (s'.sched.cpus c).idle := fun he =>
  hc ((congrFun h.current c).symm.trans (he.trans (congrFun h.idle c)))

theorem Base.still (h : Base s) : Base s ∧ Effect s s none none := ⟨h, .quiet refl.stays refl.spacesBut⟩

/-! ### New tasks -/

theorem Base.notMem (h : Base s) : s.fs.ntasks ∉ s.sched.objs := fun hm => lt_irrefl _ (h.objs _ hm)

section Alloc

variable {k : Process}

theorem Kernel.taskAlloc_procs (s : Kernel κ) (cpu : κ) (k : Process) (hu : u ≠ s.fs.ntasks) :
    (s.taskAlloc cpu k).procs u = s.procs u := update_of_ne hu ..

theorem Kernel.taskAlloc_self (s : Kernel κ) (cpu : κ) (k : Process) :
    (s.taskAlloc cpu k).procs s.fs.ntasks = k := update_self ..

theorem Kernel.taskAlloc_setProc (s : Kernel κ) (cpu : κ) (k : Process) (g : Process → Process) :
    (s.taskAlloc cpu k).setProc s.fs.ntasks g = s.taskAlloc cpu (g k) := by
  simp [taskAlloc, setProc]

theorem Kernel.taskCreateUser_eq (s : Kernel κ) (cpu : κ) (cr3 : Option SpaceId) (tid : Nat) (owns : Bool)
    (hi : s.initTask ≠ none) :
    s.taskCreateUser cpu cr3 tid owns = (s.fs.ntasks, s.taskAlloc cpu (.new tid true cr3 owns)) := by
  have hi : (s.taskAlloc cpu (.new tid true cr3 owns)).initTask ≠ none := hi
  simp only [taskCreateUser, hi, and_false, if_false]

variable [DecidableEq κ]

theorem Base.allocTree (h : Base s) (hp : k.parent = none) (hc : k.children = []) (hv : k.vforkParent = none)
    {i : Option TaskId} (hi : i = s.initTask ∨ i = some s.fs.ntasks) (hu : k.isUser → i ≠ none)
    (hs' : s' = { (s.taskAlloc cpu k).schedAddTask cpu s.fs.ntasks with initTask := i }) : Tree s' := by
  have hobjs : s'.sched.objs = s.fs.ntasks :: s.sched.objs := by
    rw [hs']
    exact (addTask_adds s.sched cpu s.fs.ntasks).objs
  have hn : s'.fs.ntasks = s.fs.ntasks + 1 := by rw [hs']; rfl
  have hself : s'.procs s.fs.ntasks = k := by rw [hs']; exact s.taskAlloc_self cpu k
  have hold : ∀ u, u ≠ s.fs.ntasks → s'.procs u = s.procs u := by
    intro u hu
    rw [hs']
    exact s.taskAlloc_procs cpu k hu
  have hinit : s'.initTask = i := by rw [hs']
  have hcase : ∀ (P : TaskId → Process → Prop), P s.fs.ntasks k → (∀ u, P u (s.procs u)) → ∀ u, P u (s'.procs u) := by
    intro P hk hP u
    by_cases hun : u = s.fs.ntasks
    · rw [hun, hself]
      exact hk
    · rw [hold u hun]
      exact hP u
  have hparent : ∀ u q, (s'.procs u).parent = some q → (s.procs u).parent = some q :=
    hcase (fun u k => ∀ q, k.parent = some q → (s.procs u).parent = some q) (by simp [hp]) fun _ _ => id
  refine ⟨fun q u hq => ?_, hcase (fun _ k => k.children.Nodup) (by simp [hc]) h.nodup, fun u q hq => ?_, ?_,
    fun j hj => ?_, ?_, fun u hq => h.self u (hparent u u hq)⟩
  · have hq : u ∈ (s.procs q).children :=
      hcase (fun q k => u ∈ k.children → u ∈ (s.procs q).children) (by simp [hc]) (fun _ => id) q hq
    have hup := h.child q u hq
    rw [hold u (h.objs u (h.parent u q hup).1).ne]
    exact hup
  · rw [hobjs, hn]
    have hq := h.parent u q (hparent u q hq)
    exact ⟨mem_cons_of_mem _ hq.1, Nat.lt_succ_of_lt hq.2⟩
  · rw [hn]
    exact hcase (fun _ k => ∀ q, k.vforkParent = some q → q < s.fs.ntasks + 1) (by simp [hv]) fun u q hq =>
      Nat.lt_succ_of_lt (h.vforkParent u q hq)
  · rw [hinit] at hj
    rw [hn]
    rcases hi with rfl | rfl
    · obtain ⟨hlt, hnone⟩ := h.initTask j hj
      exact ⟨Nat.lt_succ_of_lt hlt, (congrArg Process.parent (hold j hlt.ne)).trans hnone⟩
    · cases hj
      exact ⟨Nat.lt_succ_self _, (congrArg Process.parent hself).trans hp⟩
  · rw [hinit]
    refine hcase (fun _ k => k.isUser → i ≠ none) hu fun u hu' => ?_
    rcases hi with rfl | rfl
    · exact h.first u hu'
    · exact some_ne_none _

theorem Base.alloc (h : Base s) (hp : k.parent = none) (hc : k.children = []) (hv : k.vforkParent = none)
    {i : Option TaskId} (hi : i = s.initTask ∨ i = some s.fs.ntasks) (hu : k.isUser → i ≠ none) :
    Base { (s.taskAlloc cpu k).schedAddTask cpu s.fs.ntasks with initTask := i } := by
  obtain ⟨rq, sl, hr⟩ := h.rest
  obtain ⟨rq', hr'⟩ := addTask_rest hr h.notMem
  have hadds := addTask_adds s.sched cpu s.fs.ntasks
  have hobjs : ((s.taskAlloc cpu k).schedAddTask cpu s.fs.ntasks).sched.objs = s.fs.ntasks :: s.sched.objs := hadds.objs
  refine ⟨h.allocTree hp hc hv hi hu rfl, ⟨rq', sl, hr'⟩, fun u hu => ?_, fun u hlt hu => ?_⟩
  · rcases mem_cons.1 (hobjs ▸ hu) with rfl | hu
    · exact Nat.lt_succ_self _
    · exact Nat.lt_succ_of_lt (h.objs u hu)
  · have hu : u ≠ s.fs.ntasks ∧ u ∉ s.sched.objs := by simpa [hobjs] using hu
    have he := h.ended u (lt_of_le_of_ne (Nat.le_of_lt_succ hlt) hu.1) hu.2
    exact (congrArg TaskState.Ended (hadds.ended u hu.1 he)).mpr he

theorem Kernel.startChild_eq (s : Kernel κ) (cpu : κ) (t p : TaskId) : s.startChild cpu t p =
    { (s.schedAddTask cpu t).taskAddChild t p with fs := Fs.fdTableClone s.fs t p } := by
  simp only [startChild, taskAddChild, setProc, schedAddTask]

theorem Base.child_born (k : Process) (h : Base s) (hp : k.parent = none) (hc : k.children = [])
    (hv : k.vforkParent = none) (hi : s.initTask ≠ none) (hq : q ∈ s.sched.objs)
    (hown : Fs.Own s.fs.ntasks (s.taskAlloc cpu k).fs fs)
    (hs' : s' = { ((s.taskAlloc cpu k).schedAddTask cpu s.fs.ntasks).taskAddChild s.fs.ntasks q with fs }) :
    Base s' ∧ Born s s' k.space ∧ s'.sched.shape.current = s.sched.shape.current ∧
      s'.sched.shape.idle = s.sched.shape.idle := by
  have hcur := addTask_current s.sched cpu s.fs.ntasks
  have hadds := addTask_adds s.sched cpu s.fs.ntasks
  let s1 := (s.taskAlloc cpu k).schedAddTask cpu s.fs.ntasks
  let s2 := s1.taskAddChild s.fs.ntasks q
  have haside : Aside s1 s2 := .taskAddChild ..
  have hqn : q < s.fs.ntasks := h.objs q hq
  have h1 : Base s1 := h.alloc hp hc hv (.inl rfl) fun _ => hi
  have hmem : s.fs.ntasks ∈ s1.sched.objs := by
    show s.fs.ntasks ∈ s1.sched.shape.objs
    rw [show s1.sched.shape.objs = _ from hadds.objs]
    exact mem_cons_self
  have hself : s1.procs s.fs.ntasks = k := s.taskAlloc_self cpu k
  have h2 : Base s2 := h1.taskAddChild hmem (hself.symm ▸ hp) (Nat.lt_succ_of_lt hqn) hqn.ne' fun hi' =>
    (h.initTask _ hi').1.ne rfl
  subst hs'
  refine ⟨h2.congr rfl hown.ntasks rfl (fun _ => rfl) (fun _ => rfl) (fun _ => rfl) h2.vforkParent,
    ⟨hadds, fun u hu => ?_, ⟨fun u hu => ?_, rfl, rfl⟩, ?_⟩, hcur⟩
  · exact (hown.tasks u hu).trans (update_of_ne hu ..)
  · refine (haside.space u).trans ?_
    exact congrArg Process.space (s.taskAlloc_procs cpu k fun e => hu (congrArg some e))
  · exact (haside.space _).trans (congrArg Process.space hself)

end Alloc

/-! ### The scheduler runs -/

variable [DecidableEq κ] in
theorem Kernel.withSched_eq {sched : SchedState κ TaskId} (h : sched.objs = s.sched.objs) :
    s.withSched sched = { s with sched } := by
  have hnil : s.sched.objs.filter (· ∉ sched.objs) = [] := by
    rw [h]
    simp
  rw [withSched, hnil]
  rfl

variable [DecidableEq κ] in
theorem Base.sched (h : Base s) {e : SchedEvent κ TaskId} (he : s.sched.Enabled e) (hk : e.keeps)
    (hs : (s.sched.call e).map s.withSched = some s') :
    Base s' ∧ ∃ sched, s' = { s with sched } ∧ Keeps s.sched.shape sched.shape := by
  obtain ⟨rq, sl, hr⟩ := h.rest
  obtain ⟨sched, rq', sl', hcall, hr'⟩ := call_rest hr he
  have hkeeps := call_keeps hr he hcall hk
  have hs' : s' = { s with sched } := by
    rw [hcall] at hs
    exact (some.inj hs).symm.trans (withSched_eq hkeeps.objs)
  exact ⟨hs' ▸ h.keeps ⟨rq', sl', hr'⟩ hkeeps, sched, hs', hkeeps⟩

section

variable (h : Base s)
include h

theorem Base.setFs (hn : fs.ntasks = s.fs.ntasks) (n : Nat) (d : SpaceId → Nat) :
    Base { s with fs, nspaces := n, destroys := d } :=
  h.congr rfl hn rfl (fun _ => rfl) (fun _ => rfl) (fun _ => rfl) h.vforkParent

theorem Base.spaces (n : Nat) (d : SpaceId → Nat) : Base { s with nspaces := n, destroys := d } := h.setFs rfl n d

theorem Base.spoil : Base s.spoilAddressSpace ∧ Effect s s.spoilAddressSpace none none :=
  ⟨h.spaces _ _, .spoil ⟨.refl, fun _ _ => rfl⟩ ⟨fun _ _ => rfl, rfl, rfl⟩⟩

section

variable (hu : s.User c)
include hu

theorem Base.user_mem : s.current c ∈ s.sched.objs ∧ s.initTask ≠ none :=
  ⟨(h.current_mem hu.1).1, h.first _ hu.2⟩

theorem Base.file {e : Fs.Event} (ht : e.task = s.current c) (hc : e.isCall)
    (hs : Fs.call s.fs e = some fs) :
    Base { s with fs } ∧ Effect s { s with fs } none none := by
  have hown := Fs.call_own hs hc
  rw [ht] at hown
  refine ⟨h.setFs hown.ntasks _ _, .quiet ⟨.refl, fun t he => hown.tasks t ?_⟩ ⟨fun _ _ => rfl, rfl, rfl⟩⟩
  rintro rfl
  exact (h.current_mem hu.1).2 he

theorem Base.create (cpu : κ) (m : Kernel.Alloc) {r : Option TaskId × Kernel κ}
    (hr : r = s.cloneProcess cpu m ∨ r = s.cloneThread cpu (s.current c) m) :
    (r.1 = none ∧ Base r.2 ∧ Effect s r.2 none none) ∨
    ∃ s0 tid cr3 owns, r = (some s0.fs.ntasks, s0.taskAlloc cpu (.new tid true cr3 owns)) ∧ Base s0 ∧
      s0.sched = s.sched ∧ s0.initTask ≠ none ∧ ∀ s', Born s0 s' (true, cr3, owns) → Effect s s' none none := by
  obtain ⟨hp, hi⟩ := h.user_mem hu
  rcases hr with rfl | rfl
  · cases m with
    | noSpace => exact .inl ⟨rfl, h.still⟩
    | noCopy | noTask => exact .inl ⟨rfl, h.spoil⟩
    | ok tid =>
      have hi1 : s.vmmCreateAddressSpace.2.initTask ≠ none := hi
      refine .inr ⟨s.vmmCreateAddressSpace.2, tid, some s.nspaces, true, ?_, h.spaces _ _, rfl, hi, fun _ => .process⟩
      simp only [cloneProcess]
      rw [taskCreateUser_eq _ _ _ _ _ hi1]
      rfl
  · cases m with
    | noSpace | noCopy | noTask => exact .inl ⟨rfl, h.still⟩
    | ok tid =>
      refine .inr ⟨s, tid, (s.procs (s.current c)).cr3, false, ?_, h, rfl, hi, fun _ => .thread _ hp⟩
      simp only [cloneThread]
      rw [taskCreateUser_eq _ _ _ _ _ hi]

variable [DecidableEq κ]

theorem Base.sysFork (m : Kernel.Alloc) :
    Base (s.sysFork c m) ∧ Effect s (s.sysFork c m) none none := by
  obtain ⟨hp, -⟩ := h.user_mem hu
  rw [Kernel.sysFork]
  generalize hr : s.cloneProcess _ m = r
  rcases h.create hu _ m (.inl hr.symm) with ⟨hnone, hb, he⟩ | ⟨s0, tid, cr3, owns, rfl, h0, hsched, hi0, heff⟩
  · obtain ⟨o, s1⟩ := r
    cases hnone
    exact ⟨hb, he⟩
  · dsimp only
    rw [Kernel.startChild_eq]
    obtain ⟨hb, hborn, -⟩ := h0.child_born (.new tid true cr3 owns) rfl rfl rfl hi0 (hsched ▸ hp)
      (Fs.Own.refl.fdTableClone _) rfl
    exact ⟨hb, heff _ hborn⟩

theorem Base.sysClone {flags : CloneFlags} {cpu : κ} {m : Kernel.Alloc}
    (hs : s.sysClone c flags cpu m = some s') : Base s' ∧ Effect s s' none none := by
  obtain ⟨hp, -⟩ := h.user_mem hu
  rw [Kernel.sysClone] at hs
  split at hs
  · cases hs
    exact h.still
  dsimp only at hs
  generalize hcpu : (if flags.vfork then (s.sched.tasks (s.current c)).cpuId else cpu) = cpu' at hs
  generalize hr : (if flags.vm then s.cloneThread cpu' (s.current c) m else s.cloneProcess cpu' m) = r at hs
  have hr' : r = s.cloneProcess cpu' m ∨ r = s.cloneThread cpu' (s.current c) m := by
    split at hr
    · exact .inr hr.symm
    · exact .inl hr.symm
  rcases h.create hu cpu' m hr' with ⟨hnone, hb, he⟩ | ⟨s0, tid, cr3, owns, rfl, h0, hsched, hi0, heff⟩
  · obtain ⟨o, s1⟩ := r
    cases hnone
    cases hs
    exact ⟨hb, he⟩
  dsimp only at hs
  have hset : ∃ k : Process, k.parent = none ∧ k.children = [] ∧ k.vforkParent = none ∧ k.space = (true, cr3, owns) ∧
      (if flags.thread then (s0.taskAlloc cpu' (.new tid true cr3 owns)).setProc s0.fs.ntasks fun k =>
        { k with pid := ((s0.taskAlloc cpu' (.new tid true cr3 owns)).procs (s.current c)).pid }
      else s0.taskAlloc cpu' (.new tid true cr3 owns)) = s0.taskAlloc cpu' k := by
    split
    · exact ⟨_, rfl, rfl, rfl, rfl, Kernel.taskAlloc_setProc ..⟩
    · exact ⟨_, rfl, rfl, rfl, rfl, rfl⟩
  obtain ⟨k, hkp, hkc, hkv, hks, hk⟩ := hset
  rw [hk, Kernel.startChild_eq] at hs
  generalize hs2 : ({ ((s0.taskAlloc cpu' k).schedAddTask cpu' s0.fs.ntasks).taskAddChild s0.fs.ntasks
    (s.current c) with fs := Fs.fdTableClone (s0.taskAlloc cpu' k).fs s0.fs.ntasks (s.current c) } : Kernel κ) = s2
    at hs
  obtain ⟨h2, hborn, hcur, hidle⟩ := h0.child_born k hkp hkc hkv hi0 (hsched ▸ hp) (Fs.Own.refl.fdTableClone _) hs2.symm
  rw [hks] at hborn
  split at hs
  · have h3 : Base (s2.setProc s0.fs.ntasks fun k => { k with vforkParent := some (s.current c) }) := by
      refine h2.setProc (fun _ => rfl) (fun _ => rfl) (fun _ => rfl) fun k p hp' => .inr ?_
      cases hp'
      exact h2.objs _ (by
        show s.current c ∈ s2.sched.shape.objs
        rw [hborn.adds.objs]
        exact mem_cons_of_mem _ (hsched ▸ hp))
    have hbusy : s2.sched.shape.current c ≠ s2.sched.shape.idle c := by
      rw [hcur, hidle, hsched]
      exact hu.1
    obtain ⟨hb, sched, rfl, hkeeps⟩ := h3.sched (e := .block c) hbusy rfl hs
    have haside : Aside s2 (s2.setProc s0.fs.ntasks fun k => { k with vforkParent := some (s.current c) }) :=
      .setProc _ fun _ => ⟨rfl, rfl⟩
    exact ⟨hb, heff _ (hborn.trans hkeeps rfl ⟨fun u _ => haside.space u, rfl, rfl⟩)⟩
  · cases hs
    exact ⟨h2, heff _ hborn⟩

end

variable [DecidableEq κ]

theorem Base.schedSpawn (cpu : κ) (tid : Nat) :
    Base (s.schedSpawn cpu tid) ∧ Effect s (s.schedSpawn cpu tid) none none := by
  refine ⟨h.alloc rfl rfl rfl (.inl rfl) nofun, .kthread ⟨addTask_adds .., fun t ht => ?_, ?_, ?_⟩⟩
  · exact update_of_ne ht ..
  · exact ⟨fun u hu => congrArg Process.space (s.taskAlloc_procs cpu _ fun e => hu (congrArg some e)), rfl, rfl⟩
  · exact congrArg Process.space (s.taskAlloc_self cpu _)

theorem Base.launcherExecPath (hi : s.initTask = none) (cpu : κ) (i : Kernel.Image) :
    Base (s.launcherExecPath cpu i) ∧ Effect s (s.launcherExecPath cpu i) none none := by
  cases i with
  | unread => exact h.still
  | bad => exact h.spoil
  | loaded tty mem =>
    let s1 := s.vmmCreateAddressSpace.2
    let s2 := s1.taskAlloc cpu (.new 1 true (some s.nspaces) true)
    have hcreate : s1.taskCreateUser cpu (some s.vmmCreateAddressSpace.1) 1 true =
        (s1.fs.ntasks, { s2 with initTask := some s1.fs.ntasks }) := by
      have hi2 : s2.initTask = none := hi
      simp only [Kernel.taskCreateUser]
      rw [if_pos ⟨trivial, hi2⟩]
      rfl
    have hfs : ∃ fs, Fs.Own s1.fs.ntasks s2.fs fs ∧ s.launcherExecPath cpu (.loaded tty mem) =
        { s2.schedAddTask cpu s1.fs.ntasks with initTask := some s1.fs.ntasks, fs } := by
      simp only [Kernel.launcherExecPath]
      rw [hcreate]
      cases tty with
      | none => exact ⟨s2.fs, .refl, rfl⟩
      | some v => exact ⟨Fs.fdSetupStdio s2.fs s1.fs.ntasks v.1 v.2 mem, Fs.Own.refl.setupStdioLoop _, rfl⟩
    obtain ⟨fs, hown, hs'⟩ := hfs
    have h2 : Base { s2.schedAddTask cpu s1.fs.ntasks with initTask := some s1.fs.ntasks } :=
      (h.spaces _ _).alloc rfl rfl rfl (.inr rfl) fun _ => some_ne_none _
    rw [hs']
    refine ⟨h2.setFs hown.ntasks _ _, .process ⟨addTask_adds .., fun t ht => ?_, ⟨fun u hu => ?_, rfl, rfl⟩, ?_⟩⟩
    · exact (hown.tasks t ht).trans (update_of_ne ht ..)
    · exact congrArg Process.space (s1.taskAlloc_procs cpu _ fun e => hu (congrArg some e))
    · exact congrArg Process.space (s1.taskAlloc_self cpu _)

end

def Process.drop (k : Process) (d : SpaceId → Nat) : SpaceId → Nat :=
  match k.cr3 with
  | some σ => if k.ownsAddressSpace then Function.update d σ (d σ + 1) else d
  | none => d

theorem Kernel.dropAddressSpace_eq (s : Kernel κ) (k : Process) :
    s.dropAddressSpace k = { s with destroys := k.drop s.destroys } := by
  cases hk : k.cr3 with
  | none => simp [dropAddressSpace, Process.drop, hk]
  | some σ =>
    simp only [dropAddressSpace, Process.drop, hk]
    split <;> rfl

theorem Process.drop_congr {k k' : Process} (h : k.space = k'.space) : k.drop = k'.drop := by
  simp only [Process.space, Prod.mk.injEq] at h
  funext d
  rw [Process.drop, Process.drop, h.2.1, h.2.2]

theorem Base.destroy (h : Base s) (ht : t ∈ s.sched.objs) (hst : s.sched.state t = .zombie)
    (hp : (s.procs t).parent = none) : Base { s with sched := s.sched.taskDestroy t } := by
  obtain ⟨rq, sl, hr⟩ := h.rest
  refine ⟨{ h.toTree with parent := fun u p hu => ⟨?_, (h.parent u p hu).2⟩ },
    ⟨rq, sl, taskDestroy_rest hr ht hst⟩, fun u hu => h.objs u (mem_of_mem_erase hu),
    fun u hlt hu => ?_⟩
  · have hut : u ≠ t := by
      rintro rfl
      cases hp.symm.trans hu
    exact (mem_erase_of_ne hut).2 (h.parent u p hu).1
  · by_cases hut : u = t
    · subst hut
      exact .inl hst
    · exact h.ended u hlt fun hm => hu ((mem_erase_of_ne hut).2 hm)

variable [DecidableEq κ]

theorem Base.sysExecve (h : Base s) (hu : s.User c) (tty : Option (Fs.Vnode × Bool)) (mem : Nat → Bool) :
    Base (s.sysExecve c (.loaded tty mem)) ∧ Effect s (s.sysExecve c (.loaded tty mem)) none (some (s.current c)) := by
  obtain ⟨hcur, hlive⟩ := h.current_mem hu.1
  have hown : Fs.Own (s.current c) s.fs (Fs.sysExecve s.fs (s.current c) tty mem) := Fs.Own.refl.sysExecve tty mem
  simp only [Kernel.sysExecve]
  rw [Kernel.dropAddressSpace_eq]
  generalize hfs : Fs.sysExecve _ _ tty mem = fs
  have hfs' : Fs.sysExecve s.fs (s.current c) tty mem = fs := hfs
  rw [hfs'] at hown
  let s1 : Kernel κ :=
    { s with
      nspaces := s.nspaces + 1
      destroys := (s.procs (s.current c)).drop (update s.destroys s.nspaces 0) }
  let s2 := s1.setProc (s.current c) fun k => { k with cr3 := some s.nspaces }
  let s3 := s2.setProc (s.current c) fun k => { k with ownsAddressSpace := true }
  let s4 : Kernel κ := { s3 with fs }
  have h1 : Base s1 := h.spaces _ _
  have h2 : Base s2 := h1.setProc (fun _ => rfl) (fun _ => rfl) (fun _ => rfl) fun _ _ => .inl
  have h3 : Base s3 := h2.setProc (fun _ => rfl) (fun _ => rfl) (fun _ => rfl) fun _ _ => .inl
  have h4 : Base s4 := h3.setFs hown.ntasks _ _
  have hother : ∀ u, u ≠ s.current c → s4.procs u = s.procs u := by
    intro u hne
    rw [Kernel.setProc_procs, if_neg hne, Kernel.setProc_procs, if_neg hne]
  have hself : (s4.procs (s.current c)).space = (true, some s.nspaces, true) := by
    rw [Kernel.setProc_procs, if_pos rfl, Kernel.setProc_procs, if_pos rfl]
    exact congrArg (fun b => (b, _, _)) hu.2
  let s5 := (s4.unblockIf (s4.procs (s.current c)).vforkParent).setProc (s.current c) fun k =>
    { k with vforkParent := none }
  have haside : Aside s4 s5 := (Aside.unblockIf _).trans (.setProc _ fun _ => ⟨rfl, rfl⟩)
  have hsp : SpacesBut (some (s.current c)) (s.vmmCreateAddressSpace.2.dropAddressSpace (s.procs (s.current c)))
      s5 := by
    rw [Kernel.dropAddressSpace_eq]
    refine ⟨fun u hne => ?_, haside.nspaces, haside.destroys⟩
    exact (haside.space u).trans (congrArg Process.space (hother u fun e => hne (congrArg some e)))
  show Base s5 ∧ Effect s s5 none (some (s.current c))
  refine ⟨(h4.unblockIf (h4.vforkParent _)).setProc (fun _ => rfl) (fun _ => rfl) (fun _ => rfl) nofun,
    .execs _ hcur hu.2 ⟨haside.keeps, fun t ht => ?_⟩ hsp ((haside.space _).trans hself)⟩
  rw [haside.fs]
  refine hown.tasks t ?_
  rintro rfl
  exact hlive ht

theorem Kernel.taskDestroy_eq (s : Kernel κ) (hp : ((s.orphan t).procs t).parent = none) :
    ∃ fs : Fs.Kernel, (∀ u, u ≠ t → fs.tasks u = (s.orphan t).fs.tasks u) ∧ fs.ntasks = (s.orphan t).fs.ntasks ∧
      s.taskDestroy t = { s.orphan t with
          fs
          destroys := if ((s.orphan t).procs t).isUser then ((s.orphan t).procs t).drop (s.orphan t).destroys
            else (s.orphan t).destroys
          sched := (s.orphan t).sched.taskDestroy t } := by
  obtain ⟨fs, hfs, htab, hn⟩ := Fs.destroy_own (s.orphan t).fs t
  refine ⟨fs, htab, hn, ?_⟩
  rw [taskDestroy]
  generalize s.orphan t = s at *
  simp only [hp, hfs]
  split
  · rw [dropAddressSpace_eq]
  · rfl

theorem Base.sysWait4 (h : Base s) (ht : t ∈ (s.procs (s.current c)).children) (hst : s.sched.state t = .zombie) :
    Base (s.sysWait4 c t) ∧ Effect s (s.sysWait4 c t) none (some t) := by
  have hpar := h.child _ t ht
  let s1 := s.taskRemoveChild t (s.current c)
  let s2 := s1.orphan t
  have h1 : Base s1 := h.taskRemoveChild hpar
  have h2 : Base s2 := h1.orphan
  have haside : Aside s s2 := (Aside.taskRemoveChild ..).trans .orphan
  have hnone : (s2.procs t).parent = none := by
    rw [h1.orphan_parent, (s.taskRemoveChild_procs t (s.current c) t).1, if_pos rfl]
  have hmem : t ∈ s.sched.objs := (h.parent t _ hpar).1
  have hobjs : s2.sched.objs = s.sched.objs := haside.objs
  have hst2 : s2.sched.state t = .zombie := (haside.keeps.ended t (.inl hst)).trans hst
  obtain ⟨fs, htab, hn, hs'⟩ := s1.taskDestroy_eq hnone
  rw [Kernel.sysWait4, hs']
  constructor
  · have h3 := h2.destroy (hobjs ▸ hmem) hst2 hnone
    exact h3.setFs hn _ _
  · refine .reaps t hmem (congrArg (List.erase · t) hobjs) (fun u hu => ?_) (fun u hu => ?_) ?_
    · by_cases he : (s.sched.state u).Ended
      · exact haside.keeps.ended u he
      · exact absurd hu (haside.keeps.alive u he)
    · exact (htab u hu).trans (by rw [haside.fs])
    · have hdrop : (s2.procs t).drop = (s.procs t).drop := Process.drop_congr (haside.space t)
      rw [hdrop, haside.isUser t, haside.destroys]
      split
      · rw [Kernel.dropAddressSpace_eq]
        exact ⟨fun u _ => haside.space u, haside.nspaces, rfl⟩
      · exact ⟨fun u _ => haside.space u, haside.nspaces, rfl⟩

/-! ### The end of a task -/

omit [DecidableEq κ] in
theorem Effect.of_aside {st : TaskState} (ha : Aside s s') (h : Effect s' s'' (some (t, st)) none) :
    Effect s s'' (some (t, st)) none := by
  cases h with
  | dies _ _ ht hst he hfs hsp =>
    refine .dies t st (ha.objs ▸ ht) hst ⟨he.objs.trans ha.keeps.objs, he.self, fun x hx hx' => ?_, fun x hx hx' => ?_⟩
      (hfs.trans ha.fs) ⟨fun u hu => (hsp.space u hu).trans (ha.space u), hsp.nspaces.trans ha.nspaces,
        hsp.destroys.trans ha.destroys⟩
    · have hst := ha.keeps.ended x hx'
      exact (he.ended x hx (hst.symm ▸ hx')).trans hst
    · exact he.alive x hx (ha.keeps.alive x hx')

theorem Base.exit_effect (h : Base s) (hc : s.current c ≠ (s.sched.cpus c).idle) {parent : Option TaskId}
    {thread : Bool} (hp : ∀ p, parent = some p → p < s.fs.ntasks)
    (hs : (s.sched.schedTaskExit c parent thread).map s.withSched = some s') :
    Base s' ∧ Effect s s' (some (s.current c, SchedState.exitState parent thread)) none := by
  obtain ⟨rq, sl, hr⟩ := h.rest
  have hp' : ∀ p ∈ parent, s.sched.state p = .blocked → p ∈ s.sched.objs := fun p hm => h.mem_of_blocked (hp p hm)
  obtain ⟨sched, rq', sl', hcall, hr'⟩ := schedTaskExit_rest hr hc hp' thread
  have hends := schedTaskExit_ends hr hc hp' hcall
  obtain rfl : s' = { s with sched } := by
    rw [hcall] at hs
    exact (some.inj hs).symm.trans (withSched_eq hends.objs)
  refine ⟨h.resched ⟨rq', sl', hr'⟩ hends.objs fun t ht => hends.ended t ?_,
    .dies _ _ (h.current_mem hc).1 (exitState_ended ..) hends rfl ⟨fun _ _ => rfl, rfl, rfl⟩⟩
  rintro rfl
  exact ht (h.current_mem hc).1

omit [DecidableEq κ] in
theorem Kernel.isThread_congr (hp : (s'.procs t).parent = (s.procs t).parent)
    (hpid : ∀ u, (s'.procs u).pid = (s.procs u).pid) : s'.isThread t = s.isThread t := by
  simp only [isThread, hp, hpid]

theorem Base.schedTaskExit (h : Base s) (hc : s.current c ≠ (s.sched.cpus c).idle)
    (hs : s.schedTaskExit c = some s') : Base s' ∧ Effect s s'
      (some (s.current c, SchedState.exitState (s.procs (s.current c)).parent (s.isThread (s.current c)))) none := by
  have ha : Aside s (s.orphan (s.current c)) := .orphan
  have hcur : (s.orphan (s.current c)).current c = s.current c := congrFun ha.current c
  have hpar := h.orphan_parent (t := s.current c)
  obtain ⟨hb, he⟩ := h.orphan.exit_effect (ha.busy hc) (fun p hp => (h.orphan.parent _ p hp).2) hs
  rw [hcur, hpar, isThread_congr hpar ha.pid] at he
  exact ⟨hb, .of_aside ha he⟩

theorem Base.scExit (h : Base s) (hc : s.current c ≠ (s.sched.cpus c).idle) {woken : Option TaskId}
    (hw : ∀ w ∈ woken, w ∈ s.sched.objs) (hs : s.scExit c woken = some s') : Base s' ∧ Effect s s'
      (some (s.current c, SchedState.exitState (s.procs (s.current c)).parent (s.isThread (s.current c)))) none := by
  let s1 := s.unblockIf (s.procs (s.current c)).parent
  let s2 := s1.unblockIf (s1.procs (s.current c)).vforkParent
  let s3 := s2.setProc (s.current c) fun k => { k with vforkParent := none }
  let s4 := s3.unblockIf woken
  have ha1 : Aside s s1 := .unblockIf _
  have ha2 : Aside s s2 := ha1.trans (.unblockIf _)
  have ha3 : Aside s s3 := ha2.trans (.setProc _ fun _ => ⟨rfl, rfl⟩)
  have ha : Aside s s4 := ha3.trans (.unblockIf _)
  have h1 : Base s1 := h.unblockIf fun p hp => (h.parent _ p hp).2
  have h2 : Base s2 := h1.unblockIf (h1.vforkParent _)
  have h3 : Base s3 := h2.setProc (fun _ => rfl) (fun _ => rfl) (fun _ => rfl) nofun
  have h4 : Base s4 := h3.unblockIf fun w hw' => by
    rw [ha3.fs]
    exact h.objs w (hw w hw')
  -- the wakes leave the process tree as it is
  have hpar : ∀ u, (s4.procs u).parent = (s.procs u).parent := by
    have hun : ∀ (s : Kernel κ) (o : Option TaskId), (s.unblockIf o).procs = s.procs := by
      rintro s (_ | p) <;> rfl
    intro u
    rw [hun, setProc_procs, hun, hun]
    split <;> rfl
  have hcur : s4.current c = s.current c := congrFun ha.current c
  obtain ⟨hb, he⟩ := h4.schedTaskExit (ha.busy hc) hs
  rw [hcur, hpar, isThread_congr (hpar _) ha.pid] at he
  exact ⟨hb, .of_aside ha he⟩

theorem call_effect {e : ProcEvent κ} (h : Base s) (he : s.Enabled e) (hs : s.call e = some s') :
    Base s' ∧ Effect s s' (s.ends e) (s.releases e) := by
  cases e with
  | sched e =>
    obtain ⟨hb, sched, rfl, hk⟩ := h.sched he.2 he.1 hs
    exact ⟨hb, .quiet ⟨hk, fun _ _ => rfl⟩ ⟨fun _ _ => rfl, rfl, rfl⟩⟩
  | file c e =>
    obtain ⟨fs, hfs, rfl⟩ := map_eq_some_iff.1 hs
    exact h.file he.1 he.2.1 he.2.2 hfs
  | fork c m =>
    cases hs
    exact h.sysFork he m
  | clone c flags cpu m => exact h.sysClone he hs
  | execve c i =>
    cases hs
    cases i with
    | unread => exact h.still
    | bad => exact h.spoil
    | loaded tty mem => exact h.sysExecve he tty mem
  | exit c woken => exact h.scExit he.1.1 he.2 hs
  | die c how =>
    cases how with
    | signal => exact h.exit_effect he.1 (fun p hp => (h.parent _ p hp).2) hs
    | atOnce =>
      refine h.exit_effect he (fun p hp => ?_) hs
      cases hp
  | wait c t =>
    cases hs
    exact h.sysWait4 he.2.1 he.2.2
  | returns c => exact h.schedTaskExit he.1 hs
  | spawn cpu tid =>
    cases hs
    exact h.schedSpawn cpu tid
  | launch cpu i =>
    cases hs
    exact h.launcherExecPath he cpu i

omit [DecidableEq κ] in
theorem ProcInit.base (h : ProcInit s) : Base s where
  child p t ht := by simp [(h.procs p).2.1] at ht
  nodup p := by simp [(h.procs p).2.1]
  parent t p ht := by simp [(h.procs t).1] at ht
  vforkParent t p ht := by simp [(h.procs t).2.2.1] at ht
  initTask i hi := by simp [h.initTask] at hi
  first t ht := by simp [(h.procs t).2.2.2.1] at ht
  self t := by simp [(h.procs t).1]
  rest := ⟨_, _, h.sched.rest⟩
  objs t ht := (h.objs t).1 ht
  ended t ht hn := absurd ((h.objs t).2 ht) hn

theorem run_base {s0 : Kernel κ} {es : List (ProcEvent κ)} (h0 : ProcInit s0) (hrun : Run procStep Any s0 es s) :
    Base s := by
  refine hrun.inv (fun s e s' hb _ hs => ?_) h0.base
  obtain ⟨he, hs⟩ := ite_none_right_eq_some.1 hs
  exact (call_effect hb he hs).1

def booted : Kernel (Fin 2) where
  sched := twoCpus
  fs :=
    { files := fun _ => .blank
      nfiles := 0
      tasks := fun _ => .new
      ntasks := 2
      socks := fun _ => .zero
      nsocks := 0 }
  procs t := .new t false none false
  initTask := none
  nspaces := 0
  destroys _ := 0

theorem booted_init : ProcInit booted where
  sched := twoCpus_init
  objs t := by
    have hmem : ∀ n : Nat, n ∈ [0, 1] ↔ n < 2 := by
      intro n
      rw [mem_pair]
      omega
    exact hmem t
  procs t := ⟨rfl, rfl, rfl, rfl, rfl, rfl⟩
  initTask := rfl
  nspaces := rfl

end ExoOS.Proc
