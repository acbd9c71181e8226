import ExoOS.Proc.Effects

/-!
# What a task leaves behind when it ends

Neither `exit` nor a fatal signal closes files: a zombie holds its descriptors until its parent waits for it. And a
task that ends as `TASK_DEAD` is off the run queues by then, so that the tick that looks for dead tasks there does not
find it and it is never destroyed. So a task leaves nothing behind exactly when it has closed its files before it
ends, and ends as a zombie (`termination_releases`).
-/

namespace ExoOS.Proc

open Links Sched Shape Transition

variable {κ : Type} {s s' : Kernel κ} {t : TaskId}

def OnRunQueue (s : SchedState κ TaskId) (t : TaskId) : Prop :=
  ∃ c l, Chain s.next (s.cpus c).rqHead l ∧ t ∈ l

def Closed (s : Kernel κ) (t : TaskId) : Prop := ∀ i, i < Fs.FD_TABLE_SIZE → s.fs.slot t i = none

/-- Of the tasks that no CPU runs, a user task that has ended holds no open file, and one that is dead is where the
tick finds it. -/
structure Released (s : Kernel κ) : Prop where
  files : ∀ t ∈ s.sched.objs, (s.procs t).isUser → (s.sched.state t).Ended → (∀ c, s.current c ≠ t) → Closed s t
  dead : ∀ t ∈ s.sched.objs, s.sched.state t = .dead → (∀ c, s.current c ≠ t) → OnRunQueue s.sched t

/-- A task that ends has closed its files and ends as a zombie. -/
def Tidy (s : Kernel κ) (e : ProcEvent κ) : Prop :=
  ∀ x ∈ s.ends e, x.2 = .zombie ∧ ((s.procs x.1).isUser → Closed s x.1)

instance decidableTidy (s : Kernel κ) (e : ProcEvent κ) : Decidable (Tidy s e) :=
  inferInstanceAs (Decidable (∀ x ∈ s.ends e, x.2 = .zombie ∧
    ((s.procs x.1).isUser → ∀ i, i < Fs.FD_TABLE_SIZE → s.fs.slot x.1 i = none)))

/-- `Released`, once the scheduler is at rest: no task that has ended is current or queued. -/
def Clean (s : Kernel κ) : Prop :=
  ∀ t ∈ s.sched.objs, (s.sched.state t).Ended → s.sched.state t = .zombie ∧ ((s.procs t).isUser → Closed s t)

theorem Base.not_current (h : Base s) (he : (s.sched.state t).Ended) (c : κ) : s.current c ≠ t := by
  obtain ⟨rq, sl, hr⟩ := h.rest
  rintro rfl
  rcases hr.busy c with hidle | hrun
  · have hst : s.sched.state (s.current c) = .runnable ∨ s.sched.state (s.current c) = .running := by
      have hst := (hr.idle c).2.2
      rwa [← hidle] at hst
    rcases hst with hst | hst <;> rcases he with he | he <;> cases he.symm.trans hst
  · rcases he with he | he <;> cases he.symm.trans hrun

theorem Base.not_onRunQueue (h : Base s) (hd : s.sched.state t = .dead) : ¬ OnRunQueue s.sched t := by
  obtain ⟨rq, sl, hr⟩ := h.rest
  rintro ⟨c, l, hl, ht⟩
  rw [hl.unique (hr.rq_lists.chain c)] at ht
  cases hd.symm.trans ((hr.mem_rq c t).1 ht).2.2.1

theorem Base.released_iff (h : Base s) : Released s ↔ Clean s := by
  constructor
  · intro hrel t ht he
    have hcur := h.not_current he
    refine ⟨he.resolve_right fun hd => ?_, fun hu => hrel.files t ht hu he hcur⟩
    exact h.not_onRunQueue hd (hrel.dead t ht hd hcur)
  · intro hcl
    refine ⟨fun t ht hu he _ => (hcl t ht he).2 hu, fun t ht hd _ => ?_⟩
    cases hd.symm.trans (hcl t ht (.inr hd)).1

theorem Clean.of_ended (h : Clean s) (hold : ∀ t ∈ s'.sched.objs, (s'.sched.state t).Ended → t ∈ s.sched.objs ∧
    s'.sched.state t = s.sched.state t ∧ s'.fs.tasks t = s.fs.tasks t ∧
    (s'.procs t).isUser = (s.procs t).isUser) : Clean s' := by
  intro t ht he
  obtain ⟨ht, hst, htab, hu⟩ := hold t ht he
  rw [hst] at he ⊢
  rw [hu]
  refine ⟨(h t ht he).1, fun hu i hi => ?_⟩
  rw [Fs.Kernel.slot, htab]
  exact (h t ht he).2 hu i hi

theorem Stays.clean (h : Stays s s') (hu : ∀ t, (s'.procs t).isUser = (s.procs t).isUser) (hc : Clean s) :
    Clean s' := by
  refine hc.of_ended fun t ht he => ?_
  have hend : (s.sched.state t).Ended := by
    by_contra hn
    exact h.keeps.alive t hn he
  have hobjs : s'.sched.objs = s.sched.objs := h.keeps.objs
  exact ⟨hobjs ▸ ht, h.keeps.ended t hend, h.tasks t hend, hu t⟩

theorem Born.clean {space : Bool × Option SpaceId × Bool} (h : Born s s' space) (hc : Clean s) : Clean s' := by
  refine hc.of_ended fun t ht he => ?_
  have hne : t ≠ s.fs.ntasks := by
    rintro rfl
    exact h.adds.self he
  have hend : (s.sched.state t).Ended := by
    by_contra hn
    exact h.adds.alive t hne hn he
  have hobjs : s'.sched.objs = s.fs.ntasks :: s.sched.objs := h.adds.objs
  rw [hobjs] at ht
  refine ⟨(List.mem_cons.1 ht).resolve_left hne, h.adds.ended t hne hend, h.tasks t hne, ?_⟩
  exact congrArg Prod.fst (h.spaces.space t fun e => hne (Option.some.inj e))

theorem Effect.clean {o : Option (TaskId × TaskState)} {r : Option TaskId} (h : Effect s s' o r) (hb : Base s)
    (hc : Clean s) : Clean s' ↔ ∀ x ∈ o, x.2 = .zombie ∧ ((s.procs x.1).isUser → Closed s x.1) := by
  cases h with
  | quiet hst hsp | spoil hst hsp =>
    exact iff_of_true (hst.clean (fun t => congrArg Prod.fst (hsp.space t nofun)) hc) nofun
  | thread p hp hb => exact iff_of_true (hb.clean hc) nofun
  | process hb => exact iff_of_true (hb.clean hc) nofun
  | kthread hb => exact iff_of_true (hb.clean hc) nofun
  | execs t ht hu hst hsp hself =>
    refine iff_of_true (hst.clean (fun u => ?_) hc) nofun
    by_cases hut : u = t
    · rw [hut, hu]
      exact congrArg Prod.fst hself
    · have hsp := hsp.space u fun e => hut (Option.some.inj e)
      rw [Kernel.dropAddressSpace_eq] at hsp
      exact congrArg Prod.fst hsp
  | reaps t ht hobjs hst htab hsp =>
    obtain ⟨rq, sl, hr⟩ := hb.rest
    refine iff_of_true (hc.of_ended fun u hu he => ?_) nofun
    rw [hobjs] at hu
    have hut : u ≠ t := by
      rintro rfl
      exact hr.nodup.not_mem_erase hu
    refine ⟨List.mem_of_mem_erase hu, hst u he, htab u hut, ?_⟩
    have hsp := hsp.space u nofun
    split at hsp
    · rw [Kernel.dropAddressSpace_eq] at hsp
      exact congrArg Prod.fst hsp
    · exact congrArg Prod.fst hsp
  | dies t st ht hst he hfs hsp =>
    have hu : ∀ u, (s'.procs u).isUser = (s.procs u).isUser := fun u => congrArg Prod.fst (hsp.space u nofun)
    have hobjs : s'.sched.objs = s.sched.objs := he.objs
    have hself : s'.sched.state t = st := he.self
    have hclosed : ∀ u, Closed s' u ↔ Closed s u := fun u => by rw [Closed, Closed, hfs]
    constructor
    · rintro hcl x ⟨⟩
      have ht' := hcl t (hobjs.symm ▸ ht) (hself.symm ▸ hst)
      rwa [hself, hu, hclosed] at ht'
    · intro htidy u hmem hend
      obtain ⟨hz, hfiles⟩ := htidy _ rfl
      rw [hu, hclosed]
      by_cases hut : u = t
      · rw [hut]
        exact ⟨hself.trans hz, hfiles⟩
      have hend' : (s.sched.state u).Ended := by
        by_contra hn
        exact he.alive u hut hn hend
      have hst' : s'.sched.state u = s.sched.state u := he.ended u hut hend'
      rw [hst']
      exact hc u (hobjs ▸ hmem) hend'

variable [DecidableEq κ]

theorem step_clean {e : ProcEvent κ} (hb : Base s) (hc : Clean s) (hs : procStep s e = some s') :
    Base s' ∧ (Clean s' ↔ Tidy s e) := by
  obtain ⟨he, hs⟩ := Option.ite_none_right_eq_some.1 hs
  obtain ⟨hb', heff⟩ := call_effect hb he hs
  exact ⟨hb', heff.clean hb hc⟩

theorem run_clean {s0 : Kernel κ} {es : List (ProcEvent κ)} (h0 : ProcInit s0) (hrun : Run procStep Tidy s0 es s) :
    Base s ∧ Clean s := by
  have hstep : ∀ (s : Kernel κ) e s', Base s ∧ Clean s → Tidy s e → procStep s e = some s' → Base s' ∧ Clean s' := by
    rintro s e s' ⟨hb, hc⟩ htidy hs
    obtain ⟨hb', hiff⟩ := step_clean hb hc hs
    exact ⟨hb', hiff.2 htidy⟩
  have hinit : Clean s0 := by
    intro t ht he
    obtain ⟨c, rfl⟩ := (h0.sched.objs t).1 ht
    rw [SchedState.state, h0.sched.tasks c] at he
    rcases he with he | he <;> cases he
  exact hrun.inv (I := fun s => Base s ∧ Clean s) hstep ⟨h0.base, hinit⟩

theorem termination_releases {s0 : Kernel κ} {es : List (ProcEvent κ)} (h0 : ProcInit s0)
    (hrun : Run procStep Tidy s0 es s) :
    Released s ∧ ∀ e s', procStep s e = some s' → (Released s' ↔ Tidy s e) := by
  obtain ⟨hb, hc⟩ := run_clean h0 hrun
  refine ⟨hb.released_iff.2 hc, fun e s' hs => ?_⟩
  obtain ⟨hb', hiff⟩ := step_clean hb hc hs
  rw [hb'.released_iff, hiff]

/-- The process of the first user task forks, waits, and finds the child that has exited without open files. -/
theorem termination_releases_wait : ProcInit booted ∧ ∃ s, Run procStep Tidy booted
    [.launch 0 (.loaded none fun _ => true), .sched (.tick 0), .fork 0 (.ok 2), .sched (.block 0), .exit 0 none,
      .wait 0 3] s ∧ s.sched.objs = [2, 0, 1] ∧ Released s := by
  refine ⟨booted_init, exists_run (fun s => s.sched.objs) [2, 0, 1] (by decide +kernel) fun s hrun hobjs => ?_⟩
  exact ⟨hobjs, (termination_releases booted_init hrun).1⟩

/-- The first process opens a pipe and forks; the child exits and becomes a zombie that still holds both ends of the
pipe. Then the first process exits: it is dead, and on no run queue. -/
theorem exit_leaves_files : ProcInit booted ∧ ∃ s, Run procStep Any booted
    [.launch 0 (.loaded none fun _ => true), .sched (.tick 0), .file 0 (.pipe2 2 (fun _ => true) false),
      .fork 0 (.ok 2), .sched (.block 0), .exit 0 none, .exit 0 none] s ∧
    s.sched.state 3 = .zombie ∧ s.fs.slot 3 0 = some 0 ∧ s.fs.slot 3 1 = some 1 ∧
    s.sched.state 2 = .dead ∧ ¬ OnRunQueue s.sched 2 ∧ ¬ Released s := by
  refine ⟨booted_init, exists_run (fun s => ([3, 2].map s.sched.state, s.sched.objs,
    [s.fs.slot 3 0, s.fs.slot 3 1, (s.sched.cpus 0).rqHead, (s.sched.cpus 1).rqHead]))
    ([.zombie, .dead], [3, 2, 0, 1], [some 0, some 1, none, none]) (by decide +kernel) fun s hrun hd => ?_⟩
  simp only [List.map_cons, List.map_nil, Prod.mk.injEq, List.cons.injEq, and_true] at hd
  obtain ⟨⟨hz, hdead⟩, hobjs, h0, h1, hq0, hq1⟩ := hd
  have hqueue : ¬ OnRunQueue s.sched 2 := by
    rintro ⟨c, l, hl, ht⟩
    have hhead : ∀ c, (s.sched.cpus c).rqHead = none := Fin.forall_fin_two.2 ⟨hq0, hq1⟩
    rw [hhead] at hl
    cases l with
    | nil => cases ht
    | cons x l => cases hl.1
  refine ⟨hz, h0, h1, hdead, hqueue, fun hrel => hqueue ?_⟩
  exact hrel.dead 2 (by simp [hobjs]) hdead fun c => (run_base booted_init hrun).not_current (.inr hdead) c

end ExoOS.Proc
