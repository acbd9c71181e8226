import ExoOS.Sched.Queues

/-!
# No task is lost or duplicated

The calls into the scheduler keep the invariant of `Queues.lean`, and with it that a current task is running
(`Rest`). So in every state that the scheduler reaches each task is in the one place its state names
(`Placed`), and every call returns.
-/

namespace ExoOS.Sched

open Function Links List

variable {κ τ : Type}

namespace Shape

variable [DecidableEq κ] [DecidableEq τ] (v : Shape κ τ) (c : κ) (t : τ)

def create : Shape κ τ :=
  { v with
    state := update v.state t .runnable
    cpuId := update v.cpuId t c
    next := update v.next t none
    sleepNext := update v.sleepNext t none
    objs := t :: v.objs }

def sleepOn : Shape κ τ :=
  { v with
    state := update v.state t .sleeping
    sleepNext := update v.sleepNext t (v.sleepHead c)
    sleepHead := update v.sleepHead c (some t) }

def destroy : Shape κ τ := { v with objs := v.objs.erase t }

end Shape

namespace SchedState

variable [DecidableEq τ] (s : SchedState κ τ) (c : κ) (t : τ)

theorem shape_taskCreate : (s.taskCreate c t).shape = s.shape.create c t :=
  congrArg (fun v : Shape κ τ => { v with objs := t :: s.objs }) (shape_modify s t fun _ => .new c)

theorem shape_setState (st : TaskState) :
    (s.modify t fun k => { k with state := st }).shape = s.shape.setState t st := by
  simp [shape_modify, tasks_shape, Shape.setState]

end SchedState

namespace Queues

variable [DecidableEq τ] {held : List τ} {rq sl : κ → List τ} {v : Shape κ τ} {c : κ} {t : τ} {st : TaskState}

section

variable (h : Queues held rq sl v)
include h

theorem create (ht : t ∉ v.objs) : Queues (t :: held) rq sl (v.create c t) := by
  have hat : ∀ st d x, (v.create c t).At (t :: held) st d x ↔ v.At held st d x := by
    intro st d x
    by_cases hx : x = t
    · subst hx
      simp [Shape.At, Shape.Live, ht]
    · simp [Shape.At, Shape.Live, Shape.create, hx]
  have hne : ∀ {x}, x ∈ v.objs → x ≠ t := fun hx => ne_of_mem_of_not_mem hx ht
  have hrq : ∀ d, ∀ x ∈ rq d, update v.next t none x = v.next x := fun d x hx =>
    update_of_ne (hne ((h.mem_rq d x).1 hx).1.1) ..
  have hsl : ∀ d, ∀ x ∈ sl d, update v.sleepNext t none x = v.sleepNext x := fun d x hx =>
    update_of_ne (hne ((h.mem_sl d x).1 hx).1.1) ..
  exact
    { rq_lists := ⟨fun d => (h.rq_lists.chain d).congr (hrq d), h.rq_lists.disjoint⟩
      sl_lists := ⟨fun d => (h.sl_lists.chain d).congr (hsl d), h.sl_lists.disjoint⟩
      len := h.len
      mem_rq := fun d x => (h.mem_rq d x).trans (hat _ d x).symm
      mem_sl := fun d x => (h.mem_sl d x).trans (hat _ d x).symm
      running := fun d x hx => h.running d x ((hat _ d x).1 hx)
      current := fun d => by
        refine (h.current d).imp_right fun hl => ⟨⟨mem_cons_of_mem _ hl.1.1, hl.1.2⟩, ?_⟩
        exact (update_of_ne (hne hl.1.1) ..).trans hl.2
      idle := fun d => by
        obtain ⟨ho, hcpu, hst⟩ := h.idle d
        simpa [Shape.create, hne ho, ho] using ⟨hcpu, hst⟩
      nodup := nodup_cons.2 ⟨ht, h.nodup⟩ }

theorem destroy (ht : v.Live t) (hst : (v.state t).Off)
    (hcur : ∀ c, v.current c ≠ t) : Queues held rq sl (v.destroy t) := by
  have hlive : ∀ x, (v.destroy t).Live x ↔ v.Live x ∧ x ≠ t := by
    intro x
    simp only [Shape.Live, Shape.destroy, h.nodup.mem_erase_iff]
    tauto
  have hat : ∀ st d x, ¬ st.Off → ((v.destroy t).At held st d x ↔ v.At held st d x) := by
    intro st d x hno
    rw [Shape.At, hlive, Shape.At]
    constructor
    · rintro ⟨hl, hx⟩
      exact ⟨hl.1, hx⟩
    · rintro ⟨hl, hx⟩
      refine ⟨⟨hl, ?_⟩, hx⟩
      rintro rfl
      exact hno (hx.2.1 ▸ hst)
  exact
    { h with
      mem_rq := fun d x => (h.mem_rq d x).trans (hat _ d x (by simp [TaskState.Off])).symm
      mem_sl := fun d x => (h.mem_sl d x).trans (hat _ d x (by simp [TaskState.Off])).symm
      running := fun d x hx => h.running d x ((hat _ d x (by simp [TaskState.Off])).1 hx)
      current := fun d => (h.current d).imp_right fun hl => ⟨(hlive _).2 ⟨hl.1, hcur d⟩, hl.2⟩
      idle := fun d => ⟨(h.nodup.mem_erase_iff).2 ⟨(ht.2 d).symm, (h.idle d).1⟩, (h.idle d).2⟩
      nodup := h.nodup.erase t }

theorem stop (hl : v.Live t) (hst : v.state t = .running) (ho : st.Off) :
    Queues held rq sl (v.setState t st) := by
  have h' : Queues (t :: held) rq sl (v.setState t st) :=
    (h.hold (fun _ => by simp [hst]) (fun _ => by simp [hst])).setState mem_cons_self (.inl hl)
  have hst' : (v.setState t st).state t = st := update_self ..
  refine h'.release (fun _ => ?_) (fun _ => ?_) (fun _ => ?_) <;> rw [hst'] <;>
    rcases ho with rfl | rfl | rfl <;> simp

variable [DecidableEq κ]

omit h in
theorem sleepOn (h : Queues (t :: held) rq sl v) (hl : v.Live t) (hc : v.cpuId t = c) (hh : t ∉ held) :
    Queues held rq (update sl c (t :: sl c)) (v.sleepOn c t) := by
  have hnot : ∀ d, t ∉ sl d := fun d hd => by simpa using ((h.mem_sl d t).1 hd).2.1
  have h' : Queues (t :: held) rq sl (v.setState t .sleeping) := h.setState mem_cons_self (.inl hl)
  have hst : (v.setState t .sleeping).state t = .sleeping := update_self ..
  exact
    { h' with
      sl_lists := h.sl_lists.push hnot
      mem_rq := fun d x => (h'.mem_rq d x).trans (Shape.at_cons_of_ne fun _ => by simp [hst])
      mem_sl := Shape.mem_push h'.mem_sl ⟨hl, hh, hst, hc⟩
      running := fun d x hx => h'.running d x ((Shape.at_cons_of_ne fun _ => by simp [hst]).2 hx) }

theorem unblock (hl : v.Live t) (hst : v.state t = .blocked) (hh : t ∉ held) :
    Queues held (update rq (v.cpuId t) (t :: rq (v.cpuId t))) sl ((v.setState t .runnable).enqueue (v.cpuId t) t) := by
  have h' : Queues (t :: held) rq sl (v.setState t .runnable) :=
    (h.hold (fun _ => by simp [hst]) (fun _ => by simp [hst])).setState mem_cons_self (.inl hl)
  exact h'.enqueue ⟨hl, hh, update_self .., rfl⟩

end

end Queues

/-! ### Between calls -/

def Shape.Busy (v : Shape κ τ) (c : κ) : Prop := v.current c = v.idle c ∨ v.state (v.current c) = .running

variable [DecidableEq κ] [DecidableEq τ] in
theorem Shape.busy_enqueue {v : Shape κ τ} {c d : κ} {t : τ} : (v.enqueue c t).Busy d ↔ v.Busy d := by
  rw [Shape.enqueue]
  split <;> rfl

structure Rest (rq sl : κ → List τ) (v : Shape κ τ) : Prop extends Queues [] rq sl v where
  busy : ∀ c, v.Busy c

namespace SchedState

variable [DecidableEq κ] [DecidableEq τ] {s : SchedState κ τ} {rq sl : κ → List τ} {c : κ} {t : τ} {st : TaskState}

theorem schedTick_rest (h : Queues [] rq sl s.shape) (hb : ∀ d, d ≠ c → s.shape.Busy d) :
    ∃ s' rq' sl', s.schedTick c = some s' ∧ Rest rq' sl' s'.shape := by
  obtain ⟨s', rq', sl', hs', h', hf, hcur⟩ := schedTick_queues h
  refine ⟨s', rq', sl', hs', { h' with busy := fun d => ?_ }⟩
  by_cases hd : d = c
  · subst hd; exact .inr hcur
  · have hopen : ¬ s.shape.Open c (s.shape.current d) := fun ho => hd (h.cpuId_current d ▸ ho.1)
    rw [Shape.Busy, hf.current d hd, hf.idle, (hf.task _ hopen).1]
    exact hb d hd

theorem schedUnblock_queues (h : Queues [] rq sl s.shape) (ht : s.state t = .blocked → t ∈ s.objs) :
    (∃ rq', Queues [] rq' sl (s.schedUnblock t).shape) ∧ ∀ c, s.shape.Busy c → (s.schedUnblock t).shape.Busy c := by
  rw [schedUnblock]
  split
  · rename_i hst
    have hl : s.shape.Live t := h.live_of_off (ht hst) (.inl hst)
    rw [shape_rqEnqueue, shape_setState]
    refine ⟨⟨_, h.unblock hl hst (by simp)⟩, fun d hd => ?_⟩
    refine Shape.busy_enqueue.2 (hd.imp id fun hrun => ?_)
    have hne : s.shape.current d ≠ t := fun e => by cases hst.symm.trans (e ▸ hrun)
    exact (update_of_ne hne ..).trans hrun
  · exact ⟨⟨rq, h⟩, fun _ => id⟩

section

variable (h : Rest rq sl s.shape)
include h

omit [DecidableEq κ] in
theorem busy_setState {d : κ} (hd : d ≠ c) :
    (s.shape.setState (s.shape.current c) st).Busy d := by
  have hne : s.shape.current d ≠ s.shape.current c := fun e =>
    hd ((h.cpuId_current d).symm.trans (e ▸ h.cpuId_current c))
  exact (h.busy d).imp id fun hrun => (update_of_ne hne ..).trans hrun

theorem addTask_rest (ht : t ∉ s.objs) :
    ∃ rq', Rest rq' sl ((s.taskCreate c t).schedAddTask c t).shape := by
  have hlive : (s.shape.create c t).Live t := ⟨mem_cons_self, fun d e => ht (e ▸ (h.idle d).1)⟩
  rw [schedAddTask, shape_rqEnqueue, shape_setState, shape_taskCreate]
  refine ⟨_, { Queues.enqueue ((h.create ht).setState mem_cons_self (.inl hlive))
    ⟨hlive, by simp, update_self .., update_self ..⟩ with busy := fun d => ?_ }⟩
  refine Shape.busy_enqueue.2 ((h.busy d).imp id fun hrun => ?_)
  have hne : s.shape.current d ≠ t := by
    rintro rfl
    rcases h.current d with hi | hi
    · exact ht (hi ▸ (h.idle d).1)
    · exact ht hi.1.1
  simpa [Shape.setState, Shape.create, hne] using hrun

omit h in
theorem shape_fallAsleep (s : SchedState κ τ) (c : κ) (ms : Nat) :
    (s.fallAsleep c ms).shape = s.shape.sleepOn c (s.shape.current c) := by
  simp [fallAsleep, shape_onCpu, shape_modify, tasks_shape, cpus_shape, Shape.sleepOn]

section

variable (hc : (s.cpus c).current ≠ (s.cpus c).idle)
include hc

theorem fallAsleep_queues (ms : Nat) :
    Queues [] rq (update sl c (s.shape.current c :: sl c)) (s.fallAsleep c ms).shape := by
  have hrun : s.shape.state (s.shape.current c) = .running := (h.busy c).resolve_left hc
  obtain ⟨hl, hcpu⟩ := (h.current c).resolve_left hc
  rw [shape_fallAsleep]
  exact (h.hold (fun _ => by simp [hrun]) (fun _ => by simp [hrun])).sleepOn hl hcpu (by simp)

theorem schedSleep_rest (ms : Nat) :
    ∃ s' rq' sl', s.schedSleep c ms = some s' ∧ Rest rq' sl' s'.shape := by
  rw [schedSleep]
  split
  · exact ⟨s, rq, sl, rfl, h⟩
  · refine schedTick_rest (fallAsleep_queues h hc ms) fun d hd => ?_
    rw [shape_fallAsleep]
    exact busy_setState h hd

omit [DecidableEq κ] in
theorem stop_rest (hst : st.Off) :
    Queues [] rq sl (s.modify (s.cpus c).current fun k => { k with state := st }).shape ∧
      ∀ d, d ≠ c → (s.modify (s.cpus c).current fun k => { k with state := st }).shape.Busy d := by
  rw [shape_setState]
  have hrun : s.shape.state (s.shape.current c) = .running := (h.busy c).resolve_left hc
  exact ⟨h.stop ((h.current c).resolve_left hc).1 hrun hst, fun d hd => busy_setState h hd⟩

omit hc h [DecidableEq κ] in
theorem blocked_of_modify {u : τ} (hst : st ≠ .blocked)
    (h : (s.modify u fun k => { k with state := st }).state t = .blocked) : s.state t = .blocked := by
  simp only [state, modify] at h
  by_cases ht : t = u
  · subst ht
    rw [update_self] at h
    exact absurd h hst
  · rwa [update_of_ne ht] at h

theorem schedTaskExit_rest {parent : Option τ} (hp : ∀ p ∈ parent, s.state p = .blocked → p ∈ s.objs)
    (thread : Bool) :
    ∃ s' rq' sl', s.schedTaskExit c parent thread = some s' ∧ Rest rq' sl' s'.shape := by
  have hdead := stop_rest h hc TaskState.off_dead
  have hzombie := stop_rest h hc TaskState.off_zombie
  unfold schedTaskExit
  cases parent with
  | none => exact schedTick_rest hdead.1 hdead.2
  | some p =>
    dsimp only
    split
    · exact schedTick_rest hdead.1 hdead.2
    · obtain ⟨⟨rq', hq⟩, hb⟩ := schedUnblock_queues hzombie.1 fun hb => hp p rfl (blocked_of_modify (by simp) hb)
      exact schedTick_rest hq fun d hd => hb d (hzombie.2 d hd)

end

omit [DecidableEq κ] in
theorem taskDestroy_rest (ht : t ∈ s.objs) (hst : s.state t = .zombie) :
    Rest rq sl (s.taskDestroy t).shape := by
  have hl : s.shape.Live t := h.live_of_off ht (.inr (.inl hst))
  have hcur : ∀ d, s.shape.current d ≠ t := by
    rintro d rfl
    rcases h.busy d with hi | hrun
    · exact hl.2 d hi
    · cases hst.symm.trans hrun
  exact { h.destroy hl (.inr (.inl hst)) hcur with busy := h.busy }

theorem call_rest {e : SchedEvent κ τ} (he : s.Enabled e) :
    ∃ s' rq' sl', s.call e = some s' ∧ Rest rq' sl' s'.shape := by
  cases e with
  | addTask t c =>
    obtain ⟨rq', hq⟩ := addTask_rest h he
    exact ⟨_, rq', sl, rfl, hq⟩
  | timer => exact ⟨_, rq, sl, rfl, h⟩
  | tick c => exact schedTick_rest h.toQueues fun d _ => h.busy d
  | block c =>
    have hb := stop_rest h he TaskState.off_blocked
    exact schedTick_rest hb.1 hb.2
  | sleep c ms => exact schedSleep_rest h he ms
  | unblock t =>
    obtain ⟨⟨rq', hq⟩, hb⟩ := schedUnblock_queues h.toQueues fun _ => he
    exact ⟨_, rq', sl, rfl, { hq with busy := fun c => hb c (h.busy c) }⟩
  | setPriority t p => exact ⟨_, rq, sl, rfl, (shape_schedSetPriority s t p).symm ▸ h⟩
  | exit c parent thread => exact schedTaskExit_rest h he.1 (fun p hp _ => he.2 p hp) thread
  | reap t => exact ⟨_, rq, sl, rfl, taskDestroy_rest h he.1 he.2⟩

end

end SchedState

theorem SchedInit.rest {s : SchedState κ τ} (h : SchedInit s) : Rest (fun _ => []) (fun _ => []) s.shape := by
  have hlive : ∀ t, ¬ s.shape.Live t := fun t ht => by
    obtain ⟨c, hc⟩ := (h.objs t).1 ht.1
    exact ht.2 c hc
  have hcpu : ∀ c, s.shape.current c = s.shape.idle c ∧ s.shape.rqHead c = none ∧
      s.shape.sleepHead c = none ∧ s.shape.queueLen c = 0 := by
    intro c
    obtain ⟨i, hi⟩ := h.cpus c
    simp [SchedState.shape, hi]
  have hidle : ∀ c, s.tasks (s.shape.idle c) = .new c := h.tasks
  exact
    { rq_lists := ⟨fun c => (hcpu c).2.1, by simp⟩
      sl_lists := ⟨fun c => (hcpu c).2.2.1, by simp⟩
      len := fun c => (hcpu c).2.2.2
      mem_rq := fun c t => by simp [Shape.At, hlive]
      mem_sl := fun c t => by simp [Shape.At, hlive]
      running := fun c t ht => absurd ht.1 (hlive t)
      current := fun c => .inl (hcpu c).1
      idle := fun c => ⟨(h.objs _).2 ⟨c, rfl⟩, congrArg SchedTask.cpuId (hidle c),
        .inl (congrArg SchedTask.state (hidle c))⟩
      nodup := h.nodup
      busy := fun c => .inl (hcpu c).1 }

/-! ### The places of the tasks -/

variable [DecidableEq τ]

/-- The task `t` is in the one place that its state names; `rq` and `sl` are the run queues and sleep lists. -/
def InPlace (rq sl : κ → List τ) (s : SchedState κ τ) (t : τ) : Prop :=
  match s.state t with
  | .running => (∀ c, (s.cpus c).current = t ↔ c = (s.tasks t).cpuId) ∧ ∀ c, t ∉ rq c ∧ t ∉ sl c
  | .runnable => (∃ c, (rq c).count t = 1 ∧ ∀ d, d ≠ c → t ∉ rq d) ∧ ∀ c, t ∉ sl c ∧ (s.cpus c).current ≠ t
  | .sleeping => ((sl (s.tasks t).cpuId).count t = 1 ∧ ∀ d, d ≠ (s.tasks t).cpuId → t ∉ sl d) ∧
      ∀ c, t ∉ rq c ∧ (s.cpus c).current ≠ t
  | .blocked | .zombie | .dead => ∀ c, t ∉ rq c ∧ t ∉ sl c ∧ (s.cpus c).current ≠ t

/-- The lists are sound, their lengths are right, and every task that is not an idle one is in its place. -/
def Placed (s : SchedState κ τ) : Prop :=
  ∃ rq sl : κ → List τ, (∀ c, Chain s.next (s.cpus c).rqHead (rq c)) ∧
    (∀ c, Chain s.sleepNext (s.cpus c).sleepHead (sl c)) ∧
    (∀ c, (s.cpus c).queueLen = (rq c).length) ∧
    ∀ t, t ∈ s.objs → (∀ c, t ≠ (s.cpus c).idle) → InPlace rq sl s t

namespace Rest

variable {rq sl : κ → List τ} {s : SchedState κ τ} {t : τ}

section

variable (h : Rest rq sl s.shape)
include h

omit [DecidableEq τ] in
theorem notMem_rq (hst : s.state t ≠ .runnable) (c : κ) : t ∉ rq c := fun ht =>
  hst ((h.mem_rq c t).1 ht).2.2.1

omit [DecidableEq τ] in
theorem notMem_sl (hst : s.state t ≠ .sleeping) (c : κ) : t ∉ sl c := fun ht =>
  hst ((h.mem_sl c t).1 ht).2.2.1

omit [DecidableEq τ] in
theorem ne_current (hl : s.shape.Live t) (hst : s.state t ≠ .running) (c : κ) : (s.cpus c).current ≠ t := by
  rintro rfl
  exact (h.busy c).elim (hl.2 c) hst

theorem inPlace (hl : s.shape.Live t) : InPlace rq sl s t := by
  unfold InPlace
  rcases hst : s.state t with _ | _ | _ | _ | _ | _ <;> dsimp only
  · have hmem : t ∈ rq (s.tasks t).cpuId := (h.mem_rq _ t).2 ⟨hl, by simp, hst, rfl⟩
    refine ⟨⟨_, count_eq_one_of_mem (h.rq_lists.chain _).nodup hmem, ?_⟩, ?_⟩
    · exact fun d hd hmem' => hd (h.rq_lists.disjoint _ _ t hmem' hmem)
    · exact fun c => ⟨h.notMem_sl (by simp [hst]) c, h.ne_current hl (by simp [hst]) c⟩
  · refine ⟨fun c => ⟨?_, ?_⟩, fun c => ⟨h.notMem_rq (by simp [hst]) c, h.notMem_sl (by simp [hst]) c⟩⟩
    · rintro rfl
      exact (h.cpuId_current c).symm
    · rintro rfl
      exact h.running _ t ⟨hl, by simp, hst, rfl⟩
  · exact fun c => ⟨h.notMem_rq (by simp [hst]) c, h.notMem_sl (by simp [hst]) c, h.ne_current hl (by simp [hst]) c⟩
  · exact fun c => ⟨h.notMem_rq (by simp [hst]) c, h.notMem_sl (by simp [hst]) c, h.ne_current hl (by simp [hst]) c⟩
  · have hmem : t ∈ sl (s.tasks t).cpuId := (h.mem_sl _ t).2 ⟨hl, by simp, hst, rfl⟩
    refine ⟨⟨count_eq_one_of_mem (h.sl_lists.chain _).nodup hmem, ?_⟩, ?_⟩
    · exact fun d hd hmem' => hd (h.sl_lists.disjoint _ _ t hmem' hmem)
    · exact fun c => ⟨h.notMem_rq (by simp [hst]) c, h.ne_current hl (by simp [hst]) c⟩
  · exact fun c => ⟨h.notMem_rq (by simp [hst]) c, h.notMem_sl (by simp [hst]) c, h.ne_current hl (by simp [hst]) c⟩

theorem placed : Placed s := ⟨rq, sl, h.rq_lists.chain, h.sl_lists.chain, h.len, fun _ ho hi => h.inPlace ⟨ho, hi⟩⟩

end

end Rest

open Transition

variable [DecidableEq κ]

theorem run_rest {s0 s : SchedState κ τ} {es : List (SchedEvent κ τ)} (h0 : SchedInit s0)
    (hrun : Run SchedState.call SchedState.Enabled s0 es s) : ∃ rq sl, Rest rq sl s.shape := by
  refine hrun.inv (I := fun s => ∃ rq sl, Rest rq sl s.shape) ?_ ⟨_, _, h0.rest⟩
  rintro s e s' ⟨rq, sl, h⟩ he hs
  obtain ⟨s'', rq', sl', hs', h'⟩ := SchedState.call_rest h he
  cases hs.symm.trans hs'
  exact ⟨rq', sl', h'⟩

theorem no_task_lost {s0 s : SchedState κ τ} {es : List (SchedEvent κ τ)} (h0 : SchedInit s0)
    (hrun : Run SchedState.call SchedState.Enabled s0 es s) :
    Placed s ∧ ∀ e, s.Enabled e → ∃ s', s.call e = some s' := by
  obtain ⟨rq, sl, h⟩ := run_rest h0 hrun
  refine ⟨h.placed, fun e he => ?_⟩
  obtain ⟨s', -, -, hs', -⟩ := SchedState.call_rest h he
  exact ⟨s', hs'⟩

def twoCpus : SchedState (Fin 2) Nat where
  tasks t := .new (Fin.ofNat 2 t)
  cpus c := { current := c, rqHead := none, vSystem := 0, idle := c, sleepHead := none, queueLen := 0 }
  jiffies := 0
  objs := [0, 1]

theorem twoCpus_init : SchedInit twoCpus where
  cpus c := ⟨c, rfl⟩
  tasks c := by simp [twoCpus]
  objs t := by simp [twoCpus, Fin.exists_fin_two]
  nodup := by decide

/-- Four tasks on two CPUs: one waits for its turn, one sleeps, one is blocked and one is running. -/
theorem no_task_lost_four : SchedInit twoCpus ∧ ∃ s, Run SchedState.call SchedState.Enabled twoCpus
    [.addTask 2 0, .addTask 3 0, .tick 0, .setPriority 2 7, .addTask 4 1, .tick 1, .sleep 0 5, .addTask 5 0,
      .block 1, .timer, .tick 0] s ∧
    [2, 3, 4, 5].map s.state = [.runnable, .sleeping, .blocked, .running] ∧ Placed s := by
  refine ⟨twoCpus_init, exists_run (fun s => [2, 3, 4, 5].map s.state) [.runnable, .sleeping, .blocked, .running]
    (by decide +kernel) fun s hrun hst => ?_⟩
  exact ⟨hst, (no_task_lost twoCpus_init hrun).1⟩

/-- An interrupt handler that sends a packet sleeps on the idle task, between two lookups of an address. The second time
the idle task is on the sleep list already: it becomes its own successor, the task behind it is lost, and the loop that
looks for sleepers never ends. -/
theorem idle_task_sleeps : SchedInit twoCpus ∧ ∃ s, Run SchedState.call Any twoCpus
    [.addTask 2 0, .tick 0, .sleep 0 1000, .sleep 0 50] s ∧ s.call (.sleep 0 50) = none ∧
    ¬ Placed (s.fallAsleep 0 50) := by
  refine ⟨twoCpus_init, exists_run (fun s => decide ((s.call (.sleep 0 50)).isNone ∧ 2 ∈ (s.fallAsleep 0 50).objs ∧
      (s.fallAsleep 0 50).state 2 = .sleeping ∧ ((s.fallAsleep 0 50).tasks 2).cpuId = 0 ∧
      ((s.fallAsleep 0 50).cpus 0).idle = 0 ∧ ((s.fallAsleep 0 50).cpus 1).idle = 1 ∧
      ((s.fallAsleep 0 50).cpus 0).sleepHead = some 0 ∧ (s.fallAsleep 0 50).sleepNext 0 = some 0))
    true (by decide +kernel) fun s _ h => ?_⟩
  obtain ⟨hcall, hobj, hst, hcpu, hi0, hi1, hhead, hnext⟩ := of_decide_eq_true h
  refine ⟨Option.isNone_iff_eq_none.1 hcall, ?_⟩
  rintro ⟨rq, sl, -, hsl, -, hplace⟩
  have hin := hplace 2 hobj (Fin.forall_fin_two.2 ⟨by rw [hi0]; decide, by rw [hi1]; decide⟩)
  have hchain := hsl 0
  rw [hhead] at hchain
  simp only [InPlace, hst, hcpu] at hin
  -- the list would begin with the idle task twice
  rcases hl : sl 0 with _ | ⟨a, _ | ⟨b, l⟩⟩ <;> rw [hl] at hchain hin
  · simp at hin
  · obtain ⟨ha, hnil⟩ := hchain
    cases ha
    cases hnext.symm.trans hnil
  · have hnodup := hchain.nodup
    obtain ⟨ha, hb, -⟩ := hchain
    cases ha
    cases hnext.symm.trans hb
    simp at hnodup

end ExoOS.Sched
