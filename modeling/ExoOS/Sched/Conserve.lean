import ExoOS.Sched.Partition

/-!
# When a CPU idles

Virtual runtimes are multiples of 64 and so never `(uint64_t)-1` (`Tuned`), which `rq_dequeue` uses for "none yet": it
finds a task whenever the queue has one. The tick therefore picks the idle task exactly when the queue is empty at
the moment of selection. That is also the case when the current task is the only one and still has time left: it is
then put back on the queue, and the CPU idles for a tick (`Alone`).
-/

namespace ExoOS.Sched

open Links Transition SchedState

variable {κ τ : Type}

/-! ### The choice of `rq_dequeue` -/

namespace SchedState

variable [DecidableEq τ] {s : SchedState κ τ} {c : κ} {q : List τ}

theorem minVruntime_le (s : SchedState κ τ) (c : κ) (q : List τ) : (∀ x ∈ q, s.minVruntime c q ≤ (s.tasks x).vruntime) ∧
    ((s.cpus c).current ≠ (s.cpus c).idle → s.state (s.cpus c).current = .running →
      s.minVruntime c q ≤ (s.tasks (s.cpus c).current).vruntime) := by
  have hmin := (minKey_le (fun t => (s.tasks t).vruntime) U64_MAX q).2
  unfold minVruntime
  dsimp only
  split
  · rename_i hc
    exact ⟨fun x hx => hc.2.2.le.trans (hmin x hx), fun _ _ => le_rfl⟩
  · rename_i hc
    refine ⟨hmin, fun hi hr => ?_⟩
    simp only [not_and, Nat.not_lt] at hc
    exact hc hi hr

variable [DecidableEq κ]

theorem setVSystem_tasks (s : SchedState κ τ) (c : κ) (q : List τ) : (s.setVSystem c q).tasks = s.tasks := by
  rw [setVSystem]
  split <;> rfl

theorem setVSystem_vSystem {x : τ} (hx : x ∈ q) (hlt : (s.tasks x).vruntime < U64_MAX) :
    ((s.setVSystem c q).cpus c).vSystem = s.minVruntime c q := by
  have hle := (s.minVruntime_le c q).1 x hx
  rw [setVSystem, if_neg (by omega)]
  simp [onCpu]

theorem best_least (hne : q ≠ []) (hlt : ∀ x ∈ q, (s.tasks x).vruntime < U64_MAX) :
    ∃ prev t, (s.setVSystem c q).best c q = some (prev, t) ∧ ∀ x ∈ q, (s.tasks t).vruntime ≤ (s.tasks x).vruntime := by
  obtain ⟨y, q', hq⟩ := List.exists_cons_of_ne_nil hne
  have hy : y ∈ q := hq ▸ List.mem_cons_self
  simp only [best, setVSystem_tasks, setVSystem_vSystem hy (hlt y hy)]
  rcases he : least (fun t => decide ((s.tasks t).vruntime ≤ s.minVruntime c q)) (fun t => (s.tasks t).deadline)
    U64_MAX q with _ | ⟨prev, t⟩
  · rcases hl : least (fun _ => true) (fun t => (s.tasks t).vruntime) U64_MAX q with _ | ⟨prev, t⟩
    · have := least_eq_none hl y hy rfl
      have := hlt y hy
      omega
    · exact ⟨prev, t, rfl, fun x hx => (least_eq_some hl).2.2.1 x hx rfl⟩
  · refine ⟨prev, t, rfl, fun x hx => ?_⟩
    have hel := of_decide_eq_true (least_eq_some he).1
    exact hel.trans ((s.minVruntime_le c q).1 x hx)

end SchedState

/-! ### Virtual runtimes -/

def Even (v : Nat) : Prop := 64 ∣ v ∧ v < 2 ^ 64

theorem Even.mod {v : Nat} (h : 64 ∣ v) : Even (v % 2 ^ 64) :=
  ⟨(Nat.dvd_mod_iff (by decide)).2 h, Nat.mod_lt _ (by decide)⟩

theorem Even.lt {v : Nat} (h : Even v) : v < U64_MAX := by
  obtain ⟨⟨k, rfl⟩, h⟩ := h
  simp only [U64_MAX]
  omega

structure SchedTask.Tuned (k : SchedTask κ τ) : Prop where
  vruntime : Even k.vruntime
  weight : ∃ p, k.weight = prioToWeight p
  slice : k.sliceTicks = 10

theorem SchedTask.new_tuned (c : κ) : (SchedTask.new c : SchedTask κ τ).Tuned :=
  ⟨⟨⟨0, rfl⟩, Nat.two_pow_pos 64⟩, ⟨4, rfl⟩, rfl⟩

theorem dvd_charge (p : Nat) : 64 ∣ EEVDF_TICK_SCALE / prioToWeight p := by
  unfold prioToWeight
  split <;> decide

theorem prioToWeight_pos (p : Nat) : prioToWeight p ≠ 0 := by
  unfold prioToWeight
  split <;> decide

namespace SchedState

variable {s s' : SchedState κ τ} {c : κ} {t : τ} {rq sl : κ → List τ} {held : List τ}

structure Tuned (s : SchedState κ τ) : Prop where
  task : ∀ t ∈ s.objs, (s.tasks t).Tuned
  vSystem : ∀ c, Even (s.cpus c).vSystem

theorem caughtUp_even {v : Nat} {k : SchedTask κ τ} (hv : Even v) (hk : Even k.vruntime) : Even (caughtUp v k) := by
  unfold caughtUp
  split
  · exact hv
  · split
    · exact ⟨Nat.dvd_sub hv.1 (by decide), by have := hv.2; omega⟩
    · exact hk

variable [DecidableEq τ]

theorem Tuned.modify (h : s.Tuned) {f : SchedTask κ τ → SchedTask κ τ}
    (hf : (s.tasks t).Tuned → (f (s.tasks t)).Tuned) : (s.modify t f).Tuned where
  task := (Function.forall_update_iff s.tasks fun x k => x ∈ s.objs → k.Tuned).2
    ⟨fun hx => hf (h.task t hx), fun x _ => h.task x⟩
  vSystem := h.vSystem

variable [DecidableEq κ]

omit [DecidableEq τ] in
theorem Tuned.onCpu (h : s.Tuned) {f : CpuSched τ → CpuSched τ}
    (hf : Even (s.cpus c).vSystem → Even (f (s.cpus c)).vSystem) : (s.onCpu c f).Tuned where
  task := h.task
  vSystem := (Function.forall_update_iff s.cpus fun _ p => Even p.vSystem).2 ⟨hf (h.vSystem c), fun d _ => h.vSystem d⟩

section

variable (h : s.Tuned)
include h

theorem Tuned.rqEnqueue : (s.rqEnqueue c t).Tuned := by
  rw [SchedState.rqEnqueue]
  split
  · exact h
  · refine (h.modify fun hk => ⟨caughtUp_even (h.vSystem c) hk.vruntime, ?_, hk.slice⟩).onCpu id
    obtain ⟨p, hp⟩ := hk.weight
    exact ⟨p, by simp [hp, prioToWeight_pos]⟩

omit [DecidableEq κ] in
theorem Tuned.charge : (s.charge c).Tuned := by
  rw [SchedState.charge]
  split
  · refine h.modify fun hk => ⟨?_, hk.weight, hk.slice⟩
    split
    · exact hk.vruntime
    · obtain ⟨p, hp⟩ := hk.weight
      rw [hp, if_neg (prioToWeight_pos p)]
      exact Even.mod (Nat.dvd_add hk.vruntime.1 (dvd_charge p))
  · exact h

theorem Tuned.expire : (s.expire c).Tuned := by
  rw [SchedState.expire]
  split
  · exact (h.modify fun hk => ⟨hk.vruntime, hk.weight, hk.slice⟩).rqEnqueue
  · exact h

theorem Tuned.sleepUnlink (sp : Option τ) : (s.sleepUnlink c t sp).Tuned := by
  cases sp with
  | none => exact (h.onCpu id).modify fun hk => ⟨hk.vruntime, hk.weight, hk.slice⟩
  | some p =>
    exact (h.modify fun hk => ⟨hk.vruntime, hk.weight, hk.slice⟩).modify fun hk => ⟨hk.vruntime, hk.weight, hk.slice⟩

theorem Tuned.wakeFrom {n : Nat} {sp at' : Option τ} (hs : wakeFrom c n sp at' s = some s') : s'.Tuned := by
  induction n generalizing s sp at' with
  | zero =>
    cases at' with
    | none => cases hs; exact h
    | some t => cases hs
  | succ n ih =>
    cases at' with
    | none => cases hs; exact h
    | some t =>
      rw [wakeFrom] at hs
      split at hs
      · exact ih (h.sleepUnlink sp).rqEnqueue hs
      · exact ih h hs

omit [DecidableEq κ] in
theorem minVruntime_even {q : List τ} (hq : ∀ t ∈ q, t ∈ s.objs)
    (hcur : (s.cpus c).current ∈ s.objs) : s.minVruntime c q = U64_MAX ∨ Even (s.minVruntime c q) := by
  unfold minVruntime
  dsimp only
  split
  · exact .inr (h.task _ hcur).vruntime
  · refine (minKey_mem _ U64_MAX q).imp_right ?_
    rintro ⟨t, ht, he⟩
    exact he ▸ (h.task t (hq t ht)).vruntime

theorem Tuned.setVSystem {q : List τ} (hq : ∀ t ∈ q, t ∈ s.objs)
    (hcur : (s.cpus c).current ∈ s.objs) : (s.setVSystem c q).Tuned := by
  rw [SchedState.setVSystem]
  split
  · exact h
  · rename_i hm
    exact h.onCpu fun _ => (minVruntime_even h hq hcur).resolve_left hm

theorem Tuned.rqUnlink (prev : Option τ) : (s.rqUnlink c t prev).Tuned := by
  cases prev with
  | none =>
    exact ((h.onCpu id).modify fun hk => ⟨hk.vruntime, hk.weight, hk.slice⟩).onCpu id
  | some p =>
    exact ((h.modify fun hk => ⟨hk.vruntime, hk.weight, hk.slice⟩).modify
      fun hk => ⟨hk.vruntime, hk.weight, hk.slice⟩).onCpu id

end

end SchedState

namespace Queues

variable {s s' : SchedState κ τ} {c : κ} {t : τ} {rq sl : κ → List τ} {held : List τ}

theorem mem_objs (h : Queues held rq sl s.shape) (c : κ) : ∀ t ∈ rq c, t ∈ s.objs := fun t ht =>
  ((h.mem_rq c t).1 ht).1.1

theorem current_mem (h : Queues held rq sl s.shape) (c : κ) : (s.cpus c).current ∈ s.objs := by
  rcases h.current c with hi | hl
  · exact show s.shape.current c ∈ s.shape.objs from hi ▸ (h.idle c).1
  · exact hl.1.1

end Queues

namespace SchedState

variable {s s' : SchedState κ τ} {c : κ} {t : τ} {rq sl : κ → List τ} {st : TaskState}

section

variable [DecidableEq κ] [DecidableEq τ] (ht : s.Tuned)
include ht

theorem Tuned.rqDequeue (h : Queues [] rq sl s.shape) {o : Option τ}
    (hs : s.rqDequeue c = some (o, s')) : s'.Tuned := by
  have hv := ht.setVSystem (h.mem_objs c) (h.current_mem c)
  rcases rqDequeue_cases h with ⟨hd, -⟩ | ⟨hd, -, -⟩ | ⟨t, l1, l2, -, -, hd⟩ <;>
    cases hs.symm.trans hd
  · exact ht
  · exact hv
  · exact hv.rqUnlink _

theorem Tuned.atSelection (hs : s.atSelection c = some s') : s'.Tuned := ht.charge.expire.wakeFrom hs

theorem Tuned.schedTick (h : Queues [] rq sl s.shape) (hs : s.schedTick c = some s') : s'.Tuned := by
  obtain ⟨s1, rq1, sl1, o, s2, hs1, h1, -, hd, htick⟩ := schedTick_eq h
  cases hs.symm.trans htick
  have h2 := (ht.atSelection hs1).rqDequeue h1 hd
  have hp : (s2.putBack c (o.getD (s1.cpus c).idle)).Tuned := by
    rw [putBack]
    split
    · exact (h2.modify fun hk => ⟨hk.vruntime, hk.weight, hk.slice⟩).rqEnqueue
    · exact h2
  exact (hp.modify fun hk => ⟨hk.vruntime, hk.weight, hk.slice⟩).onCpu id

omit [DecidableEq κ] in
theorem Tuned.setState : (s.modify t fun k => { k with state := st }).Tuned :=
  ht.modify fun hk => ⟨hk.vruntime, hk.weight, hk.slice⟩

theorem Tuned.schedUnblock : (s.schedUnblock t).Tuned := by
  rw [SchedState.schedUnblock]
  split
  · exact ht.setState.rqEnqueue
  · exact ht

omit [DecidableEq κ] in
theorem Tuned.taskCreate : (s.taskCreate c t).Tuned where
  task x hx := by
    by_cases hxt : x = t
    · subst hxt
      simpa [SchedState.taskCreate] using SchedTask.new_tuned c
    · simpa [SchedState.taskCreate, hxt] using ht.task x ((List.mem_cons.1 hx).resolve_left hxt)
  vSystem := ht.vSystem

theorem Tuned.fallAsleep (ms : Nat) : (s.fallAsleep c ms).Tuned := by
  rw [SchedState.fallAsleep]
  exact (ht.modify fun hk => ⟨hk.vruntime, hk.weight, hk.slice⟩).onCpu id

theorem Tuned.schedTaskExit (h : Rest rq sl s.shape)
    (hc : (s.cpus c).current ≠ (s.cpus c).idle) {parent : Option τ} (hp : ∀ p ∈ parent, p ∈ s.objs)
    {thread : Bool} (hs : s.schedTaskExit c parent thread = some s') : s'.Tuned := by
  have hdead := (stop_rest h hc TaskState.off_dead).1
  have hzombie := (stop_rest h hc TaskState.off_zombie).1
  unfold SchedState.schedTaskExit at hs
  cases parent with
  | none => exact ht.setState.schedTick hdead hs
  | some p =>
    dsimp only at hs
    split at hs
    · exact ht.setState.schedTick hdead hs
    · obtain ⟨⟨rq', hq⟩, -⟩ := schedUnblock_queues hzombie fun _ => hp p rfl
      exact ht.setState.schedUnblock.schedTick hq hs

theorem Tuned.call (h : Rest rq sl s.shape) {e : SchedEvent κ τ} (he : s.Enabled e)
    (hs : s.call e = some s') : s'.Tuned := by
  cases e with
  | addTask t c => cases hs; exact ht.taskCreate.setState.rqEnqueue
  | timer => cases hs; exact ⟨ht.task, ht.vSystem⟩
  | tick c => exact ht.schedTick h.toQueues hs
  | block c => exact ht.setState.schedTick (stop_rest h he TaskState.off_blocked).1 hs
  | sleep c ms =>
    simp only [SchedState.call, schedSleep] at hs
    split at hs
    · cases hs; exact ht
    · exact (ht.fallAsleep ms).schedTick (fallAsleep_queues h he ms) hs
  | unblock t => cases hs; exact ht.schedUnblock
  | setPriority t p =>
    cases hs
    rw [schedSetPriority]
    exact ht.modify fun hk => ⟨hk.vruntime, ⟨_, rfl⟩, hk.slice⟩
  | exit c parent thread => exact ht.schedTaskExit h he.1 he.2 hs
  | reap t => cases hs; exact ⟨fun x hx => ht.task x (List.mem_of_mem_erase hx), ht.vSystem⟩

theorem rqDequeue_none (h : Queues [] rq sl s.shape) {o : Option τ}
    (hs : s.rqDequeue c = some (o, s')) : o = none ↔ rq c = [] := by
  rcases rqDequeue_cases h with ⟨hd, hnil⟩ | ⟨-, hne, hb⟩ | ⟨t, l1, l2, hq, -, hd⟩
  · cases hs.symm.trans hd
    simp [hnil]
  · obtain ⟨prev, t, hb', -⟩ := best_least hne fun x hx =>
      (ht.task x (h.mem_objs c x hx)).vruntime.lt
    cases hb.symm.trans hb'
  · cases hs.symm.trans hd
    simp [hq]

end

end SchedState

theorem SchedInit.tuned {s : SchedState κ τ} (h : SchedInit s) : s.Tuned where
  task t ht := by
    obtain ⟨c, rfl⟩ := (h.objs t).1 ht
    exact h.tasks c ▸ SchedTask.new_tuned c
  vSystem c := by
    obtain ⟨i, hi⟩ := h.cpus c
    rw [hi]
    exact ⟨⟨0, rfl⟩, Nat.two_pow_pos 64⟩

/-! ### Work at the moment of selection -/

def HasWork (s : SchedState κ τ) (c : κ) : Prop :=
  (∃ q, Chain s.next (s.cpus c).rqHead q ∧ ∃ t ∈ q, t ≠ (s.cpus c).idle ∧ s.state t = .runnable) ∨
    (s.cpus c).current ≠ (s.cpus c).idle ∧ s.state (s.cpus c).current = .running

theorem Queues.work_iff {s : SchedState κ τ} {rq sl : κ → List τ} (h : Queues [] rq sl s.shape) (c : κ) :
    (∃ q, Chain s.next (s.cpus c).rqHead q ∧ ∃ t ∈ q, t ≠ (s.cpus c).idle ∧ s.state t = .runnable) ↔ rq c ≠ [] := by
  constructor
  · rintro ⟨q, hc, t, ht, -⟩ he
    rw [hc.unique (h.rq_lists.chain c), he] at ht
    cases ht
  · intro hne
    obtain ⟨t, q, hq⟩ := List.exists_cons_of_ne_nil hne
    have ht : t ∈ rq c := hq ▸ List.mem_cons_self
    obtain ⟨hl, -, hst, -⟩ := (h.mem_rq c t).1 ht
    exact ⟨rq c, h.rq_lists.chain c, t, ht, hl.2 c, hst⟩

variable [DecidableEq κ] [DecidableEq τ]

def Conserves (s : SchedState κ τ) (c : κ) : Prop :=
  ∃ s1 s', s.atSelection c = some s1 ∧ s.schedTick c = some s' ∧
    (HasWork s1 c → (s'.cpus c).current ≠ (s'.cpus c).idle)

/-- The current task is the only one that can run, no sleeper is due, and the slice is not over with this tick. -/
def Alone (s : SchedState κ τ) (c : κ) : Prop :=
  (s.cpus c).rqHead = none ∧
    (∀ l, Chain s.sleepNext (s.cpus c).sleepHead l → ∀ t ∈ l, s.jiffies < (s.tasks t).sleepDeadline) ∧
    (s.cpus c).current ≠ (s.cpus c).idle ∧ s.state (s.cpus c).current = .running ∧ ¬ (s.charge c).Expired c

namespace SchedState

variable {s s' : SchedState κ τ} {c : κ} {t : τ} {rq sl : κ → List τ}

omit [DecidableEq κ] in
theorem charge_sleepDeadline : ((s.charge c).tasks t).sleepDeadline = (s.tasks t).sleepDeadline := by
  rw [charge]
  split
  · by_cases ht : t = (s.cpus c).current
    · subst ht; simp [modify]
    · simp [modify, ht]
  · rfl

omit [DecidableEq κ] in
theorem charge_jiffies : (s.charge c).jiffies = s.jiffies := by
  rw [charge]
  split <;> rfl

theorem alone_iff (h : Queues [] rq sl s.shape) : ∃ s1 rq1 sl1, s.atSelection c = some s1 ∧ Queues [] rq1 sl1 s1.shape ∧
    (rq1 c = [] ∧ (s1.cpus c).current ≠ (s1.cpus c).idle ∧ s1.state (s1.cpus c).current = .running ↔ Alone s c) := by
  by_cases he : (s.charge c).Expired c
  · have hcur : s.shape.state (s.shape.current c) = .running := shape_charge s c ▸ he.1
    have hq := h.requeue hcur (by simp)
    have hshape : ((s.charge c).expire c).shape = s.shape.requeue c := by
      rw [shape_expire, shape_charge, if_pos he]
    rw [← hshape] at hq
    obtain ⟨s1, rq1, sl1, hs1, h1, -, hw⟩ := wakeSleepers_queues hq
    refine ⟨s1, rq1, sl1, hs1, h1, ⟨fun hl => absurd hl.2.2 ?_, fun hr => absurd he hr.2.2.2.2⟩⟩
    have hcur1 : (s1.cpus c).current = s.shape.current c := by
      rw [show (s1.cpus c).current = s1.shape.current c from rfl, hw.current, hshape, Shape.requeue_current]
    rw [hcur1, hw.running, show state _ _ = Shape.state _ _ from congrFun (congrArg Shape.state hshape) _,
      Shape.requeue_state, Function.update_self]
    simp
  · have hexp : (s.charge c).expire c = s.charge c := if_neg he
    have hq : Queues [] rq sl (s.charge c).shape := (shape_charge s c).symm ▸ h
    obtain ⟨s1, rq1, sl1, hs1, h1, hf, hw⟩ := wakeSleepers_queues hq
    refine ⟨s1, rq1, sl1, by rw [atSelection, hexp, hs1], h1, ?_⟩
    have hcur : (s1.cpus c).current = (s.cpus c).current := by
      rw [show (s1.cpus c).current = s1.shape.current c from rfl, hw.current, shape_charge]
      rfl
    have hidle : (s1.cpus c).idle = (s.cpus c).idle := by
      rw [show (s1.cpus c).idle = s1.shape.idle c from rfl, hf.idle, shape_charge]
      rfl
    have hhead : rq c = [] ↔ (s.cpus c).rqHead = none := by
      rw [show (s.cpus c).rqHead = (rq c).head? from (h.rq_lists.chain c).head?_eq, List.head?_eq_none_iff]
    have hsleep : (∀ t ∈ sl c, (s.charge c).jiffies < ((s.charge c).tasks t).sleepDeadline) ↔
        ∀ l, Chain s.sleepNext (s.cpus c).sleepHead l → ∀ t ∈ l, s.jiffies < (s.tasks t).sleepDeadline := by
      simp only [charge_sleepDeadline, charge_jiffies]
      constructor
      · intro hl l hc
        rwa [← (h.sl_lists.chain c).unique hc]
      · intro hl
        exact hl _ (h.sl_lists.chain c)
    rw [hcur, hidle, hw.running, hw.empty, hhead, hsleep,
      show state _ _ = _ from congrFun (congrArg Shape.state (shape_charge s c)) _, Alone]
    tauto

end SchedState

theorem run_tuned {s0 s : SchedState κ τ} {es : List (SchedEvent κ τ)} (h0 : SchedInit s0)
    (hrun : Run SchedState.call SchedState.Enabled s0 es s) : (∃ rq sl, Rest rq sl s.shape) ∧ s.Tuned := by
  refine hrun.inv (I := fun s => (∃ rq sl, Rest rq sl s.shape) ∧ s.Tuned) ?_ ⟨⟨_, _, h0.rest⟩, h0.tuned⟩
  rintro s e s' ⟨⟨rq, sl, h⟩, ht⟩ he hs
  obtain ⟨s'', rq', sl', hs', h'⟩ := call_rest h he
  cases hs.symm.trans hs'
  exact ⟨⟨rq', sl', h'⟩, ht.call h he hs⟩

theorem SchedState.schedTick_idle {s s1 s' : SchedState κ τ} {rq sl rq1 sl1 : κ → List τ} {c : κ} (ht : s.Tuned)
    (h : Queues [] rq sl s.shape) (hs1 : s.atSelection c = some s1) (h1 : Queues [] rq1 sl1 s1.shape)
    (hs : s.schedTick c = some s') : (s'.cpus c).current = (s'.cpus c).idle ↔ rq1 c = [] := by
  obtain ⟨s1', -, -, o, s2, hs1', -, -, hd, htick⟩ := schedTick_eq h
  cases hs1.symm.trans hs1'
  cases hs.symm.trans htick
  obtain ⟨o', s2', rq2, hd', -, hf2, -, -, ho⟩ := rqDequeue_queues h1
  obtain ⟨rfl, rfl⟩ : o = o' ∧ s2 = s2' := by simpa using hd.symm.trans hd'
  simp only [cpus_shape, shape_handOver, Shape.handOver_current, Shape.handOver_idle, hf2.idle]
  rw [← rqDequeue_none (ht.atSelection hs1) h1 hd]
  cases o with
  | none => simp
  | some t =>
    have hl := ((h1.mem_rq c t).1 (ho t rfl)).1
    simpa using hl.2 c

/-- The states in which `sched_tick` of `c` is called while the other calls leave `s`: that of the timer and of
`sched_yield`; or the current task has just been blocked, put to sleep or ended, by `sched_block`, `vfork`,
`sched_sleep`, `sched_task_exit` or a fatal signal or fault; and then any tasks may have been woken. -/
inductive TickFrom (s : SchedState κ τ) (c : κ) : SchedState κ τ → Prop
  | start : TickFrom s c s
  | stop {st : TaskState} (hc : (s.cpus c).current ≠ (s.cpus c).idle) (hst : st.Off) :
    TickFrom s c (s.modify (s.cpus c).current fun k => { k with state := st })
  | sleep (hc : (s.cpus c).current ≠ (s.cpus c).idle) (ms : Nat) : TickFrom s c (s.fallAsleep c ms)
  | wake {s1 : SchedState κ τ} {t : τ} (h : TickFrom s c s1) (ht : t ∈ s.objs) : TickFrom s c (s1.schedUnblock t)

theorem TickFrom.queues {s s1 : SchedState κ τ} {rq sl : κ → List τ} {c : κ} (hs : TickFrom s c s1) (ht : s.Tuned)
    (h : Rest rq sl s.shape) : (∃ rq sl, Queues [] rq sl s1.shape) ∧ s1.Tuned ∧ s1.objs = s.objs := by
  induction hs with
  | start => exact ⟨⟨rq, sl, h.toQueues⟩, ht, rfl⟩
  | stop hc hst => exact ⟨⟨rq, sl, (stop_rest h hc hst).1⟩, ht.setState, rfl⟩
  | sleep hc ms => exact ⟨⟨rq, _, fallAsleep_queues h hc ms⟩, ht.fallAsleep ms, rfl⟩
  | @wake s1 t _ hmem ih =>
    obtain ⟨⟨rq1, sl1, h1⟩, ht1, hobjs⟩ := ih
    obtain ⟨⟨rq2, h2⟩, -⟩ := schedUnblock_queues h1 fun _ => hobjs ▸ hmem
    refine ⟨⟨rq2, sl1, h2⟩, ht1.schedUnblock, Eq.trans ?_ hobjs⟩
    rw [schedUnblock, rqEnqueue]
    split_ifs <;> rfl

end ExoOS.Sched
