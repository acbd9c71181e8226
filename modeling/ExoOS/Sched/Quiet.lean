import ExoOS.Sched.Partition

/-!
# What a call leaves alone

A call into the scheduler does not touch a task that is blocked or has ended, unless it is to wake or destroy it
(`call_still`, `call_wakes`), and ends no task (`call_keeps`) but the one that exits (`schedTaskExit_ends`).
-/

namespace ExoOS.Sched

open Function Links

variable {κ τ : Type}

def SchedEvent.caller : SchedEvent κ τ → Option κ
  | .block c | .sleep c _ | .exit c _ _ => some c
  | _ => none

/-- The task that `sched_unblock` is called for. `SIGCHLD` goes to the parent. -/
def SchedEvent.wakes : SchedEvent κ τ → Option τ
  | .unblock t => some t
  | .exit _ parent thread => if thread then none else parent
  | _ => none

def Shape.Still (v v' : Shape κ τ) (x : τ) : Prop :=
  v'.state x = v.state x ∧ v'.next x = v.next x ∧ (x ∈ v.objs → x ∈ v'.objs)

namespace Shape.Still

variable {v v' v'' : Shape κ τ} {c : κ} {t x : τ} {st : TaskState}

theorem refl : Still v v x := ⟨rfl, rfl, id⟩

theorem trans (h : Still v v' x) (h' : Still v' v'' x) : Still v v'' x :=
  ⟨h'.1.trans h.1, h'.2.1.trans h.2.1, h'.2.2 ∘ h.2.2⟩

theorem off (h : Still v v' x) (hx : (v.state x).Off) : (v'.state x).Off := by rwa [h.1]

variable [DecidableEq τ] in
theorem setState (hx : x ≠ t) : Still v (v.setState t st) x := ⟨update_of_ne hx .., rfl, id⟩

variable [DecidableEq κ] [DecidableEq τ] in
theorem enqueue (hx : x ≠ t) : Still v (v.enqueue c t) x := by
  rw [Shape.enqueue]
  split
  · exact refl
  · exact ⟨rfl, update_of_ne hx .., id⟩

theorem frame (hf : Frame c v v') (hx : (v.state x).Off) : Still v v' x := by
  have hopen : ¬ v.Open c x := fun h => h.2 hx
  exact ⟨(hf.task x hopen).1, (hf.task x hopen).2, fun h => hf.objs ▸ h⟩

end Shape.Still

def TaskState.Ended (st : TaskState) : Prop := st = .zombie ∨ st = .dead

theorem TaskState.Ended.off {st : TaskState} (h : st.Ended) : st.Off := .inr h

/-- No task comes or goes, and none ends. -/
structure Shape.Keeps (v v' : Shape κ τ) : Prop where
  objs : v'.objs = v.objs
  ended : ∀ x, (v.state x).Ended → v'.state x = v.state x
  alive : ∀ x, ¬ (v.state x).Ended → ¬ (v'.state x).Ended

def Shape.Alive (v : Shape κ τ) (x : τ) : Prop := x ∈ v.objs ∧ ¬ (v.state x).Ended

structure Shape.Adds (t : τ) (v v' : Shape κ τ) : Prop where
  objs : v'.objs = t :: v.objs
  self : ¬ (v'.state t).Ended
  ended : ∀ x, x ≠ t → (v.state x).Ended → v'.state x = v.state x
  alive : ∀ x, x ≠ t → ¬ (v.state x).Ended → ¬ (v'.state x).Ended

structure Shape.Ends (t : τ) (st : TaskState) (v v' : Shape κ τ) : Prop where
  objs : v'.objs = v.objs
  self : v'.state t = st
  ended : ∀ x, x ≠ t → (v.state x).Ended → v'.state x = v.state x
  alive : ∀ x, x ≠ t → ¬ (v.state x).Ended → ¬ (v'.state x).Ended

namespace Shape.Keeps

variable {v v' v'' : Shape κ τ} {c : κ} {t : τ} {st : TaskState}

theorem refl : Keeps v v := ⟨rfl, fun _ _ => rfl, fun _ => id⟩

theorem trans (h : Keeps v v') (h' : Keeps v' v'') : Keeps v v'' where
  objs := h'.objs.trans h.objs
  ended x hx := (h'.ended x (h.ended x hx ▸ hx)).trans (h.ended x hx)
  alive x hx := h'.alive x (h.alive x hx)

theorem alive_of (h : Keeps v v') (ht : v.Alive t) : v'.Alive t := ⟨h.objs.symm ▸ ht.1, h.alive t ht.2⟩

variable [DecidableEq τ] in
theorem setState (ht : ¬ (v.state t).Ended) (hst : ¬ st.Ended) : Keeps v (v.setState t st) where
  objs := rfl
  ended x hx := update_of_ne (fun e : x = t => ht (e ▸ hx)) ..
  alive x hx := by
    show ¬ (update v.state t st x).Ended
    by_cases hxt : x = t
    · subst hxt
      rwa [update_self]
    · rwa [update_of_ne hxt]

variable [DecidableEq κ] [DecidableEq τ] in
theorem enqueue : Keeps v (v.enqueue c t) := by
  rw [Shape.enqueue]
  split <;> exact ⟨rfl, fun _ _ => rfl, fun _ => id⟩

theorem frame (hf : Frame c v v') : Keeps v v' where
  objs := hf.objs
  ended x hx := (hf.task x fun ho => ho.2 hx.off).1
  alive x hx := by
    by_cases hoff : (v.state x).Off
    · rwa [(hf.task x fun ho => ho.2 hoff).1]
    · exact fun he => hf.on x hoff he.off

end Shape.Keeps

theorem Shape.Adds.trans {v v' v'' : Shape κ τ} {t : τ} (h : Adds t v v') (h' : Keeps v' v'') : Adds t v v'' where
  objs := h'.objs.trans h.objs
  self := h'.alive t h.self
  ended x hx he := (h'.ended x (h.ended x hx he ▸ he)).trans (h.ended x hx he)
  alive x hx he := h'.alive x (h.alive x hx he)

namespace Shape.Ends

variable {v v' v'' : Shape κ τ} {t : τ} {st : TaskState}

variable [DecidableEq τ] in
theorem setState : Ends t st v (v.setState t st) where
  objs := rfl
  self := update_self ..
  ended x hx _ := update_of_ne hx ..
  alive x hx h := by
    show ¬ (update v.state t st x).Ended
    rwa [update_of_ne hx]

theorem trans (h : Ends t st v v') (hst : st.Ended) (h' : Keeps v' v'') : Ends t st v v'' where
  objs := h'.objs.trans h.objs
  self := (h'.ended t (h.self.symm ▸ hst)).trans h.self
  ended x hx he := (h'.ended x (h.ended x hx he ▸ he)).trans (h.ended x hx he)
  alive x hx he := h'.alive x (h.alive x hx he)

end Shape.Ends

namespace SchedState

open Shape

variable [DecidableEq κ] [DecidableEq τ] {s s' : SchedState κ τ} {rq sl : κ → List τ} {c : κ} {t x : τ} {st : TaskState}

theorem schedTick_frame (h : Queues [] rq sl s.shape) (hs : s.schedTick c = some s') : Frame c s.shape s'.shape := by
  obtain ⟨s'', -, -, hs', -, hf, -⟩ := schedTick_queues h
  cases hs.symm.trans hs'
  exact hf

theorem schedTick_keeps (h : Queues [] rq sl s.shape) (hs : s.schedTick c = some s') : Keeps s.shape s'.shape :=
  .frame (schedTick_frame h hs)

theorem schedUnblock_keeps : Keeps s.shape (s.schedUnblock t).shape := by
  rw [schedUnblock]
  split
  · rename_i hst
    rw [shape_rqEnqueue, shape_setState]
    have ht : ¬ (s.shape.state t).Ended := by
      rw [show s.shape.state t = .blocked from hst]
      simp [TaskState.Ended]
    exact (Keeps.setState ht (by simp [TaskState.Ended])).trans .enqueue
  · exact .refl

def exitState (parent : Option τ) (thread : Bool) : TaskState := if parent.isSome && !thread then .zombie else .dead

omit [DecidableEq τ] in
theorem exitState_ended (parent : Option τ) (thread : Bool) : (exitState parent thread).Ended := by
  rw [exitState]
  split
  · exact .inl rfl
  · exact .inr rfl

theorem schedTick_still (h : Queues [] rq sl s.shape) (hs : s.schedTick c = some s')
    (hx : (s.state x).Off) : Still s.shape s'.shape x := .frame (schedTick_frame h hs) hx

theorem schedUnblock_still (hx : x ≠ t ∨ s.state x ≠ .blocked) : Still s.shape (s.schedUnblock t).shape x := by
  rw [schedUnblock]
  split
  · rename_i ht
    have hxt : x ≠ t := by
      rintro rfl
      exact hx.elim (· rfl) (· ht)
    rw [shape_rqEnqueue, shape_setState]
    exact (Still.setState hxt).trans (.enqueue hxt)
  · exact .refl

section

variable (h : Rest rq sl s.shape) (hc : (s.cpus c).current ≠ (s.cpus c).idle)
include h hc

omit [DecidableEq κ] [DecidableEq τ] in
theorem current_on :
    ¬ (s.shape.state (s.cpus c).current).Off := by
  have hrun : s.shape.state (s.cpus c).current = .running := (h.busy c).resolve_left hc
  simp [hrun, TaskState.Off]

omit [DecidableEq κ] [DecidableEq τ] in
theorem current_not_ended :
    ¬ (s.shape.state (s.cpus c).current).Ended := fun he => current_on h hc he.off

theorem schedBlock_keeps (hs : s.schedBlock c = some s') : Keeps s.shape s'.shape := by
  refine Keeps.trans ?_ (schedTick_keeps (stop_rest h hc TaskState.off_blocked).1 hs)
  rw [shape_setState]
  exact .setState (current_not_ended h hc) (by simp [TaskState.Ended])

theorem end_ends (hst : st.Ended)
    (hs : (s.modify (s.cpus c).current fun k => { k with state := st }).schedTick c = some s') :
    Ends (s.cpus c).current st s.shape s'.shape := by
  have h1 : Ends (s.cpus c).current st s.shape (s.shape.setState (s.cpus c).current st) := .setState
  rw [← shape_setState] at h1
  exact h1.trans hst (schedTick_keeps (stop_rest h hc hst.off).1 hs)

theorem schedTaskExit_ends {parent : Option τ} {thread : Bool} (hp : ∀ p ∈ parent, s.state p = .blocked → p ∈ s.objs)
    (hs : s.schedTaskExit c parent thread = some s') :
    Ends (s.cpus c).current (exitState parent thread) s.shape s'.shape := by
  cases parent with
  | none => exact end_ends h hc (.inr rfl) hs
  | some p =>
    cases thread with
    | true => exact end_ends h hc (.inr rfl) hs
    | false =>
      have h1 : Ends (s.cpus c).current .zombie s.shape (s.shape.setState (s.cpus c).current .zombie) := .setState
      rw [← shape_setState] at h1
      obtain ⟨⟨rq', hq⟩, -⟩ :=
        schedUnblock_queues (stop_rest h hc TaskState.off_zombie).1 fun hb =>
          hp p rfl (blocked_of_modify (by simp) hb)
      exact (h1.trans (.inl rfl) schedUnblock_keeps).trans (.inl rfl) (schedTick_keeps hq hs)

omit [DecidableEq κ] [DecidableEq τ] in
theorem ne_current_of_off (hx : (s.state x).Off) : x ≠ (s.cpus c).current := by
  rintro rfl
  exact current_on h hc hx

omit [DecidableEq κ] in
theorem modify_still (st : TaskState) (hx : (s.state x).Off) :
    Still s.shape (s.modify (s.cpus c).current fun k => { k with state := st }).shape x := by
  rw [shape_setState]
  exact .setState (ne_current_of_off h hc hx)

theorem stop_still (hst : st.Off)
    (hs : (s.modify (s.cpus c).current fun k => { k with state := st }).schedTick c = some s')
    (hx : (s.state x).Off) : Still s.shape s'.shape x :=
  have h1 := modify_still h hc st hx
  h1.trans (schedTick_still (stop_rest h hc hst).1 hs (h1.off hx))

theorem schedTaskExit_still {parent : Option τ} {thread : Bool} (hp : ∀ p ∈ parent, p ∈ s.objs)
    (hs : s.schedTaskExit c parent thread = some s') (hx : (s.state x).Off)
    (hw : ∀ t ∈ (SchedEvent.exit c parent thread).wakes, x ≠ t ∨ s.state x ≠ .blocked) :
    Still s.shape s'.shape x := by
  unfold schedTaskExit at hs
  cases parent with
  | none => exact stop_still h hc TaskState.off_dead hs hx
  | some p =>
    dsimp only at hs
    split at hs
    · exact stop_still h hc TaskState.off_dead hs hx
    rename_i hth
    obtain ⟨⟨rq', hq⟩, -⟩ := schedUnblock_queues (stop_rest h hc TaskState.off_zombie).1 fun _ => hp p rfl
    have h1 := modify_still h hc .zombie hx
    have h2 := h1.trans (schedUnblock_still (t := p) ?_)
    · exact h2.trans (schedTick_still hq hs (h2.off hx))
    · refine (hw p (by simp [SchedEvent.wakes, hth])).imp_right fun hb => ?_
      exact fun e => hb (h1.1.symm.trans e)

end

variable {e : SchedEvent κ τ}

theorem call_keeps (h : Rest rq sl s.shape) (he : s.Enabled e) (hs : s.call e = some s')
    (hk : e.keeps) : Keeps s.shape s'.shape := by
  cases e with
  | addTask | exit | reap => cases hk
  | timer =>
    cases hs
    exact .refl
  | tick c => exact schedTick_keeps h.toQueues hs
  | block c => exact schedBlock_keeps h he hs
  | sleep c ms =>
    simp only [call, schedSleep] at hs
    split at hs
    · cases hs
      exact .refl
    refine Keeps.trans ?_ (schedTick_keeps (fallAsleep_queues h he ms) hs)
    have hk : Keeps s.shape (s.shape.setState (s.shape.current c) .sleeping) :=
      .setState (current_not_ended h he) (by simp [TaskState.Ended])
    rw [shape_fallAsleep]
    exact ⟨hk.objs, hk.ended, hk.alive⟩
  | unblock t =>
    cases hs
    exact schedUnblock_keeps
  | setPriority t p =>
    cases hs
    rw [shape_schedSetPriority]
    exact .refl

theorem addTask_adds (s : SchedState κ τ) (c : κ) (t : τ) :
    Adds t s.shape ((s.taskCreate c t).schedAddTask c t).shape := by
  rw [schedAddTask, shape_rqEnqueue, shape_setState, shape_taskCreate]
  have hst : ∀ x, x ≠ t → ((s.shape.create c t).setState t .runnable).state x = s.shape.state x := by
    intro x hx
    simp [Shape.setState, Shape.create, hx]
  refine Adds.trans ⟨rfl, ?_, fun x hx _ => hst x hx, fun x hx h => ?_⟩ .enqueue
  · simp [Shape.setState, TaskState.Ended]
  · rwa [hst x hx]

theorem addTask_current (s : SchedState κ τ) (c : κ) (t : τ) :
    ((s.taskCreate c t).schedAddTask c t).shape.current = s.shape.current ∧
      ((s.taskCreate c t).schedAddTask c t).shape.idle = s.shape.idle := by
  rw [schedAddTask, shape_rqEnqueue, shape_setState, shape_taskCreate, Shape.enqueue]
  split <;> exact ⟨rfl, rfl⟩

theorem call_alive (h : Rest rq sl s.shape) (he : s.Enabled e) (hs : s.call e = some s')
    (hx : s.shape.Alive x) (hne : ∀ c, e.caller = some c → x ≠ (s.cpus c).current) : s'.shape.Alive x := by
  cases e with
  | timer | tick | block | sleep | unblock | setPriority => exact (call_keeps h he hs rfl).alive_of hx
  | addTask t c =>
    cases hs
    have hxt : x ≠ t := ne_of_mem_of_not_mem hx.1 he
    have hadds := addTask_adds s c t
    exact ⟨hadds.objs.symm ▸ List.mem_cons_of_mem _ hx.1, hadds.alive x hxt hx.2⟩
  | exit c parent thread =>
    have hends := schedTaskExit_ends h he.1 (fun p hp _ => he.2 p hp) hs
    exact ⟨hends.objs.symm ▸ hx.1, hends.alive x (hne c rfl) hx.2⟩
  | reap t =>
    cases hs
    have hxt : x ≠ t := by
      rintro rfl
      exact hx.2 (.inl he.2)
    exact ⟨(List.mem_erase_of_ne hxt).2 hx.1, hx.2⟩

theorem schedUnblock_state : (s.schedUnblock t).shape.state t ≠ .blocked := by
  rw [schedUnblock]
  split
  · rw [shape_rqEnqueue, shape_setState, Shape.enqueue]
    split <;> simp [Shape.setState]
  · assumption

theorem call_still (h : Rest rq sl s.shape) (he : s.Enabled e) (hs : s.call e = some s')
    (hx : (s.state x).Off) (hnew : ∀ c, e ≠ .addTask x c) (hw : ∀ t ∈ e.wakes, x ≠ t ∨ s.state x ≠ .blocked)
    (hr : e ≠ .reap x) : Still s.shape s'.shape x := by
  cases e with
  | addTask t c =>
    cases hs
    have hne : x ≠ t := fun e => hnew c (e ▸ rfl)
    rw [schedAddTask, shape_rqEnqueue, shape_setState, shape_taskCreate]
    have hcreate : Still s.shape (s.shape.create c t) x :=
      ⟨update_of_ne hne .., update_of_ne hne .., List.mem_cons_of_mem _⟩
    exact (hcreate.trans (.setState hne)).trans (.enqueue hne)
  | timer =>
    cases hs
    exact .refl
  | tick c => exact schedTick_still h.toQueues hs hx
  | block c => exact stop_still h he TaskState.off_blocked hs hx
  | sleep c ms =>
    simp only [call, schedSleep] at hs
    split at hs
    · cases hs
      exact .refl
    · have hsleep : Still s.shape (s.fallAsleep c ms).shape x := by
        rw [shape_fallAsleep]
        exact ⟨update_of_ne (ne_current_of_off h he hx) .., rfl, id⟩
      exact hsleep.trans (schedTick_still (fallAsleep_queues h he ms) hs (hsleep.off hx))
  | unblock t =>
    cases hs
    exact schedUnblock_still (hw t rfl)
  | setPriority t p =>
    cases hs
    rw [shape_schedSetPriority]
    exact .refl
  | exit c parent thread => exact schedTaskExit_still h he.1 he.2 hs hx hw
  | reap t =>
    cases hs
    have hne : x ≠ t := fun e => hr (e ▸ rfl)
    exact ⟨rfl, rfl, (List.mem_erase_of_ne hne).2⟩

theorem call_wakes (h : Rest rq sl s.shape) (he : s.Enabled e) (hs : s.call e = some s') (ht : t ∈ e.wakes) :
    s'.state t ≠ .blocked := by
  cases e with
  | unblock t' =>
    cases hs
    cases ht
    exact schedUnblock_state
  | exit c parent thread =>
    cases thread with
    | true => cases ht
    | false =>
      cases parent with
      | none => cases ht
      | some p =>
        cases ht
        obtain ⟨⟨rq', hq⟩, -⟩ := schedUnblock_queues (stop_rest h he.1 TaskState.off_zombie).1 fun _ => he.2 t rfl
        exact (schedTick_frame hq hs).ne_blocked schedUnblock_state
  | _ => cases ht

end SchedState

end ExoOS.Sched
