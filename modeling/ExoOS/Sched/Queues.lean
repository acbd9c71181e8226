import ExoOS.Sched.Eevdf

/-!
# Where the tasks are

The scheduler without its accounting: `Shape` has the states of the tasks and the links of the lists. Each call of
`Eevdf.lean` changes the shape by a few small operations (the `shape_` lemmas), and for each of these there is one
rule for `Queues`, which says that the lists are sound and that the state of a task decides the list it is on. Tasks
a call has in hand (`held`), between two lists, are exempt.

`Frame c` is what a call on behalf of CPU `c` leaves alone: tasks of other CPUs, and tasks that are blocked or have
ended; it blocks or ends no task itself.
-/

namespace ExoOS.Sched

open Links List
open Function (comp_update update update_of_ne update_self)

variable {κ τ : Type}

structure Shape (κ τ : Type) where
  state : τ → TaskState
  cpuId : τ → κ
  next : τ → Option τ
  sleepNext : τ → Option τ
  current : κ → τ
  idle : κ → τ
  rqHead : κ → Option τ
  sleepHead : κ → Option τ
  queueLen : κ → Nat
  objs : List τ

def SchedState.shape (s : SchedState κ τ) : Shape κ τ where
  state := s.state
  cpuId t := (s.tasks t).cpuId
  next := s.next
  sleepNext := s.sleepNext
  current c := (s.cpus c).current
  idle c := (s.cpus c).idle
  rqHead c := (s.cpus c).rqHead
  sleepHead c := (s.cpus c).sleepHead
  queueLen c := (s.cpus c).queueLen
  objs := s.objs

namespace Shape

variable [DecidableEq κ] [DecidableEq τ] (v : Shape κ τ) (c : κ) (t : τ)

def Live : Prop := t ∈ v.objs ∧ ∀ c, t ≠ v.idle c

def setState (st : TaskState) : Shape κ τ := { v with state := Function.update v.state t st }

def enqueue : Shape κ τ :=
  if t = v.idle c then v
  else
    { v with
      next := Function.update v.next t (v.rqHead c)
      rqHead := Function.update v.rqHead c (some t)
      queueLen := Function.update v.queueLen c (v.queueLen c + 1) }

def unlink (prev : Option τ) : Shape κ τ :=
  { v with
    next := unlinkNext v.next t prev
    rqHead := unlinkHead v.next v.rqHead c t prev
    queueLen := Function.update v.queueLen c (v.queueLen c - 1) }

def awaken (sp : Option τ) : Shape κ τ :=
  { v with
    sleepNext := unlinkNext v.sleepNext t sp
    sleepHead := unlinkHead v.sleepNext v.sleepHead c t sp
    state := Function.update v.state t .runnable }

def requeue : Shape κ τ := (v.setState (v.current c) .runnable).enqueue c (v.current c)

def switchTo : Shape κ τ :=
  { v with state := Function.update v.state t .running, current := Function.update v.current c t }

end Shape

/-! ### The shape of the scheduler's operations -/

namespace SchedState

variable (s : SchedState κ τ) (c : κ) (t : τ)

theorem tasks_shape : (s.tasks t).state = s.shape.state t ∧ (s.tasks t).cpuId = s.shape.cpuId t ∧
    (s.tasks t).next = s.shape.next t ∧ (s.tasks t).sleepNext = s.shape.sleepNext t ∧
    s.state t = s.shape.state t ∧ s.next t = s.shape.next t ∧ s.sleepNext t = s.shape.sleepNext t :=
  ⟨rfl, rfl, rfl, rfl, rfl, rfl, rfl⟩

theorem cpus_shape : (s.cpus c).current = s.shape.current c ∧ (s.cpus c).idle = s.shape.idle c ∧
    (s.cpus c).rqHead = s.shape.rqHead c ∧ (s.cpus c).sleepHead = s.shape.sleepHead c ∧
    (s.cpus c).queueLen = s.shape.queueLen c :=
  ⟨rfl, rfl, rfl, rfl, rfl⟩

variable [DecidableEq τ]

theorem shape_modify (f : SchedTask κ τ → SchedTask κ τ) : (s.modify t f).shape = { s.shape with
      state := update s.shape.state t (f (s.tasks t)).state
      cpuId := update s.shape.cpuId t (f (s.tasks t)).cpuId
      next := update s.shape.next t (f (s.tasks t)).next
      sleepNext := update s.shape.sleepNext t (f (s.tasks t)).sleepNext } := by
  simp only [shape, modify, Shape.mk.injEq, and_true]
  exact ⟨comp_update SchedTask.state .., comp_update SchedTask.cpuId .., comp_update SchedTask.next ..,
    comp_update SchedTask.sleepNext ..⟩

theorem shape_charge : (s.charge c).shape = s.shape := by
  unfold charge
  dsimp only
  split
  · simp [shape_modify, tasks_shape]
  · rfl

theorem shape_schedSetPriority (p : Nat) : (s.schedSetPriority t p).shape = s.shape := by
  simp [schedSetPriority, shape_modify, tasks_shape]

variable [DecidableEq κ]

omit [DecidableEq τ] in
theorem shape_onCpu (f : CpuSched τ → CpuSched τ) : (s.onCpu c f).shape = { s.shape with
      current := update s.shape.current c (f (s.cpus c)).current
      idle := update s.shape.idle c (f (s.cpus c)).idle
      rqHead := update s.shape.rqHead c (f (s.cpus c)).rqHead
      sleepHead := update s.shape.sleepHead c (f (s.cpus c)).sleepHead
      queueLen := update s.shape.queueLen c (f (s.cpus c)).queueLen } := by
  simp only [shape, onCpu, Shape.mk.injEq, and_true]
  exact ⟨rfl, trivial, rfl, rfl, comp_update CpuSched.current .., comp_update CpuSched.idle ..,
    comp_update CpuSched.rqHead .., comp_update CpuSched.sleepHead .., comp_update CpuSched.queueLen ..⟩

theorem shape_setVSystem (q : List τ) : (s.setVSystem c q).shape = s.shape := by
  unfold setVSystem
  split
  · rfl
  · simp [shape_onCpu, cpus_shape]

theorem shape_rqEnqueue : (s.rqEnqueue c t).shape = s.shape.enqueue c t := by
  simp only [rqEnqueue, Shape.enqueue, cpus_shape]
  split
  · rfl
  · simp [shape_modify, shape_onCpu, tasks_shape, cpus_shape]

theorem shape_rqUnlink (prev : Option τ) : (s.rqUnlink c t prev).shape = s.shape.unlink c t prev := by
  cases prev <;>
    simp [rqUnlink, Shape.unlink, unlinkNext, unlinkHead, shape_modify, shape_onCpu, tasks_shape, cpus_shape]

theorem shape_sleepUnlink (sp : Option τ) : (s.sleepUnlink c t sp).shape = s.shape.awaken c t sp := by
  cases sp <;>
    simp [sleepUnlink, Shape.awaken, unlinkNext, unlinkHead, shape_modify, shape_onCpu, tasks_shape, cpus_shape]

theorem shape_expire : (s.expire c).shape = if s.Expired c then s.shape.requeue c else s.shape := by
  unfold expire
  split
  · simp [Shape.requeue, Shape.setState, shape_rqEnqueue, shape_modify, tasks_shape, cpus_shape]
  · rfl

theorem shape_putBack (next : τ) : (s.putBack c next).shape =
    if s.shape.state (s.shape.current c) = .running ∧ s.shape.current c ≠ next then s.shape.requeue c
    else s.shape := by
  unfold putBack
  simp only [tasks_shape, cpus_shape]
  split
  · simp [Shape.requeue, Shape.setState, shape_rqEnqueue, shape_modify, tasks_shape]
  · rfl

theorem shape_switchTo : (s.switchTo c t).shape = s.shape.switchTo c t := by
  simp [switchTo, Shape.switchTo, shape_modify, shape_onCpu, tasks_shape, cpus_shape]

end SchedState

def Shape.At (v : Shape κ τ) (held : List τ) (st : TaskState) (c : κ) (t : τ) : Prop :=
  v.Live t ∧ t ∉ held ∧ v.state t = st ∧ v.cpuId t = c

/-- The state of a task decides the list it is on; tasks in `held` are on none. -/
structure Queues (held : List τ) (rq sl : κ → List τ) (v : Shape κ τ) : Prop where
  rq_lists : Lists v.next v.rqHead rq
  sl_lists : Lists v.sleepNext v.sleepHead sl
  len : ∀ c, v.queueLen c = (rq c).length
  mem_rq : ∀ c t, t ∈ rq c ↔ v.At held .runnable c t
  mem_sl : ∀ c t, t ∈ sl c ↔ v.At held .sleeping c t
  running : ∀ c t, v.At held .running c t → v.current c = t
  current : ∀ c, v.current c = v.idle c ∨ v.Live (v.current c) ∧ v.cpuId (v.current c) = c
  idle : ∀ c, v.idle c ∈ v.objs ∧ v.cpuId (v.idle c) = c ∧
    (v.state (v.idle c) = .runnable ∨ v.state (v.idle c) = .running)
  nodup : v.objs.Nodup

namespace Shape

variable {v : Shape κ τ} {held : List τ} {st st' : TaskState} {c : κ} {t x : τ}

theorem at_cons : v.At (t :: held) st c x ↔ v.At held st c x ∧ x ≠ t := by
  simp only [At, mem_cons, not_or]
  tauto

theorem at_cons_of_ne (ht : v.Live t → v.state t ≠ st) : v.At (t :: held) st c x ↔ v.At held st c x := by
  rw [at_cons, and_iff_left_iff_imp]
  rintro ⟨hl, -, hst, -⟩ rfl
  exact ht hl hst

variable [DecidableEq τ]

theorem at_setState (ht : t ∈ held) : (v.setState t st').At held st c x ↔ v.At held st c x := by
  refine and_congr_right fun _ => and_congr_right fun hx => ?_
  rw [show (v.setState t st').state x = v.state x from update_of_ne (fun e : x = t => hx (e ▸ ht)) _ _]
  rfl

variable [DecidableEq κ]

theorem enqueue_idle (ht : t = v.idle c) : v.enqueue c t = v := if_pos ht

theorem mem_push {q : κ → List τ} (hq : ∀ d x, x ∈ q d ↔ v.At (t :: held) st d x) (ht : v.At held st c t) (d : κ)
    (x : τ) : x ∈ update q c (t :: q c) d ↔ v.At held st d x := by
  by_cases hd : d = c
  · subst hd
    rw [update_self, mem_cons, hq, at_cons]
    constructor
    · rintro (rfl | hx)
      · exact ht
      · exact hx.1
    · intro hx
      by_cases hxt : x = t
      · exact .inl hxt
      · exact .inr ⟨hx, hxt⟩
  · rw [update_of_ne hd, hq, at_cons, and_iff_left_iff_imp]
    rintro ⟨-, -, -, hx⟩ rfl
    exact hd (hx.symm.trans ht.2.2.2)

end Shape

namespace Queues

variable {held : List τ} {rq sl : κ → List τ} {v : Shape κ τ} {c : κ} {t : τ} {st : TaskState}
  {l1 l2 : List τ}

section

variable (h : Queues held rq sl v)
include h

theorem length_le_objs (c : κ) : (rq c).length ≤ v.objs.length :=
  ((h.rq_lists.chain c).nodup.subperm fun t ht => ((h.mem_rq c t).1 ht).1.1).length_le

theorem sleepers_le_objs (c : κ) : (sl c).length ≤ v.objs.length :=
  ((h.sl_lists.chain c).nodup.subperm fun t ht => ((h.mem_sl c t).1 ht).1.1).length_le

theorem hold (hr : v.Live t → v.state t ≠ .runnable)
    (hs : v.Live t → v.state t ≠ .sleeping) : Queues (t :: held) rq sl v where
  __ := h
  mem_rq c x := (h.mem_rq c x).trans (Shape.at_cons_of_ne hr).symm
  mem_sl c x := (h.mem_sl c x).trans (Shape.at_cons_of_ne hs).symm
  running c x hx := h.running c x (Shape.at_cons.1 hx).1

theorem cpuId_current (c : κ) : v.cpuId (v.current c) = c := by
  rcases h.current c with hi | hl
  · rw [hi]; exact (h.idle c).2.1
  · exact hl.2

variable [DecidableEq τ]

omit h in
theorem release (h : Queues (t :: held) rq sl v) (hr : v.Live t → v.state t ≠ .runnable)
    (hs : v.Live t → v.state t ≠ .sleeping)
    (hc : v.Live t → v.state t = .running → v.current (v.cpuId t) = t) : Queues held rq sl v where
  __ := h
  mem_rq c x := (h.mem_rq c x).trans (Shape.at_cons_of_ne hr)
  mem_sl c x := (h.mem_sl c x).trans (Shape.at_cons_of_ne hs)
  running c x hx := by
    by_cases hxt : x = t
    · obtain ⟨hl, -, hst, rfl⟩ := hx
      subst hxt
      exact hc hl hst
    · exact h.running c x (Shape.at_cons.2 ⟨hx, hxt⟩)

theorem setState (ht : t ∈ held) (hi : v.Live t ∨ st = .runnable ∨ st = .running) :
    Queues held rq sl (v.setState t st) where
  __ := h
  mem_rq c x := (h.mem_rq c x).trans (Shape.at_setState ht).symm
  mem_sl c x := (h.mem_sl c x).trans (Shape.at_setState ht).symm
  running c x hx := h.running c x ((Shape.at_setState ht).1 hx)
  idle c := by
    obtain ⟨ho, hcpu, hst⟩ := h.idle c
    refine ⟨ho, hcpu, ?_⟩
    show update v.state t st (v.idle c) = _ ∨ update v.state t st (v.idle c) = _
    by_cases hxt : v.idle c = t
    · rw [hxt, update_self]
      exact hi.resolve_left fun hl => hl.2 c hxt.symm
    · rw [update_of_ne hxt]
      exact hst

end

variable [DecidableEq κ] [DecidableEq τ]

theorem enqueue (h : Queues (t :: held) rq sl v) (ht : v.At held .runnable c t) :
    Queues held (update rq c (t :: rq c)) sl (v.enqueue c t) := by
  have hst := ht.2.2.1
  rw [Shape.enqueue, if_neg (ht.1.2 c)]
  have hnot : ∀ d, t ∉ rq d := fun d hd => by simpa using ((h.mem_rq d t).1 hd).2.1
  refine
    { h with
      rq_lists := h.rq_lists.push hnot
      len := fun d => ?_
      mem_rq := Shape.mem_push h.mem_rq ht
      mem_sl := fun d x => (h.mem_sl d x).trans (Shape.at_cons_of_ne fun _ => by simp [hst])
      running := fun d x hx => h.running d x ((Shape.at_cons_of_ne fun _ => by simp [hst]).2 hx) }
  by_cases hd : d = c
  · subst hd; simp [h.len d]
  · simp [hd, h.len d]

section

variable (h : Queues held rq sl v)
include h

theorem unlink (hq : rq c = l1 ++ t :: l2) :
    Queues (t :: held) (update rq c (l1 ++ l2)) sl (v.unlink c t l1.getLast?) := by
  have ht : v.At held .runnable c t := (h.mem_rq c t).1 (by simp [hq])
  refine { h with rq_lists := h.rq_lists.unlink hq, len := ?_, mem_rq := ?_, mem_sl := ?_, running := ?_ }
  · intro d
    have := h.len d
    by_cases hd : d = c
    · subst hd
      simp only [Shape.unlink, update_self, this, hq, length_append, length_cons]
      omega
    · simpa [Shape.unlink, hd] using this
  · intro d x
    rw [h.rq_lists.mem_unlink hq, h.mem_rq]
    exact Shape.at_cons.symm
  · exact fun d x => (h.mem_sl d x).trans (Shape.at_cons_of_ne fun _ => by simp [ht.2.2.1]).symm
  · exact fun d x hx => h.running d x (Shape.at_cons.1 hx).1

theorem awaken (hq : sl c = l1 ++ t :: l2) :
    Queues (t :: held) rq (update sl c (l1 ++ l2)) (v.awaken c t l1.getLast?) := by
  have ht : v.At held .sleeping c t := (h.mem_sl c t).1 (by simp [hq])
  have h' : Queues (t :: held) rq (update sl c (l1 ++ l2))
      { v with
        sleepNext := unlinkNext v.sleepNext t l1.getLast?
        sleepHead := unlinkHead v.sleepNext v.sleepHead c t l1.getLast? } := by
    refine { h with sl_lists := h.sl_lists.unlink hq, mem_rq := ?_, mem_sl := ?_, running := ?_ }
    · exact fun d x => (h.mem_rq d x).trans (Shape.at_cons_of_ne fun _ => by simp [ht.2.2.1]).symm
    · intro d x
      rw [h.sl_lists.mem_unlink hq, h.mem_sl]
      exact Shape.at_cons.symm
    · exact fun d x hx => h.running d x (Shape.at_cons.1 hx).1
  exact h'.setState mem_cons_self (.inr (.inl rfl))

theorem requeue (hcur : v.state (v.current c) = .running) (hh : v.current c ∉ held) :
    Queues held (if v.current c = v.idle c then rq else update rq c (v.current c :: rq c)) sl (v.requeue c) := by
  have h' : Queues (v.current c :: held) rq sl (v.setState (v.current c) .runnable) :=
    (h.hold (fun _ => by simp [hcur]) (fun _ => by simp [hcur])).setState mem_cons_self (.inr (.inl rfl))
  rw [Shape.requeue]
  split
  · rename_i hi
    rw [Shape.enqueue_idle (v := v.setState (v.current c) .runnable) hi]
    -- the idle task is on no list
    exact h'.release (fun hl => absurd hi (hl.2 c)) (fun hl => absurd hi (hl.2 c)) (fun hl => absurd hi (hl.2 c))
  · rename_i hi
    obtain ⟨hl, hcpu⟩ := (h.current c).resolve_left hi
    exact h'.enqueue ⟨hl, hh, update_self .., hcpu⟩

end

theorem switchTo (h : Queues [t] rq sl v) (ht : t = v.idle c ∨ v.Live t ∧ v.cpuId t = c)
    (hnone : ∀ x, ¬ v.At [t] .running c x) : Queues [] rq sl (v.switchTo c t) := by
  have h' : Queues [t] rq sl (v.setState t .running) := h.setState (mem_singleton_self t) (.inr (.inr rfl))
  have h'' : Queues [t] rq sl (v.switchTo c t) := by
    refine { h' with running := ?_, current := ?_ }
    · intro d x hx
      have hx' : v.At [t] .running d x := (Shape.at_setState (mem_singleton_self t)).1 hx
      by_cases hd : d = c
      · subst hd; exact absurd hx' (hnone x)
      · exact (update_of_ne hd ..).trans (h.running d x hx')
    · intro d
      by_cases hd : d = c
      · subst hd
        rwa [show (v.switchTo d t).current d = t from update_self ..]
      · rw [show (v.switchTo c t).current d = v.current d from update_of_ne hd ..]
        exact h.current d
  have hst : (v.switchTo c t).state t = .running := update_self ..
  refine h''.release (fun _ => by simp [hst]) (fun _ => by simp [hst]) fun hl _ => ?_
  have hcpu : v.cpuId t = c := (ht.resolve_left fun e => hl.2 c e).2
  show update v.current c t (v.cpuId t) = t
  rw [hcpu, update_self]

end Queues

/-! ### What a call leaves alone -/

def TaskState.Off (st : TaskState) : Prop := st = .blocked ∨ st = .zombie ∨ st = .dead

theorem TaskState.off_blocked : Off .blocked := .inl rfl

theorem TaskState.off_zombie : Off .zombie := .inr (.inl rfl)

theorem TaskState.off_dead : Off .dead := .inr (.inr rfl)

theorem Queues.live_of_off {held : List τ} {rq sl : κ → List τ} {v : Shape κ τ} {t : τ} (h : Queues held rq sl v)
    (ht : t ∈ v.objs) (hst : (v.state t).Off) : v.Live t := by
  refine ⟨ht, fun d hd => ?_⟩
  rw [hd] at hst
  rcases (h.idle d).2.2 with hi | hi <;> simp [hi, TaskState.Off] at hst

def Shape.Open (v : Shape κ τ) (c : κ) (t : τ) : Prop := v.cpuId t = c ∧ ¬ (v.state t).Off

structure Frame (c : κ) (v v' : Shape κ τ) : Prop where
  cpuId : v'.cpuId = v.cpuId
  idle : v'.idle = v.idle
  objs : v'.objs = v.objs
  current : ∀ d, d ≠ c → v'.current d = v.current d
  task : ∀ x, ¬ v.Open c x → v'.state x = v.state x ∧ v'.next x = v.next x
  on : ∀ x, ¬ (v.state x).Off → ¬ (v'.state x).Off

namespace Frame

variable {c : κ} {t : τ} {v v' v'' : Shape κ τ} {st : TaskState} {held : List τ} {rq sl : κ → List τ}
  {l1 l2 : List τ}

theorem refl : Frame c v v := ⟨rfl, rfl, rfl, fun _ _ => rfl, fun _ _ => ⟨rfl, rfl⟩, fun _ => id⟩

theorem trans (h : Frame c v v') (h' : Frame c v' v'') : Frame c v v'' where
  cpuId := h'.cpuId.trans h.cpuId
  idle := h'.idle.trans h.idle
  objs := h'.objs.trans h.objs
  current d hd := (h'.current d hd).trans (h.current d hd)
  task x hx := by
    obtain ⟨hs, hn⟩ := h.task x hx
    have hx' : ¬ v'.Open c x := by rwa [Shape.Open, h.cpuId, hs]
    obtain ⟨hs', hn'⟩ := h'.task x hx'
    exact ⟨hs'.trans hs, hn'.trans hn⟩
  on x hx := h'.on x (h.on x hx)

theorem ne_blocked (h : Frame c v v') (ht : v.state t ≠ .blocked) : v'.state t ≠ .blocked := by
  by_cases hoff : (v.state t).Off
  · rwa [(h.task t fun ho => ho.2 hoff).1]
  · exact fun hb => h.on t hoff (.inl hb)

variable [DecidableEq τ]

theorem setState (ht : v.Open c t) (hst : ¬ st.Off) : Frame c v (v.setState t st) where
  __ := refl (v := v)
  task x hx := ⟨update_of_ne (fun e : x = t => hx (e ▸ ht)) .., rfl⟩
  on x hx := by
    show ¬ (update v.state t st x).Off
    by_cases hxt : x = t
    · subst hxt
      rwa [update_self]
    · rwa [update_of_ne hxt]

variable [DecidableEq κ]

theorem enqueue (ht : v.Open c t) : Frame c v (v.enqueue c t) := by
  rw [Shape.enqueue]
  split
  · exact refl
  · exact { refl (v := v) with
      task := fun x hx => ⟨rfl, update_of_ne (fun e : x = t => hx (e ▸ ht)) ..⟩ }

section

variable (h : Queues held rq sl v)
include h

omit [DecidableEq κ] [DecidableEq τ] in
theorem mem_open (ht : t ∈ rq c) : v.Open c t := by
  obtain ⟨-, -, hst, hcpu⟩ := (h.mem_rq c t).1 ht
  exact ⟨hcpu, by simp [hst, TaskState.Off]⟩

theorem unlink (hq : rq c = l1 ++ t :: l2) : Frame c v (v.unlink c t l1.getLast?) := by
  refine { refl (v := v) with task := fun x hx => ⟨rfl, ?_⟩ }
  have hne : ∀ y ∈ rq c, x ≠ y := fun y hy e => hx (e ▸ mem_open h hy)
  rcases l1.eq_nil_or_concat with rfl | ⟨l, p, rfl⟩
  · exact update_of_ne (hne t (by simp [hq])) ..
  · simp [Shape.unlink, unlinkNext, hne t (by simp [hq]), hne p (by simp [hq])]

theorem awaken (ht : t ∈ sl c) (sp : Option τ) : Frame c v (v.awaken c t sp) := by
  obtain ⟨-, -, hst, hcpu⟩ := (h.mem_sl c t).1 ht
  have hf : Frame c v (v.setState t .runnable) :=
    setState ⟨hcpu, by simp [hst, TaskState.Off]⟩ (by simp [TaskState.Off])
  exact { refl (v := v) with task := hf.task, on := hf.on }

theorem requeue (hcur : v.state (v.current c) = .running) : Frame c v (v.requeue c) :=
  (setState ⟨h.cpuId_current c, by simp [hcur, TaskState.Off]⟩ (by simp [TaskState.Off])).trans
    (enqueue ⟨h.cpuId_current c, by simp [Shape.setState, TaskState.Off]⟩)

end

theorem switchTo (ht : v.Open c t) : Frame c v (v.switchTo c t) where
  __ : Frame c v (v.setState t .running) := setState ht (by simp [TaskState.Off])
  current _ hd := update_of_ne hd ..

end Frame

namespace Shape

variable [DecidableEq κ] [DecidableEq τ] {v : Shape κ τ} {c : κ} {t : τ}

theorem requeue_state (v : Shape κ τ) (c : κ) : (v.requeue c).state = update v.state (v.current c) .runnable := by
  rw [requeue, enqueue]
  split <;> rfl

theorem requeue_current (v : Shape κ τ) (c : κ) : (v.requeue c).current = v.current := by
  rw [requeue, enqueue]
  split <;> rfl

def handOver (v : Shape κ τ) (c : κ) (t : τ) : Shape κ τ :=
  (if v.state (v.current c) = .running ∧ v.current c ≠ t then v.requeue c else v).switchTo c t

theorem handOver_current (v : Shape κ τ) (c : κ) (t : τ) : (v.handOver c t).current c = t := update_self ..

theorem handOver_idle (v : Shape κ τ) (c : κ) (t : τ) : (v.handOver c t).idle = v.idle := by
  rw [handOver, requeue, enqueue]
  split
  · split <;> rfl
  · rfl

theorem handOver_sleepHead (v : Shape κ τ) (c : κ) (t : τ) : (v.handOver c t).sleepHead = v.sleepHead := by
  rw [handOver, requeue, enqueue]
  split
  · split <;> rfl
  · rfl

theorem handOver_state (v : Shape κ τ) (c : κ) (t : τ) : (v.handOver c t).state t = .running := update_self ..

theorem handOver_state_eq (h : v.state (v.current c) = .running) (ht : v.current c ≠ t) :
    (v.handOver c t).state = update (update v.state (v.current c) .runnable) t .running := by
  rw [handOver, if_pos ⟨h, ht⟩, switchTo, requeue_state]

end Shape

variable [DecidableEq κ] [DecidableEq τ]

theorem Queues.handOver {rq sl : κ → List τ} {v : Shape κ τ} {c : κ} {t : τ} (h : Queues [t] rq sl v)
    (ht : t = v.idle c ∨ v.Live t ∧ v.cpuId t = c) (ho : v.Open c t) :
    (∃ rq', Queues [] rq' sl (v.handOver c t)) ∧ Frame c v (v.handOver c t) := by
  rw [Shape.handOver]
  split
  · rename_i hp
    have hq := h.requeue hp.1 (by simp [hp.2])
    have hf := Frame.requeue h hp.1
    have hst : (v.requeue c).state t = v.state t := by
      rw [v.requeue_state, update_of_ne (Ne.symm hp.2)]
    refine ⟨⟨_, hq.switchTo ?_ ?_⟩, hf.trans (.switchTo ?_)⟩
    · rwa [Shape.Live, hf.idle, hf.objs, hf.cpuId]
    · intro x hx
      have hcur := hq.running c x hx
      rw [v.requeue_current] at hcur
      have hrun := hx.2.2.1
      rw [← hcur, v.requeue_state, update_self] at hrun
      cases hrun
    · rwa [Shape.Open, hf.cpuId, hst]
  · rename_i hp
    refine ⟨⟨_, h.switchTo ht ?_⟩, .switchTo ho⟩
    intro x hx
    have hcur := h.running c x hx
    refine hp ⟨hcur ▸ hx.2.2.1, ?_⟩
    rw [hcur]
    simpa using hx.2.1

namespace SchedState

variable {s : SchedState κ τ} {rq sl : κ → List τ} {held : List τ} {c : κ} {t : τ} {l1 l2 : List τ}

theorem expire_queues (h : Queues [] rq sl s.shape) : ∃ rq', Queues [] rq' sl ((s.charge c).expire c).shape ∧
    Frame c s.shape ((s.charge c).expire c).shape := by
  rw [shape_expire, shape_charge]
  split
  · rename_i he
    have hcur : s.shape.state (s.shape.current c) = .running := by
      rw [← shape_charge s c]
      exact he.1
    exact ⟨_, h.requeue hcur (by simp), .requeue h hcur⟩
  · exact ⟨rq, h, .refl⟩

/-- What waking sleepers among `l` has done to the rest of CPU `c`. -/
structure Woken (c : κ) (l : List τ) (rq : κ → List τ) (s : SchedState κ τ) (rq' : κ → List τ)
    (s' : SchedState κ τ) : Prop where
  current : s'.shape.current = s.shape.current
  running : ∀ x, s'.state x = .running ↔ s.state x = .running
  empty : rq' c = [] ↔ rq c = [] ∧ ∀ t ∈ l, s.jiffies < (s.tasks t).sleepDeadline

section

variable (h : Queues [] rq sl s.shape)
include h

theorem wakeFrom_queues {n : Nat} (hsl : sl c = l1 ++ l2) (hn : l2.length ≤ n) :
    ∃ s' rq' sl', wakeFrom c n l1.getLast? l2.head? s = some s' ∧ Queues [] rq' sl' s'.shape ∧
      Frame c s.shape s'.shape ∧ Woken c l2 rq s rq' s' := by
  induction l2 generalizing n s rq sl l1 with
  | nil => exact ⟨s, rq, sl, by cases n <;> rfl, h, .refl, rfl, fun _ => .rfl, by simp⟩
  | cons t l ih =>
    obtain ⟨n, rfl⟩ : ∃ m, n = m + 1 := ⟨n - 1, by simp at hn; omega⟩
    have hn' : l.length ≤ n := by simpa using hn
    have hnext : s.sleepNext t = l.head? := (hsl ▸ h.sl_lists.chain c).next_eq
    obtain ⟨hl, -, hst, hcpu⟩ := (h.mem_sl c t).1 (by simp [hsl])
    simp only [head?_cons, wakeFrom, hnext]
    split
    · have ht : (s.shape.awaken c t l1.getLast?).At [] .runnable c t := ⟨hl, by simp, update_self .., hcpu⟩
      have he := (h.awaken hsl).enqueue ht
      have hshape : ((s.sleepUnlink c t l1.getLast?).rqEnqueue c t).shape =
          (s.shape.awaken c t l1.getLast?).enqueue c t := by rw [shape_rqEnqueue, shape_sleepUnlink]
      have hen : ((s.shape.awaken c t l1.getLast?).enqueue c t).state = update s.state t .runnable ∧
          ((s.shape.awaken c t l1.getLast?).enqueue c t).current = s.shape.current := by
        rw [Shape.enqueue]
        split <;> exact ⟨rfl, rfl⟩
      rw [← hshape] at he hen
      obtain ⟨s', rq', sl', hs', hq', hf, hw⟩ := ih he (update_self ..) hn'
      refine ⟨s', rq', sl', hs', hq', .trans ?_ hf, hw.current.trans hen.2, fun x => ?_, ?_⟩
      · rw [hshape]
        refine (Frame.awaken h (by simp [hsl]) _).trans (Frame.enqueue ⟨hcpu, ?_⟩)
        simp [ht.2.2.1, TaskState.Off]
      · rw [hw.running, show SchedState.state _ x = _ from congrFun hen.1 x]
        by_cases hx : x = t
        · subst hx; simp [show s.state x = .sleeping from hst]
        · rw [update_of_ne hx]
      · -- a sleeper that is due leaves neither the queue empty nor the condition true
        refine ⟨fun e => ?_, fun e => absurd (e.2 t mem_cons_self) (by omega)⟩
        simpa using (hw.empty.1 e).1
    · have hl : sl c = (l1 ++ [t]) ++ l := by simp [hsl]
      obtain ⟨s', rq', sl', hs', hq', hf, hw⟩ := ih h hl hn'
      refine ⟨s', rq', sl', by simpa using hs', hq', hf, hw.current, hw.running, ?_⟩
      rw [hw.empty, forall_mem_cons]
      have : s.jiffies < (s.tasks t).sleepDeadline := by omega
      tauto

theorem wakeSleepers_queues : ∃ s' rq' sl', s.wakeSleepers c = some s' ∧
    Queues [] rq' sl' s'.shape ∧ Frame c s.shape s'.shape ∧ Woken c (sl c) rq s rq' s' := by
  have hhead : (s.cpus c).sleepHead = (sl c).head? := (h.sl_lists.chain c).head?_eq
  rw [wakeSleepers, hhead]
  exact wakeFrom_queues h (show sl c = [] ++ sl c from rfl) (h.sleepers_le_objs c)

theorem atSelection_queues : ∃ s' rq' sl', s.atSelection c = some s' ∧
    Queues [] rq' sl' s'.shape ∧ Frame c s.shape s'.shape := by
  obtain ⟨rq1, h1, hf1⟩ := expire_queues (c := c) h
  obtain ⟨s', rq', sl', hs', h', hf', -⟩ := wakeSleepers_queues (c := c) h1
  exact ⟨s', rq', sl', hs', h', hf1.trans hf'⟩

omit h [DecidableEq κ] [DecidableEq τ] in
theorem best_split {q : List τ} {prev : Option τ} (hb : s.best c q = some (prev, t)) :
    ∃ l1 l2, q = l1 ++ t :: l2 ∧ prev = l1.getLast? := by
  rcases Option.or_eq_some_iff.1 hb with hb | ⟨-, hb⟩ <;> exact (least_eq_some hb).2.2.2

omit h in
theorem rqDequeue_cases (h : Queues held rq sl s.shape) : s.rqDequeue c = some (none, s) ∧ rq c = [] ∨
    s.rqDequeue c = some (none, s.setVSystem c (rq c)) ∧ rq c ≠ [] ∧ (s.setVSystem c (rq c)).best c (rq c) = none ∨
    ∃ t l1 l2, rq c = l1 ++ t :: l2 ∧ (s.setVSystem c (rq c)).best c (rq c) = some (l1.getLast?, t) ∧
      s.rqDequeue c = some (some t, (s.setVSystem c (rq c)).rqUnlink c t l1.getLast?) := by
  have hc : Chain s.next (s.cpus c).rqHead (rq c) := h.rq_lists.chain c
  have hhead := hc.head?_eq
  rw [rqDequeue]
  split
  · rename_i hnone
    exact .inl ⟨rfl, head?_eq_none_iff.1 (hhead.symm.trans hnone)⟩
  rename_i hsome
  have hne : rq c ≠ [] := fun e => hsome (by rw [hhead, e]; rfl)
  have hlen : (rq c).length ≤ s.objs.length := h.length_le_objs c
  rw [hc.walk hlen]
  rcases hb : (s.setVSystem c (rq c)).best c (rq c) with _ | ⟨prev, t⟩
  · exact .inr (.inl ⟨by simp [hb], hne, rfl⟩)
  · obtain ⟨l1, l2, hq, rfl⟩ := best_split hb
    exact .inr (.inr ⟨t, l1, l2, hq, rfl, by simp [hb]⟩)

theorem rqDequeue_queues : ∃ o s' rq', s.rqDequeue c = some (o, s') ∧
    Queues o.toList rq' sl s'.shape ∧ Frame c s.shape s'.shape ∧ s'.shape.current = s.shape.current ∧
    s'.shape.state = s.shape.state ∧ ∀ t ∈ o, t ∈ rq c := by
  rcases rqDequeue_cases (c := c) h with ⟨hd, -⟩ | ⟨hd, -, -⟩ | ⟨t, l1, l2, hq, -, hd⟩
  · exact ⟨none, s, rq, hd, h, .refl, rfl, rfl, by simp⟩
  · refine ⟨none, _, rq, hd, ?_, ?_, ?_, ?_, by simp⟩ <;> rw [shape_setVSystem]
    exacts [h, .refl]
  · refine ⟨some t, _, update rq c (l1 ++ l2), hd, ?_, ?_, ?_, ?_, ?_⟩
    any_goals rw [shape_rqUnlink, shape_setVSystem]
    · exact h.unlink hq
    · exact .unlink h hq
    · rfl
    · rfl
    · rintro _ ⟨⟩
      simp [hq]

theorem pick_eq : s.pick c = (s.rqDequeue c).map fun r => (r.1, [], r.2) := by
  obtain ⟨o, s', rq', hd, -, -, -, hst, ho⟩ := rqDequeue_queues (c := c) h
  rw [pick, pickFrom, hd]
  cases o with
  | none => rfl
  | some t =>
    have hrun : s'.state t = .runnable := (congrFun hst t).trans ((h.mem_rq c t).1 (ho t rfl)).2.2.1
    simp [hrun]

theorem schedTick_eq : ∃ s1 rq1 sl1 o s2, s.atSelection c = some s1 ∧
    Queues [] rq1 sl1 s1.shape ∧ Frame c s.shape s1.shape ∧ s1.rqDequeue c = some (o, s2) ∧
    s.schedTick c = some ((s2.putBack c (o.getD (s1.cpus c).idle)).switchTo c (o.getD (s1.cpus c).idle)) := by
  obtain ⟨s1, rq1, sl1, hs1, h1, hf1⟩ := atSelection_queues (c := c) h
  obtain ⟨o, s2, rq2, hd, -⟩ := rqDequeue_queues (c := c) h1
  refine ⟨s1, rq1, sl1, o, s2, hs1, h1, hf1, hd, ?_⟩
  rw [schedTick, hs1, Option.bind_some, pick_eq h1, hd]
  rfl

omit h in
theorem shape_handOver (s : SchedState κ τ) (c : κ) (t : τ) :
    ((s.putBack c t).switchTo c t).shape = s.shape.handOver c t := by
  rw [shape_switchTo, shape_putBack]
  rfl

theorem schedTick_queues : ∃ s' rq' sl', s.schedTick c = some s' ∧
    Queues [] rq' sl' s'.shape ∧ Frame c s.shape s'.shape ∧
    s'.shape.state (s'.shape.current c) = .running := by
  obtain ⟨s1, rq1, sl1, o, s2, -, h1, hf1, hd, htick⟩ := schedTick_eq (c := c) h
  obtain ⟨o', s2', rq2, hd', h2, hf2, -, hst2, ho⟩ := rqDequeue_queues (c := c) h1
  obtain ⟨rfl, rfl⟩ : o = o' ∧ s2 = s2' := by simpa using hd.symm.trans hd'
  have hnx : ∃ rq', Queues [o.getD (s1.cpus c).idle] rq' sl1 s2.shape ∧ (o.getD (s1.cpus c).idle = s2.shape.idle c ∨
        s2.shape.Live (o.getD (s1.cpus c).idle) ∧ s2.shape.cpuId (o.getD (s1.cpus c).idle) = c) ∧
      s2.shape.Open c (o.getD (s1.cpus c).idle) := by
    cases o with
    | none =>
      have hi : (s1.cpus c).idle = s2.shape.idle c := (congrFun hf2.idle c).symm
      refine ⟨rq2, ?_, .inl hi, ?_⟩ <;> simp only [Option.getD_none, hi]
      · exact h2.hold (fun hl => absurd rfl (hl.2 c)) (fun hl => absurd rfl (hl.2 c))
      · refine ⟨(h2.idle c).2.1, ?_⟩
        rcases (h2.idle c).2.2 with e | e <;> simp [e, TaskState.Off]
    | some t =>
      obtain ⟨hl, -, hst, hcpu⟩ := (h1.mem_rq c t).1 (ho t rfl)
      rw [Shape.Live, ← hf2.objs, ← hf2.idle] at hl
      rw [← hf2.cpuId] at hcpu
      rw [← hst2] at hst
      exact ⟨rq2, h2, .inr ⟨hl, hcpu⟩, hcpu, by simp [hst, TaskState.Off]⟩
  obtain ⟨rq3, h3, ht, hopen⟩ := hnx
  obtain ⟨⟨rq', h'⟩, hf'⟩ := h3.handOver ht hopen
  refine ⟨_, rq', sl1, htick, ?_, ?_, ?_⟩ <;> rw [shape_handOver]
  · exact h'
  · exact (hf1.trans hf2).trans hf'
  · rw [Shape.handOver_current, Shape.handOver_state]

end

end SchedState

end ExoOS.Sched
