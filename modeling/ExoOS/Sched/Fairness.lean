import ExoOS.Lib.LeastFirst
import ExoOS.Sched.Conserve

/-!
# How far virtual runtimes drift apart

Tasks that are always ready to run share a CPU. At each tick the running task is charged and, since its slice is not
over, `rq_dequeue` chooses among the others: the tick is a round of `LeastFirst`. So the runtimes stay together if no
task outweighs the others together, and drift apart without bound if one does.
-/

namespace ExoOS.Sched

open Function LeastFirst Links SchedState Transition List

variable {κ τ : Type}

/-! ### The accounts of the tasks -/

structure Account where
  vruntime : Nat
  deadline : Nat
  weight : Nat
  sliceTicks : Nat
  ticksUsed : Nat
  initialized : Bool

def SchedTask.account (k : SchedTask κ τ) : Account :=
  ⟨k.vruntime, k.deadline, k.weight, k.sliceTicks, k.ticksUsed, k.vruntimeInitialized⟩

namespace SchedState

variable (s : SchedState κ τ) (c : κ) (t : τ)

def account (t : τ) : Account := (s.tasks t).account

variable [DecidableEq τ]

theorem account_modify (f : SchedTask κ τ → SchedTask κ τ) :
    (s.modify t f).account = update s.account t (f (s.tasks t)).account :=
  funext fun x => apply_update (fun _ => SchedTask.account) s.tasks t _ x

theorem account_modify_same {f : SchedTask κ τ → SchedTask κ τ}
    (hf : (f (s.tasks t)).account = (s.tasks t).account) : (s.modify t f).account = s.account := by
  rw [account_modify, hf]
  exact update_eq_self t s.account

theorem account_charge {s : SchedState κ τ} {c : κ} {p : τ} (hp : (s.cpus c).current = p)
    (hst : s.state p = .running) (hi : p ≠ (s.cpus c).idle) (hw : (s.account p).weight ≠ 0) :
    (s.charge c).account = update s.account p { s.account p with
      vruntime := ((s.account p).vruntime + EEVDF_TICK_SCALE / (s.account p).weight) % 2 ^ 64
      ticksUsed := (s.account p).ticksUsed + 1 } := by
  subst hp
  rw [charge, if_pos hst, account_modify]
  simp only [SchedTask.account, account] at hw ⊢
  rw [if_neg hi, if_neg hw]

variable [DecidableEq κ]

omit [DecidableEq τ] in
theorem account_onCpu (f : CpuSched τ → CpuSched τ) : (s.onCpu c f).account = s.account := rfl

theorem account_setVSystem (q : List τ) : (s.setVSystem c q).account = s.account := by
  rw [setVSystem]
  split <;> rfl

theorem account_rqUnlink (prev : Option τ) : (s.rqUnlink c t prev).account = s.account := by
  cases prev with
  | none =>
    rw [rqUnlink, account_onCpu, account_modify_same, account_onCpu]
    rfl
  | some p =>
    rw [rqUnlink, account_onCpu, account_modify_same, account_modify_same] <;> rfl

theorem account_rqEnqueue (ht : t ≠ (s.cpus c).idle) (hi : (s.account t).initialized)
    (hv : (s.cpus c).vSystem ≤ (s.account t).vruntime) (hw : (s.account t).weight ≠ 0) :
    (s.rqEnqueue c t).account = update s.account t { s.account t with
      deadline := ((s.account t).vruntime + (s.account t).sliceTicks * EEVDF_TICK_SCALE / (s.account t).weight) % 2 ^ 64
      } := by
  have hcaught : caughtUp (s.cpus c).vSystem (s.tasks t) = (s.tasks t).vruntime := by
    have hv' : (s.cpus c).vSystem ≤ (s.tasks t).vruntime := hv
    rw [caughtUp, if_neg (by simpa [account, SchedTask.account] using hi), if_neg (by omega)]
  rw [rqEnqueue, if_neg ht]
  rw [account_onCpu, account_modify]
  simp only [SchedTask.account, account] at hi hw ⊢
  rw [hcaught, if_neg hw, hi]

theorem account_rqEnqueue_ne {x : τ} (hx : x ≠ t) : (s.rqEnqueue c t).account x = s.account x := by
  rw [rqEnqueue]
  split
  · rfl
  · rw [account_onCpu, account_modify, update_of_ne hx]

theorem account_expire_ne {x : τ} (hx : x ≠ (s.cpus c).current) : ((s.charge c).expire c).account x = s.account x := by
  have hcur : ((s.charge c).cpus c).current = (s.cpus c).current :=
    congrFun (congrArg Shape.current (shape_charge s c)) c
  have hch : (s.charge c).account x = s.account x := by
    rw [charge]
    split
    · rw [account_modify, update_of_ne hx]
    · rfl
  rw [expire]
  split
  · rw [hcur, account_rqEnqueue_ne _ _ _ hx, account_modify, update_of_ne hx, hch]
  · exact hch

theorem account_putBack {s : SchedState κ τ} {c : κ} {p t : τ} (hp : (s.cpus c).current = p)
    (hst : s.state p = .running) (ht : p ≠ t) (hidle : p ≠ (s.cpus c).idle) (hi : (s.account p).initialized)
    (hv : (s.cpus c).vSystem ≤ (s.account p).vruntime) (hw : (s.account p).weight ≠ 0) :
    (s.putBack c t).account = update s.account p { s.account p with
      deadline := ((s.account p).vruntime + (s.account p).sliceTicks * EEVDF_TICK_SCALE / (s.account p).weight) % 2 ^ 64
      } := by
  subst hp
  have hacc : (s.modify (s.cpus c).current fun k => { k with state := .runnable }).account = s.account :=
    account_modify_same s _ rfl
  rw [putBack, if_pos ⟨hst, ht⟩]
  refine (account_rqEnqueue (s.modify (s.cpus c).current fun k => { k with state := .runnable }) c
    (s.cpus c).current hidle ?_ ?_ ?_).trans ?_ <;> rw [hacc]
  exacts [hi, hv, hw]

theorem vSystem_handOver : (((s.putBack c t).switchTo c t).cpus c).vSystem = (s.cpus c).vSystem := by
  have hput : ((s.putBack c t).cpus c).vSystem = (s.cpus c).vSystem := by
    rw [putBack]
    split
    · rw [rqEnqueue]
      split
      · rfl
      · simp [onCpu, modify]
    · rfl
  rw [← hput]
  simp [switchTo, onCpu, modify]

theorem wakeSleepers_none {s : SchedState κ τ} {c : κ} (h : s.shape.sleepHead c = none) :
    s.wakeSleepers c = some s := by
  rw [wakeSleepers, show (s.cpus c).sleepHead = none from h]
  cases s.objs.length <;> rfl

theorem account_switchTo : (s.switchTo c t).account = update s.account t { s.account t with ticksUsed := 0 } := by
  rw [switchTo, account_onCpu, account_modify]
  rfl

end SchedState

/-! ### The choice at a tick -/

namespace SchedState

variable [DecidableEq κ] [DecidableEq τ] {s s1 : SchedState κ τ} {c : κ} {rq sl : κ → List τ}

theorem schedTick_least (h : Rest rq sl s.shape) (hs1 : s.atSelection c = some s1)
    (h1 : Queues [] rq sl s1.shape) (hne : rq c ≠ [])
    (hlt : ∀ x ∈ rq c, (s1.account x).vruntime < U64_MAX) :
    ∃ (t : τ) (s2 s' : SchedState κ τ), s' = (s2.putBack c t).switchTo c t ∧ s.schedTick c = some s' ∧
      (∃ rq' sl', Rest rq' sl' s'.shape) ∧ Frame c s.shape s'.shape ∧ s'.shape.current c = t ∧
      s'.shape.sleepHead = s1.shape.sleepHead ∧ (s'.cpus c).vSystem = s1.minVruntime c (rq c) ∧ t ∈ rq c ∧
      (∀ x ∈ rq c, (s1.account t).vruntime ≤ (s1.account x).vruntime) ∧ s2.account = s1.account ∧
      s2.shape.state = s1.shape.state ∧ s2.shape.current = s1.shape.current ∧ s2.shape.idle = s1.shape.idle := by
  obtain ⟨s1', -, -, o, s2, hs1', -, -, hd, htick⟩ := schedTick_eq h.toQueues
  cases hs1.symm.trans hs1'
  obtain ⟨prev, t, hb, hleast⟩ := best_least hne hlt
  rcases rqDequeue_cases h1 with ⟨-, hnil⟩ | ⟨-, -, hb'⟩ | ⟨t', l1, l2, hq, hb', hd'⟩
  · exact absurd hnil hne
  · cases hb.symm.trans hb'
  · cases hb.symm.trans hb'
    cases hd.symm.trans hd'
    obtain ⟨y, hy⟩ := exists_mem_of_ne_nil _ hne
    obtain ⟨s', rq', sl', hs', hrest⟩ := schedTick_rest h.toQueues fun d _ => h.busy d
    obtain ⟨s'', -, -, hs'', -, hf, -⟩ := schedTick_queues h.toQueues
    cases hs'.symm.trans hs''
    cases htick.symm.trans hs'
    refine ⟨t, _, _, rfl, hs', ⟨rq', sl', hrest⟩, hf, ?_, ?_, ?_, by simp [hq], hleast, ?_, ?_⟩
    · rw [shape_handOver, Shape.handOver_current]
    · rw [shape_handOver, Shape.handOver_sleepHead, shape_rqUnlink, shape_setVSystem]
      rfl
    · rw [vSystem_handOver, ← setVSystem_vSystem hy (hlt y hy)]
      cases l1.getLast? <;> simp [rqUnlink, onCpu, modify]
    · rw [account_rqUnlink, account_setVSystem]
    · rw [shape_rqUnlink, shape_setVSystem]
      exact ⟨rfl, rfl, rfl⟩

end SchedState

/-! ### Tasks that take turns -/

theorem prioToWeight_cost (p : Nat) : prioToWeight p * (EEVDF_TICK_SCALE / prioToWeight p) = EEVDF_TICK_SCALE ∧
    64 ≤ EEVDF_TICK_SCALE / prioToWeight p ∧ EEVDF_TICK_SCALE / prioToWeight p ≤ 8192 ∧
    10 * EEVDF_TICK_SCALE / prioToWeight p = 10 * (EEVDF_TICK_SCALE / prioToWeight p) := by
  unfold prioToWeight
  split <;> decide

def Weights (T : Finset τ) (w : τ → Nat) : Prop := ∀ t ∈ T, ∃ p, w t = prioToWeight p

theorem Weights.cost {T : Finset τ} {w : τ → Nat} (hw : Weights T w) {t : τ} (hT : t ∈ T) :
    w t * (EEVDF_TICK_SCALE / w t) = EEVDF_TICK_SCALE ∧ 64 ≤ EEVDF_TICK_SCALE / w t ∧
    EEVDF_TICK_SCALE / w t ≤ 8192 ∧ 10 * EEVDF_TICK_SCALE / w t = 10 * (EEVDF_TICK_SCALE / w t) := by
  obtain ⟨p, hp⟩ := hw t hT
  rw [hp]
  exact prioToWeight_cost p

/-- The tasks `T` with weights `w` have the CPU `c` for themselves; one of them has just been given it. No runtime
is above `top`. -/
structure Turn (s : SchedState κ τ) (c : κ) (T : Finset τ) (w : τ → Nat) (top : Nat) : Prop where
  rest : ∃ rq sl, Rest rq sl s.shape
  asleep : s.shape.sleepHead c = none
  mem : ∀ t, t ∈ T ↔ s.shape.Live t ∧ s.shape.cpuId t = c ∧ (s.state t = .runnable ∨ s.state t = .running)
  current : s.shape.current c ∈ T
  ticksUsed : (s.account (s.shape.current c)).ticksUsed = 0
  weight : ∀ t ∈ T, (s.account t).weight = w t
  slice : ∀ t ∈ T, (s.account t).sliceTicks = 10
  initialized : ∀ t ∈ T, (s.account t).initialized = true
  vSystem : ∀ t ∈ T, (s.cpus c).vSystem ≤ (s.account t).vruntime
  vruntime : ∀ t ∈ T, (s.account t).vruntime ≤ top
  deadline : ∀ t ∈ T, (s.account t).deadline = (s.account t).vruntime + 10 * (EEVDF_TICK_SCALE / w t)

def SchedState.weight (s : SchedState κ τ) (t : τ) : Nat := (s.account t).weight

def SchedState.vruntime (s : SchedState κ τ) (t : τ) : Nat := (s.account t).vruntime

namespace Turn

variable {s : SchedState κ τ} {c : κ} {T : Finset τ} {w : τ → Nat} {top : Nat} {rq sl : κ → List τ}

section

variable (ht : Turn s c T w top)
include ht

theorem current_live : s.shape.Live (s.shape.current c) := ((ht.mem _).1 ht.current).1

theorem current_running : s.shape.state (s.shape.current c) = .running := by
  obtain ⟨rq, sl, h⟩ := ht.rest
  exact (h.busy c).resolve_left (ht.current_live.2 c)

theorem mem_rq (h : Rest rq sl s.shape) {x : τ} : x ∈ rq c ↔ x ∈ T ∧ x ≠ s.shape.current c := by
  rw [h.mem_rq, ht.mem]
  constructor
  · rintro ⟨hl, -, hst, hcpu⟩
    refine ⟨⟨hl, hcpu, .inl hst⟩, ?_⟩
    rintro rfl
    cases hst.symm.trans ht.current_running
  · rintro ⟨⟨hl, hcpu, hst⟩, hne⟩
    refine ⟨hl, by simp, hst.resolve_right fun hrun => ?_, hcpu⟩
    exact hne (h.running c x ⟨hl, by simp, hrun, hcpu⟩).symm

variable (hw : Weights T w)
include hw

theorem weight_ne {t : τ} (hT : t ∈ T) : (s.account t).weight ≠ 0 := by
  obtain ⟨p, hp⟩ := hw t hT
  rw [ht.weight t hT, hp]
  exact prioToWeight_pos p

variable [DecidableEq τ] (htop : top + 8192 * 11 < 2 ^ 64)
include htop

theorem account_charge : (s.charge c).account = update s.account (s.shape.current c)
      { s.account (s.shape.current c) with
        vruntime := (s.account (s.shape.current c)).vruntime + EEVDF_TICK_SCALE / w (s.shape.current c)
        ticksUsed := 1 } := by
  have hcost := hw.cost ht.current
  have hvr := ht.vruntime _ ht.current
  rw [SchedState.account_charge rfl ht.current_running (ht.current_live.2 c) (ht.weight_ne hw ht.current)]
  simp only [cpus_shape, ht.weight _ ht.current, ht.ticksUsed]
  rw [Nat.mod_eq_of_lt (by omega)]

variable [DecidableEq κ]

theorem atSelection : s.atSelection c = some (s.charge c) := by
  have hcost := hw.cost ht.current
  have hshape := shape_charge s c
  have hexp : ¬ (s.charge c).Expired c := by
    have hat := congrFun (ht.account_charge hw htop) (s.shape.current c)
    set p := s.shape.current c with hp
    rw [update_self] at hat
    have hslice : ((s.charge c).tasks p).sliceTicks = 10 :=
      (congrArg Account.sliceTicks hat).trans (ht.slice _ ht.current)
    have hused : ((s.charge c).tasks p).ticksUsed = 1 := congrArg Account.ticksUsed hat
    have hdl : ((s.charge c).tasks p).deadline = (s.account p).vruntime + 10 * (EEVDF_TICK_SCALE / w p) :=
      (congrArg Account.deadline hat).trans (ht.deadline _ ht.current)
    have hv : ((s.charge c).tasks p).vruntime = (s.account p).vruntime + EEVDF_TICK_SCALE / w p :=
      congrArg Account.vruntime hat
    rintro ⟨-, he⟩
    simp only [cpus_shape, hshape, ← hp] at he
    rw [if_neg (ht.current_live.2 c), hdl] at he
    omega
  rw [SchedState.atSelection, expire, if_neg hexp]
  exact wakeSleepers_none (hshape ▸ ht.asleep)

end

/-- What a round changes in the accounts: `p` pays and gets a new deadline, and `t` starts a slice. -/
structure Charged (A A' : τ → Account) (p t : τ) (cost : Nat) : Prop where
  paid : (A' p).vruntime = (A p).vruntime + cost
  renewed : (A' p).deadline = (A p).vruntime + cost + 10 * cost
  vruntime : ∀ x, x ≠ p → (A' x).vruntime = (A x).vruntime
  deadline : ∀ x, x ≠ p → (A' x).deadline = (A x).deadline
  weight : ∀ x, (A' x).weight = (A x).weight
  slice : ∀ x, (A' x).sliceTicks = (A x).sliceTicks
  initialized : ∀ x, (A' x).initialized = (A x).initialized
  ticksUsed : (A' t).ticksUsed = 0

variable [DecidableEq κ] [DecidableEq τ]

theorem Charged.of_update {A : τ → Account} {p t : τ} (htp : t ≠ p) {cost : Nat} : Charged A
    (update (update A p { A p with
        vruntime := (A p).vruntime + cost
        deadline := (A p).vruntime + cost + 10 * cost
        ticksUsed := 1 }) t { A t with ticksUsed := 0 }) p t cost := by
  constructor
  case paid => simp [Ne.symm htp]
  case renewed => simp [Ne.symm htp]
  case ticksUsed => simp
  all_goals
    intro x
    by_cases hx : x = p
    · subst hx; simp [Ne.symm htp]
    · by_cases hxt : x = t
      · subst hxt; simp
      · simp [hx, hxt]

theorem charged (ht : Turn s c T w top) (hw : Weights T w) (htop : top + 8192 * 11 < 2 ^ 64)
    {s2 : SchedState κ τ} {t : τ} (htp : t ≠ s.shape.current c) (hacc2 : s2.account = (s.charge c).account)
    (hst2 : s2.shape.state = s.shape.state) (hcur2 : s2.shape.current c = s.shape.current c)
    (hidle2 : s2.shape.idle c = s.shape.idle c)
    (hV : (s2.cpus c).vSystem ≤ ((s.charge c).account (s.shape.current c)).vruntime) :
    Charged s.account ((s2.putBack c t).switchTo c t).account (s.shape.current c) t
      (EEVDF_TICK_SCALE / w (s.shape.current c)) := by
  have hcost := hw.cost ht.current
  have hvr := ht.vruntime _ ht.current
  have hacc := ht.account_charge hw htop
  have hself := congrFun hacc (s.shape.current c)
  rw [update_self] at hself
  have hput := account_putBack (t := t) hcur2
  rw [show (s2.cpus c).idle = s.shape.idle c from hidle2, show s2.state = s.shape.state from hst2, hacc2] at hput
  specialize hput ht.current_running (Ne.symm htp) (ht.current_live.2 c)
    (by rw [hself]; exact ht.initialized _ ht.current) hV (by rw [hself]; exact ht.weight_ne hw ht.current)
  have hslice : (s.account (s.shape.current c)).sliceTicks * EEVDF_TICK_SCALE /
      (s.account (s.shape.current c)).weight = 10 * (EEVDF_TICK_SCALE / w (s.shape.current c)) := by
    rw [ht.slice _ ht.current, ht.weight _ ht.current, hcost.2.2.2]
  rw [account_switchTo, hput, hself, hacc, update_idem, update_of_ne htp, hslice]
  rw [Nat.mod_eq_of_lt (by dsimp only; omega)]
  exact .of_update htp

theorem tick (ht : Turn s c T w top) (hw : Weights T w) (h2 : 2 ≤ T.card)
    (htop : top + 8192 * 11 < 2 ^ 64) : ∃ s', s.schedTick c = some s' ∧ Turn s' c T w (top + 8192) ∧
      Serve T (fun t => EEVDF_TICK_SCALE / w t) s.vruntime (s.shape.current c) s'.vruntime (s'.shape.current c) := by
  obtain ⟨rq, sl, h⟩ := ht.rest
  have hacc := ht.account_charge hw htop
  have hshape := shape_charge s c
  have hother : ∀ x, x ≠ s.shape.current c → (s.charge c).account x = s.account x := fun x hx => by
    rw [hacc, update_of_ne hx]
  have hne : rq c ≠ [] := by
    obtain ⟨x, hx, hxp⟩ := T.exists_mem_ne h2 (s.shape.current c)
    exact ne_nil_of_mem ((ht.mem_rq h).2 ⟨hx, hxp⟩)
  have hlt : ∀ x ∈ rq c, ((s.charge c).account x).vruntime < U64_MAX := fun x hx => by
    have hx' := (ht.mem_rq h).1 hx
    have := ht.vruntime x hx'.1
    rw [hother x hx'.2, U64_MAX]
    omega
  obtain ⟨t, s2, s', hs', htick, hrest, hf, hcur, hsleep, hV, htq, hleast, hacc2, hst2, hcur2, hidle2⟩ :=
    schedTick_least h (ht.atSelection hw htop) (hshape.symm ▸ h.toQueues) hne hlt
  rw [hshape] at hst2 hcur2 hidle2 hsleep
  obtain ⟨htT, htp⟩ := (ht.mem_rq h).1 htq
  obtain ⟨hmin, hminp⟩ := minVruntime_le (s.charge c) c (rq c)
  simp only [cpus_shape, tasks_shape, hshape] at hminp
  have hVp := hV ▸ hminp (ht.current_live.2 c) ht.current_running
  have hch := ht.charged hw htop htp hacc2 hst2 (congrFun hcur2 c) (congrFun hidle2 c)
    (by rw [← vSystem_handOver s2 c t, ← hs']; exact hVp)
  rw [← hs'] at hch
  have hst : s'.shape.state = update (update s.shape.state (s.shape.current c) .runnable) t .running := by
    rw [hs', shape_handOver, Shape.handOver_state_eq (by rw [hst2, hcur2]; exact ht.current_running)
      (by rw [hcur2]; exact Ne.symm htp), hst2, hcur2]
  refine ⟨s', htick, ?_, ?_⟩
  · refine
      { rest := hrest
        asleep := by rw [hsleep, ht.asleep]
        mem := fun x => ?_
        current := hcur.symm ▸ htT
        ticksUsed := hcur.symm ▸ hch.ticksUsed
        weight := fun x hx => (hch.weight x).trans (ht.weight x hx)
        slice := fun x hx => (hch.slice x).trans (ht.slice x hx)
        initialized := fun x hx => (hch.initialized x).trans (ht.initialized x hx)
        vSystem := fun x hx => ?_
        vruntime := fun x hx => ?_
        deadline := fun x hx => ?_ }
    · rw [ht.mem, Shape.Live, Shape.Live, hf.objs, hf.idle, hf.cpuId,
        show state _ x = _ from congrFun hst x]
      by_cases hxt : x = t
      · subst hxt
        simpa [tasks_shape] using fun _ _ _ => ((ht.mem x).1 htT).2.2
      · by_cases hxp : x = s.shape.current c
        · subst hxp
          simpa [hxt] using fun _ _ _ => ((ht.mem _).1 ht.current).2.2
        · simp [tasks_shape, hxt, hxp]
    · by_cases hxp : x = s.shape.current c
      · subst hxp
        have hself := congrFun hacc (s.shape.current c)
        rw [update_self] at hself
        rw [hch.paid]
        rwa [show ((s.charge c).tasks (s.shape.current c)).vruntime =
          (s.account (s.shape.current c)).vruntime + EEVDF_TICK_SCALE / w (s.shape.current c) from
          congrArg Account.vruntime hself] at hVp
      · rw [hV, hch.vruntime x hxp, ← hother x hxp]
        exact hmin x ((ht.mem_rq h).2 ⟨hx, hxp⟩)
    · have hvr := ht.vruntime x hx
      have hcost := (hw.cost hx).2.2.1
      by_cases hxp : x = s.shape.current c
      · subst hxp
        rw [hch.paid]
        omega
      · rw [hch.vruntime x hxp]
        omega
    · by_cases hxp : x = s.shape.current c
      · subst hxp
        rw [hch.renewed, hch.paid]
      · rw [hch.deadline x hxp, hch.vruntime x hxp]
        exact ht.deadline x hx
  · refine ⟨hch.paid, fun j _ hj => hch.vruntime j hj, hcur.symm ▸ htT, hcur.symm ▸ htp, fun j hj hjp => ?_⟩
    rw [hcur]
    have hle := hleast j ((ht.mem_rq h).2 ⟨hj, hjp⟩)
    rw [hother t htp, hother j hjp] at hle
    exact (hch.vruntime t htp).le.trans (hle.trans (hch.vruntime j hjp).ge)

end Turn

/-- The tasks `T` have been enqueued on the idle CPU `c` with the runtime `v0`, and there are no others. -/
structure Together (s : SchedState κ τ) (c : κ) (T : Finset τ) (v0 : Nat) : Prop where
  idle : (s.cpus c).current = (s.cpus c).idle
  asleep : (s.cpus c).sleepHead = none
  queue : ∃ q, Chain s.next (s.cpus c).rqHead q ∧ ∀ t, t ∈ T ↔ t ∈ q
  two : 2 ≤ T.card
  vruntime : ∀ t ∈ T, (s.tasks t).vruntime = v0
  initialized : ∀ t ∈ T, (s.tasks t).vruntimeInitialized = true
  deadline : ∀ t ∈ T, (s.tasks t).deadline = (v0 + 10 * EEVDF_TICK_SCALE / (s.tasks t).weight) % 2 ^ 64

namespace Together

variable [DecidableEq κ] [DecidableEq τ] {s : SchedState κ τ} {c : κ} {T : Finset τ} {v0 : Nat} {rq sl : κ → List τ}

theorem atSelection (ht : Together s c T v0) (h : Rest rq sl s.shape) : ∃ s1, s.atSelection c = some s1 ∧
    Queues [] rq sl s1.shape ∧ s1.shape = s.shape.setState (s.shape.idle c) .runnable ∧
    ∀ x, x ≠ s.shape.idle c → s1.account x = s.account x := by
  have hcur : s.shape.current c = s.shape.idle c := ht.idle
  rcases (h.idle c).2.2 with hst | hst
  · -- it has not run yet
    have hnot : s.shape.state (s.shape.current c) ≠ .running := by
      rw [hcur, hst]
      decide
    have hch : s.charge c = s := if_neg hnot
    have hexp : s.expire c = s := if_neg fun hr => hnot hr.1
    refine ⟨s, ?_, h.toQueues, ?_, fun _ _ => rfl⟩
    · rw [SchedState.atSelection, hch, hexp, wakeSleepers_none ht.asleep]
    · rw [Shape.setState, ← hst, update_eq_self]
  · -- its slice is one tick
    have hrun : s.shape.state (s.shape.current c) = .running := hcur.symm ▸ hst
    have hshape := shape_charge s c
    have hcur' : ((s.charge c).cpus c).current = ((s.charge c).cpus c).idle := by
      simp only [cpus_shape, hshape, hcur]
    have hexp : (s.charge c).Expired c := by
      have hused : ((s.charge c).tasks (s.cpus c).current).ticksUsed = (s.tasks (s.cpus c).current).ticksUsed + 1 := by
        rw [charge, if_pos (show s.state (s.cpus c).current = .running from hrun)]
        simp [SchedState.modify]
      refine ⟨(congrArg (fun v => v.state (v.current c)) hshape).trans hrun, .inl ?_⟩
      rw [if_pos hcur', show ((s.charge c).cpus c).current = (s.cpus c).current from
        congrFun (congrArg Shape.current hshape) c, hused]
      omega
    have hq := h.requeue hrun (by simp)
    have hre : s.shape.requeue c = s.shape.setState (s.shape.idle c) .runnable := by
      rw [Shape.requeue, Shape.enqueue_idle (v := s.shape.setState (s.shape.current c) .runnable) hcur, hcur]
    have hshape' : ((s.charge c).expire c).shape = s.shape.setState (s.shape.idle c) .runnable := by
      rw [shape_expire, if_pos hexp, hshape, hre]
    rw [if_pos hcur, hre, ← hshape'] at hq
    refine ⟨_, wakeSleepers_none ?_, hq, hshape', fun x hx => s.account_expire_ne c fun e => hx (e.trans hcur)⟩
    rw [hshape']
    exact ht.asleep

theorem tick (ht : Together s c T v0) (h : Rest rq sl s.shape) (htu : s.Tuned) (htop : v0 + 81920 < 2 ^ 64) :
    ∃ s', s.schedTick c = some s' ∧ Turn s' c T s.weight v0 ∧ ∀ t ∈ T, s'.vruntime t = v0 := by
  obtain ⟨s1, hs1, h1, hshape, hacc⟩ := ht.atSelection h
  obtain ⟨q, hchain, hTq⟩ := ht.queue
  have hT : ∀ x, x ∈ T ↔ x ∈ rq c := fun x => by rw [hTq, hchain.unique (h.rq_lists.chain c)]
  have hat : ∀ x ∈ T, s.shape.At [] .runnable c x := fun x hx => (h.mem_rq c x).1 ((hT x).1 hx)
  have hacc1 : ∀ x ∈ T, s1.account x = s.account x := fun x hx => hacc x ((hat x hx).1.2 c)
  have hvr : ∀ x ∈ T, (s1.account x).vruntime = v0 := fun x hx => by
    rw [hacc1 x hx]
    exact ht.vruntime x hx
  have hne : rq c ≠ [] := by
    obtain ⟨x, hx⟩ := Finset.card_pos.1 (Nat.lt_of_lt_of_le Nat.zero_lt_two ht.two)
    exact ne_nil_of_mem ((hT x).1 hx)
  obtain ⟨t, s2, s', hs', htick, hrest, hf, hcur, hsleep, hV, htq, -, hacc2, hst2, hcur2, -⟩ :=
    schedTick_least h hs1 h1 hne fun x hx => by
      rw [hvr x ((hT x).2 hx), U64_MAX]
      omega
  have htT := (hT t).2 htq
  -- the idle task is not put back
  have hput : s2.putBack c t = s2 := by
    refine if_neg fun hr => ?_
    have hr' : s2.shape.state (s2.shape.current c) = .running := hr.1
    rw [hst2, hcur2, hshape] at hr'
    have hi : s.shape.current c = s.shape.idle c := ht.idle
    simp [Shape.setState, hi] at hr'
  rw [hput] at hs'
  have hst : s'.shape.state = update (update s.shape.state (s.shape.idle c) .runnable) t .running := by
    rw [hs', shape_switchTo, Shape.switchTo, hst2, hshape]
    rfl
  have hacc' : ∀ x ∈ T, s'.account x =
      { s.account x with ticksUsed := if x = t then 0 else (s.account x).ticksUsed } := fun x hx => by
    rw [hs', account_switchTo, hacc2, update_apply]
    split
    · subst x; rw [hacc1 t htT]
    · rw [hacc1 x hx]
  have hvr' : ∀ x ∈ T, (s'.account x).vruntime = v0 := fun x hx => by
    rw [hacc' x hx]
    exact ht.vruntime x hx
  refine ⟨s', htick, ?_, hvr'⟩
  refine
    { rest := hrest
      asleep := by rw [hsleep, hshape]; exact ht.asleep
      mem := fun x => ?_
      current := hcur.symm ▸ htT
      ticksUsed := by rw [hcur, hacc' t htT, if_pos rfl]
      weight := fun x hx => by rw [hacc' x hx]; rfl
      slice := fun x hx => by rw [hacc' x hx]; exact (htu.task x (hat x hx).1.1).slice
      initialized := fun x hx => by rw [hacc' x hx]; exact ht.initialized x hx
      vSystem := fun x hx => ?_
      vruntime := fun x hx => (hvr' x hx).le
      deadline := fun x hx => ?_ }
  · rw [Shape.Live, hf.objs, hf.idle, hf.cpuId, show state _ x = _ from congrFun hst x]
    by_cases hxt : x = t
    · subst hxt
      simpa [htT] using ⟨⟨(hat x htT).1.1, (hat x htT).1.2⟩, (hat x htT).2.2.2⟩
    rw [update_of_ne hxt]
    constructor
    · intro hx
      obtain ⟨hl, -, hxst, hcpu⟩ := hat x hx
      exact ⟨hl, hcpu, .inl (by rw [update_of_ne (hl.2 c), hxst])⟩
    · rintro ⟨hl, hcpu, hxst⟩
      rw [update_of_ne (hl.2 c)] at hxst
      rcases hxst with hxst | hxst
      · exact (hT x).2 ((h.mem_rq c x).2 ⟨hl, by simp, hxst, hcpu⟩)
      · -- nothing but the idle task was running
        have hi := h.running c x ⟨hl, by simp, hxst, hcpu⟩
        exact absurd (hi.symm.trans ht.idle) (hl.2 c)
  · rw [hV, hvr' x hx, ← hvr x hx]
    exact (minVruntime_le s1 c (rq c)).1 x ((hT x).1 hx)
  · obtain ⟨p, hp⟩ := (htu.task x (hat x hx).1.1).weight
    have hcost := prioToWeight_cost p
    rw [hvr' x hx, hacc' x hx, show s.weight x = prioToWeight p from hp]
    refine (ht.deadline x hx).trans ?_
    rw [hp, hcost.2.2.2]
    exact Nat.mod_eq_of_lt (by omega)

end Together

/-! ### Any number of ticks -/

variable [DecidableEq κ] [DecidableEq τ]

/-- The timer interrupt: the clock advances and the tick follows. -/
def SchedState.timerIsr (s : SchedState κ τ) (c : κ) : Option (SchedState κ τ) :=
  SchedState.schedTick { s with jiffies := (s.jiffies + 1) % 2 ^ 64 } c

def SchedState.timerTicks (s : SchedState κ τ) (c : κ) : Nat → Option (SchedState κ τ)
  | 0 => some s
  | n + 1 => (s.timerTicks c n).bind fun s => s.timerIsr c

theorem Turn.timerIsr {s : SchedState κ τ} {c : κ} {T : Finset τ} {w : τ → Nat} {top : Nat}
    (ht : Turn s c T w top) (hw : Weights T w) (h2 : 2 ≤ T.card) (htop : top + 8192 * 11 < 2 ^ 64) :
    ∃ s', s.timerIsr c = some s' ∧ Turn s' c T w (top + 8192) ∧
      Serve T (fun t => EEVDF_TICK_SCALE / w t) s.vruntime (s.shape.current c) s'.vruntime (s'.shape.current c) := by
  rw [SchedState.timerIsr]
  generalize (s.jiffies + 1) % 2 ^ 64 = j
  have htj : Turn { s with jiffies := j } c T w top := { ht with }
  exact htj.tick hw h2 htop

theorem Together.timerIsr {s : SchedState κ τ} {c : κ} {T : Finset τ} {v0 : Nat} {rq sl : κ → List τ}
    (ht : Together s c T v0) (h : Rest rq sl s.shape) (htu : s.Tuned) (htop : v0 + 81920 < 2 ^ 64) :
    ∃ s', s.timerIsr c = some s' ∧ Turn s' c T s.weight v0 ∧ ∀ t ∈ T, s'.vruntime t = v0 := by
  rw [SchedState.timerIsr]
  generalize (s.jiffies + 1) % 2 ^ 64 = j
  have htj : Together { s with jiffies := j } c T v0 := { ht with }
  exact htj.tick h ⟨htu.task, htu.vSystem⟩ htop

namespace Together

variable {s : SchedState κ τ} {c : κ} {T : Finset τ} {v0 : Nat} {rq sl : κ → List τ}

omit [DecidableEq κ] [DecidableEq τ] in
theorem weights (ht : Together s c T v0) (h : Rest rq sl s.shape) (htu : s.Tuned) : Weights T s.weight := by
  intro t hT
  obtain ⟨q, hchain, hTq⟩ := ht.queue
  rw [hTq, hchain.unique (h.rq_lists.chain c)] at hT
  exact (htu.task t (h.mem_objs c t hT)).weight

omit [DecidableEq κ] [DecidableEq τ] in
theorem costs (ht : Together s c T v0) (h : Rest rq sl s.shape) (htu : s.Tuned) :
    Costs T s.weight (fun t => EEVDF_TICK_SCALE / s.weight t) EEVDF_TICK_SCALE 8192 where
  eq _ hT := ((ht.weights h htu).cost hT).1
  le _ hT := ((ht.weights h htu).cost hT).2.2.1
  pos := by decide

theorem rounds (ht : Together s c T v0) (h : Rest rq sl s.shape) (htu : s.Tuned) {n : Nat}
    (hn : v0 + 8192 * (n + 10) < 2 ^ 64) : ∃ s', s.timerTicks c (n + 1) = some s' ∧
      Turn s' c T s.weight (v0 + 8192 * n) ∧
      (Balanced T s.weight → Near T s.weight EEVDF_TICK_SCALE 8192 s'.vruntime (s'.shape.current c)) ∧
      Spent T s.weight EEVDF_TICK_SCALE v0 n s'.vruntime (s'.shape.current c) := by
  induction n with
  | zero =>
    obtain ⟨s', hs', hturn, hvr⟩ := ht.timerIsr h htu (by omega)
    exact ⟨s', hs', hturn, fun _ => .start hturn.current ht.two hvr, .start hvr⟩
  | succ n ih =>
    obtain ⟨s1, hs1, hturn1, hnear1, hspent1⟩ := ih (by linarith)
    obtain ⟨s', hs', hturn, hserve⟩ := hturn1.timerIsr (ht.weights h htu) ht.two (by linarith)
    refine ⟨s', ?_, ?_, fun hb => (hnear1 hb).serve hserve (ht.costs h htu) hb,
      hspent1.serve hturn1.current hserve (ht.costs h htu)⟩
    · rw [timerTicks, hs1, Option.bind_some, hs']
    · rwa [show v0 + 8192 * (n + 1) = v0 + 8192 * n + 8192 by ring]

end Together

theorem prioToWeight_le (p : Nat) : prioToWeight p ≤ 16384 := by
  unfold prioToWeight
  split <;> decide

/-- Two charges apart at most, as long as the runtimes do not overflow. -/
theorem fairness {s0 s : SchedState κ τ} {es : List (SchedEvent κ τ)} (h0 : SchedInit s0)
    (hrun : Run SchedState.call SchedState.Enabled s0 es s) {c : κ} {T : Finset τ} {v0 : Nat} (ht : Together s c T v0) :
    ((∀ t ∈ T, s.weight t ≤ ∑ x ∈ T.erase t, s.weight x) →
      ∀ n, v0 + 8192 * (n + 10) < 2 ^ 64 → ∃ s', s.timerTicks c n = some s' ∧
        ∀ a ∈ T, ∀ b ∈ T, s'.vruntime a ≤ s'.vruntime b + (EEVDF_TICK_SCALE / 128 + EEVDF_TICK_SCALE / 128)) ∧
    ((∃ t ∈ T, ∑ x ∈ T.erase t, s.weight x < s.weight t) → v0 < 2 ^ 63 →
      ∃ n s', v0 + 8192 * (n + 10) < 2 ^ 64 ∧ s.timerTicks c n = some s' ∧
        ∃ a ∈ T, ∃ b ∈ T, s'.vruntime b + (EEVDF_TICK_SCALE / 128 + EEVDF_TICK_SCALE / 128) < s'.vruntime a) := by
  obtain ⟨⟨rq, sl, h⟩, htu⟩ := run_tuned h0 hrun
  have hgap : EEVDF_TICK_SCALE / 128 + EEVDF_TICK_SCALE / 128 = 2 * 8192 := by decide
  constructor
  · intro hb n hn
    cases n with
    | zero =>
      refine ⟨s, rfl, fun a ha b hb => ?_⟩
      have hva : s.vruntime a = v0 := ht.vruntime a ha
      have hvb : s.vruntime b = v0 := ht.vruntime b hb
      omega
    | succ n =>
      obtain ⟨s', hs', -, hnear, -⟩ := ht.rounds h htu (by linarith)
      refine ⟨s', hs', fun a ha b hb' => (hnear hb).gap (fun t hT => ?_) ha hb'⟩
      obtain ⟨p, hp⟩ := ht.weights h htu t hT
      rw [hp]
      exact Nat.pos_of_ne_zero (prioToWeight_pos p)
  · rintro ⟨t, hT, hheavy⟩ hv0
    obtain ⟨p, hp⟩ := ht.weights h htu t hT
    have hle := prioToWeight_le p
    rw [← hp] at hle
    generalize hW : ∑ x ∈ T.erase t, s.weight x = W at hheavy
    -- after this many rounds
    have hbound : 2 * W * (2 * 8192) * s.weight t ≤ 2 * 16384 * (2 * 8192) * 16384 := by gcongr; omega
    obtain ⟨s', hs', -, -, hspent⟩ := ht.rounds h htu
      (n := s.weight t + W + 2 * W * (2 * 8192) * s.weight t + 1) (by omega)
    obtain ⟨j, hj, hlt⟩ := hspent.exceeds (by decide) hT hW hheavy (Nat.lt_add_one _)
    exact ⟨_, s', by linarith, hs', j, hj, t, hT, hlt⟩

def togetherOn (s : SchedState κ τ) (c : κ) (q : List τ) (v0 : Nat) : Bool :=
  (s.cpus c).current = (s.cpus c).idle && (s.cpus c).sleepHead = none &&
    walk s.next s.objs.length (s.cpus c).rqHead = some q && 2 ≤ q.toFinset.card &&
    q.all fun t => (s.tasks t).vruntime = v0 && (s.tasks t).vruntimeInitialized &&
      (s.tasks t).deadline = (v0 + 10 * EEVDF_TICK_SCALE / (s.tasks t).weight) % 2 ^ 64

omit [DecidableEq κ] in
theorem Together.of_check {s : SchedState κ τ} {c : κ} {q : List τ} {v0 : Nat} (h : togetherOn s c q v0) :
    Together s c q.toFinset v0 := by
  simp only [togetherOn, Bool.and_eq_true, decide_eq_true_eq, all_eq_true] at h
  obtain ⟨⟨⟨⟨hidle, hsleep⟩, hwalk⟩, htwo⟩, htask⟩ := h
  exact
    { idle := hidle
      asleep := hsleep
      queue := ⟨q, (walk_eq_some.1 hwalk).1, fun t => mem_toFinset⟩
      two := htwo
      vruntime := fun t ht => (htask t (mem_toFinset.1 ht)).1.1
      initialized := fun t ht => (htask t (mem_toFinset.1 ht)).1.2
      deadline := fun t ht => (htask t (mem_toFinset.1 ht)).2 }

/-- Two tasks of the default priority take turns for ever. -/
theorem fairness_equal : SchedInit twoCpus ∧ ∃ s,
    Run SchedState.call SchedState.Enabled twoCpus [.addTask 2 0, .addTask 3 0] s ∧
    Together s 0 {3, 2} 0 ∧ ∀ n, 8192 * (n + 10) < 2 ^ 64 → ∃ s', s.timerTicks 0 n = some s' ∧
      ∀ a ∈ ({3, 2} : Finset Nat), ∀ b ∈ ({3, 2} : Finset Nat), s'.vruntime a ≤ s'.vruntime b + 16384 := by
  refine ⟨twoCpus_init, exists_run (fun s => (togetherOn s 0 [3, 2] 0, (s.tasks 2).weight, (s.tasks 3).weight))
    (true, 1024, 1024) (by decide +kernel) fun s hrun hd => ?_⟩
  simp only [Prod.mk.injEq] at hd
  obtain ⟨hto, hw2, hw3⟩ := hd
  have hto' : Together s 0 {3, 2} 0 := Together.of_check hto
  refine ⟨hto', fun n hn => ?_⟩
  refine (fairness twoCpus_init hrun hto').1 ?_ n (by linarith)
  have h2 : ({3, 2} : Finset Nat).erase 2 = {3} := by decide
  have h3 : ({3, 2} : Finset Nat).erase 3 = {2} := by decide
  simp [h2, show s.weight 2 = 1024 from hw2, show s.weight 3 = 1024 from hw3]

/-- A task of the highest and one of the lowest priority: after seven ticks their runtimes are too far apart. -/
theorem unfair_pair : SchedInit twoCpus ∧ ∃ s, Run SchedState.call SchedState.Enabled twoCpus
    [.addTask 2 0, .setPriority 2 0, .addTask 3 0, .setPriority 3 7] s ∧ Together s 0 {3, 2} 0 ∧
    ∃ s', s.timerTicks 0 7 = some s' ∧
      s'.vruntime 2 + (EEVDF_TICK_SCALE / 128 + EEVDF_TICK_SCALE / 128) < s'.vruntime 3 := by
  refine ⟨twoCpus_init, exists_run (fun s =>
    (togetherOn s 0 [3, 2] 0, (s.timerTicks 0 7).map fun s' => (s'.vruntime 2, s'.vruntime 3)))
    (true, some (192, 24576)) (by decide +kernel) fun s _ hd => ?_⟩
  simp only [Prod.mk.injEq] at hd
  obtain ⟨hto, hticks⟩ := hd
  obtain ⟨s', hs', hv⟩ := Option.map_eq_some_iff.1 hticks
  simp only [Prod.mk.injEq] at hv
  refine ⟨Together.of_check hto, s', hs', ?_⟩
  rw [hv.1, hv.2]
  decide

end ExoOS.Sched
