import ExoOS.Sched.Waitq

/-!
# Wait queues and signals

Run queues and wait queues share the links of the tasks. `Waiting` says that the wait queues hold the tasks that are
blocked on them. The scheduler leaves these alone, so each call of `Waitq.lean` keeps it, as long as no signal goes to
a task on a wait queue (`waitq_sound`). A signal to such a task links it into a run queue while the wait queue still
runs through it.
-/

namespace ExoOS.Sched

open Function Links List SchedState Option WaitState

variable {κ τ ω : Type} {wl : ω → List τ}

/-- The wait queues hold the tasks `wl`: those that are blocked on them. -/
structure Waiting (wl : ω → List τ) (waits : τ → Option ω) (s : WaitState κ τ ω) : Prop where
  fifos : Fifos s.sched.next (fun w => (s.wqs w).head) (fun w => (s.wqs w).tail) wl
  mem : ∀ w t, t ∈ wl w ↔ waits t = some w
  blocked : ∀ t w, waits t = some w → t ∈ s.sched.objs ∧ s.sched.state t = .blocked
  ctx : ∀ t x w, s.ctx t = some x → waits t = some w → x.wq = w

/-- What a call on the wait queue `w` leaves. -/
structure Served (wl : ω → List τ) (w : ω) (s s' : WaitState κ τ ω) : Prop where
  rest : ∃ rq sl, Rest rq sl s'.sched.shape
  waiting : ∃ wl', Waiting wl' s'.waits s' ∧ ∀ w', w' ≠ w → wl' w' = wl w'
  ctx : s'.ctx = s.ctx
  keeps : s.sched.shape.Keeps s'.sched.shape

def Shape.relink (v : Shape κ τ) (n : τ → Option τ) : Shape κ τ := { v with next := n }

theorem Shape.Keeps.relink {v : Shape κ τ} {n : τ → Option τ} : Keeps v (v.relink n) :=
  ⟨rfl, fun _ _ => rfl, fun _ => id⟩

theorem Rest.relink {rq sl : κ → List τ} {v : Shape κ τ} {n : τ → Option τ} (h : Rest rq sl v)
    (hn : ∀ x, v.state x = .runnable → n x = v.next x) : Rest rq sl (v.relink n) where
  __ := h
  rq_lists := ⟨fun c => (h.rq_lists.chain c).congr fun x hx => hn x ((h.mem_rq c x).1 hx).2.2.1, h.rq_lists.disjoint⟩

variable [DecidableEq τ] in
theorem SchedState.shape_setNext (s : SchedState κ τ) (t : τ) (n : Option τ) :
    (s.setNext t n).shape = s.shape.relink (update s.shape.next t n) := by
  simp [setNext, shape_modify, tasks_shape, Shape.relink]

variable [DecidableEq ω] in
theorem head_update (wqs : ω → Waitq τ) (w : ω) (q : Waitq τ) :
    (fun w' => (update wqs w q w').head) = update (fun w => (wqs w).head) w q.head :=
  funext fun w' => apply_update (fun _ => Waitq.head) wqs w q w'

variable [DecidableEq ω] in
theorem tail_update (wqs : ω → Waitq τ) (w : ω) (q : Waitq τ) :
    (fun w' => (update wqs w q w').tail) = update (fun w => (wqs w).tail) w q.tail :=
  funext fun w' => apply_update (fun _ => Waitq.tail) wqs w q w'

namespace Waiting

open Shape

variable {wl : ω → List τ} {waits : τ → Option ω} {s : WaitState κ τ ω} {rq sl : κ → List τ} {w : ω} {t : τ}
  {l1 l2 : List τ}

section

variable (h : Waiting wl waits s)
include h

theorem length_le (w : ω) : (wl w).length ≤ s.sched.objs.length :=
  ((h.fifos.chain w).nodup.subperm fun t ht => (h.blocked t w ((h.mem w t).1 ht)).1).length_le

theorem waits_eq_none (ht : s.sched.shape.state t ≠ .blocked) : waits t = none := by
  cases hw : waits t with
  | none => rfl
  | some w => exact absurd (h.blocked t w hw).2 ht

theorem withSched {sched : SchedState κ τ}
    (hst : ∀ x w, waits x = some w → Still s.sched.shape sched.shape x)
    (hw : ∀ x, (s.withSched sched).waits x = waits x) : Waiting wl (s.withSched sched).waits (s.withSched sched) := by
  obtain rfl : (s.withSched sched).waits = waits := funext hw
  exact
    { fifos := h.fifos.congr fun w x hx => (hst x w ((h.mem w x).1 hx)).2.1
      mem := h.mem
      blocked := fun t w ht =>
        ⟨(hst t w ht).2.2 (h.blocked t w ht).1, (hst t w ht).1.trans (h.blocked t w ht).2⟩
      ctx := h.ctx }

omit h in
theorem withSched_waits {sched : SchedState κ τ} (h : ∀ w, s.waits t = some w → sched.state t = .blocked) :
    (s.withSched sched).waits t = s.waits t := by
  refine ite_eq_left_iff.2 fun hb => ?_
  cases hw : s.waits t with
  | none => rfl
  | some w => exact absurd (h w hw) hb

omit h in
/-- A call into the scheduler that wakes no task of a wait queue. -/
theorem call {sched : SchedState κ τ} (h : Waiting wl s.waits s)
    (hst : ∀ x w, s.waits x = some w → Still s.sched.shape sched.shape x) :
    Waiting wl (s.withSched sched).waits (s.withSched sched) :=
  h.withSched hst fun x => withSched_waits fun w hx => (hst x w hx).1.trans (h.blocked x w hx).2

variable [DecidableEq τ]

omit h in
variable [DecidableEq κ] in
theorem unblock (hr : Rest rq sl s.sched.shape) (h : Waiting wl (update s.waits t none) s)
    (ht : t ∈ s.sched.objs) : (∃ rq', Rest rq' sl (s.unblock t).sched.shape) ∧
      Waiting wl (s.unblock t).waits (s.unblock t) := by
  obtain ⟨⟨rq', hq⟩, hb⟩ := schedUnblock_queues hr.toQueues fun _ => ht
  refine ⟨⟨rq', { hq with busy := fun c => hb c (hr.busy c) }⟩, h.withSched (fun x w hx => ?_) fun x => ?_⟩
  · refine schedUnblock_still (.inl ?_)
    rintro rfl
    simp at hx
  · by_cases hxt : x = t
    · subst hxt
      rw [update_self]
      exact if_neg schedUnblock_state
    · rw [update_of_ne hxt]
      have hst := (schedUnblock_still (s := s.sched) (.inl hxt)).1
      exact withSched_waits fun w hx => hst.trans (h.blocked x w ((update_of_ne hxt ..).trans hx)).2

variable [DecidableEq ω]

omit h in
theorem shape_unlink (s : WaitState κ τ ω) (w : ω) (t : τ) (prev : Option τ) :
    (s.unlink w t prev).sched.shape = s.sched.shape.relink (unlinkNext s.sched.next t prev) := by
  cases prev <;> simp only [WaitState.unlink, shape_setNext] <;> rfl

omit h in
theorem unlink (hr : Rest rq sl s.sched.shape) (h : Waiting wl s.waits s) (hq : wl w = l1 ++ t :: l2) :
    Rest rq sl (s.unlink w t l1.getLast?).sched.shape ∧ Waiting (update wl w (l1 ++ l2)) (update s.waits t none)
        (s.unlink w t l1.getLast?) := by
  have hblocked : ∀ x ∈ wl w, s.sched.shape.state x ≠ .runnable := fun x hx hrun => by
    cases (h.blocked x w ((h.mem w x).1 hx)).2.symm.trans hrun
  have ht : t ∈ wl w := by simp [hq]
  have hwaits : ∀ {x w'}, update s.waits t none x = some w' → s.waits x = some w' := by
    intro x w' hx
    by_cases hxt : x = t
    · simp [hxt] at hx
    · rwa [update_of_ne hxt] at hx
  refine ⟨?_, ?_, ?_, ?_, ?_⟩
  · rw [shape_unlink]
    refine hr.relink fun x hx => ?_
    have hxt : x ≠ t := fun e => hblocked t ht (e ▸ hx)
    cases hl : l1.getLast? with
    | none => exact update_of_ne hxt ..
    | some p =>
      have hp : x ≠ p := fun e => hblocked p (by simp [hq, mem_of_getLast? hl]) (e ▸ hx)
      exact (update_of_ne hxt ..).trans (update_of_ne hp ..)
  · convert h.fifos.unlink hq using 1
    · exact congrArg Shape.next (shape_unlink s w t _)
    · refine (head_update ..).trans ?_
      cases l1.getLast? with
      | none => rfl
      | some p => exact update_eq_self w _
    · refine (tail_update ..).trans ?_
      dsimp only
      split
      · rfl
      · exact update_eq_self w _
  · intro w' x
    rw [h.fifos.mem_unlink hq, h.mem]
    by_cases hx : x = t <;> simp [hx]
  · intro x w' hx
    show x ∈ (s.unlink w t l1.getLast?).sched.shape.objs ∧ (s.unlink w t l1.getLast?).sched.shape.state x = .blocked
    rw [shape_unlink]
    exact h.blocked x w' (hwaits hx)
  · intro x y w' hy hx
    exact h.ctx x y w' hy (hwaits hx)

theorem remove_of_mem (hq : wl w = l1 ++ t :: l2) :
    s.remove w t = some (s.unlink w t l1.getLast?) := by
  have hc := h.fifos.chain w
  have hlen := h.length_le w
  rw [hq] at hc hlen
  rw [remove, hc.seek_eq_some hlen, or_none]
  rfl

theorem remove_of_notMem (ht : t ∉ wl w) : s.remove w t = some s := by
  rw [remove, (h.fifos.chain w).seek_eq_none ht (h.length_le w)]
  rfl

variable [DecidableEq κ] in
theorem waitqWakeOne_eq (hq : wl w = t :: l2) :
    s.waitqWakeOne w = (s.unlink w t none).unblock t := by
  have hc := h.fifos.chain w
  have htail : (s.wqs w).tail = (t :: l2).getLast? := hq ▸ h.fifos.tail_eq w
  rw [hq] at hc
  have hnext : s.sched.next t = l2.head? := Chain.head?_eq hc.2
  have hlast : (if s.sched.next t = none then none else (s.wqs w).tail) =
      if (s.wqs w).tail = some t then none else (s.wqs w).tail := by
    rw [hnext, htail]
    rcases l2.eq_nil_or_concat with rfl | ⟨l, b, rfl⟩
    · simp
    have hbt : b ≠ t := by
      rintro rfl
      exact (nodup_cons.1 hc.nodup).1 (by simp)
    rw [concat_eq_append, ← cons_append, getLast?_concat, if_neg (by simp), if_neg (by simpa using hbt)]
  have hhead : (s.wqs w).head = some t := hc.1
  simp only [WaitState.waitqWakeOne, hhead, WaitState.unlink, if_true, hlast]

end

/-! ### Blocking -/

variable [DecidableEq τ] [DecidableEq ω]

theorem append_spec (h : Waiting wl waits s) (ht : ∀ w, t ∉ wl w) : ∃ s', s.append w t = some s' ∧
    s'.sched.shape = s.sched.shape.relink (appendNext s.sched.next t (s.wqs w).tail) ∧
    Fifos s'.sched.next (fun w => (s'.wqs w).head) (fun w => (s'.wqs w).tail) (update wl w (wl w ++ [t])) ∧
    s'.ctx = s.ctx ∧ s'.waits = s.waits := by
  have hfif := h.fifos.append (c := w) ht
  have hnone := h.fifos.head_eq_none w
  rw [append]
  cases hh : (s.wqs w).head with
  | none =>
    have htail : (s.wqs w).tail = none := hnone.1 hh
    have hv := shape_setNext s.sched t none
    refine ⟨_, rfl, by rw [htail]; exact hv, ?_, rfl, rfl⟩
    simp only [htail] at hfif
    convert hfif using 1
    · exact congrArg Shape.next hv
    · exact head_update ..
    · exact tail_update ..
  | some a =>
    cases htail : (s.wqs w).tail with
    | none => cases hh.symm.trans (hnone.2 htail)
    | some p =>
      have hv : ((s.sched.setNext t none).setNext p (some t)).shape =
          s.sched.shape.relink (appendNext s.sched.next t (some p)) := by
        rw [shape_setNext, shape_setNext]
        rfl
      refine ⟨_, rfl, hv, ?_, rfl, rfl⟩
      simp only [htail] at hfif
      convert hfif using 1
      · exact congrArg Shape.next hv
      · rw [head_update, ← hh]
        exact update_eq_self w _
      · exact tail_update ..

theorem join {s' : WaitState κ τ ω} (h : Waiting wl waits s) (ht : t ∈ s.sched.objs) (hfree : waits t = none)
    (hctx : ∀ x, s.ctx t = some x → x.wq = w)
    (hfif : Fifos s'.sched.next (fun w => (s'.wqs w).head) (fun w => (s'.wqs w).tail) (update wl w (wl w ++ [t])))
    (hobjs : s'.sched.objs = s.sched.objs) (hst : s'.sched.state = update s.sched.state t .blocked)
    (hctx' : s'.ctx = s.ctx) :
    Waiting (update wl w (wl w ++ [t])) (update waits t (some w)) s' where
  fifos := hfif
  mem w' x := by
    have hx := h.mem w' x
    by_cases hxt : x = t <;> by_cases hw : w' = w
    · subst hw
      simp [hxt]
    · subst hxt
      simpa [hw, Ne.symm hw, hfree] using hx
    · subst hw
      simpa [hxt] using hx
    · simpa [hxt, hw] using hx
  blocked x w' hx := by
    rw [hobjs, hst]
    by_cases hxt : x = t
    · subst hxt
      exact ⟨ht, update_self ..⟩
    · rw [update_of_ne hxt] at hx ⊢
      exact h.blocked x w' hx
  ctx x y w' hy hx := by
    rw [hctx'] at hy
    by_cases hxt : x = t
    · subst hxt
      rw [hctx y hy]
      simpa using hx
    · rw [update_of_ne hxt] at hx
      exact h.ctx x y w' hy hx

variable [DecidableEq κ]

theorem waitqWait {c : κ} (hr : Rest rq sl s.sched.shape) (h : Waiting wl s.waits s)
    (hc : (s.sched.cpus c).current ≠ (s.sched.cpus c).idle)
    (hctx : ∀ x, s.ctx (s.sched.cpus c).current = some x → x.wq = w) :
    ∃ s', s.waitqWait c w = some s' ∧ Served wl w s s' := by
  have hrun : s.sched.shape.state (s.sched.shape.current c) = .running := (hr.busy c).resolve_left hc
  have hobj := ((hr.current c).resolve_left hc).1.1
  have hfree : s.waits (s.sched.cpus c).current = none := h.waits_eq_none fun hb => by
    cases hrun.symm.trans hb
  obtain ⟨s1, hs1, hv, hfif, hctx1, hwaits1⟩ :=
    append_spec (t := (s.sched.cpus c).current) h fun w' hw => by simpa [hfree] using (h.mem w' _).1 hw
  have hr1 : Rest rq sl s1.sched.shape := by
    rw [hv]
    refine hr.relink fun x hx => ?_
    have hxc : x ≠ (s.sched.cpus c).current := by
      rintro rfl
      cases hrun.symm.trans hx
    cases htail : (s.wqs w).tail with
    | none => exact update_of_ne hxc ..
    | some p =>
      have hpw : p ∈ wl w := mem_of_getLast? ((h.fifos.tail_eq w).symm.trans htail)
      have hxp : x ≠ p := by
        rintro rfl
        cases (h.blocked x w ((h.mem w x).1 hpw)).2.symm.trans hx
      exact (update_of_ne hxp ..).trans (update_of_ne hxc ..)
  have hcur : (s1.sched.cpus c).current = (s.sched.cpus c).current := congrFun (congrArg Shape.current hv) c
  have hc1 : (s1.sched.cpus c).current ≠ (s1.sched.cpus c).idle := by
    rw [hcur]
    exact fun e => hc (e.trans (congrFun (congrArg Shape.idle hv) c))
  have hstop := stop_rest hr1 hc1 TaskState.off_blocked
  obtain ⟨sched, rq', sl', hs2, hr2⟩ := schedTick_rest hstop.1 hstop.2
  -- the state between the two: the task is on the queue and blocked, and no other one has been picked
  let s2 : WaitState κ τ ω :=
    { s1 with
      sched := s1.sched.modify (s1.sched.cpus c).current fun k => { k with state := .blocked }
      waits := update s.waits (s.sched.cpus c).current (some w) }
  have hv2 : s2.sched.shape = s1.sched.shape.setState (s1.sched.cpus c).current .blocked := shape_setState ..
  have h2 : Waiting (update wl w (wl w ++ [(s.sched.cpus c).current])) s2.waits s2 := by
    refine h.join hobj hfree hctx ?_ ?_ ?_ hctx1
    · have hn : s2.sched.next = s1.sched.next := congrArg Shape.next hv2
      rw [hn]
      exact hfif
    · exact (congrArg Shape.objs hv2).trans (congrArg Shape.objs hv)
    · refine (congrArg Shape.state hv2).trans ?_
      rw [hv, hcur]
      rfl
  refine ⟨_, ?_, ⟨rq', sl', hr2⟩, ⟨_, h2.call fun x w' hx => ?_, fun w' hw => update_of_ne hw ..⟩, hctx1,
    Keeps.trans ?_ (schedBlock_keeps hr1 hc1 hs2)⟩
  · rw [WaitState.waitqWait, hs1, bind_some, schedBlock, hs2, hwaits1]
    rfl
  · exact schedTick_still hstop.1 hs2 (.inl (h2.blocked x w' hx).2)
  · rw [hv]
    exact .relink

end Waiting

/-! ### Waking -/

variable [DecidableEq κ] [DecidableEq τ] [DecidableEq ω] in
theorem unblockList_spec {l : List τ} {n : Nat} {s : SchedState κ τ} {rq sl : κ → List τ} {a : Option τ}
    (hr : Rest rq sl s.shape) (hc : Chain s.next a l) (hn : l.length ≤ n)
    (hl : ∀ x ∈ l, x ∈ s.objs ∧ s.state x = .blocked) : ∃ s' rq', unblockList n a s = some s' ∧
      Rest rq' sl s'.shape ∧ (∀ x ∈ l, s'.state x ≠ .blocked) ∧ (∀ x, x ∉ l → s.shape.Still s'.shape x) ∧
      s.shape.Keeps s'.shape := by
  induction l generalizing s rq a n with
  | nil =>
    cases hc
    exact ⟨s, rq, by rw [unblockList], hr, by simp, fun x _ => .refl, .refl⟩
  | cons t l ih =>
    have hnd := nodup_cons.1 hc.nodup
    obtain ⟨rfl, hc⟩ := hc
    obtain ⟨n, rfl⟩ : ∃ k, n = k + 1 := ⟨n - 1, by simp only [length_cons] at hn; omega⟩
    obtain ⟨hto, htb⟩ := hl t mem_cons_self
    have hr1 : Rest rq sl (s.setNext t none).shape := by
      rw [shape_setNext]
      refine hr.relink fun x hx => update_of_ne ?_ ..
      rintro rfl
      cases htb.symm.trans hx
    obtain ⟨⟨rq2, hq2⟩, hb2⟩ := schedUnblock_queues hr1.toQueues fun _ => hto
    have hr2 : Rest rq2 sl ((s.setNext t none).schedUnblock t).shape := { hq2 with busy := fun c => hb2 c (hr1.busy c) }
    have hstill : ∀ x, x ≠ t → s.shape.Still ((s.setNext t none).schedUnblock t).shape x := by
      intro x hx
      refine Shape.Still.trans ?_ (schedUnblock_still (.inl hx))
      rw [shape_setNext]
      exact ⟨rfl, update_of_ne hx .., id⟩
    have hne : ∀ x ∈ l, x ≠ t := fun x hx => ne_of_mem_of_not_mem hx hnd.1
    obtain ⟨s', rq', hs', hr', hl', hst', ha'⟩ := ih hr2
      (hc.congr fun x hx => (hstill x (hne x hx)).2.1) (by simpa using hn) fun x hx =>
        ⟨(hstill x (hne x hx)).2.2 (hl x (mem_cons_of_mem _ hx)).1,
          (hstill x (hne x hx)).1.trans (hl x (mem_cons_of_mem _ hx)).2⟩
    refine ⟨s', rq', by rw [unblockList]; exact hs', hr', ?_, ?_, Shape.Keeps.trans ?_ ha'⟩
    · intro x hx
      rcases mem_cons.1 hx with rfl | hx
      · exact fun e => schedUnblock_state ((hst' x hnd.1).1.symm.trans e)
      · exact hl' x hx
    · intro x hx
      rw [mem_cons, not_or] at hx
      exact (hstill x hx.1).trans (hst' x hx.2)
    · refine Shape.Keeps.trans ?_ schedUnblock_keeps
      rw [shape_setNext]
      exact .relink

namespace Waiting

open Shape

variable {wl : ω → List τ} {s : WaitState κ τ ω} {rq sl : κ → List τ} {w : ω} {t : τ}

section

variable [DecidableEq κ] [DecidableEq τ] [DecidableEq ω] (hr : Rest rq sl s.sched.shape)
include hr

theorem waitqWakeOne (h : Waiting wl s.waits s) : Served wl w s (s.waitqWakeOne w) := by
  cases hq : wl w with
  | nil =>
    have hhead : (s.wqs w).head = none := (h.fifos.chain w).head?_eq.trans (by rw [hq]; rfl)
    have hs : s.waitqWakeOne w = s := by rw [WaitState.waitqWakeOne, hhead]
    rw [hs]
    exact ⟨⟨rq, sl, hr⟩, ⟨wl, h, fun _ _ => rfl⟩, rfl, .refl⟩
  | cons t l =>
    rw [h.waitqWakeOne_eq hq]
    have hq' : wl w = [] ++ t :: l := hq
    obtain ⟨hr1, h1⟩ := h.unlink hr hq'
    have hto := (h.blocked t w ((h.mem w t).1 (by simp [hq]))).1
    have hto1 : t ∈ (s.unlink w t none).sched.shape.objs := hto
    obtain ⟨⟨rq', hr'⟩, h'⟩ := unblock hr1 h1 hto1
    refine ⟨⟨rq', sl, hr'⟩, ⟨_, h', fun w' hw => update_of_ne hw ..⟩, rfl, Keeps.trans ?_ schedUnblock_keeps⟩
    rw [shape_unlink]
    exact .relink

theorem waitqWakeAll (h : Waiting wl s.waits s) :
    ∃ s', s.waitqWakeAll w = some s' ∧ Served wl w s s' := by
  obtain ⟨sched, rq', hs, hr', hl, hst, hkeeps⟩ := unblockList_spec hr (h.fifos.chain w) (h.length_le w) fun x hx =>
    h.blocked x w ((h.mem w x).1 hx)
  -- the queue is given up before its tasks are woken
  let s1 : WaitState κ τ ω := { s with wqs := update s.wqs w { head := none, tail := none } }
  let waits x := if s.waits x = some w then none else s.waits x
  have hwaits : ∀ {x w'}, waits x = some w' ↔ s.waits x = some w' ∧ w' ≠ w := by
    intro x w'
    by_cases hx : s.waits x = some w
    · simp only [waits, hx, if_true, some.injEq, reduceCtorEq, false_iff, not_and, not_not]
      exact Eq.symm
    · simp only [waits, if_neg hx, iff_self_and]
      rintro hx' rfl
      exact hx hx'
  have hstill : ∀ {x w'}, waits x = some w' → Still s.sched.shape sched.shape x := by
    intro x w' hx
    obtain ⟨hx, hw⟩ := hwaits.1 hx
    refine hst x fun hxw => hw ?_
    exact some.inj (hx.symm.trans ((h.mem w x).1 hxw))
  have h1 : Waiting (update wl w []) waits s1 := by
    refine ⟨?_, fun w' x => ?_, fun x w' hx => h.blocked x w' (hwaits.1 hx).1,
      fun x y w' hy hx => h.ctx x y w' hy (hwaits.1 hx).1⟩
    · convert h.fifos.clear using 1
      · exact head_update ..
      · exact tail_update ..
    · rw [hwaits]
      by_cases hw : w' = w
      · subst hw
        simp
      · simpa [hw] using h.mem w' x
  refine ⟨s1.withSched sched, ?_, ⟨rq', sl, hr'⟩, ⟨_, h1.withSched (fun x w' hx => hstill hx) fun x => ?_,
    fun w' hw => update_of_ne hw ..⟩, rfl, hkeeps⟩
  · rw [WaitState.waitqWakeAll, hs]
    rfl
  · by_cases hx : s.waits x = some w
    · have hb : sched.state x ≠ .blocked := hl x ((h.mem w x).2 hx)
      simp [waits, hx, WaitState.withSched, hb]
    · have hsame : waits x = s.waits x := if_neg hx
      rw [hsame]
      exact withSched_waits (s := s1) fun w' hx' => (hstill (hsame.trans hx')).1.trans (h.blocked x w' hx').2

omit [DecidableEq κ] in
theorem remove (h : Waiting wl s.waits s)
    (hw : ∀ w', s.waits t = some w' → w = w') : ∃ s' wl', s.remove w t = some s' ∧
      Rest rq sl s'.sched.shape ∧ Waiting wl' (update s.waits t none) s' ∧ s'.waits = s.waits ∧
      s'.ctx = s.ctx ∧ (∃ n, s'.sched.shape = s.sched.shape.relink n) ∧ ∀ w', w' ≠ w → wl' w' = wl w' := by
  by_cases ht : t ∈ wl w
  · obtain ⟨l1, l2, hq⟩ := append_of_mem ht
    obtain ⟨hr', h'⟩ := h.unlink hr hq
    exact ⟨_, _, h.remove_of_mem hq, hr', h', rfl, rfl, ⟨_, shape_unlink s w t l1.getLast?⟩,
      fun w' hw => update_of_ne hw ..⟩
  · have hfree : s.waits t = none := by
      cases hwt : s.waits t with
      | none => rfl
      | some w' => exact absurd ((h.mem w t).2 (hw w' hwt ▸ hwt)) ht
    refine ⟨s, wl, h.remove_of_notMem ht, hr, ?_, rfl, rfl, ⟨_, rfl⟩, fun _ _ => rfl⟩
    rw [← hfree, update_eq_self]
    exact h

end

end Waiting

structure WaitInv (wl : ω → List τ) (s : WaitState κ τ ω) : Prop where
  rest : ∃ rq sl, Rest rq sl s.sched.shape
  waiting : Waiting wl s.waits s
  timed : ∀ t x, s.ctx t = some x → s.sched.shape.Alive t

/-- The invariant, with the same wait queues but for `w`. -/
def InvBut (wl : ω → List τ) (w : ω) (s : WaitState κ τ ω) : Prop :=
  ∃ wl', WaitInv wl' s ∧ ∀ w', w' ≠ w → wl' w' = wl w'

namespace WaitInv

variable {wl : ω → List τ} {s : WaitState κ τ ω} {t : τ} {c : κ} {w : ω}

section

variable (h : WaitInv wl s)
include h

theorem current_free (c : κ) : s.waits (s.sched.cpus c).current = none := by
  obtain ⟨rq, sl, hr⟩ := h.rest
  refine h.waiting.waits_eq_none ?_
  rcases hr.busy c with hi | hrun
  · have hst := (hr.idle c).2.2
    rw [← hi] at hst
    rcases hst with hst | hst <;> exact fun hb => by cases hst.symm.trans hb
  · exact fun hb => by cases hrun.symm.trans hb

theorem served {s' : WaitState κ τ ω} (hs : Served wl w s s') : InvBut wl w s' := by
  obtain ⟨wl', h', hother⟩ := hs.waiting
  exact ⟨wl', ⟨hs.rest, h', fun t x hx => hs.keeps.alive_of (h.timed t x (hs.ctx ▸ hx))⟩, hother⟩

variable [DecidableEq κ] [DecidableEq τ] [DecidableEq ω]

omit [DecidableEq κ] [DecidableEq ω] in
theorem setCtx {o : Option (TimeoutCtx ω)}
    (ho : ∀ x, o = some x → s.sched.shape.Alive t ∧ ∀ w, s.waits t = some w → x.wq = w) :
    WaitInv wl { s with ctx := update s.ctx t o } := by
  have hctx : ∀ y z, update s.ctx t o y = some z → s.ctx y = some z ∨ y = t ∧ o = some z := by
    intro y z hz
    by_cases hyt : y = t
    · exact .inr ⟨hyt, by simpa [hyt] using hz⟩
    · exact .inl (by simpa [hyt] using hz)
  refine ⟨h.rest, { h.waiting with ctx := fun y z w hz hy => ?_ }, fun y z hz => ?_⟩ <;>
    rcases hctx y z hz with hz | ⟨rfl, ho'⟩
  · exact h.waiting.ctx y z w hz hy
  · exact (ho z ho').2 w hy
  · exact h.timed y z hz
  · exact (ho z ho').1

theorem sched {e : SchedEvent κ τ} (he : s.Enabled (.sched e)) (hc : Calm s (.sched e)) :
    ∃ s', s.call (.sched e) = some s' ∧ WaitInv wl s' := by
  obtain ⟨rq, sl, hr⟩ := h.rest
  obtain ⟨sched, rq', sl', hs, hr'⟩ := call_rest hr he.1
  refine ⟨s.withSched sched, by rw [WaitState.call, hs]; rfl, ⟨rq', sl', hr'⟩, ?_, fun t x hx => ?_⟩
  · refine h.waiting.call fun x w hx => ?_
    obtain ⟨hxo, hxb⟩ := h.waiting.blocked x w hx
    refine call_still hr he.1 hs (.inl hxb) (fun c => ?_) (fun t ht => .inl ?_) ?_
    · rintro rfl
      exact he.1 hxo
    · rintro rfl
      cases hx.symm.trans (hc x ht)
    · rintro rfl
      cases hxb.symm.trans he.1.2
  · refine call_alive hr he.1 hs (h.timed t x hx) fun c hcall => ?_
    rintro rfl
    have hnone := (he.2 c hcall).2
    simp only [WaitState.withSched] at hx
    simp [hx] at hnone

theorem wait (hc : (s.sched.cpus c).current ≠ (s.sched.cpus c).idle)
    (hctx : ∀ x, s.ctx (s.sched.cpus c).current = some x → x.wq = w) :
    ∃ s', s.waitqWait c w = some s' ∧ InvBut wl w s' := by
  obtain ⟨rq, sl, hr⟩ := h.rest
  obtain ⟨s', hs, h'⟩ := h.waiting.waitqWait hr hc hctx
  exact ⟨s', hs, h.served h'⟩

theorem waitTimeout (hf : s.Free c) (ms : Nat) : ∃ s', s.waitqWaitTimeout c w ms = some s' ∧ InvBut wl w s' := by
  rw [waitqWaitTimeout]
  split
  · exact ⟨s, rfl, wl, h, fun _ _ => rfl⟩
  obtain ⟨rq, sl, hr⟩ := h.rest
  have hcur : s.sched.shape.Alive (s.sched.cpus c).current := by
    have hrun : s.sched.shape.state (s.sched.cpus c).current = .running := (hr.busy c).resolve_left hf.1
    exact ⟨((hr.current c).resolve_left hf.1).1.1, by simp [hrun, TaskState.Ended]⟩
  let x0 : TimeoutCtx ω := { wq := w, fired := false }
  have h1 : WaitInv wl { s with ctx := update s.ctx (s.sched.cpus c).current (some x0) } :=
    h.setCtx fun x _ => ⟨hcur, fun w' hw => by cases hw.symm.trans (h.current_free c)⟩
  refine h1.wait hf.1 fun x hx => ?_
  simp only [update_self, some.injEq] at hx
  exact hx ▸ rfl

omit [DecidableEq κ] in
theorem waitEnd {x : TimeoutCtx ω} (hx : s.ctx (s.sched.cpus c).current = some x) :
    ∃ s', s.waitTimeoutEnd c = some s' ∧ InvBut wl x.wq s' := by
  obtain ⟨rq, sl, hr⟩ := h.rest
  have hfree := h.current_free c
  let s1 : WaitState κ τ ω := { s with ctx := update s.ctx (s.sched.cpus c).current none }
  have h1 : WaitInv wl s1 := h.setCtx nofun
  simp only [waitTimeoutEnd, hx]
  split
  · exact ⟨s1, rfl, wl, h1, fun _ _ => rfl⟩
  obtain ⟨s2, wl2, hs2, hr2, h2, hwaits, hctx, ⟨n, hv⟩, hother⟩ :=
    Waiting.remove (s := s1) hr h1.waiting fun w' hw => by
      cases hw.symm.trans hfree
  have hfree1 : s1.waits (s.sched.cpus c).current = none := hfree
  rw [← hfree1, update_eq_self, ← hwaits] at h2
  refine ⟨s2, hs2, wl2, ⟨⟨rq, sl, hr2⟩, h2, fun t y hy => ?_⟩, hother⟩
  rw [hv]
  exact h1.timed t y (hctx ▸ hy)

theorem timeout {x : TimeoutCtx ω} (hx : s.ctx t = some x) : ∃ s', s.wqTimeoutCb t = some s' ∧ InvBut wl x.wq s' := by
  obtain ⟨rq, sl, hr⟩ := h.rest
  let s1 : WaitState κ τ ω := { s with ctx := update s.ctx t (some { x with fired := true }) }
  have h1 : WaitInv wl s1 := h.setCtx fun y hy => by
    cases hy
    exact ⟨h.timed t x hx, fun w hw => h.waiting.ctx t x w hx hw⟩
  obtain ⟨s2, wl2, hs2, hr2, h2, hwaits, hctx, ⟨n, hv⟩, hother⟩ :=
    Waiting.remove (s := s1) hr h1.waiting fun w' hw => h.waiting.ctx t x w' hx hw
  have hcb : s.wqTimeoutCb t = some (if s2.sched.state t = .blocked then s2.unblock t else s2) := by
    simp only [wqTimeoutCb, hx]
    rw [show remove _ x.wq t = some s2 from hs2]
    rfl
  have htimed2 : ∀ t x, s2.ctx t = some x → s2.sched.shape.Alive t := by
    rw [hv, hctx]
    exact h1.timed
  rw [hcb]
  split
  · have hto : t ∈ s2.sched.shape.objs := by
      rw [hv]
      exact (h.timed t x hx).1
    rw [← hwaits] at h2
    obtain ⟨⟨rq', hr'⟩, h'⟩ := h2.unblock hr2 hto
    exact ⟨_, rfl, wl2, ⟨⟨rq', sl, hr'⟩, h', fun y z hz => schedUnblock_keeps.alive_of (htimed2 y z hz)⟩, hother⟩
  · rename_i hb
    have hfree : s1.waits t = none :=
      h1.waiting.waits_eq_none fun e => hb ((congrFun (congrArg Shape.state hv) t).trans e)
    rw [← hfree, update_eq_self, ← hwaits] at h2
    exact ⟨_, rfl, wl2, ⟨⟨rq, sl, hr2⟩, h2, htimed2⟩, hother⟩

omit [DecidableEq ω] in
theorem signal (ht : t ∈ s.sched.objs) (hfree : s.waits t = none) : WaitInv wl (s.unblock t) := by
  obtain ⟨rq, sl, hr⟩ := h.rest
  have hw : Waiting wl (update s.waits t none) s := by
    rw [← hfree, update_eq_self]
    exact h.waiting
  obtain ⟨⟨rq', hr'⟩, h'⟩ := hw.unblock hr ht
  exact ⟨⟨rq', sl, hr'⟩, h', fun y z hz => schedUnblock_keeps.alive_of (h.timed y z hz)⟩

/-- Every call that sends no signal to a task on a wait queue returns, keeps the lists sound and changes no wait
queue but its own. -/
theorem call {e : WaitEvent κ τ ω} (he : s.Enabled e) (hc : Calm s e) :
    ∃ s' wl', s.call e = some s' ∧ WaitInv wl' s' ∧ ∀ w, s.target e ≠ some w → wl' w = wl w := by
  obtain ⟨rq, sl, hr⟩ := h.rest
  have hbut : ∀ {w : ω} {o : Option (WaitState κ τ ω)}, s.target e = some w → (∃ s', o = some s' ∧ InvBut wl w s') →
      ∃ s' wl', o = some s' ∧ WaitInv wl' s' ∧ ∀ w, s.target e ≠ some w → wl' w = wl w := by
    rintro w o ht ⟨s', hs, wl', h', hother⟩
    exact ⟨s', wl', hs, h', fun w' hw => hother w' fun e => hw (e ▸ ht)⟩
  cases e with
  | sched e =>
    obtain ⟨s', hs, h'⟩ := h.sched he hc
    exact ⟨s', wl, hs, h', fun _ _ => rfl⟩
  | wait c w =>
    refine hbut rfl (h.wait he.1 fun x hx => ?_)
    have hnone := he.2
    simp [hx] at hnone
  | waitTimeout c w ms => exact hbut rfl (h.waitTimeout he ms)
  | waitEnd c =>
    obtain ⟨x, hx⟩ := Option.isSome_iff_exists.1 he
    exact hbut (by simp [WaitState.target, hx]) (h.waitEnd hx)
  | wakeOne w => exact hbut rfl ⟨_, rfl, h.served (h.waiting.waitqWakeOne hr)⟩
  | wakeAll w =>
    obtain ⟨s', hs, h'⟩ := h.waiting.waitqWakeAll (w := w) hr
    exact hbut rfl ⟨s', hs, h.served h'⟩
  | expire t =>
    obtain ⟨x, hx, -⟩ := (Option.any_eq_true ..).1 he
    exact hbut (by simp [WaitState.target, hx]) (h.timeout hx)
  | signal t sig =>
    simp only [WaitState.call, WaitState.signalSend]
    split
    · exact ⟨s, wl, rfl, h, fun _ _ => rfl⟩
    · exact ⟨_, wl, rfl, h.signal he (hc (by omega)), fun _ _ => rfl⟩

end

end WaitInv

/-- Every wait queue ends at its tail and holds tasks that are blocked on it, and every run queue holds the runnable
tasks of its CPU. -/
def WaitSound (s : WaitState κ τ ω) : Prop :=
  (∀ w, ∃ l, Chain s.sched.next (s.wqs w).head l ∧ (s.wqs w).tail = l.getLast? ∧
    ∀ t ∈ l, s.sched.state t = .blocked ∧ s.waits t = some w) ∧
  ∀ c, ∃ q, Chain s.sched.next (s.sched.cpus c).rqHead q ∧
    ∀ t, t ∈ q ↔ s.sched.shape.Live t ∧ s.sched.state t = .runnable ∧ (s.sched.tasks t).cpuId = c

theorem WaitInv.sound {s : WaitState κ τ ω} (h : WaitInv wl s) : WaitSound s := by
  obtain ⟨rq, sl, hr⟩ := h.rest
  constructor
  · intro w
    refine ⟨wl w, h.waiting.fifos.chain w, h.waiting.fifos.tail_eq w, fun t ht => ?_⟩
    have hw := (h.waiting.mem w t).1 ht
    exact ⟨(h.waiting.blocked t w hw).2, hw⟩
  · intro c
    refine ⟨rq c, hr.rq_lists.chain c, fun t => ?_⟩
    rw [hr.mem_rq]
    simp only [Shape.At, not_mem_nil, not_false_eq_true, true_and]
    rfl

/-- A task that is woken while its wait queue runs through it. -/
theorem WaitInv.not_sound {s s' : WaitState κ τ ω} {t : τ} {w : ω} (h : WaitInv wl s)
    (hw : s.waits t = some w) (hwqs : s'.wqs = s.wqs) (ht : s'.sched.state t ≠ .blocked)
    (hst : ∀ x, s.waits x = some w → x ≠ t → s.sched.shape.Still s'.sched.shape x) : ¬ WaitSound s' := by
  intro hs
  obtain ⟨l, hl, -, hmem⟩ := hs.1 w
  rw [hwqs] at hl
  have hc := h.waiting.fifos.chain w
  obtain ⟨l1, l2, hq⟩ := append_of_mem ((h.waiting.mem w t).2 hw)
  rw [hq] at hc
  refine ht (hmem t (hc.mem_of_eq_on hl fun x hx => ?_)).1
  have hxw : s.waits x = some w := (h.waiting.mem w x).1 (by simp [hq, hx])
  refine (hst x hxw ?_).2.1
  rintro rfl
  exact disjoint_of_nodup_append hc.nodup hx mem_cons_self

theorem WaitInit.inv {s : WaitState κ τ ω} (h : WaitInit s) : WaitInv (fun _ => []) s where
  rest := ⟨_, _, h.sched.rest⟩
  waiting :=
    { fifos := ⟨⟨fun w => by rw [h.wqs]; rfl, by simp⟩, fun w => by rw [h.wqs]; rfl⟩
      mem := by simp [h.waits]
      blocked := by simp [h.waits]
      ctx := by simp [h.ctx] }
  timed := by simp [h.ctx]

variable [DecidableEq κ] [DecidableEq τ] [DecidableEq ω]

theorem WaitInv.calm_of_sound {s s' : WaitState κ τ ω} {e : WaitEvent κ τ ω} (h : WaitInv wl s)
    (he : s.Enabled e) (hs : s.call e = some s') (hsound : WaitSound s') : Calm s e := by
  obtain ⟨rq, sl, hr⟩ := h.rest
  cases e with
  | sched e =>
    intro t ht
    cases hw : s.waits t with
    | none => rfl
    | some w =>
      obtain ⟨sched, hs', rfl⟩ := map_eq_some_iff.1 hs
      refine absurd hsound (h.not_sound hw rfl (call_wakes hr he.1 hs' ht) fun x hx hxt => ?_)
      obtain ⟨hxo, hxb⟩ := h.waiting.blocked x w hx
      refine call_still hr he.1 hs' (.inl hxb) (fun c => ?_) (fun t' ht' => .inl ?_) ?_
      · rintro rfl
        exact he.1 hxo
      · exact some.inj (ht.symm.trans ht') ▸ hxt
      · rintro rfl
        cases hxb.symm.trans he.1.2
  | signal t sig =>
    intro hsig
    cases hw : s.waits t with
    | none => rfl
    | some w =>
      have hs' : s' = s.unblock t := by
        rw [← some.inj hs, signalSend, if_neg (by omega)]
      rw [hs'] at hsound
      exact absurd hsound (h.not_sound hw rfl schedUnblock_state fun x _ hxt =>
        schedUnblock_still (.inl hxt))
  | _ => trivial

open Transition

theorem run_waitInv {s0 s : WaitState κ τ ω} {es : List (WaitEvent κ τ ω)} (h0 : WaitInit s0)
    (hrun : Run waitStep Calm s0 es s) : ∃ wl, WaitInv wl s := by
  refine hrun.inv (I := fun s => ∃ wl, WaitInv wl s) ?_ ⟨_, h0.inv⟩
  rintro s e s' ⟨wl, h⟩ hc hs
  obtain ⟨he, hs⟩ := ite_none_right_eq_some.1 hs
  obtain ⟨s'', wl', hs', h', -⟩ := h.call he hc
  cases hs.symm.trans hs'
  exact ⟨wl', h'⟩

theorem waitq_sound {s0 s : WaitState κ τ ω} {es : List (WaitEvent κ τ ω)} (h0 : WaitInit s0)
    (hrun : Run waitStep Calm s0 es s) : WaitSound s ∧
      (∀ e, s.Enabled e → Calm s e → ∃ s', waitStep s e = some s' ∧ ∀ w l, s.target e ≠ some w →
        Chain s.sched.next (s.wqs w).head l → Chain s'.sched.next (s'.wqs w).head l) ∧
      ∀ e s', waitStep s e = some s' → (WaitSound s' ↔ Calm s e) := by
  obtain ⟨wl, h⟩ := run_waitInv h0 hrun
  refine ⟨h.sound, fun e he hc => ?_, fun e s' hs => ?_⟩
  · obtain ⟨s', wl', hs', h', hother⟩ := h.call he hc
    refine ⟨s', by rw [waitStep, if_pos he, hs'], fun w l hw hl => ?_⟩
    rw [hl.unique (h.waiting.fifos.chain w), ← hother w hw]
    exact h'.waiting.fifos.chain w
  · obtain ⟨he, hs⟩ := ite_none_right_eq_some.1 hs
    refine ⟨h.calm_of_sound he hs, fun hc => ?_⟩
    obtain ⟨s'', wl', hs', h', -⟩ := h.call he hc
    cases hs.symm.trans hs'
    exact h'.sound

def oneQueue : WaitState (Fin 2) Nat Unit where
  sched := twoCpus
  wqs _ := { head := none, tail := none }
  ctx _ := none
  waits _ := none

theorem oneQueue_init : WaitInit oneQueue := ⟨twoCpus_init, fun _ => rfl, fun _ => rfl, fun _ => rfl⟩

/-- Tasks 3 and 2 wait, the latter with a timeout; 3 is woken, the timer of 2 fires, and 3 waits again. -/
theorem waitq_sound_timeout : WaitInit oneQueue ∧ ∃ s, Run waitStep Calm oneQueue
    [.sched (.addTask 2 0), .sched (.addTask 3 0), .sched (.tick 0), .wait 0 (), .waitTimeout 0 () 5, .wakeOne (),
      .expire 2, .sched (.tick 0), .signal 2 15, .waitEnd 0, .sched (.tick 0), .wait 0 ()] s ∧
    [2, 3].map s.waits = [none, some ()] ∧ WaitSound s := by
  refine ⟨oneQueue_init, exists_run (fun s => [2, 3].map s.waits) [none, some ()] (by decide +kernel)
    fun s hrun hw => ?_⟩
  exact ⟨hw, (waitq_sound oneQueue_init hrun).1⟩

/-- Two tasks wait and the first one gets a signal: the queue breaks off after it, before its tail. -/
theorem signal_breaks_waitq : WaitInit oneQueue ∧ ∃ s, Run waitStep Any oneQueue
    [.sched (.addTask 2 0), .sched (.addTask 3 0), .sched (.tick 0), .wait 0 (), .wait 0 (), .signal 3 15] s ∧
    Chain s.sched.next (s.wqs ()).head [3] ∧ (s.wqs ()).tail = some 2 ∧ s.sched.state 3 = .runnable ∧
    ¬ WaitSound s := by
  refine ⟨oneQueue_init, exists_run (fun s => ((s.wqs ()).head, s.sched.next 3, (s.wqs ()).tail, s.sched.state 3))
    (some 3, none, some 2, .runnable) (by decide +kernel) fun s _ hd => ?_⟩
  simp only [Prod.mk.injEq] at hd
  obtain ⟨hhead, hnext, htail, hst⟩ := hd
  have hchain : Chain s.sched.next (s.wqs ()).head [3] := ⟨hhead, hnext⟩
  refine ⟨hchain, htail, hst, fun hsound => ?_⟩
  obtain ⟨l, hl, -, hmem⟩ := hsound.1 ()
  rw [hl.unique hchain] at hmem
  cases hst.symm.trans (hmem 3 mem_cons_self).1

end ExoOS.Sched
