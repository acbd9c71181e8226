import ExoOS.Ipc.Signal

/-!
# SIGKILL and SIGSTOP

The signal calls, deliveries and all other calls of all tasks as one system. `rt_sigprocmask` never blocks the two
signals, but a handler's `sa_mask`, the frame of `rt_sigreturn` and the mask of `rt_sigsuspend` go into `sig_mask`
as they are. `sigkill_unblockable` is what holds if none of these has the two bits and no handler of a lower signal
stands before a pending SIGKILL.
-/

namespace ExoOS.Ipc

open Function Option Sched Transition

/-- The task table, and the mask that a task in `rt_sigsuspend` will put back. -/
structure Sys where
  kernel : Kernel
  suspended : TaskId → Option (BitVec 32)

inductive Event
  | sigaction (i : TaskId) (alloc : Bool) (sig : Int) (act : Option Sigaction)
  | sigprocmask (i : TaskId) (how : Int) (set : Option Word)
  | sigaltstack (i : TaskId) (ss : Option KernelStack)
  | deliver (i : TaskId) (mapped : Word → Bool) (regs : Regs)
  | sigreturn (i : TaskId) (frame : Option Sigframe)
  | sigsuspend (i : TaskId) (mask : Option Word)
  | resume (i : TaskId)
  /-- A forbidden call in strict mode: SIGKILL, and a delivery at once. -/
  | seccomp (i : TaskId) (mapped : Word → Bool) (regs : Regs)
  | send (j : TaskId) (sig : Int)
  | call (i : TaskId) (c : Call)

def alive (t : Task) : Bool := t.state != .dead && t.state != .zombie

/-- The task of `i`, if it can run: it is alive and not inside `rt_sigsuspend`. -/
def Sys.actor (s : Sys) (i : TaskId) : Option Task :=
  match s.kernel.tasks i, s.suspended i with
  | some t, none => if alive t then some t else none
  | _, _ => none

def Sys.on (s : Sys) (i : TaskId) (f : Task → Task) : Option Sys :=
  (s.actor i).map fun t => { s with kernel := s.kernel.modify i fun _ => f t }

def step (s : Sys) : Event → Option Sys
  | .sigaction i alloc sig act => s.on i fun t => (sysRtSigaction t alloc sig act).2.2
  | .sigprocmask i how set => s.on i fun t => (sysRtSigprocmask t how set).2.2
  | .sigaltstack i ss => s.on i fun t => (sysSigaltstack t ss).2
  | .deliver i mapped regs =>
    (s.actor i).map fun _ => { s with kernel := (signalDeliverUser mapped regs s.kernel i).2 }
  | .sigreturn i frame => s.on i fun t => (sysRtSigreturn t frame).2.2
  | .sigsuspend i mask =>
    (s.actor i).map fun t =>
      { kernel := s.kernel.modify i fun _ => (sigsuspendBegin t mask).2
        suspended := Function.update s.suspended i (some (sigsuspendBegin t mask).1) }
  | .resume i =>
    match s.kernel.tasks i, s.suspended i with
    | some t, some old =>
      if sigsuspendReady t then
        some
          { kernel := s.kernel.modify i fun _ => sigsuspendEnd t old
            suspended := Function.update s.suspended i none }
      else none
    | _, _ => none
  | .seccomp i mapped regs =>
    (s.actor i).bind fun t =>
      if t.seccompMode = .strict then
        some { s with kernel := (signalDeliverUser mapped regs (signalSend s.kernel i SIGKILL) i).2 }
      else none
  | .send j sig => some { s with kernel := signalSend s.kernel j sig }
  | .call i c => (s.actor i).map fun _ => { s with kernel := (Sched.call s.kernel i c).2 }

/-! ### Masks without the two bits -/

structure Clean (m : Word) : Prop where
  kill : m.getLsbD SIGKILL = false
  stop : m.getLsbD SIGSTOP = false

namespace Clean

variable {m m' : Word}

theorem zero : Clean 0 := ⟨by simp, by simp⟩

theorem or (h : Clean m) (h' : Clean m') : Clean (m ||| m') :=
  ⟨by rw [BitVec.getLsbD_or, h.kill, h'.kill]; rfl, by rw [BitVec.getLsbD_or, h.stop, h'.stop]; rfl⟩

theorem and (h : Clean m) (m' : Word) : Clean (m &&& m') :=
  ⟨by rw [BitVec.getLsbD_and, h.kill]; rfl, by rw [BitVec.getLsbD_and, h.stop]; rfl⟩

theorem twoPow {sig : Nat} (h1 : sig ≠ SIGKILL) (h2 : sig ≠ SIGSTOP) : Clean (BitVec.twoPow 64 sig) :=
  ⟨by simp [h1], by simp [h2]⟩

theorem sanitized (m : Word) : Clean (m &&& ~~~unblockable) :=
  ⟨by simp [unblockable, SIGKILL], by simp [unblockable, SIGSTOP]⟩

theorem setWidth (h : Clean m) : Clean ((m.setWidth 32).setWidth 64) := ⟨by simp [h.kill], by simp [h.stop]⟩

end Clean

/-- The masks of a task are clean, and SIGSTOP has its default action. -/
structure TaskOk (t : Task) : Prop where
  mask : Clean t.sigMask
  actions : ∀ tbl, t.sigactions = some tbl → (∀ sig, Clean (tbl sig).saMask) ∧ (tbl SIGSTOP).saHandler = 0
  handlers : ∀ h, t.sigHandlers = some h → h SIGSTOP = 0

variable {t t' : Task} {k k' : Kernel} {i j : TaskId} {mapped : Word → Bool} {regs : Regs} {sig : Nat}

theorem TaskOk.congr (h : TaskOk t) (h1 : t'.sigMask = t.sigMask) (h2 : t'.sigactions = t.sigactions)
    (h3 : t'.sigHandlers = t.sigHandlers) : TaskOk t' :=
  ⟨h1 ▸ h.mask, fun tbl ht => h.actions tbl (h2 ▸ ht), fun f hf => h.handlers f (h3 ▸ hf)⟩

theorem TaskOk.withMask (h : TaskOk t) {m : Word} (hm : Clean m) : TaskOk { t with sigMask := m } :=
  ⟨hm, h.actions, h.handlers⟩

variable {sa : Sigaction}

theorem sigactionOf_ok (h : TaskOk t) (hs : sigactionOf t sig = some sa) : Clean sa.saMask ∧ sig ≠ SIGSTOP := by
  obtain ⟨tbl, htbl, hs⟩ := bind_eq_some_iff.1 hs
  obtain ⟨h1, h2⟩ := h.actions tbl htbl
  obtain ⟨hne, ⟨⟩⟩ := ite_none_right_eq_some.1 hs
  refine ⟨h1 sig, ?_⟩
  rintro rfl
  exact hne h2

theorem action_handle {table : Bool} (h : TaskOk t) (ha : action t sig = .handle sa table) :
    Clean sa.saMask ∧ sig ≠ SIGSTOP := by
  unfold action at ha
  split at ha
  · rename_i sa' hsa
    split at ha
    · split at ha <;> cases ha
    · cases ha
      exact sigactionOf_ok h hsa
  split at ha
  · rename_i f hf
    split at ha
    · split at ha <;> cases ha
    rename_i hne
    split at ha
    · cases ha
    · cases ha
      refine ⟨.zero, ?_⟩
      rintro rfl
      exact hne (h.handlers f hf)
  · split at ha <;> cases ha

theorem enterHandler_ok (table : Bool) (h : TaskOk t) (hsa : Clean sa.saMask)
    (h1 : sig ≠ SIGKILL) (h2 : sig ≠ SIGSTOP) : TaskOk (enterHandler mapped regs t sig sa table).2 := by
  unfold enterHandler
  dsimp only
  split
  · exact h
  split
  · exact h
  refine ⟨?_, fun tbl htbl => ?_, h.handlers⟩
  · refine Clean.or ?_ hsa
    split
    · exact h.mask.or (.twoPow h1 h2)
    · exact h.mask
  · dsimp only at htbl
    split at htbl
    · obtain ⟨tbl', htbl', rfl⟩ := map_eq_some_iff.1 htbl
      obtain ⟨h3, h4⟩ := h.actions tbl' htbl'
      refine ⟨(forall_update_iff tbl' fun _ a => Clean a.saMask).2 ⟨h3 sig, fun s _ => h3 s⟩, ?_⟩
      rw [update_of_ne h2.symm]
      exact h4
    · exact h.actions tbl htbl

theorem deliverLoop_ok {deliverable : Word} (sigs : List Nat) (h : TaskOk t) :
    TaskOk (deliverLoop mapped regs deliverable sigs t).2 := by
  induction sigs generalizing t with
  | nil => exact h
  | cons sig sigs ih =>
    unfold deliverLoop
    split
    · exact ih h
    dsimp only
    have h' : TaskOk { t with sigPending := t.sigPending &&& ~~~BitVec.twoPow 64 sig } := h.congr rfl rfl rfl
    split
    · exact h.congr rfl rfl rfl
    rename_i hkill
    split
    · exact h.congr rfl rfl rfl
    · exact ih h'
    · rename_i sa table ha
      obtain ⟨h1, h2⟩ := action_handle h' ha
      exact enterHandler_ok table h' h1 hkill h2

variable (mapped regs) in
section

variable (h : TaskOk t)
include h

theorem deliverTask_ok : TaskOk (deliverTask mapped regs t).2 := by
  unfold deliverTask
  split
  · exact h
  dsimp only
  split
  · exact h
  · exact deliverLoop_ok _ h

theorem sigaction_ok {alloc : Bool} {sig : Int} {act : Option Sigaction}
    (hact : ∀ a, act = some a → Clean a.saMask) : TaskOk (sysRtSigaction t alloc sig act).2.2 := by
  unfold sysRtSigaction
  split
  · exact h
  split
  · exact h
  rename_i hsig hkill
  have hne : SIGSTOP ≠ sig.toNat := by
    omega
  split
  · exact h
  rename_i tbl htbl
  -- the old table or a new one
  have hok : (∀ sig, Clean (tbl sig).saMask) ∧ (tbl SIGSTOP).saHandler = 0 := by
    rcases hold : t.sigactions with _ | old
    · rw [hold] at htbl
      rcases alloc <;> cases htbl
      exact ⟨fun _ => .zero, rfl⟩
    · rw [hold] at htbl
      cases htbl
      exact h.actions _ hold
  rcases act with _ | a
  · refine ⟨h.mask, fun tbl' h' => ?_, h.handlers⟩
    cases h'
    exact hok
  refine ⟨h.mask, fun tbl' h' => ?_, fun f hf => ?_⟩
  · cases h'
    refine ⟨(forall_update_iff tbl fun _ a => Clean a.saMask).2 ⟨hact a rfl, fun s _ => hok.1 s⟩, ?_⟩
    rw [update_of_ne hne]
    exact hok.2
  · obtain ⟨f', hf', rfl⟩ := map_eq_some_iff.1 hf
    rw [update_of_ne hne]
    exact h.handlers f' hf'

theorem sigprocmask_ok {how : Int} {set : Option Word} : TaskOk (sysRtSigprocmask t how set).2.2 := by
  unfold sysRtSigprocmask
  split
  · exact h
  split
  · exact h.withMask (h.mask.or (.sanitized _))
  split
  · exact h.withMask (h.mask.and _)
  split
  · exact h.withMask (.sanitized _)
  · exact h

theorem sigaltstack_ok {ss : Option KernelStack} : TaskOk (sysSigaltstack t ss).2 := by
  unfold sysSigaltstack
  repeat' split
  all_goals exact h.congr rfl rfl rfl

theorem sigreturn_ok {frame : Option Sigframe} (hf : ∀ f, frame = some f → Clean f.sigMask) :
    TaskOk (sysRtSigreturn t frame).2.2 := by
  unfold sysRtSigreturn
  split
  · exact h
  · exact h.withMask (hf _ rfl)

end

def TasksOk (k : Kernel) : Prop := ∀ i t, k.tasks i = some t → TaskOk t

structure Ok (s : Sys) : Prop where
  tasks : TasksOk s.kernel
  suspended : ∀ i m, s.suspended i = some m → Clean (m.setWidth 64)

/-- No signal below SIGKILL that can be delivered has a handler. -/
def NothingBefore (t : Task) : Prop :=
  ∀ sig < SIGKILL, t.sigPending.getLsbD sig = true → t.sigMask.getLsbD sig = false →
    ∀ sa table, action t sig ≠ .handle sa table

/-- The masks that a program hands over do not have the two bits, and when SIGKILL is to be delivered no handler
of a lower signal comes first. -/
def Careful (s : Sys) : Event → Prop
  | .sigaction _ _ _ (some act) => Clean act.saMask
  | .sigreturn _ (some frame) => Clean frame.sigMask
  | .sigsuspend _ (some mask) => Clean mask
  | .deliver i _ _ => ∀ t, s.kernel.tasks i = some t → t.sigPending.getLsbD SIGKILL = true → NothingBefore t
  | .seccomp i _ _ => ∀ t, s.kernel.tasks i = some t → NothingBefore t
  | _ => True

structure Created (s : Sys) : Prop where
  tasks : ∀ i t, s.kernel.tasks i = some t →
    t.sigMask = 0 ∧ t.sigactions = none ∧ ∀ h, t.sigHandlers = some h → h = fun _ => 0
  suspended : ∀ i, s.suspended i = none

variable {s s' : Sys} {e : Event}

theorem Created.ok (h : Created s) : Ok s := by
  refine ⟨fun i t ht => ?_, fun i m hm => ?_⟩
  · obtain ⟨h1, h2, h3⟩ := h.tasks i t ht
    refine ⟨h1 ▸ .zero, fun tbl htbl => ?_, fun f hf => ?_⟩
    · rw [h2] at htbl; cases htbl
    · rw [h3 f hf]
  · rw [h.suspended i] at hm; cases hm

theorem modify_ok {f : Task → Task} (h : TasksOk k) (hf : ∀ t, k.tasks i = some t → TaskOk (f t)) :
    TasksOk (k.modify i f) := by
  intro j t' ht'
  by_cases hj : j = i
  · subst hj
    rw [Kernel.modify_tasks_self] at ht'
    obtain ⟨t, ht, rfl⟩ := map_eq_some_iff.1 ht'
    exact hf t ht
  · rw [Kernel.modify_tasks_ne hj] at ht'
    exact h j t' ht'

theorem send_ok (h : TasksOk k) (j : TaskId) (sig : Int) : TasksOk (signalSend k j sig) := by
  unfold signalSend
  split
  · exact h
  · exact modify_ok h fun t ht => (h j t ht).congr rfl rfl rfl

theorem deliver_ok (h : TasksOk k) (i : TaskId) : TasksOk (signalDeliverUser mapped regs k i).2 := by
  unfold signalDeliverUser
  split
  · exact h
  rename_i t ht
  have hk := modify_ok (i := i) h fun _ _ => deliverTask_ok mapped regs (h i t ht)
  dsimp only
  split
  · exact send_ok hk _ _
  · exact hk

theorem call_ok (h : TasksOk k) (i : TaskId) (c : Call) : TasksOk (Sched.call k i c).2 := by
  intro j t' ht'
  rcases call_tasks ht' with ht | ⟨cur, hcur, ⟨t, ht, hst⟩ | hc⟩
  · exact h j t' ht
  · have hok := h j t ht
    rcases hst with _ | ⟨f, hlc, -⟩ | ⟨_, pid, d, -, -⟩ | ⟨-⟩
    · exact hok
    · obtain ⟨⟨h1, h2, h3⟩, -⟩ := localCall_keeps hlc cur
      refine ⟨h1 ▸ hok.mask, h2 ▸ hok.actions, fun f' hf' => ?_⟩
      rcases h3 with h3 | h3
      · exact hok.handlers f' (h3 ▸ hf')
      · rw [h3] at hf'
        obtain ⟨_, -, rfl⟩ := map_eq_some_iff.1 hf'
        rfl
    · obtain ⟨⟨⟨h1, h2, -⟩, -⟩, h3⟩ := capset_keeps t d
      exact hok.congr h1 h2 h3
    · exact hok.congr rfl rfl rfl
  · refine ⟨?_, fun tbl htbl => ?_, fun f hf => ?_⟩
    · rcases hc.sigMask with hm | hm
      · rw [hm]; exact (h i cur hcur).mask
      · rw [hm]; exact .zero
    · rw [hc.sigactions] at htbl; cases htbl
    · rw [hc.sigHandlers f hf]

theorem actor_eq (h : s.actor i = some t) : s.kernel.tasks i = some t ∧ s.suspended i = none ∧ alive t := by
  unfold Sys.actor at h
  split at h
  · split at h
    · cases h
      exact ⟨‹_›, ‹_›, ‹_›⟩
    · cases h
  · cases h

theorem on_ok {f : Task → Task} (h : Ok s) (hf : ∀ t, s.kernel.tasks i = some t → TaskOk (f t))
    (hs : s.on i f = some s') : Ok s' := by
  obtain ⟨t, hact, rfl⟩ := map_eq_some_iff.1 hs
  exact ⟨modify_ok h.tasks fun _ _ => hf t (actor_eq hact).1, h.suspended⟩

theorem step_ok (h : Ok s) (hc : Careful s e) (hs : step s e = some s') : Ok s' := by
  rcases e with ⟨i, alloc, sig, act⟩ | ⟨i, how, set⟩ | ⟨i, ss⟩ | ⟨i, mapped, regs⟩ | ⟨i, frame⟩ | ⟨i, mask⟩ | i |
    ⟨i, mapped, regs⟩ | ⟨j, sig⟩ | ⟨i, c⟩
  case sigaction =>
    refine on_ok h (fun t ht => sigaction_ok (h.tasks i t ht) fun a ha => ?_) hs
    subst ha
    exact hc
  case sigprocmask => exact on_ok h (fun t ht => sigprocmask_ok (h.tasks i t ht)) hs
  case sigaltstack => exact on_ok h (fun t ht => sigaltstack_ok (h.tasks i t ht)) hs
  case deliver =>
    obtain ⟨_, -, rfl⟩ := map_eq_some_iff.1 hs
    exact ⟨deliver_ok h.tasks i, h.suspended⟩
  case sigreturn =>
    refine on_ok h (fun t ht => sigreturn_ok (h.tasks i t ht) fun f hf => ?_) hs
    subst hf
    exact hc
  case sigsuspend =>
    obtain ⟨t, hact, rfl⟩ := map_eq_some_iff.1 hs
    have hok := h.tasks i t (actor_eq hact).1
    refine ⟨modify_ok h.tasks fun _ _ => ?_, (forall_update_iff s.suspended fun _ o => ∀ m, o = some m →
      Clean (m.setWidth 64)).2 ⟨?_, fun j _ => h.suspended j⟩⟩
    · rcases mask with _ | m
      · exact hok
      · exact hok.withMask (Clean.and hc _)
    · rintro m ⟨⟩
      exact hok.mask.setWidth
  case resume =>
    dsimp only [step] at hs
    split at hs
    · rename_i t old ht hold
      obtain ⟨-, ⟨⟩⟩ := ite_none_right_eq_some.1 hs
      exact ⟨modify_ok h.tasks fun _ _ => (h.tasks i t ht).withMask (h.suspended i old hold),
        (forall_update_iff s.suspended fun _ o => ∀ m, o = some m → Clean (m.setWidth 64)).2
          ⟨fun _ => nofun, fun j _ => h.suspended j⟩⟩
    · cases hs
  case seccomp =>
    obtain ⟨t, -, hs⟩ := bind_eq_some_iff.1 hs
    split at hs
    · cases hs
      exact ⟨deliver_ok (send_ok h.tasks i SIGKILL) i, h.suspended⟩
    · cases hs
  case send =>
    cases hs
    exact ⟨send_ok h.tasks j sig, h.suspended⟩
  case call =>
    obtain ⟨_, -, rfl⟩ := map_eq_some_iff.1 hs
    exact ⟨call_ok h.tasks i c, h.suspended⟩

/-! ### SIGKILL ends the task -/

def Ended (t : Task) : Prop := t.state = .dead ∨ t.state = .zombie

theorem die_ended (t : Task) (sig : Nat) (notify : Bool) : Ended (die t sig notify).2 := by
  unfold die
  generalize (if notify then t.parent else none) = p
  rcases p with _ | p
  · exact .inl rfl
  · exact .inr rfl

/-- The loop over the signals `sigs` before SIGKILL: an ignored signal is passed over, a fatal one ends the task
too. -/
theorem deliverLoop_kill {deliverable : Word} (sigs rest : List Nat) (hk : deliverable.getLsbD SIGKILL)
    (hb : ∀ sig ∈ sigs, deliverable.getLsbD sig → ∀ sa table, action t sig ≠ .handle sa table) :
    Ended (deliverLoop mapped regs deliverable (sigs ++ SIGKILL :: rest) t).2 := by
  induction sigs generalizing t with
  | nil =>
    simp only [List.nil_append, deliverLoop, hk]
    exact die_ended ..
  | cons sig sigs ih =>
    simp only [List.cons_append, deliverLoop]
    split
    · exact ih fun s hs => hb s (List.mem_cons_of_mem _ hs)
    rename_i hd
    split
    · exact die_ended ..
    -- clearing the bit does not change the action
    have haction : ∀ p sig, action { t with sigPending := p } sig = action t sig := fun _ _ => rfl
    split
    · exact die_ended ..
    · exact ih fun s hs => by rw [haction]; exact hb s (List.mem_cons_of_mem _ hs)
    · rename_i ha
      exact absurd ha (hb sig List.mem_cons_self (by simpa using hd) _ _)

theorem deliverable_iff (sig : Nat) (hsig : sig < 64) : (t.sigPending &&& ~~~t.sigMask).getLsbD sig ↔
    t.sigPending.getLsbD sig ∧ t.sigMask.getLsbD sig = false := by
  simp [hsig]

theorem deliverTask_kill (hu : t.isUser) (hm : Clean t.sigMask) (hk : t.sigPending.getLsbD SIGKILL)
    (hb : NothingBefore t) : Ended (deliverTask mapped regs t).2 := by
  have hdel : (t.sigPending &&& ~~~t.sigMask).getLsbD SIGKILL := (deliverable_iff _ (by decide)).2 ⟨hk, hm.kill⟩
  have hne : t.sigPending &&& ~~~t.sigMask ≠ 0 := by
    intro h0
    rw [h0] at hdel
    simp at hdel
  unfold deliverTask
  rw [if_neg (by simp [hu]), if_neg hne]
  refine deliverLoop_kill (List.range' 1 8) (List.range' 10 54) hdel fun sig hsig hd => ?_
  have hlt := List.mem_range'_1.1 hsig
  obtain ⟨h1, h2⟩ := (deliverable_iff sig (by omega)).1 hd
  exact hb sig (by unfold SIGKILL; omega) h1 h2

theorem signalSend_ended (sig : Int) (ht : k.tasks i = some t) (h : Ended t) :
    ∃ t', (signalSend k j sig).tasks i = some t' ∧ Ended t' := by
  unfold signalSend
  split
  · exact ⟨t, ht, h⟩
  by_cases hi : i = j
  · subst hi
    rw [Kernel.modify_tasks_self, ht]
    refine ⟨_, rfl, ?_⟩
    rcases h with h | h <;> simp [Ended, h, schedUnblock]
  · rw [Kernel.modify_tasks_ne hi]
    exact ⟨t, ht, h⟩

theorem deliverUser_kill (ht : k.tasks i = some t) (h : Ended (deliverTask mapped regs t).2) :
    ∃ t', (signalDeliverUser mapped regs k i).2.tasks i = some t' ∧ Ended t' := by
  unfold signalDeliverUser
  rw [ht]
  dsimp only
  have hself : (k.modify i fun _ => (deliverTask mapped regs t).2).tasks i = some (deliverTask mapped regs t).2 := by
    rw [Kernel.modify_tasks_self, ht]
    rfl
  split
  · exact signalSend_ended _ hself h
  · exact ⟨_, hself, h⟩

theorem seccomp_kill (ht : k.tasks i = some t) (hu : t.isUser) (hm : Clean t.sigMask) (hb : NothingBefore t) :
    ∃ t', (signalDeliverUser mapped regs (signalSend k i SIGKILL) i).2.tasks i = some t' ∧ Ended t' := by
  have hsend : (signalSend k i SIGKILL).tasks i = some { t with
      sigPending := t.sigPending ||| BitVec.twoPow 64 SIGKILL, state := schedUnblock t.state } := by
    unfold signalSend
    rw [if_neg (by decide), Kernel.modify_tasks_self, ht]
    rfl
  refine deliverUser_kill hsend (deliverTask_kill hu hm ?_ ?_)
  · simp [SIGKILL]
  · intro sig hsig hp hmask sa table
    refine hb sig hsig ?_ hmask sa table
    have hne : SIGKILL ≠ sig := Nat.ne_of_gt hsig
    simpa [hne] using hp

/-- In every state that a careful run reaches from new tasks, no task blocks SIGKILL or SIGSTOP; and if the next
step is careful too, a delivery with SIGKILL pending, or the one after a call that strict mode forbids, ends the
task. -/
theorem sigkill_unblockable {s0 : Sys} {es : List Event} (h0 : Created s0) (hrun : Run step Careful s0 es s) :
    (∀ i t, s.kernel.tasks i = some t →
      t.sigMask.getLsbD SIGKILL = false ∧ t.sigMask.getLsbD SIGSTOP = false) ∧
    (∀ i t mapped regs s', s.kernel.tasks i = some t → t.isUser = true → t.sigPending.getLsbD SIGKILL = true →
      Careful s (.deliver i mapped regs) → step s (.deliver i mapped regs) = some s' →
        ∃ t', s'.kernel.tasks i = some t' ∧ (t'.state = .dead ∨ t'.state = .zombie)) ∧
    (∀ i t mapped regs s', s.kernel.tasks i = some t → t.isUser = true →
      Careful s (.seccomp i mapped regs) → step s (.seccomp i mapped regs) = some s' →
        ∃ t', s'.kernel.tasks i = some t' ∧ (t'.state = .dead ∨ t'.state = .zombie)) := by
  have hok : Ok s := hrun.inv (fun s e s' h hc hs => step_ok h hc hs) h0.ok
  refine ⟨fun i t ht => ?_, ?_, ?_⟩
  · obtain ⟨h1, h2⟩ := (hok.tasks i t ht).mask
    exact ⟨h1, h2⟩
  · intro i t mapped regs s' ht hu hk hc hs
    obtain ⟨_, -, rfl⟩ := map_eq_some_iff.1 hs
    exact deliverUser_kill ht (deliverTask_kill hu (hok.tasks i t ht).mask hk (hc t ht hk))
  · intro i t mapped regs s' ht hu hc hs
    obtain ⟨_, -, hs⟩ := bind_eq_some_iff.1 hs
    split at hs
    · cases hs
      exact seccomp_kill ht hu (hok.tasks i t ht).mask (hc t ht)
    · cases hs

def fresh : Sys := ⟨boot, fun _ => none⟩

theorem fresh_created : Created fresh := by
  refine ⟨fun i t ht => ?_, fun _ => rfl⟩
  by_cases hi : i = 0
  · subst hi
    cases ht
    refine ⟨rfl, rfl, fun h hh => ?_⟩
    cases hh
    rfl
  · have hn : boot.tasks i = none := boot.unused i (Nat.pos_of_ne_zero hi)
    rw [show fresh.kernel.tasks i = none from hn] at ht
    cases ht

def zeroRegs : Regs := ⟨0, 0, 0, 0, 0, 0, 0, 0, 0, 0, 0, 0, 0, 0, 0, 0, 0, 0⟩

/-- A program asks for all signals to be blocked and is killed all the same. -/
theorem sigkill_unblockable_sent : ∃ s s' t',
    Run step Careful fresh [.sigprocmask 0 2 (some (BitVec.allOnes 64)), .send 0 9] s ∧
    step s (.deliver 0 (fun _ => true) zeroRegs) = some s' ∧ s'.kernel.tasks 0 = some t' ∧
    (t'.state = .dead ∨ t'.state = .zombie) := by
  have hrun : Run step Careful fresh [.sigprocmask 0 2 (some (BitVec.allOnes 64)), .send 0 9] _ :=
    .cons trivial rfl (.cons trivial rfl (.nil _))
  obtain ⟨t', ht', h⟩ := (sigkill_unblockable fresh_created hrun).2.1 0 _ (fun _ => true) zeroRegs _ rfl rfl rfl
    (fun t ht _ sig hsig hp => by
      cases ht
      exact absurd hp (by revert sig; decide)) rfl
  exact ⟨_, _, t', hrun, rfl, ht', h⟩

def blockingFrame : Sigframe := { zeroRegs with sigMask := BitVec.twoPow 64 SIGKILL, signo := 0 }

def hupAction : Sigaction := ⟨0x400000, 0, 0, 0⟩

/-- With a frame of its own a task blocks SIGKILL; and a handler of SIGHUP comes before a pending SIGKILL. -/
theorem sigkill_survived :
    (∃ s t, Run step Any fresh [.sigreturn 0 (some blockingFrame), .send 0 9, .deliver 0 (fun _ => true) zeroRegs] s ∧
      s.kernel.tasks 0 = some t ∧ t.sigMask.getLsbD SIGKILL = true ∧ t.sigPending.getLsbD SIGKILL = true ∧
      t.state = .runnable) ∧
    ∃ s t, Run step Any fresh [.sigaction 0 true 1 (some hupAction), .send 0 1, .send 0 9,
        .deliver 0 (fun _ => true) zeroRegs] s ∧
      s.kernel.tasks 0 = some t ∧ t.sigMask.getLsbD SIGKILL = false ∧ t.sigPending.getLsbD SIGKILL = true ∧
      t.state = .runnable :=
  ⟨⟨_, _, .cons trivial rfl (.cons trivial rfl (.cons trivial rfl (.nil _))), rfl, rfl, rfl, rfl⟩,
    ⟨_, _, .cons trivial rfl (.cons trivial rfl (.cons trivial rfl (.cons trivial rfl (.nil _)))), rfl, rfl, rfl, rfl⟩⟩

end ExoOS.Ipc
