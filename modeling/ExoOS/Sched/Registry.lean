import ExoOS.Sched.Task

/-!
# The registry of task IDs

`sched/task.c`: TIDs come from two counters, one for user tasks that starts again at 1 after `USER_TID_MAX`, one for
kernel threads that counts down to `KTHREAD_TID_MIN` and stays there. Neither counter looks at `task_table`, so the
registry is right as long as every TID given is free (`task_identity`), and the 512th user task takes the slot of
the first one, if that is still alive.

Task objects are pages of memory of a type `τ`; the result of the allocations is part of a creation.
-/

namespace ExoOS.Sched

open Function Option

variable {τ : Type} [DecidableEq τ]

def KTHREAD_TID_MIN : Nat := 512

structure Registry (τ : Type) where
  /-- `t->tid` of the task objects that exist. -/
  tid : τ → Option Nat
  table : Nat → Option τ
  nextUserTid : Nat
  nextKthreadTid : Nat
  initTask : Option τ

namespace Registry

variable (r : Registry τ) (t : τ)

def taskLookup (n : Nat) : Option τ := if n = 0 ∨ TASK_TABLE_SIZE ≤ n then none else r.table n

def store (o : Option τ) : Registry τ :=
  match r.tid t with
  | some n => if n < TASK_TABLE_SIZE then { r with table := update r.table n o } else r
  | none => r

def taskRegister : Registry τ := r.store t (some t)

def taskUnregister : Registry τ := r.store t none

def newTid (isKthread : Bool) : Nat :=
  if isKthread then if r.nextKthreadTid < KTHREAD_TID_MIN then KTHREAD_TID_MIN else r.nextKthreadTid
  else if USER_TID_MAX < r.nextUserTid then 1 else r.nextUserTid

/-- `page` is the page for the task, if it and the other two allocations succeed. -/
def taskAllocCommon (isKthread : Bool) : Option τ → Option τ × Registry τ
  | none => (none, r)
  | some t =>
    let n := r.newTid isKthread
    let r :=
      if isKthread then { r with nextKthreadTid := n - 1 }
      else { r with nextUserTid := n + 1 }
    (some t, { r with tid := update r.tid t (some n) }.taskRegister t)

def taskCreate (page : Option τ) : Option τ × Registry τ := r.taskAllocCommon true page

def taskCreateUser (page : Option τ) : Option τ × Registry τ :=
  match r.taskAllocCommon false page with
  | (none, r) => (none, r)
  -- the PID of a new task is its TID
  | (some t, r) => (some t, if r.tid t = some 1 ∧ r.initTask = none then { r with initTask := some t } else r)

def create (isKthread : Bool) (page : Option τ) : Option τ × Registry τ :=
  if isKthread then r.taskCreate page else r.taskCreateUser page

def taskDestroy : Registry τ :=
  let r := r.taskUnregister t
  { r with tid := update r.tid t none }

end Registry

inductive TaskEvent (τ : Type)
  | create (isKthread : Bool) (page : Option τ)
  | destroy (t : τ)

def Registry.Enabled (r : Registry τ) : TaskEvent τ → Prop
  | .create _ page => ∀ t ∈ page, r.tid t = none
  | .destroy t => (r.tid t).isSome

instance Registry.decidableEnabled (r : Registry τ) : ∀ e, Decidable (r.Enabled e)
  | .create _ page => inferInstanceAs (Decidable (∀ t ∈ page, r.tid t = none))
  | .destroy _ => inferInstanceAs (Decidable (_ = true))

def Registry.call (r : Registry τ) : TaskEvent τ → Registry τ
  | .create isKthread page => (r.create isKthread page).2
  | .destroy t => r.taskDestroy t

def registryStep (r : Registry τ) (e : TaskEvent τ) : Option (Registry τ) :=
  if r.Enabled e then some (r.call e) else none

def Registry.empty : Registry τ where
  tid _ := none
  table _ := none
  nextUserTid := 1
  nextKthreadTid := TASK_TABLE_SIZE - 1
  initTask := none

def SlotFree (r : Registry τ) : TaskEvent τ → Prop
  | .create isKthread (some _) => r.table (r.newTid isKthread) = none
  | _ => True

instance (r : Registry τ) : ∀ e, Decidable (SlotFree r e)
  | .create _ (some _) => inferInstanceAs (Decidable (_ = none))
  | .create _ none | .destroy _ => inferInstanceAs (Decidable True)

/-- The TIDs of the tasks that exist are distinct, and `task_lookup` finds these tasks and no other. -/
structure Identity (r : Registry τ) : Prop where
  distinct : ∀ t t' n, r.tid t = some n → r.tid t' = some n → t = t'
  found : ∀ t n, r.tid t = some n → r.taskLookup n = some t
  free : ∀ n, (∀ t, r.tid t ≠ some n) → r.taskLookup n = none

namespace Registry

/-- The pools that the counters are in, and the table as the inverse of the TIDs. -/
structure Inv (r : Registry τ) : Prop where
  user : 1 ≤ r.nextUserTid ∧ r.nextUserTid ≤ USER_TID_MAX + 1
  kthread : KTHREAD_TID_MIN ≤ r.nextKthreadTid + 1 ∧ r.nextKthreadTid < TASK_TABLE_SIZE
  slot : ∀ t n, r.tid t = some n → 0 < n ∧ n < TASK_TABLE_SIZE
  table : ∀ n t, r.table n = some t ↔ r.tid t = some n

variable {r : Registry τ} {t : τ} {k : Bool}

omit [DecidableEq τ] in
theorem Inv.identity (h : r.Inv) : Identity r where
  distinct t t' n ht ht' := some.inj (((h.table n t).2 ht).symm.trans ((h.table n t').2 ht'))
  found t n ht := by
    have hn := h.slot t n ht
    rw [taskLookup, if_neg (by omega)]
    exact (h.table n t).2 ht
  free n hn := by
    rw [taskLookup]
    split
    · rfl
    · exact eq_none_iff_forall_ne_some.2 fun t ht => hn t ((h.table n t).1 ht)

omit [DecidableEq τ] in
theorem Inv.newTid (h : r.Inv) (k : Bool) : if k then KTHREAD_TID_MIN ≤ r.newTid k ∧ r.newTid k < TASK_TABLE_SIZE
    else 1 ≤ r.newTid k ∧ r.newTid k ≤ USER_TID_MAX := by
  have hu := h.user
  have hk := h.kthread
  unfold Registry.newTid
  unfold KTHREAD_TID_MIN TASK_TABLE_SIZE USER_TID_MAX at *
  cases k <;> simp only [Bool.false_eq_true, if_false, if_true] <;> split <;> omega

omit [DecidableEq τ] in
theorem Inv.newTid_slot (h : r.Inv) (k : Bool) : 0 < r.newTid k ∧ r.newTid k < TASK_TABLE_SIZE := by
  have hn := h.newTid k
  unfold KTHREAD_TID_MIN TASK_TABLE_SIZE USER_TID_MAX at *
  cases k <;> simp only [Bool.false_eq_true, if_false, if_true] at hn <;> omega

/-- What a creation that gets its memory does. -/
structure Created (r : Registry τ) (k : Bool) (t : τ) (r' : Registry τ) : Prop where
  tid : r'.tid = update r.tid t (some (r.newTid k))
  table : r'.table = update r.table (r.newTid k) (some t)
  user : r'.nextUserTid = if k then r.nextUserTid else r.newTid k + 1
  kthread : r'.nextKthreadTid = if k then r.newTid k - 1 else r.nextKthreadTid

theorem create_some (h : r.Inv) (k : Bool) (t : τ) :
    (r.create k (some t)).1 = some t ∧ Created r k t (r.create k (some t)).2 := by
  have hn := (h.newTid_slot k).2
  cases k with
  | true =>
    simp only [create, taskCreate, taskAllocCommon, taskRegister, store, update_self, if_true, hn]
    exact ⟨trivial, rfl, rfl, rfl, rfl⟩
  | false =>
    simp only [create, taskCreateUser, taskAllocCommon, taskRegister, store, update_self, if_true, hn,
      Bool.false_eq_true, if_false, true_and]
    split <;> exact ⟨rfl, rfl, rfl, rfl⟩

theorem create_none : r.create k none = (none, r) := by
  cases k <;> rfl

theorem Inv.create {r' : Registry τ} (h : r.Inv) (hc : Created r k t r') (ht : r.tid t = none)
    (hfree : r.table (r.newTid k) = none) : r'.Inv := by
  have hn := h.newTid k
  have hslot := h.newTid_slot k
  refine ⟨?_, ?_, fun x n hx => ?_, fun n x => ?_⟩
  · rw [hc.user]
    have hu := h.user
    cases k
    · simp only [Bool.false_eq_true, if_false] at hn ⊢
      omega
    · simpa using hu
  · rw [hc.kthread]
    have hk := h.kthread
    cases k
    · simpa using hk
    · simp only [if_true] at hn ⊢
      omega
  · rw [hc.tid] at hx
    by_cases hxt : x = t
    · subst hxt
      rw [update_self] at hx
      exact some.inj hx ▸ hslot
    · rw [update_of_ne hxt] at hx
      exact h.slot x n hx
  · rw [hc.tid, hc.table]
    by_cases hxt : x = t <;> by_cases hnn : n = r.newTid k
    · simp [hxt, hnn]
    · subst hxt
      simp [hnn, Ne.symm hnn, h.table, ht]
    · subst hnn
      rw [update_self, update_of_ne hxt, ← h.table, hfree]
      simp [Ne.symm hxt]
    · rw [update_of_ne hxt, update_of_ne hnn, h.table]

theorem taskDestroy_eq {n : Nat} (ht : r.tid t = some n) (hn : n < TASK_TABLE_SIZE) :
    r.taskDestroy t = { r with tid := update r.tid t none, table := update r.table n none } := by
  simp only [taskDestroy, taskUnregister, store, ht, hn, if_true]

theorem Inv.destroy (h : r.Inv) {n : Nat} (ht : r.tid t = some n) : (r.taskDestroy t).Inv := by
  rw [taskDestroy_eq ht (h.slot t n ht).2]
  refine ⟨h.user, h.kthread, fun x m hx => ?_, fun m x => ?_⟩ <;> dsimp only at *
  · by_cases hxt : x = t
    · simp [hxt] at hx
    · rw [update_of_ne hxt] at hx
      exact h.slot x m hx
  · by_cases hxt : x = t <;> by_cases hmn : m = n
    · simp [hxt, hmn]
    · subst hxt
      simp [hmn, h.table, ht, Ne.symm hmn]
    · subst hmn
      rw [update_self, update_of_ne hxt]
      simp only [reduceCtorEq, false_iff]
      exact fun hx => hxt (h.identity.distinct x t m hx ht)
    · simp [hxt, hmn, h.table]

theorem Inv.call (h : r.Inv) {e : TaskEvent τ} (he : r.Enabled e) (hf : SlotFree r e) : (r.call e).Inv := by
  cases e with
  | create k page =>
    cases page with
    | none => rwa [Registry.call, create_none]
    | some t => exact h.create (create_some h k t).2 (he t rfl) hf
  | destroy t =>
    obtain ⟨n, hn⟩ := isSome_iff_exists.1 he
    exact h.destroy hn

omit [DecidableEq τ] in
theorem inv_empty : (empty : Registry τ).Inv := by
  refine ⟨?_, ?_, ?_, ?_⟩ <;> simp [empty, KTHREAD_TID_MIN, TASK_TABLE_SIZE]

end Registry

open Transition Registry

theorem run_registry {r : Registry τ} {es : List (TaskEvent τ)} (hrun : Run registryStep SlotFree .empty es r) :
    r.Inv := by
  refine hrun.inv (fun r e r' h hf hs => ?_) inv_empty
  rw [registryStep] at hs
  obtain ⟨he, ⟨⟩⟩ := ite_none_right_eq_some.1 hs
  exact h.call he hf

/-- A creation with memory gives a task with a TID of its pool; the registry is right after it if and only if the slot
was free. -/
theorem task_identity {r : Registry τ} {es : List (TaskEvent τ)} (hrun : Run registryStep SlotFree .empty es r) :
    Identity r ∧
    (∀ k t, r.tid t = none → ∃ r', r.create k (some t) = (some t, r') ∧ r'.tid t = some (r.newTid k) ∧
      (if k then KTHREAD_TID_MIN ≤ r.newTid k ∧ r.newTid k < TASK_TABLE_SIZE
        else 1 ≤ r.newTid k ∧ r.newTid k ≤ USER_TID_MAX) ∧
      (Identity r' ↔ SlotFree r (.create k (some t)))) ∧
    ∀ t n, r.tid t = some n → ∀ e r', SlotFree r e → registryStep r e = some r' → e ≠ .destroy t →
      r'.taskLookup n = some t := by
  have h := run_registry hrun
  refine ⟨h.identity, fun k t ht => ?_, fun t n ht e r' hf hs hne => ?_⟩
  · obtain ⟨hret, hc⟩ := create_some h k t
    have htid : (r.create k (some t)).2.tid t = some (r.newTid k) := by rw [hc.tid, update_self]
    refine ⟨_, Prod.ext hret rfl, htid, h.newTid k, fun hid => ?_, fun hf => (h.create hc ht hf).identity⟩
    -- the task in the slot would share its TID with the new one
    refine eq_none_iff_forall_ne_some.2 fun x hx => ?_
    have hxt : x ≠ t := by
      rintro rfl
      cases ht.symm.trans ((h.table _ x).1 hx)
    have hx' : (r.create k (some t)).2.tid x = some (r.newTid k) := by
      rw [hc.tid, update_of_ne hxt]
      exact (h.table _ x).1 hx
    exact hxt (hid.distinct x t _ hx' htid)
  · rw [registryStep] at hs
    obtain ⟨he, ⟨⟩⟩ := ite_none_right_eq_some.1 hs
    refine (h.call he hf).identity.found t n ?_
    cases e with
    | create k page =>
      cases page with
      | none => rwa [Registry.call, create_none]
      | some x =>
        have hxt : t ≠ x := by
          rintro rfl
          cases ht.symm.trans (he t rfl)
        rw [Registry.call, (create_some h k x).2.tid, update_of_ne hxt]
        exact ht
    | destroy x =>
      have hxt : t ≠ x := fun e => hne (e ▸ rfl)
      rw [Registry.call, taskDestroy]
      have htid : (r.taskUnregister x).tid = r.tid := by
        unfold taskUnregister store
        split
        · split <;> rfl
        · rfl
      rw [htid]
      exact (update_of_ne hxt ..).trans ht

/-- A kernel thread and two user tasks, of which the second is destroyed. -/
theorem task_identity_three : ∃ r, Run registryStep SlotFree (Registry.empty : Registry Nat)
    [.create true (some 2), .create false (some 0), .create false none, .create false (some 1), .destroy 1] r ∧
    [0, 1, 2].map r.tid = [some 1, none, some 1023] ∧ Identity r := by
  refine exists_run (fun r => [0, 1, 2].map r.tid) [some 1, none, some 1023] (by decide +kernel) fun r hr ht => ?_
  exact ⟨ht, (task_identity hr).1⟩

/-- While the first user task lives, 510 others come and go; the next one gets its TID and its slot. -/
theorem init_slot_taken : ∃ r, Run registryStep Any (Registry.empty : Registry Nat)
    (.create false (some 0) :: (List.replicate 510 [.create false (some 1), .destroy 1]).flatten ++
      [.create false (some 1)]) r ∧
    r.initTask = some 0 ∧ r.tid 0 = some 1 ∧ r.tid 1 = some 1 ∧ r.taskLookup 1 = some 1 ∧ ¬ Identity r := by
  refine exists_run (fun r => (r.initTask, r.tid 0, r.tid 1, r.taskLookup 1)) (some 0, some 1, some 1, some 1)
    (by decide +kernel) fun r _ hd => ?_
  simp only [Prod.mk.injEq] at hd
  obtain ⟨hinit, h0, h1, hl⟩ := hd
  refine ⟨hinit, h0, h1, hl, fun hid => ?_⟩
  cases hid.distinct 0 1 1 h0 h1

end ExoOS.Sched
