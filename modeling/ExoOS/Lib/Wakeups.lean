import Mathlib.Data.Fintype.Card

/-!
# Waiting and waking

Tasks that wait for a condition: a task tests it, puts itself on a queue and goes to sleep, in three steps, and
another one that makes the condition true takes a task off the queue (or all of them) and then wakes what it took.
A channel is a condition to wait for; some have a queue, and on others a task is woken by name.

`Awake` says that nobody sleeps through its condition: a sleeping task whose condition holds is going to be woken.
It is kept by the steps of waiting (`Awake.test`, `Awake.enqueue`, `Awake.block`), by those of waking
(`Awake.setDuty`, `Awake.wake`, `Awake.unblock`) and, under its side conditions, by a change of the conditions
(`Awake.mono`).
-/

namespace Wakeups

open Function List

variable {τ ω : Type}

/-- Where a task is in its wait: not waiting, tested the condition, about to sleep, asleep. -/
inductive Stage (ω : Type)
  | off
  | tested (w : ω)
  | queued (w : ω)
  | asleep (w : ω)
  deriving DecidableEq

def Stage.chan : Stage ω → Option ω
  | .queued w | .asleep w => some w
  | .off | .tested _ => none

/-- What a task has to wake: the first of a queue, all of it, or the tasks that it has taken off. -/
inductive Duty (τ ω : Type)
  | one (w : ω)
  | all (w : ω)
  | taken (us : List τ)
  deriving DecidableEq

def Duty.none : Duty τ ω := .taken []

def Duty.tasks : Duty τ ω → List τ
  | .taken us => us
  | .one _ | .all _ => []

def Duty.drop [DecidableEq τ] (u : τ) : Duty τ ω → Duty τ ω
  | .taken us => .taken (us.erase u)
  | .one w => .one w
  | .all w => .all w

theorem Duty.tasks_drop [DecidableEq τ] (d : Duty τ ω) (u : τ) : (d.drop u).tasks = d.tasks.erase u := by
  cases d <;> rfl

theorem Duty.drop_of_notMem [DecidableEq τ] {d : Duty τ ω} {u : τ} (h : u ∉ d.tasks) : d.drop u = d := by
  cases d with
  | taken us => exact congrArg taken (erase_of_not_mem h)
  | one w | all w => rfl

structure Room (τ ω : Type) where
  stage : τ → Stage ω
  queue : ω → List τ
  duty : τ → Duty τ ω

namespace Room

variable [DecidableEq τ] [DecidableEq ω] (r : Room τ ω)

def setStage (t : τ) (st : Stage ω) : Room τ ω := { r with stage := Function.update r.stage t st }

def setDuty (t : τ) (d : Duty τ ω) : Room τ ω := { r with duty := Function.update r.duty t d }

def setQueue (w : ω) (q : List τ) : Room τ ω := { r with queue := Function.update r.queue w q }

def enqueue (t : τ) (w : ω) : Room τ ω := (r.setQueue w (r.queue w ++ [t])).setStage t (.queued w)

def unblock (u : τ) : Room τ ω :=
  match r.stage u with
  | .asleep _ => r.setStage u .off
  | _ => r

def wake (t : τ) : Room τ ω :=
  match r.duty t with
  | .one w =>
    match r.queue w with
    | [] => r.setDuty t .none
    | u :: q => (r.setQueue w q).setDuty t (.taken [u])
  | .all w => (r.setQueue w []).setDuty t (.taken (r.queue w))
  | .taken [] => r
  | .taken (u :: us) => (r.unblock u).setDuty t (.taken us)

def Taken (t : τ) : Prop := ∃ u, t ∈ (r.duty u).tasks

variable [Fintype τ]

def ones (w : ω) : Nat := (Finset.univ.filter fun u => r.duty u = .one w).card

def Pending (t : τ) : Prop :=
  r.Taken t ∨ (∃ u w, r.duty u = .all w ∧ t ∈ r.queue w) ∨ ∃ w, t ∈ (r.queue w).take (r.ones w)

end Room

variable [DecidableEq τ] [DecidableEq ω] [Fintype τ]

/-- The queues hold the tasks that wait, each once. `Q`: the channels with a queue. -/
structure Orderly (Q : ω → Prop) (r : Room τ ω) : Prop where
  nodup : ∀ w, (r.queue w).Nodup
  waits : ∀ w, ∀ t ∈ r.queue w, (r.stage t).chan = some w ∧ Q w
  placed : ∀ t w, (r.stage t).chan = some w → Q w → t ∈ r.queue w ∨ r.Taken t
  taken : ∀ t, r.Taken t → (∃ w, (r.stage t).chan = some w ∧ Q w) ∧ ∀ w, t ∉ r.queue w
  once : ∀ u v t, t ∈ (r.duty u).tasks → t ∈ (r.duty v).tasks → u = v
  takenNodup : ∀ u, (r.duty u).tasks.Nodup
  tested : ∀ t w, r.stage t = .tested w → Q w
  /-- Who is past the queue has done its duty. -/
  resting : ∀ t w, (r.stage t).chan = some w → r.duty t = .none

/-- Nobody sleeps through the condition `cond t w`, unless somebody `calls` it by name. -/
structure Awake (Q : ω → Prop) (cond : τ → ω → Prop) (calls : τ → Prop) (r : Room τ ω) : Prop
    extends Orderly Q r where
  window : ∀ t w, r.stage t = .tested w ∨ r.stage t = .queued w → ¬ cond t w
  covered : ∀ t w, r.stage t = .asleep w → cond t w → r.Pending t ∨ calls t

section Updates

variable {r : Room τ ω} {x t : τ} {w : ω} {d : Duty τ ω} {st : Stage ω}

omit [DecidableEq ω] [Fintype τ]

theorem Room.duty_setDuty_self : (r.setDuty x d).duty x = d := update_self ..

theorem Room.duty_setDuty_of_ne (h : t ≠ x) : (r.setDuty x d).duty t = r.duty t := update_of_ne h ..

theorem Room.stage_setStage_self : (r.setStage x st).stage x = st := update_self ..

theorem Room.stage_setStage_of_ne (h : t ≠ x) : (r.setStage x st).stage t = r.stage t := update_of_ne h ..

end Updates

section Ones

variable {r : Room τ ω} {x : τ} {w : ω} {d : Duty τ ω}

theorem ones_setDuty_of_ne (h : r.duty x ≠ .one w) (hd : d ≠ .one w) : (r.setDuty x d).ones w = r.ones w := by
  unfold Room.ones
  congr 1
  ext u
  rw [Finset.mem_filter, Finset.mem_filter]
  by_cases hu : u = x
  · rw [hu, Room.duty_setDuty_self]
    exact iff_of_false (fun h => hd h.2) fun h' => h h'.2
  · rw [Room.duty_setDuty_of_ne hu]

theorem ones_setDuty_one (h : r.duty x ≠ .one w) : (r.setDuty x (.one w)).ones w = r.ones w + 1 := by
  have hset : (Finset.univ.filter fun u => (r.setDuty x (.one w)).duty u = .one w) =
      insert x (Finset.univ.filter fun u => r.duty u = .one w) := by
    ext u
    rw [Finset.mem_filter, Finset.mem_insert, Finset.mem_filter]
    by_cases hu : u = x
    · rw [hu, Room.duty_setDuty_self]
      simp
    · rw [Room.duty_setDuty_of_ne hu]
      exact (or_iff_right hu).symm
  rw [Room.ones, hset, Finset.card_insert_of_notMem (by simpa using h)]
  rfl

theorem ones_eq_of_one (h : r.duty x = .one w) (hd : d ≠ .one w) : r.ones w = (r.setDuty x d).ones w + 1 := by
  have hback : (r.setDuty x d).setDuty x (.one w) = r := by
    unfold Room.setDuty
    rw [update_idem, ← h, update_eq_self]
  have := ones_setDuty_one (r := r.setDuty x d) (by rwa [Room.duty_setDuty_self])
  rwa [hback] at this

theorem ones_le_setDuty (h : r.duty x = .none) (w : ω) : r.ones w ≤ (r.setDuty x d).ones w := by
  have hx : r.duty x ≠ .one w := by
    rw [h]
    exact fun h' => nomatch h'
  by_cases hd : d = .one w
  · rw [hd, ones_setDuty_one hx]
    exact Nat.le_succ _
  · rw [ones_setDuty_of_ne hx hd]

end Ones

namespace Awake

variable {Q : ω → Prop} {cond cond' : τ → ω → Prop} {calls calls' : τ → Prop} {r : Room τ ω} {x t u : τ} {w : ω}

theorem pending_setDuty {d : Duty τ ω} (hx : r.duty x = .none) (h : r.Pending t) : (r.setDuty x d).Pending t := by
  rcases h with ⟨u, hu⟩ | ⟨u, w, hu, ht⟩ | ⟨w, ht⟩
  · refine .inl ⟨u, ?_⟩
    rwa [Room.duty_setDuty_of_ne]
    rintro rfl
    rw [hx] at hu
    cases hu
  · refine .inr (.inl ⟨u, w, ?_, ht⟩)
    rwa [Room.duty_setDuty_of_ne]
    rintro rfl
    rw [hx] at hu
    cases hu
  · exact .inr (.inr ⟨w, take_subset_take_left _ (ones_le_setDuty hx w) ht⟩)

section

variable (h : Awake Q cond calls r)
include h

/-- The conditions change, but no task that has tested one finds it true, and the sleeping tasks are told. -/
theorem mono (hwin : ∀ t w, r.stage t = .tested w ∨ r.stage t = .queued w → cond' t w → cond t w)
    (hcov : ∀ t w, r.stage t = .asleep w → cond' t w → cond t w ∨ r.Pending t ∨ calls' t)
    (hcalls : ∀ t w, r.stage t = .asleep w → calls t → calls' t) : Awake Q cond' calls' r := by
  refine { h with window := fun t w ht hc => h.window t w ht (hwin t w ht hc), covered := fun t w ht hc => ?_ }
  rcases hcov t w ht hc with hc | hp
  · exact (h.covered t w ht hc).imp_right (hcalls t w ht)
  · exact hp

theorem setDuty {d : Duty τ ω} (hx : (r.stage x).chan = none) (hd : r.duty x = .none)
    (hd' : d.tasks = []) : Awake Q cond calls (r.setDuty x d) := by
  have htasks : ∀ u, ((r.setDuty x d).duty u).tasks = (r.duty u).tasks := by
    intro u
    by_cases hux : u = x
    · rw [hux, hd, Room.duty_setDuty_self]
      exact hd'
    · rw [Room.duty_setDuty_of_ne hux]
  have htaken : ∀ t, (r.setDuty x d).Taken t ↔ r.Taken t := fun t => exists_congr fun u => by rw [htasks]
  constructor
  · constructor
    · exact h.nodup
    · exact h.waits
    · exact fun t w hc hq => (h.placed t w hc hq).imp_right (htaken t).2
    · exact fun t ht => h.taken t ((htaken t).1 ht)
    · intro u v t hu hv
      rw [htasks] at hu hv
      exact h.once u v t hu hv
    · intro u
      rw [htasks]
      exact h.takenNodup u
    · exact h.tested
    · intro t w hc
      rw [Room.duty_setDuty_of_ne]
      · exact h.resting t w hc
      · rintro rfl
        cases hx.symm.trans hc
  · exact h.window
  · exact fun t w ht hc => (h.covered t w ht hc).imp_left (pending_setDuty hd)

theorem restage {r' : Room τ ω} {st : Stage ω} (hs : r'.stage = update r.stage x st)
    (hds : ∀ v, (r'.duty v).tasks.Sublist (r.duty v).tasks) (hkeep : ∀ t, t ≠ x → r.Taken t → r'.Taken t)
    (hnone : ∀ v, r.duty v = .none → r'.duty v = .none) (hnodup : ∀ v, (r'.queue v).Nodup)
    (hq : ∀ v t, t ≠ x → (t ∈ r'.queue v ↔ t ∈ r.queue v))
    (hp : ∀ t, t ≠ x → r.Pending t ∨ calls t → r'.Pending t ∨ calls' t)
    (hwaits : ∀ v, x ∈ r'.queue v → st.chan = some v ∧ Q v)
    (hplaced : ∀ v, st.chan = some v → Q v → x ∈ r'.queue v ∨ r'.Taken x)
    (htaken : r'.Taken x → (∃ v, st.chan = some v ∧ Q v) ∧ ∀ v, x ∉ r'.queue v)
    (htested : ∀ v, st = .tested v → Q v) (hrest : ∀ v, st.chan = some v → r'.duty x = .none)
    (hwin : ∀ v, st = .tested v ∨ st = .queued v → ¬ cond x v) (hcov : ∀ v, st = .asleep v → ¬ cond x v) :
    Awake Q cond calls' r' := by
  have hst : ∀ P : τ → Stage ω → Prop, P x st → (∀ t, t ≠ x → P t (r.stage t)) → ∀ t, P t (r'.stage t) :=
    fun P hx ho => hs ▸ (forall_update_iff r.stage P).2 ⟨hx, ho⟩
  refine ⟨⟨hnodup, fun v => ?_, ?_, ?_, fun u v t hu hv => h.once u v t ((hds u).subset hu) ((hds v).subset hv),
    fun u => (h.takenNodup u).sublist (hds u), ?_, ?_⟩, ?_, ?_⟩
  · exact hst (fun t st => t ∈ r'.queue v → st.chan = some v ∧ Q v) (hwaits v) fun t htx ht =>
      h.waits v t ((hq v t htx).1 ht)
  · exact hst (fun t st => ∀ v, st.chan = some v → Q v → t ∈ r'.queue v ∨ r'.Taken t) hplaced fun t htx v hc hqv =>
      (h.placed t v hc hqv).imp (hq v t htx).2 (hkeep t htx)
  · refine hst (fun t st => r'.Taken t → (∃ v, st.chan = some v ∧ Q v) ∧ ∀ v, t ∉ r'.queue v) htaken fun t htx ht => ?_
    refine (h.taken t (ht.imp fun v hv => (hds v).subset hv)).imp_right fun hno v hv => ?_
    exact hno v ((hq v t htx).1 hv)
  · exact hst (fun _ st => ∀ v, st = .tested v → Q v) htested fun t _ => h.tested t
  · exact hst (fun t st => ∀ v, st.chan = some v → r'.duty t = .none) hrest fun t _ v hc => hnone t (h.resting t v hc)
  · exact hst (fun t st => ∀ v, st = .tested v ∨ st = .queued v → ¬ cond t v) hwin fun t _ => h.window t
  · exact hst (fun t st => ∀ v, st = .asleep v → cond t v → r'.Pending t ∨ calls' t)
      (fun v hv hc => absurd hc (hcov v hv)) fun t htx v ht hc => hp t htx (h.covered t v ht hc)

theorem absent (hx : (r.stage x).chan = none) : (∀ v, x ∉ r.queue v) ∧ ¬ r.Taken x := by
  refine ⟨fun v hv => ?_, fun ht => ?_⟩
  · cases hx.symm.trans (h.waits v x hv).1
  · obtain ⟨⟨v, hv, -⟩, -⟩ := h.taken x ht
    cases hx.symm.trans hv

theorem test {st : Stage ω} (hx : r.stage x = .off) (hc : ¬ cond x w)
    (hst : st = .tested w ∧ Q w ∨ st = .queued w ∧ ¬ Q w ∧ r.duty x = .none) :
    Awake Q cond calls (r.setStage x st) := by
  obtain ⟨hq, hnt⟩ := h.absent (by rw [hx]; rfl)
  rcases hst with ⟨rfl, hqw⟩ | ⟨rfl, hnq, hd⟩
  · refine h.restage rfl (fun _ => .refl _) (fun _ _ ht => ht) (fun _ hd => hd) h.nodup (fun _ _ _ => .rfl)
      (fun _ _ hp => hp) (fun v hv => absurd hv (hq v)) nofun
      (fun ht => absurd ht hnt) ?_ nofun ?_ nofun
    · rintro v ⟨⟩
      exact hqw
    · rintro v (⟨⟨⟩⟩ | ⟨⟨⟩⟩)
      exact hc
  · refine h.restage rfl (fun _ => .refl _) (fun _ _ ht => ht) (fun _ hd => hd) h.nodup (fun _ _ _ => .rfl)
      (fun _ _ hp => hp) (fun v hv => absurd hv (hq v)) ?_
      (fun ht => absurd ht hnt) nofun (fun _ _ => hd) ?_ nofun
    · rintro v ⟨⟩ hqv
      exact absurd hqv hnq
    · rintro v (⟨⟨⟩⟩ | ⟨⟨⟩⟩)
      exact hc

theorem enqueue (hx : r.stage x = .tested w) (hd : r.duty x = .none) : Awake Q cond calls (r.enqueue x w) := by
  obtain ⟨hnew, hnt⟩ := h.absent (by rw [hx]; rfl)
  have hq := h.tested x w hx
  have hqueue : ∀ v, (r.enqueue x w).queue v = if v = w then r.queue w ++ [x] else r.queue v := update_apply r.queue w _
  have hmem : ∀ {v t}, t ∈ (r.enqueue x w).queue v ↔ t ∈ r.queue v ∨ v = w ∧ t = x := by
    intro v t
    rw [hqueue]
    split
    · rename_i hv
      rw [hv, mem_append, mem_singleton, and_iff_right rfl]
    · rename_i hv
      exact (or_iff_left fun h' => hv h'.1).symm
  refine h.restage rfl (fun _ => .refl _) (fun _ _ ht => ht) (fun _ hd => hd) (fun v => ?_) (fun v t ht => ?_)
    (fun t _ => Or.imp_left ?_) (fun v hv => ?_) ?_ (fun ht => absurd ht hnt) nofun (fun _ _ => hd) ?_ nofun
  · rw [hqueue]
    split
    · refine (h.nodup w).append (nodup_singleton x) fun t ht hx' => ?_
      exact hnew w (mem_singleton.1 hx' ▸ ht)
    · exact h.nodup v
  · rw [hmem]
    exact or_iff_left fun h' => ht h'.2
  · rintro (hp | ⟨u, v, hu, hm⟩ | ⟨v, hm⟩)
    · exact .inl hp
    · exact .inr (.inl ⟨u, v, hu, hmem.2 (.inl hm)⟩)
    · refine .inr (.inr ⟨v, ?_⟩)
      rw [hqueue]
      split
      · rename_i hv
        rw [← hv, take_append]
        exact mem_append_left _ hm
      · exact hm
  · obtain ⟨rfl, -⟩ := (hmem.1 hv).resolve_left (hnew v)
    exact ⟨rfl, hq⟩
  · rintro v ⟨⟩ -
    exact .inl (hmem.2 (.inr ⟨rfl, rfl⟩))
  · rintro v (⟨⟨⟩⟩ | ⟨⟨⟩⟩)
    exact h.window x w (.inl hx)

theorem block (hx : r.stage x = .queued w) : Awake Q cond calls (r.setStage x (.asleep w)) := by
  have hchan : (Stage.asleep w).chan = (r.stage x).chan := by rw [hx]; rfl
  refine h.restage rfl (fun _ => .refl _) (fun _ _ ht => ht) (fun _ hd => hd) h.nodup (fun _ _ _ => .rfl)
      (fun _ _ hp => hp) (fun v hv => hchan ▸ h.waits v x hv)
    (fun v hv => h.placed x v (hchan ▸ hv)) (fun ht => hchan ▸ h.taken x ht) nofun
    (fun v hv => h.resting x v (hchan ▸ hv)) ?_ ?_
  · rintro v (⟨⟨⟩⟩ | ⟨⟨⟩⟩)
  · rintro v ⟨⟩
    exact h.window x w (.inr hx)

end

theorem take (us q : List τ) (h : Awake Q cond calls r) (hd : r.duty x = .one w ∨ r.duty x = .all w)
    (hq : r.queue w = us ++ q) (hone : r.duty x = .one w → q ≠ [] → us.length = 1)
    (hall : r.duty x = .all w → q = []) : Awake Q cond calls ((r.setQueue w q).setDuty x (.taken us)) := by
  set r' := (r.setQueue w q).setDuty x (.taken us)
  have hqueue : ∀ v, r'.queue v = if v = w then q else r.queue v := update_apply r.queue w q
  have hxtasks : (r.duty x).tasks = [] := by rcases hd with hd | hd <;> rw [hd] <;> rfl
  have hother : ∀ {u}, u ≠ x → r'.duty u = r.duty u := Room.duty_setDuty_of_ne
  have htasks : ∀ {u t}, t ∈ (r'.duty u).tasks ↔ u = x ∧ t ∈ us ∨ t ∈ (r.duty u).tasks := by
    intro u t
    by_cases hux : u = x
    · subst hux
      rw [show r'.duty u = .taken us from Room.duty_setDuty_self, hxtasks]
      simp [Duty.tasks]
    · simp [hother hux, hux]
  have hmem : ∀ {t v}, t ∈ r'.queue v → t ∈ r.queue v := by
    intro t v ht
    rw [hqueue] at ht
    split at ht
    · rename_i hv
      rw [hv, hq]
      exact mem_append_right _ ht
    · exact ht
  have hleft : ∀ {t v}, t ∈ r.queue v → t ∈ us ∨ t ∈ r'.queue v := by
    intro t v ht
    rw [hqueue]
    split
    · rename_i hv
      rw [hv, hq] at ht
      exact mem_append.1 ht
    · exact .inr ht
  have hus : ∀ {t}, t ∈ us → t ∈ r.queue w := fun ht => hq ▸ mem_append_left _ ht
  have hnodup : (us ++ q).Nodup := hq ▸ h.nodup w
  have hkeep : ∀ {t}, r.Taken t → r'.Taken t := Exists.imp fun _ hu => htasks.2 (.inr hu)
  have hnow : ∀ {t}, t ∈ us → r'.Taken t := fun ht => ⟨x, htasks.2 (.inl ⟨rfl, ht⟩)⟩
  constructor
  · constructor
    · intro v
      rw [hqueue]
      split
      · exact hnodup.of_append_right
      · exact h.nodup v
    · exact fun v t ht => h.waits v t (hmem ht)
    · intro t v hc hqv
      rcases h.placed t v hc hqv with ht | ht
      · exact (hleft ht).symm.imp_right hnow
      · exact .inr (hkeep ht)
    · rintro t ⟨u, hu⟩
      rcases htasks.1 hu with ⟨-, hu⟩ | ht
      · obtain ⟨hc, hqw⟩ := h.waits w t (hus hu)
        refine ⟨⟨w, hc, hqw⟩, fun v hv => ?_⟩
        have hvw : v = w := Option.some.inj ((h.waits v t (hmem hv)).1.symm.trans hc)
        rw [hqueue, if_pos hvw] at hv
        exact disjoint_of_nodup_append hnodup hu hv
      · exact (h.taken t ⟨u, ht⟩).imp_right fun hno v hv => hno v (hmem hv)
    · have hnot : ∀ {u t}, t ∈ us → t ∉ (r.duty u).tasks := fun {u t} ht hu => (h.taken t ⟨u, hu⟩).2 w (hus ht)
      intro u v t hu hv
      rcases htasks.1 hu with ⟨hux, hu⟩ | hu
      · exact hux.trans ((htasks.1 hv).resolve_right (hnot hu)).1.symm
      · exact h.once u v t hu ((htasks.1 hv).resolve_left fun hx => hnot hx.2 hu)
    · refine (forall_update_iff r.duty fun _ d => d.tasks.Nodup).2 ⟨hnodup.of_append_left, fun u _ => h.takenNodup u⟩
    · exact h.tested
    · intro t v hc
      have hrest := h.resting t v hc
      rw [hother]
      · exact hrest
      · rintro rfl
        rcases hd with hd | hd <;> rw [hd] at hrest <;> cases hrest
  · exact h.window
  · intro t v ht hc
    refine (h.covered t v ht hc).imp_left ?_
    rintro (hp | ⟨u, v', hu, hm⟩ | ⟨v', hm⟩)
    · exact .inl (hkeep hp)
    · rcases hleft hm with hm | hm
      · exact .inl (hnow hm)
      refine .inr (.inl ⟨u, v', ?_, hm⟩)
      rw [hother]
      · exact hu
      · rintro rfl
        rcases hd with hd | hd
        · cases hd.symm.trans hu
        · cases hd.symm.trans hu
          rw [hqueue, if_pos rfl, hall hd] at hm
          cases hm
    · by_cases hv : v' = w
      · rw [hv, hq] at hm
        rcases mem_append.1 (mem_of_mem_take hm) with hm' | hm'
        · exact .inl (hnow hm')
        -- the first is taken and one duty done
        have hxone : r.duty x = .one w := hd.resolve_right fun ha => by
          rw [hall ha] at hm'
          cases hm'
        have hlen := hone hxone (ne_nil_of_mem hm')
        obtain ⟨u, rfl⟩ := length_eq_one_iff.1 hlen
        have hones : r.ones w = ((r.setQueue w q).setDuty x (.taken [u])).ones w + 1 :=
          ones_eq_of_one hxone (fun h' => nomatch h')
        refine .inr (.inr ⟨w, ?_⟩)
        rw [hqueue, if_pos rfl]
        rw [hones, singleton_append] at hm
        refine (mem_cons.1 hm).resolve_left ?_
        rintro rfl
        exact disjoint_of_nodup_append hnodup mem_cons_self hm'
      · have hones : r'.ones v' = r.ones v' := by
          refine ones_setDuty_of_ne ?_ (fun h' => nomatch h')
          rcases hd with hd | hd
          · rw [show (r.setQueue w q).duty x = .one w from hd]
            rintro ⟨⟩
            exact hv rfl
          · rw [show (r.setQueue w q).duty x = .all w from hd]
            exact fun h' => nomatch h'
        refine .inr (.inr ⟨v', ?_⟩)
        rwa [hqueue, if_neg hv, hones]

section

variable (h : Awake Q cond calls r)
include h

/-- `u` is no longer waiting, and nobody has it to wake. -/
theorem leave {r' : Room τ ω} (hs : r'.stage = update r.stage u .off) (hqueue : r'.queue = r.queue)
    (hno : ∀ v, u ∉ r.queue v) (hd : ∀ v, r'.duty v = (r.duty v).drop u)
    (hcalls : ∀ t, t ≠ u → calls t → calls' t) : Awake Q cond calls' r' := by
  have htasks : ∀ v, (r'.duty v).tasks = (r.duty v).tasks.erase u := fun v => hd v ▸ Duty.tasks_drop _ u
  have hkeep : ∀ t, t ≠ u → r.Taken t → r'.Taken t := by
    rintro t htu ⟨v, hv⟩
    refine ⟨v, ?_⟩
    rwa [htasks, mem_erase_of_ne htu]
  have hones : ∀ y, r'.ones y = r.ones y := by
    intro y
    unfold Room.ones
    congr 1
    ext v
    rw [Finset.mem_filter, Finset.mem_filter, hd]
    cases r.duty v <;> simp [Duty.drop]
  refine h.restage hs (fun v => htasks v ▸ erase_sublist) hkeep (fun v hv => ?_) (hqueue ▸ h.nodup)
    (fun _ _ _ => by rw [hqueue]) (fun t htu => Or.imp ?_ (hcalls t htu)) (fun v hv => absurd (hqueue ▸ hv) (hno v))
    nofun ?_ nofun nofun nofun nofun
  · rw [hd, hv]
    rfl
  · rintro (hp | ⟨y, v, hy, hm⟩ | ⟨v, hm⟩)
    · exact .inl (hkeep t htu hp)
    · refine .inr (.inl ⟨y, v, ?_, hqueue ▸ hm⟩)
      rw [hd, hy]
      rfl
    · refine .inr (.inr ⟨v, ?_⟩)
      rwa [hones, hqueue]
  · rintro ⟨v, hv⟩
    rw [htasks] at hv
    exact ((h.takenNodup v).not_mem_erase hv).elim

theorem cancel (hu : (r.stage u).chan = some w) (hq : ¬ Q w)
    (hcalls : ∀ t, t ≠ u → calls t → calls' t) : Awake Q cond calls' (r.setStage u .off) := by
  refine h.leave rfl rfl (fun y hy => ?_) (fun y => (Duty.drop_of_notMem fun hy => ?_).symm) hcalls
  · obtain ⟨hc, hqy⟩ := h.waits y u hy
    cases hu.symm.trans hc
    exact hq hqy
  · obtain ⟨⟨v, hc, hqv⟩, -⟩ := h.taken u ⟨y, hy⟩
    cases hu.symm.trans hc
    exact hq hqv

theorem unblock (hu : ∀ v, r.stage u = .asleep v → ¬ Q v)
    (hcalls : ∀ t, t ≠ u → calls t → calls' t) : Awake Q cond calls' (r.unblock u) := by
  unfold Room.unblock
  split
  · rename_i v hv
    exact h.cancel (by rw [hv]; rfl) (hu v hv) hcalls
  · rename_i hno
    exact { h with covered := fun t w ht hc => (h.covered t w ht hc).imp_right (hcalls t fun he => hno w (he ▸ ht)) }

/-- A step of a duty. A task that was taken off its queue has to be asleep before it is woken. -/
theorem wake (hasleep : ∀ u us, r.duty x = .taken (u :: us) → ∀ w, r.stage u ≠ .queued w) :
    Awake Q cond calls (r.wake x) := by
  unfold Room.wake
  split
  · rename_i w hd
    split
    · rename_i hq
      have hsame : r.setQueue w [] = r := by
        rw [Room.setQueue, ← hq, update_eq_self]
      have htake := h.take [] [] (.inl hd) hq (fun _ h' => absurd rfl h') fun _ => rfl
      rwa [hsame] at htake
    · rename_i u q hq
      exact h.take [u] q (.inl hd) hq (fun _ _ => rfl) fun h' => nomatch hd.symm.trans h'
  · rename_i w hd
    exact h.take _ [] (.inr hd) (append_nil _).symm (fun h' => nomatch hd.symm.trans h') fun _ => rfl
  · exact h
  · rename_i u us hd
    have hmem : u ∈ (r.duty x).tasks := by
      rw [hd]
      exact mem_cons_self
    obtain ⟨⟨w, hc, hq⟩, hno⟩ := h.taken u ⟨x, hmem⟩
    have hsleep : r.stage u = .asleep w := by
      rcases hst : r.stage u with _ | v | v | v
      · rw [hst] at hc
        cases hc
      · rw [hst] at hc
        cases hc
      · exact absurd hst (hasleep u us hd v)
      · rw [hst] at hc
        cases hc
        rfl
    rw [Room.unblock, hsleep]
    refine h.leave rfl rfl hno ((forall_update_iff r.duty fun v d => d = (r.duty v).drop u).2 ⟨?_, fun v hvx => ?_⟩)
      fun _ _ hc => hc
    · rw [hd]
      exact congrArg Duty.taken (erase_cons_head u us).symm
    · exact (Duty.drop_of_notMem fun hv => hvx (h.once v x u hv hmem)).symm

end

end Awake

end Wakeups
