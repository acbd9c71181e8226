import ExoOS.Sched.Task

/-!
# Sending signals

`signal_send` and the system calls that reach it on behalf of a user: `kill` with its four forms of pid,
`tkill` and `tgkill`. `kill` asks `can_signal_target` for every target, the other two do not, so they respect the
permission rule exactly for the targets that pass it anyway (`signal_permission`).
-/

namespace ExoOS.Ipc

open Sched

def SIGHUP : Nat := 1
def SIGKILL : Nat := 9
def SIGCHLD : Nat := 17
def SIGCONT : Nat := 18
def SIGSTOP : Nat := 19

def schedUnblock : TaskState → TaskState
  | .blocked => .runnable
  | s => s

def signalSend (k : Kernel) (j : TaskId) (sig : Int) : Kernel :=
  if sig ≤ 0 ∨ (NSIGS : Int) ≤ sig then k
  else k.modify j fun t =>
    { t with sigPending := t.sigPending ||| BitVec.twoPow 64 sig.toNat, state := schedUnblock t.state }

def canSignalTarget (sender target : Task) (sig : Int) : Bool :=
  !target.isKthread &&
    (sender.cred.capable CAP_KILL ||
      (sender.cred.euid == target.cred.uid || sender.cred.uid == target.cred.uid) ||
      (sig == SIGCONT && sender.sid == target.sid))

def target (k : Kernel) (tid : Nat) : Option (TaskId × Task) :=
  (k.taskLookup tid).bind fun j => (k.tasks j).map (j, ·)

def killOne (cur : Task) (wanted : Task → Bool) (sig : Int) (k : Kernel) (tid : Nat) : Kernel :=
  match target k tid with
  | none => k
  | some (j, t) =>
    if t.isKthread || !wanted t then k
    else if !canSignalTarget cur t sig then k
    else signalSend k j sig

def killEach (k : Kernel) (cur : Task) (wanted : Task → Bool) (sig : Int) : Kernel :=
  (List.range' 1 (TASK_TABLE_SIZE - 1)).foldl (killOne cur wanted sig) k

def scKill (k : Kernel) (i : TaskId) (a b : Word) : Int × Kernel :=
  let pid := a.setWidth 32
  let sig := (b.setWidth 32).toInt
  match k.tasks i with
  | none => (-ESRCH, k)
  | some cur =>
    if 0 < pid.toInt then
      match target k pid.toNat with
      | none => (-ESRCH, k)
      | some (j, t) =>
        if t.isKthread then (-ESRCH, k)
        else if !canSignalTarget cur t sig then (-EPERM, k)
        else (0, signalSend k j sig)
    else if pid = 0 then (0, killEach k cur (fun t => t.pgid == cur.pgid) sig)
    else if pid.toInt = -1 then (0, killEach k cur (fun t => t.pid != 1 && t.pid != cur.pid) sig)
    else (0, killEach k cur (fun t => t.pgid == -pid) sig)

def tkillTarget (k : Kernel) (tid : BitVec 32) (group : Task → Bool) (sig : Int) : Int × Kernel :=
  match target k tid.toNat with
  | none => (-ESRCH, k)
  | some (j, t) =>
    if t.state = .dead then (-ESRCH, k)
    else if !group t then (-ESRCH, k)
    else if sig = 0 then (0, k)
    else (0, signalSend k j sig)

def tkillArgs (k : Kernel) (tid : BitVec 32) (group : Task → Bool) (sig : BitVec 32) : Int × Kernel :=
  if tid.toInt ≤ 0 then (-EINVAL, k)
  else if sig.toInt < 0 ∨ (NSIGS : Int) ≤ sig.toInt then (-EINVAL, k)
  else tkillTarget k tid group sig.toInt

def sysTgkill (k : Kernel) (tgid tid sig : BitVec 32) : Int × Kernel :=
  if tgid.toInt ≤ 0 then (-EINVAL, k) else tkillArgs k tid (fun t => t.pid == tgid) sig

def sysTkill (k : Kernel) (tid sig : BitVec 32) : Int × Kernel := tkillArgs k tid (fun _ => true) sig

inductive KillCall
  | kill (a b : Word)
  | tkill (a b : Word)
  | tgkill (a b c : Word)

def KillCall.run (k : Kernel) (i : TaskId) : KillCall → Int × Kernel
  | .kill a b => scKill k i a b
  | .tkill a b => sysTkill k (a.setWidth 32) (b.setWidth 32)
  | .tgkill a b c => sysTgkill k (a.setWidth 32) (b.setWidth 32) (c.setWidth 32)

variable {k k' k'' : Kernel} {i j : TaskId} {cur t t' : Task} {sig : Int}

/-- The signal state of `t'` differs from that of `t`, and nothing else does. -/
def SameButSignals (t t' : Task) : Prop := t' = { t with sigPending := t'.sigPending, state := t'.state }

/-- A new pending bit is that of `sig`, and its task passes the check `ok`. -/
structure Signals (ok : Task → Prop) (sig : Int) (t t' : Task) : Prop where
  same : SameButSignals t t'
  new : ∀ s, t'.sigPending.getLsbD s = true → t.sigPending.getLsbD s = true ∨ (s : Int) = sig ∧ ok t

def Sends (ok : Task → Prop) (sig : Int) (k k' : Kernel) : Prop :=
  ∀ j t', k'.tasks j = some t' → ∃ t, k.tasks j = some t ∧ Signals ok sig t t'

theorem Sends.refl {ok : Task → Prop} : Sends ok sig k k := fun _ t ht => ⟨t, ht, rfl, fun _ h => .inl h⟩

theorem canSignalTarget_congr (h : SameButSignals t t') : canSignalTarget cur t' sig = canSignalTarget cur t sig := by
  rw [h]; rfl

theorem Sends.trans {ok : Task → Prop} (hok : ∀ t t', SameButSignals t t' → ok t' → ok t)
    (h : Sends ok sig k k') (h' : Sends ok sig k' k'') : Sends ok sig k k'' := by
  intro j t'' ht''
  obtain ⟨t', ht', hs', hn'⟩ := h' j t'' ht''
  obtain ⟨t, ht, hs, hn⟩ := h j t' ht'
  refine ⟨t, ht, ?_, fun s hb => ?_⟩
  · unfold SameButSignals at ⊢
    rw [hs'] at *
    rw [hs]
  · rcases hn' s hb with hb | ⟨hsig, hc⟩
    · exact hn s hb
    · exact .inr ⟨hsig, hok t t' hs hc⟩

theorem signalSend_sends (ok : Task → Prop) (ht : k.tasks j = some t) (hok : ok t) :
    Sends ok sig k (signalSend k j sig) := by
  unfold signalSend
  split
  · exact .refl
  intro j' t' ht'
  by_cases hj : j' = j
  · subst hj
    rw [Kernel.modify_tasks_self, ht] at ht'
    cases ht'
    refine ⟨t, ht, rfl, fun s hb => ?_⟩
    simp only [BitVec.getLsbD_or, BitVec.getLsbD_twoPow, Bool.or_eq_true, Bool.and_eq_true, decide_eq_true_eq] at hb
    rcases hb with hb | ⟨-, hb⟩
    · exact .inl hb
    · exact .inr ⟨by omega, hok⟩
  · rw [Kernel.modify_tasks_ne hj] at ht'
    exact ⟨t', ht', rfl, fun _ h => .inl h⟩

theorem target_eq {tid : Nat} (h : target k tid = some (j, t)) : k.tasks j = some t := by
  obtain ⟨j', -, h⟩ := Option.bind_eq_some_iff.1 h
  obtain ⟨t', ht', h⟩ := Option.map_eq_some_iff.1 h
  cases h
  exact ht'

theorem killOne_sends (cur : Task) (wanted : Task → Bool) (sig : Int) (k : Kernel) (tid : Nat) :
    Sends (canSignalTarget cur · sig) sig k (killOne cur wanted sig k tid) := by
  unfold killOne
  split
  · exact .refl
  rename_i j t htarget
  split
  · exact .refl
  split
  · exact .refl
  · rename_i hc
    exact signalSend_sends _ (target_eq htarget) (by simpa using hc)

theorem killEach_sends (k : Kernel) (cur : Task) (wanted : Task → Bool) (sig : Int) :
    Sends (canSignalTarget cur · sig) sig k (killEach k cur wanted sig) := by
  unfold killEach
  generalize List.range' 1 (TASK_TABLE_SIZE - 1) = tids
  induction tids generalizing k with
  | nil => exact .refl
  | cons tid tids ih =>
    refine Sends.trans (fun t t' hs hc => ?_) (killOne_sends cur wanted sig k tid) (ih _)
    rwa [canSignalTarget_congr hs] at hc

theorem scKill_sends (hcur : k.tasks i = some cur) (a b : Word) :
    Sends (canSignalTarget cur · (b.setWidth 32).toInt) (b.setWidth 32).toInt k (scKill k i a b).2 := by
  unfold scKill
  rw [hcur]
  dsimp only
  split
  · split
    · exact .refl
    · rename_i j t htarget
      split
      · exact .refl
      split
      · exact .refl
      · rename_i hc
        exact signalSend_sends _ (target_eq htarget) (by simpa using hc)
  split
  · dsimp only
    exact killEach_sends k cur _ _
  split <;> dsimp only <;> exact killEach_sends k cur _ _

/-! ### The permission rule -/

/-- Every task that gets a new pending signal is no kernel thread and may be signalled by `cur`. -/
def Permitted (cur : Task) (k k' : Kernel) : Prop :=
  ∀ j t t' s, k.tasks j = some t → k'.tasks j = some t' →
    t.sigPending.getLsbD s = false → t'.sigPending.getLsbD s = true →
      t.isKthread = false ∧ canSignalTarget cur t s = true

theorem Sends.permitted (h : Sends (canSignalTarget cur · sig) sig k k') : Permitted cur k k' := by
  intro j t t' s ht ht' hold hnew
  obtain ⟨t0, ht0, -, hn⟩ := h j t' ht'
  rw [ht] at ht0
  cases ht0
  rcases hn s hnew with hb | ⟨rfl, hc⟩
  · rw [hold] at hb; cases hb
  · refine ⟨?_, hc⟩
    by_contra hk
    simp [canSignalTarget, hk] at hc

theorem Permitted.refl : Permitted cur k k := by
  intro j t t' s ht ht' hold hnew
  rw [ht] at ht'
  cases ht'
  rw [hold] at hnew
  cases hnew

/-- `tkill` and `tgkill` with these arguments send the signal to `t`. -/
structure Reaches (k : Kernel) (tid : BitVec 32) (group : Task → Bool) (sig : Int) (j : TaskId) (t : Task) :
    Prop where
  tidPos : 0 < tid.toInt
  sigPos : 0 < sig
  sigLt : sig < NSIGS
  found : target k tid.toNat = some (j, t)
  alive : t.state ≠ .dead
  member : group t = true

/-- The targets that an unchecked call may have: the signal is pending already, or the rule allows it. -/
def MayReach (k : Kernel) (cur : Task) (tid : BitVec 32) (group : Task → Bool) (sig : Int) : Prop :=
  ∀ j t, Reaches k tid group sig j t → t.sigPending.getLsbD sig.toNat = true ∨ canSignalTarget cur t sig = true

def KillCall.Lawful (k : Kernel) (cur : Task) : KillCall → Prop
  | .kill _ _ => True
  | .tkill a b => MayReach k cur (a.setWidth 32) (fun _ => true) (b.setWidth 32).toInt
  | .tgkill a b c => 0 < (a.setWidth 32).toInt →
      MayReach k cur (b.setWidth 32) (fun t => t.pid == a.setWidth 32) (c.setWidth 32).toInt

section tkill

variable {tid sig : BitVec 32} {group : Task → Bool}

theorem tkillArgs_reaches (h : Reaches k tid group sig.toInt j t) :
    (tkillArgs k tid group sig).2 = signalSend k j sig.toInt := by
  have hs := h.sigPos
  have hl := h.sigLt
  unfold tkillArgs tkillTarget
  rw [if_neg (not_le.2 h.tidPos), if_neg (by omega), h.found]
  dsimp only
  rw [if_neg h.alive, if_neg (by simp [h.member]), if_neg (by omega)]

theorem tkillArgs_cases (k : Kernel) (tid : BitVec 32) (group : Task → Bool) (sig : BitVec 32) :
    (tkillArgs k tid group sig).2 = k ∨ ∃ j t, Reaches k tid group sig.toInt j t := by
  unfold tkillArgs tkillTarget
  split
  · exact .inl rfl
  split
  · exact .inl rfl
  split
  · exact .inl rfl
  rename_i j t hfound
  split
  · exact .inl rfl
  rename_i halive
  split
  · exact .inl rfl
  rename_i hgroup
  split
  · exact .inl rfl
  · exact .inr ⟨j, t, by omega, by omega, by omega, hfound, halive, by simpa using hgroup⟩

theorem signalSend_pending {sig : Int} (ht : k.tasks j = some t) (h0 : 0 < sig) (h1 : sig < NSIGS) :
    ∃ t', (signalSend k j sig).tasks j = some t' ∧ t'.sigPending.getLsbD sig.toNat := by
  unfold signalSend
  rw [if_neg (by omega), Kernel.modify_tasks_self, ht]
  refine ⟨_, rfl, ?_⟩
  unfold NSIGS at h1
  simp only [BitVec.getLsbD_or, BitVec.getLsbD_twoPow, decide_true, Bool.and_true, Bool.or_eq_true, decide_eq_true_eq]
  exact .inr (by omega)

theorem tkillArgs_permitted (k : Kernel) (cur : Task) (tid : BitVec 32) (group : Task → Bool) (sig : BitVec 32) :
    MayReach k cur tid group sig.toInt ↔ Permitted cur k (tkillArgs k tid group sig).2 := by
  constructor
  · intro hm
    rcases tkillArgs_cases k tid group sig with h | ⟨j, t, h⟩
    · rw [h]; exact .refl
    rw [tkillArgs_reaches h]
    rcases hm j t h with hp | hc
    · intro j' t0 t' s ht0 ht' hold hnew
      obtain ⟨t1, ht1, -, hn⟩ := signalSend_sends (fun t => t.sigPending.getLsbD sig.toInt.toNat)
        (target_eq h.found) hp j' t' ht'
      rw [ht0] at ht1
      cases ht1
      rcases hn s hnew with hb | ⟨hs, hb⟩
      · rw [hold] at hb; cases hb
      · rw [← hs, Int.toNat_natCast, hold] at hb; cases hb
    · exact (signalSend_sends _ (target_eq h.found) hc).permitted
  · intro hp j t h
    by_contra hn
    rw [not_or] at hn
    obtain ⟨t', ht', hb⟩ := signalSend_pending (target_eq h.found) h.sigPos h.sigLt
    rw [← tkillArgs_reaches h] at ht'
    have hc := (hp j t t' _ (target_eq h.found) ht' (by simpa using hn.1) hb).2
    rw [Int.toNat_of_nonneg h.sigPos.le] at hc
    exact hn.2 hc

end tkill

theorem signal_permission (hcur : k.tasks i = some cur) (c : KillCall) :
    c.Lawful k cur ↔ Permitted cur k (c.run k i).2 := by
  rcases c with ⟨a, b⟩ | ⟨a, b⟩ | ⟨a, b, c⟩
  · exact iff_of_true trivial (scKill_sends hcur a b).permitted
  · exact tkillArgs_permitted ..
  · show (0 < (a.setWidth 32).toInt → _) ↔ Permitted cur k (sysTgkill ..).2
    unfold sysTgkill
    split
    · exact iff_of_true (fun h => by omega) .refl
    · rw [← tkillArgs_permitted]
      exact ⟨fun hm => hm (by omega), fun hm _ => hm⟩

def twoTasks : Kernel where
  tasks i := if i = 0 then some { taskCreateUser 1 true with cred := { credInit with
        uid := 1000, euid := 1000, capEffective := 0 } }
    else if i = 1 then some { taskCreateUser 600 true with isKthread := true, isUser := false } else none
  table := Function.update (Function.update (fun _ => none) 1 (some 0)) 600 (some 1)
  nextUserTid := 2
  fresh := 2
  unused i hi := by rw [if_neg (by rintro rfl; cases hi), if_neg (by rintro rfl; cases hi; contradiction)]

theorem signal_permission_kill : ∃ cur, twoTasks.tasks 0 = some cur ∧
    Permitted cur twoTasks ((KillCall.kill 600 9).run twoTasks 0).2 :=
  ⟨_, rfl, (signal_permission rfl (.kill 600 9)).1 trivial⟩

/-- `tkill(600, SIGKILL)` by user 1000 without capabilities kills a kernel thread. -/
theorem signal_permission_tkill : ∃ cur t', twoTasks.tasks 0 = some cur ∧ cur.cred.capEffective = 0 ∧
    ((KillCall.tkill 600 9).run twoTasks 0).1 = 0 ∧
    ((KillCall.tkill 600 9).run twoTasks 0).2.tasks 1 = some t' ∧ t'.sigPending.getLsbD SIGKILL = true ∧
    ¬ Permitted cur twoTasks ((KillCall.tkill 600 9).run twoTasks 0).2 := by
  refine ⟨_, _, rfl, rfl, rfl, rfl, rfl, fun h => ?_⟩
  obtain ⟨h, -⟩ := h 1 _ _ SIGKILL rfl rfl rfl rfl
  cases h

end ExoOS.Ipc
