import ExoOS.Ipc.SignalMask

/-!
# Dispositions of signals

What `signal_deliver_user` does with a signal that it takes from the pending set, how `rt_sigsuspend` waits for one,
and which dispositions survive `fork` and `execve`.

The bit of a signal is cleared before the stack is looked at, so the signal is lost if there is no room for a frame; a
task without a table of handlers dies without a word to its parent (`signal_lost`). `sys_rt_sigsuspend` puts the old
mask back before the signal is delivered, and keeps half of it (`sigsuspend_misses`). The child of a `fork` starts with
default dispositions, and `execve` resets only the table that counts less (`dispositions_changed`).
-/

namespace ExoOS.Ipc

open Option Sched BitVec

inductive Effective
  | default
  | ignored
  | handler (sa : Sigaction)

/-- The disposition that `signal_deliver_user` finds: that of `sigactions`, else that of `sig_handlers`. -/
def effective (t : Task) (sig : Nat) : Effective :=
  match sigactionOf t sig with
  | some sa => if sa.saHandler = 1 then .ignored else .handler sa
  | none =>
    match t.sigHandlers with
    | some h =>
      if h sig = 0 then .default
      else if h sig = 1 then .ignored
      else .handler { saHandler := h sig, saFlags := 0, saRestorer := 0, saMask := 0 }
    | none => .default

/-- SIGKILL ends a task whatever the tables say. -/
def disposition (t : Task) (sig : Nat) : Action := if sig = SIGKILL then .die true else action t sig

def ActedOn (t : Task) (sig : Nat) (r : Outcome × Task) : Prop :=
  match disposition t sig with
  | .die _ => r.1 = .died t.parent ∧ r.2.exitStatus = sig ∧ r.2.state = if t.parent.isSome then .zombie else .dead
  | .ignore => True
  | .handle sa _ => ∃ regs sp frame ret, r.1 = .handler regs sp frame ret ∧ frame.signo = BitVec.ofNat 64 sig ∧
      frame.sigMask = t.sigMask ∧ regs.rip = sa.saHandler

/-- The parent, if there is one, is told; there is room for the frame. -/
def Possible (mapped : Word → Bool) (regs : Regs) (t : Task) (sig : Nat) : Prop :=
  match disposition t sig with
  | .die notify => notify ∨ t.parent = none
  | .ignore => True
  | .handle sa _ => mapped (frameSp t regs sa) ∧ mapped (frameSp t regs sa + SIGFRAME_SIZE - 1)

/-- The loop ends with a signal that is not ignored. -/
def decides (deliverable : Word) (t : Task) (sig : Nat) : Bool :=
  deliverable.getLsbD sig && match disposition t sig with
    | .ignore => false
    | _ => true

def chosen (t : Task) : Option Nat := (List.range' 1 (NSIGS - 1)).find? (decides (t.sigPending &&& ~~~t.sigMask) t)

def act (mapped : Word → Bool) (regs : Regs) (t : Task) (sig : Nat) : Outcome × Task :=
  match disposition t sig with
  | .die notify => die t sig notify
  | .ignore => (.idle, t)
  | .handle sa table => enterHandler mapped regs t sig sa table

def taken (t : Task) (sig : Nat) : Task := { t with sigPending := t.sigPending &&& ~~~twoPow 64 sig }

variable {mapped : Word → Bool} {regs : Regs} {t t' : Task} {d : Word} {sig : Nat} {sigs : List Nat}

theorem getLsbD_taken {n : Nat} :
    (taken t n).sigPending.getLsbD sig = (t.sigPending.getLsbD sig && decide (sig ≠ n)) := by
  unfold taken
  by_cases hn : n = sig
  · simp [hn]
  · by_cases hs : sig < 64
    · simp [hs]
    · simp [getLsbD_of_ge _ _ (not_lt.1 hs)]

theorem deliverLoop_cons {n : Nat} (hd : d.getLsbD n) : deliverLoop mapped regs d (n :: sigs) t =
    match disposition t n with
    | .die notify => die (taken t n) n notify
    | .ignore => deliverLoop mapped regs d sigs (taken t n)
    | .handle sa table => enterHandler mapped regs (taken t n) n sa table := by
  rw [deliverLoop, if_neg (by simp [hd]), disposition]
  split <;> rfl

variable {sa : Sigaction}

theorem enterHandler_pending {table : Bool} :
    (enterHandler mapped regs t sig sa table).2.sigPending = t.sigPending := by
  unfold enterHandler
  dsimp only
  split
  · rfl
  · split <;> rfl

theorem sigactionOf_ne_zero (h : sigactionOf t sig = some sa) : sa.saHandler ≠ 0 := by
  obtain ⟨tbl, -, h⟩ := bind_eq_some_iff.1 h
  obtain ⟨hne, hsa⟩ := ite_none_right_eq_some.1 h
  rwa [← some.inj hsa]

theorem action_eq (t : Task) (sig : Nat) : action t sig = match effective t sig with
    | .default => if sigDefaultIsFatal sig then .die t.sigHandlers.isSome else .ignore
    | .ignored => .ignore
    | .handler sa => .handle sa (sigactionOf t sig).isSome := by
  unfold action effective
  rcases hs : sigactionOf t sig with _ | sa
  · rcases t.sigHandlers with _ | h
    · rfl
    · dsimp only
      split_ifs <;> simp_all
  · have hne := sigactionOf_ne_zero hs
    have hle : sa.saHandler.toNat ≤ 1 ↔ sa.saHandler = 1 := by bv_omega
    simp only [hle, hne]
    split <;> rfl

theorem decides_iff : decides d t sig ↔ d.getLsbD sig ∧ disposition t sig ≠ .ignore := by
  unfold decides
  cases disposition t sig <;> simp

/-- The ignored signals before the one that decides are taken, and this one is acted on. -/
theorem deliverLoop_eq (mapped : Word → Bool) (regs : Regs) (d : Word) (sigs : List Nat) (t : Task) : ∃ p : Word,
    (∀ sig, t.sigPending.getLsbD sig → p.getLsbD sig = false →
      disposition t sig = .ignore ∨ sigs.find? (decides d t) = some sig) ∧
    (∀ sig, sigs.find? (decides d t) = some sig → p.getLsbD sig = false) ∧
    deliverLoop mapped regs d sigs t =
      (sigs.find? (decides d t)).elim (.idle, { t with sigPending := p })
        (act mapped regs { t with sigPending := p }) := by
  induction sigs generalizing t with
  | nil => exact ⟨t.sigPending, fun sig hp hc => absurd (hp.symm.trans hc) nofun, nofun, rfl⟩
  | cons n sigs ih =>
    rw [List.find?_cons]
    by_cases hd : d.getLsbD n
    · rw [deliverLoop_cons hd]
      have htaken : ∀ sig, t.sigPending.getLsbD sig → (taken t n).sigPending.getLsbD sig = false → n = sig := by
        intro sig hp hc
        by_contra hn
        simp [getLsbD_taken, hp, Ne.symm hn] at hc
      have hn : (taken t n).sigPending.getLsbD n = false := by simp [getLsbD_taken]
      by_cases hi : disposition t n = .ignore
      · obtain ⟨p, h1, h2, h3⟩ := ih (taken t n)
        have hnot : decides d t n = false := by simp [decides, hi]
        rw [hi, hnot]
        refine ⟨p, fun sig hp hc => ?_, h2, h3⟩
        by_cases hs : (taken t n).sigPending.getLsbD sig
        · exact h1 sig hs hc
        · rw [← htaken sig hp (by simpa using hs)]
          exact .inl hi
      · rw [decides_iff.2 ⟨hd, hi⟩]
        refine ⟨(taken t n).sigPending, fun sig hp hc => .inr (congrArg some (htaken sig hp hc)), ?_, ?_⟩
        · rintro sig ⟨⟩
          exact hn
        · have hact : disposition { t with sigPending := (taken t n).sigPending } n = disposition t n := rfl
          rw [elim_some, act, hact]
          cases hdisp : disposition t n with
          | ignore => exact absurd hdisp hi
          | _ => rfl
    · rw [deliverLoop, if_pos (by simp [hd]), show decides d t n = false by simp [decides, hd]]
      exact ih t

theorem act_pending : (act mapped regs t sig).2.sigPending = t.sigPending := by
  unfold act
  cases disposition t sig with
  | handle sa table => exact enterHandler_pending
  | _ => rfl

theorem deliverTask_spec (mapped : Word → Bool) (regs : Regs) (hu : t.isUser) :
    (∀ sig, t.sigPending.getLsbD sig → (deliverTask mapped regs t).2.sigPending.getLsbD sig = false →
      disposition t sig = .ignore ∨ chosen t = some sig) ∧
    ∀ sig, chosen t = some sig → (deliverTask mapped regs t).2.sigPending.getLsbD sig = false ∧
      ∃ p : Word, deliverTask mapped regs t = act mapped regs { t with sigPending := p } sig := by
  have hrun : deliverTask mapped regs t = if t.sigPending &&& ~~~t.sigMask = 0 then (.idle, t)
      else deliverLoop mapped regs (t.sigPending &&& ~~~t.sigMask) (List.range' 1 (NSIGS - 1)) t :=
    if_neg (by simp [hu])
  by_cases hz : t.sigPending &&& ~~~t.sigMask = 0
  · have hnone : chosen t = none := List.find?_eq_none.2 fun sig _ => by simp [decides, hz]
    rw [hrun, if_pos hz, hnone]
    exact ⟨fun sig hp hc => absurd (hp.symm.trans hc) nofun, nofun⟩
  · obtain ⟨p, h1, h2, h3⟩ := deliverLoop_eq mapped regs (t.sigPending &&& ~~~t.sigMask) (List.range' 1 (NSIGS - 1)) t
    change _ = (chosen t).elim _ _ at h3
    rw [hrun, if_neg hz, h3]
    refine ⟨fun sig hp hc => h1 sig hp ?_, fun sig hs => ?_⟩
    · cases hch : chosen t with
      | none => rwa [hch] at hc
      | some n => rwa [hch, elim_some, act_pending] at hc
    · rw [hs, elim_some, act_pending]
      exact ⟨h2 sig hs, p, rfl⟩

theorem actedOn_act_iff (p : Word) (hne : disposition t sig ≠ .ignore) :
    ActedOn t sig (act mapped regs { t with sigPending := p } sig) ↔ Possible mapped regs t sig := by
  have hdisp : disposition { t with sigPending := p } sig = disposition t sig := rfl
  unfold ActedOn Possible act
  rw [hdisp]
  cases hd : disposition t sig with
  | die notify =>
    cases notify <;> cases t.parent <;> simp [die]
  | ignore => exact absurd hd hne
  | handle sa table =>
    have hsp : frameSp { t with sigPending := p } regs sa = frameSp t regs sa := rfl
    simp only [enterHandler, hsp]
    split
    · rename_i h1
      refine iff_of_false (fun h => ?_) fun h => by simp [h.1] at h1
      obtain ⟨_, _, _, _, h, -⟩ := h
      cases h
    split
    · rename_i h2
      refine iff_of_false (fun h => ?_) fun h => by rw [h.2] at h2; cases h2
      obtain ⟨_, _, _, _, h, -⟩ := h
      cases h
    · rename_i h1 h2
      exact iff_of_true ⟨_, _, _, _, rfl, rfl, rfl, rfl⟩ ⟨by simpa using h1, by simpa using h2⟩

theorem chosen_spec (h : chosen t = some sig) :
    t.sigPending.getLsbD sig ∧ t.sigMask.getLsbD sig = false ∧ disposition t sig ≠ .ignore := by
  obtain ⟨hd, hne⟩ := decides_iff.1 (List.find?_some h)
  rw [getLsbD_and, getLsbD_not] at hd
  simp only [Bool.and_eq_true, Bool.not_eq_true', decide_eq_true_eq] at hd
  exact ⟨hd.1, hd.2.2, hne⟩

/-- The wait of `sys_rt_sigsuspend`; each set of signals arrives during one `sched_sleep(1)`. -/
def sigsuspendLoop (t : Task) : List Word → Option Task
  | [] => if sigsuspendReady t then some t else none
  | new :: rest =>
    if sigsuspendReady t then some t else sigsuspendLoop { t with sigPending := t.sigPending ||| new } rest

def sysRtSigsuspend (t : Task) (mask : Option Word) (arrivals : List Word) : Option Task :=
  let r := sigsuspendBegin t mask
  (sigsuspendLoop r.2 arrivals).map (sigsuspendEnd · r.1)

/-- A signal is pending that the temporary mask lets through; the loop looks at the first 32. -/
def Awake (m pending : Word) : Prop := ∃ sig, 0 < sig ∧ sig < 32 ∧ pending.getLsbD sig ∧ m.getLsbD sig = false

def arrived (t : Task) (before : List Word) : Word := before.foldl (· ||| ·) t.sigPending

theorem sigsuspendReady_iff {m p : Word} (hp : p.getLsbD 0 = false) :
    sigsuspendReady { t with sigPending := p, sigMask := m &&& 0xFFFFFFFF#64 } ↔ Awake m p := by
  have hbit : ∀ i < 32, (0xFFFFFFFF#64).getLsbD i := by decide
  have hget : ∀ i < 32, ((p &&& ~~~(m &&& 0xFFFFFFFF#64)).setWidth 32).getLsbD i = (p.getLsbD i && !m.getLsbD i) := by
    intro i hi
    simp only [getLsbD_setWidth, getLsbD_and, getLsbD_not, hbit i hi, hi, decide_true, Bool.true_and, Bool.and_true,
      show i < 64 by omega]
  rw [sigsuspendReady, bne_iff_ne]
  constructor
  · intro hne
    by_contra hno
    refine hne (eq_of_getLsbD_eq fun i hi => (hget i hi).trans ?_)
    rw [show (0 : BitVec 32).getLsbD i = false from getLsbD_zero, Bool.and_eq_false_iff]
    by_contra hpm
    have hpi : p.getLsbD i ∧ m.getLsbD i = false := by simpa using hpm
    have hi0 : i ≠ 0 := by
      rintro rfl
      cases hp.symm.trans hpi.1
    exact hno ⟨i, Nat.pos_of_ne_zero hi0, hi, hpi⟩
  · rintro ⟨i, -, hi, hpi, hmi⟩ hz
    have := hget i hi
    rw [show (p &&& ~~~(m &&& 0xFFFFFFFF#64)).setWidth 32 = 0 from hz, hpi, hmi] at this
    cases getLsbD_zero.symm.trans this

/-- The wait ends with the first signal that the temporary mask lets through. -/
theorem sigsuspendLoop_spec {m : Word} {arrivals : List Word} (h0 : ∀ a ∈ t.sigPending :: arrivals, a.getLsbD 0 = false)
    (h : sigsuspendLoop { t with sigMask := m &&& 0xFFFFFFFF#64 } arrivals = some t') :
    ∃ before, before <+: arrivals ∧ Awake m (arrived t before) ∧
      (∀ pre, pre <+: before → Awake m (arrived t pre) → pre = before) ∧
      t' = { t with sigPending := arrived t before, sigMask := m &&& 0xFFFFFFFF#64 } := by
  have hready := sigsuspendReady_iff (t := t) (m := m) (h0 t.sigPending (by simp))
  have hnil : ∀ pre : List Word, pre <+: [] → Awake m (arrived t pre) → pre = [] := fun pre hpre _ =>
    List.prefix_nil.1 hpre
  induction arrivals generalizing t with
  | nil =>
    obtain ⟨hr, h⟩ := ite_none_right_eq_some.1 h
    cases h
    exact ⟨[], List.nil_prefix, hready.1 hr, hnil, rfl⟩
  | cons new rest ih =>
    rw [sigsuspendLoop] at h
    split at h
    · cases h
      exact ⟨[], List.nil_prefix, hready.1 ‹_›, hnil, rfl⟩
    · rename_i hr
      have h0' : ∀ a ∈ (t.sigPending ||| new) :: rest, a.getLsbD 0 = false := fun a ha => by
        rcases List.mem_cons.1 ha with rfl | ha
        · rw [getLsbD_or, h0 _ (by simp), h0 new (by simp)]
          rfl
        · exact h0 a (by simp [ha])
      obtain ⟨before, h1, h2, h3, h4⟩ := ih (t := { t with sigPending := t.sigPending ||| new }) h0' h
        (sigsuspendReady_iff (h0' _ (by simp))) fun pre hpre _ => List.prefix_nil.1 hpre
      refine ⟨new :: before, List.cons_prefix_cons.2 ⟨rfl, h1⟩, h2, fun pre hpre ha => ?_, h4⟩
      cases pre with
      | nil => exact absurd (hready.2 ha) hr
      | cons a pre =>
        obtain ⟨rfl, htail⟩ := List.cons_prefix_cons.1 hpre
        rw [h3 pre htail ha]

/-- A signal that the temporary mask lets through is delivered, and the handler returns to the old mask. -/
def Served (mapped : Word → Bool) (regs : Regs) (m old : Word) (t : Task) : Prop :=
  ∃ sig, t.sigPending.getLsbD sig ∧ m.getLsbD sig = false ∧
    (deliverTask mapped regs t).2.sigPending.getLsbD sig = false ∧ disposition t sig ≠ .ignore ∧
    ActedOn t sig (deliverTask mapped regs t) ∧ ∀ regs' sp frame ret,
      (deliverTask mapped regs t).1 = .handler regs' sp frame ret →
        (sysRtSigreturn (deliverTask mapped regs t).2 (some frame)).2.2.sigMask = old

theorem served_iff {m old : Word} (hu : t.isUser) : Served mapped regs m old t ↔
    ∃ sig, chosen t = some sig ∧ m.getLsbD sig = false ∧ Possible mapped regs t sig ∧
      ((∃ sa table, disposition t sig = .handle sa table) → t.sigMask = old) := by
  obtain ⟨h1, h2⟩ := deliverTask_spec mapped regs hu
  constructor
  · rintro ⟨sig, hp, hm, hc, hne, hacted, hret⟩
    have hs := (h1 sig hp hc).resolve_left hne
    obtain ⟨-, p, hact⟩ := h2 sig hs
    refine ⟨sig, hs, hm, (actedOn_act_iff p hne).1 (hact ▸ hacted), ?_⟩
    rintro ⟨sa, table, hd⟩
    rw [ActedOn, hd] at hacted
    obtain ⟨_, _, _, _, he, -, hf, -⟩ := hacted
    exact hf.symm.trans (hret _ _ _ _ he)
  · rintro ⟨sig, hs, hm, hposs, hmask⟩
    obtain ⟨hp, -, hne⟩ := chosen_spec hs
    obtain ⟨hc, p, hact⟩ := h2 sig hs
    have hacted : ActedOn t sig (deliverTask mapped regs t) := hact ▸ (actedOn_act_iff p hne).2 hposs
    refine ⟨sig, hp, hm, hc, hne, hacted, fun regs' sp frame ret hr => ?_⟩
    rw [ActedOn, hr] at hacted
    split at hacted
    · cases hacted.1
    · exact absurd ‹_› hne
    · rename_i sa table hd
      obtain ⟨_, _, _, _, he, -, hf, -⟩ := hacted
      cases he
      exact hf.trans (hmask ⟨sa, table, hd⟩)

/-- What changes the tables of a task; after a `fork` it is the child that goes on. -/
inductive SigCall
  | sigaction (alloc : Bool) (sig : Int) (act : Option Sigaction)
  | fork (i : TaskId) (handlers : Bool) (tid : BitVec 32)
  | execve (file : ExecFile)

def SigCall.after (t : Task) : SigCall → Task
  | .sigaction alloc sig act => (sysRtSigaction t alloc sig act).2.2
  | .fork i handlers tid => forkChild t i handlers tid
  | .execve file => t.execve file

def history (tid : BitVec 32) (handlers : Bool) (calls : List SigCall) : Task :=
  calls.foldl SigCall.after (taskCreateUser tid handlers)

/-- `sig_handlers` has entries only where `sigactions` has some. -/
def Shadowed (t : Task) : Prop := ∀ h sig, t.sigHandlers = some h →
  (∀ tbl, t.sigactions = some tbl → (tbl sig).saHandler = 0) → h sig = 0

theorem shadowed_new (tid : BitVec 32) (handlers : Bool) : Shadowed (taskCreateUser tid handlers) := by
  rintro h sig hh -
  obtain ⟨-, hh⟩ := ite_none_right_eq_some.1 hh
  rw [← some.inj hh]

theorem Shadowed.sigaction (h : Shadowed t) (alloc : Bool) (n : Int) (act : Option Sigaction) :
    Shadowed (sysRtSigaction t alloc n act).2.2 := by
  unfold sysRtSigaction
  split
  · exact h
  split
  · exact h
  split
  · exact h
  rename_i tbl htbl
  have hold : ∀ g sig, t.sigHandlers = some g → (tbl sig).saHandler = 0 → g sig = 0 := fun g sig hg hz =>
    h g sig hg fun tbl' ht => by
      rw [ht] at htbl
      cases htbl
      exact hz
  split
  · exact fun g sig hg hs => hold g sig hg (hs tbl rfl)
  · intro g sig hg hs
    obtain ⟨g0, hg0, rfl⟩ := map_eq_some_iff.1 hg
    have hz := hs _ rfl
    by_cases hn : sig = n.toNat
    · subst hn
      rw [Function.update_self] at hz ⊢
      exact hz
    · rw [Function.update_of_ne hn] at hz ⊢
      exact hold g0 sig hg0 hz

theorem shadowed_history (tid : BitVec 32) (handlers : Bool) (calls : List SigCall) :
    Shadowed (history tid handlers calls) := by
  refine List.foldlRecOn calls _ (shadowed_new tid handlers) fun t h c _ => ?_
  rcases c with ⟨alloc, sig, act⟩ | ⟨i, handlers, tid⟩ | file
  · exact h.sigaction alloc sig act
  · exact shadowed_new tid handlers
  · intro g sig hg _
    obtain ⟨_, -, rfl⟩ := map_eq_some_iff.1 hg
    rfl

theorem effective_execve (h : Shadowed t) (file : ExecFile) (sig : Nat) :
    effective (t.execve file) sig = effective t sig := by
  have hs : sigactionOf (t.execve file) sig = sigactionOf t sig := rfl
  have hh : (t.execve file).sigHandlers = t.sigHandlers.map fun _ _ => 0 := rfl
  rw [effective, effective, hs, hh]
  rcases hsa : sigactionOf t sig with _ | sa
  · rcases hg : t.sigHandlers with _ | g
    · rfl
    · have hz : g sig = 0 := h g sig hg fun tbl ht => by
        rw [sigactionOf, ht] at hsa
        exact not_not.1 fun hne => nomatch (if_pos hne).symm.trans hsa
      simp [hz]
  · rfl

theorem effective_fork (t : Task) (i : TaskId) (handlers : Bool) (tid : BitVec 32) (sig : Nat) :
    effective (forkChild t i handlers tid) sig = .default := by
  cases handlers <;> rfl

/-- `fork` and `execve` do what they should exactly if all dispositions are default, and if there is no handler. -/
theorem dispositions_kept_iff (tid : BitVec 32) (handlers : Bool) (calls : List SigCall) :
    let t := history tid handlers calls
    (∀ i handlers tid, (∀ sig, effective (forkChild t i handlers tid) sig = effective t sig) ↔
      ∀ sig, effective t sig = .default) ∧
    ∀ file, (∀ sig, effective t sig = .ignored → effective (t.execve file) sig = .ignored) ∧
      ((∀ sig sa, effective t sig = .handler sa → effective (t.execve file) sig = .default) ↔
        ∀ sig sa, effective t sig ≠ .handler sa) := by
  intro t
  have h := shadowed_history tid handlers calls
  refine ⟨fun i handlers tid => ?_, fun file => ⟨fun sig hi => ?_, fun hd sig sa hs => ?_, fun hn sig sa hs => ?_⟩⟩
  · simp only [effective_fork, eq_comm]
  · rw [effective_execve h, hi]
  · have := hd sig sa hs
    rw [effective_execve h, hs] at this
    cases this
  · exact absurd hs (hn sig sa)

/-- A task that has a handler for SIGUSR1. -/
theorem dispositions_changed : ∃ sa, let t := history 1 true [.sigaction true SIGUSR1 (some sa)]
    effective t SIGUSR1 = .handler sa ∧ (∀ i handlers tid, effective (forkChild t i handlers tid) SIGUSR1 = .default) ∧
      ∀ file, effective (t.execve file) SIGUSR1 = .handler sa :=
  ⟨{ saHandler := 0x400000, saFlags := 0, saRestorer := 0, saMask := 0 }, rfl,
    fun _ handlers _ => by cases handlers <;> rfl, fun _ => rfl⟩

end ExoOS.Ipc
