import ExoOS.Lib.Ownership
import ExoOS.Proc.Effects

/-!
# The lifetime of address spaces

The task that `fork` makes owns its page table, a task that `clone` makes with `CLONE_VM` only uses that of its
parent, and a task that owns its page table destroys it in `execve` and when it is destroyed itself, without a look at
the other tasks that use it. So address spaces live as long as they are used exactly when an owner gives up its page
table after all others (`address_space_lifetimes`).
-/

namespace ExoOS.Proc

open Function Kernel Option Ownership Sched Shape Transition Process

variable {κ : Type} {s s' : Kernel κ} {t : TaskId}

def Uses (s : Kernel κ) (σ : SpaceId) (t : TaskId) : Prop := t ∈ s.sched.objs ∧ (s.procs t).cr3 = some σ

/-- No address space has been destroyed that a task uses, and each of the others has been destroyed once. -/
def Lifetimes (s : Kernel κ) : Prop :=
  ∀ σ, σ < s.nspaces → ((∃ t, Uses s σ t) → s.destroys σ = 0) ∧ ((∀ t, ¬ Uses s σ t) → s.destroys σ = 1)

/-- A task that owns its page table gives it up, in `execve` or to its parent's `wait4`, when no other task uses it. -/
def OwnerLast (s : Kernel κ) (e : ProcEvent κ) : Prop :=
  ∀ t ∈ s.releases e, (s.procs t).ownsAddressSpace →
    ∀ u ∈ s.sched.objs, u ≠ t → (s.procs u).cr3 ≠ (s.procs t).cr3

instance decidableOwnerLast (s : Kernel κ) (e : ProcEvent κ) : Decidable (OwnerLast s e) :=
  inferInstanceAs (Decidable (∀ t ∈ s.releases e, (s.procs t).ownsAddressSpace →
    ∀ u ∈ s.sched.objs, u ≠ t → (s.procs u).cr3 ≠ (s.procs t).cr3))

def holding (s : Kernel κ) : Holding TaskId SpaceId where
  holds t := if t ∈ s.sched.objs then (s.procs t).cr3 else none
  owns t := (s.procs t).ownsAddressSpace
  back := s.destroys
  issued σ := σ < s.nspaces

theorem holds_iff {σ : SpaceId} : (holding s).holds t = some σ ↔ Uses s σ t := by
  simp [holding, Uses]

theorem lifetimes_iff : Lifetimes s ↔ (holding s).Settled := by
  simp only [Holding.Settled, ne_eq, holds_iff]
  rfl

/-- Only user tasks have page tables other than the kernel's, and only such page tables are owned. -/
def UserSpace (space : Bool × Option SpaceId × Bool) : Prop :=
  (space.2.1 ≠ none → space.1) ∧ (space.2.2 → space.2.1 ≠ none)

def OnlyUsers (s : Kernel κ) : Prop := ∀ t ∈ s.sched.objs, UserSpace (s.procs t).space

/-! ### The calls, seen from the page tables -/

theorem holding_congr (hobjs : s'.sched.objs = s.sched.objs) (hsp : SpacesBut none s s') : holding s' = holding s := by
  have hcr3 : ∀ t, (s'.procs t).cr3 = (s.procs t).cr3 := fun t => congrArg (·.2.1) (hsp.space t nofun)
  have howns : ∀ t, (s'.procs t).ownsAddressSpace = (s.procs t).ownsAddressSpace := fun t =>
    congrArg (·.2.2) (hsp.space t nofun)
  simp only [holding, hobjs, hcr3, howns, hsp.nspaces, hsp.destroys]

theorem issued_succ (n : Nat) : (fun σ => σ < n + 1) = fun σ => σ = n ∨ σ < n := by
  funext σ
  exact propext (Nat.lt_succ_iff_lt_or_eq.trans or_comm)

theorem holding_create (s : Kernel κ) : holding s.vmmCreateAddressSpace.2 = (holding s).issue s.nspaces 0 := by
  simp only [holding, vmmCreateAddressSpace, issued_succ]
  rfl

theorem holding_spoil (s : Kernel κ) : holding s.spoilAddressSpace = (holding s).issue s.nspaces 1 := by
  simp only [holding, spoilAddressSpace, vmmDestroyAddressSpace, vmmCreateAddressSpace,
    Holding.issue, issued_succ, update_self, update_idem]

theorem Born.holding {u : Bool} {cr3 : Option SpaceId} {owns : Bool} (h : Born s s' (u, cr3, owns)) :
    holding s' = (holding s).join s.fs.ntasks cr3 owns := by
  have hobjs : s'.sched.objs = s.fs.ntasks :: s.sched.objs := h.adds.objs
  have hself := h.self
  simp only [space, Prod.mk.injEq] at hself
  simp only [Proc.holding, Holding.join, hobjs, h.spaces.nspaces, h.spaces.destroys, Holding.mk.injEq, and_true]
  constructor <;> funext t <;> by_cases ht : t = s.fs.ntasks
  · subst ht
    simp [hself.2.1]
  · have hsp := h.spaces.space t fun e => ht (some.inj e)
    simp only [space, Prod.mk.injEq] at hsp
    simp [ht, hsp.2.1]
  · subst ht
    simp [hself.2.2]
  · have hsp := h.spaces.space t fun e => ht (some.inj e)
    simp only [space, Prod.mk.injEq] at hsp
    simp [ht, hsp.2.2]

theorem leave_back (ht : t ∈ s.sched.objs) : ((holding s).leave t).back = (s.procs t).drop s.destroys := by
  cases hk : (s.procs t).cr3 with
  | none => simp [Holding.leave, holding, drop, hk]
  | some σ =>
    simp only [Holding.leave, holding, if_pos ht, drop, hk]
    rfl

theorem holding_reap (hobjs : s'.sched.objs = s.sched.objs.erase t) (hnd : s.sched.objs.Nodup)
    (ht : t ∈ s.sched.objs) (hu : OnlyUsers s)
    (hsp : SpacesBut none (if (s.procs t).isUser then s.dropAddressSpace (s.procs t) else s) s') :
    holding s' = (holding s).leave t := by
  have hdrop : (if (s.procs t).isUser then s.dropAddressSpace (s.procs t) else s) =
      { s with destroys := (s.procs t).drop s.destroys } := by
    split
    · exact dropAddressSpace_eq ..
    rename_i hn
    have hnone : (s.procs t).cr3 = none := by
      by_contra hcr3
      exact hn ((hu t ht).1 hcr3)
    simp [drop, hnone]
  rw [hdrop] at hsp
  refine Holding.ext (funext fun u => ?_) (funext fun u => ?_) ?_ ?_
  · have hcr3 : (s'.procs u).cr3 = (s.procs u).cr3 := congrArg (·.2.1) (hsp.space u (by simp))
    by_cases hut : u = t
    · subst hut
      simp [holding, Holding.leave, hobjs, hnd.not_mem_erase]
    · simp [holding, Holding.leave, hobjs, hut, hcr3]
  · exact congrArg (·.2.2) (hsp.space u (by simp))
  · rw [leave_back ht]
    exact hsp.destroys
  · show (fun σ => σ < s'.nspaces) = fun σ => σ < s.nspaces
    rw [hsp.nspaces]

theorem holding_exec (hobjs : s'.sched.objs = s.sched.objs) (ht : t ∈ s.sched.objs)
    (hlt : ∀ σ, (s.procs t).cr3 = some σ → σ < s.nspaces)
    (hsp : SpacesBut (some t) (s.vmmCreateAddressSpace.2.dropAddressSpace (s.procs t)) s')
    (hself : (s'.procs t).space = (true, some s.nspaces, true)) :
    holding s' = (((holding s).leave t).issue s.nspaces 0).join t (some s.nspaces) true := by
  rw [dropAddressSpace_eq] at hsp
  simp only [space, Prod.mk.injEq] at hself
  refine Holding.ext (funext fun u => ?_) (funext fun u => ?_) ?_ ?_
  · by_cases hut : u = t
    · subst hut
      simp [holding, Holding.join, hobjs, ht, hself.2.1]
    · have hcr3 : (s'.procs u).cr3 = (s.procs u).cr3 := congrArg (·.2.1) (hsp.space u fun e => hut (some.inj e))
      simp [holding, Holding.join, Holding.issue, Holding.leave, hobjs, hut, hcr3]
  · by_cases hut : u = t
    · subst hut
      simp [holding, Holding.join, hself.2.2]
    · have howns : (s'.procs u).ownsAddressSpace = (s.procs u).ownsAddressSpace :=
        congrArg (·.2.2) (hsp.space u fun e => hut (some.inj e))
      simp [holding, Holding.join, Holding.issue, Holding.leave, hut, howns]
  · -- the new page table is not the one that is destroyed
    have hback : (((holding s).leave t).issue s.nspaces 0).back = update ((s.procs t).drop s.destroys) s.nspaces 0 := by
      rw [← leave_back ht]
      rfl
    show s'.destroys = (((holding s).leave t).issue s.nspaces 0).back
    rw [hback, hsp.destroys]
    show (s.procs t).drop (update s.destroys s.nspaces 0) = _
    cases hk : (s.procs t).cr3 with
    | none => simp [drop, hk]
    | some σ =>
      have hne : σ ≠ s.nspaces := (hlt σ hk).ne
      simp only [drop, hk]
      split
      · rw [update_of_ne hne, update_comm hne.symm]
      · rfl
  · show (fun σ => σ < s'.nspaces) = fun σ => σ = s.nspaces ∨ σ < s.nspaces
    rw [hsp.nspaces]
    exact issued_succ _

structure SpaceInv (s : Kernel κ) : Prop where
  base : Base s
  users : OnlyUsers s
  sound : (holding s).Sound

theorem OnlyUsers.congr (h : OnlyUsers s) (hobjs : ∀ t ∈ s'.sched.objs, t ∈ s.sched.objs)
    (hsp : ∀ t, (s'.procs t).space = (s.procs t).space) : OnlyUsers s' := by
  intro t ht
  rw [hsp t]
  exact h t (hobjs t ht)

theorem Born.onlyUsers {space : Bool × Option SpaceId × Bool} (h : Born s s' space) (hu : UserSpace space)
    (hs : OnlyUsers s) : OnlyUsers s' := by
  have hobjs : s'.sched.objs = s.fs.ntasks :: s.sched.objs := h.adds.objs
  intro t ht
  by_cases htn : t = s.fs.ntasks
  · rw [htn, h.self]
    exact hu
  · rw [h.spaces.space t fun e => htn (some.inj e)]
    rw [hobjs] at ht
    exact hs t ((List.mem_cons.1 ht).resolve_left htn)

theorem lastOwner_iff (hu : OnlyUsers s) (ht : t ∈ s.sched.objs) : (holding s).LastOwner t ↔
    ((s.procs t).ownsAddressSpace → ∀ u ∈ s.sched.objs, u ≠ t → (s.procs u).cr3 ≠ (s.procs t).cr3) := by
  simp only [Holding.LastOwner, holds_iff, ne_eq]
  constructor
  · intro h hown u hm hut heq
    obtain ⟨σ, hσ⟩ := ne_none_iff_exists'.1 ((hu t ht).2 hown)
    exact h σ ⟨ht, hσ⟩ hown u hut ⟨hm, heq.trans hσ⟩
  · rintro h σ ⟨-, hσ⟩ hown u hut ⟨hm, hcr3⟩
    exact h hown u hm hut (hcr3.trans hσ.symm)

theorem SpaceInv.issued (h : SpaceInv s) (ht : t ∈ s.sched.objs) {σ : SpaceId} (hσ : (s.procs t).cr3 = some σ) :
    σ < s.nspaces := h.sound.issued t σ (holds_iff.2 ⟨ht, hσ⟩)

theorem SpaceInv.new (h : SpaceInv s) : (holding s).holds s.fs.ntasks = none := if_neg h.base.notMem

theorem Effect.lifetimes {o : Option (TaskId × TaskState)} {r : Option TaskId} (he : Effect s s' o r)
    (h : SpaceInv s) (hb : Base s') :
    (Lifetimes s' ↔ ∀ t ∈ r, (s.procs t).ownsAddressSpace →
      ∀ u ∈ s.sched.objs, u ≠ t → (s.procs u).cr3 ≠ (s.procs t).cr3) ∧ (Lifetimes s' → SpaceInv s') := by
  -- a call that gives up no page table keeps the invariant
  have hkeep : OnlyUsers s' → (holding s').Sound → (Lifetimes s' ↔ ∀ t ∈ (none : Option TaskId),
      (s.procs t).ownsAddressSpace → ∀ u ∈ s.sched.objs, u ≠ t → (s.procs u).cr3 ≠ (s.procs t).cr3) ∧
      (Lifetimes s' → SpaceInv s') := fun hu hs =>
    ⟨iff_of_true (lifetimes_iff.2 hs.settled) nofun, fun _ => ⟨hb, hu, hs⟩⟩
  have hquiet : s'.sched.objs = s.sched.objs → SpacesBut none s s' → OnlyUsers s' ∧ (holding s').Sound := fun ho hsp =>
    ⟨h.users.congr (fun t ht => ho ▸ ht) fun t => hsp.space t nofun, holding_congr ho hsp ▸ h.sound⟩
  have hfresh : ¬ (holding s).issued s.nspaces := lt_irrefl _
  cases he with
  | quiet hst hsp => exact (hquiet hst.keeps.objs hsp).elim hkeep
  | spoil hst hsp =>
    have hobjs : s'.sched.objs = s.sched.objs := hst.keeps.objs
    refine hkeep (h.users.congr (fun t ht => hobjs ▸ ht) fun t => hsp.space t nofun) ?_
    rw [holding_congr (s := s.spoilAddressSpace) hobjs hsp, holding_spoil]
    exact h.sound.spoil hfresh
  | thread p hp hborn =>
    refine hkeep (hborn.onlyUsers ⟨fun _ => rfl, nofun⟩ h.users) ?_
    rw [hborn.holding]
    exact h.sound.share h.new fun σ hσ => ⟨p, holds_iff.2 ⟨hp, hσ⟩⟩
  | process hborn =>
    refine hkeep (hborn.onlyUsers ⟨fun _ => rfl, fun _ => some_ne_none _⟩ h.users) ?_
    rw [hborn.holding, holding_create]
    exact h.sound.open hfresh h.new
  | kthread hborn =>
    refine hkeep (hborn.onlyUsers ⟨fun hn => absurd rfl hn, nofun⟩ h.users) ?_
    rw [hborn.holding]
    exact h.sound.share h.new nofun
  | dies t st ht hend hst hfs hsp => exact (hquiet hst.objs hsp).elim hkeep
  | execs t ht hu hst hsp hself =>
    have hobjs : s'.sched.objs = s.sched.objs := hst.keeps.objs
    have hhold := holding_exec hobjs ht (fun σ => h.issued ht) hsp hself
    have hlast : Lifetimes s' ↔ (holding s).LastOwner t := by
      rw [lifetimes_iff, hhold]
      exact h.sound.reopen_settled hfresh
    refine ⟨?_, fun hl => ⟨hb, fun u hm => ?_, ?_⟩⟩
    · simp only [hlast, lastOwner_iff h.users ht, mem_some_iff, forall_eq']
    · by_cases hut : u = t
      · rw [hut, hself]
        exact ⟨fun _ => rfl, fun _ => some_ne_none _⟩
      · have hspu := hsp.space u fun e => hut (some.inj e)
        rw [dropAddressSpace_eq] at hspu
        rw [hspu]
        exact h.users u (hobjs ▸ hm)
    · rw [hhold]
      exact (h.sound.leave (hlast.1 hl)).open hfresh (update_self ..)
  | reaps t ht hobjs hst htab hsp =>
    obtain ⟨rq, sl, hr⟩ := h.base.rest
    have hhold := holding_reap hobjs hr.nodup ht h.users hsp
    have hlast : Lifetimes s' ↔ (holding s).LastOwner t := by
      rw [lifetimes_iff, hhold]
      exact h.sound.leave_settled
    refine ⟨?_, fun hl => ⟨hb, h.users.congr (fun u hm => List.mem_of_mem_erase (hobjs ▸ hm)) fun u => ?_, ?_⟩⟩
    · simp only [hlast, lastOwner_iff h.users ht, mem_some_iff, forall_eq']
    · have hspu := hsp.space u nofun
      split at hspu
      · rwa [dropAddressSpace_eq] at hspu
      · exact hspu
    · rw [hhold]
      exact h.sound.leave (hlast.1 hl)

theorem ProcInit.spaceInv (h : ProcInit s) : SpaceInv s where
  base := h.base
  users t _ := by
    obtain ⟨-, -, -, -, hcr3, howns⟩ := h.procs t
    simp [UserSpace, space, hcr3, howns]
  sound := by
    have hno : ∀ t r, (holding s).holds t ≠ some r := fun t r ht => by
      have hcr3 := (holds_iff.1 ht).2
      rw [(h.procs t).2.2.2.2.1] at hcr3
      cases hcr3
    refine ⟨fun t r ht => absurd ht (hno t r), fun r hr => ?_⟩
    have hlt : r < s.nspaces := hr
    rw [h.nspaces] at hlt
    exact absurd hlt (Nat.not_lt_zero r)

variable [DecidableEq κ]

theorem step_lifetimes {e : ProcEvent κ} (h : SpaceInv s) (hs : procStep s e = some s') :
    (Lifetimes s' ↔ OwnerLast s e) ∧ (OwnerLast s e → SpaceInv s') := by
  obtain ⟨he, hs⟩ := ite_none_right_eq_some.1 hs
  obtain ⟨hb, heff⟩ := call_effect h.base he hs
  obtain ⟨hiff, hinv⟩ := heff.lifetimes h hb
  exact ⟨hiff, fun hl => hinv (hiff.2 hl)⟩

theorem address_space_lifetimes {s0 : Kernel κ} {es : List (ProcEvent κ)} (h0 : ProcInit s0)
    (hrun : Run procStep OwnerLast s0 es s) :
    Lifetimes s ∧ ∀ e s', procStep s e = some s' → (Lifetimes s' ↔ OwnerLast s e) := by
  have h : SpaceInv s := hrun.inv (fun s e s' h hl hs => (step_lifetimes h hs).2 hl) h0.spaceInv
  exact ⟨lifetimes_iff.2 h.sound.settled, fun e s' hs => (step_lifetimes h hs).1⟩

/-- A child of `vfork` runs on its parent's page table until it calls `execve`; then it exits and is waited for. -/
theorem address_space_lifetimes_vfork : ProcInit booted ∧ ∃ s, Run procStep OwnerLast booted
    [.launch 0 (.loaded none fun _ => true), .sched (.tick 0), .clone 0 ⟨true, false, false, true⟩ 0 (.ok 2),
      .execve 0 (.loaded none fun _ => true), .exit 0 none, .wait 0 3] s ∧
    (s.nspaces, [0, 1].map s.destroys) = (2, [0, 1]) ∧ Lifetimes s := by
  refine ⟨booted_init, exists_run (fun s => (s.nspaces, [0, 1].map s.destroys)) (2, [0, 1]) (by decide +kernel)
    fun s hrun hd => ?_⟩
  exact ⟨hd, (address_space_lifetimes booted_init hrun).1⟩

/-- The first process makes a thread and calls `execve`: the page table that the thread runs on is destroyed. -/
theorem execve_destroys_used_space : ProcInit booted ∧ ∃ s, Run procStep Any booted
    [.launch 0 (.loaded none fun _ => true), .sched (.tick 0), .clone 0 ⟨true, true, true, false⟩ 0 (.ok 2),
      .execve 0 (.loaded none fun _ => true)] s ∧
    3 ∈ s.sched.objs ∧ s.sched.state 3 = .runnable ∧ (s.procs 3).cr3 = some 0 ∧ s.destroys 0 = 1 ∧ ¬ Lifetimes s := by
  refine ⟨booted_init, exists_run (fun s => (s.sched.objs, s.sched.state 3, (s.procs 3).cr3, s.destroys 0, s.nspaces))
    ([3, 2, 0, 1], .runnable, some 0, 1, 2) (by decide +kernel) fun s _ hd => ?_⟩
  simp only [Prod.mk.injEq] at hd
  obtain ⟨hobjs, hst, hcr3, hdes, hn⟩ := hd
  have hmem : 3 ∈ s.sched.objs := by simp [hobjs]
  refine ⟨hmem, hst, hcr3, hdes, fun hl => ?_⟩
  have h0 := (hl 0 (by simp [hn])).1 ⟨3, hmem, hcr3⟩
  simp [hdes] at h0

end ExoOS.Proc
