import ExoOS.Lib.Sums
import ExoOS.Proc.Process
import ExoOS.Sched.Quiet

/-!
# The process tree

Between calls the scheduler is at rest and the links of the process tree are sound; a pointer to a task that has been
destroyed finds a task that has ended, so that `sched_unblock` leaves it alone (`Base`). The functions that wake tasks
and move them in the tree keep this, and touch neither descriptors nor page tables (`Aside`).
-/

namespace ExoOS.Proc

open List Sched SchedState Shape

variable {κ : Type}

/-- The links of the process tree. A pointer may outlive the task it leads to. -/
structure Tree (s : Kernel κ) : Prop where
  child : ∀ p, ∀ t ∈ (s.procs p).children, (s.procs t).parent = some p
  nodup : ∀ p, (s.procs p).children.Nodup
  parent : ∀ t p, (s.procs t).parent = some p → t ∈ s.sched.objs ∧ p < s.fs.ntasks
  vforkParent : ∀ t p, (s.procs t).vforkParent = some p → p < s.fs.ntasks
  initTask : ∀ i, s.initTask = some i → i < s.fs.ntasks ∧ (s.procs i).parent = none
  /-- The first process is the first user task. -/
  first : ∀ t, (s.procs t).isUser → s.initTask ≠ none
  self : ∀ t, (s.procs t).parent ≠ some t

structure Base (s : Kernel κ) : Prop extends Tree s where
  rest : ∃ rq sl, Rest rq sl s.sched.shape
  objs : ∀ t ∈ s.sched.objs, t < s.fs.ntasks
  ended : ∀ t, t < s.fs.ntasks → t ∉ s.sched.objs → (s.sched.state t).Ended

def Process.space (k : Process) : Bool × Option SpaceId × Bool := (k.isUser, k.cr3, k.ownsAddressSpace)

/-- Tasks may have been woken and moved in the process tree, nothing else. -/
structure Aside (s s' : Kernel κ) : Prop where
  keeps : Keeps s.sched.shape s'.sched.shape
  current : s'.sched.shape.current = s.sched.shape.current
  idle : s'.sched.shape.idle = s.sched.shape.idle
  fs : s'.fs = s.fs
  space : ∀ t, (s'.procs t).space = (s.procs t).space
  pid : ∀ t, (s'.procs t).pid = (s.procs t).pid
  nspaces : s'.nspaces = s.nspaces
  destroys : s'.destroys = s.destroys

variable {s s' s'' : Kernel κ} {c cpu : κ} {t u p q : TaskId}

theorem Kernel.setProc_procs (s : Kernel κ) (t u : TaskId) (g : Process → Process) :
    (s.setProc t g).procs u = if u = t then g (s.procs u) else s.procs u := by
  by_cases hu : u = t
  · subst hu
    simp [Kernel.setProc]
  · simp [Kernel.setProc, hu]

namespace Aside

theorem refl : Aside s s := ⟨.refl, rfl, rfl, rfl, fun _ => rfl, fun _ => rfl, rfl, rfl⟩

theorem trans (h : Aside s s') (h' : Aside s' s'') : Aside s s'' where
  keeps := h.keeps.trans h'.keeps
  current := h'.current.trans h.current
  idle := h'.idle.trans h.idle
  fs := h'.fs.trans h.fs
  space t := (h'.space t).trans (h.space t)
  pid t := (h'.pid t).trans (h.pid t)
  nspaces := h'.nspaces.trans h.nspaces
  destroys := h'.destroys.trans h.destroys

theorem objs (h : Aside s s') : s'.sched.objs = s.sched.objs := h.keeps.objs

theorem isUser (h : Aside s s') (t : TaskId) : (s'.procs t).isUser = (s.procs t).isUser := congrArg Prod.fst (h.space t)

theorem setProc (t : TaskId) {g : Process → Process} (hg : ∀ k, (g k).space = k.space ∧ (g k).pid = k.pid) :
    Aside s (s.setProc t g) := by
  refine ⟨.refl, rfl, rfl, rfl, fun u => ?_, fun u => ?_, rfl, rfl⟩ <;> rw [Kernel.setProc_procs] <;> split
  · exact (hg _).1
  · rfl
  · exact (hg _).2
  · rfl

theorem taskAddChild (s : Kernel κ) (t p : TaskId) : Aside s (s.taskAddChild t p) := by
  refine (setProc t (g := fun k => { k with parent := some p }) fun _ => ⟨rfl, rfl⟩).trans ?_
  exact setProc p fun _ => ⟨rfl, rfl⟩

theorem taskRemoveChild (s : Kernel κ) (t p : TaskId) : Aside s (s.taskRemoveChild t p) := by
  refine (setProc p (g := fun k => { k with children := k.children.erase t }) fun _ => ⟨rfl, rfl⟩).trans ?_
  exact setProc t fun _ => ⟨rfl, rfl⟩

theorem moveChildren (s : Kernel κ) (p q : TaskId) : Aside s (s.moveChildren p q) := by
  have hloop : ∀ (l : List TaskId) (s : Kernel κ), Aside s (l.foldl (fun s t => s.taskAddChild t q) s) := by
    intro l
    induction l with
    | nil => exact fun s => refl
    | cons t l ih => exact fun s => (taskAddChild s t q).trans (ih _)
  refine (hloop (s.procs p).children s).trans ?_
  exact setProc p fun _ => ⟨rfl, rfl⟩

variable [DecidableEq κ]

theorem unblock : Aside s (s.unblock t) := by
  have hv : (s.sched.schedUnblock t).shape.current = s.sched.shape.current ∧
      (s.sched.schedUnblock t).shape.idle = s.sched.shape.idle := by
    rw [schedUnblock]
    split
    · rw [shape_rqEnqueue, shape_setState, Shape.enqueue]
      split <;> exact ⟨rfl, rfl⟩
    · exact ⟨rfl, rfl⟩
  exact ⟨schedUnblock_keeps, hv.1, hv.2, rfl, fun _ => rfl, fun _ => rfl, rfl, rfl⟩

theorem unblockIf (o : Option TaskId) : Aside s (s.unblockIf o) := by
  cases o with
  | none => exact refl
  | some p => exact unblock

theorem taskReparentChildren : Aside s (s.taskReparentChildren p q) := by
  rw [Kernel.taskReparentChildren]
  split
  · exact refl
  · dsimp only
    split
    · exact (moveChildren s p q).trans unblock
    · exact moveChildren s p q

theorem orphan : Aside s (s.orphan t) := by
  rw [Kernel.orphan]
  split
  · split
    · exact refl
    · exact taskReparentChildren
  · exact refl

end Aside

namespace Base

section

variable (h : Base s)
include h

theorem mem_of_blocked (hp : p < s.fs.ntasks) (hb : s.sched.state p = .blocked) : p ∈ s.sched.objs := by
  by_contra hn
  rcases h.ended p hp hn with he | he <;> cases hb.symm.trans he

theorem resched {sched : SchedState κ TaskId} (hr : ∃ rq sl, Rest rq sl sched.shape) (hobjs : sched.objs = s.sched.objs)
    (hst : ∀ t, t ∉ s.sched.objs → (s.sched.state t).Ended → sched.state t = s.sched.state t) :
    Base { s with sched } := by
  refine ⟨{ h.toTree with parent := fun t p ht => ?_ }, hr, fun t ht => ?_, fun t ht hn => ?_⟩
  · exact ⟨hobjs.symm ▸ (h.parent t p ht).1, (h.parent t p ht).2⟩
  · exact h.objs t (hobjs ▸ ht)
  · have hn : t ∉ s.sched.objs := hobjs ▸ hn
    have he := h.ended t ht hn
    exact (hst t hn he).symm ▸ he

theorem keeps {sched : SchedState κ TaskId} (hr : ∃ rq sl, Rest rq sl sched.shape)
    (hk : Keeps s.sched.shape sched.shape) : Base { s with sched } :=
  h.resched hr hk.objs fun t _ => hk.ended t

theorem current_mem (hc : s.current c ≠ (s.sched.cpus c).idle) :
    s.current c ∈ s.sched.objs ∧ ¬ (s.sched.state (s.current c)).Ended := by
  obtain ⟨rq, sl, hr⟩ := h.rest
  exact ⟨((hr.current c).resolve_left hc).1.1, current_not_ended hr hc⟩

theorem of_tree (ht : Tree s') (hs : s'.sched = s.sched) (hn : s'.fs.ntasks = s.fs.ntasks) : Base s' where
  toTree := ht
  rest := hs ▸ h.rest
  objs := hs ▸ hn ▸ h.objs
  ended := hs ▸ hn ▸ h.ended

theorem congr (hs : s'.sched = s.sched) (hn : s'.fs.ntasks = s.fs.ntasks)
    (hi : s'.initTask = s.initTask) (hp : ∀ t, (s'.procs t).parent = (s.procs t).parent)
    (hc : ∀ t, (s'.procs t).children = (s.procs t).children)
    (hu : ∀ t, (s'.procs t).isUser = (s.procs t).isUser)
    (hv : ∀ t p, (s'.procs t).vforkParent = some p → p < s.fs.ntasks) : Base s' := by
  refine h.of_tree ?_ hs hn
  constructor <;> simp only [hs, hn, hi, hp, hc, hu]
  exacts [h.child, h.nodup, h.parent, hv, h.initTask, h.first, h.self]

theorem setProc {g : Process → Process} (hp : ∀ k, (g k).parent = k.parent)
    (hc : ∀ k, (g k).children = k.children) (hu : ∀ k, (g k).isUser = k.isUser)
    (hv : ∀ k p, (g k).vforkParent = some p → k.vforkParent = some p ∨ p < s.fs.ntasks) : Base (s.setProc t g) := by
  refine h.congr rfl rfl rfl (Table.update_same (hp _)) (Table.update_same (hc _)) (Table.update_same (hu _))
    fun u p => ?_
  rw [Kernel.setProc_procs]
  split
  · exact fun hu => (hv _ p hu).elim (h.vforkParent u p) id
  · exact h.vforkParent u p

variable [DecidableEq κ]

theorem unblock (hp : p < s.fs.ntasks) : Base (s.unblock p) := by
  obtain ⟨rq, sl, hr⟩ := h.rest
  obtain ⟨⟨rq', hq⟩, hb⟩ := schedUnblock_queues hr.toQueues (h.mem_of_blocked hp)
  exact h.keeps ⟨rq', sl, { hq with busy := fun c => hb c (hr.busy c) }⟩ schedUnblock_keeps

theorem unblockIf {o : Option TaskId} (ho : ∀ p, o = some p → p < s.fs.ntasks) : Base (s.unblockIf o) := by
  cases o with
  | none => exact h
  | some p => exact h.unblock (ho p rfl)

end

end Base

theorem Kernel.taskAddChild_procs (s : Kernel κ) (t p u : TaskId) :
    ((s.taskAddChild t p).procs u).parent = (if u = t then some p else (s.procs u).parent) ∧
      ((s.taskAddChild t p).procs u).children = (if u = p then t :: (s.procs u).children else (s.procs u).children) ∧
      ((s.taskAddChild t p).procs u).vforkParent = (s.procs u).vforkParent := by
  rw [taskAddChild, setProc_procs, setProc_procs]
  split_ifs <;> exact ⟨rfl, rfl, rfl⟩

theorem Kernel.taskRemoveChild_procs (s : Kernel κ) (t p u : TaskId) :
    ((s.taskRemoveChild t p).procs u).parent = (if u = t then none else (s.procs u).parent) ∧
      ((s.taskRemoveChild t p).procs u).children =
        (if u = p then (s.procs u).children.erase t else (s.procs u).children) ∧
      ((s.taskRemoveChild t p).procs u).vforkParent = (s.procs u).vforkParent := by
  rw [taskRemoveChild, setProc_procs, setProc_procs]
  split_ifs <;> exact ⟨rfl, rfl, rfl⟩

theorem Kernel.moveChildren_eq (s : Kernel κ) (p q : TaskId) : ∃ procs, s.moveChildren p q = { s with procs } := by
  have hloop : ∀ (l : List TaskId) (s : Kernel κ), ∃ procs,
      l.foldl (fun s t => s.taskAddChild t q) s = { s with procs } := by
    intro l
    induction l with
    | nil => exact fun s => ⟨s.procs, rfl⟩
    | cons t l ih => exact fun s => ih (s.taskAddChild t q)
  obtain ⟨procs, hprocs⟩ := hloop (s.procs p).children s
  rw [moveChildren, hprocs]
  exact ⟨_, rfl⟩

theorem Kernel.moveChildren_procs (s : Kernel κ) (p q u : TaskId) :
    ((s.moveChildren p q).procs u).parent = (if u ∈ (s.procs p).children then some q else (s.procs u).parent) ∧
      ((s.moveChildren p q).procs u).children = (if u = p then []
        else if u = q then (s.procs p).children.reverse ++ (s.procs u).children else (s.procs u).children) ∧
      ((s.moveChildren p q).procs u).vforkParent = (s.procs u).vforkParent := by
  have hloop : ∀ (l : List TaskId) (s : Kernel κ), let s' := l.foldl (fun s t => s.taskAddChild t q) s
      (s'.procs u).parent = (if u ∈ l then some q else (s.procs u).parent) ∧
      (s'.procs u).children = (if u = q then l.reverse ++ (s.procs u).children else (s.procs u).children) ∧
      (s'.procs u).vforkParent = (s.procs u).vforkParent := by
    intro l
    induction l with
    | nil => simp
    | cons t l ih =>
      intro s
      obtain ⟨h1, h2, h3⟩ := ih (s.taskAddChild t q)
      obtain ⟨k1, k2, k3⟩ := s.taskAddChild_procs t q u
      rw [k1] at h1
      rw [k2] at h2
      rw [k3] at h3
      refine ⟨h1.trans ?_, h2.trans ?_, h3⟩
      · by_cases hu : u = t <;> simp [hu]
      · split <;> simp
  obtain ⟨h1, h2, h3⟩ := hloop (s.procs p).children s
  rw [moveChildren, setProc_procs]
  split
  · exact ⟨h1, rfl, h3⟩
  · exact ⟨h1, h2, h3⟩

namespace Base

section

variable (h : Base s)
include h

theorem taskAddChild (ht : t ∈ s.sched.objs) (hn : (s.procs t).parent = none) (hp : p < s.fs.ntasks)
    (htp : t ≠ p) (hi : s.initTask ≠ some t) : Base (s.taskAddChild t p) := by
  -- the child is on no list yet
  have hfree : ∀ q, t ∉ (s.procs q).children := fun q hq => by cases hn.symm.trans (h.child q t hq)
  refine h.of_tree ⟨fun q u hu => ?_, fun q => ?_, fun u q hu => ?_, fun u q hu => ?_, fun i hi' => ?_,
    fun u hu => ?_, fun u => ?_⟩ rfl rfl
  · rw [(s.taskAddChild_procs t p u).1]
    rw [(s.taskAddChild_procs t p q).2.1] at hu
    split at hu
    · rename_i hq
      split
      · rw [hq]
      · rename_i hut
        exact h.child q u ((mem_cons.1 hu).resolve_left hut)
    · rw [if_neg (ne_of_mem_of_not_mem hu (hfree q))]
      exact h.child q u hu
  · rw [(s.taskAddChild_procs t p q).2.1]
    split
    · exact nodup_cons.2 ⟨hfree q, h.nodup q⟩
    · exact h.nodup q
  · rw [(s.taskAddChild_procs t p u).1] at hu
    split at hu
    · rename_i hut
      cases hu
      exact ⟨hut ▸ ht, hp⟩
    · exact h.parent u q hu
  · exact h.vforkParent u q ((s.taskAddChild_procs t p u).2.2 ▸ hu)
  · have hit : i ≠ t := by
      rintro rfl
      exact hi hi'
    rw [(s.taskAddChild_procs t p i).1, if_neg hit]
    exact h.initTask i hi'
  · exact h.first u (((Aside.taskAddChild s t p).isUser u).symm.trans hu)
  · rw [(s.taskAddChild_procs t p u).1]
    split
    · rename_i hut
      rw [hut]
      exact fun e => htp (Option.some.inj e).symm
    · exact h.self u

theorem taskRemoveChild (ht : (s.procs t).parent = some p) : Base (s.taskRemoveChild t p) := by
  refine h.of_tree ⟨fun q u hu => ?_, fun q => ?_, fun u q hu => ?_, fun u q hu => ?_, fun i hi => ?_,
    fun u hu => ?_, fun u => ?_⟩ rfl rfl
  · rw [(s.taskRemoveChild_procs t p u).1]
    rw [(s.taskRemoveChild_procs t p q).2.1] at hu
    split at hu
    · rw [if_neg]
      · exact h.child q u (mem_of_mem_erase hu)
      · rintro rfl
        exact (h.nodup q).not_mem_erase hu
    · rename_i hq
      have hut : u ≠ t := by
        rintro rfl
        exact hq (Option.some.inj ((h.child q u hu).symm.trans ht))
      rw [if_neg hut]
      exact h.child q u hu
  · rw [(s.taskRemoveChild_procs t p q).2.1]
    split
    · exact (h.nodup q).erase t
    · exact h.nodup q
  · rw [(s.taskRemoveChild_procs t p u).1] at hu
    split at hu
    · cases hu
    · exact h.parent u q hu
  · exact h.vforkParent u q ((s.taskRemoveChild_procs t p u).2.2 ▸ hu)
  · rw [(s.taskRemoveChild_procs t p i).1]
    refine ⟨(h.initTask i hi).1, ?_⟩
    split
    · rfl
    · exact (h.initTask i hi).2
  · exact h.first u (((Aside.taskRemoveChild s t p).isUser u).symm.trans hu)
  · rw [(s.taskRemoveChild_procs t p u).1]
    split
    · exact nofun
    · exact h.self u

theorem moveChildren (hq : q < s.fs.ntasks) (hroot : (s.procs q).parent = none) :
    Base (s.moveChildren p q) := by
  have haside := Aside.moveChildren s p q
  obtain ⟨procs, hprocs⟩ := s.moveChildren_eq p q
  have hu := s.moveChildren_procs p q
  rw [hprocs] at haside hu ⊢
  refine h.of_tree ⟨fun r u hur => ?_, fun r => ?_, fun u r hur => ?_, fun u r hur => ?_, fun i hi => ?_,
    fun u hur => ?_, fun u => ?_⟩ rfl rfl
  · rw [(hu u).1]
    rw [(hu r).2.1] at hur
    split_ifs at hur with hrp hrq
    · cases hur
    · split
      · rw [hrq]
      · rename_i hup
        exact h.child r u ((mem_append.1 hur).resolve_left fun hm => hup (mem_reverse.1 hm))
    · rw [if_neg fun hm => hrp (Option.some.inj ((h.child r u hur).symm.trans (h.child p u hm)))]
      exact h.child r u hur
  · rw [(hu r).2.1]
    split_ifs with hrp hrq
    · exact nodup_nil
    · refine (nodup_reverse.2 (h.nodup p)).append (h.nodup r) fun u hm hm' => hrp ?_
      exact Option.some.inj ((h.child r u hm').symm.trans (h.child p u (mem_reverse.1 hm)))
    · exact h.nodup r
  · rw [(hu u).1] at hur
    split at hur
    · rename_i hm
      cases hur
      exact ⟨(h.parent u p (h.child p u hm)).1, hq⟩
    · exact h.parent u r hur
  · exact h.vforkParent u r ((hu u).2.2 ▸ hur)
  · obtain ⟨hlt, hnone⟩ := h.initTask i hi
    refine ⟨hlt, ?_⟩
    rw [(hu i).1, if_neg fun hm => by cases hnone.symm.trans (h.child p i hm)]
    exact hnone
  · exact h.first u ((haside.isUser u).symm.trans hur)
  · rw [(hu u).1]
    split
    · rename_i hm
      intro hqu
      cases hqu
      cases hroot.symm.trans (h.child p q hm)
    · exact h.self u

variable [DecidableEq κ]

theorem taskReparentChildren (hq : q < s.fs.ntasks) (hroot : (s.procs q).parent = none) :
    Base (s.taskReparentChildren p q) := by
  rw [Kernel.taskReparentChildren]
  split
  · exact h
  have hmove := h.moveChildren (p := p) hq hroot
  dsimp only
  split
  · refine hmove.unblock ?_
    rw [(Aside.moveChildren s p q).fs]
    exact hq
  · exact hmove

theorem orphan : Base (s.orphan t) := by
  rw [Kernel.orphan]
  split
  · rename_i i hi
    split
    · exact h
    · exact h.taskReparentChildren (h.initTask i hi).1 (h.initTask i hi).2
  · exact h

theorem orphan_parent : ((s.orphan t).procs t).parent = (s.procs t).parent := by
  have hmove : ∀ q, ((s.moveChildren t q).procs t).parent = (s.procs t).parent := fun q => by
    rw [(s.moveChildren_procs t q t).1, if_neg fun hm => h.self t (h.child t t hm)]
  rw [Kernel.orphan]
  split
  · split
    · rfl
    · rw [Kernel.taskReparentChildren]
      split
      · rfl
      · dsimp only
        split <;> exact hmove _
  · rfl

end

end Base

end ExoOS.Proc
