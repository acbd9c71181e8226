import ExoOS.Mm.Protect

/-!
# Isolation after `fork`

A parent whose pages are private forks a child; then both read, write and call `mprotect`. What a process
reads is what it last wrote itself, or else the value at the time of the fork, as long as no `mprotect` with
`PROT_WRITE` covers a page that is still shared (`Careful`): `sys_mprotect` writes the permissions it was
asked for into the entry and drops the copy-on-write mark, so that the next write goes to the shared page.
-/

namespace ExoOS.Mm

open Finset Function Option Transition Memory

section Family

variable {ι : Type} [DecidableEq ι] {s s' : Memory ι} {i j : ι} {a : Nat}

theorem store_spec [Fintype ι] {b : Byte} (s' : Memory ι) (h : Isolated s) (ha : a < USER_SPACE_END)
    (hp : (s.uview i (loc a)).Permits true) (hd : s'.data = update s.data (s.uview i (loc a)).pfn
      (update (s.data (s.uview i (loc a)).pfn) (a % PAGE_SIZE) b))
    (hprocs : s'.procs = s.procs) (hpmm : s'.pmm = s.pmm) (hcache : s'.cache = s.cache)
    (hcontent : s'.content = s.content) :
    Isolated s' ∧ ∀ j c, c < USER_SPACE_END → s'.value j c = if j = i ∧ c = a then some b else s.value j c := by
  have hu : ∀ j, s'.uview j = s.uview j := fun j => by unfold uview; rw [hprocs]
  have hm : ∀ p, s'.mapRefs p = s.mapRefs p := fun p => by unfold mapRefs; rw [hprocs]
  have hsolo := h.solo i (loc a) hp.1 (hp.2.2 rfl)
  have hfile : ∀ vn offset, s'.filePage vn offset = s.filePage vn offset := by
    refine filePage_congr (fun e he => ?_) hcontent (by rw [hcache]; exact .refl _)
    rw [hd, update_of_ne]
    rintro hx
    rw [← hx, (h.cached e he).2.2.1] at hsolo
    cases hsolo
  refine ⟨⟨fun p hp => ?_, fun j l h1 h2 => ?_, fun e he => ?_, fun j => ?_⟩, fun j c hc => ?_⟩
  · rw [hm] at hp ⊢; rw [hpmm]; exact h.mapped p hp
  · rw [hu] at *; rw [hm]; exact h.solo j l h1 h2
  · rw [hcache] at he; rw [hpmm, hm]; exact h.cached e he
  · rw [hprocs]; exact h.areas j
  unfold value demandPageOf
  simp only [hu, hprocs, hfile]
  by_cases hpc : (s.uview j (loc c)).present
  · rw [if_pos hpc, if_pos hpc, hd]
    by_cases hpfn : (s.uview j (loc c)).pfn = (s.uview i (loc a)).pfn
    · -- it is the same entry, so the same page of the same process
      obtain ⟨rfl, hl⟩ := solo_unique hp.1 hsolo hpc hpfn
      have hdiv := loc_inj hc ha hl
      rw [hpfn, update_self]
      by_cases hca : c = a
      · rw [if_pos ⟨rfl, hca⟩, hca, update_self]
      · rw [if_neg (fun hx => hca hx.2), update_of_ne]
        unfold PAGE_SIZE at *
        omega
    · rw [update_of_ne hpfn, if_neg]
      rintro ⟨rfl, rfl⟩
      exact hpfn rfl
  · rw [if_neg hpc, if_neg hpc, if_neg]
    rintro ⟨rfl, rfl⟩
    exact hpc hp.1

theorem userWrite_spec [Fintype ι] {env : FaultEnv} {b : Byte} (h : Isolated s) (ha : a < USER_SPACE_END)
    (hw : userWrite env s i a b = some s') :
    Undisturbed s s' ∨ Isolated s' ∧
      (∀ j c, c < USER_SPACE_END → s'.value j c = if j = i ∧ c = a then some b else s.value j c) ∧
      ∀ j c, s'.wrote j c = if j = i ∧ c = a then some b else s.wrote j c := by
  obtain ⟨⟨r, s1⟩, hacc, rfl⟩ := map_eq_some_iff.1 hw
  obtain ⟨hu, hr⟩ := access_spec h ha hacc
  rcases r with _ | p
  · exact .inl hu
  obtain ⟨rfl, hperm⟩ := hr p rfl
  refine .inr ?_
  obtain ⟨hi, hv⟩ := store_spec { s1 with
      data := update s1.data (s1.uview i (loc a)).pfn (update (s1.data (s1.uview i (loc a)).pfn) (a % PAGE_SIZE) b)
      wrote := update s1.wrote i (update (s1.wrote i) a (some b)) }
    hu.isolated ha hperm rfl rfl rfl rfl rfl
  refine ⟨hi, fun j c hc => by rw [hv j c hc, hu.value j c hc], fun j c => ?_⟩
  by_cases hj : j = i
  · subst hj
    by_cases hc : c = a
    · subst hc; simp
    · simp [hc, hu.wrote]
  · simp [hj, hu.wrote]

theorem sysFork_cases {nv : Nat} (h : sysFork s i j nv = some s') :
    ∃ m m' cr3 src dst, s.pmm.allocPages 1 = some (cr3, m) ∧ cloneHalf m (s.procs i).user = some (src, dst, m') ∧
      s' = { s with
        pmm := m'
        procs := update (update s.procs i { s.procs i with user := src }) j
          { cr3 := cr3, user := dst, vmas := vmaListClone (s.procs i).vmas nv
            mmapNext := (s.procs i).mmapNext } } := by
  simp only [sysFork, bind_eq_bind, bind_eq_some_iff, Option.pure_def, some.injEq, Prod.exists] at h
  obtain ⟨cr3, m, h1, src, dst, m', h2, rfl⟩ := h
  refine ⟨m, m', cr3, src, dst, h1, h2, ?_⟩
  simp [setProc]

theorem vmaFind_take {vs : List Vma} {n : Nat} {v : Vma} (h : vmaFindForAddr (vs.take n) a = some v) :
    vmaFindForAddr vs a = some v := by
  unfold vmaFindForAddr at *
  rw [← List.take_append_drop n vs, List.find?_append, h]
  rfl

/-- What a clone leaves in both halves: the same pages, none of them writable. -/
structure Cloned (h h' : Half) : Prop where
  present : ∀ l, (view h' l).present = (view h l).present
  pfn : ∀ l, (view h l).present → (view h' l).pfn = (view h l).pfn
  write : ∀ l, (view h l).present → (view h' l).write = false

theorem Cloned.of_afterClone {h h' : Half} (hv : ∀ l, view h' l = (view h l).afterClone) : Cloned h h' := by
  refine ⟨fun l => ?_, fun l hp => ?_, fun l hp => ?_⟩
  · rw [hv, Pte.afterClone]; split <;> rfl
  · rw [hv, Pte.afterClone, if_pos hp]; rfl
  · rw [hv, Pte.afterClone, if_pos hp]; rfl

theorem Cloned.of_cloned {h h' : Half} (hv : ∀ l, view h' l = (view h l).cloned) : Cloned h h' := by
  refine ⟨fun l => ?_, fun l hp => ?_, fun l hp => ?_⟩
  · rw [hv, Pte.cloned]
    split
    · rfl
    · rename_i hp; exact (Bool.not_eq_true _ ▸ hp).symm
  · rw [hv, Pte.cloned, if_pos hp]; rfl
  · rw [hv, Pte.cloned, if_pos hp]; rfl

structure Forked (s : Memory ι) (i j : ι) (nv : Nat) (s' : Memory ι) : Prop where
  self : Cloned (s.procs i).user (s'.procs i).user
  child : Cloned (s.procs i).user (s'.procs j).user
  other : ∀ k, k ≠ i → k ≠ j → s'.procs k = s.procs k
  vmas : (s'.procs i).vmas = (s.procs i).vmas
  childVmas : (s'.procs j).vmas = (s.procs i).vmas.take nv
  next : (s'.procs i).mmapNext = (s.procs i).mmapNext
  childNext : (s'.procs j).mmapNext = (s.procs i).mmapNext
  pmm : RefsAdd (halfRefs (s.procs i).user) s.pmm s'.pmm
  data : s'.data = s.data
  cache : s'.cache = s.cache
  content : s'.content = s.content
  wrote : s'.wrote = s.wrote

theorem sysFork_forked {nv : Nat} (hij : i ≠ j) (h : sysFork s i j nv = some s') : Forked s i j nv s' := by
  obtain ⟨m, m', cr3, src, dst, h1, h2, rfl⟩ := sysFork_cases h
  obtain ⟨hs, hd, hr⟩ := cloneHalf_spec h2
  refine ⟨?_, ?_, fun k hi hj => ?_, ?_, ?_, ?_, ?_, ?_, rfl, rfl, rfl, rfl⟩
  · simp only [update_of_ne hij, update_self]
    exact .of_afterClone hs
  · simp only [update_self]
    exact .of_cloned hd
  · simp only [update_of_ne hi, update_of_ne hj]
  · simp only [update_of_ne hij, update_self]
  · simp only [update_self]
    rfl
  · simp only [update_of_ne hij, update_self]
  · simp only [update_self]
  · exact ((RefsAdd.fresh h1).trans hr).congr fun p => Nat.zero_add _

namespace Forked

variable [Fintype ι] {nv : Nat}

theorem mapRefs (h : Forked s i j nv s') (hij : i ≠ j) (hj : ∀ l, ¬ (s.uview j l).present) (p : Nat) :
    s'.mapRefs p = s.mapRefs p + halfRefs (s.procs i).user p := by
  have hi := halfRefs_congr (fun l => ⟨h.self.present l, h.self.pfn l⟩) p
  have hc := halfRefs_congr (fun l => ⟨h.child.present l, h.child.pfn l⟩) p
  have h0 : halfRefs (s.procs j).user p = 0 := by
    by_contra hx
    obtain ⟨l, hl, -⟩ := halfRefs_exists (Nat.pos_of_ne_zero hx)
    exact hj l hl
  have hprocs : s'.procs = update (update s.procs i (s'.procs i)) j (s'.procs j) := by
    funext k
    by_cases hkj : k = j
    · subst hkj; simp
    by_cases hki : k = i
    · subst hki; simp [hkj]
    · simp [hkj, hki, h.other k hki hkj]
  have e1 := Table.sum_univ_update (fun t : Proc => halfRefs t.user p) s.procs i (s'.procs i)
  have e2 := Table.sum_univ_update (fun t : Proc => halfRefs t.user p) (update s.procs i (s'.procs i)) j (s'.procs j)
  rw [update_of_ne hij.symm, ← hprocs] at e2
  unfold Memory.mapRefs
  omega

omit [DecidableEq ι] in
theorem mapRefs_ge (s : Memory ι) (i : ι) (p : Nat) : halfRefs (s.procs i).user p ≤ s.mapRefs p :=
  Table.le_sum_univ (fun t : Proc => halfRefs t.user p) s.procs i

theorem isolated (h : Isolated s) (hf : Forked s i j nv s') (hij : i ≠ j) (hj : ∀ l, ¬ (s.uview j l).present)
    (hlt : ∀ p, 0 < s.mapRefs p → s.pmm.pageRefs p + halfRefs (s.procs i).user p < 2 ^ 32) : Isolated s' := by
  have hm := hf.mapRefs hij hj
  refine ⟨fun p hp => ?_, fun k l hp hw => ?_, fun e he => ?_, fun k => ?_⟩
  · have hpos : 0 < s.mapRefs p := by
      have := mapRefs_ge s i p
      rw [hm] at hp
      omega
    obtain ⟨h1, h2, h3⟩ := h.mapped p hpos
    refine ⟨hf.pmm.pages ▸ h1, hf.pmm.used p h2, ?_⟩
    rw [hf.pmm.refs p h1 h2 (hlt p hpos), hm, h3]
  · by_cases hki : k = i
    · subst hki
      have hp' : (s.uview k l).present := (hf.self.present l).symm.trans hp
      rw [show (s'.uview k l).write = false from hf.self.write l hp'] at hw
      cases hw
    by_cases hkj : k = j
    · subst hkj
      have hp' : (s.uview i l).present := (hf.child.present l).symm.trans hp
      rw [show (s'.uview k l).write = false from hf.child.write l hp'] at hw
      cases hw
    have hu : s'.uview k = s.uview k := by unfold uview; rw [hf.other k hki hkj]
    rw [hu] at hp hw ⊢
    have hs := h.solo k l hp hw
    have h0 : halfRefs (s.procs i).user (s.uview k l).pfn = 0 := by
      by_contra hx
      obtain ⟨l', hp', he⟩ := halfRefs_exists (Nat.pos_of_ne_zero hx)
      exact hki (solo_unique hp hs hp' he).1.symm
    rw [hm, hs, h0]
  · rw [hf.cache] at he
    obtain ⟨h1, h2, h3, h4, h5⟩ := h.cached e he
    have h0 : halfRefs (s.procs i).user e.physPage = 0 := by
      have := mapRefs_ge s i e.physPage
      omega
    have hr := hf.pmm.refs e.physPage h1 h2 (by omega)
    rw [h0] at hr
    exact ⟨hf.pmm.pages ▸ h1, hf.pmm.used _ h2, by rw [hm, h3, h0], by rw [hr]; exact ⟨h4, h5⟩⟩
  · by_cases hkj : k = j
    · subst hkj
      rw [hf.childVmas]
      exact fun v hv => h.areas i v (List.mem_of_mem_take hv)
    by_cases hki : k = i
    · subst hki; rw [hf.vmas]; exact h.areas k
    · rw [hf.other k hki hkj]; exact h.areas k

omit [DecidableEq ι] [Fintype ι] in
theorem demandPageOf (hf : Forked s i j nv s') (v : Vma) (page : Nat) :
    s'.demandPageOf v page = s.demandPageOf v page := by
  unfold Memory.demandPageOf Memory.filePage
  rw [hf.cache, hf.data, hf.content]

omit [DecidableEq ι] [Fintype ι] in
theorem value_self (hf : Forked s i j nv s') (a : Nat) : s'.value i a = s.value i a := by
  unfold value uview
  rw [hf.self.present, hf.vmas, hf.data]
  simp only [hf.demandPageOf]
  split
  · rename_i hp; rw [hf.self.pfn _ hp]
  · rfl

omit [DecidableEq ι] [Fintype ι] in
theorem value_child (hf : Forked s i j nv s') (a : Nat) : s'.value j a = none ∨ s'.value j a = s.value i a := by
  unfold value uview
  rw [hf.child.present, hf.childVmas, hf.data]
  simp only [hf.demandPageOf]
  split
  · rename_i hp
    rw [hf.child.pfn _ hp]
    exact .inr rfl
  · rcases hv : vmaFindForAddr ((s.procs i).vmas.take nv) a with _ | v
    · exact .inl rfl
    · rw [vmaFind_take hv]
      exact .inr rfl

end Forked

end Family

/-! ### Parent and child -/

inductive Who
  | parent
  | child
  deriving DecidableEq

instance : Fintype Who := ⟨{.parent, .child}, by rintro (_ | _) <;> decide⟩

abbrev UserAddr := { a : Nat // a < USER_SPACE_END }

/-- What the two processes do; a read or write comes with what can go wrong in the page cache, a call of
`mprotect` with the outcomes of its allocations. -/
inductive Event
  | read (env : FaultEnv) (i : Who) (a : UserAddr)
  | write (env : FaultEnv) (i : Who) (a : UserAddr) (b : Byte)
  | mprotect (mem : Nat → Bool) (i : Who) (addr len : Nat) (prot : Prot)

def step (s : Memory Who) : Event → Option (Memory Who)
  | .read env i a => (userRead env s i a).map Prod.snd
  | .write env i a b => userWrite env s i a b
  | .mprotect mem i addr len prot => some (sysMprotect mem s i addr len prot).2

/-- No `mprotect` makes a shared page writable. -/
def Careful (s : Memory Who) : Event → Prop
  | .mprotect _ i addr len prot => ProtectsOwn s i addr len prot
  | _ => True

/-- A process whose pages are private, before the clone: each is mapped by one entry and has one reference. -/
structure Start (s : Memory Who) : Prop where
  pages : ∀ l, (s.uview .parent l).present → s.mapRefs (s.uview .parent l).pfn = 1 ∧
    (s.uview .parent l).pfn < s.pmm.bitmapPages ∧ s.pmm.bitmap (s.uview .parent l).pfn = true ∧
    s.pmm.pageRefs (s.uview .parent l).pfn = 1
  areas : ∀ v ∈ (s.procs .parent).vmas, v.Private
  child : (∀ l, ¬ (s.uview .child l).present) ∧ (s.procs .child).vmas = []
  cached : CacheOk s
  unwritten : ∀ i a, s.wrote i a = none

section Run

variable {s0 s1 s s' : Memory Who} {nv : Nat} {es : List Event}

theorem Start.mapped (h : Start s) {p : Nat} (hp : 0 < s.mapRefs p) :
    p < s.pmm.bitmapPages ∧ s.pmm.bitmap p ∧ s.pmm.pageRefs p = 1 ∧ s.mapRefs p = 1 := by
  obtain ⟨i, -, hi⟩ := exists_ne_zero_of_sum_ne_zero (Nat.pos_iff_ne_zero.1 hp)
  obtain ⟨l, hl, rfl⟩ := halfRefs_exists (Nat.pos_of_ne_zero hi)
  rcases i with _ | _
  · obtain ⟨h1, h2, h3, h4⟩ := h.pages l hl
    exact ⟨h2, h3, h4, h1⟩
  · exact absurd hl (h.child.1 l)

theorem Start.isolated (h : Start s) : Isolated s := by
  refine ⟨fun p hp => ?_, fun i l hp _ => (h.mapped (mapRefs_pos hp)).2.2.2, h.cached, fun i => ?_⟩
  · obtain ⟨h1, h2, h3, h4⟩ := h.mapped hp
    exact ⟨h1, h2, h3.trans h4.symm⟩
  · rcases i with _ | _
    · exact h.areas
    · rw [h.child.2]; rintro v ⟨⟩

structure Separate (s0 s : Memory Who) : Prop where
  isolated : Isolated s
  value : ∀ i a, a < USER_SPACE_END →
    s.value i a = none ∨ s.value i a = (s.wrote i a).or (s0.value .parent a)

theorem Separate.of_fork (h : Start s0) (hf : sysFork s0 .parent .child nv = some s1) : Separate s0 s1 := by
  have hF := sysFork_forked (by decide) hf
  refine ⟨hF.isolated h.isolated (by decide) h.child.1 fun p hp => ?_, fun i a _ => ?_⟩
  · obtain ⟨-, -, h1, h2⟩ := h.mapped hp
    have := Forked.mapRefs_ge s0 .parent p
    omega
  · rw [hF.wrote, h.unwritten]
    rcases i with _ | _
    · exact .inr (hF.value_self a)
    · exact hF.value_child a

theorem Separate.undisturbed (h : Separate s0 s) (hu : Undisturbed s s') : Separate s0 s' := by
  refine ⟨hu.isolated, fun i a ha => ?_⟩
  rw [hu.value i a ha, hu.wrote]
  exact h.value i a ha

theorem Separate.step {e : Event} (h : Separate s0 s) (hc : Careful s e) (hs : step s e = some s') :
    Separate s0 s' := by
  rcases e with ⟨env, i, a⟩ | ⟨env, i, a, b⟩ | ⟨mem, i, addr, len, prot⟩
  · obtain ⟨⟨r, s1⟩, hr, rfl⟩ := map_eq_some_iff.1 hs
    obtain ⟨⟨q, s2⟩, hacc, he⟩ := map_eq_some_iff.1 hr
    cases he
    exact h.undisturbed (access_spec h.isolated a.2 hacc).1
  · rcases userWrite_spec h.isolated a.2 hs with hu | ⟨hi, hv, hw⟩
    · exact h.undisturbed hu
    · refine ⟨hi, fun j c hcu => ?_⟩
      rw [hv j c hcu, hw j c]
      split
      · exact .inr rfl
      · exact h.value j c hcu
  · cases hs
    exact h.undisturbed (sysMprotect_spec h.isolated hc rfl)

theorem fork_isolation (h0 : Start s0) (hf : sysFork s0 .parent .child nv = some s1)
    (hrun : Run step Careful s1 es s) {env : FaultEnv} {i : Who} {a : UserAddr} {b : Byte}
    (hr : userRead env s i a = some (some b, s')) : some b = (s.wrote i a).or (s0.value .parent a) := by
  have hsep : Separate s0 s := hrun.inv (fun _ _ _ h hc hs => h.step hc hs) (.of_fork h0 hf)
  obtain ⟨⟨r, s2⟩, hacc, he⟩ := map_eq_some_iff.1 hr
  simp only [Prod.mk.injEq, map_eq_some_iff] at he
  obtain ⟨⟨p, rfl, rfl⟩, rfl⟩ := he
  obtain ⟨hu, hp⟩ := access_spec hsep.isolated a.2 hacc
  obtain ⟨rfl, hperm⟩ := hp p rfl
  have hv := (hsep.undisturbed hu).value i a a.2
  rw [value, if_pos hperm.1, hu.wrote] at hv
  exact hv.resolve_left (by simp)

end Run

def onePage (l : Loc) (e : Pte) : Half :=
  let pt : Pt := { pfn := 4, ent := Function.update (fun _ => .zero) l.2.2.2 e }
  let pd : Pd := { pfn := 3, ent := Function.update (fun _ => none) l.2.2.1 (some pt) }
  let pdpt : Pdpt := { pfn := 2, ent := Function.update (fun _ => none) l.2.1 (some pd) }
  Function.update (fun _ => none) l.1 (some pdpt)

theorem view_onePage (l : Loc) (e : Pte) : view (onePage l e) = update (fun _ => .zero) l e := by
  refine optView_update (optView_update (optView_update ?_))
  rfl

theorem halfRefs_onePage (l : Loc) (e : Pte) (p : Nat) : halfRefs (onePage l e) p = e.refs p := by
  have h := halfRefs_update (h := fun _ => none) (view_onePage l e) p
  have h0 : (view (fun _ => none) l).refs p = 0 := rfl
  have h1 := halfRefs_empty p
  omega

def start : Memory Who where
  procs
    | .parent =>
      { cr3 := 1, vmas := [], mmapNext := USER_MMAP_BASE
        user := onePage (loc USER_SPACE_START) ⟨5, true, true, true, true, false⟩ }
    | .child => { cr3 := 0, user := fun _ => none, vmas := [], mmapNext := USER_MMAP_BASE }
  kern := fun _ => none
  pmm :=
    { bitmapPages := 12, bitmap := fun p => decide (p < 6), pageRefs := fun p => if p < 6 then 1 else 0
      freePages := 6 }
  data := fun p => if p = 5 then fun _ => 7 else fun _ => 0
  cache := []
  content := fun _ _ _ => 0
  wrote := fun _ _ => none

theorem sum_who (f : Who → Nat) : ∑ i, f i = f .parent + f .child := sum_pair (by decide)

theorem mapRefs_onePage {s : Memory Who} {l : Loc} {e : Pte} (hp : (s.procs .parent).user = onePage l e)
    (hc : (s.procs .child).user = fun _ => none) (p : Nat) : s.mapRefs p = e.refs p := by
  have h : s.mapRefs p = halfRefs (s.procs .parent).user p + halfRefs (s.procs .child).user p :=
    sum_who fun i => halfRefs (s.procs i).user p
  rw [h, hp, hc, halfRefs_onePage, halfRefs_empty, Nat.add_zero]

theorem start_ok : Start start := by
  have hv : start.uview .parent = update (fun _ => .zero) (loc USER_SPACE_START)
      ⟨5, true, true, true, true, false⟩ := view_onePage _ _
  have hm := mapRefs_onePage (s := start) rfl rfl
  refine ⟨fun l hl => ?_, nofun, ⟨fun _ => nofun, rfl⟩, nofun, fun _ _ => rfl⟩
  rw [hv] at hl ⊢
  by_cases hx : l = loc USER_SPACE_START
  · rw [hx]
    exact ⟨hm _, by decide, by decide, by decide⟩
  · rw [update_of_ne hx] at hl
    cases hl

def userStart : UserAddr := ⟨USER_SPACE_START, by decide⟩

def parentReads (es : List Event) : Option (Byte × Option Byte) :=
  (sysFork start .parent .child 0).bind fun s1 => (exec step s1 es).bind fun s =>
    (userRead ⟨true, true⟩ s .parent userStart).bind fun r =>
      r.1.map fun b => (b, s.wrote .parent userStart)

theorem parentReads_run {es : List Event} {b : Byte} {w : Option Byte} (h : parentReads es = some (b, w)) :
    ∃ s1 s s', sysFork start .parent .child 0 = some s1 ∧ Run step Any s1 es s ∧
      userRead ⟨true, true⟩ s .parent userStart = some (some b, s') ∧ s.wrote .parent userStart = w := by
  obtain ⟨s1, hf, h⟩ := bind_eq_some_iff.1 h
  obtain ⟨s, hx, h⟩ := bind_eq_some_iff.1 h
  obtain ⟨⟨o, s'⟩, hr, h⟩ := bind_eq_some_iff.1 h
  obtain ⟨b', rfl, hb⟩ := map_eq_some_iff.1 h
  obtain ⟨rfl, hw⟩ := Prod.mk.inj hb
  exact ⟨s1, s, s', hf, exec_iff.1 hx, hr, hw⟩

/-- The child writes; the parent still reads its seven. -/
theorem fork_isolation_write : ∃ s1 s s', sysFork start .parent .child 0 = some s1 ∧
    Run step Careful s1 [.write ⟨true, true⟩ .child userStart 9] s ∧
    userRead ⟨true, true⟩ s .parent userStart = some (some 7, s') ∧
    some 7 = (s.wrote .parent userStart).or (start.value .parent userStart) := by
  have hreads : parentReads [.write ⟨true, true⟩ .child userStart 9] = some (7, none) := by decide +kernel
  obtain ⟨s1, s, s', hf, hrun, hr, -⟩ := parentReads_run hreads
  have hrun' : Run step Careful s1 [.write ⟨true, true⟩ .child userStart 9] s := by
    obtain _ | ⟨-, hs, hrun⟩ := hrun
    obtain _ | _ := hrun
    exact .cons trivial hs (.nil _)
  exact ⟨s1, s, s', hf, hrun', hr, fork_isolation start_ok hf hrun' hr⟩

/-- The child asks for write permission on the shared page and writes; the parent reads the child's byte. -/
theorem fork_isolation_violated : ∃ s1 s s' es, Start start ∧ sysFork start .parent .child 0 = some s1 ∧
    Run step Any s1 es s ∧ userRead ⟨true, true⟩ s .parent userStart = some (some 9, s') ∧
    some 9 ≠ (s.wrote .parent userStart).or (start.value .parent userStart) := by
  have hreads : parentReads [.mprotect (fun _ => true) .child USER_SPACE_START PAGE_SIZE
      ⟨true, true, false, false⟩, .write ⟨true, true⟩ .child userStart 9] = some (9, none) := by decide +kernel
  obtain ⟨s1, s, s', hf, hrun, hr, hw⟩ := parentReads_run hreads
  refine ⟨s1, s, s', _, start_ok, hf, hrun, hr, ?_⟩
  rw [hw]
  decide

end ExoOS.Mm
