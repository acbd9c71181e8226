import ExoOS.Mm.SpaceCalls
import ExoOS.Mm.ForkIsolation

/-!
# Page counts and free pages over whole runs

Address spaces are made, cloned, changed and destroyed, by any set of processes. As long as nothing is mapped
over a page that is there already, addresses lie in user space and no count overflows (`Sound`), the count of
every page that is not a page table is the number of entries that map it, plus one if the page cache has it, and
the pages of an address space come back when it is destroyed (`page_accounting`). `sys_mmap` does not look
whether the range it takes from `mmap_next` is mapped: pages that were there are lost (`page_lost`).
-/

namespace ExoOS.Mm

open Finset Function Option Transition

section Spaces

variable {ι : Type} [Fintype ι] [DecidableEq ι] {s s' s0 : Memory ι} {i j : ι} {B : Others}

/-- The page counts are what is held, and who has no address space holds nothing. -/
structure Accounted (B : Others) (s : Memory ι) : Prop where
  balanced : Balanced B s 0
  dead : ∀ i, ¬ s.Live i → (s.procs i).refs = 0

def SpaceEvent.target : SpaceEvent ι → ι
  | .create i => i
  | .clone _ j _ => j
  | .mmap _ i _ _ _ _ _ _ => i
  | .munmap _ i _ _ => i
  | .fault _ i _ _ => i
  | .execve _ i _ _ => i
  | .destroy i => i

/-- Addresses are in user space, nothing is mapped over a page that is there, and counts do not overflow. -/
def Sound (s : Memory ι) : SpaceEvent ι → Prop
  | .clone _ _ _ => ∀ p, s.pmm.pageRefs p < 2 ^ 31
  | .mmap _ i addr len _ fl b _ => MmapOk s i addr len fl b
  | .munmap _ _ addr len => UserPages addr (pageAlignUp len / PAGE_SIZE)
  | .fault _ _ a _ => a < USER_SPACE_END ∧ ∀ p, s.pmm.pageRefs p < 2 ^ 31
  | .execve _ _ exe interp => exe.Ok ∧ ∀ img, interp = some (some img) → img.Ok
  | _ => True

/-- What a step does to the others: they hold what they held, and no page of theirs gets into the cache. -/
structure Apart (t : ι) (s s' : Memory ι) : Prop where
  refs : ∀ j, j ≠ t → (s'.procs j).refs = (s.procs j).refs
  live : ∀ j, j ≠ t → (s'.Live j ↔ s.Live j)
  grows : s.cachePages <:+ s'.cachePages
  fresh : ∀ p ∈ s'.cachePages, p ∈ s.cachePages ∨ ∀ j, j ≠ t → (s.procs j).refs p = 0

theorem Works.accounted (h : Works i s s' 0 0) (hl : s.Live i) (ha : Accounted B s) :
    Accounted B s' ∧ Apart i s s' := by
  obtain ⟨h1, h2⟩ := h.balanced B 0 ha.balanced
  refine ⟨⟨h1, fun j hj => ?_⟩, fun j hj => by rw [h.other j hj], fun j hj => ?_, h.grows, h2⟩
  · by_cases hji : j = i
    · subst hji; exact absurd (h.live hl) hj
    · unfold Memory.Live at hj
      rw [h.other j hji] at hj ⊢
      exact ha.dead j hj
  · unfold Memory.Live
    rw [h.other j hj]

theorem create_accounted (h : vmmCreateAddressSpace s i = some s') (hl : ¬ s.Live i) (ha : Accounted B s) :
    Accounted B s' ∧ Apart i s s' := by
  have hw := create_works h
  rw [ha.dead i hl] at hw
  obtain ⟨h1, h2⟩ := hw.balanced B 0 ha.balanced
  refine ⟨⟨h1, fun j hj => ?_⟩, fun j hj => by rw [hw.other j hj], fun j hj => ?_, hw.grows, h2⟩
  · by_cases hji : j = i
    · subst hji
      obtain ⟨⟨c, m⟩, hc, rfl⟩ := map_eq_some_iff.1 h
      have := Pmm.allocPages_one_pos hc
      simp only [Memory.Live, Memory.setProc, update_self] at hj
      omega
    · unfold Memory.Live at hj
      rw [hw.other j hji] at hj ⊢
      exact ha.dead j hj
  · unfold Memory.Live
    rw [hw.other j hj]

theorem destroy_accounted (hl : s.Live i) (ha : Accounted B s) :
    Accounted B (vmmDestroyAddressSpace s i) ∧ Apart i s (vmmDestroyAddressSpace s i) := by
  have hi : (vmmDestroyAddressSpace s i).procs i = { s.procs i with cr3 := 0, user := fun _ => none } :=
    update_self ..
  have hother : ∀ j, j ≠ i → (vmmDestroyAddressSpace s i).procs j = s.procs j := fun j hj => update_of_ne hj _ _
  refine ⟨⟨⟨?_, ha.balanced.nodup⟩, fun j hj => ?_⟩, fun j hj => by rw [hother j hj], fun j hj => ?_,
    List.suffix_refl _, fun p hp => .inl hp⟩
  · refine destroySpace_ledger (fun h0 => absurd h0 hl) ?_
    convert ha.balanced.ledger using 1
    funext p
    have := refs_change fun j hj => congrArg (Proc.refs · p) (hother j hj)
    rw [hi, Proc.refs_none, show (vmmDestroyAddressSpace s i).cachePages = s.cachePages from rfl] at this
    simp only [Pi.add_apply, Pi.zero_apply] at *
    omega
  · by_cases hji : j = i
    · subst hji; rw [hi]; exact Proc.refs_none _
    · unfold Memory.Live at hj
      rw [hother j hji] at hj ⊢
      exact ha.dead j hj
  · unfold Memory.Live
    rw [hother j hj]

omit [DecidableEq ι] in
theorem halfRefs_le_refs (i : ι) (s : Memory ι) (p : Nat) : halfRefs (s.procs i).user p ≤ s.refs p := by
  have h1 := Table.le_sum_univ (fun P : Proc => P.refs p) s.procs i
  have h2 : halfRefs (s.procs i).user p ≤ (s.procs i).refs p := by
    unfold Proc.refs
    rw [treeRefs_eq, Pi.add_apply]
    omega
  unfold Memory.refs
  omega

omit [Fintype ι] in
theorem sysFork_procs {nv : Nat} (hij : i ≠ j) (h : sysFork s i j nv = some s') :
    ∃ m c src dst, s.pmm.allocPages 1 = some (c, m) ∧ cloneHalf m (s.procs i).user = some (src, dst, s'.pmm) ∧
      s'.procs i = { s.procs i with user := src } ∧ (s'.procs j).cr3 = c ∧ (s'.procs j).user = dst ∧
      (∀ k, k ≠ i → k ≠ j → s'.procs k = s.procs k) ∧ s'.cachePages = s.cachePages := by
  obtain ⟨m, m', c, src, dst, hc, hcl, rfl⟩ := sysFork_cases h
  refine ⟨m, c, src, dst, hc, hcl, ?_, ?_, ?_, fun k hi hj => ?_, rfl⟩
  · exact (update_of_ne hij _ _).trans (update_self ..)
  · dsimp only; rw [update_self]
  · dsimp only; rw [update_self]
  · exact (update_of_ne hj _ _).trans (update_of_ne hi _ _)

theorem clone_accounted {nv : Nat} (h : sysFork s i j nv = some s') (hi : s.Live i) (hj : ¬ s.Live j)
    (hlt : ∀ p < s.pmm.bitmapPages, s.pmm.pageRefs p < 2 ^ 31) (ha : Accounted B s) :
    Accounted B s' ∧ Apart j s s' := by
  obtain ⟨m, c, src, dst, hc, hcl, hpi, hcr3, huser, hother, hcache⟩ := sysFork_procs (by rintro rfl; exact hj hi) h
  obtain ⟨hsrc, hled⟩ := cloneHalf_pages (B := B) (R := s.refs + one c) hcl
  have hL := ha.balanced.ledger
  rw [add_zero] at hL
  have hroom : Room (s.refs + one c) (halfRefs (s.procs i).user) := by
    intro p hp
    have hle := halfRefs_le_refs i s p
    have hfree := (hL.not_held (Pmm.allocPages_one hc).free).2
    obtain ⟨hpages, hB⟩ := hL.held p (by omega)
    have hp31 := hlt p hpages
    rw [hL.refs p hB] at hp31
    rw [Pi.add_apply, one_of_ne (by rintro rfl; omega)]
    exact ⟨by omega, by omega⟩
  have hpos := Pmm.allocPages_one_pos hc
  have hrefs : ∀ k, k ≠ j → (s'.procs k).refs = (s.procs k).refs := by
    intro k hk
    by_cases hki : k = i
    · subst hki
      unfold Proc.refs
      rw [hpi, hsrc]
    · rw [hother k hki hk]
  have hlive : ∀ k, k ≠ j → (s'.Live k ↔ s.Live k) := by
    intro k hk
    unfold Memory.Live
    by_cases hki : k = i
    · subst hki; rw [hpi]
    · rw [hother k hki hk]
  refine ⟨⟨⟨?_, by rw [hcache]; exact ha.balanced.nodup⟩, fun k hk => ?_⟩, hrefs, hlive, by rw [hcache],
    fun p hp => .inl (by rwa [hcache] at hp)⟩
  · convert hled (hL.alloc hc) hroom using 1
    funext p
    have hp := refs_change fun k hk => congrFun (hrefs k hk) p
    have hnew : (s'.procs j).refs p = one c p + treeRefs dst p := by
      unfold Proc.refs
      rw [hcr3, huser, if_neg hpos.ne']
    rw [ha.dead j hj, hcache] at hp
    simp only [Pi.add_apply] at hp ⊢
    omega
  · by_cases hkj : k = j
    · subst hkj
      unfold Memory.Live at hk
      omega
    · rw [hrefs k hkj]
      exact ha.dead k (by rwa [hlive k hkj] at hk)

theorem spaceStep_accounted {e : SpaceEvent ι} (hs : Sound s e) (h : spaceStep s e = some s') (ha : Accounted B s) :
    Accounted B s' ∧ Apart e.target s s' := by
  rcases e with i | ⟨i, j, nv⟩ | ⟨mem, i, addr, len, prot, fl, b, offset⟩ | ⟨mem, i, addr, len⟩ |
    ⟨env, i, a, w⟩ | ⟨mem, i, exe, interp⟩ | i
  · simp only [spaceStep] at h
    split at h
    · cases h
    · exact create_accounted h ‹_› ha
  · obtain ⟨hl, h⟩ := ite_none_right_eq_some.1 h
    exact clone_accounted h hl.1 hl.2 (fun p _ => hs p) ha
  all_goals
    obtain ⟨hl, h⟩ := ite_none_right_eq_some.1 h
  · obtain ⟨⟨r, s1⟩, hm, rfl⟩ := map_eq_some_iff.1 h
    exact (sysMmap_works hs hm).accounted hl ha
  · cases h
    exact (sysMunmap_works hs).accounted hl ha
  · obtain ⟨⟨r, s1⟩, hm, rfl⟩ := map_eq_some_iff.1 h
    exact (handlePageFault_works hs.1 (fun p _ => by have := hs.2 p; omega) hm).accounted hl ha
  · obtain ⟨⟨r, s1⟩, hm, rfl⟩ := map_eq_some_iff.1 h
    exact (sysExecve_works hl hs.1 hs.2 hm).accounted hl ha
  · cases h
    exact destroy_accounted hl ha

/-- Before the first process: no address spaces, nothing cached, free pages have no references and are counted. -/
structure Boot (s : Memory ι) : Prop where
  spaces : ∀ i, (s.procs i).cr3 = 0 ∧ (s.procs i).user = fun _ => none
  cache : s.cache = []
  counts : ∀ p, s.pmm.bitmap p = false → s.pmm.pageRefs p = 0
  free : s.pmm.freePages.toNat = #{p ∈ range s.pmm.bitmapPages | s.pmm.bitmap p = false}

omit [DecidableEq ι] in
theorem Boot.accounted (h : Boot s) : Accounted ⟨s.pmm.bitmapPages, s.pmm.bitmap, h.free ▸ s.pmm.freePages.isLt⟩ s := by
  have hproc : ∀ i, (s.procs i).refs = 0 := by
    intro i
    funext p
    unfold Proc.refs
    rw [(h.spaces i).1, (h.spaces i).2, treeRefs_empty]
    rfl
  have hpages : s.cachePages = [] := by unfold Memory.cachePages; rw [h.cache]; rfl
  have hrefs : ∀ p, (s.refs + 0 : Nat → Nat) p = 0 := by
    intro p
    rw [add_zero, Memory.refs, hpages, sum_eq_zero fun i _ => congrFun (hproc i) p]
    rfl
  refine ⟨⟨⟨rfl, fun p hp => ?_, fun p hp => ?_, fun p => ?_, h.free⟩, by rw [hpages]; exact List.nodup_nil⟩,
    fun i _ => hproc i⟩
  · rw [hrefs] at hp; exact absurd hp (by decide)
  · rw [hrefs]; exact h.counts p hp
  · rw [hrefs]; simp

def Memory.tableRefs (s : Memory ι) (p : Nat) : Nat :=
  ∑ i, ((if (s.procs i).cr3 = 0 then 0 else one (s.procs i).cr3 p) + Mm.tableRefs (s.procs i).user p)

omit [DecidableEq ι] in
theorem refs_eq (s : Memory ι) (p : Nat) : s.refs p = s.tableRefs p + s.mapRefs p + s.cachePages.count p := by
  unfold Memory.refs Memory.tableRefs Memory.mapRefs
  rw [← sum_add_distrib]
  congr 1
  refine sum_congr rfl fun i _ => ?_
  unfold Proc.refs
  rw [treeRefs_eq, Pi.add_apply]
  omega

/-- The address spaces of `s0` as they are in `s`: they hold what they held, and no page of theirs has got into
the cache. -/
structure Since (s0 s : Memory ι) : Prop where
  refs : ∀ i, s0.Live i → (s.procs i).refs = (s0.procs i).refs
  live : ∀ i, s0.Live i → s.Live i
  grows : s0.cachePages <:+ s.cachePages
  fresh : ∀ p ∈ s.cachePages, p ∈ s0.cachePages ∨ ∀ i, s0.Live i → (s0.procs i).refs p = 0

omit [Fintype ι] [DecidableEq ι] in
theorem Since.refl (s : Memory ι) : Since s s := ⟨fun _ _ => rfl, fun _ h => h, List.suffix_refl _, fun _ h => .inl h⟩

omit [Fintype ι] [DecidableEq ι] in
theorem Since.step {t : ι} (h : Since s0 s) (hstep : Apart t s s') (ht : ¬ s0.Live t) : Since s0 s' := by
  have hne : ∀ i, s0.Live i → i ≠ t := fun i hi hit => ht (hit ▸ hi)
  refine ⟨fun i hi => (hstep.refs i (hne i hi)).trans (h.refs i hi),
    fun i hi => (hstep.live i (hne i hi)).2 (h.live i hi), h.grows.trans hstep.grows, fun p hp => ?_⟩
  rcases hstep.fresh p hp with hp | hp
  · exact h.fresh p hp
  · exact .inr fun i hi => by rw [← h.refs i hi]; exact hp i (hne i hi)

theorem Since.run {es : List (SpaceEvent ι)} (ha : Accounted B s0)
    (hrun : Run spaceStep (fun s e => Sound s e ∧ ¬ s0.Live e.target) s0 es s) : Accounted B s ∧ Since s0 s := by
  refine hrun.inv (I := fun s => Accounted B s ∧ Since s0 s) (fun s e s' hI hc hs => ?_) ⟨ha, .refl s0⟩
  obtain ⟨h1, h2⟩ := spaceStep_accounted hc.1 hs hI.1
  exact ⟨h1, hI.2.step h2 hc.2⟩

omit [DecidableEq ι] in
theorem Since.freePages (ha0 : Accounted B s0) (ha : Accounted B s) (h : Since s0 s)
    (hend : ∀ i, s.Live i → s0.Live i) :
    s.pmm.freePages.toNat + s.cachePages.length = s0.pmm.freePages.toNat + s0.cachePages.length := by
  have hprocs : ∀ p, ∑ i, (s.procs i).refs p = ∑ i, (s0.procs i).refs p := by
    intro p
    refine sum_congr rfl fun i _ => ?_
    by_cases hi : s0.Live i
    · rw [h.refs i hi]
    · rw [ha0.dead i hi, ha.dead i fun hl => hi (hend i hl)]
  obtain ⟨new, hnew⟩ := h.grows
  have hnd := ha.balanced.nodup
  rw [← hnew, List.nodup_append] at hnd
  have hL0 := ha0.balanced.ledger
  have hL := ha.balanced.ledger
  rw [add_zero] at hL0 hL
  have hs : ∀ p, s.refs p = s0.refs p + new.count p := by
    intro p
    unfold Memory.refs
    rw [hprocs, ← hnew, List.count_append]
    omega
  -- a newly cached page was free
  have hfree : ∀ p ∈ new, s0.refs p = 0 := by
    intro p hp
    have hp0 : p ∉ s0.cachePages := fun h₀ => hnd.2.2 p hp p h₀ rfl
    unfold Memory.refs
    rw [List.count_eq_zero.2 hp0, sum_eq_zero fun i _ => ?_]
    by_cases hi : s0.Live i
    · rcases h.fresh p (by rw [← hnew]; exact List.mem_append_left _ hp) with hp | hp
      · exact absurd hp hp0
      · exact hp i hi
    · rw [ha0.dead i hi]; rfl
  have hsplit : {p ∈ range B.pages | B.used p = false ∧ s0.refs p = 0} =
      {p ∈ range B.pages | B.used p = false ∧ s.refs p = 0} ∪ new.toFinset := by
    ext p
    simp only [mem_union, mem_filter, mem_range, List.mem_toFinset]
    constructor
    · rintro ⟨h1, h2, h3⟩
      by_cases hp : p ∈ new
      · exact .inr hp
      · exact .inl ⟨h1, h2, by rw [hs, h3, List.count_eq_zero.2 hp]⟩
    · rintro (⟨h1, h2, h3⟩ | hp)
      · exact ⟨h1, h2, by rw [hs] at h3; omega⟩
      · have hpos : 0 < s.refs p := by rw [hs]; exact Nat.add_pos_right _ (List.count_pos_iff.2 hp)
        obtain ⟨h1, h2⟩ := hL.held p hpos
        exact ⟨hL.pages ▸ h1, h2, hfree p hp⟩
  have hdisj : Disjoint {p ∈ range B.pages | B.used p = false ∧ s.refs p = 0} new.toFinset := by
    refine disjoint_left.2 fun p hp hn => ?_
    have h0 := (mem_filter.1 hp).2.2
    have hn := List.count_pos_iff.2 (List.mem_toFinset.1 hn)
    rw [hs] at h0
    omega
  rw [hL0.freePages_eq, hL.freePages_eq, hsplit, card_union_of_disjoint hdisj, List.toFinset_card_of_nodup hnd.1,
    ← hnew, List.length_append]
  omega

/-- When every address space that was made since some point has been destroyed, the pages that are not free again are
those that have been cached. -/
theorem page_accounting {es : List (SpaceEvent ι)} (h0 : Boot s0) (hrun : Run spaceStep Sound s0 es s) :
    (∀ p, s0.pmm.bitmap p = false → s.tableRefs p = 0 →
      s.pmm.pageRefs p = s.mapRefs p + if p ∈ s.cachePages then 1 else 0) ∧
    ∀ es' s', Run spaceStep (fun s1 e => Sound s1 e ∧ ¬ s.Live e.target) s es' s' → (∀ i, s'.Live i → s.Live i) →
      s'.pmm.freePages.toNat + s'.cachePages.length = s.pmm.freePages.toNat + s.cachePages.length := by
  have ha : Accounted ⟨s0.pmm.bitmapPages, s0.pmm.bitmap, h0.free ▸ s0.pmm.freePages.isLt⟩ s :=
    hrun.inv (fun s e s' hI hc hs => (spaceStep_accounted hc hs hI).1) h0.accounted
  refine ⟨fun p hp ht => ?_, fun es' s' hrun' hend => ?_⟩
  · have hL := ha.balanced.ledger
    rw [add_zero] at hL
    rw [hL.refs p hp, refs_eq, ht, Nat.zero_add]
    congr 1
    split
    · rename_i hmem; exact List.count_eq_one_of_mem ha.balanced.nodup hmem
    · rename_i hmem; exact List.count_eq_zero.2 hmem
  · obtain ⟨ha', hsince⟩ := Since.run ha hrun'
    exact hsince.freePages ha ha' hend

end Spaces

def bootOne : Memory Unit where
  procs := fun _ => { cr3 := 0, user := fun _ => none, vmas := [], mmapNext := USER_MMAP_BASE }
  kern := fun _ => none
  pmm :=
    { bitmapPages := 8, bitmap := fun p => decide (p = 0), pageRefs := fun p => if p = 0 then 1 else 0
      freePages := 7 }
  data := fun _ _ => 0
  cache := []
  content := fun _ _ _ => 0
  wrote := fun _ _ => none

theorem bootOne_ok : Boot bootOne := by
  refine ⟨fun _ => ⟨rfl, rfl⟩, rfl, fun p hp => ?_, rfl⟩
  have hp : p ≠ 0 := of_decide_eq_false hp
  exact if_neg hp

def anonMap (fixed : Bool) : SpaceEvent Unit :=
  .mmap (fun _ => true) () (if fixed then USER_MMAP_BASE else 0) PAGE_SIZE ⟨true, true, false, false⟩
    ⟨fixed, false, false⟩ .anon 0

/-- A page is mapped at a fixed address, and then one wherever there is room: both at `USER_MMAP_BASE`. -/
def lostRun : List (SpaceEvent Unit) := [.create (), anonMap true, anonMap false, .destroy ()]

def lostCheck : Option (Nat × List Nat × Nat × Nat) :=
  (exec spaceStep bootOne lostRun).map fun s =>
    ((s.procs ()).cr3, s.cachePages, s.pmm.pageRefs 2, s.pmm.freePages.toNat)

theorem page_lost : ∃ s, Boot bootOne ∧ Run spaceStep Any bootOne lostRun s ∧ (∀ i, ¬ s.Live i) ∧
    bootOne.pmm.bitmap 2 = false ∧ s.tableRefs 2 = 0 ∧
    s.pmm.pageRefs 2 ≠ s.mapRefs 2 + (if 2 ∈ s.cachePages then 1 else 0) ∧
    s.pmm.freePages.toNat + s.cachePages.length ≠ bootOne.pmm.freePages.toNat + bootOne.cachePages.length := by
  have hcheck : lostCheck = some (0, [], 1, 6) := by decide +kernel
  obtain ⟨s, hs, he⟩ := map_eq_some_iff.1 hcheck
  simp only [Prod.mk.injEq] at he
  obtain ⟨hcr3, hcache, hrefs, hfree⟩ := he
  have hrun := exec_iff.1 hs
  have huser : (s.procs ()).user = fun _ => none := by
    obtain _ | ⟨-, -, hrun⟩ := hrun
    obtain _ | ⟨-, -, hrun⟩ := hrun
    obtain _ | ⟨-, -, hrun⟩ := hrun
    obtain _ | ⟨-, hlast, hrun⟩ := hrun
    obtain _ | _ := hrun
    obtain ⟨-, ⟨⟩⟩ := ite_none_right_eq_some.1 hlast
    simp [vmmDestroyAddressSpace, Memory.setProc]
  have hmap : s.mapRefs 2 = 0 := sum_eq_zero fun _ _ => by rw [huser]; exact halfRefs_empty 2
  have htab : s.tableRefs 2 = 0 := by
    refine sum_eq_zero fun _ _ => ?_
    rw [hcr3, huser, tableRefs_empty]
    rfl
  refine ⟨s, bootOne_ok, hrun, fun _ hl => hl hcr3, by decide, htab, ?_, ?_⟩
  · rw [hrefs, hmap, hcache]; decide
  · rw [hfree, hcache]; decide

/-- A page is mapped, with nothing there before. -/
theorem page_accounting_map : ∃ s, Boot bootOne ∧ Run spaceStep Sound bootOne [.create (), anonMap false] s ∧
    (∀ p, bootOne.pmm.bitmap p = false → s.tableRefs p = 0 →
      s.pmm.pageRefs p = s.mapRefs p + if p ∈ s.cachePages then 1 else 0) ∧
    ∀ es' s', Run spaceStep (fun s1 e => Sound s1 e ∧ ¬ s.Live e.target) s es' s' → (∀ i, s'.Live i → s.Live i) →
      s'.pmm.freePages.toNat + s'.cachePages.length = s.pmm.freePages.toNat + s.cachePages.length := by
  have hex : ((exec spaceStep bootOne [.create (), anonMap false]).map fun _ => ()) = some () := by decide +kernel
  obtain ⟨s, hs, -⟩ := map_eq_some_iff.1 hex
  have hrun := exec_iff.1 hs
  obtain _ | @⟨_, s1, _, _, _, -, h1, hrun⟩ := hrun
  obtain _ | ⟨-, h2, hrun⟩ := hrun
  obtain _ | _ := hrun
  refine ⟨s, bootOne_ok, ?_⟩
  have hsound : Run spaceStep Sound bootOne [.create (), anonMap false] s := by
    refine .cons trivial h1 (.cons ?_ h2 (.nil _))
    simp only [spaceStep] at h1
    split at h1
    · cases h1
    have hu : UserPages USER_MMAP_BASE (pageAlignUp PAGE_SIZE / PAGE_SIZE) := by unfold UserPages; decide
    have haddr : ∀ addr, mmapAddr s1 () addr ⟨false, false, false⟩ = USER_MMAP_BASE := by
      obtain ⟨⟨c, m⟩, -, rfl⟩ := map_eq_some_iff.1 h1
      exact fun _ => rfl
    refine ⟨fun _ => by rw [haddr]; exact hu, fun _ _ k hk => ?_⟩
    rw [haddr, Memory.pte_user _ _ (hu.isKernel hk), create_uview h1]
    exact Bool.false_ne_true
  exact ⟨hsound, page_accounting bootOne_ok hsound⟩

end ExoOS.Mm
