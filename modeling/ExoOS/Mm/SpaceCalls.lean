import ExoOS.Mm.Accounting
import ExoOS.Mm.Protect

/-!
# What the calls on address spaces do to the page counts

`munmap`, `mmap`, the loading of a program and the making and destroying of address spaces as instances of
`Works`. `mmap` and `execve` map pages without looking at what is there; the conditions `MmapOk` and `Image.Ok`
say that nothing is.
-/

namespace ExoOS.Mm

open Function List Memory Option

variable {ι : Type} [Fintype ι] [DecidableEq ι] {s s' : Memory ι} {i : ι} {a p : Nat} {e : Pte}
  {E : Nat → Nat} {B : Others} {P : Proc} {r : Bool} {mem : Nat → Bool}

/-! ### Mapping and unmapping -/

theorem setProc_works (hc : P.cr3 = (s.procs i).cr3) (hu : P.user = (s.procs i).user) :
    Works i s (s.setProc i P) E E := by
  have hi : (s.setProc i P).procs i = P := update_self ..
  refine .of_ledger (fun j hj => update_of_ne hj _ _) (fun hl => ?_) rfl fun B R hl => ?_
  · unfold Memory.Live at *
    rw [hi, hc]; exact hl
  · rw [hi]
    unfold Proc.refs at *
    rw [hc, hu]
    exact hl

def UserPages (addr n : Nat) : Prop := addr + n * PAGE_SIZE ≤ USER_SPACE_END

theorem UserPages.addr {addr n k : Nat} (h : UserPages addr n) (hk : k < n) :
    pageAddr addr k = addr + k * PAGE_SIZE ∧ addr + k * PAGE_SIZE < USER_SPACE_END := by
  have hlt : addr + k * PAGE_SIZE < USER_SPACE_END := by
    unfold UserPages PAGE_SIZE at *
    omega
  refine ⟨Nat.mod_eq_of_lt (hlt.trans (by decide)), hlt⟩

theorem UserPages.isKernel {addr n k : Nat} (h : UserPages addr n) (hk : k < n) :
    isKernel (pageAddr addr k) = false := by
  rw [(h.addr hk).1]
  exact isKernel_user (h.addr hk).2

theorem UserPages.loc_ne {addr n j k : Nat} (h : UserPages addr n) (hj : j < n) (hk : k < n) (hne : j ≠ k) :
    loc (pageAddr addr j) ≠ loc (pageAddr addr k) := by
  intro hl
  have := loc_inj (by rw [(h.addr hj).1]; exact (h.addr hj).2) (by rw [(h.addr hk).1]; exact (h.addr hk).2) hl
  rw [(h.addr hj).1, (h.addr hk).1] at this
  unfold PAGE_SIZE at this
  omega

theorem munmapPage_works (s : Memory ι) (ha : isKernel a = false) : Works i s (munmapPage i s a) 0 0 := by
  have h := unmapPage_works (i := i) s ha
  unfold munmapPage
  dsimp only
  split
  · exact h
  split
  · split
    · exact h.trans (pagecacheRelease_works ..)
    · exact h
  · exact h

theorem sysMunmap_works {addr len : Nat}
    (hu : UserPages addr (pageAlignUp len / PAGE_SIZE)) : Works i s (sysMunmap mem s i addr len).2 0 0 := by
  unfold sysMunmap
  split
  · exact .refl i s
  · refine (Works.foldl _ (fun s k hk => munmapPage_works s (hu.isKernel (mem_range.1 hk))) s).trans ?_
    exact setProc_works rfl rfl

omit [Fintype ι] in
theorem unmapPage_absent {l : Loc} (ha : isKernel a = false) (h : ((unmapPage i s a).uview i l).present) :
    (s.uview i l).present ∧ l ≠ loc a := by
  unfold unmapPage at h
  dsimp only at h
  rw [s.pte_user i ha] at h
  split at h
  · rename_i hp
    have hst := setPteAt_store .zero (by rw [s.pte_user i ha]; exact hp)
    have hv : (s.setPteAt i a .zero).uview i = update (s.uview i) (loc a) .zero := by
      have := hst.uview i
      rwa [if_pos ⟨ha, rfl⟩] at this
    replace h : ((s.setPteAt i a .zero).uview i l).present := h
    rw [hv] at h
    by_cases hl : l = loc a
    · subst hl; rw [update_self] at h; cases h
    · rw [update_of_ne hl] at h; exact ⟨h, hl⟩
  · rename_i hp
    exact ⟨h, by rintro rfl; exact hp h⟩

omit [Fintype ι] in
theorem munmapPages_absent {addr n : Nat} {l : Loc} (hu : UserPages addr n) (ks : List Nat) (hks : ∀ k ∈ ks, k < n)
    (s : Memory ι) (h : ((ks.foldl (fun s k => munmapPage i s (pageAddr addr k)) s).uview i l).present) :
    (s.uview i l).present ∧ ∀ k ∈ ks, l ≠ loc (pageAddr addr k) := by
  induction ks generalizing s with
  | nil => exact ⟨h, by rintro k ⟨⟩⟩
  | cons k ks ih =>
    obtain ⟨hk, hks⟩ := forall_mem_cons.1 hks
    obtain ⟨h1, h2⟩ := ih hks _ h
    unfold uview at h1
    rw [munmapPage_procs] at h1
    obtain ⟨h3, h4⟩ := unmapPage_absent (hu.isKernel hk) h1
    exact ⟨h3, forall_mem_cons.2 ⟨h4, h2⟩⟩

omit [Fintype ι] in
theorem sysMunmap_absent {addr len k : Nat}
    (hu : UserPages addr (pageAlignUp len / PAGE_SIZE)) (hr : ¬ (sysMunmap mem s i addr len).1 < 0)
    (hk : k < pageAlignUp len / PAGE_SIZE) :
    ¬ ((sysMunmap mem s i addr len).2.uview i (loc (pageAddr addr k))).present := by
  unfold sysMunmap at hr ⊢
  split at hr
  · exact absurd (show (-EINVAL : Int) < 0 by decide) hr
  rename_i hc
  rw [if_neg hc]
  rw [setVmas_uview]
  intro hp
  exact (munmapPages_absent hu _ (fun k hk => mem_range.1 hk) s hp).2 k (mem_range.2 hk) rfl

theorem fill_works {s1 : Memory ι} (hz : zeroFrame s = (some p, s1)) (hm : s1.mapPage i a e = some s')
    (ha : isKernel a = false) (he : e.present) (hp : e.pfn = p) (hnp : ¬ (s.uview i (loc a)).present) :
    Works i s s' 0 0 ∧ ∀ l, (s'.uview i l).present → (s.uview i l).present ∨ l = loc a := by
  have huv : s1.uview i = s.uview i := by unfold uview; rw [zeroFrame_procs hz]
  obtain ⟨hn, -⟩ | ⟨q, hq, hw⟩ := zeroFrame_works (i := i) hz
  · cases hn
  cases hq
  subst hp
  refine ⟨hw.trans (mapPage_works hm ha he (by rw [huv]; exact hnp)), fun l hl => ?_⟩
  rcases (mapPage_store hm).1.cases i l with hv | ⟨-, -, hl', -⟩
  · rw [hv, huv] at hl; exact .inl hl
  · exact .inr hl'

omit [DecidableEq ι] [Fintype ι] in
theorem zeroFrame_none (h : zeroFrame s = (none, s')) : s' = s := by
  unfold zeroFrame at h
  split at h <;> cases h
  rfl

theorem mapAnon_works {addr n k : Nat} {w x r : Bool} (hu : UserPages addr (k + n))
    (habs : ∀ j, k ≤ j → j < k + n → ¬ (s.uview i (loc (pageAddr addr j))).present)
    (h : mapAnon i addr w x n k s = some (r, s')) : Works i s s' 0 0 := by
  induction n generalizing k s with
  | zero => cases h; exact .refl ..
  | succ n ih =>
    unfold mapAnon at h
    split at h
    · rename_i s1 hz
      cases zeroFrame_none hz
      cases h
      exact .foldl _ (fun s j hj => unmapPage_works s (hu.isKernel ((mem_range.1 hj).trans_le (Nat.le_add_right ..)))) s
    · rename_i p s1 hz
      obtain ⟨s2, hm, h⟩ := bind_eq_some_iff.1 h
      obtain ⟨h1, h2⟩ := fill_works hz hm (hu.isKernel (by omega)) rfl rfl (habs k le_rfl (by omega))
      refine h1.trans (ih (by rw [Nat.add_right_comm]; exact hu) (fun j hkj hj hp => ?_) h)
      rcases h2 _ hp with hp | hl
      · exact habs j (by omega) (by omega) hp
      · exact hu.loc_ne (by omega) (by omega) (by omega) hl

theorem pageAlignUp_idem (x : Nat) : pageAlignUp (pageAlignUp x) = pageAlignUp x := by
  unfold pageAlignUp pageAlign PAGE_SIZE
  omega

def mmapAddr (s : Memory ι) (i : ι) (addr : Nat) (fl : MmapFlags) : Nat :=
  if fl.fixed then pageAlign addr else (s.procs i).mmapNext

/-- The pages that `mmap` unmaps or maps lie in user space, and those it maps without unmapping them first are
not mapped. -/
def MmapOk (s : Memory ι) (i : ι) (addr len : Nat) (fl : MmapFlags) (b : Backing) : Prop :=
  (fl.fixed ∨ b = .anon → UserPages (mmapAddr s i addr fl) (pageAlignUp len / PAGE_SIZE)) ∧
    (¬ fl.fixed → b = .anon → ∀ k < pageAlignUp len / PAGE_SIZE,
      ¬ (s.pte i (pageAddr (mmapAddr s i addr fl) k)).present)

theorem mmapTail_works {addr n : Nat} {w x : Bool} {b : Backing} {f : Bool × Memory ι → Int × Memory ι} {r : Int}
    (hok : b = .anon → UserPages addr n ∧ ∀ k < n, ¬ (s.uview i (loc (pageAddr addr k))).present)
    (hf : ∀ q, Works i q.2 (f q).2 0 0)
    (h : (match b with
      | .anon => mapAnon i addr w x n 0 s
      | _ => some (true, s)).map f = some (r, s')) : Works i s s' 0 0 := by
  obtain ⟨⟨ok, s1⟩, hm, he⟩ := map_eq_some_iff.1 h
  have h1 : Works i s s1 0 0 := by
    split at hm
    · obtain ⟨hu, habs⟩ := hok rfl
      exact mapAnon_works (by rwa [Nat.zero_add]) (fun j _ hj => habs j (by omega)) hm
    · cases hm; exact .refl ..
  have h2 := hf (ok, s1)
  rw [he] at h2
  exact h1.trans h2

theorem sysMmap_works {addr len offset : Nat} {prot : Prot} {fl : MmapFlags} {b : Backing}
    {r : Int} (hok : MmapOk s i addr len fl b)
    (h : sysMmap mem s i addr len prot fl b offset = some (r, s')) : Works i s s' 0 0 := by
  unfold sysMmap at h
  split at h
  · cases h; exact .refl ..
  split at h
  · cases h; exact .refl ..
  split at h
  · cases h; exact .refl ..
  obtain ⟨hu, habs⟩ := hok
  unfold mmapAddr at hu habs
  rcases hfx : fl.fixed with _ | _
  · -- the next free address
    rw [hfx] at h hu habs
    simp only [Bool.false_eq_true, if_false, false_or, not_false_eq_true, true_imp_iff] at h hu habs
    have h1 : Works i s (s.setProc i { s.procs i with
        mmapNext := ((s.procs i).mmapNext + pageAlignUp len) % 2 ^ 64 }) 0 0 := setProc_works rfl rfl
    split at h
    · cases h; exact h1
    refine h1.trans (mmapTail_works (fun hb => ⟨hu hb, fun k hk => ?_⟩) (fun q => ?_) h)
    · have hv := habs hb k hk
      rw [s.pte_user i ((hu hb).isKernel hk)] at hv
      simpa [uview, setProc] using hv
    · split
      · split
        · exact setProc_works rfl rfl
        · exact .refl ..
      · exact setProc_works rfl rfl
  · -- a fixed address: what was mapped there is unmapped
    rw [hfx] at h hu
    simp only [if_true, true_or, true_imp_iff] at h hu
    split at h
    · cases h; exact .refl ..
    rw [← pageAlignUp_idem len] at hu
    have h1 : Works i s (sysMunmap (fun k => mem (k + 1)) s i (pageAlign addr) (pageAlignUp len)).2 0 0 :=
      sysMunmap_works hu
    split at h
    · have hs := congrArg Prod.snd (some.inj h)
      rwa [hs] at h1
    rename_i hneg
    rw [pageAlignUp_idem] at hu
    refine h1.trans (mmapTail_works (fun _ => ⟨hu, fun k hk => ?_⟩) (fun q => ?_) h)
    · exact sysMunmap_absent (by rw [pageAlignUp_idem]; exact hu) hneg (by rw [pageAlignUp_idem]; exact hk)
    · split
      · split
        · exact setProc_works rfl rfl
        · exact .refl ..
      · exact .refl ..

theorem protectPage_works (prot : Prot) (s : Memory ι) (a : Nat) : Works i s (protectPage i prot s a) 0 0 := by
  unfold protectPage
  dsimp only
  split
  swap
  · exact .refl i s
  rename_i hp
  rcases ha : isKernel a with _ | _
  · rw [s.pte_user i ha] at hp ⊢
    rw [setPteAt_user s i _ ha]
    refine .of_user rfl rfl fun B R hl => ?_
    convert hl using 3
    funext q
    have hq := setPte_treeRefs ⟨(s.uview i (loc a)).pfn, true, prot.write, true, !prot.exec, false⟩
      (show (view (s.procs i).user (loc a)).present from hp) q
    rw [Pte.refs_of_present (e := view _ _) hp, Pte.refs_of_present rfl] at hq
    exact Nat.add_right_cancel hq
  · -- the kernel half is not counted
    unfold setPteAt setHalf
    rw [if_pos ha]
    exact .of_same rfl rfl rfl

theorem sysMprotect_works {addr len : Nat} {prot : Prot} {r : Int}
    (h : sysMprotect mem s i addr len prot = (r, s')) : Works i s s' 0 0 := by
  rcases sysMprotect_cases h with rfl | ⟨vs, l, -, -, rfl⟩
  · exact .refl i s'
  · refine Works.trans ?_ (Works.foldl l (fun s k _ => protectPage_works prot s (pageAddr addr k)) _)
    exact setProc_works rfl rfl

/-! ### Loading a program -/

theorem mapSegment_works {g : Segment} {n k : Nat}
    (hu : ∀ j, k ≤ j → j < k + n → g.first + j * PAGE_SIZE < USER_SPACE_END)
    (h : mapSegment i g n k s = some (r, s')) : Works i s s' 0 0 ∧ ∀ l, (s'.uview i l).present →
      (s.uview i l).present ∨ ∃ j, k ≤ j ∧ j < k + n ∧ l = loc (g.first + j * PAGE_SIZE) := by
  induction n generalizing k s with
  | zero =>
    cases h
    exact ⟨.refl .., fun l hl => .inl hl⟩
  | succ n ih =>
    have hk := isKernel_user (hu k le_rfl (by omega))
    have hrest : ∀ {s1 : Memory ι}, mapSegment i g n (k + 1) s1 = some (r, s') → Works i s1 s' 0 0 ∧
        ∀ l, (s'.uview i l).present → (s1.uview i l).present ∨
          ∃ j, k ≤ j ∧ j < k + (n + 1) ∧ l = loc (g.first + j * PAGE_SIZE) := by
      intro s1 h
      obtain ⟨h1, h2⟩ := ih (fun j hj hj' => hu j (by omega) (by omega)) h
      refine ⟨h1, fun l hl => ?_⟩
      rcases h2 l hl with hl | ⟨j, hj, hj', hl⟩
      · exact .inl hl
      · exact .inr ⟨j, by omega, by omega, hl⟩
    unfold mapSegment at h
    split at h
    · exact hrest h
    rename_i hnp
    rw [s.pte_user i hk] at hnp
    split at h
    · rename_i s1 hz
      cases zeroFrame_none hz
      cases h
      exact ⟨.refl .., fun l hl => .inl hl⟩
    rename_i p s1 hz
    obtain ⟨s2, hm, h⟩ := bind_eq_some_iff.1 h
    obtain ⟨h1, h2⟩ := fill_works hz hm hk rfl rfl hnp
    obtain ⟨h3, h4⟩ := hrest h
    refine ⟨h1.trans h3, fun l hl => ?_⟩
    rcases h4 l hl with hl | hl
    · rcases h2 l hl with hl | hl
      · exact .inl hl
      · exact .inr ⟨k, le_rfl, by omega, hl⟩
    · exact .inr hl

omit [DecidableEq ι] [Fintype ι] in
theorem copySegment_same (i : ι) (bs : List Byte) (va : Nat) (s : Memory ι) :
    (copySegment i va bs s).2.procs = s.procs ∧ (copySegment i va bs s).2.pmm = s.pmm ∧
      (copySegment i va bs s).2.cache = s.cache := by
  induction bs generalizing va s with
  | nil => exact ⟨rfl, rfl, rfl⟩
  | cons b bs ih =>
    unfold copySegment
    dsimp only
    split
    · exact ih ..
    · exact ⟨rfl, rfl, rfl⟩

def Segment.User (g : Segment) : Prop := ∀ k < g.pages, g.first + k * PAGE_SIZE < USER_SPACE_END

theorem elfLoad_works {gs : List Segment} (hu : ∀ g ∈ gs, g.User)
    (h : elfLoad i gs s = some (r, s')) : Works i s s' 0 0 ∧ ∀ l, (s'.uview i l).present →
      (s.uview i l).present ∨ ∃ g ∈ gs, ∃ k < g.pages, l = loc (g.first + k * PAGE_SIZE) := by
  induction gs generalizing s with
  | nil =>
    cases h
    exact ⟨.refl .., fun l hl => .inl hl⟩
  | cons g gs ih =>
    obtain ⟨hg, hu⟩ := forall_mem_cons.1 hu
    unfold elfLoad at h
    split at h
    · cases h
      exact ⟨.refl .., fun l hl => .inl hl⟩
    obtain ⟨⟨ok, s1⟩, hm, h⟩ := bind_eq_some_iff.1 h
    obtain ⟨h1, h2⟩ := mapSegment_works (fun j _ hj => hg j (by omega)) hm
    have h2 : ∀ l, (s1.uview i l).present →
        (s.uview i l).present ∨ ∃ g' ∈ g :: gs, ∃ k < g'.pages, l = loc (g'.first + k * PAGE_SIZE) := by
      intro l hl
      rcases h2 l hl with hl | ⟨j, -, hj, hl⟩
      · exact .inl hl
      · exact .inr ⟨g, mem_cons_self, j, by omega, hl⟩
    dsimp only at h
    split at h
    · obtain ⟨e1, e2, e3⟩ := copySegment_same i g.bytes g.vaddr s1
      have hc : Works i s1 (copySegment i g.vaddr g.bytes s1).2 0 0 := .of_same e1 e2 (by unfold cachePages; rw [e3])
      have huv : (copySegment i g.vaddr g.bytes s1).2.uview i = s1.uview i := by unfold uview; rw [e1]
      split at h
      · obtain ⟨h3, h4⟩ := ih hu h
        refine ⟨(h1.trans hc).trans h3, fun l hl => ?_⟩
        rcases h4 l hl with hl | ⟨g', hg', hl⟩
        · rw [huv] at hl; exact h2 l hl
        · exact .inr ⟨g', mem_cons_of_mem _ hg', hl⟩
      · obtain ⟨-, hs⟩ := Prod.mk.inj (some.inj h)
        rw [← hs]
        exact ⟨h1.trans hc, fun l hl => h2 l (by rwa [huv] at hl)⟩
    · cases h
      exact ⟨h1, h2⟩

theorem premapAddr_eq {k : Nat} (hk : k < EXEC_STACK_PREMAP_PAGES) : premapAddr k = pageAddr (premapAddr 0) k := by
  unfold premapAddr pageAddr USER_STACK_TOP EXEC_STACK_PREMAP_PAGES PAGE_SIZE at *
  omega

theorem userPages_stack : UserPages (premapAddr 0) EXEC_STACK_PREMAP_PAGES := by
  unfold UserPages
  decide

theorem premapStack_works {n k : Nat} (hn : k + n ≤ EXEC_STACK_PREMAP_PAGES)
    (habs : ∀ j, k ≤ j → j < k + n → ¬ (s.uview i (loc (premapAddr j))).present)
    (h : premapStack i n k s = some s') : Works i s s' 0 0 := by
  induction n generalizing k s with
  | zero => cases h; exact .refl ..
  | succ n ih =>
    unfold premapStack at h
    split at h
    · rename_i s1 hz
      cases zeroFrame_none hz
      exact ih (by omega) (fun j hj hj' => habs j (by omega) (by omega)) h
    rename_i p s1 hz
    obtain ⟨s2, hm, h⟩ := bind_eq_some_iff.1 h
    have hk : isKernel (premapAddr k) = false := by
      rw [premapAddr_eq (by omega)]; exact userPages_stack.isKernel (by omega)
    obtain ⟨h1, h2⟩ := fill_works hz hm hk rfl rfl (habs k le_rfl (by omega))
    refine h1.trans (ih (by omega) (fun j hkj hj hp => ?_) h)
    rcases h2 _ hp with hp | hl
    · exact habs j (by omega) (by omega) hp
    · rw [premapAddr_eq (by omega), premapAddr_eq (k := k) (by omega)] at hl
      exact userPages_stack.loc_ne (by omega) (by omega) (by omega) hl

/-! ### Making and destroying address spaces -/

theorem destroySpace_ledger {m : Pmm} {R : Nat → Nat} (hd : P.cr3 = 0 → P.refs = 0)
    (h : Ledger B m (R + P.refs)) : Ledger B (destroySpace m P) R := by
  unfold destroySpace
  split
  · rename_i h0
    rw [hd h0] at h
    exact h
  rename_i h0
  refine Ledger.freePage (freeHalf_spec ?_)
  convert h using 1
  funext p
  simp only [Pi.add_apply, Proc.refs, if_neg h0]
  omega

theorem Proc.refs_new (c : Nat) (hc : 0 < c) (P : Proc) :
    Proc.refs { P with cr3 := c, user := fun _ => none } = one c := by
  funext p
  unfold Proc.refs
  rw [treeRefs_empty, if_neg (by dsimp only; omega)]
  rfl

theorem Proc.refs_none (P : Proc) : Proc.refs { P with cr3 := 0, user := fun _ => none } = 0 := by
  funext p
  unfold Proc.refs
  rw [treeRefs_empty]
  rfl

theorem create_works (h : vmmCreateAddressSpace s i = some s') : Works i s s' 0 (s.procs i).refs := by
  obtain ⟨⟨c, m⟩, ha, rfl⟩ := map_eq_some_iff.1 h
  have hi : (setProc { s with pmm := m } i { s.procs i with cr3 := c, user := fun _ => none }).procs i =
    { s.procs i with cr3 := c, user := fun _ => none } := update_self ..
  have hc := Pmm.allocPages_one_pos ha
  refine .of_ledger (fun j hj => update_of_ne hj _ _) (fun _ => ?_) rfl fun B R hl => ?_
  · unfold Memory.Live
    rw [hi]; exact hc.ne'
  · rw [hi, Proc.refs_new c hc, add_right_comm]
    exact Ledger.alloc hl ha

omit [Fintype ι] in
theorem create_uview (h : vmmCreateAddressSpace s i = some s') : s'.uview i = fun _ => .zero := by
  obtain ⟨⟨c, m⟩, -, rfl⟩ := map_eq_some_iff.1 h
  simp only [uview, setProc, update_self]
  rfl

theorem destroyOld_works (hd : P.cr3 = 0 → P.refs = 0) : Works i s { s with pmm := destroySpace s.pmm P } P.refs 0 :=
  .of_ledger (fun _ _ => rfl) id rfl fun _ _ hl => destroySpace_ledger hd hl

theorem destroyNew_works (hd : s.Live i) (hP : P.cr3 ≠ 0) :
    Works i s ((vmmDestroyAddressSpace s i).setProc i P) P.refs 0 := by
  have hi : ((vmmDestroyAddressSpace s i).setProc i P).procs i = P := update_self ..
  refine .of_ledger (fun j hj => ?_) (fun _ => ?_) rfl fun B R hl => ?_
  · exact (update_of_ne hj _ _).trans (update_of_ne hj _ _)
  · unfold Memory.Live
    rw [hi]; exact hP
  · rw [hi]
    rw [add_right_comm] at hl
    exact destroySpace_ledger (fun h0 => absurd h0 hd) hl

theorem releaseShared_works (P : Proc) : Works i s (releaseSharedVmaMappings s i P) E E := by
  refine .foldl _ (fun s v _ => ?_) s
  split
  · refine .foldl _ (fun s k _ => ?_) s
    split
    · exact pagecacheRelease_works ..
    · exact .refl ..
  · exact .refl ..

omit [Fintype ι] in
theorem releaseShared_procs (s : Memory ι) (i : ι) (P : Proc) : (releaseSharedVmaMappings s i P).procs = s.procs := by
  unfold releaseSharedVmaMappings
  generalize (s.setProc i P).pte i = pte
  induction P.vmas generalizing s with
  | nil => rfl
  | cons v vs ih =>
    rw [foldl_cons, ih]
    split
    · generalize range _ = ks
      induction ks generalizing s with
      | nil => rfl
      | cons k ks ihk =>
        rw [foldl_cons, ihk]
        split <;> rfl
    · rfl

/-- The pages of a program lie in user space and not where the stack will be. -/
def Image.Ok (img : Image) : Prop :=
  ∀ g ∈ img.segs, g.User ∧
    ∀ k < g.pages, ∀ j < EXEC_STACK_PREMAP_PAGES, g.first + k * PAGE_SIZE ≠ premapAddr j

def StackFree (s : Memory ι) (i : ι) : Prop :=
  ∀ j < EXEC_STACK_PREMAP_PAGES, ¬ (s.uview i (loc (premapAddr j))).present

theorem loadImage_works {img : Image} (hok : img.Ok) (hs : StackFree s i)
    (h : loadImage i img s = some (r, s')) : Works i s s' 0 0 ∧ StackFree s' i := by
  obtain ⟨⟨ok, s1⟩, hl, he⟩ := map_eq_some_iff.1 h
  cases he
  obtain ⟨h1, h2⟩ := elfLoad_works (fun g hg => (hok g hg).1) hl
  refine ⟨h1, fun j hj hp => ?_⟩
  rcases h2 _ hp with hp | ⟨g, hg, k, hk, hloc⟩
  · exact hs j hj hp
  -- both addresses are page aligned
  have hu := (hok g hg).1 k hk
  have hstack : premapAddr j < USER_SPACE_END := by
    rw [premapAddr_eq hj, (userPages_stack.addr hj).1]; exact (userPages_stack.addr hj).2
  have hdiv := loc_inj hstack hu hloc
  have hne := (hok g hg).2 k hk j hj
  have h3 : g.first % PAGE_SIZE = 0 := Nat.mul_mod_left ..
  have h4 : premapAddr j % PAGE_SIZE = 0 := by
    unfold premapAddr USER_STACK_TOP PAGE_SIZE at *
    omega
  unfold PAGE_SIZE at *
  omega

variable {interp : Option (Option Image)}

theorem loadInterp_works (hok : ∀ img, interp = some (some img) → img.Ok) (hs : StackFree s i)
    (h : loadInterp i s interp = some (r, s')) : Works i s s' 0 0 ∧ StackFree s' i := by
  rcases interp with _ | _ | img
  · cases h; exact ⟨.refl .., hs⟩
  · cases h; exact ⟨.refl .., hs⟩
  · exact loadImage_works (hok img rfl) hs h

theorem loadProgram_works {exe : Image} (hexe : exe.Ok)
    (hint : ∀ img, interp = some (some img) → img.Ok) (hs : StackFree s i)
    (h : loadProgram i exe interp s = some (r, s')) : Works i s s' 0 0 ∧ StackFree s' i := by
  obtain ⟨⟨ok, s1⟩, h1, h⟩ := bind_eq_some_iff.1 h
  obtain ⟨w1, hs1⟩ := loadImage_works hexe hs h1
  split at h
  · obtain ⟨w2, hs2⟩ := loadInterp_works hint hs1 h
    exact ⟨w1.trans w2, hs2⟩
  · cases h; exact ⟨w1, hs1⟩

theorem enterProgram_works {mem : Bool} (hP : P.cr3 ≠ 0)
    (hs : StackFree s i) (h : enterProgram mem i P interp s = some s') : Works i s s' P.refs 0 := by
  obtain ⟨s1, h1, rfl⟩ := map_eq_some_iff.1 h
  have w := (releaseShared_works (i := i) (s := s) P).trans (destroyOld_works fun h0 => absurd h0 hP)
  refine Works.trans ?_ (setProc_works rfl rfl)
  refine Works.trans ?_ (premapStack_works (by decide) (fun j _ hj => ?_) h1)
  · exact w.trans (setProc_works rfl rfl)
  · have := hs j (by omega)
    simpa [uview, setProc, releaseShared_procs] using this

theorem sysExecve_works {mem r : Bool} {exe : Image} (hlive : s.Live i)
    (hexe : exe.Ok) (hint : ∀ img, interp = some (some img) → img.Ok)
    (h : sysExecve mem s i exe interp = some (r, s')) : Works i s s' 0 0 := by
  obtain ⟨s1, hc, h⟩ := bind_eq_some_iff.1 h
  obtain ⟨⟨ok, s2⟩, h2, h⟩ := bind_eq_some_iff.1 h
  have w1 := create_works hc
  have hs1 : StackFree s1 i := by
    intro j _
    rw [create_uview hc]
    exact Bool.false_ne_true
  obtain ⟨w2, hs2⟩ := loadProgram_works hexe hint hs1 h2
  have w := w1.trans (w2.hold _)
  split at h
  · obtain ⟨s3, h3, he⟩ := map_eq_some_iff.1 h
    cases he
    exact w.trans (enterProgram_works hlive hs2 h3)
  · cases h
    exact w.trans (destroyNew_works (w2.live (w1.live hlive)) hlive)

end ExoOS.Mm
