import ExoOS.Mm.Sharing

/-!
# Page faults among isolated processes

Both cases of the fault handler keep the invariant `Isolated` and what every process reads (`Undisturbed`).
`demandFrame_spec` says that the page brought in is a new one with the right contents, `cowPage_spec` and
`demandPage_spec` that mapping it disturbs nobody, and `access_spec` that an access ends at a page that the
process may use in the way it asked for.
-/

namespace ExoOS.Mm

open Function List Memory Pmm

variable {ι : Type} [Fintype ι] {s s' : Memory ι} {i j : ι} {a p : Nat}

/-- A page was taken and filled with `pg`; no process sees it yet. -/
structure NewFrame (s : Memory ι) (p : Nat) (pg : Page) (s' : Memory ι) : Prop where
  quiet : Quiet s s'
  cached : CacheOk s'
  lt : p < s'.pmm.bitmapPages
  free : s.pmm.bitmap p = false
  used : s'.pmm.bitmap p = true
  refs : s'.pmm.pageRefs p = 1
  data : s'.data p = pg
  apart : ∀ e ∈ s'.cache, e.physPage ≠ p

variable {r : Option Nat}

theorem zeroFrame_spec (h : CacheOk s) (hz : zeroFrame s = (r, s')) :
    (r = none ∧ s' = s) ∨ ∃ p, r = some p ∧ NewFrame s p (fun _ => 0) s' := by
  unfold zeroFrame at hz
  split at hz
  · cases hz; exact .inl ⟨rfl, rfl⟩
  rename_i p m hm
  cases hz
  have hf := allocPages_one hm
  obtain ⟨q, hc⟩ : Quiet s { s with pmm := m, data := update s.data p fun _ => 0 } ∧
      CacheOk { s with pmm := m, data := update s.data p fun _ => 0 } :=
    Quiet.of_keeps h rfl rfl rfl hf.keeps (fun q hq => update_of_ne (hf.ne hq) _ _) (SameCache.refl _)
  exact .inr ⟨p, rfl, q, hc, by rw [hf.pages]; exact hf.lt, hf.free, hf.used, hf.refs_self,
    update_self .., fun e he => hf.ne (h e he).2.1⟩

theorem quiet_insert {vn offset : Nat} {m : Pmm} (h : Isolated s)
    (hnone : s.cache.find? (fun e => e.IsFor vn offset) = none) (hf : Pmm.Fresh s.pmm p m) :
    Quiet s { s with
      pmm := m, data := update s.data p (s.content vn offset), cache := ⟨vn, offset, p, 0⟩ :: s.cache } ∧
    CacheOk { s with
      pmm := m, data := update s.data p (s.content vn offset), cache := ⟨vn, offset, p, 0⟩ :: s.cache } := by
  have hd : ∀ q, s.pmm.bitmap q → update s.data p (s.content vn offset) q = s.data q :=
    fun q hq => update_of_ne (hf.ne hq) _ _
  refine ⟨⟨rfl, rfl, hf.keeps, hd, fun vn' offset' => ?_⟩, fun e he => ?_⟩
  · by_cases hx : vn = vn' ∧ offset = offset'
    · obtain ⟨rfl, rfl⟩ := hx
      rw [filePage_eq, filePage_eq, hnone, find?_cons_of_pos (by simp [CacheEntry.IsFor])]
      simp
    · rw [filePage_eq, filePage_eq, find?_cons_of_neg (by rw [decide_eq_true_eq]; exact hx)]
      rcases hs : s.cache.find? (fun e => decide (e.IsFor vn' offset')) with _ | e
      · rw [hs]; rfl
      · rw [hs]
        exact hd _ (h.cached e (mem_of_find?_eq_some hs)).2.1
  · rcases mem_cons.1 he with rfl | he
    · refine ⟨by rw [hf.pages]; exact hf.lt, hf.used, h.free hf.free, ?_⟩
      rw [hf.refs_self]
      decide
    · obtain ⟨h1, h2, h3, h4⟩ := h.cached e he
      refine ⟨by rw [hf.pages]; exact h1, hf.keeps.used _ h2, h3, ?_⟩
      rw [hf.keeps.refs _ h2]
      exact h4

variable {env : FaultEnv}

theorem getOrRead_spec {vn off : Nat} (h : Isolated s) (hg : pagecacheGetOrRead env s vn off = (r, s')) :
    (r = none ∧ Quiet s s' ∧ CacheOk s') ∨
    ∃ c s0, r = some c ∧ Quiet s s0 ∧ CacheOk s0 ∧ s0.data c = s.filePage vn (pageAlign off) ∧
      Held s0 c vn (pageAlign off) s' := by
  rcases getOrRead_cases hg with ⟨rfl, rfl | ⟨p, m, hm, rfl⟩⟩ |
    ⟨c, s0, rfl, hh, ⟨rfl, hf⟩ | ⟨hf, m, hm, rfl⟩⟩
  · exact .inl ⟨rfl, Quiet.refl h.cached⟩
  · have hfr := allocPages_one hm
    exact .inl ⟨rfl, Quiet.of_keeps h.cached rfl rfl rfl hfr.unref_keeps
      (fun q hq => update_of_ne (hfr.ne hq) _ _) (.refl _)⟩
  · obtain ⟨q, hc⟩ := Quiet.refl h.cached
    exact .inr ⟨c, s0, rfl, q, hc, by rw [filePage_eq, hf]; rfl, hh⟩
  · obtain ⟨q, hc⟩ := quiet_insert h hf (allocPages_one hm)
    refine .inr ⟨c, _, rfl, q, hc, ?_, hh⟩
    dsimp only
    rw [update_self, filePage_eq, hf]
    rfl

theorem Held.release {c vn offset : Nat} {m : Pmm} {d : Nat → Page} {s0 s1 : Memory ι}
    (hh : Held s0 c vn offset s1) (off : Nat) (hc : CacheOk s0) (hk : Pmm.Keeps (s0.pmm.pageRef c) m)
    (hd : ∀ q, s0.pmm.bitmap q → d q = s0.data q) :
    SameCache s0.cache (pagecacheRelease { s1 with pmm := m, data := d } vn off).cache ∧
      Quiet s0 { pagecacheRelease { s1 with pmm := m, data := d } vn off with pmm := m.pageUnref c } ∧
      CacheOk { pagecacheRelease { s1 with pmm := m, data := d } vn off with pmm := m.pageUnref c } := by
  obtain ⟨⟨e, he, rfl⟩, rfl⟩ := hh
  obtain ⟨h1, h2, -, h4, h5⟩ := hc e he
  have hkeep := Pmm.Keeps.pinned h1 h2 h4 h5 hk
  have hsame := (SameCache.count s0.cache vn offset (· + 1)).trans (.count _ vn (pageAlign off) (· - 1))
  exact ⟨hsame, Quiet.of_keeps hc rfl rfl rfl hkeep hd hsame⟩

theorem NewFrame.of_quiet {pg : Page} {s0 : Memory ι} (hq : Quiet s s0) (h : NewFrame s0 p pg s') :
    NewFrame s p pg s' :=
  { h with quiet := hq.trans h.quiet, free := hq.pmm.free h.free }

theorem demandFrame_spec {v : Vma} {page : Nat} (h : Isolated s)
    (hv : v.Private) (hd : demandFrame env s v page = (r, s')) :
    (r = none ∧ Quiet s s' ∧ CacheOk s') ∨ ∃ p, r = some p ∧ NewFrame s p (s.demandPageOf v page) s' := by
  rcases demandFrame_cases hd with ⟨hat, hz⟩ | ⟨vn, off, hat, ⟨hvn, hff⟩, ⟨rfl, hg⟩ | ⟨c, s1, hg, hd⟩⟩ <;>
    rw [demandPageOf_eq, hat]
  · rcases zeroFrame_spec h.cached hz with ⟨rfl, rfl⟩ | hp
    · exact .inl ⟨rfl, Quiet.refl h.cached⟩
    · exact .inr hp
  · rcases getOrRead_spec h hg with hn | ⟨c, s0, hc, -⟩
    · exact .inl hn
    · cases hc
  rcases getOrRead_spec h hg with ⟨hn, -⟩ | ⟨c', s0, hc', hq, hok, hdata, hh⟩
  · cases hn
  cases hc'
  have hp1 : s1.pmm = s0.pmm.pageRef c := by rw [hh.state]
  have hd1 : s1.data = s0.data := by rw [hh.state]
  rcases hd with ⟨hs, -⟩ | ⟨-, ⟨rfl, rfl⟩ | ⟨p, m, hm, rfl, rfl⟩⟩
  · exact absurd ⟨hff, by simp [hvn], hs⟩ hv.2.2
  · obtain ⟨-, q, ok⟩ := hh.release (m := s1.pmm) (d := s1.data) off hok
      (by rw [hp1]; exact .refl _) (fun _ _ => by rw [hd1])
    exact .inl ⟨rfl, hq.trans q, ok⟩
  have hf := allocPages_one hm
  rw [hp1] at hf
  have hfree : s0.pmm.bitmap p = false := by simpa using hf.free
  have hapart : ∀ e ∈ s0.cache, e.physPage ≠ p := by
    rintro e he rfl
    rw [(hok e he).2.1] at hfree
    cases hfree
  obtain ⟨e, he, rfl⟩ := hh.mem
  have hcp := (hapart e he).symm
  obtain ⟨hsame, q, ok⟩ := hh.release (d := update s1.data p (s1.data e.physPage)) off hok hf.keeps
    (fun x hx => by rw [hd1]; exact update_of_ne (by rintro rfl; simp [hx] at hfree) _ _)
  refine .inr ⟨p, rfl, NewFrame.of_quiet hq ⟨q, ok, ?_, hfree, ?_, ?_, ?_, fun x hx => ?_⟩⟩
  · rw [pageUnref_pages]
    exact hf.lt.trans_eq hf.pages.symm
  · rw [pageUnref_bitmap_ne hcp]; exact hf.used
  · rw [pageUnref_refs_ne hcp]; exact hf.refs_self
  · rw [Option.elim_some, ← hdata, ← hd1]; exact update_self ..
  · obtain ⟨y, hy, hyx⟩ := hsame.mem x hx
    exact hyx ▸ hapart y hy

/-! ### Mapping a new page -/

variable [DecidableEq ι] {l : Loc} {e : Pte}

omit [Fintype ι] in
theorem PteStore.replaced (h : PteStore s i a e s') (ha : isKernel a = false) : Replaced s i (loc a) e s' := by
  refine ⟨?_, fun j hj => ?_, h.same⟩
  · have := h.uview i
    rwa [if_pos ⟨ha, rfl⟩] at this
  · have := h.uview j
    rwa [if_neg (fun h => hj h.2)] at this

theorem Isolated.replaced (h : Isolated s) (hr : Replaced s i l e s') (hp : e.present)
    (hnew : s.mapRefs e.pfn = 0) (hpages : s'.pmm.bitmapPages = s.pmm.bitmapPages)
    (hlt : e.pfn < s.pmm.bitmapPages) (hused : s'.pmm.bitmap e.pfn) (href : s'.pmm.pageRefs e.pfn = 1)
    (hother : ∀ q, s.pmm.bitmap q → (s.uview i l).refs q = 0 → q ≠ e.pfn →
      s'.pmm.bitmap q ∧ s'.pmm.pageRefs q = s.pmm.pageRefs q)
    (hold : ∀ q, s.pmm.bitmap q → (s.uview i l).refs q = 1 → 1 < s.pmm.pageRefs q →
      s'.pmm.bitmap q ∧ s'.pmm.pageRefs q = s.pmm.pageRefs q - 1)
    (hcache : s'.cache = s.cache) (hapart : ∀ c ∈ s.cache, c.physPage ≠ e.pfn) : Isolated s' := by
  have hm := mapRefs_replaced hr
  have h1 : s'.mapRefs e.pfn = 1 := by
    have := hm e.pfn
    have he : e.refs e.pfn = 1 := if_pos ⟨hp, rfl⟩
    have : (s.uview i l).refs e.pfn = 0 := by
      refine if_neg fun ho => ?_
      have := mapRefs_pos ho.1
      rw [ho.2] at this
      omega
    omega
  have hne : ∀ q, q ≠ e.pfn → s'.mapRefs q + (s.uview i l).refs q = s.mapRefs q := by
    intro q hq
    have he : e.refs q = 0 := if_neg fun h => hq h.2.symm
    have := hm q
    omega
  refine ⟨fun q hq => ?_, fun j l' hp' hw' => ?_, fun c hc => ?_, fun j => ?_⟩
  · by_cases hqe : q = e.pfn
    · subst hqe
      exact ⟨hpages ▸ hlt, hused, href.trans h1.symm⟩
    · have hq' := hne q hqe
      obtain ⟨hb, hu, hr'⟩ := h.mapped q (by omega)
      rcases Nat.eq_zero_or_pos ((s.uview i l).refs q) with h0 | h0
      · obtain ⟨h2, h3⟩ := hother q hu h0 hqe
        exact ⟨hpages ▸ hb, h2, by omega⟩
      have h0 : (s.uview i l).refs q = 1 := by
        unfold Pte.refs at *
        split at h0 <;> simp_all
      obtain ⟨h2, h3⟩ := hold q hu h0 (by omega)
      exact ⟨hpages ▸ hb, h2, by omega⟩
  · by_cases hx : j = i ∧ l' = l
    · obtain ⟨rfl, rfl⟩ := hx
      rw [hr.self, update_self]
      exact h1
    · have hv : s'.uview j l' = s.uview j l' := by
        by_cases hj : j = i
        · subst hj
          rw [hr.self, update_of_ne (fun hl => hx ⟨rfl, hl⟩)]
        · rw [hr.other j hj]
      rw [hv] at hp' hw' ⊢
      have hs := h.solo j l' hp' hw'
      have := hne (s.uview j l').pfn (by rintro he; rw [he] at hs; omega)
      -- the entry that changes does not map this page: it would be a second one
      have : (s.uview i l).refs (s.uview j l').pfn = 0 := by
        refine if_neg fun ho => hx ?_
        obtain ⟨rfl, rfl⟩ := solo_unique hp' hs ho.1 ho.2
        exact ⟨rfl, rfl⟩
      omega
  · rw [hcache] at hc
    obtain ⟨h2, h3, h4, h5⟩ := h.cached c hc
    have := hne c.physPage (hapart c hc)
    obtain ⟨h6, h7⟩ := hother c.physPage h3 (by omega) (hapart c hc)
    exact ⟨hpages ▸ h2, h6, by omega, by rw [h7]; exact h5⟩
  · rw [hr.same.vmas]
    exact h.areas j

structure Undisturbed (s s' : Memory ι) : Prop where
  isolated : Isolated s'
  value : ∀ j b, b < USER_SPACE_END → s'.value j b = s.value j b
  wrote : s'.wrote = s.wrote

omit [DecidableEq ι] in
theorem Undisturbed.trans {s'' : Memory ι} (h : Undisturbed s s') (h' : Undisturbed s' s'') : Undisturbed s s'' :=
  ⟨h'.isolated, fun j b hb => (h'.value j b hb).trans (h.value j b hb), h'.wrote.trans h.wrote⟩

omit [DecidableEq ι] in
theorem Quiet.undisturbed (h : Isolated s) (q : Quiet s s') (hc : CacheOk s') : Undisturbed s s' :=
  ⟨q.isolated h hc, fun j b _ => q.value h j b, q.wrote⟩

theorem value_replaced (h : Isolated s) (ha : a < USER_SPACE_END) (hr : Replaced s i (loc a) e s')
    (hp : e.present) (hdata : ∀ q, s.pmm.bitmap q → q ≠ e.pfn → s'.data q = s.data q)
    (hnew : s.mapRefs e.pfn = 0) (hfile : ∀ vn offset, s'.filePage vn offset = s.filePage vn offset)
    (hval : ∀ b, loc b = loc a → b / PAGE_SIZE = a / PAGE_SIZE → s.value i b = some (s'.data e.pfn (b % PAGE_SIZE)))
    (j : ι) {b : Nat} (hb : b < USER_SPACE_END) : s'.value j b = s.value j b := by
  by_cases hx : j = i ∧ loc b = loc a
  · obtain ⟨rfl, hl⟩ := hx
    rw [hval b hl (loc_inj hb ha hl), value, hr.self, hl, update_self, if_pos hp]
  have hv : s'.uview j (loc b) = s.uview j (loc b) := by
    by_cases hj : j = i
    · subst hj
      rw [hr.self, update_of_ne (fun hl => hx ⟨rfl, hl⟩)]
    · rw [hr.other j hj]
  unfold value demandPageOf
  simp only [hv, hr.same.vmas, hfile]
  split
  · rename_i hpb
    have hm := mapRefs_pos hpb
    rw [hdata _ (h.used hpb) (by rintro he; rw [he] at hm; omega)]
  · rfl

theorem vmaFind_page {vs : List Vma} (hv : ∀ v ∈ vs, v.Aligned) {b : Nat} (hb : b / PAGE_SIZE = a / PAGE_SIZE) :
    vmaFindForAddr vs b = vmaFindForAddr vs a := by
  have hc : ∀ v ∈ vs, decide (v.Covers b) = decide (v.Covers a) := by
    intro v hm
    obtain ⟨h1, h2⟩ := hv v hm
    refine decide_eq_decide.2 ?_
    unfold Vma.Covers PAGE_SIZE at *
    omega
  unfold vmaFindForAddr
  induction vs with
  | nil => rfl
  | cons v vs ih =>
    rw [find?_cons, find?_cons, hc v mem_cons_self,
      ih (fun w hw => hv w (mem_cons_of_mem _ hw)) (fun w hw => hc w (mem_cons_of_mem _ hw))]

theorem demandPage_spec {r : Bool} (h : Isolated s) (ha : a < USER_SPACE_END)
    (hnp : ¬ (s.uview i (loc a)).present) (hd : demandPage env s i a = some (r, s')) : Undisturbed s s' := by
  unfold demandPage at hd
  split at hd
  · cases hd
    exact ⟨h, fun _ _ _ => rfl, rfl⟩
  rename_i v hv
  split at hd
  · rename_i s1 hf
    cases hd
    rcases demandFrame_spec h (h.areas i v (mem_of_find?_eq_some hv)) hf with ⟨-, q, hc⟩ | ⟨p, hp, -⟩
    · exact q.undisturbed h hc
    · cases hp
  rename_i p s1 hf
  obtain ⟨s2, hm, he⟩ := Option.map_eq_some_iff.1 hd
  cases he
  rcases demandFrame_spec h (h.areas i v (mem_of_find?_eq_some hv)) hf with ⟨hn, -⟩ | ⟨p', hp', hn⟩
  · cases hn
  cases hp'
  obtain ⟨hst, hk⟩ := mapPage_store hm
  have hr := hst.replaced (by rw [isKernel_pageAlign]; exact isKernel_user ha)
  rw [loc_pageAlign] at hr
  have h1 : Isolated s1 := hn.quiet.isolated h hn.cached
  have hnew : s1.mapRefs p = 0 := by rw [hn.quiet.mapRefs]; exact h.free hn.free
  have hnp1 : ¬ (s1.uview i (loc a)).present := by rw [hn.quiet.uview]; exact hnp
  have hrefs : ∀ q, (s1.uview i (loc a)).refs q = 0 := fun q => if_neg fun h => hnp1 h.1
  have hu : Undisturbed s1 s' := by
    refine ⟨?_, fun j b hb => ?_, hr.same.wrote⟩
    · refine h1.replaced hr rfl hnew hk.pages hn.lt (hk.used p hn.used) ((hk.refs p hn.used).trans hn.refs)
        (fun q hq _ _ => ⟨hk.used q hq, hk.refs q hq⟩) (fun q _ hq => ?_) hst.cache hn.apart
      rw [hrefs] at hq
      cases hq
    · refine value_replaced h1 ha hr rfl (fun q _ _ => by rw [hst.data]) hnew
        (fun vn offset => ?_) (fun b hl hb => ?_) j hb
      · unfold filePage
        rw [hst.cache, hst.data, hr.same.content]
      · -- before, the page was to be brought in
        have hpage : pageAlign b = pageAlign a := congrArg (· * PAGE_SIZE) hb
        rw [value, hl, if_neg hnp1, hn.quiet.procs, vmaFind_page (fun v hv => (h.areas i v hv).aligned) hb, hv, hpage,
          Option.map_some, hn.quiet.demandPageOf, hst.data]
        exact congrArg (fun pg : Page => some (pg (b % PAGE_SIZE))) hn.data.symm
  exact (hn.quiet.undisturbed h hn.cached).trans hu

omit [Fintype ι] in
theorem cowPage_cases {r : Bool} (ha : a < USER_SPACE_END) (hp : (s.uview i (loc a)).present)
    (hc : cowPage s i a (s.uview i (loc a)) = (r, s')) : r = false ∧ s' = s ∨ ∃ p m, Fresh s.pmm p m ∧
      Replaced s i (loc a) { s.uview i (loc a) with pfn := p, cow := false, write := true } s' ∧
      s'.pmm = m.pageUnref (s.uview i (loc a)).pfn ∧
      s'.data = update s.data p (s.data (s.uview i (loc a)).pfn) ∧ s'.cache = s.cache := by
  unfold cowPage at hc
  split at hc
  · cases hc
    exact .inl ⟨rfl, rfl⟩
  rename_i p m hm
  have hst := setPteAt_store { s.uview i (loc a) with pfn := p, cow := false, write := true }
    (by rw [s.pte_user i (isKernel_user ha)]; exact hp)
  have hr := hst.replaced (isKernel_user ha)
  obtain ⟨-, rfl⟩ := Prod.mk.inj hc
  exact .inr ⟨p, m, allocPages_one hm,
    ⟨hr.self, hr.other, hr.same.vmas, hr.same.next, hr.same.content, hr.same.wrote⟩, rfl,
    by dsimp only; rw [hst.data], hst.cache⟩

theorem cowPage_spec {r : Bool} (h : Isolated s) (ha : a < USER_SPACE_END)
    (hp : (s.uview i (loc a)).present) (hc : cowPage s i a (s.uview i (loc a)) = (r, s')) :
    Undisturbed s s' := by
  rcases cowPage_cases ha hp hc with ⟨-, rfl⟩ | ⟨p, m, hf, hr, hpmm, hdata, hcache⟩
  · exact ⟨h, fun _ _ _ => rfl, rfl⟩
  have hold := h.mapped _ (mapRefs_pos hp)
  have hne := hf.ne hold.2.1
  have hrefs : ∀ q, (s.uview i (loc a)).refs q = 0 → q ≠ (s.uview i (loc a)).pfn := by
    rintro q hq rfl
    rw [Pte.refs, if_pos ⟨hp, rfl⟩] at hq
    cases hq
  refine ⟨?_, fun j b hb => ?_, hr.same.wrote⟩
  · refine h.replaced hr hp (h.free hf.free) (by rw [hpmm, pageUnref_pages, hf.pages]) hf.lt ?_ ?_
      (fun q hq h0 _ => ?_) (fun q hq h0 h1 => ?_) hcache (fun c hc => hf.ne (h.cached c hc).2.1)
    · rw [hpmm, pageUnref_bitmap_ne hne.symm]; exact hf.used
    · rw [hpmm, pageUnref_refs_ne hne.symm]; exact hf.refs_self
    · rw [hpmm, pageUnref_bitmap_ne (hrefs q h0), pageUnref_refs_ne (hrefs q h0)]
      exact ⟨hf.keeps.used q hq, hf.keeps.refs q hq⟩
    · have hq' : q = (s.uview i (loc a)).pfn := by
        by_contra hx
        rw [Pte.refs, if_neg (fun h => hx h.2.symm)] at h0
        cases h0
      subst hq'
      have hk := hf.keeps.refs _ hq
      rw [hpmm, pageUnref_bitmap_self (by omega), pageUnref_refs_self (by rw [hf.pages]; exact hold.1), hk]
      exact ⟨hf.keeps.used _ hq, rfl⟩
  · have hdne : ∀ q, q ≠ p → s'.data q = s.data q := fun q hq => by rw [hdata, update_of_ne hq]
    refine value_replaced h ha hr hp (fun q _ hq => hdne q hq) (h.free hf.free) (fun vn offset => ?_)
      (fun b hl _ => ?_) j hb
    · exact filePage_congr (fun c hc => hdne _ (hf.ne (h.cached c hc).2.1)) hr.same.content
        (by rw [hcache]; exact .refl _) vn offset
    · rw [value, hl, if_pos hp, hdata, update_self]

theorem handlePageFault_spec {w r : Bool} (h : Isolated s) (ha : a < USER_SPACE_END)
    (hf : handlePageFault env s i a { present := (s.pte i a).present, write := w } = some (r, s')) :
    Undisturbed s s' := by
  obtain ⟨-, hp, hc⟩ | ⟨-, rfl⟩ | ⟨hnp, hd⟩ := handlePageFault_cases ha hf
  · exact cowPage_spec h ha hp hc
  · exact ⟨h, fun _ _ _ => rfl, rfl⟩
  · exact demandPage_spec h ha hnp hd

theorem access_spec {w : Bool} {n : Nat} (h : Isolated s)
    (ha : a < USER_SPACE_END) (hacc : access env i a w n s = some (r, s')) :
    Undisturbed s s' ∧ ∀ p, r = some p → (s'.uview i (loc a)).pfn = p ∧ (s'.uview i (loc a)).Permits w := by
  induction n generalizing s with
  | zero => cases hacc
  | succ n ih =>
    unfold access at hacc
    dsimp only at hacc
    split at hacc
    · rename_i hperm
      cases hacc
      rw [s'.pte_user i (isKernel_user ha)] at hperm ⊢
      refine ⟨⟨h, fun _ _ _ => rfl, rfl⟩, ?_⟩
      rintro p hp
      cases hp
      exact ⟨rfl, hperm⟩
    · split at hacc
      · cases hacc
      · rename_i s1 hf
        cases hacc
        exact ⟨handlePageFault_spec h ha hf, by rintro p ⟨⟩⟩
      · rename_i s1 hf
        have hu := handlePageFault_spec h ha hf
        obtain ⟨hu', hr⟩ := ih hu.isolated hacc
        exact ⟨hu.trans hu', hr⟩

end ExoOS.Mm
