import ExoOS.Mm.PageAccounting

/-!
# Pages of shared file mappings

An entry maps the page that the page cache has for a page of a file exactly where an area shares that page of
the file (`Shares.entry`). Page faults keep this, and what the pages of the files hold; the only exception is
a write to a page that is marked copy on write, which puts a copy in the place of the cached page.
-/

namespace ExoOS.Mm

open Function List Option

variable {ι : Type} {s s' s'' : Memory ι} {i j : ι} {a p : Nat} {k k' : Nat × Nat}

def Vma.sharedFile (v : Vma) (page : Nat) : Option (Nat × Nat) := if v.flags.shared then v.fileAt page else none

def Memory.sharedAt (s : Memory ι) (i : ι) (a : Nat) : Option (Nat × Nat) :=
  (vmaFindForAddr (s.procs i).vmas a).bind fun v => v.sharedFile (pageAlign a)

def Memory.cached (s : Memory ι) (k : Nat × Nat) : Option Nat :=
  (s.cache.find? fun e => e.IsFor k.1 k.2).map CacheEntry.physPage

theorem filePage_cached (s : Memory ι) (vn offset : Nat) :
    s.filePage vn offset = ((s.cached (vn, offset)).map s.data).getD (s.content vn offset) := filePage_eq ..

theorem cached_mem (h : s.cached k = some p) : p ∈ s.cachePages := by
  obtain ⟨e, he, rfl⟩ := map_eq_some_iff.1 h
  exact mem_map_of_mem (mem_of_find?_eq_some he)

theorem cached_inj (hnd : s.cachePages.Nodup) (h : s.cached k = some p) (h' : s.cached k' = some p) : k = k' := by
  obtain ⟨e, he, hp⟩ := map_eq_some_iff.1 h
  obtain ⟨e', he', hp'⟩ := map_eq_some_iff.1 h'
  have hee : e = e' := inj_on_of_nodup_map hnd (mem_of_find?_eq_some he) (mem_of_find?_eq_some he') (hp.trans hp'.symm)
  subst hee
  have h1 : e.IsFor k.1 k.2 := by simpa using find?_some he
  have h2 : e.IsFor k'.1 k'.2 := by simpa using find?_some he'
  exact Prod.ext (h1.1.symm.trans h2.1) (h1.2.symm.trans h2.2)

theorem cached_congr (h : SameCache s.cache s'.cache) (k : Nat × Nat) : s'.cached k = s.cached k := h.find ..

/-! ### Bringing pages in -/

/-- Pages were taken, and pages of the vnodes in `K` brought into the cache. -/
structure Loads (K : Nat → Prop) (s s' : Memory ι) : Prop where
  procs : s'.procs = s.procs
  content : s'.content = s.content
  used : ∀ p, s.pmm.bitmap p = true → s'.pmm.bitmap p = true
  data : ∀ p, s.pmm.bitmap p = true → s'.data p = s.data p
  cached : ∀ k p, s.cached k = some p → s'.cached k = some p
  new : ∀ k p, s'.cached k = some p → s.cached k = some p ∨ s.pmm.bitmap p = false ∧ K k.1
  filePage : ∀ vn offset, s'.filePage vn offset = s.filePage vn offset

namespace Loads

variable {K : Nat → Prop}

theorem trans (h : Loads K s s') (h' : Loads K s' s'') : Loads K s s'' where
  procs := h'.procs.trans h.procs
  content := h'.content.trans h.content
  used p hp := h'.used p (h.used p hp)
  data p hp := (h'.data p (h.used p hp)).trans (h.data p hp)
  cached k p hk := h'.cached k p (h.cached k p hk)
  new k p hk := by
    rcases h'.new k p hk with hk | ⟨hp, hK⟩
    · exact h.new k p hk
    · refine .inr ⟨?_, hK⟩
      by_contra hn
      rw [h.used p (by simpa using hn)] at hp
      cases hp
  filePage vn offset := (h'.filePage vn offset).trans (h.filePage vn offset)

theorem mono {K' : Nat → Prop} (h : Loads K s s') (hK : ∀ vn, K vn → K' vn) : Loads K' s s' :=
  { h with new := fun k p hk => (h.new k p hk).imp_right fun hp => ⟨hp.1, hK _ hp.2⟩ }

theorem cached_iff (h : Loads K s s') (hp : s.pmm.bitmap p) : s'.cached k = some p ↔ s.cached k = some p := by
  refine ⟨fun hk => ?_, h.cached k p⟩
  rcases h.new k p hk with hk | ⟨hn, -⟩
  · exact hk
  · rw [hp] at hn; cases hn

theorem of_same (hu : ∀ k p, s.cached k = some p → s.pmm.bitmap p) (hprocs : s'.procs = s.procs)
    (hcontent : s'.content = s.content) (hc : SameCache s.cache s'.cache)
    (hused : ∀ p, s.pmm.bitmap p → s'.pmm.bitmap p)
    (hd : ∀ p, s.pmm.bitmap p → s'.data p = s.data p) : Loads K s s' := by
  refine ⟨hprocs, hcontent, hused, hd, fun k p hk => ?_, fun k p hk => ?_, fun vn offset => ?_⟩
  · rwa [cached_congr hc]
  · rw [cached_congr hc] at hk; exact .inl hk
  · rw [filePage_cached, filePage_cached, cached_congr hc, hcontent]
    rcases hk : s.cached (vn, offset) with _ | c
    · rfl
    · exact hd c (hu _ c hk)

theorem insert {vn offset : Nat} {m : Pmm} (hu : ∀ k p, s.cached k = some p → s.pmm.bitmap p)
    (hnone : s.cached (vn, offset) = none) (hf : Pmm.Fresh s.pmm p m) (hs' : { s with
      pmm := m, data := update s.data p (s.content vn offset), cache := ⟨vn, offset, p, 0⟩ :: s.cache } = s') :
    Loads (· = vn) s s' ∧ s'.cached (vn, offset) = some p ∧ ∀ k q, s'.cached k = some q → s'.pmm.bitmap q := by
  have hd : ∀ q, s.pmm.bitmap q → s'.data q = s.data q := fun q hq => by
    rw [← hs']; exact update_of_ne (hf.ne hq) _ _
  have hself : s'.cached (vn, offset) = some p := by
    rw [← hs', Memory.cached, find?_cons_of_pos (by simp [CacheEntry.IsFor])]
    rfl
  have hother : ∀ k, k ≠ (vn, offset) → s'.cached k = s.cached k := by
    intro k hk
    rw [← hs', Memory.cached, find?_cons_of_neg]
    · rfl
    · rw [decide_eq_true_eq]
      exact fun hx => hk (Prod.ext hx.1.symm hx.2.symm)
  have hused : ∀ q, s.pmm.bitmap q → s'.pmm.bitmap q := fun q hq => by
    rw [← hs']; exact hf.keeps.used q hq
  refine ⟨⟨by rw [← hs'], by rw [← hs'], hused, hd, fun k q hk => ?_, fun k q hk => ?_, fun vn' offset' => ?_⟩,
    hself, fun k q hk => ?_⟩
  · rwa [hother k (by rintro rfl; rw [hnone] at hk; cases hk)]
  · by_cases hx : k = (vn, offset)
    · subst hx
      rw [hself] at hk
      cases hk
      exact .inr ⟨hf.free, rfl⟩
    · rw [hother k hx] at hk; exact .inl hk
  · rw [filePage_cached, filePage_cached]
    by_cases hx : (vn', offset') = (vn, offset)
    · rw [hx, hself, hnone]
      cases hx
      rw [← hs']
      exact update_self ..
    · rw [hother _ hx, show s'.content = s.content by rw [← hs']]
      rcases hk : s.cached (vn', offset') with _ | c
      · rfl
      · exact hd c (hu _ c hk)
  · by_cases hx : k = (vn, offset)
    · subst hx
      rw [hself] at hk
      cases hk
      rw [← hs']
      exact hf.used
    · rw [hother k hx] at hk
      exact hused q (hu k q hk)

end Loads

theorem lookup_loads {K : Nat → Prop} (hu : ∀ k p, s.cached k = some p → s.pmm.bitmap p) (c vn offset : Nat) :
    Loads K s { s with cache := cacheCount s.cache vn offset (· + 1), pmm := s.pmm.pageRef c } :=
  .of_same hu rfl rfl (.count ..) (fun q hq => by simpa using hq) fun _ _ => rfl

variable {env : FaultEnv} {r : Option Nat}

theorem getOrRead_loads {vn off : Nat}
    (hu : ∀ k p, s.cached k = some p → s.pmm.bitmap p) (h : pagecacheGetOrRead env s vn off = (r, s')) :
    Loads (· = vn) s s' ∧ ∀ c, r = some c → s'.cached (vn, pageAlign off) = some c := by
  rcases getOrRead_cases h with ⟨rfl, rfl | ⟨p, m, hm, rfl⟩⟩ |
    ⟨c, s0, rfl, ⟨-, rfl⟩, ⟨rfl, hf⟩ | ⟨hf, m, hm, hs0⟩⟩
  · exact ⟨.of_same hu rfl rfl (.refl _) (fun _ hq => hq) fun _ _ => rfl, nofun⟩
  · have hfr := Pmm.allocPages_one hm
    exact ⟨.of_same hu rfl rfl (.refl _) hfr.unref_keeps.used (fun q hq => update_of_ne (hfr.ne hq) _ _), nofun⟩
  · refine ⟨lookup_loads hu .., ?_⟩
    rintro c ⟨⟩
    exact ((SameCache.count ..).find _ _).trans hf
  · obtain ⟨hi, hself, hu'⟩ := Loads.insert hu (congrArg (Option.map CacheEntry.physPage) hf)
      (Pmm.allocPages_one hm) hs0.symm
    refine ⟨hi.trans (lookup_loads hu' ..), ?_⟩
    rintro c ⟨⟩
    exact ((SameCache.count ..).find _ _).trans hself

section Frames

variable [Fintype ι] {B : Others} {E : Nat → Nat}

section

variable (hb : Balanced B s E)
include hb

theorem Balanced.cache_used (hp : p ∈ s.cachePages) : s.pmm.bitmap p := by
  refine hb.ledger.bitmap_of_held ?_
  have : 0 < s.cachePages.count p := count_pos_iff.2 hp
  simp only [Pi.add_apply, Memory.refs]
  omega

theorem Balanced.cached_used (hk : s.cached k = some p) : s.pmm.bitmap p :=
  hb.cache_used (cached_mem hk)

theorem Balanced.mapped_used {l : Loc} (hp : (s.uview i l).present) :
    s.pmm.bitmap (s.uview i l).pfn := by
  refine hb.ledger.bitmap_of_held ?_
  have h1 := halfRefs_le_refs i s (s.uview i l).pfn
  have h2 := halfRefs_pos hp
  simp only [Pi.add_apply]
  unfold Memory.uview at *
  omega

theorem Balanced.not_cached (hp : s.pmm.bitmap p = false) : s.cached k ≠ some p := by
  intro hk
  rw [hb.cached_used hk] at hp
  cases hp

theorem zeroFrame_loads {K : Nat → Prop} (h : zeroFrame s = (r, s')) :
    Loads K s s' ∧ ∀ p, r = some p → (s'.data p = fun _ => 0) ∧ ∀ k, s'.cached k ≠ some p := by
  unfold zeroFrame at h
  split at h
  · cases h
    exact ⟨.of_same (fun _ _ => hb.cached_used) rfl rfl (.refl _) (fun _ hq => hq) fun _ _ => rfl, nofun⟩
  rename_i p m hm
  have hf := Pmm.allocPages_one hm
  cases h
  refine ⟨.of_same (fun _ _ => hb.cached_used) rfl rfl (.refl _) hf.keeps.used
    (fun q hq => update_of_ne (hf.ne hq) _ _), ?_⟩
  rintro p ⟨⟩
  exact ⟨update_self .., fun k => hb.not_cached hf.free⟩

end

variable {v : Vma}

variable {page : Nat}

theorem Vma.sharedFile_none (h : v.fileAt page = none) : v.sharedFile page = none := by
  unfold Vma.sharedFile
  rw [h, ite_self]

theorem demandFrame_loads [DecidableEq ι] (i : ι)
    (hb : Balanced B s 0) (hlt : ∀ c ∈ s.cachePages, s.pmm.pageRefs c + 1 < 2 ^ 32)
    (h : demandFrame env s v page = (r, s')) :
    Loads (v.file = some ·) s s' ∧ ∀ p, r = some p → s'.data p = s.demandPageOf v page ∧
      ∀ k, v.sharedFile page = some k ↔ s'.cached k = some p := by
  rcases demandFrame_cases h with ⟨hat, hz⟩ | ⟨vn, off, hat, ⟨hvn, -⟩, ⟨rfl, hg⟩ | ⟨c, s1, hg, h⟩⟩
  · obtain ⟨hl, hnew⟩ := zeroFrame_loads hb hz
    refine ⟨hl, fun p hp => ?_⟩
    rw [Vma.sharedFile_none hat, Memory.demandPageOf_eq, hat]
    exact ⟨(hnew p hp).1, fun k => iff_of_false nofun ((hnew p hp).2 k)⟩
  · exact ⟨(getOrRead_loads (fun _ _ => hb.cached_used) hg).1.mono fun x hx => hx ▸ hvn, nofun⟩
  obtain ⟨hl, hc⟩ := getOrRead_loads (fun _ _ => hb.cached_used) hg
  have hc := hc c rfl
  have hmono : Loads (v.file = some ·) s s1 := hl.mono fun x hx => hx ▸ hvn
  have hpage : s1.data c = s.demandPageOf v page := by
    rw [Memory.demandPageOf_eq, hat, elim_some, ← hl.filePage, filePage_cached, hc]
    rfl
  -- the cache and the handler hold the page
  have hb1 : Balanced B s1 (one c) := ((getOrRead_works i hlt hg).balanced B 0 (by rwa [add_zero])).1
  rcases h with ⟨hsh, rfl, rfl⟩ | ⟨hsh, h⟩
  · refine ⟨hmono, ?_⟩
    rintro p ⟨⟩
    refine ⟨hpage, fun k => ?_⟩
    rw [Vma.sharedFile, if_pos hsh, hat, some.injEq]
    constructor
    · rintro rfl; exact hc
    · exact fun hk => cached_inj hb1.nodup hc hk
  have hheld : 1 < s1.pmm.pageRefs c := by
    have hR : 1 < (s1.refs + one c : Nat → Nat) c := by
      have : 0 < s1.cachePages.count c := count_pos_iff.2 (cached_mem hc)
      simp only [Pi.add_apply, Memory.refs, one_self]
      omega
    rw [hb1.ledger.refs c (hb1.ledger.held c (by omega)).2]
    exact hR
  have hunref : ∀ {m : Pmm}, Pmm.Keeps s1.pmm m → ∀ q, s1.pmm.bitmap q → (m.pageUnref c).bitmap q := by
    intro m hm q hq
    by_cases hqc : q = c
    · subst hqc
      rw [Pmm.pageUnref_bitmap_self (by rw [hm.refs q hq]; exact hheld)]
      exact hm.used q hq
    · rw [Pmm.pageUnref_bitmap_ne hqc]
      exact hm.used q hq
  have hrel := SameCache.count s1.cache vn (pageAlign off) (· - 1)
  rcases h with ⟨rfl, rfl⟩ | ⟨p, m, hm, rfl, rfl⟩
  · exact ⟨hmono.trans (.of_same (fun _ _ => hb1.cached_used) rfl rfl hrel (hunref (.refl _)) fun _ _ => rfl), nofun⟩
  have hf := Pmm.allocPages_one hm
  refine ⟨hmono.trans (.of_same (fun _ _ => hb1.cached_used) rfl rfl hrel (hunref hf.keeps)
    fun q hq => update_of_ne (hf.ne hq) _ _), ?_⟩
  rintro p ⟨⟩
  refine ⟨(update_self ..).trans hpage, fun k => ?_⟩
  rw [Vma.sharedFile, if_neg (by rw [hsh]; decide)]
  refine iff_of_false nofun fun hk => hb1.not_cached (k := k) hf.free ?_
  exact (hrel.find k.1 k.2).symm.trans hk

end Frames

theorem sharedAt_page (hv : ∀ v ∈ (s.procs i).vmas, v.Aligned) {b : Nat} (hb : b / PAGE_SIZE = a / PAGE_SIZE) :
    s.sharedAt i b = s.sharedAt i a := by
  have hpage : pageAlign b = pageAlign a := congrArg (· * PAGE_SIZE) hb
  unfold Memory.sharedAt
  rw [vmaFind_page hv hb, hpage]

section Faults

variable [Fintype ι] [DecidableEq ι] {B : Others} {e : Pte}

/-- The page counts are right, areas are page aligned, and an entry maps the cached page of a file exactly where an
area shares it. -/
structure Shares (B : Others) (s : Memory ι) : Prop where
  accounted : Accounted B s
  aligned : ∀ i, ∀ v ∈ (s.procs i).vmas, v.Aligned
  entry : ∀ i a k, a < USER_SPACE_END → (s.uview i (loc a)).present →
    (s.sharedAt i a = some k ↔ s.cached k = some (s.uview i (loc a)).pfn)

/-- Pages were brought in for process `i`: every file holds what it held. -/
structure Brought (i : ι) (s s' : Memory ι) : Prop where
  works : Works i s s' 0 0
  vmas : ∀ j, (s'.procs j).vmas = (s.procs j).vmas
  next : ∀ j, (s'.procs j).mmapNext = (s.procs j).mmapNext
  content : s'.content = s.content
  filePage : ∀ vn offset, s'.filePage vn offset = s.filePage vn offset
  new : ∀ k p, s'.cached k = some p → (∃ q, s.cached k = some q) ∨ ∃ v ∈ (s.procs i).vmas, v.file = some k.1

namespace Brought

omit [DecidableEq ι] in
theorem refl (i : ι) (s : Memory ι) : Brought i s s :=
  ⟨.refl i s, fun _ => rfl, fun _ => rfl, rfl, fun _ _ => rfl, fun _ p hk => .inl ⟨p, hk⟩⟩

omit [DecidableEq ι] in
theorem trans (h : Brought i s s') (h' : Brought i s' s'') : Brought i s s'' where
  works := h.works.trans h'.works
  vmas j := (h'.vmas j).trans (h.vmas j)
  next j := (h'.next j).trans (h.next j)
  content := h'.content.trans h.content
  filePage vn offset := (h'.filePage vn offset).trans (h.filePage vn offset)
  new k p hk := by
    rcases h'.new k p hk with ⟨q, hq⟩ | hv
    · exact h.new k q hq
    · rw [h.vmas] at hv; exact .inr hv

omit [DecidableEq ι] in
theorem sharedAt (h : Brought i s s') (j : ι) (a : Nat) : s'.sharedAt j a = s.sharedAt j a := by
  unfold Memory.sharedAt
  rw [h.vmas]

end Brought

theorem Shares.replaced (h : Shares B s) (hb : Brought i s s') (hl : s.Live i) (ha : a < USER_SPACE_END)
    (hself : s'.uview i = update (s.uview i) (loc a) e)
    (hnew : ∀ k, s.sharedAt i a = some k ↔ s'.cached k = some e.pfn)
    (hcached : ∀ k p, s.pmm.bitmap p → (s'.cached k = some p ↔ s.cached k = some p)) : Shares B s' := by
  refine ⟨(hb.works.accounted hl h.accounted).1, fun j => by rw [hb.vmas]; exact h.aligned j, fun j b k hbu hp => ?_⟩
  rw [hb.sharedAt]
  by_cases hx : j = i ∧ loc b = loc a
  · obtain ⟨rfl, hloc⟩ := hx
    rw [hself, hloc, update_self, sharedAt_page (h.aligned j) (loc_inj hbu ha hloc)]
    exact hnew k
  have hv : s'.uview j (loc b) = s.uview j (loc b) := by
    by_cases hj : j = i
    · subst hj
      rw [hself, update_of_ne fun hl => hx ⟨rfl, hl⟩]
    · unfold Memory.uview
      rw [hb.works.other j hj]
  rw [hv] at hp ⊢
  rw [h.entry j b k hbu hp, hcached k _ (h.accounted.balanced.mapped_used hp)]

theorem demandPage_shares {r : Bool} (h : Shares B s) (hl : s.Live i) (ha : a < USER_SPACE_END)
    (hnp : ¬ (s.uview i (loc a)).present) (hlt : ∀ c ∈ s.cachePages, s.pmm.pageRefs c + 1 < 2 ^ 32)
    (hd : demandPage env s i a = some (r, s')) :
    Shares B s' ∧ Brought i s s' ∧ (r → (s'.uview i (loc a)).present ∧ (s'.uview i (loc a)).cow = false) := by
  have hw := demandPage_works ha hnp hlt hd
  unfold demandPage at hd
  split at hd
  · cases hd
    exact ⟨h, .refl i s, nofun⟩
  rename_i v hv
  have hmem := mem_of_find?_eq_some hv
  split at hd
  · -- there is no page for it
    rename_i s1 hf
    cases hd
    obtain ⟨hload, -⟩ := demandFrame_loads i h.accounted.balanced hlt hf
    have hb : Brought i s s' := ⟨hw, fun j => by rw [hload.procs], fun j => by rw [hload.procs], hload.content,
      hload.filePage, fun k p hk => (hload.new k p hk).imp (fun h => ⟨p, h⟩) fun h => ⟨v, hmem, h.2⟩⟩
    refine ⟨⟨(hw.accounted hl h.accounted).1, by rw [hload.procs]; exact h.aligned, fun j b k hbu hp => ?_⟩, hb, nofun⟩
    have huv : s'.uview j = s.uview j := by unfold Memory.uview; rw [hload.procs]
    rw [huv] at hp ⊢
    rw [hb.sharedAt, h.entry j b k hbu hp, hload.cached_iff (h.accounted.balanced.mapped_used hp)]
  rename_i p s1 hf
  obtain ⟨s2, hm, he⟩ := map_eq_some_iff.1 hd
  cases he
  obtain ⟨hload, hpage⟩ := demandFrame_loads i h.accounted.balanced hlt hf
  obtain ⟨hst, -⟩ := mapPage_store hm
  have hr := hst.replaced (by rw [isKernel_pageAlign]; exact isKernel_user ha)
  rw [loc_pageAlign] at hr
  have hc : ∀ k, s'.cached k = s1.cached k := fun k => by unfold Memory.cached; rw [hst.cache]
  have hb : Brought i s s' := by
    refine ⟨hw, fun j => by rw [hst.same.vmas, hload.procs], fun j => by rw [hst.same.next, hload.procs],
      hst.same.content.trans hload.content, fun vn offset => ?_, fun k p hk => ?_⟩
    · rw [← hload.filePage, filePage_cached, filePage_cached, hc, hst.data, hst.same.content]
    · rw [hc] at hk
      exact (hload.new k p hk).imp (fun h => ⟨p, h⟩) fun h => ⟨v, hmem, h.2⟩
  have hself : s'.uview i = update (s.uview i) (loc a) (v.pteFor p) := by
    rw [hr.self]
    unfold Memory.uview
    rw [hload.procs]
  refine ⟨h.replaced hb hl ha hself (fun k => ?_) fun k q hq => ?_, hb, fun _ => ?_⟩
  · rw [hc, Memory.sharedAt, hv]
    exact (hpage p rfl).2 k
  · rw [hc, hload.cached_iff hq]
  · rw [hself, update_self]
    exact ⟨rfl, rfl⟩

theorem cowPage_shares {r : Bool} (h : Shares B s) (hl : s.Live i) (ha : a < USER_SPACE_END)
    (hp : (s.uview i (loc a)).present) (hns : s.sharedAt i a = none)
    (hc : cowPage s i a (s.uview i (loc a)) = (r, s')) :
    Shares B s' ∧ Brought i s s' ∧ (r → (s'.uview i (loc a)).present ∧ (s'.uview i (loc a)).cow = false) := by
  have hw := cowPage_works (isKernel_user ha) hp hc
  rcases cowPage_cases ha hp hc with ⟨rfl, rfl⟩ | ⟨p, m, hf, hr, -, hdata, hcache⟩
  · exact ⟨h, .refl i s', nofun⟩
  have hcached : ∀ k, s'.cached k = s.cached k := fun k => by unfold Memory.cached; rw [hcache]
  have hb : Brought i s s' := by
    refine ⟨hw, hr.same.vmas, hr.same.next, hr.same.content, fun vn offset => ?_,
      fun k q hk => .inl ⟨q, by rwa [hcached] at hk⟩⟩
    rw [filePage_cached, filePage_cached, hcached, hr.same.content]
    rcases hk : s.cached (vn, offset) with _ | c
    · rfl
    · rw [hdata]
      exact update_of_ne (hf.ne (h.accounted.balanced.cached_used hk)) ..
  refine ⟨h.replaced hb hl ha hr.self (fun k => ?_) fun k q _ => by rw [hcached], hb, fun _ => ?_⟩
  · rw [hns, hcached]
    exact iff_of_false nofun (h.accounted.balanced.not_cached hf.free)
  · rw [hr.self, update_self]
    exact ⟨hp, rfl⟩

/-- An access that does not break the sharing: a page that is shared there is not marked copy on write. -/
def Harmless (s : Memory ι) (i : ι) (a : Nat) (w : Bool) : Prop :=
  w → s.sharedAt i a ≠ none → ¬ ((s.uview i (loc a)).present ∧ (s.uview i (loc a)).cow)

theorem handlePageFault_shares {w r : Bool} (h : Shares B s) (hl : s.Live i)
    (ha : a < USER_SPACE_END) (hh : Harmless s i a w)
    (hlt : ¬ (s.uview i (loc a)).present → ∀ c ∈ s.cachePages, s.pmm.pageRefs c + 1 < 2 ^ 32)
    (hf : handlePageFault env s i a { present := (s.pte i a).present, write := w } = some (r, s')) :
    Shares B s' ∧ Brought i s s' ∧ (r → (s'.uview i (loc a)).present ∧ (s'.uview i (loc a)).cow = false) := by
  obtain ⟨⟨hw, hcow⟩, hp, hc⟩ | ⟨hr, rfl⟩ | ⟨hnp, hd⟩ := handlePageFault_cases ha hf
  · refine cowPage_shares h hl ha hp ?_ hc
    by_contra hsh
    exact hh hw hsh ⟨hp, hcow⟩
  · exact ⟨h, .refl .., fun h => absurd (hr.symm.trans h) Bool.false_ne_true⟩
  · exact demandPage_shares h hl ha hnp (hlt hnp) hd

theorem access_shares {w : Bool} {n : Nat} (h : Shares B s) (hl : s.Live i)
    (ha : a < USER_SPACE_END) (hh : Harmless s i a w)
    (hlt : ¬ (s.uview i (loc a)).present → ∀ c ∈ s.cachePages, s.pmm.pageRefs c + 1 < 2 ^ 32)
    (hacc : access env i a w n s = some (r, s')) :
    Shares B s' ∧ Brought i s s' ∧ ∀ p, r = some p → (s'.uview i (loc a)).pfn = p ∧ (s'.uview i (loc a)).Permits w := by
  induction n generalizing s with
  | zero => cases hacc
  | succ n ih =>
    unfold access at hacc
    dsimp only at hacc
    split at hacc
    · rename_i hperm
      cases hacc
      rw [s'.pte_user i (isKernel_user ha)] at hperm ⊢
      refine ⟨h, .refl i s', ?_⟩
      rintro p ⟨⟩
      exact ⟨rfl, hperm⟩
    split at hacc
    · cases hacc
    · rename_i s1 hf
      cases hacc
      obtain ⟨h1, hb, -⟩ := handlePageFault_shares h hl ha hh hlt hf
      exact ⟨h1, hb, nofun⟩
    · rename_i s1 hf
      -- the page is there now and not marked, so that no other page is brought in
      obtain ⟨h1, hb, hpres⟩ := handlePageFault_shares h hl ha hh hlt hf
      obtain ⟨hp, hcow⟩ := hpres rfl
      obtain ⟨h2, hb', hr⟩ := ih h1 (hb.works.live hl)
        (fun _ _ hx => by rw [hcow] at hx; exact Bool.false_ne_true hx.2) (fun hn => absurd hp hn) hacc
      exact ⟨h2, hb.trans hb', hr⟩

end Faults

end ExoOS.Mm
