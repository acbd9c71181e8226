import ExoOS.Mm.AddressSpace
import ExoOS.Mm.Sharing

/-!
# Accounting for physical pages

The references that the address spaces and the page cache hold (`Memory.refs`): to the tables, to the pages
that entries map, and to the pages of files. `Balanced` says that the page counts are exactly these. The
relation `Works i s s' E E'` describes work on the address space of one process during which the pages that it
has in hand, and not yet in a table or no longer in one, go from `E` to `E'`; every operation is an instance.
-/

namespace ExoOS.Mm

open Finset Function Memory List

variable {ι : Type}

def Proc.refs (P : Proc) (p : Nat) : Nat := (if P.cr3 = 0 then 0 else one P.cr3 p) + treeRefs P.user p

def Memory.cachePages (s : Memory ι) : List Nat := s.cache.map CacheEntry.physPage

def Memory.refs [Fintype ι] (s : Memory ι) (p : Nat) : Nat := ∑ i, (s.procs i).refs p + s.cachePages.count p

/-- The page counts are what is held, where the pages `E` are in hand. -/
structure Balanced [Fintype ι] (B : Others) (s : Memory ι) (E : Nat → Nat) : Prop where
  ledger : Ledger B s.pmm (s.refs + E)
  nodup : s.cachePages.Nodup

structure Works [Fintype ι] (i : ι) (s s' : Memory ι) (E E' : Nat → Nat) : Prop where
  other : ∀ j, j ≠ i → s'.procs j = s.procs j
  live : s.Live i → s'.Live i
  grows : s.cachePages <:+ s'.cachePages
  balanced : ∀ B F, Balanced B s (E + F) → Balanced B s' (E' + F) ∧
    ∀ p ∈ s'.cachePages, p ∈ s.cachePages ∨ ∀ j, j ≠ i → (s.procs j).refs p = 0

section Work

variable [Fintype ι] {s s' s'' : Memory ι} {i j : ι} {a p : Nat} {e : Pte} {E E' E'' F : Nat → Nat} {B : Others}

theorem Balanced.congr (h : Balanced B s E) (hE : ∀ p, E p = F p) : Balanced B s F := (funext hE : E = F) ▸ h

namespace Works

theorem trans (h : Works i s s' E E') (h' : Works i s' s'' E' E'') : Works i s s'' E E'' := by
  refine ⟨fun j hj => (h'.other j hj).trans (h.other j hj), fun hl => h'.live (h.live hl), h.grows.trans h'.grows,
    fun B F hb => ?_⟩
  obtain ⟨h1, h2⟩ := h.balanced B F hb
  obtain ⟨h3, h4⟩ := h'.balanced B F h1
  refine ⟨h3, fun p hp => ?_⟩
  rcases h4 p hp with hp | hp
  · exact h2 p hp
  · exact .inr fun j hj => by rw [← h.other j hj]; exact hp j hj

theorem frame (h : Works i s s' E E') (F : Nat → Nat) : Works i s s' (E + F) (E' + F) := by
  refine ⟨h.other, h.live, h.grows, fun B G hb => ?_⟩
  obtain ⟨h1, h2⟩ := h.balanced B (F + G) (hb.congr fun p => Nat.add_assoc ..)
  exact ⟨h1.congr fun p => (Nat.add_assoc ..).symm, h2⟩

theorem hold (h : Works i s s' 0 0) (F : Nat → Nat) : Works i s s' F F := by
  have := h.frame F
  rwa [zero_add] at this

theorem of_same (hprocs : s'.procs = s.procs) (hpmm : s'.pmm = s.pmm) (hcache : s'.cachePages = s.cachePages) :
    Works i s s' E E := by
  refine ⟨fun j _ => by rw [hprocs], fun hl => ?_, by rw [hcache], fun B F hb => ?_⟩
  · unfold Memory.Live at *
    rw [hprocs]; exact hl
  · refine ⟨⟨?_, by rw [hcache]; exact hb.nodup⟩, fun p hp => .inl (by rwa [hcache] at hp)⟩
    have hrefs : s'.refs = s.refs := by
      unfold refs
      rw [hprocs, hcache]
    rw [hpmm, hrefs]
    exact hb.ledger

theorem refl (i : ι) (s : Memory ι) : Works i s s E E := of_same rfl rfl rfl

theorem foldl {α : Type} {f : Memory ι → α → Memory ι} (l : List α)
    (hf : ∀ s, ∀ x ∈ l, Works i s (f s x) E E) (s : Memory ι) : Works i s (l.foldl f s) E E := by
  induction l generalizing s with
  | nil => exact refl i s
  | cons x l ih =>
    exact (hf s x mem_cons_self).trans (ih (fun s y hy => hf s y (mem_cons_of_mem _ hy)) _)

end Works

variable [DecidableEq ι]

theorem refs_change {p : Nat} (h : ∀ j, j ≠ i → (s'.procs j).refs p = (s.procs j).refs p) :
    s'.refs p + (s.procs i).refs p + s.cachePages.count p = s.refs p + (s'.procs i).refs p + s'.cachePages.count p := by
  have hrefs : (fun j => (s'.procs j).refs p) = update (fun j => (s.procs j).refs p) i ((s'.procs i).refs p) := by
    funext j
    by_cases hj : j = i
    · subst hj; rw [update_self]
    · rw [update_of_ne hj, h j hj]
  have hsum := Table.sum_univ_update (fun n : Nat => n) (fun j => (s.procs j).refs p) i ((s'.procs i).refs p)
  rw [← hrefs] at hsum
  dsimp only at hsum
  unfold refs
  omega

theorem Works.of_ledger (hother : ∀ j, j ≠ i → s'.procs j = s.procs j) (hlive : s.Live i → s'.Live i)
    (hcache : s'.cachePages = s.cachePages)
    (h : ∀ B R, Ledger B s.pmm (R + (s.procs i).refs + E) → Ledger B s'.pmm (R + (s'.procs i).refs + E')) :
    Works i s s' E E' := by
  refine ⟨hother, hlive, by rw [hcache], fun B F hb => ⟨⟨?_, by rw [hcache]; exact hb.nodup⟩,
    fun p hp => .inl (by rwa [hcache] at hp)⟩⟩
  have hle : ∀ p, (s.procs i).refs p ≤ s.refs p := fun p =>
    (Table.le_sum_univ (fun P : Proc => P.refs p) s.procs i).trans (Nat.le_add_right ..)
  have hl := h B (fun p => s.refs p - (s.procs i).refs p + F p)
  convert hl ?_ using 1
  · funext p
    have := refs_change fun j hj => congrArg (Proc.refs · p) (hother j hj)
    have := hle p
    rw [hcache] at *
    simp only [Pi.add_apply]
    omega
  · convert hb.ledger using 1
    funext p
    have := hle p
    simp only [Pi.add_apply]
    omega

variable {m : Pmm} {d : Nat → Page}

theorem Works.of_user {h : Half} {c : List CacheEntry}
    (hs : s' = { s.setProc i { s.procs i with user := h } with pmm := m, cache := c, data := d })
    (hcache : c.map CacheEntry.physPage = s.cachePages)
    (hl : ∀ B R, Ledger B s.pmm (R + treeRefs (s.procs i).user + E) → Ledger B m (R + treeRefs h + E')) :
    Works i s s' E E' := by
  have hi : s'.procs i = { s.procs i with user := h } := by rw [hs]; exact update_self ..
  refine .of_ledger (fun j hj => ?_) (fun hlive => ?_) (by rw [hs]; exact hcache) fun B R hb => ?_
  · rw [hs]; exact update_of_ne hj _ _
  · unfold Memory.Live
    rw [hi]; exact hlive
  · have := hl B (R + fun p => if (s.procs i).cr3 = 0 then 0 else one (s.procs i).cr3 p)
    rw [show s'.pmm = m by rw [hs], hi]
    convert this ?_ using 1
    · funext p
      simp only [Pi.add_apply, Proc.refs]
      omega
    · convert hb using 1
      funext p
      simp only [Pi.add_apply, Proc.refs]
      omega

omit [Fintype ι] in
theorem setHalf_user (s : Memory ι) (i : ι) (h : Half) (ha : isKernel a = false) :
    s.setHalf i a h = s.setProc i { s.procs i with user := h } := by
  unfold setHalf
  rw [ha]
  rfl

theorem mapPage_works (hm : s.mapPage i a e = some s') (ha : isKernel a = false) (he : e.present)
    (hnp : ¬ (s.uview i (loc a)).present) : Works i s s' (one e.pfn) 0 := by
  obtain ⟨⟨h, m⟩, hmap, rfl⟩ := Option.map_eq_some_iff.1 hm
  rw [setHalf_user _ _ _ ha]
  have hhalf : s.half i a = (s.procs i).user := by unfold half; rw [ha]; rfl
  rw [hhalf] at hmap
  obtain ⟨ps, htake, hsum⟩ := mapPageIn_treeRefs hmap
  refine .of_user rfl rfl fun B R hl => ?_
  convert htake B _ hl using 1
  funext p
  have hp := hsum p
  rw [Pte.refs_of_absent (e := view _ _) hnp, Pte.refs_of_present he] at hp
  simp only [Pi.add_apply, Pi.zero_apply]
  omega

omit [Fintype ι] in
theorem setPteAt_user (s : Memory ι) (i : ι) (e : Pte) (ha : isKernel a = false) :
    s.setPteAt i a e = s.setProc i { s.procs i with user := setPte (s.procs i).user (loc a) e } := by
  unfold setPteAt
  rw [setHalf_user _ _ _ ha]
  unfold half
  rw [ha]
  rfl

theorem setPteAt_works (ha : isKernel a = false) (hp : (s.uview i (loc a)).present) (e : Pte) :
    Works i s (s.setPteAt i a e) (e.refs) (one (s.uview i (loc a)).pfn) := by
  rw [setPteAt_user s i e ha]
  refine .of_user rfl rfl fun B R hl => ?_
  convert hl using 1
  funext q
  have hq := setPte_treeRefs e (show (view (s.procs i).user (loc a)).present from hp) q
  rw [Pte.refs_of_present (e := view _ _) hp] at hq
  simp only [Pi.add_apply]
  unfold uview
  omega

theorem alloc_works (ha : s.pmm.allocPages 1 = some (p, m)) :
    Works i s { s with pmm := m, data := d } E (E + one p) := by
  refine .of_ledger (fun _ _ => rfl) id rfl fun B R hl => ?_
  rw [← add_assoc]
  exact hl.alloc ha

theorem unref_works (p : Nat) : Works i s { s with pmm := s.pmm.pageUnref p } (E + one p) E := by
  refine .of_ledger (fun _ _ => rfl) id rfl fun B R hl => ?_
  rw [← add_assoc] at hl
  exact hl.pageUnref

theorem alloc_works_zero (ha : s.pmm.allocPages 1 = some (p, m)) :
    Works i s { s with pmm := m, data := d } 0 (one p) := by
  have := alloc_works (i := i) (d := d) (E := 0) ha
  rwa [zero_add] at this

theorem unref_works_zero (p : Nat) : Works i s { s with pmm := s.pmm.pageUnref p } (one p) 0 := by
  have := unref_works (i := i) (s := s) (E := 0) p
  rwa [zero_add] at this

theorem unmapPage_works (s : Memory ι) (ha : isKernel a = false) : Works i s (unmapPage i s a) 0 0 := by
  unfold unmapPage
  dsimp only
  rw [s.pte_user i ha]
  split
  · rename_i hp
    exact (setPteAt_works ha hp .zero).trans (unref_works_zero _)
  · exact .refl i s

variable {r : Option Nat}

theorem zeroFrame_works (h : zeroFrame s = (r, s')) :
    (r = none ∧ s' = s) ∨ ∃ p, r = some p ∧ Works i s s' 0 (one p) := by
  unfold zeroFrame at h
  split at h
  · cases h; exact .inl ⟨rfl, rfl⟩
  · rename_i p m hm
    cases h
    exact .inr ⟨p, rfl, alloc_works_zero hm⟩

omit [Fintype ι] [DecidableEq ι] in
theorem cachePages_count (c : List CacheEntry) (vn offset : Nat) (g : Nat → Nat) :
    (cacheCount c vn offset g).map CacheEntry.physPage = c.map CacheEntry.physPage := by
  unfold cacheCount
  rw [List.map_map]
  refine List.map_congr_left fun e _ => ?_
  dsimp only [comp]
  split <;> rfl

omit [DecidableEq ι] in
theorem pagecacheRelease_works (s : Memory ι) (vn offset : Nat) : Works i s (pagecacheRelease s vn offset) E E :=
  .of_same rfl rfl (cachePages_count s.cache vn (pageAlign offset) (· - 1))

omit [DecidableEq ι] in
theorem lookup_works {c : CacheEntry} (hc : c ∈ s.cache) (hlt : s.pmm.pageRefs c.physPage + 1 < 2 ^ 32)
    (vn offset : Nat) :
    Works i s { s with cache := cacheCount s.cache vn offset (· + 1), pmm := s.pmm.pageRef c.physPage }
      0 (one c.physPage) := by
  have hpages : (cacheCount s.cache vn offset (· + 1)).map CacheEntry.physPage = s.cachePages := cachePages_count ..
  refine ⟨fun _ _ => rfl, id, by unfold cachePages at *; rw [hpages], fun B F hb => ⟨⟨?_, ?_⟩, fun p hp => ?_⟩⟩
  · have hpos : 0 < (s.refs + (0 + F) : Nat → Nat) c.physPage := by
      have : 0 < s.cachePages.count c.physPage := count_pos_iff.2 (mem_map_of_mem hc)
      simp only [Pi.add_apply, refs]
      omega
    have hB := (hb.ledger.held _ hpos).2
    convert hb.ledger.pageRef hpos (by rw [← hb.ledger.refs _ hB]; exact hlt) using 1
    funext p
    simp only [Pi.add_apply, Pi.zero_apply, refs, cachePages, hpages]
    omega
  · unfold cachePages
    rw [hpages]; exact hb.nodup
  · unfold cachePages at hp
    rw [hpages] at hp; exact .inl hp

omit [DecidableEq ι] in
theorem insert_works {vn offset : Nat} (ha : s.pmm.allocPages 1 = some (p, m)) :
    Works i s { s with pmm := m, data := d, cache := ⟨vn, offset, p, 0⟩ :: s.cache } 0 0 := by
  have hpages : cachePages { s with pmm := m, data := d, cache := ⟨vn, offset, p, 0⟩ :: s.cache } =
      p :: s.cachePages := rfl
  refine ⟨fun _ _ => rfl, id, by rw [hpages]; exact suffix_cons .., fun B F hb => ?_⟩
  have hfree := (hb.ledger.not_held (Pmm.allocPages_one ha).free).2
  simp only [Pi.add_apply, refs, Nat.add_eq_zero_iff] at hfree
  obtain ⟨⟨h1, h2⟩, -⟩ := hfree
  refine ⟨⟨?_, ?_⟩, fun q hq => ?_⟩
  · convert hb.ledger.alloc ha using 1
    funext q
    simp only [Pi.add_apply, refs, hpages, count_cons, one, beq_iff_eq]
    omega
  · exact nodup_cons.2 ⟨count_eq_zero.1 h2, hb.nodup⟩
  · rcases mem_cons.1 hq with rfl | hq
    · exact .inr fun j _ => sum_eq_zero_iff.1 h1 j (mem_univ j)
    · exact .inl hq

variable {env : FaultEnv}

theorem getOrRead_works {vn off : Nat} (i : ι)
    (hlt : ∀ c ∈ s.cachePages, s.pmm.pageRefs c + 1 < 2 ^ 32) (h : pagecacheGetOrRead env s vn off = (r, s')) :
    Works i s s' 0 (r.elim 0 one) := by
  rcases getOrRead_cases h with ⟨rfl, rfl | ⟨p, m, hm, rfl⟩⟩ |
    ⟨c, s0, rfl, ⟨⟨e, he, rfl⟩, rfl⟩, ⟨rfl, -⟩ | ⟨-, m, hm, rfl⟩⟩
  · exact .refl ..
  · exact (alloc_works hm).trans (unref_works p)
  · exact lookup_works he (hlt _ (mem_map_of_mem he)) ..
  · refine (insert_works hm).trans (lookup_works he ?_ ..)
    rw [(Pmm.allocPages_one hm).refs_self]
    decide

theorem demandFrame_works {v : Vma} {page : Nat} (i : ι)
    (hlt : ∀ c ∈ s.cachePages, s.pmm.pageRefs c + 1 < 2 ^ 32) (h : demandFrame env s v page = (r, s')) :
    Works i s s' 0 (r.elim 0 one) := by
  rcases demandFrame_cases h with ⟨-, hz⟩ | ⟨vn, off, -, -, ⟨rfl, hg⟩ | ⟨c, s1, hg, h⟩⟩
  · rcases zeroFrame_works (i := i) hz with ⟨rfl, rfl⟩ | ⟨p, rfl, hw⟩
    · exact .refl ..
    · exact hw
  · exact getOrRead_works i hlt hg
  have hw := getOrRead_works i hlt hg
  rcases h with ⟨_, rfl, rfl⟩ | ⟨_, ⟨rfl, rfl⟩ | ⟨p, m, hm, rfl, rfl⟩⟩
  · exact hw
  · exact (hw.trans (pagecacheRelease_works ..)).trans (unref_works_zero c)
  · -- both pages are in hand, then the cached one is dropped
    have h1 := hw.trans (alloc_works (d := update s1.data p (s1.data c)) hm)
    rw [Option.elim_some, add_comm] at h1
    exact (h1.trans (pagecacheRelease_works ..)).trans (unref_works c)

theorem cowPage_works {r : Bool} (ha : isKernel a = false) (hp : (s.uview i (loc a)).present)
    (h : cowPage s i a (s.uview i (loc a)) = (r, s')) : Works i s s' 0 0 := by
  unfold cowPage at h
  split at h
  · cases h; exact .refl i s
  rename_i p m hm
  rw [setPteAt_user s i _ ha] at h
  cases h
  have h1 := alloc_works_zero (i := i) (d := update s.data p (s.data (s.uview i (loc a)).pfn)) hm
  have h2 := setPteAt_works (s := { s with
    pmm := m, data := update s.data p (s.data (s.uview i (loc a)).pfn) }) ha hp
    { s.uview i (loc a) with pfn := p, cow := false, write := true }
  have he := funext (Pte.refs_of_present (e := { s.uview i (loc a) with pfn := p, cow := false, write := true }) hp)
  rw [setPteAt_user _ i _ ha, he] at h2
  exact (h1.trans h2).trans (unref_works_zero _)

omit [Fintype ι] [DecidableEq ι] in
theorem getOrRead_procs {vn off : Nat} (h : pagecacheGetOrRead env s vn off = (r, s')) : s'.procs = s.procs := by
  rcases getOrRead_cases h with ⟨-, rfl | ⟨p, m, -, rfl⟩⟩ | ⟨c, s0, -, ⟨-, rfl⟩, ⟨rfl, -⟩ | ⟨-, m, -, rfl⟩⟩ <;> rfl

omit [Fintype ι] [DecidableEq ι] in
theorem zeroFrame_procs (h : zeroFrame s = (r, s')) : s'.procs = s.procs := by
  unfold zeroFrame at h
  split at h <;> cases h <;> rfl

omit [Fintype ι] [DecidableEq ι] in
theorem demandFrame_procs {v : Vma} {page : Nat} (h : demandFrame env s v page = (r, s')) : s'.procs = s.procs := by
  rcases demandFrame_cases h with ⟨-, hz⟩ | ⟨vn, off, -, -, ⟨-, hg⟩ | ⟨c, s1, hg, h⟩⟩
  · exact zeroFrame_procs hz
  · exact getOrRead_procs hg
  · rw [← getOrRead_procs hg]
    rcases h with ⟨-, -, rfl⟩ | ⟨-, ⟨-, rfl⟩ | ⟨p, m, -, -, rfl⟩⟩ <;> rfl

theorem demandPage_works {r : Bool} (ha : a < USER_SPACE_END)
    (hnp : ¬ (s.uview i (loc a)).present) (hlt : ∀ c ∈ s.cachePages, s.pmm.pageRefs c + 1 < 2 ^ 32)
    (h : demandPage env s i a = some (r, s')) : Works i s s' 0 0 := by
  unfold demandPage at h
  split at h
  · cases h; exact .refl i s
  split at h
  · rename_i s1 hf
    cases h
    exact demandFrame_works i hlt hf
  rename_i p s1 hf
  obtain ⟨s2, hm, he⟩ := Option.map_eq_some_iff.1 h
  cases he
  have hw := demandFrame_works i hlt hf
  refine hw.trans (mapPage_works hm (by rw [isKernel_pageAlign]; exact isKernel_user ha) rfl ?_)
  unfold uview
  rw [loc_pageAlign, demandFrame_procs hf]
  exact hnp

theorem handlePageFault_works {w r : Bool} (ha : a < USER_SPACE_END)
    (hlt : ∀ c ∈ s.cachePages, s.pmm.pageRefs c + 1 < 2 ^ 32)
    (h : handlePageFault env s i a { present := (s.pte i a).present, write := w } = some (r, s')) :
    Works i s s' 0 0 := by
  obtain ⟨-, hp, hc⟩ | ⟨-, rfl⟩ | ⟨hnp, hd⟩ := handlePageFault_cases ha h
  · exact cowPage_works (isKernel_user ha) hp hc
  · exact .refl ..
  · exact demandPage_works ha hnp hlt hd

end Work

end ExoOS.Mm
