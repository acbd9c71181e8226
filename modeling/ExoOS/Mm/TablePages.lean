import ExoOS.Mm.Ledger
import ExoOS.Mm.PageTable

/-!
# The pages of a page table tree

A tree holds one reference to the page of every table in it and one to every page that a present entry maps.
`halfSum` counts over a tree with any weights for tables and entries; `treeRefs` (everything that is held),
`tableRefs` (the tables) and `halfRefs` (what the entries map) are instances. The rules say what the operations
on a tree do to a ledger: mapping a page, cloning, and giving the tree back (`free_pt_level`).
-/

namespace ExoOS.Mm

open Finset Function Option Nat Pte

/-! ### Giving a tree back -/

/-- `free_pt_level(.., 1)` -/
def freePt (m : Pmm) (t : Pt) : Pmm :=
  (List.finRange 512).foldl (fun m i =>
    if (t.ent i).present then
      if (t.ent i).pfn + 1 ≤ m.bitmapPages then m.pageUnref (t.ent i).pfn else m
    else m) m

/-- A present entry of an upper level: what is below it is given back, then the table it points to. -/
def freeEntry {α : Type} (child : Pmm → PageTable α → Pmm) (m : Pmm) : Option (PageTable α) → Pmm
  | none => m
  | some c => (child m c).freePagesAt c.pfn 1

def freeTable {α : Type} (child : Pmm → PageTable α → Pmm) (m : Pmm) (t : PageTable (Option (PageTable α))) :
    Pmm :=
  (List.finRange 512).foldl (fun m i => freeEntry child m (t.ent i)) m

def freePd : Pmm → Pd → Pmm := freeTable freePt

def freePdpt : Pmm → Pdpt → Pmm := freeTable freePd

/-- The loop of `vmm_destroy_address_space` over the user half. -/
def freeHalf (m : Pmm) (h : Half) : Pmm :=
  (List.finRange 256).foldl (fun m i => freeEntry freePdpt m (h i)) m

section Count

variable {α : Type}

def optSum (c : α → Nat) : Option α → Nat
  | none => 0
  | some x => c x

@[simp] theorem optSum_none (c : α → Nat) : optSum c none = 0 := rfl

@[simp] theorem optSum_some (c : α → Nat) (x : α) : optSum c (some x) = c x := rfl

theorem optSum_add (c d : α → Nat) (o : Option α) : optSum (fun x => c x + d x) o = optSum c o + optSum d o := by
  rcases o with _ | x <;> rfl

variable (u : Nat → Nat) (w : Pte → Nat)

def tableSum (c : α → Nat) (t : PageTable α) : Nat := u t.pfn + ∑ i, c (t.ent i)

def ptSum : Pt → Nat := tableSum u w

def pdSum : Pd → Nat := tableSum u (optSum (ptSum u w))

def pdptSum : Pdpt → Nat := tableSum u (optSum (pdSum u w))

def halfSum (h : Half) : Nat := ∑ i, optSum (pdptSum u w) (h i)

variable {u w} {c : α → Nat}

theorem tableSum_update (t : PageTable α) (i : Idx) (x : α) :
    tableSum u c { t with ent := update t.ent i x } + c (t.ent i) = tableSum u c t + c x := by
  have h := Table.sum_univ_update c t.ent i x
  unfold tableSum
  dsimp only
  omega

theorem tableSum_zero (c : α → Nat) : tableSum (fun _ => 0) c = fun t => ∑ i, c (t.ent i) := funext fun _ => zero_add _

theorem tableSum_add (u u' : Nat → Nat) (c d : α → Nat) (t : PageTable α) :
    tableSum (fun p => u p + u' p) (fun x => c x + d x) t = tableSum u c t + tableSum u' d t := by
  unfold tableSum
  rw [sum_add_distrib]
  dsimp only
  omega

theorem halfSum_add (u u' : Nat → Nat) (w w' : Pte → Nat) (h : Half) :
    halfSum (fun p => u p + u' p) (fun e => w e + w' e) h = halfSum u w h + halfSum u' w' h := by
  have h1 : ptSum (fun p => u p + u' p) (fun e => w e + w' e) = fun t => ptSum u w t + ptSum u' w' t :=
    funext fun t => tableSum_add u u' w w' t
  have h2 : pdSum (fun p => u p + u' p) (fun e => w e + w' e) = fun t => pdSum u w t + pdSum u' w' t := by
    funext t
    unfold pdSum
    rw [h1, ← tableSum_add]
    congr 1
    funext o
    exact optSum_add ..
  have h3 : pdptSum (fun p => u p + u' p) (fun e => w e + w' e) = fun t => pdptSum u w t + pdptSum u' w' t := by
    funext t
    unfold pdptSum
    rw [h2, ← tableSum_add]
    congr 1
    funext o
    exact optSum_add ..
  unfold halfSum
  rw [h3, ← sum_add_distrib]
  exact sum_congr rfl fun i _ => optSum_add ..

end Count

def treeRefs (h : Half) (p : Nat) : Nat := halfSum (one · p) (Pte.refs · p) h

def tableRefs (h : Half) (p : Nat) : Nat := halfSum (one · p) (fun _ => 0) h

theorem optSum_entries {α β ι : Type} [Fintype ι] [Fintype β] {v : α → β → Pte} {w : Pte → Nat} {c : α → Nat}
    (hw : w .zero = 0) (hc : ∀ x, c x = ∑ y, w (v x y)) (f : ι → Option α) :
    ∑ i, optSum c (f i) = ∑ x, w (optView v f x) := by
  rw [Fintype.sum_prod_type]
  refine sum_congr rfl fun i _ => ?_
  rcases hf : f i with _ | x
  · rw [optSum_none, sum_eq_zero]
    intro y _
    rw [optView_of_none hf, hw]
  · rw [optSum_some, hc]
    exact sum_congr rfl fun y _ => by rw [optView_of_some hf]

theorem halfSum_entries {w : Pte → Nat} (hw : w .zero = 0) (h : Half) :
    halfSum (fun _ => 0) w h = ∑ l, w (view h l) := by
  refine optSum_entries hw (fun t => ?_) h
  rw [pdptSum, tableSum_zero]
  refine optSum_entries hw (fun t => ?_) t.ent
  rw [pdSum, tableSum_zero]
  refine optSum_entries hw (fun t => ?_) t.ent
  rw [ptSum, tableSum_zero]

theorem halfRefs_eq (h : Half) (p : Nat) : halfRefs h p = halfSum (fun _ => 0) (refs · p) h := by
  unfold halfRefs
  exact (halfSum_entries (w := fun e => e.refs p) (refs_zero p) h).symm

theorem treeRefs_eq (h : Half) : treeRefs h = tableRefs h + halfRefs h := by
  funext p
  rw [Pi.add_apply, halfRefs_eq]
  unfold treeRefs tableRefs
  rw [← halfSum_add]
  simp only [add_zero, zero_add]

def Takes (m : Pmm) (ps : List Nat) (m' : Pmm) : Prop :=
  ∀ B R, Ledger B m R → Ledger B m' (R + fun p => ps.count p)

theorem Takes.nil (m : Pmm) : Takes m [] m := fun _ _ h => h

theorem Takes.append {m m1 m2 : Pmm} {ps qs : List Nat} (h : Takes m ps m1) (h' : Takes m1 qs m2) :
    Takes m (ps ++ qs) m2 := by
  intro B R hl
  have := h' B _ (h B R hl)
  convert this using 1
  funext p
  simp only [Pi.add_apply, List.count_append]
  omega

theorem Takes.alloc {m m' : Pmm} {p : Nat} (h : m.allocPages 1 = some (p, m')) : Takes m [p] m' := by
  intro B R hl
  convert hl.alloc h using 1
  funext q
  simp only [Pi.add_apply, one, List.count_singleton, beq_iff_eq]

theorem tableOrAlloc_takes {α : Type} {m m' : Pmm} {z : α} {o : Option (PageTable α)} {t : PageTable α}
    (h : tableOrAlloc m z o = some (t, m')) : ∃ ps, Takes m ps m' ∧ ∀ (u : Nat → Nat) (c : α → Nat), c z = 0 →
        tableSum u c t = optSum (tableSum u c) o + (ps.map u).sum := by
  rcases o with _ | t0
  · obtain ⟨⟨p, m1⟩, ha, he⟩ := map_eq_some_iff.1 h
    cases he
    refine ⟨[p], .alloc ha, fun u c hc => ?_⟩
    simp [tableSum, hc]
  · cases h
    exact ⟨[], .nil m, fun u c _ => by simp⟩

theorem halfSum_path (u : Nat → Nat) (w : Pte → Nat) (h : Half) (i : Fin 256) (pdpt : Pdpt) (j : Fin 512) (pd : Pd)
    (k : Fin 512) (pt : Pt) (n : Fin 512) (e : Pte) :
    halfSum u w (update h i (some { pdpt with ent := update pdpt.ent j (some { pd with
      ent := update pd.ent k (some { pt with ent := update pt.ent n e }) }) })) + optSum (pdptSum u w) (h i) +
        optSum (pdSum u w) (pdpt.ent j) + optSum (ptSum u w) (pd.ent k) + w (pt.ent n) =
      halfSum u w h + pdptSum u w pdpt + pdSum u w pd + ptSum u w pt + w e := by
  have e3 := tableSum_update (u := u) (c := w) pt n e
  have e2 := tableSum_update (u := u) (c := optSum (ptSum u w)) pd k (some { pt with ent := update pt.ent n e })
  have e1 := tableSum_update (u := u) (c := optSum (pdSum u w)) pdpt j
    (some { pd with ent := update pd.ent k (some { pt with ent := update pt.ent n e }) })
  have e0 := Table.sum_univ_update (optSum (pdptSum u w)) h i (some { pdpt with
    ent := update pdpt.ent j (some { pd with ent := update pd.ent k (some { pt with ent := update pt.ent n e }) }) })
  unfold halfSum
  simp only [optSum_some, pdptSum, pdSum, ptSum] at *
  omega

variable {l : Loc} {e : Pte}

theorem mapPageIn_takes {m m' : Pmm} {h h' : Half}
    (hm : mapPageIn m h l e = some (h', m')) : ∃ ps, Takes m ps m' ∧ ∀ (u : Nat → Nat) (w : Pte → Nat), w .zero = 0 →
        halfSum u w h' + w (view h l) = halfSum u w h + (ps.map u).sum + w e := by
  obtain ⟨i, j, k, n⟩ := l
  simp only [mapPageIn, bind_eq_bind, bind_eq_some_iff, Prod.exists] at hm
  obtain ⟨pdpt, m1, h1, pd, m2, h2, pt, m3, h3, rfl, rfl⟩ := hm
  have hview : view h (i, j, k, n) = pt.ent n := by
    have v1 := tableOrAlloc_view pdptView (fun _ => rfl) h1
    have v2 := tableOrAlloc_view pdView (fun _ => rfl) h2
    have v3 := tableOrAlloc_view PageTable.ent (fun _ => rfl) h3
    rw [v3]
    exact ((congrFun v1 (j, k, n)).symm.trans (congrFun v2 (k, n)).symm)
  obtain ⟨ps1, t1, s1⟩ := tableOrAlloc_takes h1
  obtain ⟨ps2, t2, s2⟩ := tableOrAlloc_takes h2
  obtain ⟨ps3, t3, s3⟩ := tableOrAlloc_takes h3
  refine ⟨ps1 ++ ps2 ++ ps3, (t1.append t2).append t3, fun u w hw => ?_⟩
  rw [hview]
  simp only [List.map_append, List.sum_append]
  have hsum := halfSum_path u w h i pdpt j pd k pt n e
  have f1 := s1 u (optSum (pdSum u w)) rfl
  have f2 := s2 u (optSum (ptSum u w)) rfl
  have f3 := s3 u w hw
  simp only [pdptSum, pdSum, ptSum] at *
  omega

theorem setPte_sum {h : Half} (e : Pte) (he : (view h l).present) (u : Nat → Nat) (w : Pte → Nat) :
    halfSum u w (setPte h l e) + w (view h l) = halfSum u w h + w e := by
  obtain ⟨i, j, k, n⟩ := l
  unfold setPte
  unfold view at he ⊢
  rcases h1 : h i with _ | pdpt
  · rw [optView_of_none h1] at he; cases he
  rw [optView_of_some h1] at he ⊢
  unfold pdptView at he ⊢
  dsimp only
  rcases h2 : pdpt.ent j with _ | pd
  · rw [optView_of_none h2] at he; cases he
  rw [optView_of_some h2] at he ⊢
  unfold pdView at he ⊢
  dsimp only
  rcases h3 : pd.ent k with _ | pt
  · rw [optView_of_none h3] at he; cases he
  rw [optView_of_some h3] at ⊢
  dsimp only
  have hsum := halfSum_path u w h i pdpt j pd k pt n e
  simp only [h1, h2, h3, optSum_some] at hsum
  omega

theorem count_eq_sum (ps : List Nat) (q : Nat) : (ps.map (one · q)).sum = ps.count q := by
  induction ps with
  | nil => rfl
  | cons p ps ih =>
    rw [List.map_cons, List.sum_cons, List.count_cons, ih]
    simp only [one, beq_iff_eq]
    omega

theorem mapPageIn_treeRefs {m m' : Pmm} {h h' : Half} (hm : mapPageIn m h l e = some (h', m')) : ∃ ps, Takes m ps m' ∧
      ∀ q, treeRefs h' q + (view h l).refs q = treeRefs h q + ps.count q + e.refs q := by
  obtain ⟨ps, htake, hsum⟩ := mapPageIn_takes hm
  refine ⟨ps, htake, fun q => ?_⟩
  rw [← count_eq_sum]
  exact hsum (one · q) (refs · q) rfl

theorem setPte_treeRefs {h : Half} (e : Pte) (he : (view h l).present) (q : Nat) :
    treeRefs (setPte h l e) q + (view h l).refs q = treeRefs h q + e.refs q :=
  setPte_sum e he (one · q) (refs · q)

theorem Pte.refs_of_present (h : e.present) (p : Nat) : e.refs p = one e.pfn p := by
  simp [refs, one, h]

theorem Pte.refs_of_absent (h : ¬ e.present) (p : Nat) : e.refs p = 0 := if_neg fun hx => h hx.1

/-! ### Giving the tree back -/

section Free

variable {α : Type} {B : Others} {m : Pmm} {R : Nat → Nat}

def FreeSpec (c : Nat → α → Nat) (child : Pmm → PageTable α → Pmm) : Prop :=
  ∀ B m t R, Ledger B m (R + fun p => ∑ i, c p (t.ent i)) → Ledger B (child m t) R

theorem free_loop {ι : Type} {f : Pmm → ι → Pmm} {c : Nat → ι → Nat}
    (hf : ∀ m i R, Ledger B m (R + fun p => c p i) → Ledger B (f m i) R) (is : List ι)
    (h : Ledger B m (R + fun p => (is.map (c p)).sum)) : Ledger B (is.foldl f m) R := by
  induction is generalizing m with
  | nil => exact h
  | cons i is ih =>
    refine ih (hf m i _ ?_)
    convert h using 1
    funext p
    simp only [Pi.add_apply, List.map_cons, List.sum_cons]
    omega

theorem freePt_spec : FreeSpec (fun p e => refs e p) freePt := by
  intro B m t R h
  have hsum := Fin.sum_univ_def (M := Nat) (n := 512)
  unfold freePt
  generalize List.finRange 512 = is at *
  refine free_loop (fun m i R h => ?_) is (by simpa only [hsum] using h)
  by_cases hp : (t.ent i).present
  · have hone : (fun p => (t.ent i).refs p) = one (t.ent i).pfn := funext (refs_of_present hp)
    rw [hone] at h
    have hlt := (h.held (t.ent i).pfn (by simp)).1
    rw [if_pos hp, if_pos (succ_le_of_lt hlt)]
    exact h.pageUnref
  · rw [if_neg hp]
    convert h using 1
    funext p
    rw [Pi.add_apply, refs_of_absent hp, add_zero]

theorem freeEntry_spec {c : Nat → α → Nat} {child : Pmm → PageTable α → Pmm} (hc : FreeSpec c child)
    (o : Option (PageTable α)) (h : Ledger B m (R + fun p => optSum (tableSum (one · p) (c p)) o)) :
    Ledger B (freeEntry child m o) R := by
  rcases o with _ | t
  · exact h
  refine Ledger.freePage (hc B m t _ ?_)
  convert h using 1
  funext p
  simp only [Pi.add_apply, optSum_some, tableSum]
  omega

theorem freeTable_spec {c : Nat → α → Nat} {child : Pmm → PageTable α → Pmm} (hc : FreeSpec c child) :
    FreeSpec (fun p => optSum (tableSum (one · p) (c p))) (freeTable child) := by
  intro B m t R h
  have hsum := Fin.sum_univ_def (M := Nat) (n := 512)
  unfold freeTable
  generalize List.finRange 512 = is at *
  exact free_loop (c := fun p i => optSum (tableSum (one · p) (c p)) (t.ent i))
    (fun m i R h => freeEntry_spec hc _ h) is (by simpa only [hsum] using h)

theorem freeHalf_spec {t : Half} (h : Ledger B m (R + treeRefs t)) : Ledger B (freeHalf m t) R := by
  have hspec := freeTable_spec (freeTable_spec freePt_spec)
  have hsum := Fin.sum_univ_def (M := Nat) (n := 256)
  unfold freeHalf
  unfold treeRefs halfSum at h
  generalize List.finRange 256 = is at *
  exact free_loop (c := fun p i => optSum (pdptSum (one · p) (refs · p)) (t i))
    (fun m i R h => freeEntry_spec hspec _ h) is (by simpa only [hsum] using h)

end Free

section Clone

variable {α : Type} {B : Others} {m m' : Pmm} {R : Nat → Nat}

/-- The pages that `L` counts are held, and have room for as many references more. -/
def Room (R L : Nat → Nat) : Prop := ∀ p, 0 < L p → 0 < R p ∧ R p + L p < 2 ^ 32

theorem Room.step {L L' T : Nat → Nat} (h : Room R fun p => L p + L' p) (hT : ∀ p, 0 < R p → T p = L p) :
    Room (R + T) L' := by
  intro p hp
  obtain ⟨h1, h2⟩ := h p (Nat.add_pos_right _ hp)
  dsimp only at h2
  rw [Pi.add_apply, hT p h1]
  exact ⟨by omega, by omega⟩

/-- `child` clones a table: the source holds what it held (`own`), the clone holds new pages for its tables and
the pages that the source maps (`leaf`). -/
def ClonePages (own leaf : Nat → α → Nat) (child : Pmm → α → Option (α × α × Pmm)) : Prop :=
  ∀ m c c' d m', child m c = some (c', d, m') → (∀ p, own p c' = own p c) ∧
    ∀ B R, Ledger B m R → Room R (leaf · c) →
      Ledger B m' (R + (own · d)) ∧ ∀ p, 0 < R p → own p d = leaf p c

theorem Pte.refs_afterClone (e : Pte) (p : Nat) : e.afterClone.refs p = e.refs p := by
  unfold afterClone
  split <;> rfl

theorem Pte.refs_cloned (e : Pte) (p : Nat) : e.cloned.refs p = e.refs p := by
  unfold cloned
  split
  · rfl
  · rename_i hp
    rw [refs_zero, refs_of_absent hp]

theorem Ledger.refAll (es : List Pte) (hl : Ledger B m R) (hroom : Room R fun p => (es.map (·.refs p)).sum) :
    Ledger B (refAll m es) (R + fun p => (es.map (·.refs p)).sum) := by
  induction es generalizing m R with
  | nil => exact hl
  | cons e es ih =>
    simp only [List.map_cons, List.sum_cons] at hroom ⊢
    by_cases hp : e.present
    · have hone := refs_of_present hp
      obtain ⟨h1, h2⟩ := hroom e.pfn (Nat.add_pos_left (by rw [hone, one_self]; decide) _)
      dsimp only at h2
      rw [hone, one_self] at h2
      convert ih (hl.pageRef h1 (by omega)) (hroom.step fun p _ => (hone p).symm) using 1
      · simp [Mm.refAll, hp]
      · funext p
        simp only [Pi.add_apply, hone]
        omega
    · simp only [refs_of_absent hp, Nat.zero_add] at hroom ⊢
      convert ih hl hroom using 1
      simp [Mm.refAll, hp]

theorem clonePt_pages : ClonePages (fun p => ptSum (one · p) (refs · p)) (fun p t => ∑ i, (t.ent i).refs p)
    clonePt := by
  intro m t t' d m' h
  obtain ⟨hsrc, hdst, -⟩ := clonePt_spec m t t' d m' h
  have hnd := List.nodup_finRange 512
  have hsum := Fin.sum_univ_def (M := Nat) (n := 512)
  unfold clonePt at h
  generalize List.finRange 512 = is at *
  obtain ⟨⟨p, m1⟩, ha, h⟩ := bind_eq_some_iff.1 h
  dsimp only at h
  have hpfn : t'.pfn = t.pfn ∧ d.pfn = p ∧ m' = (is.foldl clonePtEntry (t.ent, fun _ => .zero, m1)).2.2 := by
    generalize is.foldl clonePtEntry (t.ent, fun _ => .zero, m1) = r at *
    cases h
    exact ⟨rfl, rfl, rfl⟩
  obtain ⟨hp1, hp2, hm⟩ := hpfn
  have hd : ∀ q, ptSum (one · q) (refs · q) d = one p q + ∑ i, (t.ent i).refs q := by
    intro q
    simp only [ptSum, tableSum, hp2, hdst, refs_cloned]
  refine ⟨fun q => by simp only [ptSum, tableSum, hp1, hsrc, refs_afterClone], fun B R hl hroom => ?_⟩
  have hfree := hl.not_held (Pmm.allocPages_one ha).free
  -- the new page is none of those that are mapped
  have hne : ∀ q, 0 < R q → one p q = 0 := fun q hq => one_of_ne (by rintro rfl; omega)
  refine ⟨?_, fun q hq => (hd q).trans (by rw [hne q hq, zero_add])⟩
  have hroom' : Room (R + one p) fun q => ∑ i, (t.ent i).refs q := Room.step (by simpa only [zero_add] using hroom) hne
  have hmap : ∀ q, ∑ i, (t.ent i).refs q = ((is.map t.ent).map (·.refs q)).sum := fun q => by
    rw [hsum, List.map_map]
    rfl
  simp only [hmap] at hroom' hd
  rw [hm, (clonePtEntry_loop is hnd ..).2.2]
  convert Ledger.refAll _ (hl.alloc ha) hroom' using 1
  funext q
  simp only [hd]
  exact (add_assoc ..).symm

theorem CloneRun.pages {own leaf : Nat → α → Nat} {child : Pmm → α → Option (α × α × Pmm)}
    (hc : ClonePages own leaf child) {l : List (Option α × Option α × Option α)} (h : CloneRun child l m m') :
    (∀ e ∈ l, ∀ p, optSum (own p) e.2.1 = optSum (own p) e.1) ∧
    ∀ B R, Ledger B m R → Room R (fun p => (l.map fun e => optSum (leaf p) e.1).sum) →
      Ledger B m' (R + fun p => (l.map fun e => optSum (own p) e.2.2).sum) ∧
      ∀ p, 0 < R p → (l.map fun e => optSum (own p) e.2.2).sum = (l.map fun e => optSum (leaf p) e.1).sum := by
  induction h with
  | nil => exact ⟨nofun, fun B R hl _ => ⟨hl, fun _ _ => rfl⟩⟩
  | none _ ih =>
    simp only [List.map_cons, List.sum_cons, optSum_none, zero_add]
    exact ⟨List.forall_mem_cons.2 ⟨fun _ => rfl, ih.1⟩, ih.2⟩
  | some hch _ ih =>
    obtain ⟨g1, g2⟩ := hc _ _ _ _ _ hch
    refine ⟨List.forall_mem_cons.2 ⟨g1, ih.1⟩, fun B R hl hroom => ?_⟩
    simp only [List.map_cons, List.sum_cons, optSum_some] at hroom ⊢
    obtain ⟨l1, l2⟩ := g2 B R hl fun p hp => ⟨(hroom p (Nat.add_pos_left hp _)).1,
      lt_of_le_of_lt (by dsimp only; omega) (hroom p (Nat.add_pos_left hp _)).2⟩
    obtain ⟨l3, l4⟩ := ih.2 B _ l1 (hroom.step l2)
    refine ⟨?_, fun p hp => ?_⟩
    · convert l3 using 1
      funext p
      simp only [Pi.add_apply]
      omega
    · rw [l2 p hp, l4 p (by rw [Pi.add_apply]; omega)]

theorem cloneTable_pages {own leaf : Nat → α → Nat} {child : Pmm → α → Option (α × α × Pmm)}
    (hc : ClonePages own leaf child) :
    ClonePages (fun p => tableSum (one · p) (optSum (own p))) (fun p t => ∑ i, optSum (leaf p) (t.ent i))
      (cloneTable child) := by
  intro m t t' d m' h
  obtain ⟨⟨p, m1⟩, ha, h⟩ := bind_eq_some_iff.1 h
  obtain ⟨⟨src, dst, m2⟩, hl, h⟩ := bind_eq_some_iff.1 h
  cases h
  obtain ⟨h1, h2⟩ := (cloneEntry_run _ (List.nodup_finRange _) hl).2.pages hc
  simp only [List.forall_mem_map, List.map_map, Function.comp_def] at h1 h2
  refine ⟨fun q => ?_, fun B R hR hroom => ?_⟩
  · simp only [tableSum, h1 _ (List.mem_finRange _)]
  · have hfree := hR.not_held (Pmm.allocPages_one ha).free
    have hne : ∀ q, 0 < R q → one p q = 0 := fun q hq => one_of_ne (by rintro rfl; omega)
    have hroom' : Room (R + one p) fun q => ∑ i, optSum (leaf q) (t.ent i) :=
      Room.step (by simpa only [zero_add] using hroom) hne
    simp only [Fin.sum_univ_def] at hroom'
    obtain ⟨h3, h4⟩ := h2 B _ (hR.alloc ha) hroom'
    refine ⟨?_, fun q hq => ?_⟩
    · convert h3 using 1
      funext q
      simp only [Pi.add_apply, tableSum, Fin.sum_univ_def, add_assoc]
    · simp only [tableSum, Fin.sum_univ_def, hne q hq, zero_add]
      exact h4 q (by rw [Pi.add_apply]; omega)

theorem cloneHalf_pages {h h' d : Half} (hc : cloneHalf m h = some (h', d, m')) :
    treeRefs h' = treeRefs h ∧ (Ledger B m R → Room R (halfRefs h) → Ledger B m' (R + treeRefs d)) := by
  have hspec := cloneTable_pages (cloneTable_pages clonePt_pages)
  have hleaf : halfRefs h = fun p => ∑ i, optSum
      (fun t : Pdpt => ∑ i, optSum (fun t : Pd => ∑ i, optSum (fun t : Pt => ∑ i, (t.ent i).refs p) (t.ent i))
        (t.ent i)) (h i) := by
    funext p
    rw [halfRefs_eq]
    simp only [halfSum, pdptSum, pdSum, ptSum, tableSum_zero]
  obtain ⟨h1, h2⟩ := (cloneEntry_run _ (List.nodup_finRange _) hc).2.pages hspec
  simp only [List.forall_mem_map, List.map_map] at h1 h2
  refine ⟨?_, fun hl hroom => ?_⟩
  · funext p
    unfold treeRefs
    exact sum_congr rfl fun i _ => h1 i (List.mem_finRange i) p
  · rw [hleaf] at hroom
    simp only [Fin.sum_univ_def] at hroom
    convert (h2 B R hl hroom).1 using 1
    funext p
    simp only [Pi.add_apply, treeRefs, halfSum, Fin.sum_univ_def]
    rfl

end Clone

theorem treeRefs_empty : treeRefs (fun _ => none) = fun _ => 0 := by
  funext p
  unfold treeRefs halfSum
  simp only [optSum_none, sum_const_zero]

theorem tableRefs_empty (p : Nat) : tableRefs (fun _ => none) p = 0 := by
  unfold tableRefs halfSum
  simp only [optSum_none, sum_const_zero]

attribute [irreducible] treeRefs tableRefs halfSum

end ExoOS.Mm
