import ExoOS.Lib.Sums
import ExoOS.Mm.Pmm
import Mathlib.Algebra.BigOperators.Fin

/-!
# Page tables

The four levels of `mm/vmm.c`. A table is the physical page that holds it and its 512 entries; an upper
level entry is absent or the table it points to, so that a half of an address space (256 entries of the
PML4) is a tree. Tables of a user half are never shared between address spaces, so nothing is lost; the
kernel half is one tree for all of them. Upper level entries always carry PRESENT, WRITE and USER, and
large pages are never made in a user half, so neither appears.

`view` reads the tree as a map from locations to entries. The operations are described by it: `view_setPte`,
`view_mapPageIn`, and `cloneHalf_spec`, which also says what cloning does to the reference counts.
-/

namespace ExoOS.Mm

open Finset Function Option

def PAGE_SIZE : Nat := 4096
def USER_SPACE_START : Nat := 0x400000
def USER_SPACE_END : Nat := 0x7FFFFFFFF000
def USER_MMAP_BASE : Nat := 0x200000000000

/-- A leaf entry; the bits that no modelled code reads (accessed, dirty, cache control) are left out. -/
structure Pte where
  pfn : Nat
  present : Bool
  write : Bool
  user : Bool
  nx : Bool
  cow : Bool
  deriving DecidableEq

def Pte.zero : Pte :=
  { pfn := 0, present := false, write := false, user := false, nx := false, cow := false }

abbrev Idx := Fin 512

structure PageTable (α : Type) where
  pfn : Nat
  ent : Idx → α

abbrev Pt := PageTable Pte
abbrev Pd := PageTable (Option Pt)
abbrev Pdpt := PageTable (Option Pd)

/-- Entries 0..255 or 256..511 of a PML4. -/
abbrev Half := Fin 256 → Option Pdpt

/-- The indices a virtual address selects, from the PML4 down. -/
abbrev Loc := Fin 256 × Idx × Idx × Idx

def loc (virt : Nat) : Loc :=
  (Fin.ofNat 256 (virt / 2 ^ 39), Fin.ofNat 512 (virt / 2 ^ 30), Fin.ofNat 512 (virt / 2 ^ 21),
    Fin.ofNat 512 (virt / 2 ^ 12))

def isKernel (virt : Nat) : Bool := 256 ≤ virt / 2 ^ 39 % 512

/-- `get_pte_in` without allocation. -/
def lookup (h : Half) (l : Loc) : Option Pte :=
  match h l.1 with
  | none => none
  | some pdpt =>
    match pdpt.ent l.2.1 with
    | none => none
    | some pd =>
      match pd.ent l.2.2.1 with
      | none => none
      | some pt => some (pt.ent l.2.2.2)

def setPte (h : Half) (l : Loc) (e : Pte) : Half :=
  match h l.1 with
  | none => h
  | some pdpt =>
    match pdpt.ent l.2.1 with
    | none => h
    | some pd =>
      match pd.ent l.2.2.1 with
      | none => h
      | some pt =>
        let pt := { pt with ent := update pt.ent l.2.2.2 e }
        let pd := { pd with ent := update pd.ent l.2.2.1 (some pt) }
        let pdpt := { pdpt with ent := update pdpt.ent l.2.1 (some pd) }
        update h l.1 (some pdpt)

/-- The table an entry points to, or a new zeroed one. `vmm_alloc_page_table` does not return when there
is no page: here `none`. -/
def tableOrAlloc {α : Type} (m : Pmm) (z : α) : Option (PageTable α) → Option (PageTable α × Pmm)
  | some t => some (t, m)
  | none => (m.allocPages 1).map fun r => ({ pfn := r.1, ent := fun _ => z }, r.2)

/-- `get_pte_in` with allocation, and the store of `vmm_map_page_in`. -/
def mapPageIn (m : Pmm) (h : Half) (l : Loc) (e : Pte) : Option (Half × Pmm) := do
  let (pdpt, m) ← tableOrAlloc m none (h l.1)
  let (pd, m) ← tableOrAlloc m none (pdpt.ent l.2.1)
  let (pt, m) ← tableOrAlloc m .zero (pd.ent l.2.2.1)
  let pt := { pt with ent := update pt.ent l.2.2.2 e }
  let pd := { pd with ent := update pd.ent l.2.2.1 (some pt) }
  let pdpt := { pdpt with ent := update pdpt.ent l.2.1 (some pd) }
  return (update h l.1 (some pdpt), m)

/-- What `clone_pt` makes of a present entry, in both tables. -/
def Pte.cowMark (e : Pte) : Pte := { e with write := false, cow := true }

def clonePtEntry (st : (Idx → Pte) × (Idx → Pte) × Pmm) (i : Idx) : (Idx → Pte) × (Idx → Pte) × Pmm :=
  let (src, dst, m) := st
  if (src i).present then
    (update src i (src i).cowMark, update dst i (src i).cowMark, m.pageRef (src i).pfn)
  else (src, update dst i .zero, m)

/-- `clone_pt`: the source, which is changed too, the clone, and the page counts. -/
def clonePt (m : Pmm) (t : Pt) : Option (Pt × Pt × Pmm) := do
  let (p, m) ← m.allocPages 1
  let (src, dst, m) := (List.finRange 512).foldl clonePtEntry (t.ent, fun _ => .zero, m)
  return ({ t with ent := src }, { pfn := p, ent := dst }, m)

/-- The loop body of the upper levels, which clone a table for each entry. -/
def cloneEntry {α : Type} {n : Nat} (child : Pmm → α → Option (α × α × Pmm))
    (st : (Fin n → Option α) × (Fin n → Option α) × Pmm) (i : Fin n) :
    Option ((Fin n → Option α) × (Fin n → Option α) × Pmm) :=
  let (src, dst, m) := st
  match src i with
  | none => some (src, update dst i none, m)
  | some c =>
    (child m c).map fun r => (update src i (some r.1), update dst i (some r.2.1), r.2.2)

def cloneTable {α : Type} (child : Pmm → α → Option (α × α × Pmm)) (m : Pmm) (t : PageTable (Option α)) :
    Option (PageTable (Option α) × PageTable (Option α) × Pmm) := do
  let (p, m) ← m.allocPages 1
  let (src, dst, m) ← (List.finRange 512).foldlM (cloneEntry child) (t.ent, fun _ => none, m)
  return ({ t with ent := src }, { pfn := p, ent := dst }, m)

def clonePd : Pmm → Pd → Option (Pd × Pd × Pmm) := cloneTable clonePt

def clonePdpt : Pmm → Pdpt → Option (Pdpt × Pdpt × Pmm) := cloneTable clonePd

def cloneHalf (m : Pmm) (h : Half) : Option (Half × Half × Pmm) :=
  (List.finRange 256).foldlM (cloneEntry clonePdpt) (h, fun _ => none, m)

/-! ### The tree as a map -/

section View

variable {α β ι : Type} [DecidableEq ι] [DecidableEq β] {v : α → β → Pte} {f : ι → Option α}

/-- Entries that are absent or point to something with a view: a map on the pairs. -/
def optView (v : α → β → Pte) (f : ι → Option α) (x : ι × β) : Pte :=
  match f x.1 with
  | none => .zero
  | some c => v c x.2

omit [DecidableEq ι] [DecidableEq β] in
theorem optView_of_some {i : ι} {c : α} (h : f i = some c) (x : β) : optView v f (i, x) = v c x := by
  simp only [optView, h]

omit [DecidableEq ι] [DecidableEq β] in
theorem optView_of_none {i : ι} (h : f i = none) (x : β) : optView v f (i, x) = .zero := by
  simp only [optView, h]

theorem optView_update {i : ι} {c' : α} {x : β} {e : Pte} (h : v c' = update (fun y => optView v f (i, y)) x e) :
    optView v (update f i (some c')) = update (optView v f) (i, x) e := by
  funext ⟨j, y⟩
  by_cases hj : j = i
  · subst hj
    rw [optView_of_some (update_self ..), h]
    by_cases hy : y = x
    · subst hy; simp
    · rw [update_of_ne hy, update_of_ne (by simp [hy])]
  · rw [update_of_ne (by simp [hj])]
    simp only [optView, update_of_ne hj]

end View

def pdView (t : Pd) : Idx × Idx → Pte := optView PageTable.ent t.ent

def pdptView (t : Pdpt) : Idx × Idx × Idx → Pte := optView pdView t.ent

def view (h : Half) : Loc → Pte := optView pdptView h

theorem lookup_getD (h : Half) (l : Loc) : (lookup h l).getD .zero = view h l := by
  unfold lookup view pdptView pdView optView
  rcases h l.1 with _ | pdpt
  · rfl
  dsimp only
  rcases pdpt.ent l.2.1 with _ | pd
  · rfl
  dsimp only
  rcases pd.ent l.2.2.1 with _ | pt <;> rfl

theorem view_setPte {h : Half} {l : Loc} (e : Pte) (he : (view h l).present) :
    view (setPte h l e) = update (view h) l e := by
  obtain ⟨i, j, k, n⟩ := l
  unfold setPte
  unfold view at he
  rcases h1 : h i with _ | pdpt
  · rw [optView_of_none h1] at he; cases he
  rw [optView_of_some h1] at he
  unfold pdptView at he
  dsimp only
  rcases h2 : pdpt.ent j with _ | pd
  · rw [optView_of_none h2] at he; cases he
  rw [optView_of_some h2] at he
  unfold pdView at he
  dsimp only
  rcases h3 : pd.ent k with _ | pt
  · rw [optView_of_none h3] at he; cases he
  -- from the leaf table upwards
  refine optView_update ?_
  simp only [optView_of_some h1]
  refine optView_update ?_
  simp only [optView_of_some h2]
  refine optView_update ?_
  simp only [optView_of_some h3]

theorem tableOrAlloc_view {α β : Type} {ι : Type} {m m' : Pmm} {z : α} {t : PageTable α}
    {f : ι → Option (PageTable α)} {i : ι} (v : PageTable α → β → Pte)
    (hz : ∀ p, v { pfn := p, ent := fun _ => z } = fun _ => .zero)
    (h : tableOrAlloc m z (f i) = some (t, m')) : v t = fun y => optView v f (i, y) := by
  rcases hf : f i with _ | c
  · rw [hf] at h
    obtain ⟨r, -, hr⟩ := map_eq_some_iff.1 h
    cases hr
    rw [hz]
    funext y
    rw [optView_of_none hf]
  · rw [hf] at h
    cases h
    funext y
    rw [optView_of_some hf]

theorem view_mapPageIn {m m' : Pmm} {h h' : Half} {l : Loc} {e : Pte}
    (hm : mapPageIn m h l e = some (h', m')) : view h' = update (view h) l e := by
  obtain ⟨i, j, k, n⟩ := l
  simp only [mapPageIn, bind_eq_bind, bind_eq_some_iff, Prod.exists] at hm
  obtain ⟨pdpt, m1, h1, pd, m2, h2, pt, m3, h3, rfl, -⟩ := hm
  have v1 := tableOrAlloc_view pdptView (fun _ => rfl) h1
  have v2 := tableOrAlloc_view pdView (fun _ => rfl) h2
  have v3 := tableOrAlloc_view PageTable.ent (fun _ => rfl) h3
  refine optView_update ?_
  rw [← v1]
  refine optView_update ?_
  rw [← show pdView pd = fun y => optView pdView pdpt.ent (j, y) from v2]
  refine optView_update ?_
  rw [← show pt.ent = fun y => optView PageTable.ent pd.ent (k, y) from v3]

def Pte.refs (e : Pte) (p : Nat) : Nat := if e.present ∧ e.pfn = p then 1 else 0

def halfRefs (h : Half) (p : Nat) : Nat := ∑ l : Loc, (view h l).refs p

theorem halfRefs_update {h h' : Half} {l : Loc} {e : Pte} (hv : view h' = update (view h) l e)
    (p : Nat) : halfRefs h' p + (view h l).refs p = halfRefs h p + e.refs p := by
  unfold halfRefs
  rw [hv]
  exact Table.sum_univ_update (fun e : Pte => e.refs p) (view h) l e

theorem halfRefs_pos {h : Half} {l : Loc} (hp : (view h l).present) : 0 < halfRefs h (view h l).pfn := by
  have hle := Table.le_sum_univ (fun e : Pte => e.refs (view h l).pfn) (view h) l
  rw [Pte.refs, if_pos ⟨hp, rfl⟩] at hle
  exact hle

/-- New pages were taken, and `c p` references were added to each page `p` that was in use. -/
structure RefsAdd (c : Nat → Nat) (m m' : Pmm) : Prop where
  pages : m'.bitmapPages = m.bitmapPages
  used : ∀ p, m.bitmap p = true → m'.bitmap p = true
  refs : ∀ p < m.bitmapPages, m.bitmap p = true → m.pageRefs p + c p < 2 ^ 32 →
    m'.pageRefs p = m.pageRefs p + c p

namespace RefsAdd

variable {c c' : Nat → Nat} {m m1 m2 : Pmm}

theorem refl (m : Pmm) : RefsAdd (fun _ => 0) m m := ⟨rfl, fun _ h => h, fun _ _ _ _ => rfl⟩

theorem trans (h : RefsAdd c m m1) (h' : RefsAdd c' m1 m2) : RefsAdd (fun p => c p + c' p) m m2 := by
  refine ⟨h'.pages.trans h.pages, fun p hp => h'.used p (h.used p hp), fun p hp hu hlt => ?_⟩
  have h1 := h.refs p hp hu (by omega)
  have h2 := h'.refs p (by rw [h.pages]; exact hp) (h.used p hu) (by omega)
  omega

theorem congr' (h : RefsAdd c m m1) (hm : m2 = m1) (hc : ∀ p, c p = c' p) : RefsAdd c' m m2 :=
  hm ▸ (funext hc : c = c') ▸ h

theorem congr (h : RefsAdd c m m1) (hc : ∀ p, c p = c' p) : RefsAdd c' m m1 := h.congr' rfl hc

theorem of_keeps (h : Pmm.Keeps m m1) : RefsAdd (fun _ => 0) m m1 := ⟨h.pages, h.used, fun p _ hp _ => h.refs p hp⟩

theorem fresh {p : Nat} (h : m.allocPages 1 = some (p, m1)) : RefsAdd (fun _ => 0) m m1 :=
  .of_keeps (Pmm.allocPages_one h).keeps

theorem pageRef (m : Pmm) (p : Nat) : RefsAdd (fun q => if p = q then 1 else 0) m (m.pageRef p) := by
  refine ⟨by simp, fun q hq => by simpa using hq, fun q hlt hq hlt' => ?_⟩
  by_cases hqp : p = q
  · subst hqp
    rw [Pmm.pageRef_eq hlt hq]
    dsimp only
    rw [if_pos rfl] at hlt' ⊢
    rw [update_self, Nat.mod_eq_of_lt hlt']
  · rw [Pmm.pageRef_refs_ne (Ne.symm hqp), if_neg hqp, Nat.add_zero]

end RefsAdd

theorem tableOrAlloc_keeps {α : Type} {m m' : Pmm} {z : α} {o : Option (PageTable α)} {t : PageTable α}
    (h : tableOrAlloc m z o = some (t, m')) : Pmm.Keeps m m' := by
  rcases o with _ | c
  · obtain ⟨⟨p, m1⟩, hr, he⟩ := map_eq_some_iff.1 h
    cases he
    exact (Pmm.allocPages_one hr).keeps
  · cases h
    exact .refl m

theorem mapPageIn_keeps {m m' : Pmm} {h h' : Half} {l : Loc} {e : Pte}
    (hm : mapPageIn m h l e = some (h', m')) : Pmm.Keeps m m' := by
  simp only [mapPageIn, bind_eq_bind, bind_eq_some_iff, Prod.exists] at hm
  obtain ⟨pdpt, m1, h1, pd, m2, h2, pt, m3, h3, -, rfl⟩ := hm
  exact ((tableOrAlloc_keeps h1).trans (tableOrAlloc_keeps h2)).trans (tableOrAlloc_keeps h3)

/-! ### What cloning does -/

def Pte.afterClone (e : Pte) : Pte := if e.present then e.cowMark else e

def Pte.cloned (e : Pte) : Pte := if e.present then e.cowMark else .zero

@[simp] theorem Pte.refs_zero (p : Nat) : Pte.refs .zero p = 0 := rfl

/-- `child` clones a table whose entries `v` reads: every entry is marked in the source and copied, and
every mapped page gains a reference for it. -/
def CloneSpec {α β : Type} [Fintype β] (v : α → β → Pte) (child : Pmm → α → Option (α × α × Pmm)) : Prop :=
  ∀ m c c' d m', child m c = some (c', d, m') →
    (∀ x, v c' x = (v c x).afterClone) ∧ (∀ x, v d x = (v c x).cloned) ∧
      RefsAdd (fun p => ∑ x, (v c x).refs p) m m'

/-- Every present entry adds a reference. -/
def refAll (m : Pmm) (es : List Pte) : Pmm := es.foldl (fun m e => if e.present then m.pageRef e.pfn else m) m

theorem RefsAdd.refAll (m : Pmm) (es : List Pte) : RefsAdd (fun p => (es.map (·.refs p)).sum) m (refAll m es) := by
  induction es generalizing m with
  | nil => exact .refl m
  | cons e es ih =>
    by_cases hp : e.present
    · refine ((RefsAdd.pageRef m e.pfn).trans (ih _)).congr' (by simp [Mm.refAll, hp]) fun p => ?_
      simp [Pte.refs, hp]
    · refine (ih m).congr' (by simp [Mm.refAll, hp]) fun p => ?_
      simp [Pte.refs, hp]

theorem clonePtEntry_loop (is : List Idx) (hnd : is.Nodup) (src dst : Idx → Pte) (m : Pmm) :
    let r := is.foldl clonePtEntry (src, dst, m)
    (∀ i, r.1 i = if i ∈ is then (src i).afterClone else src i) ∧
      (∀ i, r.2.1 i = if i ∈ is then (src i).cloned else dst i) ∧ r.2.2 = refAll m (is.map src) := by
  induction is generalizing src dst m with
  | nil => exact ⟨fun _ => rfl, fun _ => rfl, rfl⟩
  | cons i is ih =>
    obtain ⟨hi, hnd⟩ := List.nodup_cons.1 hnd
    have hstep : clonePtEntry (src, dst, m) i = (update src i (src i).afterClone, update dst i (src i).cloned,
        if (src i).present then m.pageRef (src i).pfn else m) := by
      unfold clonePtEntry Pte.afterClone Pte.cloned
      dsimp only
      split
      · rfl
      · rw [update_eq_self]
    rw [List.foldl_cons, hstep]
    obtain ⟨h1, h2, h3⟩ := ih hnd _ _ _
    refine ⟨fun j => ?_, fun j => ?_, ?_⟩
    · rw [h1]
      by_cases hj : j = i
      · subst hj; simp [hi]
      · simp [hj]
    · rw [h2]
      by_cases hj : j = i
      · subst hj; simp [hi]
      · simp [hj]
    · rw [h3, List.map_congr_left fun j hj => update_of_ne (ne_of_mem_of_not_mem hj hi) _ src]
      rfl

theorem clonePt_spec : CloneSpec PageTable.ent clonePt := by
  intro m t t' d m' h
  have hnd := List.nodup_finRange 512
  have hmem := List.mem_finRange (n := 512)
  have hsum := Fin.sum_univ_def (M := Nat) (n := 512)
  unfold clonePt at h
  -- the list of indices is only used through these three facts
  generalize List.finRange 512 = is at *
  obtain ⟨⟨p, m1⟩, ha, h⟩ := bind_eq_some_iff.1 h
  obtain ⟨h1, h2, h3⟩ := clonePtEntry_loop is hnd t.ent (fun _ => .zero) m1
  dsimp only at h
  generalize is.foldl clonePtEntry (t.ent, fun _ => .zero, m1) = r at *
  cases h
  refine ⟨fun i => (h1 i).trans (if_pos (hmem i)), fun i => (h2 i).trans (if_pos (hmem i)), ?_⟩
  refine ((RefsAdd.fresh ha).trans (.refAll m1 (is.map t.ent))).congr' h3 fun p => ?_
  rw [Nat.zero_add, List.map_map, hsum]
  rfl

/-- Entries of a table one after the other: before, afterwards and in the clone. -/
inductive CloneRun {α : Type} (child : Pmm → α → Option (α × α × Pmm)) :
    List (Option α × Option α × Option α) → Pmm → Pmm → Prop
  | nil (m : Pmm) : CloneRun child [] m m
  | none {l : List (Option α × Option α × Option α)} {m m' : Pmm} (h : CloneRun child l m m') :
    CloneRun child ((none, none, none) :: l) m m'
  | some {l : List (Option α × Option α × Option α)} {m m1 m' : Pmm} {c c' d : α}
    (hc : child m c = some (c', d, m1)) (h : CloneRun child l m1 m') :
    CloneRun child ((some c, some c', some d) :: l) m m'

theorem cloneEntry_run {α : Type} {n : Nat} {child : Pmm → α → Option (α × α × Pmm)} (is : List (Fin n))
    (hnd : is.Nodup) {src dst src' dst' : Fin n → Option α} {m m' : Pmm}
    (h : is.foldlM (cloneEntry child) (src, dst, m) = some (src', dst', m')) :
    (∀ i, i ∉ is → src' i = src i ∧ dst' i = dst i) ∧
      CloneRun child (is.map fun i => (src i, src' i, dst' i)) m m' := by
  induction is generalizing src dst m with
  | nil =>
    cases h
    exact ⟨fun _ _ => ⟨rfl, rfl⟩, .nil _⟩
  | cons i is ih =>
    obtain ⟨hi, hnd⟩ := List.nodup_cons.1 hnd
    obtain ⟨⟨src1, dst1, m1⟩, hstep, h⟩ := bind_eq_some_iff.1 h
    obtain ⟨h1, h2⟩ := ih hnd h
    obtain ⟨e1, e2⟩ := h1 i hi
    have hmap : (∀ j, j ≠ i → src1 j = src j ∧ dst1 j = dst j) → (∀ j, j ∉ i :: is → src' j = src j ∧ dst' j = dst j) ∧
          CloneRun child (is.map fun j => (src j, src' j, dst' j)) m1 m' := by
      intro hs
      refine ⟨fun j hj => ?_, ?_⟩
      · rw [List.mem_cons, not_or] at hj
        rw [(h1 j hj.2).1, (h1 j hj.2).2]
        exact hs j hj.1
      · have he : ∀ j ∈ is, (src1 j, src' j, dst' j) = (src j, src' j, dst' j) := fun j hj => by
          rw [(hs j (ne_of_mem_of_not_mem hj hi)).1]
        rwa [List.map_congr_left he] at h2
    rw [List.map_cons, e1, e2]
    unfold cloneEntry at hstep
    dsimp only at hstep
    split at hstep
    · rename_i hn
      cases hstep
      obtain ⟨h3, h4⟩ := hmap fun j hj => ⟨rfl, update_of_ne hj ..⟩
      rw [hn, update_self]
      exact ⟨h3, h4.none⟩
    · rename_i c hs
      obtain ⟨⟨c', d, m2⟩, hch, he⟩ := map_eq_some_iff.1 hstep
      cases he
      obtain ⟨h3, h4⟩ := hmap fun j hj => ⟨update_of_ne hj .., update_of_ne hj ..⟩
      rw [hs, update_self, update_self]
      exact ⟨h3, h4.some hch⟩

theorem CloneRun.spec {α β : Type} [Fintype β] {v : α → β → Pte} {child : Pmm → α → Option (α × α × Pmm)}
    (hc : CloneSpec v child) {l : List (Option α × Option α × Option α)} {m m' : Pmm} (h : CloneRun child l m m') :
    (∀ e ∈ l, ∀ x, optView v id (e.2.1, x) = (optView v id (e.1, x)).afterClone ∧
      optView v id (e.2.2, x) = (optView v id (e.1, x)).cloned) ∧
      RefsAdd (fun p => (l.map fun e => ∑ x, (optView v id (e.1, x)).refs p).sum) m m' := by
  induction h with
  | nil => exact ⟨nofun, .refl _⟩
  | none _ ih =>
    refine ⟨List.forall_mem_cons.2 ⟨fun _ => ⟨rfl, rfl⟩, ih.1⟩, ih.2.congr fun p => ?_⟩
    simp [optView]
  | some hch _ ih =>
    obtain ⟨g1, g2, g3⟩ := hc _ _ _ _ _ hch
    exact ⟨List.forall_mem_cons.2 ⟨fun x => ⟨g1 x, g2 x⟩, ih.1⟩, g3.trans ih.2⟩

theorem cloneTable_spec {α β : Type} [Fintype β] {v : α → β → Pte}
    {child : Pmm → α → Option (α × α × Pmm)} (hc : CloneSpec v child) :
    CloneSpec (fun t : PageTable (Option α) => optView v t.ent) (cloneTable child) := by
  intro m t t' d m' h
  obtain ⟨⟨p, m1⟩, ha, h⟩ := bind_eq_some_iff.1 h
  obtain ⟨⟨src, dst, m2⟩, hl, h⟩ := bind_eq_some_iff.1 h
  cases h
  obtain ⟨h1, h2⟩ := (cloneEntry_run _ (List.nodup_finRange _) hl).2.spec hc
  rw [List.forall_mem_map] at h1
  refine ⟨fun x => (h1 x.1 (List.mem_finRange _) x.2).1, fun x => (h1 x.1 (List.mem_finRange _) x.2).2, ?_⟩
  refine ((RefsAdd.fresh ha).trans h2).congr fun q => ?_
  rw [Nat.zero_add, Fintype.sum_prod_type, Fin.sum_univ_def, List.map_map, Function.comp_def]
  rfl

theorem cloneHalf_spec {m m' : Pmm} {h h' d : Half} (hc : cloneHalf m h = some (h', d, m')) :
    (∀ l, view h' l = (view h l).afterClone) ∧ (∀ l, view d l = (view h l).cloned) ∧ RefsAdd (halfRefs h) m m' := by
  have hspec : CloneSpec pdptView clonePdpt := cloneTable_spec (cloneTable_spec clonePt_spec)
  obtain ⟨h1, h2⟩ := (cloneEntry_run _ (List.nodup_finRange _) hc).2.spec hspec
  rw [List.forall_mem_map] at h1
  refine ⟨fun l => (h1 l.1 (List.mem_finRange _) l.2).1, fun l => (h1 l.1 (List.mem_finRange _) l.2).2,
    h2.congr fun q => ?_⟩
  rw [halfRefs, Fintype.sum_prod_type, Fin.sum_univ_def, List.map_map, Function.comp_def]
  rfl

theorem halfRefs_congr {h h' : Half} (hv : ∀ l, (view h' l).present = (view h l).present ∧
    ((view h l).present → (view h' l).pfn = (view h l).pfn)) (p : Nat) : halfRefs h' p = halfRefs h p := by
  refine sum_congr rfl fun l _ => ?_
  obtain ⟨h1, h2⟩ := hv l
  unfold Pte.refs
  rw [h1]
  by_cases hp : (view h l).present
  · rw [h2 hp]
  · simp [hp]

theorem halfRefs_exists {h : Half} {p : Nat} (hp : 0 < halfRefs h p) :
    ∃ l, (view h l).present ∧ (view h l).pfn = p := by
  obtain ⟨l, -, hl⟩ := exists_ne_zero_of_sum_ne_zero (Nat.pos_iff_ne_zero.1 hp)
  refine ⟨l, ?_⟩
  by_contra hx
  exact hl (if_neg hx)

theorem halfRefs_empty (p : Nat) : halfRefs (fun _ => none) p = 0 := sum_eq_zero fun _ _ => rfl

-- the sum has 2 ^ 35 terms: nothing may unfold it by accident
attribute [irreducible] halfRefs

end ExoOS.Mm
