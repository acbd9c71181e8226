import ExoOS.Mm.Memory

/-!
# What the paging code does to the entries

`uview` reads the user half of a process as a map from locations to entries. The lemmas say for each
function what happens to the maps of all processes, to the areas, and to the rest of the memory.
-/

namespace ExoOS.Mm

open Memory Function

variable {ι : Type} {s s' : Memory ι} {i j : ι} {a : Nat} {e : Pte}

def Memory.uview (s : Memory ι) (i : ι) : Loc → Pte := view (s.procs i).user

theorem Memory.pte_eq (s : Memory ι) (i : ι) (a : Nat) : s.pte i a = view (s.half i a) (loc a) := lookup_getD ..

theorem Memory.pte_user (s : Memory ι) (i : ι) (ha : isKernel a = false) : s.pte i a = s.uview i (loc a) := by
  rw [pte_eq, half, ha]; rfl

/-- Everything but page tables, page counts and data. -/
structure SameAreas (s s' : Memory ι) : Prop where
  vmas : ∀ j, (s'.procs j).vmas = (s.procs j).vmas
  next : ∀ j, (s'.procs j).mmapNext = (s.procs j).mmapNext
  content : s'.content = s.content
  wrote : s'.wrote = s.wrote

namespace SameAreas

theorem refl (s : Memory ι) : SameAreas s s := ⟨fun _ => rfl, fun _ => rfl, rfl, rfl⟩

theorem trans {s'' : Memory ι} (h : SameAreas s s') (h' : SameAreas s' s'') : SameAreas s s'' :=
  ⟨fun j => (h'.vmas j).trans (h.vmas j), fun j => (h'.next j).trans (h.next j),
    h'.content.trans h.content, h'.wrote.trans h.wrote⟩

end SameAreas

variable [DecidableEq ι]

/-- `s'` differs from `s` in one entry, that of address `a` in the tables of `i`. -/
structure PteStore (s : Memory ι) (i : ι) (a : Nat) (e : Pte) (s' : Memory ι) : Prop where
  uview : ∀ j, s'.uview j =
    if isKernel a = false ∧ j = i then update (s.uview i) (loc a) e else s.uview j
  same : SameAreas s s'
  data : s'.data = s.data
  cache : s'.cache = s.cache

theorem PteStore.cases (h : PteStore s i a e s') (j : ι) (l : Loc) :
    s'.uview j l = s.uview j l ∨ j = i ∧ isKernel a = false ∧ l = loc a ∧ s'.uview j l = e := by
  rw [h.uview]
  split
  · rename_i hx
    obtain ⟨hk, rfl⟩ := hx
    by_cases hl : l = loc a
    · subst hl
      exact .inr ⟨rfl, hk, rfl, update_self ..⟩
    · exact .inl (update_of_ne hl _ _)
  · exact .inl rfl

theorem setHalf_store {h : Half} (hv : view h = update (view (s.half i a)) (loc a) e) :
    PteStore s i a e (s.setHalf i a h) := by
  unfold setHalf
  split
  · rename_i hk
    refine ⟨fun j => ?_, ⟨fun _ => rfl, fun _ => rfl, rfl, rfl⟩, rfl, rfl⟩
    rw [if_neg (by simp [hk])]; rfl
  rename_i hk
  have hk : isKernel a = false := by simpa using hk
  rw [half, hk] at hv
  refine ⟨fun j => ?_, ⟨fun j => ?_, fun j => ?_, rfl, rfl⟩, rfl, rfl⟩
  · by_cases hj : j = i
    · subst hj
      rw [if_pos ⟨hk, rfl⟩]
      simp only [uview, setProc, update_self]
      exact hv
    · simp [uview, setProc, hj]
  all_goals
    by_cases hj : j = i
    · subst hj; simp [setProc]
    · simp [setProc, hj]

theorem setPteAt_store (e : Pte) (hp : (s.pte i a).present) : PteStore s i a e (s.setPteAt i a e) :=
  setHalf_store (view_setPte e (by rw [← pte_eq]; exact hp))

@[simp] theorem setHalf_pmm (s : Memory ι) (i : ι) (a : Nat) (h : Half) : (s.setHalf i a h).pmm = s.pmm := by
  unfold setHalf; split <;> rfl

@[simp] theorem setPteAt_pmm (s : Memory ι) (i : ι) (a : Nat) (e : Pte) : (s.setPteAt i a e).pmm = s.pmm :=
  setHalf_pmm ..

theorem mapPage_store (h : s.mapPage i a e = some s') : PteStore s i a e s' ∧ Pmm.Keeps s.pmm s'.pmm := by
  obtain ⟨⟨t, m⟩, hm, rfl⟩ := Option.map_eq_some_iff.1 h
  have hv := view_mapPageIn hm
  have hst : PteStore { s with pmm := m } i a e (setHalf { s with pmm := m } i a t) := setHalf_store hv
  exact ⟨⟨hst.uview, ⟨hst.same.vmas, hst.same.next, hst.same.content, hst.same.wrote⟩, hst.data, hst.cache⟩,
    by rw [setHalf_pmm]; exact mapPageIn_keeps hm⟩

theorem isKernel_user (ha : a < USER_SPACE_END) : isKernel a = false := by
  unfold isKernel USER_SPACE_END at *
  simp only [decide_eq_false_iff_not]
  omega

theorem loc_inj {a b : Nat} (ha : a < USER_SPACE_END) (hb : b < USER_SPACE_END) (h : loc a = loc b) :
    a / PAGE_SIZE = b / PAGE_SIZE := by
  simp only [loc, Prod.mk.injEq, Fin.ext_iff, Fin.val_ofNat] at h
  unfold USER_SPACE_END PAGE_SIZE at *
  omega

theorem loc_pageAlign (a : Nat) : loc (pageAlign a) = loc a := by
  simp only [loc, pageAlign, PAGE_SIZE, Prod.mk.injEq]
  refine ⟨?_, ?_, ?_, ?_⟩ <;> congr 1 <;> omega

theorem isKernel_pageAlign (a : Nat) : isKernel (pageAlign a) = isKernel a := by
  simp only [isKernel, pageAlign, PAGE_SIZE]
  congr 2
  omega

omit [DecidableEq ι] in
theorem handlePageFault_cases [DecidableEq ι] {env : FaultEnv} {w r : Bool} (ha : a < USER_SPACE_END)
    (h : handlePageFault env s i a { present := (s.pte i a).present, write := w } = some (r, s')) :
    ((w ∧ (s.uview i (loc a)).cow) ∧ (s.uview i (loc a)).present ∧ cowPage s i a (s.uview i (loc a)) = (r, s')) ∨
      (r = false ∧ s' = s) ∨ ¬ (s.uview i (loc a)).present ∧ demandPage env s i a = some (r, s') := by
  unfold handlePageFault at h
  rw [s.pte_user i (isKernel_user ha)] at h
  dsimp only at h
  split at h
  · rename_i hc
    simp only [Bool.and_eq_true] at hc
    exact .inl ⟨⟨hc.1.1, hc.2⟩, hc.1.2, Option.some.inj h⟩
  split at h
  · cases h
    exact .inr (.inl ⟨rfl, rfl⟩)
  · rename_i hnp
    exact .inr (.inr ⟨hnp, h⟩)

end ExoOS.Mm
