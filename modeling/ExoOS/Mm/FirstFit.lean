import ExoOS.Mm.Pmm

/-!
# First fit

`pmm_alloc_pages` finds the lowest run of free pages, and `pmm_free_pages` undoes it (`first_fit`). Nothing is
assumed about the value of `free_pages`, a word that wraps.
-/

namespace ExoOS.Mm

open List

namespace Pmm

def FreeFrom (m : Pmm) (p count : Nat) : Prop := ∀ q, p ≤ q → q < p + count → m.bitmap q = false

def FreeRun (m : Pmm) (p count : Nat) : Prop := 1 ≤ p ∧ p + count ≤ m.bitmapPages ∧ m.FreeFrom p count

variable {m : Pmm} {n a p run start count : Nat}

theorem not_freeFrom {q r : Nat} (h1 : q ≤ r) (h2 : r < q + count) (hr : m.bitmap r) : ¬ m.FreeFrom q count := by
  intro hf
  rw [hf r h1 h2] at hr
  cases hr

/-- The scan misses no run. The last `run` pages before `a` are those counted, the page before them is used, and no run
ends at `a` or before. -/
theorem scan_first (hc : run < count) (hstart : run ≠ 0 → start + run = a) (hlo : run + 1 ≤ a)
    (hbefore : a - run = 1 ∨ m.bitmap (a - run - 1))
    (hno : ∀ q, 1 ≤ q → q + count ≤ a → ¬ m.FreeFrom q count) :
    (m.scan count (range' a n) run start = none → ∀ q, 1 ≤ q → q + count ≤ a + n → ¬ m.FreeFrom q count) ∧
      ∀ p, m.scan count (range' a n) run start = some p → ∀ q, 1 ≤ q → q < p → ¬ m.FreeFrom q count := by
  induction n generalizing a run start with
  | zero => exact ⟨fun _ => hno, fun p hp => by cases hp⟩
  | succ n ih =>
    rw [range'_succ, scan, show a + (n + 1) = a + 1 + n by omega]
    split
    next hused =>
      -- a run that ends here would contain the used page
      refine ih (by omega) (fun h => absurd rfl h) (by omega) (.inr (by simpa using hused)) fun q hq hle => ?_
      by_cases hend : q + count ≤ a
      · exact hno q hq hend
      · exact not_freeFrom (by omega) (by omega) hused
    next hfree =>
      have hnew : (if run = 0 then a else start) + (run + 1) = a + 1 := by
        split <;> omega
      generalize (if run = 0 then a else start) = start' at hnew
      split
      next hfound =>
        refine ⟨(fun h => by cases h), fun p hp q hq hlt => ?_⟩
        cases hp
        exact hno q hq (by omega)
      next hshort =>
        refine ih (by omega) (fun _ => hnew) (by omega) ?_ fun q hq hle => ?_
        · rwa [Nat.add_sub_add_right]
        · by_cases hend : q + count ≤ a
          · exact hno q hq hend
          · -- a run that ends here is longer than what was counted
            rcases hbefore with hfirst | hused
            · omega
            · exact not_freeFrom (by omega) (by omega) hused

theorem allocPages_eq_none_iff (hc : 1 ≤ count) : m.allocPages count = none ↔ ∀ p, ¬ m.FreeRun p count := by
  rw [allocPages, if_neg (by omega), Option.map_eq_none_iff]
  constructor
  · rintro hnone p ⟨hpos, hle, hfree⟩
    obtain ⟨hno, -⟩ := @scan_first m (m.bitmapPages - 1) 1 0 0 count hc (fun h => absurd rfl h)
      (by omega) (.inl rfl) fun q hq hle => by omega
    exact hno hnone p hpos (by omega) hfree
  · intro hno
    by_contra hsome
    obtain ⟨p, hp⟩ := Option.ne_none_iff_exists'.1 hsome
    obtain ⟨h1, h2, h3⟩ : 1 ≤ p ∧ _ ∧ _ := scan_run hp (by omega) (by omega) fun h => absurd rfl h
    exact hno p ⟨h1, by omega, h3⟩

theorem allocPages_lowest {m' : Pmm} (hc : 1 ≤ count) (h : m.allocPages count = some (p, m')) :
    m.FreeRun p count ∧ ∀ q < p, ¬ m.FreeRun q count := by
  have hrun := allocPages_run h
  rw [allocPages, if_neg (by omega)] at h
  obtain ⟨start, hs, he⟩ := Option.map_eq_some_iff.1 h
  cases he
  obtain ⟨-, hlow⟩ := @scan_first m (m.bitmapPages - 1) 1 0 0 count hc (fun h => absurd rfl h)
    (by omega) (.inl rfl) fun q hq hle => by omega
  exact ⟨⟨hrun.pos, hrun.le, hrun.free⟩, fun q hq hfree => hlow p hs q hfree.1 hq hfree.2.2⟩

theorem foldl_pageUnref_freePages (hle : p + count ≤ m.bitmapPages)
    (hone : ∀ q, p ≤ q → q < p + count → m.bitmap q ∧ m.pageRefs q = 1) :
    ((range count).foldl (fun m i => m.pageUnref (p + i)) m).freePages = m.freePages + BitVec.ofNat 64 count := by
  induction count with
  | zero => simp
  | succ count ih =>
    have hone' : ∀ q, p ≤ q → q < p + count → m.bitmap q ∧ m.pageRefs q = 1 :=
      fun q h1 h2 => hone q h1 (by omega)
    obtain ⟨hpages, hbitmap, hrefs⟩ := unrefRun_spec (by omega) hone'
    have ih := ih (by omega) hone'
    rw [range_succ, foldl_append]
    generalize (range count).foldl (fun m i => m.pageUnref (p + i)) m = m1 at *
    obtain ⟨hb, hr⟩ := hone (p + count) (by omega) (by omega)
    have hr1 : m1.pageRefs (p + count) = 1 := by rw [hrefs, if_neg (by omega), hr]
    have hb1 : m1.bitmap (p + count) := by simp [hbitmap, hb]
    have hlast : p + count < m1.bitmapPages := by omega
    simp only [foldl_cons, foldl_nil, pageUnref, hlast, hr1, hb1]
    simp [ih, BitVec.ofNat_add, BitVec.add_assoc]

end Pmm

/-- Where free pages have no references. -/
theorem first_fit (m : Pmm) (hfree : ∀ q < m.bitmapPages, m.bitmap q = false → m.pageRefs q = 0)
    {n : Nat} (hn : 1 ≤ n) :
    (m.allocPages n = none ↔ ∀ p, ¬ m.FreeRun p n) ∧
    ∀ p m', m.allocPages n = some (p, m') →
      m.FreeRun p n ∧ (∀ q < p, ¬ m.FreeRun q n) ∧
      (∀ q, m'.bitmap q = (decide (p ≤ q ∧ q < p + n) || m.bitmap q)) ∧
      (∀ q, m'.pageRefs q = if p ≤ q ∧ q < p + n then 1 else m.pageRefs q) ∧ m'.freePagesAt p n = m := by
  refine ⟨Pmm.allocPages_eq_none_iff hn, fun p m' ha => ?_⟩
  have hrun := Pmm.allocPages_run ha
  obtain ⟨hfits, hlowest⟩ := Pmm.allocPages_lowest hn ha
  have hle : p + n ≤ m'.bitmapPages := hrun.pages ▸ hrun.le
  have hone : ∀ q, p ≤ q → q < p + n → m'.bitmap q = true ∧ m'.pageRefs q = 1 := fun q h1 h2 => by
    rw [hrun.bitmap, hrun.refs, if_pos ⟨h1, h2⟩]
    exact ⟨by simp [h1, h2], rfl⟩
  obtain ⟨hpages, hbitmap, hrefs⟩ := Pmm.unrefRun_spec hle hone
  have hcount := Pmm.foldl_pageUnref_freePages hle hone
  refine ⟨hfits, hlowest, hrun.bitmap, hrun.refs, ?_⟩
  rw [Pmm.freePagesAt, if_neg (by omega)]
  refine Pmm.ext (hpages.trans hrun.pages) (funext fun q => ?_) (funext fun q => ?_) ?_
  · rw [hbitmap, hrun.bitmap]
    by_cases hq : p ≤ q ∧ q < p + n
    · simp [hq, hrun.free q hq.1 hq.2]
    · simp [hq]
  · rw [hrefs, hrun.refs]
    split
    next hq => exact (hfree q (by have := hrun.le; omega) (hrun.free q hq.1 hq.2)).symm
    next => rfl
  · rw [hcount, Pmm.allocPages_freePages ha, BitVec.sub_add_cancel]

def gaps : Pmm where
  bitmapPages := 6
  bitmap := fun p => decide (p = 1 ∨ p = 3)
  pageRefs := fun _ => 0
  freePages := 4

theorem first_fit_gaps : ∃ m', gaps.allocPages 2 = some (4, m') ∧ m'.freePagesAt 4 2 = gaps := by
  obtain ⟨m', hm⟩ : ∃ m', gaps.allocPages 2 = some (4, m') := ⟨_, rfl⟩
  obtain ⟨-, -, -, -, hsame⟩ := (first_fit gaps (fun _ _ _ => rfl) (by decide)).2 4 m' hm
  exact ⟨m', hm, hsame⟩

end ExoOS.Mm
