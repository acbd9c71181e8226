import Mathlib.Algebra.Group.Nat.Units
import Mathlib.Data.List.Basic

/-!
# Physical pages

`mm/pmm.c`: one bit and one 32-bit reference count for each physical page. Pages are named by their
index (`phys / PAGE_SIZE`); page 0 is never handed out and stands for failure in the source, here `none`.
-/

namespace ExoOS.Mm

open Function List

@[ext] structure Pmm where
  bitmapPages : Nat
  bitmap : Nat → Bool
  pageRefs : Nat → Nat
  freePages : BitVec 64

namespace Pmm

variable (m : Pmm)

/-- The scan of `pmm_alloc_pages` over the page indices that are left. -/
def scan (count : Nat) : List Nat → Nat → Nat → Option Nat
  | [], _, _ => none
  | p :: ps, run, start =>
    if m.bitmap p then scan count ps 0 start
    else
      let start := if run = 0 then p else start
      if run + 1 = count then some start else scan count ps (run + 1) start

def take (start count : Nat) : Pmm :=
  { m with
    bitmap := fun p => if start ≤ p ∧ p < start + count then true else m.bitmap p
    pageRefs := fun p => if start ≤ p ∧ p < start + count then 1 else m.pageRefs p
    freePages := m.freePages - BitVec.ofNat 64 count }

def allocPages (count : Nat) : Option (Nat × Pmm) :=
  if count = 0 then none
  else (m.scan count (range' 1 (m.bitmapPages - 1)) 0 0).map fun start => (start, m.take start count)

def pageRef (p : Nat) : Pmm :=
  if p < m.bitmapPages ∧ m.bitmap p then
    { m with pageRefs := update m.pageRefs p ((m.pageRefs p + 1) % 2 ^ 32) }
  else m

def pageUnref (p : Nat) : Pmm :=
  if p < m.bitmapPages ∧ m.pageRefs p ≠ 0 then
    let now := m.pageRefs p - 1
    let m' := { m with pageRefs := update m.pageRefs p now }
    if now = 0 ∧ m.bitmap p then
      { m' with bitmap := update m.bitmap p false, freePages := m.freePages + 1 }
    else m'
  else m

def pageGetref (p : Nat) : Nat := if p < m.bitmapPages then m.pageRefs p else 0

def freePagesAt (start count : Nat) : Pmm :=
  if start + count > m.bitmapPages then m
  else (range count).foldl (fun m i => m.pageUnref (start + i)) m

variable {m} {m' : Pmm} {p q : Nat}

theorem scan_one {ps : List Nat} {start : Nat} (h : m.scan 1 ps 0 start = some p) : p ∈ ps ∧ m.bitmap p = false := by
  induction ps generalizing start with
  | nil => cases h
  | cons q ps ih =>
    unfold scan at h
    split at h
    · obtain ⟨h1, h2⟩ := ih h
      exact ⟨mem_cons_of_mem _ h1, h2⟩
    · rename_i hq
      simp only [if_true, Option.some.injEq] at h
      subst h
      exact ⟨mem_cons_self, by simpa using hq⟩

theorem take_one_bitmap : (m.take p 1).bitmap = update m.bitmap p true := by
  funext q
  by_cases h : q = p
  · subst h; simp [take]
  · rw [update_of_ne h]
    exact if_neg (by omega)

theorem take_one_pageRefs : (m.take p 1).pageRefs = update m.pageRefs p 1 := by
  funext q
  by_cases h : q = p
  · subst h; simp [take]
  · rw [update_of_ne h]
    exact if_neg (by omega)

/-- What a caller of `pmm_alloc_pages(1)` gets: a page that was free, with one reference. -/
structure Fresh (m : Pmm) (p : Nat) (m' : Pmm) : Prop where
  lt : p < m.bitmapPages
  free : m.bitmap p = false
  pages : m'.bitmapPages = m.bitmapPages
  bitmap : m'.bitmap = update m.bitmap p true
  refs : m'.pageRefs = update m.pageRefs p 1

section

variable (h : m.allocPages 1 = some (p, m'))
include h

theorem allocPages_one : Fresh m p m' := by
  obtain ⟨start, hs, he⟩ := Option.map_eq_some_iff.1 h
  cases he
  obtain ⟨h1, h2⟩ := scan_one hs
  have := mem_range'_1.1 h1
  exact ⟨by omega, h2, rfl, take_one_bitmap, take_one_pageRefs⟩

theorem allocPages_one_pos : 0 < p := by
  obtain ⟨start, hs, he⟩ := Option.map_eq_some_iff.1 h
  cases he
  have := mem_range'_1.1 (scan_one hs).1
  omega

end

theorem allocPages_freePages {count : Nat} (h : m.allocPages count = some (p, m')) :
    m'.freePages = m.freePages - BitVec.ofNat 64 count := by
  obtain ⟨-, h⟩ := Option.ite_none_left_eq_some.1 h
  obtain ⟨start, -, he⟩ := Option.map_eq_some_iff.1 h
  cases he
  rfl

structure Keeps (m m' : Pmm) : Prop where
  pages : m'.bitmapPages = m.bitmapPages
  used : ∀ p, m.bitmap p = true → m'.bitmap p = true
  refs : ∀ p, m.bitmap p = true → m'.pageRefs p = m.pageRefs p

namespace Keeps

theorem refl (m : Pmm) : Keeps m m := ⟨rfl, fun _ h => h, fun _ _ => rfl⟩

theorem trans {m'' : Pmm} (h : Keeps m m') (h' : Keeps m' m'') : Keeps m m'' :=
  ⟨h'.pages.trans h.pages, fun p hp => h'.used p (h.used p hp),
    fun p hp => (h'.refs p (h.used p hp)).trans (h.refs p hp)⟩

theorem free (h : Keeps m m') (hp : m'.bitmap p = false) : m.bitmap p = false := by
  by_contra hn
  rw [h.used p (by simpa using hn)] at hp
  cases hp

end Keeps

section

variable (h : Fresh m p m')
include h

theorem Fresh.ne (hq : m.bitmap q) : q ≠ p := by
  rintro rfl
  rw [h.free] at hq
  cases hq

theorem Fresh.keeps : Keeps m m' := by
  refine ⟨h.pages, fun q hq => ?_, fun q hq => ?_⟩
  · rw [h.bitmap, update_of_ne (h.ne hq)]; exact hq
  · rw [h.refs, update_of_ne (h.ne hq)]

theorem Fresh.used : m'.bitmap p := by
  rw [h.bitmap]; exact update_self ..

theorem Fresh.refs_self : m'.pageRefs p = 1 := by
  rw [h.refs]; exact update_self ..

end

theorem pageRef_eq (h1 : p < m.bitmapPages) (h2 : m.bitmap p) :
    m.pageRef p = { m with pageRefs := update m.pageRefs p ((m.pageRefs p + 1) % 2 ^ 32) } :=
  if_pos ⟨h1, h2⟩

@[simp] theorem pageRef_bitmap (p : Nat) : (m.pageRef p).bitmap = m.bitmap := by
  unfold pageRef; split <;> rfl

@[simp] theorem pageRef_pages (p : Nat) : (m.pageRef p).bitmapPages = m.bitmapPages := by
  unfold pageRef; split <;> rfl

theorem pageRef_refs_ne (h : q ≠ p) : (m.pageRef p).pageRefs q = m.pageRefs q := by
  unfold pageRef
  split
  · exact update_of_ne h _ _
  · rfl

@[simp] theorem pageUnref_pages (p : Nat) : (m.pageUnref p).bitmapPages = m.bitmapPages := by
  unfold pageUnref
  dsimp only
  split
  · split <;> rfl
  · rfl

theorem pageUnref_refs_ne (h : q ≠ p) : (m.pageUnref p).pageRefs q = m.pageRefs q := by
  unfold pageUnref
  dsimp only
  split
  · split <;> exact update_of_ne h _ _
  · rfl

theorem pageUnref_bitmap_ne (h : q ≠ p) : (m.pageUnref p).bitmap q = m.bitmap q := by
  unfold pageUnref
  dsimp only
  split
  · split
    · exact update_of_ne h _ _
    · rfl
  · rfl

theorem pageUnref_refs_self (h : p < m.bitmapPages) : (m.pageUnref p).pageRefs p = m.pageRefs p - 1 := by
  unfold pageUnref
  dsimp only
  split
  · split <;> exact update_self ..
  omega

theorem pageUnref_bitmap_self (h : 1 < m.pageRefs p) : (m.pageUnref p).bitmap p = m.bitmap p := by
  unfold pageUnref
  split
  · rw [if_neg (by omega)]
  · rfl

theorem pageUnref_bitmap_held (h : p < m.bitmapPages) (h0 : m.pageRefs p ≠ 0) (hb : m.bitmap p) :
    (m.pageUnref p).bitmap p = decide (1 < m.pageRefs p) := by
  unfold pageUnref
  rw [if_pos ⟨h, h0⟩]
  dsimp only
  split
  · rw [decide_eq_false (by omega)]
    exact update_self ..
  · rename_i hz
    have hz : m.pageRefs p - 1 ≠ 0 := fun h => hz ⟨h, hb⟩
    rw [decide_eq_true (by omega)]
    exact hb

theorem pageUnref_bitmap_le (h : (m.pageUnref p).bitmap q) : m.bitmap q := by
  by_cases hq : q = p
  · subst hq
    unfold pageUnref at h
    dsimp only at h
    split at h
    · split at h
      · simp at h
      · exact h
    · exact h
  · rwa [pageUnref_bitmap_ne hq] at h

theorem Fresh.unref_keeps (h : Fresh m p m') : Keeps m (m'.pageUnref p) := by
  refine ⟨(pageUnref_pages p).trans h.pages, fun q hq => ?_, fun q hq => ?_⟩
  · rw [pageUnref_bitmap_ne (h.ne hq)]; exact h.keeps.used q hq
  · rw [pageUnref_refs_ne (h.ne hq)]; exact h.keeps.refs q hq

/-- While a page is pinned by one more reference, other pages are taken; then the reference is dropped. -/
theorem Keeps.pinned {c : Nat} (hlt : c < m.bitmapPages) (hc : m.bitmap c) (h0 : 0 < m.pageRefs c)
    (h1 : m.pageRefs c + 1 < 2 ^ 32) (h : Keeps (m.pageRef c) m') : Keeps m (m'.pageUnref c) := by
  have hr : (m.pageRef c).pageRefs c = m.pageRefs c + 1 := by
    rw [pageRef_eq hlt hc]
    dsimp only
    rw [update_self, Nat.mod_eq_of_lt h1]
  have hc' := h.refs c (by simpa using hc)
  refine ⟨(pageUnref_pages c).trans (h.pages.trans (pageRef_pages c)), fun q hq => ?_, fun q hq => ?_⟩
  · have hq' := h.used q (by simpa using hq)
    by_cases hqc : q = c
    · subst hqc; rw [pageUnref_bitmap_self (by omega)]; exact hq'
    · rw [pageUnref_bitmap_ne hqc]; exact hq'
  · by_cases hqc : q = c
    · subst hqc
      rw [pageUnref_refs_self (by rw [h.pages, pageRef_pages]; exact hlt)]
      omega
    · rw [pageUnref_refs_ne hqc, h.refs q (by simpa using hq), pageRef_refs_ne hqc]

section Runs

variable {n a run start count lo : Nat}

/-- The scan finds `count` free pages in a row. The pages `start .. a` just before those left are free. -/
theorem scan_run (h : m.scan count (range' a n) run start = some p) (hc : run < count) (ha : lo ≤ a)
    (hrun : run ≠ 0 → lo ≤ start ∧ start + run = a ∧ ∀ q, start ≤ q → q < a → m.bitmap q = false) :
    lo ≤ p ∧ p + count ≤ a + n ∧ ∀ q, p ≤ q → q < p + count → m.bitmap q = false := by
  induction n generalizing a run start with
  | zero => cases h
  | succ n ih =>
    rw [range'_succ] at h
    unfold scan at h
    split at h
    · obtain ⟨h1, h2, h3⟩ := ih h (by omega) (by omega) (fun h => absurd rfl h)
      exact ⟨h1, by omega, h3⟩
    rename_i hq
    have hq : m.bitmap a = false := by simpa using hq
    -- the free pages up to and including `a`
    have hnew : lo ≤ (if run = 0 then a else start) ∧ (if run = 0 then a else start) + (run + 1) = a + 1 ∧
        ∀ q, (if run = 0 then a else start) ≤ q → q < a + 1 → m.bitmap q = false := by
      split
      · refine ⟨ha, by omega, fun q h1 h2 => ?_⟩
        rw [show q = a by omega]; exact hq
      obtain ⟨h1, h2, h3⟩ := hrun ‹_›
      refine ⟨h1, by omega, fun q hq1 hq2 => ?_⟩
      rcases Nat.lt_succ_iff_lt_or_eq.1 hq2 with hlt | rfl
      · exact h3 q hq1 hlt
      · exact hq
    generalize (if run = 0 then a else start) = start' at h hnew
    split at h
    · cases h
      refine ⟨hnew.1, by omega, fun q h1 h2 => hnew.2.2 q h1 (by omega)⟩
    · obtain ⟨h1, h2, h3⟩ := ih h (by omega) (by omega) (fun _ => hnew)
      exact ⟨h1, by omega, h3⟩

/-- What a caller of `pmm_alloc_pages` gets: free pages in a row, with one reference each. -/
structure FreshRun (m : Pmm) (p count : Nat) (m' : Pmm) : Prop where
  pos : 0 < p
  le : p + count ≤ m.bitmapPages
  free : ∀ q, p ≤ q → q < p + count → m.bitmap q = false
  pages : m'.bitmapPages = m.bitmapPages
  bitmap : ∀ q, m'.bitmap q = (decide (p ≤ q ∧ q < p + count) || m.bitmap q)
  refs : ∀ q, m'.pageRefs q = if p ≤ q ∧ q < p + count then 1 else m.pageRefs q

theorem allocPages_run (h : m.allocPages count = some (p, m')) : FreshRun m p count m' := by
  unfold allocPages at h
  split at h
  · cases h
  obtain ⟨start, hs, he⟩ := Option.map_eq_some_iff.1 h
  cases he
  obtain ⟨h1, h2, h3⟩ : 1 ≤ p ∧ _ ∧ _ := scan_run hs (by omega) (by omega) fun h => absurd rfl h
  refine ⟨h1, ?_, h3, rfl, fun q => ?_, fun q => rfl⟩
  · omega
  · simp only [take]
    split <;> simp [*]

theorem unrefRun_spec (hle : p + count ≤ m.bitmapPages)
    (hone : ∀ q, p ≤ q → q < p + count → m.bitmap q ∧ m.pageRefs q = 1) :
    let m' := (range count).foldl (fun m i => m.pageUnref (p + i)) m
    m'.bitmapPages = m.bitmapPages ∧ (∀ q, m'.bitmap q = (!decide (p ≤ q ∧ q < p + count) && m.bitmap q)) ∧
      ∀ q, m'.pageRefs q = if p ≤ q ∧ q < p + count then 0 else m.pageRefs q := by
  induction count with
  | zero =>
    refine ⟨rfl, fun q => ?_, fun q => ?_⟩
    · simp [show ¬ (p ≤ q ∧ q < p) by omega]
    · exact (if_neg (by omega)).symm
  | succ count ih =>
    obtain ⟨h1, h2, h3⟩ := ih (by omega) fun q hq1 hq2 => hone q hq1 (by omega)
    rw [range_succ, foldl_append]
    generalize (range count).foldl (fun m i => m.pageUnref (p + i)) m = m1 at *
    dsimp only [foldl_cons, foldl_nil]
    obtain ⟨hb, hr⟩ := hone (p + count) (by omega) (by omega)
    have hlt : p + count < m1.bitmapPages := by omega
    have hr1 : m1.pageRefs (p + count) = 1 := by rw [h3, if_neg (by omega)]; exact hr
    have hb1 : m1.bitmap (p + count) := by rw [h2, hb]; simp
    refine ⟨(pageUnref_pages _).trans h1, fun q => ?_, fun q => ?_⟩
    · by_cases hq : q = p + count
      · subst hq
        rw [pageUnref_bitmap_held hlt (by omega) hb1, hr1]
        simp
      · rw [pageUnref_bitmap_ne hq, h2]
        simp only [show (p ≤ q ∧ q < p + (count + 1)) ↔ (p ≤ q ∧ q < p + count) by omega]
    · by_cases hq : q = p + count
      · subst hq
        rw [pageUnref_refs_self hlt, hr1, if_pos (by omega)]
      · rw [pageUnref_refs_ne hq, h3]
        simp only [show (p ≤ q ∧ q < p + (count + 1)) ↔ (p ≤ q ∧ q < p + count) by omega]

theorem freePagesAt_run (hle : p + count ≤ m.bitmapPages)
    (hone : ∀ q, p ≤ q → q < p + count → m.bitmap q ∧ m.pageRefs q = 1) :
    (m.freePagesAt p count).bitmapPages = m.bitmapPages ∧
      (∀ q, (m.freePagesAt p count).bitmap q = (!decide (p ≤ q ∧ q < p + count) && m.bitmap q)) ∧
      ∀ q, (m.freePagesAt p count).pageRefs q = if p ≤ q ∧ q < p + count then 0 else m.pageRefs q := by
  unfold freePagesAt
  rw [if_neg (by omega)]
  exact unrefRun_spec hle hone

end Runs

end Pmm

end ExoOS.Mm
