import ExoOS.Mm.Pmm
import Mathlib.Algebra.Order.BigOperators.Group.Finset

/-!
# Who holds the physical pages

A ledger says how many references to each page are held: `R p` of them to page `p`. `Ledger B m R` says that
the bitmap, the counts and the number of free pages agree with it on every page but those of `B`, which are
in use by others and not touched. Taking a page, and taking or dropping a reference, add one entry to the
ledger or remove it; whatever else is held is a frame (`+ R`).
-/

namespace ExoOS.Mm

open Finset Function Pmm

def one (p : Nat) : Nat → Nat := fun q => if p = q then 1 else 0

@[simp] theorem one_self (p : Nat) : one p p = 1 := if_pos rfl

theorem one_of_ne {p q : Nat} (h : p ≠ q) : one p q = 0 := if_neg h

/-- The pages there are, and those that others use; the rest can be counted in 64 bits. -/
structure Others where
  pages : Nat
  used : Nat → Bool
  lt : #{p ∈ range pages | used p = false} < 2 ^ 64

structure Ledger (B : Others) (m : Pmm) (R : Nat → Nat) : Prop where
  pages : m.bitmapPages = B.pages
  held : ∀ p, 0 < R p → p < m.bitmapPages ∧ B.used p = false
  refs : ∀ p, B.used p = false → m.pageRefs p = R p
  used : ∀ p, m.bitmap p = (B.used p || decide (0 < R p))
  free : m.freePages.toNat = #{p ∈ range m.bitmapPages | m.bitmap p = false}

namespace Ledger

variable {B : Others} {m m' : Pmm} {R : Nat → Nat} {p q : Nat}

section

variable (h : Ledger B m R)
include h

theorem bitmap_of_held (hp : 0 < R p) : m.bitmap p := by
  rw [h.used, decide_eq_true hp, Bool.or_true]

theorem not_held (hp : m.bitmap p = false) : B.used p = false ∧ R p = 0 := by
  rw [h.used, Bool.or_eq_false_iff, decide_eq_false_iff_not] at hp
  exact ⟨hp.1, by omega⟩

theorem freePages_eq : m.freePages.toNat = #{p ∈ range B.pages | B.used p = false ∧ R p = 0} := by
  rw [h.free, h.pages]
  congr 1
  refine filter_congr fun p _ => ?_
  rw [h.used, Bool.or_eq_false_iff, decide_eq_false_iff_not, Nat.pos_iff_ne_zero, not_not]

/-- A held page is not free. -/
theorem freePages_lt (hp : 0 < R p) : m.freePages.toNat < #{q ∈ range B.pages | B.used q = false} := by
  obtain ⟨hlt, hB⟩ := h.held p hp
  rw [h.freePages_eq]
  refine card_lt_card ⟨fun q hq => ?_, fun hsub => ?_⟩
  · obtain ⟨h1, h2⟩ := mem_filter.1 hq
    exact mem_filter.2 ⟨h1, h2.1⟩
  · have hmem := hsub (mem_filter.2 ⟨mem_range.2 (h.pages ▸ hlt), hB⟩)
    have := (mem_filter.1 hmem).2.2
    omega

omit h in
theorem card_take {n : Nat} {b : Nat → Bool} (hp : p < n) (hb : b p = false) :
    #{q ∈ range n | update b p true q = false} + 1 = #{q ∈ range n | b q = false} := by
  have hmem : p ∈ (range n).filter fun q => b q = false := mem_filter.2 ⟨mem_range.2 hp, hb⟩
  rw [← card_erase_add_one hmem]
  congr 2
  ext q
  by_cases hq : q = p
  · subst hq; simp
  · simp [hq]

theorem alloc (ha : m.allocPages 1 = some (p, m')) : Ledger B m' (R + one p) := by
  have hf := allocPages_one ha
  obtain ⟨hB, hR⟩ := h.not_held hf.free
  refine ⟨hf.pages.trans h.pages, fun q hq => ?_, fun q hq => ?_, fun q => ?_, ?_⟩
  · rw [hf.pages]
    by_cases hqp : p = q
    · subst hqp; exact ⟨hf.lt, hB⟩
    · rw [Pi.add_apply, one_of_ne hqp] at hq
      exact h.held q hq
  · rw [hf.refs, Pi.add_apply]
    by_cases hqp : p = q
    · subst hqp; rw [update_self, hR, one_self]
    · rw [update_of_ne (Ne.symm hqp), one_of_ne hqp, h.refs q hq]; rfl
  · rw [hf.bitmap, Pi.add_apply]
    by_cases hqp : p = q
    · subst hqp; simp
    · rw [update_of_ne (Ne.symm hqp), one_of_ne hqp, h.used q]; rfl
  · have hc := card_take hf.lt hf.free
    rw [← h.free, ← hf.bitmap, ← hf.pages] at hc
    rw [allocPages_freePages ha]
    bv_omega

theorem pageRef (hp : 0 < R p) (hlt : R p + 1 < 2 ^ 32) : Ledger B (m.pageRef p) (R + one p) := by
  obtain ⟨h1, h2⟩ := h.held p hp
  have heq := pageRef_eq h1 (h.bitmap_of_held hp)
  refine ⟨(pageRef_pages p).trans h.pages, fun q hq => ?_, fun q hq => ?_, fun q => ?_, ?_⟩
  · rw [pageRef_pages]
    by_cases hqp : p = q
    · subst hqp; exact ⟨h1, h2⟩
    · rw [Pi.add_apply, one_of_ne hqp] at hq
      exact h.held q hq
  · rw [Pi.add_apply]
    by_cases hqp : p = q
    · subst hqp
      rw [heq, one_self]
      dsimp only
      rw [update_self, h.refs p h2, Nat.mod_eq_of_lt hlt]
    · rw [pageRef_refs_ne (Ne.symm hqp), one_of_ne hqp, h.refs q hq]; rfl
  · rw [pageRef_bitmap, h.used q, Pi.add_apply]
    by_cases hqp : p = q
    · subst hqp; simp [hp]
    · rw [one_of_ne hqp]; rfl
  · rw [pageRef_bitmap, pageRef_pages, ← h.free, heq]

end

theorem pageUnref (h : Ledger B m (R + one p)) : Ledger B (m.pageUnref p) R := by
  have hpos : 0 < (R + one p) p := by simp
  obtain ⟨h1, h2⟩ := h.held p hpos
  have hr : m.pageRefs p = R p + 1 := by rw [h.refs p h2, Pi.add_apply, one_self]
  have hb := h.bitmap_of_held hpos
  refine ⟨(Pmm.pageUnref_pages p).trans h.pages, fun q hq => ?_, fun q hq => ?_, fun q => ?_, ?_⟩
  · rw [Pmm.pageUnref_pages]
    exact h.held q (by rw [Pi.add_apply]; omega)
  · by_cases hqp : p = q
    · subst hqp; rw [Pmm.pageUnref_refs_self h1, hr]; rfl
    · rw [Pmm.pageUnref_refs_ne (Ne.symm hqp), h.refs q hq, Pi.add_apply, one_of_ne hqp]; rfl
  · by_cases hqp : p = q
    · subst hqp
      rw [Pmm.pageUnref_bitmap_held h1 (by omega) hb, hr, h2, Bool.false_or]
      exact decide_eq_decide.2 (by omega)
    · rw [Pmm.pageUnref_bitmap_ne (Ne.symm hqp), h.used q, Pi.add_apply, one_of_ne hqp]; rfl
  · unfold Pmm.pageUnref
    rw [if_pos ⟨h1, by omega⟩]
    dsimp only
    split
    · have hc := card_take (b := update m.bitmap p false) h1 (update_self ..)
      rw [update_idem, ← hb, update_eq_self, ← h.free] at hc
      have hlt := h.freePages_lt hpos
      have hB := B.lt
      dsimp only
      bv_omega
    · exact h.free

theorem freePage (h : Ledger B m (R + one p)) : Ledger B (m.freePagesAt p 1) R := by
  have hlt := (h.held p (by simp)).1
  have heq : m.freePagesAt p 1 = m.pageUnref p := by
    unfold freePagesAt
    rw [if_neg (by omega)]
    rfl
  rw [heq]
  exact h.pageUnref

end Ledger

end ExoOS.Mm
