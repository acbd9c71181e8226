import Mathlib.Algebra.BigOperators.Ring.Finset
import Mathlib.Algebra.Order.BigOperators.Group.Finset

/-!
# Counting over a table

A table is a function on a finite set of indices; a count over it is a sum. `sum_update` says what one
store does to the count, without subtraction.
-/

namespace Table

open Finset Function

variable {ι β : Type} [DecidableEq ι] {S : Finset ι} {i : ι} {n : Nat}

theorem update_same {γ : Type} {g : β → γ} {T : ι → β} {x : β} (h : g x = g (T i)) :
    ∀ j, g (update T i x j) = g (T j) :=
  (forall_update_iff T fun j y => g y = g (T j)).2 ⟨h, fun _ _ => rfl⟩

theorem sum_update (w : β → Nat) (T : ι → β) (x : β) (hi : i ∈ S) :
    ∑ j ∈ S, w (update T i x j) + w (T i) = ∑ j ∈ S, w (T j) + w x := by
  rw [← add_sum_erase _ _ hi, ← add_sum_erase _ (fun j => w (T j)) hi]
  have hrest : ∑ j ∈ S.erase i, w (update T i x j) = ∑ j ∈ S.erase i, w (T j) :=
    sum_congr rfl fun j hj => by rw [update_of_ne (ne_of_mem_erase hj)]
  rw [hrest, update_self]
  omega

theorem sum_update_same (w : β → Nat) (T : ι → β) {x : β} (hw : w x = w (T i)) :
    ∑ j ∈ S, w (update T i x j) = ∑ j ∈ S, w (T j) :=
  sum_congr rfl fun j _ => update_same hw j

theorem sum_append (w : β → Nat) (T : Nat → β) (x : β) :
    ∑ j ∈ range (n + 1), w (update T n x j) = ∑ j ∈ range n, w (T j) + w x := by
  rw [sum_range_succ, update_self]
  congr 1
  exact sum_congr rfl fun j hj => by rw [update_of_ne (Nat.ne_of_lt (mem_range.1 hj))]

omit [DecidableEq ι] in
theorem le_sum (w : β → Nat) (T : ι → β) (hi : i ∈ S) : w (T i) ≤ ∑ j ∈ S, w (T j) :=
  single_le_sum (f := fun j => w (T j)) (fun _ _ => Nat.zero_le _) hi

theorem sum_univ_update [Fintype ι] (w : β → Nat) (T : ι → β) (i : ι) (x : β) :
    ∑ j, w (update T i x j) + w (T i) = ∑ j, w (T j) + w x :=
  sum_update w T x (mem_univ i)

omit [DecidableEq ι] in
theorem le_sum_univ [Fintype ι] (w : β → Nat) (T : ι → β) (i : ι) : w (T i) ≤ ∑ j, w (T j) := le_sum w T (mem_univ i)

end Table
