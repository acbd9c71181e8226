import Mathlib.Algebra.BigOperators.Ring.Finset
import Mathlib.Algebra.Order.BigOperators.Group.Finset
import Mathlib.Tactic.Linarith
import Mathlib.Tactic.Ring

/-!
# Serving the least account first, but never the same client twice

Clients `T` have weights `w` and accounts `v`. A round charges the client `p` that is being served `c p`, where
`w i * c i` is the same for all, and goes on with a client of least account among the others (`Serve`).

A client whose weight exceeds the sum of the others would have to be served in more than every second round to keep
up. That is the only obstacle: if no weight does (`Balanced`), any two accounts stay within two charges of each other
for ever (`Near`); if one does, the gap between its account and another passes every bound (`Spent.exceeds`).
-/

namespace LeastFirst

open Finset Nat

variable {ι : Type} [DecidableEq ι] {T : Finset ι} {w c : ι → ℕ} {S M : ℕ}

/-- The charges are inverse to the weights and at most `M`. -/
structure Costs (T : Finset ι) (w c : ι → ℕ) (S M : ℕ) : Prop where
  eq : ∀ i ∈ T, w i * c i = S
  le : ∀ i ∈ T, c i ≤ M
  pos : 0 < S

def Balanced (T : Finset ι) (w : ι → ℕ) : Prop := ∀ i ∈ T, w i ≤ ∑ j ∈ T.erase i, w j

/-- A round: `p` is charged, and `p'` is next. -/
structure Serve (T : Finset ι) (c : ι → ℕ) (v : ι → ℕ) (p : ι) (v' : ι → ℕ) (p' : ι) : Prop where
  paid : v' p = v p + c p
  same : ∀ j ∈ T, j ≠ p → v' j = v j
  mem : p' ∈ T
  ne : p' ≠ p
  least : ∀ j ∈ T, j ≠ p → v' p' ≤ v' j

namespace Serve

variable {v v' : ι → ℕ} {p p' : ι}

theorem mono (hs : Serve T c v p v' p') {j : ι} (hj : j ∈ T) : v j ≤ v' j := by
  by_cases hjp : j = p
  · rw [hjp, hs.paid]; omega
  · rw [hs.same j hj hjp]

/-- A round adds `S` to the weighted sum, where the client that is charged is counted. -/
theorem sum_eq (hs : Serve T c v p v' p') (hc : Costs T w c S M) (hp : p ∈ T) {F : Finset ι} (hF : F ⊆ T) :
    ∑ j ∈ F, w j * v' j = ∑ j ∈ F, w j * v j + (if p ∈ F then S else 0) := by
  have hrest : ∀ G : Finset ι, G ⊆ T → p ∉ G → ∑ j ∈ G, w j * v' j = ∑ j ∈ G, w j * v j := fun G hG hpG =>
    sum_congr rfl fun j hj => by rw [hs.same j (hG hj) (ne_of_mem_of_not_mem hj hpG)]
  split
  · rename_i hpF
    rw [← add_sum_erase _ _ hpF, ← add_sum_erase _ (fun j => w j * v j) hpF,
      hrest _ ((erase_subset _ _).trans hF) (notMem_erase _ _), hs.paid, mul_add, hc.eq p hp]
    omega
  · rename_i hpF
    rw [hrest F hF hpF, add_zero]

end Serve

def Least (T : Finset ι) (v : ι → ℕ) (h : ι) : Prop := ∀ j ∈ T, j ≠ h → v h < v j

/-- The invariant. All accounts but one are within `M` below any account; the client being served is least among
all but one; and a client that is behind all others is not further behind than `M` on the weighted average, after
the round if another one is being served. -/
structure Near (T : Finset ι) (w : ι → ℕ) (S M : ℕ) (v : ι → ℕ) (p : ι) : Prop where
  mem : p ∈ T
  above : ∀ i ∈ T, ∃ h, ∀ j ∈ T, j ≠ h → v i ≤ v j + M
  served : ∃ h, ∀ j ∈ T, j ≠ h → v p ≤ v j
  behind : ∀ h ∈ T, Least T v h →
    ∑ j ∈ T.erase h, w j * v j + (if p = h then 0 else S) ≤ (∑ j ∈ T.erase h, w j) * (v h + M)

namespace Near

variable {v v' : ι → ℕ} {p p' : ι}

theorem start (hp : p ∈ T) (h2 : 2 ≤ T.card) {a : ℕ} (hv : ∀ i ∈ T, v i = a) : Near T w S M v p where
  mem := hp
  above i hi := ⟨i, fun j hj _ => by rw [hv i hi, hv j hj]; omega⟩
  served := ⟨p, fun j hj _ => by rw [hv p hp, hv j hj]⟩
  behind h hh hl := by
    obtain ⟨j, hj, hne⟩ := T.exists_mem_ne h2 h
    have := hl j hj hne
    rw [hv h hh, hv j hj] at this
    omega

/-- A client that is overtaken by the one being served has no account further above it than `M`. -/
theorem le_of_overtaken (hn : Near T w S M v p) (hs : Serve T c v p v' p') (hc : Costs T w c S M) {h : ι}
    (hh : h ∈ T) (hhp : h ≠ p) (hp : v p ≤ v h) : ∀ i ∈ T, v' i ≤ v' h + M := by
  intro i hi
  rw [hs.same h hh hhp]
  by_cases hip : i = p
  · have := hc.le p hn.mem
    rw [hip, hs.paid]
    omega
  rw [hs.same i hi hip]
  obtain ⟨x, hx⟩ := hn.above i hi
  by_cases hpx : p = x
  · exact hx h hh (hpx ▸ hhp)
  · have := hx p hn.mem hpx
    omega

theorem serve (hn : Near T w S M v p) (hs : Serve T c v p v' p') (hc : Costs T w c S M) (hb : Balanced T w) :
    Near T w S M v' p' where
  mem := hs.mem
  above i hi := by
    by_cases hip : i = p
    · -- the client that has been served was least among all but one
      obtain ⟨h, hh⟩ := hn.served
      refine ⟨h, fun j hj hne => ?_⟩
      have h1 := hh j hj hne
      have h2 := hs.mono hj
      have h3 := hc.le p hn.mem
      rw [hip, hs.paid]
      omega
    · obtain ⟨h, hh⟩ := hn.above i hi
      refine ⟨h, fun j hj hne => ?_⟩
      rw [hs.same i hi hip]
      exact (hh j hj hne).trans (Nat.add_le_add_right (hs.mono hj) _)
  served := ⟨p, hs.least⟩
  behind h hh hl := by
    have hsum := hs.sum_eq hc hn.mem (erase_subset h T)
    by_cases hhp : h = p
    · -- it has just been served, and its share makes up for the next round
      subst hhp
      have hl' : Least T v h := fun j hj hne => by
        have := hl j hj hne
        rw [hs.paid, hs.same j hj hne] at this
        omega
      have hold := hn.behind h hh hl'
      have hshare : S ≤ (∑ j ∈ T.erase h, w j) * c h := by
        rw [← hc.eq h hh]
        exact Nat.mul_le_mul_right _ (hb h hh)
      simp only [notMem_erase, if_true] at hsum hold
      rw [hsum, if_neg hs.ne, hs.paid]
      calc ∑ j ∈ T.erase h, w j * v j + S
          ≤ (∑ j ∈ T.erase h, w j) * (v h + M) + (∑ j ∈ T.erase h, w j) * c h := Nat.add_le_add hold hshare
        _ = (∑ j ∈ T.erase h, w j) * (v h + c h + M) := by ring
    · -- the least one is next
      have hnext : p' = h := by
        by_contra hne
        have h1 := hl p' hs.mem hne
        have h2 := hs.least h hh hhp
        omega
      rw [if_pos hnext, Nat.add_zero]
      by_cases hold : Least T v h
      · have hb := hn.behind h hh hold
        rw [if_neg (Ne.symm hhp)] at hb
        rw [if_pos (mem_erase.2 ⟨Ne.symm hhp, hn.mem⟩)] at hsum
        rw [hsum, hs.same h hh hhp]
        exact hb
      -- it has fallen behind in this round
      have hover : v p ≤ v h := by
        simp only [Least, not_forall, Nat.not_lt] at hold
        obtain ⟨j, hj, hne, hle⟩ := hold
        by_cases hjp : j = p
        · exact hjp ▸ hle
        · have := hl j hj hne
          rw [hs.same j hj hjp, hs.same h hh hhp] at this
          omega
      have hle := hn.le_of_overtaken hs hc hh hhp hover
      rw [sum_mul]
      exact sum_le_sum fun j hj => Nat.mul_le_mul_left _ (hle j (mem_of_mem_erase hj))

theorem gap (hn : Near T w S M v p) (hw : ∀ i ∈ T, 0 < w i) {a b : ι} (ha : a ∈ T) (hb : b ∈ T) :
    v a ≤ v b + 2 * M := by
  obtain ⟨h, hh⟩ := hn.above a ha
  by_cases hbh : b = h
  · subst hbh
    -- another account is at most `M` above that of `b`
    have hj : a = b ∨ ∃ j ∈ T, j ≠ b ∧ v j ≤ v b + M := by
      by_cases hab : a = b
      · exact .inl hab
      refine .inr ?_
      by_contra hno
      simp only [not_exists, not_and, not_le] at hno
      have hbeh := hn.behind b hb fun j hj hne => by have := hno j hj hne; omega
      have hlt : ∑ j ∈ T.erase b, w j * (v b + M) < ∑ j ∈ T.erase b, w j * v j := by
        refine sum_lt_sum_of_nonempty ⟨a, mem_erase.2 ⟨hab, ha⟩⟩ fun j hj => ?_
        exact mul_lt_mul_of_pos_left (hno j (mem_of_mem_erase hj) (ne_of_mem_erase hj)) (hw j (mem_of_mem_erase hj))
      rw [← sum_mul] at hlt
      omega
    rcases hj with rfl | ⟨j, hj, hne, hle⟩
    · omega
    · have := hh j hj hne
      omega
  · have := hh b hb hbh
    omega

end Near

/-! ### A client that is too heavy -/

/-- What `n` rounds have cost: `S` each, of which one client has paid at most every second one. -/
structure Spent (T : Finset ι) (w : ι → ℕ) (S a n : ℕ) (v : ι → ℕ) (p : ι) : Prop where
  total : ∑ j ∈ T, w j * v j = (∑ j ∈ T, w j) * a + n * S
  share : ∀ h ∈ T, 2 * (w h * v h) + (if p = h then S else 0) ≤ 2 * (w h * a) + (n + 1) * S

namespace Spent

variable {v v' : ι → ℕ} {p p' : ι} {a n : ℕ}

theorem start (hv : ∀ i ∈ T, v i = a) : Spent T w S a 0 v p where
  total := by
    rw [sum_mul, zero_mul, add_zero]
    exact sum_congr rfl fun j hj => by rw [hv j hj]
  share h hh := by
    rw [hv h hh]
    split <;> omega

theorem serve (hsp : Spent T w S a n v p) (hp : p ∈ T) (hs : Serve T c v p v' p') (hc : Costs T w c S M) :
    Spent T w S a (n + 1) v' p' where
  total := by
    rw [hs.sum_eq hc hp Subset.rfl, if_pos hp, hsp.total]
    ring
  share h hh := by
    have hold := hsp.share h hh
    by_cases hhp : h = p
    · subst hhp
      rw [if_pos rfl] at hold
      rw [if_neg hs.ne, hs.paid, mul_add, hc.eq h hh]
      nlinarith
    · rw [if_neg (Ne.symm hhp)] at hold
      rw [hs.same h hh hhp]
      split <;> nlinarith

/-- The account of a client that outweighs the others falls behind by more than `D`. -/
theorem exceeds (hsp : Spent T w S a n v p) (hS : 0 < S) {h : ι} (hh : h ∈ T) {W : ℕ}
    (hW : ∑ j ∈ T.erase h, w j = W) (hheavy : W < w h) {D : ℕ} (hn : w h + W + 2 * W * D * w h < n) :
    ∃ j ∈ T, v h + D < v j := by
  by_contra hno
  simp only [not_exists, not_and, not_lt] at hno
  have htot := hsp.total
  have hshare := hsp.share h hh
  rw [← add_sum_erase _ _ hh, ← add_sum_erase _ w hh, hW] at htot
  have hle : ∑ j ∈ T.erase h, w j * v j ≤ W * (v h + D) := by
    rw [← hW, sum_mul]
    exact sum_le_sum fun j hj => mul_le_mul_left _ (hno j (mem_of_mem_erase hj))
  replace hshare : 2 * (w h * v h) ≤ 2 * (w h * a) + (n + 1) * S := by
    split at hshare <;> omega
  generalize w h = x at *
  zify at *
  -- `d`: what `h` has paid
  obtain ⟨d, hd⟩ : ∃ d : ℤ, (v h : ℤ) = a + d := ⟨v h - a, by ring⟩
  have h4 : (n : ℤ) * S ≤ (x - W) * (n * S) := le_mul_of_one_le_left (by positivity) (by omega)
  have h6 : 2 * W * D * x * 1 ≤ 2 * W * D * x * (S : ℤ) := by gcongr; omega
  nlinarith

end Spent

end LeastFirst
