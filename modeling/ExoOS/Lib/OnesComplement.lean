import Mathlib.Data.BitVec

/-!
# One's complement sums

The sum of a byte string's 16-bit words, and its reduction to 16 bits by end-around carries. A carry keeps the value
modulo `65535`, so a sum whose complement has been added to it reduces to all ones.
-/

namespace OnesComplement

/-- The little-endian words of a byte string; an odd last byte is a word of its own. -/
def wordSum : List (BitVec 8) → Nat
  | [] => 0
  | [a] => a.toNat
  | a :: b :: rest => a.toNat + b.toNat * 256 + wordSum rest

theorem wordSum_append {l : List (BitVec 8)} (h : l.length % 2 = 0) (l' : List (BitVec 8)) :
    wordSum (l ++ l') = wordSum l + wordSum l' := by
  fun_induction wordSum l with
  | case1 => simp
  | case2 a => simp at h
  | case3 a b rest ih =>
    have hrest : rest.length % 2 = 0 := by
      simp only [List.length_cons] at h
      omega
    rw [List.cons_append, List.cons_append, wordSum, ih hrest]
    omega

theorem wordSum_le (l : List (BitVec 8)) : wordSum l ≤ 65535 * ((l.length + 1) / 2) := by
  fun_induction wordSum l with
  | case1 => simp
  | case2 a =>
    simp
    omega
  | case3 a b rest ih =>
    simp only [List.length_cons]
    omega

def carry (sum : Nat) : Nat := sum % 65536 + sum / 65536

theorem carry_mod (sum : Nat) : carry sum % 65535 = sum % 65535 := by
  unfold carry
  omega

variable {sum : Nat}

theorem carry_carry_le (h : sum < 2 ^ 32) : carry (carry sum) ≤ 65535 := by
  unfold carry
  omega

theorem carry_carry_pos (h : 0 < sum) : 0 < carry (carry sum) := by
  unfold carry
  omega

theorem carry_carry_of_dvd (h : sum < 2 ^ 32) (hpos : 0 < sum) (hdvd : sum % 65535 = 0) :
    carry (carry sum) = 65535 := by
  have h1 := carry_carry_le h
  have h2 := carry_carry_pos hpos
  have h3 : carry (carry sum) % 65535 = 0 := by rw [carry_mod, carry_mod, hdvd]
  omega

theorem carry_carry_add (h : sum + 65535 < 2 ^ 32) : carry (carry (sum + (65535 - carry (carry sum)))) = 65535 := by
  have h1 : carry (carry sum) ≤ 65535 := carry_carry_le (by omega)
  have h2 : carry (carry sum) % 65535 = sum % 65535 := by rw [carry_mod, carry_mod]
  refine carry_carry_of_dvd (by omega) ?_ (by omega)
  rcases Nat.eq_zero_or_pos sum with rfl | hpos
  · decide
  · omega

end OnesComplement
