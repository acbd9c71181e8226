import Mathlib.Data.BitVec

/-!
# Words as sets of bits

`Sub a b`: every bit of `a` is a bit of `b`, written as such code tests it (`a & ~b` is zero). The lemmas
turn it into a statement about single bits and say how it behaves under the operations on words.
-/

namespace Mask

variable {w : Nat} {a b c : BitVec w}

def Sub (a b : BitVec w) : Prop := a &&& ~~~b = 0#w

instance : Decidable (Sub a b) := inferInstanceAs (Decidable (_ = _))

theorem sub_iff : Sub a b ↔ ∀ i < w, a.getLsbD i → b.getLsbD i := by
  constructor
  · intro h i hi ha
    have hbit := congrArg (BitVec.getLsbD · i) h
    simpa [hi, ha] using hbit
  · intro h
    refine BitVec.eq_of_getLsbD_eq fun i hi => ?_
    rcases ha : a.getLsbD i <;> simp_all

theorem Sub.refl (a : BitVec w) : Sub a a := sub_iff.2 fun _ _ h => h

theorem Sub.trans (h : Sub a b) (h' : Sub b c) : Sub a c :=
  sub_iff.2 fun i hi ha => sub_iff.1 h' i hi (sub_iff.1 h i hi ha)

theorem Sub.zero (b : BitVec w) : Sub 0#w b := sub_iff.2 fun i _ h => by simp at h

theorem Sub.and_self_right (a b : BitVec w) : Sub (a &&& b) b := by
  refine sub_iff.2 fun i _ hab => ?_
  rw [BitVec.getLsbD_and, Bool.and_eq_true] at hab
  exact hab.2

theorem Sub.eq_zero (h : Sub a 0#w) : a = 0#w := by
  refine BitVec.eq_of_getLsbD_eq fun i hi => ?_
  rcases ha : a.getLsbD i
  · simp
  · simpa using sub_iff.1 h i hi ha

end Mask
