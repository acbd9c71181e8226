import Mathlib.Data.List.Infix

/-!
# Computations that leave a log

A computation that is given a number of steps returns something or runs out of them; either way it leaves a log.
`Le` compares what it does with fewer and with more steps: the result is the same, or there was none and the log goes
on.
-/

/-- `out` is `none` if the computation ran out of steps. -/
structure Traced (ε α : Type) where
  out : Option α
  log : List ε

namespace Traced

variable {ε α β : Type}

def stuck : Traced ε α := ⟨none, []⟩

def ret (a : α) : Traced ε α := ⟨some a, []⟩

def emit (es : List ε) (w : Traced ε α) : Traced ε α := ⟨w.out, es ++ w.log⟩

def andThen (w : Traced ε α) (f : α → Traced ε β) : Traced ε β :=
  match w.out with
  | some a => ⟨(f a).out, w.log ++ (f a).log⟩
  | none => ⟨none, w.log⟩

@[simp]
theorem ret_log (a : α) : (ret a : Traced ε α).log = [] := rfl

@[simp]
theorem emit_log (es : List ε) (w : Traced ε α) : (w.emit es).log = es ++ w.log := rfl

theorem emit_emit (es es' : List ε) (w : Traced ε α) : (w.emit es).emit es' = w.emit (es' ++ es) := by
  simp only [emit, List.append_assoc]

theorem andThen_some {w : Traced ε α} {f : α → Traced ε β} {a : α} (h : w.out = some a) :
    w.andThen f = (f a).emit w.log := by
  simp only [andThen, h]
  rfl

theorem andThen_none {w : Traced ε α} {f : α → Traced ε β} (h : w.out = none) : w.andThen f = ⟨none, w.log⟩ := by
  simp only [andThen, h]

theorem log_prefix_andThen (w : Traced ε α) (f : α → Traced ε β) : w.log <+: (w.andThen f).log := by
  rcases h : w.out with _ | a
  · rw [andThen_none h]
  · rw [andThen_some h]
    exact List.prefix_append ..

/-- `w` with more steps is `w'`. -/
def Le (w w' : Traced ε α) : Prop := w = w' ∨ w.out = none ∧ w.log <+: w'.log

namespace Le

variable {w w' : Traced ε α}

theorem refl (w : Traced ε α) : Le w w := .inl rfl

theorem log (h : Le w w') : w.log <+: w'.log := by
  rcases h with rfl | ⟨-, h⟩
  · exact List.prefix_rfl
  · exact h

theorem eq_of_out {a : α} (h : Le w w') (ha : w.out = some a) : w = w' := by
  rcases h with rfl | ⟨h, -⟩
  · rfl
  · rw [ha] at h
    cases h

theorem stuck (w : Traced ε α) : Le .stuck w := .inr ⟨rfl, List.nil_prefix⟩

theorem emit (es : List ε) (h : Le w w') : Le (w.emit es) (w'.emit es) := by
  rcases h with rfl | ⟨h1, h2⟩
  · exact refl _
  · exact .inr ⟨h1, (List.prefix_append_right_inj es).2 h2⟩

theorem andThen {f f' : α → Traced ε β} (h : Le w w') (hf : ∀ a, Le (f a) (f' a)) :
    Le (w.andThen f) (w'.andThen f') := by
  rcases hout : w.out with _ | a
  · rw [andThen_none hout]
    exact .inr ⟨rfl, h.log.trans (log_prefix_andThen ..)⟩
  · cases h.eq_of_out hout
    rw [andThen_some hout, andThen_some hout]
    exact (hf a).emit _

end Le

end Traced
