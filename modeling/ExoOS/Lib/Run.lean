import Mathlib.Algebra.Group.Nat.Units

/-!
# Runs of a step function

`Run step C s es s'`: the events `es` take `s` to `s'` through `step`, and the side condition `C`
holds of every event in the state in which it is taken. `exec` computes the state a list of events
reaches; a run without a side condition is an execution (`exec_iff`), and one with a side condition is an
execution in which it is checked (`run_of_exec`), which is how concrete runs are found (`exists_run`). `Run.inv`
is the invariant rule: what one allowed step preserves, every run preserves.
-/

namespace Transition

variable {σ ι : Type}

/-- The state reached by taking the events in order, if all of them can be taken. -/
def exec (step : σ → ι → Option σ) : σ → List ι → Option σ
  | s, [] => some s
  | s, e :: es => (step s e).bind fun s' => exec step s' es

def Any (_ : σ) (_ : ι) : Prop := True

instance (s : σ) (e : ι) : Decidable (Any s e) := .isTrue trivial

inductive Run (step : σ → ι → Option σ) (C : σ → ι → Prop) : σ → List ι → σ → Prop
  | nil (s : σ) : Run step C s [] s
  | cons {s s1 s2 : σ} {e : ι} {es : List ι} (hc : C s e) (hs : step s e = some s1)
      (h : Run step C s1 es s2) : Run step C s (e :: es) s2

variable {step : σ → ι → Option σ} {C C' : σ → ι → Prop} {s s1 s2 : σ} {es es' : List ι}

namespace Run

theorem inv {I : σ → Prop} (hI : ∀ s e s', I s → C s e → step s e = some s' → I s')
    (h : Run step C s es s1) (h0 : I s) : I s1 := by
  induction h with
  | nil => exact h0
  | cons hc hs _ ih => exact ih (hI _ _ _ h0 hc hs)

theorem weaken {I : σ → Prop} (hI : ∀ s e s', I s → C s e → step s e = some s' → I s')
    (hC : ∀ s e, I s → C s e → C' s e) (h : Run step C s es s1) (h0 : I s) : Run step C' s es s1 := by
  induction h with
  | nil => exact .nil _
  | cons hc hs _ ih => exact .cons (hC _ _ h0 hc) hs (ih (hI _ _ _ h0 hc hs))

theorem append (h : Run step C s es s1) (h' : Run step C s1 es' s2) : Run step C s (es ++ es') s2 := by
  induction h with
  | nil => exact h'
  | cons hc hs _ ih => exact .cons hc hs (ih h')

end Run

theorem exec_iff : exec step s es = some s1 ↔ Run step Any s es s1 := by
  constructor
  · intro h
    induction es generalizing s with
    | nil => cases h; exact .nil _
    | cons e es ih =>
      obtain ⟨s', hs, h⟩ := Option.bind_eq_some_iff.1 h
      exact .cons trivial hs (ih h)
  · intro h
    induction h with
    | nil => rfl
    | cons _ hs _ ih => simp [exec, hs, ih]

/-- A run with a side condition that can be decided is an execution in which it is checked. -/
theorem run_of_exec [∀ s e, Decidable (C s e)]
    (h : exec (fun s e => if C s e then step s e else none) s es = some s1) : Run step C s es s1 := by
  induction es generalizing s with
  | nil => cases h; exact .nil _
  | cons e es ih =>
    obtain ⟨s', hs, h⟩ := Option.bind_eq_some_iff.1 h
    dsimp only at hs
    split at hs
    · exact .cons ‹_› hs (ih h)
    · cases hs

/-- A concrete run is found by computing what `f` reads off its last state. -/
theorem exists_run [∀ s e, Decidable (C s e)] {β : Type} {P : σ → Prop} (f : σ → β) (b : β)
    (h : (exec (fun s e => if C s e then step s e else none) s es).map f = some b)
    (hP : ∀ s1, Run step C s es s1 → f s1 = b → P s1) : ∃ s1, Run step C s es s1 ∧ P s1 := by
  obtain ⟨s1, hs, hf⟩ := Option.map_eq_some_iff.1 h
  exact ⟨s1, run_of_exec hs, hP s1 (run_of_exec hs) hf⟩

end Transition
