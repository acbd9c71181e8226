import Mathlib.Data.List.Basic

/-!
# Traces of lock operations

What one context does to a family of spin locks, and where it may sleep. A trace is `Disciplined` if a lock is acquired
only when the context does not hold it, released only when it does, and no lock is held where the context may sleep.
-/

inductive LockEvent (κ : Type)
  | acquire (k : κ)
  | release (k : κ)
  | sleep
  deriving DecidableEq

namespace LockEvent

open List

variable {κ : Type} [DecidableEq κ]

/-- With the locks `held` before the trace. -/
def Disciplined : List κ → List (LockEvent κ) → Prop
  | _, [] => True
  | held, .acquire k :: es => k ∉ held ∧ Disciplined (k :: held) es
  | held, .release k :: es => k ∈ held ∧ Disciplined (held.erase k) es
  | held, .sleep :: es => held = [] ∧ Disciplined held es

instance decidableDisciplined : ∀ (held : List κ) (es : List (LockEvent κ)), Decidable (Disciplined held es)
  | _, [] => .isTrue trivial
  | held, .acquire k :: es =>
    have := decidableDisciplined (k :: held) es
    inferInstanceAs (Decidable (_ ∧ _))
  | held, .release k :: es =>
    have := decidableDisciplined (held.erase k) es
    inferInstanceAs (Decidable (_ ∧ _))
  | held, .sleep :: es =>
    have := decidableDisciplined held es
    inferInstanceAs (Decidable (_ ∧ _))

variable {k : κ} {n : Nat} {es : List (LockEvent κ)}

theorem disciplined_sleeps : Disciplined [] (List.replicate n .sleep ++ es) ↔ Disciplined [] es := by
  induction n with
  | zero => exact Iff.rfl
  | succ n ih =>
    exact (and_iff_right rfl).trans ih

theorem disciplined_replicate_sleep : Disciplined ([] : List κ) (List.replicate n .sleep) := by
  rw [← append_nil (replicate n _), disciplined_sleeps]
  trivial

theorem disciplined_locked :
    Disciplined [] (.acquire k :: (List.replicate n .sleep ++ .release k :: es)) ↔ n = 0 ∧ Disciplined [] es := by
  have hstart : Disciplined [] (.acquire k :: (replicate n .sleep ++ .release k :: es)) ↔
      Disciplined [k] (replicate n .sleep ++ .release k :: es) := and_iff_right not_mem_nil
  rw [hstart]
  cases n with
  | zero =>
    have hend : Disciplined [k] (.release k :: es) ↔ k ∈ [k] ∧ Disciplined ([k].erase k) es := Iff.rfl
    rw [replicate_zero, nil_append, hend, erase_cons_head]
    exact and_congr_left fun _ => iff_of_true (mem_singleton_self k) rfl
  | succ n =>
    refine iff_of_false (fun h => ?_) fun h => absurd h.1 (Nat.succ_ne_zero n)
    exact absurd h.1 (cons_ne_nil k [])

end LockEvent
