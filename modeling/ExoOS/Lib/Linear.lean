import Mathlib.Data.List.Nodup

/-!
# Resources that are given up once

A `Ledger` issues numbers and logs the events that give them up. `Settles owned l l'`: on the way from `l` to `l'`
every number that was issued and every number of `owned` has been given up once, and no other. A computation that
issues a number owes it from then on (`Settles.issue`); one after the other settles what both settle (`Settles.trans`).
-/

structure Ledger (ε : Type) where
  next : Nat
  log : List ε
deriving DecidableEq

namespace Ledger

variable {ε : Type} (key : ε → Nat)

def issue (l : Ledger ε) : Ledger ε := { l with next := l.next + 1 }

def give (l : Ledger ε) (e : ε) : Ledger ε := { l with log := l.log ++ [e] }

def given (l : Ledger ε) (id : Nat) : Nat := l.log.countP fun e => key e == id

structure Settles (owned : List Nat) (l l' : Ledger ε) : Prop where
  le : l.next ≤ l'.next
  given : ∀ id, l'.given key id = l.given key id + owned.count id + if l.next ≤ id ∧ id < l'.next then 1 else 0

variable {key} {l l' l'' : Ledger ε} {owned owned' : List Nat}

namespace Settles

theorem refl (l : Ledger ε) : Settles key [] l l :=
  ⟨Nat.le_refl _, fun id => by rw [List.count_nil, if_neg (by omega), Nat.add_zero]⟩

theorem give (key : ε → Nat) (l : Ledger ε) (e : ε) : Settles key [key e] l (l.give e) := by
  refine ⟨Nat.le_refl _, fun id => ?_⟩
  rw [if_neg (by simp only [Ledger.give]; omega), Ledger.given, Ledger.give, List.countP_append, Ledger.given]
  rfl

theorem trans (h : Settles key owned l l') (h' : Settles key owned' l' l'') : Settles key (owned ++ owned') l l'' := by
  have := h.le
  have := h'.le
  refine ⟨by omega, fun id => ?_⟩
  rw [h'.given, h.given, List.count_append]
  split_ifs <;> omega

theorem issue (h : Settles key (l.next :: owned) l.issue l') : Settles key owned l l' := by
  have hle : l.next + 1 ≤ l'.next := h.le
  refine ⟨by omega, fun id => ?_⟩
  have hg := h.given id
  have hnext : l.issue.next = l.next + 1 := rfl
  have hgiven : l.issue.given key id = l.given key id := rfl
  rw [hg, hgiven, hnext, List.count_cons]
  simp only [beq_iff_eq]
  split_ifs <;> omega

theorem once (h : Settles key owned l l') (hold : ∀ id ∈ owned, id < l.next) (hnd : owned.Nodup) {id : Nat}
    (hid : id ∈ owned ∨ l.next ≤ id ∧ id < l'.next) : l'.given key id = l.given key id + 1 := by
  rw [h.given]
  rcases hid with hid | hid
  · have := hold id hid
    rw [List.count_eq_one_of_mem hnd hid, if_neg (by omega)]
  · have hcount : owned.count id = 0 := List.count_eq_zero.2 fun hmem => by
      have := hold id hmem
      omega
    rw [hcount, if_pos hid]

theorem leak (h : Settles key owned l.issue l') (hold : ∀ id ∈ owned, id < l.next) :
    l.next < l'.next ∧ l'.given key l.next = l.given key l.next := by
  have hle : l.next + 1 ≤ l'.next := h.le
  have hcount : owned.count l.next = 0 := List.count_eq_zero.2 fun hmem => Nat.lt_irrefl _ (hold _ hmem)
  have hnext : l.issue.next = l.next + 1 := rfl
  have hgiven : l.issue.given key l.next = l.given key l.next := rfl
  refine ⟨hle, ?_⟩
  rw [h.given, hgiven, hnext, hcount, if_neg (by omega), Nat.add_zero]

end Settles

end Ledger
