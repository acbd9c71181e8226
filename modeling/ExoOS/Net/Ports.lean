import ExoOS.Lib.Run
import Mathlib.Data.List.Basic

/-!
# Ephemeral ports

`tcp_alloc_ephemeral` of `net/tcp.c` and `udp_alloc_ephemeral` of `net/udp.c`, which differ in the table they search.
The counter has 16 bits, so it is never beyond 65535: after that port it goes on at 0, and the ports with it
(`port_zero`).
-/

namespace ExoOS.Net.Ports

open List Transition

abbrev Port := BitVec 16

/-- An entry of `g_tcbs` or `g_udp_binds`. -/
structure Entry where
  active : Bool
  port : Port

def used (table : List Entry) (port : Port) : Bool := table.any fun e => e.active && e.port == port

/-- The port and the counter afterwards. -/
def allocLoop (table : List Entry) (start : Port) : Nat → Port → Option (Port × Port)
  | 0, _ => none
  | n + 1, port =>
    let next := if 65535 < (port + 1).toNat then 49152 else port + 1
    if !used table port then some (port, next)
    else if next = start then some (0, next)
    else allocLoop table start n next

/-- The counter is back at its start after `2 ^ 16` rounds. -/
def allocEphemeral (table : List Entry) (next : Port) : Option (Port × Port) := allocLoop table next (2 ^ 16) next

structure State where
  next : Port
  table : List Entry
  /-- What the last call returned, and the table it found. -/
  last : Option (Port × List Entry)

def init : State := ⟨49152, [], none⟩

/-- A call, or a bind or release, which leaves another table. -/
inductive Event
  | alloc
  | change (table : List Entry)

def step (s : State) : Event → Option State
  | .alloc => (allocEphemeral s.table s.next).map fun r => ⟨r.2, s.table, some (r.1, s.table)⟩
  | .change table => some { s with table := table }

/-- 0 stands for a range without a free port, another result for a free port of the range. -/
def Exact (r : Port × List Entry) : Prop :=
  (r.1 = 0 ↔ ∀ p : Port, 49152 ≤ p.toNat → used r.2 p) ∧ (r.1 ≠ 0 → 49152 ≤ r.1.toNat ∧ used r.2 r.1 = false)

/-- The counter has not run over, and from it on there is a free port. -/
def Ahead (s : State) : Event → Prop
  | .alloc => 49152 ≤ s.next.toNat ∧ ∃ p : Port, s.next.toNat ≤ p.toNat ∧ used s.table p = false
  | .change _ => True

variable {table : List Entry} {start port p : Port} {n : Nat}

theorem counter_eq (port : Port) : (if 65535 < (port + 1).toNat then 49152 else port + 1) = port + 1 :=
  if_neg (by omega)

/-- The rounds that are left: up to where the counter started. -/
theorem allocLoop_isSome (h : (start - port - 1).toNat < n) : (allocLoop table start n port).isSome := by
  induction n generalizing port with
  | zero => omega
  | succ n ih =>
    rw [allocLoop, counter_eq]
    split_ifs
    · rfl
    · rfl
    · exact ih (by bv_omega)

theorem allocLoop_free (hp : used table p = false) (hs : start.toNat ≤ port.toNat) (hle : port.toNat ≤ p.toNat)
    {r : Port × Port} (hr : allocLoop table start n port = some r) :
    used table r.1 = false ∧ start.toNat ≤ r.1.toNat := by
  induction n generalizing port with
  | zero => cases hr
  | succ n ih =>
    rw [allocLoop, counter_eq] at hr
    rcases hu : used table port with _ | _
    · rw [hu] at hr
      cases hr
      exact ⟨hu, hs⟩
    -- the port is in use, so the free one is still ahead
    have hne : port ≠ p := by
      rintro rfl
      cases hp.symm.trans hu
    rw [hu, if_neg (by simp), if_neg (by bv_omega)] at hr
    exact ih (by bv_omega) (by bv_omega) hr

theorem ephemeral_ports {es : List Event} {s : State} (h : Run step Ahead init es s) :
    (∀ table next, (allocEphemeral table next).isSome) ∧ ∀ r, s.last = some r → Exact r := by
  refine ⟨fun table next => allocLoop_isSome (by bv_omega), ?_⟩
  refine h.inv (I := fun s => ∀ r, s.last = some r → Exact r) ?_ nofun
  rintro s (_ | table) s' hP ha hs r hr
  · obtain ⟨hlo, p, hle, hp⟩ := ha
    obtain ⟨q, hq, rfl⟩ := Option.map_eq_some_iff.1 hs
    obtain ⟨hfree, hge⟩ := allocLoop_free hp (Nat.le_refl _) hle hq
    cases hr
    have hne : q.1 ≠ 0 := by bv_omega
    refine ⟨iff_of_false hne fun hall => ?_, fun _ => ⟨Nat.le_trans hlo hge, hfree⟩⟩
    cases hp.symm.trans (hall p (Nat.le_trans hlo hle))
  · cases hs
    exact hP r hr

theorem step_nil (k : Port) (last : Option (Port × List Entry)) :
    step ⟨k, [], last⟩ .alloc = some ⟨k + 1, [], some (k, [])⟩ := by
  have h : allocLoop [] k (65535 + 1) k = some (k, k + 1) := by
    rw [allocLoop, counter_eq]
    rfl
  exact congrArg (Option.map fun r => (⟨r.2, [], some (r.1, [])⟩ : State)) h

theorem ephemeral_ports_skip : ∃ s, Run step Ahead init [.change [⟨true, 49152⟩], .alloc] s ∧
    s.last = some (49153, [⟨true, 49152⟩]) ∧ Exact (49153, [⟨true, 49152⟩]) := by
  have hrun : Run step Ahead init [.change [⟨true, 49152⟩], .alloc]
      ⟨49154, [⟨true, 49152⟩], some (49153, [⟨true, 49152⟩])⟩ :=
    .cons trivial rfl (.cons ⟨by decide, 49153, by decide, by decide⟩ rfl (.nil _))
  exact ⟨_, hrun, rfl, (ephemeral_ports hrun).2 _ rfl⟩

/-- With no port in use, the 16385th call returns 0. -/
theorem port_zero : ∃ s, Run step Any init (replicate 16385 .alloc) s ∧ s.last = some (0, []) ∧ ¬ Exact (0, []) := by
  have hrun : ∀ n (k : Port) last, Run step Any ⟨k, [], last⟩ (replicate (n + 1) .alloc)
      ⟨k + BitVec.ofNat 16 n + 1, [], some (k + BitVec.ofNat 16 n, [])⟩ := by
    intro n
    induction n with
    | zero => exact fun k last => .cons trivial (by simp [step_nil]) (.nil _)
    | succ n ih =>
      intro k last
      have h := ih (k + 1) (some (k, []))
      rw [show k + 1 + BitVec.ofNat 16 n = k + BitVec.ofNat 16 (n + 1) by bv_omega] at h
      exact .cons trivial (step_nil k last) h
  refine ⟨_, hrun 16384 49152 none, rfl, fun h => ?_⟩
  cases h.1.1 rfl 65535 (by decide)

end ExoOS.Net.Ports
