import Mathlib.Data.List.GetD
import ExoOS.Mm.Memory

/-!
# Writes to user memory through the direct map

Where the kernel stores an object in user memory it translates the first address (`vmm_get_pte`) and writes the
object to the direct map from there on. `Stays` says what such a write should do, whatever the memory holds, and
`InPlace` when it does: the bytes of the range follow each other in physical memory too, and no other process can
read them.
-/

namespace ExoOS.Mm

open Function List

variable {ι : Type}

namespace Memory

def phys (s : Memory ι) (q : Nat) : Byte := s.data (q / PAGE_SIZE) (q % PAGE_SIZE)

def poke (s : Memory ι) (q : Nat) (b : Byte) : Memory ι :=
  { s with data := update s.data (q / PAGE_SIZE) (update (s.data (q / PAGE_SIZE)) (q % PAGE_SIZE) b) }

def pokes : List Byte → Nat → Memory ι → Memory ι
  | [], _, s => s
  | b :: bs, q, s => pokes bs (q + 1) (s.poke q b)

def vmmGetPte (s : Memory ι) (i : ι) (v : BitVec 64) : Option Pte :=
  if (s.pte i v.toNat).present then some (s.pte i v.toNat) else none

def place (e : Pte) (v : BitVec 64) : Nat := e.pfn * PAGE_SIZE + v.toNat % PAGE_SIZE

def translate (s : Memory ι) (i : ι) (v : BitVec 64) : Option Nat := (s.vmmGetPte i v).map (place · v)

/-- An object is stored at a user address. Only the first address is translated. -/
def directWrite (s : Memory ι) (i : ι) (v : BitVec 64) (bs : List Byte) : Memory ι :=
  match s.vmmGetPte i v with
  | none => s
  | some e => pokes bs (place e v) s

def holding (s : Memory ι) (data : Nat → Page) : Memory ι := { s with data := data }

def Reads (s : Memory ι) (j : ι) (q : Nat) : Prop :=
  ∃ v, (s.pte j v.toNat).Permits false ∧ s.translate j v = some q

/-- Whatever the memory holds, a write of `bs` changes only what the page table maps for its range, stores the
bytes there and changes nothing that another process can read. -/
structure Stays (s : Memory ι) (i : ι) (v : BitVec 64) (bs : List Byte) : Prop where
  inside : ∀ data q, ((s.holding data).directWrite i v bs).phys q ≠ (s.holding data).phys q →
    ∃ k < bs.length, s.translate i (v + BitVec.ofNat 64 k) = some q
  stored : ∀ data k q, (h : k < bs.length) → s.translate i (v + BitVec.ofNat 64 k) = some q →
    ((s.holding data).directWrite i v bs).phys q = bs[k]
  unseen : ∀ data j q, j ≠ i → s.Reads j q →
    ((s.holding data).directWrite i v bs).phys q = (s.holding data).phys q

/-- The range of `n` bytes is mapped to one range of physical memory, or not at all, and no other process reads
there. -/
structure InPlace (s : Memory ι) (i : ι) (v : BitVec 64) (n : Nat) : Prop where
  adjacent : ∀ k < n, s.translate i (v + BitVec.ofNat 64 k) = (s.translate i v).map (· + k)
  alone : ∀ q, s.translate i v = some q → ∀ k < n, ∀ j ≠ i, ¬ s.Reads j (q + k)

variable {s : Memory ι} {i : ι} {v : BitVec 64} {bs : List Byte}

theorem phys_poke (s : Memory ι) (p : Nat) (b : Byte) (q : Nat) :
    (s.poke p b).phys q = if q = p then b else s.phys q := by
  have hdiv : q = q / PAGE_SIZE * PAGE_SIZE + q % PAGE_SIZE := by
    rw [Nat.mul_comm]
    exact (Nat.div_add_mod _ _).symm
  have hdiv' : p = p / PAGE_SIZE * PAGE_SIZE + p % PAGE_SIZE := by
    rw [Nat.mul_comm]
    exact (Nat.div_add_mod _ _).symm
  unfold phys poke
  dsimp only
  by_cases hf : q / PAGE_SIZE = p / PAGE_SIZE
  · by_cases ho : q % PAGE_SIZE = p % PAGE_SIZE
    · have : q = p := by rw [hdiv, hdiv', hf, ho]
      subst this
      simp
    · have : q ≠ p := fun h => ho (h ▸ rfl)
      rw [if_neg this, hf, update_self, update_of_ne ho]
  · have : q ≠ p := fun h => hf (h ▸ rfl)
    rw [if_neg this, update_of_ne hf]

theorem phys_pokes (bs : List Byte) (p : Nat) (s : Memory ι) (q : Nat) :
    (pokes bs p s).phys q = if p ≤ q then bs.getD (q - p) (s.phys q) else s.phys q := by
  induction bs generalizing p s with
  | nil => simp [pokes]
  | cons b bs ih =>
    rw [pokes, ih, phys_poke]
    rcases lt_trichotomy q p with hlt | rfl | hgt
    · rw [if_neg (by omega), if_neg (by omega), if_neg (by omega)]
    · rw [if_neg (by omega), if_pos rfl, if_pos le_rfl, Nat.sub_self]
      rfl
    · rw [if_pos (by omega), if_neg (by omega), if_pos hgt.le, show q - p = q - (p + 1) + 1 by omega]
      rfl

theorem translate_eq_some {q : Nat} (h : s.translate i v = some q) : q % PAGE_SIZE = v.toNat % PAGE_SIZE := by
  obtain ⟨e, -, rfl⟩ := Option.map_eq_some_iff.1 h
  unfold place PAGE_SIZE
  omega

theorem directWrite_none (h : s.translate i v = none) (data : Nat → Page) :
    (s.holding data).directWrite i v bs = s.holding data := by
  have : s.vmmGetPte i v = none := Option.map_eq_none_iff.1 h
  show (match s.vmmGetPte i v with | none => s.holding data | some e => pokes bs (place e v) (s.holding data)) = _
  rw [this]

theorem directWrite_some {p : Nat} (h : s.translate i v = some p) (data : Nat → Page) :
    (s.holding data).directWrite i v bs = pokes bs p (s.holding data) := by
  obtain ⟨e, he, rfl⟩ := Option.map_eq_some_iff.1 h
  show (match s.vmmGetPte i v with | none => s.holding data | some e => pokes bs (place e v) (s.holding data)) = _
  rw [he]

variable {p k : Nat}

theorem phys_directWrite (h : s.translate i v = some p) (hk : k < bs.length) (data : Nat → Page) :
    ((s.holding data).directWrite i v bs).phys (p + k) = bs[k] := by
  rw [directWrite_some h, phys_pokes, if_pos (Nat.le_add_right p k), Nat.add_sub_cancel_left, getD_eq_getElem _ _ hk]

theorem phys_directWrite_changed {p q : Nat} (h : s.translate i v = some p) {data : Nat → Page}
    (hne : ((s.holding data).directWrite i v bs).phys q ≠ (s.holding data).phys q) :
    ∃ k < bs.length, q = p + k := by
  rw [directWrite_some h, phys_pokes] at hne
  split at hne
  · refine ⟨q - p, ?_, by omega⟩
    by_contra hlt
    rw [getD_eq_default _ _ (Nat.not_lt.1 hlt)] at hne
    exact hne rfl
  · exact absurd rfl hne

theorem InPlace.stays (h : s.InPlace i v bs.length) : s.Stays i v bs := by
  rcases htr : s.translate i v with _ | p
  · refine ⟨fun data q hne => ?_, fun data k q hk hq => ?_, fun data j q _ _ => ?_⟩
    · rw [directWrite_none htr] at hne
      exact absurd rfl hne
    · rw [h.adjacent k hk, htr] at hq
      cases hq
    · rw [directWrite_none htr]
  refine ⟨fun data q hne => ?_, fun data k q hk hq => ?_, fun data j q hj hr => ?_⟩
  · obtain ⟨k, hk, rfl⟩ := phys_directWrite_changed htr hne
    exact ⟨k, hk, by rw [h.adjacent k hk, htr]; rfl⟩
  · rw [h.adjacent k hk, htr] at hq
    cases hq
    exact phys_directWrite htr hk data
  · by_contra hne
    obtain ⟨k, hk, rfl⟩ := phys_directWrite_changed htr hne
    exact h.alone p htr k hk j hj hr

theorem phys_holding_const (b : Byte) (q : Nat) : (s.holding fun _ _ => b).phys q = b := rfl

section

variable (h : s.Stays i v bs)
include h

theorem Stays.unmapped (htr : s.translate i v = none) {k : Nat} (hk : k < bs.length) :
    s.translate i (v + BitVec.ofNat 64 k) = none := by
  rcases hq : s.translate i (v + BitVec.ofNat 64 k) with _ | q
  · rfl
  · have := h.stored (fun _ _ => bs[k] + 1) k q hk hq
    rw [directWrite_none htr, phys_holding_const] at this
    exact absurd this (by bv_omega)

theorem Stays.mapped (htr : s.translate i v = some p) (hk : k < bs.length) :
    ∃ l, ∃ hl : l < bs.length, s.translate i (v + BitVec.ofNat 64 l) = some (p + k) ∧ bs[l] = bs[k] := by
  have hne : ((s.holding fun _ _ => bs[k] + 1).directWrite i v bs).phys (p + k) ≠
      (s.holding fun _ _ => bs[k] + 1).phys (p + k) := by
    rw [phys_directWrite htr hk, phys_holding_const]
    bv_omega
  obtain ⟨l, hl, hq⟩ := h.inside _ _ hne
  exact ⟨l, hl, hq, (h.stored (fun _ _ => 0) l _ hl hq).symm.trans (phys_directWrite htr hk _)⟩

theorem Stays.alone (htr : s.translate i v = some p) (hk : k < bs.length) {j : ι}
    (hj : j ≠ i) : ¬ s.Reads j (p + k) := by
  intro hr
  have := h.unseen (fun _ _ => bs[k] + 1) j (p + k) hj hr
  rw [phys_directWrite htr hk, phys_holding_const] at this
  exact absurd this (by bv_omega)

theorem Stays.adjacent {k : Nat} (hk : k < bs.length)
    (hown : ∀ p l, (hl : l < bs.length) → s.translate i v = some p →
      s.translate i (v + BitVec.ofNat 64 l) = some (p + k) → bs[l] = bs[k] → l = k) :
    s.translate i (v + BitVec.ofNat 64 k) = (s.translate i v).map (· + k) := by
  rcases htr : s.translate i v with _ | p
  · exact h.unmapped htr hk
  · obtain ⟨l, hl, hq, hb⟩ := h.mapped htr hk
    rw [hown p l hl htr hq hb] at hq
    exact hq

end

theorem add_ofNat_mod (v : BitVec 64) (k : Nat) :
    (v + BitVec.ofNat 64 k).toNat % PAGE_SIZE = (v.toNat + k) % PAGE_SIZE := by
  rw [BitVec.toNat_add, BitVec.toNat_ofNat]
  unfold PAGE_SIZE
  omega

theorem stays_iff (hlen : bs.length ≤ PAGE_SIZE) : s.Stays i v bs ↔ s.InPlace i v bs.length := by
  refine ⟨fun h => ⟨fun k hk => h.adjacent hk fun p l hl htr hq _ => ?_, fun p htr k hk j hj => h.alone htr hk hj⟩,
    InPlace.stays⟩
  have hp := translate_eq_some htr
  have hoff := (translate_eq_some hq).trans (add_ofNat_mod v l)
  unfold PAGE_SIZE at *
  omega

def oddOneOut (n j : Nat) : List Byte := (range n).map fun k => if k = j then 2 else 1

theorem oddOneOut_length (n j : Nat) : (oddOneOut n j).length = n := by simp [oddOneOut]

theorem oddOneOut_get {n j k : Nat} (h : k < (oddOneOut n j ++ [0]).length) :
    (oddOneOut n j ++ [0])[k] = if k = n then 0 else if k = j then 2 else 1 := by
  rw [length_append, oddOneOut_length, length_singleton] at h
  rw [getElem_append]
  simp only [oddOneOut_length]
  split
  · rw [if_neg (by omega)]
    simp [oddOneOut]
  · rw [if_pos (by omega)]
    simp

/-- Texts of any length, with their terminators: one text for each byte that is not where it belongs. -/
theorem inPlace_of_texts {n : Nat} (h : ∀ j, s.Stays i v (oddOneOut n j ++ [0])) : s.InPlace i v (n + 1) := by
  have hlen : ∀ j, (oddOneOut n j ++ [0]).length = n + 1 := fun j => by
    rw [length_append, oddOneOut_length, length_singleton]
  refine ⟨fun k hk => ?_, fun p htr k hk j hj => (h 0).alone htr (by rwa [hlen]) hj⟩
  have hk' : k < (oddOneOut n k ++ [0]).length := by rwa [hlen]
  refine (h k).adjacent hk' fun p l hl _ _ hb => ?_
  rw [oddOneOut_get, oddOneOut_get] at hb
  split_ifs at hb with h2
  all_goals first | omega | exact absurd hb (by decide)

end Memory

end ExoOS.Mm
