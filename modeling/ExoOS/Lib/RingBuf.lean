import Mathlib.Data.List.Basic

/-!
# Circular buffers

`RingBuf`: a buffer of `size` cells with a write position `head` and a read position `tail`, one cell of
which always stays free, so that `head = tail` means empty. The positions carry their bounds.
`contents` reads the queue the ring stands for; `push` appends to it (`contents_push`), `advance` drops
from its front (`contents_advance`), `peek` reads a prefix (`peek_eq`), and `pushAll` appends as much of
a list as fits (`contents_pushAll`).
-/

theorem Nat.add_mod_wrap {i k n : Nat} (hi : i < n) (hk : k ≤ n) :
    (i + k) % n = if i + k < n then i + k else i + k - n := by
  split
  · exact Nat.mod_eq_of_lt ‹_›
  · rw [Nat.mod_eq_sub_mod (by omega)]
    exact Nat.mod_eq_of_lt (by omega)

structure RingBuf (α : Type) where
  size : Nat
  buf : Nat → α
  head : Nat
  tail : Nat
  head_lt : head < size
  tail_lt : tail < size

namespace RingBuf

open List Function Nat

variable {α : Type} (r : RingBuf α)

theorem size_pos : 0 < r.size := Nat.lt_of_le_of_lt (Nat.zero_le _) r.head_lt

def empty (size : Nat) (buf : Nat → α) (h : 0 < size) : RingBuf α :=
  { size := size, buf := buf, head := 0, tail := 0, head_lt := h, tail_lt := h }

def used : Nat := (r.head + r.size - r.tail) % r.size

def free : Nat := r.size - 1 - r.used

def Full : Prop := (r.head + 1) % r.size = r.tail

instance : Decidable r.Full := inferInstanceAs (Decidable (_ = _))

def push (x : α) : RingBuf α :=
  { r with
    buf := update r.buf r.head x
    head := (r.head + 1) % r.size
    head_lt := mod_lt _ r.size_pos }

def cell (i : Nat) : α := r.buf ((r.tail + i) % r.size)

def peek (n : Nat) : List α := (List.range n).map r.cell

def contents : List α := r.peek r.used

def advance (n : Nat) : RingBuf α :=
  { r with tail := (r.tail + n) % r.size, tail_lt := mod_lt _ r.size_pos }

def pushAll : RingBuf α → List α → RingBuf α
  | r, [] => r
  | r, x :: xs => if r.Full then r else pushAll (r.push x) xs

theorem used_eq : r.used = if r.tail ≤ r.head then r.head - r.tail else r.head + r.size - r.tail := by
  have h1 := r.head_lt
  unfold used
  split
  · rw [show r.head + r.size - r.tail = (r.head - r.tail) + r.size by omega, add_mod_right]
    exact mod_eq_of_lt (by omega)
  · exact mod_eq_of_lt (by omega)

theorem used_lt : r.used < r.size := mod_lt _ r.size_pos

theorem full_iff : r.Full ↔ r.used = r.size - 1 := by
  have h2 := r.tail_lt
  rw [Full, add_mod_wrap r.head_lt (by omega), used_eq]
  split <;> split <;> omega

theorem not_full_iff : ¬ r.Full ↔ r.used + 1 < r.size := by
  have := r.used_lt
  rw [full_iff]; omega

theorem empty_iff : r.head = r.tail ↔ r.used = 0 := by
  have h2 := r.tail_lt
  rw [used_eq]
  split <;> omega

@[simp] theorem length_contents : r.contents.length = r.used := by simp [contents, peek]

@[simp] theorem used_empty (size : Nat) (buf : Nat → α) (h : 0 < size) : (empty size buf h).used = 0 := by
  simp [used_eq, empty]

theorem used_push (x : α) (h : ¬ r.Full) : (r.push x).used = r.used + 1 := by
  have h1 := r.head_lt
  have h2 := r.tail_lt
  have h3 := r.not_full_iff.1 h
  have h4 : (r.push x).head = if r.head + 1 < r.size then r.head + 1 else 0 := by
    show (r.head + 1) % r.size = _
    rw [add_mod_wrap r.head_lt (by omega)]
    split <;> omega
  rw [used_eq] at h3 ⊢
  rw [used_eq, h4]
  show (if r.tail ≤ _ then _ - r.tail else _ + r.size - r.tail) = _
  split at h3 <;> split <;> split <;> omega

theorem used_advance {n : Nat} (h : n ≤ r.used) : (r.advance n).used = r.used - n := by
  have h1 := r.head_lt
  have h2 := r.tail_lt
  have h3 := r.used_lt
  have h4 : (r.advance n).tail = if r.tail + n < r.size then r.tail + n else r.tail + n - r.size :=
    add_mod_wrap r.tail_lt (by omega)
  rw [used_eq] at h ⊢
  rw [used_eq, h4]
  show (if _ ≤ r.head then r.head - _ else r.head + r.size - _) = _
  split at h <;> split <;> split <;> omega

theorem cell_push (x : α) {i : Nat} (hi : i < r.used) : (r.push x).cell i = r.cell i := by
  have h3 := r.used_lt
  have hne : (r.tail + i) % r.size ≠ r.head := by
    have h4 := r.used_eq
    rw [add_mod_wrap r.tail_lt (by omega)]
    split at h4 <;> split <;> omega
  exact update_of_ne hne x r.buf

theorem cell_push_used (x : α) : (r.push x).cell r.used = x := by
  have h1 := r.head_lt
  have h2 := r.tail_lt
  have h3 := r.used_lt
  have he : (r.tail + r.used) % r.size = r.head := by
    have h4 := r.used_eq
    rw [add_mod_wrap r.tail_lt (by omega)]
    split at h4 <;> split <;> omega
  show update r.buf r.head x ((r.tail + r.used) % r.size) = x
  rw [he, update_self]

theorem contents_push (x : α) (h : ¬ r.Full) : (r.push x).contents = r.contents ++ [x] := by
  rw [contents, used_push r x h, peek, range_succ, map_append, contents, peek]
  congr 1
  · exact map_congr_left fun i hi => r.cell_push x (mem_range.1 hi)
  · simp [cell_push_used]

theorem peek_eq {n : Nat} (h : n ≤ r.used) : r.peek n = r.contents.take n := by
  rw [contents, peek, peek, ← map_take, take_range, Nat.min_eq_left h]

theorem cell_advance (n i : Nat) : (r.advance n).cell i = r.cell (n + i) := by
  show r.buf (((r.tail + n) % r.size + i) % r.size) = r.buf ((r.tail + (n + i)) % r.size)
  rw [Nat.mod_add_mod, Nat.add_assoc]

theorem advance_advance (m n : Nat) : (r.advance m).advance n = r.advance (m + n) := by
  have h : ((r.tail + m) % r.size + n) % r.size = (r.tail + (m + n)) % r.size := by
    rw [Nat.mod_add_mod, Nat.add_assoc]
  simp only [advance, h]

@[simp] theorem advance_zero : r.advance 0 = r := by
  simp only [advance, Nat.add_zero, Nat.mod_eq_of_lt r.tail_lt]

theorem peek_succ (n : Nat) : r.peek (n + 1) = r.buf r.tail :: (r.advance 1).peek n := by
  simp only [peek, range_succ_eq_map, map_cons, map_map]
  congr 1
  · rw [cell, Nat.add_zero, Nat.mod_eq_of_lt r.tail_lt]
  · refine map_congr_left fun i _ => ?_
    rw [cell_advance, comp_apply, Nat.succ_eq_add_one, Nat.add_comm]

theorem contents_advance {n : Nat} (h : n ≤ r.used) : (r.advance n).contents = r.contents.drop n := by
  apply ext_getElem
  · simp [used_advance r h]
  · intro i h1 h2
    simp [contents, peek, cell_advance]

@[simp] theorem contents_empty (size : Nat) (buf : Nat → α) (h : 0 < size) :
    (empty size buf h).contents = [] := by
  simp [contents, peek]

@[simp] theorem size_push (x : α) : (r.push x).size = r.size := rfl

@[simp] theorem size_advance (n : Nat) : (r.advance n).size = r.size := rfl

@[simp] theorem size_pushAll (xs : List α) : (r.pushAll xs).size = r.size := by
  induction xs generalizing r with
  | nil => rfl
  | cons x xs ih =>
    rw [pushAll]
    split
    · rfl
    · rw [ih]; rfl

theorem free_push (x : α) (h : ¬ r.Full) : r.free = (r.push x).free + 1 := by
  have := r.not_full_iff.1 h
  rw [free, free, used_push r x h, size_push]
  omega

theorem contents_pushAll (xs : List α) : (r.pushAll xs).contents = r.contents ++ xs.take r.free := by
  induction xs generalizing r with
  | nil => simp [pushAll]
  | cons x xs ih =>
    rw [pushAll]
    split
    · have : r.free = 0 := by have := r.full_iff.1 ‹_›; rw [free, this]; omega
      simp [this]
    · rw [ih, contents_push r x ‹_›, free_push r x ‹_›]
      simp

theorem contents_pushAll_of_le (xs : List α) (h : xs.length ≤ r.free) : (r.pushAll xs).contents = r.contents ++ xs := by
  rw [contents_pushAll, take_of_length_le h]

end RingBuf
