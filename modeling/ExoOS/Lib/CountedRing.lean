import ExoOS.Lib.RingBuf

/-!
# Circular buffers with a count

`CountedRing α n`: a buffer of `n` cells with a read position, a write position and the number of queued elements, so
that all cells can be in use. The count and the positions carry their relation. `contents` is the queue; `pushAll`
appends what fits of a list, `popN` takes elements from the front.
-/

structure CountedRing (α : Type) (n : Nat) where
  buf : Nat → α
  readPos : Nat
  writePos : Nat
  count : Nat
  readPos_lt : readPos < n
  count_le : count ≤ n
  writePos_eq : writePos = (readPos + count) % n

namespace CountedRing

open List Nat

variable {α : Type} {n : Nat} (r : CountedRing α n)

theorem pos (r : CountedRing α n) : 0 < n := zero_lt_of_lt r.readPos_lt

def empty (buf : Nat → α) (h : 0 < n) : CountedRing α n :=
  { buf := buf, readPos := 0, writePos := 0, count := 0
    readPos_lt := h, count_le := zero_le n, writePos_eq := (zero_mod n).symm }

def cell (i : Nat) : α := r.buf ((r.readPos + i) % n)

def contents : List α := (List.range r.count).map r.cell

def push (x : α) (h : r.count < n) : CountedRing α n :=
  { buf := Function.update r.buf r.writePos x
    readPos := r.readPos
    writePos := (r.writePos + 1) % n
    count := r.count + 1
    readPos_lt := r.readPos_lt
    count_le := h
    writePos_eq := by rw [r.writePos_eq, Nat.mod_add_mod, Nat.add_assoc] }

def front : α := r.buf r.readPos

def pop (h : 0 < r.count) : CountedRing α n :=
  { buf := r.buf
    readPos := (r.readPos + 1) % n
    writePos := r.writePos
    count := r.count - 1
    readPos_lt := Nat.mod_lt _ r.pos
    count_le := Nat.le_trans (Nat.sub_le ..) r.count_le
    writePos_eq := by
      rw [r.writePos_eq, Nat.mod_add_mod, show r.readPos + 1 + (r.count - 1) = r.readPos + r.count by omega] }

/-- Append elements until the list ends or no cell is free; the second part is what is left. -/
def pushAll (r : CountedRing α n) : List α → CountedRing α n × List α
  | [] => (r, [])
  | x :: xs => if h : r.count < n then (r.push x h).pushAll xs else (r, x :: xs)

def popN (r : CountedRing α n) : Nat → List α × CountedRing α n
  | 0 => ([], r)
  | k + 1 =>
    if h : 0 < r.count then (r.front :: ((r.pop h).popN k).1, ((r.pop h).popN k).2) else ([], r)

@[simp] theorem length_contents : r.contents.length = r.count := by simp [contents]

theorem count_eq : r.count = (r.writePos + n - r.readPos) % n ∨ r.writePos = r.readPos ∧ r.count = n := by
  have h1 := r.readPos_lt
  have h2 := r.writePos_eq
  rw [Nat.add_mod_wrap h1 r.count_le] at h2
  rcases Nat.lt_or_eq_of_le r.count_le with hlt | heq
  · left
    split at h2
    · rw [h2, show r.readPos + r.count + n - r.readPos = r.count + n by omega, Nat.add_mod_right, Nat.mod_eq_of_lt hlt]
    · rw [h2, show r.readPos + r.count - n + n - r.readPos = r.count by omega, Nat.mod_eq_of_lt hlt]
  · right
    split at h2
    · omega
    · exact ⟨by omega, heq⟩

theorem contents_push (x : α) (h : r.count < n) : (r.push x h).contents = r.contents ++ [x] := by
  have hcell : ∀ i < r.count, (r.push x h).cell i = r.cell i := by
    intro i hi
    refine Function.update_of_ne ?_ x r.buf
    -- an occupied cell is not the write position
    have h1 := r.readPos_lt
    rw [r.writePos_eq, add_mod_wrap h1 r.count_le]
    show (r.readPos + i) % n ≠ _
    rw [add_mod_wrap h1 (by omega)]
    split <;> split <;> omega
  have hlast : (r.push x h).cell r.count = x := by
    show Function.update r.buf r.writePos x ((r.readPos + r.count) % n) = x
    rw [← r.writePos_eq]
    exact Function.update_self ..
  show (range (r.count + 1)).map _ = _
  rw [range_succ, map_append, map_singleton, hlast]
  congr 1
  exact map_congr_left fun i hi => hcell i (mem_range.1 hi)

theorem contents_pop (h : 0 < r.count) : r.contents = r.front :: (r.pop h).contents := by
  obtain ⟨k, hk⟩ : ∃ k, r.count = k + 1 := ⟨r.count - 1, by omega⟩
  have hpop : (r.pop h).count = k := by show r.count - 1 = k; omega
  unfold contents
  rw [hk, hpop, range_succ_eq_map, map_cons, map_map]
  congr 1
  · show r.buf ((r.readPos + 0) % n) = r.buf r.readPos
    rw [Nat.add_zero, Nat.mod_eq_of_lt r.readPos_lt]
  · refine map_congr_left fun i _ => ?_
    show r.buf ((r.readPos + (i + 1)) % n) = r.buf (((r.readPos + 1) % n + i) % n)
    rw [Nat.mod_add_mod, Nat.add_assoc, Nat.add_comm 1 i]

theorem pushAll_eq (xs : List α) :
    (r.pushAll xs).1.contents = r.contents ++ xs.take (n - r.count) ∧ (r.pushAll xs).2 = xs.drop (n - r.count) := by
  induction xs generalizing r with
  | nil => simp [pushAll]
  | cons x xs ih =>
    unfold pushAll
    split
    · rename_i h
      obtain ⟨h1, h2⟩ := ih (r.push x h)
      have hroom : n - r.count = n - (r.push x h).count + 1 := by show _ = n - (r.count + 1) + 1; omega
      rw [h1, h2, hroom, contents_push, take_succ_cons, drop_succ_cons]
      simp
    · rename_i h
      rw [Nat.sub_eq_zero_of_le (Nat.not_lt.1 h)]
      simp

theorem contents_pushAll (xs : List α) :
    (r.pushAll xs).1.contents = r.contents ++ xs.take (xs.length - (r.pushAll xs).2.length) := by
  obtain ⟨h1, h2⟩ := r.pushAll_eq xs
  rw [h1, h2, append_right_inj, take_eq_take_iff, length_drop]
  omega

theorem popN_eq (k : Nat) : (r.popN k).1 = r.contents.take k ∧ (r.popN k).2.contents = r.contents.drop k := by
  induction k generalizing r with
  | zero => simp [popN]
  | succ k ih =>
    unfold popN
    split
    · rename_i h
      obtain ⟨h1, h2⟩ := ih (r.pop h)
      rw [r.contents_pop h, h1, h2]
      simp
    · have hnil : r.contents = [] := eq_nil_of_length_eq_zero (by simp; omega)
      simp [hnil]

end CountedRing
