import ExoOS.Lib.Links
import ExoOS.Mm.Kmalloc

/-!
# Safety of the kernel heap

Memory is cut into cells: the blocks of the pages that serve a size class, and the large blocks. Cells do not
overlap (`Cells.apart`), and each is on one free list, in use, or lost. A step moves a cell from one place to
another, or adds the cells of new pages, or removes the cell of a large block with its pages.

The length of a request is rounded up on 64 bits and the header has 32 bits for the number of pages, so all this
holds for requests of less than 2^32 pages (`heap_safe`). A request just below 2^64 gets one page
(`huge_request_served`).
-/

namespace ExoOS.Mm

open Function List Transition Nat Kmalloc

/-! ### What is to hold -/

inductive Listed (mem : Nat → Nat) : Nat → Nat → Prop
  | here {a : Nat} (ha : a ≠ 0) : Listed mem a a
  | there {a node : Nat} (ha : a ≠ 0) (h : Listed mem (mem a) node) : Listed mem a node

def CellsApart (x m y n : Nat) : Prop := x + m ≤ y ∨ y + n ≤ x

structure HeapSafe (s : KernelHeap) : Prop where
  room : ∀ b ∈ s.live, 8 ≤ b.ptr ∧ b.size + 8 ≤ blockBytes b.size
  inside : ∀ b ∈ s.live, ∀ a, b.ptr - 8 ≤ a → a < b.ptr - 8 + blockBytes b.size → s.owned (a / PAGE_SIZE)
  owned : ∀ p, s.owned p → s.k.pmm.bitmap p
  apart : s.live.Pairwise fun b c => CellsApart (b.ptr - 8) (blockBytes b.size) (c.ptr - 8) (blockBytes c.size)
  notFree : ∀ b ∈ s.live, ∀ cls < NCLASSES, ∀ node, Listed s.k.mem (s.k.freelists cls) node →
    CellsApart (b.ptr - 8) (blockBytes b.size) node (blockSize cls)
  /-- A large block holds the pages it took, and `kfree` gives back just these. -/
  givesBack : ∀ b ∈ s.live, 2048 < b.size → (∀ p, b.took p → s.k.pmm.bitmap p) ∧
    ∀ sane p, (s.k.kfree sane b.ptr).pmm.bitmap p = (s.k.pmm.bitmap p && !b.took p)

def Modest (_ : KernelHeap) : HeapEvent → Prop
  | .kmalloc _ size => size + 8 ≤ (2 ^ 32 - 1) * PAGE_SIZE
  | _ => True

instance modestDecidable (s : KernelHeap) : (e : HeapEvent) → Decidable (Modest s e)
  | .kmalloc _ size => inferInstanceAs (Decidable (size + 8 ≤ (2 ^ 32 - 1) * PAGE_SIZE))
  | .kfree _ _ => .isTrue trivial
  | .write _ _ => .isTrue trivial

/-! ### Sizes and headers -/

theorem classFor_spec {size cls : Nat} (h : classFor size = some cls) : cls < NCLASSES ∧ size + 8 ≤ blockSize cls := by
  obtain ⟨hlt, hle, -⟩ := findIdx?_eq_some_iff_getElem.1 h
  refine ⟨hlt, ?_⟩
  rw [blockSize, getD_eq_getElem?_getD, getElem?_eq_getElem hlt]
  simpa using hle

variable {size : Nat}

theorem classFor_none : classFor size = none ↔ 2048 < size := by
  unfold classFor classSizes
  rw [findIdx?_eq_none_iff]
  simp only [mem_cons, not_mem_nil, or_false, decide_eq_false_iff_not, not_le]
  constructor
  · intro h
    exact h 2048 (by simp)
  · rintro h x (rfl | rfl | rfl | rfl | rfl | rfl | rfl | rfl) <;> omega

theorem largePages_eq (h : size + 8 ≤ (2 ^ 32 - 1) * PAGE_SIZE) :
    largePages size = (size + 8 + 4095) / 4096 ∧ 0 < largePages size ∧ largePages size < 2 ^ 32 := by
  unfold largePages PAGE_SIZE at *
  dsimp only
  omega

theorem largeHeader_eq {n : Nat} (h : n < 2 ^ 32) : largeHeader n = 2 ^ 32 * n + LARGE_MAGIC := by
  unfold largeHeader
  rw [shiftLeft_eq, mod_eq_of_lt (by omega), mul_comm]
  exact (two_pow_add_eq_or_of_lt (by decide) n).symm

theorem blockSize_bounds {cls : Nat} (h : cls < NCLASSES) : 8 ≤ blockSize cls ∧ blockSize cls ≤ PAGE_SIZE := by
  have hall : ∀ cls < NCLASSES, 8 ≤ blockSize cls ∧ blockSize cls ≤ PAGE_SIZE := by decide
  exact hall cls h

def blockHeader (size : Nat) : Nat := (classFor size).getD (largeHeader (largePages size))

def ptr? (w : Nat) : Option Nat := if w = 0 then none else some w

namespace Kmalloc

variable (k : Kmalloc)

def next (a : Nat) : Option Nat := ptr? (k.mem a)

def head (cls : Nat) : Option Nat := ptr? (k.freelists cls)

theorem head_setHead (cls a : Nat) : (k.setHead cls a).head = update k.head cls (ptr? a) := comp_update ptr? ..

theorem next_store (a w : Nat) : (k.store a w).next = update k.next a (ptr? w) := comp_update ptr? ..

end Kmalloc

theorem ptr?_some {w : Nat} (h : w ≠ 0) : ptr? w = some w := if_neg h

theorem Listed.mem_chain {k : Kmalloc} {w node : Nat} {l : List Nat} (h : Listed k.mem w node)
    (hc : Links.Chain k.next (ptr? w) l) : node ∈ l := by
  induction h generalizing l with
  | here ha =>
    cases l with
    | nil => rw [ptr?_some ha] at hc; cases hc
    | cons x l =>
      rw [ptr?_some ha] at hc
      cases hc.1
      exact mem_cons_self
  | there ha _ ih =>
    cases l with
    | nil => rw [ptr?_some ha] at hc; cases hc
    | cons x l =>
      rw [ptr?_some ha] at hc
      obtain ⟨hx, hc⟩ := hc
      cases hx
      exact mem_cons_of_mem _ (ih hc)

/-- The lengths of the cells, by their addresses. They lie in pages that were taken since `B`. -/
structure Cells (B : Nat → Bool) (m : Pmm) (cell : Nat → Option Nat) : Prop where
  apart : ∀ x y m n, cell x = some m → cell y = some n → x ≠ y → CellsApart x m y n
  word : ∀ x m, cell x = some m → 0 < x ∧ 8 ≤ m
  inside : ∀ x n a, cell x = some n → x ≤ a → a < x + n →
    a / PAGE_SIZE < m.bitmapPages ∧ m.bitmap (a / PAGE_SIZE) ∧ m.pageRefs (a / PAGE_SIZE) = 1 ∧
      B (a / PAGE_SIZE) = false
  mono : ∀ p, B p → m.bitmap p

/-- What holds of a block in use. -/
structure BlockSound (k : Kmalloc) (cell : Nat → Option Nat) (free : Nat → List Nat) (b : LiveBlock) : Prop where
  ptr : 8 ≤ b.ptr
  cell : cell (b.ptr - 8) = some (blockBytes b.size)
  room : b.size + 8 ≤ (2 ^ 32 - 1) * PAGE_SIZE
  header : k.mem (b.ptr - 8) = blockHeader b.size
  used : ∀ c, b.ptr - 8 ∉ free c
  large : 2048 < b.size → (b.ptr - 8) % PAGE_SIZE = 0 ∧
    ∀ p, b.took p = decide ((b.ptr - 8) / PAGE_SIZE ≤ p ∧ p < (b.ptr - 8) / PAGE_SIZE + largePages b.size)

structure HeapSound (B : Nat → Bool) (k : Kmalloc) (live : List LiveBlock) (cell : Nat → Option Nat)
    (free : Nat → List Nat) : Prop where
  cells : Cells B k.pmm cell
  lists : Links.Lists k.next k.head free
  freeCell : ∀ c, ∀ x ∈ free c, cell x = some (blockSize c)
  block : ∀ b ∈ live, BlockSound k cell free b
  nodup : (live.map LiveBlock.ptr).Nodup

variable {B : Nat → Bool} {k : Kmalloc} {live : List LiveBlock} {cell : Nat → Option Nat} {free : Nat → List Nat}
  {cls x : Nat} {b : LiveBlock}

theorem BlockSound.keep {k' : Kmalloc} {cell' : Nat → Option Nat} {free' : Nat → List Nat}
    (h : BlockSound k cell free b) (hc : cell' (b.ptr - 8) = some (blockBytes b.size))
    (hm : k'.mem (b.ptr - 8) = k.mem (b.ptr - 8)) (hf : ∀ c, b.ptr - 8 ∈ free' c → b.ptr - 8 ∈ free c) :
    BlockSound k' cell' free' b :=
  ⟨h.ptr, hc, h.room, hm.trans h.header, fun c hb => h.used c (hf c hb), h.large⟩

def addLive (live : List LiveBlock) (size : Nat) (took : Nat → Bool) : Option Nat → List LiveBlock
  | none => live
  | some ptr => ⟨ptr, size, took⟩ :: live

theorem nodup_ptr {took : Nat → Bool} (h : (live.map LiveBlock.ptr).Nodup) (hx : ∀ b ∈ live, b.ptr - 8 ≠ x) :
    ((⟨x + 8, size, took⟩ :: live).map LiveBlock.ptr).Nodup := by
  refine nodup_cons.2 ⟨fun hm => ?_, h⟩
  obtain ⟨b, hb, hbx⟩ := mem_map.1 hm
  exact hx b hb (by rw [hbx]; exact Nat.add_sub_cancel ..)

/-- Cells that fill some of the pages `p .. p + count`. -/
structure FreshCells (p count : Nat) (new : Nat → Option Nat) : Prop where
  apart : ∀ x y m n, new x = some m → new y = some n → x ≠ y → CellsApart x m y n
  inside : ∀ x n, new x = some n → 8 ≤ n ∧ p * PAGE_SIZE ≤ x ∧ x + n ≤ (p + count) * PAGE_SIZE

def addCells (new cell : Nat → Option Nat) (x : Nat) : Option Nat := (new x).or (cell x)

section Grow

variable {m m' : Pmm} {p count : Nat} {new : Nat → Option Nat}

theorem page_mem {a : Nat} (h1 : p * PAGE_SIZE ≤ a) (h2 : a < (p + count) * PAGE_SIZE) :
    p ≤ a / PAGE_SIZE ∧ a / PAGE_SIZE < p + count :=
  ⟨(le_div_iff_mul_le (by decide)).2 h1, (div_lt_iff_lt_mul (by decide)).2 h2⟩

theorem FreshCells.page (hn : FreshCells p count new) {x n a : Nat} (hx : new x = some n) (h1 : x ≤ a)
    (h2 : a < x + n) : p ≤ a / PAGE_SIZE ∧ a / PAGE_SIZE < p + count := by
  obtain ⟨-, h3, h4⟩ := hn.inside x n hx
  exact page_mem (by omega) (by omega)

theorem Cells.old_page (h : Cells B m cell) (hf : m.FreshRun p count m') {x n a : Nat} (hx : cell x = some n)
    (h1 : x ≤ a) (h2 : a < x + n) : ¬ (p ≤ a / PAGE_SIZE ∧ a / PAGE_SIZE < p + count) := by
  rintro ⟨h3, h4⟩
  have := (h.inside x n a hx h1 h2).2.1
  rw [hf.free _ h3 h4] at this
  cases this

theorem Cells.old_new (h : Cells B m cell) (hf : m.FreshRun p count m') (hn : FreshCells p count new) {x y i j : Nat}
    (hx : cell x = some i) (hy : new y = some j) : x ≠ y ∧ CellsApart x i y j := by
  have hi := (h.word x i hx).2
  obtain ⟨hj, h3, h4⟩ := hn.inside y j hy
  -- neither cell begins inside the other one
  have hxy : ¬ (y ≤ x ∧ x < y + j) := fun hc => h.old_page hf hx le_rfl (by omega) (hn.page hy hc.1 hc.2)
  have hyx : ¬ (x ≤ y ∧ y < x + i) := fun hc => h.old_page hf hx hc.1 hc.2 (hn.page hy le_rfl (by omega))
  constructor
  · rintro rfl
    exact hxy ⟨le_rfl, by omega⟩
  · unfold CellsApart
    omega

theorem addCells_old (h : Cells B m cell) (hf : m.FreshRun p count m') (hn : FreshCells p count new) {n : Nat}
    (hx : cell x = some n) : addCells new cell x = some n := by
  unfold addCells
  rcases hnew : new x with _ | j
  · exact hx
  · exact absurd rfl (h.old_new hf hn hx hnew).1

theorem addCells_cases {n : Nat} (h : addCells new cell x = some n) : new x = some n ∨ cell x = some n :=
  (Option.or_eq_some_iff.1 h).imp_right And.right

theorem Cells.extend (h : Cells B m cell) (hf : m.FreshRun p count m') (hn : FreshCells p count new) :
    Cells B m' (addCells new cell) where
  apart x y i j hx hy hne := by
    rcases addCells_cases hx with hx | hx <;> rcases addCells_cases hy with hy | hy
    · exact hn.apart x y i j hx hy hne
    · exact (h.old_new hf hn hy hx).2.symm
    · exact (h.old_new hf hn hx hy).2
    · exact h.apart x y i j hx hy hne
  word x i hx := by
    rcases addCells_cases hx with hx | hx
    · obtain ⟨h1, h2, -⟩ := hn.inside x i hx
      have := Nat.mul_pos hf.pos (show 0 < PAGE_SIZE by decide)
      exact ⟨by omega, h1⟩
    · exact h.word x i hx
  inside x i a hx h1 h2 := by
    rw [hf.pages, hf.bitmap, hf.refs]
    rcases addCells_cases hx with hx | hx
    · have hp := hn.page hx h1 h2
      have hle := hf.le
      refine ⟨by omega, by simp [hp], if_pos hp, ?_⟩
      by_contra hB
      have := h.mono _ (by simpa using hB)
      rw [hf.free _ hp.1 hp.2] at this
      cases this
    · obtain ⟨h3, h4, h5, h6⟩ := h.inside x i a hx h1 h2
      exact ⟨h3, by simp [h4], by rw [if_neg (h.old_page hf hx h1 h2)]; exact h5, h6⟩
  mono q hq := by
    rw [hf.bitmap, h.mono q hq]
    simp

end Grow

def slabCells (p cls x : Nat) : Option Nat :=
  if ∃ i < PAGE_SIZE / blockSize cls, x = p * PAGE_SIZE + i * blockSize cls then some (blockSize cls) else none

theorem slabCells_fresh (p : Nat) (h : cls < NCLASSES) : FreshCells p 1 (slabCells p cls) := by
  have hcell : ∀ x n, slabCells p cls x = some n → n = blockSize cls ∧
      ∃ i < PAGE_SIZE / blockSize cls, x = p * PAGE_SIZE + i * blockSize cls := by
    intro x n hx
    obtain ⟨hi, ⟨⟩⟩ := Option.ite_none_right_eq_some.1 hx
    exact ⟨rfl, hi⟩
  have hstep : ∀ {i j}, i < j → i * blockSize cls + blockSize cls ≤ j * blockSize cls := fun {i _} hij =>
    Nat.succ_mul i _ ▸ Nat.mul_le_mul_right _ hij
  constructor
  · intro x y m n hx hy hne
    obtain ⟨rfl, i, hi, rfl⟩ := hcell x m hx
    obtain ⟨rfl, j, hj, rfl⟩ := hcell y n hy
    rcases Nat.lt_trichotomy i j with hij | rfl | hij
    · have := hstep hij
      exact .inl (by omega)
    · exact absurd rfl hne
    · have := hstep hij
      exact .inr (by omega)
  · intro x n hx
    obtain ⟨rfl, i, hi, rfl⟩ := hcell x n hx
    have h1 := hstep hi
    have h2 := Nat.div_mul_le_self PAGE_SIZE (blockSize cls)
    refine ⟨(blockSize_bounds h).1, Nat.le_add_right .., ?_⟩
    rw [Nat.add_mul]
    omega

def largeCell (p size : Nat) : Nat → Option Nat :=
  Function.update (fun _ => none) (p * PAGE_SIZE) (some (blockBytes size))

theorem largeCell_eq_some {p size x n : Nat} (h : largeCell p size x = some n) :
    x = p * PAGE_SIZE ∧ n = blockBytes size := by
  unfold largeCell at h
  by_cases hx : x = p * PAGE_SIZE
  · subst hx
    rw [update_self] at h
    exact ⟨rfl, (Option.some.inj h).symm⟩
  · rw [update_of_ne hx] at h
    cases h

theorem blockBytes_large (h : 2048 < size) : blockBytes size = largePages size * PAGE_SIZE := by
  unfold blockBytes
  rw [classFor_none.2 h]

theorem largeCell_fresh {p size : Nat} (hbig : 2048 < size) (hm : size + 8 ≤ (2 ^ 32 - 1) * PAGE_SIZE) :
    FreshCells p (largePages size) (largeCell p size) := by
  constructor
  · intro x y m n hx hy hne
    exact absurd ((largeCell_eq_some hx).1.trans (largeCell_eq_some hy).1.symm) hne
  · intro x n hx
    obtain ⟨rfl, rfl⟩ := largeCell_eq_some hx
    have hpos := (largePages_eq hm).2.1
    rw [blockBytes_large hbig]
    refine ⟨?_, le_rfl, by rw [add_mul]⟩
    unfold PAGE_SIZE at *
    omega

theorem mem_eraseP_ptr {ptr : Nat} (hnd : (live.map LiveBlock.ptr).Nodup)
    (hb : b ∈ live.eraseP (·.ptr == ptr)) : b ∈ live ∧ b.ptr ≠ ptr := by
  refine ⟨mem_of_mem_eraseP hb, ?_⟩
  rintro rfl
  have hmem := mem_map_of_mem (f := LiveBlock.ptr) hb
  change b.ptr ∈ (live.eraseP ((· == b.ptr) ∘ LiveBlock.ptr)).map LiveBlock.ptr at hmem
  rw [← eraseP_map, ← erase_eq_eraseP'] at hmem
  exact hnd.not_mem_erase hmem

section

variable (h : HeapSound B k live cell free)
include h

theorem HeapSound.store {a w : Nat} (ha : cell a = none) : HeapSound B (k.store a w) live cell free := by
  have hmem : ∀ x m, cell x = some m → (k.store a w).mem x = k.mem x := by
    intro x m hx
    refine update_of_ne ?_ ..
    rintro rfl
    cases ha.symm.trans hx
  refine { h with lists := ?_, block := fun b hb => (h.block b hb).keep (h.block b hb).cell ?_ fun _ hc => hc }
  · refine h.lists.congr fun c x hx => ?_
    exact congrArg ptr? (hmem x _ (h.freeCell c x hx))
  · exact hmem _ _ (h.block b hb).cell

theorem HeapSound.drop (cls : Nat) : HeapSound B (k.setHead cls 0) live cell (update free cls []) := by
  have hsub : ∀ c, ∀ x ∈ update free cls [] c, x ∈ free c :=
    (forall_update_iff free fun c l => ∀ x ∈ l, x ∈ free c).2 ⟨forall_mem_nil _, fun _ _ _ hx => hx⟩
  refine { h with
    lists := ?_
    freeCell := fun c x hx => h.freeCell c x (hsub c x hx)
    block := fun b hb => (h.block b hb).keep (h.block b hb).cell rfl fun c => hsub c _ }
  rw [k.head_setHead]
  exact h.lists.clear

theorem HeapSound.push (hx : cell x = some (blockSize cls)) (hfree : ∀ c, x ∉ free c)
    (hlive : ∀ b ∈ live, b.ptr - 8 ≠ x) :
    HeapSound B (k.push cls x) live cell (update free cls (x :: free cls)) := by
  have hx0 : x ≠ 0 := pos_iff_ne_zero.1 (h.cells.word x _ hx).1
  have hhead : (k.push cls x).head = update k.head cls (some x) := ptr?_some hx0 ▸ Kmalloc.head_setHead _ cls x
  have hmem : ∀ c y, y ∈ update free cls (x :: free cls) c → y ∈ free c ∨ y = x ∧ c = cls := by
    intro c y hy
    by_cases hc : c = cls
    · subst hc
      rw [update_self, mem_cons] at hy
      exact hy.symm.imp_right fun hy => ⟨hy, rfl⟩
    · rw [update_of_ne hc] at hy
      exact .inl hy
  refine { h with
    lists := ?_
    freeCell := fun c y hy => ?_
    block := fun b hb => (h.block b hb).keep (h.block b hb).cell (update_of_ne (hlive b hb) ..) fun c hy => ?_ }
  · rw [hhead, show (k.push cls x).next = _ from k.next_store x _]
    exact h.lists.push hfree
  · rcases hmem c y hy with hy | ⟨rfl, rfl⟩
    · exact h.freeCell c y hy
    · exact hx
  · exact (hmem c _ hy).resolve_right fun he => hlive b hb he.1

theorem HeapSound.take {l : List Nat} (hq : free cls = x :: l) (hcls : classFor size = some cls) (took : Nat → Bool) :
    HeapSound B ((k.setHead cls (k.mem x)).store x cls) (⟨x + 8, size, took⟩ :: live) cell (update free cls l) := by
  have hxm : x ∈ free cls := by rw [hq]; exact mem_cons_self
  have hsub : ∀ c y, y ∈ update free cls l c → y ∈ free c ∧ y ≠ x :=
    fun c y hy => (h.lists.mem_unlink (show free cls = [] ++ x :: l from hq)).1 hy
  have hmem : ∀ y, y ≠ x → ((k.setHead cls (k.mem x)).store x cls).mem y = k.mem y := fun y hy =>
    update_of_ne hy ..
  have hlive : ∀ b ∈ live, b.ptr - 8 ≠ x := by
    rintro b hb rfl
    exact (h.block b hb).used cls hxm
  have hbytes : blockBytes size = blockSize cls := by unfold blockBytes; rw [hcls]
  have hsmall : ¬ 2048 < size := by rw [← classFor_none, hcls]; simp
  refine ⟨h.cells, ?_, fun c y hy => h.freeCell c y (hsub c y hy).1, forall_mem_cons.2 ⟨?_, fun b hb => ?_⟩,
    nodup_ptr h.nodup hlive⟩
  · rw [show ((k.setHead cls (k.mem x)).store x cls).head = _ from k.head_setHead cls _]
    exact h.lists.pop hq fun y hy => congrArg ptr? (hmem y hy)
  · refine ⟨Nat.le_add_left .., ?_, ?_, ?_, fun c hc => (hsub c _ hc).2 (Nat.add_sub_cancel ..), fun hbig => ?_⟩
    · rw [hbytes]
      exact h.freeCell cls x hxm
    · have : (2048 : Nat) + 8 ≤ (2 ^ 32 - 1) * PAGE_SIZE := by decide
      dsimp only
      omega
    · rw [blockHeader, hcls]
      exact update_self ..
    · exact absurd hbig hsmall
  · exact (h.block b hb).keep (h.block b hb).cell (hmem _ (hlive b hb)) fun c hc => (hsub c _ hc).1

theorem HeapSound.forget {live' : List LiveBlock} (hs : live'.Sublist live) : HeapSound B k live' cell free :=
  { h with block := fun b hb => h.block b (hs.subset hb), nodup := h.nodup.sublist (hs.map _) }

theorem HeapSound.extend {m' : Pmm} {p count : Nat} {new : Nat → Option Nat} (hf : k.pmm.FreshRun p count m')
    (hn : FreshCells p count new) :
    HeapSound B { k with pmm := m' } live (addCells new cell) free :=
  { h with
    cells := h.cells.extend hf hn
    freeCell := fun c x hx => addCells_old h.cells hf hn (h.freeCell c x hx)
    block := fun b hb => (h.block b hb).keep (addCells_old h.cells hf hn (h.block b hb).cell) rfl fun _ hc => hc }

theorem HeapSound.pushAll {p n : Nat} (h8 : 8 ≤ blockSize cls)
    (hcell : ∀ i < n, cell (p * PAGE_SIZE + i * blockSize cls) = some (blockSize cls))
    (hfree : ∀ i < n, ∀ c, p * PAGE_SIZE + i * blockSize cls ∉ free c)
    (hlive : ∀ i < n, ∀ b ∈ live, b.ptr - 8 ≠ p * PAGE_SIZE + i * blockSize cls) :
    ∃ free', HeapSound B ((List.range n).foldl (fun k i => k.push cls (p * PAGE_SIZE + i * blockSize cls)) k) live
        cell free' ∧
      ∀ c, ∀ y ∈ free' c, y ∈ free c ∨ ∃ j < n, y = p * PAGE_SIZE + j * blockSize cls := by
  induction n with
  | zero => exact ⟨free, h, fun c y hy => .inl hy⟩
  | succ n ih =>
    obtain ⟨free', hs, hmem⟩ := ih (fun i hi => hcell i (by omega)) (fun i hi => hfree i (by omega))
      (fun i hi => hlive i (by omega))
    rw [range_succ, foldl_append]
    refine ⟨_, hs.push (hcell n (by omega)) (fun c hc => ?_) (hlive n (by omega)), fun c y hy => ?_⟩
    · rcases hmem c _ hc with hc | ⟨j, hj, he⟩
      · exact hfree n (by omega) c hc
      · have := Nat.mul_lt_mul_of_pos_right hj (show 0 < blockSize cls by omega)
        omega
    · by_cases hc : c = cls
      · subst hc
        rw [update_self, mem_cons] at hy
        rcases hy with rfl | hy
        · exact .inr ⟨n, by omega, rfl⟩
        · exact (hmem c y hy).imp_right fun ⟨j, hj, he⟩ => ⟨j, by omega, he⟩
      · rw [update_of_ne hc] at hy
        exact (hmem c y hy).imp_right fun ⟨j, hj, he⟩ => ⟨j, by omega, he⟩

theorem HeapSound.refillSlab (hc : cls < NCLASSES) :
    ∃ cell' free', HeapSound B (k.refillSlab cls) live cell' free' := by
  unfold Kmalloc.refillSlab
  split
  · exact ⟨cell, free, h⟩
  rename_i p m hm
  have hf := Pmm.allocPages_run hm
  have hn := slabCells_fresh p hc
  have hnew : ∀ i < PAGE_SIZE / blockSize cls,
      slabCells p cls (p * PAGE_SIZE + i * blockSize cls) = some (blockSize cls) := fun i hi =>
    if_pos ⟨i, hi, rfl⟩
  have hold : ∀ i < PAGE_SIZE / blockSize cls, ∀ n, cell (p * PAGE_SIZE + i * blockSize cls) ≠ some n :=
    fun i hi n hx => (h.cells.old_new hf hn hx (hnew i hi)).1 rfl
  obtain ⟨free', hs, -⟩ := (h.extend hf hn).pushAll (blockSize_bounds hc).1
    (fun i hi => by rw [addCells, hnew i hi]; rfl)
    (fun i hi c hx => hold i hi _ (h.freeCell c _ hx))
    (fun i hi b hb he => hold i hi _ (he ▸ (h.block b hb).cell))
  exact ⟨_, free', hs⟩

theorem HeapSound.readyList (sane : Nat → Bool) (hc : cls < NCLASSES) :
    ∃ cell' free', HeapSound B (k.readyList sane cls) live cell' free' := by
  obtain ⟨cell1, free1, h1⟩ : ∃ cell' free',
      HeapSound B (if k.freelists cls = 0 then k.refillSlab cls else k) live cell' free' := by
    split
    · exact h.refillSlab hc
    · exact ⟨cell, free, h⟩
  unfold Kmalloc.readyList
  dsimp only
  generalize (if k.freelists cls = 0 then k.refillSlab cls else k) = k1 at h1
  split
  · exact (h1.drop cls).refillSlab hc
  · exact ⟨cell1, free1, h1⟩

theorem HeapSound.takeBlock (sane : Nat → Bool) (hcls : classFor size = some cls) (took : Nat → Bool) :
    ∃ free', HeapSound B (k.takeBlock sane cls).2 (addLive live size took (k.takeBlock sane cls).1) cell free' := by
  unfold Kmalloc.takeBlock
  dsimp only
  split
  · exact ⟨free, h⟩
  rename_i hnode
  have hhead : k.head cls = some (k.freelists cls) := ptr?_some hnode
  have hc := h.lists.chain cls
  rcases hq : free cls with _ | ⟨x, l⟩
  · rw [hq, hhead] at hc; cases hc
  rw [hq, hhead] at hc
  cases hc.1
  have ht := h.take hq hcls took
  by_cases hn : k.mem (k.freelists cls) ≠ 0 ∧ (!sane (k.mem (k.freelists cls)))
  · -- the rest of the list is given up
    rw [if_pos hn]
    have hd := ht.drop cls
    have he : ((k.setHead cls (k.mem (k.freelists cls))).store (k.freelists cls) cls).setHead cls 0 =
        (k.setHead cls 0).store (k.freelists cls) cls := by
      simp [Kmalloc.setHead, Kmalloc.store]
    rw [he] at hd
    exact ⟨_, hd⟩
  · rw [if_neg hn]
    exact ⟨_, ht⟩

theorem HeapSound.kmallocLarge (hbig : 2048 < size) (hm : size + 8 ≤ (2 ^ 32 - 1) * PAGE_SIZE) :
    ∃ cell', HeapSound B (k.kmallocLarge size).2 (addLive live size
      (fun p => (k.kmallocLarge size).2.pmm.bitmap p && !k.pmm.bitmap p) (k.kmallocLarge size).1) cell' free := by
  unfold Kmalloc.kmallocLarge
  split
  · exact ⟨cell, h⟩
  rename_i p m hal
  have hf := Pmm.allocPages_run hal
  have hn := largeCell_fresh (p := p) hbig hm
  have hs := h.extend hf hn
  have hnew : largeCell p size (p * PAGE_SIZE) = some (blockBytes size) := update_self ..
  -- no cell began where the new one does
  have hne : ∀ x n, cell x = some n → x ≠ p * PAGE_SIZE := fun x n hx => (h.cells.old_new hf hn hx hnew).1
  have hfree : ∀ c, p * PAGE_SIZE ∉ free c := fun c hc => hne _ _ (h.freeCell c _ hc) rfl
  have hlive : ∀ b ∈ live, b.ptr - 8 ≠ p * PAGE_SIZE := fun b hb => hne _ _ (h.block b hb).cell
  refine ⟨_, hs.cells, ?_, hs.freeCell, forall_mem_cons.2 ⟨?_, fun b hb => ?_⟩, nodup_ptr h.nodup hlive⟩
  · refine h.lists.congr fun c x hx => congrArg ptr? ?_
    exact update_of_ne (ne_of_mem_of_not_mem hx (hfree c)) ..
  · refine ⟨Nat.le_add_left .., ?_, hm, ?_, hfree, fun _ => ?_⟩
    · rw [Nat.add_sub_cancel, addCells, hnew]
      rfl
    · rw [blockHeader, classFor_none.2 hbig]
      exact update_self ..
    · rw [Nat.add_sub_cancel, Nat.mul_div_cancel _ (by decide)]
      refine ⟨Nat.mul_mod_left .., fun q => ?_⟩
      change (m.bitmap q && !k.pmm.bitmap q) = _
      rw [hf.bitmap]
      by_cases hq : p ≤ q ∧ q < p + largePages size
      · simp [hf.free q hq.1 hq.2]
      · simp [hq]
  · exact (hs.block b hb).keep (hs.block b hb).cell (update_of_ne (hlive b hb) ..) fun _ hc => hc

theorem HeapSound.kmalloc (sane : Nat → Bool) (hm : size + 8 ≤ (2 ^ 32 - 1) * PAGE_SIZE) :
    ∃ cell' free', HeapSound B (k.kmalloc sane size).2 (addLive live size
      (fun p => (k.kmalloc sane size).2.pmm.bitmap p && !k.pmm.bitmap p) (k.kmalloc sane size).1) cell' free' := by
  unfold Kmalloc.kmalloc
  split
  · exact ⟨cell, free, h⟩
  split
  · rename_i hcls
    obtain ⟨cell', h'⟩ := h.kmallocLarge (classFor_none.1 hcls) hm
    exact ⟨cell', free, h'⟩
  · rename_i cls hcls
    obtain ⟨cell', free', h'⟩ := h.readyList sane (classFor_spec hcls).1
    obtain ⟨free'', h''⟩ := h'.takeBlock sane hcls _
    exact ⟨cell', free'', h''⟩

theorem HeapSound.large_pages (hb : b ∈ live) (hbig : 2048 < b.size) :
    (b.ptr - 8) / PAGE_SIZE + largePages b.size ≤ k.pmm.bitmapPages ∧
      ∀ q, (b.ptr - 8) / PAGE_SIZE ≤ q → q < (b.ptr - 8) / PAGE_SIZE + largePages b.size →
        k.pmm.bitmap q ∧ k.pmm.pageRefs q = 1 ∧ B q = false := by
  have hcell := (h.block b hb).cell
  have hal := ((h.block b hb).large hbig).1
  have hn := (largePages_eq (h.block b hb).room).2.1
  have hp := Nat.div_add_mod (b.ptr - 8) PAGE_SIZE
  rw [hal, Nat.add_zero, Nat.mul_comm] at hp
  rw [blockBytes_large hbig] at hcell
  generalize (b.ptr - 8) / PAGE_SIZE = p at *
  rw [← hp] at hcell
  have hpage : ∀ q, p ≤ q → q < p + largePages b.size →
      q < k.pmm.bitmapPages ∧ k.pmm.bitmap q ∧ k.pmm.pageRefs q = 1 ∧ B q = false := by
    intro q h1 h2
    have := h.cells.inside _ _ (q * PAGE_SIZE) hcell (Nat.mul_le_mul_right _ h1)
      (by rw [← Nat.add_mul]; exact Nat.mul_lt_mul_of_pos_right h2 (by decide))
    rwa [Nat.mul_div_cancel _ (by decide)] at this
  refine ⟨?_, fun q h1 h2 => (hpage q h1 h2).2⟩
  have := (hpage (p + largePages b.size - 1) (by omega) (by omega)).1
  omega

theorem HeapSound.kfree_large (sane : Nat → Bool) (hb : b ∈ live) (hbig : 2048 < b.size) :
    k.kfree sane b.ptr = { k with pmm := k.pmm.freePagesAt ((b.ptr - 8) / PAGE_SIZE) (largePages b.size) } := by
  have h8 := (h.block b hb).ptr
  obtain ⟨-, -, hlt⟩ := largePages_eq (h.block b hb).room
  have hh : k.mem (b.ptr - 8) = 2 ^ 32 * largePages b.size + LARGE_MAGIC := by
    rw [(h.block b hb).header, blockHeader, classFor_none.2 hbig]
    exact largeHeader_eq hlt
  unfold kfree
  rw [if_neg (by omega)]
  rw [hh, if_pos (by unfold LARGE_MAGIC; omega)]
  congr 2
  unfold LARGE_MAGIC
  omega

theorem HeapSound.freeLarge (hb : b ∈ live) (hbig : 2048 < b.size) :
    HeapSound B { k with pmm := k.pmm.freePagesAt ((b.ptr - 8) / PAGE_SIZE) (largePages b.size) }
      (live.eraseP (·.ptr == b.ptr)) (update cell (b.ptr - 8) none) free := by
  have h8 := (h.block b hb).ptr
  have hcell := (h.block b hb).cell
  obtain ⟨hle, hown⟩ := h.large_pages hb hbig
  obtain ⟨hpg, hbm, hrefs⟩ := Pmm.freePagesAt_run hle fun q h1 h2 => ⟨(hown q h1 h2).1, (hown q h1 h2).2.1⟩
  have hal := ((h.block b hb).large hbig).1
  have hother : ∀ x n, update cell (b.ptr - 8) none x = some n → cell x = some n ∧ x ≠ b.ptr - 8 := by
    intro x n hx
    by_cases he : x = b.ptr - 8
    · subst he; simp at hx
    · rw [update_of_ne he] at hx; exact ⟨hx, he⟩
  have hs := h.forget (eraseP_sublist (p := (·.ptr == b.ptr)))
  refine { hs with cells := ⟨?_, ?_, ?_, ?_⟩, freeCell := ?_, block := ?_ }
  · intro x y m n hx hy hne
    exact h.cells.apart x y m n (hother x m hx).1 (hother y n hy).1 hne
  · intro x n hx
    exact h.cells.word x n (hother x n hx).1
  · intro x n a hx h1 h2
    obtain ⟨hx, hne⟩ := hother x n hx
    obtain ⟨h3, h4, h5, h6⟩ := h.cells.inside x n a hx h1 h2
    -- a byte of another cell is not in the pages that go
    have hout : ¬ ((b.ptr - 8) / PAGE_SIZE ≤ a / PAGE_SIZE ∧
        a / PAGE_SIZE < (b.ptr - 8) / PAGE_SIZE + largePages b.size) := by
      intro hin
      have hap := h.cells.apart x _ n _ hx hcell hne
      rw [blockBytes_large hbig] at hap
      unfold CellsApart PAGE_SIZE at *
      omega
    exact ⟨by rw [hpg]; exact h3, by rw [hbm]; simp [hout, h4], by rw [hrefs, if_neg hout]; exact h5, h6⟩
  · intro q hq
    have hout : ¬ ((b.ptr - 8) / PAGE_SIZE ≤ q ∧ q < (b.ptr - 8) / PAGE_SIZE + largePages b.size) := by
      intro hin
      have := (hown q hin.1 hin.2).2.2
      rw [hq] at this
      cases this
    rw [hbm, h.cells.mono q hq]
    simp [hout]
  · intro c x hx
    rw [update_of_ne]
    · exact h.freeCell c x hx
    · rintro rfl
      exact (h.block b hb).used c hx
  · intro c hc
    obtain ⟨hc, hne⟩ := mem_eraseP_ptr h.nodup hc
    have hbc := h.block c hc
    have hc8 := hbc.ptr
    exact hbc.keep ((update_of_ne (by omega) ..).trans hbc.cell) rfl fun _ hx => hx

theorem HeapSound.kfree (sane : Nat → Bool) (hb : b ∈ live) :
    ∃ cell' free', HeapSound B (k.kfree sane b.ptr) (live.eraseP (·.ptr == b.ptr)) cell' free' := by
  rcases hcls : classFor b.size with _ | cls
  · have hbig := classFor_none.1 hcls
    rw [h.kfree_large sane hb hbig]
    exact ⟨_, free, h.freeLarge hb hbig⟩
  have h8 := (h.block b hb).ptr
  have hlt := (classFor_spec hcls).1
  have hh : k.mem (b.ptr - 8) = cls := by rw [(h.block b hb).header, blockHeader, hcls]; rfl
  have hbytes : blockBytes b.size = blockSize cls := by unfold blockBytes; rw [hcls]
  have hs := h.forget (eraseP_sublist (p := (·.ptr == b.ptr)))
  have hmod : cls % 2 ^ 32 = cls := mod_eq_of_lt (hlt.trans (by decide))
  unfold Kmalloc.kfree
  rw [if_neg (by omega)]
  dsimp only
  rw [hh, hmod, if_neg (by unfold LARGE_MAGIC NCLASSES at *; omega)]
  split
  · exact ⟨cell, free, hs⟩
  · refine ⟨cell, _, hs.push (hbytes ▸ (h.block b hb).cell) (h.block b hb).used fun c hc => ?_⟩
    obtain ⟨hc, hne⟩ := mem_eraseP_ptr h.nodup hc
    have := (h.block c hc).ptr
    omega

end

/-- The invariant: memory is cut into cells, and the heap owns what was taken since it was set up. -/
def HeapInv (B : Nat → Bool) (s : KernelHeap) : Prop :=
  (∀ p, s.owned p = (s.k.pmm.bitmap p && !B p)) ∧ ∃ cell free, HeapSound B s.k s.live cell free

theorem HeapSound.safe {s : KernelHeap} (h : HeapSound B s.k s.live cell free)
    (ho : ∀ p, s.owned p = (s.k.pmm.bitmap p && !B p)) : HeapSafe s where
  room b hb := by
    refine ⟨(h.block b hb).ptr, ?_⟩
    rcases hcls : classFor b.size with _ | cls
    · have hp := (largePages_eq (h.block b hb).room).1
      rw [blockBytes_large (classFor_none.1 hcls)]
      unfold PAGE_SIZE
      omega
    · unfold blockBytes
      rw [hcls]
      exact (classFor_spec hcls).2
  inside b hb a h1 h2 := by
    obtain ⟨-, h3, -, h4⟩ := h.cells.inside _ _ a (h.block b hb).cell h1 h2
    rw [ho, h3, h4]
    rfl
  owned p hp := by
    rw [ho] at hp
    exact (Bool.and_eq_true_iff.1 hp).1
  apart := by
    refine List.Pairwise.imp_of_mem ?_ (pairwise_map.1 h.nodup)
    intro b c hb hc hne
    have hb8 := (h.block b hb).ptr
    have hc8 := (h.block c hc).ptr
    exact h.cells.apart _ _ _ _ (h.block b hb).cell (h.block c hc).cell (by omega)
  notFree b hb cls _ node hl := by
    have hmem := hl.mem_chain (h.lists.chain cls)
    refine h.cells.apart _ _ _ _ (h.block b hb).cell (h.freeCell cls node hmem) ?_
    rintro rfl
    exact (h.block b hb).used cls hmem
  givesBack b hb hbig := by
    obtain ⟨hle, hown⟩ := h.large_pages hb hbig
    have htook := ((h.block b hb).large hbig).2
    have hf := (Pmm.freePagesAt_run hle fun q h1 h2 => ⟨(hown q h1 h2).1, (hown q h1 h2).2.1⟩).2.1
    constructor
    · intro p hp
      rw [htook, decide_eq_true_eq] at hp
      exact (hown p hp.1 hp.2).1
    · intro sane p
      rw [h.kfree_large sane hb hbig, htook]
      exact (hf p).trans (Bool.and_comm ..)

theorem allocPages_mono {m m' : Pmm} {n p q : Nat} (h : m.allocPages n = some (p, m')) (hq : m.bitmap q) :
    m'.bitmap q := by
  rw [(Pmm.allocPages_run h).bitmap, hq]
  simp

theorem refillSlab_mono {q : Nat} (hq : k.pmm.bitmap q) : (k.refillSlab cls).pmm.bitmap q := by
  unfold refillSlab
  split
  · exact hq
  rename_i p m hm
  have hpmm : ∀ (l : List Nat) (k : Kmalloc),
      (l.foldl (fun k i => k.push cls (p * PAGE_SIZE + i * blockSize cls)) k).pmm = k.pmm := by
    intro l
    induction l with
    | nil => intro k; rfl
    | cons i l ih => intro k; exact ih _
  rw [hpmm]
  exact allocPages_mono hm hq

theorem kmalloc_mono (sane : Nat → Bool) (size : Nat) {q : Nat} (hq : k.pmm.bitmap q) :
    (k.kmalloc sane size).2.pmm.bitmap q := by
  unfold kmalloc
  split
  · exact hq
  split
  · unfold kmallocLarge
    split
    · exact hq
    · exact allocPages_mono ‹_› hq
  rename_i cls _
  have h1 : (k.readyList sane cls).pmm.bitmap q := by
    have h2 : (if k.freelists cls = 0 then k.refillSlab cls else k).pmm.bitmap q := by
      split
      · exact refillSlab_mono hq
      · exact hq
    unfold readyList
    dsimp only
    generalize (if k.freelists cls = 0 then k.refillSlab cls else k) = k1 at h2
    split
    · exact refillSlab_mono h2
    · exact h2
  unfold takeBlock
  dsimp only
  split <;> exact h1

theorem freePagesAt_le {m : Pmm} {p n q : Nat} (h : (m.freePagesAt p n).bitmap q) : m.bitmap q := by
  have hloop : ∀ (l : List Nat) (m : Pmm), (l.foldl (fun m i => m.pageUnref (p + i)) m).bitmap q → m.bitmap q := by
    intro l
    induction l with
    | nil => intro m h; exact h
    | cons i l ih => intro m h; exact Pmm.pageUnref_bitmap_le (ih _ h)
  unfold Pmm.freePagesAt at h
  split at h
  · exact h
  · exact hloop _ _ h

theorem kfree_le (sane : Nat → Bool) (ptr : Nat) {q : Nat} (h : (k.kfree sane ptr).pmm.bitmap q) : k.pmm.bitmap q := by
  unfold kfree at h
  dsimp only at h
  split_ifs at h
  · exact h
  · exact freePagesAt_le h
  · exact h
  · exact h

theorem heapStep_inv {s s' : KernelHeap} {e : HeapEvent} (h : HeapInv B s) (hm : Modest s e)
    (hs : heapStep s e = some s') : HeapInv B s' := by
  obtain ⟨ho, cell, free, h⟩ := h
  cases e with
  | kmalloc sane size =>
    obtain ⟨-, ⟨⟩⟩ := Option.ite_none_right_eq_some.1 hs
    refine ⟨fun p => ?_, h.kmalloc sane hm⟩
    dsimp only
    rw [ho]
    have h1 := kmalloc_mono (k := s.k) sane size (q := p)
    have h2 := h.cells.mono p
    revert h1 h2
    cases s.k.pmm.bitmap p <;> cases B p <;> cases (s.k.kmalloc sane size).2.pmm.bitmap p <;> simp
  | kfree sane ptr =>
    obtain ⟨hany, ⟨⟩⟩ := Option.ite_none_right_eq_some.1 hs
    obtain ⟨b, hb, hbp⟩ := any_eq_true.1 hany
    rw [beq_iff_eq] at hbp
    subst hbp
    refine ⟨fun p => ?_, h.kfree sane hb⟩
    dsimp only
    rw [ho]
    have h1 := kfree_le (k := s.k) sane b.ptr (q := p)
    revert h1
    cases s.k.pmm.bitmap p <;> cases (s.k.kfree sane b.ptr).pmm.bitmap p <;> simp
  | write a w =>
    obtain ⟨hany, ⟨⟩⟩ := Option.ite_none_right_eq_some.1 hs
    obtain ⟨b, hb, hu⟩ := any_eq_true.1 hany
    obtain ⟨h1, h2, -⟩ := of_decide_eq_true hu
    refine ⟨ho, cell, free, h.store ?_⟩
    -- a cell at `a` would lie inside the block
    rcases hc : cell a with _ | n
    · rfl
    have h8 := (h.block b hb).ptr
    have := h.cells.apart a _ n _ hc (h.block b hb).cell (by omega)
    unfold CellsApart at this
    omega

theorem heapSound_empty (m : Pmm) (mem : Nat → Nat) :
    HeapSound m.bitmap ⟨m, mem, fun _ => 0⟩ [] (fun _ => none) fun _ => [] where
  cells := ⟨nofun, nofun, nofun, fun _ h => h⟩
  lists := ⟨fun _ => rfl, nofun⟩
  freeCell := nofun
  block := nofun
  nodup := nodup_nil

theorem heapInit_inv (m : Pmm) (mem : Nat → Nat) : HeapInv m.bitmap (heapInit m mem) := by
  have hloop : ∀ l : List Nat, (∀ c ∈ l, c < NCLASSES) → ∀ k : Kmalloc,
      (∃ cell free, HeapSound m.bitmap k [] cell free) →
      ∃ cell free, HeapSound m.bitmap (l.foldl (fun k c => (k.setHead c 0).refillSlab c) k) [] cell free := by
    intro l
    induction l with
    | nil => intro _ k hk; exact hk
    | cons c l ih =>
      rintro hl k ⟨cell, free, hk⟩
      obtain ⟨hc, hl⟩ := forall_mem_cons.1 hl
      exact ih hl _ ((hk.drop c).refillSlab hc)
  have hs : ∃ cell free, HeapSound m.bitmap (.init m mem) [] cell free :=
    hloop _ (fun c hc => mem_range.1 hc) _ ⟨_, _, heapSound_empty m mem⟩
  unfold heapInit
  generalize init m mem = k at hs
  exact ⟨fun _ => rfl, hs⟩

theorem heap_safe {m : Pmm} {mem : Nat → Nat} {es : List HeapEvent} {s : KernelHeap}
    (h : Run heapStep Modest (heapInit m mem) es s) : HeapSafe s := by
  obtain ⟨ho, cell, free, hs⟩ := h.inv (fun s e s' hi hc hs => heapStep_inv hi hc hs)
    (heapInit_inv m mem)
  exact hs.safe ho

def twentyPages : Pmm where
  bitmapPages := 20
  bitmap p := p == 0
  pageRefs _ := 0
  freePages := 19

def mixedUse : List HeapEvent :=
  [.kmalloc (fun _ => true) 100, .kmalloc (fun _ => true) 5000, .write 36880 7, .kfree (fun _ => true) 36872]

theorem heap_safe_mixed : ∃ s, Run heapStep Modest (heapInit twentyPages fun _ => 0) mixedUse s ∧
    s.live.map (fun b => (b.ptr, b.size)) = [(20336, 100)] ∧ HeapSafe s := by
  refine exists_run (fun s => s.live.map fun b => (b.ptr, b.size)) [(20336, 100)] (by decide +kernel) fun s hr hl => ?_
  exact ⟨hl, heap_safe hr⟩

theorem huge_request_served : ∃ s, Run heapStep Any (heapInit twentyPages fun _ => 0)
    [.kmalloc (fun _ => true) (2 ^ 64 - 7)] s ∧ ¬ HeapSafe s := by
  refine exists_run (fun s => s.live.map fun b => (b.ptr, b.size)) [(36872, 2 ^ 64 - 7)] (by decide +kernel)
    fun s _ hl hsafe => ?_
  obtain ⟨b, hb, hbe⟩ := mem_map.1 (hl ▸ mem_singleton_self _ : (36872, 2 ^ 64 - 7) ∈ _)
  have hsize : b.size = 2 ^ 64 - 7 := congrArg Prod.snd hbe
  have hroom := (hsafe.room b hb).2
  rw [hsize] at hroom
  exact absurd hroom (by decide +kernel)

end ExoOS.Mm
