import ExoOS.Lib.Run
import ExoOS.Mm.PageTable

/-!
# The kernel heap

`mm/kmalloc.c`. Small requests are served from free lists, one for each size class, whose links are the first words
of the free blocks; large ones take whole pages. The same first word is the header of a block in use.

Addresses are physical: the kernel reaches all memory at a fixed distance (`vmm_phys_to_virt`), and 0 is the null
pointer. `mem` is memory by the addresses of its 8-byte words. `sane` stands for `km_ptr_sane`, which asks the page
tables of the kernel.
-/

namespace ExoOS.Mm

def NCLASSES : Nat := 8

def classSizes : List Nat := [16, 32, 64, 128, 256, 512, 1024, 2048]

def LARGE_MAGIC : Nat := 0xFFFFFFFF

structure Kmalloc where
  pmm : Pmm
  mem : Nat → Nat
  freelists : Nat → Nat

def blockSize (cls : Nat) : Nat := classSizes.getD cls 0 + 8

def classFor (size : Nat) : Option Nat := classSizes.findIdx? (size ≤ ·)

def largePages (size : Nat) : Nat :=
  let total := (size + 8) % 2 ^ 64
  (total + (PAGE_SIZE - 1)) % 2 ^ 64 / PAGE_SIZE

def largeHeader (npages : Nat) : Nat := (npages <<< 32) % 2 ^ 64 ||| LARGE_MAGIC

namespace Kmalloc

variable (k : Kmalloc)

def store (a w : Nat) : Kmalloc := { k with mem := Function.update k.mem a w }

def setHead (cls a : Nat) : Kmalloc := { k with freelists := Function.update k.freelists cls a }

def push (cls node : Nat) : Kmalloc := (k.store node (k.freelists cls)).setHead cls node

def refillSlab (cls : Nat) : Kmalloc :=
  match k.pmm.allocPages 1 with
  | none => k
  | some (p, m) =>
    (List.range (PAGE_SIZE / blockSize cls)).foldl (fun k i => k.push cls (p * PAGE_SIZE + i * blockSize cls))
      { k with pmm := m }

def kmallocLarge (size : Nat) : Option Nat × Kmalloc :=
  match k.pmm.allocPages (largePages size) with
  | none => (none, k)
  | some (p, m) =>
    (some (p * PAGE_SIZE + 8), { k with pmm := m }.store (p * PAGE_SIZE) (largeHeader (largePages size)))

/-- The free list from which a request is served: refilled if it is empty, made anew if its head is corrupted. -/
def readyList (sane : Nat → Bool) (cls : Nat) : Kmalloc :=
  let k := if k.freelists cls = 0 then k.refillSlab cls else k
  if k.freelists cls ≠ 0 ∧ !sane (k.freelists cls) then (k.setHead cls 0).refillSlab cls else k

def takeBlock (sane : Nat → Bool) (cls : Nat) : Option Nat × Kmalloc :=
  let node := k.freelists cls
  if node = 0 then (none, k)
  else
    let next := k.mem node
    let next := if next ≠ 0 ∧ !sane next then 0 else next
    (some (node + 8), (k.setHead cls next).store node cls)

def kmalloc (sane : Nat → Bool) (size : Nat) : Option Nat × Kmalloc :=
  if size = 0 then (none, k)
  else
    match classFor size with
    | none => k.kmallocLarge size
    | some cls => (k.readyList sane cls).takeBlock sane cls

def kfree (sane : Nat → Bool) (ptr : Nat) : Kmalloc :=
  if ptr = 0 then k
  else
    let hdr := k.mem (ptr - 8)
    let magic := hdr % 2 ^ 32
    if magic = LARGE_MAGIC then
      { k with pmm := k.pmm.freePagesAt ((ptr - 8) / PAGE_SIZE) (hdr / 2 ^ 32 % 2 ^ 32) }
    else if NCLASSES ≤ magic ∨ !sane (ptr - 8) then k
    else k.push magic (ptr - 8)

def init (m : Pmm) (mem : Nat → Nat) : Kmalloc :=
  (List.range NCLASSES).foldl (fun k cls => (k.setHead cls 0).refillSlab cls) ⟨m, mem, fun _ => 0⟩

end Kmalloc

/-- A block that was handed out for a request of `size` bytes; `took` are the pages this call took. -/
structure LiveBlock where
  ptr : Nat
  size : Nat
  took : Nat → Bool

def blockBytes (size : Nat) : Nat :=
  match classFor size with
  | some cls => blockSize cls
  | none => largePages size * PAGE_SIZE

/-- The heap, the blocks in use and the pages that the heap has taken and not given back. -/
structure KernelHeap where
  k : Kmalloc
  live : List LiveBlock
  owned : Nat → Bool

inductive HeapEvent
  | kmalloc (sane : Nat → Bool) (size : Nat)
  | kfree (sane : Nat → Bool) (ptr : Nat)
  /-- Whoever uses a block writes a word into it. -/
  | write (a w : Nat)

def LiveBlock.Usable (b : LiveBlock) (a : Nat) : Prop := b.ptr ≤ a ∧ a + 8 ≤ b.ptr - 8 + blockBytes b.size ∧ a % 8 = 0

instance (b : LiveBlock) (a : Nat) : Decidable (b.Usable a) := inferInstanceAs (Decidable (_ ∧ _ ∧ _))

/-- Sizes have 64 bits; blocks are freed once; only blocks in use are written. -/
def heapStep (s : KernelHeap) : HeapEvent → Option KernelHeap
  | .kmalloc sane size =>
    if size < 2 ^ 64 then
      let r := s.k.kmalloc sane size
      let took := fun p => r.2.pmm.bitmap p && !s.k.pmm.bitmap p
      some {
        k := r.2
        live := match r.1 with
          | none => s.live
          | some ptr => ⟨ptr, size, took⟩ :: s.live
        owned := fun p => s.owned p || took p }
    else none
  | .kfree sane ptr =>
    if s.live.any (·.ptr == ptr) then
      let k := s.k.kfree sane ptr
      some {
        k := k
        live := s.live.eraseP (·.ptr == ptr)
        owned := fun p => s.owned p && k.pmm.bitmap p }
    else none
  | .write a w =>
    if s.live.any fun b => decide (b.Usable a) then some { s with k := s.k.store a w } else none

def heapInit (m : Pmm) (mem : Nat → Nat) : KernelHeap where
  k := .init m mem
  live := []
  owned := fun p => (Kmalloc.init m mem).pmm.bitmap p && !m.bitmap p

end ExoOS.Mm
