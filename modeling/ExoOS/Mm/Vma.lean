import Mathlib.Algebra.Group.Nat.Units
import Mathlib.Data.List.Basic

/-!
# Virtual memory areas

The list of areas of a task: insertion, lookup, cloning, and the two walks that split areas, that of
`sys_mprotect` (`vma_apply_mprotect`) and that of `sys_munmap`. `mem n` says whether the `n`-th `kmalloc` of
the walk succeeds.
-/

namespace ExoOS.Mm

structure VmaFlags where
  read : Bool
  write : Bool
  exec : Bool
  anon : Bool
  heap : Bool
  shared : Bool
  file : Bool
  deriving DecidableEq

structure Vma where
  start : Nat
  stop : Nat
  flags : VmaFlags
  file : Option Nat
  fileOffset : Nat
  fileSize : Nat
  deriving DecidableEq

def Vma.Covers (v : Vma) (a : Nat) : Prop := v.start ≤ a ∧ a < v.stop

instance (v : Vma) (a : Nat) : Decidable (v.Covers a) := inferInstanceAs (Decidable (_ ∧ _))

/-- `vma_insert`: before the first area that does not start below it. -/
def vmaInsert (v : Vma) : List Vma → List Vma
  | [] => [v]
  | w :: ws => if w.start < v.start then w :: vmaInsert v ws else v :: w :: ws

/-- `vma_find_for_addr`, and `find_vma_for` of the fault handler. -/
def vmaFindForAddr (vs : List Vma) (a : Nat) : Option Vma := vs.find? fun v => v.Covers a

def vmaOverlapsRange (vs : List Vma) (lo hi : Nat) : Bool :=
  decide (lo < hi) && vs.any fun v => decide (¬ (v.stop ≤ lo ∨ hi ≤ v.start))

/-- `vma_list_clone`, when `n` areas could be allocated. -/
def vmaListClone (vs : List Vma) (n : Nat) : List Vma := vs.take n

def Vma.fileWindow (v : Vma) (origStart origOffset origSize : Nat) : Vma :=
  match v.file with
  | none => { v with fileOffset := 0, fileSize := 0 }
  | some _ =>
    let segOff := v.start - origStart
    let segLen := v.stop - v.start
    { v with
      fileOffset := (origOffset + segOff) % 2 ^ 64
      fileSize := if origSize ≤ segOff then 0
        else if origSize - segOff < segLen then origSize - segOff else segLen }

def Vma.part (v : Vma) (lo hi : Nat) : Vma :=
  Vma.fileWindow { v with start := lo, stop := hi } v.start v.fileOffset v.fileSize

def Vma.setPerm (v : Vma) (r w x : Bool) : Vma :=
  { v with flags := { v.flags with read := r, write := w, exec := x } }

/-- The loop of `vma_apply_mprotect`, whether it ran to its end, and the references to files it has taken; a part that
could be allocated while the other one could not gives its reference back. -/
def applyMprotect (start stop : Nat) (r w x : Bool) (mem : Nat → Bool) : Nat → List Vma → List Vma × Bool × Nat
  | _, [] => ([], true, 0)
  | k, v :: vs =>
    if v.stop ≤ start then
      let rest := applyMprotect start stop r w x mem k vs
      (v :: rest.1, rest.2)
    else if stop ≤ v.start then (v :: vs, true, 0)
    else
      let protStart := if start < v.start then v.start else start
      let protStop := if v.stop < stop then v.stop else stop
      let needLeft := decide (v.start < protStart)
      let needRight := decide (protStop < v.stop)
      let k' := if needLeft then k + 1 else k
      let k'' := if needRight then k' + 1 else k'
      if (needLeft && !mem k) || (needRight && !mem k') then (v :: vs, false, 0)
      else
        let rest := applyMprotect start stop r w x mem k'' vs
        ((if needLeft then [v.part v.start protStart] else []) ++
          (v.part protStart protStop).setPerm r w x ::
          (if needRight then [v.part protStop v.stop] else []) ++ rest.1, rest.2.1,
          (if needLeft && v.file.isSome then 1 else 0) + (if needRight && v.file.isSome then 1 else 0) + rest.2.2)

/-- `if (v->file_size > (v->end - v->start)) v->file_size = ...` -/
def Vma.clampFile (v : Vma) : Vma :=
  if v.stop - v.start < v.fileSize then { v with fileSize := v.stop - v.start } else v

def Vma.trimEnd (v : Vma) (lo : Nat) : Vma := Vma.clampFile { v with stop := lo }

def Vma.trimStart (v : Vma) (hi : Nat) : Vma :=
  Vma.clampFile { v with
    start := hi
    fileOffset := if v.file.isSome then (v.fileOffset + (hi - v.start)) % 2 ^ 64 else v.fileOffset }

def Vma.right (v : Vma) (hi : Nat) : Vma :=
  { v with start := hi, fileOffset := (v.fileOffset + (hi - v.start)) % 2 ^ 64, fileSize := v.stop - hi }

/-- What the walk of `sys_munmap` makes of an area; `ok`: there is memory for a second one. -/
def Vma.unmapped (v : Vma) (lo hi : Nat) (ok : Bool) : List Vma :=
  if v.stop ≤ lo ∨ hi ≤ v.start then [v]
  else if lo ≤ v.start ∧ v.stop ≤ hi then []
  else if v.start < lo ∧ hi < v.stop then
    -- without memory the area stays as it is
    if ok then [v.trimEnd lo, v.right hi] else [v]
  else if v.start < lo then [v.trimEnd lo]
  else [v.trimStart hi]

/-- A second area is needed. -/
def Vma.spans (v : Vma) (lo hi : Nat) : Bool := decide ((lo < v.stop ∧ v.start < hi) ∧ v.start < lo ∧ hi < v.stop)

/-- The walk of `sys_munmap` over the areas. -/
def munmapVmas (lo hi : Nat) (mem : Nat → Bool) : Nat → List Vma → List Vma
  | _, [] => []
  | k, v :: vs => v.unmapped lo hi (mem k) ++ munmapVmas lo hi mem (if v.spans lo hi then k + 1 else k) vs

end ExoOS.Mm
