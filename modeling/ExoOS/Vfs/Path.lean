import Mathlib.Data.List.DropRight

/-!
# Paths

`rust/src/path.rs` and `split_path` of `fs/vfs.c`. A path is the text of a C string; `none` is the failure of
a function that returns a code, which is `-EINVAL` for all of them.
-/

namespace ExoOS.Vfs

open List

abbrev Path := List Char

def VFS_MOUNT_PATH_MAX : Nat := 512
def VFS_NAME_MAX : Nat := 255

/-- The runs of other characters between slashes; `comp` is the run being read. -/
def componentsFrom : Path → Path → List Path
  | comp, [] => if comp = [] then [] else [comp]
  | comp, c :: p =>
    if c = '/' then (if comp = [] then componentsFrom [] p else comp :: componentsFrom [] p)
    else componentsFrom (comp ++ [c]) p

def uptoSlash (p : Path) : Path := p.rdropWhile (· != '/')

def afterSlash (p : Path) : Path := p.rtakeWhile (· != '/')

/-- The last component goes, with its slash unless the path would be empty. -/
def stripLast (out : Path) : Path :=
  if 1 < (uptoSlash out).length then (uptoSlash out).dropLast else uptoSlash out

def normalizeStep (out comp : Path) : Option Path :=
  if comp.length > VFS_NAME_MAX then none
  else if comp = ['.'] then some out
  else if comp = ['.', '.'] then some (stripLast out)
  else if 1 < out.length ∧ out.length + 1 ≥ VFS_MOUNT_PATH_MAX then none
  else
    let o := if 1 < out.length then out ++ ['/'] else out
    if o.length + comp.length ≥ VFS_MOUNT_PATH_MAX then none else some (o ++ comp)

def pathNormalize (p : Path) : Option Path :=
  if p.head? = some '/' then (componentsFrom [] p).foldlM normalizeStep ['/'] else none

def pathJoin (base rel : Path) : Option Path :=
  if rel.head? = some '/' then pathNormalize rel
  else if base.length + 1 + rel.length ≥ VFS_MOUNT_PATH_MAX * 2 then none
  else pathNormalize (base ++ '/' :: rel)

def trimSlashes (p : Path) : Path :=
  if p.rdropWhile (· == '/') = [] then p.take 1 else p.rdropWhile (· == '/')

/-- `path_dirname`, into a buffer of `VFS_MOUNT_PATH_MAX` bytes. -/
def pathDirname (p : Path) : Path :=
  let dir := uptoSlash (trimSlashes p)
  if dir.length ≤ 1 then ['/'] else dir.dropLast.take (VFS_MOUNT_PATH_MAX - 1)

/-- `path_basename`, into a buffer of `size` bytes. -/
def pathBasename (size : Nat) (p : Path) : Path :=
  let name := afterSlash (trimSlashes p)
  if name = [] then ['/'] else name.take (size - 1)

def splitPath (p : Path) : Option (Path × Path) :=
  if p.head? ≠ some '/' then none
  else
    let parent := (uptoSlash p).dropLast
    let parent := if parent.length = 0 then p.take 1 else parent
    if parent.length ≥ VFS_MOUNT_PATH_MAX then none
    else if (afterSlash p).length ≥ VFS_NAME_MAX + 1 then none
    else some (parent, afterSlash p)

theorem componentsFrom_ok {comp p c : Path} (hcomp : '/' ∉ comp) (h : c ∈ componentsFrom comp p) :
    c ≠ [] ∧ '/' ∉ c := by
  induction p generalizing comp with
  | nil =>
    unfold componentsFrom at h
    split at h
    · cases h
    · rename_i hne
      cases mem_singleton.1 h
      exact ⟨hne, hcomp⟩
  | cons x p ih =>
    unfold componentsFrom at h
    split at h
    · split at h
      · exact ih not_mem_nil h
      · rename_i hne
        rcases mem_cons.1 h with rfl | h
        · exact ⟨hne, hcomp⟩
        · exact ih not_mem_nil h
    · rename_i hx
      refine ih ?_ h
      rw [mem_append, mem_singleton, not_or]
      exact ⟨hcomp, fun h => hx h.symm⟩

def joined (cs : List Path) : Path := cs.flatMap ('/' :: ·)

/-- The texts `path_normalize` builds: a lone slash, or components each after a slash. -/
def Normal (p : Path) : Prop := p = ['/'] ∨ ∃ cs, cs ≠ [] ∧ (∀ c ∈ cs, c ≠ [] ∧ '/' ∉ c) ∧ p = joined cs

theorem joined_concat (cs : List Path) (c : Path) : joined (cs ++ [c]) = joined cs ++ '/' :: c := by
  simp [joined]

theorem joined_length {cs : List Path} (h : cs ≠ []) (hc : ∀ c ∈ cs, c ≠ [] ∧ '/' ∉ c) : 1 < (joined cs).length := by
  obtain ⟨c, cs, rfl⟩ := exists_cons_of_ne_nil h
  have := length_pos_iff.2 (hc c mem_cons_self).1
  simp only [joined, flatMap_cons, length_append, length_cons]
  omega

theorem uptoSlash_append {p c : Path} (hc : '/' ∉ c) : uptoSlash (p ++ '/' :: c) = p ++ ['/'] := by
  induction c using reverseRecOn with
  | nil => exact rdropWhile_concat_neg _ _ _ (by decide)
  | append_singleton c x ih =>
    rw [mem_append, mem_singleton, not_or] at hc
    rw [uptoSlash, show p ++ '/' :: (c ++ [x]) = (p ++ '/' :: c) ++ [x] by simp,
      rdropWhile_concat_pos _ _ _ (by simpa using fun h => hc.2 h.symm)]
    exact ih hc.1

end ExoOS.Vfs
