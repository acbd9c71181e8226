import ExoOS.Sched.Task
import ExoOS.Vfs.Path

/-!
# Path lookup

`vfs_lookup` of `fs/vfs.c`. A `Tree` is what it reads: the mount table and, through the operations of the file
systems, attributes, directory entries and link texts. Vnodes are named by the inode they stand for.

The function calls itself on the target of an absolute link, with a new link counter, so links can send it
round for ever. `walk` counts rounds of the loop and calls together; when they run out the result is `none`:
the kernel stack is used up and the call does not return.

`dirs` lists the directories walked through: `cur` at each component. `walk` takes a test for them; the kernel
makes none, and `walk_tested` compares its lookup with one that does.
-/

namespace ExoOS.Vfs

open List

open Sched (Uid EACCES EINVAL)

def ENOENT : Int := 2
def EIO : Int := 5
def EBADF : Int := 9
def EEXIST : Int := 17
def ENOTDIR : Int := 20
def EISDIR : Int := 21
def EMFILE : Int := 24
def ENAMETOOLONG : Int := 36
def ELOOP : Int := 40

def MAX_SYMLINK_DEPTH : Nat := 8

abbrev Ino := Nat
abbrev Mode := BitVec 32

def S_IFMT : Mode := 0xF000
def S_IFREG : Mode := 0x8000
def S_IFDIR : Mode := 0x4000
def S_IFLNK : Mode := 0xA000

/-- `vnode_t`: a copy of the attributes, taken when the vnode was made. -/
structure Vnode where
  ino : Ino
  mode : Mode
  uid : Uid
  gid : Uid
  size : Nat

namespace Vnode

variable (v : Vnode)

def isDir : Bool := v.mode &&& S_IFMT == S_IFDIR
def isReg : Bool := v.mode &&& S_IFMT == S_IFREG
def isLnk : Bool := v.mode &&& S_IFMT == S_IFLNK

end Vnode

structure Mount where
  path : Path
  root : Ino

structure Tree where
  root : Option Ino
  mounts : List Mount
  vnode : Ino → Vnode
  /-- `ops->lookup`, `none` where the table has no such operation. -/
  lookup : Ino → Option (Path → Option Ino)
  /-- `ops->readlink` into a buffer of `VFS_MOUNT_PATH_MAX` bytes, `none` if missing or failed. -/
  readlink : Ino → Option Path

/-- The variables of the loop: `p`, `cur`, `resolved` and `link_depth`. -/
structure Pos where
  rest : Path
  cur : Ino
  resolved : Path
  depth : Nat

/-- The next component and what follows it. A component ends after `VFS_NAME_MAX` characters. -/
def Pos.component (pos : Pos) : Option (Path × Path) :=
  match pos.rest.dropWhile (· == '/') with
  | [] => none
  | p =>
    let c := (p.takeWhile (· != '/')).take VFS_NAME_MAX
    some (c, p.drop c.length)

def isLast (rest : Path) : Bool := rest == [] || rest == ['/']

def trimResolvedParent (resolved : Path) : Path := (uptoSlash resolved).dropLast

def appendResolved (resolved component : Path) : Path :=
  let r := if resolved.getLast? ≠ some '/' ∧ resolved.length + 1 < VFS_MOUNT_PATH_MAX then resolved ++ ['/']
    else resolved
  if r.length + component.length < VFS_MOUNT_PATH_MAX then r ++ component else r

inductive Next
  | fail (e : Int)
  | move (pos : Pos)
  /-- `..` out of a mount: the directory is looked up by its path, then the loop goes on. -/
  | parent (path : Path) (pos : Pos)
  /-- `return vfs_lookup(combined, ...)` -/
  | link (path : Path)

/-- What a lookup returns, and the directories it walked through. -/
structure Walk where
  res : Option (Except Int Ino)
  dirs : List Ino

namespace Walk

def fail (e : Int) : Walk := ⟨some (.error e), []⟩

def through (d : Ino) (w : Walk) : Walk := { w with dirs := d :: w.dirs }

def andThen (w : Walk) (f : Ino → Walk) : Walk :=
  match w.res with
  | some (.ok v) => ⟨(f v).res, w.dirs ++ (f v).dirs⟩
  | r => ⟨r, w.dirs⟩

def startAt (start : Except Int Pos) (f : Pos → Walk) : Walk :=
  match start with
  | .error e => fail e
  | .ok pos => f pos

end Walk

namespace Tree

variable (T : Tree)

def findMountForPath (path : Path) : Option Mount :=
  T.mounts.foldl (fun best m =>
    if m.path.isPrefixOf path && ((path.drop m.path.length).head?.all (· == '/')) &&
      decide ((best.map (·.path.length)).getD 0 < m.path.length) then some m else best) none

def findMountExact (path : Path) : Option Mount := T.mounts.find? (·.path == path)

def start (path : Path) : Except Int Pos :=
  if path.head? ≠ some '/' then .error (-EINVAL)
  else
    match T.root with
    | none => .error (- EIO)
    | some root =>
      match (T.findMountForPath path).filter (·.path != ['/']) with
      | some m =>
        let p := path.drop m.path.length
        .ok { rest := if p.head? = some '/' then p.tail else p, cur := m.root, resolved := m.path, depth := 0 }
      | none => .ok { rest := path.tail, cur := root, resolved := [], depth := 0 }

def nextDotDot (pos : Pos) : Next :=
  let resolved := trimResolvedParent pos.resolved
  match (T.findMountExact pos.resolved).filter (·.path != ['/']) with
  | some _ => .parent (if resolved = [] then ['/'] else resolved) { pos with resolved := resolved }
  | none =>
    .move { pos with cur := ((T.lookup pos.cur).bind (· ['.', '.'])).getD pos.cur, resolved := resolved }

/-- A link that is followed. The text of a relative link is not used. -/
def nextLink (pos : Pos) (child : Ino) : Next :=
  if pos.depth ≥ MAX_SYMLINK_DEPTH then .fail (-ELOOP)
  else
    match T.readlink child with
    | none => .fail (- EIO)
    | some target =>
      let rest := pos.rest.dropWhile (· == '/')
      if target.head? ≠ some '/' then .move { pos with depth := pos.depth + 1 }
      else if rest = [] then .link (target.take (VFS_MOUNT_PATH_MAX - 1))
      else if target.length + 1 + rest.length ≥ VFS_MOUNT_PATH_MAX then .fail (-ENAMETOOLONG)
      else if target.getLast? = some '/' then .link (target ++ rest)
      else .link (target ++ '/' :: rest)

/-- One round of the loop, after the test that `cur` is a directory. -/
def next (follow : Bool) (pos : Pos) (component rest : Path) : Next :=
  if component = ['.'] then .move { pos with rest := rest }
  else if component = ['.', '.'] then T.nextDotDot { pos with rest := rest }
  else
    let resolved := appendResolved pos.resolved component
    match (T.findMountExact resolved).filter (·.root != pos.cur) with
    | some m => .move { pos with rest := rest, cur := m.root, resolved := resolved }
    | none =>
      match T.lookup pos.cur with
      | none => .fail (- EIO)
      | some look =>
        match look component with
        | none => .fail (-ENOENT)
        | some child =>
          if (T.vnode child).isLnk && (!isLast rest || follow) then
            T.nextLink { pos with rest := rest, resolved := resolved } child
          else .move { pos with rest := rest, cur := child, resolved := resolved }

/-- The loop of `vfs_lookup`, with a test made in each directory. -/
def walk (ok : Ino → Bool) : Nat → Bool → Pos → Walk
  | 0, _, _ => ⟨none, []⟩
  | n + 1, follow, pos =>
    match pos.component with
    | none => ⟨some (.ok pos.cur), []⟩
    | some (component, rest) =>
      if !(T.vnode pos.cur).isDir then .fail (-ENOTDIR)
      else if !ok pos.cur then .fail (-EACCES)
      else
        Walk.through pos.cur <|
          match T.next follow pos component rest with
          | .fail e => .fail e
          | .move pos => walk ok n follow pos
          | .parent path pos =>
            (Walk.startAt (T.start path) (walk ok n true)).andThen fun v => walk ok n follow { pos with cur := v }
          | .link path => .startAt (T.start path) (walk ok n follow)

def lookupWith (ok : Ino → Bool) (n : Nat) (path : Path) (follow : Bool) : Walk :=
  .startAt (T.start path) (T.walk ok n follow)

/-- `vfs_lookup` makes no test. -/
def vfsLookup (n : Nat) (path : Path) (follow : Bool) : Walk := T.lookupWith (fun _ => true) n path follow

end Tree

/-! ### The mount a path begins with -/

/-- The mount path is the beginning of a path, up to a slash or the end. -/
def Mount.Covers (m : Mount) (path : Path) : Prop :=
  m.path <+: path ∧ ∀ c ∈ (path.drop m.path.length).head?, c = '/'

namespace Tree

variable {T : Tree}

/-- The loop of `find_mount_for_path` has seen some mounts: `best` is the longest that covers the path. -/
structure BestMount (path : Path) (seen : List Mount) (best : Option Mount) : Prop where
  covers : ∀ m ∈ best, m ∈ seen ∧ m.Covers path ∧ 0 < m.path.length
  longest : ∀ m ∈ seen, m.Covers path → m.path.length ≤ (best.map (·.path.length)).getD 0

theorem BestMount.step {path : Path} {seen : List Mount} {best : Option Mount} (h : BestMount path seen best)
    (m : Mount) : BestMount path (seen ++ [m])
      (if m.path.isPrefixOf path && ((path.drop m.path.length).head?.all (· == '/')) &&
        decide ((best.map (·.path.length)).getD 0 < m.path.length) then some m else best) := by
  have hcov : m.Covers path ↔ (m.path.isPrefixOf path && ((path.drop m.path.length).head?.all (· == '/'))) := by
    rw [Bool.and_eq_true, isPrefixOf_iff_prefix, Option.all_eq_true]
    simp only [Mount.Covers, beq_iff_eq, Option.mem_def]
  split
  · rename_i hif
    rw [Bool.and_eq_true, ← hcov, decide_eq_true_eq] at hif
    refine ⟨?_, fun m' hm' hc => ?_⟩
    · rintro _ ⟨⟩
      exact ⟨by simp, hif.1, (Nat.zero_le _).trans_lt hif.2⟩
    · rcases mem_append.1 hm' with hm' | hm'
      · exact (h.longest m' hm' hc).trans hif.2.le
      · cases mem_singleton.1 hm'
        exact Nat.le_refl _
  · rename_i hif
    rw [Bool.and_eq_true, ← hcov, decide_eq_true_eq] at hif
    refine ⟨fun m' hm' => ?_, fun m' hm' hc => ?_⟩
    · obtain ⟨h1, h2⟩ := h.covers m' hm'
      exact ⟨mem_append_left _ h1, h2⟩
    · rcases mem_append.1 hm' with hm' | hm'
      · exact h.longest m' hm' hc
      · cases mem_singleton.1 hm'
        exact Nat.not_lt.1 fun hlt => hif ⟨hc, hlt⟩

theorem findMountForPath_best (path : Path) : BestMount path T.mounts (T.findMountForPath path) := by
  have hfold : ∀ (l seen : List Mount) (best : Option Mount), BestMount path seen best →
      BestMount path (seen ++ l) (l.foldl (fun best m =>
        if m.path.isPrefixOf path && ((path.drop m.path.length).head?.all (· == '/')) &&
          decide ((best.map (·.path.length)).getD 0 < m.path.length) then some m else best) best) := by
    intro l
    induction l with
    | nil =>
      intro seen best h
      rwa [append_nil]
    | cons m l ih =>
      intro seen best h
      have := ih (seen ++ [m]) _ (h.step m)
      rwa [append_assoc] at this
  exact hfold T.mounts [] none ⟨(fun _ h => nomatch h), (fun _ h => nomatch h)⟩

end Tree

/-! ### A lookup that tests each directory -/

theorem Walk.andThen_ok {w : Walk} {f : Ino → Walk} {u : Ino} (h : w.res = some (.ok u)) :
    w.andThen f = ⟨(f u).res, w.dirs ++ (f u).dirs⟩ := by
  simp only [Walk.andThen, h]

theorem Walk.andThen_res {w : Walk} {f : Ino → Walk} {v : Ino} (h : (w.andThen f).res = some (.ok v)) :
    ∃ u, w.res = some (.ok u) ∧ (f u).res = some (.ok v) := by
  unfold Walk.andThen at h
  split at h
  · rename_i u hu
    exact ⟨u, hu, h⟩
  · rename_i hn
    exact absurd h (hn v)

/-- `w'` succeeds where `w` does and all directories walked through pass the test. -/
def Walk.Tested (ok : Ino → Bool) (w w' : Walk) : Prop :=
  ∀ v, w'.res = some (.ok v) ↔ w.res = some (.ok v) ∧ ∀ d ∈ w.dirs, ok d = true

namespace Walk.Tested

variable {ok : Ino → Bool} {w w' : Walk}

theorem fail (e : Int) : Tested ok (Walk.fail e) (Walk.fail e) := by
  intro v; simp [Walk.fail]

theorem through {d : Ino} (hd : ok d) (h : Tested ok w w') : Tested ok (w.through d) (w'.through d) := by
  intro v
  simp only [Walk.through, forall_mem_cons, hd, true_and]
  exact h v

theorem andThen {f f' : Ino → Walk} (h : Tested ok w w') (hf : ∀ v, Tested ok (f v) (f' v)) :
    Tested ok (w.andThen f) (w'.andThen f') := by
  intro v
  constructor
  · intro hv
    obtain ⟨u, hu, hv⟩ := Walk.andThen_res hv
    obtain ⟨hu, hd⟩ := (h u).1 hu
    obtain ⟨hv, hd'⟩ := (hf u v).1 hv
    rw [Walk.andThen_ok hu]
    refine ⟨hv, fun d hmem => ?_⟩
    rcases mem_append.1 hmem with hmem | hmem
    · exact hd d hmem
    · exact hd' d hmem
  · rintro ⟨hv, hd⟩
    obtain ⟨u, hu, hv⟩ := Walk.andThen_res hv
    rw [Walk.andThen_ok hu] at hd
    have hu' := (h u).2 ⟨hu, fun d hm => hd d (mem_append_left _ hm)⟩
    rw [Walk.andThen_ok hu']
    exact (hf u v).2 ⟨hv, fun d hm => hd d (mem_append_right _ hm)⟩

theorem startAt {f f' : Pos → Walk} (start : Except Int Pos) (hf : ∀ p, Tested ok (f p) (f' p)) :
    Tested ok (.startAt start f) (.startAt start f') := by
  cases start with
  | error e => exact fail e
  | ok pos => exact hf pos

end Walk.Tested

namespace Tree

variable {T : Tree} {ok : Ino → Bool}

theorem walk_tested (n : Nat) (follow : Bool) (pos : Pos) :
    Walk.Tested ok (T.walk (fun _ => true) n follow pos) (T.walk ok n follow pos) := by
  induction n generalizing follow pos with
  | zero => intro v; simp [walk]
  | succ n ih =>
    unfold walk
    split
    · intro v; simp
    by_cases hdir : (T.vnode pos.cur).isDir
    · by_cases hok : ok pos.cur
      · simp only [hdir, hok]
        refine .through hok ?_
        split
        · exact .fail _
        · exact ih _ _
        · exact .andThen (.startAt _ fun p => ih _ p) fun v => ih _ _
        · exact .startAt _ fun p => ih _ p
      · -- the test stops here, and the other lookup has this directory in its list
        intro v
        simp [hdir, hok, Walk.fail, Walk.through]
    · simp only [hdir, Bool.not_false]
      exact .fail _

theorem lookupWith_tested (n : Nat) (path : Path) (follow : Bool) :
    Walk.Tested ok (T.vfsLookup n path follow) (T.lookupWith ok n path follow) :=
  .startAt _ fun p => walk_tested n follow p

end Tree

end ExoOS.Vfs
