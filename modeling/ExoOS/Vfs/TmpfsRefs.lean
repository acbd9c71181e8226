import ExoOS.Lib.RefCount
import ExoOS.Vfs.Tmpfs

/-!
# Lifetimes of tmpfs inodes

The reference counts of `fs/tmpfs/tmpfs.c`, over the file system of `Tmpfs`. Directory entries and vnodes refer to
inodes; `tmpfs_inode_unref` frees an inode with its last reference, and drops the references its entries held.

A directory refers to itself by its entry `.`, so it is never freed, and `tmpfs_rename` of an entry to itself uses
the inode after it was freed (`lifetimes_broken`). The counts are right as long as no entry is renamed to itself, and
nothing is lost as long as no directory is removed, replaced or moved (`tmpfs_lifetimes`).
-/

namespace ExoOS.Vfs

open Function List Option RefCount Transition Nat Tmpfs RefGraph

/-- `frees` counts how often an inode was freed. A freed inode is taken to keep its contents. -/
structure TmpfsRefs where
  fs : Tmpfs
  refcount : Ino → Nat
  frees : Ino → Nat
  vnodes : List Ino

namespace TmpfsRefs

variable (s : TmpfsRefs)

def ref (v : Ino) : TmpfsRefs :=
  { s with refcount := update s.refcount v ((s.refcount v + 1) % 2 ^ 32) }

/-- `tmpfs_inode_unref` of some inodes, one after the other; those an inode held when it was freed come first. -/
def unrefAll : Nat → List Ino → TmpfsRefs → TmpfsRefs
  | 0, _, s => s
  | _, [], s => s
  | n + 1, v :: rest, s =>
    let count := (s.refcount v + (2 ^ 32 - 1)) % 2 ^ 32
    let s := { s with refcount := update s.refcount v count }
    if count = 0 then
      unrefAll n ((s.fs.inode v).entries.map (·.2) ++ rest)
        { s with frees := update s.frees v (s.frees v + 1) }
    else unrefAll n rest s

/-- The number of directory entries, which bounds how far the recursion of `tmpfs_inode_unref` goes. -/
def entryTotal : Nat := ∑ d ∈ Finset.range s.fs.inodes.length, (s.fs.inode d).entries.length

def unref (v : Ino) : TmpfsRefs := s.unrefAll (s.entryTotal + 1) [v]

def inodeAlloc (ti : Inode) : Option Ino × TmpfsRefs :=
  match s.fs.inodeAlloc ti with
  | (none, fs) => (none, { s with fs := fs })
  | (some v, fs) =>
    (some v, { s with
      fs := fs
      refcount := update s.refcount v 1
      frees := update s.frees v 0 })

def makeVnode (v : Ino) : Option Ino × TmpfsRefs :=
  let t := { s with fs := s.fs.kzalloc.2 }
  if s.fs.kzalloc.1 then (some v, { t.ref v with vnodes := v :: s.vnodes }) else (none, t)

def dirAdd (d : Ino) (name : Path) (child : Ino) : Bool × TmpfsRefs :=
  let r := s.fs.dirAdd d name child
  let t := { s with fs := r.2 }
  (r.1, if r.1 then t.ref child else t)

def dirRemove (d : Ino) (name : Path) : Int × TmpfsRefs :=
  let r := s.fs.dirRemove d name
  let t := { s with fs := r.2 }
  match s.fs.dirLookup d name with
  | none => (r.1, t)
  | some child => (r.1, t.unref child)

def addAndMake (d : Ino) (name : Path) (v : Ino) : Option Ino × TmpfsRefs :=
  let r := s.dirAdd d name v
  if r.1 then
    let q := r.2.makeVnode v
    (q.1, q.2.unref v)
  else (none, r.2.unref v)

/-- What `tmpfs_create`, `tmpfs_mkdir` and `tmpfs_symlink` have in common. -/
def make (d : Ino) (name : Path) (ti : Inode) (f : Ino → TmpfsRefs → Option Ino × TmpfsRefs) : Option Ino × TmpfsRefs :=
  if (s.fs.dirLookup d name).isSome then (none, s)
  else
    match s.inodeAlloc ti with
    | (none, s) => (none, s)
    | (some v, s) => f v s

def create (d : Ino) (name : Path) (mode : Mode) : Option Ino × TmpfsRefs :=
  s.make d name (.new (S_IFREG ||| (mode &&& 0xFFF))) fun v s => s.addAndMake d name v

def mkdir (d : Ino) (name : Path) (mode : Mode) : Option Ino × TmpfsRefs :=
  s.make d name (.new (S_IFDIR ||| (mode &&& 0xFFF))) fun v s =>
    ((s.dirAdd v ['.'] v).2.dirAdd v ['.', '.'] d).2.addAndMake d name v

def symlink (d : Ino) (name target : Path) : Option Ino × TmpfsRefs :=
  s.make d name (.new (S_IFLNK ||| 0o777)) fun v s =>
    let t := { s with fs := s.fs.kzalloc.2 }
    if s.fs.kzalloc.1 then
      { t with fs := t.fs.modify v fun ti =>
          { ti with target := some target, data := List.replicate target.length 0 } }.addAndMake d name v
    else (none, t.unref v)

def rmdir (d : Ino) (name : Path) : Int × TmpfsRefs :=
  match s.fs.dirLookup d name with
  | none => (-ENOENT, s)
  | some child =>
    if !(s.fs.vnode child).isDir then (-ENOTDIR, s)
    else if 2 < (s.fs.inode child).entries.length then (-ENOTEMPTY, s)
    else s.dirRemove d name

def rename (oldDir : Ino) (oldName : Path) (newDir : Ino) (newName : Path) : Int × TmpfsRefs :=
  match s.fs.dirLookup oldDir oldName with
  | none => (-ENOENT, s)
  | some child =>
    let r := (s.dirRemove newDir newName).2.dirAdd newDir newName child
    if r.1 then r.2.dirRemove oldDir oldName else (-ENOSPC, r.2)

def lookup (d : Ino) (name : Path) : Option Ino × TmpfsRefs :=
  match s.fs.dirLookup d name with
  | none => (none, s)
  | some child => s.makeVnode child

/-- `tmpfs_evict`, when the last reference to a vnode goes. -/
def evict (v : Ino) : TmpfsRefs := { s with vnodes := s.vnodes.erase v }.unref v

/-- `tmpfs_mount`; the root is inode 0. -/
def mount (mem : Nat → Bool) : Option TmpfsRefs :=
  let s : TmpfsRefs := { fs := { inodes := [], mem := mem }, refcount := fun _ => 0, frees := fun _ => 0, vnodes := [] }
  if !s.fs.kzalloc.1 then none
  else
    match { s with fs := s.fs.kzalloc.2 }.inodeAlloc (.new (S_IFDIR ||| 0o755)) with
    | (none, _) => none
    | (some root, s) =>
      let s := ((s.dirAdd root ['.'] root).2.dirAdd root ['.', '.'] root).2
      -- the vnode takes over the reference of `tmpfs_inode_alloc`
      if s.fs.kzalloc.1 then some { s with fs := s.fs.kzalloc.2, vnodes := [root] } else none

end TmpfsRefs

inductive TmpfsEvent
  | create (d : Ino) (name : Path) (mode : Mode)
  | mkdir (d : Ino) (name : Path) (mode : Mode)
  | symlink (d : Ino) (name target : Path)
  | unlink (d : Ino) (name : Path)
  | rmdir (d : Ino) (name : Path)
  | rename (oldDir : Ino) (oldName : Path) (newDir : Ino) (newName : Path)
  | lookup (d : Ino) (name : Path)
  | release (v : Ino)

/-- Operations are called on vnodes in use; the vnode of the root that the mount holds is not released. -/
def tmpfsStep (s : TmpfsRefs) : TmpfsEvent → Option TmpfsRefs
  | .create d name mode => if d ∈ s.vnodes then some (s.create d name mode).2 else none
  | .mkdir d name mode => if d ∈ s.vnodes then some (s.mkdir d name mode).2 else none
  | .symlink d name target => if d ∈ s.vnodes then some (s.symlink d name target).2 else none
  | .unlink d name => if d ∈ s.vnodes then some (s.dirRemove d name).2 else none
  | .rmdir d name => if d ∈ s.vnodes then some (s.rmdir d name).2 else none
  | .rename d name d' name' => if d ∈ s.vnodes ∧ d' ∈ s.vnodes then some (s.rename d name d' name').2 else none
  | .lookup d name => if d ∈ s.vnodes then some (s.lookup d name).2 else none
  | .release v => if v ∈ s.vnodes.erase 0 then some (s.evict v) else none

namespace TmpfsRefs

/-- The directory entries that name an inode, in directories that were not freed. -/
def entryRefs (s : TmpfsRefs) (v : Ino) : Nat :=
  ∑ d ∈ Finset.range s.fs.inodes.length, if s.frees d = 0 then (s.fs.inode d).entries.countP (·.2 == v) else 0

structure Lifetimes (s : TmpfsRefs) : Prop where
  counted : ∀ v < s.fs.inodes.length, s.frees v = 0 → s.refcount v = s.entryRefs v + s.vnodes.count v
  freed : ∀ v < s.fs.inodes.length, s.frees v = if s.entryRefs v + s.vnodes.count v = 0 then 1 else 0
  named : ∀ d < s.fs.inodes.length, s.frees d = 0 → ∀ e ∈ (s.fs.inode d).entries,
    e.2 < s.fs.inodes.length ∧ s.frees e.2 = 0
  /-- When the root has no entries but those for itself and only the mount holds a vnode, one inode is left. -/
  emptied : (∀ e ∈ (s.fs.inode 0).entries, e.2 = 0) → s.vnodes = [0] →
    ((List.range s.fs.inodes.length).filter (s.frees · == 0)).length = 1

/-- The inode that a name stands for has no entries; directories have some. -/
def Plain (s : TmpfsRefs) (d : Ino) (name : Path) : Prop :=
  ∀ v ∈ s.fs.dirLookup d name, (s.fs.inode v).entries = []

def Roomy (s : TmpfsRefs) : Prop := ∀ v < s.fs.inodes.length, s.refcount v + 4 < 2 ^ 32

instance plainDecidable (s : TmpfsRefs) (d : Ino) (name : Path) : Decidable (s.Plain d name) :=
  inferInstanceAs (Decidable (∀ v ∈ s.fs.dirLookup d name, (s.fs.inode v).entries = []))

instance roomyDecidable (s : TmpfsRefs) : Decidable s.Roomy :=
  inferInstanceAs (Decidable (∀ v < s.fs.inodes.length, s.refcount v + 4 < 2 ^ 32))

end TmpfsRefs

/-- No directory is removed, replaced or moved elsewhere, no entry is renamed to itself, what gets entries has some,
and there is memory for the entry of a new directory. -/
def Careful (s : TmpfsRefs) (e : TmpfsEvent) : Prop :=
  s.Roomy ∧
    match e with
    | .create d _ _ | .symlink d _ _ => (s.fs.inode d).entries ≠ []
    | .mkdir d _ _ => (s.fs.inode d).entries ≠ [] ∧ s.fs.mem 3
    | .unlink d name | .rmdir d name => s.Plain d name
    | .rename d name d' name' =>
      (d ≠ d' ∨ name ≠ name') ∧ (s.fs.inode d').entries ≠ [] ∧ s.Plain d' name' ∧ (d = d' ∨ s.Plain d name)
    | .lookup _ _ | .release _ => True

instance carefulDecidable (s : TmpfsRefs) : (e : TmpfsEvent) → Decidable (Careful s e)
  | .create .. | .mkdir .. | .symlink .. | .unlink .. | .rmdir .. | .rename .. | .lookup .. | .release .. =>
    inferInstanceAs (Decidable (_ ∧ _))

/-! ### The graph of references -/

namespace TmpfsRefs

variable {s t : TmpfsRefs} {pend : List Ino} {v d c : Ino} {name : Path} {k : Nat}

/-- Inodes, entries and vnodes; `pend` are references held by the code that is running. -/
def graph (s : TmpfsRefs) (pend : List Ino) : RefGraph Ino where
  nodes := Finset.range s.fs.inodes.length
  out d := if s.frees d = 0 then (s.fs.inode d).entries.map (·.2) else []
  ext := pend ++ s.vnodes
  count := s.refcount
  frees := s.frees

theorem graph_congr (pend : List Ino) (he : ∀ v, (t.fs.inode v).entries = (s.fs.inode v).entries)
    (hl : t.fs.inodes.length = s.fs.inodes.length) (hr : t.refcount = s.refcount) (hf : t.frees = s.frees)
    (hv : t.vnodes = s.vnodes) : t.graph pend = s.graph pend := by
  simp only [graph, he, hl, hr, hf, hv]

/-- The references are counted, and `k` more may be made to each inode. -/
structure Good (k : Nat) (pend : List Ino) (s : TmpfsRefs) : Prop where
  counted : (s.graph pend).Counted
  room : ∀ v < s.fs.inodes.length, s.refcount v + k < 2 ^ 32

theorem Good.weaken {j : Nat} (h : Good k pend s) (hj : j ≤ k) : Good j pend s := by
  refine ⟨h.counted, fun v hv => ?_⟩
  have := h.room v hv
  omega

theorem Good.room_update (h : Good (k + 1) pend s) {w : Ino} (hw : w < s.fs.inodes.length) :
    update s.refcount c (s.refcount c + 1) w + k < 2 ^ 32 := by
  have hroom := h.room w hw
  rw [update_apply]
  split_ifs with hwc
  · rw [← hwc]
    omega
  · omega

def Live (s : TmpfsRefs) (v : Ino) : Prop := v < s.fs.inodes.length ∧ s.frees v = 0

theorem Live.mem (h : s.Live v) : v ∈ (s.graph pend).nodes := Finset.mem_range.2 h.1

theorem Good.live_of_ext (h : Good k pend s) (hv : v ∈ pend ++ s.vnodes) : s.Live v :=
  (h.counted.live_of_ext hv).imp_left Finset.mem_range.1

theorem Good.live_of_vnode (h : Good k pend s) (hv : v ∈ s.vnodes) : s.Live v := h.live_of_ext (mem_append_right _ hv)

variable {fs : Tmpfs}

theorem mem_of_dirLookup (h : fs.dirLookup d name = some c) : (name, c) ∈ (fs.inode d).entries := by
  obtain ⟨e, he, rfl⟩ := map_eq_some_iff.1 h
  have hn := find?_some he
  rw [beq_iff_eq] at hn
  subst hn
  exact mem_of_find?_eq_some he

theorem graph_out (pend : List Ino) (hd : s.frees d = 0) : (s.graph pend).out d = (s.fs.inode d).entries.map (·.2) :=
  if_pos hd

theorem Good.live_of_entry (h : Good k pend s) (hd : s.Live d) (hc : s.fs.dirLookup d name = some c) : s.Live c := by
  have hm : c ∈ (s.graph pend).out d := by
    rw [graph_out _ hd.2]
    exact mem_map_of_mem (mem_of_dirLookup hc)
  exact (h.counted.live_of_out hm).imp_left Finset.mem_range.1

/-! ### References are made -/

theorem ref_refcount (hc : s.refcount c + 1 < 2 ^ 32) :
    (s.ref c).refcount = update s.refcount c (s.refcount c + 1) := by
  unfold ref
  rw [mod_eq_of_lt hc]

theorem inode_append_new (fs : Tmpfs) (ti : Inode) (m : Nat → Bool) (w : Ino) :
    inode ⟨fs.inodes ++ [ti], m⟩ w = if w = fs.inodes.length then ti else fs.inode w := by
  unfold inode
  split
  · subst w
    simp
  · rename_i hw
    rcases Nat.lt_or_gt_of_ne hw with hlt | hgt
    · rw [getElem?_append_left hlt]
    · rw [getElem?_eq_none (by simp; omega), getElem?_eq_none (by omega)]

variable {ti : Inode}

theorem inodeAlloc_none (h : s.inodeAlloc ti = (none, t)) : t = { s with fs := s.fs.kzalloc.2 } := by
  unfold inodeAlloc at h
  by_cases hz : s.fs.kzalloc.1
  · simp only [Tmpfs.inodeAlloc, hz] at h
    cases h
  · simp only [Tmpfs.inodeAlloc, hz, Bool.false_eq_true] at h
    cases h
    rfl

theorem inodeAlloc_some (pend : List Ino) (hti : ti.entries = []) (h : s.inodeAlloc ti = (some v, t)) :
    v = s.fs.inodes.length ∧ t.fs = { inodes := s.fs.inodes ++ [ti], mem := fun i => s.fs.mem (i + 1) } ∧
      t.vnodes = s.vnodes ∧ t.graph (v :: pend) = (s.graph pend).create v := by
  unfold inodeAlloc at h
  by_cases hz : s.fs.kzalloc.1
  · simp only [Tmpfs.inodeAlloc, hz] at h
    cases h
    refine ⟨rfl, rfl, rfl, ?_⟩
    unfold graph
    congr 1
    · exact (congrArg _ (by simp)).trans (Finset.range_add_one ..)
    · funext w
      rw [inode_append_new]
      by_cases hw : w = s.fs.inodes.length
      · subst hw
        simp [hti]
      · simp [hw]
  · simp only [Tmpfs.inodeAlloc, hz, Bool.false_eq_true] at h
    cases h

theorem Good.inodeAlloc (h : Good k pend s) (hk : k + 1 < 2 ^ 32) (hti : ti.entries = [])
    (ha : s.inodeAlloc ti = (some v, t)) : Good k (v :: pend) t := by
  obtain ⟨hv, hfs, -, hg⟩ := inodeAlloc_some pend hti ha
  refine ⟨?_, fun w hw => ?_⟩
  · rw [hg]
    refine h.counted.create ?_
    rw [hv]
    exact fun hm => Nat.lt_irrefl _ (Finset.mem_range.1 hm)
  · have hcount : t.refcount = update s.refcount v 1 := congrArg count hg
    rw [hcount]
    by_cases hwv : w = v
    · subst hwv
      rw [update_self]
      omega
    rw [update_of_ne hwv]
    refine h.room w ?_
    rw [hfs] at hw
    simp only [length_append] at hw
    exact Nat.lt_of_le_of_ne (Nat.lt_succ_iff.1 hw) (hv ▸ hwv)

theorem modify_length (fs : Tmpfs) (v : Ino) (f : Inode → Inode) :
    (fs.modify v f).inodes.length = fs.inodes.length := by
  simp [Tmpfs.modify]

theorem fs_dirAdd (h : (fs.dirAdd d name c).1) : (fs.dirAdd d name c).2 =
    fs.kzalloc.2.modify d fun ti => { ti with entries := (name.take VFS_NAME_MAX, c) :: ti.entries } := by
  unfold Tmpfs.dirAdd at h ⊢
  split_ifs at h ⊢
  rfl

theorem inode_dirAdd (h : (fs.dirAdd d name c).1) (hd : d < fs.inodes.length) (w : Ino) :
    (fs.dirAdd d name c).2.inode w = if w = d then
      { fs.inode w with entries := (name.take VFS_NAME_MAX, c) :: (fs.inode w).entries } else fs.inode w := by
  rw [fs_dirAdd h]
  refine (inode_modify ..).trans ?_
  simp only [show fs.kzalloc.2.inodes = fs.inodes from rfl, hd, and_true]
  rfl

theorem dirAdd_graph (pend : List Ino) (name : Path) (hd : s.Live d) (hc : s.refcount c + 1 < 2 ^ 32) :
    (s.dirAdd d name c).2.graph pend = (if (s.dirAdd d name c).1 then (s.graph pend).link d c else s.graph pend) ∧
      (s.dirAdd d name c).2.vnodes = s.vnodes ∧ (s.dirAdd d name c).2.fs.inodes.length = s.fs.inodes.length := by
  rw [show (s.dirAdd d name c).1 = (s.fs.dirAdd d name c).1 from rfl]
  rcases h : (s.fs.dirAdd d name c).1 with _ | _
  · have hfs : (s.fs.dirAdd d name c).2 = s.fs.kzalloc.2 := by
      unfold Tmpfs.dirAdd at h ⊢
      split_ifs at h ⊢
      rfl
    have h3 : (s.dirAdd d name c).2 = { s with fs := s.fs.kzalloc.2 } := by
      simp only [dirAdd, h, hfs, Bool.false_eq_true, if_false]
    rw [h3]
    exact ⟨rfl, rfl, rfl⟩
  have h3 : (s.dirAdd d name c).2 = { s with fs := (s.fs.dirAdd d name c).2 }.ref c := by
    simp only [dirAdd, h, if_true]
  have hlen : (s.fs.dirAdd d name c).2.inodes.length = s.fs.inodes.length := by
    rw [fs_dirAdd h]
    exact modify_length ..
  have hcount := ref_refcount hc
  rw [h3, if_pos rfl]
  refine ⟨?_, rfl, hlen⟩
  unfold graph
  congr 1
  · exact congrArg _ hlen
  · funext w
    change (if s.frees w = 0 then ((s.fs.dirAdd d name c).2.inode w).entries.map (·.2) else []) = _
    rw [inode_dirAdd h hd.1]
    by_cases hw : w = d
    · subst hw
      simp [hd.2]
    · simp [hw]

theorem Good.dirAdd (name : Path) (h : Good (k + 1) pend s) (hd : s.Live d) (hc : s.Live c) :
    Good k pend (s.dirAdd d name c).2 := by
  have hroom := h.room c hc.1
  obtain ⟨hg, -, hl⟩ := dirAdd_graph pend name (c := c) hd (by omega)
  have hcount : (s.dirAdd d name c).2.refcount = _ := congrArg count hg
  refine ⟨?_, fun w hw => ?_⟩
  · rw [hg]
    split
    · exact h.counted.link hd.mem hd.2 hc.mem hc.2
    · exact h.counted
  · rw [hl] at hw
    rw [hcount]
    split
    · exact h.room_update hw
    · exact (h.weaken (le_succ k)).room w hw

theorem Good.makeVnode (h : Good (k + 1) pend s) (hv : s.Live v) :
    Good k pend (s.makeVnode v).2 ∧ (s.makeVnode v).2.fs.inodes = s.fs.inodes ∧ s.vnodes ⊆ (s.makeVnode v).2.vnodes ∧
      (s.makeVnode v).2.frees = s.frees := by
  unfold TmpfsRefs.makeVnode
  split
  · have hroom := h.room v hv.1
    have hcount := ref_refcount (s := { s with fs := s.fs.kzalloc.2 }) (c := v) (by simp only; omega)
    refine ⟨⟨?_, fun w hw => ?_⟩, rfl, subset_cons_self .., rfl⟩
    · refine (h.counted.hold hv.mem hv.2).congr rfl (fun _ => .refl _) ?_ hcount rfl
      exact perm_middle
    · rw [hcount]
      exact h.room_update hw
  · exact ⟨⟨h.counted, (h.weaken (le_succ k)).room⟩, rfl, List.Subset.refl _, rfl⟩

/-! ### References are dropped -/

theorem unrefAll_keeps (n : Nat) (l : List Ino) (s : TmpfsRefs) :
    (s.unrefAll n l).fs = s.fs ∧ (s.unrefAll n l).vnodes = s.vnodes := by
  induction n generalizing l s with
  | zero => exact ⟨rfl, rfl⟩
  | succ n ih =>
    cases l with
    | nil => exact ⟨rfl, rfl⟩
    | cons v rest =>
      rw [unrefAll]
      split <;> exact ih ..

theorem unref_fs (s : TmpfsRefs) (v : Ino) : (s.unref v).fs = s.fs := (unrefAll_keeps ..).1

theorem unref_vnodes (s : TmpfsRefs) (v : Ino) : (s.unref v).vnodes = s.vnodes := (unrefAll_keeps ..).2

theorem unrefAll_cons {n : Nat} {rest : List Ino} (h : Good 0 (v :: rest) s) :
    ∃ (rest' : List Ino) (t : TmpfsRefs), s.unrefAll (n + 1) (v :: rest) = t.unrefAll n rest' ∧
      t.graph rest' = (s.graph (v :: rest)).drop v (rest ++ s.vnodes) ∧ t.fs = s.fs ∧ t.vnodes = s.vnodes ∧
      ∀ w, t.refcount w ≤ s.refcount w := by
  have hv := h.live_of_ext mem_cons_self
  have hpos : 0 < s.refcount v := by
    rw [show s.refcount v = _ from h.counted.count v hv.mem hv.2]
    exact h.counted.held v hv.mem hv.2
  have hroom := h.room v hv.1
  have hcount : (s.refcount v + (2 ^ 32 - 1)) % 2 ^ 32 = s.refcount v - 1 := by omega
  have hle : update s.refcount v (s.refcount v - 1) ≤ s.refcount := update_le_self_iff.2 (Nat.sub_le ..)
  have heq : s.unrefAll (n + 1) (v :: rest) = if s.refcount v - 1 = 0 then
        unrefAll n ((s.fs.inode v).entries.map (·.2) ++ rest) { s with
          refcount := update s.refcount v (s.refcount v - 1)
          frees := update s.frees v (s.frees v + 1) }
      else unrefAll n rest { s with refcount := update s.refcount v (s.refcount v - 1) } := by
    rw [unrefAll]
    rw [hcount]
  have hdrop : (s.graph (v :: rest)).drop v (rest ++ s.vnodes) =
      if s.refcount v - 1 = 0 then (s.graph (v :: rest)).free v (rest ++ s.vnodes)
      else (s.graph (v :: rest)).release v (rest ++ s.vnodes) := rfl
  rw [heq, hdrop]
  by_cases hz : s.refcount v - 1 = 0
  · rw [if_pos hz, if_pos hz]
    refine ⟨_, _, rfl, eq_of_fields rfl (funext fun w => ?_) ?_ rfl rfl, rfl, rfl, hle⟩
    · by_cases hw : w = v
      · subst hw
        simp [graph, free]
      · simp [graph, free, hw]
    · simp [graph, free, hv.2]
  · rw [if_neg hz, if_neg hz]
    exact ⟨_, _, rfl, rfl, rfl, rfl, hle⟩

theorem Good.unrefAll {n : Nat} {l : List Ino} (h : Good 0 l s) (hn : (s.graph l).weight ≤ n + s.vnodes.length) :
    ((s.unrefAll n l).graph []).Counted ∧ ∀ w, (s.unrefAll n l).refcount w ≤ s.refcount w := by
  induction n generalizing l s with
  | zero =>
    have hl : l = [] := by
      simp only [weight, graph, length_append] at hn
      exact eq_nil_of_length_eq_zero (by omega)
    subst hl
    exact ⟨h.counted, fun _ => le_rfl⟩
  | succ n ih =>
    cases l with
    | nil => exact ⟨h.counted, fun _ => le_rfl⟩
    | cons v rest =>
      obtain ⟨rest', t, he, hg, hfs, hv, hle⟩ := unrefAll_cons h
      have hvl := h.live_of_ext mem_cons_self
      have hw : ((s.graph (v :: rest)).drop v (rest ++ s.vnodes)).weight + 1 = (s.graph (v :: rest)).weight :=
        weight_drop rfl hvl.mem
      have ht : Good 0 rest' t := by
        refine ⟨hg ▸ h.counted.drop rfl, fun w hw => ?_⟩
        have := h.room w (hfs ▸ hw)
        have := hle w
        omega
      obtain ⟨h1, h2⟩ := ih ht (by rw [hg, hv]; omega)
      rw [he]
      exact ⟨h1, fun w => (h2 w).trans (hle w)⟩

theorem weight_le (s : TmpfsRefs) (v : Ino) : (s.graph [v]).weight ≤ s.entryTotal + 1 + s.vnodes.length := by
  have hle : ∑ d ∈ (s.graph [v]).nodes, ((s.graph [v]).out d).length ≤ s.entryTotal := by
    refine Finset.sum_le_sum fun d _ => ?_
    simp only [graph]
    split <;> simp
  simp only [weight, graph, length_append, length_singleton] at hle ⊢
  omega

theorem Good.unref (h : Good k [v] s) : Good k [] (s.unref v) := by
  obtain ⟨h1, h2⟩ := (h.weaken (Nat.zero_le k)).unrefAll (weight_le s v)
  rw [← TmpfsRefs.unref] at h1 h2
  refine ⟨h1, fun w hw => ?_⟩
  rw [unref_fs] at hw
  exact (Nat.add_le_add_right (h2 w) k).trans_lt (h.room w hw)

/-- `Good`; the root is in use, and inodes with entries are reached from it. -/
structure Held (k : Nat) (pend : List Ino) (s : TmpfsRefs) : Prop extends Good k pend s where
  rooted : (s.graph []).Rooted 0
  root : 0 ∈ s.vnodes

theorem Held.weaken {j : Nat} (h : Held k pend s) (hj : j ≤ k) : Held j pend s := ⟨h.toGood.weaken hj, h.rooted, h.root⟩

theorem Held.congr (h : Held k pend s) (hg : ∀ p, t.graph p = s.graph p) : Held k pend t := by
  have hcount : t.refcount = s.refcount := congrArg RefGraph.count (hg [])
  have hlen : t.fs.inodes.length = s.fs.inodes.length := by
    have := congrArg (fun g : RefGraph Ino => g.nodes.card) (hg [])
    simpa [graph] using this
  have hvn : t.vnodes = s.vnodes := congrArg RefGraph.ext (hg [])
  refine ⟨⟨hg pend ▸ h.counted, fun v hv => ?_⟩, hg [] ▸ h.rooted, hvn ▸ h.root⟩
  rw [hcount]
  exact h.room v (hlen ▸ hv)

theorem rooted_congr {p q : List Ino} (ho : (t.graph p).out = (s.graph q).out) (h : (s.graph q).Rooted 0) :
    (t.graph p).Rooted 0 := by
  unfold RefGraph.Rooted RefGraph.Reach at ⊢
  rwa [ho]

theorem Held.unref (h : Held k [v] s) : Held k [] (s.unref v) ∧ ((s.unref v).graph []).out = (s.graph []).out := by
  obtain ⟨rest', t, he, hg, -, hv, -⟩ := unrefAll_cons (h.toGood.weaken (zero_le k))
  obtain ⟨h1, h2⟩ := RefGraph.Rooted.drop (rooted_congr (p := [v]) rfl h.rooted) h.counted rfl h.root
  -- the inode held nothing, so there is nothing more to drop
  have hrest : rest' = [] := by
    have hx : rest' ++ t.vnodes = s.vnodes := (congrArg RefGraph.ext hg).trans h2
    rw [hv] at hx
    exact append_left_eq_self.1 hx
  subst hrest
  have hend : s.unref v = t := by
    unfold TmpfsRefs.unref
    rw [he]
    cases s.entryTotal <;> rfl
  have hout : ((s.unref v).graph []).out = (s.graph []).out := by
    rw [hend]
    exact (congrArg RefGraph.out hg).trans h1
  exact ⟨⟨h.toGood.unref, rooted_congr hout h.rooted, by rw [unref_vnodes]; exact h.root⟩, hout⟩

theorem Held.inodeAlloc (h : Held k pend s) (hk : k + 1 < 2 ^ 32) (hti : ti.entries = [])
    (ha : s.inodeAlloc ti = (some v, t)) : Held k (v :: pend) t ∧ t.vnodes = s.vnodes ∧
      (s.graph []).out = (t.graph []).out := by
  obtain ⟨hv, hfs, hvn, hg⟩ := inodeAlloc_some pend hti ha
  have hout : (s.graph []).out = (t.graph []).out := by
    have h1 : (t.graph []).out = update (s.graph []).out v [] := congrArg out hg
    have h2 : (s.graph []).out v = [] := h.counted.outside v (by simp [graph, hv])
    rw [h1, ← h2]
    exact (update_eq_self ..).symm
  exact ⟨⟨h.toGood.inodeAlloc hk hti ha, rooted_congr hout.symm h.rooted, hvn ▸ h.root⟩, hvn, hout⟩

/-- What `dir_add` to `d` does to the entries and the vnodes. -/
structure Added (d : Ino) (s t : TmpfsRefs) : Prop where
  vnodes : t.vnodes = s.vnodes
  length : t.fs.inodes.length = s.fs.inodes.length
  frees : t.frees = s.frees
  mem : t.fs.mem = fun i => s.fs.mem (i + 1)
  keeps : ∀ a b, b ∈ (s.graph []).out a → b ∈ (t.graph []).out a
  only : ∀ a, a ≠ d → (t.graph []).out a = (s.graph []).out a

theorem Added.live (h : Added d s t) (hv : s.Live v) : t.Live v := ⟨h.length ▸ hv.1, h.frees ▸ hv.2⟩

theorem dirAdd_added (name : Path) (hd : s.Live d) (hc : s.refcount c + 1 < 2 ^ 32) :
    Added d s (s.dirAdd d name c).2 := by
  have hmem : (s.dirAdd d name c).2.fs.mem = fun i => s.fs.mem (i + 1) := by
    unfold TmpfsRefs.dirAdd Tmpfs.dirAdd
    cases s.fs.kzalloc.1 <;> rfl
  obtain ⟨hg, hv, hl⟩ := dirAdd_graph [] name hd hc
  refine ⟨hv, hl, ?_, hmem, fun a b hb => ?_, fun a ha => ?_⟩
  · refine (congrArg RefGraph.frees hg).trans ?_
    split <;> rfl
  all_goals rw [hg]; split
  · change b ∈ update (s.graph []).out d (c :: (s.graph []).out d) a
    by_cases ha : a = d
    · subst ha
      rw [update_self]
      exact mem_cons_of_mem _ hb
    · rwa [update_of_ne ha]
  · exact hb
  · exact update_of_ne ha ..
  · rfl

theorem Good.dots (h : Good (k + 2) pend s) (hv : s.Live v) (hd : s.Live d) :
    ∃ s1, Added v s s1 ∧ Added v s1 ((s.dirAdd v ['.'] v).2.dirAdd v ['.', '.'] d).2 ∧
      Good k pend ((s.dirAdd v ['.'] v).2.dirAdd v ['.', '.'] d).2 := by
  have hr1 := h.room v hv.1
  have ha1 := dirAdd_added ['.'] (c := v) hv (by omega)
  have hg1 := h.dirAdd ['.'] hv hv
  have hr2 := hg1.room d (ha1.live hd).1
  exact ⟨_, ha1, dirAdd_added ['.', '.'] (ha1.live hv) (by omega), hg1.dirAdd ['.', '.'] (ha1.live hv) (ha1.live hd)⟩

theorem Held.dirAdd (name : Path) (h : Held (k + 1) pend s) (hd : s.Live d) (hreach : (s.graph []).Reach 0 d)
    (hc : s.Live c) :
    Held k pend (s.dirAdd d name c).2 ∧ Added d s (s.dirAdd d name c).2 := by
  have hroom := h.room c hc.1
  have ha := dirAdd_added name (c := c) hd (by omega)
  refine ⟨⟨h.toGood.dirAdd name hd hc, ?_, ha.vnodes ▸ h.root⟩, ha⟩
  refine h.rooted.grow ha.keeps fun i hi => ?_
  by_cases hid : i = d
  · subst hid
    exact .inr (hreach.mono ha.keeps)
  · rw [ha.only i hid] at hi
    exact .inl hi

theorem Held.makeVnode (h : Held (k + 1) pend s) (hv : s.Live v) : Held k pend (s.makeVnode v).2 := by
  obtain ⟨hg, hi, hvn, hf⟩ := h.toGood.makeVnode hv
  refine ⟨hg, rooted_congr ?_ h.rooted, hvn h.root⟩
  simp only [graph, inode, hi, hf]

theorem addAndMake_snd : (s.addAndMake d name v).2 =
    if (s.dirAdd d name v).1 then ((s.dirAdd d name v).2.makeVnode v).2.unref v else (s.dirAdd d name v).2.unref v := by
  rw [addAndMake]
  rw [apply_ite Prod.snd]

theorem Held.addAndMake (h : Held (k + 2) [v] s) (hd : s.Live d) (hreach : (s.graph []).Reach 0 d) :
    Held k [] (s.addAndMake d name v).2 := by
  have hv : s.Live v := h.live_of_ext mem_cons_self
  obtain ⟨h1, ha⟩ := h.dirAdd name hd hreach hv
  rw [addAndMake_snd]
  split
  · exact (h1.makeVnode (ha.live hv)).unref.1
  · exact h1.unref.1.weaken (le_succ k)

theorem eraseP_perm {l : List (Path × Ino)} (h : (l.find? (·.1 == name)).map (·.2) = some c) :
    (l.map (·.2)).Perm (c :: (l.eraseP (·.1 == name)).map (·.2)) := by
  obtain ⟨e, he, rfl⟩ := map_eq_some_iff.1 h
  obtain ⟨hp, as, bs, rfl, hno⟩ := find?_eq_some_iff_append.1 he
  rw [eraseP_append_right _ (by simpa using hno), eraseP_cons_of_pos (by exact hp), map_append, map_append]
  exact perm_middle

theorem graph_dirRemove (hd : s.Live d) (hc : s.fs.dirLookup d name = some c) :
    ({ s with fs := (s.fs.dirRemove d name).2 } : TmpfsRefs).graph [c] =
      (s.graph []).unlink d c (((s.fs.inode d).entries.eraseP (·.1 == name)).map (·.2)) := by
  have hfs : (s.fs.dirRemove d name).2 =
      s.fs.modify d fun ti => { ti with entries := ti.entries.eraseP (·.1 == name) } := by
    unfold Tmpfs.dirRemove
    rw [hc]
    rfl
  rw [hfs]
  refine eq_of_fields (congrArg Finset.range (modify_length ..)) (funext fun w => ?_) rfl rfl rfl
  simp only [graph, unlink, Tmpfs.inode_modify]
  by_cases hw : w = d
  · subst hw
    simp [hd.1, hd.2]
  · simp [hw]

theorem dirRemove_some (hc : s.fs.dirLookup d name = some c) :
    (s.dirRemove d name).2 = ({ s with fs := (s.fs.dirRemove d name).2 } : TmpfsRefs).unref c := by
  unfold dirRemove
  rw [hc]

theorem fs_dirRemove_none (hc : fs.dirLookup d name = none) : (fs.dirRemove d name).2 = fs := by
  unfold Tmpfs.dirRemove
  rw [hc]
  rfl

theorem dirRemove_none (hc : s.fs.dirLookup d name = none) : (s.dirRemove d name).2 = s := by
  unfold dirRemove
  rw [hc]
  dsimp only
  rw [fs_dirRemove_none hc]

theorem dirRemove_fs : (s.dirRemove d name).2.fs = (s.fs.dirRemove d name).2 := by
  rcases hc : s.fs.dirLookup d name with _ | c
  · rw [dirRemove_none hc, fs_dirRemove_none hc]
  · rw [dirRemove_some hc, unref_fs]

theorem dirRemove_vnodes : (s.dirRemove d name).2.vnodes = s.vnodes := by
  rcases hc : s.fs.dirLookup d name with _ | c
  · rw [dirRemove_none hc]
  · rw [dirRemove_some hc, unref_vnodes]

theorem Held.dirRemove (h : Held k [] s) (hd : s.Live d)
    (hkeep : ∀ c ∈ s.fs.dirLookup d name, (s.fs.inode c).entries = [] ∨
      c ∈ ((s.fs.inode d).entries.eraseP (·.1 == name)).map (·.2)) :
    Held k [] (s.dirRemove d name).2 ∧
      ∀ i, (s.graph []).out i ≠ [] → ((s.dirRemove d name).2.graph []).Reach 0 i := by
  rcases hc : s.fs.dirLookup d name with _ | c
  · rw [dirRemove_none hc]
    exact ⟨h, h.rooted⟩
  rw [dirRemove_some hc]
  have hg := graph_dirRemove hd hc
  set t : TmpfsRefs := { s with fs := (s.fs.dirRemove d name).2 } with ht
  have hp := eraseP_perm hc
  rw [← graph_out [] hd.2] at hp
  have hlen : t.fs.inodes.length = s.fs.inodes.length := by
    have := congrArg (fun g : RefGraph Ino => g.nodes.card) hg
    simpa [graph, unlink] using this
  have hout : (t.graph [c]).out = ((s.graph []).unlink d c
      (((s.fs.inode d).entries.eraseP (·.1 == name)).map (·.2))).out := congrArg out hg
  change (t.graph []).out = _ at hout
  have hreach : ∀ i, (s.graph []).out i ≠ [] → (t.graph []).Reach 0 i := by
    intro i hi
    refine h.rooted.prune (fun a b hb hbo => ?_) hi
    rw [hout]
    change b ∈ update (s.graph []).out d _ a
    by_cases ha : a = d
    · subst ha
      rw [update_self]
      rcases mem_cons.1 (hp.subset hb) with rfl | hb
      · rcases hkeep b hc with he | he
        · refine absurd ?_ hbo
          simp [graph, he]
        · exact he
      · exact hb
    · rwa [update_of_ne ha]
  have htl : Held k [c] t := by
    refine ⟨⟨hg ▸ h.counted.unlink hp, fun w hw => h.room w (hlen ▸ hw)⟩, fun i hi => hreach i ?_, h.root⟩
    rintro h0
    refine hi ?_
    rw [hout]
    change update (s.graph []).out d _ i = []
    by_cases hid : i = d
    · subst hid
      rw [h0] at hp
      exact absurd hp.symm.eq_nil (by simp)
    · rwa [update_of_ne hid]
  refine ⟨htl.unref.1, fun i hi => ?_⟩
  have := hreach i hi
  rwa [RefGraph.Reach, htl.unref.2]

theorem Held.remove (h : Held k [] s) (hd : s.Live d) (hp : s.Plain d name) : Held k [] (s.dirRemove d name).2 :=
  (h.dirRemove hd fun c hc => .inl (hp c hc)).1

theorem Held.lookup (h : Held (k + 1) [] s) (hd : s.Live d) : Held k [] (s.lookup d name).2 := by
  unfold TmpfsRefs.lookup
  split
  · exact h.weaken (le_succ k)
  · exact h.makeVnode (h.live_of_entry hd ‹_›)

theorem Held.evict (h : Held k [] s) (hv : v ∈ s.vnodes.erase 0) : Held k [] (s.evict v) := by
  have hm : v ∈ s.vnodes := mem_of_mem_erase hv
  have ht : Held k [v] { s with vnodes := s.vnodes.erase v } := by
    refine ⟨⟨?_, h.room⟩, rooted_congr rfl h.rooted, ?_⟩
    · exact h.counted.congr rfl (fun _ => .refl _) (perm_cons_erase hm).symm rfl rfl
    · by_cases hv0 : v = 0
      · subst hv0
        exact hv
      · exact (mem_erase_of_ne (Ne.symm hv0)).2 h.root
  exact ht.unref.1

theorem Held.reach (h : Held k pend s) (hd : s.Live d) (he : (s.fs.inode d).entries ≠ []) : (s.graph []).Reach 0 d := by
  refine h.rooted d ?_
  rw [graph_out _ hd.2]
  simpa using he

theorem Held.make {f : Ino → TmpfsRefs → Option Ino × TmpfsRefs} (h : Held 4 [] s) (hd : d ∈ s.vnodes)
    (he : (s.fs.inode d).entries ≠ []) (hti : ti.entries = [])
    (hf : ∀ v t, s.inodeAlloc ti = (some v, t) → Held 4 [v] t → t.Live d → (t.graph []).Reach 0 d →
      Held 0 [] (f v t).2) : Held 0 [] (s.make d name ti f).2 := by
  have hreach := h.reach (h.live_of_vnode hd) he
  unfold TmpfsRefs.make
  split
  · exact h.weaken (zero_le _)
  rcases ha : s.inodeAlloc ti with ⟨_ | v, t⟩
  · rw [inodeAlloc_none ha]
    exact (h.weaken (zero_le _)).congr fun _ => rfl
  · obtain ⟨ht, hvn, hout⟩ := h.inodeAlloc (by decide) hti ha
    refine hf v t ha ht (ht.live_of_vnode (hvn ▸ hd)) ?_
    rwa [RefGraph.Reach, ← hout]

variable {mode : Mode}

theorem Held.create (h : Held 4 [] s) (hd : d ∈ s.vnodes) (he : (s.fs.inode d).entries ≠ []) :
    Held 0 [] (s.create d name mode).2 :=
  h.make hd he rfl fun _ _ _ ht hl hr => (ht.addAndMake hl hr).weaken (zero_le 2)

variable {target : Path}

theorem Held.symlink (h : Held 4 [] s) (hd : d ∈ s.vnodes) (he : (s.fs.inode d).entries ≠ []) :
    Held 0 [] (s.symlink d name target).2 := by
  refine h.make hd he rfl fun v t _ ht hl hr => ?_
  dsimp only
  split
  · have hg := fun p => graph_congr (t := { t with fs := t.fs.kzalloc.2.modify v fun ti =>
      { ti with target := some target, data := replicate target.length 0 } }) p
      (fun w => by rw [inode_modify]; split <;> rfl) (modify_length ..) rfl rfl rfl
    refine ((ht.congr hg).addAndMake ⟨?_, hl.2⟩ ?_).weaken (zero_le 2)
    · rw [modify_length]
      exact hl.1
    · rwa [hg]
  · have ht' : Held 4 [v] { t with fs := t.fs.kzalloc.2 } := ht.congr fun _ => rfl
    dsimp only
    exact ht'.unref.1.weaken (zero_le 4)

theorem dirAdd_linked (name : Path) (hd : s.Live d) (hc : s.refcount c + 1 < 2 ^ 32) (hm : s.fs.mem 0) :
    (s.dirAdd d name c).1 ∧ c ∈ ((s.dirAdd d name c).2.graph []).out d := by
  have h1 : (s.dirAdd d name c).1 := by
    change (s.fs.dirAdd d name c).1
    rw [Tmpfs.dirAdd, if_pos (show s.fs.kzalloc.1 from hm)]
  refine ⟨h1, ?_⟩
  rw [(dirAdd_graph [] name hd hc).1, if_pos h1]
  change c ∈ update (s.graph []).out d (c :: (s.graph []).out d) d
  rw [update_self]
  exact mem_cons_self

theorem Held.mkdir_new (h : Held 4 [v] s) (hd : s.Live d) (hreach : (s.graph []).Reach 0 d) (hm : s.fs.mem 2) :
    Held 0 [] (((s.dirAdd v ['.'] v).2.dirAdd v ['.', '.'] d).2.addAndMake d name v).2 := by
  have hv : s.Live v := h.live_of_ext mem_cons_self
  -- the counts, and what each entry adds
  obtain ⟨s1, ha1, ha2, hg2⟩ := h.toGood.dots hv hd
  generalize ((s.dirAdd v ['.'] v).2.dirAdd v ['.', '.'] d).2 = s2 at *
  have hv2 := ha2.live (ha1.live hv)
  have hd2 := ha2.live (ha1.live hd)
  have hr3 := hg2.room v hv2.1
  have ha3 := dirAdd_added name (c := v) hd2 (by omega)
  have hg3 := hg2.dirAdd name hd2 hv2
  obtain ⟨htrue, hlink⟩ := dirAdd_linked name (c := v) hd2 (by omega)
    (by rw [ha2.mem]; simp only; rw [ha1.mem]; exact hm)
  rw [addAndMake_snd, if_pos htrue]
  generalize (s2.dirAdd d name v).2 = s3 at *
  have hkeeps : ∀ a b, b ∈ (s.graph []).out a → b ∈ (s3.graph []).out a := fun a b hb =>
    ha3.keeps a b (ha2.keeps a b (ha1.keeps a b hb))
  have h3 : Held 1 [v] s3 := by
    refine ⟨hg3, h.rooted.grow hkeeps fun i hi => ?_, ?_⟩
    · by_cases hid : i = d
      · subst hid
        exact .inr (hreach.mono hkeeps)
      · by_cases hiv : i = v
        · subst hiv
          exact .inr ((hreach.mono hkeeps).tail hlink)
        · rw [ha3.only i hid, ha2.only i hiv, ha1.only i hiv] at hi
          exact .inl hi
    · rw [ha3.vnodes, ha2.vnodes, ha1.vnodes]
      exact h.root
  exact (h3.makeVnode (ha3.live hv2)).unref.1

theorem Held.mkdir (h : Held 4 [] s) (hd : d ∈ s.vnodes) (he : (s.fs.inode d).entries ≠ [])
    (hm : s.fs.mem 3) : Held 0 [] (s.mkdir d name mode).2 := by
  refine h.make hd he rfl fun v t ha ht hl hr => ?_
  obtain ⟨-, hfs, -⟩ := inodeAlloc_some [] rfl ha
  exact ht.mkdir_new hl hr (by rw [hfs]; exact hm)

variable {d' : Ino} {name' : Path}

theorem dirLookup_dirRemove (hne : d ≠ d' ∨ name ≠ name') :
    (fs.dirRemove d' name').2.dirLookup d name = fs.dirLookup d name := by
  unfold Tmpfs.dirRemove
  split
  · unfold Tmpfs.dirLookup
    rw [Tmpfs.inode_modify]
    split
    · rename_i hd
      rw [Tmpfs.find?_eraseP_ne (hne.resolve_left fun h => h hd.1)]
    · rfl
  · rfl

theorem inode_dirRemove_of_ne {w : Ino} (hw : w ≠ d) : (fs.dirRemove d name).2.inode w = fs.inode w := by
  unfold Tmpfs.dirRemove
  split
  · exact (Tmpfs.inode_modify ..).trans (if_neg fun h => hw h.1)
  · rfl

theorem mem_eraseP_cons {l : List (Path × Ino)} {a : Path} (h : (l.find? (·.1 == name)).map (·.2) = some c) :
    ∀ x ∈ (((a, c) :: l).find? (·.1 == name)).map (·.2), x ∈ (((a, c) :: l).eraseP (·.1 == name)).map (·.2) := by
  intro x hx
  by_cases ha : a = name
  · rw [find?_cons_of_pos (by simpa using ha)] at hx
    cases hx
    rw [eraseP_cons_of_pos (by simpa using ha)]
    obtain ⟨e, he, rfl⟩ := map_eq_some_iff.1 h
    exact mem_map.2 ⟨e, mem_of_find?_eq_some he, rfl⟩
  · rw [find?_cons_of_neg (by simpa using ha), h] at hx
    cases hx
    rw [eraseP_cons_of_neg (by simpa using ha)]
    exact mem_cons_self

theorem dirAdd_fs : (s.dirAdd d name c).2.fs = (s.fs.dirAdd d name c).2 := by
  unfold dirAdd
  dsimp only
  split <;> rfl

theorem rename_snd {r : Bool × TmpfsRefs} (hc : s.fs.dirLookup d name = some c)
    (hr : (s.dirRemove d' name').2.dirAdd d' name' c = r) :
    (s.rename d name d' name').2 = if r.1 then (r.2.dirRemove d name).2 else r.2 := by
  rw [TmpfsRefs.rename, hc]
  dsimp only
  rw [hr, apply_ite Prod.snd]

theorem Held.rename (h : Held 4 [] s) (hd : d ∈ s.vnodes) (hd' : d' ∈ s.vnodes)
    (hne : d ≠ d' ∨ name ≠ name') (he : (s.fs.inode d').entries ≠ []) (hp' : s.Plain d' name')
    (hp : d = d' ∨ s.Plain d name) : Held 0 [] (s.rename d name d' name').2 := by
  rcases hc : s.fs.dirLookup d name with _ | c
  · rw [TmpfsRefs.rename, hc]
    exact h.weaken (zero_le _)
  rw [rename_snd hc rfl]
  have hl' := h.live_of_vnode hd'
  obtain ⟨h1, hreach1⟩ := h.dirRemove hl' fun c hc => .inl (hp' c hc)
  have hfs1 : (s.dirRemove d' name').2.fs = _ := dirRemove_fs
  have hvn1 : (s.dirRemove d' name').2.vnodes = _ := dirRemove_vnodes
  have hc1 : (s.dirRemove d' name').2.fs.dirLookup d name = some c := by
    rw [hfs1, dirLookup_dirRemove hne, hc]
  have hr : ((s.dirRemove d' name').2.graph []).Reach 0 d' := hreach1 d' (by rw [graph_out _ hl'.2]; simpa using he)
  -- an inode without entries stays so
  have hsame : d ≠ d' → ((s.dirRemove d' name').2.fs.inode c).entries = [] ∧ c ≠ d' := fun hdd => by
    have hempty := hp.resolve_left hdd c hc
    have hcd : c ≠ d' := by
      rintro rfl
      exact he hempty
    rw [hfs1, inode_dirRemove_of_ne hcd]
    exact ⟨hempty, hcd⟩
  generalize (s.dirRemove d' name').2 = s1 at *
  have hl1' := h1.live_of_vnode (hvn1 ▸ hd')
  obtain ⟨h2, ha⟩ := h1.dirAdd name' hl1' hr (h1.live_of_entry (h1.live_of_vnode (hvn1 ▸ hd)) hc1)
  split
  · rename_i hok
    have hin := inode_dirAdd (show (s1.fs.dirAdd d' name' c).1 from hok) hl1'.1
    have hd2 := h2.live_of_vnode (ha.vnodes ▸ hvn1 ▸ hd)
    refine (h2.dirRemove hd2 ?_).1.weaken (zero_le _)
    rw [dirAdd_fs]
    intro x hx
    by_cases hdd : d = d'
    · subst hdd
      refine .inr ?_
      unfold dirLookup at hx
      rw [hin, if_pos rfl] at hx ⊢
      exact mem_eraseP_cons hc1 x hx
    · refine .inl ?_
      obtain ⟨hempty, hcd⟩ := hsame hdd
      unfold dirLookup at hx hc1
      rw [hin, if_neg hdd, hc1] at hx
      cases hx
      rw [hin, if_neg hcd]
      exact hempty
  · exact h2.weaken (zero_le _)

theorem good_empty (mem : Nat → Bool) :
    Good 4 [] { fs := { inodes := [], mem := mem }, refcount := fun _ => 0, frees := fun _ => 0, vnodes := [] } where
  counted :=
    { count := fun _ hi => absurd hi (Finset.notMem_empty _)
      held := fun _ hi => absurd hi (Finset.notMem_empty _)
      freed := fun _ hi => absurd hi (Finset.notMem_empty _)
      closed := fun _ hi => absurd hi (by simp [refs, graph])
      outside := fun _ _ => rfl }
  room := fun _ hv => absurd hv (not_lt_zero _)

theorem mount_held {mem : Nat → Bool} (h : mount mem = some s) : Held 0 [] s := by
  unfold mount at h
  dsimp only at h
  split at h
  · cases h
  split at h
  · cases h
  rename_i root t heq
  have hgood := (good_empty _).inodeAlloc (by decide) rfl heq
  obtain ⟨hroot, hfs, hvn, -⟩ := inodeAlloc_some [] rfl heq
  have hlen : t.fs.inodes.length = 1 := by rw [hfs]; rfl
  have hl : t.Live root := hgood.live_of_ext mem_cons_self
  obtain ⟨s1, ha1, ha2, hg2⟩ := hgood.dots hl hl
  generalize ((t.dirAdd root ['.'] root).2.dirAdd root ['.', '.'] root).2 = s2 at *
  have hvn2 : s2.vnodes = [] := by rw [ha2.vnodes, ha1.vnodes, hvn]
  obtain ⟨-, ⟨⟩⟩ := ite_none_right_eq_some.1 h
  subst hroot
  have hcounted : (s2.graph [0]).Counted := hg2.counted
  refine ⟨⟨?_, fun v hv => ?_⟩, fun i hi => ?_, mem_cons_self⟩
  · refine hcounted.congr rfl (fun _ => .refl _) ?_ rfl rfl
    rw [show (s2.graph [0]).ext = [0] ++ s2.vnodes from rfl, hvn2]
    exact .refl _
  · exact (le_add_right _ 2).trans_lt (hg2.room v hv)
  · have hin : i ∈ (s2.graph [0]).nodes := by
      by_contra hn
      exact hi (hcounted.outside i hn)
    have hi0 : i < 1 := by
      rw [← hlen, ← ha1.length, ← ha2.length]
      exact Finset.mem_range.1 hin
    rw [lt_one_iff.1 hi0]
    exact .refl

theorem graph_refs (s : TmpfsRefs) (v : Ino) : (s.graph []).refs v = s.entryRefs v + s.vnodes.count v := by
  refine congrArg (· + s.vnodes.count v) (Finset.sum_congr rfl fun d _ => ?_)
  simp only [graph]
  split
  · rw [count_eq_countP, countP_map]
    rfl
  · rfl

theorem Held.lifetimes (h : Held k [] s) : s.Lifetimes where
  counted v hv hf := by
    rw [← graph_refs]
    exact h.counted.count v (Finset.mem_range.2 hv) hf
  freed v hv := by
    rw [← graph_refs]
    split
    · rename_i hz
      have hne : s.frees v ≠ 0 := fun h0 => (h.counted.held v (Finset.mem_range.2 hv) h0).ne' hz
      exact (h.counted.freed v (Finset.mem_range.2 hv) hne).1
    · rename_i hz
      exact (h.counted.live (pos_of_ne_zero hz)).2
  named d hd hf e he := by
    have hm : e.2 ∈ (s.graph []).out d := by
      rw [graph_out _ hf]
      exact mem_map_of_mem he
    exact (h.counted.live_of_out hm).imp_left Finset.mem_range.1
  emptied he hv := by
    have hroot := h.live_of_vnode h.root
    have halone : ∀ i, s.Live i → i = 0 := fun i hi => by
      refine h.rooted.alone h.counted (fun c hc => ?_) (fun c hc => ?_) hi.mem hi.2
      · rw [graph_out _ hroot.2] at hc
        obtain ⟨e, hm, rfl⟩ := mem_map.1 hc
        exact he e hm
      · exact mem_singleton.1 (hv ▸ hc)
    have hperm : ((range s.fs.inodes.length).filter (s.frees · == 0)).Perm [0] := by
      refine (perm_ext_iff_of_nodup (nodup_range.filter _) (nodup_singleton 0)).2 fun i => ?_
      rw [mem_filter, mem_range, beq_iff_eq, mem_singleton]
      exact ⟨halone i, by rintro rfl; exact hroot⟩
    exact hperm.length_eq

theorem Held.step {e : TmpfsEvent} (h : Held 0 [] s) (hc : Careful s e) (hs : tmpfsStep s e = some t) :
    Held 0 [] t := by
  obtain ⟨hroom, hc⟩ := hc
  have h4 : Held 4 [] s := ⟨⟨h.counted, hroom⟩, h.rooted, h.root⟩
  cases e <;> obtain ⟨hd, ht⟩ := ite_none_right_eq_some.1 hs <;> rw [← some.inj ht]
  case create => exact h4.create hd hc
  case mkdir => exact h4.mkdir hd hc.1 hc.2
  case symlink => exact h4.symlink hd hc
  case unlink => exact h.remove (h.live_of_vnode hd) hc
  case rmdir =>
    unfold TmpfsRefs.rmdir
    split
    · exact h
    split_ifs
    · exact h
    · exact h
    · exact h.remove (h.live_of_vnode hd) hc
  case rename =>
    obtain ⟨hne, he, hp', hp⟩ := hc
    exact h4.rename hd.1 hd.2 hne he hp' hp
  case lookup => exact (h4.lookup (h4.live_of_vnode hd)).weaken (zero_le 3)
  case release => exact h.evict hd

end TmpfsRefs

open TmpfsRefs

/-- From mounting on, as long as every operation is `Careful`. -/
theorem tmpfs_lifetimes {mem : Nat → Bool} {s0 s : TmpfsRefs} {es : List TmpfsEvent}
    (h0 : TmpfsRefs.mount mem = some s0) (hrun : Run tmpfsStep Careful s0 es s) : s.Lifetimes := by
  have hs : Held 0 [] s := hrun.inv (fun _ _ _ h hc hs => h.step hc hs) (mount_held h0)
  exact hs.lifetimes

/-- A file is made in a new directory, moved to the root, removed and closed; it is freed then. -/
theorem tmpfs_lifetimes_moved : ∃ s0 s, TmpfsRefs.mount (fun _ => true) = some s0 ∧
    Run tmpfsStep Careful s0 [.mkdir 0 ['d'] 0o755, .create 1 ['f'] 0o644, .rename 1 ['f'] 0 ['g'], .unlink 0 ['g'],
      .release 2] s ∧ s.frees 2 = 1 ∧ s.Lifetimes := by
  have h : ((TmpfsRefs.mount fun _ => true).bind fun s0 =>
      exec (fun s e => if Careful s e then tmpfsStep s e else none) s0 [.mkdir 0 ['d'] 0o755, .create 1 ['f'] 0o644,
        .rename 1 ['f'] 0 ['g'], .unlink 0 ['g'], .release 2]).map (·.frees 2) = some 1 := by
    decide +kernel
  obtain ⟨s, hs, hf⟩ := map_eq_some_iff.1 h
  obtain ⟨s0, h0, he⟩ := bind_eq_some_iff.1 hs
  exact ⟨s0, s, h0, run_of_exec he, hf, tmpfs_lifetimes h0 (run_of_exec he)⟩

/-- A directory that was removed and that nobody uses stays allocated, and a file renamed to itself is freed twice. -/
theorem lifetimes_broken :
    (∃ s0 s, TmpfsRefs.mount (fun _ => true) = some s0 ∧
      Run tmpfsStep Any s0 [.mkdir 0 ['d'] 0o755, .release 1, .rmdir 0 ['d']] s ∧ s.frees 1 = 0 ∧ ¬ s.Lifetimes) ∧
    ∃ s0 s, TmpfsRefs.mount (fun _ => true) = some s0 ∧
      Run tmpfsStep Any s0 [.create 0 ['a'] 0o644, .release 1, .rename 0 ['a'] 0 ['a']] s ∧ s.frees 1 = 2 ∧
        ¬ s.Lifetimes := by
  constructor
  · have h : ((TmpfsRefs.mount fun _ => true).bind fun s0 =>
        exec tmpfsStep s0 [.mkdir 0 ['d'] 0o755, .release 1, .rmdir 0 ['d']]).map (fun s =>
          (s.frees 1, (s.fs.inode 0).entries.map (·.2), s.vnodes, s.fs.inodes.length, s.frees 0)) =
        some (0, [0, 0], [0], 2, 0) := by
      decide +kernel
    obtain ⟨s, hs, hf⟩ := map_eq_some_iff.1 h
    obtain ⟨s0, h0, he⟩ := bind_eq_some_iff.1 hs
    simp only [Prod.mk.injEq] at hf
    obtain ⟨hf1, hent, hvn, hlen, hf0⟩ := hf
    refine ⟨s0, s, h0, exec_iff.1 he, hf1, fun hl => ?_⟩
    have hempty := hl.emptied (fun e hm => ?_) hvn
    · rw [hlen] at hempty
      simp [range_succ, hf0, hf1] at hempty
    · have hm := mem_map_of_mem (f := (·.2)) hm
      rw [hent] at hm
      simpa using hm
  · have h : ((TmpfsRefs.mount fun _ => true).bind fun s0 =>
        exec tmpfsStep s0 [.create 0 ['a'] 0o644, .release 1, .rename 0 ['a'] 0 ['a']]).map (fun s =>
          (s.frees 1, s.fs.inodes.length)) = some (2, 2) := by
      decide +kernel
    obtain ⟨s, hs, hf⟩ := map_eq_some_iff.1 h
    obtain ⟨s0, h0, he⟩ := bind_eq_some_iff.1 hs
    simp only [Prod.mk.injEq] at hf
    refine ⟨s0, s, h0, exec_iff.1 he, hf.1, fun hl => ?_⟩
    have hfreed := hl.freed 1 (by rw [hf.2]; decide)
    rw [hf.1] at hfreed
    split at hfreed <;> cases hfreed

end ExoOS.Vfs
