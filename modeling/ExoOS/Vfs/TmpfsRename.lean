import ExoOS.Vfs.TmpfsRefs

/-!
# Renaming in tmpfs

`tmpfs_rename` removes what has the new name, adds the new entry and removes the old one. It looks neither at what it
replaces nor at what it moves, and an entry renamed to itself is gone, with its inode (`rename_to_itself`).
`rename_exact_iff` says of every tree which renames are exact.
-/

namespace ExoOS.Vfs

open List Option Nat Tmpfs TmpfsRefs Transition

def Entry (d : Ino) (name : Path) (d' : Ino) (name' : Path) : Prop := d' = d ∧ name' = name

def dots : List Path := [['.'], ['.', '.']]

def Once (fs : Tmpfs) : Prop := ∀ d, ((fs.inode d).entries.map (·.1)).Nodup

/-- Directories have entries, and only they do. -/
def TmpfsRefs.Dir (s : TmpfsRefs) (c : Ino) : Prop := s.Live c ∧ (s.fs.inode c).entries ≠ []

/-- The references are right, directories are reached from the root, and a directory has a name once. It has itself
as `.` and the one directory that lists it, under one name, as `..`; the root has itself as both. -/
structure TmpfsTree (s : TmpfsRefs) : Prop where
  held : Held 0 [] s
  once : Once s.fs
  self : ∀ c, s.Dir c → s.fs.dirLookup c ['.'] = some c
  up : ∀ c, s.Dir c → ∃ p, s.fs.dirLookup c ['.', '.'] = some p ∧
    if c = 0 then p = 0 else ∃ name ∉ dots, s.fs.dirLookup p name = some c
  parent : ∀ d name c, name ∉ dots → s.fs.dirLookup d name = some c →
    c ≠ 0 ∧ ∀ p, s.fs.dirLookup c ['.', '.'] = some p → p = d
  single : ∀ d name name' c, name ∉ dots → name' ∉ dots → s.fs.dirLookup d name = some c →
    s.fs.dirLookup d name' = some c → s.Dir c → name = name'

structure Moved (s t : TmpfsRefs) (d : Ino) (name : Path) (d' : Ino) (name' : Path) : Prop where
  new : t.fs.dirLookup d' name' = s.fs.dirLookup d name
  old : t.fs.dirLookup d name = none
  other : ∀ e m, ¬ Entry d name e m → ¬ Entry d' name' e m → t.fs.dirLookup e m = s.fs.dirLookup e m

structure Renamed (s t : TmpfsRefs) (d : Ino) (name : Path) (d' : Ino) (name' : Path) : Prop
    extends Moved s t d name d' name' where
  /-- A directory that has more than `.` and `..` is not replaced. -/
  kept : ∀ x ∈ s.fs.dirLookup d' name', (s.fs.inode x).entries.length ≤ 2
  stays : ∀ c, s.Dir c → (t.graph []).Reach 0 c
  tree : TmpfsTree t

/-- Renaming failed without a trace, or did what it should: nothing, for an entry renamed to itself. -/
def RenameExact (s t : TmpfsRefs) (r : Int) (d : Ino) (name : Path) (d' : Ino) (name' : Path) : Prop :=
  r < 0 ∧ t.fs.inodes = s.fs.inodes ∨
    r = 0 ∧ (Entry d name d' name' → t.fs.inodes = s.fs.inodes) ∧
      (¬ Entry d name d' name' → Renamed s t d name d' name')

/-- There is nothing to rename; or nothing has the new name where there is no memory for another entry; or the new
name fits, the new parent is a directory, no directory is replaced and none moved to another one. -/
def Renamable (s : TmpfsRefs) (d : Ino) (name : Path) (d' : Ino) (name' : Path) : Prop :=
  s.fs.dirLookup d name = none ∨ ¬ Entry d name d' name' ∧
    if s.fs.mem 0 then
      name'.length ≤ VFS_NAME_MAX ∧ name ∉ dots ∧ (s.fs.inode d').entries ≠ [] ∧ s.Plain d' name' ∧
        (d = d' ∨ s.Plain d name)
    else s.fs.dirLookup d' name' = none

variable {fs : Tmpfs} {s : TmpfsRefs} {d d' c e : Ino} {name name' m : Path}

theorem mem_dots : name ∈ dots ↔ name = ['.'] ∨ name = ['.', '.'] := by simp [dots]

theorem dirLookup_eq_none : fs.dirLookup d name = none ↔ name ∉ (fs.inode d).entries.map (·.1) := by
  simp only [dirLookup, map_eq_none_iff, find?_eq_none, beq_iff_eq, List.mem_map, not_exists, not_and]

theorem lookup_of_mem (h : Once fs) (hm : (m, c) ∈ (fs.inode d).entries) : fs.dirLookup d m = some c := by
  rcases hx : fs.dirLookup d m with _ | x
  · exact absurd (mem_map_of_mem hm) (dirLookup_eq_none.1 hx)
  · exact congrArg (some ·.2) (inj_on_of_nodup_map (h d) (mem_of_dirLookup hx) hm rfl)

theorem exists_lookup (h : Once fs) : (fs.inode d).entries ≠ [] ↔ ∃ m c, fs.dirLookup d m = some c := by
  refine ⟨fun he => ?_, fun ⟨m, c, hm⟩ => ne_nil_of_mem (mem_of_dirLookup hm)⟩
  obtain ⟨⟨m, c⟩, hm⟩ := exists_mem_of_ne_nil _ he
  exact ⟨m, c, lookup_of_mem h hm⟩

theorem mem_out (h : Once s.fs) : e ∈ (s.graph []).out d ↔ s.frees d = 0 ∧ ∃ m, s.fs.dirLookup d m = some e := by
  unfold graph
  dsimp only
  split <;> rename_i hf
  · refine ⟨fun hm => ⟨hf, ?_⟩, fun ⟨_, m, hm⟩ => mem_map.2 ⟨_, mem_of_dirLookup hm, rfl⟩⟩
    obtain ⟨⟨m, x⟩, hx, rfl⟩ := mem_map.1 hm
    exact ⟨m, lookup_of_mem h hx⟩
  · exact ⟨fun hm => absurd hm not_mem_nil, fun hm => absurd hm.1 hf⟩

theorem notMem_eraseP {l : List (Path × Ino)} (h : (l.map (·.1)).count name ≤ 1) :
    name ∉ (l.eraseP (·.1 == name)).map (·.1) := by
  change name ∉ (l.eraseP ((· == name) ∘ Prod.fst)).map Prod.fst
  rw [← eraseP_map, ← erase_eq_eraseP', ← count_eq_zero, count_erase_self, Nat.sub_eq_zero_iff_le]
  exact h

theorem dirRemove_here (h : ((fs.inode d).entries.map (·.1)).count name ≤ 1) (hd : d < fs.inodes.length) :
    (fs.dirRemove d name).2.dirLookup d name = none := by
  unfold Tmpfs.dirRemove
  split
  · rw [dirLookup_eq_none, inode_modify, if_pos ⟨rfl, hd⟩]
    exact notMem_eraseP h
  · exact not_isSome_iff_eq_none.1 ‹_›

/-- The entry `name` of `d` becomes `v`. -/
structure Puts (fs : Tmpfs) (d : Ino) (name : Path) (v : Option Ino) (fs' : Tmpfs) : Prop where
  here : fs'.dirLookup d name = v
  other : ∀ e m, ¬ Entry d name e m → fs'.dirLookup e m = fs.dirLookup e m
  once : Once fs'
  length : fs'.inodes.length = fs.inodes.length

theorem Once.dirRemove (h : Once fs) (hd : d < fs.inodes.length) : Puts fs d name none (fs.dirRemove d name).2 := by
  refine ⟨dirRemove_here (nodup_iff_count_le_one.1 (h d) name) hd,
    fun e m hem => dirLookup_dirRemove (not_and_or.1 hem), ?_, ?_⟩ <;> unfold Tmpfs.dirRemove <;> split
  · intro w
    rw [inode_modify]
    split
    · exact (eraseP_sublist.map _).nodup (h w)
    · exact h w
  · exact h
  · exact modify_length ..
  · rfl

theorem Once.dirAdd (h : Once fs) (hd : d < fs.inodes.length) (hn : name.length ≤ VFS_NAME_MAX)
    (hnone : fs.dirLookup d name = none) (hok : (fs.dirAdd d name c).1) :
    Puts fs d name (some c) (fs.dirAdd d name c).2 := by
  have hin := inode_dirAdd hok hd
  rw [take_of_length_le hn] at hin
  refine ⟨by simp [dirLookup, hin], fun e m hem => ?_, fun w => ?_, by rw [fs_dirAdd hok]; exact modify_length ..⟩
  · unfold dirLookup
    rw [hin]
    split
    · have hm : name ≠ m := fun hm => hem ⟨‹_›, hm.symm⟩
      simp [hm]
    · rfl
  · rw [hin]
    split
    · subst w
      exact nodup_cons.2 ⟨dirLookup_eq_none.1 hnone, h d⟩
    · exact h w

section

variable {t : TmpfsRefs} {r : Int}

/-! ### What the steps do -/

theorem mem_dirRemove : (s.dirRemove d name).2.fs.mem = s.fs.mem := by
  rw [dirRemove_fs, Tmpfs.dirRemove]
  split <;> rfl

theorem dirAdd_ok : (s.dirAdd d name c).1 = s.fs.mem 0 := by
  change (Tmpfs.dirAdd _ d name c).1 = _
  unfold Tmpfs.dirAdd
  split <;> rename_i hm
  · exact hm.symm
  · exact (eq_false_of_ne_true hm).symm

/-- Without memory for the entry, what had the new name is removed all the same. -/
theorem rename_full (hc : s.fs.dirLookup d name = some c) (hm : s.fs.mem 0 = false) (d' : Ino) (name' : Path) :
    (s.rename d name d' name').1 = -ENOSPC ∧
      (s.rename d name d' name').2.fs.inodes = (s.fs.dirRemove d' name').2.inodes := by
  have hok : ¬ ((s.dirRemove d' name').2.dirAdd d' name' c).1 = true := by rw [dirAdd_ok, mem_dirRemove, hm]; decide
  rw [TmpfsRefs.rename, hc]
  dsimp only
  rw [if_neg hok]
  refine ⟨rfl, ?_⟩
  have hz : ¬ (s.fs.dirRemove d' name').2.kzalloc.1 = true := by
    rw [← dirRemove_fs, kzalloc, mem_dirRemove, hm]
    exact Bool.false_ne_true
  rw [dirAdd_fs, dirRemove_fs, Tmpfs.dirAdd, if_neg hz]
  rfl

/-- The new name is free in `fs`, and `u` has the new entry. -/
structure NewEntry (s : TmpfsRefs) (d : Ino) (name : Path) (c : Ino) (fs : Tmpfs) (u : TmpfsRefs) : Prop where
  free : Puts s.fs d name none fs
  add : fs.dirAdd d name c = (true, u.fs)
  length : u.fs.inodes.length = s.fs.inodes.length
  inode : ∀ w, u.fs.inode w = if w = d then
    { fs.inode w with entries := (name.take VFS_NAME_MAX, c) :: (fs.inode w).entries } else fs.inode w

theorem rename_steps (h : Once s.fs) (name' : Path) (hl' : d' < s.fs.inodes.length)
    (hc : s.fs.dirLookup d name = some c) (hm : s.fs.mem 0 = true) :
    ∃ fs u, NewEntry s d' name' c fs u ∧ s.rename d name d' name' = u.dirRemove d name := by
  have hok : ((s.dirRemove d' name').2.dirAdd d' name' c).1 = true := by rw [dirAdd_ok, mem_dirRemove, hm]
  have hp : Puts s.fs d' name' none _ := h.dirRemove hl'
  rw [← dirRemove_fs] at hp
  refine ⟨_, _, ⟨hp, Prod.ext hok dirAdd_fs.symm, ?_, ?_⟩, by rw [TmpfsRefs.rename, hc]; exact if_pos hok⟩ <;>
    rw [dirAdd_fs]
  · exact (congrArg (length ·.inodes) (fs_dirAdd hok)).trans ((modify_length ..).trans hp.length)
  · exact inode_dirAdd hok (hp.length ▸ hl')

theorem rename_same (h : Once s.fs) (hl : d < s.fs.inodes.length) (hc : s.fs.dirLookup d name = some c)
    (hm : s.fs.mem 0 = true) : (s.rename d name d name).2.fs.dirLookup d name = none := by
  obtain ⟨fs, u, ha, hr⟩ := rename_steps h name hl hc hm
  rw [hr, dirRemove_fs]
  refine dirRemove_here ?_ (ha.length ▸ hl)
  -- the name was gone, so it is there once at most
  rw [ha.inode, if_pos rfl, map_cons, count_cons, count_eq_zero.2 (dirLookup_eq_none.1 ha.free.here)]
  split <;> decide

section

variable (h : Once s.fs) (hl : d < s.fs.inodes.length) (hl' : d' < s.fs.inodes.length)
  (hc : s.fs.dirLookup d name = some c) (hm : s.fs.mem 0 = true) (hne : ¬ Entry d name d' name')
include h hl' hc hm hne

theorem rename_long (hlen : ¬ name'.length ≤ VFS_NAME_MAX) :
    (s.rename d name d' name').2.fs.dirLookup d' name' = none := by
  obtain ⟨fs, u, ha, hr⟩ := rename_steps h name' hl' hc hm
  have hcut : name'.take VFS_NAME_MAX ≠ name' := fun h => hlen (h ▸ length_take_le ..)
  rw [hr, dirRemove_fs, dirLookup_dirRemove (not_and_or.1 hne)]
  have hnone := ha.free.here
  unfold dirLookup at hnone ⊢
  rw [ha.inode, if_pos rfl, find?_cons_of_neg (by simpa using hcut)]
  exact hnone

theorem rename_zero : (s.rename d name d' name').1 = 0 := by
  obtain ⟨fs, u, ha, hr⟩ := rename_steps h name' hl' hc hm
  have hc1 := (ha.free.other d name fun h => hne ⟨h.1.symm, h.2.symm⟩).trans hc
  have hsome : (u.fs.dirLookup d name).isSome := by
    rw [isSome_iff_ne_none, Ne, dirLookup_eq_none, not_not, ha.inode]
    have hmem := mem_map_of_mem (f := Prod.fst) (mem_of_dirLookup hc1)
    split
    · exact mem_cons_of_mem _ hmem
    · exact hmem
  obtain ⟨y, hy⟩ := isSome_iff_exists.1 hsome
  rw [hr, TmpfsRefs.dirRemove, hy, Tmpfs.dirRemove, hy]
  rfl

include hl in
theorem rename_moved (hlen : name'.length ≤ VFS_NAME_MAX) :
    Moved s (s.rename d name d' name').2 d name d' name' ∧ Once (s.rename d name d' name').2.fs := by
  obtain ⟨fs, u, ha, hr⟩ := rename_steps h name' hl' hc hm
  have p1 := ha.free
  have p2 := p1.once.dirAdd (p1.length ▸ hl') hlen p1.here (congrArg Prod.fst ha.add)
  rw [ha.add] at p2
  have p3 : Puts _ d name none _ := p2.once.dirRemove (ha.length ▸ hl)
  rw [← dirRemove_fs, ← hr] at p3
  exact ⟨⟨(p3.other d' name' hne).trans (p2.here.trans hc.symm), p3.here,
    fun e m h1 h2 => (p3.other e m h1).trans ((p2.other e m h2).trans (p1.other e m h2))⟩, p3.once⟩

end

/-! ### Directories before and after -/

theorem TmpfsRefs.Held.live_of_reach {k : Nat} (h : Held k [] s) (hr : (s.graph []).Reach 0 c) : s.Live c := by
  induction hr with
  | refl => exact h.live_of_vnode h.root
  | tail _ hb _ => exact (h.counted.live_of_out hb).imp_left Finset.mem_range.1

variable {x : Ino}

theorem Moved.back (h : Moved s t d name d' name') (hx : t.fs.dirLookup e m = some x) :
    Entry d' name' e m ∧ s.fs.dirLookup d name = some x ∨
      s.fs.dirLookup e m = some x ∧ ¬ Entry d name e m ∧ ¬ Entry d' name' e m := by
  by_cases hn : Entry d' name' e m
  · obtain ⟨rfl, rfl⟩ := hn
    exact .inl ⟨⟨rfl, rfl⟩, h.new ▸ hx⟩
  by_cases ho : Entry d name e m
  · obtain ⟨rfl, rfl⟩ := ho
    cases h.old.symm.trans hx
  · exact .inr ⟨h.other e m ho hn ▸ hx, ho, hn⟩

theorem Moved.dot (h : Moved s t d name d' name') (hn : name ∉ dots) (hn' : name' ∉ dots) (hm : m ∈ dots) :
    t.fs.dirLookup e m = s.fs.dirLookup e m :=
  h.other e m (fun he => hn (he.2 ▸ hm)) fun he => hn' (he.2 ▸ hm)

section

variable (h : TmpfsTree s) (hm : Moved s t d name d' name')
include h hm

theorem Moved.live_back (ho : Once t.fs) (hd : s.Live d) (hr : (t.graph []).Reach 0 x) : s.Live x := by
  induction hr with
  | refl => exact h.held.live_of_vnode h.held.root
  | tail _ hb ih =>
    obtain ⟨-, n, hb⟩ := (mem_out ho).1 hb
    rcases hm.back hb with ⟨-, hb⟩ | ⟨hb, -⟩
    · exact h.held.live_of_entry hd hb
    · exact h.held.live_of_entry ih hb

theorem Moved.dir_back (ht : Held 0 [] t) (ho : Once t.fs) (hd : s.Live d) (he : (s.fs.inode d').entries ≠ [])
    (hx : t.Dir x) : s.Dir x := by
  refine ⟨hm.live_back h ho hd (ht.reach hx.1 hx.2), ?_⟩
  obtain ⟨n, y, hy⟩ := (exists_lookup ho).1 hx.2
  rcases hm.back hy with ⟨⟨rfl, -⟩, -⟩ | ⟨hy, -⟩
  · exact he
  · exact (exists_lookup h.once).2 ⟨n, y, hy⟩

variable (hn : name ∉ dots) (hn' : name' ∉ dots) (hp' : s.Plain d' name') (hp : d = d' ∨ s.Plain d name)
include hp' hp

omit h in
/-- A directory keeps its names, but for the one it is moved from. -/
theorem Moved.forth (hx : s.Dir x) (hl : s.fs.dirLookup e m = some x) :
    t.fs.dirLookup e m = some x ∨ Entry d name e m ∧ d = d' ∧ t.fs.dirLookup d' name' = some x := by
  by_cases ho : Entry d name e m
  · obtain ⟨rfl, rfl⟩ := ho
    refine .inr ⟨⟨rfl, rfl⟩, hp.resolve_right fun hp => hx.2 (hp x hl), hm.new.trans hl⟩
  · refine .inl ((hm.other e m ho ?_).trans hl)
    rintro ⟨rfl, rfl⟩
    exact hx.2 (hp' x hl)

theorem Moved.stays (ht : Held 0 [] t) (ho : Once t.fs) (hx : s.Dir x) : (t.graph []).Reach 0 x := by
  have hr := h.held.reach hx.1 hx.2
  induction hr with
  | refl => exact .refl
  | @tail a b hab hb ih =>
    obtain ⟨ha0, n, hb⟩ := (mem_out h.once).1 hb
    have ha := ih ⟨h.held.live_of_reach hab, (exists_lookup h.once).2 ⟨n, b, hb⟩⟩
    refine ha.tail ((mem_out ho).2 ⟨(ht.live_of_reach ha).2, ?_⟩)
    rcases hm.forth hp' hp hx hb with hb | ⟨⟨rfl, -⟩, rfl, hb⟩
    · exact ⟨n, hb⟩
    · exact ⟨name', hb⟩

include hn hn' in
theorem Moved.tree (ht : Held 0 [] t) (ho : Once t.fs) (hd : s.Live d) (he : (s.fs.inode d').entries ≠ []) :
    TmpfsTree t := by
  have hdir : ∀ {x}, t.Dir x → s.Dir x := fun hx => hm.dir_back h ht ho hd he hx
  refine ⟨ht, ho, fun x hx => ?_, fun x hx => ?_, fun e n x hne hx => ?_, fun e n n' x hn1 hn2 h1 h2 hx => ?_⟩
  · rw [hm.dot hn hn' (by decide)]
    exact h.self x (hdir hx)
  · rw [hm.dot hn hn' (by decide)]
    obtain ⟨p, hup, hlist⟩ := h.up x (hdir hx)
    refine ⟨p, hup, ?_⟩
    split at hlist <;> rename_i h0
    · rwa [if_pos h0]
    · rw [if_neg h0]
      obtain ⟨n, hnd, hl⟩ := hlist
      rcases hm.forth hp' hp (hdir hx) hl with hl | ⟨⟨rfl, -⟩, rfl, hl⟩
      · exact ⟨n, hnd, hl⟩
      · exact ⟨name', hn', hl⟩
  · rw [hm.dot hn hn' (by decide)]
    rcases hm.back hx with ⟨⟨rfl, rfl⟩, hc⟩ | ⟨hx, -⟩
    · refine ⟨(h.parent d name x hn hc).1, fun p hup => ?_⟩
      rcases hp with rfl | hp
      · exact (h.parent _ name x hn hc).2 p hup
      · simp [dirLookup, hp x hc] at hup
    · exact h.parent e n x hne hx
  · -- a directory that was moved stays in its own, where it had no second name
    have key : ∀ n, n ∉ dots → s.fs.dirLookup d name = some x → s.fs.dirLookup d' n = some x → Entry d name d' n :=
      fun n hnd hc hl => by
        obtain rfl := hp.resolve_right fun hp => (hdir hx).2 (hp x hc)
        exact ⟨rfl, h.single _ _ _ _ hnd hn hl hc (hdir hx)⟩
    rcases hm.back h1 with ⟨he1, hc⟩ | ⟨h1, ho1, -⟩ <;> rcases hm.back h2 with ⟨he2, hc'⟩ | ⟨h2, ho2, -⟩
    · exact he1.2.trans he2.2.symm
    · obtain ⟨rfl, -⟩ := he1
      exact absurd (key n' hn2 hc h2) ho2
    · obtain ⟨rfl, -⟩ := he2
      exact absurd (key n hn1 hc' h1) ho1
    · exact h.single e n n' x hn1 hn2 h1 h2 (hdir hx)

end

/-- What `.` and `..` stand for has entries. -/
theorem TmpfsTree.notMem_dots (h : TmpfsTree s) (hd : s.Live d) (he : (s.fs.inode d).entries ≠ [])
    (hp : s.Plain d name) : name ∉ dots := by
  obtain ⟨p, hup, hlist⟩ := h.up d ⟨hd, he⟩
  rw [mem_dots, not_or]
  constructor <;> rintro rfl
  · exact he (hp d (h.self d ⟨hd, he⟩))
  · refine (?_ : (s.fs.inode p).entries ≠ []) (hp p hup)
    split at hlist
    · subst hlist
      subst d
      exact he
    · obtain ⟨n, -, hl⟩ := hlist
      exact (exists_lookup h.once).2 ⟨n, d, hl⟩

/-! ### What an exact rename needs -/

theorem rename_vnodes : (s.rename d name d' name').2.vnodes = s.vnodes := by
  rcases hc : s.fs.dirLookup d name with _ | c
  · rw [TmpfsRefs.rename, hc]
  have ha : ∀ u : TmpfsRefs, (u.dirAdd d' name' c).2.vnodes = u.vnodes := fun u => by
    unfold TmpfsRefs.dirAdd
    dsimp only
    split <;> rfl
  rw [rename_snd hc rfl]
  split
  · rw [dirRemove_vnodes, ha, dirRemove_vnodes]
  · rw [ha, dirRemove_vnodes]

section

variable (h : TmpfsTree s) (hd : s.Live d) (hc : s.fs.dirLookup d name = some c) (hr : Renamed s t d name d' name')
include h hd hc hr

theorem Renamed.name_notMem : name ∉ dots := by
  intro hn
  have hdir : s.Dir d := ⟨hd, (exists_lookup h.once).2 ⟨name, c, hc⟩⟩
  obtain ⟨p, hup, -⟩ := h.up d hdir
  have hself := h.self d hdir
  -- the other of the two is still there, so the directory must have both
  obtain ⟨m, x, hne, hx⟩ : ∃ m x, m ≠ name ∧ s.fs.dirLookup d m = some x := by
    by_cases h1 : name = ['.']
    · exact ⟨_, p, by rw [h1]; decide, hup⟩
    · exact ⟨_, d, Ne.symm h1, hself⟩
  have ht : t.Dir d := by
    refine ⟨hr.tree.held.live_of_reach (hr.stays d hdir), (exists_lookup hr.tree.once).2 ?_⟩
    by_cases he : Entry d' name' d m
    · exact ⟨m, c, by rw [he.1, he.2, hr.new, hc]⟩
    · exact ⟨m, x, (hr.other d m (fun he => hne he.2) he).trans hx⟩
  rcases mem_dots.1 hn with rfl | rfl
  · cases hr.old.symm.trans (hr.tree.self d ht)
  · obtain ⟨q, hq, -⟩ := hr.tree.up d ht
    cases hr.old.symm.trans hq

variable (hd' : t.Live d')
include hd'

omit h hd in
theorem Renamed.dir_after : t.Dir d' := ⟨hd', (exists_lookup hr.tree.once).2 ⟨name', c, hr.new.trans hc⟩⟩

omit h hd in
theorem Renamed.entries_ne_nil : (s.fs.inode d').entries ≠ [] := by
  intro h0
  have hdir := hr.dir_after hc hd'
  -- whatever it has afterwards is the new entry
  have key : ∀ m x, t.fs.dirLookup d' m = some x → m = name' := fun m x hx => by
    rcases hr.back hx with ⟨he, -⟩ | ⟨hx, -⟩
    · exact he.2
    · simp [dirLookup, h0] at hx
  obtain ⟨p, hup, -⟩ := hr.tree.up d' hdir
  exact absurd ((key _ _ (hr.tree.self d' hdir)).trans (key _ _ hup).symm) (by decide)

theorem Renamed.not_dir (hn' : name' ∈ dots) : ¬ t.Dir c := by
  intro ht
  have hn := hr.name_notMem h hd hc
  have hs := hr.dir_back h hr.tree.held hr.tree.once hd (hr.entries_ne_nil hc hd') ht
  obtain ⟨q, hq, -⟩ := h.up c hs
  obtain ⟨h0, hpar⟩ := h.parent d name c hn hc
  obtain ⟨p, -, hlist⟩ := hr.tree.up c ht
  rw [if_neg h0] at hlist
  obtain ⟨n, hnd, hl⟩ := hlist
  rcases hr.back hl with ⟨he, -⟩ | ⟨hl, ho, -⟩
  · exact hnd (he.2 ▸ hn')
  · obtain rfl := (h.parent p n c hnd hl).2 q hq
    obtain rfl := hpar q hq
    exact ho ⟨rfl, h.single _ _ _ _ hnd hn hl hc hs⟩

theorem Renamed.name'_notMem : name' ∉ dots := by
  intro hn'
  have hdir := hr.dir_after hc hd'
  have hnot := hr.not_dir h hd hc hd' hn'
  have hnew := hr.new.trans hc
  rcases mem_dots.1 hn' with rfl | rfl
  · cases hnew.symm.trans (hr.tree.self d' hdir)
    exact hnot hdir
  · obtain ⟨p, hup, hlist⟩ := hr.tree.up d' hdir
    cases hnew.symm.trans hup
    split at hlist
    · exact (h.parent d name c (hr.name_notMem h hd hc) hc).1 hlist
    · obtain ⟨n, -, hl⟩ := hlist
      exact hnot ⟨hr.tree.held.live_of_entry hd' hup, (exists_lookup hr.tree.once).2 ⟨n, d', hl⟩⟩

theorem Renamed.stays_in (hp : (s.fs.inode c).entries ≠ []) : d = d' := by
  have hn := hr.name_notMem h hd hc
  have hn' := hr.name'_notMem h hd hc hd'
  obtain ⟨q, hq, -⟩ := h.up c ⟨h.held.live_of_entry hd hc, hp⟩
  obtain rfl := (h.parent d name c hn hc).2 q hq
  exact (hr.tree.parent d' name' c hn' (hr.new.trans hc)).2 _ ((hr.dot hn hn' (by decide)).trans hq)

/-- A directory that is replaced is not reached any more: what led to it was its one name, or it is not empty. -/
theorem Renamed.plain (hne : ¬ Entry d name d' name') (hl' : s.Live d') : s.Plain d' name' := by
  intro x hx
  by_contra hent
  have hn := hr.name_notMem h hd hc
  have hn' := hr.name'_notMem h hd hc hd'
  have hdir : s.Dir x := ⟨h.held.live_of_entry hl' hx, hent⟩
  obtain ⟨q, hq, -⟩ := h.up x hdir
  obtain ⟨hx0, hpar⟩ := h.parent d' name' x hn' hx
  obtain rfl := hpar q hq
  -- it has nothing but `.` and `..`
  have hempty : ∀ n y, s.fs.dirLookup x n = some y → n ∈ dots := fun n y hy => by
    by_contra hnd
    have hsub : n :: dots ⊆ (s.fs.inode x).entries.map (·.1) := by
      have hm : ∀ {m z}, s.fs.dirLookup x m = some z → m ∈ (s.fs.inode x).entries.map (·.1) :=
        fun hz => mem_map_of_mem (mem_of_dirLookup hz)
      simp [dots, hm hy, hm hq, hm (h.self x hdir)]
    have hlen := ((nodup_cons.2 ⟨hnd, by decide⟩).subperm hsub).length_le
    rw [length_map] at hlen
    exact absurd (hr.kept x hx) (not_le_of_gt hlen)
  suffices ∀ i, (t.graph []).Reach 0 i → i ≠ x from this x (hr.stays x hdir) rfl
  intro i hi
  induction hi with
  | refl => exact Ne.symm hx0
  | @tail a b ha hb ih =>
    rintro rfl
    obtain ⟨-, m, hm⟩ := (mem_out hr.tree.once).1 hb
    have hadir : t.Dir a := ⟨hr.tree.held.live_of_reach ha, (exists_lookup hr.tree.once).2 ⟨m, b, hm⟩⟩
    by_cases hmd : m ∈ dots
    · rcases mem_dots.1 hmd with rfl | rfl
      · cases hm.symm.trans (hr.tree.self a hadir)
        exact ih rfl
      · obtain ⟨p, hup, hlist⟩ := hr.tree.up a hadir
        cases hm.symm.trans hup
        split at hlist
        · exact hx0 hlist
        · obtain ⟨n, hnd, hl⟩ := hlist
          rcases hr.back hl with ⟨⟨rfl, rfl⟩, -⟩ | ⟨hl, -⟩
          · exact hnd (hempty _ _ hx)
          · exact hnd (hempty n a hl)
    · rcases hr.back hm with ⟨⟨rfl, rfl⟩, hcb⟩ | ⟨hm, ho, hn2⟩
      · obtain rfl := (h.parent d name b hn hcb).2 _ hq
        exact hne ⟨rfl, h.single _ _ _ _ hn' hn hx hcb hdir⟩
      · obtain rfl := (h.parent a m b hmd hm).2 _ hq
        exact hn2 ⟨rfl, h.single _ _ _ _ hmd hn' hm hx hdir⟩

end

end

/-- A file system with one file, `a`. -/
def oneFile : Option TmpfsRefs := (TmpfsRefs.mount fun _ => true).bind fun s =>
  exec (fun s e => if Careful s e then tmpfsStep s e else none) s [.create 0 ['a'] 0o644, .release 1]

theorem oneFile_tree (h : oneFile = some s) : TmpfsTree s := by
  have hi : oneFile.map (fun s => s.fs.inodes.map (·.entries)) =
      some [[(['a'], 1), (['.', '.'], 0), (['.'], 0)], []] := by decide +kernel
  rw [h, Option.map_some, some.injEq] at hi
  have hin : ∀ d, (s.fs.inode d).entries = ((s.fs.inodes.map (·.entries))[d]?).getD [] := fun d => by
    rw [getElem?_map, Tmpfs.inode]
    cases s.fs.inodes[d]? <;> rfl
  have hlook : ∀ d name c, s.fs.dirLookup d name = some c →
      d = 0 ∧ (name = ['a'] ∧ c = 1 ∨ name = ['.', '.'] ∧ c = 0 ∨ name = ['.'] ∧ c = 0) := fun d name c hc => by
    have hm := mem_of_dirLookup hc
    rw [hin, hi] at hm
    rcases d with _ | _ | _ <;> simp_all
  have hdir : ∀ c, s.Dir c → c = 0 := fun c hc => by
    have he := hc.2
    rw [hin, hi] at he
    rcases c with _ | _ | _ <;> simp_all
  have hdot : s.fs.dirLookup 0 ['.'] = some 0 ∧ s.fs.dirLookup 0 ['.', '.'] = some 0 := by
    simp [dirLookup, hin, hi]
  obtain ⟨s0, h0, he⟩ := bind_eq_some_iff.1 h
  refine ⟨(run_of_exec he).inv (fun _ _ _ h hc hs => h.step hc hs) (mount_held h0), fun d => ?_, fun c hc => ?_,
    fun c hc => ?_, fun d name c hn hc => ?_, fun d n n' c hn hn' h1 h2 hc => ?_⟩
  · rw [hin, hi]
    rcases d with _ | _ | _ <;> simp
  · rw [hdir c hc]
    exact hdot.1
  · rw [hdir c hc]
    exact ⟨0, hdot.2, rfl⟩
  · have hc' := hlook d name c hc
    rw [mem_dots, not_or] at hn
    simp only [hn, false_and, or_false] at hc'
    refine ⟨by rw [hc'.2.2]; decide, fun p hp => ?_⟩
    cases hc'.2.2.symm.trans (hlook c _ p hp).1
  · obtain rfl := hdir c hc
    have h1 := hlook d n 0 h1
    rw [mem_dots, not_or] at hn
    simp [hn] at h1

end ExoOS.Vfs
