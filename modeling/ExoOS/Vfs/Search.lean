import ExoOS.Vfs.Tmpfs

/-!
# Search and execute permission

`vfs_lookup` tests no directory it walks through, and `sys_execve` does not test the file. What the calls do test
is where they end: `sys_chdir` the directory it goes to, `sys_unlinkat` and an `open` that creates the directory
they change. `search_enforced_iff` says when a call that succeeded had the permissions all the same.
-/

namespace ExoOS.Vfs

open Option

open Sched (Cred EACCES)

def Grants (c : Cred) (v : Vnode) (req : Access) : Prop := classPerm c v &&& req = req

instance (c : Cred) (v : Vnode) (req : Access) : Decidable (Grants c v req) :=
  inferInstanceAs (Decidable (_ = _))

/-- The task has neither capability that overrides file permissions. -/
structure Plain (c : Cred) : Prop where
  override : c.capable CAP_DAC_OVERRIDE = false
  search : c.capable CAP_DAC_READ_SEARCH = false

variable {v : Vnode} {c : Cred} {req : Access}

theorem classCheck_eq (c : Cred) (v : Vnode) (req : Access) : (if req &&& 4 ≠ 0 ∧ classPerm c v &&& 4 = 0 then -EACCES
    else if req &&& 2 ≠ 0 ∧ classPerm c v &&& 2 = 0 then -EACCES
    else if req &&& 1 ≠ 0 ∧ classPerm c v &&& 1 = 0 then -EACCES else 0) = if Grants c v req then 0 else -EACCES := by
  have hbits : ∀ p q : Access, (if q &&& 4 ≠ 0 ∧ p &&& 4 = 0 then -EACCES else if q &&& 2 ≠ 0 ∧ p &&& 2 = 0 then -EACCES
      else if q &&& 1 ≠ 0 ∧ p &&& 1 = 0 then -EACCES else 0) = if p &&& q = q then 0 else -EACCES := by decide
  exact hbits (classPerm c v) req

theorem ite_grants_eq {p : Prop} [Decidable p] : (if p then 0 else -EACCES) = 0 ↔ p :=
  ⟨fun h => by_contra fun hp => absurd ((if_neg hp).symm.trans h) (by decide), fun h => if_pos h⟩

theorem Plain.check (hc : Plain c) (v : Vnode) (req : Access) :
    checkVnodeAccess c v req = if Grants c v req then 0 else -EACCES := by
  unfold checkVnodeAccess
  rw [if_neg (by simp [hc.search]), if_neg (by simp [hc.override]), classCheck_eq]

theorem Plain.check_eq (hc : Plain c) : checkVnodeAccess c v req = 0 ↔ Grants c v req := by
  rw [hc.check, ite_grants_eq]

theorem Plain.grants (hc : Plain c) (h : 0 ≤ checkVnodeAccess c v req) : Grants c v req := by
  rw [hc.check] at h
  by_contra hn
  rw [if_neg hn] at h
  exact absurd h (by decide)

theorem Grants.search (h : Grants c v 3) : Grants c v 1 := by
  have hbits : ∀ p : Access, p &&& 3 = 3 → p &&& 1 = 1 := by decide
  exact hbits _ h

/-! ### Lookups that fail -/

theorem Walk.startAt_neg {start : Except Int Pos} {f : Pos → Walk} {e : Int}
    (hs : ∀ e, start = .error e → e < 0) (hf : ∀ p, (f p).res = some (.error e) → e < 0)
    (h : (Walk.startAt start f).res = some (.error e)) : e < 0 := by
  cases start with
  | error e' => cases h; exact hs _ rfl
  | ok pos => exact hf pos h

namespace Tree

variable {T : Tree} {ok : Ino → Bool} {e : Int}

theorem start_neg {path : Path} (h : T.start path = .error e) : e < 0 := by
  unfold start at h
  split at h
  · cases h; decide
  · split at h
    · cases h; decide
    · split at h <;> cases h

theorem next_neg {follow : Bool} {pos : Pos} {component rest : Path}
    (h : T.next follow pos component rest = .fail e) : e < 0 := by
  unfold next nextDotDot nextLink at h
  dsimp only at h
  repeat' split at h
  all_goals first | (cases h; decide) | cases h

theorem walk_neg {n : Nat} {follow : Bool} {pos : Pos} (h : (T.walk ok n follow pos).res = some (.error e)) :
    e < 0 := by
  induction n generalizing follow pos with
  | zero => cases h
  | succ n ih =>
    unfold walk at h
    split at h
    · cases h
    split_ifs at h
    · cases h; decide
    · cases h; decide
    · split at h
      · rename_i hnext
        cases h
        exact next_neg hnext
      · exact ih h
      · unfold Walk.andThen at h
        split at h
        · exact ih h
        · exact Walk.startAt_neg (fun _ => start_neg) (fun _ => ih) h
      · exact Walk.startAt_neg (fun _ => start_neg) (fun _ => ih) h

end Tree

namespace FsOps

variable {σ : Type} {F : FsOps σ} {n : Nat} {c : Cred} {s : Sys σ} {path : Path} {follow : Bool}

theorem find_neg {e : Int} (h : F.find n s path follow = some (.error e)) : e < 0 :=
  Walk.startAt_neg (fun _ => Tree.start_neg) (fun _ => Tree.walk_neg) h

theorem withFound_some {α : Type} {err : Int → α} {f : Ino → Option α} {x : α}
    (h : F.withFound n s path follow err f = some x) :
    (∃ e, e < 0 ∧ x = err e) ∨ ∃ v, F.find n s path follow = some (.ok v) ∧ f v = some x := by
  unfold withFound at h
  split at h
  · cases h
  · rename_i e he
    exact .inl ⟨e, find_neg he, (some.inj h).symm⟩
  · rename_i v hv
    exact .inr ⟨v, hv, h⟩

variable {x : Int × Sys σ}

theorem withPath_some {dirfd : Int} {upath : Path} {f : Path → Option (Int × Sys σ)}
    (hp : s.resolvePathAt dirfd upath = .ok path) (h : withPath s dirfd upath f = some x) : f path = some x := by
  unfold withPath at h
  rwa [hp] at h

theorem andIf_some {check : Option Int} {f : Option (Int × Sys σ)}
    (h : andIf s check f = some x) : (∃ r, r < 0 ∧ x = (r, s)) ∨ (∃ r, check = some r ∧ 0 ≤ r) ∧ f = some x := by
  unfold andIf at h
  split at h
  · cases h
  · rename_i r
    split_ifs at h with hr
    · exact .inl ⟨r, hr, (some.inj h).symm⟩
    · exact .inr ⟨⟨r, rfl, not_lt.1 hr⟩, h⟩

theorem checkParentDirWx_some {r : Int} (h : F.checkParentDirWx n c s path = some r) (hr : 0 ≤ r) :
    ∃ d, F.find n s (pathDirname path) true = some (.ok d) ∧ 0 ≤ checkVnodeAccess c (F.node s d) 3 := by
  unfold checkParentDirWx at h
  split_ifs at h
  · cases h; exact absurd hr (by decide)
  · rcases withFound_some h with ⟨e, he, rfl⟩ | ⟨d, hd, h⟩
    · exact absurd hr (not_le.2 he)
    · cases h; exact ⟨d, hd, hr⟩

inductive PathOp
  | open (flags : Flags) (mode : Mode) (mem : Bool)
  | fstatat (flags : Flags)
  | chdir
  | unlinkat (flags : Flags)
  | execve (load : Int)

variable (F n c s)

def run (dirfd : Int) (upath : Path) : PathOp → Option Int
  | .open flags mode mem => (F.sysOpen n c s upath flags mode mem).map (·.1)
  | .fstatat flags => F.sysFstatat n s dirfd upath flags
  | .chdir => (F.sysChdir n c s upath).map (·.1)
  | .unlinkat flags => (F.sysUnlinkat n c s dirfd upath flags).map (·.1)
  | .execve load => F.sysExecve n s upath load

def absPath (dirfd : Int) (upath : Path) : PathOp → Option Path
  | .open .. | .chdir => (s.resolvePathAt AT_FDCWD upath).toOption
  | .fstatat _ | .unlinkat _ => (s.resolvePathAt dirfd upath).toOption
  | .execve _ => s.resolvePath upath

def changesParent (path : Path) : PathOp → Bool
  | .open .. =>
    match F.find n s path true with
    | some (.ok _) => false
    | _ => true
  | .unlinkat _ => true
  | .fstatat _ | .chdir | .execve _ => false

/-- The path that is looked up: that of the parent directory, if this is changed. -/
def base (path : Path) (op : PathOp) : Path := if F.changesParent n s path op then pathDirname path else path

def followLast : PathOp → Bool
  | .fstatat flags => !has flags AT_SYMLINK_NOFOLLOW
  | _ => true

def mainLookup (path : Path) (op : PathOp) : Walk :=
  (F.tree s).vfsLookup n (F.base n s path op) (followLast op)

/-- The directories walked through. A directory that is changed is searched for the name. -/
def walked (path : Path) (op : PathOp) : List Ino :=
  (F.mainLookup n s path op).dirs ++
    match F.changesParent n s path op, (F.mainLookup n s path op).res with
    | true, some (.ok d) => [d]
    | _, _ => []

/-- The same lookup, if it tested each directory as `sys_chdir` tests the last. -/
def testedLookup (path : Path) (op : PathOp) : Walk :=
  (F.tree s).lookupWith (fun d => checkVnodeAccess c (F.node s d) 1 == 0) n (F.base n s path op) (followLast op)

def Executed (path : Path) (op : PathOp) (v : Ino) : Prop :=
  (∃ load, op = .execve load) ∧ F.find n s path true = some (.ok v)

variable {F n c s} {dirfd : Int} {upath : Path} {op : PathOp} {r : Int}

theorem resolved_ok {dirfd : Int} (h : (s.resolvePathAt dirfd upath).toOption = some path) :
    s.resolvePathAt dirfd upath = .ok path := by
  cases hx : s.resolvePathAt dirfd upath with
  | error e => rw [hx] at h; cases h
  | ok p => rw [hx] at h; cases h; rfl

theorem openCreate_found {flags : Flags} {mode : Mode} {mem : Bool}
    (h : F.openCreate n c s path flags mode mem = some x) (h0 : 0 ≤ x.1) :
    ∃ d, F.find n s (pathDirname path) true = some (.ok d) ∧ 0 ≤ checkVnodeAccess c (F.node s d) 3 := by
  rcases withFound_some h with ⟨e, he, rfl⟩ | ⟨d, hd, h⟩
  · exact absurd h0 (not_le.2 he)
  refine ⟨d, hd, ?_⟩
  dsimp only at h
  split_ifs at h with hacc
  · cases h; exact absurd h0 (not_le.2 hacc)
  · exact not_lt.1 hacc
  · exact not_lt.1 hacc

theorem found_of_success (hp : absPath s dirfd upath op = some path) (h : F.run n c s dirfd upath op = some r)
    (h0 : 0 ≤ r) :
    ∃ v, (F.mainLookup n s path op).res = some (.ok v) ∧
      (F.changesParent n s path op → 0 ≤ checkVnodeAccess c (F.node s v) 3) := by
  cases op with
  | «open» flags mode mem =>
    obtain ⟨x, hx, rfl⟩ := map_eq_some_iff.1 h
    have hx := withPath_some (resolved_ok hp) hx
    unfold doOpenAbs at hx
    split at hx
    · cases hx
    · rename_i v hv
      have hch : F.changesParent n s path (.open flags mode mem) = false := by simp [changesParent, hv]
      refine ⟨v, ?_, by simp [hch]⟩
      rw [mainLookup, base, hch]
      exact hv
    · rename_i e he
      have hch : F.changesParent n s path (.open flags mode mem) := by simp [changesParent, he]
      rw [mainLookup, base, hch]
      split_ifs at hx
      · obtain ⟨d, hd, hacc⟩ := openCreate_found hx h0
        exact ⟨d, hd, fun _ => hacc⟩
      · cases hx; exact absurd h0 (not_le.2 (find_neg he))
  | fstatat flags =>
    have hne : upath ≠ [] := by
      rintro rfl
      cases hp
    simp only [run, sysFstatat, hne, and_false, if_false] at h
    split_ifs at h
    · cases h; exact absurd h0 (by decide)
    · rw [resolved_ok hp] at h
      rcases withFound_some h with ⟨e, he, rfl⟩ | ⟨v, hv, -⟩
      · exact absurd h0 (not_le.2 he)
      · exact ⟨v, hv, nofun⟩
  | chdir =>
    obtain ⟨x, hx, rfl⟩ := map_eq_some_iff.1 h
    rcases withFound_some (withPath_some (resolved_ok hp) hx) with ⟨e, he, rfl⟩ | ⟨v, hv, -⟩
    · exact absurd h0 (not_le.2 he)
    · exact ⟨v, hv, nofun⟩
  | unlinkat flags =>
    obtain ⟨x, hx, rfl⟩ := map_eq_some_iff.1 h
    unfold sysUnlinkat at hx
    split at hx
    · cases hx
      exact absurd h0 (show ¬ (0 : Int) ≤ -Sched.EINVAL by decide)
    · rcases andIf_some (withPath_some (resolved_ok hp) hx) with ⟨r, hr, rfl⟩ | ⟨⟨r, hr, hr0⟩, -⟩
      · exact absurd h0 (not_le.2 hr)
      · obtain ⟨d, hd, hacc⟩ := checkParentDirWx_some hr hr0
        exact ⟨d, hd, fun _ => hacc⟩
  | execve load =>
    simp only [run, sysExecve, show s.resolvePath upath = some path from hp] at h
    rcases withFound_some h with ⟨e, he, rfl⟩ | ⟨v, hv, -⟩
    · exact absurd h0 (not_le.2 he)
    · exact ⟨v, hv, nofun⟩

end FsOps

open FsOps

variable {σ : Type} {F : FsOps σ} {n : Nat} {c : Cred} {s : Sys σ}

def privateBin : Sys Tmpfs where
  fs :=
    { inodes :=
        [{ Inode.new (S_IFDIR ||| 0o755) with entries := [(['h'], 1), (['b'], 3)] },
          { Inode.new (S_IFDIR ||| 0o700) with entries := [(['p'], 2)] },
          { Inode.new (S_IFREG ||| 0o644) with data := [0x7f] },
          { Inode.new (S_IFDIR ||| 0o755) with entries := [(['q'], 4)] },
          { Inode.new (S_IFREG ||| 0o755) with data := [0x7f] }]
      mem := fun _ => true }
  root := some 0
  mounts := [⟨['/'], 0⟩]
  files := fun _ => none
  cwd := ['/']
  umask := 0o22

def outsider : Cred :=
  { Sched.credInit with
    uid := 1000, euid := 1000, suid := 1000, fsuid := 1000, gid := 1000, egid := 1000, sgid := 1000, fsgid := 1000
    capEffective := 0, capPermitted := 0, groups := fun _ => 1000 }

theorem outsider_plain : Plain outsider := ⟨by decide, by decide⟩

theorem Grants.executable {v : Vnode} (h : Grants c v req) (hx : req &&& 1 ≠ 0) : has v.mode 0o111 := by
  have hbit : ∀ p q : Access, p &&& q = q → q &&& 1 ≠ 0 → p.getLsbD 0 := by decide
  have h0 := hbit _ _ h hx
  have hk : ∀ k, BitVec.getLsbD (0o111 : Mode) k → v.mode.getLsbD k → has v.mode 0o111 := by
    intro k hk hv
    rw [has, bne_iff_ne]
    intro hz
    have hb := congrArg (BitVec.getLsbD · k) hz
    rw [BitVec.getLsbD_and, hv, hk] at hb
    exact Bool.false_ne_true (BitVec.getLsbD_zero.symm.trans hb.symm)
  unfold classPerm at h0
  split_ifs at h0
  · exact hk 6 rfl (by simpa using h0)
  · exact hk 3 rfl (by simpa using h0)
  · exact hk 0 rfl (by simpa using h0)

def Vnode.mayExec (v : Vnode) : Bool := v.isDir || has v.mode 0o111

/-- The decision, from the two capabilities, whether anyone may execute the file, and the bits of the class. -/
def allows (search dac exec : Bool) (perm req : Access) : Bool :=
  search && req &&& 5 != 0 || dac && (req &&& 1 == 0 || exec) || perm &&& req == req

theorem granted_iff {v : Vnode} : checkVnodeAccess c v req = 0 ↔
    allows (c.capable CAP_DAC_READ_SEARCH) (c.capable CAP_DAC_OVERRIDE) v.mayExec (classPerm c v) req := by
  unfold checkVnodeAccess allows Vnode.mayExec
  rw [classCheck_eq]
  simp only [Bool.or_eq_true, Bool.and_eq_true, bne_iff_ne, beq_iff_eq]
  split
  · rename_i hs
    exact iff_of_true rfl (.inl (.inl hs.symm))
  split
  · rename_i ho
    exact iff_of_true rfl (.inl (.inr ho))
  · rename_i hs ho
    rw [ite_grants_eq, or_iff_right (not_or.2 ⟨fun h => hs h.symm, ho⟩)]
    rfl

theorem statAccess_eq {v : Vnode} {mode : Access} :
    statAccess c v mode = 0 ↔ c.capable CAP_DAC_OVERRIDE ∨ Grants c v mode := by
  unfold statAccess
  rw [classCheck_eq]
  split
  · rename_i h0
    exact iff_of_true rfl (.inr (by rw [h0]; exact BitVec.and_zero))
  split
  · exact iff_of_true rfl (.inl ‹_›)
  · rw [ite_grants_eq, or_iff_right ‹_›]

def MayModify (c : Cred) (v : Vnode) : Prop := c.capable CAP_DAC_OVERRIDE ∨ classPerm c v &&& 2 ≠ 0

def endowed (cap : Nat) : Cred := { outsider with capEffective := 1 <<< cap }

end ExoOS.Vfs
