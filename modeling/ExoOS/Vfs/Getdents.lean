import ExoOS.Vfs.Lookup

/-!
# Reading a directory

`sys_getdents64` over the `readdir` of a directory that does not change. `readdir` moves the cookie on before the call
finds out that the record does not fit, so that entry is never returned; where every entry that is read fits, the calls
return the entries in order (`getdents_exact`).
-/

namespace ExoOS.Vfs

open List Transition

open Sched (EINVAL)

/-- `vfs_dirent_t`; `name` has room for `VFS_NAME_MAX` characters and the terminator. -/
structure Dirent where
  ino : Nat
  name : Path
  type : Nat
  short : name.length ≤ VFS_NAME_MAX

/-- What `readdir` does at a cookie, and the cookie it leaves: `ext2_readdir` moves it over holes also before the
end. -/
inductive Readdir
  | eof (cookie : Nat)
  | error (e : Int) (cookie : Nat)
  | entry (de : Dirent) (cookie : Nat)

/-- A directory that does not change: where it ends, it ends again. -/
structure Directory where
  readdir : Nat → Readdir
  last : ∀ {c c' : Nat}, readdir c = .eof c' → readdir c' = .eof c'

/-- `sizeof(linux_dirent64_t)`, which is where the name begins. -/
def DIRENT64_SIZE : Nat := 19

def Dirent.reclen (de : Dirent) : Nat := (DIRENT64_SIZE + de.name.length + 1 + 7) / 8 * 8

/-- A record at `pos` of a buffer of `count` bytes; `off` is `d_off`. -/
structure Record where
  entry : Dirent
  off : Nat
  pos : Nat
  count : Nat

/-- Why the loop ends: the buffer is full, the directory ends, `readdir` fails, or a record does not fit. -/
inductive Stop
  | full
  | eof
  | error (e : Int)
  | dropped

structure Filled where
  records : List Record
  offset : Nat
  written : Nat
  stop : Stop

def fill (dir : Nat → Readdir) (count written offset : Nat) : Filled :=
  if written + DIRENT64_SIZE + 2 ≤ count then
    match dir offset with
    | .eof c => ⟨[], c, written, .eof⟩
    | .error e c => ⟨[], c, written, .error e⟩
    | .entry de next =>
      if count < written + de.reclen then ⟨[], next, written, .dropped⟩
      else
        let r := fill dir count (written + de.reclen) next
        { r with records := ⟨de, next, written, count⟩ :: r.records }
  else ⟨[], offset, written, .full⟩
termination_by count - written
decreasing_by
  unfold DIRENT64_SIZE Dirent.reclen at *
  omega

/-- `access`: what `check_vnode_access` says. -/
structure OpenDir where
  isDir : Bool
  readdir : Option Directory
  access : Int

/-- The descriptor: its offset, what the calls returned so far, and what the last one returned. -/
structure DirStream where
  offset : Nat
  got : List Record
  ret : Option Int

def sysGetdents64 (f : Option OpenDir) (dirp : Bool) (count : Nat) (s : DirStream) : DirStream :=
  if !dirp || count < DIRENT64_SIZE + 2 then { s with ret := some (-EINVAL) }
  else
    match f with
    | none => { s with ret := some (-EBADF) }
    | some f =>
      if !f.isDir then { s with ret := some (-ENOTDIR) }
      else
        match f.readdir with
        | none => { s with ret := some (-EINVAL) }
        | some dir =>
          if f.access < 0 then { s with ret := some f.access }
          else
            let r := fill dir.readdir count 0 s.offset
            match r.stop with
            | .error e => { s with offset := r.offset, ret := some e }
            | _ => ⟨r.offset, s.got ++ r.records, some r.written⟩

/-- Calls until one returns 0. -/
def dirStep (f : Option OpenDir) (s : DirStream) (e : Bool × Nat) : Option DirStream :=
  if s.ret = some 0 then none else some (sysGetdents64 f e.1 e.2 s)

/-- `readdir` gives the entries one after the other. -/
inductive Reads (dir : Nat → Readdir) : Nat → List Dirent → Nat → Prop
  | nil (c : Nat) : Reads dir c [] c
  | cons {c c' c'' : Nat} {de : Dirent} {l : List Dirent} (hd : dir c = .entry de c') (h : Reads dir c' l c'') :
    Reads dir c (de :: l) c''

/-- The bytes of the records of the entries. -/
def reclens (l : List Dirent) : Nat := (l.map Dirent.reclen).sum

/-- After the entries that leave room for another record, `readdir` does not fail and the entry it gives fits. -/
def FitsFrom (dir : Nat → Readdir) (count written offset : Nat) : Prop :=
  ∀ l c, Reads dir offset l c → written + reclens l + DIRENT64_SIZE + 2 ≤ count →
    (∀ e c', dir c ≠ .error e c') ∧ ∀ de c', dir c = .entry de c' → written + reclens l + de.reclen ≤ count

def Fits (dir : Directory) (s : DirStream) (e : Bool × Nat) : Prop := FitsFrom dir.readdir e.2 0 s.offset

/-- From cookie `a` on the directory has the entries `l`, and `b` stands after them or at its end. -/
def Directory.Gives (dir : Directory) (a : Nat) (l : List Dirent) (b : Nat) : Prop :=
  ∃ c, Reads dir.readdir a l c ∧ (c = b ∨ dir.readdir c = .eof b)

variable {dir : Directory} {count written offset : Nat}

theorem Reads.append {dir : Nat → Readdir} {a b c : Nat} {l l' : List Dirent} (h : Reads dir a l b)
    (h' : Reads dir b l' c) : Reads dir a (l ++ l') c := by
  induction h with
  | nil => exact h'
  | cons hd _ ih => exact .cons hd (ih h')

theorem Reads.of_eof {dir : Nat → Readdir} {a b c : Nat} {l : List Dirent} (h : Reads dir a l b) (hd : dir a = .eof c) :
    l = [] ∧ b = a := by
  cases h with
  | nil => exact ⟨rfl, rfl⟩
  | cons hd' => cases hd.symm.trans hd'

theorem Directory.Gives.append {a b c : Nat} {l l' : List Dirent} (h : dir.Gives a l b) (h' : dir.Gives b l' c) :
    dir.Gives a (l ++ l') c := by
  obtain ⟨d, hd, rfl | hb⟩ := h
  · obtain ⟨d', hd', hc⟩ := h'
    exact ⟨d', hd.append hd', hc⟩
  · obtain ⟨d', hd', hc⟩ := h'
    -- the directory ended at `d`, so the second part is empty
    have hbb := dir.last hb
    obtain ⟨rfl, rfl⟩ := hd'.of_eof hbb
    refine ⟨d, by rwa [append_nil], .inr ?_⟩
    rcases hc with rfl | hc
    · exact hb
    · cases hbb.symm.trans hc
      exact hb

theorem FitsFrom.next {dir : Nat → Readdir} {de : Dirent} {next : Nat} (h : FitsFrom dir count written offset)
    (hd : dir offset = .entry de next) : FitsFrom dir count (written + de.reclen) next := by
  intro l c hl hroom
  have hlens : written + reclens (de :: l) = written + de.reclen + reclens l := by
    unfold reclens
    rw [map_cons, sum_cons, Nat.add_assoc]
  rw [← hlens] at hroom ⊢
  exact h _ _ (.cons hd hl) hroom

/-- The loop, when all entries fit: the records are what `readdir` gives, they lie in the buffer, and only at the end of
the directory there are none. -/
theorem fill_spec (h : FitsFrom dir.readdir count written offset) :
    let r := fill dir.readdir count written offset
    (∀ e, r.stop ≠ .error e) ∧
      dir.Gives offset (r.records.map (·.entry)) r.offset ∧
      (∀ r' ∈ r.records, r'.pos + r'.entry.reclen ≤ r'.count) ∧ written ≤ r.written ∧
      (written + DIRENT64_SIZE + 2 ≤ count → r.written = written → dir.readdir r.offset = .eof r.offset) := by
  fun_induction fill dir.readdir count written offset with
  | case1 written offset hroom c hd =>
    exact ⟨nofun, ⟨offset, .nil _, .inr hd⟩, nofun, le_rfl, fun _ _ => dir.last hd⟩
  | case2 written offset hroom e c hd => exact absurd hd ((h [] offset (.nil _) hroom).1 e c)
  | case3 written offset hroom de next hd hfit =>
    exact absurd ((h [] offset (.nil _) hroom).2 de next hd) (Nat.not_le.2 hfit)
  | case4 written offset hroom de next hd hfit r ih =>
    obtain ⟨h0, ⟨c, h1, hc⟩, h2, h3, -⟩ := ih (h.next hd)
    have hpos : 0 < de.reclen := by
      unfold Dirent.reclen DIRENT64_SIZE
      omega
    have hlt : written < r.written := (Nat.lt_add_of_pos_right hpos).trans_le h3
    exact ⟨h0, ⟨c, .cons hd h1, hc⟩, forall_mem_cons.2 ⟨Nat.le_of_not_lt hfit, h2⟩, hlt.le,
      fun _ h4 => absurd h4 hlt.ne'⟩
  | case5 written offset hroom => exact ⟨nofun, ⟨offset, .nil _, .inl rfl⟩, nofun, le_rfl, fun h4 => absurd h4 hroom⟩

/-- What the calls have returned are the entries from cookie 0 on, each in the buffer it was written to, and 0 is
returned at the end. -/
structure Exact (dir : Directory) (s : DirStream) : Prop where
  gives : dir.Gives 0 (s.got.map (·.entry)) s.offset
  inside : ∀ r ∈ s.got, DIRENT64_SIZE + r.entry.name.length + 1 ≤ r.entry.reclen ∧ r.pos + r.entry.reclen ≤ r.count
  ends : s.ret = some 0 → dir.readdir s.offset = .eof s.offset

theorem Exact.getdents {f : OpenDir} {s : DirStream} {e : Bool × Nat} (h : Exact dir s) (hd : f.readdir = some dir)
    (hf : Fits dir s e) : Exact dir (sysGetdents64 (some f) e.1 e.2 s) := by
  have herr : ∀ r : Int, r ≠ 0 → Exact dir { s with ret := some r } := fun r hr =>
    { h with ends := fun h0 => absurd (Option.some.inj h0) hr }
  unfold sysGetdents64
  split
  · exact herr _ (by decide)
  rename_i hcount
  dsimp only
  split
  · exact herr _ (by decide)
  rw [hd]
  dsimp only
  split
  · exact herr _ (by omega)
  obtain ⟨h0, h1, h2, -, h3⟩ := fill_spec hf
  split
  · rename_i e he
    exact absurd he (h0 e)
  · refine ⟨?_, fun r hr => ?_, fun h0 => h3 ?_ (by exact_mod_cast Option.some.inj h0)⟩
    · rw [map_append]
      exact h.gives.append h1
    · rcases mem_append.1 hr with hr | hr
      · exact h.inside r hr
      · refine ⟨?_, h2 r hr⟩
        unfold Dirent.reclen
        omega
    · simp at hcount
      omega

theorem getdents_exact {f : OpenDir} (hd : f.readdir = some dir) {es : List (Bool × Nat)} {s : DirStream}
    (h : Run (dirStep (some f)) (Fits dir) ⟨0, [], none⟩ es s) : Exact dir s := by
  refine h.inv (fun s e s' hI hf hs => ?_) ⟨⟨0, .nil 0, .inl rfl⟩, nofun, nofun⟩
  obtain ⟨-, ⟨⟩⟩ := Option.ite_none_left_eq_some.1 hs
  exact hI.getdents hd hf

def entryA : Dirent := ⟨5, ['a'], 8, by decide⟩
def entryB : Dirent := ⟨6, ['b'], 4, by decide⟩

/-- Two entries and a hole before the end. -/
def twoEntries : Directory where
  readdir
    | 0 => .entry entryA 1
    | 1 => .entry entryB 2
    | _ => .eof 3
  last {c c'} h := by
    match c with
    | 0 | 1 => cases h
    | _ + 2 =>
      cases h
      rfl

def twoEntriesDir : OpenDir := ⟨true, some twoEntries, 0⟩

theorem twoEntries_fits (offset : Nat) : FitsFrom twoEntries.readdir 40 0 offset := by
  intro l c hl hroom
  cases hl with
  | nil =>
    match offset with
    | 0 | 1 =>
      refine ⟨nofun, fun de c' h => ?_⟩
      cases h
      decide
    | _ + 2 => exact ⟨nofun, nofun⟩
  | cons =>
    -- a record has 24 bytes, and 21 more do not fit
    simp only [reclens, map_cons, sum_cons, Dirent.reclen, DIRENT64_SIZE] at hroom
    omega

theorem getdents_exact_two : Run (dirStep (some twoEntriesDir)) (Fits twoEntries) ⟨0, [], none⟩
      [(true, 40), (true, 40), (true, 40)] ⟨3, [⟨entryA, 1, 0, 40⟩, ⟨entryB, 2, 0, 40⟩], some 0⟩ ∧
    Exact twoEntries ⟨3, [⟨entryA, 1, 0, 40⟩, ⟨entryB, 2, 0, 40⟩], some 0⟩ := by
  have step {s : DirStream} (h : s.ret ≠ some 0) : dirStep (some twoEntriesDir) s (true, 40) =
      some (sysGetdents64 (some twoEntriesDir) true 40 s) := if_neg h
  have hrun : Run (dirStep (some twoEntriesDir)) (Fits twoEntries) ⟨0, [], none⟩
      [(true, 40), (true, 40), (true, 40)] ⟨3, [⟨entryA, 1, 0, 40⟩, ⟨entryB, 2, 0, 40⟩], some 0⟩ := by
    refine .cons (twoEntries_fits _) (step nofun) (.cons (twoEntries_fits _) (step ?_)
      (.cons (twoEntries_fits _) ((step ?_).trans ?_) (.nil _)))
    all_goals simp [sysGetdents64, twoEntriesDir, fill, twoEntries, Dirent.reclen, DIRENT64_SIZE, entryA, entryB]
  exact ⟨hrun, getdents_exact rfl hrun⟩

/-- A buffer of 21 bytes is accepted: the call returns 0 at once, and the entry is skipped. -/
theorem getdents_skips : ∃ s, Run (dirStep (some twoEntriesDir)) Any ⟨0, [], none⟩ [(true, 21)] s ∧ s.ret = some 0 ∧
    s.got = [] ∧ s.offset = 1 ∧ twoEntries.readdir 0 = .entry entryA 1 := by
  refine ⟨⟨1, [], some 0⟩, .cons trivial ?_ (.nil _), rfl, rfl, rfl, rfl⟩
  simp [dirStep, sysGetdents64, twoEntriesDir, fill, twoEntries, Dirent.reclen, DIRENT64_SIZE, entryA]

end ExoOS.Vfs
