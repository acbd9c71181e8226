import ExoOS.Mm.Paging

/-!
# Pages shared copy on write

The invariant of a set of processes that come from each other by `fork` and have no shared mappings: the
count of a mapped page is the number of entries that map it (`Isolated.mapped`), and a writable entry is
the only one for its page (`Isolated.solo`). `value` is what a process would read at an address, whether
the page is present or still to be brought in; an access that faults keeps it.
-/

namespace ExoOS.Mm

open Finset

variable {ι : Type} [Fintype ι] {s s' : Memory ι} {i j : ι} {a p : Nat}

def Memory.mapRefs (s : Memory ι) (p : Nat) : Nat := ∑ i, halfRefs (s.procs i).user p

def Memory.filePage (s : Memory ι) (vn offset : Nat) : Page :=
  match s.cache.find? fun e => e.IsFor vn offset with
  | some e => s.data e.physPage
  | none => s.content vn offset

def Memory.demandPageOf (s : Memory ι) (v : Vma) (page : Nat) : Page :=
  match v.flags.file, v.file with
  | true, some vn =>
    let within := (page + 2 ^ 64 - v.start) % 2 ^ 64
    if within < v.fileSize then s.filePage vn (pageAlign ((v.fileOffset + within) % 2 ^ 64)) else fun _ => 0
  | _, _ => fun _ => 0

def Vma.fileAt (v : Vma) (page : Nat) : Option (Nat × Nat) :=
  match v.flags.file, v.file with
  | true, some vn =>
    let within := (page + 2 ^ 64 - v.start) % 2 ^ 64
    if within < v.fileSize then some (vn, pageAlign ((v.fileOffset + within) % 2 ^ 64)) else none
  | _, _ => none

omit [Fintype ι] in
theorem Memory.demandPageOf_eq (s : Memory ι) (v : Vma) (page : Nat) :
    s.demandPageOf v page = (v.fileAt page).elim (fun _ => 0) fun k => s.filePage k.1 k.2 := by
  unfold Memory.demandPageOf Vma.fileAt
  split
  · dsimp only
    split <;> rfl
  · rfl

/-- What process `i` reads at `a`, if the page is there or can be brought in. -/
def Memory.value (s : Memory ι) (i : ι) (a : Nat) : Option Byte :=
  if (s.uview i (loc a)).present then some (s.data (s.uview i (loc a)).pfn (a % PAGE_SIZE))
  else (vmaFindForAddr (s.procs i).vmas a).map fun v => s.demandPageOf v (pageAlign a) (a % PAGE_SIZE)

/-- An area is page aligned, and not a shared file mapping. -/
def Vma.Private (v : Vma) : Prop :=
  v.start % PAGE_SIZE = 0 ∧ v.stop % PAGE_SIZE = 0 ∧ ¬ (v.flags.file ∧ v.file.isSome ∧ v.flags.shared)

def Vma.Aligned (v : Vma) : Prop := v.start % PAGE_SIZE = 0 ∧ v.stop % PAGE_SIZE = 0

theorem Vma.Private.aligned {v : Vma} (h : v.Private) : v.Aligned := ⟨h.1, h.2.1⟩

/-- The pages of the page cache are in use, not mapped, and their counts do not overflow. -/
def CacheOk (s : Memory ι) : Prop :=
  ∀ e ∈ s.cache, e.physPage < s.pmm.bitmapPages ∧ s.pmm.bitmap e.physPage = true ∧
    s.mapRefs e.physPage = 0 ∧ 0 < s.pmm.pageRefs e.physPage ∧ s.pmm.pageRefs e.physPage + 1 < 2 ^ 32

structure Isolated (s : Memory ι) : Prop where
  mapped : ∀ p, 0 < s.mapRefs p → p < s.pmm.bitmapPages ∧ s.pmm.bitmap p = true ∧
    s.pmm.pageRefs p = s.mapRefs p
  solo : ∀ i l, (s.uview i l).present → (s.uview i l).write → s.mapRefs (s.uview i l).pfn = 1
  cached : CacheOk s
  areas : ∀ i, ∀ v ∈ (s.procs i).vmas, v.Private

theorem mapRefs_pos {l : Loc} (hp : (s.uview i l).present) : 0 < s.mapRefs (s.uview i l).pfn :=
  (halfRefs_pos hp).trans_le (Table.le_sum_univ (fun t : Proc => halfRefs t.user (s.uview i l).pfn) s.procs i)

/-- One entry of process `i` changes, to `e`. -/
structure Replaced (s : Memory ι) (i : ι) (l : Loc) (e : Pte) (s' : Memory ι) : Prop where
  self : s'.uview i = Function.update (s.uview i) l e
  other : ∀ j, j ≠ i → s'.uview j = s.uview j
  same : SameAreas s s'

theorem mapRefs_replaced [DecidableEq ι] {l : Loc} {e : Pte} (h : Replaced s i l e s') (p : Nat) :
    s'.mapRefs p + (s.uview i l).refs p = s.mapRefs p + e.refs p := by
  have hj : ∀ j, j ≠ i → halfRefs (s'.procs j).user p = halfRefs (s.procs j).user p := by
    intro j hj
    unfold halfRefs
    rw [show view (s'.procs j).user = view (s.procs j).user from h.other j hj]
  have h1 : halfRefs (s'.procs i).user p + (s.uview i l).refs p = halfRefs (s.procs i).user p + e.refs p :=
    halfRefs_update h.self p
  unfold Memory.mapRefs
  rw [← add_sum_erase _ _ (mem_univ i), ← add_sum_erase _ (fun j => halfRefs (s.procs j).user p) (mem_univ i),
    sum_congr rfl fun j hj' => hj j (ne_of_mem_erase hj')]
  omega

theorem solo_unique [DecidableEq ι] {l l' : Loc} (hp : (s.uview i l).present) (h1 : s.mapRefs (s.uview i l).pfn = 1)
    (hp' : (s.uview j l').present) (he : (s.uview j l').pfn = (s.uview i l).pfn) : j = i ∧ l' = l := by
  by_contra hne
  -- without the first entry the page would still be mapped, by the second
  have hsum : ∀ q, s.mapRefs q = ∑ x : ι × Loc, (s.uview x.1 x.2).refs q := fun q => by
    unfold Memory.mapRefs halfRefs Memory.uview
    rw [Fintype.sum_prod_type]
  rw [hsum] at h1
  have hle : (s.uview i l).refs (s.uview i l).pfn + (s.uview j l').refs (s.uview i l).pfn ≤
      ∑ x : ι × Loc, (s.uview x.1 x.2).refs (s.uview i l).pfn := by
    rw [← sum_pair (f := fun x : ι × Loc => (s.uview x.1 x.2).refs (s.uview i l).pfn) (a := (i, l))
      (b := (j, l')) (by rintro h; cases h; exact hne ⟨rfl, rfl⟩)]
    exact sum_le_sum_of_subset (subset_univ _)
  rw [Pte.refs, if_pos ⟨hp, rfl⟩, Pte.refs, if_pos ⟨hp', he⟩] at hle
  omega

theorem Isolated.free (h : Isolated s) (hp : s.pmm.bitmap p = false) : s.mapRefs p = 0 := by
  by_contra hn
  rw [(h.mapped p (Nat.pos_of_ne_zero hn)).2.1] at hp
  cases hp

theorem Isolated.used (h : Isolated s) {l : Loc} (hp : (s.uview i l).present) : s.pmm.bitmap (s.uview i l).pfn :=
  (h.mapped _ (mapRefs_pos hp)).2.1

/-! ### Steps that no process sees -/

/-- Pages were taken and the page cache filled, but what the processes map and read is the same. -/
structure Quiet (s s' : Memory ι) : Prop where
  procs : s'.procs = s.procs
  wrote : s'.wrote = s.wrote
  pmm : Pmm.Keeps s.pmm s'.pmm
  data : ∀ p, s.pmm.bitmap p = true → s'.data p = s.data p
  filePage : ∀ vn offset, s'.filePage vn offset = s.filePage vn offset

namespace Quiet

omit [Fintype ι] in
theorem trans {s'' : Memory ι} (h : Quiet s s') (h' : Quiet s' s'') : Quiet s s'' where
  procs := h'.procs.trans h.procs
  wrote := h'.wrote.trans h.wrote
  pmm := h.pmm.trans h'.pmm
  data p hp := (h'.data p (h.pmm.used p hp)).trans (h.data p hp)
  filePage vn offset := (h'.filePage vn offset).trans (h.filePage vn offset)

theorem mapRefs (h : Quiet s s') (p : Nat) : s'.mapRefs p = s.mapRefs p := by
  unfold Memory.mapRefs; rw [h.procs]

omit [Fintype ι] in
theorem uview (h : Quiet s s') (i : ι) : s'.uview i = s.uview i := by
  unfold Memory.uview; rw [h.procs]

omit [Fintype ι] in
theorem demandPageOf (h : Quiet s s') (v : Vma) (page : Nat) : s'.demandPageOf v page = s.demandPageOf v page := by
  simp only [Memory.demandPageOf, h.filePage]

theorem isolated (h : Isolated s) (q : Quiet s s') (hc : CacheOk s') : Isolated s' := by
  refine ⟨fun p hp => ?_, fun i l h1 h2 => ?_, hc, fun i => by rw [q.procs]; exact h.areas i⟩
  · rw [q.mapRefs] at hp ⊢
    obtain ⟨h1, h2, h3⟩ := h.mapped p hp
    exact ⟨by rw [q.pmm.pages]; exact h1, q.pmm.used p h2, (q.pmm.refs p h2).trans h3⟩
  · rw [q.uview] at *
    rw [q.mapRefs]
    exact h.solo i l h1 h2

theorem value (h : Isolated s) (q : Quiet s s') (i : ι) (a : Nat) : s'.value i a = s.value i a := by
  unfold Memory.value
  rw [q.uview, q.procs]
  split
  · rename_i hp
    rw [q.data _ (h.used hp)]
  · simp only [q.demandPageOf]

end Quiet

/-- The entries at most changed their counts. -/
structure SameCache (c c' : List CacheEntry) : Prop where
  mem : ∀ e ∈ c', ∃ e₀ ∈ c, e₀.physPage = e.physPage
  find : ∀ vn offset, (c'.find? fun e => e.IsFor vn offset).map CacheEntry.physPage =
    (c.find? fun e => e.IsFor vn offset).map CacheEntry.physPage

namespace SameCache

variable {c c' c'' : List CacheEntry}

theorem refl (c : List CacheEntry) : SameCache c c := ⟨fun e he => ⟨e, he, rfl⟩, fun _ _ => rfl⟩

theorem trans (h : SameCache c c') (h' : SameCache c' c'') : SameCache c c'' := by
  refine ⟨fun e he => ?_, fun vn offset => (h'.find vn offset).trans (h.find vn offset)⟩
  obtain ⟨e₁, h1, e1⟩ := h'.mem e he
  obtain ⟨e₀, h0, e0⟩ := h.mem e₁ h1
  exact ⟨e₀, h0, e0.trans e1⟩

theorem count (c : List CacheEntry) (vn offset : Nat) (g : Nat → Nat) : SameCache c (cacheCount c vn offset g) := by
  refine ⟨fun e he => ?_, fun vn' offset' => ?_⟩
  · obtain ⟨e₀, h0, rfl⟩ := List.mem_map.1 he
    exact ⟨e₀, h0, by split <;> rfl⟩
  · have hp : ((fun e : CacheEntry => decide (e.IsFor vn' offset')) ∘ fun e =>
        if e.IsFor vn offset then { e with refcount := g e.refcount } else e) =
        fun e : CacheEntry => decide (e.IsFor vn' offset') := by
      funext e
      dsimp only [Function.comp]
      split <;> rfl
    unfold cacheCount
    rw [List.find?_map, Option.map_map, hp]
    congr 1
    funext e
    dsimp only [Function.comp]
    split <;> rfl

end SameCache

omit [Fintype ι] in
theorem filePage_eq (s : Memory ι) (vn offset : Nat) :
    s.filePage vn offset = (((s.cache.find? fun e => e.IsFor vn offset).map CacheEntry.physPage).map s.data).getD
        (s.content vn offset) := by
  unfold Memory.filePage
  split <;> simp [*]

omit [Fintype ι] in
theorem filePage_congr (hd : ∀ e ∈ s.cache, s'.data e.physPage = s.data e.physPage)
    (hcontent : s'.content = s.content) (hc : SameCache s.cache s'.cache) (vn offset : Nat) :
    s'.filePage vn offset = s.filePage vn offset := by
  rw [filePage_eq, filePage_eq, hc.find, hcontent]
  rcases hs : s.cache.find? (fun e => decide (e.IsFor vn offset)) with _ | e
  · rw [hs]; rfl
  · rw [hs]; exact hd e (List.mem_of_find?_eq_some hs)

theorem CacheOk.keeps (h : CacheOk s) (hm : ∀ p, s'.mapRefs p = s.mapRefs p)
    (hk : Pmm.Keeps s.pmm s'.pmm) (hc : ∀ e ∈ s'.cache, ∃ e₀ ∈ s.cache, e₀.physPage = e.physPage) :
    CacheOk s' := by
  intro e he
  obtain ⟨e₀, h0, h0e⟩ := hc e he
  rw [← h0e, hm, hk.pages]
  obtain ⟨h1, h2, h3, h4⟩ := h e₀ h0
  rw [hk.refs _ h2]
  exact ⟨h1, hk.used _ h2, h3, h4⟩

theorem Quiet.of_keeps (h : CacheOk s) (hprocs : s'.procs = s.procs) (hw : s'.wrote = s.wrote)
    (hcontent : s'.content = s.content) (hk : Pmm.Keeps s.pmm s'.pmm)
    (hd : ∀ p, s.pmm.bitmap p → s'.data p = s.data p) (hc : SameCache s.cache s'.cache) :
    Quiet s s' ∧ CacheOk s' := by
  have q : Quiet s s' := ⟨hprocs, hw, hk, hd, filePage_congr (fun e he => hd _ (h e he).2.1) hcontent hc⟩
  exact ⟨q, h.keeps q.mapRefs hk hc.mem⟩

theorem Quiet.refl (h : CacheOk s) : Quiet s s ∧ CacheOk s :=
  Quiet.of_keeps h rfl rfl rfl (.refl _) (fun _ _ => rfl) (.refl _)

/-! ### What is brought in -/

/-- A page of a file that the cache holds, with one more reference. -/
structure Held (s0 : Memory ι) (c vn offset : Nat) (s1 : Memory ι) : Prop where
  mem : ∃ e ∈ s0.cache, e.physPage = c
  state : s1 = { s0 with cache := cacheCount s0.cache vn offset (· + 1), pmm := s0.pmm.pageRef c }

variable {env : FaultEnv} {r : Option Nat}

omit [Fintype ι] in
theorem getOrRead_cases {vn off : Nat} (h : pagecacheGetOrRead env s vn off = (r, s')) :
    r = none ∧ (s' = s ∨ ∃ p m, s.pmm.allocPages 1 = some (p, m) ∧
      s' = { s with pmm := m.pageUnref p, data := Function.update s.data p (s.content vn (pageAlign off)) }) ∨
    ∃ c s0, r = some c ∧ Held s0 c vn (pageAlign off) s' ∧
      (s0 = s ∧ (s.cache.find? fun e => e.IsFor vn (pageAlign off)).map CacheEntry.physPage = some c ∨
        (s.cache.find? fun e => e.IsFor vn (pageAlign off)) = none ∧ ∃ m, s.pmm.allocPages 1 = some (c, m) ∧
          s0 = { s with
            pmm := m
            data := Function.update s.data c (s.content vn (pageAlign off))
            cache := ⟨vn, pageAlign off, c, 0⟩ :: s.cache }) := by
  rcases hf : s.cache.find? (fun e => decide (e.IsFor vn (pageAlign off))) with _ | e
  · simp only [pagecacheGetOrRead, pagecacheLookup, hf] at h
    split at h
    · cases h
      exact .inl ⟨rfl, .inl rfl⟩
    rename_i p m hm
    split at h
    · rw [List.find?_cons_of_pos (by simp [CacheEntry.IsFor])] at h
      cases h
      exact .inr ⟨p, _, rfl, ⟨⟨_, List.mem_cons_self, rfl⟩, rfl⟩, .inr ⟨hf, m, hm, rfl⟩⟩
    · cases h
      exact .inl ⟨rfl, .inr ⟨p, m, hm, rfl⟩⟩
  · simp only [pagecacheGetOrRead, pagecacheLookup, hf] at h
    cases h
    exact .inr ⟨_, s, rfl, ⟨⟨e, List.mem_of_find?_eq_some hf, rfl⟩, rfl⟩, .inl ⟨rfl, by rw [hf]; rfl⟩⟩

omit [Fintype ι] in
theorem demandFrame_cases {v : Vma} {page : Nat} (h : demandFrame env s v page = (r, s')) :
    v.fileAt page = none ∧ zeroFrame s = (r, s') ∨
    ∃ vn off, v.fileAt page = some (vn, pageAlign off) ∧ (v.file = some vn ∧ v.flags.file) ∧
      (r = none ∧ pagecacheGetOrRead env s vn off = (none, s') ∨
      ∃ c s1, pagecacheGetOrRead env s vn off = (some c, s1) ∧
        (v.flags.shared ∧ r = some c ∧ s' = s1 ∨ v.flags.shared = false ∧
          (r = none ∧ s' = { pagecacheRelease s1 vn off with pmm := s1.pmm.pageUnref c } ∨
          ∃ p m, s1.pmm.allocPages 1 = some (p, m) ∧ r = some p ∧
            s' = { pagecacheRelease { s1 with pmm := m, data := Function.update s1.data p (s1.data c) } vn off with
              pmm := m.pageUnref c }))) := by
  unfold demandFrame at h
  split at h
  · rename_i vn hf hvn
    have hat : v.fileAt page = if (page + 2 ^ 64 - v.start) % 2 ^ 64 < v.fileSize then
        some (vn, pageAlign ((v.fileOffset + (page + 2 ^ 64 - v.start) % 2 ^ 64) % 2 ^ 64)) else none := by
      unfold Vma.fileAt
      rw [hf, hvn]
    dsimp only at h
    split at h
    · rename_i hin
      rw [if_pos hin] at hat
      refine .inr ⟨vn, _, hat, ⟨hvn, hf⟩, ?_⟩
      split at h
      · rename_i s1 hg
        cases h
        exact .inl ⟨rfl, hg⟩
      rename_i c s1 hg
      refine .inr ⟨c, s1, hg, ?_⟩
      split at h
      · rename_i hsh
        cases h
        exact .inl ⟨hsh, rfl, rfl⟩
      rename_i hsh
      refine .inr ⟨by simpa using hsh, ?_⟩
      split at h
      · cases h
        exact .inl ⟨rfl, rfl⟩
      · rename_i p m hm
        cases h
        exact .inr ⟨p, m, hm, rfl, rfl⟩
    · rename_i hin
      rw [if_neg hin] at hat
      exact .inl ⟨hat, h⟩
  · rename_i hno
    refine .inl ⟨?_, h⟩
    unfold Vma.fileAt
    split
    · exact (hno _ ‹_› ‹_›).elim
    · rfl

end ExoOS.Mm
