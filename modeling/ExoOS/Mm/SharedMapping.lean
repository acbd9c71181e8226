import ExoOS.Mm.SharedPages

/-!
# Shared file mappings over whole runs

Files are opened and mapped; the mappings are inherited by `fork`, and read and written. Every open makes a vnode
of its own, and the page cache knows files by their vnodes. A byte that is read at a shared address is the last
one that anybody wrote through a shared mapping of the file (`shared_mapping_coherent`), as long as the mappings
of a file all go through one vnode and no shared page is written while it is marked copy on write (`Orderly`).
Without this it is not: `fork` marks all pages, and two opens of a file give two vnodes (`sharing_lost`).
-/

namespace ExoOS.Mm

open Finset Function Memory Transition List Option

section Files

variable {ι : Type} [DecidableEq ι]

structure FileMaps (ι : Type) where
  mem : Memory ι
  /-- The file of each vnode; vnodes are numbered in the order in which they were made. -/
  opens : List Nat
  /-- The last byte written through a shared mapping, by file, page and offset in the page. No step reads it. -/
  wrote : Nat → Nat → Nat → Option Byte

def FileMaps.file (s : FileMaps ι) (vn : Nat) : Nat := s.opens.getD vn 0

/-- An open: `ext2_lookup` and `tmpfs_lookup` make a new vnode (`make_vnode`, `make_vnode_from_ti`). -/
def openVnode (disk : Nat → Nat → Page) (s : FileMaps ι) (f : Nat) : FileMaps ι :=
  { s with
    opens := s.opens ++ [f]
    mem := { s.mem with content := Function.update s.mem.content s.opens.length (disk f) } }

/-- A write by user code. It is recorded if it reaches a page where a file is shared. -/
def writeThrough (env : FaultEnv) (s : FileMaps ι) (i : ι) (a : Nat) (b : Byte) : Option (FileMaps ι) :=
  (access env i a true 3 s.mem).bind fun r =>
    (userWrite env s.mem i a b).map fun m =>
      { s with
        mem := m
        wrote := match r.1, s.mem.sharedAt i a with
          | some _, some k => fun f offset x =>
            if f = s.file k.1 ∧ offset = k.2 ∧ x = a % PAGE_SIZE then some b else s.wrote f offset x
          | _, _ => s.wrote }

inductive MapEvent (ι : Type)
  | openFile (f : Nat)
  | mmap (mem : Nat → Bool) (i : ι) (addr len : Nat) (prot : Prot) (fl : MmapFlags) (vn size offset : Nat)
  | mprotect (mem : Nat → Bool) (i : ι) (addr len : Nat) (prot : Prot)
  | fork (i j : ι) (nv : Nat)
  | read (env : FaultEnv) (i : ι) (a : UserAddr)
  | write (env : FaultEnv) (i : ι) (a : UserAddr) (b : Byte)

def mapStep (disk : Nat → Nat → Page) (s : FileMaps ι) : MapEvent ι → Option (FileMaps ι)
  | .openFile f => some (openVnode disk s f)
  | .mmap mem i addr len prot fl vn size offset =>
    if s.mem.Live i ∧ vn < s.opens.length then
      (sysMmap mem s.mem i addr len prot fl (.file vn size) offset).map fun r => { s with mem := r.2 }
    else none
  | .mprotect mem i addr len prot =>
    if s.mem.Live i then some { s with mem := (sysMprotect mem s.mem i addr len prot).2 } else none
  | .fork i j nv =>
    if s.mem.Live i ∧ ¬ s.mem.Live j then (sysFork s.mem i j nv).map fun m => { s with mem := m } else none
  | .read env i a =>
    if s.mem.Live i then (userRead env s.mem i a).map fun r => { s with mem := r.2 } else none
  | .write env i a b => if s.mem.Live i then writeThrough env s i a b else none

def Vma.SharesVnode (v : Vma) (vn : Nat) : Prop := v.flags.file ∧ v.flags.shared ∧ v.file = some vn

def FileMaps.Mapped (s : FileMaps ι) (vn : Nat) : Prop := ∃ i, ∃ v ∈ (s.mem.procs i).vmas, v.SharesVnode vn

/-- `n` pages lie in user space, no area overlaps them and none of them is mapped. -/
def RangeFree (s : Memory ι) (i : ι) (addr n : Nat) : Prop :=
  UserPages addr n ∧ (∀ v ∈ (s.procs i).vmas, v.stop ≤ addr ∨ addr + n * PAGE_SIZE ≤ v.start) ∧
    ∀ k < n, ¬ (s.pte i (pageAddr addr k)).present

def CountsLow (s : Memory ι) : Prop := ∀ c ∈ s.cachePages, s.pmm.pageRefs c < 2 ^ 31

/-- A mapping goes where nothing is, and a shared one to the vnode through which the file is shared already; `fork`
copies all areas; and a page that is shared is not written while it is marked copy on write. -/
def Orderly (s : FileMaps ι) : MapEvent ι → Prop
  | .openFile _ => True
  | .mmap _ i addr len _ fl vn _ _ =>
    RangeFree s.mem i (mmapAddr s.mem i addr fl) (pageAlignUp len / PAGE_SIZE) ∧
      (fl.shared → ∀ j, ∀ v ∈ (s.mem.procs j).vmas, ∀ vn' ∈ v.file, v.SharesVnode vn' → s.file vn' = s.file vn →
        vn' = vn)
  | .mprotect _ _ _ _ _ => True
  | .fork i _ nv => (s.mem.procs i).vmas.length ≤ nv ∧ ∀ p < s.mem.pmm.bitmapPages, s.mem.pmm.pageRefs p < 2 ^ 31
  | .read _ _ _ => CountsLow s.mem
  | .write _ i a _ => CountsLow s.mem ∧ Harmless s.mem i a true

end Files

/-! ### Mapping a file -/

variable {mem : Nat → Bool} {prot : Prot} {v : Vma} {fl : MmapFlags} {addr len vn size offset : Nat} {r : Int}

section Mmap

variable {ι : Type} [DecidableEq ι] {s s' : Memory ι} {i j : ι} {a : Nat}

theorem vmaFind_insert (vs : List Vma) (h : ¬ v.Covers a) :
    vmaFindForAddr (vmaInsert v vs) a = vmaFindForAddr vs a := by
  unfold vmaFindForAddr
  induction vs with
  | nil => exact find?_cons_of_neg (by simpa using h)
  | cons w ws ih =>
    unfold vmaInsert
    split
    · rw [find?_cons, find?_cons, ih]
    · exact find?_cons_of_neg (by simpa using h)

theorem mem_vmaInsert {v w : Vma} {vs : List Vma} : w ∈ vmaInsert v vs ↔ w = v ∨ w ∈ vs := by
  induction vs with
  | nil => simp [vmaInsert]
  | cons u us ih =>
    unfold vmaInsert
    split
    · simp only [List.mem_cons]
      tauto
    · simp only [List.mem_cons]

namespace RangeFree

variable {addr n : Nat}

omit [DecidableEq ι] in
theorem at_addr (h : RangeFree s i addr n) (hal : addr % PAGE_SIZE = 0) (h1 : addr ≤ a)
    (h2 : a < addr + n * PAGE_SIZE) :
    vmaFindForAddr (s.procs i).vmas a = none ∧ ¬ (s.uview i (loc a)).present := by
  obtain ⟨hu, hareas, habs⟩ := h
  refine ⟨find?_eq_none.2 fun v hv hc => ?_, ?_⟩
  · have hc : v.Covers a := by simpa using hc
    have := hareas v hv
    unfold Vma.Covers at hc
    omega
  · have hk : (a - addr) / PAGE_SIZE < n := by
      unfold PAGE_SIZE at *
      omega
    have hpage : pageAddr addr ((a - addr) / PAGE_SIZE) = pageAlign a := by
      rw [(hu.addr hk).1]
      unfold pageAlign PAGE_SIZE at *
      omega
    have := habs _ hk
    rwa [hpage, s.pte_user i (by rw [← hpage]; exact hu.isKernel hk), loc_pageAlign] at this

theorem munmapPage (h : RangeFree s i addr n) (hal : addr % PAGE_SIZE = 0) {k : Nat} (hk : k < n) :
    munmapPage i s (pageAddr addr k) = s := by
  obtain ⟨ha, -⟩ := h.1.addr hk
  have hfind := (h.at_addr (a := pageAddr addr k) hal (by rw [ha]; omega) (by rw [ha]; unfold PAGE_SIZE; omega)).1
  unfold Mm.munmapPage unmapPage
  rw [if_neg (h.2.2 k hk), hfind]

theorem munmapVmas {lo hi : Nat} {vs : List Vma} {k : Nat}
    (h : ∀ v ∈ vs, v.stop ≤ lo ∨ hi ≤ v.start) : munmapVmas lo hi mem k vs = vs := by
  induction vs generalizing k with
  | nil => rfl
  | cons v vs ih =>
    have hv := h v mem_cons_self
    rw [Mm.munmapVmas, ih fun w hw => h w (mem_cons_of_mem _ hw), Vma.unmapped, if_pos hv]
    rfl

theorem sysMunmap {len : Nat} (h : RangeFree s i addr (pageAlignUp len / PAGE_SIZE)) :
    (sysMunmap mem s i addr len).2 = s := by
  unfold Mm.sysMunmap
  split
  · rfl
  rename_i hc
  have hal : addr % PAGE_SIZE = 0 := by by_contra hx; exact hc (.inr hx)
  have hfold : ∀ ks : List Nat, (∀ k ∈ ks, k < pageAlignUp len / PAGE_SIZE) →
      ks.foldl (fun s k => Mm.munmapPage i s (pageAddr addr k)) s = s := by
    intro ks hks
    induction ks with
    | nil => rfl
    | cons k ks ih =>
      obtain ⟨hk, hks⟩ := List.forall_mem_cons.1 hks
      rw [List.foldl_cons, h.munmapPage hal hk, ih hks]
  dsimp only
  rw [hfold _ fun k hk => List.mem_range.1 hk]
  have hlen := Nat.div_mul_cancel (Nat.dvd_of_mod_eq_zero (pageAlignUp_mod len))
  have hu := h.1
  have hareas := h.2.1
  unfold UserPages at hu
  rw [hlen] at hu hareas
  rw [Nat.mod_eq_of_lt (hu.trans_lt (by decide)), munmapVmas hareas]
  exact congrArg (fun f => { s with procs := f }) (update_eq_self i s.procs)

end RangeFree

/-- At most the area `v` of `len` bytes is added to those of `i`, and `mmap_next` moved over it. -/
def AreaAdded (s : Memory ι) (i : ι) (v : Vma) (len : Nat) (s' : Memory ι) : Prop :=
  ∃ vs next, s' = s.setProc i { s.procs i with vmas := vs, mmapNext := next } ∧
    (next = (s.procs i).mmapNext ∨ next = ((s.procs i).mmapNext + len) % 2 ^ 64) ∧
    (vs = (s.procs i).vmas ∨ vs = vmaInsert v (s.procs i).vmas)

namespace AreaAdded

variable {len : Nat}

theorem refl (s : Memory ι) (i : ι) (v : Vma) (len : Nat) : AreaAdded s i v len s :=
  ⟨_, _, congrArg (fun f => { s with procs := f }) (update_eq_self i s.procs).symm, .inl rfl, .inl rfl⟩

theorem procs (h : AreaAdded s i v len s') (j : ι) : ∃ vs next,
    s'.procs j = { s.procs j with vmas := vs, mmapNext := next } ∧
    (next = (s.procs j).mmapNext ∨ next = ((s.procs j).mmapNext + len) % 2 ^ 64) ∧
    (vs = (s.procs j).vmas ∨ j = i ∧ vs = vmaInsert v (s.procs j).vmas) := by
  obtain ⟨vs, next, rfl, hnext, hvs⟩ := h
  by_cases hj : j = i
  · subst hj
    exact ⟨vs, next, update_self .., hnext, hvs.imp_right fun h => ⟨rfl, h⟩⟩
  · exact ⟨_, _, update_of_ne hj _ _, .inl rfl, .inl rfl⟩

theorem mem_vmas (h : AreaAdded s i v len s') {w : Vma} (hw : w ∈ (s'.procs j).vmas) :
    w ∈ (s.procs j).vmas ∨ w = v := by
  obtain ⟨vs, next, hj, -, hvs⟩ := h.procs j
  rw [hj] at hw
  rcases hvs with rfl | ⟨-, rfl⟩
  · exact .inl hw
  · exact (mem_vmaInsert.1 hw).symm

theorem of_mem (h : AreaAdded s i v len s') {w : Vma} (hw : w ∈ (s.procs j).vmas) : w ∈ (s'.procs j).vmas := by
  obtain ⟨vs, next, hj, -, hvs⟩ := h.procs j
  rw [hj]
  rcases hvs with rfl | ⟨-, rfl⟩
  · exact hw
  · exact mem_vmaInsert.2 (.inr hw)

end AreaAdded

/-- With `MAP_FIXED` the range is unmapped first. -/
theorem sysMmap_file (h : sysMmap mem s i addr len prot fl (.file vn size) offset = some (r, s')) :
    ∃ t, (t = s ∨ fl.fixed ∧ ∃ mem, t = (sysMunmap mem s i (pageAlign addr) (pageAlignUp len)).2) ∧
      AreaAdded t i (mmapVma (mmapAddr s i addr fl) (pageAlignUp len) prot fl (.file vn size) offset)
        (pageAlignUp len) s' := by
  unfold sysMmap at h
  split at h
  · cases h; exact ⟨s, .inl rfl, .refl ..⟩
  dsimp only at h
  split at h
  · cases h; exact ⟨s, .inl rfl, .refl ..⟩
  unfold mmapAddr
  rcases hfx : fl.fixed with _ | _
  · rw [hfx] at h
    simp only [Bool.false_eq_true, if_false, map_some, if_true] at h
    refine ⟨s, .inl rfl, ?_⟩
    split at h
    · cases h
      exact ⟨_, _, rfl, .inr rfl, .inl rfl⟩
    have hs := congrArg Prod.snd (some.inj h)
    dsimp only at hs
    split at hs
    · refine ⟨_, _, ?_, .inr rfl, .inr rfl⟩
      rw [← hs]
      simp [setProc]
    · exact ⟨_, _, hs.symm, .inr rfl, .inl rfl⟩
  · rw [hfx] at h
    simp only [if_true, map_some] at h
    split at h
    · cases h; exact ⟨s, .inl rfl, .refl ..⟩
    refine ⟨_, .inr ⟨rfl, fun k => mem (k + 1), rfl⟩, ?_⟩
    split at h
    all_goals
      have hs := congrArg Prod.snd (some.inj h)
      dsimp only at hs
    · rw [← hs]; exact .refl ..
    · split at hs
      · exact ⟨_, _, hs.symm, .inl rfl, .inr rfl⟩
      · rw [← hs]; exact .refl ..

theorem sysMmap_free (hfree : RangeFree s i (mmapAddr s i addr fl) (pageAlignUp len / PAGE_SIZE))
    (h : sysMmap mem s i addr len prot fl (.file vn size) offset = some (r, s')) :
    AreaAdded s i (mmapVma (mmapAddr s i addr fl) (pageAlignUp len) prot fl (.file vn size) offset)
      (pageAlignUp len) s' := by
  obtain ⟨t, rfl | ⟨hfx, mem', rfl⟩, hadd⟩ := sysMmap_file h
  · exact hadd
  · rw [mmapAddr, if_pos hfx, ← pageAlignUp_idem len] at hfree
    rwa [RangeFree.sysMunmap hfree] at hadd

end Mmap

/-! ### What is read -/

variable {k : Nat × Nat} {b : Byte}

section Coherence

variable {ι : Type} {disk : Nat → Nat → Page} {s s' : FileMaps ι} {m : Memory ι} {i j : ι}
  {a : Nat} {B : Others}

theorem Vma.sharesVnode_of_sharedFile {page : Nat} (h : v.sharedFile page = some k) : v.SharesVnode k.1 := by
  unfold Vma.sharedFile Vma.fileAt at h
  obtain ⟨hsh, h⟩ := ite_none_right_eq_some.1 h
  split at h
  · rename_i vn hf hvn
    obtain ⟨-, ⟨⟩⟩ := ite_none_right_eq_some.1 h
    exact ⟨hf, hsh, hvn⟩
  · cases h

theorem Vma.Kin.sharesVnode {v w : Vma} {vn : Nat} (h : v.Kin w) : w.SharesVnode vn ↔ v.SharesVnode vn := by
  unfold Vma.SharesVnode
  rw [h.file, h.isFile, h.shared]

theorem mapped_of_sharedAt (h : s.mem.sharedAt i a = some k) : s.Mapped k.1 := by
  obtain ⟨v, hv, hk⟩ := bind_eq_some_iff.1 h
  exact ⟨i, v, mem_of_find?_eq_some hv, Vma.sharesVnode_of_sharedFile hk⟩

variable {m' : Memory ι}

theorem mapped_congr (hv : ∀ j, (m.procs j).vmas = (s.mem.procs j).vmas) (vn : Nat) :
    FileMaps.Mapped { s with mem := m } vn ↔ s.Mapped vn := by
  unfold FileMaps.Mapped
  simp only [hv]

theorem CountsLow.room (h : CountsLow m) : ∀ c ∈ m.cachePages, m.pmm.pageRefs c + 1 < 2 ^ 32 := by
  intro c hc
  have := h c hc
  omega

theorem files_congr (hc : m'.cache = m.cache) (hcontent : m'.content = m.content) (hd : m'.data = m.data) :
    (∀ k, m'.cached k = m.cached k) ∧ ∀ vn offset, m'.filePage vn offset = m.filePage vn offset := by
  have hcached : ∀ k, m'.cached k = m.cached k := fun k => by unfold cached; rw [hc]
  refine ⟨hcached, fun vn offset => ?_⟩
  rw [filePage_cached, filePage_cached, hcached, hd, hcontent]

theorem filePage_store {p x : Nat} (hc : m'.cache = m.cache)
    (hcontent : m'.content = m.content) (hd : m'.data = update m.data p (update (m.data p) x b)) (vn offset : Nat) :
    m'.filePage vn offset = if m.cached (vn, offset) = some p then update (m.filePage vn offset) x b
      else m.filePage vn offset := by
  have hk : m'.cached (vn, offset) = m.cached (vn, offset) := by unfold cached; rw [hc]
  rw [filePage_cached, filePage_cached, hk, hcontent]
  rcases hq : m.cached (vn, offset) with _ | q
  · rw [if_neg nofun]; rfl
  rw [hd]
  by_cases hqp : q = p
  · subst hqp
    rw [if_pos rfl]
    exact update_self ..
  · rw [if_neg fun hx => hqp (some.inj hx)]
    exact update_of_ne hqp _ _

theorem openVnode_file (f : Nat) {vn : Nat} (h : vn < s.opens.length) : (openVnode disk s f).file vn = s.file vn := by
  unfold FileMaps.file openVnode
  simp [getElem?_append_left h]

theorem openVnode_file_new (f : Nat) : (openVnode disk s f).file s.opens.length = f := by
  unfold FileMaps.file openVnode
  simp [getD_eq_getElem?_getD]

theorem harmless_read : Harmless m i a false := fun hw => absurd hw Bool.false_ne_true

variable [Fintype ι]

/-- The mappings are in order: entries map what areas share, areas and cache know only vnodes that were made, and
who has no address space has no areas. -/
structure Tidy (disk : Nat → Nat → Page) (s : FileMaps ι) : Prop where
  shares : ∃ B, Shares B s.mem
  next : ∀ i, (s.mem.procs i).mmapNext % PAGE_SIZE = 0
  dead : ∀ i, ¬ s.mem.Live i → (s.mem.procs i).vmas = []
  opened : ∀ vn < s.opens.length, s.mem.content vn = disk (s.file vn)
  areas : ∀ i, ∀ v ∈ (s.mem.procs i).vmas, ∀ vn, v.file = some vn → vn < s.opens.length
  cached : ∀ k p, s.mem.cached k = some p → k.1 < s.opens.length

/-- A file is shared through one vnode, whose pages hold what was last written; a file that is not shared has not
been written. -/
structure Coherent (disk : Nat → Nat → Page) (s : FileMaps ι) : Prop where
  tidy : Tidy disk s
  once : ∀ vn vn', s.Mapped vn → s.Mapped vn' → s.file vn = s.file vn' → vn = vn'
  seen : ∀ vn, s.Mapped vn → ∀ offset x, s.mem.filePage vn offset x =
    (s.wrote (s.file vn) offset x).getD (disk (s.file vn) offset x)
  raw : ∀ vn < s.opens.length, ¬ s.Mapped vn → ∀ offset, s.mem.filePage vn offset = disk (s.file vn) offset
  unseen : ∀ f, (∀ vn, s.Mapped vn → s.file vn ≠ f) → ∀ offset x, s.wrote f offset x = none

theorem Tidy.mapped_lt (h : Tidy disk s) {vn : Nat} (hm : s.Mapped vn) : vn < s.opens.length := by
  obtain ⟨i, v, hv, hs⟩ := hm
  exact h.areas i v hv vn hs.2.2

theorem Coherent.of_same (h : Coherent disk s) (ht : Tidy disk { s with mem := m })
    (hm : ∀ vn, FileMaps.Mapped { s with mem := m } vn ↔ s.Mapped vn)
    (hf : ∀ vn offset, m.filePage vn offset = s.mem.filePage vn offset) : Coherent disk { s with mem := m } := by
  refine ⟨ht, fun vn vn' h1 h2 => ?_, fun vn h1 offset x => ?_, fun vn hlt h1 offset => ?_, fun f h1 => ?_⟩
  · exact h.once vn vn' ((hm vn).1 h1) ((hm vn').1 h2)
  · exact (congrFun (hf vn offset) x).trans (h.seen vn ((hm vn).1 h1) offset x)
  · exact (hf vn offset).trans (h.raw vn hlt (fun hx => h1 ((hm vn).2 hx)) offset)
  · exact h.unseen f fun vn hx => h1 vn ((hm vn).2 hx)

/-! ### Reading and writing -/

theorem Coherent.brought (h : Coherent disk s) (hl : s.mem.Live i) (hs : Shares B m) (hb : Brought i s.mem m) :
    Coherent disk { s with mem := m } := by
  have ht := h.tidy
  refine h.of_same ⟨⟨B, hs⟩, fun j => ?_, fun j hj => ?_, fun vn hlt => ?_, fun j v hv => ?_, fun k p hk => ?_⟩
    (mapped_congr hb.vmas) hb.filePage
  · exact (congrArg (· % PAGE_SIZE) (hb.next j)).trans (ht.next j)
  · have hji : j ≠ i := by rintro rfl; exact hj (hb.works.live hl)
    refine (hb.vmas j).trans (ht.dead j ?_)
    unfold Memory.Live at *
    rwa [← hb.works.other j hji]
  · exact (congrFun hb.content vn).trans (ht.opened vn hlt)
  · exact ht.areas j v (by rw [← hb.vmas]; exact hv)
  · rcases hb.new k p hk with ⟨q, hq⟩ | ⟨v, hv, hvn⟩
    · exact ht.cached k q hq
    · exact ht.areas i v hv k.1 hvn

theorem Shares.congr (h : Shares B m) (hprocs : m'.procs = m.procs) (hpmm : m'.pmm = m.pmm)
    (hcache : m'.cache = m.cache) : Shares B m' := by
  have hpages : m'.cachePages = m.cachePages := by unfold cachePages; rw [hcache]
  have hrefs : m'.refs = m.refs := by unfold refs; rw [hprocs, hpages]
  refine ⟨⟨⟨by rw [hpmm, hrefs]; exact h.accounted.balanced.ledger, by rw [hpages]; exact h.accounted.balanced.nodup⟩,
    fun j hj => ?_⟩, by rw [hprocs]; exact h.aligned, fun j b k hb hp => ?_⟩
  · unfold Memory.Live at hj
    rw [hprocs] at hj ⊢
    exact h.accounted.dead j hj
  · unfold uview sharedAt cached at *
    rw [hprocs] at hp ⊢
    rw [hcache]
    exact h.entry j b k hb hp

section

variable (h : Coherent disk s)
include h

theorem Coherent.openVnode (f : Nat) : Coherent disk (openVnode disk s f) := by
  set t := Mm.openVnode disk s f
  have ht := h.tidy
  obtain ⟨B, hs⟩ := ht.shares
  have hlen : t.opens.length = s.opens.length + 1 := length_append
  have hlt : ∀ vn, vn < t.opens.length → vn ≠ s.opens.length → vn < s.opens.length := fun vn hvn hne => by omega
  have hle : ∀ vn, vn < s.opens.length → vn < t.opens.length := fun vn hvn => by omega
  have hmapped : ∀ vn, t.Mapped vn → vn < s.opens.length := fun vn => ht.mapped_lt
  have hfile : ∀ vn, vn ≠ s.opens.length → ∀ offset, t.mem.filePage vn offset = s.mem.filePage vn offset := by
    intro vn hvn offset
    rw [filePage_cached, filePage_cached]
    exact congrArg (fun pg => ((s.mem.cached (vn, offset)).map s.mem.data).getD pg)
      (congrFun (update_of_ne hvn _ _) offset)
  refine ⟨⟨⟨B, hs.congr rfl rfl rfl⟩, ht.next, ht.dead, fun vn hvn => ?_,
    fun i v hv vn hx => hle vn (ht.areas i v hv vn hx), fun k p hk => hle k.1 (ht.cached k p hk)⟩,
    fun vn vn' h1 h2 => ?_, fun vn h1 offset x => ?_, fun vn hvn h1 offset => ?_, fun g h1 => ?_⟩
  · by_cases hx : vn = s.opens.length
    · rw [hx, openVnode_file_new]; exact update_self ..
    · rw [openVnode_file f (hlt vn hvn hx)]
      exact (update_of_ne hx _ _).trans (ht.opened vn (hlt vn hvn hx))
  · rw [openVnode_file f (hmapped vn h1), openVnode_file f (hmapped vn' h2)]
    exact h.once vn vn' h1 h2
  · rw [hfile vn (hmapped vn h1).ne, openVnode_file f (hmapped vn h1)]
    exact h.seen vn h1 offset x
  · by_cases hx : vn = s.opens.length
    · -- nothing of a new vnode is cached
      subst hx
      have hnone : t.mem.cached (s.opens.length, offset) = none := by
        rcases hk : t.mem.cached (s.opens.length, offset) with _ | p
        · rfl
        · exact absurd (ht.cached _ p hk) (Nat.lt_irrefl _)
      rw [filePage_cached, hnone, openVnode_file_new]
      exact congrFun (update_self ..) offset
    · rw [hfile vn hx, openVnode_file f (hlt vn hvn hx)]
      exact h.raw vn (hlt vn hvn hx) h1 offset
  · exact h.unseen g fun vn hx => by rw [← openVnode_file f (ht.mapped_lt hx)]; exact h1 vn hx

variable [DecidableEq ι]

theorem Coherent.write {env : FaultEnv} (hl : s.mem.Live i) (ha : a < USER_SPACE_END)
    (hlow : CountsLow s.mem) (hh : Harmless s.mem i a true) (hw : writeThrough env s i a b = some s') :
    Coherent disk s' := by
  obtain ⟨⟨r, m1⟩, hacc, hw⟩ := bind_eq_some_iff.1 hw
  obtain ⟨m, hm, rfl⟩ := map_eq_some_iff.1 hw
  obtain ⟨B, hs⟩ := h.tidy.shares
  obtain ⟨hs1, hb, hr⟩ := access_shares hs hl ha hh (fun _ => hlow.room) hacc
  have h₁ := h.brought hl hs1 hb
  unfold userWrite at hm
  rw [hacc] at hm
  have hm := some.inj hm
  rcases r with _ | p
  · -- the handler gave up
    subst hm
    exact h₁
  obtain ⟨rfl, hperm⟩ := hr p rfl
  have hprocs : m.procs = m1.procs := by rw [← hm]
  have hcache : m.cache = m1.cache := by rw [← hm]
  have hcontent : m.content = m1.content := by rw [← hm]
  have hfile := filePage_store hcache hcontent (by rw [← hm])
  have hsm : Shares B m := hs1.congr hprocs (by rw [← hm]) hcache
  have hmapped : ∀ vn, FileMaps.Mapped { s with mem := m } vn ↔ s.Mapped vn :=
    mapped_congr fun j => by rw [hprocs, hb.vmas]
  have ht : Tidy disk { s with mem := m } := by
    obtain ⟨-, h1, h2, h3, h4, h5⟩ := h₁.tidy
    unfold Memory.Live at h2
    unfold cached at h5
    rw [← hprocs] at h1 h2 h4
    rw [← hcontent] at h3
    rw [← hcache] at h5
    exact ⟨⟨B, hsm⟩, h1, h2, h3, h4, h5⟩
  -- the page that was written is in the cache exactly if it is shared at the address
  have hentry : ∀ k, s.mem.sharedAt i a = some k ↔ m1.cached k = some (m1.uview i (loc a)).pfn := fun k => by
    rw [← hb.sharedAt]; exact hs1.entry i a k ha hperm.1
  rcases hk : s.mem.sharedAt i a with _ | k
  · refine h.of_same ht hmapped fun vn offset => ?_
    rw [hfile, if_neg, hb.filePage]
    rw [← hentry, hk]
    nofun
  have hkm := mapped_of_sharedAt hk
  have hpage : ∀ vn offset, m.filePage vn offset = if (vn, offset) = k then
      update (s.mem.filePage vn offset) (a % PAGE_SIZE) b else s.mem.filePage vn offset := by
    intro vn offset
    rw [hfile, hb.filePage]
    refine if_congr ?_ rfl rfl
    rw [← hentry, hk, some.injEq, eq_comm]
  refine ⟨{ ht with }, fun vn vn' h1 h2 => ?_,
    fun vn h1 offset x => ?_, fun vn hlt h1 offset => ?_, fun f h1 offset x => ?_⟩
  · exact h.once vn vn' ((hmapped vn).1 h1) ((hmapped vn').1 h2)
  · have h1 := (hmapped vn).1 h1
    dsimp only
    rw [hpage]
    have hiff : (s.file vn = s.file k.1 ∧ offset = k.2) ↔ (vn, offset) = k := by
      constructor
      · rintro ⟨hf, rfl⟩
        exact Prod.ext (h.once vn k.1 h1 hkm hf) rfl
      · rintro rfl; exact ⟨rfl, rfl⟩
    by_cases hx : (vn, offset) = k
    · obtain ⟨hf, ho⟩ := hiff.2 hx
      rw [if_pos hx]
      by_cases hxa : x = a % PAGE_SIZE
      · rw [if_pos ⟨hf, ho, hxa⟩, hxa, update_self]; rfl
      · rw [if_neg fun hy => hxa hy.2.2, update_of_ne hxa]
        exact h.seen vn h1 offset x
    · rw [if_neg hx, if_neg fun hy => hx (hiff.1 ⟨hy.1, hy.2.1⟩)]
      exact h.seen vn h1 offset x
  · rw [hpage, if_neg]
    · exact h.raw vn hlt (fun hx => h1 ((hmapped vn).2 hx)) offset
    · rintro rfl
      exact h1 ((hmapped _).2 hkm)
  · dsimp only
    rw [if_neg fun hy => h1 k.1 ((hmapped _).2 hkm) hy.1.symm]
    exact h.unseen f (fun vn hx => h1 vn ((hmapped vn).2 hx)) offset x

omit h in
theorem Shares.areaAdded {len n : Nat} (h : Shares B m) (hl : m.Live i) (hv : v.Aligned)
    (hfree : RangeFree m i v.start n) (hlen : ∀ b, v.Covers b → b < v.start + n * PAGE_SIZE)
    (ha : AreaAdded m i v len m') : Shares B m' := by
  have hw : Works i m m' 0 0 := by
    obtain ⟨vs, next, rfl, -⟩ := ha
    exact setProc_works rfl rfl
  have hcache : m'.cache = m.cache := by
    obtain ⟨vs, next, rfl, -⟩ := ha
    rfl
  refine ⟨(hw.accounted hl h.accounted).1, fun j w hw => ?_, fun j b k hb hp => ?_⟩
  · rcases ha.mem_vmas hw with hw | rfl
    · exact h.aligned j w hw
    · exact hv
  · have hentry := h.entry j b k hb
    obtain ⟨vs, next, hj, -, hvs⟩ := ha.procs j
    unfold uview sharedAt cached at *
    rw [hj] at hp ⊢
    rw [hcache]
    rcases hvs with rfl | ⟨rfl, rfl⟩
    · exact hentry hp
    · -- the new area covers no page that is mapped
      rw [vmaFind_insert _ fun hc => (hfree.at_addr hv.1 hc.1 (hlen b hc)).2 hp]
      exact hentry hp

theorem Coherent.mmap (hl : s.mem.Live i) (hvn : vn < s.opens.length)
    (hc : Orderly s (.mmap mem i addr len prot fl vn size offset))
    (hm : sysMmap mem s.mem i addr len prot fl (.file vn size) offset = some (r, m)) :
    Coherent disk { s with mem := m } := by
  obtain ⟨hfree, honce⟩ := hc
  have ht := h.tidy
  obtain ⟨B, hs⟩ := ht.shares
  have hadd := sysMmap_free hfree hm
  have hlen := Nat.div_mul_cancel (Nat.dvd_of_mod_eq_zero (pageAlignUp_mod len))
  have hal : mmapAddr s.mem i addr fl % PAGE_SIZE = 0 := by
    unfold mmapAddr
    split
    · exact Nat.mul_mod_left ..
    · exact ht.next i
  have hstop : (mmapAddr s.mem i addr fl + pageAlignUp len) % 2 ^ 64 = mmapAddr s.mem i addr fl + pageAlignUp len := by
    have hu := hfree.1
    unfold UserPages at hu
    rw [hlen] at hu
    exact Nat.mod_eq_of_lt (hu.trans_lt (by decide))
  generalize hv : mmapVma (mmapAddr s.mem i addr fl) (pageAlignUp len) prot fl (.file vn size) offset = v at hadd
  have hstart : v.start = mmapAddr s.mem i addr fl := by rw [← hv]; rfl
  have hvstop : v.stop = mmapAddr s.mem i addr fl + pageAlignUp len := by rw [← hv]; exact hstop
  have hvfile : v.file = some vn := by rw [← hv]; rfl
  have hvs : ∀ vn', v.SharesVnode vn' ↔ fl.shared ∧ vn = vn' := fun vn' => by
    simp [← hv, Vma.SharesVnode, mmapVma]
  have hvmod : v.stop % PAGE_SIZE = 0 := by
    unfold PAGE_SIZE at *
    omega
  have hsm : Shares B m := hs.areaAdded hl ⟨by rw [hstart]; exact hal, hvmod⟩ (by rw [hstart]; exact hfree)
    (fun b hb => by unfold Vma.Covers at hb; omega) hadd
  have hsame : m.cache = s.mem.cache ∧ m.content = s.mem.content ∧ m.data = s.mem.data := by
    obtain ⟨vs, next, rfl, -⟩ := hadd
    exact ⟨rfl, rfl, rfl⟩
  obtain ⟨hcached, hfile⟩ := files_congr hsame.1 hsame.2.1 hsame.2.2
  have htm : Tidy disk { s with mem := m } := by
    refine ⟨⟨B, hsm⟩, fun j => ?_, fun j hj => ?_, fun vn hlt => ?_, fun j w hw vn' hx => ?_, fun k p hk => ?_⟩
    · obtain ⟨vs, next, hj, hnext, -⟩ := hadd.procs j
      have hn := ht.next j
      rw [hj]
      dsimp only
      unfold PAGE_SIZE at *
      rcases hnext with hx | hx <;> omega
    · obtain ⟨vs, next, hj', -, hvs⟩ := hadd.procs j
      unfold Memory.Live at hj
      rw [hj'] at hj ⊢
      rcases hvs with rfl | ⟨rfl, -⟩
      · exact ht.dead j hj
      · exact absurd hl hj
    · exact (congrFun hsame.2.1 vn).trans (ht.opened vn hlt)
    · rcases hadd.mem_vmas hw with hw | rfl
      · exact ht.areas j w hw vn' hx
      · rw [hvfile] at hx
        cases hx
        exact hvn
    · exact ht.cached k p (by rw [← hcached]; exact hk)
  have hold : ∀ vn', s.Mapped vn' → FileMaps.Mapped { s with mem := m } vn' := by
    rintro vn' ⟨j, w, hw, hx⟩
    exact ⟨j, w, hadd.of_mem hw, hx⟩
  -- a vnode that is shared now and was not before is the one that was mapped
  have hnew : ∀ vn', FileMaps.Mapped { s with mem := m } vn' → s.Mapped vn' ∨ fl.shared ∧ vn' = vn := by
    rintro vn' ⟨j, w, hw, hx⟩
    rcases hadd.mem_vmas hw with hw | rfl
    · exact .inl ⟨j, w, hw, hx⟩
    · obtain ⟨h1, h2⟩ := (hvs vn').1 hx
      exact .inr ⟨h1, h2.symm⟩
  have honce' : fl.shared → ∀ vn', s.Mapped vn' → s.file vn' = s.file vn → vn' = vn := by
    rintro hsh vn' ⟨j, w, hw, hx⟩
    exact honce hsh j w hw vn' hx.2.2 hx
  refine ⟨htm, fun vn1 vn2 h1 h2 hf => ?_, fun vn' h1 offset x => ?_, fun vn' hlt h1 offset => ?_, fun f h1 => ?_⟩
  · rcases hnew vn1 h1 with h1 | ⟨hsh, rfl⟩
    · rcases hnew vn2 h2 with h2 | ⟨hsh, rfl⟩
      · exact h.once vn1 vn2 h1 h2 hf
      · exact honce' hsh vn1 h1 hf
    · rcases hnew vn2 h2 with h2 | ⟨-, rfl⟩
      · exact (honce' hsh vn2 h2 hf.symm).symm
      · rfl
  · rw [hfile]
    rcases hnew vn' h1 with h1 | ⟨hsh, rfl⟩
    · exact h.seen vn' h1 offset x
    by_cases hx : s.Mapped vn'
    · exact h.seen vn' hx offset x
    -- the file was not shared, so nobody has written to it
    have hun := h.unseen (s.file vn') (fun vn1 h₁ hf => hx (honce' hsh vn1 h₁ hf ▸ h₁)) offset x
    rw [h.raw vn' hvn hx offset]
    refine Eq.symm ?_
    exact (congrArg (getD · (disk (s.file vn') offset x)) hun)
  · exact (hfile vn' offset).trans (h.raw vn' hlt (fun hx => h1 (hold vn' hx)) offset)
  · exact h.unseen f fun vn' hx => h1 vn' (hold vn' hx)

theorem Coherent.mprotect {addr len : Nat}
    (hl : s.mem.Live i) : Coherent disk { s with mem := (sysMprotect mem s.mem i addr len prot).2 } := by
  have ht := h.tidy
  obtain ⟨B, hs⟩ := ht.shares
  rcases hm : sysMprotect mem s.mem i addr len prot with ⟨r, m⟩
  have hw := sysMprotect_works hm
  have hp := sysMprotect_protected hs.aligned hm
  obtain ⟨hcached, hfile⟩ := files_congr hp.maps.cache hp.maps.content hp.maps.data
  refine h.of_same ⟨⟨B, (hw.accounted hl hs.accounted).1, fun j => (hp.parts j).aligned, fun j b k hb hpr => ?_⟩,
    fun j => ?_, fun j hj => ?_, fun vn hlt => ?_, fun j w hwv vn hx => ?_, fun k p hk => ?_⟩ (fun vn => ?_) hfile
  · rw [hp.maps.present] at hpr
    rw [hcached, hp.maps.pfn, ← hs.entry j b k hb hpr]
    refine Eq.congr_left ?_
    have hfiles := congrArg (Option.bind · fun q : Bool × Option (Nat × Nat) => if q.1 then q.2 else none)
      (hp.files j b (hb.trans (by decide)))
    simp only [Option.bind_map] at hfiles
    exact hfiles
  · dsimp only; rw [hp.next]; exact ht.next j
  · have hji : j ≠ i := by rintro rfl; exact hj (hw.live hl)
    unfold Memory.Live at hj
    rw [hw.other j hji] at hj ⊢
    exact ht.dead j hj
  · dsimp only; rw [hp.maps.content]; exact ht.opened vn hlt
  · obtain ⟨v, hv, hk⟩ := (hp.parts j).part w hwv
    exact ht.areas j v hv vn (by rw [← hk.file]; exact hx)
  · exact ht.cached k p (by rw [← hcached]; exact hk)
  · constructor
    · rintro ⟨j, w, hwv, hx⟩
      obtain ⟨v, hv, hk⟩ := (hp.parts j).part w hwv
      exact ⟨j, v, hv, hk.sharesVnode.1 hx⟩
    · rintro ⟨j, v, hv, hx⟩
      obtain ⟨w, hwv, hk⟩ := (hp.parts j).kept v hv
      exact ⟨j, w, hwv, hk.sharesVnode.2 hx⟩

theorem Coherent.fork {nv : Nat} (hi : s.mem.Live i) (hj : ¬ s.mem.Live j)
    (hc : Orderly s (.fork i j nv)) (hf : sysFork s.mem i j nv = some m) : Coherent disk { s with mem := m } := by
  have ht := h.tidy
  obtain ⟨B, hs⟩ := ht.shares
  have hij : i ≠ j := by rintro rfl; exact hj hi
  obtain ⟨hacc, hapart⟩ := clone_accounted hf hi hj hc.2 hs.accounted
  have hF := sysFork_forked hij hf
  have hchild : (m.procs j).vmas = (s.mem.procs i).vmas := hF.childVmas.trans (take_of_length_le hc.1)
  have hlive : m.Live j := by
    obtain ⟨_, c, _, _, halloc, -, -, hcr3, -⟩ := sysFork_procs hij hf
    unfold Memory.Live
    rw [hcr3]
    exact (Pmm.allocPages_one_pos halloc).ne'
  have hvmas : ∀ k, k ≠ j → (m.procs k).vmas = (s.mem.procs k).vmas := by
    intro k hk
    by_cases hki : k = i
    · subst hki; exact hF.vmas
    · rw [hF.other k hki hk]
  -- what a process has, some process had before
  have horigin : ∀ k, ∃ k', (m.procs k).vmas = (s.mem.procs k').vmas ∧
      (m.procs k).mmapNext = (s.mem.procs k').mmapNext ∧ ∀ l, (m.uview k l).present →
        (s.mem.uview k' l).present ∧ (m.uview k l).pfn = (s.mem.uview k' l).pfn := by
    intro k
    unfold uview
    by_cases hkj : k = j
    · subst hkj
      refine ⟨i, hchild, hF.childNext, fun l hp => ?_⟩
      rw [hF.child.present] at hp
      exact ⟨hp, hF.child.pfn _ hp⟩
    by_cases hki : k = i
    · subst hki
      refine ⟨k, hF.vmas, hF.next, fun l hp => ?_⟩
      rw [hF.self.present] at hp
      exact ⟨hp, hF.self.pfn _ hp⟩
    · rw [hF.other k hki hkj]
      exact ⟨k, rfl, rfl, fun l hp => ⟨hp, rfl⟩⟩
  obtain ⟨hcached, hfile⟩ := files_congr hF.cache hF.content hF.data
  refine h.of_same ⟨⟨B, hacc, fun k => ?_, fun k b q hb hpr => ?_⟩, fun k => ?_, fun k hk => ?_, fun vn hlt => ?_,
    fun k w hw => ?_, fun k p hk => ht.cached k p (by rw [← hcached]; exact hk)⟩ (fun vn => ?_) hfile
  · obtain ⟨k', hv, -⟩ := horigin k
    rw [hv]
    exact hs.aligned k'
  · obtain ⟨k', hv, -, hp⟩ := horigin k
    obtain ⟨hpi, hpfn⟩ := hp _ hpr
    rw [hcached, hpfn, ← hs.entry k' b q hb hpi]
    unfold sharedAt
    rw [hv]
  · obtain ⟨k', -, hn, -⟩ := horigin k
    exact (congrArg (· % PAGE_SIZE) hn).trans (ht.next k')
  · by_cases hkj : k = j
    · rw [hkj] at hk; exact absurd hlive hk
    · refine (hvmas k hkj).trans (ht.dead k ?_)
      rwa [← hapart.live k hkj]
  · dsimp only; rw [hF.content]; exact ht.opened vn hlt
  · obtain ⟨k', hv, -⟩ := horigin k
    exact ht.areas k' w (hv ▸ hw)
  · constructor
    · rintro ⟨k, w, hw, hx⟩
      obtain ⟨k', hv, -⟩ := horigin k
      exact ⟨k', w, hv ▸ hw, hx⟩
    · rintro ⟨k, w, hw, hx⟩
      -- the child had no areas
      have hkj : k ≠ j := by
        rintro rfl
        rw [ht.dead k hj] at hw
        cases hw
      exact ⟨k, w, by dsimp only; rw [hvmas k hkj]; exact hw, hx⟩

theorem mapStep_coherent {e : MapEvent ι} (hc : Orderly s e) (hs : mapStep disk s e = some s') :
    Coherent disk s' := by
  rcases e with f | ⟨mem, i, addr, len, prot, fl, vn, size, offset⟩ | ⟨mem, i, addr, len, prot⟩ | ⟨i, j, nv⟩ |
    ⟨env, i, a⟩ | ⟨env, i, a, b⟩
  · cases hs
    exact h.openVnode f
  all_goals
    obtain ⟨hl, hs⟩ := ite_none_right_eq_some.1 hs
  · obtain ⟨⟨r, m⟩, hm, rfl⟩ := map_eq_some_iff.1 hs
    exact h.mmap hl.1 hl.2 hc hm
  · cases hs
    exact h.mprotect hl
  · obtain ⟨m, hm, rfl⟩ := map_eq_some_iff.1 hs
    exact h.fork hl.1 hl.2 hc hm
  · obtain ⟨⟨r, m⟩, hr, rfl⟩ := map_eq_some_iff.1 hs
    obtain ⟨⟨q, m'⟩, hacc, he⟩ := map_eq_some_iff.1 hr
    cases he
    obtain ⟨B, hsh⟩ := h.tidy.shares
    obtain ⟨h1, hb, -⟩ := access_shares hsh hl a.2 harmless_read (fun _ => hc.room) hacc
    exact h.brought hl h1 hb
  · exact h.write hl a.2 hc.1 hc.2 hs

end

/-- Processes with memory of their own; no file has been opened. -/
structure NoFiles (s : FileMaps ι) : Prop where
  accounted : ∃ B, Accounted B s.mem
  areas : ∀ i, ∀ v ∈ (s.mem.procs i).vmas, v.Aligned ∧ v.file = none
  next : ∀ i, (s.mem.procs i).mmapNext % PAGE_SIZE = 0
  dead : ∀ i, ¬ s.mem.Live i → (s.mem.procs i).vmas = []
  cache : s.mem.cache = []
  opens : s.opens = []
  wrote : ∀ f offset x, s.wrote f offset x = none

theorem NoFiles.coherent (h : NoFiles s) : Coherent disk s := by
  obtain ⟨B, hB⟩ := h.accounted
  have hcached : ∀ k p, s.mem.cached k ≠ some p := fun k p => by unfold cached; rw [h.cache]; nofun
  have hmapped : ∀ vn, ¬ s.Mapped vn := by
    rintro vn ⟨i, v, hv, -, -, hx⟩
    rw [(h.areas i v hv).2] at hx
    cases hx
  refine ⟨⟨⟨B, hB, fun i v hv => (h.areas i v hv).1, fun i a k _ _ => iff_of_false (fun hk => ?_) (hcached k _)⟩,
    h.next, h.dead, fun vn hlt => ?_, fun i v hv vn hx => ?_, fun k p hk => absurd hk (hcached k p)⟩,
    fun vn _ hx => absurd hx (hmapped vn), fun vn hx => absurd hx (hmapped vn), fun vn hlt => ?_,
    fun f _ => h.wrote f⟩
  · exact hmapped _ (mapped_of_sharedAt hk)
  · rw [h.opens] at hlt; exact absurd hlt (Nat.not_lt_zero vn)
  · rw [(h.areas i v hv).2] at hx; cases hx
  · rw [h.opens] at hlt; exact absurd hlt (Nat.not_lt_zero vn)

variable [DecidableEq ι] in
theorem shared_mapping_coherent {s0 : FileMaps ι} {es : List (MapEvent ι)} (h0 : NoFiles s0)
    (hrun : Run (mapStep disk) Orderly s0 es s) {env : FaultEnv} {i : ι} {a : UserAddr} {k : Nat × Nat} {b : Byte}
    (hk : s.mem.sharedAt i a = some k) (hc : Orderly s (.read env i a))
    (hr : userRead env s.mem i a = some (some b, m)) :
    b = (s.wrote (s.file k.1) k.2 (a % PAGE_SIZE)).getD (disk (s.file k.1) k.2 (a % PAGE_SIZE)) := by
  have h : Coherent disk s := hrun.inv (fun _ _ _ h hc hs => mapStep_coherent h hc hs) h0.coherent
  obtain ⟨⟨q, m'⟩, hacc, he⟩ := map_eq_some_iff.1 hr
  simp only [Prod.mk.injEq, map_eq_some_iff] at he
  obtain ⟨⟨p, rfl, rfl⟩, rfl⟩ := he
  obtain ⟨B, hsh⟩ := h.tidy.shares
  have hl : s.mem.Live i := by
    by_contra hn
    obtain ⟨v, hv, -⟩ := bind_eq_some_iff.1 hk
    rw [h.tidy.dead i hn] at hv
    cases hv
  obtain ⟨h1, hb, hp⟩ := access_shares hsh hl a.2 harmless_read (fun _ => hc.room) hacc
  obtain ⟨rfl, hperm⟩ := hp p rfl
  rw [← h.seen k.1 (mapped_of_sharedAt hk) k.2, ← hb.filePage, filePage_cached,
    (h1.entry i a k a.2 hperm.1).1 (by rw [hb.sharedAt]; exact hk)]
  rfl

end Coherence

instance {ι : Type} [Fintype ι] [DecidableEq ι] (s : FileMaps ι) : (e : MapEvent ι) → Decidable (Orderly s e)
  | .openFile _ => inferInstanceAs (Decidable True)
  | .mmap _ _ _ _ _ _ _ _ _ => by unfold Orderly RangeFree UserPages Vma.SharesVnode; infer_instance
  | .mprotect _ _ _ _ _ => inferInstanceAs (Decidable True)
  | .fork _ _ _ => by unfold Orderly; infer_instance
  | .read _ _ _ => by unfold Orderly CountsLow; infer_instance
  | .write _ _ _ _ => by unfold Orderly CountsLow Harmless; infer_instance

def bootTwo : Memory Who where
  procs := fun _ => { cr3 := 0, user := fun _ => none, vmas := [], mmapNext := USER_MMAP_BASE }
  kern := fun _ => none
  pmm :=
    { bitmapPages := 16, bitmap := fun p => decide (p = 0), pageRefs := fun p => if p = 0 then 1 else 0
      freePages := 15 }
  data := fun _ _ => 0
  cache := []
  content := fun _ _ _ => 0
  wrote := fun _ _ => none

theorem bootTwo_ok : Boot bootTwo := by
  refine ⟨fun _ => ⟨rfl, rfl⟩, rfl, fun p hp => ?_, rfl⟩
  have hp : p ≠ 0 := of_decide_eq_false hp
  exact if_neg hp

def filesStart : FileMaps Who where
  mem := (vmmCreateAddressSpace bootTwo .parent).getD bootTwo
  opens := []
  wrote := fun _ _ _ => none

theorem filesStart_ok : NoFiles filesStart := by
  have hsome : (vmmCreateAddressSpace bootTwo .parent).isSome := by decide
  obtain ⟨m, hm⟩ := isSome_iff_exists.1 hsome
  have hmem : filesStart.mem = m := by unfold filesStart; rw [hm]; rfl
  have hacc := (create_accounted hm (fun hl => hl rfl) bootTwo_ok.accounted).1
  obtain ⟨⟨c, q⟩, -, rfl⟩ := map_eq_some_iff.1 hm
  have hprocs : ∀ i, (filesStart.mem.procs i).vmas = [] ∧ (filesStart.mem.procs i).mmapNext = USER_MMAP_BASE := by
    rintro (_ | _) <;> exact ⟨rfl, rfl⟩
  refine ⟨⟨_, hmem ▸ hacc⟩, fun i v hv => ?_, fun i => by rw [(hprocs i).2]; decide, fun i _ => (hprocs i).1,
    by rw [hmem]; rfl, rfl, fun _ _ _ => rfl⟩
  rw [(hprocs i).1] at hv
  cases hv

def zeroDisk : Nat → Nat → Page := fun _ _ _ => 0

def mmapBase : UserAddr := ⟨USER_MMAP_BASE, by decide⟩

def mmapSecond : UserAddr := ⟨USER_MMAP_BASE + PAGE_SIZE, by decide⟩

def shareFile (vn : Nat) : MapEvent Who :=
  .mmap (fun _ => true) .parent 0 PAGE_SIZE ⟨true, true, false, false⟩ ⟨false, false, true⟩ vn PAGE_SIZE 0

def inheritRun : List (MapEvent Who) :=
  [.openFile 0, shareFile 0, .write ⟨true, true⟩ .parent mmapBase 1, .fork .parent .child 1,
    .write ⟨true, true⟩ .child mmapBase 2]

def twoOpensRun : List (MapEvent Who) :=
  [.openFile 0, .openFile 0, shareFile 0, shareFile 1, .write ⟨true, true⟩ .parent mmapBase 1]

/-- What the parent reads at an address in a state: the page of the file that is shared there, the last byte written
to it, and the byte read. -/
def parentSees (s : FileMaps Who) (a : UserAddr) : Option ((Nat × Nat) × Option Byte × Byte) :=
  (s.mem.sharedAt .parent a).bind fun k =>
    (userRead ⟨true, true⟩ s.mem .parent a).bind fun r =>
      r.1.map fun b => (k, s.wrote (s.file k.1) k.2 (a % PAGE_SIZE), b)

theorem parentSees_some {s : FileMaps Who} {a : UserAddr} {w : Option Byte}
    (h : parentSees s a = some (k, w, b)) : s.mem.sharedAt .parent a = some k ∧
      (∃ m, userRead ⟨true, true⟩ s.mem .parent a = some (some b, m)) ∧
      s.wrote (s.file k.1) k.2 (a % PAGE_SIZE) = w := by
  obtain ⟨k', hk, h⟩ := bind_eq_some_iff.1 h
  obtain ⟨⟨o, m⟩, hr, h⟩ := bind_eq_some_iff.1 h
  obtain ⟨b', rfl, hb⟩ := map_eq_some_iff.1 h
  simp only [Prod.mk.injEq] at hb
  obtain ⟨rfl, hw, rfl⟩ := hb
  exact ⟨hk, ⟨m, hr⟩, hw⟩

theorem sharing_lost : NoFiles filesStart ∧
    (∃ s m k, Run (mapStep zeroDisk) Any filesStart inheritRun s ∧ s.mem.sharedAt .parent mmapBase = some k ∧
      userRead ⟨true, true⟩ s.mem .parent mmapBase = some (some 1, m) ∧
      s.wrote (s.file k.1) k.2 (mmapBase % PAGE_SIZE) = some 2) ∧
    ∃ s m k, Run (mapStep zeroDisk) Any filesStart twoOpensRun s ∧ s.mem.sharedAt .parent mmapSecond = some k ∧
      userRead ⟨true, true⟩ s.mem .parent mmapSecond = some (some 0, m) ∧
      s.wrote (s.file k.1) k.2 (mmapSecond % PAGE_SIZE) = some 1 := by
  have h1 : ((exec (mapStep zeroDisk) filesStart inheritRun).bind fun s => parentSees s mmapBase) =
      some ((0, 0), some 2, 1) := by decide +kernel
  have h2 : ((exec (mapStep zeroDisk) filesStart twoOpensRun).bind fun s => parentSees s mmapSecond) =
      some ((1, 0), some 1, 0) := by decide +kernel
  obtain ⟨s, hs, h1⟩ := bind_eq_some_iff.1 h1
  obtain ⟨t, ht, h2⟩ := bind_eq_some_iff.1 h2
  obtain ⟨hk, ⟨m, hr⟩, hw⟩ := parentSees_some h1
  obtain ⟨hk', ⟨m', hr'⟩, hw'⟩ := parentSees_some h2
  exact ⟨filesStart_ok, ⟨s, m, _, exec_iff.1 hs, hk, hr, hw⟩, t, m', _, exec_iff.1 ht, hk', hr', hw'⟩

/-- Parent and child both make the inherited page writable again; the parent reads what the child writes. -/
def writableRun : List (MapEvent Who) :=
  [.openFile 0, shareFile 0, .write ⟨true, true⟩ .parent mmapBase 1, .fork .parent .child 1,
    .mprotect (fun _ => true) .parent USER_MMAP_BASE PAGE_SIZE ⟨true, true, false, false⟩,
    .mprotect (fun _ => true) .child USER_MMAP_BASE PAGE_SIZE ⟨true, true, false, false⟩,
    .write ⟨true, true⟩ .child mmapBase 2]

theorem shared_mapping_coherent_fork : ∃ s m k, NoFiles filesStart ∧
    Run (mapStep zeroDisk) Orderly filesStart writableRun s ∧ s.mem.sharedAt .parent mmapBase = some k ∧
    Orderly s (.read ⟨true, true⟩ .parent mmapBase) ∧
    userRead ⟨true, true⟩ s.mem .parent mmapBase = some (some 2, m) ∧
    2 = (s.wrote (s.file k.1) k.2 (mmapBase % PAGE_SIZE)).getD (zeroDisk (s.file k.1) k.2 (mmapBase % PAGE_SIZE)) := by
  have h : ((exec (fun s e => if Orderly s e then mapStep zeroDisk s e else none) filesStart writableRun).bind
      fun s => if Orderly s (.read ⟨true, true⟩ .parent mmapBase) then parentSees s mmapBase else none) =
      some ((0, 0), some 2, 2) := by decide +kernel
  obtain ⟨s, hs, h⟩ := bind_eq_some_iff.1 h
  split at h
  swap
  · cases h
  rename_i hc
  obtain ⟨hk, ⟨m, hr⟩, -⟩ := parentSees_some h
  have hrun := run_of_exec hs
  exact ⟨s, m, _, filesStart_ok, hrun, hk, hc, hr, shared_mapping_coherent filesStart_ok hrun hk hc hr⟩

end ExoOS.Mm
