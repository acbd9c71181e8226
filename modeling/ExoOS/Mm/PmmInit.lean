import ExoOS.Mm.PageTable

/-!
# The memory map

`pmm_init`: the bitmap and the counters are laid out in the first usable region that is large enough, everything is
marked used, and the pages of the usable regions are cleared again, except for those of the metadata and page 0.
`Consistent` says that bitmap, counters and `free_pages` agree.
-/

namespace ExoOS.Mm

open Function List Finset

abbrev Addr := BitVec 64

def MEMMAP_USABLE : Nat := 0

structure MemmapEntry where
  base : Addr
  length : Addr
  type : Nat
  deriving DecidableEq

namespace MemmapEntry

def Usable (e : MemmapEntry) : Prop := e.type = MEMMAP_USABLE

instance (e : MemmapEntry) : Decidable e.Usable := inferInstanceAs (Decidable (_ = _))

def Aligned (e : MemmapEntry) : Prop := e.base.toNat % PAGE_SIZE = 0 ∧ e.length.toNat % PAGE_SIZE = 0

def Has (e : MemmapEntry) (a : Nat) : Prop := e.base.toNat ≤ a ∧ a < e.base.toNat + e.length.toNat

def Apart (e e' : MemmapEntry) : Prop := ∀ a, ¬ (e.Has a ∧ e'.Has a)

def stop (e : MemmapEntry) : Nat := (e.base + e.length).toNat

def Fits (e : MemmapEntry) : Prop := e.base.toNat + e.length.toNat < 2 ^ 64

def startPage (e : MemmapEntry) : Nat := e.base.toNat / PAGE_SIZE

def numPages (e : MemmapEntry) : Nat := e.length.toNat / PAGE_SIZE

def HasPage (e : MemmapEntry) (p : Nat) : Prop := e.startPage ≤ p ∧ p < e.startPage + e.numPages

end MemmapEntry

def highest (es : List MemmapEntry) : Nat := es.foldl (fun h e => if e.stop > h then e.stop else h) 0

def pageUp (n : Nat) : Nat := (n + PAGE_SIZE - 1) / PAGE_SIZE * PAGE_SIZE

def bitmapBytes (pages : Nat) : Nat := (pages + 7) / 8

def bitmapSpan (pages : Nat) : Nat := pageUp (bitmapBytes pages)

def refsSpan (pages : Nat) : Nat := pageUp (pages * 4)

def metaSpan (pages : Nat) : Nat := bitmapSpan pages + refsSpan pages

def metaRegion (es : List MemmapEntry) (pages : Nat) : Option MemmapEntry :=
  es.find? fun e => decide (e.Usable ∧ ¬ e.length.toNat < metaSpan pages)

namespace Pmm

def clearPage (m : Pmm) (p : Nat) : Pmm :=
  { m with
    bitmap := Function.update m.bitmap p false, pageRefs := Function.update m.pageRefs p 0
    freePages := m.freePages + 1 }

def clearEntry (m : Pmm) (e : MemmapEntry) : Pmm :=
  if e.Usable then (List.range' e.startPage e.numPages).foldl clearPage m else m

/-- A page of the metadata, or page 0. -/
def markUsed (m : Pmm) (p : Nat) : Pmm :=
  if m.bitmap p then m
  else
    { m with
      bitmap := Function.update m.bitmap p true, pageRefs := Function.update m.pageRefs p 1
      freePages := m.freePages - 1 }

/-- After the two `memset` calls; behind the bytes they write the memory is as before. -/
def allUsed (bits : Nat → Bool) (refs : Nat → Nat) (pages : Nat) : Pmm :=
  { bitmapPages := pages
    bitmap := fun p => if p < 8 * bitmapBytes pages then true else bits p
    pageRefs := fun p => if p < pages then 0x01010101 else refs p
    freePages := 0 }

/-- `pmm_init`; `none` is the panic, or the fault on a bit that is not in the bitmap: the region wraps around, and the
bit's address is not canonical. `bits` and `refs` are what the memory of the metadata held before. -/
def init (es : List MemmapEntry) (hhdm : Addr) (bits : Nat → Bool) (refs : Nat → Nat) : Option Pmm :=
  let pages := highest es / PAGE_SIZE
  match metaRegion es pages with
  | none => none
  | some r =>
    let refsPhys := r.base + BitVec.ofNat 64 (bitmapSpan pages)
    if r.base + hhdm = 0 ∨ refsPhys + hhdm = 0 then none
    else if ∃ e ∈ es, e.Usable ∧ 0 < e.numPages ∧ pages < e.startPage + e.numPages then none
    else
      let m := es.foldl clearEntry (allUsed bits refs pages)
      let m := (List.range' (r.base.toNat / PAGE_SIZE) (bitmapSpan pages / PAGE_SIZE)).foldl markUsed m
      let m := (List.range' (refsPhys.toNat / PAGE_SIZE) (refsSpan pages / PAGE_SIZE)).foldl markUsed m
      some (m.markUsed 0)

def clearPages (m : Pmm) : Finset Nat := (Finset.range m.bitmapPages).filter fun p => m.bitmap p = false

structure Consistent (m : Pmm) : Prop where
  lt : m.bitmapPages < 2 ^ 64
  agree : ∀ p, p < m.bitmapPages → (m.bitmap p = true ↔ m.pageRefs p ≠ 0)
  free : m.freePages.toNat = m.clearPages.card

variable {m m' : Pmm} {p q : Nat}

theorem mem_clearPages : p ∈ m.clearPages ↔ p < m.bitmapPages ∧ m.bitmap p = false := by
  rw [clearPages, Finset.mem_filter, Finset.mem_range]

theorem clearPages_card_le : m.clearPages.card ≤ m.bitmapPages :=
  (Finset.card_filter_le _ _).trans (Finset.card_range _).le

section

variable {r : Nat}

theorem clearPages_use (m : Pmm) (p r : Nat) (f : BitVec 64) :
    clearPages ⟨m.bitmapPages, update m.bitmap p true, update m.pageRefs p r, f⟩ = m.clearPages.erase p := by
  ext q
  rw [mem_erase, mem_clearPages, mem_clearPages]
  by_cases hq : q = p
  · subst hq
    simp
  · simp [hq]

theorem clearPages_release (m : Pmm) (hp : p < m.bitmapPages) (r : Nat) (f : BitVec 64) :
    clearPages ⟨m.bitmapPages, update m.bitmap p false, update m.pageRefs p r, f⟩ = insert p m.clearPages := by
  ext q
  rw [mem_insert, mem_clearPages, mem_clearPages]
  by_cases hq : q = p
  · subst hq
    simp [hp]
  · simp [hq]

namespace Consistent

section

variable (h : m.Consistent)
include h

section

variable (hp : p < m.bitmapPages)
include hp

theorem use (hb : m.bitmap p = false) (hr : r ≠ 0) :
    Consistent ⟨m.bitmapPages, update m.bitmap p true, update m.pageRefs p r, m.freePages - 1⟩ := by
  have hmem := mem_clearPages.2 ⟨hp, hb⟩
  have hpos := card_pos.2 ⟨p, hmem⟩
  refine ⟨h.lt, ?_, ?_⟩
  · intro q hq
    by_cases hqp : q = p
    · subst hqp
      simp [hr]
    · simpa [hqp] using h.agree q hq
  · rw [clearPages_use, card_erase_of_mem hmem, ← h.free]
    rw [← h.free] at hpos
    dsimp only
    bv_omega

theorem release (hb : m.bitmap p) : Consistent
      ⟨m.bitmapPages, update m.bitmap p false, update m.pageRefs p 0, m.freePages + 1⟩ := by
  refine ⟨h.lt, ?_, ?_⟩
  · intro q hq
    by_cases hqp : q = p
    · subst hqp
      simp
    · simpa [hqp] using h.agree q hq
  · have hn : p ∉ m.clearPages := by
      intro hm
      rw [(mem_clearPages.1 hm).2] at hb
      cases hb
    have hle := (clearPages_release m hp 0 0 ▸ clearPages_card_le).trans_lt h.lt
    rw [clearPages_release m hp, card_insert_of_notMem hn, ← h.free]
    rw [card_insert_of_notMem hn, ← h.free] at hle
    dsimp only
    bv_omega

omit hp in
theorem recount (hb : m.bitmap p) (hr : r ≠ 0) : Consistent { m with pageRefs := update m.pageRefs p r } := by
  refine ⟨h.lt, ?_, ?_⟩
  · intro q hq
    by_cases hqp : q = p
    · subst hqp
      simp [hb, hr]
    · simpa [hqp] using h.agree q hq
  · exact h.free

theorem markUsed : (m.markUsed p).Consistent := by
  unfold Pmm.markUsed
  split
  · exact h
  rename_i hb
  exact h.use hp (by simpa using hb) Nat.one_ne_zero

end

end

end Consistent

@[simp] theorem markUsed_bitmapPages (p : Nat) : (m.markUsed p).bitmapPages = m.bitmapPages := by
  unfold Pmm.markUsed
  split <;> rfl

end

section

variable {start n : Nat} {e : MemmapEntry} {es : List MemmapEntry}

theorem Consistent.clearRange (h : m.Consistent) (hle : start + n ≤ m.bitmapPages)
    (hb : ∀ q, start ≤ q → q < start + n → m.bitmap q) :
    let m' := (List.range' start n).foldl clearPage m
    m'.Consistent ∧ m'.bitmapPages = m.bitmapPages ∧ ∀ q, ¬ (start ≤ q ∧ q < start + n) → m'.bitmap q = m.bitmap q := by
  induction n generalizing start m with
  | zero => exact ⟨h, rfl, fun _ _ => rfl⟩
  | succ n ih =>
    rw [range'_succ, foldl_cons]
    have hbit : ∀ q, q ≠ start → (m.clearPage start).bitmap q = m.bitmap q := fun q hq => update_of_ne hq ..
    obtain ⟨h1, h2, h3⟩ := @ih (m.clearPage start) (start + 1)
      (h.release (by omega) (hb start (by omega) (by omega))) (by show _ ≤ m.bitmapPages; omega)
      fun q hq hq' => (hbit q (by omega)).trans (hb q (by omega) (by omega))
    refine ⟨h1, h2, fun q hq => ?_⟩
    rw [h3 q (by omega), hbit q (by omega)]

theorem Consistent.clearEntries (h : m.Consistent) (hd : es.Pairwise fun e e' => ∀ q, ¬ (e.HasPage q ∧ e'.HasPage q))
    (hle : ∀ e ∈ es, e.Usable → e.startPage + e.numPages ≤ m.bitmapPages)
    (hb : ∀ e ∈ es, e.Usable → ∀ q, e.HasPage q → m.bitmap q) :
    (es.foldl clearEntry m).Consistent ∧ (es.foldl clearEntry m).bitmapPages = m.bitmapPages := by
  induction es generalizing m with
  | nil => exact ⟨h, rfl⟩
  | cons e es ih =>
    rw [foldl_cons]
    obtain ⟨he, hd⟩ := pairwise_cons.1 hd
    have hle' := fun e' he' => hle e' (mem_cons_of_mem _ he')
    have hb' := fun e' he' => hb e' (mem_cons_of_mem _ he')
    by_cases hu : e.Usable
    · obtain ⟨h1, h2, h3⟩ := h.clearRange (hle e mem_cons_self hu) fun q hq hq' => hb e mem_cons_self hu q ⟨hq, hq'⟩
      rw [clearEntry, if_pos hu]
      obtain ⟨h4, h5⟩ := ih h1 hd (fun e' he' hu' => (hle' e' he' hu').trans h2.ge)
        fun e' he' hu' q hq => (h3 q fun hq' => he e' he' q ⟨hq', hq⟩).trans (hb' e' he' hu' q hq)
      exact ⟨h4, h5.trans h2⟩
    · rw [clearEntry, if_neg hu]
      exact ih h hd hle' hb'

theorem Consistent.markRange (h : m.Consistent) (start n : Nat) (hle : start + n ≤ m.bitmapPages) :
    ((List.range' start n).foldl Pmm.markUsed m).Consistent ∧
      ((List.range' start n).foldl Pmm.markUsed m).bitmapPages = m.bitmapPages := by
  induction n generalizing start m with
  | zero => exact ⟨h, rfl⟩
  | succ n ih =>
    have hpages : (m.markUsed start).bitmapPages = m.bitmapPages := markUsed_bitmapPages start
    obtain ⟨h1, h2⟩ := ih (h.markUsed (p := start) (by omega)) (start + 1) (by omega)
    exact ⟨h1, h2.trans hpages⟩

end

section

variable (bits : Nat → Bool) (refs : Nat → Nat) {n : Nat}

theorem allUsed_bitmap (hp : p < n) : (allUsed bits refs n).bitmap p := by
  refine if_pos ?_
  unfold bitmapBytes
  omega

theorem consistent_allUsed {n : Nat} (hn : n < 2 ^ 64) : (allUsed bits refs n).Consistent := by
  refine ⟨hn, ?_, ?_⟩
  · intro p hp
    have hbit : (allUsed bits refs n).bitmap p := allUsed_bitmap bits refs hp
    have href : (allUsed bits refs n).pageRefs p = 0x01010101 := if_pos hp
    rw [hbit, href]
    decide
  · refine (Finset.card_eq_zero.2 (Finset.filter_eq_empty_iff.2 fun p hp => ?_)).symm
    have hbit : (allUsed bits refs n).bitmap p := allUsed_bitmap bits refs (Finset.mem_range.1 hp)
    rw [hbit]
    decide

end

end Pmm

variable {es : List MemmapEntry} {e e' : MemmapEntry}

theorem highest_spec (es : List MemmapEntry) (a : Nat) :
    let b := es.foldl (fun h e => if e.stop > h then e.stop else h) a
    a ≤ b ∧ (∀ e ∈ es, e.stop ≤ b) ∧ (a < 2 ^ 64 → b < 2 ^ 64) := by
  induction es generalizing a with
  | nil => exact ⟨le_rfl, forall_mem_nil _, id⟩
  | cons e es ih =>
    have hlt : e.stop < 2 ^ 64 := (e.base + e.length).isLt
    obtain ⟨h1, h2, h3⟩ := ih (if e.stop > a then e.stop else a)
    have hmax : a ≤ (if e.stop > a then e.stop else a) ∧ e.stop ≤ (if e.stop > a then e.stop else a) := by
      split <;> omega
    refine ⟨hmax.1.trans h1, fun e' he' => ?_, fun ha => h3 (by split <;> omega)⟩
    rcases mem_cons.1 he' with rfl | he'
    · exact hmax.2.trans h1
    · exact h2 e' he'

namespace MemmapEntry

theorem Fits.stop (h : e.Fits) : e.stop = e.base.toNat + e.length.toNat := by
  exact Nat.mod_eq_of_lt h

theorem Fits.pages_le (h : e.Fits) (he : e ∈ es) : e.startPage + e.numPages ≤ highest es / PAGE_SIZE := by
  have hle : e.stop ≤ highest es := (highest_spec es 0).2.1 e he
  rw [h.stop] at hle
  unfold startPage numPages PAGE_SIZE
  omega

theorem Apart.pages (h : e.Apart e') (ha : e.Aligned) (ha' : e'.Aligned) (q : Nat) :
    ¬ (e.HasPage q ∧ e'.HasPage q) := by
  have hbyte : ∀ f : MemmapEntry, f.Aligned → f.HasPage q → f.Has (q * PAGE_SIZE) := by
    rintro f ⟨hb, hl⟩ ⟨h1, h2⟩
    unfold startPage numPages PAGE_SIZE at *
    constructor <;> omega
  rintro ⟨hq, hq'⟩
  exact h _ ⟨hbyte e ha hq, hbyte e' ha' hq'⟩

end MemmapEntry

theorem metaRegion_spec {r : MemmapEntry} {n : Nat} (h : metaRegion es n = some r) :
    r ∈ es ∧ r.Usable ∧ metaSpan n ≤ r.length.toNat := by
  have hp := find?_some h
  rw [decide_eq_true_eq] at hp
  exact ⟨mem_of_find?_eq_some h, hp.1, Nat.not_lt.1 hp.2⟩

theorem pageUp_mod (n : Nat) : pageUp n % PAGE_SIZE = 0 := Nat.mul_mod_left ..

theorem Pmm.init_consistent {hhdm : Addr} {bits : Nat → Bool} {refs : Nat → Nat} {m : Pmm}
    (h : Pmm.init es hhdm bits refs = some m) (ha : ∀ e ∈ es, e.Aligned) (hd : es.Pairwise MemmapEntry.Apart)
    (hfit : ∀ e ∈ es, e.Usable → e.Fits) (hpos : 0 < highest es / PAGE_SIZE) :
    m.Consistent ∧ m.bitmapPages = highest es / PAGE_SIZE := by
  unfold Pmm.init at h
  dsimp only at h
  have hlt : highest es / PAGE_SIZE < 2 ^ 64 := (Nat.div_le_self _ _).trans_lt ((highest_spec es 0).2.2 (by decide))
  split at h
  · cases h
  rename_i r hr
  obtain ⟨hr, hu, hlen⟩ := metaRegion_spec hr
  have hrfit := hfit r hr hu
  have hle : ∀ e ∈ es, e.Usable → e.startPage + e.numPages ≤ highest es / PAGE_SIZE :=
    fun e he hu => (hfit e he hu).pages_le he
  have hrle := hle r hr hu
  have hbm := pageUp_mod (bitmapBytes (highest es / PAGE_SIZE))
  have hrf := pageUp_mod (highest es / PAGE_SIZE * 4)
  change bitmapSpan _ % _ = 0 at hbm
  unfold metaSpan at hlen
  generalize highest es / PAGE_SIZE = n at *
  split_ifs at h
  cases h
  have hpages : es.Pairwise fun e e' => ∀ q, ¬ (e.HasPage q ∧ e'.HasPage q) :=
    hd.imp_of_mem fun he he' hap => hap.pages (ha _ he) (ha _ he')
  obtain ⟨h1, hn1⟩ := (consistent_allUsed bits refs hlt).clearEntries hpages hle
    fun e he hu q hq => allUsed_bitmap bits refs (hq.2.trans_le (hle e he hu))
  change _ = n at hn1
  generalize es.foldl clearEntry (allUsed bits refs n) = m1 at *
  -- the metadata lies at the start of the region
  have hphys : (r.base + BitVec.ofNat 64 (bitmapSpan n)).toNat = r.base.toNat + bitmapSpan n := by
    unfold MemmapEntry.Fits at hrfit
    rw [BitVec.toNat_add, BitVec.toNat_ofNat]
    omega
  unfold MemmapEntry.startPage MemmapEntry.numPages at hrle
  rw [hphys]
  unfold PAGE_SIZE at *
  obtain ⟨h2, hn2⟩ := h1.markRange (r.base.toNat / 4096) (bitmapSpan n / 4096) (by omega)
  obtain ⟨h3, hn3⟩ := h2.markRange ((r.base.toNat + bitmapSpan n) / 4096) (refsSpan n / 4096) (by omega)
  exact ⟨h3.markUsed (by omega), by rw [markUsed_bitmapPages]; omega⟩

end ExoOS.Mm
