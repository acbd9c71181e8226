import Mathlib.Data.List.Fold
import ExoOS.Fs.Bcache
import ExoOS.Lib.Sums

/-!
# The block cache refines a map

In every run in which the devices are registered, no sector is used under two names, and the write-back of an
evicted dirty buffer succeeds, `bcache_get` returns what the map `view` says, and a flush without write errors
leaves the same on the disk (`block_cache_refines`). An evicted buffer whose write-back fails is lost.
-/

namespace ExoOS.Fs

open Function List Transition

variable {devs : DevId → Option Blkdev} {c c' : Bcache} {s s' : BcacheSys} {i j : Nat} {key : DevId × Lba}
  {p : Nat × Lba}

namespace BcacheSys

def Clear (devs : DevId → Option Blkdev) (s : BcacheSys) (key : DevId × Lba) : Prop :=
  ∀ k ∈ s.used, sectorOf devs k = sectorOf devs key → k = key

def Dirty (c : Bcache) (key : DevId × Lba) : Prop :=
  ∃ i, (c.pool i).valid = true ∧ (c.pool i).dirty = true ∧ (c.pool i).key = key

structure Inv (devs : DevId → Option Blkdev) (s : BcacheSys) : Prop where
  lru : ∀ i ∈ s.cache.lru, i < BCACHE_NUM_BUFS
  bound : ∀ i, (s.cache.pool i).valid = true → i < BCACHE_NUM_BUFS
  dirty : ∀ i, (s.cache.pool i).dirty = true → (s.cache.pool i).valid = true
  pins : ∀ i, (s.cache.pool i).refcount = s.pins i
  held : ∀ i, s.pins i ≠ 0 → (s.cache.pool i).valid = true
  /-- A valid buffer is found in its chain, and no other one has its name. -/
  chain : ∀ i, (s.cache.pool i).valid = true → i ∈ s.cache.hash (hashKey (s.cache.pool i).key)
  inj : ∀ i j, (s.cache.pool i).valid = true → (s.cache.pool j).valid = true →
    (s.cache.pool i).key = (s.cache.pool j).key → i = j
  name : ∀ i, (s.cache.pool i).valid = true →
    (s.cache.pool i).key ∈ s.used ∧ (sectorOf devs (s.cache.pool i).key).isSome = true
  clear : ∀ key ∈ s.used, s.Clear devs key
  data : ∀ i, (s.cache.pool i).valid = true → (s.cache.pool i).data = s.view (s.cache.pool i).key
  /-- What is not on the disk is in a dirty buffer. -/
  disk : ∀ key p, sectorOf devs key = some p → s.Clear devs key →
    Dirty s.cache key ∨ s.cache.disk p = s.view key

end BcacheSys

/-! ### One write -/

namespace Bcache

theorem setBuf_self (f : Buf → Buf) : (c.setBuf i f).pool i = f (c.pool i) := update_self ..

theorem setBuf_ne (f : Buf → Buf) (h : j ≠ i) : (c.setBuf i f).pool j = c.pool j := update_of_ne h ..

theorem writeback_eq (out : Option Sector) (h : sectorOf devs (c.pool i).key = some p) :
    c.writeback devs i out = { c with
        disk := update c.disk p (out.getD (c.pool i).data)
        pool := update c.pool i { c.pool i with dirty := (c.pool i).dirty && out.isSome } } := by
  obtain ⟨dev, hdev, hp⟩ := Option.bind_eq_some_iff.1 h
  have hdev' : devs (c.pool i).devId = some dev := hdev
  have hp' : dev.sector (c.pool i).lba = some p := hp
  unfold writeback blkdevWrite
  dsimp only
  rw [hdev']
  dsimp only
  rw [hp']
  rcases out with _ | g
  · simp [setBuf]
  · simp [update_eq_self]

/-- `c'` differs from `c` in dirty flags, which are cleared only, and on the disk. -/
structure Cleans (c c' : Bcache) : Prop where
  hash : c'.hash = c.hash
  lru : c'.lru = c.lru
  valid : ∀ j, (c'.pool j).valid = (c.pool j).valid
  key : ∀ j, (c'.pool j).key = (c.pool j).key
  data : ∀ j, (c'.pool j).data = (c.pool j).data
  refcount : ∀ j, (c'.pool j).refcount = (c.pool j).refcount
  dirty : ∀ j, (c'.pool j).dirty = true → (c.pool j).dirty = true

namespace Cleans

theorem refl (c : Bcache) : Cleans c c :=
  ⟨rfl, rfl, fun _ => rfl, fun _ => rfl, fun _ => rfl, fun _ => rfl, fun _ h => h⟩

theorem trans {c'' : Bcache} (h : Cleans c c') (h' : Cleans c' c'') : Cleans c c'' :=
  ⟨h'.hash.trans h.hash, h'.lru.trans h.lru, fun j => (h'.valid j).trans (h.valid j),
    fun j => (h'.key j).trans (h.key j), fun j => (h'.data j).trans (h.data j),
    fun j => (h'.refcount j).trans (h.refcount j), fun j hd => h.dirty j (h'.dirty j hd)⟩

end Cleans

theorem writeback_pool_ne (out : Option Sector) (h : sectorOf devs (c.pool i).key = some p) (hj : j ≠ i) :
    (c.writeback devs i out).pool j = c.pool j := by
  rw [writeback_eq out h]
  exact update_of_ne hj ..

theorem writeback_pool_self (out : Option Sector) (h : sectorOf devs (c.pool i).key = some p) :
    (c.writeback devs i out).pool i = { c.pool i with dirty := (c.pool i).dirty && out.isSome } := by
  rw [writeback_eq out h]
  exact update_self ..

theorem writeback_cleans (out : Option Sector) (h : sectorOf devs (c.pool i).key = some p) :
    Cleans c (c.writeback devs i out) := by
  refine ⟨?_, ?_, ?_, ?_, ?_, ?_, fun j hd => ?_⟩ <;> try rw [writeback_eq out h]
  · exact Table.update_same rfl
  · exact Table.update_same rfl
  · exact Table.update_same rfl
  · exact Table.update_same rfl
  · by_cases hj : j = i
    · subst hj
      rw [writeback_pool_self out h] at hd
      exact (Bool.and_eq_true_iff.1 hd).1
    · rwa [writeback_pool_ne out h hj] at hd

end Bcache

open Bcache

namespace BcacheSys

theorem Inv.cleans (h : Inv devs s) (hc : Cleans s.cache c')
    (hd : ∀ key p, sectorOf devs key = some p → s.Clear devs key → Dirty c' key ∨ c'.disk p = s.view key) :
    Inv devs { s with cache := c' } := by
  constructor <;> try simp only [hc.lru, hc.valid, hc.key, hc.data, hc.refcount, hc.hash]
  · exact h.lru
  · exact h.bound
  · exact fun j hj => h.dirty j (hc.dirty j hj)
  · exact h.pins
  · exact h.held
  · exact h.chain
  · exact h.inj
  · exact h.name
  · exact h.clear
  · exact h.data
  · exact hd

theorem Dirty.keep (h : Dirty c key) (hne : ∀ j, j ≠ i → c'.pool j = c.pool j)
    (hi : (c.pool i).valid → (c.pool i).dirty → (c.pool i).key ≠ key) : Dirty c' key := by
  obtain ⟨j, h1, h2, h3⟩ := h
  have hj := hne j (by rintro rfl; exact hi h1 h2 h3)
  exact ⟨j, by rw [hj]; exact h1, by rw [hj]; exact h2, by rw [hj]; exact h3⟩

theorem Inv.writeback (h : Inv devs s) (hv : (s.cache.pool i).valid) (hd : (s.cache.pool i).dirty)
    (out : Option Sector) : Inv devs { s with cache := s.cache.writeback devs i out } := by
  obtain ⟨hused, hsome⟩ := h.name i hv
  obtain ⟨p, hp⟩ := Option.isSome_iff_exists.1 hsome
  refine h.cleans (writeback_cleans out hp) fun key q hq hclear => ?_
  have hdisk : (s.cache.writeback devs i out).disk = update s.cache.disk p (out.getD (s.cache.pool i).data) := by
    rw [writeback_eq out hp]
  by_cases hqp : q = p
  · -- the only name of the sector that is written is that of the buffer
    subst hqp
    have hkey := hclear _ hused (hp.trans hq.symm)
    rcases out with _ | g
    · right
      rw [hdisk, update_self, ← hkey]
      exact h.data i hv
    left
    refine ⟨i, ?_, ?_, ?_⟩ <;> rw [writeback_pool_self _ hp]
    · exact hv
    · simp [hd]
    · exact hkey
  · rw [hdisk, update_of_ne hqp]
    refine (h.disk key q hq hclear).imp_left fun hd => hd.keep (fun j => writeback_pool_ne _ hp) fun _ _ hk => ?_
    rw [hk, hq] at hp
    exact hqp (Option.some.inj hp)

/-! ### The flush loops -/

section flush

variable {wanted : Buf → Bool} {out : Nat → Option Sector}

variable (wanted out) in
theorem Inv.flushOne (h : Inv devs s) (i : Nat) : Inv devs { s with cache := flushOne devs wanted out s.cache i } ∧
    Cleans s.cache (flushOne devs wanted out s.cache i) ∧
    ((s.cache.pool i).valid → wanted (s.cache.pool i) → out i = none →
      ((flushOne devs wanted out s.cache i).pool i).dirty = false) := by
  unfold Bcache.flushOne
  split
  · rename_i hc
    simp only [Bool.and_eq_true] at hc
    obtain ⟨p, hp⟩ := Option.isSome_iff_exists.1 (h.name i hc.1.1).2
    refine ⟨h.writeback hc.1.1 hc.1.2 (out i), writeback_cleans (out i) hp, fun _ _ hout => ?_⟩
    rw [writeback_pool_self _ hp, hout]
    exact Bool.and_false _
  · rename_i hc
    refine ⟨h, .refl _, fun hv hw _ => ?_⟩
    simpa [hv, hw] using hc

variable (wanted out) in
/-- The loop keeps the invariant; where all writes succeed, it leaves no wanted buffer dirty. -/
theorem Inv.flush (h : Inv devs s) (hw : ∀ b b', b.key = b'.key → wanted b = wanted b') (l : List Nat) :
    Inv devs { s with cache := l.foldl (Bcache.flushOne devs wanted out) s.cache } ∧
    Cleans s.cache (l.foldl (Bcache.flushOne devs wanted out) s.cache) ∧
    ((∀ i, out i = none) → ∀ i ∈ l, (s.cache.pool i).valid → wanted (s.cache.pool i) →
      ((l.foldl (Bcache.flushOne devs wanted out) s.cache).pool i).dirty = false) := by
  induction l generalizing s with
  | nil => exact ⟨h, .refl _, fun _ i hi => absurd hi not_mem_nil⟩
  | cons k l ih =>
    obtain ⟨h1, h2, h3⟩ := h.flushOne wanted out k
    obtain ⟨h4, h5, h6⟩ := ih h1
    refine ⟨h4, h2.trans h5, fun hout i hi hv hwi => ?_⟩
    rcases mem_cons.1 hi with rfl | hi
    · -- cleaned in this round, and no later round makes it dirty
      by_contra hd
      have hstill := h5.dirty i (by simpa using hd)
      rw [h3 hv hwi (hout i)] at hstill
      cases hstill
    · refine h6 hout i hi ((h2.valid i).trans hv) ?_
      rw [hw _ _ (h2.key i)]
      exact hwi

variable (wanted) in
theorem Inv.flushed (h : Inv devs s) (hw : ∀ b b', b.key = b'.key → wanted b = wanted b') (hout : ∀ i, out i = none)
    (hp : sectorOf devs key = some p) (hc : s.Clear devs key) (hkey : ∀ b : Buf, b.key = key → wanted b) :
    ((range BCACHE_NUM_BUFS).foldl (Bcache.flushOne devs wanted out) s.cache).disk p = s.view key := by
  obtain ⟨h1, h2, h3⟩ := h.flush wanted out hw (range BCACHE_NUM_BUFS)
  rcases h1.disk key p hp hc with ⟨i, hv, hd, hk⟩ | hsame
  · have hv' := (h2.valid i).symm.trans hv
    rw [h3 hout i (mem_range.2 (h.bound i hv')) hv' (hkey _ ((h2.key i).symm.trans hk))] at hd
    cases hd
  · exact hsame

theorem wanted_dev (id : DevId) (b b' : Buf) (h : b.key = b'.key) : (b.devId == id) = (b'.devId == id) :=
  congrArg (·.1 == id) h

end flush

theorem mem_hashRemove {b : Nat} (hj : j ≠ i) (h : j ∈ c.hash b) : j ∈ (c.hashRemove i).hash b := by
  unfold hashRemove
  split
  · exact h
  dsimp only
  by_cases hb : b = hashKey (c.pool i).key
  · subst hb
    rw [update_self]
    exact (mem_erase_of_ne hj).2 h
  · rw [update_of_ne hb]
    exact h

theorem hashRemove_rest : (c.hashRemove i).pool = c.pool ∧ (c.hashRemove i).lru = c.lru ∧
    (c.hashRemove i).disk = c.disk := by
  unfold hashRemove
  split <;> exact ⟨rfl, rfl, rfl⟩

theorem drop_pool_ne (hj : j ≠ i) : (((c.hashRemove i).lruRemove i).setBuf i dropped).pool j = c.pool j := by
  rw [setBuf_ne _ hj]
  exact congrFun hashRemove_rest.1 j

theorem drop_pool_self : (((c.hashRemove i).lruRemove i).setBuf i dropped).pool i = dropped (c.pool i) := by
  rw [setBuf_self]
  exact congrArg (fun f => dropped (f i)) hashRemove_rest.1

structure BufOk (devs : DevId → Option Blkdev) (s : BcacheSys) (i : Nat) : Prop where
  bound : (s.cache.pool i).valid = true → i < BCACHE_NUM_BUFS
  dirty : (s.cache.pool i).dirty = true → (s.cache.pool i).valid = true
  pins : (s.cache.pool i).refcount = s.pins i
  held : s.pins i ≠ 0 → (s.cache.pool i).valid = true
  chain : (s.cache.pool i).valid = true → i ∈ s.cache.hash (hashKey (s.cache.pool i).key)
  name : (s.cache.pool i).valid = true →
    (s.cache.pool i).key ∈ s.used ∧ (sectorOf devs (s.cache.pool i).key).isSome = true
  data : (s.cache.pool i).valid = true → (s.cache.pool i).data = s.view (s.cache.pool i).key

section

variable (h : Inv devs s)
include h

/-- A step that changes the buffer `i` only. -/
theorem Inv.put (hb : BufOk devs s' i) (hne : ∀ j, j ≠ i → s'.cache.pool j = s.cache.pool j)
    (hp : ∀ j, j ≠ i → s'.pins j = s.pins j) (hc : ∀ j, j ≠ i → ∀ b, j ∈ s.cache.hash b → j ∈ s'.cache.hash b)
    (hu : ∀ k ∈ s.used, k ∈ s'.used)
    (hj : ∀ j, j ≠ i → (s.cache.pool j).valid → s'.view (s.cache.pool j).key = s.view (s.cache.pool j).key ∧
      ((s'.cache.pool i).valid → (s.cache.pool j).key ≠ (s'.cache.pool i).key))
    (hlru : ∀ j ∈ s'.cache.lru, j < BCACHE_NUM_BUFS) (hclear : ∀ key ∈ s'.used, s'.Clear devs key)
    (hdisk : ∀ key p, sectorOf devs key = some p → s'.Clear devs key →
      Dirty s'.cache key ∨ s'.cache.disk p = s'.view key) : Inv devs s' := by
  have hbufs : ∀ j, BufOk devs s' j := fun j => by
    by_cases hji : j = i
    · exact hji ▸ hb
    constructor <;> rw [hne j hji]
    · exact h.bound j
    · exact h.dirty j
    · rw [hp j hji]
      exact h.pins j
    · rw [hp j hji]
      exact h.held j
    · exact fun hv => hc j hji _ (h.chain j hv)
    · exact fun hv => (h.name j hv).imp_left (hu _)
    · exact fun hv => (h.data j hv).trans (hj j hji hv).1.symm
  refine ⟨hlru, fun j => (hbufs j).bound, fun j => (hbufs j).dirty, fun j => (hbufs j).pins, fun j => (hbufs j).held,
    fun j => (hbufs j).chain, fun j k h1 h2 hk => ?_, fun j => (hbufs j).name, hclear, fun j => (hbufs j).data, hdisk⟩
  by_cases hji : j = i <;> by_cases hki : k = i
  · exact hji.trans hki.symm
  · subst hji
    rw [hne k hki] at h2 hk
    exact absurd hk.symm ((hj k hki h2).2 h1)
  · subst hki
    rw [hne j hji] at h1 hk
    exact absurd hk ((hj j hji h1).2 h2)
  · rw [hne j hji, hne k hki] at hk
    exact h.inj j k (hne j hji ▸ h1) (hne k hki ▸ h2) hk

theorem Inv.drop (hd : (s.cache.pool i).dirty = false) (hp : s.pins i = 0) :
    Inv devs { s with cache := ((s.cache.hashRemove i).lruRemove i).setBuf i dropped } := by
  obtain ⟨-, hlru, hdisk⟩ := hashRemove_rest (c := s.cache) (i := i)
  refine h.put (i := i) ?_ (fun j => drop_pool_ne) (fun _ _ => rfl) (fun j hj _ => mem_hashRemove hj) (fun _ hk => hk)
    (fun j _ _ => ⟨rfl, ?_⟩) (fun j hj => ?_) h.clear fun key p hkey hclear => ?_
  · constructor <;> dsimp only <;> rw [drop_pool_self]
    · nofun
    · nofun
    · exact h.pins i
    · exact fun hj => absurd hp hj
    all_goals nofun
  · dsimp only
    rw [drop_pool_self]
    nofun
  · refine h.lru j ?_
    rw [← hlru]
    exact mem_of_mem_erase hj
  · refine (h.disk key p hkey hclear).imp (fun hk => hk.keep (fun j => drop_pool_ne) fun _ hd' => ?_)
      (congrFun hdisk p).trans
    rw [hd] at hd'
    cases hd'

theorem Inv.victim (hv : s.cache.victim = some i) : i < BCACHE_NUM_BUFS ∧ s.pins i = 0 := by
  refine ⟨h.lru i (mem_reverse.1 (mem_of_find?_eq_some hv)), ?_⟩
  have hz := find?_some hv
  rw [← h.pins]
  simpa using hz

theorem Inv.evict (hp : s.pins i = 0) {out : Option Sector}
    (hout : (s.cache.pool i).dirty → out = none) :
    Inv devs { s with cache := s.cache.evict devs i out } ∧
    ((s.cache.evict devs i out).pool i).valid = false ∧ ((s.cache.evict devs i out).pool i).refcount = 0 ∧
    ∀ j, ((s.cache.evict devs i out).pool j).valid →
      (s.cache.pool j).valid ∧ ((s.cache.evict devs i out).pool j).key = (s.cache.pool j).key := by
  -- the write-back first, so that the victim is clean
  obtain ⟨c1, hc1, h1, hcl, hd⟩ : ∃ c1,
      c1 = (if (s.cache.pool i).dirty then s.cache.writeback devs i out else s.cache) ∧
      Inv devs { s with cache := c1 } ∧ Cleans s.cache c1 ∧ (c1.pool i).dirty = false := by
    refine ⟨_, rfl, ?_⟩
    split
    · rename_i hd
      have hv := h.dirty i hd
      obtain ⟨p, hsec⟩ := Option.isSome_iff_exists.1 (h.name i hv).2
      refine ⟨h.writeback hv hd out, writeback_cleans out hsec, ?_⟩
      rw [writeback_pool_self out hsec, hout hd]
      exact Bool.and_false _
    · rename_i hd
      exact ⟨h, .refl _, by simpa using hd⟩
  have he : s.cache.evict devs i out = ((c1.hashRemove i).lruRemove i).setBuf i dropped := by rw [hc1]; rfl
  rw [he]
  refine ⟨h1.drop hd hp, ?_, ?_, fun j hj => ?_⟩
  · rw [drop_pool_self]; rfl
  · rw [drop_pool_self]
    show (c1.pool i).refcount = 0
    rw [hcl.refcount, h.pins, hp]
  · have hji : j ≠ i := by
      rintro rfl
      rw [drop_pool_self] at hj
      cases hj
    rw [drop_pool_ne hji] at hj ⊢
    exact ⟨(hcl.valid j).symm.trans hj, hcl.key j⟩

end

/-! ### `bcache_get` -/

theorem cached_some (hi : c.cached key = some i) : (c.pool i).valid ∧ (c.pool i).key = key := by
  have hb := find?_some hi
  simp only [Bool.and_eq_true, beq_iff_eq] at hb
  exact ⟨hb.2, hb.1⟩

theorem Inv.cached_none (h : Inv devs s) (hn : s.cache.cached key = none) (hj : (s.cache.pool j).valid) :
    (s.cache.pool j).key ≠ key := by
  rintro rfl
  have hno := find?_eq_none.1 hn j (h.chain j hj)
  simp [hj] at hno

variable {l : List Nat}

/-- One valid buffer changes but keeps its name: its data become `v`, the new contents of its sector, and it is
dirty unless these are the old ones. -/
theorem Inv.refill (h : Inv devs s) (hv : (s.cache.pool i).valid) {b : Buf} {n : Nat}
    {v : Sector} (hb : b.valid) (hk : b.key = (s.cache.pool i).key) (hdata : b.data = v) (hn : b.refcount = n)
    (hl : ∀ j ∈ l, j < BCACHE_NUM_BUFS)
    (hd : b.dirty ∨ v = s.view (s.cache.pool i).key ∧ b.dirty = (s.cache.pool i).dirty) :
    Inv devs
      { s with
        cache := { s.cache with pool := update s.cache.pool i b, lru := l }
        view := update s.view (s.cache.pool i).key v
        pins := update s.pins i n } := by
  have hself : update s.cache.pool i b i = b := update_self ..
  have hne : ∀ j, j ≠ i → update s.cache.pool i b j = s.cache.pool j := fun j hj => update_of_ne hj ..
  refine h.put (i := i) ?_ hne (fun j hj => update_of_ne hj ..) (fun _ _ _ hm => hm) (fun _ hu => hu)
    (fun j hj hvj => ?_) hl h.clear fun key p hp hclear => ?_
  · constructor <;> dsimp only <;> rw [hself]
    · exact fun _ => h.bound i hv
    · exact fun _ => hb
    · rw [update_self, hn]
    · exact fun _ => hb
    · exact fun _ => hk ▸ h.chain i hv
    · exact fun _ => hk ▸ h.name i hv
    · rw [hk, update_self]
      exact fun _ => hdata
  · have hkey : (s.cache.pool j).key ≠ (s.cache.pool i).key := fun he => hj (h.inj j i hvj hv he)
    refine ⟨update_of_ne hkey .., fun _ => ?_⟩
    dsimp only
    rwa [hself, hk]
  · dsimp only
    by_cases hki : key = (s.cache.pool i).key
    · subst hki
      have hself' : b.dirty → Dirty { s.cache with pool := update s.cache.pool i b, lru := l } _ := fun hd =>
        ⟨i, (congrArg Buf.valid hself).trans hb, (congrArg Buf.dirty hself).trans hd, (congrArg Buf.key hself).trans hk⟩
      rcases hd with hd | ⟨rfl, hd⟩
      · exact .inl (hself' hd)
      rw [update_self]
      refine (h.disk _ p hp hclear).imp_left fun ⟨j, h1, h2, h3⟩ => hself' ?_
      obtain rfl := h.inj j i h1 hv h3
      exact hd.trans h2
    · rw [update_of_ne hki]
      exact (h.disk key p hp hclear).imp_left fun hk => hk.keep hne fun _ _ h3 => hki h3.symm

theorem Inv.refill_same (h : Inv devs s) (hv : (s.cache.pool i).valid) (f : Buf → Buf) {n : Nat}
    (hb : (f (s.cache.pool i)).valid = (s.cache.pool i).valid) (hk : (f (s.cache.pool i)).key = (s.cache.pool i).key)
    (hdata : (f (s.cache.pool i)).data = (s.cache.pool i).data) (hn : (f (s.cache.pool i)).refcount = n)
    (hl : ∀ j ∈ l, j < BCACHE_NUM_BUFS) (hd : (f (s.cache.pool i)).dirty = (s.cache.pool i).dirty) :
    Inv devs
      { s with
        cache := { s.cache.setBuf i f with lru := l }
        pins := update s.pins i n } := by
  have hu := h.refill hv (hb.trans hv) hk (hdata.trans (h.data i hv)) hn hl (.inr ⟨rfl, hd⟩)
  rw [update_eq_self] at hu
  exact hu

theorem Inv.use (h : Inv devs s) (hk : key ∈ s.used) : Inv devs { s with used := key :: s.used } := by
  have hmem : ∀ k ∈ key :: s.used, k ∈ s.used := forall_mem_cons.2 ⟨hk, fun _ hm => hm⟩
  exact { h with
    name := fun j hj => ⟨mem_cons_of_mem _ (h.name j hj).1, (h.name j hj).2⟩
    clear := fun k hm k' hm' => h.clear k (hmem k hm) k' (hmem k' hm')
    disk := fun k p hp hclear => h.disk k p hp fun k' hm' => hclear k' (mem_cons_of_mem _ hm') }

theorem Inv.hit (h : Inv devs s) (hi : s.cache.cached key = some i) (hpin : s.pins i + 1 < 2 ^ 32) : Inv devs
      { s with
        cache := ((s.cache.setBuf i fun b => { b with refcount := (b.refcount + 1) % 2 ^ 32 }).lruRemove i)
          |>.lruPushFront i
        used := key :: s.used
        pins := update s.pins i (s.pins i + 1) } := by
  obtain ⟨hv, rfl⟩ := cached_some hi
  have hu := h.refill_same hv (fun b => { b with refcount := (b.refcount + 1) % 2 ^ 32 })
    (l := i :: s.cache.lru.erase i) (n := s.pins i + 1) rfl rfl rfl ?_ ?_ rfl
  · exact hu.use (h.name i hv).1
  · rw [h.pins, Nat.mod_eq_of_lt hpin]
  · exact forall_mem_cons.2 ⟨h.bound i hv, fun j hj => h.lru j (mem_of_mem_erase hj)⟩

/-- `c'` is `c` with a new sector in the buffer `i`. -/
structure Fills (c : Bcache) (i : Nat) (id : DevId) (lba : Lba) (data : Sector) (c' : Bcache) : Prop where
  self : c'.pool i = filled id lba data
  other : ∀ j, j ≠ i → c'.pool j = c.pool j
  found : i ∈ c'.hash (hashKey (id, lba))
  chain : ∀ b j, j ∈ c.hash b → j ∈ c'.hash b
  lru : ∀ j ∈ c'.lru, j = i ∨ j ∈ c.lru
  disk : c'.disk = c.disk

theorem fills (c : Bcache) (i : Nat) (id : DevId) (lba : Lba) (data : Sector) :
    Fills c i id lba data (((c.setBuf i fun _ => filled id lba data).hashInsert i).lruPushFront i) := by
  set d := c.setBuf i fun _ => filled id lba data
  have hself : d.pool i = filled id lba data := setBuf_self _
  have hins : (d.hashInsert i).hash = update c.hash (hashKey (id, lba)) (i :: c.hash (hashKey (id, lba))) := by
    unfold hashInsert
    rw [hself]
    rfl
  refine ⟨hself, fun j hj => ?_, ?_, fun b j hj => ?_, fun j hj => mem_cons.1 hj, rfl⟩
  · show d.pool j = _
    exact setBuf_ne _ hj
  · show i ∈ (d.hashInsert i).hash _
    rw [hins, update_self]
    exact mem_cons_self
  · show j ∈ (d.hashInsert i).hash _
    rw [hins]
    by_cases hb : b = hashKey (id, lba)
    · subst hb
      rw [update_self]
      exact mem_cons_of_mem _ hj
    · rw [update_of_ne hb]
      exact hj

theorem Inv.disk_eq (h : Inv devs s) (hp : sectorOf devs key = some p) (hclear : s.Clear devs key)
    (hnone : ∀ j, (s.cache.pool j).valid → (s.cache.pool j).key ≠ key) : s.cache.disk p = s.view key := by
  rcases h.disk _ p hp hclear with ⟨j, h1, -, h3⟩ | hsame
  · exact absurd h3 (hnone j h1)
  · exact hsame

theorem Inv.fill {id : DevId} {lba : Lba} (h : Inv devs s) (hf : Fills s.cache i id lba (s.cache.disk p) c')
    (hi : i < BCACHE_NUM_BUFS) (href : s.pins i = 0) (hp : sectorOf devs (id, lba) = some p)
    (hfree : (s.cache.pool i).valid = false) (hclear : s.Clear devs (id, lba))
    (hnone : ∀ j, (s.cache.pool j).valid → (s.cache.pool j).key ≠ (id, lba)) :
    Inv devs
      { s with
        cache := c'
        used := (id, lba) :: s.used
        pins := update s.pins i (s.pins i + 1) } := by
  refine h.put (i := i) ?_ hf.other (fun j hj => update_of_ne hj ..) (fun j _ b => hf.chain b j)
    (fun _ => mem_cons_of_mem _) (fun j _ hv => ⟨rfl, fun _ => ?_⟩) (fun j hj => ?_) (fun k hk k' hk' hsec => ?_)
    fun k q hq hk => ?_
  · constructor <;> dsimp only <;> rw [hf.self]
    · exact fun _ => hi
    · exact fun _ => rfl
    · rw [update_self, href]
      rfl
    · exact fun _ => rfl
    · exact fun _ => hf.found
    · exact fun _ => ⟨mem_cons_self, Option.isSome_iff_exists.2 ⟨p, hp⟩⟩
    · exact fun _ => h.disk_eq hp hclear hnone
  · dsimp only
    rw [hf.self]
    exact hnone j hv
  · rcases hf.lru j hj with rfl | hj
    · exact hi
    · exact h.lru j hj
  · rcases mem_cons.1 hk with rfl | hk <;> rcases mem_cons.1 hk' with rfl | hk'
    · rfl
    · exact hclear k' hk' hsec
    · exact (hclear k hk hsec.symm).symm
    · exact h.clear k hk k' hk' hsec
  · rw [hf.disk]
    refine (h.disk k q hq fun k' hk' => hk k' (mem_cons_of_mem _ hk')).imp_left fun hd => hd.keep hf.other fun hv => ?_
    rw [hfree] at hv
    cases hv

/-- What a call of `bcache_get` needs: the device is registered, the sector has not been used under another name,
no buffer is held 2³² times, and the write-back of a dirty victim succeeds. -/
structure GetOk (devs : DevId → Option Blkdev) (s : BcacheSys) (id : DevId) (dev : Blkdev) (lba : Lba)
    (out : Option Sector) : Prop where
  registered : devs id = some dev
  clear : s.Clear devs (id, lba)
  pins : ∀ i, s.cache.cached (id, lba) = some i → s.pins i + 1 < 2 ^ 32
  written : ∀ i, s.cache.cached (id, lba) = none → s.cache.victim = some i → (s.cache.pool i).dirty = true → out = none

section get

variable {id : DevId} {dev : Blkdev} {lba : Lba} {out : Option Sector} {ok : Bool}

variable (ok) in
theorem Inv.get (h : Inv devs s) (hok : GetOk devs s id dev lba out) :
    (∃ c', s.cache.get devs id dev lba out ok = (none, c') ∧ Inv devs { s with cache := c' }) ∨
    ∃ i c', s.cache.get devs id dev lba out ok = (some i, c') ∧ (c'.pool i).data = s.view (id, lba) ∧ Inv devs
        { s with
          cache := c'
          used := (id, lba) :: s.used
          pins := update s.pins i (s.pins i + 1) } := by
  unfold Bcache.get
  split
  · rename_i i hi
    obtain ⟨hv, hkey⟩ := cached_some hi
    refine .inr ⟨i, _, rfl, ?_, h.hit hi (hok.pins i hi)⟩
    rw [← hkey, ← h.data i hv]
    exact (congrArg Buf.data (setBuf_self fun b =>
      { b with refcount := (b.refcount + 1) % 2 ^ 32 })).trans rfl
  rename_i hmiss
  split
  · exact .inl ⟨_, rfl, h⟩
  rename_i i hvic
  obtain ⟨hlt, hpin⟩ := h.victim hvic
  obtain ⟨h1, hfree, -, hold⟩ := h.evict hpin (hok.written i hmiss hvic)
  dsimp only
  split
  · -- the read fails, and the buffer goes back to the front of the list
    exact .inl ⟨_, rfl, { h1 with lru := forall_mem_cons.2 ⟨hlt, h1.lru⟩ }⟩
  rename_i data hread
  obtain ⟨p, hsec, hdata⟩ := Option.bind_eq_some_iff.1 hread
  have hp : sectorOf devs (id, lba) = some p := by
    show (devs id).bind _ = _
    rw [hok.registered]
    exact hsec
  rcases ok with _ | _
  · cases hdata
  cases hdata
  have hnone : ∀ j, ((s.cache.evict devs i out).pool j).valid →
      ((s.cache.evict devs i out).pool j).key ≠ (id, lba) := by
    intro j hj
    obtain ⟨hv, hkey⟩ := hold j hj
    rw [hkey]
    exact h.cached_none hmiss hv
  have hf := fills (s.cache.evict devs i out) i id lba ((s.cache.evict devs i out).disk p)
  refine .inr ⟨i, _, rfl, ?_, h1.fill hf hlt hpin hp hfree hok.clear hnone⟩
  rw [hf.self]
  exact h1.disk_eq hp hok.clear hnone

end get

def Careful (devs : DevId → Option Blkdev) (s : BcacheSys) : Op → Prop
  | .get id dev lba out _ => GetOk devs s id dev lba out
  | _ => True

theorem Inv.release (h : Inv devs s) (hi : s.pins i ≠ 0) (out : Option Sector) : Inv devs
      { s with
        cache := s.cache.release devs i out
        pins := update s.pins i (s.pins i - 1) } := by
  have hv := h.held i hi
  have h1 := h.refill_same hv (fun b => { b with refcount := b.refcount - 1 })
    (n := s.pins i - 1) rfl rfl rfl (by dsimp only; rw [h.pins]) h.lru rfl
  unfold Bcache.release
  dsimp only
  split
  · rename_i hd
    refine h1.writeback ?_ hd.2 out
    exact (congrArg Buf.valid (setBuf_self fun b =>
      { b with refcount := b.refcount - 1 })).trans hv
  · exact h1

theorem Inv.modify (h : Inv devs s) (hi : s.pins i ≠ 0) (data : Sector) : Inv devs
      { s with
        cache := s.cache.modify i data
        view := update s.view (s.cache.pool i).key data } := by
  have h1 := h.refill (b := { s.cache.pool i with data := data, dirty := true })
    (h.held i hi) (h.held i hi) rfl rfl (h.pins i) h.lru (.inl rfl)
  rw [update_eq_self] at h1
  exact h1

theorem Inv.step {op : Op} (h : Inv devs s) (hc : Careful devs s op) (hs : step devs s op = some s') : Inv devs s' := by
  rcases op with ⟨id, dev, lba, out, ok⟩ | ⟨i, data⟩ | ⟨i, out⟩ | ⟨id, out⟩ | out
  · dsimp only [BcacheSys.step] at hs
    rcases h.get ok hc with ⟨c', hg, hinv⟩ | ⟨i, c', hg, -, hinv⟩ <;> rw [hg] at hs <;> cases hs
    · exact hinv
    · exact hinv
  · obtain ⟨hi, ⟨⟩⟩ := Option.ite_none_left_eq_some.1 hs
    exact h.modify hi data
  · obtain ⟨hi, ⟨⟩⟩ := Option.ite_none_left_eq_some.1 hs
    exact h.release hi out
  · cases hs
    exact (h.flush _ _ (wanted_dev id) _).1
  · cases hs
    exact (h.flush _ _ (fun _ _ _ => rfl) _).1

theorem Inv.init (devs : DevId → Option Blkdev) (disk : Disk) : Inv devs (init devs disk) := by
  constructor
  case lru =>
    intro j hj
    change j ∈ (range BCACHE_NUM_BUFS).foldl (flip cons) [] at hj
    rwa [foldl_cons_nil, mem_reverse, mem_range] at hj
  case disk =>
    intro key p hp _
    right
    show disk p = ((sectorOf devs key).map disk).getD _
    rw [hp]
    rfl
  case pins => exact fun _ => rfl
  case held => exact fun j hj => absurd rfl hj
  case clear => exact nofun
  all_goals exact nofun

theorem block_cache_refines {disk : Disk} {ops : List Op}
    (hrun : Run (step devs) (Careful devs) (init devs disk) ops s) :
    (∀ id dev lba out ok i c', GetOk devs s id dev lba out → s.cache.get devs id dev lba out ok = (some i, c') →
      (c'.pool i).data = s.view (id, lba)) ∧
    (∀ key p, sectorOf devs key = some p → s.Clear devs key →
      (∃ i, (s.cache.pool i).valid = true ∧ (s.cache.pool i).dirty = true ∧ (s.cache.pool i).key = key ∧
        (s.cache.pool i).data = s.view key) ∨ s.cache.disk p = s.view key) ∧
    (∀ id lba p out, (∀ i, out i = none) → sectorOf devs (id, lba) = some p → s.Clear devs (id, lba) →
      (s.cache.flushDev devs id out).disk p = s.view (id, lba)) ∧
    (∀ key p out, (∀ i, out i = none) → sectorOf devs key = some p → s.Clear devs key →
      (s.cache.syncAll devs out).disk p = s.view key) := by
  have h : Inv devs s := hrun.inv (fun s op s' h hc hs => h.step hc hs) (.init devs disk)
  refine ⟨fun id dev lba out ok i c' hok hg => ?_, fun key p hp hclear => ?_, ?_, ?_⟩
  · rcases h.get ok hok with ⟨_, hg', -⟩ | ⟨i', c'', hg', hdata, -⟩ <;> rw [hg] at hg' <;> cases hg'
    exact hdata
  · rcases h.disk key p hp hclear with ⟨i, h1, h2, rfl⟩ | hsame
    · exact .inl ⟨i, h1, h2, rfl, h.data i h1⟩
    · exact .inr hsame
  · exact fun id lba p out hout hp hc => h.flushed _ (wanted_dev id) hout hp hc fun b hb =>
      (wanted_dev id b ⟨id, lba, b.data, true, true, 0⟩ hb).trans (beq_self_eq_true id)
  · exact fun key p out hout hp hc => h.flushed _ (fun _ _ _ => rfl) hout hp hc fun _ _ => rfl

def Blank (b : Buf) : Prop :=
  b.valid = false ∧ b.dirty = false ∧ b.devId = 0 ∧ b.lba = 0 ∧ b.refcount = 0

instance (b : Buf) : Decidable (Blank b) := inferInstanceAs (Decidable (_ ∧ _))

theorem Blank.dropped {b : Buf} (h : Blank b) : dropped b = b := by
  obtain ⟨hv, hd, hid, hlba, -⟩ := h
  rcases b with ⟨_, _, _, _, _, _⟩
  subst hv hd hid hlba
  rfl

theorem get_rotate {id : DevId} {dev : Blkdev} {lba : Lba} {out : Option Sector} {v : Nat}
    (hl : c.lru = l ++ [v]) (hv : v ∉ l) (hb : Blank (c.pool v)) (hmiss : c.cached (id, lba) = none) :
    c.get devs id dev lba out false = (none, { c with lru := v :: l }) := by
  have hvictim : c.victim = some v := by
    unfold Bcache.victim
    rw [hl, reverse_append]
    exact find?_cons_of_pos (by simpa using hb.2.2.2.2)
  have hevict : c.evict devs v out = { c with lru := l } := by
    unfold Bcache.evict Bcache.hashRemove Bcache.lruRemove
    simp only [hb.1, hb.2.1, Bool.false_eq_true, if_false, Bool.not_false, if_true]
    unfold Bcache.setBuf
    simp only [hb.dropped, update_eq_self, hl, erase_append_right _ hv, erase_cons_head, append_nil]
  have hread : ∀ d, blkdevRead d dev lba false = none := by
    intro d
    unfold blkdevRead
    rcases dev.sector lba with _ | p <;> rfl
  unfold Bcache.get
  rw [hmiss, hvictim]
  dsimp only
  rw [hevict, hread]
  rfl

theorem exec_rotate (devs : DevId → Option Blkdev) (dev : Blkdev) (out : Option Sector) {id : DevId} {lba : Lba}
    {l t : List Nat} (hl : s.cache.lru = l ++ t) (hnd : (l ++ t).Nodup) (hb : ∀ v ∈ t, Blank (s.cache.pool v))
    (hmiss : s.cache.cached (id, lba) = none) :
    exec (step devs) s (List.replicate t.length (.get id dev lba out false)) =
      some { s with cache := { s.cache with lru := t ++ l } } := by
  induction t using reverseRecOn generalizing s l with
  | nil =>
    rw [append_nil] at hl
    rw [← hl]
    rfl
  | append_singleton t v ih =>
    rw [← append_assoc] at hl hnd
    have hv : v ∉ l ++ t := fun hm => (nodup_append.1 hnd).2.2 v hm v mem_cons_self rfl
    have hstep : step devs s (.get id dev lba out false) =
        some { s with cache := { s.cache with lru := v :: (l ++ t) } } := by
      dsimp only [BcacheSys.step]
      rw [get_rotate hl hv (hb v (by simp)) hmiss]
    have hrest := ih (s := { s with cache := { s.cache with lru := v :: (l ++ t) } }) (l := v :: l) rfl
      (nodup_cons.2 ⟨hv, (nodup_append.1 hnd).1⟩) (fun w hw => hb w (mem_append_left _ hw)) hmiss
    rw [length_append, length_singleton, replicate_succ, exec, hstep, Option.bind_some, hrest,
      append_assoc, singleton_append]

def oneDisk (id : DevId) : Option Blkdev := if id = 1 then some (.disk 0) else none

def zeroSector : Sector := fun _ => 0
def oneSector : Sector := fun _ => 1

def failedWrite : List Op :=
  [.get 1 (.disk 0) 0 none true, .modify 0 oneSector, .release 0 (some zeroSector)]

def otherBufs : List Nat := (List.range' 1 511).reverse

def readBack (s : BcacheSys) : Option (BitVec 8 × BitVec 8) :=
  match s.cache.get oneDisk 1 (.disk 0) 0 none true with
  | (some i, c) => some ((c.pool i).data 0, s.view (1, 0) 0)
  | _ => none

theorem allBufs_nodup : ([0] ++ otherBufs).Nodup := by
  unfold otherBufs
  rw [singleton_append, nodup_cons, mem_reverse, mem_range'_1]
  exact ⟨by omega, pairwise_reverse.2 ((nodup_range').imp Ne.symm)⟩

theorem failedWrite_state : ∃ s, exec (step oneDisk) (init oneDisk fun _ => zeroSector) failedWrite = some s ∧
    s.cache.lru = [0] ++ otherBufs ∧ s.cache.cached (1, 1) = none ∧ (∀ v ∈ otherBufs, Blank (s.cache.pool v)) ∧
    ((step oneDisk { s with cache := { s.cache with lru := otherBufs ++ [0] } }
      (.get 1 (.disk 0) 1 (some zeroSector) false)).bind readBack) = some (0, 1) := by
  have hcheck : ((exec (step oneDisk) (init oneDisk fun _ => zeroSector) failedWrite).map fun s =>
      (s.cache.lru, s.cache.cached (1, 1), otherBufs.all fun v => decide (Blank (s.cache.pool v)),
        (step oneDisk { s with cache := { s.cache with lru := otherBufs ++ [0] } }
          (.get 1 (.disk 0) 1 (some zeroSector) false)).bind readBack)) =
      some ([0] ++ otherBufs, none, true, some (0, 1)) := by
    decide +kernel
  obtain ⟨s, hs, h⟩ := Option.map_eq_some_iff.1 hcheck
  simp only [Prod.mk.injEq, all_eq_true, decide_eq_true_eq] at h
  exact ⟨s, hs, h.1, h.2.1, h.2.2.1, h.2.2.2⟩

/-- A failed write-back alone is no harm. -/
theorem block_cache_refines_failedWrite : ∃ s,
    Run (step oneDisk) (Careful oneDisk) (init oneDisk fun _ => zeroSector) failedWrite s ∧
    ∀ dev lba out ok i c', GetOk oneDisk s 1 dev lba out → s.cache.get oneDisk 1 dev lba out ok = (some i, c') →
      (c'.pool i).data = s.view (1, lba) := by
  obtain ⟨s, hs, -⟩ := failedWrite_state
  obtain ⟨s1, h1, hs⟩ := Option.bind_eq_some_iff.1 hs
  obtain ⟨s2, h2, hs⟩ := Option.bind_eq_some_iff.1 hs
  obtain ⟨s3, h3, hs⟩ := Option.bind_eq_some_iff.1 hs
  cases hs
  have hget : Careful oneDisk (init oneDisk fun _ => zeroSector) (.get 1 (.disk 0) 0 none true) :=
    ⟨rfl, nofun, nofun, fun i _ _ hd => nomatch hd⟩
  have hrun : Run (step oneDisk) (Careful oneDisk) (init oneDisk fun _ => zeroSector) failedWrite s :=
    .cons hget h1 (.cons trivial h2 (.cons trivial h3 (.nil s)))
  exact ⟨s, hrun, (block_cache_refines hrun).1 1⟩

/-- Sector 0 is changed and marked dirty, its write-back fails when it is released and again when it is evicted:
the next `bcache_get` returns the old contents. -/
theorem block_cache_loses_write : ∃ ops s i c',
    Run (step oneDisk) Any (init oneDisk fun _ => zeroSector) ops s ∧
    s.cache.get oneDisk 1 (.disk 0) 0 none true = (some i, c') ∧ (c'.pool i).data ≠ s.view (1, 0) := by
  obtain ⟨s1, hs1, hlru, hmiss, hblank, hback⟩ := failedWrite_state
  have hrot := exec_rotate oneDisk (.disk 0) none hlru
    allBufs_nodup hblank hmiss
  obtain ⟨s, hs, hread⟩ := Option.bind_eq_some_iff.1 hback
  have hrun := (exec_iff.1 hs1).append ((exec_iff.1 hrot).append (.cons trivial hs (.nil s)))
  unfold readBack at hread
  split at hread
  · rename_i i c' hget
    refine ⟨_, s, i, c', hrun, hget, fun heq => ?_⟩
    rw [heq, Option.some.injEq, Prod.mk.injEq] at hread
    have := hread.1.symm.trans hread.2
    cases this
  · cases hread

end BcacheSys

end ExoOS.Fs
