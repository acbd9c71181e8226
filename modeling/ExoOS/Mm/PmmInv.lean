import ExoOS.Lib.Run
import ExoOS.Mm.PmmInit

/-!
# Any sequence of calls

The calls of `mm/pmm.c` with 64-bit arguments. Every one of them keeps bitmap, counters and `free_pages` in agreement,
except for a `pmm_page_ref` that wraps a counter.
-/

namespace ExoOS.Mm

open Function Option Transition Pmm

inductive PmmCall
  | allocPages (count : BitVec 64)
  | freePages (phys : Addr) (count : BitVec 64)
  | pageRef (phys : Addr)
  | pageUnref (phys : Addr)

namespace Pmm

def pageOf (phys : Addr) : Nat := phys.toNat / PAGE_SIZE

/-- `pmm_free_pages` in 64 bits: both the bound and the addresses it passes on wrap. -/
def freePhys (m : Pmm) (phys : Addr) (count : BitVec 64) : Pmm :=
  let start := BitVec.ofNat 64 (pageOf phys)
  if (start + count).toNat > m.bitmapPages then m
  else (List.range count.toNat).foldl
    (fun m i => m.pageUnref (pageOf ((start + BitVec.ofNat 64 i) * BitVec.ofNat 64 PAGE_SIZE))) m

def step (m : Pmm) : PmmCall → Option Pmm
  | .allocPages count => some (((m.allocPages count.toNat).map Prod.snd).getD m)
  | .freePages phys count => some (m.freePhys phys count)
  | .pageRef phys => some (m.pageRef (pageOf phys))
  | .pageUnref phys => some (m.pageUnref (pageOf phys))

def NoWrap (m : Pmm) : PmmCall → Prop
  | .pageRef phys => m.bitmap (pageOf phys) = true → m.pageRefs (pageOf phys) + 1 < 2 ^ 32
  | _ => True

instance (m : Pmm) : (c : PmmCall) → Decidable (m.NoWrap c)
  | .pageRef _ => inferInstanceAs (Decidable (_ → _))
  | .allocPages _ | .freePages _ _ | .pageUnref _ => inferInstanceAs (Decidable True)

variable {m m' : Pmm} {p start count : Nat}

theorem take_zero (m : Pmm) (start : Nat) : m.take start 0 = m := by
  refine Pmm.ext rfl (funext fun q => if_neg (by omega)) (funext fun q => if_neg (by omega)) ?_
  exact BitVec.sub_zero _

theorem take_succ (m : Pmm) (start count : Nat) :
    m.take start (count + 1) = ⟨m.bitmapPages, update (m.take start count).bitmap (start + count) true,
        update (m.take start count).pageRefs (start + count) 1, (m.take start count).freePages - 1⟩ := by
  unfold take
  congr 1
  · funext q
    by_cases hq : q = start + count
    · subst hq
      simp
    · rw [update_of_ne hq]
      simp only [show (start ≤ q ∧ q < start + (count + 1)) ↔ (start ≤ q ∧ q < start + count) by omega]
  · funext q
    by_cases hq : q = start + count
    · subst hq
      simp
    · rw [update_of_ne hq]
      simp only [show (start ≤ q ∧ q < start + (count + 1)) ↔ (start ≤ q ∧ q < start + count) by omega]
  · dsimp only
    rw [BitVec.ofNat_add]
    bv_omega

namespace Consistent

section

variable (h : m.Consistent)
include h

theorem take (hle : start + count ≤ m.bitmapPages)
    (hfree : ∀ q, start ≤ q → q < start + count → m.bitmap q = false) : (m.take start count).Consistent := by
  induction count with
  | zero => rwa [take_zero]
  | succ count ih =>
    have hbit : (m.take start count).bitmap (start + count) = false :=
      (if_neg (by omega)).trans (hfree _ (by omega) (by omega))
    have h' := ih (by omega) fun q hq hq' => hfree q hq (by omega)
    have hlt : start + count < (m.take start count).bitmapPages := by show _ < m.bitmapPages; omega
    rw [take_succ]
    exact h'.use hlt hbit Nat.one_ne_zero

theorem allocPages (ha : m.allocPages count = some (start, m')) : m'.Consistent := by
  have hr := allocPages_run ha
  obtain ⟨-, ha⟩ := ite_none_left_eq_some.1 ha
  obtain ⟨_, -, he⟩ := map_eq_some_iff.1 ha
  cases he
  exact h.take hr.le hr.free

theorem pageUnref (p : Nat) : (m.pageUnref p).Consistent := by
  unfold Pmm.pageUnref
  dsimp only
  split
  · rename_i hp
    have hb := (h.agree p hp.1).2 hp.2
    split
    · rename_i hz
      rw [hz.1]
      exact h.release hp.1 hb
    · rename_i hz
      exact h.recount hb fun h0 => hz ⟨h0, hb⟩
  · exact h

theorem pageRef (hw : m.bitmap p → m.pageRefs p + 1 < 2 ^ 32) : (m.pageRef p).Consistent := by
  unfold Pmm.pageRef
  split
  · rename_i hp
    refine h.recount hp.2 ?_
    rw [Nat.mod_eq_of_lt (hw hp.2)]
    exact Nat.succ_ne_zero _
  · exact h

theorem unrefs (f : Nat → Nat) (is : List Nat) : (is.foldl (fun m i => m.pageUnref (f i)) m).Consistent := by
  induction is generalizing m with
  | nil => exact h
  | cons i is ih => exact ih (h.pageUnref (f i))

theorem step {c : PmmCall} (hw : m.NoWrap c) (hs : m.step c = some m') : m'.Consistent := by
  cases c with
  | allocPages count =>
    cases hs
    cases ha : m.allocPages count.toNat with
    | none => exact h
    | some r => exact h.allocPages ha
  | freePages phys count =>
    cases hs
    unfold freePhys
    dsimp only
    split
    · exact h
    · exact h.unrefs _ _
  | pageRef phys => cases hs; exact h.pageRef hw
  | pageUnref phys => cases hs; exact h.pageUnref _

theorem allocated (ha : m.allocPages count = some (start, m')) :
    count ≤ m.freePages.toNat ∧ ∀ q, start ≤ q → q < start + count → q < m.bitmapPages ∧ m.pageRefs q = 0 := by
  have hr := allocPages_run ha
  have hfree := hr.free
  have hle := hr.le
  constructor
  · have hsub : Finset.Ico start (start + count) ⊆ m.clearPages := by
      intro q hq
      obtain ⟨hq1, hq2⟩ := Finset.mem_Ico.1 hq
      exact mem_clearPages.2 ⟨by omega, hfree q hq1 hq2⟩
    have := Finset.card_le_card hsub
    rw [Nat.card_Ico, ← h.free] at this
    omega
  · intro q hq1 hq2
    have hlt : q < m.bitmapPages := by omega
    refine ⟨hlt, ?_⟩
    by_contra hne
    have := (h.agree q hlt).2 hne
    rw [hfree q hq1 hq2] at this
    cases this

end

end Consistent

end Pmm

/-- From `pmm_init` on, as long as no counter wraps. -/
theorem pmm_consistent {es : List MemmapEntry} {hhdm : Addr} {bits : Nat → Bool} {refs : Nat → Nat} {m m' : Pmm}
    {calls : List PmmCall} (ha : ∀ e ∈ es, e.Aligned) (hd : es.Pairwise MemmapEntry.Apart)
    (hfit : ∀ e ∈ es, e.Usable → e.Fits) (hpos : 0 < highest es / PAGE_SIZE)
    (hinit : init es hhdm bits refs = some m) (hrun : Run step Pmm.NoWrap m calls m') :
    m'.Consistent ∧ ∀ count start m'', m'.allocPages count = some (start, m'') →
      count ≤ m'.freePages.toNat ∧ ∀ q, start ≤ q → q < start + count → q < m'.bitmapPages ∧ m'.pageRefs q = 0 := by
  have h : m'.Consistent :=
    hrun.inv (fun _ _ _ h hw hs => h.step hw hs) (init_consistent hinit ha hd hfit hpos).1
  exact ⟨h, fun count start m'' ha => h.allocated ha⟩

def smallMap : List MemmapEntry := [⟨0, 0x10000, MEMMAP_USABLE⟩]

def hhdmOffset : Addr := 0xFFFF800000000000

theorem smallMap_aligned : (∀ e ∈ smallMap, e.Aligned) ∧ smallMap.Pairwise MemmapEntry.Apart := by
  constructor
  · intro e he
    rw [List.mem_singleton.1 he]
    exact ⟨by decide, by decide⟩
  · exact List.pairwise_singleton _ _

/-- Two pages are taken, shared and given back. -/
theorem pmm_consistent_smallMap :
    ∃ m m', init smallMap hhdmOffset (fun _ => false) (fun _ => 0) = some m ∧
      Run step Pmm.NoWrap m [.allocPages 2, .pageRef 0x2000, .freePages 0x2000 2] m' ∧ m'.Consistent := by
  have hexec : (init smallMap hhdmOffset (fun _ => false) (fun _ => 0)).any (fun m =>
      (exec (fun m c => if m.NoWrap c then m.step c else none) m
        [.allocPages 2, .pageRef 0x2000, .freePages 0x2000 2]).isSome) = true := by
    decide +kernel
  obtain ⟨m, hm, h⟩ := (any_eq_true ..).1 hexec
  obtain ⟨m', hm'⟩ := isSome_iff_exists.1 h
  have hrun := run_of_exec hm'
  have hfit : ∀ e ∈ smallMap, e.Usable → e.Fits := by
    intro e he _
    rw [List.mem_singleton.1 he]
    show _ < _
    decide
  exact ⟨m, m', hm, hrun,
    (pmm_consistent smallMap_aligned.1 smallMap_aligned.2 hfit (by decide +kernel) hm hrun).1⟩

/-! ### Where the agreement ends -/

theorem Pmm.run_pageRefs {m : Pmm} (phys : Addr) (hlt : pageOf phys < m.bitmapPages)
    (hb : m.bitmap (pageOf phys)) (hr : m.pageRefs (pageOf phys) < 2 ^ 32) (k : Nat) :
    ∃ m', Run step Any m (List.replicate k (.pageRef phys)) m' ∧ m'.bitmapPages = m.bitmapPages ∧
      m'.bitmap = m.bitmap ∧ m'.pageRefs (pageOf phys) = (m.pageRefs (pageOf phys) + k) % 2 ^ 32 := by
  induction k generalizing m with
  | zero => exact ⟨m, .nil _, rfl, rfl, (Nat.mod_eq_of_lt hr).symm⟩
  | succ k ih =>
    have hstep := pageRef_eq hlt hb
    have href : (m.pageRef (pageOf phys)).pageRefs (pageOf phys) = (m.pageRefs (pageOf phys) + 1) % 2 ^ 32 := by
      rw [hstep]
      exact update_self ..
    obtain ⟨m', hrun, h1, h2, h3⟩ := @ih (m.pageRef (pageOf phys)) (by simpa using hlt) (by simpa using hb)
      (by rw [href]; exact Nat.mod_lt _ (by decide))
    refine ⟨m', .cons trivial rfl hrun, by simpa using h1, by simpa using h2, ?_⟩
    omega

def emptyMap : List MemmapEntry := [⟨0, 0, MEMMAP_USABLE⟩]

theorem smallMap_alloc : (init smallMap hhdmOffset (fun _ => false) (fun _ => 0)).any (fun m =>
      (exec step m [.allocPages 1]).any fun m =>
        m.bitmapPages == 16 && m.bitmap 2 && m.pageRefs 2 == 1) := by
  decide +kernel

theorem emptyMap_free : (init emptyMap hhdmOffset (fun _ => false) (fun _ => 0)).any (fun m =>
      m.freePages.toNat == 2 ^ 64 - 1 && m.clearPages.card == 0) := by
  decide +kernel

/-- After `2 ^ 32 - 1` references to a page its counter is zero while its bit is set. Without a single
page `pmm_init` takes page 0 from `free_pages` all the same. -/
theorem pmm_inconsistent :
    (∃ m m' calls, init smallMap hhdmOffset (fun _ => false) (fun _ => 0) = some m ∧
      (∀ e ∈ smallMap, e.Aligned) ∧ smallMap.Pairwise MemmapEntry.Apart ∧
      Run step Any m calls m' ∧ ¬ m'.Consistent) ∧
    ∃ m, init emptyMap hhdmOffset (fun _ => false) (fun _ => 0) = some m ∧
      (∀ e ∈ emptyMap, e.Aligned) ∧ emptyMap.Pairwise MemmapEntry.Apart ∧ ¬ m.Consistent := by
  refine ⟨?_, ?_⟩
  · obtain ⟨m, hm, h⟩ := (any_eq_true ..).1 smallMap_alloc
    obtain ⟨m1, hm1, h⟩ := (any_eq_true ..).1 h
    simp only [Bool.and_eq_true, beq_iff_eq] at h
    obtain ⟨⟨hn, hb⟩, hr⟩ := h
    obtain ⟨m', hrun, hn', hb', hr'⟩ := run_pageRefs 0x2000 (by rw [hn]; decide) hb
      (by show m1.pageRefs 2 < _; omega) (2 ^ 32 - 1)
    refine ⟨m, m', _, hm, smallMap_aligned.1, smallMap_aligned.2, (exec_iff.1 hm1).append hrun, fun hc => ?_⟩
    refine (hc.agree 2 (by omega)).1 (by rw [hb']; exact hb) (hr'.trans ?_)
    show (m1.pageRefs 2 + _) % _ = 0
    rw [hr]
    rfl
  · obtain ⟨m, hm, h⟩ := (any_eq_true ..).1 emptyMap_free
    simp only [Bool.and_eq_true, beq_iff_eq] at h
    refine ⟨m, hm, ?_, List.pairwise_singleton _ _, fun hc => ?_⟩
    · intro e he
      rw [List.mem_singleton.1 he]
      exact ⟨by decide, by decide⟩
    · have := hc.free
      omega

end ExoOS.Mm
