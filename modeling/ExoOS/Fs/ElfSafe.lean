import ExoOS.Fs.Elf

/-!
# When the ELF loader is safe

If the headers meet the condition of `Fs/Elf.lean` every access is inside its bounds (`Good`), whatever is mapped
before and whatever the allocator does. If they do not, there is an address space in which the loader leaves the
bounds: one in which all pages are present, so that all data is copied, or all but the one behind the user range, so
that the loader maps it.
-/

namespace ExoOS.Elf

open List Nat

open Mm (PAGE_SIZE USER_SPACE_START USER_SPACE_END)

variable {env : Env} {f : Image} {dynBias : U64} {h : Phdr} {l l' : Loader} {stop : Option Stop}

theorem toNat_add_ofNat {a : U64} {c : Nat} (h : a.toNat + c < 2 ^ 64) :
    (a + BitVec.ofNat 64 c).toNat = a.toNat + c := by
  rw [BitVec.toNat_add, BitVec.toNat_ofNat]
  omega

/-- The pages of a segment are mapped before its data is copied. -/
def mapSegment (env : Env) (dynBias : U64) (h : Phdr) : Loader → Loader × Option Stop :=
  mapPages env (h.flags.testBit PF_W) (!h.flags.testBit PF_X)
    ((h.segEnd dynBias - h.segStart dynBias) / PAGE_SIZE) (h.segStart dynBias)

theorem andThen {P : Loader → Prop} {r : Loader × Option Stop} {next : Loader → Loader × Option Stop} (hr : P r.1)
    (hnext : ∀ l, P l → P (next l).1) :
    P (match r with | (l, some stop) => (l, some stop) | (l, none) => next l).1 := by
  rcases r with ⟨l, _ | stop⟩
  · exact hnext l hr
  · exact hr

/-! ### Within bounds -/

/-- The invariant of the loops: all accesses are fine, and no page is mapped twice. -/
structure Good (size : Nat) (l : Loader) : Prop where
  ok : ∀ a ∈ l.log, a.Ok size
  nodup : l.mapped.Nodup
  present : ∀ va ∈ l.mapped, l.present (pageKey va) = true
  aligned : ∀ va ∈ l.mapped, va % PAGE_SIZE = 0

namespace Good

variable {size : Nat}

theorem congr (hg : Good size l) (hlog : l'.log = l.log) (hpresent : l'.present = l.present) : Good size l' := by
  have hm : l'.mapped = l.mapped := congrArg (filterMap Access.page) hlog
  exact ⟨hlog ▸ hg.ok, hm ▸ hg.nodup, hm ▸ hpresent ▸ hg.present, hm ▸ hg.aligned⟩

theorem mapped_note (as : List Access) : (l.note as).mapped = l.mapped ++ as.filterMap Access.page := filterMap_append

section

variable (hg : Good size l)
include hg

theorem mapped_ok {va : Nat} (hva : va ∈ l.mapped) : USER_SPACE_START ≤ va ∧ va < USER_SPACE_END := by
  obtain ⟨a, ha, he⟩ := mem_filterMap.1 hva
  cases a with
  | read off len | write va len => cases he
  | map va w nx =>
    cases he
    exact hg.ok _ ha

theorem safe : Safe size l := by
  refine ⟨hg.ok, ?_⟩
  have hinj : (l.mapped.map (· / PAGE_SIZE)).Nodup := by
    refine hg.nodup.map_on fun x hx y hy hxy => ?_
    have h1 := hg.aligned x hx
    have h2 := hg.aligned y hy
    unfold PAGE_SIZE at *
    omega
  have hsub : (l.mapped.map (· / PAGE_SIZE)).toFinset ⊆
      Finset.Ico (USER_SPACE_START / PAGE_SIZE) (USER_SPACE_END / PAGE_SIZE) := by
    intro p hp
    obtain ⟨va, hva, rfl⟩ := mem_map.1 (mem_toFinset.1 hp)
    obtain ⟨h1, h2⟩ := hg.mapped_ok hva
    rw [Finset.mem_Ico]
    unfold PAGE_SIZE USER_SPACE_END at *
    omega
  have hcard := Finset.card_le_card hsub
  rw [toFinset_card_of_nodup hinj, length_map, card_Ico] at hcard
  exact hcard

theorem note (as : List Access) (has : ∀ a ∈ as, a.Ok size) (hpage : ∀ a ∈ as, a.page = none) :
    Good size (l.note as) := by
  have hm : (l.note as).mapped = l.mapped := by
    rw [mapped_note, filterMap_eq_nil_iff.2 hpage, append_nil]
  exact ⟨forall_mem_append.2 ⟨hg.ok, has⟩, hm ▸ hg.nodup, fun va hva => hg.present va (hm ▸ hva), hm ▸ hg.aligned⟩

theorem read {o n : Nat} (hread : o + n ≤ size) : Good size (l.note [.read o n]) :=
  hg.note _ (forall_mem_singleton.2 hread) (forall_mem_singleton.2 rfl)

theorem map {va : Nat} {w nx : Bool} (hnew : l.present (pageKey va) ≠ true)
    (hok : (Access.map va w nx).Ok size) (ha : va % PAGE_SIZE = 0) :
    Good size { l.note [.map va w nx] with
      tries := l.tries + 1, present := Function.update l.present (pageKey va) true } := by
  have hm : (l.note [.map va w nx]).mapped = l.mapped ++ [va] := mapped_note _
  constructor
  · exact forall_mem_append.2 ⟨hg.ok, forall_mem_singleton.2 hok⟩
  · show (l.note [.map va w nx]).mapped.Nodup
    rw [hm, ← concat_eq_append, nodup_concat]
    exact ⟨fun hva => hnew (hg.present va hva), hg.nodup⟩
  · refine hm ▸ forall_mem_append.2 ⟨fun q hq => ?_, forall_mem_singleton.2 (Function.update_self ..)⟩
    by_cases hk : pageKey q = pageKey va
    · rw [hk]
      exact Function.update_self ..
    · exact (Function.update_of_ne hk ..).trans (hg.present q hq)
  · exact hm ▸ forall_mem_append.2 ⟨hg.aligned, forall_mem_singleton.2 ha⟩

theorem mapPages (env : Env) (w nx : Bool) (n va : Nat) (ha : va % PAGE_SIZE = 0)
    (hlo : USER_SPACE_START ≤ va) (hhi : n = 0 ∨ va + n * PAGE_SIZE ≤ USER_SPACE_END) :
    Good size (Elf.mapPages env w nx n va l).1 := by
  induction n generalizing va l with
  | zero => exact hg
  | succ n ih =>
    have hnext : (va + PAGE_SIZE) % PAGE_SIZE = 0 := by rw [add_mod_right]; exact ha
    have hhi' : va + PAGE_SIZE + n * PAGE_SIZE ≤ USER_SPACE_END := by
      rw [add_mul] at hhi
      omega
    unfold Elf.mapPages
    split
    · exact ih hg _ hnext (by omega) (.inr hhi')
    rename_i hnew
    split
    · exact hg.congr rfl rfl
    · split
      · exact hg.congr rfl rfl
      · exact ih (hg.map hnew ⟨hlo, by unfold PAGE_SIZE at *; omega⟩ ha) _ hnext (by omega) (.inr hhi')

theorem copyFile (segVaddr : U64) (fuel copied : Nat)
    (hread : h.offset.toNat + h.filesz.toNat ≤ size) (hsize : size < 2 ^ 64)
    (hlo : USER_SPACE_START ≤ segVaddr.toNat) (hhi : segVaddr.toNat + h.filesz.toNat ≤ USER_SPACE_END) :
    Good size (Elf.copyFile h segVaddr fuel copied l).1 := by
  induction fuel generalizing copied l with
  | zero => exact hg
  | succ fuel ih =>
    unfold Elf.copyFile
    split
    · have hva := toNat_add_ofNat (a := segVaddr) (c := copied) (by unfold USER_SPACE_END at hhi; omega)
      have hoff := toNat_add_ofNat (a := h.offset) (c := copied) (by omega)
      dsimp only
      split
      · refine ih (hg.note _ ?_ (forall_mem_cons.2 ⟨rfl, forall_mem_singleton.2 rfl⟩)) _
        refine forall_mem_cons.2 ⟨?_, forall_mem_singleton.2 ?_⟩
        · show _ + min _ _ ≤ size
          omega
        · show USER_SPACE_START ≤ _ ∧ _ + min _ _ ≤ USER_SPACE_END
          omega
      · exact hg
    · exact hg

theorem loadSegment (hread : h.offset.toNat + h.filesz.toNat ≤ size) (hsize : size < 2 ^ 64)
    (hlo : USER_SPACE_START ≤ (h.segVaddr dynBias).toNat) (hend : h.segEnd dynBias ≤ USER_SPACE_END)
    (hhi : (h.segVaddr dynBias).toNat + h.filesz.toNat ≤ USER_SPACE_END) :
    Good size (Elf.loadSegment env dynBias h l).1 := by
  have hstart : USER_SPACE_START ≤ h.segStart dynBias := by
    unfold Phdr.segStart PAGE_SIZE USER_SPACE_START at *
    omega
  have hmap : Good size (mapSegment env dynBias h l).1 :=
    hg.mapPages _ _ _ _ _ (mul_mod_left ..) hstart (by unfold PAGE_SIZE at *; omega)
  exact andThen hmap fun _ hl => andThen (hl.copyFile _ _ 0 hread hsize hlo hhi) fun _ hl => hl.congr rfl rfl

end

end Good

theorem loadHeader_refused (hr : h.Refused f dynBias) (l : Loader) :
    loadHeader env f dynBias h l = (l, some (.error (-ENOEXEC))) := by
  rcases hr with ⟨ht, hr⟩ | ⟨ht, hr⟩
  · unfold loadHeader
    rw [if_neg (by rw [ht]; decide), if_pos ht]
    by_cases h1 : h.filesz = 0 ∨ INTERP_SIZE ≤ h.filesz.toNat
    · rw [if_pos h1]
    · rw [if_neg h1, if_pos]
      tauto
  · unfold loadHeader
    rw [if_neg (by rw [ht]; decide), if_neg (by rw [ht]; decide), if_neg (by rw [ht]; decide)]
    by_cases h1 : h.offset + h.filesz > f.size
    · rw [if_pos h1]
    · rw [if_neg h1, if_pos]
      tauto

/-- One that is not is noted, or loaded, or of no interest. -/
inductive Kept (env : Env) (f : Image) (dynBias : U64) (h : Phdr) (l : Loader) : Prop
  | interp (ht : h.type = PT_INTERP) (hsum : h.offset + h.filesz ≤ f.size) (info : Info)
      (he : loadHeader env f dynBias h l = ({ l.note [.read h.offset.toNat h.filesz.toNat] with info := info }, none))
  | load (ht : h.type = PT_LOAD) (hsum : h.offset + h.filesz ≤ f.size)
      (hlo : USER_SPACE_START ≤ (h.segVaddr dynBias).toNat) (hhi : (h.segVaddr dynBias).toNat < USER_SPACE_END)
      (he : loadHeader env f dynBias h l = loadSegment env dynBias h l)
  | other (hi : h.type ≠ PT_INTERP) (hl : h.type ≠ PT_LOAD) (info : Info)
      (he : loadHeader env f dynBias h l = ({ l with info := info }, none))

theorem loadHeader_kept (env : Env) (hr : ¬ h.Refused f dynBias) (l : Loader) : Kept env f dynBias h l := by
  unfold Phdr.Refused at hr
  push Not at hr
  by_cases h1 : h.type = PT_INTERP
  · obtain ⟨hz, hlen, hsum⟩ := hr.1 h1
    refine .interp h1 (BitVec.not_lt.1 hsum) { l.info with
      hasInterp := true, interpPath := f.bytes h.offset (h.filesz.toNat - 1) ++ [0] } ?_
    unfold loadHeader
    rw [if_neg (by rw [h1]; decide), if_pos h1, if_neg (by rw [not_or]; exact ⟨hz, not_le.2 hlen⟩), if_neg hsum]
  by_cases h2 : h.type = PT_LOAD
  · obtain ⟨hsum, hlo, hhi⟩ := hr.2 h2
    refine .load h2 (BitVec.not_lt.1 hsum) hlo hhi ?_
    unfold loadHeader
    rw [if_neg (by rw [h2]; decide), if_neg h1, if_neg (not_not.2 h2), if_neg hsum, if_neg (by omega)]
  · by_cases h3 : h.type = PT_PHDR
    · refine .other h1 h2 { l.info with phdrVaddr := h.vaddr + dynBias } ?_
      unfold loadHeader
      rw [if_pos h3]
    · refine .other h1 h2 l.info ?_
      unfold loadHeader
      rw [if_neg h3, if_neg h1, if_pos h2]

theorem range_le {a b n : U64} (h : a + b ≤ n) (hw : a.toNat + b.toNat < 2 ^ 64) : a.toNat + b.toNat ≤ n.toNat := by
  have := BitVec.le_def.1 h
  rwa [BitVec.toNat_add, mod_eq_of_lt hw] at this

theorem Good.loadHeader (hg : Good f.size.toNat l) (env : Env) (hc : ¬ h.Refused f dynBias → h.Contained dynBias) :
    Good f.size.toNat (loadHeader env f dynBias h l).1 := by
  by_cases hr : h.Refused f dynBias
  · rw [loadHeader_refused hr]
    exact hg
  have hc := hc hr
  cases loadHeader_kept env hr l with
  | interp ht hsum info he =>
    rw [he]
    exact (hg.read (range_le hsum (hc.1 ht))).congr rfl rfl
  | load ht hsum hlo hhi he =>
    rw [he]
    obtain ⟨hw, hend, htop⟩ := hc.2 ht
    exact hg.loadSegment (range_le hsum hw) f.size.isLt hlo hend htop
  | other hi hl info he =>
    rw [he]
    exact hg.congr rfl rfl

theorem loadHeaders_succ (env : Env) (f : Image) (dynBias : U64) (n i : Nat) (l : Loader) :
    loadHeaders env f dynBias (n + 1) i l =
      match loadHeader env f dynBias (f.header i) (l.note [.read (f.ehdr.phdrOff i).toNat PHDR_SIZE]) with
      | (l, some stop) => (l, some stop)
      | (l, none) => loadHeaders env f dynBias n (i + 1) l := rfl

theorem Good.loadHeaders (hg : Good f.size.toNat l) (env : Env) (hok : f.HeadersOk dynBias) {n i : Nat}
    (hn : i + n = f.ehdr.phnum.toNat) (hprev : ∀ j, j < i → ¬ (f.header j).Refused f dynBias) :
    Good f.size.toNat (loadHeaders env f dynBias n i l).1 ∧ ((loadHeaders env f dynBias n i l).2 = none →
        ∀ j, j < f.ehdr.phnum.toNat → ¬ (f.header j).Refused f dynBias) := by
  induction n generalizing i l with
  | zero => exact ⟨hg, fun _ j hj => hprev j (by omega)⟩
  | succ n ih =>
    obtain ⟨hoff, hc⟩ := hok i (by omega) hprev
    have hg' := (hg.read hoff).loadHeader env hc
    rw [loadHeaders_succ]
    split
    · rename_i heq
      rw [heq] at hg'
      exact ⟨hg', nofun⟩
    rename_i heq
    rw [heq] at hg'
    refine ih hg' (by omega) fun j hj => ?_
    rcases Nat.lt_succ_iff_lt_or_eq.1 hj with hj | rfl
    · exact hprev j hj
    · intro hr
      rw [loadHeader_refused hr] at heq
      cases heq

theorem Good.findPhdrVaddr (hg : Good f.size.toNat l) {n i : Nat}
    (hoff : ∀ j, j < i + n → (f.ehdr.phdrOff j).toNat + PHDR_SIZE ≤ f.size.toNat) :
    Good f.size.toNat (findPhdrVaddr f dynBias n i l) := by
  induction n generalizing i l with
  | zero => exact hg
  | succ n ih =>
    have hg' := hg.read (hoff i (by omega))
    unfold Elf.findPhdrVaddr
    dsimp only
    split
    · refine ih hg' ?_
      intro j hj
      apply hoff
      omega
    · exact hg'.congr rfl rfl

theorem elfLoad_good {loadBias : U64} (present : Nat → Bool)
    (hok : f.Accepted → f.HeadersOk (f.ehdr.dynBias loadBias)) :
    Good f.size.toNat (elfLoad env present f loadBias).1 := by
  have hnil : ∀ info, Good f.size.toNat { present := present, tries := 0, log := [], info := info, brkEnd := 0 } :=
    fun _ => ⟨nofun, nodup_nil, nofun, nofun⟩
  unfold elfLoad
  dsimp only
  generalize f.ehdr.dynBias loadBias = dynBias at *
  split
  · exact hnil _
  rename_i hsize
  have hfirst := (hnil (Info.mk (f.ehdr.entry + dynBias) 0 0 dynBias f.ehdr.phnum f.ehdr.phentsize false [0])).read
    (o := 0) (n := EHDR_SIZE) (by omega)
  split
  · exact hfirst
  rename_i hvalid
  split
  · exact hfirst
  rename_i htable
  have hok := hok ⟨not_lt.1 hsize, hvalid, htable⟩
  obtain ⟨hg, hnone⟩ := hfirst.loadHeaders env hok (zero_add _) fun j hj => by omega
  split
  · rename_i heq
    rwa [heq] at hg
  rename_i heq
  rw [heq] at hg hnone
  split
  · refine Good.findPhdrVaddr ?_ fun j hj => ?_
    · exact hg.congr rfl rfl
    rw [zero_add] at hj
    exact (hok j hj fun k hk => hnone rfl k (hk.trans hj)).1
  · exact hg.congr rfl rfl

/-! ### Out of bounds -/

section Log

variable {a : Access}

theorem mapPages_log {w nx : Bool} {n va : Nat} (ha : a ∈ l.log) : a ∈ (mapPages env w nx n va l).1.log := by
  induction n generalizing va l with
  | zero => exact ha
  | succ n ih =>
    unfold mapPages
    split_ifs
    · exact ih ha
    · exact ih (mem_append_left _ ha)
    · exact ha
    · exact ha

theorem copyFile_log {segVaddr : U64} {fuel copied : Nat} (ha : a ∈ l.log) :
    a ∈ (copyFile h segVaddr fuel copied l).1.log := by
  induction fuel generalizing copied l with
  | zero => exact ha
  | succ fuel ih =>
    unfold copyFile
    dsimp only
    split_ifs
    · exact ih (mem_append_left _ ha)
    · exact ha
    · exact ha

theorem loadSegment_mapped (ha : a ∈ (mapSegment env dynBias h l).1.log) : a ∈ (loadSegment env dynBias h l).1.log :=
  andThen (P := (a ∈ ·.log)) ha fun _ hl => andThen (P := (a ∈ ·.log)) (copyFile_log hl) fun _ hl => hl

theorem loadHeader_log (ha : a ∈ l.log) : a ∈ (loadHeader env f dynBias h l).1.log := by
  by_cases hr : h.Refused f dynBias
  · rw [loadHeader_refused hr]
    exact ha
  cases loadHeader_kept env hr l with
  | interp ht hsum info he =>
    rw [he]
    exact mem_append_left _ ha
  | load ht hsum hlo hhi he =>
    rw [he]
    exact loadSegment_mapped (mapPages_log ha)
  | other hi hl info he =>
    rw [he]
    exact ha

theorem loadHeaders_log {n i : Nat} (ha : a ∈ l.log) : a ∈ (loadHeaders env f dynBias n i l).1.log := by
  induction n generalizing i l with
  | zero => exact ha
  | succ n ih => exact andThen (P := (a ∈ ·.log)) (loadHeader_log (mem_append_left _ ha)) fun _ hl => ih hl

theorem loadHeaders_head {n i : Nat}
    (ha : a ∈ (loadHeader env f dynBias (f.header i) (l.note [.read (f.ehdr.phdrOff i).toNat PHDR_SIZE])).1.log) :
    a ∈ (loadHeaders env f dynBias (n + 1) i l).1.log :=
  andThen (P := (a ∈ ·.log)) ha fun _ hl => loadHeaders_log hl

theorem findPhdrVaddr_log {n i : Nat} (ha : a ∈ l.log) : a ∈ (findPhdrVaddr f dynBias n i l).log := by
  induction n generalizing i l with
  | zero => exact ha
  | succ n ih =>
    unfold findPhdrVaddr
    dsimp only
    split
    · exact ih (mem_append_left _ ha)
    · exact mem_append_left _ ha

end Log

def UserPresent (present : Nat → Bool) : Prop :=
  ∀ va, USER_SPACE_START ≤ va → va < USER_SPACE_END → present (pageKey va) = true

theorem mapPages_present (env : Env) (w nx : Bool) (n k va : Nat)
    (hp : ∀ j, j < n → l.present (pageKey (va + j * PAGE_SIZE))) :
    mapPages env w nx (n + k) va l = mapPages env w nx k (va + n * PAGE_SIZE) l := by
  induction n generalizing va with
  | zero => rw [zero_add, zero_mul, add_zero]
  | succ n ih =>
    have h0 := hp 0 (by omega)
    rw [zero_mul, add_zero] at h0
    rw [add_right_comm, mapPages, if_pos h0, ih]
    · congr 1
      rw [add_mul]
      omega
    · intro j hj
      have := hp (j + 1) (by omega)
      rwa [show va + PAGE_SIZE + j * PAGE_SIZE = va + (j + 1) * PAGE_SIZE by rw [add_mul]; omega]

theorem mapSegment_present (hp : ∀ j, j < (h.segEnd dynBias - h.segStart dynBias) / PAGE_SIZE →
    l.present (pageKey (h.segStart dynBias + j * PAGE_SIZE))) : mapSegment env dynBias h l = (l, none) :=
  mapPages_present env _ _ _ 0 _ hp

theorem note_note (as bs : List Access) : (l.note as).note bs = l.note (as ++ bs) := by
  rw [Loader.note, Loader.note, Loader.note, append_assoc]

theorem copyFile_present (segVaddr : U64) (fuel copied : Nat)
    (hp : ∀ c, c < h.filesz.toNat → l.present (pageKey (segVaddr + BitVec.ofNat 64 c).toNat))
    (hfuel : h.filesz.toNat - copied < fuel) :
    ∃ as, copyFile h segVaddr fuel copied l = (l.note as, none) := by
  induction fuel generalizing copied l with
  | zero => omega
  | succ fuel ih =>
    unfold copyFile
    split
    · rename_i hlt
      rw [if_pos (hp copied hlt)]
      have hchunk : 0 < min (PAGE_SIZE - (segVaddr + BitVec.ofNat 64 copied).toNat % PAGE_SIZE)
          (h.filesz.toNat - copied) := by
        have : (segVaddr + BitVec.ofNat 64 copied).toNat % PAGE_SIZE < PAGE_SIZE := mod_lt _ (by decide)
        omega
      generalize min _ (h.filesz.toNat - copied) = chunk at hchunk
      obtain ⟨as, has⟩ := @ih (l.note [.read (h.offset + BitVec.ofNat 64 copied).toNat chunk,
        .write (segVaddr + BitVec.ofNat 64 copied).toNat chunk]) (copied + chunk) hp (by omega)
      rw [note_note] at has
      exact ⟨_, has⟩
    · exact ⟨[], by rw [Loader.note, append_nil]⟩

theorem loadHeader_present (env : Env) (hp : UserPresent l.present) (hr : ¬ h.Refused f dynBias)
    (hc : h.Contained dynBias) : ∃ l', loadHeader env f dynBias h l = (l', none) ∧ l'.present = l.present := by
  cases loadHeader_kept env hr l with
  | interp ht hsum info he | other hi hl info he => exact ⟨_, he, rfl⟩
  | load ht hsum hlo hhi he =>
    rw [he]
    obtain ⟨-, hend, htop⟩ := hc.2 ht
    have hmap : mapSegment env dynBias h l = (l, none) := by
      refine mapSegment_present fun j hj => hp _ ?_ ?_
      · unfold Phdr.segStart USER_SPACE_START PAGE_SIZE at *
        omega
      · unfold PAGE_SIZE at *
        omega
    have hbytes : ∀ c, c < h.filesz.toNat → l.present (pageKey (h.segVaddr dynBias + BitVec.ofNat 64 c).toNat) := by
      intro c hc
      have hva := toNat_add_ofNat (a := h.segVaddr dynBias) (c := c) (by unfold USER_SPACE_END at htop; omega)
      exact hp _ (by omega) (by omega)
    obtain ⟨as, has⟩ := copyFile_present (h.segVaddr dynBias) (h.filesz.toNat + 1) 0 hbytes (by omega)
    rw [loadSegment, ← mapSegment, hmap]
    dsimp only
    rw [has]
    exact ⟨_, rfl, rfl⟩

theorem loadHeaders_reach (env : Env) {m n k : Nat} (hp : UserPresent l.present)
    (hok : ∀ j, k ≤ j → j < k + m → ¬ (f.header j).Refused f dynBias ∧ (f.header j).Contained dynBias) :
    ∃ l', loadHeaders env f dynBias (m + n) k l = loadHeaders env f dynBias n (k + m) l' ∧ l'.present = l.present := by
  induction m generalizing k l with
  | zero => exact ⟨l, by rw [zero_add, add_zero], rfl⟩
  | succ m ih =>
    obtain ⟨hr, hc⟩ := hok k le_rfl (by omega)
    obtain ⟨l1, he, hpres⟩ := loadHeader_present env (l := l.note [.read (f.ehdr.phdrOff k).toNat PHDR_SIZE]) hp hr hc
    obtain ⟨l', hl', hp'⟩ := @ih l1 (k + 1) (hpres ▸ hp) fun j hj hj' => hok j (by omega) (by omega)
    refine ⟨l', ?_, hp'.trans hpres⟩
    rw [add_right_comm, loadHeaders_succ, he]
    dsimp only
    rw [hl', add_assoc, add_comm 1 m]

theorem elfLoad_log (env : Env) (present : Nat → Bool) (loadBias : U64) (hacc : f.Accepted) :
    ∃ l : Loader, l.present = present ∧ ∀ a,
      a ∈ (loadHeaders env f (f.ehdr.dynBias loadBias) f.ehdr.phnum.toNat 0 l).1.log →
        a ∈ (elfLoad env present f loadBias).1.log := by
  obtain ⟨hsize, hvalid, htable⟩ := hacc
  refine ⟨Loader.note ⟨present, 0, [], ⟨f.ehdr.entry + f.ehdr.dynBias loadBias, 0, 0, f.ehdr.dynBias loadBias,
    f.ehdr.phnum, f.ehdr.phentsize, false, [0]⟩, 0⟩ [.read 0 EHDR_SIZE], rfl, fun a ha => ?_⟩
  unfold elfLoad
  rw [if_neg (not_lt.2 hsize), hvalid]
  dsimp only
  rw [if_neg htable]
  refine andThen (P := (a ∈ ·.log)) ha fun l hl => ?_
  dsimp only
  split
  · exact findPhdrVaddr_log hl
  · exact hl

section Needed

variable {loadBias : U64} {i : Nat}

/-- A header behind contained ones is read and loaded in every address space with all user pages present. -/
theorem header_ok (env : Env) (present : Nat → Bool) (hacc : f.Accepted) (hi : i < f.ehdr.phnum.toNat)
    (hp : UserPresent present)
    (hprev : ∀ j, j < i → ¬ (f.header j).Refused f (f.ehdr.dynBias loadBias) ∧
      (f.header j).Contained (f.ehdr.dynBias loadBias))
    (hsafe : Safe f.size.toNat (elfLoad env present f loadBias).1) :
    ∃ l : Loader, l.present = present ∧ ∀ a ∈ (loadHeader env f (f.ehdr.dynBias loadBias) (f.header i)
      (l.note [.read (f.ehdr.phdrOff i).toNat PHDR_SIZE])).1.log, a.Ok f.size.toNat := by
  obtain ⟨l0, hp0, hlog⟩ := elfLoad_log env present loadBias hacc
  obtain ⟨n, hn⟩ : ∃ n, f.ehdr.phnum.toNat = i + (n + 1) := ⟨f.ehdr.phnum.toNat - i - 1, by omega⟩
  obtain ⟨l, hl, hpl⟩ := loadHeaders_reach env (m := i) (k := 0) (hp0 ▸ hp) fun j _ hj => hprev j (by omega)
  rw [hn, hl, zero_add] at hlog
  exact ⟨l, hpl.trans hp0, fun a ha => hsafe.ok a (hlog a (loadHeaders_head ha))⟩

theorem copyFile_ok {segVaddr : U64} {size fuel copied : Nat} (hp : ∀ k, l.present k)
    (hfuel : h.filesz.toNat - copied < fuel) (hc : copied ≤ h.filesz.toNat)
    (hoff : h.offset.toNat + copied < 2 ^ 64) (hva : segVaddr.toNat + copied ≤ USER_SPACE_END) (hsize : size < 2 ^ 64)
    (hok : ∀ a ∈ (copyFile h segVaddr fuel copied l).1.log, a.Ok size) :
    h.offset.toNat + h.filesz.toNat < 2 ^ 64 ∧ segVaddr.toNat + h.filesz.toNat ≤ USER_SPACE_END := by
  induction fuel generalizing copied l with
  | zero => omega
  | succ fuel ih =>
    unfold copyFile at hok
    split at hok
    · rw [if_pos (hp _)] at hok
      rw [toNat_add_ofNat (by unfold USER_SPACE_END at hva; omega), toNat_add_ofNat hoff] at hok
      have hchunk : 0 < min (PAGE_SIZE - (segVaddr.toNat + copied) % PAGE_SIZE) (h.filesz.toNat - copied) := by
        have : (segVaddr.toNat + copied) % PAGE_SIZE < PAGE_SIZE := mod_lt _ (by decide)
        omega
      have hle : min (PAGE_SIZE - (segVaddr.toNat + copied) % PAGE_SIZE) (h.filesz.toNat - copied) ≤
        h.filesz.toNat - copied := min_le_right ..
      generalize min _ (h.filesz.toNat - copied) = chunk at hchunk hle hok
      -- the two accesses of this round
      have hread : h.offset.toNat + copied + chunk ≤ size :=
        hok (.read (h.offset.toNat + copied) chunk) (copyFile_log (mem_append_right _ (by simp)))
      have hwrite : _ ∧ segVaddr.toNat + copied + chunk ≤ USER_SPACE_END :=
        hok (.write (segVaddr.toNat + copied) chunk) (copyFile_log (mem_append_right _ (by simp)))
      exact ih (l := l.note _) hp (by omega) (by omega) (by omega) (by omega) hok
    · have : copied = h.filesz.toNat := by omega
      subst this
      exact ⟨hoff, hva⟩

theorem loadSegment_copied (hp : ∀ k, l.present k) {a : Access}
    (ha : a ∈ (copyFile h (h.segVaddr dynBias) (h.filesz.toNat + 1) 0 l).1.log) :
    a ∈ (loadSegment env dynBias h l).1.log := by
  rw [loadSegment, ← mapSegment, mapSegment_present fun j _ => hp _]
  exact andThen (P := (a ∈ ·.log)) ha fun _ hl => hl

def allButEnd (k : Nat) : Bool := k != pageKey USER_SPACE_END

theorem allButEnd_user {va : Nat} (hva : va < USER_SPACE_END) : allButEnd (pageKey va) := by
  rw [allButEnd, bne_iff_ne]
  unfold pageKey PAGE_SIZE USER_SPACE_END at *
  omega

def Env.plenty : Env := ⟨fun _ => true, fun _ => true⟩

theorem mapPages_end (w nx : Bool) (n va : Nat) (hp : l.present = allButEnd) (ha : va % PAGE_SIZE = 0)
    (hva : va ≤ USER_SPACE_END) (hn : USER_SPACE_END < va + n * PAGE_SIZE) :
    Access.map USER_SPACE_END w nx ∈ (mapPages .plenty w nx n va l).1.log := by
  obtain ⟨k, hk⟩ : ∃ k, USER_SPACE_END = va + k * PAGE_SIZE :=
    ⟨(USER_SPACE_END - va) / PAGE_SIZE, by unfold PAGE_SIZE USER_SPACE_END at *; omega⟩
  obtain ⟨m, hm⟩ : ∃ m, n = k + (m + 1) := ⟨n - k - 1, by unfold PAGE_SIZE at *; omega⟩
  have hpages : ∀ j, j < k → l.present (pageKey (va + j * PAGE_SIZE)) := by
    intro j hj
    rw [hp]
    exact allButEnd_user (by unfold PAGE_SIZE at *; omega)
  have habsent : ¬ l.present (pageKey USER_SPACE_END) := by
    rw [hp, allButEnd]
    exact Bool.false_ne_true
  have hpage : ¬ ¬ Env.plenty.page l.tries := not_not.2 rfl
  have htable : ¬ ¬ Env.plenty.table l.tries := not_not.2 rfl
  rw [hm, mapPages_present _ _ _ _ _ _ hpages, ← hk, mapPages, if_neg habsent, if_neg hpage]
  exact mapPages_log (mem_append_right _ (mem_singleton_self _))

theorem data_contained (hp : ∀ k, l.present k) (hr : ¬ h.Refused f dynBias)
    (hok : ∀ a ∈ (loadHeader env f dynBias h l).1.log, a.Ok f.size.toNat) :
    (h.type = PT_INTERP → h.offset.toNat + h.filesz.toNat < 2 ^ 64) ∧
      (h.type = PT_LOAD → h.offset.toNat + h.filesz.toNat < 2 ^ 64 ∧
        (h.segVaddr dynBias).toNat + h.filesz.toNat ≤ USER_SPACE_END) := by
  cases loadHeader_kept env hr l with
  | interp ht hsum info he =>
    rw [he] at hok
    have hread : h.offset.toNat + h.filesz.toNat ≤ f.size.toNat :=
      hok (.read _ _) (mem_append_right _ (mem_singleton_self _))
    refine ⟨fun _ => hread.trans_lt f.size.isLt, fun hl => ?_⟩
    rw [ht] at hl
    cases hl
  | load ht hsum hlo hhi he =>
    rw [he] at hok
    refine ⟨fun hi => ?_, fun _ => ?_⟩
    · rw [ht] at hi
      cases hi
    · exact copyFile_ok hp (lt_succ_self _) (zero_le _) h.offset.isLt hhi.le f.size.isLt
        fun a ha => hok a (loadSegment_copied hp ha)
  | other hi hl info he => exact ⟨fun h => absurd h hi, fun h => absurd h hl⟩

theorem end_contained (hp : l.present = allButEnd) (hr : ¬ h.Refused f dynBias) (ht : h.type = PT_LOAD)
    (hok : ∀ a ∈ (loadHeader .plenty f dynBias h l).1.log, a.Ok f.size.toNat) : h.segEnd dynBias ≤ USER_SPACE_END := by
  cases loadHeader_kept .plenty hr l with
  | interp hi _ _ _ => rw [ht] at hi; cases hi
  | other _ hl _ _ => exact absurd ht hl
  | load _ hsum hlo hhi he =>
    rw [he] at hok
    by_contra hend
    refine absurd (hok _ (loadSegment_mapped (mapPages_end _ _ _ _ hp (mul_mod_left ..) ?_ ?_))).2 (lt_irrefl _)
    · unfold Phdr.segStart PAGE_SIZE
      omega
    · unfold Phdr.segEnd PAGE_SIZE USER_SPACE_END at *
      omega

end Needed

/-- The loader is safe in every address space exactly if the file is refused before the loop over the program headers,
or every program header it gets to lies in the file and is refused or contained. -/
theorem elf_load_safe_iff (f : Image) (loadBias : U64) :
    (∀ env present, Safe f.size.toNat (elfLoad env present f loadBias).1) ↔
      (f.Accepted → f.HeadersOk (f.ehdr.dynBias loadBias)) := by
  constructor
  · intro hsafe hacc i
    induction i using Nat.strong_induction_on with
    | _ i ih =>
      intro hi hprev
      have hprev' : ∀ j, j < i → ¬ (f.header j).Refused f (f.ehdr.dynBias loadBias) ∧
          (f.header j).Contained (f.ehdr.dynBias loadBias) := fun j hj =>
        ⟨hprev j hj, (ih j hj (hj.trans hi) fun k hk => hprev k (hk.trans hj)).2 (hprev j hj)⟩
      obtain ⟨l, hp, hok⟩ := header_ok .plenty (fun _ => true) hacc hi (fun _ _ _ => rfl) hprev' (hsafe _ _)
      refine ⟨hok _ (loadHeader_log (mem_append_right _ (mem_singleton_self _))), fun hr => ?_⟩
      obtain ⟨l', hp', hok'⟩ := header_ok .plenty allButEnd hacc hi (fun _ _ hva => allButEnd_user hva)
        hprev' (hsafe _ _)
      obtain ⟨hinterp, hload⟩ := data_contained (l := l.note _) (fun k => congrFun hp k) hr hok
      refine ⟨hinterp, fun ht => ?_⟩
      have hend := end_contained (l := l'.note _) hp' hr ht hok'
      exact ⟨(hload ht).1, hend, (hload ht).2⟩
  · intro hok env present
    exact (elfLoad_good present hok).safe

def imageWith (phdr : List Byte) : Image :=
  let ehdr : List Byte :=
    [127, 69, 76, 70, 2, 1, 1, 0, 0, 0, 0, 0, 0, 0, 0, 0, 2, 0, 62, 0, 1, 0, 0, 0, 0, 0, 64, 0, 0, 0, 0, 0, 64, 0, 0,
     0, 0, 0, 0, 0, 0, 0, 0, 0, 0, 0, 0, 0, 0, 0, 0, 0, 64, 0, 56, 0, 1, 0, 0, 0, 0, 0, 0, 0]
  { byte := fun off => (ehdr ++ phdr).getD off.toNat 0, size := 120 }

def wrappingPhdr : List Byte :=
  [1, 0, 0, 0, 6, 0, 0, 0, 240, 255, 255, 255, 255, 255, 255, 255, 0, 0, 64, 0, 0, 0, 0, 0, 0, 0, 0, 0, 0, 0, 0, 0,
   32, 0, 0, 0, 0, 0, 0, 0, 32, 0, 0, 0, 0, 0, 0, 0, 0, 16, 0, 0, 0, 0, 0, 0]

def overlongPhdr : List Byte :=
  [1, 0, 0, 0, 6, 0, 0, 0, 0, 0, 0, 0, 0, 0, 0, 0, 0, 224, 255, 255, 255, 127, 0, 0, 0, 0, 0, 0, 0, 0, 0, 0, 0, 0, 0,
   0, 0, 0, 0, 0, 0, 32, 0, 0, 0, 0, 0, 0, 0, 16, 0, 0, 0, 0, 0, 0]

/-- The first file makes the loader read in front of the file, the second one makes it map a page behind the user
range, in a fresh address space. -/
theorem elf_load_unsafe :
    ¬ Safe (imageWith wrappingPhdr).size.toNat (elfLoad .plenty (fun _ => false) (imageWith wrappingPhdr) 0).1 ∧
      ¬ Safe (imageWith overlongPhdr).size.toNat (elfLoad .plenty (fun _ => false) (imageWith overlongPhdr) 0).1 := by
  have hread : .read (2 ^ 64 - 16) 32 ∈
      (elfLoad .plenty (fun _ => false) (imageWith wrappingPhdr) 0).1.log := by decide +kernel
  have hmap : .map USER_SPACE_END true true ∈
      (elfLoad .plenty (fun _ => false) (imageWith overlongPhdr) 0).1.log := by decide +kernel
  exact ⟨fun h => absurd (h.ok _ hread) (by decide), fun h => absurd (h.ok _ hmap) (by decide)⟩

end ExoOS.Elf
