import ExoOS.Mm.Areas
import ExoOS.Mm.Faults
import Mathlib.Data.List.Find

/-!
# Changing permissions

`sys_mprotect` splits areas and rewrites entries. The areas keep showing the same pages of the same files
(`applyMprotect_spec`) and the entries keep mapping the same pages (`protectPages_spec`), so that no process
reads anything else than before. The new entries are writable or not as asked for, whether the page is shared
or not: isolation is kept if the pages that become writable have no other entry (`sysMprotect_spec`).
-/

namespace ExoOS.Mm

open Finset Vma List Memory

variable {ι : Type} {s s' : Memory ι} {i j : ι} {a : Nat}

/-! ### Splitting areas -/

/-- Areas of the same kind, on the same file. -/
structure Vma.Kin (v w : Vma) : Prop where
  file : w.file = v.file
  isFile : w.flags.file = v.flags.file
  shared : w.flags.shared = v.flags.shared

theorem Vma.Kin.refl (v : Vma) : v.Kin v := ⟨rfl, rfl, rfl⟩

variable {v : Vma} {vs ws : List Vma}

/-- What an area shows at a page: the page of a file, and whether it is shared. -/
def Vma.shows (v : Vma) (page : Nat) : Bool × Option (Nat × Nat) := (v.flags.shared, v.fileAt page)

def SameFiles (vs vs' : List Vma) : Prop :=
  ∀ a < 2 ^ 64, (vmaFindForAddr vs' a).map (Vma.shows · (pageAlign a)) =
    (vmaFindForAddr vs a).map (Vma.shows · (pageAlign a))

def showsOf (m : VmaFlags × Option (Nat × Nat × Bool)) : Bool × Option (Nat × Nat) :=
  (m.1.shared, if m.1.file then m.2.bind fun f => if f.2.2 then some (f.1, pageAlign f.2.1) else none else none)

theorem shows_eq {page : Nat} (hc : v.start ≤ page) (h64 : page < 2 ^ 64) : v.shows page = showsOf (v.view page) := by
  have hw : (page + 2 ^ 64 - v.start) % 2 ^ 64 = page - v.start := by omega
  unfold shows fileAt showsOf Vma.view
  cases v.flags.file with
  | false => rfl
  | true =>
    cases v.file with
    | none => rfl
    | some f => simp only [hw, Option.bind_some, decide_eq_true_eq, if_true, Option.map_some]

theorem mappingAt_shows (hvs : ∀ v ∈ vs, v.Aligned) (ha : a < 2 ^ 64) :
    (vmaFindForAddr vs a).map (Vma.shows · (pageAlign a)) = (mappingAt vs (pageAlign a)).map showsOf := by
  have hfind : vmaFindForAddr vs (pageAlign a) = vmaFindForAddr vs a := by
    refine find?_congr fun v hv => ?_
    obtain ⟨h1, h2⟩ := hvs v hv
    unfold pageAlign PAGE_SIZE at *
    exact decide_eq_decide.2 (by unfold Vma.Covers; omega)
  unfold mappingAt
  rw [hfind, Option.map_map]
  cases hf : vmaFindForAddr vs a with
  | none => rfl
  | some v =>
    rw [← hfind] at hf
    have hc := find?_some hf
    exact congrArg some (shows_eq (of_decide_eq_true hc).1 ((Nat.div_mul_le_self ..).trans_lt ha))

/-- The areas of `vs'` are page aligned parts of those of `vs`, and some part of every area is left. -/
structure PartsOf (vs vs' : List Vma) : Prop where
  aligned : ∀ w ∈ vs', w.Aligned
  part : ∀ w ∈ vs', ∃ v ∈ vs, v.Kin w
  kept : ∀ v ∈ vs, ∃ w ∈ vs', v.Kin w

theorem PartsOf.refl (h : ∀ v ∈ vs, v.Aligned) : PartsOf vs vs :=
  ⟨h, fun v hv => ⟨v, hv, .refl v⟩, fun v hv => ⟨v, hv, .refl v⟩⟩

theorem PartsOf.isPrivate {vs vs' : List Vma} (h : PartsOf vs vs') (hvs : ∀ v ∈ vs, v.Private) :
    ∀ w ∈ vs', w.Private := by
  intro w hw
  have hal := h.aligned w hw
  obtain ⟨v, hv, hk⟩ := h.part w hw
  refine ⟨hal.1, hal.2, ?_⟩
  rw [hk.file, hk.isFile, hk.shared]
  exact (hvs v hv).2.2

theorem PartsOf.append {v u : Vma} {l ws ws' : List Vma} (h : PartsOf ws ws')
    (hl : ∀ w ∈ l, w.Aligned ∧ v.Kin w) (hu : u ∈ l) : PartsOf (v :: ws) (l ++ ws') := by
  refine ⟨fun w hw => ?_, fun w hw => ?_, fun w hw => ?_⟩
  · rcases mem_append.1 hw with hw | hw
    · exact (hl w hw).1
    · exact h.aligned w hw
  · rcases mem_append.1 hw with hw | hw
    · exact ⟨v, mem_cons_self, (hl w hw).2⟩
    · obtain ⟨x, hx, hk⟩ := h.part w hw
      exact ⟨x, mem_cons_of_mem _ hx, hk⟩
  · rcases mem_cons.1 hw with rfl | hw
    · exact ⟨u, mem_append_left _ hu, (hl u hu).2⟩
    · obtain ⟨x, hx, hk⟩ := h.kept w hw
      exact ⟨x, mem_append_right _ hx, hk⟩

theorem split_parts {lo hi : Nat} {r w x : Bool} (hv : v.Aligned) (hlo : lo % PAGE_SIZE = 0)
    (hhi : hi % PAGE_SIZE = 0) : ∀ u ∈ v.split lo hi r w x, u.Aligned ∧ v.Kin u := by
  have hpart : ∀ b c, b % PAGE_SIZE = 0 → c % PAGE_SIZE = 0 → (v.part b c).Aligned ∧ v.Kin (v.part b c) := by
    intro b c hb hc
    obtain ⟨hfile, hflags⟩ := v.part_file b c
    refine ⟨?_, hfile, by rw [hflags], by rw [hflags]⟩
    unfold Vma.Aligned
    rw [part_start, part_stop]
    exact ⟨hb, hc⟩
  intro u hu
  rcases List.mem_append.1 hu with hu | hu
  · split at hu
    · rw [List.mem_singleton.1 hu]
      exact hpart _ _ hv.1 hlo
    · cases hu
  rcases List.mem_cons.1 hu with rfl | hu
  · have ⟨h, hk⟩ := hpart lo hi hlo hhi
    exact ⟨h, hk.file, hk.isFile, hk.shared⟩
  · split at hu
    · rw [List.mem_singleton.1 hu]
      exact hpart _ _ hhi hv.2
    · cases hu

theorem Walk.partsOf {lo hi n : Nat} {r w x ok : Bool} (h : Walk lo hi r w x vs ws ok n)
    (hlo : lo % PAGE_SIZE = 0) (hhi : hi % PAGE_SIZE = 0) (hvs : ∀ v ∈ vs, v.Aligned) : PartsOf vs ws := by
  induction h with
  | nil | stop | failed => exact .refl hvs
  | @skip v vs ws _ _ _ _ ih =>
    obtain ⟨hv, hvs⟩ := List.forall_mem_cons.1 hvs
    refine (ih hvs).append (l := [v]) (fun w hw => ?_) List.mem_cons_self
    rw [List.mem_singleton.1 hw]
    exact ⟨hv, .refl v⟩
  | split h1 h2 _ _ _ ih =>
    obtain ⟨hv, hvs⟩ := List.forall_mem_cons.1 hvs
    refine (ih hvs).append (split_parts hv ?_ ?_) (List.mem_append_right _ List.mem_cons_self)
    · rcases h1.2.2 with rfl | rfl
      · exact hv.1
      · exact hlo
    · rcases h2.2.2 with rfl | rfl
      · exact hv.2
      · exact hhi

variable {mem : Nat → Bool}

theorem applyMprotect_spec {lo hi k : Nat} {r w x : Bool}
    (hlo : lo % PAGE_SIZE = 0) (hhi : hi % PAGE_SIZE = 0) (hlt : lo < hi) (hvs : ∀ v ∈ vs, v.Aligned) :
    SameFiles vs (applyMprotect lo hi r w x mem k vs).1 ∧ PartsOf vs (applyMprotect lo hi r w x mem k vs).1 := by
  have hw := applyMprotect_walk (r := r) (w := w) (x := x) mem hlt k vs
  have hp := hw.partsOf hlo hhi hvs
  refine ⟨fun a ha => ?_, hp⟩
  rw [mappingAt_shows hvs ha, mappingAt_shows hp.aligned ha]
  rcases hw.mapping (pageAlign a) with ⟨heq, -⟩ | ⟨-, -, heq⟩
  · rw [heq]
  · rw [heq, Option.map_map]
    rfl

/-! ### Changing permissions -/

/-- The same pages are mapped at the same places; permissions and areas may differ. -/
structure SameMaps (s s' : Memory ι) : Prop where
  present : ∀ j l, (s'.uview j l).present = (s.uview j l).present
  pfn : ∀ j l, (s'.uview j l).pfn = (s.uview j l).pfn
  pmm : s'.pmm = s.pmm
  data : s'.data = s.data
  cache : s'.cache = s.cache
  content : s'.content = s.content
  wrote : s'.wrote = s.wrote

namespace SameMaps

theorem refl (s : Memory ι) : SameMaps s s := ⟨fun _ _ => rfl, fun _ _ => rfl, rfl, rfl, rfl, rfl, rfl⟩

section

variable (h : SameMaps s s')
include h

theorem trans {s'' : Memory ι} (h' : SameMaps s' s'') : SameMaps s s'' :=
  ⟨fun j l => (h'.present j l).trans (h.present j l), fun j l => (h'.pfn j l).trans (h.pfn j l),
    h'.pmm.trans h.pmm, h'.data.trans h.data, h'.cache.trans h.cache, h'.content.trans h.content,
    h'.wrote.trans h.wrote⟩

theorem mapRefs [Fintype ι] (p : Nat) : s'.mapRefs p = s.mapRefs p := by
  exact sum_congr rfl fun j _ => halfRefs_congr (fun l => ⟨h.present j l, fun _ => h.pfn j l⟩) p

theorem demandPageOf (v : Vma) (page : Nat) : s'.demandPageOf v page = s.demandPageOf v page := by
  unfold Memory.demandPageOf Memory.filePage
  rw [h.cache, h.data, h.content]

theorem value (hf : ∀ j, SameFiles (s.procs j).vmas (s'.procs j).vmas) (j : ι)
    (ha : a < 2 ^ 64) : s'.value j a = s.value j a := by
  unfold Memory.value
  rw [h.present, h.pfn, h.data]
  split
  · rfl
  · simp only [h.demandPageOf, Memory.demandPageOf_eq]
    have := congrArg (Option.map fun k => (Option.elim k.2 (fun _ => 0) fun k => s.filePage k.1 k.2 : Page)
      (a % PAGE_SIZE)) (hf j a ha)
    simpa only [Option.map_map, Function.comp_def, shows] using this

end

theorem isolated [Fintype ι] (h : Isolated s) (hm : SameMaps s s')
    (hsolo : ∀ j l, (s.uview j l).present → (s'.uview j l).write →
      (s.uview j l).write ∨ s.mapRefs (s.uview j l).pfn = 1)
    (hareas : ∀ j, ∀ v ∈ (s'.procs j).vmas, v.Private) : Isolated s' := by
  refine ⟨fun p hp => ?_, fun j l hp hw => ?_, fun e he => ?_, hareas⟩
  · rw [hm.mapRefs] at hp ⊢
    rw [hm.pmm]
    exact h.mapped p hp
  · rw [hm.present] at hp
    rw [hm.mapRefs, hm.pfn]
    rcases hsolo j l hp hw with hw | h1
    · exact h.solo j l hp hw
    · exact h1
  · rw [hm.cache] at he
    rw [hm.mapRefs, hm.pmm]
    exact h.cached e he

end SameMaps

variable [DecidableEq ι]

theorem PteStore.sameMaps {e : Pte} (h : PteStore s i a e s') (hpmm : s'.pmm = s.pmm)
    (hp : (s.pte i a).present) (he : e.present) (hpfn : e.pfn = (s.pte i a).pfn) : SameMaps s s' := by
  refine ⟨fun j l => ?_, fun j l => ?_, hpmm, h.data, h.cache, h.same.content, h.same.wrote⟩
  · rcases h.cases j l with hv | ⟨rfl, hk, rfl, hv⟩
    · rw [hv]
    · rw [s.pte_user j hk] at hp
      rw [hv, he, hp]
  · rcases h.cases j l with hv | ⟨rfl, hk, rfl, hv⟩
    · rw [hv]
    · rw [hv, hpfn, s.pte_user j hk]

theorem protectPage_spec (i : ι) (prot : Prot) (s : Memory ι) (a : Nat) :
    SameMaps s (protectPage i prot s a) ∧ SameAreas s (protectPage i prot s a) ∧
      ∀ j l, ((protectPage i prot s a).uview j l).write → (s.uview j l).write ∨
        j = i ∧ prot.write ∧ isKernel a = false ∧ l = loc a := by
  unfold protectPage
  dsimp only
  split
  · rename_i hp
    have hst := setPteAt_store ⟨(s.pte i a).pfn, true, prot.write, true, !prot.exec, false⟩ hp
    refine ⟨hst.sameMaps (setPteAt_pmm ..) hp rfl rfl, hst.same, fun j l hw => ?_⟩
    rcases hst.cases j l with hv | ⟨hj, hk, hl, hv⟩
    · rw [hv] at hw; exact .inl hw
    · rw [hv] at hw; exact .inr ⟨hj, hw, hk, hl⟩
  · exact ⟨.refl s, .refl s, fun j l hw => .inl hw⟩

theorem protectPages_spec (i : ι) (prot : Prot) (addr : Nat) (ks : List Nat) (s : Memory ι) :
    let s' := ks.foldl (fun s k => protectPage i prot s (pageAddr addr k)) s
    SameMaps s s' ∧ SameAreas s s' ∧ ∀ j l, (s'.uview j l).write → (s.uview j l).write ∨
        j = i ∧ prot.write ∧ ∃ k ∈ ks, isKernel (pageAddr addr k) = false ∧ l = loc (pageAddr addr k) := by
  induction ks generalizing s with
  | nil => exact ⟨.refl s, .refl s, fun j l hw => .inl hw⟩
  | cons k ks ih =>
    obtain ⟨h1, h2, h3⟩ := protectPage_spec i prot s (pageAddr addr k)
    obtain ⟨g1, g2, g3⟩ := ih (protectPage i prot s (pageAddr addr k))
    refine ⟨h1.trans g1, h2.trans g2, fun j l hw => ?_⟩
    rcases g3 j l hw with hw | ⟨hj, hw, k', hk', hx⟩
    · rcases h3 j l hw with hw | ⟨hj, hw, hx⟩
      · exact .inl hw
      · exact .inr ⟨hj, hw, k, mem_cons_self, hx⟩
    · exact .inr ⟨hj, hw, k', mem_cons_of_mem _ hk', hx⟩

/-- A page that `sys_mprotect` makes writable has one reference. -/
def ProtectsOwn (s : Memory ι) (i : ι) (addr len : Nat) (prot : Prot) : Prop :=
  prot.write → ∀ k < pageAlignUp len / PAGE_SIZE, isKernel (pageAddr addr k) = false →
    (s.pte i (pageAddr addr k)).present → s.pmm.pageGetref (s.pte i (pageAddr addr k)).pfn = 1

theorem pageAlignUp_mod (x : Nat) : pageAlignUp x % PAGE_SIZE = 0 := by
  exact Nat.mul_mod_left ..

variable {prot : Prot}

theorem vmaApplyMprotect_spec {lo hi : Nat}
    (hlo : lo % PAGE_SIZE = 0) (hhi : hi % PAGE_SIZE = 0) (hvs : ∀ v ∈ vs, v.Aligned) :
    SameFiles vs (vmaApplyMprotect lo hi prot mem vs).2.1 ∧ PartsOf vs (vmaApplyMprotect lo hi prot mem vs).2.1 := by
  unfold vmaApplyMprotect
  split
  · exact ⟨fun _ _ => rfl, .refl hvs⟩
  · exact applyMprotect_spec hlo hhi (by omega) hvs

theorem setVmas_uview (s : Memory ι) (i : ι) (vs : List Vma) (j : ι) :
    (s.setProc i { s.procs i with vmas := vs }).uview j = s.uview j := by
  by_cases hj : j = i
  · subst hj; simp [uview, setProc]
  · simp [uview, setProc, hj]

variable {addr len : Nat} {r : Int}

/-- What a call of `sys_mprotect` leaves: areas of `i` that may have been split, and new entries in some pages of
the range. -/
theorem sysMprotect_cases (hm : sysMprotect mem s i addr len prot = (r, s')) :
    s' = s ∨ ∃ (vs : List Vma) (l : List Nat),
      ((∀ v ∈ (s.procs i).vmas, v.Aligned) → SameFiles (s.procs i).vmas vs ∧ PartsOf (s.procs i).vmas vs) ∧
      (∀ k ∈ l, k < pageAlignUp len / PAGE_SIZE) ∧
      s' = l.foldl (fun s k => protectPage i prot s (pageAddr addr k)) (s.setProc i { s.procs i with vmas := vs }) := by
  unfold sysMprotect at hm
  split at hm
  · cases hm; exact .inl rfl
  rename_i hal
  split at hm
  · cases hm; exact .inl rfl
  dsimp only at hm
  split at hm
  · cases hm; exact .inl rfl
  split at hm
  swap
  · cases hm; exact .inl rfl
  have hlo : addr % PAGE_SIZE = 0 := by by_contra hx; exact hal (.inl hx)
  have hhi : (addr + pageAlignUp len) % 2 ^ 64 % PAGE_SIZE = 0 := by
    have := pageAlignUp_mod len
    unfold PAGE_SIZE at *
    omega
  generalize hv : (if ((s.procs i).vmas.any fun v =>
      decide (¬ (v.stop ≤ addr ∨ (addr + pageAlignUp len) % 2 ^ 64 ≤ v.start))) then
      vmaApplyMprotect addr ((addr + pageAlignUp len) % 2 ^ 64) prot mem (s.procs i).vmas
    else (0, (s.procs i).vmas, 0)) = q at hm
  refine .inr ⟨q.2.1, ?_⟩
  have hq : (∀ v ∈ (s.procs i).vmas, v.Aligned) → SameFiles (s.procs i).vmas q.2.1 ∧
      PartsOf (s.procs i).vmas q.2.1 := by
    intro hvs
    subst hv
    split
    · exact vmaApplyMprotect_spec hlo hhi hvs
    · exact ⟨fun _ _ => rfl, .refl hvs⟩
  split at hm
  · cases hm
    exact ⟨[], hq, nofun, rfl⟩
  · cases hm
    exact ⟨_, hq, fun k hk => List.mem_range.1 hk, rfl⟩

/-- The same pages are mapped and shown, by parts of the same areas, and entries became writable only where
this was asked for. -/
structure Protected (s : Memory ι) (i : ι) (addr len : Nat) (prot : Prot) (s' : Memory ι) : Prop where
  maps : SameMaps s s'
  files : ∀ j, SameFiles (s.procs j).vmas (s'.procs j).vmas
  parts : ∀ j, PartsOf (s.procs j).vmas (s'.procs j).vmas
  next : ∀ j, (s'.procs j).mmapNext = (s.procs j).mmapNext
  write : ∀ j l, (s'.uview j l).write → (s.uview j l).write ∨ j = i ∧ prot.write ∧
    ∃ k < pageAlignUp len / PAGE_SIZE, isKernel (pageAddr addr k) = false ∧ l = loc (pageAddr addr k)

theorem sysMprotect_protected (hal : ∀ j, ∀ v ∈ (s.procs j).vmas, v.Aligned)
    (hm : sysMprotect mem s i addr len prot = (r, s')) :
    Protected s i addr len prot s' := by
  rcases sysMprotect_cases hm with rfl | ⟨vs, l, hvs, hks, rfl⟩
  · exact ⟨.refl s', fun _ _ _ => rfl, fun j => .refl (hal j), fun _ => rfl, fun _ _ hw => .inl hw⟩
  have hu := setVmas_uview s i vs
  have hvm : ∀ j, ((s.setProc i { s.procs i with vmas := vs }).procs j).vmas =
      if j = i then vs else (s.procs j).vmas := by
    intro j
    by_cases hj : j = i
    · subst hj; simp [setProc]
    · simp [setProc, hj]
  have hnext : ∀ j, ((s.setProc i { s.procs i with vmas := vs }).procs j).mmapNext = (s.procs j).mmapNext := by
    intro j
    by_cases hj : j = i
    · subst hj; simp [setProc]
    · simp [setProc, hj]
  have hm1 : SameMaps s (s.setProc i { s.procs i with vmas := vs }) :=
    ⟨fun j m => by rw [hu], fun j m => by rw [hu], rfl, rfl, rfl, rfl, rfl⟩
  generalize s.setProc i { s.procs i with vmas := vs } = s1 at *
  obtain ⟨hm2, hv2, hw2⟩ := protectPages_spec i prot addr l s1
  have hareas : ∀ j, SameFiles (s.procs j).vmas
      ((l.foldl (fun s k => protectPage i prot s (pageAddr addr k)) s1).procs j).vmas ∧
      PartsOf (s.procs j).vmas
      ((l.foldl (fun s k => protectPage i prot s (pageAddr addr k)) s1).procs j).vmas := by
    intro j
    rw [hv2.vmas, hvm]
    split
    · rename_i hj; subst hj; exact hvs (hal j)
    · exact ⟨fun _ _ => rfl, .refl (hal j)⟩
  refine ⟨hm1.trans hm2, fun j => (hareas j).1, fun j => (hareas j).2, fun j => (hv2.next j).trans (hnext j),
    fun j m hw => ?_⟩
  rcases hw2 j m hw with hw | ⟨hj, hpw, k, hk, hx⟩
  · rw [hu] at hw; exact .inl hw
  · exact .inr ⟨hj, hpw, k, hks k hk, hx⟩

theorem sysMprotect_spec [Fintype ι] (h : Isolated s) (hc : ProtectsOwn s i addr len prot)
    (hm : sysMprotect mem s i addr len prot = (r, s')) : Undisturbed s s' := by
  have hp := sysMprotect_protected (fun j v hv => (h.areas j v hv).aligned) hm
  refine ⟨hp.maps.isolated h (fun j l hpl hw => ?_) fun j => (hp.parts j).isPrivate (h.areas j),
    fun j b hb => hp.maps.value hp.files j (hb.trans (by decide)), hp.maps.wrote⟩
  rcases hp.write j l hw with hw | ⟨rfl, hpw, k, hk, hker, rfl⟩
  · exact .inl hw
  -- the count of the page is the number of its entries
  have h1 := hc hpw k hk hker
  rw [s.pte_user j hker] at h1
  have h1 := h1 hpl
  obtain ⟨hlt, -, hr⟩ := h.mapped _ (mapRefs_pos hpl)
  rw [Pmm.pageGetref, if_pos hlt, hr] at h1
  exact .inr h1

end ExoOS.Mm
