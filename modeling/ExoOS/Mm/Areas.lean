import ExoOS.Mm.Memory

/-!
# What a list of areas says about an address

`mappingAt` is the view of an address that a list of areas gives: the flags, the file, the offset in it and whether
this lies inside the file-backed part. The walk of `vma_apply_mprotect` changes nothing in it but the permissions of
the range (`mprotect_exact`); that of `sys_munmap` takes the range out of it, and changes nothing else if the areas
that the range ends in are file-backed as a whole (`munmap_local_iff`).
-/

namespace ExoOS.Mm

open List Memory Vma Option

/-- Only an area with a file has a file offset and a file-backed part. -/
def Vma.view (v : Vma) (a : Nat) : VmaFlags × Option (Nat × Nat × Bool) :=
  (v.flags, v.file.map fun f =>
    (f, (v.fileOffset + (a - v.start)) % 2 ^ 64, decide (a - v.start < v.fileSize)))

def mappingAt (vs : List Vma) (a : Nat) : Option (VmaFlags × Option (Nat × Nat × Bool)) :=
  (vmaFindForAddr vs a).map (·.view a)

structure Sorted (vs : List Vma) : Prop where
  ordered : ∀ v ∈ vs, v.start ≤ v.stop
  apart : vs.Pairwise fun v w => v.stop ≤ w.start

def fileVmas (vs : List Vma) : Nat := vs.countP (·.file.isSome)

def Vma.split (v : Vma) (lo hi : Nat) (r w x : Bool) : List Vma :=
  (if decide (v.start < lo) then [v.part v.start lo] else []) ++
    (v.part lo hi).setPerm r w x :: (if decide (hi < v.stop) then [v.part hi v.stop] else [])

/-- What the walk makes of a list of areas, whether it runs to its end, and the references it takes. -/
inductive Walk (lo hi : Nat) (r w x : Bool) : List Vma → List Vma → Bool → Nat → Prop
  | nil : Walk lo hi r w x [] [] true 0
  | skip {v : Vma} {vs ws : List Vma} {ok : Bool} {n : Nat} (h : v.stop ≤ lo) (hw : Walk lo hi r w x vs ws ok n) :
    Walk lo hi r w x (v :: vs) (v :: ws) ok n
  | stop {v : Vma} {vs : List Vma} (h : hi ≤ v.start) : Walk lo hi r w x (v :: vs) (v :: vs) true 0
  | failed {vs : List Vma} : Walk lo hi r w x vs vs false 0
  | split {v : Vma} {vs ws : List Vma} {ok : Bool} {m n lo' hi' : Nat}
    (h1 : v.start ≤ lo' ∧ lo ≤ lo' ∧ (lo' = v.start ∨ lo' = lo))
    (h2 : hi' ≤ v.stop ∧ hi' ≤ hi ∧ (hi' = v.stop ∨ hi' = hi)) (h3 : lo' < hi' ∨ lo' = v.start ∧ hi' = v.stop)
    (hm : fileVmas (v.split lo' hi' r w x) = fileVmas [v] + m) (hw : Walk lo hi r w x vs ws ok n) :
    Walk lo hi r w x (v :: vs) (v.split lo' hi' r w x ++ ws) ok (m + n)

variable {u v : Vma} {vs ws : List Vma} {mem : Nat → Bool} {a k lo hi : Nat} {r w x : Bool}

theorem view_eq_iff (hflags : u.flags = v.flags) (hfile : u.file = v.file)
    (hoff : v.file.isSome → (u.fileOffset + (a - u.start)) % 2 ^ 64 = (v.fileOffset + (a - v.start)) % 2 ^ 64) :
    u.view a = v.view a ↔ (v.file.isSome → (a - u.start < u.fileSize ↔ a - v.start < v.fileSize)) := by
  unfold Vma.view
  rw [hflags, hfile]
  cases hf : v.file with
  | none => simp
  | some f =>
    rw [hf] at hoff
    simp only [map_some, hoff rfl]
    simp

@[simp] theorem Vma.part_start (v : Vma) (lo hi : Nat) : (v.part lo hi).start = lo := by
  unfold part fileWindow; split <;> rfl

@[simp] theorem Vma.part_stop (v : Vma) (lo hi : Nat) : (v.part lo hi).stop = hi := by
  unfold part fileWindow; split <;> rfl

theorem Vma.part_file (v : Vma) (lo hi : Nat) : (v.part lo hi).file = v.file ∧ (v.part lo hi).flags = v.flags := by
  unfold part fileWindow; split <;> exact ⟨rfl, rfl⟩

theorem view_part (hlo : v.start ≤ lo) (h1 : lo ≤ a) (h2 : a < hi) : (v.part lo hi).view a = v.view a := by
  refine (view_eq_iff (v.part_file lo hi).2 (v.part_file lo hi).1 fun hf => ?_).2 fun hf => ?_
  all_goals
    obtain ⟨f, hf⟩ := isSome_iff_exists.1 hf
    simp only [part, fileWindow, hf]
  · rw [Nat.mod_add_mod]
    congr 1
    omega
  · split
    · omega
    split <;> omega

theorem mappingAt_cons (v : Vma) (ws : List Vma) (a : Nat) :
    mappingAt (v :: ws) a = if v.Covers a then some (v.view a) else mappingAt ws a := by
  unfold mappingAt vmaFindForAddr
  by_cases hc : v.Covers a <;> simp [hc]

theorem mappingAt_append (ws vs : List Vma) (a : Nat) :
    mappingAt (ws ++ vs) a = (mappingAt ws a).or (mappingAt vs a) := by
  unfold mappingAt vmaFindForAddr
  rw [find?_append, map_or]

theorem mappingAt_eq_none (h : ∀ v ∈ vs, ¬ v.Covers a) : mappingAt vs a = none := by
  simpa [mappingAt, vmaFindForAddr] using h

theorem Sorted.tail (h : Sorted (v :: vs)) : Sorted vs :=
  ⟨fun w hw => h.ordered w (mem_cons_of_mem _ hw), h.apart.of_cons⟩

/-! ### Changing permissions -/

theorem fileVmas_split (v : Vma) (lo hi : Nat) (r w x : Bool) :
    fileVmas (v.split lo hi r w x) = fileVmas [v] + ((if decide (v.start < lo) && v.file.isSome then 1 else 0) +
      if decide (hi < v.stop) && v.file.isSome then 1 else 0) := by
  have hpart : ∀ lo hi, (v.part lo hi).file = v.file := fun lo hi => (v.part_file lo hi).1
  unfold fileVmas Vma.split
  rw [countP_append, countP_cons]
  cases decide (v.start < lo) <;> cases decide (hi < v.stop) <;> simp [setPerm, hpart]

theorem applyMprotect_walk (mem : Nat → Bool) (hlt : lo < hi) (k : Nat) (vs : List Vma) : Walk lo hi r w x vs
    (applyMprotect lo hi r w x mem k vs).1 (applyMprotect lo hi r w x mem k vs).2.1
    (applyMprotect lo hi r w x mem k vs).2.2 := by
  induction vs generalizing k with
  | nil => exact .nil
  | cons v vs ih =>
    unfold applyMprotect
    by_cases h1 : v.stop ≤ lo
    · simp only [if_pos h1]
      exact .skip h1 (ih k)
    by_cases h2 : hi ≤ v.start
    · simp only [if_neg h1, if_pos h2]
      exact .stop h2
    simp only [if_neg h1, if_neg h2]
    generalize hps : (if lo < v.start then v.start else lo) = ps
    generalize hpe : (if v.stop < hi then v.stop else hi) = pe
    have hps' : v.start ≤ ps ∧ lo ≤ ps ∧ (ps = v.start ∨ ps = lo) := by split at hps <;> omega
    have hpe' : pe ≤ v.stop ∧ pe ≤ hi ∧ (pe = v.stop ∨ pe = hi) := by split at hpe <;> omega
    generalize (if decide (v.start < ps) then k + 1 else k) = k'
    generalize (if decide (pe < v.stop) then k' + 1 else k') = k''
    by_cases hfail : (decide (v.start < ps) && !mem k || decide (pe < v.stop) && !mem k')
    · simp only [if_pos hfail]
      exact .failed
    simp only [if_neg hfail]
    exact .split hps' hpe' (by omega) (fileVmas_split ..) (ih k'')

theorem mappingAt_part (hlo : lo < hi → v.start ≤ lo) (ws : List Vma) (a : Nat) :
    mappingAt ((if decide (lo < hi) then [v.part lo hi] else []) ++ ws) a =
      if lo ≤ a ∧ a < hi then some (v.view a) else mappingAt ws a := by
  by_cases ha : lo ≤ a ∧ a < hi
  · rw [if_pos (by rw [decide_eq_true_eq]; omega), if_pos ha, singleton_append, mappingAt_cons,
      if_pos (by simpa [Covers] using ha), view_part (hlo (by omega)) ha.1 ha.2]
  split
  · rw [singleton_append, mappingAt_cons, if_neg (by simpa [Covers] using ha)]
  · rfl

def reprotect (r w x : Bool) (m : VmaFlags × Option (Nat × Nat × Bool)) : VmaFlags × Option (Nat × Nat × Bool) :=
  ({ m.1 with read := r, write := w, exec := x }, m.2)

theorem mappingAt_split (h1 : v.start ≤ lo) (h2 : hi ≤ v.stop) (h3 : lo < hi ∨ lo = v.start ∧ hi = v.stop)
    (ws : List Vma) (a : Nat) : mappingAt (v.split lo hi r w x ++ ws) a =
      if v.Covers a then some (if lo ≤ a ∧ a < hi then reprotect r w x (v.view a) else v.view a)
      else mappingAt ws a := by
  have hcovers : ((v.part lo hi).setPerm r w x).Covers a ↔ lo ≤ a ∧ a < hi := by simp [Covers, setPerm]
  have hview : lo ≤ a ∧ a < hi → ((v.part lo hi).setPerm r w x).view a = reprotect r w x (v.view a) :=
    fun ha => congrArg (reprotect r w x) (view_part h1 ha.1 ha.2)
  rw [Vma.split, append_assoc, mappingAt_part fun _ => le_rfl, cons_append, mappingAt_cons,
    mappingAt_part (by omega), if_congr hcovers rfl rfl,
    if_congr (show v.Covers a ↔ v.start ≤ a ∧ a < v.stop from .rfl) rfl rfl]
  by_cases hl : v.start ≤ a ∧ a < lo
  · rw [if_pos hl, if_neg (show ¬ (lo ≤ a ∧ a < hi) by omega), if_pos (by omega)]
  rw [if_neg hl]
  by_cases hm : lo ≤ a ∧ a < hi
  · rw [if_pos hm, if_pos hm, if_pos (by omega), hview hm]
  · rw [if_neg hm, if_neg hm]
    exact if_congr (by omega) rfl rfl

theorem sorted_split (h1 : v.start ≤ lo) (h2 : hi ≤ v.stop) (h3 : lo < hi ∨ lo = v.start ∧ hi = v.stop)
    (hv : v.start ≤ v.stop) : Sorted (v.split lo hi r w x) ∧
      ∀ u ∈ v.split lo hi r w x, v.start ≤ u.start ∧ u.stop ≤ v.stop := by
  unfold Vma.split
  refine ⟨⟨?_, ?_⟩, ?_⟩ <;> split <;> split <;> simp_all [setPerm] <;> omega

variable {ok : Bool} {n : Nat}

namespace Walk

section

variable (h : Walk lo hi r w x vs ws ok n)
include h

/-- The view of an address stays as it is, or has the new permissions; the latter exactly in the range if the areas
are sorted and the walk runs to its end. -/
theorem mapping (a : Nat) :
    (mappingAt ws a = mappingAt vs a ∧ (Sorted vs → ok → lo ≤ a → hi ≤ a ∨ mappingAt vs a = none)) ∨
      lo ≤ a ∧ a < hi ∧ mappingAt ws a = (mappingAt vs a).map (reprotect r w x) := by
  induction h with
  | nil => exact .inl ⟨rfl, fun _ _ _ => .inr rfl⟩
  | skip h _ ih =>
    rw [mappingAt_cons, mappingAt_cons]
    split
    · rename_i hc
      exact .inl ⟨rfl, fun _ _ ha => absurd hc.2 (by omega)⟩
    · exact ih.imp_left fun h => ⟨h.1, fun hs => h.2 hs.tail⟩
  | @stop v vs h =>
    refine .inl ⟨rfl, fun hs _ _ => ?_⟩
    by_cases ha : hi ≤ a
    · exact .inl ha
    refine .inr (mappingAt_eq_none fun u hu hc => ha (h.trans (le_trans ?_ hc.1)))
    rcases mem_cons.1 hu with rfl | hu
    · exact le_rfl
    · exact (hs.ordered v mem_cons_self).trans (rel_of_pairwise_cons hs.apart hu)
  | failed => exact .inl ⟨rfl, fun _ h => nomatch h⟩
  | split h1 h2 h3 _ _ ih =>
    rw [mappingAt_split h1.1 h2.1 h3, mappingAt_cons]
    split
    · rename_i hc
      have hc1 := hc.1
      have hc2 := hc.2
      split
      · exact .inr ⟨by omega, by omega, rfl⟩
      · exact .inl ⟨rfl, fun _ _ _ => .inl (by omega)⟩
    · exact ih.imp_left fun h => ⟨h.1, fun hs => h.2 hs.tail⟩

theorem files : fileVmas ws = fileVmas vs + n := by
  unfold fileVmas at *
  induction h with
  | nil | stop | failed => rfl
  | skip _ _ ih => rw [countP_cons, countP_cons]; omega
  | split _ _ _ hm _ ih =>
    unfold fileVmas at hm
    rw [countP_append, hm, countP_cons, countP_cons, countP_nil]
    omega

theorem sorted (hs : Sorted vs) :
    Sorted ws ∧ ∀ b, (∀ v ∈ vs, b ≤ v.start) → ∀ u ∈ ws, b ≤ u.start := by
  induction h with
  | nil | stop | failed => exact ⟨hs, fun _ h => h⟩
  | skip _ _ ih =>
    obtain ⟨h1, h2⟩ := ih hs.tail
    have hv := forall_mem_cons.1 hs.ordered
    have ha := pairwise_cons.1 hs.apart
    refine ⟨⟨forall_mem_cons.2 ⟨hv.1, h1.ordered⟩, pairwise_cons.2 ⟨h2 _ ha.1, h1.apart⟩⟩, fun b hb => ?_⟩
    rw [forall_mem_cons] at hb ⊢
    exact ⟨hb.1, h2 b hb.2⟩
  | split h1 h2 h3 _ _ ih =>
    obtain ⟨g1, g2⟩ := ih hs.tail
    have hv := forall_mem_cons.1 hs.ordered
    have ha := pairwise_cons.1 hs.apart
    obtain ⟨p1, p2⟩ := sorted_split h1.1 h2.1 h3 hv.1
    refine ⟨⟨forall_mem_append.2 ⟨p1.ordered, g1.ordered⟩, pairwise_append.2 ⟨p1.apart, g1.apart, fun u hu y hy => ?_⟩⟩,
      fun b hb => ?_⟩
    · exact (p2 u hu).2.trans (g2 _ ha.1 y hy)
    · rw [forall_mem_cons] at hb
      exact forall_mem_append.2 ⟨fun u hu => hb.1.trans (p2 u hu).1, g2 b hb.2⟩

end

end Walk

/-- There is also one reference for each file area that is new. -/
theorem mprotect_exact {prot : Prot} (hs : Sorted vs) (h : vmaApplyMprotect lo hi prot mem vs = (0, ws, n)) :
    Sorted ws ∧ (∀ a, mappingAt ws a = (mappingAt vs a).map fun m =>
      if lo ≤ a ∧ a < hi then reprotect prot.read prot.write prot.exec m else m) ∧
    fileVmas ws = fileVmas vs + n := by
  unfold vmaApplyMprotect at h
  split at h
  · cases h
  rename_i hlt
  have hw := applyMprotect_walk (r := prot.read) (w := prot.write) (x := prot.exec) mem (not_le.1 hlt) 0 vs
  obtain ⟨hok, h⟩ := Prod.mk.inj h
  obtain ⟨rfl, rfl⟩ := Prod.mk.inj h
  split at hok
  swap
  · cases hok
  rename_i hend
  refine ⟨(hw.sorted hs).1, fun a => ?_, hw.files⟩
  rcases hw.mapping a with ⟨heq, hout⟩ | ⟨h1, h2, heq⟩
  · rw [heq]
    by_cases ha : lo ≤ a ∧ a < hi
    · rw [(hout hs hend ha.1).resolve_left (by omega)]
      rfl
    · simp only [if_neg ha, Option.map_id']
  · rw [heq]
    simp only [if_pos (And.intro h1 h2)]

def filePages : Vma := ⟨0x1000, 0x6000, ⟨true, true, false, false, false, false, true⟩, some 0, 0, 0x3000⟩

/-- The second and the third page are made read-only. -/
theorem mprotect_exact_middle : ∃ ws : List Vma,
    vmaApplyMprotect 0x2000 0x4000 ⟨true, false, false, false⟩ (fun _ => true) [filePages] = (0, ws, 2) ∧
      ws.map (·.fileSize) = [0x1000, 0x2000, 0] ∧ Sorted ws ∧ fileVmas ws = 3 := by
  have h : vmaApplyMprotect 0x2000 0x4000 ⟨true, false, false, false⟩ (fun _ => true) [filePages] = (0, _, 2) := rfl
  have hex := mprotect_exact ⟨by simp [filePages], pairwise_singleton ..⟩ h
  exact ⟨_, h, by decide, hex.1, hex.2.2⟩

/-! ### Unmapping -/

theorem view_clampFile (ha : v.Covers a) : v.clampFile.view a = v.view a := by
  unfold Covers at ha
  unfold clampFile
  split
  · refine Iff.mpr (view_eq_iff rfl rfl fun _ => rfl) fun _ => ?_
    dsimp only
    omega
  · rfl

theorem clampFile_start : v.clampFile.start = v.start := by
  unfold clampFile
  split <;> rfl

theorem clampFile_stop : v.clampFile.stop = v.stop := by
  unfold clampFile
  split <;> rfl

theorem clampFile_covers : v.clampFile.Covers a ↔ v.Covers a := by
  rw [Covers, clampFile_start, clampFile_stop]
  rfl

theorem mappingAt_piece (hview : u.Covers a → u.view a = v.view a) (ws : List Vma) :
    mappingAt (u :: ws) a = if u.Covers a then some (v.view a) else mappingAt ws a := by
  rw [mappingAt_cons]
  split
  · rw [hview ‹_›]
  · rfl

theorem trimEnd_covers : (v.trimEnd lo).Covers a ↔ v.start ≤ a ∧ a < lo := clampFile_covers

theorem trimStart_covers : (v.trimStart hi).Covers a ↔ hi ≤ a ∧ a < v.stop := clampFile_covers

theorem unmapped_covers (hu : u ∈ v.unmapped lo hi ok) (hc : u.Covers a) : v.Covers a := by
  unfold Vma.unmapped at hu
  split_ifs at hu <;> simp only [mem_cons, not_mem_nil, or_false] at hu
  · rwa [hu] at hc
  · rcases hu with rfl | rfl
    · exact ⟨(trimEnd_covers.1 hc).1, by have := (trimEnd_covers.1 hc).2; omega⟩
    · exact ⟨le_trans (by show v.start ≤ hi; omega) hc.1, hc.2⟩
  · rwa [hu] at hc
  · subst hu
    exact ⟨(trimEnd_covers.1 hc).1, by have := (trimEnd_covers.1 hc).2; omega⟩
  · subst hu
    exact ⟨by have := (trimStart_covers.1 hc).1; omega, (trimStart_covers.1 hc).2⟩

theorem unmapped_of_not_spans (h : v.spans lo hi = false) (ok1 ok2 : Bool) :
    v.unmapped lo hi ok1 = v.unmapped lo hi ok2 := by
  rw [Vma.spans, decide_eq_false_iff_not] at h
  unfold Vma.unmapped
  split_ifs <;> first | rfl | omega

/-- Only one area of a sorted list can span the range. -/
theorem Sorted.munmapVmas_eq (hs : Sorted vs) (k : Nat) :
    munmapVmas lo hi mem k vs = vs.flatMap (·.unmapped lo hi (mem k)) := by
  induction vs generalizing k with
  | nil => rfl
  | cons v vs ih =>
    rw [munmapVmas, ih hs.tail, flatMap_cons]
    split
    · rename_i hv
      congr 1
      refine flatMap_congr fun w hw => unmapped_of_not_spans ?_ ..
      have hle := rel_of_pairwise_cons hs.apart hw
      rw [Vma.spans, decide_eq_true_eq] at hv
      rw [Vma.spans, decide_eq_false_iff_not]
      omega
    · rfl

/-- The view of every address, area by area. -/
theorem Sorted.mappingAt_flatMap_iff {f : Vma → List Vma} {out : Prop} [Decidable out] (hs : Sorted vs)
    (hf : ∀ v ∈ vs, ∀ u ∈ f v, u.Covers a → v.Covers a) :
    mappingAt (vs.flatMap f) a = (if out then none else mappingAt vs a) ↔
      ∀ v ∈ vs, v.Covers a → mappingAt (f v) a = if out then none else some (v.view a) := by
  induction vs with
  | nil => simp [mappingAt, vmaFindForAddr]
  | cons v vs ih =>
    obtain ⟨hv, hvs⟩ := forall_mem_cons.1 hf
    rw [flatMap_cons, mappingAt_append, mappingAt_cons, forall_mem_cons]
    by_cases hc : v.Covers a
    · have hno : ∀ w ∈ vs, ¬ w.Covers a := fun w hw hw' =>
        absurd (hc.2.trans_le (rel_of_pairwise_cons hs.apart hw)) (not_lt.2 hw'.1)
      have hrest : mappingAt (vs.flatMap f) a = none := mappingAt_eq_none fun u hu hu' => by
        obtain ⟨w, hw, hu⟩ := mem_flatMap.1 hu
        exact hno w hw (hvs w hw u hu hu')
      rw [hrest, or_none, if_pos hc, and_iff_left fun w hw hw' => absurd hw' (hno w hw)]
      exact ⟨fun h _ => h, fun h => h hc⟩
    · rw [mappingAt_eq_none fun u hu hu' => hc (hv u hu hu'), none_or, if_neg hc, ih hs.tail hvs]
      exact (and_iff_right fun h => absurd h hc).symm

/-- The range from `lo` up to `stop` can be cut out of the area: if it ends in the middle of it, there is memory for a
second area where that is needed, and no part of the area is behind the end of the file. An area that starts in the
range may also have nothing of the file. A range that wraps around meets no area. -/
def Vma.CutWell (v : Vma) (lo stop : Nat) (ok : Bool) : Prop :=
  if stop < 2 ^ 64 then
    lo < v.stop → v.start < stop → stop < v.stop → (v.start < lo → ok) ∧
      (v.file.isSome → v.stop - v.start ≤ v.fileSize ∨ lo ≤ v.start ∧ v.fileSize = 0)
  else ∀ a, v.Covers a → ¬ (lo ≤ a ∧ a < stop)

section

variable (hstart : v.start < hi) (hstop : hi < v.stop)
include hstart hstop

/-- The second half of an area counts as file-backed to its end. -/
theorem view_right_iff : (∀ a, hi ≤ a → a < v.stop → (v.right hi).view a = v.view a) ↔
    (v.file.isSome → v.stop - v.start ≤ v.fileSize) := by
  have hview : ∀ a, hi ≤ a → ((v.right hi).view a = v.view a ↔
      (v.file.isSome → (a - hi < v.stop - hi ↔ a - v.start < v.fileSize))) := fun a ha =>
    view_eq_iff rfl rfl fun _ => by
      show ((v.fileOffset + (hi - v.start)) % 2 ^ 64 + (a - hi)) % 2 ^ 64 = _
      rw [Nat.mod_add_mod]
      congr 1
      omega
  constructor
  · intro h hf
    have := (hview (v.stop - 1) (by omega)).1 (h _ (by omega) (by omega)) hf
    omega
  · intro h a h1 h2
    refine (hview a h1).2 fun hf => ?_
    have := h hf
    omega

/-- An area that loses its start keeps the size of the file-backed part. -/
theorem view_trimStart_iff : (∀ a, hi ≤ a → a < v.stop → (v.trimStart hi).view a = v.view a) ↔
    (v.file.isSome → v.stop - v.start ≤ v.fileSize ∨ v.fileSize = 0) := by
  have hview : ∀ a, hi ≤ a → a < v.stop → ((v.trimStart hi).view a = v.view a ↔
      (v.file.isSome → (a - hi < v.fileSize ↔ a - v.start < v.fileSize))) := fun a h1 h2 => by
    rw [show (v.trimStart hi).view a = _ from view_clampFile ⟨h1, h2⟩]
    refine view_eq_iff rfl rfl fun hf => ?_
    dsimp only
    rw [if_pos hf, Nat.mod_add_mod]
    congr 1
    omega
  constructor
  · intro h hf
    by_contra hbad
    -- the first address that was behind the file-backed part
    have hlt : max hi (v.start + v.fileSize) < v.stop := by omega
    have := (hview _ (le_max_left ..) hlt).1 (h _ (le_max_left ..) hlt) hf
    omega
  · intro h a h1 h2
    refine (hview a h1 h2).2 fun hf => ?_
    have := h hf
    omega

end

theorem mappingAt_rest_iff {l : List Vma} (hlo : lo ≤ hi) (hu : u.start = hi ∧ u.stop = v.stop) (hstart : v.start < hi)
    (hl : ∀ a, mappingAt l a = if v.start ≤ a ∧ a < lo then some (v.view a) else none) :
    (∀ a, v.Covers a → mappingAt (l ++ [u]) a = if lo ≤ a ∧ a < hi then none else some (v.view a)) ↔
      ∀ a, hi ≤ a → a < v.stop → u.view a = v.view a := by
  have hpt : ∀ a, v.Covers a → (mappingAt (l ++ [u]) a = (if lo ≤ a ∧ a < hi then none else some (v.view a)) ↔
      (hi ≤ a → u.view a = v.view a)) := by
    intro a hc
    unfold Covers at hc
    have hcov : u.Covers a ↔ hi ≤ a ∧ a < v.stop := by rw [← hu.1, ← hu.2]; rfl
    rw [mappingAt_append, hl, mappingAt_cons, if_congr hcov rfl rfl]
    by_cases h1 : a < lo
    · rw [if_pos ⟨hc.1, h1⟩, some_or, if_neg (by omega)]
      exact iff_of_true rfl fun h => absurd h (by omega)
    rw [if_neg (by omega), none_or]
    by_cases h2 : a < hi
    · rw [if_neg (by omega), if_pos (by omega)]
      exact iff_of_true rfl fun h => absurd h (by omega)
    · rw [if_pos (by omega), if_neg (by omega), Option.some.injEq]
      exact ⟨fun h _ => h, fun h => h (by omega)⟩
  constructor
  · intro h a h1 h2
    have hc : v.Covers a := ⟨by omega, h2⟩
    exact (hpt a hc).1 (h a hc) h1
  · intro h a hc
    exact (hpt a hc).2 fun h1 => h a h1 hc.2

theorem cutWell_iff (hok : v.spans lo hi → ok) (hlo : lo ≤ hi) (hhi : hi < 2 ^ 64) :
    (∀ a, v.Covers a → mappingAt (v.unmapped lo hi ok) a = if lo ≤ a ∧ a < hi then none else some (v.view a)) ↔
      v.CutWell lo hi ok := by
  have hleft : ∀ a, mappingAt [v.trimEnd lo] a = if v.start ≤ a ∧ a < lo then some (v.view a) else none := fun a =>
    (mappingAt_piece (fun hc => view_clampFile (clampFile_covers.1 hc)) []).trans (if_congr trimEnd_covers rfl rfl)
  rw [Vma.CutWell, if_pos hhi]
  rw [Vma.spans, decide_eq_true_eq] at hok
  unfold Vma.unmapped
  split
  · refine iff_of_true (fun a hc => ?_) fun _ _ _ => by omega
    rw [mappingAt_cons, if_pos hc, if_neg]
    unfold Covers at hc
    omega
  split
  · refine iff_of_true (fun a hc => ?_) fun _ _ _ => by omega
    unfold Covers at hc
    exact (if_pos (by omega)).symm
  split
  · have hok := hok (by omega)
    rw [if_pos hok, ← singleton_append]
    refine Iff.trans (mappingAt_rest_iff hlo ⟨rfl, rfl⟩ (by omega) hleft) ?_
    rw [view_right_iff (by omega) (by omega)]
    constructor
    · exact fun h _ _ _ => ⟨fun _ => hok, fun hf => .inl (h hf)⟩
    · exact fun h hf => ((h (by omega) (by omega) (by omega)).2 hf).resolve_right (by omega)
  split
  · refine iff_of_true (fun a hc => ?_) fun _ _ _ => by omega
    unfold Covers at hc
    rw [hleft a]
    split_ifs <;> first | rfl | omega
  · refine Iff.trans (mappingAt_rest_iff (l := []) hlo ⟨clampFile_start, clampFile_stop⟩ (by omega)
      fun a => (if_neg (by omega)).symm) ?_
    rw [view_trimStart_iff (by omega) (by omega)]
    constructor
    · exact fun h _ _ _ => ⟨by omega, fun hf => (h hf).imp_right fun h0 => ⟨by omega, h0⟩⟩
    · exact fun h hf => ((h (by omega) (by omega) (by omega)).2 hf).imp_right And.right

/-- No area is taken out of a range that wraps around: `hi` is below `lo`. -/
theorem cutWell_wrap_iff (hlt : hi < lo) (hlo : lo < 2 ^ 64) :
    (∀ a, v.Covers a →
      mappingAt (v.unmapped lo hi ok) a = if lo ≤ a ∧ a < hi + 2 ^ 64 then none else some (v.view a)) ↔
      v.CutWell lo (hi + 2 ^ 64) ok := by
  have hsome : ∀ a, v.Covers a → lo ≤ a → (mappingAt (v.unmapped lo hi ok) a).isSome := by
    intro a hc ha
    obtain ⟨h1, h2⟩ := hc
    unfold Vma.unmapped
    split_ifs <;> first | omega | skip
    · rw [mappingAt_cons, if_pos ⟨h1, h2⟩]; rfl
    · rw [← singleton_append, mappingAt_append, mappingAt_cons (v.right hi), if_pos ⟨show hi ≤ a by omega, h2⟩]
      simp
    · rw [mappingAt_cons, if_pos ⟨h1, h2⟩]; rfl
  rw [Vma.CutWell, if_neg (by omega)]
  constructor
  · intro h a hc ha
    have := hsome a hc ha.1
    rw [h a hc, if_pos ha] at this
    cases this
  · intro h a hc
    have hout : v.stop ≤ lo ∨ hi ≤ v.start := by
      by_contra hin
      exact h lo ⟨by omega, by omega⟩ ⟨le_rfl, by omega⟩
    rw [if_neg (h a hc), Vma.unmapped, if_pos hout, mappingAt_cons, if_pos hc]

variable {ι : Type} [DecidableEq ι] {s s' : Memory ι} {i : ι} {addr len : Nat}

theorem munmapPage_procs (s : Memory ι) (i : ι) (a : Nat) : (munmapPage i s a).procs = (unmapPage i s a).procs := by
  unfold munmapPage
  dsimp only
  split
  · rfl
  · split
    · split <;> rfl
    · rfl

theorem munmapPage_vmas (s : Memory ι) (i : ι) (a : Nat) : ((munmapPage i s a).procs i).vmas = (s.procs i).vmas := by
  rw [munmapPage_procs]
  unfold unmapPage setPteAt setHalf
  dsimp only
  split
  · split
    · rfl
    · simp [setProc]
  · rfl

theorem sysMunmap_vmas (h : sysMunmap mem s i addr len = (0, s')) :
    (s'.procs i).vmas = munmapVmas addr ((addr + pageAlignUp len) % 2 ^ 64) mem 0 (s.procs i).vmas := by
  have hfold : ∀ (ks : List Nat) (s : Memory ι),
      ((ks.foldl (fun s k => munmapPage i s (pageAddr addr k)) s).procs i).vmas = (s.procs i).vmas := by
    intro ks
    induction ks with
    | nil => exact fun _ => rfl
    | cons k ks ih => exact fun s => (ih _).trans (munmapPage_vmas s i _)
  unfold sysMunmap at h
  split at h
  · cases h
  · cases h
    simp only [setProc, Function.update_self, hfold]

theorem Vma.CutWell.memory {stop : Nat} (h : v.CutWell lo stop ok) (hlo : lo < 2 ^ 64)
    (hs : v.spans lo (stop % 2 ^ 64)) : ok := by
  rw [Vma.spans, decide_eq_true_eq] at hs
  unfold CutWell at h
  split at h
  · rename_i hstop
    rw [Nat.mod_eq_of_lt hstop] at hs
    exact (h hs.1.1 hs.1.2 hs.2.2).1 hs.2.1
  · exact absurd ⟨le_rfl, by omega⟩ (h lo ⟨hs.2.1.le, hs.1.1⟩)

/-- The call returns 0, so no area may be left in one piece for lack of memory. -/
theorem munmap_local_iff (haddr : addr < 2 ^ 64) (hs : Sorted (s.procs i).vmas)
    (h : sysMunmap mem s i addr len = (0, s')) :
    ((∀ v ∈ (s.procs i).vmas, v.spans addr ((addr + pageAlignUp len) % 2 ^ 64) → mem 0) ∧
      ∀ a, mappingAt (s'.procs i).vmas a =
        if addr ≤ a ∧ a < addr + pageAlignUp len then none else mappingAt (s.procs i).vmas a) ↔
    ∀ v ∈ (s.procs i).vmas, v.CutWell addr (addr + pageAlignUp len) (mem 0) := by
  rw [sysMunmap_vmas h, hs.munmapVmas_eq]
  simp only [hs.mappingAt_flatMap_iff fun v _ u hu hc => unmapped_covers hu hc]
  have hlen : pageAlignUp len < 2 ^ 64 := by unfold pageAlignUp pageAlign PAGE_SIZE; omega
  have hone : ∀ v : Vma, (v.spans addr ((addr + pageAlignUp len) % 2 ^ 64) → mem 0) →
      ((∀ a, v.Covers a → mappingAt (v.unmapped addr ((addr + pageAlignUp len) % 2 ^ 64) (mem 0)) a =
        if addr ≤ a ∧ a < addr + pageAlignUp len then none else some (v.view a)) ↔
      v.CutWell addr (addr + pageAlignUp len) (mem 0)) := by
    intro v hok
    by_cases hend : addr + pageAlignUp len < 2 ^ 64
    · rw [Nat.mod_eq_of_lt hend] at hok ⊢
      exact cutWell_iff hok (Nat.le_add_right ..) hend
    · have hwrap : addr + pageAlignUp len = (addr + pageAlignUp len) % 2 ^ 64 + 2 ^ 64 := by omega
      generalize (addr + pageAlignUp len) % 2 ^ 64 = hi at hwrap ⊢
      rw [hwrap]
      exact cutWell_wrap_iff (by omega) haddr
  constructor
  · rintro ⟨hok, h⟩ v hv
    exact (hone v (hok v hv)).1 fun a hc => h a v hv hc
  · intro h
    have hok := fun v hv => (h v hv).memory haddr
    exact ⟨hok, fun a v hv => (hone v (hok v hv)).2 (h v hv) a⟩

def oneArea (v : Vma) : Memory Unit where
  procs := fun _ => { cr3 := 1, user := fun _ => none, vmas := [v], mmapNext := 0 }
  kern := fun _ => none
  pmm := { bitmapPages := 0, bitmap := fun _ => false, pageRefs := fun _ => 0, freePages := 0 }
  data := fun _ _ => 0
  cache := []
  content := fun _ _ _ => 0
  wrote := fun _ _ => none

theorem oneArea_sorted (v : Vma) (h : v.start ≤ v.stop) : Sorted ((oneArea v).procs ()).vmas :=
  ⟨fun w hw => by rwa [mem_singleton.1 hw], pairwise_singleton ..⟩

/-- An anonymous area loses a page in its middle. -/
theorem munmap_local_middle : ∃ s : Memory Unit,
    sysMunmap (fun _ => true) (oneArea { filePages with file := none }) () 0x3000 0x1000 = (0, s) ∧
      mappingAt (s.procs ()).vmas 0x3800 = none ∧ (mappingAt (s.procs ()).vmas 0x5000).isSome := by
  obtain ⟨s, hs⟩ : ∃ s, sysMunmap (fun _ => true) (oneArea { filePages with file := none }) () 0x3000 0x1000 = (0, s) :=
    ⟨_, rfl⟩
  have h := (munmap_local_iff (by decide) (oneArea_sorted _ (by decide)) hs).2 fun v hv => ?_
  · exact ⟨s, hs, h.2 _, by rw [h.2]; rfl⟩
  · rw [mem_singleton.1 hv]
    exact fun _ _ _ => ⟨fun _ => rfl, nofun⟩

/-- The last page of `filePages` becomes file-backed when the third one is unmapped; without memory the call succeeds
and the page stays. -/
theorem munmap_not_local : Sorted ((oneArea filePages).procs ()).vmas ∧
    (∃ s, sysMunmap (fun _ => true) (oneArea filePages) () 0x3000 0x1000 = (0, s) ∧
      mappingAt (s.procs ()).vmas 0x5000 ≠ mappingAt ((oneArea filePages).procs ()).vmas 0x5000) ∧
    ∃ s, sysMunmap (fun _ => false) (oneArea filePages) () 0x3000 0x1000 = (0, s) ∧
      (mappingAt (s.procs ()).vmas 0x3000).isSome := by
  obtain ⟨s, hs⟩ : ∃ s, sysMunmap (fun _ => true) (oneArea filePages) () 0x3000 0x1000 = (0, s) := ⟨_, rfl⟩
  obtain ⟨t, ht⟩ : ∃ s, sysMunmap (fun _ => false) (oneArea filePages) () 0x3000 0x1000 = (0, s) := ⟨_, rfl⟩
  refine ⟨oneArea_sorted _ (by decide), ⟨s, hs, ?_⟩, t, ht, ?_⟩
  · rw [sysMunmap_vmas hs]
    decide
  · rw [sysMunmap_vmas ht]
    decide

end ExoOS.Mm
