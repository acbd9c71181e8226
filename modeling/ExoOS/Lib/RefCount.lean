import ExoOS.Lib.Sums

/-!
# Reference counts

Nodes hold references to nodes, and others hold references from outside. The count of a node is to be the number of
references to it, and the node is freed when the last one goes, with the references it held (`drop`). `Counted` says
that this is so; every operation that changes a count together with the references keeps it.

Counting finds no nodes that only hold each other. `Rooted`: whatever holds references is reached from one node. It
survives as long as nodes that hold references are not cut off, and then nothing is left when the node holds only
itself and nobody holds anything else (`Rooted.alone`).
-/

namespace RefCount

open Finset Function List

/-- `ext` are the references from outside. `frees` counts how often a node was freed. -/
structure RefGraph (ι : Type) where
  nodes : Finset ι
  out : ι → List ι
  ext : List ι
  count : ι → Nat
  frees : ι → Nat

variable {ι : Type} [DecidableEq ι]

namespace RefGraph

omit [DecidableEq ι] in
theorem eq_of_fields {g g' : RefGraph ι} (hn : g.nodes = g'.nodes) (ho : g.out = g'.out) (he : g.ext = g'.ext)
    (hc : g.count = g'.count) (hf : g.frees = g'.frees) : g = g' := by
  cases g
  cases g'
  subst hn ho he hc hf
  rfl

section

variable (g : RefGraph ι)

def refs (i : ι) : Nat := ∑ d ∈ g.nodes, (g.out d).count i + g.ext.count i

def create (i : ι) : RefGraph ι where
  nodes := insert i g.nodes
  out := update g.out i []
  ext := i :: g.ext
  count := update g.count i 1
  frees := update g.frees i 0

def link (d c : ι) : RefGraph ι :=
  { g with
    out := update g.out d (c :: g.out d)
    count := update g.count c (g.count c + 1) }

def hold (c : ι) : RefGraph ι :=
  { g with ext := c :: g.ext, count := update g.count c (g.count c + 1) }

/-- A reference leaves `d`; whoever removes it holds it now. -/
def unlink (d c : ι) (l : List ι) : RefGraph ι := { g with out := update g.out d l, ext := c :: g.ext }

def release (i : ι) (rest : List ι) : RefGraph ι :=
  { g with count := update g.count i (g.count i - 1), ext := rest }

/-- It was the last one: the node goes, and the references it held are to be dropped. -/
def free (i : ι) (rest : List ι) : RefGraph ι :=
  { g with
    count := update g.count i (g.count i - 1)
    out := update g.out i []
    frees := update g.frees i (g.frees i + 1)
    ext := g.out i ++ rest }

def drop (i : ι) (rest : List ι) : RefGraph ι := if g.count i - 1 = 0 then g.free i rest else g.release i rest

def weight : Nat := g.ext.length + ∑ d ∈ g.nodes, (g.out d).length

structure Counted : Prop where
  count : ∀ i ∈ g.nodes, g.frees i = 0 → g.count i = g.refs i
  held : ∀ i ∈ g.nodes, g.frees i = 0 → 0 < g.refs i
  freed : ∀ i ∈ g.nodes, g.frees i ≠ 0 → g.frees i = 1 ∧ g.refs i = 0 ∧ g.out i = []
  closed : ∀ i, 0 < g.refs i → i ∈ g.nodes
  outside : ∀ i, i ∉ g.nodes → g.out i = []

def Reach (r i : ι) : Prop := Relation.ReflTransGen (fun a b => b ∈ g.out a) r i

/-- Whatever holds references is reached from `r`. -/
def Rooted (r : ι) : Prop := ∀ i, g.out i ≠ [] → g.Reach r i

end

variable {g g' : RefGraph ι} {c d i r : ι} {l rest : List ι}

theorem count_le_refs (hd : d ∈ g.nodes) : (g.out d).count i ≤ g.refs i :=
  (Table.le_sum (fun l : List ι => l.count i) g.out hd).trans (Nat.le_add_right ..)

theorem refs_pos_of_mem (hd : d ∈ g.nodes) (h : i ∈ g.out d) : 0 < g.refs i :=
  (count_pos_iff.2 h).trans_le (count_le_refs hd)

theorem refs_pos_of_ext (h : i ∈ g.ext) : 0 < g.refs i := (count_pos_iff.2 h).trans_le (Nat.le_add_left ..)

theorem exists_of_refs_pos (h : 0 < g.refs i) : i ∈ g.ext ∨ ∃ d ∈ g.nodes, i ∈ g.out d := by
  by_cases hx : i ∈ g.ext
  · exact .inl hx
  · refine .inr ?_
    rw [refs, count_eq_zero.2 hx, Nat.add_zero] at h
    obtain ⟨d, hd, hc⟩ := exists_ne_zero_of_sum_ne_zero (Nat.ne_of_gt h)
    exact ⟨d, hd, count_pos_iff.1 (Nat.pos_of_ne_zero hc)⟩

theorem refs_congr (hn : g'.nodes = g.nodes) (ho : ∀ d, (g'.out d).Perm (g.out d)) (hx : g'.ext.Perm g.ext) (i : ι) :
    g'.refs i = g.refs i := by
  unfold refs
  rw [hn, hx.count_eq]
  congr 1
  exact sum_congr rfl fun d _ => (ho d).count_eq i

section

variable (h : g.Counted)
include h

theorem Counted.same (hn : g'.nodes = g.nodes) (hr : ∀ i, g'.refs i = g.refs i)
    (hc : g'.count = g.count) (hf : g'.frees = g.frees) (ho : ∀ i, g.out i = [] → g'.out i = []) : g'.Counted := by
  constructor <;> simp only [hn, hr, hc, hf]
  · exact h.count
  · exact h.held
  · exact fun i hi h0 => (h.freed i hi h0).imp_right fun h => h.imp_right (ho i)
  · exact h.closed
  · exact fun i hi => ho i (h.outside i hi)

theorem Counted.congr (hn : g'.nodes = g.nodes) (ho : ∀ d, (g'.out d).Perm (g.out d))
    (hx : g'.ext.Perm g.ext) (hc : g'.count = g.count) (hf : g'.frees = g.frees) : g'.Counted :=
  h.same hn (refs_congr hn ho hx) hc hf fun i hi => perm_nil.1 (hi ▸ ho i)

theorem Counted.mem_nodes (hi : i ∈ g.out d) : d ∈ g.nodes := by
  by_contra hd
  rw [h.outside d hd] at hi
  cases hi

theorem Counted.live (hp : 0 < g.refs i) : i ∈ g.nodes ∧ g.frees i = 0 := by
  have hn := h.closed i hp
  refine ⟨hn, ?_⟩
  by_contra h0
  have := (h.freed i hn h0).2.1
  omega

theorem Counted.live_of_ext (hi : i ∈ g.ext) : i ∈ g.nodes ∧ g.frees i = 0 :=
  h.live (refs_pos_of_ext hi)

theorem Counted.live_of_out (hi : i ∈ g.out d) : i ∈ g.nodes ∧ g.frees i = 0 :=
  h.live (refs_pos_of_mem (h.mem_nodes hi) hi)

omit h in
theorem refs_create (hi : i ∉ g.nodes) (j : ι) : (g.create i).refs j = g.refs j + if j = i then 1 else 0 := by
  have hsum : ∑ d ∈ g.nodes, (update g.out i [] d).count j = ∑ d ∈ g.nodes, (g.out d).count j :=
    sum_congr rfl fun d hd => by rw [update_of_ne (ne_of_mem_of_not_mem hd hi)]
  simp only [refs, create]
  rw [sum_insert hi, update_self, hsum, count_cons]
  simp only [count_nil, beq_iff_eq, @eq_comm _ i j]
  omega

theorem Counted.create (hi : i ∉ g.nodes) : (g.create i).Counted := by
  have hr := refs_create hi
  have hzero : g.refs i = 0 := Nat.eq_zero_of_not_pos fun hp => hi (h.closed i hp)
  have hne : ∀ j ∈ g.nodes, j ≠ i := fun j hj => ne_of_mem_of_not_mem hj hi
  refine ⟨fun j hj h0 => ?_, fun j hj h0 => ?_, fun j hj h0 => ?_, fun j hj => ?_, fun j hj => ?_⟩
  · rw [hr]
    rcases mem_insert.1 hj with rfl | hj
    · simp [RefGraph.create, hzero]
    · simp only [RefGraph.create, update_of_ne (hne j hj), hne j hj] at h0 ⊢
      exact h.count j hj h0
  · rw [hr]
    rcases mem_insert.1 hj with rfl | hj
    · simp
    · simp only [RefGraph.create, update_of_ne (hne j hj)] at h0
      exact (h.held j hj h0).trans_le (Nat.le_add_right ..)
  · rcases mem_insert.1 hj with rfl | hj
    · simp [RefGraph.create] at h0
    · rw [hr]
      simp only [RefGraph.create, update_of_ne (hne j hj), hne j hj] at h0 ⊢
      exact h.freed j hj h0
  · rw [hr] at hj
    by_cases hji : j = i
    · exact mem_insert.2 (.inl hji)
    · rw [if_neg hji] at hj
      exact mem_insert_of_mem (h.closed j hj)
  · obtain ⟨hji, hj⟩ := not_or.1 (mem_insert.not.1 hj)
    exact (update_of_ne hji ..).trans (h.outside j hj)

omit h in
theorem refs_link (hd : d ∈ g.nodes) (j : ι) : (g.link d c).refs j = g.refs j + if j = c then 1 else 0 := by
  have hs := Table.sum_update (fun l : List ι => l.count j) g.out (c :: g.out d) hd
  simp only [refs, link]
  rw [count_cons] at hs
  simp only [beq_iff_eq, @eq_comm _ c j] at hs
  omega

omit h in
theorem refs_hold (j : ι) : (g.hold c).refs j = g.refs j + if j = c then 1 else 0 := by
  simp only [refs, hold, count_cons, beq_iff_eq, @eq_comm _ c j]
  omega

theorem Counted.more (hc : c ∈ g.nodes) (hlive : g.frees c = 0) (hn : g'.nodes = g.nodes)
    (hf : g'.frees = g.frees) (hcount : g'.count = update g.count c (g.count c + 1))
    (hout : ∀ i, i ∉ g.nodes ∨ g.frees i ≠ 0 → g'.out i = g.out i)
    (hr : ∀ j, g'.refs j = g.refs j + if j = c then 1 else 0) : g'.Counted := by
  constructor <;> simp only [hn, hr, hcount, hf]
  · intro j hj h0
    rw [h.count c hc hlive, ← h.count j hj h0]
    by_cases hjc : j = c
    · subst hjc
      rw [update_self, if_pos rfl, h.count j hj h0]
    · rw [update_of_ne hjc, if_neg hjc, Nat.add_zero]
  · exact fun j hj h0 => (h.held j hj h0).trans_le (Nat.le_add_right ..)
  · intro j hj h0
    obtain ⟨h1, h2, h3⟩ := h.freed j hj h0
    have hjc : j ≠ c := by
      rintro rfl
      exact h0 hlive
    exact ⟨h1, by rw [if_neg hjc]; exact h2, (hout j (.inr h0)).trans h3⟩
  · intro j hj
    by_cases hjc : j = c
    · exact hjc ▸ hc
    · rw [if_neg hjc] at hj
      exact h.closed j hj
  · exact fun j hj => (hout j (.inl hj)).trans (h.outside j hj)

theorem Counted.link (hd : d ∈ g.nodes) (hdl : g.frees d = 0) (hc : c ∈ g.nodes)
    (hcl : g.frees c = 0) : (g.link d c).Counted := by
  refine h.more hc hcl rfl rfl rfl (fun i hi => ?_) (refs_link hd)
  refine update_of_ne ?_ ..
  rintro rfl
  exact hi.elim (fun hi => hi hd) fun hi => hi hdl

theorem Counted.hold (hc : c ∈ g.nodes) (hcl : g.frees c = 0) : (g.hold c).Counted :=
  h.more hc hcl rfl rfl rfl (fun _ _ => rfl) refs_hold

omit h in
theorem refs_unlink (hd : d ∈ g.nodes) (hl : (g.out d).Perm (c :: l)) (j : ι) : (g.unlink d c l).refs j = g.refs j := by
  have hs := Table.sum_update (fun l : List ι => l.count j) g.out l hd
  have hp := hl.count_eq j
  simp only [refs, unlink]
  rw [count_cons] at hp ⊢
  omega

theorem Counted.unlink (hl : (g.out d).Perm (c :: l)) : (g.unlink d c l).Counted := by
  have hd := h.mem_nodes (hl.symm.subset mem_cons_self)
  refine h.same rfl (refs_unlink hd hl) rfl rfl fun j hj => ?_
  have hjd : j ≠ d := by
    rintro rfl
    rw [hj] at hl
    exact absurd hl.symm.eq_nil (by simp)
  exact (update_of_ne hjd ..).trans hj

end

section Drop

variable (hx : g.ext = i :: rest)

include hx

theorem refs_rest (j : ι) : g.refs j = ∑ d ∈ g.nodes, (g.out d).count j + rest.count j + if j = i then 1 else 0 := by
  rw [refs, hx, count_cons]
  simp only [beq_iff_eq, @eq_comm _ i j]
  omega

theorem refs_free (hi : i ∈ g.nodes) (j : ι) : (g.free i rest).refs j + (if j = i then 1 else 0) = g.refs j := by
  have hs := Table.sum_update (fun l : List ι => l.count j) g.out [] hi
  rw [refs_rest hx]
  simp only [refs, free, count_append]
  simp only [count_nil] at hs
  omega

theorem refs_release (j : ι) : (g.release i rest).refs j + (if j = i then 1 else 0) = g.refs j := by
  rw [refs_rest hx]
  simp only [refs, release]

theorem Counted.free (h : g.Counted) (hz : g.count i - 1 = 0) : (g.free i rest).Counted := by
  obtain ⟨hi, hlive⟩ := h.live_of_ext (by rw [hx]; exact mem_cons_self)
  have hone : g.refs i = 1 := by
    have h1 := h.count i hi hlive
    have h2 := h.held i hi hlive
    omega
  have hr := refs_free hx hi
  have hother : ∀ j, j ≠ i → (g.free i rest).refs j = g.refs j := fun j hj => by
    have := hr j
    rwa [if_neg hj, Nat.add_zero] at this
  -- the node itself is not in use any more
  have hne : ∀ j, (g.free i rest).frees j = 0 → j ≠ i := by
    rintro j h0 rfl
    simp [RefGraph.free] at h0
  refine ⟨fun j hj h0 => ?_, fun j hj h0 => ?_, fun j hj h0 => ?_, fun j hj => ?_, fun j hj => ?_⟩
  · have hji := hne j h0
    rw [hother j hji]
    simp only [RefGraph.free, update_of_ne hji] at h0 ⊢
    exact h.count j hj h0
  · have hji := hne j h0
    rw [hother j hji]
    simp only [RefGraph.free, update_of_ne hji] at h0
    exact h.held j hj h0
  · by_cases hji : j = i
    · subst hji
      have hrj := hr j
      rw [if_pos rfl, hone] at hrj
      exact ⟨by simp [RefGraph.free, hlive], Nat.succ.inj hrj, update_self ..⟩
    · rw [hother j hji]
      simp only [RefGraph.free, update_of_ne hji] at h0 ⊢
      exact h.freed j hj h0
  · exact h.closed j (hr j ▸ Nat.lt_add_right _ hj)
  · have hji : j ≠ i := by
      rintro rfl
      exact hj hi
    exact (update_of_ne hji ..).trans (h.outside j hj)

theorem Counted.release (h : g.Counted) (hz : g.count i - 1 ≠ 0) : (g.release i rest).Counted := by
  obtain ⟨hi, hlive⟩ := h.live_of_ext (by rw [hx]; exact mem_cons_self)
  have hr := refs_release hx
  refine ⟨fun j hj h0 => ?_, fun j hj h0 => ?_, fun j hj h0 => ?_, fun j hj => ?_, h.outside⟩
  · have hrj := hr j
    have hcj := h.count j hj h0
    by_cases hji : j = i
    · subst hji
      rw [if_pos rfl] at hrj
      simp only [RefGraph.release, update_self] at hrj ⊢
      omega
    · rw [if_neg hji] at hrj
      simp only [RefGraph.release, update_of_ne hji] at hrj ⊢
      omega
  · have hrj := hr j
    have hcj := h.count j hj h0
    have hhj := h.held j hj h0
    by_cases hji : j = i
    · subst hji
      rw [if_pos rfl] at hrj
      omega
    · rw [if_neg hji] at hrj
      omega
  · obtain ⟨h1, h2, h3⟩ := h.freed j hj h0
    have hrj := hr j
    exact ⟨h1, by omega, h3⟩
  · exact h.closed j (hr j ▸ Nat.lt_add_right _ hj)

theorem Counted.drop (h : g.Counted) : (g.drop i rest).Counted := by
  unfold RefGraph.drop
  split
  · exact h.free hx ‹_›
  · exact h.release hx ‹_›

theorem weight_release : (g.release i rest).weight + 1 = g.weight := by
  simp only [weight, release, hx, length_cons]
  omega

theorem weight_free (hi : i ∈ g.nodes) : (g.free i rest).weight + 1 = g.weight := by
  have hs := Table.sum_update (fun l : List ι => l.length) g.out [] hi
  simp only [weight, free, hx, length_cons, length_append]
  simp only [length_nil] at hs
  omega

theorem weight_drop (hi : i ∈ g.nodes) : (g.drop i rest).weight + 1 = g.weight := by
  unfold RefGraph.drop
  split
  · exact weight_free hx hi
  · exact weight_release hx

end Drop

/-! ### Nodes that hold each other -/

omit [DecidableEq ι] in
theorem Reach.mono (h : g.Reach r i) (hsub : ∀ a b, b ∈ g.out a → b ∈ g'.out a) : g'.Reach r i :=
  Relation.ReflTransGen.mono hsub _ _ h

section

variable (h : g.Rooted r)
include h

omit [DecidableEq ι] in
theorem Rooted.grow (hsub : ∀ a b, b ∈ g.out a → b ∈ g'.out a)
    (hnew : ∀ i, g'.out i ≠ [] → g.out i ≠ [] ∨ g'.Reach r i) : g'.Rooted r := by
  intro i ho
  rcases hnew i ho with ho | hr
  · exact (h i ho).mono hsub
  · exact hr

omit [DecidableEq ι] in
theorem Rooted.prune (hkeep : ∀ a b, b ∈ g.out a → g.out b ≠ [] → b ∈ g'.out a)
    (ho : g.out i ≠ []) : g'.Reach r i := by
  have hr := h i ho
  induction hr with
  | refl => exact .refl
  | @tail a b hab hb ih => exact (ih (ne_nil_of_mem hb)).tail (hkeep a b hb ho)

theorem Rooted.out_eq_nil (hc : g.Counted) (hx : g.ext = i :: rest) (hr : r ∈ rest)
    (hz : g.count i - 1 = 0) : g.out i = [] := by
  obtain ⟨hi, hlive⟩ := hc.live_of_ext (by rw [hx]; exact mem_cons_self)
  have hcount := hc.count i hi hlive
  have hone := refs_rest hx i
  rw [if_pos rfl] at hone
  by_contra ho
  rcases Relation.ReflTransGen.cases_tail (h i ho) with rfl | ⟨d, -, hdi⟩
  · have := count_pos_iff.2 hr
    omega
  · -- the node before it on the way refers to it
    have h1 := Table.le_sum (fun l : List ι => l.count i) g.out (hc.mem_nodes hdi)
    have h2 := count_pos_iff.2 hdi
    omega

theorem Rooted.drop (hc : g.Counted) (hx : g.ext = i :: rest) (hr : r ∈ rest) :
    (g.drop i rest).out = g.out ∧ (g.drop i rest).ext = rest := by
  unfold RefGraph.drop
  split
  · rename_i hz
    have ho := h.out_eq_nil hc hx hr hz
    refine ⟨?_, by simp [RefGraph.free, ho]⟩
    rw [RefGraph.free, ← ho]
    exact update_eq_self ..
  · exact ⟨rfl, rfl⟩

theorem Rooted.alone (hc : g.Counted) (hout : ∀ c ∈ g.out r, c = r) (hext : ∀ c ∈ g.ext, c = r)
    (hi : i ∈ g.nodes) (hlive : g.frees i = 0) : i = r := by
  have hreach : ∀ j, g.Reach r j → j = r := by
    intro j hj
    induction hj with
    | refl => rfl
    | tail _ hb ih => exact hout _ (ih ▸ hb)
  rcases exists_of_refs_pos (hc.held i hi hlive) with hx | ⟨d, -, hd⟩
  · exact hext i hx
  · have hdr := hreach d (h d (ne_nil_of_mem hd))
    subst hdr
    exact hout i hd

end

end RefGraph

end RefCount
