import Mathlib.Data.List.Infix
import ExoOS.Vfs.Path

/-!
# Normal forms of paths

`path_normalize` in terms of components. `normalComps` takes out `.` and `..` by the text alone; `pathNormalize_iff`
says that `path_normalize` does the same, and when it fails (`path_normalize_fold`).
-/

namespace ExoOS.Vfs

open List

def AtSlash (p : Path) : Prop := ∀ c ∈ p.head?, c = '/'

@[simp]
theorem componentsFrom_slash (p : Path) : componentsFrom [] ('/' :: p) = componentsFrom [] p := by
  simp [componentsFrom]

theorem componentsFrom_append {comp w p : Path} (hw : '/' ∉ w) :
    componentsFrom comp (w ++ p) = componentsFrom (comp ++ w) p := by
  induction w generalizing comp with
  | nil => simp
  | cons x w ih =>
    have hx : x ≠ '/' := fun h => hw (h ▸ mem_cons_self)
    rw [cons_append, componentsFrom, if_neg hx, ih fun h => hw (mem_cons_of_mem _ h)]
    simp

theorem componentsFrom_atSlash {comp p : Path} (hc : comp ≠ []) (hp : AtSlash p) :
    componentsFrom comp p = comp :: componentsFrom [] p := by
  cases p with
  | nil => simp [componentsFrom, hc]
  | cons x p =>
    have hx : x = '/' := hp x rfl
    subst hx
    simp [componentsFrom, hc]

theorem componentsFrom_cons {c p : Path} (hc : c ≠ []) (hs : '/' ∉ c) (hp : AtSlash p) :
    componentsFrom [] (c ++ p) = c :: componentsFrom [] p := by
  rw [componentsFrom_append hs, nil_append, componentsFrom_atSlash hc hp]

theorem componentsFrom_split {comp p q : Path} (hq : AtSlash q) :
    componentsFrom comp (p ++ q) = componentsFrom comp p ++ componentsFrom [] q := by
  induction p generalizing comp with
  | nil =>
    by_cases hc : comp = []
    · subst hc
      simp [componentsFrom]
    · rw [nil_append, componentsFrom_atSlash hc hq]
      simp [componentsFrom, hc]
  | cons x p ih =>
    rw [cons_append, componentsFrom, componentsFrom]
    split_ifs <;> simp [ih]

def Texts (cs : List Path) : Prop := ∀ c ∈ cs, c ≠ [] ∧ '/' ∉ c

theorem texts_components (p : Path) : Texts (componentsFrom [] p) := fun _ h => componentsFrom_ok not_mem_nil h

theorem atSlash_joined (cs : List Path) : AtSlash (joined cs) := by
  cases cs <;> simp [AtSlash, joined]

theorem joined_cons (c : Path) (cs : List Path) : joined (c :: cs) = '/' :: c ++ joined cs := by
  simp [joined]

theorem joined_append (cs ds : List Path) : joined (cs ++ ds) = joined cs ++ joined ds := by
  simp [joined]

theorem components_joined {cs : List Path} (h : Texts cs) : componentsFrom [] (joined cs) = cs := by
  induction cs with
  | nil => rfl
  | cons c cs ih =>
    obtain ⟨hc, hs⟩ := h c mem_cons_self
    rw [joined_cons, cons_append, componentsFrom_slash, componentsFrom_cons hc hs (atSlash_joined cs),
      ih fun d hd => h d (mem_cons_of_mem _ hd)]

/-! ### `.` and `..` -/

def IsName (c : Path) : Prop := c ≠ ['.'] ∧ c ≠ ['.', '.']

def Names (cs : List Path) : Prop := Texts cs ∧ ∀ c ∈ cs, IsName c

def resolveDots (ws : List Path) (c : Path) : List Path :=
  if c = ['.'] then ws else if c = ['.', '.'] then ws.dropLast else ws ++ [c]

def normalComps (cs : List Path) : List Path := cs.foldl resolveDots []

section Dots

variable {ws cs : List Path} {c : Path}

theorem Names.append (h : Names ws) (hc : c ≠ [] ∧ '/' ∉ c) (hn : IsName c) : Names (ws ++ [c]) :=
  ⟨forall_mem_append.2 ⟨h.1, forall_mem_singleton.2 hc⟩, forall_mem_append.2 ⟨h.2, forall_mem_singleton.2 hn⟩⟩

theorem Names.sublist {ws' : List Path} (h : Names ws) (hs : ws'.Sublist ws) : Names ws' :=
  ⟨fun d hd => h.1 d (hs.subset hd), fun d hd => h.2 d (hs.subset hd)⟩

theorem Names.resolveDots (h : Names ws) (hc : c ≠ [] ∧ '/' ∉ c) : Names (resolveDots ws c) := by
  unfold Vfs.resolveDots
  split
  · exact h
  · split
    · exact h.sublist (dropLast_sublist _)
    · exact h.append hc ⟨‹_›, ‹_›⟩

theorem Names.foldl (h : Names ws) (hc : Texts cs) : Names (cs.foldl Vfs.resolveDots ws) := by
  induction cs generalizing ws with
  | nil => exact h
  | cons c cs ih =>
    exact ih (h.resolveDots (hc c mem_cons_self)) fun d hd => hc d (mem_cons_of_mem _ hd)

theorem names_nil : Names [] := ⟨nofun, nofun⟩

theorem names_normalComps (hc : Texts cs) : Names (normalComps cs) := names_nil.foldl hc

theorem normalComps_concat (cs : List Path) (c : Path) : normalComps (cs ++ [c]) = resolveDots (normalComps cs) c := by
  rw [normalComps, foldl_append]
  rfl

theorem mem_resolveDots {w : Path} (h : w ∈ resolveDots ws c) : w ∈ ws ∨ w = c := by
  unfold resolveDots at h
  split_ifs at h
  · exact .inl h
  · exact .inl (dropLast_subset ws h)
  · exact (mem_append.1 h).imp_right mem_singleton.1

theorem mem_normalComps {w : Path} (h : w ∈ normalComps cs) : w ∈ cs := by
  induction cs using reverseRecOn with
  | nil => exact h
  | append_singleton cs c ih =>
    rw [normalComps_concat] at h
    rcases mem_resolveDots h with h | rfl
    · exact mem_append_left _ (ih h)
    · exact mem_append_right _ mem_cons_self

theorem resolveDots_name (ws : List Path) (hn : IsName c) : resolveDots ws c = ws ++ [c] := by
  rw [resolveDots, if_neg hn.1, if_neg hn.2]

theorem foldl_names (h : ∀ c ∈ cs, IsName c) : cs.foldl resolveDots ws = ws ++ cs := by
  induction cs generalizing ws with
  | nil => simp
  | cons c cs ih =>
    rw [foldl_cons, resolveDots_name ws (h c mem_cons_self), ih fun d hd => h d (mem_cons_of_mem _ hd)]
    simp

theorem normalComps_names (h : ∀ c ∈ cs, IsName c) : normalComps cs = cs := foldl_names h

theorem joined_dropLast_le (ws : List Path) : (joined ws.dropLast).length ≤ (joined ws).length := by
  rcases ws.eq_nil_or_concat' with rfl | ⟨us, c, rfl⟩
  · exact Nat.le_refl _
  · rw [dropLast_concat, joined_concat, length_append]
    omega

end Dots

variable {ws : List Path}

def pathText (ws : List Path) : Path := if ws = [] then ['/'] else joined ws

theorem pathText_ne (h : ws ≠ []) : pathText ws = joined ws := if_neg h

theorem components_pathText (h : Texts ws) : componentsFrom [] (pathText ws) = ws := by
  unfold pathText
  split
  · subst ws
    rfl
  · exact components_joined h

theorem stripLast_pathText (h : Texts ws) : stripLast (pathText ws) = pathText ws.dropLast := by
  rcases ws.eq_nil_or_concat' with rfl | ⟨us, c, rfl⟩
  · rfl
  have hc := h c (by simp)
  rw [dropLast_concat, pathText_ne (by simp), joined_concat, stripLast, uptoSlash_append hc.2]
  by_cases hus : us = []
  · subst hus
    rfl
  · have := joined_length hus fun d hd => h d (mem_append_left _ hd)
    rw [if_pos (by rw [length_append]; omega), dropLast_concat, pathText_ne hus]

theorem joined_eq_nil : joined ws = [] ↔ ws = [] := by
  cases ws <;> simp [joined]

theorem joined_getLast? (h : Texts ws) : (joined ws).getLast? ≠ some '/' := by
  rcases ws.eq_nil_or_concat' with rfl | ⟨us, c, rfl⟩
  · simp [joined]
  obtain ⟨hne, hs⟩ := h c (by simp)
  rw [joined_concat, getLast?_append_of_ne_nil _ (by simp), getLast?_cons, getLast?_eq_some_getLast hne]
  intro hl
  have hlast : c.getLast hne = '/' := by simpa using hl
  exact hs (hlast ▸ getLast_mem hne)

theorem pathText_length (ws : List Path) : (pathText ws).length = max 1 (joined ws).length := by
  cases ws with
  | nil => rfl
  | cons w ws =>
    rw [pathText_ne (cons_ne_nil w ws), joined_cons, cons_append, length_cons]
    omega

theorem normalizeStep_pathText {c : Path} (h : Names ws) (hc : c ≠ [])
    (hlt : (pathText ws).length < VFS_MOUNT_PATH_MAX) :
    normalizeStep (pathText ws) c =
      if c.length ≤ VFS_NAME_MAX ∧ (pathText (resolveDots ws c)).length < VFS_MOUNT_PATH_MAX then
        some (pathText (resolveDots ws c)) else none := by
  unfold normalizeStep resolveDots
  by_cases hlen : c.length ≤ VFS_NAME_MAX
  swap
  · rw [if_pos (Nat.lt_of_not_le hlen), if_neg fun h => hlen h.1]
  rw [if_neg (Nat.not_lt.2 hlen)]
  simp only [hlen, true_and]
  split
  · rfl
  split
  · have := joined_dropLast_le ws
    rw [pathText_length] at hlt
    rw [stripLast_pathText h.1, if_pos (by rw [pathText_length]; omega)]
  rw [pathText_ne (by simp : ws ++ [c] ≠ []), joined_concat]
  have hpos := length_pos_iff.2 hc
  by_cases hws : ws = []
  · subst hws
    have hroom : c.length + 1 < VFS_MOUNT_PATH_MAX := by
      unfold VFS_NAME_MAX at hlen
      unfold VFS_MOUNT_PATH_MAX
      omega
    simp [pathText, joined, hroom, Nat.add_comm 1]
  · have := joined_length hws h.1
    rw [pathText_ne hws]
    simp only [this, true_and, if_true, length_append, length_cons, length_nil]
    split_ifs <;> first | omega | simp

theorem foldlM_normalizeStep {cs : List Path} {out : Path} (h : Names ws) (hcs : Texts cs)
    (hlt : (pathText ws).length < VFS_MOUNT_PATH_MAX) :
    cs.foldlM normalizeStep (pathText ws) = some out ↔ (∀ c ∈ cs, c.length ≤ VFS_NAME_MAX) ∧
      (∀ ds ∈ cs.inits, (pathText (ds.foldl resolveDots ws)).length < VFS_MOUNT_PATH_MAX) ∧
      out = pathText (cs.foldl resolveDots ws) := by
  induction cs generalizing ws with
  | nil => simpa [hlt] using eq_comm
  | cons c cs ih =>
    have hc := hcs c mem_cons_self
    rw [foldlM_cons, normalizeStep_pathText h hc.1 hlt]
    simp only [inits_cons, forall_mem_cons, forall_mem_map, foldl_cons, foldl_nil, hlt, true_and]
    split_ifs with hfit
    · refine (ih (h.resolveDots hc) (fun d hd => hcs d (mem_cons_of_mem _ hd)) hfit.2).trans ?_
      simp [hfit.1]
    · refine iff_of_false (by simp) fun hall => hfit ⟨hall.1.1, ?_⟩
      exact hall.2.1 [] (by simp)

theorem pathNormalize_iff {p out : Path} : pathNormalize p = some out ↔
    p.head? = some '/' ∧ (∀ c ∈ componentsFrom [] p, c.length ≤ VFS_NAME_MAX) ∧
    (∀ cs ∈ (componentsFrom [] p).inits, (pathText (normalComps cs)).length < VFS_MOUNT_PATH_MAX) ∧
    out = pathText (normalComps (componentsFrom [] p)) := by
  unfold pathNormalize
  split_ifs with habs
  · exact (foldlM_normalizeStep names_nil (texts_components p) (by decide)).trans (by simp [habs, normalComps])
  · simp [habs]

theorem joined_inits_le {cs ds : List Path} (h : ds ∈ cs.inits) : (joined ds).length ≤ (joined cs).length := by
  obtain ⟨es, rfl⟩ := (mem_inits ds cs).1 h
  simp [joined_append]

/-- Another text with the same components as a normalised one. -/
theorem pathNormalize_names {p : Path} (habs : p.head? = some '/') (hn : Names ws) (hp : componentsFrom [] p = ws)
    (hc : ∀ c ∈ ws, c.length ≤ VFS_NAME_MAX) (hlt : (pathText ws).length < VFS_MOUNT_PATH_MAX) :
    pathNormalize p = some (pathText ws) := by
  subst hp
  refine pathNormalize_iff.2 ⟨habs, hc, fun cs hcs => ?_, by rw [normalComps_names hn.2]⟩
  rw [normalComps_names fun d hd => hn.2 d (((mem_inits ..).1 hcs).subset hd)]
  have := joined_inits_le hcs
  rw [pathText_length] at hlt ⊢
  omega

theorem pathText_head? (ws : List Path) : (pathText ws).head? = some '/' := by
  cases ws <;> rfl

theorem normal_pathText (h : Texts ws) : Normal (pathText ws) := by
  unfold pathText
  split_ifs with hws
  · exact .inl rfl
  · exact .inr ⟨ws, hws, h, rfl⟩

theorem Normal.trimSlashes {p : Path} (h : Normal p) : trimSlashes p = p := by
  rcases h with rfl | ⟨cs, hne, hcs, rfl⟩
  · rfl
  have hself : (joined cs).rdropWhile (· == '/') = joined cs := rdropWhile_eq_self_iff.2 fun hl hlast =>
    joined_getLast? hcs (by rw [getLast?_eq_some_getLast hl, beq_iff_eq.1 hlast])
  rw [Vfs.trimSlashes, hself, if_neg (joined_eq_nil.not.2 hne)]

theorem pathJoin_dirname_basename (hn : Names ws) (hws : ws ≠ []) (hc : ∀ c ∈ ws, c.length ≤ VFS_NAME_MAX)
    (hlt : (pathText ws).length < VFS_MOUNT_PATH_MAX) :
    pathJoin (pathDirname (pathText ws)) (pathBasename VFS_MOUNT_PATH_MAX (pathText ws)) = some (pathText ws) := by
  obtain ⟨us, c, rfl⟩ := ws.eq_nil_or_concat'.resolve_left hws
  obtain ⟨hne, hs⟩ := hn.1 c (by simp)
  have hlen := hc c (by simp)
  have hus : Texts us := fun d hd => hn.1 d (mem_append_left _ hd)
  have htext : pathText (us ++ [c]) = joined us ++ '/' :: c := by rw [pathText_ne hws, joined_concat]
  have hupto := uptoSlash_append (p := joined us) hs
  have hafter : afterSlash (joined us ++ '/' :: c) = c := by
    have := rdropWhile_append_rtakeWhile (p := (· != '/')) (l := joined us ++ '/' :: c)
    rw [← uptoSlash, ← afterSlash, hupto] at this
    simpa using this
  have hroom : (joined us).length + 1 + c.length < VFS_MOUNT_PATH_MAX := by
    rw [htext, length_append, length_cons] at hlt
    omega
  have hdir : pathDirname (pathText (us ++ [c])) = pathText us := by
    unfold pathDirname
    dsimp only
    rw [(normal_pathText hn.1).trimSlashes, htext, hupto, dropLast_concat, take_of_length_le (by omega)]
    simp [pathText, joined_eq_nil]
  have hbase : pathBasename VFS_MOUNT_PATH_MAX (pathText (us ++ [c])) = c := by
    unfold pathBasename
    dsimp only
    rw [(normal_pathText hn.1).trimSlashes, htext, hafter, if_neg hne, take_of_length_le (hlen.trans (by decide))]
  have hrel : c.head? ≠ some '/' := fun h => hs (mem_of_mem_head? h)
  have hshort := pathText_length us
  have hmax : VFS_MOUNT_PATH_MAX = 512 := rfl
  rw [hdir, hbase, pathJoin, if_neg hrel, if_neg (by omega)]
  refine pathNormalize_names ?_ hn ?_ hc hlt
  · rw [head?_append, pathText_head?]
    rfl
  · rw [componentsFrom_split (by simp [AtSlash]), components_pathText hus, componentsFrom_slash]
    simpa [componentsFrom] using componentsFrom_cons hne hs (p := []) (by simp [AtSlash])

theorem path_normalize_fold (p : Path) :
    (∀ out, pathNormalize p = some out ↔
      p.head? = some '/' ∧ (∀ c ∈ componentsFrom [] p, c.length ≤ VFS_NAME_MAX) ∧
      (∀ cs ∈ (componentsFrom [] p).inits, (pathText (normalComps cs)).length < VFS_MOUNT_PATH_MAX) ∧
      out = pathText (normalComps (componentsFrom [] p))) ∧
    ∀ out, pathNormalize p = some out →
      (∃ ws, Names ws ∧ out = pathText ws) ∧ (out = ['/'] ∨ out.getLast? ≠ some '/') ∧
      pathNormalize out = some out ∧
      (out ≠ ['/'] → pathJoin (pathDirname out) (pathBasename VFS_MOUNT_PATH_MAX out) = some out) := by
  refine ⟨fun out => pathNormalize_iff, fun out hout => ?_⟩
  obtain ⟨habs, hlen, hroom, rfl⟩ := pathNormalize_iff.1 hout
  have hn := names_normalComps (texts_components p)
  have hc : ∀ c ∈ normalComps (componentsFrom [] p), c.length ≤ VFS_NAME_MAX := fun c hc =>
    hlen c (mem_normalComps hc)
  have hlt := hroom _ ((mem_inits ..).2 prefix_rfl)
  generalize normalComps (componentsFrom [] p) = ws at hn hc hlt
  refine ⟨⟨ws, hn, rfl⟩, ?_, ?_, fun hne => ?_⟩
  · rcases eq_or_ne ws [] with rfl | hws
    · exact .inl rfl
    · exact .inr (pathText_ne hws ▸ joined_getLast? hn.1)
  · exact pathNormalize_names (pathText_head? ws) hn (components_pathText hn.1) hc hlt
  · exact pathJoin_dirname_basename hn (fun h => hne (h ▸ rfl)) hc hlt

theorem path_normalize_fold_dots : pathNormalize "//a/./b/../c/".toList = some "/a/c".toList ∧
    pathJoin "/a".toList "c".toList = some "/a/c".toList :=
  have h : pathNormalize "//a/./b/../c/".toList = some "/a/c".toList := by decide
  ⟨h, ((path_normalize_fold _).2 _ h).2.2.2 (by decide)⟩

theorem pathNormalize_append {p n : Path} (h : pathNormalize p = some n) (q : Path) :
    pathNormalize (p ++ '/' :: q) = (componentsFrom [] q).foldlM normalizeStep n := by
  unfold pathNormalize at h ⊢
  split_ifs at h with habs
  rw [if_pos (by rw [head?_append, habs]; rfl), componentsFrom_split (by simp [AtSlash]), componentsFrom_slash,
    foldlM_append, h]
  rfl

/-- A path may be normalised piece by piece: the part before a slash first, which is how the working directory is
kept, and the result is the same, failures included. -/
theorem path_normalize_prefix {p n : Path} (h : pathNormalize p = some n) (q : Path) :
    pathNormalize (p ++ '/' :: q) = pathNormalize (n ++ '/' :: q) := by
  have hself : pathNormalize n = some n := by
    obtain ⟨-, hlen, hroom, rfl⟩ := pathNormalize_iff.1 h
    have hn := names_normalComps (texts_components p)
    exact pathNormalize_names (pathText_head? _) hn (components_pathText hn.1) (fun c hc => hlen c (mem_normalComps hc))
      (hroom _ ((mem_inits ..).2 prefix_rfl))
  rw [pathNormalize_append h, pathNormalize_append hself]

theorem path_normalize_prefix_up : pathNormalize "/a/./b/../c".toList = pathNormalize "/a/b/../c".toList :=
  path_normalize_prefix (p := "/a/./b".toList) (n := "/a/b".toList) (by decide) "../c".toList

end ExoOS.Vfs
