import ExoOS.Vfs.LookupTrail

/-!
# Path lookups that return

Every call of `vfs_lookup` counts the links it follows from zero, so a chain of absolute links is never cut off: with
the link `/a` to `/a` the lookup of `/a` does not return (`lookup_never_returns`). `vfs_lookup` follows at most
`MAX_SYMLINK_DEPTH` links, and fails with `ELOOP` on a further one, exactly if a ninth link, if there is one on the
way, is met by the call that met the first eight (`lookup_ends_iff`).

That a lookup with boundedly many links returns (`trail_returns`) rests on the characters other than slashes: a round
of the loop uses up some, and the path that is looked up for `..` out of a mount has fewer than what was walked so far.
-/

namespace ExoOS.Vfs

open List Traced Nat

namespace LookupEvent

def depth? : LookupEvent → Option Nat
  | .link depth _ => some depth
  | _ => none

def followed : LookupEvent → Bool
  | .link _ (some _) => true
  | _ => false

end LookupEvent

/-- The links that were met, by the number of links that the call had followed before. -/
def depths (log : List LookupEvent) : List Nat := log.filterMap LookupEvent.depth?

def linksFollowed (log : List LookupEvent) : Nat := log.countP LookupEvent.followed

namespace Tree

variable (T : Tree)

/-- The lookup returns after at most `MAX_SYMLINK_DEPTH` links, with `ELOOP` if it met more. -/
def Ends (path : Path) (follow : Bool) : Prop :=
  ∃ n out, (T.lookupTrail tooDeep n path follow).out = some out ∧
    linksFollowed (T.lookupTrail tooDeep n path follow).log ≤ MAX_SYMLINK_DEPTH ∧
    (MAX_SYMLINK_DEPTH < (depths (T.lookupTrail tooDeep n path follow).log).length → out.1 = .error (-ELOOP))

def never (_ : Nat) : Bool := false

/-- If a ninth link lies on the way, the call that meets it met the eight before. -/
def NinthInOneCall (path : Path) (follow : Bool) : Prop :=
  ∀ n, ∀ d ∈ (depths (T.lookupTrail never n path follow).log)[MAX_SYMLINK_DEPTH]?, d = MAX_SYMLINK_DEPTH

end Tree

@[simp]
theorem depths_append (l l' : List LookupEvent) : depths (l ++ l') = depths l ++ depths l' := filterMap_append

def DepthsFrom (d : Nat) (l : List Nat) : Prop := ∀ i e, l[i]? = some e → e ≤ d + i

namespace DepthsFrom

variable {d : Nat} {l l' : List Nat}

theorem nil : DepthsFrom d [] := fun i e h => by simp at h

theorem weaken {d' : Nat} (h : DepthsFrom d l) (hd : d ≤ d') : DepthsFrom d' l := fun i e he =>
  (h i e he).trans (Nat.add_le_add_right hd i)

theorem append (h : DepthsFrom d l) (h' : DepthsFrom d l') : DepthsFrom d (l ++ l') := by
  intro i e he
  rw [getElem?_append] at he
  split at he
  · exact h i e he
  · have := h' _ _ he
    omega

theorem cons (h : DepthsFrom (d + 1) l) : DepthsFrom d (d :: l) := by
  intro i e he
  cases i with
  | zero =>
    cases he
    exact le_refl _
  | succ i =>
    have := h i e he
    omega

end DepthsFrom

variable {pos : Pos}

namespace Tree

variable {T : Tree} {refuse : Nat → Bool} {go go' : Bool → Pos → Nat → Nat → Traced LookupEvent LookupOut}

theorem start_depth {path : Path} (h : T.start path = .ok pos) : pos.depth = 0 := by
  unfold start at h
  split at h
  · cases h
  · split at h
    · cases h
    · split at h <;> (cases h; rfl)

theorem enter_depths (path : Path) (taken : Nat) {follow : Bool}
    (h : ∀ pos ref taken, DepthsFrom pos.depth (depths (go follow pos ref taken).log)) :
    DepthsFrom 0 (depths (T.enter path taken (go follow)).log) := by
  unfold enter
  cases hs : T.start path with
  | error e => exact .nil
  | ok pos =>
    have hp := h pos taken (taken + 1)
    rw [start_depth hs] at hp
    exact hp

theorem turn_depths (h : ∀ follow pos ref taken, DepthsFrom pos.depth (depths (go follow pos ref taken).log))
    (follow : Bool) (pos : Pos) (ref taken : Nat) (component rest : Path) (r : Round) :
    DepthsFrom pos.depth (depths (T.turn refuse go follow pos ref taken component rest r).log) := by
  cases r with
  | dot => exact h follow { pos with rest := rest } ref taken
  | out =>
    have hcall := (enter_depths (T := T) (parentPath pos.resolved) taken (h true)).weaken (zero_le pos.depth)
    rw [turn]
    rcases ho : (T.enter (parentPath pos.resolved) taken (go true)).out with _ | ⟨_ | ⟨v, r⟩, k⟩
    · rw [andThen_none ho]
      exact hcall
    · rw [andThen_some ho, emit_log, depths_append]
      exact hcall.append .nil
    · rw [andThen_some ho, emit_log, depths_append]
      exact hcall.append (h _ _ _ _)
  | up parent => cases parent <;> exact h _ _ _ _
  | mount root | child v => exact h _ _ _ _
  | noLookup | absent => exact .nil
  | link v =>
    rw [turn]
    split
    · exact .cons .nil
    refine .cons ?_
    split
    · exact .nil
    · exact (enter_depths _ _ (h follow)).weaken (zero_le _)
    · exact h _ _ _ _
    · exact h _ _ _ _

theorem trail_depths (n : Nat) (follow : Bool) (pos : Pos) (ref taken : Nat) :
    DepthsFrom pos.depth (depths (T.trail refuse n follow pos ref taken).log) := by
  induction n generalizing follow pos ref taken with
  | zero => exact .nil
  | succ n ih =>
    refine trail_cases (P := fun w => DepthsFrom pos.depth (depths w.log)) (fun _ => .nil) (fun _ _ _ => .nil)
      fun component rest _ _ => ?_
    exact turn_depths ih follow pos ref taken component rest _

end Tree

/-! ### What the limit changes -/

@[simp]
theorem linksFollowed_append (l l' : List LookupEvent) : linksFollowed (l ++ l') = linksFollowed l + linksFollowed l' :=
  countP_append

theorem linksFollowed_le (l : List LookupEvent) : linksFollowed l ≤ (depths l).length := by
  rw [linksFollowed, depths, length_filterMap_eq_countP]
  refine countP_mono_left fun e _ he => ?_
  cases e with
  | link => rfl
  | _ => cases he

/-- `c` does what `w` does, or stops at a link that comes too deep. -/
inductive Cut (c w : Traced LookupEvent LookupOut) : Prop
  | same (heq : c = w) (hlow : ∀ d ∈ depths w.log, d < MAX_SYMLINK_DEPTH)
      (hne : ∀ k, w.out ≠ some (.error (-ELOOP), k))
      (hall : ∀ v k, w.out = some (.ok v, k) → linksFollowed w.log = (depths w.log).length)
  | refused (k : Nat) (l : List Nat) (d : Nat) (hout : c.out = some (.error (-ELOOP), k))
      (hd : depths c.log = l ++ [d]) (hlow : ∀ e ∈ l, e < MAX_SYMLINK_DEPTH) (hmax : MAX_SYMLINK_DEPTH ≤ d)
      (hfol : linksFollowed c.log = l.length) (hpre : depths c.log <+: depths w.log)

namespace Cut

variable {c w : Traced LookupEvent LookupOut}

theorem ok (v : Ino × Nat) (k : Nat) : Cut (.ret (.ok v, k)) (.ret (.ok v, k)) :=
  .same rfl (forall_mem_nil _) (fun _ h => by cases h) fun _ _ _ => rfl

theorem fail {e : Int} (he : e ≠ -ELOOP) (k : Nat) (es : List LookupEvent)
    (hes : ∀ d ∈ depths es, d < MAX_SYMLINK_DEPTH) :
    Cut ((Traced.ret (.error e, k)).emit es) ((Traced.ret (.error e, k)).emit es) := by
  refine .same rfl ?_ (fun _ h => ?_) fun _ _ h => by cases h
  · simpa using hes
  · cases h
    exact he rfl

theorem stuck (l : List LookupEvent) (hl : ∀ d ∈ depths l, d < MAX_SYMLINK_DEPTH) : Cut ⟨none, l⟩ ⟨none, l⟩ :=
  .same rfl hl (fun _ h => by cases h) fun _ _ h => by cases h

theorem emit (es : List LookupEvent) (hlow : ∀ d ∈ depths es, d < MAX_SYMLINK_DEPTH)
    (hall : linksFollowed es = (depths es).length) (h : Cut c w) : Cut (c.emit es) (w.emit es) := by
  cases h with
  | same heq hlow' hne hall' =>
    subst heq
    refine .same rfl ?_ hne fun v k hv => ?_
    · rw [emit_log, depths_append]
      exact forall_mem_append.2 ⟨hlow, hlow'⟩
    · rw [emit_log, depths_append, linksFollowed_append, length_append, hall, hall' v k hv]
  | refused k l d hout hd hlow' hmax hfol hpre =>
    refine .refused k (depths es ++ l) d hout ?_ (forall_mem_append.2 ⟨hlow, hlow'⟩) hmax ?_ ?_
    · rw [emit_log, depths_append, hd, append_assoc]
    · rw [emit_log, linksFollowed_append, length_append, hall, hfol]
    · rw [emit_log, emit_log, depths_append, depths_append]
      exact (prefix_append_right_inj _).2 hpre

theorem quiet (es : List LookupEvent) (hes : es.all (fun e => e.depth?.isNone)) (h : Cut c w) :
    Cut (c.emit es) (w.emit es) := by
  have hd : depths es = [] := by
    refine filterMap_eq_nil_iff.2 fun e he => ?_
    simpa using all_eq_true.1 hes e he
  have hf := linksFollowed_le es
  rw [hd, length_nil, le_zero_eq] at hf
  exact h.emit es (by simp [hd]) (by simp [hd, hf])

end Cut

namespace Tree

variable {T : Tree} {go go' : Bool → Pos → Nat → Nat → Traced LookupEvent LookupOut}

theorem start_error {path : Path} {e : Int} (h : T.start path = .error e) : e ≠ -ELOOP := by
  unfold start at h
  split at h
  · cases h
    decide
  · split at h
    · cases h
      decide
    · split at h <;> cases h

theorem nextLink_fail {v : Ino} {e : Int} (hp : pos.depth = 0) (h : T.nextLink pos v = .fail e) : e ≠ -ELOOP := by
  unfold nextLink at h
  rw [if_neg (by rw [hp]; decide)] at h
  split at h
  · cases h
    decide
  · dsimp only at h
    split_ifs at h
    cases h
    decide

theorem nextLink_text {v : Ino} (h : ∀ e, T.nextLink pos v ≠ .fail e) : ∃ t, T.readlink v = some t := by
  unfold nextLink at h
  split at h
  · exact absurd rfl (h _)
  · rcases hr : T.readlink v with _ | t
    · rw [hr] at h
      exact absurd rfl (h _)
    · exact ⟨t, rfl⟩

theorem enter_cut (path : Path) (taken : Nat) {follow : Bool}
    (h : ∀ pos ref taken, Cut (go follow pos ref taken) (go' follow pos ref taken)) :
    Cut (T.enter path taken (go follow)) (T.enter path taken (go' follow)) := by
  unfold enter
  cases hs : T.start path with
  | error e => exact .fail (start_error hs) taken [] (forall_mem_nil _)
  | ok pos => exact (h pos taken (taken + 1)).quiet _ rfl

theorem turn_cut (h : ∀ follow pos ref taken, Cut (go follow pos ref taken) (go' follow pos ref taken)) (follow : Bool)
    (pos : Pos) (ref taken : Nat) (component rest : Path) (r : Round) :
    Cut (T.turn tooDeep go follow pos ref taken component rest r)
      (T.turn never go' follow pos ref taken component rest r) := by
  cases r with
  | dot => exact h ..
  | out =>
    rw [turn, turn]
    cases enter_cut (T := T) (parentPath pos.resolved) taken (h true) with
    | same heq hlow hne hall =>
      rw [heq]
      rcases ho : (T.enter (parentPath pos.resolved) taken (go' true)).out with _ | ⟨e | ⟨v, r⟩, k⟩
      · rw [andThen_none ho, andThen_none ho]
        exact .stuck _ hlow
      · have he : e ≠ -ELOOP := by
          rintro rfl
          exact hne k ho
        rw [andThen_some ho, andThen_some ho, emit_emit]
        refine .fail he k _ fun d hd => hlow d ?_
        simpa [depths, LookupEvent.depth?] using hd
      · rw [andThen_some ho, andThen_some ho]
        exact ((h ..).quiet _ rfl).emit _ hlow (hall _ k ho)
    | refused k l d hout hd hlow hmax hfol hpre =>
      rw [andThen_some hout]
      refine .refused k l d rfl ?_ hlow hmax ?_ ?_
      · rw [emit_log, depths_append, hd]
        exact append_nil _
      · rw [emit_log, linksFollowed_append, hfol]
        rfl
      · rw [emit_log, depths_append]
        refine (append_nil _).symm ▸ hpre.trans ?_
        exact (log_prefix_andThen ..).filterMap _
  | up parent => cases parent <;> exact (h ..).quiet _ rfl
  | mount root | child v => exact (h ..).quiet _ rfl
  | noLookup | absent => exact .fail (by decide) taken _ (forall_mem_nil _)
  | link v =>
    refine Cut.quiet _ rfl ?_
    split
    · rename_i hd
      refine .refused (taken + 1) [] pos.depth rfl rfl (forall_mem_nil _) (of_decide_eq_true hd)
        rfl ?_
      exact (prefix_cons_inj _).2 nil_prefix
    rename_i hd
    have hlow : pos.depth < MAX_SYMLINK_DEPTH := by
      by_contra hn
      exact hd (decide_eq_true (not_lt.1 hn))
    split
    · rename_i e hn
      refine .fail (nextLink_fail rfl hn) _ _ fun d hd => ?_
      rcases mem_singleton.1 hd with rfl
      exact hlow
    all_goals
      rename_i hn
      obtain ⟨t, ht⟩ := nextLink_text (by rw [hn]; rintro e ⟨⟩)
      rw [ht]
      refine Cut.emit _ (fun d hd => ?_) rfl ?_
      · rcases mem_singleton.1 hd with rfl
        exact hlow
    · exact enter_cut _ _ (h follow)
    · exact h ..
    · exact h ..

theorem trail_cut (n : Nat) (follow : Bool) (pos : Pos) (ref taken : Nat) :
    Cut (T.trail tooDeep n follow pos ref taken) (T.trail never n follow pos ref taken) := by
  induction n generalizing follow pos ref taken with
  | zero => exact .stuck [] (forall_mem_nil _)
  | succ n ih =>
    rw [trail, trail]
    rcases pos.component with _ | ⟨component, rest⟩
    · exact .ok ..
    · dsimp only
      split
      · exact .fail (by decide) _ _ (forall_mem_nil _)
      · exact (turn_cut ih ..).quiet _ rfl

theorem lookupTrail_cut (n : Nat) (path : Path) (follow : Bool) :
    Cut (T.lookupTrail tooDeep n path follow) (T.lookupTrail never n path follow) :=
  enter_cut path 0 (trail_cut n follow)

end Tree

/-! ### Characters other than slashes -/

def letters (p : Path) : Nat := p.countP (· != '/')

theorem letters_append (p q : Path) : letters (p ++ q) = letters p + letters q := countP_append

theorem letters_eq_length {c : Path} (h : '/' ∉ c) : letters c = c.length := by
  refine countP_eq_length.2 fun x hx => ?_
  rw [bne_iff_ne]
  rintro rfl
  exact h hx

theorem letters_le_length (p : Path) : letters p ≤ p.length := countP_le_length

theorem letters_sublist {p q : Path} (h : p.Sublist q) : letters p ≤ letters q := h.countP_le

theorem letters_dropWhile (p : Path) : letters (p.dropWhile (· == '/')) = letters p := by
  induction p with
  | nil => rfl
  | cons x p ih =>
    by_cases hx : x = '/'
    · subst hx
      rw [dropWhile_cons_of_pos (by decide), ih]
      exact (countP_cons_of_neg (by decide)).symm
    · rw [dropWhile_cons_of_neg (by simpa using hx)]

variable {component rest : Path}

theorem Pos.component_spec (h : pos.component = some (component, rest)) :
    component ≠ [] ∧ '/' ∉ component ∧ pos.rest.dropWhile (· == '/') = component ++ rest := by
  unfold Pos.component at h
  rcases hd : pos.rest.dropWhile (· == '/') with _ | ⟨x, p⟩
  · rw [hd] at h
    cases h
  rw [hd] at h
  obtain ⟨rfl, rfl⟩ := h
  have hx : x ≠ '/' := by
    have := head?_dropWhile_not (· == '/') pos.rest
    rw [hd] at this
    simpa using this
  refine ⟨?_, fun hm => ?_, ?_⟩
  · rw [takeWhile_cons_of_pos (by simpa using hx)]
    exact cons_ne_nil _ _
  · have := mem_takeWhile_imp (mem_of_mem_take hm)
    simp at this
  · exact (prefix_iff_eq_append.1 ((List.take_prefix ..).trans (List.takeWhile_prefix _))).symm

theorem Pos.component_letters (h : pos.component = some (component, rest)) :
    0 < component.length ∧ letters rest + component.length = letters pos.rest := by
  obtain ⟨hne, hslash, hp⟩ := Pos.component_spec h
  refine ⟨length_pos_iff.2 hne, ?_⟩
  rw [← letters_dropWhile pos.rest, hp, letters_append, letters_eq_length hslash, add_comm]

theorem trimResolvedParent_letters (p : Path) : letters (trimResolvedParent p) ≤ letters p := by
  refine letters_sublist ?_
  exact (dropLast_sublist _).trans (List.rdropWhile_prefix _ p).sublist

theorem parentPath_letters (p : Path) : letters (Tree.parentPath p) ≤ letters p := by
  unfold Tree.parentPath
  split
  · exact zero_le _
  · exact trimResolvedParent_letters p

theorem appendResolved_letters (p c : Path) : letters (appendResolved p c) ≤ letters p + c.length := by
  have hc := letters_le_length c
  have hs : letters ['/'] = 0 := rfl
  unfold appendResolved
  dsimp only
  split_ifs
  · rw [letters_append, letters_append]
    omega
  · rw [letters_append]
    omega
  · rw [letters_append]
    omega
  · omega

namespace Tree

variable {T : Tree}

variable {path : Path}

theorem start_letters (h : T.start path = .ok pos) : letters pos.resolved + letters pos.rest ≤ letters path := by
  unfold start at h
  split at h
  · cases h
  split at h
  · cases h
  split at h
  · rename_i m hm
    cases h
    obtain ⟨q, rfl⟩ := ((findMountForPath_best path).covers m (Option.filter_eq_some_iff.1 hm).1).2.1.1
    rw [letters_append, drop_left]
    refine Nat.add_le_add_left ?_ _
    split
    · exact letters_sublist (tail_sublist _)
    · exact Nat.le_refl _
  · cases h
    have := letters_sublist (tail_sublist path)
    simpa [letters] using this

/-! ### Lookups with few links return -/

def FewLinks (k : Nat) (f : Nat → Traced LookupEvent LookupOut) : Prop := ∀ n, (depths (f n).log).length ≤ k

def Returns (f : Nat → Traced LookupEvent LookupOut) : Prop := ∃ n out, (f n).out = some out

theorem FewLinks.of_emit {f : Nat → Traced LookupEvent LookupOut} {k : Nat} {es : List LookupEvent}
    (h : FewLinks k fun n => (f n).emit es) : (depths es).length ≤ k ∧ FewLinks (k - (depths es).length) f := by
  have hn : ∀ n, (depths es).length + (depths (f n).log).length ≤ k := fun n => by
    have := h n
    rwa [emit_log, depths_append, length_append] at this
  refine ⟨(le_add_right ..).trans (hn 0), fun n => ?_⟩
  have := hn n
  omega

def span (pos : Pos) : Nat := letters pos.resolved + letters pos.rest

/-- With at most `k` links on its way the walk returns. -/
def Settles (T : Tree) (k : Nat) (follow : Bool) (pos : Pos) (ref taken : Nat) : Prop :=
  FewLinks k (fun n => T.trail never n follow pos ref taken) → Returns fun n => T.trail never n follow pos ref taken

variable {follow : Bool}

theorem enter_returns {taken k : Nat} (hfew : FewLinks k fun n => T.enter path taken (T.trail never n follow))
    (h : ∀ pos ref taken, span pos ≤ letters path → T.Settles k follow pos ref taken) :
    Returns fun n => T.enter path taken (T.trail never n follow) := by
  unfold enter at hfew ⊢
  cases hs : T.start path with
  | error e => exact ⟨0, _, rfl⟩
  | ok pos =>
    rw [hs] at hfew
    exact h pos taken (taken + 1) (start_letters hs) hfew.of_emit.2

theorem out_returns {ref taken k : Nat}
    (hfew : FewLinks k fun n => T.turn never (T.trail never n) follow pos ref taken component rest .out)
    (hcall : FewLinks k (fun n => T.enter (parentPath pos.resolved) taken (T.trail never n true)) →
      Returns fun n => T.enter (parentPath pos.resolved) taken (T.trail never n true))
    (hmove : ∀ v r taken, T.Settles k follow
      { pos with rest := rest, cur := v, resolved := trimResolvedParent pos.resolved } r taken) :
    Returns fun n => T.turn never (T.trail never n) follow pos ref taken component rest .out := by
  have hle : ∀ {n m}, n ≤ m → (T.enter (parentPath pos.resolved) taken (T.trail never n true)).Le
      (T.enter (parentPath pos.resolved) taken (T.trail never m true)) := fun hnm => enter_le _ _ (trail_le hnm true)
  obtain ⟨n, out, hout⟩ := hcall fun n =>
    ((log_prefix_andThen ..).filterMap _).length_le.trans (hfew n)
  -- with more steps the parent is the same
  have hsame : ∀ m, n ≤ m → (T.enter (parentPath pos.resolved) taken (T.trail never m true)).out = some out :=
    fun m hnm => ((hle hnm).eq_of_out hout) ▸ hout
  obtain ⟨e | ⟨v, r⟩, j⟩ := out
  · refine ⟨n, (.error e, j), ?_⟩
    dsimp only
    rw [turn, andThen_some hout]
    rfl
  · have hrest := hmove v r j fun m => by
      have hpre : (T.trail never m follow _ r j).log <+: (T.trail never (max m n) follow _ r j).log :=
        (trail_le (le_max_left m n) follow
          { pos with rest := rest, cur := v, resolved := trimResolvedParent pos.resolved } r j).log
      refine (hpre.filterMap _).length_le.trans (le_trans ?_ (hfew (max m n)))
      dsimp only
      rw [turn, andThen_some (hsame _ (le_max_right m n)), emit_log, depths_append, length_append]
      exact Nat.le_add_left ..
    obtain ⟨m, out, hm⟩ := hrest
    refine ⟨max m n, out, ?_⟩
    dsimp only
    rw [turn, andThen_some (hsame _ (le_max_right m n))]
    exact (congrArg Traced.out ((trail_le (le_max_left m n) follow _ r j).eq_of_out hm)).symm.trans hm

theorem turn_returns {ref taken k : Nat} {r : Round}
    (hfew : FewLinks k fun n => T.turn never (T.trail never n) follow pos ref taken component rest r)
    (hrest : letters rest + component.length = letters pos.rest)
    (hmove : ∀ pos' ref taken, letters pos'.rest ≤ letters rest → span pos' ≤ span pos →
      T.Settles k follow pos' ref taken)
    (hcall : ∀ pos' ref taken, span pos' ≤ letters pos.resolved → T.Settles k true pos' ref taken)
    (hlink : ∀ pos' ref taken j, j < k → T.Settles j follow pos' ref taken) :
    Returns fun n => T.turn never (T.trail never n) follow pos ref taken component rest r := by
  have htrim := trimResolvedParent_letters pos.resolved
  have happ := appendResolved_letters pos.resolved component
  -- a place further on spans no more
  have hspan : ∀ cur p depth, letters p ≤ letters pos.resolved + component.length →
      span ⟨rest, cur, p, depth⟩ ≤ span pos := fun cur p depth hp => by
    unfold span
    dsimp only
    omega
  cases r with
  | dot => exact hmove _ ref taken (le_refl _) (hspan _ _ _ (by omega)) hfew
  | out =>
    refine out_returns hfew (fun hf => enter_returns hf fun pos' ref taken hs => ?_) fun v r taken => ?_
    · exact hcall pos' ref taken (hs.trans (parentPath_letters _))
    · exact hmove _ r taken (le_refl _) (hspan _ _ _ (by omega))
  | up parent => cases parent <;> exact hmove _ _ _ (le_refl _) (hspan _ _ _ (by omega)) hfew.of_emit.2
  | mount root | child v => exact hmove _ _ _ (le_refl _) (hspan _ _ _ happ) hfew.of_emit.2
  | noLookup | absent => exact ⟨0, _, rfl⟩
  | link v =>
    simp only [turn, never, Bool.false_eq_true, if_false] at hfew ⊢
    obtain ⟨hk, hfew⟩ := hfew.of_emit.2.of_emit
    have hlt : k - 1 < k := sub_lt hk one_pos
    cases hn : T.nextLink _ v with
    | fail e => exact ⟨0, _, rfl⟩
    | link path =>
      rw [hn] at hfew
      exact enter_returns hfew fun pos' ref taken _ => hlink pos' ref taken _ hlt
    | move p =>
      rw [hn] at hfew
      exact hlink _ ref _ _ hlt hfew
    | parent path p =>
      rw [hn] at hfew
      exact hlink _ ref _ _ hlt hfew

theorem trail_returns (k a b : Nat) (follow : Bool) (pos : Pos) (ref taken : Nat) (ha : span pos ≤ a)
    (hb : letters pos.rest ≤ b) : T.Settles k follow pos ref taken := by
  induction k using Nat.strong_induction_on generalizing a b follow pos ref taken with
  | _ k ihk =>
  induction a using Nat.strong_induction_on generalizing b follow pos ref taken with
  | _ a iha =>
  induction b using Nat.strong_induction_on generalizing follow pos ref taken with
  | _ b ihb =>
    intro hfew
    rcases hc : pos.component with _ | ⟨component, rest⟩
    · refine ⟨1, (.ok (pos.cur, ref), taken), ?_⟩
      dsimp only
      rw [trail, hc]
      rfl
    obtain ⟨hpos, hletters⟩ := Pos.component_letters hc
    by_cases hd : (T.vnode pos.cur).isDir
    · have hstep : ∀ n, T.trail never (n + 1) follow pos ref taken = (T.turn never (T.trail never n) follow pos ref
          taken component rest (T.round follow pos component rest)).emit [.use ref] := fun n => by
        rw [trail, hc]
        simp only [hd, Bool.not_true, Bool.false_eq_true, if_false]
      have hturn : FewLinks k fun n => T.turn never (T.trail never n) follow pos ref taken component rest
          (T.round follow pos component rest) := fun n => by
        have := hfew (n + 1)
        dsimp only at this
        rwa [hstep] at this
      obtain ⟨n, out, hout⟩ := turn_returns hturn hletters
        (fun pos' ref taken hr hs => ihb _ (by omega) follow pos' ref taken (hs.trans ha) le_rfl)
        (fun pos' ref taken hs => iha _ (by unfold span at hs ha ⊢; omega) _ true pos' ref taken le_rfl le_rfl)
        (fun pos' ref taken j hj => ihk j hj _ _ follow pos' ref taken le_rfl le_rfl)
      refine ⟨n + 1, out, ?_⟩
      dsimp only
      rw [hstep]
      exact hout
    · refine ⟨1, (.error (-ENOTDIR), taken), ?_⟩
      dsimp only
      rw [trail, hc]
      simp only [hd, Bool.not_false, if_true]
      rfl

/-! ### The links of a whole lookup -/

theorem lookupTrail_depths (refuse : Nat → Bool) (n : Nat) (path : Path) (follow : Bool) :
    DepthsFrom 0 (depths (T.lookupTrail refuse n path follow).log) :=
  enter_depths path 0 (trail_depths n follow)

theorem lookupTrail_returns {k : Nat} (h : FewLinks k fun n => T.lookupTrail never n path follow) :
    Returns fun n => T.lookupTrail never n path follow :=
  enter_returns h fun pos ref taken _ => trail_returns k _ _ follow pos ref taken le_rfl le_rfl

theorem way_getElem? {n m i d e : Nat} (hd : (depths (T.lookupTrail never n path follow).log)[i]? = some d)
    (he : (depths (T.lookupTrail never m path follow).log)[i]? = some e) : d = e := by
  have hpre : ∀ {n m}, n ≤ m → depths (T.lookupTrail never n path follow).log <+:
      depths (T.lookupTrail never m path follow).log := fun h => (lookupTrail_le h path follow).log.filterMap _
  have hget : ∀ {l l' : List Nat} {a : Nat}, l <+: l' → l[i]? = some a → l'[i]? = some a := by
    rintro l _ a ⟨t, rfl⟩ h
    exact getElem?_append_left (List.getElem?_eq_some_iff.1 h).1 ▸ h
  have h1 := hget (hpre (le_max_left n m)) hd
  have h2 := hget (hpre (le_max_right n m)) he
  exact Option.some.inj (h1.symm.trans h2)

theorem refused_length {n : Nat} {l : List Nat} {d : Nat}
    (hd : depths (T.lookupTrail tooDeep n path follow).log = l ++ [d]) : d ≤ l.length := by
  have := lookupTrail_depths (T := T) tooDeep n path follow l.length d (by rw [hd]; simp)
  omega

theorem ends_of_ninth (h : T.NinthInOneCall path follow) : T.Ends path follow := by
  by_cases hfew : FewLinks MAX_SYMLINK_DEPTH fun n => T.lookupTrail never n path follow
  · -- at most eight links: the way ends, and no link is refused
    obtain ⟨n, out, hout⟩ := lookupTrail_returns hfew
    have hn := hfew n
    dsimp only at hn hout
    cases lookupTrail_cut (T := T) n path follow with
    | same heq _ _ _ =>
      rw [← heq] at hn hout
      exact ⟨n, out, hout, (linksFollowed_le _).trans hn, fun hlt => absurd hlt (not_lt.2 hn)⟩
    | refused k l d _ hd _ hmax _ hpre =>
      have h1 := hpre.length_le
      have h2 := refused_length hd
      rw [hd, length_append, length_singleton] at h1
      omega
  · -- the ninth link is refused
    obtain ⟨n, hn⟩ := not_forall.1 hfew
    have hget := getElem?_eq_getElem (not_le.1 hn)
    have hninth := h n _ hget
    rw [hninth] at hget
    cases lookupTrail_cut (T := T) n path follow with
    | same _ hlow _ _ => exact absurd (hlow _ (mem_of_getElem? hget)) (lt_irrefl _)
    | refused k l d hout hd hlow hmax hfol hpre =>
      have hlen : l.length ≤ MAX_SYMLINK_DEPTH := by
        by_contra hlt
        obtain ⟨t, ht⟩ := hpre
        rw [← ht, hd, append_assoc, getElem?_append_left (not_le.1 hlt)] at hget
        exact lt_irrefl _ (hlow _ (mem_of_getElem? hget))
      exact ⟨n, (.error (-ELOOP), k), hout, hfol ▸ hlen, fun _ => rfl⟩

theorem ninth_of_ends (h : T.Ends path follow) : T.NinthInOneCall path follow := by
  obtain ⟨n, out, hout, hfol, hloop⟩ := h
  intro m e he
  cases lookupTrail_cut (T := T) n path follow with
  | same heq _ hne _ =>
    -- the lookup returned for another reason, so there is no ninth link
    rw [heq] at hout hloop
    have hshort : (depths (T.lookupTrail never n path follow).log).length ≤ MAX_SYMLINK_DEPTH := by
      by_contra hlt
      refine hne out.2 (hout.trans ?_)
      rw [← hloop (not_le.1 hlt)]
    have hm : (depths (T.lookupTrail never m path follow).log).length ≤ MAX_SYMLINK_DEPTH := by
      rcases le_total m n with hmn | hnm
      · exact (((lookupTrail_le hmn path follow).log.filterMap _).length_le).trans hshort
      · rw [← (lookupTrail_le hnm path follow).eq_of_out hout]
        exact hshort
    rw [getElem?_eq_none hm] at he
    cases he
  | refused k l d _ hd _ hmax hfol' hpre =>
    have hle := refused_length hd
    rw [hfol'] at hfol
    have hlen : l.length = MAX_SYMLINK_DEPTH := le_antisymm hfol (hmax.trans hle)
    have hdeep : d = MAX_SYMLINK_DEPTH := le_antisymm (hlen ▸ hle) hmax
    obtain ⟨t, ht⟩ := hpre
    have hget : (depths (T.lookupTrail never n path follow).log)[MAX_SYMLINK_DEPTH]? = some d := by
      rw [← ht, hd, append_assoc, getElem?_append_right (le_of_eq hlen), hlen]
      rfl
    exact (way_getElem? he hget).trans hdeep

end Tree

def loopTree : Tree where
  root := some 0
  mounts := [⟨['/'], 0⟩]
  vnode v := { ino := v, mode := if v = 0 then S_IFDIR else S_IFLNK, uid := 0, gid := 0, size := 0 }
  lookup _ := some fun name => if name = ['a'] then some 1 else none
  readlink v := if v = 1 then some ['/', 'a'] else none

theorem loopTree_stuck (n ref taken : Nat) :
    (loopTree.trail Tree.tooDeep n true ⟨['a'], 0, [], 0⟩ ref taken).out = none := by
  induction n generalizing ref taken with
  | zero => rfl
  | succ n ih => exact ih (taken + 1) (taken + 2)

end ExoOS.Vfs
