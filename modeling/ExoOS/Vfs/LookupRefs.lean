import ExoOS.Vfs.LookupTrail

/-!
# References taken by a path lookup

`vfs_vnode_get` and `vfs_vnode_put` over the log of a lookup. Which vnode a reference is to is left open, as file
systems may hand out a new vnode or one that is in use; so are the counts before the call.

When `vfs_lookup` has read a relative link it goes on with the directory it has released already. A lookup that returns
is balanced exactly if all links it followed are absolute (`lookup_balanced_iff`).
-/

namespace ExoOS.Vfs

open Function List Traced

section Counts

variable {α : Type} [DecidableEq α] (vid : Nat → α)

def incref (c : α → Nat) (v : α) : α → Nat := Function.update c v (c v + 1)

/-- The counts after an event; `none` if a vnode is used or released that has no reference left. -/
def LookupEvent.apply (c : α → Nat) : LookupEvent → Option (α → Nat)
  | .get r _ => some (incref c (vid r))
  | .put r => if c (vid r) = 0 then none else some (Function.update c (vid r) (c (vid r) - 1))
  | .use r => if c (vid r) = 0 then none else some c
  | .link _ _ => some c

def replay (c : α → Nat) (log : List LookupEvent) : Option (α → Nat) := log.foldlM (LookupEvent.apply vid) c

/-- The counts as they should be: one more for the vnode that is returned. -/
def LookupOut.counts (c : α → Nat) (out : LookupOut) : α → Nat :=
  match out.1 with
  | .error _ => c
  | .ok (_, r) => incref c (vid r)

end Counts

/-- A link that is followed although its text does not begin with a slash. -/
def LookupEvent.relative : LookupEvent → Bool
  | .link _ (some text) => text.head? != some '/'
  | _ => false

def relatives (log : List LookupEvent) : Nat := log.countP LookupEvent.relative

/-! ### Balanced logs -/

section Replay

variable {α : Type} [DecidableEq α] {vid : Nat → α} {c c' c'' : α → Nat} {l l' : List LookupEvent}

theorem replay_append (h : replay vid c l = some c') (h' : replay vid c' l' = some c'') :
    replay vid c (l ++ l') = some c'' := by
  unfold replay at h ⊢
  rw [foldlM_append, h]
  exact h'

theorem replay_cons {e : LookupEvent} (h : e.apply vid c = some c') (h' : replay vid c' l = some c'') :
    replay vid c (e :: l) = some c'' := by
  unfold replay at ⊢
  rw [foldlM_cons, h]
  exact h'

theorem apply_use (r : Nat) : (LookupEvent.use r).apply vid (incref c (vid r)) = some (incref c (vid r)) := by
  simp [LookupEvent.apply, incref]

theorem apply_put (r : Nat) : (LookupEvent.put r).apply vid (incref c (vid r)) = some c := by
  simp [LookupEvent.apply, incref]

theorem incref_comm (a b : α) : incref (incref c a) b = incref (incref c b) a := by
  by_cases h : a = b
  · rw [h]
  · simp only [incref, update_of_ne h, update_of_ne (Ne.symm h)]
    exact update_comm h ..

theorem replay_swap (r k : Nat) (v : Ino) :
    replay vid (incref c (vid r)) [.use r, .get k v, .put r] = some (incref c (vid k)) := by
  refine replay_cons (apply_use r) (replay_cons rfl (replay_cons ?_ rfl))
  rw [incref_comm]
  exact apply_put r

end Replay

variable {es : List LookupEvent} {v : Ino}

namespace Tree

variable {T : Tree} {α : Type} [DecidableEq α] {vid : Nat → α}
  {go : Bool → Pos → Nat → Nat → Traced LookupEvent LookupOut}

/-- Where `cur` is held, the log ends with the counts as they should be. -/
def Balances (vid : Nat → α) (ref : Nat) (w : Traced LookupEvent LookupOut) : Prop :=
  ∀ c out, w.out = some out → (∀ e ∈ w.log, e.relative = false) →
    replay vid (incref c (vid ref)) w.log = some (out.counts vid c)

theorem Balances.emit {ref ref' : Nat} {w : Traced LookupEvent LookupOut}
    (h : Balances vid ref' w) (hes : ∀ c, replay vid (incref c (vid ref)) es = some (incref c (vid ref'))) :
    Balances vid ref (w.emit es) := by
  intro c out hout hrel
  exact replay_append (hes c) (h c out hout fun e he => hrel e (mem_append_right _ he))

theorem Balances.fail {ref : Nat} {e : Int} {k : Nat} (hes : ∀ c, replay vid (incref c (vid ref)) es = some c) :
    Balances vid ref ((Traced.ret (.error e, k)).emit es) := by
  rintro c _ ⟨⟩ -
  exact replay_append (hes c) rfl

theorem enter_balanced (h : ∀ follow pos ref taken, Balances vid ref (go follow pos ref taken)) {path : Path}
    {taken : Nat} {follow : Bool} (c : α → Nat) {out : LookupOut}
    (hout : (T.enter path taken (go follow)).out = some out)
    (hrel : ∀ e ∈ (T.enter path taken (go follow)).log, e.relative = false) :
    replay vid c (T.enter path taken (go follow)).log = some (out.counts vid c) := by
  unfold enter at hout hrel ⊢
  cases hs : T.start path with
  | error e =>
    rw [hs] at hout
    cases hout
    rfl
  | ok pos =>
    rw [hs] at hout hrel
    exact replay_cons rfl (h follow pos taken (taken + 1) c out hout fun e he => hrel e (mem_cons_of_mem _ he))

theorem nextLink_move {pos p : Pos} (h : T.nextLink pos v = .move p) :
    ∃ t, T.readlink v = some t ∧ t.head? ≠ some '/' := by
  unfold nextLink at h
  split at h
  · cases h
  split at h
  · cases h
  rename_i t ht
  refine ⟨t, ht, ?_⟩
  intro hh
  rw [if_neg (fun hn => hn hh)] at h
  split_ifs at h

theorem nextLink_parent {pos p : Pos} {path : Path} : T.nextLink pos v ≠ .parent path p := by
  unfold nextLink
  split
  · rintro ⟨⟩
  · split
    · rintro ⟨⟩
    · dsimp only
      split_ifs <;> rintro ⟨⟩

theorem turn_balanced (h : ∀ follow pos ref taken, Balances vid ref (go follow pos ref taken)) (follow : Bool)
    (pos : Pos) (ref taken : Nat) (component rest : Path) (r : Round) :
    Balances vid ref (T.turn tooDeep go follow pos ref taken component rest r) := by
  cases r with
  | dot => exact h _ _ _ _
  | out =>
    intro c out hout hrel
    rw [turn] at hout hrel ⊢
    rcases ho : (T.enter (parentPath pos.resolved) taken (go true)).out with _ | ⟨e | ⟨v, k⟩, j⟩
    · rw [andThen_none ho] at hout
      cases hout
    all_goals
      rw [andThen_some ho] at hout hrel ⊢
      have hcall := enter_balanced h (incref c (vid ref)) ho fun e he => hrel e (mem_append_left _ he)
      refine replay_append hcall ?_
    · cases hout
      exact replay_cons (apply_put ref) rfl
    · refine replay_cons ?_ (h _ _ _ _ c out hout fun e he => hrel e ?_)
      · change LookupEvent.apply vid (incref (incref c (vid ref)) (vid k)) _ = _
        rw [incref_comm]
        exact apply_put ref
      · exact mem_append_right _ (mem_cons_of_mem _ he)
  | up parent =>
    cases parent with
    | none => exact (h _ _ _ _).emit fun c => replay_cons (apply_use ref) rfl
    | some v => exact (h _ _ _ _).emit fun c => replay_swap ref taken v
  | mount root => exact (h _ _ _ _).emit fun c => replay_cons (apply_put ref) rfl
  | noLookup | absent => exact .fail fun c => replay_cons (apply_use ref) (replay_cons (apply_put ref) rfl)
  | child v =>
    exact (h _ _ _ _).emit fun c => replay_append (replay_swap ref taken v) (replay_cons (apply_use taken) rfl)
  | link v =>
    have hchild : ∀ c, replay vid (incref c (vid ref)) [.use ref, .get taken v, .put ref, .use taken] =
        some (incref c (vid taken)) := fun c =>
      replay_append (replay_swap ref taken v) (replay_cons (apply_use taken) rfl)
    have hlink : ∀ c text, replay vid (incref c (vid taken)) [.link pos.depth text, .put taken] = some c :=
      fun c text => replay_cons rfl (replay_cons (apply_put taken) rfl)
    rw [turn]
    split
    · exact .fail fun c => replay_append (hchild c) (hlink c none)
    intro c out hout hrel
    refine replay_append (hchild c) (replay_append (hlink c (T.readlink v)) ?_)
    cases hn : T.nextLink _ v with
    | fail e =>
      rw [hn] at hout
      cases hout
      rfl
    | link path =>
      rw [hn] at hout hrel
      exact enter_balanced h c hout fun e he => hrel e (by simp [he])
    | move p =>
      -- a relative link was followed
      obtain ⟨t, ht, hrelative⟩ := nextLink_move hn
      have := hrel (.link pos.depth (some t)) (by simp [ht])
      simp [LookupEvent.relative, hrelative] at this
    | parent path p => exact absurd hn nextLink_parent

theorem trail_balanced (n : Nat) (follow : Bool) (pos : Pos) (ref taken : Nat) :
    Balances vid ref (T.trail tooDeep n follow pos ref taken) := by
  induction n generalizing follow pos ref taken with
  | zero => rintro c out ⟨⟩
  | succ n ih =>
    refine trail_cases (fun _ => ?_) (fun _ _ _ => ?_) fun component rest _ _ => ?_
    · rintro c _ ⟨⟩ -
      rfl
    · exact .fail fun c => replay_cons (apply_use ref) (replay_cons (apply_put ref) rfl)
    · exact (turn_balanced ih _ _ _ _ _ _ _).emit fun c => replay_cons (apply_use ref) rfl

/-! ### Logs that are not balanced -/

end Tree

section Totals

variable {α : Type} (vid : Nat → α)

def takenTo (log : List LookupEvent) : List α :=
  log.filterMap fun
    | .get r _ => some (vid r)
    | _ => none

def droppedTo (log : List LookupEvent) : List α :=
  log.filterMap fun
    | .put r => some (vid r)
    | _ => none

variable {vid} [DecidableEq α]

theorem replay_count {c c' : α → Nat} {log : List LookupEvent} (h : replay vid c log = some c') (v : α) :
    c' v + (droppedTo vid log).count v = c v + (takenTo vid log).count v := by
  induction log generalizing c with
  | nil =>
    cases h
    rfl
  | cons e log ih =>
    obtain ⟨c1, h1, h2⟩ := Option.bind_eq_some_iff.1 (show (e.apply vid c).bind _ = some c' from h)
    have hrest := ih h2
    cases e with
    | get r w =>
      cases h1
      change c' v + (droppedTo vid log).count v = c v + (vid r :: takenTo vid log).count v
      rw [hrest, count_cons]
      by_cases hv : v = vid r
      · subst hv
        simp only [incref, update_self, beq_self_eq_true, if_true]
        omega
      · simp [incref, hv, Ne.symm hv]
    | put r =>
      obtain ⟨hne, ⟨⟩⟩ := Option.ite_none_left_eq_some.1 h1
      change c' v + (vid r :: droppedTo vid log).count v = c v + (takenTo vid log).count v
      rw [count_cons]
      by_cases hv : v = vid r
      · subst hv
        rw [update_self] at hrest
        simp only [beq_self_eq_true, if_true]
        omega
      · rw [update_of_ne hv] at hrest
        simpa [Ne.symm hv] using hrest
    | use r =>
      obtain ⟨-, ⟨⟩⟩ := Option.ite_none_left_eq_some.1 h1
      exact hrest
    | link d text =>
      cases h1
      exact hrest

end Totals

def LookupOut.returned (out : LookupOut) : Nat :=
  match out.1 with
  | .error _ => 0
  | .ok _ => 1

section Adds

variable {α : Type} {vid : Nat → α}

/-- References taken, with `held` more before, against those dropped and the one returned; each relative link that is
followed costs one. -/
def Adds (vid : Nat → α) (held : Nat) (w : Traced LookupEvent LookupOut) : Prop :=
  ∀ out, w.out = some out →
    (takenTo vid w.log).length + held + relatives w.log = (droppedTo vid w.log).length + out.returned

theorem Adds.emit {m n : Nat} {w : Traced LookupEvent LookupOut} (h : Adds vid m w)
    (hes : (takenTo vid es).length + n + relatives es = (droppedTo vid es).length + m) :
    Adds vid n (w.emit es) := by
  intro out hout
  have := h out hout
  simp only [emit_log, takenTo, droppedTo, relatives, filterMap_append, length_append, countP_append] at hes this ⊢
  omega

theorem Adds.fail {held : Nat} {e : Int} {k : Nat}
    (hes : (takenTo vid es).length + held + relatives es = (droppedTo vid es).length) :
    Adds vid held ((Traced.ret (.error e, k)).emit es) := by
  rintro _ ⟨⟩
  rw [emit_log, ret_log, append_nil]
  exact hes

theorem returned_length [DecidableEq α] {c : α → Nat} {log : List LookupEvent} {out : LookupOut}
    (h : ∀ v, out.counts vid c v + (droppedTo vid log).count v = c v + (takenTo vid log).count v) :
    (takenTo vid log).length = (droppedTo vid log).length + out.returned := by
  obtain ⟨_ | ⟨w, r⟩, k⟩ := out
  · have hperm : (takenTo vid log).Perm (droppedTo vid log) :=
      perm_iff_count.2 fun v => (Nat.add_left_cancel (h v)).symm
    exact hperm.length_eq
  · have hperm : (takenTo vid log).Perm (vid r :: droppedTo vid log) := by
      refine perm_iff_count.2 fun v => ?_
      have hv := h v
      simp only [LookupOut.counts, incref, update_apply] at hv
      rw [count_cons]
      by_cases hvr : v = vid r
      · subst hvr
        simp only [if_true, beq_self_eq_true] at hv ⊢
        omega
      · simp only [hvr, if_false, beq_iff_eq, Ne.symm hvr] at hv ⊢
        omega
    exact hperm.length_eq

end Adds

namespace Tree

variable {T : Tree} {α : Type} {vid : Nat → α} {go : Bool → Pos → Nat → Nat → Traced LookupEvent LookupOut}

theorem enter_adds {follow : Bool} (h : ∀ pos ref taken, Adds vid 1 (go follow pos ref taken)) (path : Path)
    (taken : Nat) : Adds vid 0 (T.enter path taken (go follow)) := by
  unfold enter
  cases T.start path with
  | error e =>
    rintro _ ⟨⟩
    rfl
  | ok pos => exact (h _ _ _).emit rfl

theorem nextLink_absolute {pos : Pos} (hd : pos.depth = 0) (h : ∀ p, T.nextLink pos v ≠ .move p) (d : Nat) :
    (LookupEvent.link d (T.readlink v)).relative = false := by
  unfold nextLink at h
  rw [if_neg (by rw [hd]; decide)] at h
  rcases hr : T.readlink v with _ | t
  · rfl
  rw [hr] at h
  by_contra hrel
  have ht : t.head? ≠ some '/' := by
    simpa [LookupEvent.relative] using hrel
  simp only [if_pos ht] at h
  exact h _ rfl

theorem turn_adds (h : ∀ follow pos ref taken, Adds vid 1 (go follow pos ref taken)) (follow : Bool)
    (pos : Pos) (ref taken : Nat) (component rest : Path) (r : Round) :
    Adds vid 1 (T.turn tooDeep go follow pos ref taken component rest r) := by
  cases r with
  | dot => exact h _ _ _ _
  | out =>
    have hcall := enter_adds (T := T) (h true) (parentPath pos.resolved) taken
    rw [turn]
    rcases ho : (T.enter (parentPath pos.resolved) taken (go true)).out with _ | ⟨e | ⟨v, k⟩, j⟩
    · rw [andThen_none ho]
      rintro _ ⟨⟩
    all_goals
      have hcount := hcall _ ho
      rw [andThen_some ho]
    · refine Adds.emit (h := (Adds.fail rfl : Adds vid 1 _)) ?_
      change _ = _ + 0 at hcount
      omega
    · refine ((h _ _ _ _).emit (n := 2) rfl).emit ?_
      change _ = _ + 1 at hcount
      omega
  | up parent =>
    cases parent with
    | none => exact (h _ _ _ _).emit rfl
    | some v => exact (h _ _ _ _).emit rfl
  | mount root | child v => exact (h _ _ _ _).emit rfl
  | noLookup | absent => exact .fail rfl
  | link v =>
    have hcost : ∀ text b, (LookupEvent.link pos.depth text).relative = b →
        (takenTo vid [.link pos.depth text, .put taken]).length + 1 + relatives [.link pos.depth text, .put taken] =
          (droppedTo vid [.link pos.depth text, .put taken]).length + b.toNat := by
      rintro text b hb
      cases b <;> simp [takenTo, droppedTo, relatives, countP_cons, hb] <;> simp [LookupEvent.relative]
    have hnext : ∀ {pos'}, pos'.depth = 0 → (∀ p, T.nextLink pos' v ≠ .move p) → _ := fun hd h =>
      hcost _ false (nextLink_absolute hd h pos.depth)
    rw [turn]
    refine Adds.emit (m := 1) ?_ rfl
    split
    · exact .fail rfl
    cases hn : T.nextLink _ v with
    | fail e => exact .fail (hnext rfl fun p hp => by rw [hn] at hp; cases hp)
    | link path =>
      exact (enter_adds (h follow) path (taken + 1)).emit (hnext rfl fun p hp => by rw [hn] at hp; cases hp)
    | move p =>
      obtain ⟨t, ht, hrel⟩ := nextLink_move hn
      exact (h _ _ _ _).emit (hcost _ true (by rw [ht]; simpa [LookupEvent.relative] using hrel))
    | parent path p => exact absurd hn nextLink_parent

theorem trail_adds (n : Nat) (follow : Bool) (pos : Pos) (ref taken : Nat) :
    Adds vid 1 (T.trail tooDeep n follow pos ref taken) := by
  induction n generalizing follow pos ref taken with
  | zero => rintro out ⟨⟩
  | succ n ih =>
    refine trail_cases (fun _ => ?_) (fun _ _ _ => ?_) fun component rest _ _ => ?_
    · rintro _ ⟨⟩
      rfl
    · exact .fail rfl
    · exact (turn_adds ih _ _ _ _ _ _ _).emit rfl

theorem lookup_balanced_iff [DecidableEq α] (T : Tree) (path : Path) (follow : Bool) {n : Nat} {out : LookupOut}
    (hout : (T.lookupTrail tooDeep n path follow).out = some out) (vid : Nat → α) (c : α → Nat) :
    replay vid c (T.lookupTrail tooDeep n path follow).log = some (out.counts vid c) ↔
      ∀ e ∈ (T.lookupTrail tooDeep n path follow).log, e.relative = false := by
  constructor
  · intro h
    have htotal : Adds vid 0 (T.lookupTrail tooDeep n path follow) := enter_adds (trail_adds n follow) path 0
    have hlen := returned_length (replay_count h)
    have hzero : relatives (T.lookupTrail tooDeep n path follow).log = 0 := by
      have := htotal out hout
      omega
    exact fun e he => Bool.not_eq_true _ ▸ countP_eq_zero.1 hzero e he
  · exact enter_balanced (fun follow pos ref taken => trail_balanced n follow pos ref taken) c hout

end Tree

def linkTree (text : Path) : Tree where
  root := some 0
  mounts := [⟨['/'], 0⟩]
  vnode v :=
    { ino := v, mode := if v ≤ 1 then S_IFDIR else if v = 2 then S_IFLNK else S_IFREG, uid := 0, gid := 0, size := 0 }
  lookup v := some fun name =>
    if v = 0 ∧ name = ['d'] then some 1 else if v = 1 ∧ name = ['l'] then some 2
    else if v = 1 ∧ name = ['f'] then some 3 else none
  readlink v := if v = 2 then some text else none

def rootOnly (v : Nat) : Nat := if v = 0 then 1 else 0

/-- `l` points to `/d`. The lookup of `/d/l/f` begins again at the root, with its fourth reference. -/
theorem lookup_balanced_absolute : ∃ out,
    ((linkTree ['/', 'd']).lookupTrail Tree.tooDeep 9 ['/', 'd', '/', 'l', '/', 'f'] true).out = some out ∧
      out.res = .ok 3 ∧
      replay (fun r => if r = 3 then 0 else r) rootOnly
        ((linkTree ['/', 'd']).lookupTrail Tree.tooDeep 9 ['/', 'd', '/', 'l', '/', 'f'] true).log =
          some (out.counts (fun r => if r = 3 then 0 else r) rootOnly) :=
  ⟨_, rfl, rfl, (Tree.lookup_balanced_iff _ _ _ rfl _ _).2 (by decide)⟩

/-- `l` is a relative link. The lookup of `/d/l` returns `d` without a reference to it, and that of `/d/l/f` uses `d`
after its last reference was dropped. -/
theorem relative_link_unbalanced :
    (((linkTree ['f']).lookupTrail Tree.tooDeep 9 ['/', 'd', '/', 'l'] true).out = some (.ok (1, 1), 3) ∧
      (replay id rootOnly ((linkTree ['f']).lookupTrail Tree.tooDeep 9 ['/', 'd', '/', 'l'] true).log).map (· 1) =
        some 0) ∧
    ((linkTree ['f']).lookupTrail Tree.tooDeep 9 ['/', 'd', '/', 'l', '/', 'f'] true).out = some (.ok (3, 3), 4) ∧
      replay id rootOnly ((linkTree ['f']).lookupTrail Tree.tooDeep 9 ['/', 'd', '/', 'l', '/', 'f'] true).log = none :=
  ⟨⟨rfl, rfl⟩, rfl, rfl⟩

end ExoOS.Vfs
