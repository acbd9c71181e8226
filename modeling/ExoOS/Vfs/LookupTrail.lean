import ExoOS.Lib.Traced
import ExoOS.Vfs.Lookup

/-!
# What a path lookup does on the way

`vfs_lookup` of `fs/vfs.c` once more, with a log of the references to vnodes it takes, uses and drops and of the
symbolic links it meets. References are numbered in the order in which they are taken. `trail_walk` says that this is
the lookup of `Tree.walk`.
-/

namespace ExoOS.Vfs

inductive LookupEvent
  /-- `vfs_vnode_get`, or `ops->lookup` hands out a vnode. -/
  | get (ref : Nat) (v : Ino)
  | put (ref : Nat)
  /-- A field of the vnode is read. -/
  | use (ref : Nat)
  /-- A link is met that is to be followed, when `depth` links were followed in this call. -/
  | link (depth : Nat) (text : Option Path)
  deriving DecidableEq

/-- What a round of the loop finds. -/
inductive Round
  | dot
  /-- `..` out of a mount -/
  | out
  /-- `..` -/
  | up (parent : Option Ino)
  | mount (root : Ino)
  | noLookup
  | absent
  | child (v : Ino)
  | link (v : Ino)

abbrev LookupOut := Except Int (Ino × Nat) × Nat

namespace Tree

variable (T : Tree)

/-- The cases of `Tree.next`. -/
def round (follow : Bool) (pos : Pos) (component rest : Path) : Round :=
  if component = ['.'] then .dot
  else if component = ['.', '.'] then
    match (T.findMountExact pos.resolved).filter (·.path != ['/']) with
    | some _ => .out
    | none => .up ((T.lookup pos.cur).bind (· ['.', '.']))
  else
    match (T.findMountExact (appendResolved pos.resolved component)).filter (·.root != pos.cur) with
    | some m => .mount m.root
    | none =>
      match T.lookup pos.cur with
      | none => .noLookup
      | some look =>
        match look component with
        | none => .absent
        | some child => if (T.vnode child).isLnk && (!isLast rest || follow) then .link child else .child child

def parentPath (resolved : Path) : Path :=
  if trimResolvedParent resolved = [] then ['/'] else trimResolvedParent resolved

theorem next_eq (follow : Bool) (pos : Pos) (component rest : Path) :
    T.next follow pos component rest = match T.round follow pos component rest with
      | .dot => .move { pos with rest := rest }
      | .out => .parent (parentPath pos.resolved) { pos with rest := rest, resolved := trimResolvedParent pos.resolved }
      | .up parent =>
        .move { pos with rest := rest, cur := parent.getD pos.cur, resolved := trimResolvedParent pos.resolved }
      | .mount root =>
        .move { pos with rest := rest, cur := root, resolved := appendResolved pos.resolved component }
      | .noLookup => .fail (- EIO)
      | .absent => .fail (-ENOENT)
      | .child v => .move { pos with rest := rest, cur := v, resolved := appendResolved pos.resolved component }
      | .link v => T.nextLink { pos with rest := rest, resolved := appendResolved pos.resolved component } v := by
  unfold next round nextDotDot
  dsimp only
  by_cases h1 : component = ['.']
  · rw [if_pos h1, if_pos h1]
  rw [if_neg h1, if_neg h1]
  by_cases h2 : component = ['.', '.']
  · rw [if_pos h2, if_pos h2]
    cases (T.findMountExact pos.resolved).filter (·.path != ['/']) <;> rfl
  rw [if_neg h2, if_neg h2]
  generalize (T.findMountExact (appendResolved pos.resolved component)).filter (·.root != pos.cur) = o
  cases o with
  | some m => rfl
  | none =>
    cases T.lookup pos.cur with
    | none => rfl
    | some look =>
      dsimp only
      cases look component with
      | none => rfl
      | some v =>
        dsimp only
        cases (T.vnode v).isLnk && (!isLast rest || follow) <;> rfl

def enter {α : Type} (path : Path) (taken : Nat) (f : Pos → Nat → Nat → Traced LookupEvent (Except Int α × Nat)) :
    Traced LookupEvent (Except Int α × Nat) :=
  match T.start path with
  | .error e => .ret (.error e, taken)
  | .ok pos => (f pos taken (taken + 1)).emit [.get taken pos.cur]

/-- The rest of a round of the loop, which goes on with `go`. `cur` is held by the reference `ref`, and `taken`
references were taken before. A link is not followed if `refuse` says so of the number of links followed in this
call. -/
def turn (refuse : Nat → Bool) (go : Bool → Pos → Nat → Nat → Traced LookupEvent LookupOut) (follow : Bool) (pos : Pos)
    (ref taken : Nat) (component rest : Path) : Round → Traced LookupEvent LookupOut
  | .dot => go follow { pos with rest := rest } ref taken
  | .out =>
    (T.enter (parentPath pos.resolved) taken (go true)).andThen fun out =>
      Traced.emit [.put ref] <|
        match out.1 with
        | .error e => .ret (.error e, out.2)
        | .ok (v, r) =>
          go follow { pos with rest := rest, cur := v, resolved := trimResolvedParent pos.resolved } r out.2
  | .up none =>
    (go follow { pos with rest := rest, resolved := trimResolvedParent pos.resolved } ref taken).emit [.use ref]
  | .up (some v) =>
    Traced.emit [.use ref, .get taken v, .put ref] <|
      go follow { pos with rest := rest, cur := v, resolved := trimResolvedParent pos.resolved } taken (taken + 1)
  | .mount root =>
    Traced.emit [.put ref, .get taken root] <|
      go follow { pos with rest := rest, cur := root, resolved := appendResolved pos.resolved component } taken
        (taken + 1)
  | .noLookup => (Traced.ret (.error (- EIO), taken)).emit [.use ref, .put ref]
  | .absent => (Traced.ret (.error (-ENOENT), taken)).emit [.use ref, .put ref]
  | .child v =>
    Traced.emit [.use ref, .get taken v, .put ref, .use taken] <|
      go follow { pos with rest := rest, cur := v, resolved := appendResolved pos.resolved component } taken (taken + 1)
  | .link v =>
    Traced.emit [.use ref, .get taken v, .put ref, .use taken] <|
      if refuse pos.depth then (Traced.ret (.error (-ELOOP), taken + 1)).emit [.link pos.depth none, .put taken]
      else
        Traced.emit [.link pos.depth (T.readlink v), .put taken] <|
          match T.nextLink
            { rest := rest, cur := pos.cur, resolved := appendResolved pos.resolved component, depth := 0 } v with
          | .fail e => .ret (.error e, taken + 1)
          | .link path => T.enter path (taken + 1) (go follow)
          -- the text of a relative link is not used, and `cur` was released already
          | .move _ | .parent _ _ =>
            go follow
              { rest := rest
                cur := pos.cur
                resolved := appendResolved pos.resolved component
                depth := pos.depth + 1 } ref (taken + 1)

def trail (refuse : Nat → Bool) : Nat → Bool → Pos → Nat → Nat → Traced LookupEvent LookupOut
  | 0, _, _, _, _ => .stuck
  | n + 1, follow, pos, ref, taken =>
    match pos.component with
    | none => .ret (.ok (pos.cur, ref), taken)
    | some (component, rest) =>
      if !(T.vnode pos.cur).isDir then (Traced.ret (.error (-ENOTDIR), taken)).emit [.use ref, .put ref]
      else
        (T.turn refuse (trail refuse n) follow pos ref taken component rest (T.round follow pos component rest)).emit
          [.use ref]

def tooDeep (depth : Nat) : Bool := decide (MAX_SYMLINK_DEPTH ≤ depth)

/-- `vfs_lookup` -/
def lookupTrail (refuse : Nat → Bool) (n : Nat) (path : Path) (follow : Bool) : Traced LookupEvent LookupOut :=
  T.enter path 0 (T.trail refuse n follow)

end Tree

/-! ### The lookup of `Tree.walk` -/

def LookupOut.res (out : LookupOut) : Except Int Ino := out.1.map Prod.fst

namespace Tree

variable {T : Tree} {follow : Bool}

theorem enter_walk {n : Nat} (path : Path) (taken : Nat)
    (ih : ∀ pos ref taken, (T.trail tooDeep n follow pos ref taken).out.map LookupOut.res =
      (T.walk (fun _ => true) n follow pos).res) :
    (T.enter path taken (T.trail tooDeep n follow)).out.map LookupOut.res =
      (Walk.startAt (T.start path) (T.walk (fun _ => true) n follow)).res := by
  unfold enter
  cases T.start path with
  | error e => rfl
  | ok pos => exact ih ..

theorem nextLink_depth {pos : Pos} {v : Ino} (hd : ¬ MAX_SYMLINK_DEPTH ≤ pos.depth) :
    T.nextLink pos v = match T.nextLink { pos with depth := 0 } v with
      | .fail e => .fail e
      | .link path => .link path
      | .move _ | .parent _ _ => .move { pos with depth := pos.depth + 1 } := by
  unfold nextLink
  rw [if_neg hd, if_neg (show ¬ 0 ≥ MAX_SYMLINK_DEPTH by decide)]
  cases T.readlink v with
  | none => rfl
  | some target =>
    dsimp only
    by_cases h1 : target.head? ≠ some '/'
    · rw [if_pos h1, if_pos h1]
    · split_ifs <;> rfl

theorem trail_cases {refuse : Nat → Bool} {P : Traced LookupEvent LookupOut → Prop} {n : Nat}
    {pos : Pos} {ref taken : Nat} (hend : pos.component = none → P (.ret (.ok (pos.cur, ref), taken)))
    (hfile : ∀ c, pos.component = some c → (T.vnode pos.cur).isDir = false →
      P ((Traced.ret (.error (-ENOTDIR), taken)).emit [.use ref, .put ref]))
    (hdir : ∀ component rest, pos.component = some (component, rest) → (T.vnode pos.cur).isDir →
      P ((T.turn refuse (T.trail refuse n) follow pos ref taken component rest
        (T.round follow pos component rest)).emit [.use ref])) :
    P (T.trail refuse (n + 1) follow pos ref taken) := by
  rw [trail]
  rcases hc : pos.component with _ | ⟨component, rest⟩
  · exact hend hc
  · rcases hd : (T.vnode pos.cur).isDir with _ | _
    · exact hfile _ hc hd
    · exact hdir component rest hc hd

theorem trail_walk (n : Nat) (follow : Bool) (pos : Pos) (ref taken : Nat) :
    (T.trail tooDeep n follow pos ref taken).out.map LookupOut.res = (T.walk (fun _ => true) n follow pos).res := by
  induction n generalizing follow pos ref taken with
  | zero => rfl
  | succ n ih =>
    refine trail_cases (P := fun w => w.out.map LookupOut.res = _) (fun hc => ?_) (fun c hc hd => ?_)
      fun component rest hc hd => ?_
    · rw [walk, hc]
      rfl
    · rw [walk, hc]
      simp only [hd, Bool.not_false]
      rfl
    · rw [walk, hc]
      simp only [hd, next_eq]
      cases T.round follow pos component rest with
      | dot => exact ih ..
      | out =>
        have hp := enter_walk (parentPath pos.resolved) taken (ih true)
        dsimp only
        rw [turn, Walk.andThen]
        rcases ho : (T.enter (parentPath pos.resolved) taken (T.trail tooDeep n true)).out with _ | ⟨_ | ⟨v, r⟩, k⟩
        · rw [Traced.andThen_none ho, ← hp, ho]
          rfl
        · rw [Traced.andThen_some ho, ← hp, ho]
          rfl
        · rw [Traced.andThen_some ho, ← hp, ho]
          exact ih ..
      | up parent =>
        cases parent with
        | none => exact ih ..
        | some v => exact ih ..
      | mount root => exact ih ..
      | noLookup => rfl
      | absent => rfl
      | child v => exact ih ..
      | link v =>
        rw [turn]
        dsimp only
        by_cases hdepth : MAX_SYMLINK_DEPTH ≤ pos.depth
        · rw [if_pos (show tooDeep pos.depth from decide_eq_true hdepth), nextLink, if_pos hdepth]
          rfl
        have hl := nextLink_depth (T := T) (v := v) (show ¬ MAX_SYMLINK_DEPTH ≤ (Pos.mk rest pos.cur
          (appendResolved pos.resolved component) pos.depth).depth from hdepth)
        rw [if_neg (show ¬ tooDeep pos.depth from fun h => hdepth (of_decide_eq_true h)), hl]
        cases T.nextLink _ v with
        | fail e => rfl
        | move p => exact ih ..
        | parent path p => exact ih ..
        | link path => exact enter_walk path (taken + 1) (ih follow)

theorem lookupTrail_walk (n : Nat) (path : Path) (follow : Bool) :
    (T.lookupTrail tooDeep n path follow).out.map LookupOut.res = (T.vfsLookup n path follow).res :=
  enter_walk path 0 fun pos ref taken => trail_walk n follow pos ref taken

section More

variable {refuse : Nat → Bool} {go go' : Bool → Pos → Nat → Nat → Traced LookupEvent LookupOut}

theorem enter_le (path : Path) (taken : Nat)
    (h : ∀ pos ref taken, (go follow pos ref taken).Le (go' follow pos ref taken)) :
    (T.enter path taken (go follow)).Le (T.enter path taken (go' follow)) := by
  unfold enter
  cases T.start path with
  | error e => exact .refl _
  | ok pos => exact (h ..).emit _

theorem turn_le (h : ∀ follow pos ref taken, (go follow pos ref taken).Le (go' follow pos ref taken)) (follow : Bool)
    (pos : Pos) (ref taken : Nat) (component rest : Path) (r : Round) :
    (T.turn refuse go follow pos ref taken component rest r).Le
      (T.turn refuse go' follow pos ref taken component rest r) := by
  cases r with
  | dot => exact h ..
  | out =>
    refine (enter_le _ _ (h true)).andThen fun out => .emit _ ?_
    rcases out.1 with _ | ⟨v, r⟩
    · exact .refl _
    · exact h ..
  | up parent =>
    cases parent with
    | none => exact (h ..).emit _
    | some v => exact (h ..).emit _
  | mount root | child v => exact (h ..).emit _
  | noLookup | absent => exact .refl _
  | link v =>
    refine .emit _ ?_
    split
    · exact .refl _
    refine .emit _ ?_
    split
    · exact .refl _
    · exact enter_le _ _ (h follow)
    · exact h ..
    · exact h ..

theorem trail_le {n m : Nat} (hnm : n ≤ m) (follow : Bool) (pos : Pos) (ref taken : Nat) :
    (T.trail refuse n follow pos ref taken).Le (T.trail refuse m follow pos ref taken) := by
  induction n generalizing m follow pos ref taken with
  | zero => exact .stuck _
  | succ n ih =>
    obtain ⟨m, rfl⟩ := Nat.exists_eq_add_of_le' (Nat.zero_lt_of_lt hnm)
    have hle := Nat.le_of_succ_le_succ hnm
    rw [trail, trail]
    rcases pos.component with _ | ⟨component, rest⟩
    · exact .refl _
    · dsimp only
      split
      · exact .refl _
      · exact (turn_le (fun follow pos ref taken => ih hle follow pos ref taken) ..).emit _

theorem lookupTrail_le {n m : Nat} (hnm : n ≤ m) (path : Path) (follow : Bool) :
    (T.lookupTrail refuse n path follow).Le (T.lookupTrail refuse m path follow) :=
  enter_le path 0 (trail_le hnm follow)

end More

end Tree

end ExoOS.Vfs
