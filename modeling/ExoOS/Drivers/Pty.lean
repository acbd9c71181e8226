import ExoOS.Lib.Run
import Mathlib.Data.List.FinRange

/-!
# Pseudo-terminals

The table of `drivers/pty.c`, the open hooks of `devfs.c` and `devpts.c` and the open files, each with the descriptors
that refer to it. A pointer to a pair carries the allocation it was made for, and a file the pair it was opened on;
the code has neither. Rings, settings and signals are left out.

An open hook leaves the operations of the terminal in `pending_f_ops`, but `do_open_abs` does not take them over
(`vfs_open` would, which nobody calls). So no file ever has them: no close releases a pair, and no task gets a
controlling terminal. The table is right (`Sound`) until the last file of a pair is closed.
-/

namespace ExoOS.Pty

open Option Transition List
open Function (update update_of_ne update_self)

abbrev PTY_MAX : Nat := 64

abbrev Slot := Fin PTY_MAX
abbrev TaskId := Nat
abbrev FileId := Nat

/-- `pty_pair_t`; `made` counts the allocations. -/
structure Pair where
  isOpen : Bool := false
  masterOpen : Bool := false
  slaveOpen : Nat := 0
  made : Nat := 0

inductive Side
  | master
  | slave

structure Handle where
  slot : Slot
  made : Nat

structure File where
  /-- `f_ops` and `private_data`, where they are those of a terminal. -/
  ops : Option (Side × Handle) := none
  /-- The pair that it was opened on. -/
  on : Option Slot := none
  /-- The tasks of its descriptors; their number is `refcount`. -/
  fds : List TaskId := []

structure State where
  table : Slot → Pair
  files : FileId → File
  next : FileId
  ctty : TaskId → Option Handle
  /-- The sessions of the tasks there are. -/
  sid : TaskId → Option Nat

inductive Dev
  | ptmx
  | pts (i : Slot)
  | tty

inductive Event
  | open (t : TaskId) (dev : Dev) (ok mem fd : Bool)
  | close (t : TaskId) (f : FileId)
  | tiocsctty (t : TaskId) (f : FileId)
  | fork (t u : TaskId)
  | exit (t : TaskId)

namespace State

variable (s : State) (t : TaskId) (f : FileId) (i : Slot)

def setPair (p : Pair) : State := { s with table := Function.update s.table i p }

def ptyAlloc : Option (Slot × State) :=
  ((finRange PTY_MAX).find? fun i => !(s.table i).isOpen).map fun i =>
    (i, s.setPair i { isOpen := true, masterOpen := true, slaveOpen := 0, made := (s.table i).made + 1 })

def ptyFree : State := s.setPair i { s.table i with isOpen := false }

def ptyGet : Option Pair := if (s.table i).isOpen then some (s.table i) else none

def handle : Handle := ⟨i, (s.table i).made⟩

/-- `devfs_open` and `devpts_open`, with what they leave in `pending_f_ops` and `pending_priv`; `none` is an error. -/
def openHook : Dev → Option (Option (Side × Handle) × State)
  | .ptmx => s.ptyAlloc.map fun (i, s) => (some (.master, s.handle i), s)
  | .pts i => (s.ptyGet i).map fun p =>
    (some (.slave, s.handle i), s.setPair i { p with slaveOpen := p.slaveOpen + 1 })
  | .tty => some ((s.ctty t).map fun h => (.slave, h), s)

/-- `do_open_abs`. `ok`: the device is found and may be opened; `mem` and `fd`: there is memory for the file, and a
descriptor. -/
def doOpenAbs (dev : Dev) (ok mem fd : Bool) : State :=
  if ok then
    match s.openHook t dev with
    | none => s
    | some (pending, s) =>
      -- a file that gets no descriptor goes again, and has no close operation
      if mem && fd then
        { s with
          files := Function.update s.files s.next { on := pending.map (·.2.slot), fds := [t] }
          next := s.next + 1 }
      else s
  else s

def ptyMasterClose : State :=
  let s := s.setPair i { s.table i with masterOpen := false }
  if (s.table i).slaveOpen = 0 then s.ptyFree i else s

def ptySlaveClose : State :=
  let s := s.setPair i { s.table i with slaveOpen := (s.table i).slaveOpen - 1 }
  if (s.table i).masterOpen then s else s.ptyFree i

/-- `f_ops->close`; the vnodes of these devices have none that does anything. -/
def closeOp : Option (Side × Handle) → State
  | none => s
  | some (.master, h) => s.ptyMasterClose h.slot
  | some (.slave, h) => s.ptySlaveClose h.slot

/-- The descriptors of a file become `fds`, by `file_put`. -/
def putFds (fds : List TaskId) : State :=
  let s' := { s with files := Function.update s.files f { s.files f with fds := fds } }
  if fds = [] ∧ (s.files f).fds ≠ [] then s'.closeOp (s.files f).ops else s'

/-- Other files get `tty_console_ioctl`. -/
def tiocsctty : State :=
  match (s.files f).ops with
  | none => s
  | some (_, h) => { s with ctty := fun u => if s.sid u = s.sid t then some h else s.ctty u }

/-- `fd_table_clone`; `task_alloc_common` leaves the child without a controlling terminal. -/
def fork (u : TaskId) : State :=
  { s with
    files := fun f => { s.files f with fds := (s.files f).fds ++ replicate ((s.files f).fds.count t) u }
    ctty := Function.update s.ctty u none
    sid := Function.update s.sid u (s.sid t) }

/-- `fd_close_all`, in `task_destroy`. -/
def exit : State :=
  let s := (range s.next).foldl (fun s f => s.putFds f ((s.files f).fds.filter (· ≠ t))) s
  { s with ctty := Function.update s.ctty t none, sid := Function.update s.sid t none }

end State

def step (s : State) : Event → Option State
  | .open t dev ok mem fd => if s.sid t = none then none else some (s.doOpenAbs t dev ok mem fd)
  | .close t f => if t ∈ (s.files f).fds then some (s.putFds f ((s.files f).fds.erase t)) else none
  | .tiocsctty t f => if t ∈ (s.files f).fds then some (s.tiocsctty t f) else none
  | .fork t u => if s.sid t = none ∨ s.sid u ≠ none then none else some (s.fork t u)
  | .exit t => if s.sid t = none then none else some (s.exit t)

def File.OpenOn (k : File) (i : Slot) : Prop := k.fds ≠ [] ∧ k.on = some i

/-- The pair is allocated, and still for the master that the pointer was made for. -/
def Handle.Current (h : Handle) (s : State) : Prop :=
  (s.table h.slot).isOpen ∧ (s.table h.slot).made = h.made

/-- A pair is allocated as long as a file is open on it, and no pointer to it is stale. -/
structure Sound (s : State) : Prop where
  allocated : ∀ i, (s.table i).isOpen ↔ ∃ f, (s.files f).OpenOn i
  files : ∀ f side h, (s.files f).fds ≠ [] → (s.files f).ops = some (side, h) → h.Current s
  ctty : ∀ t h, s.ctty t = some h → h.Current s

/-- An open of `/dev/ptmx` that takes a pair returns a descriptor, and the last file of a pair stays open. -/
def Kept (s : State) : Event → Prop
  | .open _ .ptmx ok mem fd => ok → (∃ i, ¬ (s.table i).isOpen) → mem ∧ fd
  | .close t f => ∀ i, (s.files f).OpenOn i → (s.files f).fds.erase t = [] → ∃ g ≠ f, (s.files g).OpenOn i
  | .exit t => ∀ f i, (s.files f).OpenOn i → ∃ g, (s.files g).OpenOn i ∧ ∃ u ∈ (s.files g).fds, u ≠ t
  | _ => True

def start (sid : TaskId → Option Nat) : State where
  table := fun _ => {}
  files := fun _ => {}
  next := 0
  ctty := fun _ => none
  sid := sid

/-- What holds besides: files have no operations of a terminal. -/
structure Inv (s : State) : Prop where
  allocated : ∀ i, (s.table i).isOpen ↔ ∃ f, (s.files f).OpenOn i
  ops : ∀ f, (s.files f).ops = none
  ctty : ∀ t, s.ctty t = none
  fresh : ∀ f, s.next ≤ f → (s.files f).fds = []

namespace Inv

variable {s s' : State} {t u : TaskId} {f : FileId} {i : Slot}

theorem sound (h : Inv s) : Sound s :=
  ⟨h.allocated, fun f _ _ _ hops => absurd hops (by rw [h.ops f]; nofun),
    fun t _ ht => absurd ht (by rw [h.ctty t]; nofun)⟩

/-- Descriptors come and go, but on every pair that had an open file there is one. -/
theorem of_fds {fds : FileId → List TaskId} {ctty : TaskId → Option Handle} (sid : TaskId → Option Nat) (h : Inv s)
    (hctty : ∀ t, ctty t = none) (hnil : ∀ f, (s.files f).fds = [] → fds f = [])
    (hkept : ∀ f i, (s.files f).OpenOn i → ∃ g, (s.files g).OpenOn i ∧ fds g ≠ []) :
    Inv { s with files := fun f => { s.files f with fds := fds f }, ctty := ctty, sid := sid } := by
  refine ⟨fun i => (h.allocated i).trans ⟨?_, ?_⟩, h.ops, hctty, fun f hf => hnil f (h.fresh f hf)⟩
  · rintro ⟨f, hf⟩
    obtain ⟨g, hg, hne⟩ := hkept f i hf
    exact ⟨g, hne, hg.2⟩
  · rintro ⟨f, hne, hon⟩
    exact ⟨f, fun hx => hne (hnil f hx), hon⟩

theorem setPair {p : Pair} (h : Inv s) (hp : p.isOpen = (s.table i).isOpen) : Inv (s.setPair i p) := by
  refine ⟨fun j => Iff.trans ?_ (h.allocated j), h.ops, h.ctty, h.fresh⟩
  dsimp only [State.setPair]
  by_cases hj : j = i
  · rw [hj, update_self, hp]
  · rw [update_of_ne hj]

theorem addFile {table : Slot → Pair} {on : Option Slot} (h : Inv s) (hon : ∀ i, on = some i → (table i).isOpen)
    (hold : ∀ i, on ≠ some i → (table i).isOpen = (s.table i).isOpen) :
    Inv { s with
      table := table, files := update s.files s.next { on := on, fds := [t] }, next := s.next + 1 } := by
  have hnew := h.fresh s.next le_rfl
  refine ⟨fun i => ⟨fun hi => ?_, ?_⟩, fun f => ?_, h.ctty, fun f hf => ?_⟩ <;> dsimp only at *
  · by_cases ho : on = some i
    · refine ⟨s.next, ?_⟩
      rw [update_self]
      exact ⟨nofun, ho⟩
    · rw [hold i ho] at hi
      obtain ⟨f, hf⟩ := (h.allocated i).1 hi
      refine ⟨f, ?_⟩
      rwa [update_of_ne (by rintro rfl; exact hf.1 hnew)]
  · rintro ⟨f, hf⟩
    by_cases ho : on = some i
    · exact hon i ho
    rw [hold i ho, h.allocated i]
    refine ⟨f, ?_⟩
    rwa [update_of_ne] at hf
    rintro rfl
    rw [update_self] at hf
    exact ho hf.2
  · by_cases hf : f = s.next
    · rw [hf, update_self]
    · rw [update_of_ne hf]
      exact h.ops f
  · rw [update_of_ne (Nat.ne_of_gt hf)]
    exact h.fresh f (Nat.le_of_lt hf)

theorem doOpenAbs {dev : Dev} {ok mem fd : Bool} (h : Inv s) (hk : Kept s (.open t dev ok mem fd)) :
    Inv (s.doOpenAbs t dev ok mem fd) := by
  unfold State.doOpenAbs
  split
  swap
  · exact h
  rename_i hok
  cases dev with
  | ptmx =>
    rcases hi : (finRange PTY_MAX).find? fun i => !(s.table i).isOpen with _ | i
    · simp only [State.openHook, State.ptyAlloc, hi]
      exact h
    obtain ⟨rfl, rfl⟩ := hk hok ⟨i, by simpa using find?_some hi⟩
    simp only [State.openHook, State.ptyAlloc, State.setPair, hi, map_some, Bool.and_self]
    refine h.addFile (fun j hj => ?_) (fun j hj => ?_)
    · obtain rfl : i = j := some.inj hj
      rw [update_self]
    · rw [update_of_ne (by rintro rfl; exact hj rfl)]
  | pts i =>
    by_cases hi : (s.table i).isOpen
    · have h1 := h.setPair (p := { s.table i with slaveOpen := (s.table i).slaveOpen + 1 }) rfl
      simp only [State.openHook, State.ptyGet, if_pos hi, map_some]
      split
      · refine h1.addFile (fun j hj => ?_) fun _ _ => rfl
        obtain rfl : i = j := some.inj hj
        exact (congrArg Pair.isOpen (update_self i _ s.table)).trans hi
      · exact h1
    · simp only [State.openHook, State.ptyGet, if_neg hi]
      exact h
  | tty =>
    simp only [State.openHook, h.ctty t]
    split
    · exact h.addFile nofun fun _ _ => rfl
    · exact h

end Inv

theorem no_ctty {c : TaskId → Option Handle} (h : ∀ t, c t = none) (u t : TaskId) : update c u none t = none := by
  by_cases ht : t = u
  · rw [ht, update_self]
  · rw [update_of_ne ht, h t]

section Descriptors

variable {s : State} {t : TaskId}

theorem putFds_eq (hops : ∀ f, (s.files f).ops = none) (f : FileId) (fds : List TaskId) : s.putFds f fds =
    { s with files := fun g => { s.files g with fds := update (fun g => (s.files g).fds) f fds g } } := by
  have hfiles : update s.files f { s.files f with fds := fds } =
      fun g => { s.files g with fds := update (fun g => (s.files g).fds) f fds g } := by
    funext g
    by_cases hg : g = f
    · rw [hg, update_self, update_self]
    · rw [update_of_ne hg, update_of_ne hg]
  unfold State.putFds
  rw [hops f, hfiles]
  exact ite_self _

theorem foldl_putFds (hops : ∀ f, (s.files f).ops = none) (l : List FileId) :
    l.foldl (fun s f => s.putFds f ((s.files f).fds.filter (· ≠ t))) s = { s with files := fun f => { s.files f with
          fds := if f ∈ l then (s.files f).fds.filter (· ≠ t) else (s.files f).fds } } := by
  induction l generalizing s with
  | nil => simp
  | cons f l ih =>
    rw [List.foldl_cons, putFds_eq hops, ih]
    swap
    · exact hops
    congr 1
    funext g
    by_cases hg : g = f
    · subst hg
      simp [List.filter_filter]
    · simp [hg]

end Descriptors

theorem Inv.step {s s' : State} {e : Event} (h : Inv s) (hk : Kept s e) (hs : step s e = some s') : Inv s' := by
  cases e with
  | «open» t dev ok mem fd =>
    obtain ⟨-, ⟨⟩⟩ := ite_none_left_eq_some.1 hs
    exact h.doOpenAbs hk
  | close t f =>
    rw [Pty.step, putFds_eq h.ops] at hs
    split at hs
    swap
    · cases hs
    cases hs
    refine h.of_fds s.sid h.ctty (fun g hg => ?_) (fun g i hg => ?_)
    · by_cases hgf : g = f
      · subst hgf
        rw [update_self, hg]
        rfl
      · rwa [update_of_ne hgf]
    · by_cases hgf : g = f
      · subst hgf
        by_cases hlast : (s.files g).fds.erase t = []
        · obtain ⟨g', hne, hg'⟩ := hk i hg hlast
          exact ⟨g', hg', by rw [update_of_ne hne]; exact hg'.1⟩
        · exact ⟨g, hg, by rwa [update_self]⟩
      · exact ⟨g, hg, by rw [update_of_ne hgf]; exact hg.1⟩
  | tiocsctty t f =>
    rw [Pty.step, State.tiocsctty, h.ops f] at hs
    split at hs
    · cases hs
      exact h
    · cases hs
  | fork t u =>
    obtain ⟨-, ⟨⟩⟩ := ite_none_left_eq_some.1 hs
    refine h.of_fds _ (no_ctty h.ctty u) (fun f hf => ?_) (fun f i hf => ⟨f, hf, fun hx => ?_⟩)
    · rw [hf]
      rfl
    · exact hf.1 (append_eq_nil_iff.1 hx).1
  | exit t =>
    rw [Pty.step, State.exit, foldl_putFds h.ops] at hs
    obtain ⟨-, ⟨⟩⟩ := ite_none_left_eq_some.1 hs
    refine h.of_fds _ (no_ctty h.ctty t) (fun f hf => ?_) (fun f i hf => ?_)
    · rw [hf]
      exact ite_self _
    · obtain ⟨g, hg, u, hu, hne⟩ := hk f i hf
      refine ⟨g, hg, ne_nil_of_mem (a := u) ?_⟩
      split
      · exact mem_filter.2 ⟨hu, by simpa using hne⟩
      · exact hu

theorem pty_lifetime {sid : TaskId → Option Nat} {s : State} {es : List Event} (h : Run step Kept (start sid) es s) :
    Sound s := by
  have h0 : Inv (start sid) := by
    refine ⟨fun i => iff_of_false nofun ?_, fun _ => rfl, fun _ => rfl, fun _ _ => rfl⟩
    rintro ⟨f, hf⟩
    exact hf.1 rfl
  exact (h.inv (fun _ _ _ hI hk hs => Inv.step hI hk hs) h0).sound

/-- The master is closed while the slave is open. -/
theorem pty_lifetime_slave : ∃ s, (Run step Kept (start fun _ => some 0)
    [.open 0 .ptmx true true true, .open 0 (.pts 0) true true true, .close 0 0] s ∧ (s.table 0).isOpen) ∧ Sound s := by
  refine Exists.imp (fun s h => ⟨h, pty_lifetime h.1⟩) ⟨_, .cons (fun _ _ => ⟨rfl, rfl⟩) rfl
    (.cons trivial rfl (.cons ?_ rfl (.nil _))), rfl⟩
  intro i hi _
  exact ⟨1, by decide, nofun, hi.2⟩

theorem pty_leaked : ∃ s, Run step Any (start fun _ => some 0) [.open 0 .ptmx true true true, .close 0 0] s ∧
    (s.table 0).isOpen ∧ (∀ f, (s.files f).fds = []) ∧ ¬ Sound s := by
  have hclosed : ∀ f, ((((start fun _ => some 0).doOpenAbs 0 .ptmx true true true).putFds 0 []).files f).fds = [] := by
    rintro (_ | f) <;> rfl
  refine ⟨_, .cons trivial rfl (.cons trivial rfl (.nil _)), rfl, hclosed, fun h => ?_⟩
  obtain ⟨f, hne, -⟩ := (h.allocated 0).1 rfl
  exact hne (hclosed f)

end ExoOS.Pty
