import ExoOS.Ipc.Blocking
import ExoOS.Lib.CountedRing

/-!
# Pipes as byte streams

One pipe with its ring buffer, and any number of tasks that read, write and close it. A step is a region under the
pipe's lock, or a change of a descriptor table. A task that waits on a queue may take its next round at any time, so
that every order in which tasks are woken is covered; `O_NONBLOCK` is looked at in every round and may change.

`inserted` and `removed` record the bytes in the order in which they enter and leave the ring, `mine` those that the
task's last call of `pipe_write_op` has inserted.
-/

namespace ExoOS.PipeStream

open Function List

open Blocking (Byte PIPE_BUF_SIZE EAGAIN EPIPE)
open Transition

inductive End
  | read
  | write
  deriving DecidableEq

inductive Op
  | idle
  | read (count : Nat)
  | writeOpen (buf : List Byte)
  | write (buf : List Byte) (total : Nat)
  /-- `pipe_close_read` or `pipe_close_write`, called by the last `file_put`. -/
  | close (e : End)
  /-- The rest of it, after the lock has been released. -/
  | closed (shouldFree : Bool)
  deriving DecidableEq

inductive Result
  | none
  | read (bs : List Byte)
  | wrote (buf : List Byte) (r : Int)
  | failed (r : Int)

structure State (τ : Type) where
  ring : CountedRing Byte PIPE_BUF_SIZE
  /-- `readers` and `writers`. -/
  ends : End → Nat
  /-- The descriptors that refer to the end, by their task; their number is the file's `refcount`. -/
  fds : End → List τ
  op : τ → Op
  ret : τ → Result
  /-- Calls of `kfree` for the pipe. -/
  frees : Nat
  inserted : List Byte
  removed : List Byte
  mine : τ → List Byte

inductive Event (τ : Type)
  | read (t : τ) (count : Nat)
  | write (t : τ) (buf : List Byte)
  /-- A further descriptor, by `dup` or for a child. -/
  | get (t u : τ) (e : End)
  | put (t : τ) (e : End)
  /-- The next region of the task's call. -/
  | run (t : τ) (nonblock : Bool)

variable {τ : Type} [DecidableEq τ]

/-- After `sys_pipe2` of the task `t`. -/
def State.opened (t : τ) (buf : Nat → Byte) : State τ :=
  { ring := .empty buf (by decide), ends := fun _ => 1, fds := fun _ => [t], op := fun _ => .idle
    ret := fun _ => .none, frees := 0, inserted := [], removed := [], mine := fun _ => [] }

namespace State

variable (s : State τ) (t : τ)

def setOp (o : Op) : State τ := { s with op := update s.op t o }

def done (r : Result) : State τ := { s.setOp t .idle with ret := update s.ret t r }

def readStep (count : Nat) (nonblock : Bool) : State τ :=
  if 0 < s.ring.count then
    let r := s.ring.popN (if s.ring.count > count then count else s.ring.count)
    { s with ring := r.2, removed := s.removed ++ r.1 }.done t (.read r.1)
  else if s.ends .write = 0 then s.done t (.read [])
  else if nonblock then s.done t (.failed (-EAGAIN))
  else s

def writeOpenStep (buf : List Byte) : State τ :=
  if s.ends .read = 0 then s.done t (.wrote buf (-EPIPE)) else s.setOp t (.write buf 0)

def insert (ring : CountedRing Byte PIPE_BUF_SIZE) (bs : List Byte) : State τ :=
  { s with ring := ring, inserted := s.inserted ++ bs, mine := update s.mine t (s.mine t ++ bs) }

def writeStep (buf : List Byte) (total : Nat) (nonblock : Bool) : State τ :=
  if ¬ total < buf.length then s.done t (.wrote buf total)
  else if s.ends .read = 0 then s.done t (.wrote buf (if 0 < total then total else -EPIPE))
  else
    let r := s.ring.pushAll (buf.drop total)
    let n := (buf.drop total).length - r.2.length
    let s := s.insert t r.1 ((buf.drop total).take n)
    if total + n < buf.length ∧ nonblock then
      s.done t (.wrote buf (if 0 < total + n then (total + n : Nat) else -EAGAIN))
    else s.setOp t (.write buf (total + n))

def closeStep (e : End) : State τ :=
  let s := { s with ends := update s.ends e (s.ends e - 1) }
  s.setOp t (.closed (decide (s.ends .read = 0 ∧ s.ends .write = 0)))

def closedStep (shouldFree : Bool) : State τ :=
  { s with frees := if shouldFree then s.frees + 1 else s.frees }.setOp t .idle

def put (e : End) : State τ :=
  let fds := (s.fds e).erase t
  let s := { s with fds := update s.fds e fds }
  if fds = [] then s.setOp t (.close e) else s

/-- A task that is not in a call makes one; it makes calls only for ends it has a descriptor of. -/
def step : Event τ → Option (State τ)
  | .read t count => if s.op t = .idle ∧ t ∈ s.fds .read then some (s.setOp t (.read count)) else none
  | .write t buf =>
    if s.op t = .idle ∧ t ∈ s.fds .write then
      let s := { s with mine := update s.mine t [], ret := update s.ret t .none }
      some (s.setOp t (.writeOpen buf))
    else none
  | .get t u e =>
    if s.op t = .idle ∧ t ∈ s.fds e then some { s with fds := update s.fds e (u :: s.fds e) } else none
  | .put t e => if s.op t = .idle ∧ t ∈ s.fds e then some (s.put t e) else none
  | .run t nonblock =>
    match s.op t with
    | .idle => none
    | .read count => some (s.readStep t count nonblock)
    | .writeOpen buf => some (s.writeOpenStep t buf)
    | .write buf total => some (s.writeStep t buf total nonblock)
    | .close e => some (s.closeStep t e)
    | .closed shouldFree => some (s.closedStep t shouldFree)

end State

def Nowhere (op : τ → Op) (o : Op) : Prop := ∀ t, op t ≠ o

def Once (op : τ → Op) (o : Op) : Prop := ∃ t, op t = o ∧ ∀ u, op u = o → u = t

section

variable {op : τ → Op} {o o' : Op} {t : τ}

theorem Nowhere.setOp (h : Nowhere op o) (ho : o' ≠ o) : Nowhere (update op t o') o :=
  (forall_update_iff op fun _ x => x ≠ o).2 ⟨ho, fun u _ => h u⟩

theorem Once.setOp (h : Once op o) (ht : op t ≠ o) (ho : o' ≠ o) : Once (update op t o') o := by
  obtain ⟨v, hv, huniq⟩ := h
  have hvt : v ≠ t := by rintro rfl; exact ht hv
  refine ⟨v, by rw [update_of_ne hvt]; exact hv, ?_⟩
  exact (forall_update_iff op fun u x => x = o → u = v).2 ⟨fun hu => absurd hu ho, fun u _ => huniq u⟩

theorem Nowhere.enter (h : Nowhere op o) (t : τ) : Once (update op t o) o := by
  refine ⟨t, update_self .., ?_⟩
  exact (forall_update_iff op fun u x => x = o → u = t).2 ⟨fun _ => rfl, fun u _ hu => absurd hu (h u)⟩

theorem Once.leave (h : Once op o) (ht : op t = o) (ho : o' ≠ o) : Nowhere (update op t o') o := by
  obtain ⟨v, hv, huniq⟩ := h
  refine (forall_update_iff op fun _ x => x ≠ o).2 ⟨ho, fun u hut hu => ?_⟩
  exact hut ((huniq u hu).trans (huniq t ht).symm)

end

def EndOk (op : τ → Op) (e : End) (fds : List τ) (count : Nat) : Prop :=
  (fds ≠ [] ∧ count = 1 ∧ Nowhere op (.close e)) ∨ (fds = [] ∧ count = 1 ∧ Once op (.close e)) ∨
    (fds = [] ∧ count = 0 ∧ Nowhere op (.close e))

/-- The pipe is in use; or both ends are closed and one task is about to free it, or it has been freed. -/
def FreedOk (op : τ → Op) (ends : End → Nat) (frees : Nat) : Prop :=
  (¬ (ends .read = 0 ∧ ends .write = 0) ∧ frees = 0 ∧ Nowhere op (.closed true)) ∨
    ((ends .read = 0 ∧ ends .write = 0) ∧
      ((frees = 0 ∧ Once op (.closed true)) ∨ (frees = 1 ∧ Nowhere op (.closed true))))

variable {e : End}

section

variable {op : τ → Op} {o : Op} {t : τ}

theorem EndOk.setOp {fds : List τ} {n : Nat} (h : EndOk op e fds n) (ht : op t ≠ .close e)
    (ho : o ≠ .close e) : EndOk (update op t o) e fds n := by
  rcases h with ⟨h1, h2, h3⟩ | ⟨h1, h2, h3⟩ | ⟨h1, h2, h3⟩
  · exact .inl ⟨h1, h2, h3.setOp ho⟩
  · exact .inr (.inl ⟨h1, h2, h3.setOp ht ho⟩)
  · exact .inr (.inr ⟨h1, h2, h3.setOp ho⟩)

theorem FreedOk.setOp {ends : End → Nat} {n : Nat} (h : FreedOk op ends n) (ht : op t ≠ .closed true)
    (ho : o ≠ .closed true) : FreedOk (update op t o) ends n := by
  rcases h with ⟨h1, h2, h3⟩ | ⟨h1, ⟨h2, h3⟩ | ⟨h2, h3⟩⟩
  · exact .inl ⟨h1, h2, h3.setOp ho⟩
  · exact .inr ⟨h1, .inl ⟨h2, h3.setOp ht ho⟩⟩
  · exact .inr ⟨h1, .inr ⟨h2, h3.setOp ho⟩⟩

end

def Op.uses : Op → Option End
  | .read _ => some .read
  | .writeOpen _ | .write _ _ => some .write
  | .idle | .close _ | .closed _ => none

/-- What a call of `pipe_write_op` has inserted is what it counts, and what it reports in the end. -/
def Counted (o : Op) (ret : Result) (mine : List Byte) : Prop :=
  match o with
  | .writeOpen _ => mine = []
  | .write buf total => total ≤ buf.length ∧ mine = buf.take total
  | .idle | .read _ | .close _ | .closed _ => ∀ buf r, ret = .wrote buf r → mine = buf.take r.toNat

structure Inv (s : State τ) : Prop where
  stream : s.inserted = s.removed ++ s.ring.contents
  ends : ∀ e, EndOk s.op e (s.fds e) (s.ends e)
  freed : FreedOk s.op s.ends s.frees
  uses : ∀ t e, (s.op t).uses = some e → t ∈ s.fds e
  counted : ∀ t, Counted (s.op t) (s.ret t) (s.mine t)

variable {s s' : State τ} {t : τ}

omit [DecidableEq τ] in
theorem inv_opened (t : τ) (buf : Nat → Byte) : Inv (State.opened t buf) where
  stream := rfl
  ends _ := .inl ⟨cons_ne_nil t [], rfl, fun _ => nofun⟩
  freed := .inl ⟨fun h => absurd h.1 Nat.one_ne_zero, rfl, fun _ => nofun⟩
  uses _ _ := nofun
  counted _ _ _ := nofun

def Op.Quiet (o : Op) : Prop := (∀ e, o ≠ .close e) ∧ o ≠ .closed true

namespace Inv

section

variable (h : Inv s)
include h

theorem move (hq : (s.op t).Quiet) (ring : CountedRing Byte PIPE_BUF_SIZE) (ins rem : List Byte) (o : Op)
    (r : Result) (m : List Byte) (ho : o = .idle ∨ ∃ e, o.uses = some e ∧ t ∈ s.fds e)
    (hstream : ins = rem ++ ring.contents) (hcounted : Counted o r m) :
    Inv { s with
      ring := ring, inserted := ins, removed := rem, op := update s.op t o
      ret := update s.ret t r, mine := update s.mine t m } := by
  have hq' : o.Quiet := by
    rcases ho with rfl | ⟨e, he, -⟩
    · exact ⟨fun _ => nofun, nofun⟩
    · constructor
      · rintro _ rfl
        cases he
      · rintro rfl
        cases he
  refine ⟨hstream, fun e => (h.ends e).setOp (hq.1 e) (hq'.1 e), h.freed.setOp hq.2 hq'.2,
    (forall_update_iff s.op fun u x => ∀ e, x.uses = some e → u ∈ s.fds e).2 ⟨fun e he => ?_, fun u _ => h.uses u⟩,
    fun u => ?_⟩
  · rcases ho with rfl | ⟨e', he', ht⟩
    · cases he
    · cases he'.symm.trans he
      exact ht
  · by_cases hut : u = t
    · subst hut
      simpa using hcounted
    · simpa [hut] using h.counted u

theorem done (hq : (s.op t).Quiet) {r : Result}
    (hr : ∀ buf n, r = .wrote buf n → s.mine t = buf.take n.toNat) : Inv (s.done t r) := by
  have := h.move hq _ _ _ .idle r (s.mine t) (.inl rfl) h.stream hr
  rwa [update_eq_self] at this

theorem setOp (hq : (s.op t).Quiet) {o : Op} (he : o.uses = some e) (ht : t ∈ s.fds e)
    (hcounted : Counted o (s.ret t) (s.mine t)) : Inv (s.setOp t o) := by
  have := h.move hq _ _ _ o (s.ret t) (s.mine t) (.inr ⟨e, he, ht⟩) h.stream hcounted
  rwa [update_eq_self, update_eq_self] at this

theorem readStep {count : Nat} {nonblock : Bool} (ho : s.op t = .read count) : Inv (s.readStep t count nonblock) := by
  have hq : (s.op t).Quiet := by rw [ho]; exact ⟨fun _ => nofun, nofun⟩
  have hc := h.counted t
  unfold State.readStep
  split
  · generalize (if s.ring.count > count then count else s.ring.count) = k
    obtain ⟨h1, h2⟩ := s.ring.popN_eq k
    have hstream : s.inserted = s.removed ++ (s.ring.popN k).1 ++ (s.ring.popN k).2.contents := by
      rw [h1, h2, append_assoc, take_append_drop]
      exact h.stream
    have := h.move hq _ _ _ .idle (.read (s.ring.popN k).1) (s.mine t) (.inl rfl) hstream fun _ _ => nofun
    rwa [update_eq_self] at this
  · split
    · exact h.done hq nofun
    · split
      · exact h.done hq nofun
      · exact h

theorem writeOpenStep {buf : List Byte} (ho : s.op t = .writeOpen buf) : Inv (s.writeOpenStep t buf) := by
  have hq : (s.op t).Quiet := by rw [ho]; exact ⟨fun _ => nofun, nofun⟩
  have hc := h.counted t
  rw [ho] at hc
  have hu := h.uses t .write (by rw [ho]; rfl)
  unfold State.writeOpenStep
  split
  · refine h.done hq fun buf' n hn => ?_
    cases hn
    exact hc
  · exact h.setOp hq rfl hu ⟨Nat.zero_le _, hc⟩

theorem writeStep {buf : List Byte} {total : Nat} {nonblock : Bool} (ho : s.op t = .write buf total) :
    Inv (s.writeStep t buf total nonblock) := by
  have hq : (s.op t).Quiet := by rw [ho]; exact ⟨fun _ => nofun, nofun⟩
  have hc := h.counted t
  rw [ho] at hc
  obtain ⟨hle, hmine⟩ := hc
  have hu := h.uses t .write (by rw [ho]; rfl)
  unfold State.writeStep
  split
  · refine h.done hq fun buf' n hn => ?_
    cases hn
    exact hmine
  split
  · refine h.done hq fun buf' n hn => ?_
    cases hn
    split
    · exact hmine
    · rename_i hz
      rw [hmine, Nat.eq_zero_of_not_pos hz]
      rfl
  · dsimp only
    have h1 := s.ring.contents_pushAll (buf.drop total)
    have hlen : (buf.drop total).length - (s.ring.pushAll (buf.drop total)).2.length ≤ buf.length - total :=
      (Nat.sub_le ..).trans length_drop.le
    generalize (buf.drop total).length - (s.ring.pushAll (buf.drop total)).2.length = n at *
    generalize (s.ring.pushAll (buf.drop total)).1 = ring at *
    have hstream : s.inserted ++ (buf.drop total).take n = s.removed ++ ring.contents := by
      rw [h1, ← append_assoc, ← h.stream]
    have hall : s.mine t ++ (buf.drop total).take n = buf.take (total + n) := by
      rw [hmine, take_add]
    split
    · refine h.move hq _ _ _ .idle _ _ (.inl rfl) hstream ?_
      intro buf' k hk
      cases hk
      rw [hall]
      split
      · rfl
      · rename_i hz
        rw [Nat.eq_zero_of_not_pos hz]
        rfl
    · have := h.move hq _ _ _ (.write buf (total + n)) (s.ret t) _ (.inr ⟨_, rfl, hu⟩) hstream ⟨by omega, hall⟩
      rwa [update_eq_self] at this

theorem uses_counted {o : Op} (hu : o.uses = none) (hc : Counted o (s.ret t) (s.mine t)) :
    (∀ u e, (update s.op t o u).uses = some e → u ≠ t ∧ u ∈ s.fds e) ∧
      ∀ u, Counted (update s.op t o u) (s.ret u) (s.mine u) := by
  constructor
  · refine (forall_update_iff s.op fun u x => ∀ e, x.uses = some e → u ≠ t ∧ u ∈ s.fds e).2
      ⟨fun e he => ?_, fun u hut e he => ⟨hut, h.uses u e he⟩⟩
    rw [hu] at he
    cases he
  · exact (forall_update_iff s.op fun u x => Counted x (s.ret u) (s.mine u)).2 ⟨hc, fun u _ => h.counted u⟩

end

omit [DecidableEq τ] in
theorem closing (h : Inv s) (ho : s.op t = .close e) : s.fds e = [] ∧ s.ends e = 1 ∧ Once s.op (.close e) := by
  rcases h.ends e with ⟨-, -, hn⟩ | ⟨h1, h2, h3⟩ | ⟨-, -, hn⟩
  · exact absurd ho (hn t)
  · exact ⟨h1, h2, h3⟩
  · exact absurd ho (hn t)

theorem closeStep (h : Inv s) (ho : s.op t = .close e) : Inv (s.closeStep t e) := by
  obtain ⟨hfds, hone, honce⟩ := h.closing ho
  have hc := h.counted t
  rw [ho] at hc
  -- the end was open, so nobody is about to free the pipe
  obtain ⟨hfrees, hnow⟩ : s.frees = 0 ∧ Nowhere s.op (.closed true) := by
    rcases h.freed with ⟨-, h2, h3⟩ | ⟨hz, -⟩
    · exact ⟨h2, h3⟩
    · cases e with
      | read | write => omega
  obtain ⟨huses, hcounted⟩ := h.uses_counted (o := .closed (decide
    (update s.ends e (s.ends e - 1) .read = 0 ∧ update s.ends e (s.ends e - 1) .write = 0))) rfl hc
  refine ⟨h.stream, (forall_update_iff s.ends fun e' => EndOk _ e' (s.fds e')).2
    ⟨.inr (.inr ⟨hfds, by rw [hone], honce.leave ho nofun⟩), fun e' he => (h.ends e').setOp ?_ nofun⟩, ?_, ?_, hcounted⟩
  · rw [ho]
    rintro ⟨rfl⟩
    exact he rfl
  · by_cases hz : update s.ends e (s.ends e - 1) .read = 0 ∧ update s.ends e (s.ends e - 1) .write = 0
    · refine .inr ⟨hz, .inl ⟨hfrees, ?_⟩⟩
      show Once (update s.op t (.closed (decide _))) _
      rw [decide_eq_true hz]
      exact hnow.enter t
    · refine .inl ⟨hz, hfrees, ?_⟩
      show Nowhere (update s.op t (.closed (decide _))) _
      rw [decide_eq_false hz]
      exact hnow.setOp nofun
  · exact fun u e' he => (huses u e' he).2

theorem closedStep (h : Inv s) {f : Bool} (ho : s.op t = .closed f) : Inv (s.closedStep t f) := by
  have hc := h.counted t
  rw [ho] at hc
  obtain ⟨huses, hcounted⟩ := h.uses_counted (o := .idle) rfl hc
  refine ⟨h.stream, fun e => (h.ends e).setOp (by rw [ho]; nofun) nofun, ?_, fun u e he => (huses u e he).2, hcounted⟩
  cases f with
  | false => exact h.freed.setOp (by rw [ho]; nofun) nofun
  | true =>
    rcases h.freed with ⟨h1, h2, h3⟩ | ⟨h1, ⟨h2, h3⟩ | ⟨h2, h3⟩⟩
    · exact absurd ho (h3 t)
    · exact .inr ⟨h1, .inr ⟨congrArg (· + 1) h2, h3.leave ho nofun⟩⟩
    · exact absurd ho (h3 t)

omit [DecidableEq τ] in
theorem opened (h : Inv s) (ht : t ∈ s.fds e) : s.ends e = 1 ∧ Nowhere s.op (.close e) := by
  have hne : s.fds e ≠ [] := ne_nil_of_mem ht
  rcases h.ends e with ⟨-, h2, h3⟩ | ⟨h1, -⟩ | ⟨h1, -⟩
  · exact ⟨h2, h3⟩
  · exact absurd h1 hne
  · exact absurd h1 hne

omit [DecidableEq τ] in
theorem get (h : Inv s) {u : τ} (ht : t ∈ s.fds e) : Inv { s with fds := update s.fds e (u :: s.fds e) } := by
  refine ⟨h.stream, (forall_update_iff s.fds fun e' l => EndOk s.op e' l (s.ends e')).2
    ⟨.inl ⟨cons_ne_nil _ _, h.opened ht⟩, fun e' _ => h.ends e'⟩, h.freed, fun v => ?_, h.counted⟩
  exact (forall_update_iff s.fds fun e' l => (s.op v).uses = some e' → v ∈ l).2
    ⟨fun hv => mem_cons_of_mem _ (h.uses v e hv), fun e' _ => h.uses v e'⟩

theorem put (h : Inv s) (ho : s.op t = .idle) (ht : t ∈ s.fds e) : Inv (s.put t e) := by
  have hc := h.counted t
  rw [ho] at hc
  obtain ⟨hone, hnow⟩ := h.opened ht
  -- the other tasks keep their descriptors
  have hkeep : ∀ u ≠ t, ∀ e', u ∈ s.fds e' → u ∈ update s.fds e ((s.fds e).erase t) e' := fun u hut =>
    (forall_update_iff s.fds fun e' l => u ∈ s.fds e' → u ∈ l).2 ⟨(mem_erase_of_ne hut).2, fun _ _ => id⟩
  unfold State.put
  dsimp only
  split
  · rename_i hnil
    obtain ⟨huses, hcounted⟩ := h.uses_counted (o := .close e) rfl hc
    refine ⟨h.stream, (forall_update_iff s.fds fun e' l => EndOk _ e' l (s.ends e')).2
      ⟨.inr (.inl ⟨hnil, hone, hnow.enter t⟩), fun e' he => (h.ends e').setOp (by rw [ho]; nofun) ?_⟩,
      h.freed.setOp (by rw [ho]; nofun) nofun, fun u e' hu => hkeep u (huses u e' hu).1 e' (huses u e' hu).2, hcounted⟩
    rintro ⟨rfl⟩
    exact he rfl
  · rename_i hnil
    refine ⟨h.stream, (forall_update_iff s.fds fun e' l => EndOk s.op e' l (s.ends e')).2
      ⟨.inl ⟨hnil, hone, hnow⟩, fun e' _ => h.ends e'⟩, h.freed, fun u e' hu => hkeep u ?_ e' (h.uses u e' hu),
      h.counted⟩
    rintro rfl
    rw [ho] at hu
    cases hu

theorem step (h : Inv s) {ev : Event τ} (hs : s.step ev = some s') : Inv s' := by
  cases ev with
  | read t count =>
    obtain ⟨⟨ho, ht⟩, hs⟩ := Option.ite_none_right_eq_some.1 hs
    cases hs
    have hc := h.counted t
    rw [ho] at hc
    exact h.setOp (by rw [ho]; exact ⟨fun _ => nofun, nofun⟩) rfl ht hc
  | write t buf =>
    obtain ⟨⟨ho, ht⟩, hs⟩ := Option.ite_none_right_eq_some.1 hs
    cases hs
    exact h.move (by rw [ho]; exact ⟨fun _ => nofun, nofun⟩) _ _ _ (.writeOpen buf) .none [] (.inr ⟨_, rfl, ht⟩)
      h.stream rfl
  | get t u e =>
    obtain ⟨⟨-, ht⟩, hs⟩ := Option.ite_none_right_eq_some.1 hs
    cases hs
    exact h.get ht
  | put t e =>
    obtain ⟨⟨ho, ht⟩, hs⟩ := Option.ite_none_right_eq_some.1 hs
    cases hs
    exact h.put ho ht
  | run t nonblock =>
    unfold State.step at hs
    dsimp only at hs
    split at hs
    · cases hs
    · cases hs; exact h.readStep ‹_›
    · cases hs; exact h.writeOpenStep ‹_›
    · cases hs; exact h.writeStep ‹_›
    · cases hs; exact h.closeStep ‹_›
    · cases hs; exact h.closedStep ‹_›

end Inv

/-! ### The regions of `Ipc/Blocking.lean` -/

section Regions

variable {π : Type} [DecidableEq π] {p : π} {nonblock : Bool} {b b' : Blocking.State π τ}

/-- The pipe with the bytes of its ring as a list. -/
def State.pipe (s : State τ) : Blocking.Pipe := ⟨s.ring.contents, s.ends .read, s.ends .write⟩

/-- What is left of a call once the lock has been released by `pipe_close_read` does not concern the pipe. -/
def Op.rest (p : π) (nonblock : Bool) : Op → Blocking.Op π τ
  | .idle | .closed _ => .idle
  | .read count => .read p count nonblock
  | .writeOpen buf => .writeOpen p buf nonblock
  | .write buf total => .write p total (buf.drop total) nonblock
  | .close .read => .closeRead p
  | .close .write => .closeWrite p

/-- The two models have the same pipe, and the task is at the same place. -/
def Same (p : π) (nonblock : Bool) (t : τ) (s : State τ) (b : Blocking.State π τ) : Prop :=
  b.pipes p = s.pipe ∧ b.op t = (s.op t).rest p nonblock

omit [DecidableEq π] in
theorem same_setOp (h : b.pipes p = s.pipe) (o : Op) :
    Same p nonblock t (s.setOp t o) (b.setOp t (o.rest p nonblock)) :=
  ⟨h, (update_self t _ b.op).trans (congrArg (Op.rest p nonblock) (update_self t o s.op).symm)⟩

omit [DecidableEq π] in
theorem same_done (h : b.pipes p = s.pipe) (r : Result) (r' : Blocking.Result) :
    Same p nonblock t (s.done t r) (b.done t r') := same_setOp h .idle

theorem Same.readStep (h : Same p nonblock t s b) (count : Nat) :
    Same p nonblock t (s.readStep t count nonblock) (b.readStep t p count nonblock) := by
  obtain ⟨hp, hop⟩ := h
  have hdata : s.pipe.data ≠ [] ↔ 0 < s.ring.count := by
    rw [← length_pos_iff, ← s.ring.length_contents]
    rfl
  unfold State.readStep Blocking.State.readStep
  dsimp only
  rw [hp]
  by_cases hz : 0 < s.ring.count
  · rw [if_pos hz, if_pos (hdata.2 hz)]
    refine same_done ((update_self ..).trans ?_) _ _
    have hdrop : s.ring.contents.drop count =
        s.ring.contents.drop (if s.ring.count > count then count else s.ring.count) := by
      split
      · rfl
      · rw [drop_of_length_le (by rw [s.ring.length_contents]; omega), drop_of_length_le s.ring.length_contents.le]
    show Blocking.Pipe.mk (s.ring.contents.drop count) _ _ = _
    rw [hdrop, ← (s.ring.popN_eq _).2]
    rfl
  rw [if_neg hz, if_neg (hdata.not.2 hz)]
  show Same p nonblock t _ (if s.ends .write = 0 then _ else _)
  split
  · exact same_done hp _ _
  split
  · exact same_done hp _ _
  · exact ⟨hp, hop⟩

theorem Same.writeStep (h : Same p nonblock t s b) (buf : List Byte) (total : Nat) :
    Same p nonblock t (s.writeStep t buf total nonblock) (b.writeStep t p total (buf.drop total) nonblock) := by
  obtain ⟨hp, -⟩ := h
  unfold State.writeStep Blocking.State.writeStep
  dsimp only
  rw [hp]
  by_cases hdone : total < buf.length
  swap
  · rw [if_pos hdone, if_pos (drop_eq_nil_iff.2 (Nat.not_lt.1 hdone))]
    exact same_done hp _ _
  rw [if_neg (not_not.2 hdone), if_neg (drop_eq_nil_iff.not.2 (Nat.not_le.2 hdone))]
  show Same p nonblock t (if s.ends .read = 0 then _ else _) (if s.ends .read = 0 then _ else _)
  split
  · exact same_done hp _ _
  obtain ⟨hin, hleft⟩ := s.ring.pushAll_eq (buf.drop total)
  have hroom : PIPE_BUF_SIZE - s.pipe.data.length = PIPE_BUF_SIZE - s.ring.count := by
    rw [← s.ring.length_contents]
    rfl
  rw [hroom, hleft]
  generalize PIPE_BUF_SIZE - s.ring.count = room at hin ⊢
  -- both count what fits
  obtain ⟨n, hn, htake, hdrop⟩ : ∃ n, (buf.drop total).length - ((buf.drop total).drop room).length = n ∧
      ((buf.drop total).take room).length = n ∧ (buf.drop total).drop room = buf.drop (total + n) := by
    refine ⟨min room (buf.length - total), ?_, ?_, ?_⟩
    · rw [length_drop (l := drop total buf), length_drop]
      omega
    · rw [length_take, length_drop]
    · rw [drop_drop]
      by_cases hle : room ≤ buf.length - total
      · rw [min_eq_left hle]
      · rw [drop_of_length_le (by omega), drop_of_length_le (by omega)]
  rw [hn, htake, hdrop]
  have hp' : ((b.setPipe p { s.pipe with data := s.pipe.data ++ (buf.drop total).take room }).setDuty t
      (.one (.read p))).pipes p = (s.insert t (s.ring.pushAll (buf.drop total)).1 ((buf.drop total).take n)).pipe := by
    refine (update_self ..).trans ?_
    show Blocking.Pipe.mk (s.ring.contents ++ _) _ _ = _
    rw [← hin]
    rfl
  unfold Blocking.State.afterWrite
  by_cases hmore : total + n < buf.length
  · rw [if_neg (drop_eq_nil_iff.not.2 (Nat.not_le.2 hmore))]
    cases nonblock with
    | true =>
      rw [if_pos ⟨hmore, rfl⟩]
      exact same_done hp' _ _
    | false =>
      rw [if_neg (fun h => nomatch h.2)]
      exact same_setOp hp' (.write buf (total + n))
  · have hnil := drop_eq_nil_iff.2 (Nat.not_lt.1 hmore)
    rw [if_pos hnil, if_neg (fun h => hmore h.1), ← hnil]
    exact same_setOp hp' (.write buf (total + n))

/-- A region of a pipe's call is the step of the stream's task. -/
theorem Same.region {ids : Blocking.Ids τ} (h : Same p nonblock t s b) (hb : b.region ids t (b.op t) = some b') :
    ∃ s', s.step (.run t nonblock) = some s' ∧ Same p nonblock t s' b' := by
  rw [h.2] at hb
  unfold State.step
  dsimp only
  cases ho : s.op t with
  | idle | closed _ =>
    rw [ho] at hb
    cases hb
  | read count =>
    rw [ho] at hb
    cases hb
    exact ⟨_, rfl, h.readStep count⟩
  | writeOpen buf =>
    rw [ho] at hb
    cases hb
    refine ⟨_, rfl, ?_⟩
    unfold State.writeOpenStep Blocking.State.writeOpenStep
    rw [h.1]
    show Same p nonblock t (if s.ends .read = 0 then _ else _) (if s.ends .read = 0 then _ else _)
    split
    · exact same_done (b := b.setSignalled t true) h.1 _ (.num (-EPIPE))
    · exact same_setOp h.1 (.write buf 0)
  | write buf total =>
    rw [ho] at hb
    cases hb
    exact ⟨_, rfl, h.writeStep buf total⟩
  | close e =>
    rw [ho] at hb
    refine ⟨_, rfl, ?_⟩
    cases e with
    | read | write =>
      obtain ⟨-, ⟨⟩⟩ := Option.ite_none_left_eq_some.1 hb
      refine same_setOp (b := (b.setPipe p _).setDuty t _) ((update_self p _ b.pipes).trans ?_) (.closed _)
      rw [h.1]
      rfl

end Regions

/-- The stream law. What has been inserted is what has been removed followed by what the ring holds; the count is the
distance of the positions, which a full ring shares with an empty one; a finished write has inserted as many bytes of
its buffer as it reports; and the pipe is freed once, by the task that closes the second end. -/
theorem pipe_stream {t : τ} {buf : Nat → Byte} {es : List (Event τ)}
    (hrun : Run State.step Any (State.opened t buf) es s) :
    (s.inserted = s.removed ++ s.ring.contents ∧ s.ring.contents.length = s.ring.count ∧
      s.ring.count ≤ PIPE_BUF_SIZE) ∧
    (s.ring.count = (s.ring.writePos + PIPE_BUF_SIZE - s.ring.readPos) % PIPE_BUF_SIZE ∨
      s.ring.writePos = s.ring.readPos ∧ s.ring.count = PIPE_BUF_SIZE) ∧
    (∀ t buf r, s.op t = .idle → s.ret t = .wrote buf r → s.mine t = buf.take r.toNat) ∧
    FreedOk s.op s.ends s.frees ∧
    ((∀ t, s.op t = .idle) → (s.frees = 1 ↔ s.ends .read = 0 ∧ s.ends .write = 0)) := by
  have h : Inv s := hrun.inv (fun _ _ _ h _ hs => h.step hs) (inv_opened t buf)
  refine ⟨⟨h.stream, s.ring.length_contents, s.ring.count_le⟩, s.ring.count_eq, fun t buf r ho hr => ?_, h.freed,
    fun hidle => ?_⟩
  · have hc := h.counted t
    rw [ho] at hc
    exact hc buf r hr
  · rcases h.freed with ⟨h1, h2, -⟩ | ⟨h1, ⟨-, v, hv, -⟩ | ⟨h2, -⟩⟩
    · exact ⟨fun h => by omega, fun h => absurd h h1⟩
    · rw [hidle v] at hv
      cases hv
    · exact ⟨fun _ => h1, fun _ => h2⟩

/-- One task writes three bytes, reads two of them and closes both ends. -/
def writeReadClose : List (Event Nat) :=
  [.write 0 [1, 2, 3], .run 0 false, .run 0 false, .run 0 false, .read 0 2, .run 0 false,
    .put 0 .read, .run 0 false, .run 0 false, .put 0 .write, .run 0 false, .run 0 false]

theorem pipe_stream_closed :
    ∃ s, Run State.step Any (State.opened 0 fun _ => 0) writeReadClose s ∧ s.inserted = [1, 2, 3] ∧
      s.removed = [1, 2] ∧ s.ring.contents = [3] ∧ s.frees = 1 := by
  have hexec : (exec State.step (State.opened 0 fun _ => 0) writeReadClose).any (fun s =>
      decide (s.inserted = [1, 2, 3]) && decide (s.removed = [1, 2]) && decide (s.frees = 1)) = true := by
    decide +kernel
  obtain ⟨s, hs, h⟩ := (Option.any_eq_true ..).1 hexec
  simp only [Bool.and_eq_true, decide_eq_true_eq] at h
  obtain ⟨⟨hi, hr⟩, hf⟩ := h
  have hstream := (pipe_stream (exec_iff.1 hs)).1.1
  rw [hi, hr] at hstream
  have hlast : s.ring.contents = [3] := by simpa using hstream.symm
  exact ⟨s, exec_iff.1 hs, hi, hr, hlast, hf⟩

end ExoOS.PipeStream
