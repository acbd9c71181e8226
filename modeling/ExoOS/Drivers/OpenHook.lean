import ExoOS.Drivers.Pty
import ExoOS.Vfs.Calls

/-!
# The open hook

`do_open_abs` calls the open hook of a vnode and forgets what it leaves in `pending_f_ops`, which `vfs_open` puts into
the file. So no close gives back what the hook of a terminal took. The two also read the flags differently: only
`vfs_open` knows `O_NOFOLLOW` and `O_DIRECTORY`, and fails if it cannot truncate.
-/

namespace ExoOS.Pty

open Function Option
open Sched (Cred credInit)
open Vfs (Flags has O_CREAT O_EXCL O_TRUNC O_ACCMODE checkVnodeAccess)
open Vfs.FsOps (needFor)

def O_DIRECTORY : Flags := 0x10000
def O_NOFOLLOW : Flags := 0x20000

/-- `pending_f_ops`, with `pending_priv`. -/
inductive Injected
  | terminal (side : Side) (h : Handle)
  | console
  | evdev (index : Nat)
  | framebuffer

/-- The hook of a terminal, of a device that injects the same operations each time (consoles, `/dev/ttyN`, input devices
and the framebuffer), or one that injects nothing. -/
inductive Hook
  | pty (dev : Dev)
  | device (ops : Injected)
  | other

/-- `truncate`: what truncating the file to 0 returns; `none` if there is no such operation. -/
structure Node extends Vfs.Vnode where
  truncate : Option Int
  hook : Hook

/-- What a path leads to, and the symbolic link it names if it names one. -/
structure Target where
  node : Node
  link : Option Node
  ne : ∀ l ∈ link, l.ino ≠ node.ino

/-- `vfs_lookup` -/
def Target.lookup (p : Target) (follow : Bool) : Node := if follow then p.node else p.link.getD p.node

/-- `refs`: `refcount` of the vnodes. -/
structure Devices where
  pty : State
  refs : Nat → Nat

structure DevFile where
  vnode : Nat
  ops : Option Injected

namespace Devices

variable (d : Devices) (c : Cred) (t : TaskId) (p : Target) (flags : Flags)

def vnodeGet (v : Nat) : Devices := { d with refs := update d.refs v (d.refs v + 1) }

def vnodePut (v : Nat) : Devices := { d with refs := update d.refs v (d.refs v - 1) }

/-- `v->ops->open`; `none` is an error. -/
def callHook : Hook → Option (Option Injected × State)
  | .pty dev => (d.pty.openHook t dev).map fun r => (some (r.1.elim .console fun p => .terminal p.1 p.2), r.2)
  | .device ops => some (some ops, d.pty)
  | .other => some (none, d.pty)

/-- The last `file_put`. Only the operations of terminals do something. -/
def filePut (f : DevFile) : Devices :=
  match f.ops with
  | none => d.vnodePut f.vnode
  | some (.terminal side h) => { d with pty := d.pty.closeOp (some (side, h)) }
  | some _ => d

/-- The tests of `do_open_abs` before it calls the hook. -/
def refused (v : Node) : Bool :=
  has flags O_EXCL || decide (checkVnodeAccess c v.toVnode (needFor flags) < 0) || v.isDir && needFor flags &&& 2 != 0

/-- `do_open_abs` for a path that exists. `mem` and `fd`: there is memory for the file, and a descriptor. What it does
with `O_TRUNC` does not matter to it. -/
def doOpenAbs (mem fd : Bool) : Option DevFile × Devices :=
  let v := p.lookup true
  let d := d.vnodeGet v.ino
  if refused c flags v then (none, d.vnodePut v.ino)
  else
    match d.callHook t v.hook with
    | none => (none, d.vnodePut v.ino)
    | some (_, s) =>
      let d := { d with pty := s }
      if !mem then (none, d.vnodePut v.ino)
      else
        let f : DevFile := ⟨v.ino, none⟩
        let d := (d.vnodeGet v.ino).vnodePut v.ino
        if fd then (some f, d) else (none, d.filePut f)

/-- `vfs_open` for a path that exists. -/
def vfsOpen (mem : Bool) : Option DevFile × Devices :=
  let v := p.lookup (!has flags O_NOFOLLOW)
  let d := d.vnodeGet v.ino
  if has flags O_CREAT && has flags O_EXCL then (none, d.vnodePut v.ino)
  else if has flags O_DIRECTORY && !v.isDir then (none, d.vnodePut v.ino)
  else if has flags O_TRUNC && flags &&& O_ACCMODE != 0 && !v.truncate.any (0 ≤ ·) then (none, d.vnodePut v.ino)
  else
    match d.callHook t v.hook with
    | none => (none, d.vnodePut v.ino)
    | some (pending, s) =>
      let d := { d with pty := s }
      if !mem then (none, d.vnodePut v.ino) else (some ⟨v.ino, pending⟩, (d.vnodeGet v.ino).vnodePut v.ino)

/-- An open, and the close of what it returned. -/
structure OpenClose where
  cred : Cred
  task : TaskId
  path : Target
  flags : Flags
  mem : Bool
  fd : Bool

def openClose (e : OpenClose) : Devices :=
  let r := d.doOpenAbs e.cred e.task e.path e.flags e.mem e.fd
  r.1.elim r.2 r.2.filePut

/-- The open gets to a hook that takes a pair of terminals or a slave. -/
def Takes (e : OpenClose) : Prop :=
  refused e.cred e.flags e.path.node = false ∧
    (e.path.node.hook = .pty .ptmx ∧ (∃ i, ¬ (d.pty.table i).isOpen) ∨
      ∃ i, e.path.node.hook = .pty (.pts i) ∧ (d.pty.table i).isOpen)

variable {d c t p flags}

theorem vnodePut_vnodeGet (d : Devices) (v : Nat) : (d.vnodeGet v).vnodePut v = d := by
  simp [vnodeGet, vnodePut]

/-- A pair leaves what the hook left, and the references as they were. -/
theorem openClose_eq (d : Devices) (e : OpenClose) : d.openClose e = { d with
    pty := if refused e.cred e.flags e.path.node then d.pty
      else (d.callHook e.task e.path.node.hook).elim d.pty Prod.snd } := by
  obtain ⟨c, t, p, flags, mem, fd⟩ := e
  have hget : (d.vnodeGet p.node.ino).callHook t p.node.hook = d.callHook t p.node.hook := rfl
  simp only [openClose, doOpenAbs, Target.lookup, if_true, hget]
  split
  · exact vnodePut_vnodeGet ..
  cases d.callHook t p.node.hook with
  | none => exact vnodePut_vnodeGet ..
  | some r =>
    have hput := vnodePut_vnodeGet { d with pty := r.2 } p.node.ino
    cases mem <;> cases fd <;> simp only [vnodePut_vnodeGet] <;> exact hput

/-- Some pair of terminals is open that was not, or has more slaves than it had. -/
def Grown (d d' : Devices) : Prop :=
  ∃ i, (d'.pty.table i).isOpen ∧ ((d.pty.table i).isOpen → (d.pty.table i).slaveOpen < (d'.pty.table i).slaveOpen)

theorem Grown.ne {d' : Devices} (h : Grown d d') : d' ≠ d := by
  obtain ⟨i, ho, hlt⟩ := h
  rintro rfl
  exact (hlt ho).false

/-- The hook changes nothing, or one pair that was closed, or gets another slave. -/
theorem callHook_cases {k : Hook} {r : Option Injected × State} (h : d.callHook t k = some r) : r.2 = d.pty ∨
    ∃ i q, r.2 = d.pty.setPair i q ∧ q.isOpen ∧ ((d.pty.table i).isOpen → (d.pty.table i).slaveOpen < q.slaveOpen) := by
  cases k with
  | pty dev =>
    obtain ⟨r, hr, rfl⟩ := map_eq_some_iff.1 h
    cases dev with
    | ptmx =>
      obtain ⟨q, hq, rfl⟩ := map_eq_some_iff.1 hr
      obtain ⟨i, hi, rfl⟩ := map_eq_some_iff.1 hq
      have hclosed := List.find?_some hi
      exact .inr ⟨i, _, rfl, rfl, fun ho => by simp [ho] at hclosed⟩
    | pts i =>
      obtain ⟨q, hq, rfl⟩ := map_eq_some_iff.1 hr
      obtain ⟨ho, ⟨⟩⟩ := ite_none_right_eq_some.1 hq
      exact .inr ⟨i, _, rfl, ho, fun _ => Nat.lt_add_one _⟩
    | tty => cases hr; exact .inl rfl
  | _ => cases h; exact .inl rfl

theorem openClose_cases (d : Devices) (e : OpenClose) : d.openClose e = d ∨
    ∃ i q, d.openClose e = { d with pty := d.pty.setPair i q } ∧ q.isOpen ∧
      ((d.pty.table i).isOpen → (d.pty.table i).slaveOpen < q.slaveOpen) := by
  rw [openClose_eq]
  split
  · exact .inl rfl
  cases hh : d.callHook e.task e.path.node.hook with
  | none => exact .inl rfl
  | some r =>
    rcases callHook_cases hh with h | ⟨i, q, h, hq⟩
    · exact .inl (by rw [elim_some, h])
    · exact .inr ⟨i, q, by rw [elim_some, h], hq⟩

theorem Grown.openClose {d' : Devices} (h : Grown d d') (e : OpenClose) : Grown d (d'.openClose e) := by
  obtain ⟨i, ho, hlt⟩ := h
  rcases openClose_cases d' e with he | ⟨j, q, he, hq, hj⟩ <;> rw [he]
  · exact ⟨i, ho, hlt⟩
  by_cases hij : i = j
  · subst hij
    refine ⟨i, ?_, fun hi => (hlt hi).trans ?_⟩ <;> simp only [State.setPair, update_self]
    · exact hq
    · exact hj ho
  · refine ⟨i, ?_, fun hi => (hlt hi).trans_eq ?_⟩ <;> simp only [State.setPair, update_of_ne hij]
    exact ho

theorem Grown.run {d' : Devices} (h : Grown d d') (es : List OpenClose) : Grown d (es.foldl Devices.openClose d') := by
  induction es generalizing d' with
  | nil => exact h
  | cons e es ih => exact ih (h.openClose e)

theorem openClose_takes {e : OpenClose} (h : d.Takes e) : Grown d (d.openClose e) := by
  obtain ⟨hok, h⟩ := h
  have hne : ∃ r, d.callHook e.task e.path.node.hook = some r ∧ r.2 ≠ d.pty := by
    rcases h with ⟨hk, j, hj⟩ | ⟨i, hk, hi⟩ <;> rw [hk]
    · obtain ⟨i, hi⟩ := isSome_iff_exists.1 (List.find?_isSome (p := fun i => !(d.pty.table i).isOpen).2
        ⟨j, List.mem_finRange j, by simpa using hj⟩)
      refine ⟨_, by simp only [callHook, State.openHook, State.ptyAlloc, hi, map_some]; rfl, fun heq => ?_⟩
      have hclosed := List.find?_some hi
      have hopen := congrArg (fun s => (s.table i).isOpen) heq
      simp only [State.setPair, update_self] at hopen
      simp [← hopen] at hclosed
    · refine ⟨_, by simp only [callHook, State.openHook, State.ptyGet, if_pos hi, map_some]; rfl, fun heq => ?_⟩
      have hcount := congrArg (fun s => (s.table i).slaveOpen) heq
      simp [State.setPair] at hcount
  obtain ⟨r, hr, hne⟩ := hne
  rw [openClose_eq, hok, hr]
  rcases callHook_cases hr with heq | ⟨i, q, heq, hq⟩
  · exact absurd heq hne
  · refine ⟨i, ?_⟩
    simpa [heq, State.setPair] using hq

theorem openClose_of_not_takes {e : OpenClose} (h : ¬ d.Takes e) : d.openClose e = d := by
  rw [openClose_eq]
  split
  · rfl
  rename_i hok
  have hk := not_or.1 fun hk => h ⟨by simpa using hok, hk⟩
  cases hh : e.path.node.hook with
  | pty dev =>
    cases dev with
    | ptmx =>
      have hnone : d.pty.ptyAlloc = none := by
        refine map_eq_none_iff.2 (List.find?_eq_none.2 fun i _ hi => hk.1 ⟨hh, i, by simpa using hi⟩)
      simp [callHook, State.openHook, hnone]
    | pts i =>
      have hnone : d.pty.ptyGet i = none := if_neg fun hi => hk.2 ⟨i, hh, hi⟩
      simp [callHook, State.openHook, hnone]
    | tty => rfl
  | _ => rfl

/-- The flags mean the same to both, and the hook injects nothing. -/
structure Alike (p : Target) (flags : Flags) : Prop where
  hook : p.node.hook = .other
  follow : has flags O_NOFOLLOW → p.link = none
  dir : has flags O_DIRECTORY → p.node.isDir
  trunc : has flags O_TRUNC → flags &&& O_ACCMODE ≠ 0 → p.node.truncate.any (0 ≤ ·)

theorem vfsOpen_vnode {f : DevFile} (h : (d.vfsOpen t p flags true).1 = some f) :
    f.vnode = (p.lookup (!has flags O_NOFOLLOW)).ino := by
  simp only [vfsOpen, Bool.not_true, Bool.false_eq_true, if_false] at h
  split_ifs at h
  split at h
  · cases h
  · cases h
    rfl

theorem callHook_injects_none {k : Hook} {r : Option Injected × State} (h : d.callHook t k = some r) :
    r.1 = none ↔ k = .other := by
  cases k with
  | pty dev =>
    obtain ⟨p, -, rfl⟩ := map_eq_some_iff.1 h
    simp
  | _ => cases h; simp

theorem vfsOpen_eq_some_iff {r : Option Injected × State} (hc : has flags O_CREAT = false)
    (hr : d.callHook t p.node.hook = some r) :
    (d.vfsOpen t p flags true).1 = some ⟨p.node.ino, none⟩ ↔ Alike p flags := by
  have hget : ∀ v k, (d.vnodeGet v).callHook t k = d.callHook t k := fun _ _ => rfl
  by_cases hlink : has flags O_NOFOLLOW ∧ p.link ≠ none
  · refine iff_of_false (fun h => ?_) fun h => hlink.2 (h.follow hlink.1)
    obtain ⟨l, hl⟩ := ne_none_iff_exists'.1 hlink.2
    have hino := vfsOpen_vnode h
    rw [hlink.1, Target.lookup, Bool.not_true, if_neg (by decide), hl] at hino
    exact p.ne l hl hino.symm
  · have hfollow : has flags O_NOFOLLOW → p.link = none := fun h => not_not.1 fun hn => hlink ⟨h, hn⟩
    have hlook : p.lookup (!has flags O_NOFOLLOW) = p.node := by
      unfold Target.lookup
      split
      · rfl
      · rename_i hf
        rw [hfollow (by simpa using hf), getD_none]
    simp only [vfsOpen, hc, hget, hlook, hr, Bool.false_and, Bool.false_eq_true, if_false, Bool.not_true]
    constructor
    · intro h
      split_ifs at h with hdir htrunc
      have hops : r.1 = none := by simpa using h
      exact ⟨(callHook_injects_none hr).1 hops, hfollow, fun hd => by simpa [hd] using hdir,
        fun ht => by simpa [ht] using htrunc⟩
    · intro h
      rw [if_neg fun hd => ?_, if_neg fun ht => ?_, (callHook_injects_none hr).2 h.hook]
      · simp only [Bool.and_eq_true, bne_iff_ne, Bool.not_eq_true'] at ht
        exact absurd (h.trunc ht.1.1 ht.1.2) (by simp [ht.2])
      · simp only [Bool.and_eq_true, Bool.not_eq_true'] at hd
        exact absurd (h.dir hd.1) (by simp [hd.2])

/-- A file of `do_open_abs` has the operations that the hook injected only if those are none. It is the one that
`vfs_open` makes exactly if the flags mean the same to both, too. Pairs of an open and a close change something exactly
if one of them takes a terminal. -/
theorem open_hook_iff (d : Devices) :
    (∀ c t p flags f, has flags O_CREAT = false → (d.doOpenAbs c t p flags true true).1 = some f →
      (some f.ops = (d.callHook t p.node.hook).map Prod.fst ↔ p.node.hook = .other) ∧
      ((d.vfsOpen t p flags true).1 = some f ↔ Alike p flags)) ∧
    ∀ es : List OpenClose, es.foldl openClose d = d ↔ ∀ e ∈ es, ¬ d.Takes e := by
  constructor
  · intro c t p flags f hc h
    have hget : ∀ v k, (d.vnodeGet v).callHook t k = d.callHook t k := fun _ _ => rfl
    simp only [doOpenAbs, Target.lookup, if_true, hget] at h
    split at h
    · cases h
    cases hh : d.callHook t p.node.hook with
    | none => rw [hh] at h; cases h
    | some r =>
      rw [hh] at h
      cases h
      refine ⟨?_, vfsOpen_eq_some_iff hc hh⟩
      rw [← callHook_injects_none hh, Option.map_some, some.injEq, eq_comm]
  · intro es
    induction es with
    | nil => simp
    | cons e es ih =>
      rw [List.foldl_cons, List.forall_mem_cons]
      by_cases he : d.Takes e
      · exact iff_of_false ((openClose_takes he).run es).ne fun h => h.1 he
      · rw [openClose_of_not_takes he, ih]
        exact (and_iff_right he).symm

def device (mode : Vfs.Mode) (k : Hook) : Target := ⟨⟨⟨0, mode, 0, 0, 0⟩, none, k⟩, none, nofun⟩

theorem ptmx_not_released : ∃ d : Devices,
    (d.doOpenAbs credInit 0 (device 0o20666 (.pty .ptmx)) 2 true true).1 = some ⟨0, none⟩ ∧
    (d.vfsOpen 0 (device 0o20666 (.pty .ptmx)) 2 true).1 = some ⟨0, some (.terminal .master ⟨0, 1⟩)⟩ ∧
    (d.pty.table 0).isOpen = false ∧
    ((d.openClose ⟨credInit, 0, device 0o20666 (.pty .ptmx), 2, true, true⟩).pty.table 0).isOpen = true :=
  ⟨⟨start fun _ => some 0, fun _ => 1⟩, rfl, rfl, rfl, rfl⟩

end Devices

end ExoOS.Pty
