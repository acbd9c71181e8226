import ExoOS.Net.Packet
import ExoOS.Sched.Cred

/-!
# Credentials on AF_UNIX sockets

The sockets of `net/unix.c` and the ancillary data of `sys_recvmsg`, beside the tasks of `Sched`. Each socket
also has who is at its other end (`other`), each byte who sent it, and `delivered` keeps the `SCM_CREDENTIALS`
records with the senders of their data: the code has none of these. Files are left out; any task may use any
socket, as after a fork or a passed descriptor.

`unix_connect` stores the credentials of the connecting task in both sockets, and `sys_recvmsg` reports those of the
receiving task. So the records are `Authentic` as long as a task connects to and receives from its like.
-/

namespace ExoOS.Net.Unix

open Option Function

open Sched (Task TaskId Uid Kernel EINVAL ENOMEM)
open Transition

def EBADF : Int := 9
def EAGAIN : Int := 11
def EPIPE : Int := 32
def EISCONN : Int := 106
def ENOTCONN : Int := 107
def ECONNREFUSED : Int := 111

def UNIX_BUFSIZE : Nat := 32 * 1024
def UNIX_ACCEPT_MAX : Nat := 16
def UNIX_BIND_MAX : Nat := 64

structure Ucred where
  pid : BitVec 32
  uid : Uid
  gid : Uid
  deriving DecidableEq

def ucred (t : Task) : Ucred := ⟨t.pid, t.cred.euid, t.cred.egid⟩

inductive SockState
  | initial
  | bound
  | listening
  | connected
  | closing
  deriving DecidableEq

abbrev SockId := Nat

structure Sock where
  state : SockState := .initial
  /-- The bytes in the ring, with who sent them. -/
  rx : List (Byte × Ucred) := []
  peer : Option SockId := none
  acceptQ : List SockId := []
  peerCred : Ucred := ⟨0, 0, 0⟩
  /-- The task that called `listen`. -/
  listener : Ucred := ⟨0, 0, 0⟩
  /-- The process at the other end: that which connected, listened or made the pair. -/
  other : Ucred := ⟨0, 0, 0⟩

structure State where
  kernel : Kernel
  socks : SockId → Option Sock
  next : SockId
  bound : List (Option (List Byte × SockId))
  /-- The senders of what a task has read in its current `recvmsg`. -/
  reading : TaskId → List Ucred
  delivered : List (Ucred × List Ucred)

namespace State

variable (s : State)

def setSock (id : SockId) (u : Sock) : State := { s with socks := update s.socks id (some u) }

/-- An operation on a socket; `socket_from_fd` finds none for a bad descriptor. -/
def withSock (id : SockId) (op : Sock → Int × State) : Int × State :=
  match s.socks id with
  | none => (-EBADF, s)
  | some us => op us

def socketCreate : State := { s.setSock s.next {} with next := s.next + 1 }

/-- `unix_bind` and `unix_register` -/
def bind (id : SockId) (path : List Byte) : Int × State :=
  s.withSock id fun us =>
    if us.state ≠ .initial ∨ path = [] ∨ 107 < path.length then (-EINVAL, s)
    else
      match s.bound.findIdx? Option.isNone with
      | none => (-ENOMEM, s)
      | some k => (0, { s.setSock id { us with state := .bound } with bound := s.bound.set k (some (path, id)) })

def listen (t : Task) (id : SockId) : Int × State :=
  s.withSock id fun us =>
    if us.state ≠ .bound then (-EINVAL, s)
    else (0, s.setSock id { us with state := .listening, listener := ucred t })

def findListener (path : List Byte) : Option (SockId × Sock) :=
  s.bound.findSome? fun slot => slot.bind fun e => (s.socks e.2).bind fun u =>
    if u.state = .listening ∧ e.1 = path then some (e.2, u) else none

/-- `unix_connect`; `perm` is what `unix_check_path_write_perm` returns. -/
def connect (t : Task) (id : SockId) (path : List Byte) (perm : Int) : Int × State :=
  s.withSock id fun uc =>
    if uc.state = .connected then (-EISCONN, s)
    else if path = [] ∨ 107 < path.length then (-EINVAL, s)
    else if perm < 0 then (perm, s)
    else
      match s.findListener path with
      | none => (-ECONNREFUSED, s)
      | some (l, ls) =>
        if ls.acceptQ.length + 1 = UNIX_ACCEPT_MAX then (-ECONNREFUSED, s)
        else
          let me := ucred t
          let us : Sock := { state := .connected, peer := some id, peerCred := me, other := me }
          let uc := { uc with state := .connected, peer := some s.next, peerCred := me, other := ls.listener }
          -- a listening socket may connect to itself
          let ls := if l = id then uc else ls
          let s' := (s.setSock s.next us).setSock id uc
          (0, { s'.setSock l { ls with acceptQ := ls.acceptQ ++ [s.next] } with next := s.next + 1 })

/-- `unix_accept`; `ok` is whether a file could be made. A call that has to wait is one that is made later. -/
def accept (id : SockId) (ok : Bool) : Int × State :=
  s.withSock id fun ls =>
    if ls.state ≠ .listening then (-EINVAL, s)
    else
      match ls.acceptQ with
      | [] => (-EAGAIN, s)
      | a :: rest =>
        let s := s.setSock id { ls with acceptQ := rest }
        if ok then (a, s) else s.withSock a fun us => (-ENOMEM, s.setSock a { us with state := .closing })

def socketpair (t : Task) : State :=
  let us (peer : SockId) : Sock := { state := .connected, peer := some peer, peerCred := ucred t, other := ucred t }
  { (s.setSock s.next (us (s.next + 1))).setSock (s.next + 1) (us s.next) with next := s.next + 2 }

/-- A turn of the loop of `unix_sendto`. -/
def sendto (t : Task) (id : SockId) (buf : List Byte) : Int × State :=
  s.withSock id fun us =>
    match us.peer with
    | none => (-ENOTCONN, s)
    | some p => s.withSock p fun peer =>
      if us.state ≠ .connected then (-ENOTCONN, s)
      else if peer.state = .closing then (-EPIPE, s)
      else
        let n := min buf.length (UNIX_BUFSIZE - 1 - peer.rx.length)
        (if n = 0 then -EAGAIN else n,
          s.setSock p { peer with rx := peer.rx ++ (buf.take n).map (·, ucred t) })

/-- `unix_recvfrom` for one buffer of a `recvmsg`; of an empty ring, where it ends or waits, it takes nothing. -/
def recvfrom (i : TaskId) (id : SockId) (len : Nat) : Int × State :=
  s.withSock id fun us =>
    if us.state ≠ .connected ∧ us.state ≠ .listening then (-ENOTCONN, s)
    else ((us.rx.take len).length, { s.setSock id { us with rx := us.rx.drop len } with
      reading := update s.reading i (s.reading i ++ (us.rx.take len).map (·.2)) })

/-- The end of `sys_recvmsg`: `SCM_CREDENTIALS`, if there is room for it. -/
def recvmsgEnd (t : Task) (i : TaskId) (controllen : Nat) : State :=
  { s with
    reading := update s.reading i []
    delivered := if 24 ≤ controllen then (ucred t, s.reading i) :: s.delivered else s.delivered }

end State

inductive Event
  | task (i : TaskId) (c : Sched.Call)
  | socket
  | bind (id : SockId) (path : List Byte)
  | listen (i : TaskId) (id : SockId)
  | connect (i : TaskId) (id : SockId) (path : List Byte) (perm : Int)
  | accept (id : SockId) (ok : Bool)
  | socketpair (i : TaskId)
  | send (i : TaskId) (id : SockId) (buf : List Byte)
  | recv (i : TaskId) (id : SockId) (len : Nat)
  | recvEnd (i : TaskId) (controllen : Nat)

def step (s : State) : Event → Option State
  | .task i c => some { s with kernel := (Sched.call s.kernel i c).2 }
  | .socket => some s.socketCreate
  | .bind id path => some (s.bind id path).2
  | .listen i id => (s.kernel.tasks i).map fun t => (s.listen t id).2
  | .connect i id path perm => (s.kernel.tasks i).map fun t => (s.connect t id path perm).2
  | .accept id ok => some (s.accept id ok).2
  | .socketpair i => (s.kernel.tasks i).map s.socketpair
  | .send i id buf => (s.kernel.tasks i).map fun t => (s.sendto t id buf).2
  | .recv i id len => some (s.recvfrom i id len).2
  | .recvEnd i controllen => (s.kernel.tasks i).map fun t => s.recvmsgEnd t i controllen

/-- `SO_PEERCRED` of a connected socket is the other end, and a record is about who sent the data with it. -/
structure Authentic (s : State) : Prop where
  peercred : ∀ id u, s.socks id = some u → u.state = .connected → u.peerCred = u.other
  scm : ∀ d ∈ s.delivered, ∀ x ∈ d.2, x = d.1

/-- A task connects to a socket on which its own identity listens, and takes credentials with its own data. -/
def Alike (s : State) : Event → Prop
  | .connect i _ path _ => ∀ t l, s.kernel.tasks i = some t → s.findListener path = some l → l.2.listener = ucred t
  | .recvEnd i controllen => ∀ t, s.kernel.tasks i = some t → 24 ≤ controllen → ∀ x ∈ s.reading i, x = ucred t
  | _ => True

namespace Authentic

variable {s s' : State} {id : SockId} {u : Sock}

section

variable (h : Authentic s)
include h

theorem setSock (id : SockId) (hu : u.state = .connected → u.peerCred = u.other) : Authentic (s.setSock id u) := by
  refine ⟨fun id' u' hu' hc => ?_, h.scm⟩
  by_cases hid : id' = id
  · subst hid
    cases (update_self ..).symm.trans hu'
    exact hu hc
  · exact h.peercred id' u' ((update_of_ne hid ..).symm.trans hu') hc

theorem of_eq (hs : s'.socks = s.socks) (hd : s'.delivered = s.delivered) : Authentic s' :=
  ⟨hs ▸ h.peercred, hd ▸ h.scm⟩

theorem withSock {op : Sock → Int × State}
    (hop : ∀ us, (us.state = .connected → us.peerCred = us.other) → Authentic (op us).2) :
    Authentic (s.withSock id op).2 := by
  unfold State.withSock
  split
  · exact h
  · rename_i us hus
    exact hop us (h.peercred id us hus)

theorem bind (path : List Byte) : Authentic (s.bind id path).2 := by
  refine h.withSock fun us _ => ?_
  split
  · exact h
  split
  · exact h
  · refine (h.setSock id ?_).of_eq rfl rfl
    nofun

theorem listen (t : Task) : Authentic (s.listen t id).2 := by
  refine h.withSock fun us _ => ?_
  split
  · exact h
  · exact h.setSock id nofun

end

theorem findListener_state {path : List Byte} {l : SockId} (h : s.findListener path = some (l, u)) :
    u.state = .listening := by
  obtain ⟨slot, -, hslot⟩ := List.exists_of_findSome?_eq_some h
  obtain ⟨e, -, he⟩ := bind_eq_some_iff.1 hslot
  obtain ⟨v, -, hv⟩ := bind_eq_some_iff.1 he
  obtain ⟨hcond, hpair⟩ := ite_none_right_eq_some.1 hv
  cases hpair
  exact hcond.1

section

variable (h : Authentic s)
include h

theorem connect {t : Task} {path : List Byte} (perm : Int)
    (hl : ∀ l, s.findListener path = some l → l.2.listener = ucred t) :
    Authentic (s.connect t id path perm).2 := by
  refine h.withSock fun uc _ => ?_
  split
  · exact h
  split
  · exact h
  split
  · exact h
  split
  · exact h
  rename_i l ls hfind
  split
  · exact h
  have hme := (hl _ hfind).symm
  refine Authentic.of_eq (((h.setSock _ fun _ => rfl).setSock id fun _ => hme).setSock l ?_) rfl rfl
  split
  · exact fun _ => hme
  · exact fun hc => absurd ((findListener_state hfind).symm.trans hc) nofun

theorem accept (ok : Bool) : Authentic (s.accept id ok).2 := by
  refine h.withSock fun ls hls => ?_
  split
  · exact h
  split
  · exact h
  have h1 := h.setSock id (u := { ls with acceptQ := ‹List SockId› }) hls
  split
  · exact h1
  · exact h1.withSock fun us _ => h1.setSock _ nofun

theorem sendto (t : Task) (buf : List Byte) : Authentic (s.sendto t id buf).2 := by
  refine h.withSock fun us _ => ?_
  split
  · exact h
  refine h.withSock fun peer hpeer => ?_
  split
  · exact h
  split
  · exact h
  · exact h.setSock _ hpeer

theorem recvfrom (i : TaskId) (len : Nat) : Authentic (s.recvfrom i id len).2 := by
  refine h.withSock fun us hus => ?_
  split
  · exact h
  · exact (h.setSock id (u := { us with rx := us.rx.drop len }) hus).of_eq rfl rfl

theorem step {e : Event} (ha : Alike s e) (hs : Unix.step s e = some s') : Authentic s' := by
  cases e with
  | task i c => cases hs; exact h.of_eq rfl rfl
  | socket => cases hs; exact (h.setSock s.next (u := {}) nofun).of_eq rfl rfl
  | bind id path => cases hs; exact h.bind path
  | accept id ok => cases hs; exact h.accept ok
  | recv i id len => cases hs; exact h.recvfrom i len
  | listen i id =>
    obtain ⟨t, -, rfl⟩ := map_eq_some_iff.1 hs
    exact h.listen t
  | connect i id path perm =>
    obtain ⟨t, ht, rfl⟩ := map_eq_some_iff.1 hs
    exact h.connect perm fun l => ha t l ht
  | socketpair i =>
    obtain ⟨t, -, rfl⟩ := map_eq_some_iff.1 hs
    exact ((h.setSock _ fun _ => rfl).setSock _ fun _ => rfl).of_eq rfl rfl
  | send i id buf =>
    obtain ⟨t, -, rfl⟩ := map_eq_some_iff.1 hs
    exact h.sendto t buf
  | recvEnd i controllen =>
    obtain ⟨t, ht, rfl⟩ := map_eq_some_iff.1 hs
    refine ⟨h.peercred, fun d hd => ?_⟩
    unfold State.recvmsgEnd at hd
    split at hd
    · rcases List.mem_cons.1 hd with rfl | hd
      · exact ha t ht ‹_›
      · exact h.scm d hd
    · exact h.scm d hd

end

end Authentic

def start (k : Kernel) : State :=
  { kernel := k, socks := fun _ => none, next := 0, bound := List.replicate UNIX_BIND_MAX none
    reading := fun _ => [], delivered := [] }

/-- In every run in which tasks connect to and take credentials from their like. -/
theorem credentials_authentic {k : Kernel} {s : State} {es : List Event} (h : Run step Alike (start k) es s) :
    Authentic s :=
  h.inv (fun _ _ _ hI ha hs => Authentic.step hI ha hs) ⟨nofun, nofun⟩

/-- A task makes a pair of sockets and sends itself a byte. -/
theorem credentials_authentic_pair : ∃ s, (Run step Alike (start Sched.boot)
    [.socketpair 0, .send 0 0 [7], .recv 0 1 1, .recvEnd 0 24] s ∧
      s.delivered = [(⟨1, 0, 0⟩, [⟨1, 0, 0⟩])]) ∧ Authentic s := by
  refine Exists.imp (fun s h => ⟨h, credentials_authentic h.1⟩) ⟨_, .cons trivial rfl (.cons trivial rfl
    (.cons trivial rfl (.cons (fun t ht _ x hx => ?_) rfl (.nil _)))), rfl⟩
  cases ht
  exact List.mem_singleton.1 hx

/-- Root listens; its child becomes user 1000, connects and sends a byte. The child sees itself at the other end,
and root gets the byte with its own credentials. -/
theorem credentials_forged : ∃ s, Run step Any (start Sched.boot)
    [.task 0 (.fork (.creates true)), .task 1 (.setresuid 1000 1000 1000), .socket, .bind 0 [0], .listen 0 0, .socket,
      .connect 1 1 [0] 0, .accept 0 true, .send 1 1 [7], .recv 0 2 1, .recvEnd 0 24] s ∧
    (∃ u, s.socks 1 = some u ∧ u.state = .connected ∧ u.peerCred = ⟨2, 1000, 0⟩ ∧ u.other = ⟨1, 0, 0⟩) ∧
    s.delivered = [(⟨1, 0, 0⟩, [⟨2, 1000, 0⟩])] ∧ ¬ Authentic s := by
  refine ⟨_, .cons trivial rfl (.cons trivial rfl (.cons trivial rfl (.cons trivial rfl (.cons trivial rfl
    (.cons trivial rfl (.cons trivial rfl (.cons trivial rfl (.cons trivial rfl (.cons trivial rfl
    (.cons trivial rfl (.nil _))))))))))), ⟨_, rfl, rfl, rfl, rfl⟩, rfl, fun h => ?_⟩
  exact absurd (h.peercred 1 _ rfl rfl) (by decide)

end ExoOS.Net.Unix
