import ExoOS.Fs.FdCalls
import ExoOS.Net.TcpLocks
import ExoOS.Net.UnixCred

/-!
# Non-blocking sockets

A socket file keeps the mode twice: `O_NONBLOCK` in the flags of the `file_t`, which `fcntl(F_GETFL)` reports, and
`nonblock` in the `socket_t`, which accept, send and receive consult. `FIONBIO` writes both. `socket` and `socketpair`
write only the second, `accept4` and `F_SETFL` only the first. And what is sent over IP waits for the address of the
next hop in either mode.
-/

namespace ExoOS.Net

open Fs Transition
open Sched (EINVAL)
open Unix (EAGAIN EPIPE ENOTCONN)

def O_NONBLOCK : BitVec 32 := 0x800
def O_ACCMODE : BitVec 32 := 3
def O_RDWR : BitVec 32 := 2

def isNonblock (flags : BitVec 32) : Bool := flags &&& O_NONBLOCK != 0

/-- The open files with the flags of each and, for sockets, the field `nonblock` of the `socket_t` behind them. -/
structure SockFiles where
  kernel : Kernel
  flags : FileId → BitVec 32
  nonblock : FileId → Option Bool

/-- `arg` is the `type` of `socket` and `socketpair`, the `flags` of `accept4` (0 for `accept`) and of other calls. -/
inductive SockEvent
  | call (e : Fs.Event) (arg : BitVec 32)
  | setfl (t : TaskId) (fd : Int) (arg : BitVec 32)
  | fionbio (t : TaskId) (fd : Int) (arg : Option (BitVec 32))

namespace SockFiles

def socketFlags : Option FileOps → BitVec 32
  | some (.unixSocket _) => O_RDWR
  | _ => 0

def created (e : Fs.Event) (arg : BitVec 32) (k : Kernel) (f : FileId) : BitVec 32 × Option Bool :=
  let flags := socketFlags (k.files f).fOps
  match e with
  | .socket .. | .socketpair .. => (flags, some (isNonblock arg))
  | .accept t .. =>
    -- the file has no descriptor if the table was full
    let found := (List.range FD_TABLE_SIZE).any fun fd => k.slot t fd = some f
    (if found ∧ isNonblock arg then flags ||| O_NONBLOCK else flags, some false)
  | _ => (arg, none)

def call (s : SockFiles) (e : Fs.Event) (arg : BitVec 32) : Option SockFiles :=
  (Fs.step s.kernel e).map fun k =>
    { kernel := k
      flags := fun f => if s.kernel.nfiles ≤ f ∧ f < k.nfiles then (created e arg k f).1 else s.flags f
      nonblock := fun f => if s.kernel.nfiles ≤ f ∧ f < k.nfiles then (created e arg k f).2 else s.nonblock f }

def setFlags (s : SockFiles) (f : FileId) (flags : BitVec 32) : SockFiles :=
  { s with flags := Function.update s.flags f flags }

def syncSocketNonblock (s : SockFiles) (f : FileId) : SockFiles :=
  { s with nonblock := Function.update s.nonblock f ((s.nonblock f).map fun _ => isNonblock (s.flags f)) }

def getfl (s : SockFiles) (t : TaskId) (fd : Int) : Option (BitVec 32) := (fdGet s.kernel t fd).map s.flags

def setfl (s : SockFiles) (t : TaskId) (fd : Int) (arg : BitVec 32) : SockFiles :=
  match fdGet s.kernel t fd with
  | some f => s.setFlags f (s.flags f &&& O_ACCMODE ||| arg &&& ~~~O_ACCMODE)
  | none => s

/-- `ioctl(FIONBIO)`; `none` is a null pointer. -/
def fionbio (s : SockFiles) (t : TaskId) (fd : Int) (arg : Option (BitVec 32)) : SockFiles :=
  match fdGet s.kernel t fd, arg with
  | some f, some nb =>
    (s.setFlags f (if nb ≠ 0 then s.flags f ||| O_NONBLOCK else s.flags f &&& ~~~O_NONBLOCK)).syncSocketNonblock f
  | _, _ => s

def step (s : SockFiles) : SockEvent → Option SockFiles
  | .call e arg => s.call e arg
  | .setfl t fd arg => some (s.setfl t fd arg)
  | .fionbio t fd arg => some (s.fionbio t fd arg)

/-! ### Accept, send and receive, up to their end or the first wait -/

inductive Outcome
  | returns (r : Int)
  | waits
  deriving DecidableEq

/-- `child` is what is returned for the connection at the head of the queue. -/
def tcpSockAccept (nonblock listening : Bool) (child : Option Int) : Outcome :=
  if !listening then .returns (-1)
  else match child with
    | some fd => .returns fd
    | none => if nonblock then .returns (-1) else .waits

/-- This and the next are on a socket with a control block. -/
def tcpSockSendto (nonblock : Bool) (dev : NetDev) (c : Conn) (w : World) (src : List Byte) : Outcome :=
  if c.tcb.CanSend then
    let c' := sendLoop w.tx nonblock { c with tries := 0 } src
    let written := c'.accepted.length - c.accepted.length
    if 0 < sendSleeps dev c.tcb.remoteIp w c'.tries ∨ src.drop written ≠ [] ∧ nonblock = false then .waits
    else .returns written
  else .returns (-1)

def tcpSockRecvfrom (nonblock : Bool) (t : Tcb) (len : Nat) : Outcome :=
  if tcpRxAvailable t = 0 then
    if t.finReceived ∨ t.state = .closeWait ∨ t.state = .closed then .returns 0
    else if nonblock then .returns (-1) else .waits
  else .returns (min len (tcpRxAvailable t))

/-- The end of `udp_sock_sendto` and `raw_icmp_sock_sendto`; `sent` is whether `eth_tx` succeeds. -/
def ipSend (dev : NetDev) (dst : Ip) (arp : Nat → Bool) (sent : Bool) (len : Nat) : Outcome :=
  if 0 < ipTxSleeps dev dst arp then .waits else .returns (if sent then len else -1)

/-- `dest` is the address given or connected to, `port` whether the socket is bound or can be. -/
def udpSockSendto (dest : Option Ip) (port : Bool) (route : Option NetDev) (mem : Bool) (arp : Nat → Bool) (sent : Bool)
    (len : Nat) : Outcome :=
  match dest, port, route with
  | some dst, true, some dev =>
    if 8 + len > 65535 ∨ mem = false then .returns (-1) else ipSend dev dst arp sent len
  | _, _, _ => .returns (-1)

def rawIcmpSockSendto (dest : Option Ip) (route : Option NetDev) (mem : Bool) (arp : Nat → Bool) (sent : Bool)
    (len : Nat) : Outcome :=
  match dest, route with
  | some dst, some dev => if mem then ipSend dev dst arp sent len else .returns (-1)
  | _, _ => .returns (-1)

/-- The loops of `udp_sock_recvfrom` and `raw_icmp_sock_recvfrom`; `queued` is the data in the first buffer. -/
def recvQueued (nonblock signal : Bool) (queued : Option Nat) (len : Nat) : Outcome :=
  match queued with
  | some n => .returns (min len n)
  | none => if signal then .returns (-2) else if nonblock then .returns (-1) else .waits

def udpSockRecvfrom (nonblock signal : Bool) (skb : Option Nat) (len : Nat) : Outcome :=
  recvQueued nonblock signal (skb.map (· - 8)) len

def rawIcmpSockRecvfrom (nonblock signal : Bool) (skb : Option Nat) (len : Nat) : Outcome :=
  recvQueued nonblock signal skb len

/-- Nothing sets the field `nonblock` that a `unix_sock_t` has, too. -/
def unixAccept (nonblock listening : Bool) (child : Option Int) : Outcome :=
  if !listening then .returns (-EINVAL)
  else match child with
    | some r => .returns r
    | none => if nonblock then .returns (-EAGAIN) else .waits

/-- The loop of `unix_sendto`: `took k` is what the `k`-th `ring_write` takes, and some bytes each time but the last. -/
def unixSendLoop (nonblock : Bool) (took : Nat → Nat) (len : Nat) : Nat → Nat → Nat → Outcome
  | 0, _, written => .returns written
  | rounds + 1, k, written =>
    let stop : Outcome := .returns (if written = 0 then -EAGAIN else written)
    if len ≤ written then stop
    else if took k = 0 then (if nonblock then stop else .waits)
    else unixSendLoop nonblock took len rounds (k + 1) (written + took k)

def unixSendto (nonblock connected shutWr peerGone : Bool) (took : Nat → Nat) (len : Nat) : Outcome :=
  if !connected then .returns (-ENOTCONN)
  else if shutWr || peerGone then .returns (-EPIPE)
  else unixSendLoop nonblock took len (len + 1) 0 0

def unixRecvfrom (nonblock usable shutRd peerGone : Bool) (queued len : Nat) : Outcome :=
  if !usable then .returns (-ENOTCONN)
  else if shutRd then .returns 0
  else if min len queued ≠ 0 then .returns (min len queued)
  else if peerGone then .returns 0
  else if nonblock then .returns (-EAGAIN) else .waits

/-- An operation, with what it finds. -/
inductive SockOp
  | tcpAccept (listening : Bool) (child : Option Int)
  | tcpSendto (dev : NetDev) (c : Conn) (w : World) (src : List Byte)
  | tcpRecvfrom (t : Tcb) (len : Nat)
  | udpSendto (dest : Option Ip) (port : Bool) (route : Option NetDev) (mem : Bool) (arp : Nat → Bool) (sent : Bool)
    (len : Nat)
  | udpRecvfrom (signal : Bool) (skb : Option Nat) (len : Nat)
  | rawIcmpSendto (dest : Option Ip) (route : Option NetDev) (mem : Bool) (arp : Nat → Bool) (sent : Bool) (len : Nat)
  | rawIcmpRecvfrom (signal : Bool) (skb : Option Nat) (len : Nat)
  | unixAccept (listening : Bool) (child : Option Int)
  | unixSendto (connected shutWr peerGone : Bool) (took : Nat → Nat) (len : Nat)
  | unixRecvfrom (usable shutRd peerGone : Bool) (queued len : Nat)

def SockOp.run (nonblock : Bool) : SockOp → Outcome
  | .tcpAccept listening child => tcpSockAccept nonblock listening child
  | .tcpSendto dev c w src => tcpSockSendto nonblock dev c w src
  | .tcpRecvfrom t len => tcpSockRecvfrom nonblock t len
  | .udpSendto dest port route mem arp sent len => udpSockSendto dest port route mem arp sent len
  | .udpRecvfrom signal skb len => udpSockRecvfrom nonblock signal skb len
  | .rawIcmpSendto dest route mem arp sent len => rawIcmpSockSendto dest route mem arp sent len
  | .rawIcmpRecvfrom signal skb len => rawIcmpSockRecvfrom nonblock signal skb len
  | .unixAccept listening child => SockFiles.unixAccept nonblock listening child
  | .unixSendto connected shutWr peerGone took len => SockFiles.unixSendto nonblock connected shutWr peerGone took len
  | .unixRecvfrom usable shutRd peerGone queued len => SockFiles.unixRecvfrom nonblock usable shutRd peerGone queued len

/-- The first lookup of the next hop succeeds, or none is needed. -/
def Answered (dev : NetDev) (dst : Ip) (arp : Nat → Bool) : Prop := CanSleep dev dst → arp 0 = true

/-- Whatever the operation sends over IP finds the address of its next hop at once. -/
def SockOp.Answered : SockOp → Prop
  | .tcpSendto dev c w _ => ∀ j, SockFiles.Answered dev c.tcb.remoteIp (w.arp j)
  | .udpSendto (some dst) _ (some dev) _ arp _ _ | .rawIcmpSendto (some dst) (some dev) _ arp _ _ =>
    SockFiles.Answered dev dst arp
  | _ => True

def operate (s : SockFiles) (t : TaskId) (fd : Int) (op : SockOp) : Option Outcome :=
  (fdGet s.kernel t fd).bind fun f => (s.nonblock f).map op.run

structure OneMode (s : SockFiles) : Prop where
  agree : ∀ t fd f b, fdGet s.kernel t fd = some f → s.nonblock f = some b → isNonblock (s.flags f) = b
  neverWaits : ∀ t fd flags (op : SockOp), op.Answered → s.getfl t fd = some flags → isNonblock flags →
    s.operate t fd op ≠ some .waits

/-- No socket is made in non-blocking mode, and `F_SETFL` does not change the mode of a socket. -/
def Synced (s : SockFiles) : SockEvent → Prop
  | .call (.socket ..) arg | .call (.socketpair ..) arg | .call (.accept ..) arg => isNonblock arg = false
  | .setfl t fd arg => ∀ f b, fdGet s.kernel t fd = some f → s.nonblock f = some b → isNonblock arg = b
  | _ => True

variable {s s' : SockFiles}

def Agree (s : SockFiles) : Prop := ∀ f b, s.nonblock f = some b → isNonblock (s.flags f) = b

theorem isNonblock_eq (flags : BitVec 32) : isNonblock flags = flags.getLsbD 11 := by
  have htwo : O_NONBLOCK = BitVec.twoPow 32 11 := rfl
  rw [isNonblock, htwo, BitVec.and_twoPow]
  cases flags.getLsbD 11 <;> rfl

theorem setFlags_flags (s : SockFiles) (f g : FileId) (flags : BitVec 32) :
    (s.setFlags f flags).flags g = if g = f then flags else s.flags g := Function.update_apply ..

theorem syncSocketNonblock_nonblock (s : SockFiles) (f g : FileId) : (s.syncSocketNonblock f).nonblock g =
    if g = f then (s.nonblock f).map fun _ => isNonblock (s.flags f) else s.nonblock g := Function.update_apply ..

theorem isNonblock_socketFlags (o : Option FileOps) : isNonblock (socketFlags o) = false := by
  unfold socketFlags
  split <;> rfl

theorem Agree.created {e : Fs.Event} {arg : BitVec 32} {k : Kernel} {f : FileId} {b : Bool}
    (hc : Synced s (.call e arg)) (hb : (created e arg k f).2 = some b) : isNonblock (created e arg k f).1 = b := by
  cases e
  case socket | socketpair =>
    cases hb
    exact (isNonblock_socketFlags _).trans (Eq.symm hc)
  case accept =>
    cases hb
    have hno : isNonblock arg = false := hc
    simp only [SockFiles.created, hno, Bool.false_eq_true, and_false]
    exact isNonblock_socketFlags _
  all_goals cases hb

theorem Agree.setFlags (h : Agree s) {f : FileId} {flags : BitVec 32}
    (hf : ∀ b, s.nonblock f = some b → isNonblock flags = b) : Agree (s.setFlags f flags) := by
  intro g b hb
  rw [setFlags_flags]
  split
  next hg =>
    subst hg
    exact hf b hb
  next => exact h g b hb

theorem Agree.step {e : SockEvent} (h : Agree s) (hc : Synced s e) (hs : step s e = some s') : Agree s' := by
  cases e with
  | call e arg =>
    rw [SockFiles.step, SockFiles.call, Option.map_eq_some_iff] at hs
    obtain ⟨k, -, rfl⟩ := hs
    intro f b hb
    dsimp only at hb ⊢
    split at hb
    next hnew =>
      rw [if_pos hnew]
      exact Agree.created hc hb
    next hold =>
      rw [if_neg hold]
      exact h f b hb
  | setfl t fd arg =>
    cases hs
    unfold SockFiles.setfl
    split
    next f hf =>
      refine h.setFlags fun b hb => ?_
      rw [← hc f b hf hb, isNonblock_eq, isNonblock_eq]
      simp [O_ACCMODE]
    · exact h
  | fionbio t fd arg =>
    cases hs
    unfold SockFiles.fionbio
    split
    next f nb _ =>
      intro g b hb
      rw [syncSocketNonblock_nonblock] at hb
      split at hb
      next hg =>
        -- the field is computed from the new flags
        subst hg
        rw [Option.map_eq_some_iff] at hb
        obtain ⟨-, -, hb⟩ := hb
        exact hb
      next hg =>
        rw [syncSocketNonblock, setFlags_flags, if_neg hg]
        exact h g b hb
    · exact h

/-! ### What a non-blocking operation waits for -/

theorem Answered.sleeps {dev : NetDev} {dst : Ip} {arp : Nat → Bool} (h : Answered dev dst arp) :
    ipTxSleeps dev dst arp = 0 := by
  by_cases hc : CanSleep dev dst
  · rw [ipTxSleeps, if_neg hc.1, arpRetrySleeps, if_pos (.inr (.inr (h hc)))]
  · exact ipTxSleeps_eq_zero hc arp

theorem Answered.ipSend {dev : NetDev} {dst : Ip} {arp : Nat → Bool} (h : Answered dev dst arp) (sent : Bool)
    (len : Nat) : ipSend dev dst arp sent len ≠ .waits := by
  rw [SockFiles.ipSend, h.sleeps, if_neg (Nat.lt_irrefl 0)]
  exact nofun

theorem unixSendLoop_ne_waits (took : Nat → Nat) (len rounds k written : Nat) :
    unixSendLoop true took len rounds k written ≠ .waits := by
  induction rounds generalizing k written with
  | zero => exact nofun
  | succ rounds ih =>
    simp only [unixSendLoop, ↓reduceIte]
    split_ifs
    all_goals first | exact ih _ _ | exact nofun

theorem SockOp.Answered.run {op : SockOp} (h : op.Answered) : op.run true ≠ .waits := by
  cases op with
  | tcpAccept listening child => cases listening <;> cases child <;> exact nofun
  | tcpSendto dev c w src =>
    have hz : ∀ n, sendSleeps dev c.tcb.remoteIp w n = 0 := sendSleeps_eq_zero fun j => (h j).sleeps
    simp only [SockOp.run, tcpSockSendto, hz]
    split_ifs with hs hw
    · exact absurd hw (by simp)
    · exact nofun
    · exact nofun
  | tcpRecvfrom t len =>
    simp only [SockOp.run, tcpSockRecvfrom, ↓reduceIte]
    split_ifs <;> exact nofun
  | udpSendto dest port route mem arp sent len =>
    simp only [SockOp.run, udpSockSendto]
    split
    · split_ifs
      · exact nofun
      · exact Answered.ipSend h sent len
    · exact nofun
  | rawIcmpSendto dest route mem arp sent len =>
    simp only [SockOp.run, rawIcmpSockSendto]
    split
    · split_ifs
      · exact Answered.ipSend h sent len
      · exact nofun
    · exact nofun
  | udpRecvfrom signal skb len | rawIcmpRecvfrom signal skb len => cases skb <;> cases signal <;> exact nofun
  | unixAccept listening child => cases listening <;> cases child <;> exact nofun
  | unixSendto connected shutWr peerGone took len =>
    simp only [SockOp.run, SockFiles.unixSendto]
    split_ifs
    · exact nofun
    · exact nofun
    · exact unixSendLoop_ne_waits took len _ _ _
  | unixRecvfrom usable shutRd peerGone queued len =>
    simp only [SockOp.run, SockFiles.unixRecvfrom, ↓reduceIte]
    split_ifs <;> exact nofun

theorem Agree.oneMode (h : Agree s) : OneMode s where
  agree _ _ f b _ hb := h f b hb
  neverWaits t fd flags op ha hfl hnon hop := by
    rw [getfl, Option.map_eq_some_iff] at hfl
    obtain ⟨f, hf, rfl⟩ := hfl
    rw [operate, hf, Option.bind_some, Option.map_eq_some_iff] at hop
    obtain ⟨b, hb, hop⟩ := hop
    obtain rfl : true = b := hnon.symm.trans (h f b hb)
    exact ha.run hop

theorem sleep_mem_locked {i n : Nat} {rest : LockTrace} :
    LockEvent.sleep ∈ locked i n rest ↔ 0 < n ∨ LockEvent.sleep ∈ rest := by
  simp [locked, Nat.pos_iff_ne_zero]

/-- The sleeps that are part of the lock trace are these waits. -/
theorem tcpSockSendto_waits (i : Nat) (nonblock : Bool) (dev : NetDev) (c : Conn) (w : World)
    (later : List (Conn × World)) (src : List Byte) : tcpSockSendto nonblock dev c w src = .waits ↔
      LockEvent.sleep ∈ tcpSockSendtoEvents i dev c.tcb.remoteIp nonblock ((c, w) :: later) src := by
  unfold tcpSockSendto tcpSockSendtoEvents
  dsimp only
  split
  · rw [sleep_mem_locked]
    generalize List.drop _ src = left
    cases nonblock <;> by_cases hl : left = [] <;> simp [hl]
  · simp [sleep_mem_locked]

theorem tcpSockRecvfrom_waits (i : Nat) (nonblock : Bool) (c : Conn) (later : List Conn) (len : Nat) :
    tcpSockRecvfrom nonblock c.tcb len = .waits ↔ LockEvent.sleep ∈ tcpSockRecvfromEvents i nonblock (c :: later) := by
  unfold tcpSockRecvfrom tcpSockRecvfromEvents
  rw [sleep_mem_locked]
  split_ifs <;> simp_all

/-- One mode, in every run in which the calls that write one copy only do not change it. -/
theorem nonblock_agrees {s0 : SockFiles} {es : List SockEvent} (h0 : ∀ f, s0.nonblock f = none)
    (h : Run step Synced s0 es s) : OneMode s := by
  have hagree : Agree s := by
    refine h.inv (fun _ _ _ hI hC hs => hI.step hC hs) fun f b hb => ?_
    rw [h0] at hb
    cases hb
  exact hagree.oneMode

def boot : SockFiles := { kernel := Fs.boot, flags := fun _ => 0, nonblock := fun _ => none }

/-- `FIONBIO` on a new socket. -/
theorem nonblock_agrees_fionbio : ∃ s, Run step Synced boot
    [.call (.socket 0 .unix (fun _ => true) false) 1, .fionbio 0 0 (some 1)] s ∧ OneMode s := by
  have hrun : ∃ s, Run step Synced boot
      [.call (.socket 0 .unix (fun _ => true) false) 1, .fionbio 0 0 (some 1)] s :=
    ⟨_, .cons rfl rfl (.cons trivial rfl (.nil _))⟩
  obtain ⟨s, h⟩ := hrun
  exact ⟨s, h, nonblock_agrees (fun _ => rfl) h⟩

/-- A connected socket with nothing to read. -/
def emptyRecv : SockOp := .unixRecvfrom true false false 0 8

/-- To a host on the same network that has not been heard of. -/
def firstDatagram : SockOp :=
  .udpSendto (some 0x0200000A) true (some (sampleDev 0x0100000A)) true (fun _ => false) true 1

/-- `F_SETFL` on a new socket, which then waits in receive; a socket made with `SOCK_NONBLOCK`, whose flags do not say
so; and a datagram that waits for an address, with both copies set. -/
theorem nonblock_split :
    (∃ s, Run step Any boot [.call (.socket 0 .unix (fun _ => true) false) 1, .setfl 0 0 O_NONBLOCK] s ∧
      s.getfl 0 0 = some 0x802 ∧ s.operate 0 0 emptyRecv = some .waits ∧ ¬ OneMode s) ∧
    (∃ s, Run step Any boot [.call (.socket 0 .unix (fun _ => true) false) 0x801] s ∧
      s.getfl 0 0 = some 2 ∧ s.operate 0 0 emptyRecv = some (.returns (-EAGAIN)) ∧ ¬ OneMode s) ∧
    ∃ s, Run step Synced boot [.call (.socket 0 .inet (fun _ => true) false) 2, .fionbio 0 0 (some 1)] s ∧
      s.getfl 0 0 = some O_NONBLOCK ∧ s.operate 0 0 firstDatagram = some .waits := by
  refine ⟨?_, ?_, ?_⟩
  · refine ⟨_, .cons trivial rfl (.cons trivial rfl (.nil _)), by decide, by decide, fun h => ?_⟩
    exact h.neverWaits 0 0 0x802 emptyRecv trivial (by decide) (by decide) (by decide)
  · refine ⟨_, .cons trivial rfl (.nil _), by decide, by decide, fun h => ?_⟩
    exact absurd (h.agree 0 0 0 true (by decide) (by decide)) (by decide)
  · exact ⟨_, .cons rfl rfl (.cons trivial rfl (.nil _)), by decide, by decide⟩

end SockFiles

end ExoOS.Net
