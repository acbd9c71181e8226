import ExoOS.Net.Tcp

/-!
# The table of connections

`g_tcbs` with what works on it: `tcp_tcb_alloc`, the lookups, `tcp_rx` on a raw packet, and the socket calls
that open connections. Everything that happens to one connection is `Net.step` on its slot. The record of a
slot's accesses survives the slot's reuse.
-/

namespace ExoOS.Net

def TCP_MAX_TCB : Nat := 128

structure Stack where
  /-- `g_tcbs`, by index. -/
  slots : Nat → Conn
  isn : Seq
  /-- Slots whose `connect` call waits for the handshake. -/
  connecting : List Nat
  /-- RSTs sent for segments that belong to no connection. -/
  rsts : List Segment

def Stack.init : Stack :=
  { slots := fun _ => { tcb := { tcpTcbAlloc 0 with active := false } }
    isn := 0x12345678, connecting := [], rsts := [] }

namespace Stack

def setSlot (s : Stack) (i : Nat) (c : Conn) : Stack := { s with slots := Function.update s.slots i c }

/-- A connection opened in slot `i`; the accesses of its predecessors stay on record. -/
def openSlot (s : Stack) (i : Nat) (c : Conn) : Stack :=
  s.setSlot i { c with acc := (s.slots i).acc ++ c.acc }

def freeSlot (s : Stack) (i : Nat) : Stack :=
  s.setSlot i ((s.slots i).setTcb (tcpTcbFree (s.slots i).tcb))

def findSlot (s : Stack) (p : Tcb → Bool) : Option Nat :=
  (List.range TCP_MAX_TCB).find? fun i => p (s.slots i).tcb

def unusedSlot (s : Stack) : Option Nat := s.findSlot fun t => !t.active

def tcpTcbLookup (s : Stack) (localIp : Ip) (localPort : Nat) (remoteIp : Ip) (remotePort : Nat) : Option Nat :=
  s.findSlot fun t => t.active && t.localPort == localPort && t.remotePort == remotePort &&
    (t.localIp == 0 || t.localIp == localIp) && t.remoteIp == remoteIp

def tcpTcbLookupListen (s : Stack) (localPort : Nat) : Option Nat :=
  s.findSlot fun t => t.active && decide (t.state = .listen) && t.localPort == localPort

/-- `tcp_tcb_alloc`: a slot and its fresh block, unless the table is full. If the ring buffers cannot be
allocated the slot stays unused. -/
def tcpTcbAlloc (s : Stack) (bufs : Bool) : Stack × Option (Nat × Tcb) :=
  match s.unusedSlot with
  | none => (s, none)
  | some i =>
    let t := Net.tcpTcbAlloc s.isn
    let s := { s with isn := s.isn + 64000 }
    if bufs then (s, some (i, t)) else (s.openSlot i { tcb := { t with active := false } }, none)

/-- `tcp_accept_enqueue`. With a full queue it frees the child, whose lock `tcp_rx` holds: it never returns. -/
def tcpAcceptEnqueue (s : Stack) (child : Nat) : Option Stack :=
  match (s.slots child).tcb.listener with
  | none => some s
  | some l =>
    let c := s.slots l
    if c.tcb.acceptQueue.Full then none
    else some (s.setSlot l (c.setTcb { c.tcb with acceptQueue := c.tcb.acceptQueue.push child }))

def tcpHandleSyn (s : Stack) (env : Nat → TxOutcome) (bufs : Bool) (devIp : Ip) (l : Nat) (srcIp : Ip)
    (h : Header) : Option Stack :=
  match s.tcpTcbAlloc bufs with
  | (s, none) => some s
  | (s, some (i, t)) => do
    let c ← Net.tcpHandleSyn env { t with
      localIp := devIp, localPort := (s.slots l).tcb.localPort, remoteIp := srcIp, remotePort := h.srcPort
      listener := some l } h.seg
    some (s.openSlot i c)

def tcpRst (s : Stack) (env : Nat → TxOutcome) (seg : Segment) : Stack :=
  if seg.flags.rst then s
  else if (env 0).skb && (env 0).ip then
    let len := seqConsumed seg.flags seg.data.length
    let rst : Segment :=
      { seq := if seg.flags.ack then seg.ack else 0
        ack := if seg.flags.ack then 0 else seg.seq + BitVec.ofNat 32 len
        flags := { rst := true, ack := true }, window := 0 }
    { s with rsts := s.rsts ++ [rst] }
  else s

def tcpRx (s : Stack) (env : Nat → TxOutcome) (bufs : Bool) (devIp : Ip) (p : Packet) : Option Stack :=
  match tcpParse p with
  | none => some s
  | some h =>
    match s.tcpTcbLookup devIp h.dstPort p.srcIp h.srcPort with
    | some i => do
      let (c, established) ← tcpProcess env { s.slots i with tries := 0 } h.seg
      let s := s.setSlot i c
      if established then s.tcpAcceptEnqueue i else some s
    | none =>
      match s.tcpTcbLookupListen h.dstPort with
      | some l =>
        if h.seg.flags.syn && !h.seg.flags.ack then s.tcpHandleSyn env bufs devIp l p.srcIp h
        else some (s.tcpRst env h.seg)
      | none => some (s.tcpRst env h.seg)

/-! ### Socket calls that open connections -/

/-- `tcp_sock_connect` up to the wait. `route` is the address of the device `ip_route` finds; the local port
is the bound or the ephemeral one. -/
def tcpSockConnect (s : Stack) (env : Nat → TxOutcome) (bufs : Bool) (route : Option Ip) (remoteIp : Ip)
    (remotePort localPort : Nat) : Stack :=
  match s.tcpTcbAlloc bufs with
  | (s, none) => s
  | (s, some (i, t)) =>
    match route with
    | none => s.openSlot i { tcb := tcpTcbFree t }
    | some devIp =>
      let t := { t with
        localIp := devIp, localPort := localPort, remoteIp := remoteIp, remotePort := remotePort }
      let s := s.openSlot i (tcpConnect env t)
      { s with connecting := i :: s.connecting }

/-- `tcp_sock_connect` after the wait: unless the handshake succeeded the block is freed. -/
def tcpSockConnected (s : Stack) (i : Nat) : Option Stack :=
  let t := (s.slots i).tcb
  if i ∈ s.connecting ∧ ¬ (t.state = .synSent ∧ t.soError = 0) then
    let s := { s with connecting := s.connecting.erase i }
    some (if t.state = .established then s else s.freeSlot i)
  else none

def tcpSockListen (s : Stack) (bufs : Bool) (ip : Ip) (port : Nat) : Stack :=
  match s.tcpTcbAlloc bufs with
  | (s, none) => s
  | (s, some (i, t)) => s.openSlot i { tcb := { t with localIp := ip, localPort := port, state := .listen } }

/-- `tcp_sock_accept` with a child in the queue; `ok` says that socket and file could be allocated. -/
def tcpSockAccept (s : Stack) (l : Nat) (ok : Bool) : Option Stack :=
  let c := s.slots l
  if c.tcb.state = .listen ∧ c.tcb.acceptQueue.head ≠ c.tcb.acceptQueue.tail then
    let child := c.tcb.acceptQueue.cell 0
    let s := s.setSlot l (c.setTcb { c.tcb with acceptQueue := c.tcb.acceptQueue.advance 1 })
    some (if ok then s else s.freeSlot child)
  else none

end Stack

inductive StackEvent
  | connect (env : Nat → TxOutcome) (bufs : Bool) (route : Option Ip) (remoteIp : Ip) (remotePort localPort : Nat)
  | connected (i : Nat)
  | listen (bufs : Bool) (ip : Ip) (port : Nat)
  | accept (l : Nat) (ok : Bool)
  | rx (env : Nat → TxOutcome) (bufs : Bool) (devIp : Ip) (p : Packet)
  /-- A socket call or a timer of the connection in a slot. -/
  | conn (i : Nat) (e : Event)

/-- Segments reach a connection through `tcp_rx` only. -/
def stackStep (s : Stack) : StackEvent → Option Stack
  | .connect env bufs route remoteIp remotePort localPort =>
    some (s.tcpSockConnect env bufs route remoteIp remotePort localPort)
  | .connected i => s.tcpSockConnected i
  | .listen bufs ip port => some (s.tcpSockListen bufs ip port)
  | .accept l ok => s.tcpSockAccept l ok
  | .rx env bufs devIp p => s.tcpRx env bufs devIp p
  | .conn _ (.rx _ _) => none
  | .conn i e => (step (s.slots i) e).map fun c => s.setSlot i c

end ExoOS.Net
