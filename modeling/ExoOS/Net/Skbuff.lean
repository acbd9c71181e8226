import ExoOS.Lib.Linear
import ExoOS.Net.Datagram
import ExoOS.Net.TcpStack

/-!
# Who frees a packet buffer

The functions of the network stack as far as they handle buffers. A buffer is a number; it is given up when it is freed
or put into a socket's receive queue. Whether an allocation succeeds, whether the ARP cache knows an address and
whether the device takes a frame are the answers of an environment to successive questions. `eth_tx` and the device
only read the buffer they are given.
-/

namespace ExoOS.Net

inductive SkbEvent
  | free (skb : Nat)
  | queue (sk skb : Nat)
deriving DecidableEq

def SkbEvent.skb : SkbEvent → Nat
  | .free skb => skb
  | .queue _ skb => skb

structure Skbs where
  ledger : Ledger SkbEvent
  /-- Questions the environment has answered. -/
  asked : Nat
deriving DecidableEq

namespace Skbs

variable (env : Nat → Bool)

def ask (s : Skbs) : Bool × Skbs := (env s.asked, { s with asked := s.asked + 1 })

def skbAlloc (s : Skbs) : Option Nat × Skbs :=
  match s.ask env with
  | (true, s) => (some s.ledger.next, { s with ledger := s.ledger.issue })
  | (false, s) => (none, s)

def skbFree (s : Skbs) (skb : Nat) : Skbs := { s with ledger := s.ledger.give (.free skb) }

def skbQueuePush (s : Skbs) (sk skb : Nat) : Skbs := { s with ledger := s.ledger.give (.queue sk skb) }

/-- `eth_tx`, which returns what `netdev_transmit` returns. -/
def ethTx (s : Skbs) : Bool × Skbs := s.ask env

def arpSend (s : Skbs) : Bool × Skbs :=
  match s.skbAlloc env with
  | (none, s) => (false, s)
  | (some skb, s) =>
    let r := s.ethTx env
    (r.1, r.2.skbFree skb)

def arpResolve (ip : Ip) (s : Skbs) : Bool × Skbs :=
  if ip = IP4_BROADCAST ∨ ip = 0 then (true, s)
  else match s.ask env with
    | (true, s) => (true, s)
    | (false, s) => (false, (s.arpSend env).2)

def arpRetry (ip : Ip) : Nat → Skbs → Bool × Skbs
  | 0, s => (false, s)
  | tries + 1, s =>
    match s.arpResolve env ip with
    | (true, s) => (true, s)
    | (false, s) => arpRetry ip tries s

def ipTx (dev : NetDev) (dstIp : Ip) (s : Skbs) : Bool × Skbs :=
  let nextHop := if dstIp &&& dev.netmask = dev.ipAddr &&& dev.netmask then dstIp else dev.gateway
  if dstIp = IP4_BROADCAST ∨ dstIp = (dev.ipAddr &&& dev.netmask) ||| ~~~dev.netmask then s.ethTx env
  else match s.arpRetry env nextHop 3 with
    | (true, s) => s.ethTx env
    | (false, s) => (false, s)

/-- `udp_tx`: the buffer is not freed. -/
def udpTx (dev : NetDev) (dstIp : Ip) (data : List Byte) (s : Skbs) : Bool × Skbs :=
  if UDP_HDR_SIZE + data.length > 65535 then (false, s)
  else match s.skbAlloc env with
    | (none, s) => (false, s)
    | (some _, s) => s.ipTx env dev dstIp

/-- `icmp_send_echo`: the buffer is not freed. -/
def icmpSendEcho (dev : NetDev) (dstIp : Ip) (s : Skbs) : Bool × Skbs :=
  match s.skbAlloc env with
  | (none, s) => (false, s)
  | (some _, s) => s.ipTx env dev dstIp

/-- `tcp_send_segment`, `tcp_send_ack` and `tcp_send_rst` do the same with their buffer. -/
def tcpSend (dev : NetDev) (dstIp : Ip) (s : Skbs) : Bool × Skbs :=
  match s.skbAlloc env with
  | (none, s) => (false, s)
  | (some skb, s) =>
    let r := s.ipTx env dev dstIp
    (r.1, r.2.skbFree skb)

/-- What the receiving functions look up. -/
structure Tables where
  binds : List UdpBind
  /-- The sockets in `g_raw_icmp_socks`. -/
  raws : List Nat
  tcp : Stack
  /-- `tcb->dev`, by slot. -/
  tcbDev : Nat → NetDev

/-- Every raw socket gets a copy, if there is memory for it. -/
def socketDeliverIcmpRx (raws : List Nat) (s : Skbs) : Skbs :=
  raws.foldl (fun s sk => match s.skbAlloc env with
    | (none, s) => s
    | (some copy, s) => s.skbQueuePush sk copy) s

/-- `icmp_rx`: the buffer of the reply is not freed. -/
def icmpRx (tb : Tables) (dev : NetDev) (p : IpPacket) (skb : Nat) (s : Skbs) : Skbs :=
  match icmpParse p with
  | none => s.skbFree skb
  | some msg =>
    let s := s.socketDeliverIcmpRx env tb.raws
    if byteAt msg 0 = ICMP_ECHO_REQUEST then
      match s.skbAlloc env with
      | (none, s) => s.skbFree skb
      | (some _, s) => (s.ipTx env dev p.srcIp).2.skbFree skb
    else s.skbFree skb

/-- The buffers of `Net.icmpRx`: where that has a reply, a buffer for it is allocated and sent. -/
theorem icmpRx_eq (tb : Tables) (dev : NetDev) (ping : PingState) (p : IpPacket) (skb : Nat) (s : Skbs) :
    s.icmpRx env tb dev p skb =
      match Net.icmpRx (env (s.socketDeliverIcmpRx env tb.raws).asked) ping p with
      | none => s.skbFree skb
      | some r =>
        let s := s.socketDeliverIcmpRx env tb.raws
        let s := if byteAt r.raw 0 = ICMP_ECHO_REQUEST then (s.skbAlloc env).2 else s
        if r.reply.isSome then (s.ipTx env dev p.srcIp).2.skbFree skb else s.skbFree skb := by
  unfold Skbs.icmpRx Net.icmpRx
  cases icmpParse p with
  | none => rfl
  | some msg =>
    dsimp only [Option.map_some, icmpReply]
    by_cases htype : byteAt msg 0 = ICMP_ECHO_REQUEST
    · simp only [htype, if_true, true_and, skbAlloc, ask]
      cases env (s.socketDeliverIcmpRx env tb.raws).asked <;> rfl
    · simp only [htype, if_false, false_and]
      rfl

/-- `udp_rx`; `dhcp_rx_callback` frees the buffer on each of its paths. -/
def udpRx (tb : Tables) (p : IpPacket) (skb : Nat) (s : Skbs) : Skbs :=
  match udpParse p with
  | none => s.skbFree skb
  | some d =>
    match udpLookup tb.binds d.dstPort d.dstIp with
    | none => s.skbFree skb
    | some b =>
      match b.callback with
      | some (.sock (some sk)) => s.skbQueuePush sk skb
      | some (.sock none) => s.skbFree skb
      | some .dhcp => s.skbFree skb
      | none => s.skbFree skb

/-- The devices on which `tcp_rx` sends segments of its own before it returns, if it returns; `tx` and `bufs` are what
the connection sees of its transmissions and of the allocation of a child's buffers. -/
def tcpReplies (tb : Tables) (dev : NetDev) (tx : Nat → TxOutcome) (bufs : Bool) (p : Packet) : Option (List NetDev) :=
  match tcpParse p with
  | none => some []
  | some h =>
    match tb.tcp.tcpTcbLookup dev.ipAddr h.dstPort p.srcIp h.srcPort with
    | some i => do
      let (c, established) ← tcpProcess tx { tb.tcp.slots i with tries := 0 } h.seg
      if established then
        let _ ← (tb.tcp.setSlot i c).tcpAcceptEnqueue i
      some (List.replicate c.tries (tb.tcbDev i))
    | none =>
      match tb.tcp.tcpTcbLookupListen h.dstPort with
      | some _ =>
        if h.seg.flags.syn && !h.seg.flags.ack then some (if (tb.tcp.tcpTcbAlloc bufs).2.isSome then [dev] else [])
        else some (if h.seg.flags.rst then [] else [dev])
      | none => some (if h.seg.flags.rst then [] else [dev])

def tcpRx (tb : Tables) (dev : NetDev) (tx : Nat → TxOutcome) (bufs : Bool) (p : IpPacket) (skb : Nat) (s : Skbs) :
    Option Skbs :=
  (tcpReplies tb dev tx bufs { srcIp := p.srcIp, dstIp := p.dstIp, bytes := p.bytes }).map fun devs =>
    (devs.foldl (fun s d => (s.tcpSend env d p.srcIp).2) s).skbFree skb

def ipRx (tb : Tables) (dev : NetDev) (tx : Nat → TxOutcome) (bufs : Bool) (bytes : List Byte) (skb : Nat) (s : Skbs) :
    Option Skbs :=
  match Net.ipRx dev bytes with
  | none => some (s.skbFree skb)
  | some p =>
    if p.protocol = IPPROTO_ICMP then some (s.icmpRx env tb dev p skb)
    else if p.protocol = IPPROTO_UDP then some (s.udpRx tb p skb)
    else if p.protocol = IPPROTO_TCP then s.tcpRx env tb dev tx bufs p skb
    else some (s.skbFree skb)

def ARP_HDR_SIZE : Nat := 28
def ETH_HLEN : Nat := 14
def ETH_P_IP : Nat := 0x0800
def ETH_P_ARP : Nat := 0x0806

/-- `arp_rx`; what it does to the cache does not matter here. -/
def arpRx (dev : NetDev) (arp : List Byte) (skb : Nat) (s : Skbs) : Skbs :=
  if arp.length < ARP_HDR_SIZE then s.skbFree skb
  else if be16 arp 0 ≠ 1 ∨ be16 arp 2 ≠ ETH_P_IP then s.skbFree skb
  else if be16 arp 6 = 1 ∧ ipAt arp 24 = dev.ipAddr then (s.arpSend env).2.skbFree skb
  else s.skbFree skb

def ethRx (tb : Tables) (dev : NetDev) (tx : Nat → TxOutcome) (bufs : Bool) (frame : List Byte) (skb : Nat) (s : Skbs) :
    Option Skbs :=
  if frame.length < ETH_HLEN then some (s.skbFree skb)
  else if be16 frame 12 = ETH_P_IP then s.ipRx env tb dev tx bufs (frame.drop ETH_HLEN) skb
  else if be16 frame 12 = ETH_P_ARP then some (s.arpRx env dev (frame.drop ETH_HLEN) skb)
  else some (s.skbFree skb)

end Skbs

end ExoOS.Net
