import ExoOS.Net.Tcp

/-!
# Packets as bytes

What `ip_tx`, `udp_tx`, `icmp_send_echo` and `tcp_send_segment` put in front of a payload, and the tests and reads of
`ip_rx`, `udp_rx` and `icmp_rx` (those of `tcp_rx` are `tcpParse`). An address is a `uint32_t` that holds the bytes in
network order; ports and lengths are converted, a checksum is stored as it is computed.
-/

namespace ExoOS.Net

def IP_HDR_SIZE : Nat := 20
def UDP_HDR_SIZE : Nat := 8
def ICMP_HDR_SIZE : Nat := 8

def IPPROTO_ICMP : Byte := 1
def IPPROTO_TCP : Byte := 6
def IPPROTO_UDP : Byte := 17

def IP4_BROADCAST : Ip := 0xFFFFFFFF

def ICMP_ECHO_REPLY : Byte := 0
def ICMP_ECHO_REQUEST : Byte := 8

/-- The part of `netdev_t` the protocols read. -/
structure NetDev where
  ipAddr : Ip
  netmask : Ip
  gateway : Ip
  mac : List Byte

def sampleDev (ip : Ip) : NetDev := { ipAddr := ip, netmask := 0x00FFFFFF, gateway := 0, mac := [2, 0, 0, 0, 0, 1] }

def htons (v : BitVec 16) : List Byte := [v.extractLsb' 8 8, v.extractLsb' 0 8]

def htonl (v : BitVec 32) : List Byte :=
  [v.extractLsb' 24 8, v.extractLsb' 16 8, v.extractLsb' 8 8, v.extractLsb' 0 8]

def hostWord (v : Nat) : List Byte := [BitVec.ofNat 8 v, BitVec.ofNat 8 (v / 256)]

def le16 (p : List Byte) (i : Nat) : Nat := (byteAt p i).toNat + (byteAt p (i + 1)).toNat * 256

def ipAt (p : List Byte) (i : Nat) : Ip := BitVec.ofNat 32 (le16 p i + le16 p (i + 2) * 65536)

def inetChecksum (data : List Byte) : Nat := inetChecksumFold (inetChecksumPartial data)

/-! ### IPv4 -/

def ipHeader (id : BitVec 16) (len : Nat) (protocol : Byte) (csum : Nat) (srcIp dstIp : Ip) : List Byte :=
  [0x45, 0] ++ htons (BitVec.ofNat 16 len) ++ htons id ++ htons 0x4000 ++ [64, protocol] ++ hostWord csum ++
    ipBytes srcIp ++ ipBytes dstIp

/-- `ip_tx` up to the resolution of the next hop: the bytes behind the Ethernet header. -/
def ipPacket (id : BitVec 16) (srcIp dstIp : Ip) (protocol : Byte) (payload : List Byte) : List Byte :=
  let header := fun csum => ipHeader id (IP_HDR_SIZE + payload.length) protocol csum srcIp dstIp
  header (inetChecksum (header 0)) ++ payload

/-- What `ip_rx` hands to a transport protocol. -/
structure IpPacket where
  srcIp : Ip
  dstIp : Ip
  protocol : Byte
  bytes : List Byte

def clearWord (p : List Byte) (i : Nat) : List Byte := (p.set i 0).set (i + 1) 0

def ipRx (dev : NetDev) (p : List Byte) : Option IpPacket :=
  if p.length < IP_HDR_SIZE then none
  else if (byteAt p 0).toNat / 16 ≠ 4 then none
  else
    let hdrLen := (byteAt p 0).toNat % 16 * 4
    if hdrLen < 20 ∨ hdrLen > p.length then none
    else if inetChecksum (clearWord (p.take hdrLen) 10) ≠ le16 p 10 then none
    else
      let dst := ipAt p 16
      if dst ≠ dev.ipAddr ∧ dst ≠ IP4_BROADCAST ∧ dst ≠ 0 ∧
          dst &&& dev.netmask ≠ IP4_BROADCAST &&& dev.netmask then none
      else
        let total := be16 p 2
        if total < hdrLen ∨ total > p.length then none
        else some { srcIp := ipAt p 12, dstIp := dst, protocol := byteAt p 9, bytes := (p.take total).drop hdrLen }

/-! ### UDP -/

def pseudoChecksum (protocol : Byte) (srcIp dstIp : Ip) (seg : List Byte) : Nat :=
  let ph := ipBytes srcIp ++ ipBytes dstIp ++ [0, protocol] ++ htons (BitVec.ofNat 16 seg.length)
  inetChecksumFold ((inetChecksumPartial ph + inetChecksumPartial seg) % 2 ^ 32)

def udpChecksum (srcIp dstIp : Ip) (seg : List Byte) : Nat := pseudoChecksum IPPROTO_UDP srcIp dstIp seg

def udpSegment (srcPort dstPort : BitVec 16) (csum : Nat) (data : List Byte) : List Byte :=
  htons srcPort ++ htons dstPort ++ htons (BitVec.ofNat 16 (UDP_HDR_SIZE + data.length)) ++ hostWord csum ++ data

/-- `udp_tx` with a buffer: nothing is sent above 65535 bytes. -/
def udpTx (dev : NetDev) (id : BitVec 16) (dstIp : Ip) (srcPort dstPort : BitVec 16) (data : List Byte) :
    Option (List Byte) :=
  if UDP_HDR_SIZE + data.length > 65535 then none
  else
    let csum := udpChecksum dev.ipAddr dstIp (udpSegment srcPort dstPort 0 data)
    some (ipPacket id dev.ipAddr dstIp IPPROTO_UDP
      (udpSegment srcPort dstPort (if csum = 0 then 0xFFFF else csum) data))

/-- What a bound port gets: the arguments of its callback. -/
structure Datagram where
  srcIp : Ip
  srcPort : Nat
  dstIp : Ip
  dstPort : Nat
  payload : List Byte

def udpParse (p : IpPacket) : Option Datagram :=
  if p.bytes.length < UDP_HDR_SIZE then none
  else
    let udpLen := be16 p.bytes 4
    if udpLen < UDP_HDR_SIZE ∨ udpLen > p.bytes.length then none
    else if le16 p.bytes 6 ≠ 0 ∧ udpChecksum p.srcIp p.dstIp (p.bytes.take udpLen) ≠ 0 then none
    else some
      { srcIp := p.srcIp, srcPort := be16 p.bytes 0, dstIp := p.dstIp, dstPort := be16 p.bytes 2
        payload := (p.bytes.take udpLen).drop UDP_HDR_SIZE }

/-- `udp_sock_rx_callback` with its socket, or `dhcp_rx_callback`. -/
inductive UdpCallback
  | sock (sk : Option Nat)
  | dhcp

structure UdpBind where
  port : Nat
  addr : Ip
  callback : Option UdpCallback
  active : Bool

def udpLookup (binds : List UdpBind) (dstPort : Nat) (dstIp : Ip) : Option UdpBind :=
  binds.find? fun b => b.active && b.port == dstPort && (b.addr == 0 || b.addr == dstIp)

/-! ### ICMP -/

def icmpMessage (type : Byte) (csum : Nat) (id seq : BitVec 16) (data : List Byte) : List Byte :=
  [type, 0] ++ hostWord csum ++ htons id ++ htons seq ++ data

/-- `icmp_send_echo` with a buffer. -/
def icmpSendEcho (dev : NetDev) (ipId : BitVec 16) (dstIp : Ip) (id seq : BitVec 16) (data : List Byte) : List Byte :=
  let csum := inetChecksum (icmpMessage ICMP_ECHO_REQUEST 0 id seq data)
  ipPacket ipId dev.ipAddr dstIp IPPROTO_ICMP (icmpMessage ICMP_ECHO_REQUEST csum id seq data)

/-- The tests of `icmp_rx`: the message goes to every raw socket. -/
def icmpParse (p : IpPacket) : Option (List Byte) :=
  if p.bytes.length < ICMP_HDR_SIZE then none
  else if inetChecksum p.bytes ≠ 0 then none
  else some p.bytes

/-- The reply to an echo request: type, code and checksum are new. `mem` is whether `skb_alloc` has a buffer for it. -/
def icmpReply (mem : Bool) (msg : List Byte) : Option (List Byte) :=
  if byteAt msg 0 = ICMP_ECHO_REQUEST ∧ mem then
    let reply := fun csum => [ICMP_ECHO_REPLY, 0] ++ hostWord csum ++ msg.drop 4
    some (reply (inetChecksum (reply 0)))
  else none

/-- `ping_state_t`, without its two ticks that nobody reads. -/
structure PingState where
  targetIp : Ip
  id : Nat
  lastSeq : Nat
  replyReceived : Bool

def icmpPing (ping : PingState) (srcIp : Ip) (msg : List Byte) : PingState :=
  if byteAt msg 0 = ICMP_ECHO_REPLY ∧ srcIp = ping.targetIp ∧ be16 msg 4 = ping.id ∧ be16 msg 6 = ping.lastSeq then
    { ping with replyReceived := true }
  else ping

/-- What `icmp_rx` does with a message that passes its tests: the raw sockets' copy, the reply and the tracker. -/
structure IcmpResult where
  raw : List Byte
  reply : Option (List Byte)
  ping : PingState

def icmpRx (mem : Bool) (ping : PingState) (p : IpPacket) : Option IcmpResult :=
  (icmpParse p).map fun msg => { raw := msg, reply := icmpReply mem msg, ping := icmpPing ping p.srcIp msg }

/-! ### TCP -/

def Flags.toByte (f : Flags) : Byte :=
  BitVec.ofNat 8 (f.fin.toNat + f.syn.toNat * 2 + f.rst.toNat * 4 + f.psh.toNat * 8 + f.ack.toNat * 16)

def tcpSegment (srcPort dstPort : BitVec 16) (csum : Nat) (s : Segment) : List Byte :=
  htons srcPort ++ htons dstPort ++ htonl s.seq ++ htonl s.ack ++
    [BitVec.ofNat 8 ((TCP_HDR_SIZE + s.opts.length) / 4 * 16), s.flags.toByte] ++ htons (BitVec.ofNat 16 s.window) ++
    hostWord csum ++ [0, 0] ++ s.opts ++ s.data

/-- The bytes `tcp_send_segment` hands to `ip_tx` for the segment it builds. -/
def tcpTx (id : BitVec 16) (t : Tcb) (s : Segment) : List Byte :=
  let seg := fun csum => tcpSegment (BitVec.ofNat 16 t.localPort) (BitVec.ofNat 16 t.remotePort) csum s
  ipPacket id t.localIp t.remoteIp IPPROTO_TCP (seg (tcpChecksum t.localIp t.remoteIp (seg 0)))

end ExoOS.Net
