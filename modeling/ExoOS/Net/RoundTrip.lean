import ExoOS.Lib.OnesComplement
import ExoOS.Net.Datagram

/-!
# What is sent is accepted

A packet that arrives as it was sent passes every test of the receiving host, as long as its total length fits the
16-bit field of the IP header. `udp_tx` tests the length without the IP header and `icmp_send_echo` does not test it.
-/

namespace ExoOS.Net

open List OnesComplement Nat

theorem inetChecksumPartial_eq (l : List Byte) : inetChecksumPartial l = wordSum l % 2 ^ 32 := by
  fun_induction inetChecksumPartial l with
  | case1 => rfl
  | case2 a =>
    rw [wordSum]
    omega
  | case3 a b rest ih =>
    rw [wordSum]
    omega

theorem inetChecksumFold_eq (sum : Nat) : inetChecksumFold sum = 65535 - carry (carry sum) := rfl

theorem inetChecksumFold_le (sum : Nat) : inetChecksumFold sum < 65536 := by
  rw [inetChecksumFold_eq]
  omega

theorem inetChecksumFold_add {sum : Nat} (h : sum + 65535 < 2 ^ 32) :
    inetChecksumFold (sum + inetChecksumFold sum) = 0 := by
  rw [inetChecksumFold_eq, inetChecksumFold_eq, carry_carry_add h]

theorem inetChecksumFold_add_ones {sum : Nat} (h : sum + 65535 < 2 ^ 32) (h0 : inetChecksumFold sum = 0) :
    inetChecksumFold (sum + 65535) = 0 := by
  rw [inetChecksumFold_eq] at h0 ⊢
  have h1 := carry_carry_le (show sum < 2 ^ 32 by omega)
  have h2 : carry (carry sum) % 65535 = sum % 65535 := by rw [carry_mod, carry_mod]
  rw [carry_carry_of_dvd h (by omega) (by omega)]

theorem inetChecksum_of_wordSum {l l' : List Byte} (hlen : l.length ≤ 65535)
    (h : wordSum l' = wordSum l + inetChecksum l) : inetChecksum l' = 0 := by
  have hle := wordSum_le l
  have hsum : inetChecksum l = inetChecksumFold (wordSum l) := by
    rw [inetChecksum, inetChecksumPartial_eq, mod_eq_of_lt (by omega)]
  have hlt := inetChecksumFold_le (wordSum l)
  rw [inetChecksum, inetChecksumPartial_eq, h, hsum, mod_eq_of_lt (by omega)]
  exact inetChecksumFold_add (by omega)

section Pseudo

variable {protocol : Byte} {srcIp dstIp : Ip} {l l' : List Byte}

def pseudoSum (protocol : Byte) (srcIp dstIp : Ip) (len : Nat) : Nat :=
  wordSum (ipBytes srcIp ++ ipBytes dstIp ++ [0, protocol] ++ htons (BitVec.ofNat 16 len))

theorem pseudoSum_le (protocol : Byte) (srcIp dstIp : Ip) (len : Nat) :
    pseudoSum protocol srcIp dstIp len ≤ 65535 * 6 := by
  have hlen : (ipBytes srcIp ++ ipBytes dstIp ++ [0, protocol] ++ htons (BitVec.ofNat 16 len)).length = 12 := rfl
  have hle := wordSum_le (ipBytes srcIp ++ ipBytes dstIp ++ [0, protocol] ++ htons (BitVec.ofNat 16 len))
  rwa [hlen] at hle

theorem pseudoChecksum_eq (hlen : l.length ≤ 65535) :
    pseudoChecksum protocol srcIp dstIp l = inetChecksumFold (pseudoSum protocol srcIp dstIp l.length + wordSum l) := by
  have hle := wordSum_le l
  have hph := pseudoSum_le protocol srcIp dstIp l.length
  unfold pseudoSum at hph ⊢
  unfold pseudoChecksum
  dsimp only
  rw [inetChecksumPartial_eq, inetChecksumPartial_eq, ← add_mod, mod_eq_of_lt (by omega)]

theorem pseudoChecksum_of_wordSum (hlen : l.length ≤ 65535) (hlen' : l'.length = l.length)
    (h : wordSum l' = wordSum l + pseudoChecksum protocol srcIp dstIp l) :
    pseudoChecksum protocol srcIp dstIp l' = 0 := by
  have hle := wordSum_le l
  have hph := pseudoSum_le protocol srcIp dstIp l.length
  rw [pseudoChecksum_eq (by omega), hlen', h, pseudoChecksum_eq hlen, ← add_assoc]
  exact inetChecksumFold_add (by omega)

theorem pseudoChecksum_of_ones (hlen : l.length ≤ 65535) (hlen' : l'.length = l.length)
    (h0 : pseudoChecksum protocol srcIp dstIp l = 0) (h : wordSum l' = wordSum l + 65535) :
    pseudoChecksum protocol srcIp dstIp l' = 0 := by
  have hle := wordSum_le l
  have hph := pseudoSum_le protocol srcIp dstIp l.length
  rw [pseudoChecksum_eq hlen] at h0
  rw [pseudoChecksum_eq (by omega), hlen', h, ← add_assoc]
  exact inetChecksumFold_add_ones (by omega) h0

end Pseudo

theorem htons_ofNat (n : Nat) :
    htons (BitVec.ofNat 16 n) = [BitVec.ofNat 8 (n % 65536 / 256), BitVec.ofNat 8 (n % 65536 % 256)] := by
  have h1 : (BitVec.ofNat 16 n).extractLsb' 8 8 = BitVec.ofNat 8 (n % 65536 / 256) := by
    apply BitVec.eq_of_toNat_eq
    simp only [BitVec.extractLsb'_toNat, shiftRight_eq_div_pow, BitVec.toNat_ofNat]
  have h2 : (BitVec.ofNat 16 n).extractLsb' 0 8 = BitVec.ofNat 8 (n % 65536 % 256) := by
    apply BitVec.eq_of_toNat_eq
    simp only [BitVec.extractLsb'_toNat, BitVec.toNat_ofNat]
    omega
  rw [htons, h1, h2]

theorem tcpChecksum_eq (srcIp dstIp : Ip) (seg : List Byte) :
    tcpChecksum srcIp dstIp seg = pseudoChecksum IPPROTO_TCP srcIp dstIp seg := by
  unfold pseudoChecksum
  rw [htons_ofNat]
  rfl

theorem toNat_htons (v : BitVec 16) : (v.extractLsb' 8 8).toNat * 256 + (v.extractLsb' 0 8).toNat = v.toNat := by
  simp only [BitVec.extractLsb'_toNat]
  omega

theorem toNat_hostWord {v : Nat} (h : v < 65536) :
    (BitVec.ofNat 8 v).toNat + (BitVec.ofNat 8 (v / 256)).toNat * 256 = v := by
  simp only [BitVec.toNat_ofNat]
  omega

theorem wordSum_hostWord {l : List Byte} (hl : l.length % 2 = 0) {v : Nat} (hv : v < 65536) (rest : List Byte) :
    wordSum (l ++ hostWord v ++ rest) = wordSum (l ++ hostWord 0 ++ rest) + v := by
  have hsum : ∀ v < 65536, wordSum (l ++ hostWord v ++ rest) = wordSum l + v + wordSum rest := fun v hv => by
    have hlen : (l ++ hostWord v).length % 2 = 0 := by
      have h2 : (hostWord v).length = 2 := rfl
      rw [length_append]
      omega
    have hword : wordSum (hostWord v) = v := toNat_hostWord hv
    rw [wordSum_append hlen, wordSum_append hl, hword]
  rw [hsum v hv, hsum 0 (by decide)]
  omega

theorem ipAt_ipBytes (ip : Ip) : BitVec.ofNat 32 ((ip.extractLsb' 0 8).toNat + (ip.extractLsb' 8 8).toNat * 256 +
    ((ip.extractLsb' 16 8).toNat + (ip.extractLsb' 24 8).toNat * 256) * 65536) = ip := by
  apply BitVec.eq_of_toNat_eq
  simp only [BitVec.extractLsb'_toNat, BitVec.toNat_ofNat]
  omega

theorem be32_htonl (v : Seq) : BitVec.ofNat 32
    (((v.extractLsb' 24 8).toNat * 256 + (v.extractLsb' 16 8).toNat) * 65536 +
      ((v.extractLsb' 8 8).toNat * 256 + (v.extractLsb' 0 8).toNat)) = v := by
  apply BitVec.eq_of_toNat_eq
  simp only [BitVec.extractLsb'_toNat, BitVec.toNat_ofNat]
  omega

/-! ### IPv4 -/

section Ip

variable {dev : NetDev} {id : BitVec 16} {srcIp dstIp : Ip} {protocol : Byte} {payload : List Byte}

/-- The total length is reduced modulo `2 ^ 16`; what is behind it is cut off. -/
theorem ipRx_ipPacket (hdst : dev.ipAddr = dstIp) : ipRx dev (ipPacket id srcIp dstIp protocol payload) =
      if (IP_HDR_SIZE + payload.length) % 65536 < IP_HDR_SIZE then none
      else some { srcIp := srcIp, dstIp := dstIp, protocol := protocol,
                  bytes := payload.take ((IP_HDR_SIZE + payload.length) % 65536 - IP_HDR_SIZE) } := by
  set n := IP_HDR_SIZE + payload.length with hn
  unfold ipPacket
  dsimp only
  have hcsum := inetChecksumFold_le (inetChecksumPartial (ipHeader id n protocol 0 srcIp dstIp))
  rw [← inetChecksum] at hcsum
  generalize hc : inetChecksum (ipHeader id n protocol 0 srcIp dstIp) = csum at hcsum
  generalize hp : ipHeader id n protocol csum srcIp dstIp ++ payload = p
  have hlen : p.length = n := by
    rw [← hp, length_append]
    rfl
  have htake : clearWord (p.take 20) 10 = ipHeader id n protocol 0 srcIp dstIp := by
    rw [← hp]
    rfl
  have h0 : byteAt p 0 = 0x45 := by rw [← hp]; rfl
  have h2 : be16 p 2 = n % 65536 := by
    rw [← hp]
    exact toNat_htons _
  have h9 : byteAt p 9 = protocol := by rw [← hp]; rfl
  have h10 : le16 p 10 = csum := by
    rw [← hp]
    exact toNat_hostWord hcsum
  have h12 : ipAt p 12 = srcIp := by
    rw [← hp]
    exact ipAt_ipBytes srcIp
  have h16 : ipAt p 16 = dstIp := by
    rw [← hp]
    exact ipAt_ipBytes dstIp
  unfold ipRx
  rw [h0, h2, h9, h10, h12, h16]
  have hhdr : (0x45 : Byte).toNat % 16 * 4 = IP_HDR_SIZE := rfl
  have hdrop : (p.take (n % 65536)).drop IP_HDR_SIZE = payload.take (n % 65536 - IP_HDR_SIZE) := by
    rw [drop_take, ← hp]
    rfl
  rw [if_neg (by omega), if_neg (by decide)]
  dsimp only
  rw [hhdr, show p.take IP_HDR_SIZE = p.take 20 from rfl, htake, hc, if_neg (by unfold IP_HDR_SIZE at hn ⊢; omega),
    if_neg (not_not.2 rfl), if_neg (fun h => h.1 hdst.symm), hdrop]
  split_ifs with hfit hfit' hfit'
  · rfl
  · omega
  · omega
  · rfl

end Ip

/-! ### UDP -/

section Udp

variable {srcIp dstIp : Ip} {srcPort dstPort : BitVec 16} {csum : Nat} {data : List Byte}

theorem length_udpSegment (srcPort dstPort : BitVec 16) (csum : Nat) (data : List Byte) :
    (udpSegment srcPort dstPort csum data).length = UDP_HDR_SIZE + data.length := by
  unfold udpSegment
  rw [length_append]
  rfl

theorem wordSum_udpSegment (h : csum < 65536) :
    wordSum (udpSegment srcPort dstPort csum data) = wordSum (udpSegment srcPort dstPort 0 data) + csum := by
  exact wordSum_hostWord (by simp [htons]) h data

theorem udpChecksum_stored (hlen : UDP_HDR_SIZE + data.length ≤ 65535)
    (hcsum : csum = udpChecksum srcIp dstIp (udpSegment srcPort dstPort 0 data)) :
    udpChecksum srcIp dstIp (udpSegment srcPort dstPort (if csum = 0 then 0xFFFF else csum) data) = 0 := by
  have hlen0 : (udpSegment srcPort dstPort 0 data).length ≤ 65535 := by
    rw [length_udpSegment]
    exact hlen
  have hlen' : ∀ c, (udpSegment srcPort dstPort c data).length = (udpSegment srcPort dstPort 0 data).length :=
    fun c => by rw [length_udpSegment, length_udpSegment]
  unfold udpChecksum at hcsum
  split
  next h0 =>
    exact pseudoChecksum_of_ones hlen0 (hlen' _) (hcsum ▸ h0) (wordSum_udpSegment (by decide))
  next =>
    have hlt : csum < 65536 := by
      rw [hcsum, pseudoChecksum_eq hlen0]
      exact inetChecksumFold_le _
    exact pseudoChecksum_of_wordSum hlen0 (hlen' _) (hcsum ▸ wordSum_udpSegment hlt)

theorem udpParse_udpSegment (hlen : UDP_HDR_SIZE + data.length ≤ 65535)
    (hcsum : csum = udpChecksum srcIp dstIp (udpSegment srcPort dstPort 0 data)) :
    udpParse { srcIp := srcIp, dstIp := dstIp, protocol := IPPROTO_UDP
               bytes := udpSegment srcPort dstPort (if csum = 0 then 0xFFFF else csum) data } =
      some { srcIp := srcIp, srcPort := srcPort.toNat, dstIp := dstIp, dstPort := dstPort.toNat, payload := data } := by
  have hck := udpChecksum_stored hlen hcsum
  generalize (if csum = 0 then 0xFFFF else csum) = c at hck
  have hl := length_udpSegment srcPort dstPort c data
  have h0 : be16 (udpSegment srcPort dstPort c data) 0 = srcPort.toNat := toNat_htons _
  have h2 : be16 (udpSegment srcPort dstPort c data) 2 = dstPort.toNat := toNat_htons _
  have h4 : be16 (udpSegment srcPort dstPort c data) 4 = UDP_HDR_SIZE + data.length := by
    refine (toNat_htons _).trans ?_
    rw [BitVec.toNat_ofNat, mod_eq_of_lt (by omega)]
  have hd : (udpSegment srcPort dstPort c data).drop UDP_HDR_SIZE = data := rfl
  unfold udpParse
  dsimp only
  rw [h0, h2, h4, ← hl, take_length, hck, hd, if_neg (by omega), if_neg (by omega), if_neg (fun h => h.2 rfl)]

end Udp

/-! ### ICMP -/

section Icmp

variable {type : Byte} {id seq : BitVec 16} {csum : Nat} {data : List Byte}

theorem length_icmpMessage (type : Byte) (csum : Nat) (id seq : BitVec 16) (data : List Byte) :
    (icmpMessage type csum id seq data).length = ICMP_HDR_SIZE + data.length := by
  unfold icmpMessage
  rw [length_append]
  rfl

theorem wordSum_icmpMessage (h : csum < 65536) :
    wordSum (icmpMessage type csum id seq data) = wordSum (icmpMessage type 0 id seq data) + csum := by
  have h' := wordSum_hostWord (l := [type, 0]) (by simp) h (htons id ++ htons seq ++ data)
  simpa only [icmpMessage, append_assoc] using h'

theorem inetChecksum_icmpMessage (hlen : ICMP_HDR_SIZE + data.length ≤ 65535)
    (hcsum : csum = inetChecksum (icmpMessage type 0 id seq data)) :
    inetChecksum (icmpMessage type csum id seq data) = 0 := by
  refine inetChecksum_of_wordSum (l := icmpMessage type 0 id seq data) ?_ ?_
  · rw [length_icmpMessage]
    exact hlen
  · rw [← hcsum]
    exact wordSum_icmpMessage (hcsum ▸ inetChecksumFold_le _)

theorem bytes_of_icmpParse {p : IpPacket} {msg : List Byte} (h : icmpParse p = some msg) : msg = p.bytes := by
  unfold icmpParse at h
  split_ifs at h
  cases h
  rfl

end Icmp

/-! ### TCP -/

section Tcp

variable {srcIp dstIp : Ip} {srcPort dstPort : BitVec 16} {csum : Nat} {s : Segment}

theorem ofByte_toByte (f : Flags) : Flags.ofByte f.toByte = f := by
  obtain ⟨fin, syn, rst, psh, ack⟩ := f
  revert fin syn rst psh ack
  decide

theorem length_tcpSegment (srcPort dstPort : BitVec 16) (csum : Nat) (s : Segment) :
    (tcpSegment srcPort dstPort csum s).length = TCP_HDR_SIZE + s.opts.length + s.data.length := by
  unfold tcpSegment
  rw [length_append, length_append]
  rfl

theorem wordSum_tcpSegment (h : csum < 65536) :
    wordSum (tcpSegment srcPort dstPort csum s) = wordSum (tcpSegment srcPort dstPort 0 s) + csum := by
  have h' := wordSum_hostWord (l := htons srcPort ++ htons dstPort ++ htonl s.seq ++ htonl s.ack ++
    [BitVec.ofNat 8 ((TCP_HDR_SIZE + s.opts.length) / 4 * 16), s.flags.toByte] ++ htons (BitVec.ofNat 16 s.window))
    (by simp [htons, htonl]) h ([0, 0] ++ s.opts ++ s.data)
  simpa only [tcpSegment, append_assoc] using h'

theorem tcpParse_tcpSegment (hopts : s.opts.length = 0 ∨ s.opts.length = 4) (hdata : s.data.length ≤ TCP_MSS_DEFAULT)
    (hwnd : s.window < 65536) (hcsum : csum = tcpChecksum srcIp dstIp (tcpSegment srcPort dstPort 0 s)) :
    tcpParse { srcIp := srcIp, dstIp := dstIp, bytes := tcpSegment srcPort dstPort csum s } =
      some { srcPort := srcPort.toNat, dstPort := dstPort.toNat, seg := s } := by
  set p := tcpSegment srcPort dstPort csum s
  have hl : p.length = _ := length_tcpSegment srcPort dstPort csum s
  have hl0 := length_tcpSegment srcPort dstPort 0 s
  have hck : tcpChecksum srcIp dstIp p = 0 := by
    unfold TCP_MSS_DEFAULT at hdata
    unfold TCP_HDR_SIZE at hl hl0
    rw [tcpChecksum_eq] at hcsum ⊢
    refine pseudoChecksum_of_wordSum (l := tcpSegment srcPort dstPort 0 s) (by omega) (by omega) ?_
    rw [← hcsum]
    refine wordSum_tcpSegment ?_
    rw [hcsum, pseudoChecksum_eq (by omega)]
    exact inetChecksumFold_le _
  have hhdr : tcpHdrLen p = TCP_HDR_SIZE + s.opts.length := by
    have h12 : byteAt p 12 = BitVec.ofNat 8 ((TCP_HDR_SIZE + s.opts.length) / 4 * 16) := rfl
    unfold tcpHdrLen
    rw [h12]
    rcases hopts with h | h <;> rw [h] <;> rfl
  have hopt : (p.take (TCP_HDR_SIZE + s.opts.length)).drop TCP_HDR_SIZE = s.opts := by
    rw [drop_take, Nat.add_sub_cancel_left]
    exact take_left
  have hdat : p.drop (TCP_HDR_SIZE + s.opts.length) = s.data := by
    rw [← drop_drop]
    exact drop_left
  have h0 : be16 p 0 = srcPort.toNat := toNat_htons _
  have h2 : be16 p 2 = dstPort.toNat := toNat_htons _
  have h4 : be32 p 4 = s.seq := be32_htonl _
  have h8 : be32 p 8 = s.ack := be32_htonl _
  have h13 : Flags.ofByte (byteAt p 13) = s.flags := ofByte_toByte _
  have h14 : be16 p 14 = s.window := by
    refine (toNat_htons _).trans ?_
    rw [BitVec.toNat_ofNat, Nat.mod_eq_of_lt hwnd]
  unfold tcpParse
  dsimp only
  rw [hhdr, hck, hopt, hdat, h0, h2, h4, h8, h13, h14, if_neg (by omega), if_neg (by omega), if_neg (not_not.2 rfl)]

end Tcp

/-! ### The receiving host -/

structure Host where
  dev : NetDev
  binds : List UdpBind
  ping : PingState
  /-- Whether there is memory for the buffer of an echo reply. -/
  mem : Bool

inductive Input
  | dropped
  /-- A datagram, with the bound port it goes to. -/
  | udp (port : Option UdpBind) (d : Datagram)
  | tcp (srcIp dstIp : Ip) (h : Header)
  | icmp (r : IcmpResult)

def receive (host : Host) (p : List Byte) : Input :=
  match ipRx host.dev p with
  | none => .dropped
  | some p =>
    if p.protocol = IPPROTO_ICMP then
      match icmpRx host.mem host.ping p with
      | none => .dropped
      | some r => .icmp r
    else if p.protocol = IPPROTO_UDP then
      match udpParse p with
      | none => .dropped
      | some d => .udp (udpLookup host.binds d.dstPort d.dstIp) d
    else if p.protocol = IPPROTO_TCP then
      match tcpParse { srcIp := p.srcIp, dstIp := p.dstIp, bytes := p.bytes } with
      | none => .dropped
      | some h => .tcp p.srcIp p.dstIp h
    else .dropped

/-- What is sent: a datagram, a segment of a connection, an echo request. -/
inductive Message
  | udp (dstIp : Ip) (srcPort dstPort : BitVec 16) (data : List Byte)
  | tcp (t : Tcb) (flags : Flags) (data : List Byte)
  | icmp (dstIp : Ip) (id seq : BitVec 16) (data : List Byte)

namespace Message

def dst : Message → Ip
  | .udp dstIp .. => dstIp
  | .tcp t .. => t.remoteIp
  | .icmp dstIp .. => dstIp

def wire (dev : NetDev) (ipId : BitVec 16) : Message → Option (List Byte)
  | .udp dstIp srcPort dstPort data => udpTx dev ipId dstIp srcPort dstPort data
  | .tcp t flags data => some (tcpTx ipId t (builtSegment t flags data))
  | .icmp dstIp id seq data => some (icmpSendEcho dev ipId dstIp id seq data)

/-- At most a segment's worth of payload, and ports that are `uint16_t`. -/
def Admissible : Message → Prop
  | .tcp t _ data => data.length ≤ TCP_MSS_DEFAULT ∧ t.localPort < 65536 ∧ t.remotePort < 65536
  | _ => True

def expected (dev : NetDev) (host : Host) : Message → Input
  | .udp dstIp srcPort dstPort data => .udp (udpLookup host.binds dstPort.toNat dstIp)
      { srcIp := dev.ipAddr, srcPort := srcPort.toNat, dstIp := dstIp, dstPort := dstPort.toNat, payload := data }
  | .tcp t flags data => .tcp t.localIp t.remoteIp
      { srcPort := t.localPort, dstPort := t.remotePort, seg := builtSegment t flags data }
  | .icmp _ id seq data => .icmp
      { raw := icmpMessage ICMP_ECHO_REQUEST (inetChecksum (icmpMessage ICMP_ECHO_REQUEST 0 id seq data)) id seq data
        reply := if host.mem then
            some (icmpMessage ICMP_ECHO_REPLY (inetChecksum (icmpMessage ICMP_ECHO_REPLY 0 id seq data)) id seq data)
          else none
        ping := host.ping }

def Fits : Message → Prop
  | .udp _ _ _ data => data.length ≤ 65507
  | .tcp .. => True
  | .icmp _ _ _ data => data.length ≤ 65507

end Message

section Receive

variable {dev : NetDev} {host : Host} {ipId : BitVec 16} {srcIp dstIp : Ip} {protocol : Byte} {payload data : List Byte}

theorem ipRx_of_fits (hdst : dev.ipAddr = dstIp) (h : payload.length ≤ 65515) :
    ipRx dev (ipPacket ipId srcIp dstIp protocol payload) =
      some { srcIp := srcIp, dstIp := dstIp, protocol := protocol, bytes := payload } := by
  have htotal : (IP_HDR_SIZE + payload.length) % 65536 = IP_HDR_SIZE + payload.length := by
    unfold IP_HDR_SIZE
    omega
  rw [ipRx_ipPacket hdst, htotal, if_neg (by omega), Nat.add_sub_cancel_left, take_length]

section

variable (hdst : host.dev.ipAddr = dstIp)
include hdst

theorem receive_udp {srcPort dstPort : BitVec 16}
    (h : data.length ≤ 65507) {p : List Byte} (hp : udpTx dev ipId dstIp srcPort dstPort data = some p) :
    receive host p = (Message.udp dstIp srcPort dstPort data).expected dev host := by
  have hlen : UDP_HDR_SIZE + data.length ≤ 65515 := by
    unfold UDP_HDR_SIZE
    omega
  rw [udpTx, if_neg (by omega), Option.some.injEq] at hp
  rw [← hp]
  unfold receive
  rw [ipRx_of_fits hdst (by rw [length_udpSegment]; exact hlen)]
  dsimp only
  rw [udpParse_udpSegment (by omega) rfl]
  rfl

theorem receive_udp_long {srcPort dstPort : BitVec 16}
    (h : 65507 < data.length) {p : List Byte} (hp : udpTx dev ipId dstIp srcPort dstPort data = some p) :
    receive host p = .dropped := by
  obtain ⟨hle, ⟨⟩⟩ := Option.ite_none_left_eq_some.1 hp
  unfold receive
  rw [ipRx_ipPacket hdst, length_udpSegment, if_pos]
  unfold UDP_HDR_SIZE IP_HDR_SIZE at *
  omega

omit hdst in
theorem icmpReply_icmpMessage (mem : Bool) (csum : Nat) (id seq : BitVec 16) :
    icmpReply mem (icmpMessage ICMP_ECHO_REQUEST csum id seq data) =
      if mem then
        some (icmpMessage ICMP_ECHO_REPLY (inetChecksum (icmpMessage ICMP_ECHO_REPLY 0 id seq data)) id seq data)
      else none := by
  cases mem <;> rfl

theorem receive_icmp {id seq : BitVec 16} (h : data.length ≤ 65507) :
    receive host (icmpSendEcho dev ipId dstIp id seq data) = (Message.icmp dstIp id seq data).expected dev host := by
  have hlen : ICMP_HDR_SIZE + data.length ≤ 65515 := by
    unfold ICMP_HDR_SIZE
    omega
  unfold receive icmpSendEcho
  rw [ipRx_of_fits hdst (by rw [length_icmpMessage]; exact hlen)]
  dsimp only
  rw [if_pos rfl, icmpRx, icmpParse, if_neg, if_neg (not_not.2 (inetChecksum_icmpMessage (by omega) rfl))]
  · dsimp only [Option.map_some]
    rw [icmpReply_icmpMessage]
    rfl
  · rw [length_icmpMessage]
    omega

theorem receive_icmp_long {id seq : BitVec 16} (h : 65507 < data.length) :
    receive host (icmpSendEcho dev ipId dstIp id seq data) ≠ (Message.icmp dstIp id seq data).expected dev host := by
  unfold receive icmpSendEcho
  rw [ipRx_ipPacket hdst]
  generalize hmsg : icmpMessage ICMP_ECHO_REQUEST _ id seq data = msg
  have hlen : msg.length = ICMP_HDR_SIZE + data.length := by rw [← hmsg, length_icmpMessage]
  intro heq
  split_ifs at heq with hshort
  · cases heq
  · dsimp only at heq
    rw [icmpRx] at heq
    cases hparse : icmpParse { srcIp := dev.ipAddr, dstIp := dstIp, protocol := IPPROTO_ICMP, bytes := msg.take _ } with
    | none =>
      rw [hparse] at heq
      cases heq
    | some raw =>
      rw [hparse] at heq
      have hraw : raw = msg := (congrArg IcmpResult.raw (Input.icmp.inj heq)).trans hmsg
      have hcut := congrArg length (hraw.symm.trans (bytes_of_icmpParse hparse))
      rw [hlen, length_take] at hcut
      unfold IP_HDR_SIZE ICMP_HDR_SIZE at hcut
      omega

end

theorem receive_tcp {t : Tcb} {flags : Flags} (hdst : host.dev.ipAddr = t.remoteIp)
    (hm : (Message.tcp t flags data).Admissible) :
    receive host (tcpTx ipId t (builtSegment t flags data)) = (Message.tcp t flags data).expected dev host := by
  obtain ⟨hdata, hlocal, hremote⟩ := hm
  have hopts : (builtSegment t flags data).opts.length = 0 ∨ (builtSegment t flags data).opts.length = 4 := by
    show (mssOpts t flags).length = 0 ∨ (mssOpts t flags).length = 4
    unfold mssOpts
    split
    · exact .inr rfl
    · exact .inl rfl
  have hwnd : (builtSegment t flags data).window < 65536 := by
    show advertised t < 65536
    unfold advertised
    split <;> omega
  unfold receive tcpTx
  rw [ipRx_of_fits hdst]
  · dsimp only
    rw [if_neg (by decide), if_neg (by decide), if_pos rfl, tcpParse_tcpSegment hopts hdata hwnd rfl,
      BitVec.toNat_ofNat, BitVec.toNat_ofNat, mod_eq_of_lt hlocal, mod_eq_of_lt hremote]
    rfl
  · rw [length_tcpSegment]
    unfold TCP_MSS_DEFAULT at hdata
    unfold TCP_HDR_SIZE
    have hd : (builtSegment t flags data).data.length = data.length := rfl
    omega

end Receive

theorem received_iff {dev : NetDev} {host : Host} {ipId : BitVec 16} {m : Message} {p : List Byte}
    (hwire : m.wire dev ipId = some p) (hm : m.Admissible) (hdst : host.dev.ipAddr = m.dst) :
    receive host p = m.expected dev host ↔ m.Fits := by
  cases m with
  | udp dstIp srcPort dstPort data =>
    constructor
    · intro heq
      by_contra hlong
      rw [receive_udp_long hdst (not_le.1 hlong) hwire] at heq
      cases heq
    · intro hfits
      exact receive_udp hdst hfits hwire
  | tcp t flags data =>
    cases hwire
    exact iff_of_true (receive_tcp hdst hm) trivial
  | icmp dstIp id seq data =>
    cases hwire
    constructor
    · intro heq
      by_contra hlong
      exact receive_icmp_long hdst (not_le.1 hlong) heq
    · intro hfits
      exact receive_icmp hdst hfits

def sampleHost (ip : Ip) : Host :=
  { dev := sampleDev ip
    binds := [{ port := 7, addr := 0, callback := some (.sock (some 0)), active := true }]
    ping := { targetIp := 0, id := 0, lastSeq := 0, replyReceived := false }
    mem := true }

/-- Three bytes, an odd number. -/
theorem received_odd : ∃ p, (Message.udp 0x0200000A 9 7 [1, 2, 3]).wire (sampleDev 0x0100000A) 1 = some p ∧
    receive (sampleHost 0x0200000A) p =
      (Message.udp 0x0200000A 9 7 [1, 2, 3]).expected (sampleDev 0x0100000A) (sampleHost 0x0200000A) :=
  ⟨_, rfl, (received_iff (m := .udp 0x0200000A 9 7 [1, 2, 3]) rfl trivial rfl).2 (by decide : 3 ≤ 65507)⟩

/-- `udp_tx` accepts 65508 bytes; the packet of 65536 bytes carries total length 0. -/
theorem dropped_long : ¬ ∀ (dev : NetDev) (host : Host) (ipId : BitVec 16) (m : Message) (p : List Byte),
    m.wire dev ipId = some p → m.Admissible → host.dev.ipAddr = m.dst → receive host p = m.expected dev host := by
  intro hall
  obtain ⟨data, hlen⟩ : ∃ data : List Byte, data.length = 65508 := ⟨replicate 65508 0, length_replicate⟩
  have hfit : ¬ UDP_HDR_SIZE + data.length > 65535 := by
    unfold UDP_HDR_SIZE
    omega
  obtain ⟨p, hp⟩ : ∃ p, udpTx (sampleDev 0x0100000A) 1 0x0200000A 9 7 data = some p := ⟨_, if_neg hfit⟩
  have hlong : 65507 < data.length := by rw [hlen]; exact lt_succ_self _
  have hdrop : receive (sampleHost 0x0200000A) p = .dropped := receive_udp_long rfl hlong hp
  have heq := hall _ (sampleHost 0x0200000A) 1 (.udp 0x0200000A 9 7 data) p hp trivial rfl
  rw [hdrop] at heq
  cases heq

/-- A ping comes back: the answer to an echo request carries its payload and is the one the sender waits for. -/
theorem ping_answered (a b : Host) (ipId ipId' id seq : BitVec 16) {data : List Byte} (h : data.length ≤ 65507)
    (hmem : b.mem = true) :
    ∃ r reply r', receive b (icmpSendEcho a.dev ipId b.dev.ipAddr id seq data) = .icmp r ∧ r.reply = some reply ∧
      receive { a with ping := ⟨b.dev.ipAddr, id.toNat, seq.toNat, false⟩ }
        (ipPacket ipId' b.dev.ipAddr a.dev.ipAddr IPPROTO_ICMP reply) = .icmp r' ∧
      r'.raw.drop ICMP_HDR_SIZE = data ∧ r'.reply = none ∧ r'.ping.replyReceived = true := by
  have hlen : ICMP_HDR_SIZE + data.length ≤ 65515 := by
    unfold ICMP_HDR_SIZE
    omega
  set csum := inetChecksum (icmpMessage ICMP_ECHO_REPLY 0 id seq data) with hcsum
  have hl := length_icmpMessage ICMP_ECHO_REPLY csum id seq data
  refine ⟨_, _, ⟨icmpMessage ICMP_ECHO_REPLY csum id seq data, none, b.dev.ipAddr, id.toNat, seq.toNat, true⟩,
    receive_icmp rfl h, if_pos hmem, ?_, rfl, rfl, rfl⟩
  unfold receive
  rw [ipRx_of_fits rfl (by rw [hl]; exact hlen)]
  dsimp only
  rw [if_pos rfl, icmpRx, icmpParse, if_neg (by rw [hl]; omega),
    if_neg (not_not.2 (inetChecksum_icmpMessage (by omega) hcsum))]
  dsimp only [Option.map_some]
  rw [icmpPing, if_pos ⟨rfl, rfl, toNat_htons id, toNat_htons seq⟩]
  rfl

theorem ping_answered_byte : ∃ r, receive (sampleHost 2) (icmpSendEcho (sampleDev 1) 0 2 7 1 [1]) = .icmp r :=
  have ⟨r, _, _, h, _⟩ := ping_answered (sampleHost 1) (sampleHost 2) 0 0 7 1 (by decide : [(1 : Byte)].length ≤ _) rfl
  ⟨r, h⟩

end ExoOS.Net
