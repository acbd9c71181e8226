import Mathlib.Data.BitVec

/-!
# TCP packets: header, checksum, options

A packet is the byte string `tcp_rx` is handed, with the addresses of its IP header. `tcpParse` makes the
checks of `tcp_rx` (length, header length, checksum) and reads the header; everything behind it works on
the parsed `Segment`. `parseMss` is the option loop that `tcp_handle_syn` and the `SYN_SENT` case share; it
logs each option byte it reads as an `Access`. `parseMss_isSome`, `parseMss_access` and `parseMss_le`
say what the loop can do to the memory and to the segment size.
-/

namespace ExoOS.Net

abbrev Byte := BitVec 8
abbrev Ip := BitVec 32
/-- Sequence numbers: all arithmetic on them is modulo `2 ^ 32`. -/
abbrev Seq := BitVec 32

def TCP_HDR_SIZE : Nat := 20
def TCP_MSS_DEFAULT : Nat := 1460
def TCP_RX_BUFSZ : Nat := 65536
def TCP_TX_BUFSZ : Nat := 65536

structure Flags where
  fin : Bool := false
  syn : Bool := false
  rst : Bool := false
  psh : Bool := false
  ack : Bool := false
  deriving DecidableEq

/-- `TCP_FIN` 0x01, `TCP_SYN` 0x02, `TCP_RST` 0x04, `TCP_PSH` 0x08, `TCP_ACK` 0x10. -/
def Flags.ofByte (b : Byte) : Flags :=
  { fin := b.getLsbD 0, syn := b.getLsbD 1, rst := b.getLsbD 2, psh := b.getLsbD 3, ack := b.getLsbD 4 }

/-- A segment, received or sent: header fields in host order, the option bytes and the payload. -/
structure Segment where
  seq : Seq
  ack : Seq
  flags : Flags
  window : Nat
  opts : List Byte := []
  data : List Byte := []
  deriving DecidableEq

structure Packet where
  srcIp : Ip
  dstIp : Ip
  bytes : List Byte

/-! ### Checksum -/

/-- `inet_checksum_partial`: the 16-bit little-endian words, summed in a `uint32_t`. -/
def inetChecksumPartial : List Byte → Nat
  | [] => 0
  | [a] => a.toNat
  | a :: b :: rest => (a.toNat + b.toNat * 256 + inetChecksumPartial rest) % 2 ^ 32

def foldCarry (sum : Nat) : Nat := sum % 65536 + sum / 65536

/-- `inet_checksum_fold`: two rounds of the carry loop clear the upper half of any 32-bit sum. -/
def inetChecksumFold (sum : Nat) : Nat := 65535 - foldCarry (foldCarry sum)

def ipBytes (ip : Ip) : List Byte :=
  [ip.extractLsb' 0 8, ip.extractLsb' 8 8, ip.extractLsb' 16 8, ip.extractLsb' 24 8]

def tcpChecksum (srcIp dstIp : Ip) (seg : List Byte) : Nat :=
  let len := seg.length % 65536
  let ph := ipBytes srcIp ++ ipBytes dstIp ++
    [0, 6, BitVec.ofNat 8 (len / 256), BitVec.ofNat 8 (len % 256)]
  inetChecksumFold ((inetChecksumPartial ph + inetChecksumPartial seg) % 2 ^ 32)

def byteAt (p : List Byte) (i : Nat) : Byte := p.getD i 0

def be16 (p : List Byte) (i : Nat) : Nat := (byteAt p i).toNat * 256 + (byteAt p (i + 1)).toNat

def be32 (p : List Byte) (i : Nat) : Seq := BitVec.ofNat 32 (be16 p i * 65536 + be16 p (i + 2))

def tcpHdrLen (p : List Byte) : Nat := (byteAt p 12).toNat / 16 * 4

structure Header where
  srcPort : Nat
  dstPort : Nat
  seg : Segment

/-- The checks of `tcp_rx` and the header fields it reads. -/
def tcpParse (p : Packet) : Option Header :=
  let b := p.bytes
  if b.length < TCP_HDR_SIZE then none
  else
    let hdrLen := tcpHdrLen b
    if hdrLen < TCP_HDR_SIZE ∨ hdrLen > b.length then none
    else if tcpChecksum p.srcIp p.dstIp b ≠ 0 then none
    else some
      { srcPort := be16 b 0
        dstPort := be16 b 2
        seg :=
          { seq := be32 b 4
            ack := be32 b 8
            flags := Flags.ofByte (byteAt b 13)
            window := be16 b 14
            opts := (b.take hdrLen).drop TCP_HDR_SIZE
            data := b.drop hdrLen } }

/-! ### The memory the TCP code indexes -/

inductive Access
  /-- A byte of the received header, at this offset of a header of this length. -/
  | opt (off hdrLen : Nat)
  /-- `live`: the buffer has not been freed. A freed block is in no state in which `tx_buf` is used. -/
  | rxBuf (live : Bool) (i : Nat)
  | txBuf (i : Nat)
  /-- A byte of the local `seg_data` of `tcp_output`. -/
  | segData (i : Nat)
  /-- A payload of this length handed to `tcp_send_segment`. -/
  | segment (len : Nat)
  deriving DecidableEq

def Access.Ok : Access → Prop
  | .opt off hdrLen => off < hdrLen
  | .rxBuf live i => live = true ∧ i < TCP_RX_BUFSZ
  | .txBuf i => i < TCP_TX_BUFSZ
  | .segData i => i < TCP_MSS_DEFAULT
  | .segment len => len ≤ TCP_MSS_DEFAULT

def optAt (opts : List Byte) (i : Nat) : Access := .opt (TCP_HDR_SIZE + i) (TCP_HDR_SIZE + opts.length)

def mssClamp (mss : Nat) : Nat := if mss < 536 then 536 else mss

/-- The option loop: from index `i`, with `mss` read so far. Out of fuel means that the loop goes on. -/
def parseMss (opts : List Byte) : Nat → Nat → Nat → List Access → Option (Nat × List Access)
  | 0, _, _, _ => none
  | fuel + 1, i, mss, acc =>
    if i < opts.length then
      let kind := byteAt opts i
      let acc := acc ++ [optAt opts i]
      if kind = 0 then some (mss, acc)
      else if kind = 1 then parseMss opts fuel (i + 1) mss acc
      else if i + 1 ≥ opts.length then some (mss, acc)
      else
        let olen := (byteAt opts (i + 1)).toNat
        let acc := acc ++ [optAt opts (i + 1)]
        if olen < 2 ∨ i + olen > opts.length then some (mss, acc)
        else if kind = 2 ∧ olen = 4 then
          parseMss opts fuel (i + olen) (mssClamp (be16 opts (i + 2)))
            (acc ++ [optAt opts (i + 2), optAt opts (i + 3)])
        else parseMss opts fuel (i + olen) mss acc
    else some (mss, acc)

def mssOption (opts : List Byte) (mss : Nat) : Option (Nat × List Access) :=
  parseMss opts (opts.length + 1) 0 mss []

inductive HasMss : List Byte → Nat → Prop
  | nop {rest : List Byte} {m : Nat} (h : HasMss rest m) : HasMss (1 :: rest) m
  | skip {kind olen : Byte} {body rest : List Byte} {m : Nat} (h0 : kind ≠ 0) (h1 : kind ≠ 1)
      (hlen : body.length + 2 = olen.toNat) (h : HasMss rest m) :
      HasMss (kind :: olen :: (body ++ rest)) m
  | here (a b : Byte) (rest : List Byte) :
      HasMss (2 :: 4 :: a :: b :: rest) (a.toNat * 256 + b.toNat)

/-! ### What the option loop does -/

variable {opts : List Byte} {fuel i mss mss' : Nat} {acc acc' : List Access}

/-- Every round moves at least one byte forward, so one unit of fuel per remaining byte is enough. -/
theorem parseMss_isSome (hi : i ≤ opts.length) (h : opts.length < fuel + i) :
    ∃ r, parseMss opts fuel i mss acc = some r := by
  fun_induction parseMss opts fuel i mss acc <;> grind

theorem optAt_ok (h : i < opts.length) : (optAt opts i).Ok := by
  show TCP_HDR_SIZE + i < TCP_HDR_SIZE + opts.length
  omega

theorem parseMss_access (h : parseMss opts fuel i mss acc = some (mss', acc')) (hacc : ∀ a ∈ acc, a.Ok) :
    ∀ a ∈ acc', a.Ok := by
  fun_induction parseMss opts fuel i mss acc <;> grind [optAt_ok]

theorem drop_eq_cons (h : i < opts.length) : opts.drop i = byteAt opts i :: opts.drop (i + 1) := by
  rw [List.drop_eq_getElem_cons h, byteAt, List.getD_eq_getElem?_getD, List.getElem?_eq_getElem h]
  rfl

theorem HasMss.of_skip (hi : i + 1 < opts.length) (h0 : byteAt opts i ≠ 0) (h1 : byteAt opts i ≠ 1)
    (h2 : 2 ≤ (byteAt opts (i + 1)).toNat) (hle : i + (byteAt opts (i + 1)).toNat ≤ opts.length) {m : Nat}
    (h : HasMss (opts.drop (i + (byteAt opts (i + 1)).toNat)) m) : HasMss (opts.drop i) m := by
  rw [drop_eq_cons (by omega), drop_eq_cons hi]
  have hsplit : opts.drop (i + 1 + 1) = (opts.drop (i + 1 + 1)).take ((byteAt opts (i + 1)).toNat - 2) ++
      opts.drop (i + (byteAt opts (i + 1)).toNat) := by
    conv_lhs => rw [← List.take_append_drop ((byteAt opts (i + 1)).toNat - 2) (opts.drop (i + 1 + 1))]
    rw [List.drop_drop]
    congr 2
    omega
  rw [hsplit]
  refine .skip h0 h1 ?_ h
  rw [List.length_take, List.length_drop]
  omega

theorem HasMss.of_here (h4 : i + 4 ≤ opts.length) (h0 : byteAt opts i = 2)
    (h1 : (byteAt opts (i + 1)).toNat = 4) : HasMss (opts.drop i) (be16 opts (i + 2)) := by
  have h1' : byteAt opts (i + 1) = 4 := BitVec.eq_of_toNat_eq h1
  rw [drop_eq_cons (by omega), drop_eq_cons (by omega), drop_eq_cons (by omega), drop_eq_cons (by omega), h0, h1']
  exact .here _ _ _

theorem parseMss_le {B : Nat} (hB : 536 ≤ B) (h : parseMss opts fuel i mss acc = some (mss', acc'))
    (hm : ∀ m, HasMss (opts.drop i) m → m ≤ B) (hmss : mss ≤ B) : mss' ≤ B := by
  fun_induction parseMss opts fuel i mss acc with
  | case1 => simp at h
  | case2 | case4 | case5 | case8 => grind
  | case3 fuel i mss acc hi _ _ _ h1 ih =>
    refine ih h (fun m hm' => hm m ?_) hmss
    rw [drop_eq_cons hi, show byteAt opts i = 1 from h1]
    exact .nop hm'
  | case6 fuel i mss acc hi _ _ h0 h1 h2 _ _ h3 h4 ih =>
    refine ih h (fun m hm' => hm m (.of_skip (by omega) h0 h1 (by omega) (by omega) hm')) ?_
    have := hm _ (.of_here (by omega) h4.1 h4.2)
    unfold mssClamp
    split <;> omega
  | case7 fuel i mss acc hi _ _ h0 h1 h2 _ _ h3 h4 ih =>
    exact ih h (fun m hm' => hm m (.of_skip (by omega) h0 h1 (by omega) (by omega) hm')) hmss

theorem parseMss_ge (h : parseMss opts fuel i mss acc = some (mss', acc')) (hmss : 536 ≤ mss) : 536 ≤ mss' := by
  have hclamp : ∀ m, 536 ≤ mssClamp m := fun m => by unfold mssClamp; split <;> omega
  fun_induction parseMss opts fuel i mss acc <;> grind

end ExoOS.Net
