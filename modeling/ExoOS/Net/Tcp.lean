import ExoOS.Lib.RingBuf
import ExoOS.Lib.Run
import ExoOS.Net.Packet

/-!
# A TCP connection

The transmission control block (`Tcb`) and what the kernel does to one: `tcp_output.c` (segments, the
retransmission queue, the flush of the send ring), the per-state part of `tcp_rx`, the socket calls and the
timers. A region of code that runs under the block's lock is one function.

`Conn` puts a control block together with a record of what happened: the segments handed to the network
(`wire`), the indices used (`acc`), the bytes taken from and given to the application (`accepted`, `read`)
and the sequence space received, not reduced modulo `2 ^ 32` (`rcvd`). No function reads the record.
Allocations and `ip_tx` can fail: `env n` says what happens to the `n`-th transmission of an event.
-/

namespace ExoOS.Net

open List RingBuf Transition

inductive TcpState
  | closed | listen | synSent | synReceived | established | finWait1 | finWait2 | closeWait | closing
  | lastAck | timeWait
  deriving DecidableEq

/-- `tcp_rexmit_entry_t`; `data` is `none` when the copy could not be allocated or there is no payload. -/
structure RexmitEntry where
  seqStart : Seq
  seqEnd : Seq
  data : Option (List Byte)
  dataLen : Nat
  flags : Flags
  deriving DecidableEq

def SOMAXCONN : Nat := 128
def ECONNRESET : Int := 104
def ETIMEDOUT : Int := 110

structure Tcb where
  localIp : Ip
  localPort : Nat
  remoteIp : Ip
  remotePort : Nat
  state : TcpState
  sndUna : Seq
  sndNxt : Seq
  sndWnd : Nat
  iss : Seq
  rcvNxt : Seq
  rcvWnd : Nat
  irs : Seq
  sndMss : Nat
  rcvMss : Nat
  rx : RingBuf Byte
  tx : RingBuf Byte
  rexmit : List RexmitEntry
  rexmitTimer : Bool
  delackTimer : Bool
  timewaitTimer : Bool
  /-- Slots of the completed children, in a ring of `SOMAXCONN` cells. -/
  acceptQueue : RingBuf Nat
  listener : Option Nat
  finSent : Bool
  finReceived : Bool
  delackPending : Bool
  soError : Int
  active : Bool

/-- `tcp_tcb_alloc`: the block it fills in. -/
def tcpTcbAlloc (isn : Seq) : Tcb :=
  { localIp := 0, localPort := 0, remoteIp := 0, remotePort := 0
    state := .closed
    sndUna := 0, sndNxt := 0, sndWnd := 0, iss := isn
    rcvNxt := 0, rcvWnd := TCP_RX_BUFSZ, irs := 0
    sndMss := TCP_MSS_DEFAULT, rcvMss := TCP_MSS_DEFAULT
    rx := RingBuf.empty TCP_RX_BUFSZ (fun _ => 0) (by decide)
    tx := RingBuf.empty TCP_TX_BUFSZ (fun _ => 0) (by decide)
    rexmit := []
    rexmitTimer := false, delackTimer := false, timewaitTimer := false
    acceptQueue := RingBuf.empty SOMAXCONN (fun _ => 0) (by decide)
    listener := none
    finSent := false, finReceived := false, delackPending := false
    soError := 0, active := true }

def Tcb.MssOk (t : Tcb) : Prop := 536 ≤ t.sndMss ∧ t.sndMss ≤ TCP_MSS_DEFAULT

theorem mss_default : 536 ≤ TCP_MSS_DEFAULT := by decide

/-- `tcp_tcb_free`: timers and retransmission queue go, and the buffers with them. -/
def tcpTcbFree (t : Tcb) : Tcb :=
  { t with
    rexmitTimer := false, delackTimer := false, timewaitTimer := false
    rexmit := [], state := .closed, active := false }

/-- What happens to one transmission: the `skbuff`, the queue entry and its payload copy are allocated or
not, and `ip_tx` returns a non-negative value or not. -/
structure TxOutcome where
  skb : Bool
  entry : Bool
  copy : Bool
  ip : Bool

def TxOutcome.ok : TxOutcome := { skb := true, entry := true, copy := true, ip := true }

structure Conn where
  tcb : Tcb
  wire : List Segment := []
  acc : List Access := []
  accepted : List Byte := []
  read : List Byte := []
  rcvd : Nat := 0
  /-- Transmissions tried so far in the current event. -/
  tries : Nat := 0

def Conn.setTcb (c : Conn) (t : Tcb) : Conn := { c with tcb := t }

def Conn.setState (c : Conn) (st : TcpState) : Conn := c.setTcb { c.tcb with state := st }

/-! ### Sequence numbers and the receive ring -/

def tcpSeqDiff (a b : Seq) : Int := (a - b).toInt
def tcpSeqLt (a b : Seq) : Bool := decide (tcpSeqDiff a b < 0)
def tcpSeqLe (a b : Seq) : Bool := decide (tcpSeqDiff a b ≤ 0)
def tcpSeqGt (a b : Seq) : Bool := decide (tcpSeqDiff a b > 0)

/-- The sequence number of position `p` of a stream, which begins behind the SYN. -/
def seqAt (isn : Seq) (p : Nat) : Seq := isn + 1 + BitVec.ofNat 32 p

@[simp] theorem seqAt_zero (isn : Seq) : seqAt isn 0 = isn + 1 := BitVec.add_zero _

theorem seqAt_add (isn : Seq) (p n : Nat) : seqAt isn (p + n) = seqAt isn p + BitVec.ofNat 32 n := by
  simp only [seqAt, BitVec.ofNat_add, BitVec.add_assoc]

theorem seqAt_inj {isn : Seq} {p q : Nat} (h : seqAt isn p = seqAt isn q) : p % 2 ^ 32 = q % 2 ^ 32 := by
  have h1 := congrArg BitVec.toNat ((BitVec.add_right_inj (isn + 1)).1 h)
  rwa [BitVec.toNat_ofNat] at h1

/-- `(rx_head - rx_tail) % rx_size`, the difference in `uint32_t`. -/
def tcpRxAvailable (t : Tcb) : Nat := (t.rx.head + 2 ^ 32 - t.rx.tail) % 2 ^ 32 % t.rx.size

def tcpRxFree (t : Tcb) : Nat := t.rx.size - 1 - tcpRxAvailable t

/-! ### The retransmission queue -/

/-- Sequence numbers a segment takes: its payload, and one each for SYN and FIN. -/
def seqConsumed (flags : Flags) (len : Nat) : Nat := len + flags.syn.toNat + flags.fin.toNat

def rexmitEntry (o : TxOutcome) (seq : Seq) (data : List Byte) (flags : Flags) : List RexmitEntry :=
  if o.entry then
    [{ seqStart := seq
       seqEnd := seq + BitVec.ofNat 32 (seqConsumed flags data.length)
       data := if data.length > 0 ∧ o.copy then some data else none
       dataLen := data.length
       flags := flags }]
  else []

def tcpRexmitEnqueue (o : TxOutcome) (t : Tcb) (seq : Seq) (data : List Byte) (flags : Flags) : Tcb :=
  { t with rexmit := t.rexmit ++ rexmitEntry o seq data flags }

/-- The entries that stay: those behind the first one that is not fully acknowledged. -/
def tcpRexmitAck (t : Tcb) (ack : Seq) : Tcb :=
  let rest := t.rexmit.dropWhile fun ent => tcpSeqLe ent.seqEnd ack
  { t with rexmit := rest, rexmitTimer := t.rexmitTimer && !rest.isEmpty }

/-! ### Transmission -/

section
variable (env : Nat → TxOutcome)

def advertised (t : Tcb) : Nat := if t.rcvWnd < 65535 then t.rcvWnd else 65535

def mssOpts (t : Tcb) (flags : Flags) : List Byte :=
  if flags.syn then [2, 4, BitVec.ofNat 8 (t.rcvMss / 256), BitVec.ofNat 8 t.rcvMss] else []

def Conn.ipTx (c : Conn) (o : TxOutcome) (seg : Segment) : Conn :=
  { c with wire := if o.ip then c.wire ++ [seg] else c.wire }

def builtSegment (t : Tcb) (flags : Flags) (data : List Byte) : Segment :=
  { seq := t.sndNxt, ack := t.rcvNxt, flags := flags, window := advertised t
    opts := mssOpts t flags, data := data }

/-- `snd_nxt` moves and the segment is queued before `ip_tx` is called; whether the call succeeds is the
second component. -/
def tcpSendSegment (c : Conn) (flags : Flags) (data : List Byte) : Conn × Bool :=
  let o := env c.tries
  let c := { c with tries := c.tries + 1, acc := c.acc ++ [.segment data.length] }
  if o.skb then
    let t := c.tcb
    let seg := builtSegment t flags data
    let n := seqConsumed flags data.length
    let t := { t with sndNxt := t.sndNxt + BitVec.ofNat 32 n }
    let t := if n > 0 then tcpRexmitEnqueue o t seg.seq data flags else t
    ((c.setTcb t).ipTx o seg, o.ip)
  else (c, false)

def tcpSendRst (c : Conn) (seq ack : Seq) : Conn :=
  let o := env c.tries
  let c := { c with tries := c.tries + 1 }
  if o.skb then
    c.ipTx o { seq := seq, ack := ack, flags := { rst := true, ack := true }, window := 0 }
  else c

def tcpSendAck (c : Conn) : Conn :=
  let o := env c.tries
  let c := { c with tries := c.tries + 1 }
  if o.skb then
    let t := c.tcb
    let c := c.ipTx o { seq := t.sndNxt, ack := t.rcvNxt, flags := { ack := true }, window := advertised t }
    c.setTcb { t with delackPending := false, delackTimer := false }
  else c

/-- The two conditions under which data may leave or enter the send ring. -/
def Tcb.CanSend (t : Tcb) : Prop := t.state = .established ∨ t.state = .closeWait

instance (t : Tcb) : Decidable t.CanSend := inferInstanceAs (Decidable (_ ∨ _))

def txPending (t : Tcb) : Nat :=
  if t.tx.head ≥ t.tx.tail then t.tx.head - t.tx.tail else t.tx.size - t.tx.tail + t.tx.head

def txUsable (t : Tcb) : Nat :=
  let inFlight := (t.sndNxt - t.sndUna).toNat
  if t.sndWnd > inFlight then t.sndWnd - inFlight else 0

def txChunk (t : Tcb) : Nat :=
  let chunk := if txPending t > t.sndMss then t.sndMss else txPending t
  if chunk > txUsable t then txUsable t else chunk

def copyAccess (tx : RingBuf Byte) (chunk : Nat) : List Access :=
  (List.range chunk).flatMap fun i => [.txBuf ((tx.tail + i) % tx.size), .segData i]

/-- One round of the loop of `tcp_output`; the flag says whether the loop goes on. -/
def outputRound (c : Conn) : Conn × Bool :=
  if c.tcb.tx.tail = c.tcb.tx.head then (c, false)
  else if txPending c.tcb = 0 then (c, false)
  else if txUsable c.tcb = 0 then (c, false)
  else
    let chunk := txChunk c.tcb
    let segData := c.tcb.tx.peek chunk
    let c := { c with acc := c.acc ++ copyAccess c.tcb.tx chunk }
    match tcpSendSegment env c { ack := true, psh := true } segData with
    | (c, false) => (c, false)
    | (c, true) => (c.setTcb { c.tcb with tx := c.tcb.tx.advance chunk, rexmitTimer := true }, true)

/-- A round after which the loop goes on takes bytes out of the ring, so that the number of bytes queued
bounds the rounds. -/
def outputLoop : Nat → Conn → Conn
  | 0, c => c
  | fuel + 1, c =>
    match outputRound env c with
    | (c, false) => c
    | (c, true) => outputLoop fuel c

def tcpOutput (c : Conn) : Conn :=
  if c.tcb.CanSend then outputLoop env (c.tcb.tx.used + 1) c else c

/-! ### Reception -/

/-- The copy loop of `tcp_deliver_data`: what does not fit is dropped. -/
def deliverLoop : Conn → List Byte → Conn
  | c, [] => c
  | c, x :: xs =>
    if c.tcb.rx.Full then c
    else deliverLoop
      { c with tcb := { c.tcb with rx := c.tcb.rx.push x }
               acc := c.acc ++ [.rxBuf c.tcb.active c.tcb.rx.head] } xs

def tcpDeliverData (c : Conn) (data : List Byte) : Conn :=
  let c := deliverLoop c data
  let t := { c.tcb with rcvNxt := c.tcb.rcvNxt + BitVec.ofNat 32 data.length }
  { c with tcb := { t with rcvWnd := tcpRxFree t }, rcvd := c.rcvd + data.length }

def tcpDelackSchedule (t : Tcb) : Tcb :=
  if t.delackPending then t else { t with delackPending := true, delackTimer := true }

/-- An ACK of something in flight moves `snd_una` and the window. -/
def tcpAckAdvance (t : Tcb) (s : Segment) : Tcb :=
  if s.flags.ack && tcpSeqGt s.ack t.sndUna && tcpSeqLe s.ack t.sndNxt then
    { tcpRexmitAck { t with sndUna := s.ack } s.ack with sndWnd := s.window }
  else t

def tcpAck (t : Tcb) (s : Segment) : Tcb :=
  let t := tcpAckAdvance t s
  if t.state = .finWait1 ∧ t.sndUna = t.sndNxt then { t with state := .finWait2 } else t

def afterFin : TcpState → TcpState
  | .established => .closeWait
  | .finWait1 => .closing
  | .finWait2 => .timeWait
  | st => st

/-- FIN processing; `FIN_WAIT_2` also starts the `TIME_WAIT` timer. -/
def tcpFin (c : Conn) : Conn :=
  let c := { c with
    tcb := { c.tcb with rcvNxt := c.tcb.rcvNxt + 1, finReceived := true }, rcvd := c.rcvd + 1 }
  let c := tcpSendAck env c
  let st := c.tcb.state
  c.setTcb { c.tcb with
    state := afterFin st, timewaitTimer := c.tcb.timewaitTimer || decide (st = .finWait2) }

def tcpTakeData (c : Conn) (data : List Byte) : Conn :=
  if data ≠ [] then
    let c := tcpDeliverData c data
    c.setTcb (tcpDelackSchedule c.tcb)
  else c

def tcpTake (c : Conn) (s : Segment) : Conn :=
  let c := tcpTakeData c s.data
  if s.flags.fin then tcpFin env c else c

def tcpReceive (c : Conn) (s : Segment) : Conn :=
  let c := c.setTcb (tcpAck c.tcb s)
  if (s.data ≠ [] ∨ s.flags.fin = true) ∧ tcpSeqLt s.seq c.tcb.rcvNxt = true then tcpSendAck env c
  else if (s.data ≠ [] ∨ s.flags.fin = true) ∧ s.seq ≠ c.tcb.rcvNxt then tcpSendAck env c
  else tcpTake env c s

def tcpSynSent (c : Conn) (s : Segment) : Option Conn :=
  if s.flags.syn && s.flags.ack then
    if s.ack ≠ c.tcb.sndNxt then some (tcpSendRst env c s.ack 0)
    else do
      let (mss, acc) ← mssOption s.opts c.tcb.sndMss
      let t := { c.tcb with
        irs := s.seq, rcvNxt := s.seq + 1, sndUna := s.ack, sndWnd := s.window, sndMss := mss }
      let t := { tcpRexmitAck t s.ack with state := .established }
      some (tcpSendAck env { c with tcb := t, acc := c.acc ++ acc })
  else some c

/-- `tcp_rx` from the point where the block has been found. The flag says that a passively opened
connection is complete and goes to its listener. -/
def tcpProcess (c : Conn) (s : Segment) : Option (Conn × Bool) :=
  if s.flags.rst then
    some (c.setTcb { c.tcb with soError := -ECONNRESET, state := .closed }, false)
  else match c.tcb.state with
    | .synSent => (tcpSynSent env c s).map fun c => (c, false)
    | .synReceived =>
      if s.flags.ack && s.ack == c.tcb.sndNxt then
        some (c.setTcb { tcpRexmitAck { c.tcb with sndUna := s.ack } s.ack with state := .established }, true)
      else some (c, false)
    | .established | .finWait1 | .finWait2 | .closeWait => some (tcpReceive env c s, false)
    | .closing =>
      if s.flags.ack && c.tcb.sndUna == c.tcb.sndNxt then
        some (c.setTcb { c.tcb with state := .timeWait, timewaitTimer := true }, false)
      else some (c, false)
    | .lastAck =>
      if s.flags.ack && c.tcb.sndUna == c.tcb.sndNxt then some (c.setTcb (tcpTcbFree c.tcb), false)
      else some (c, false)
    | .timeWait =>
      let c := tcpSendAck env c
      some (c.setTcb { c.tcb with timewaitTimer := true }, false)
    | .closed | .listen => some (c, false)

/-! ### Socket calls -/

def Conn.putTx (c : Conn) (x : Byte) : Conn :=
  { c with tcb := { c.tcb with tx := c.tcb.tx.push x }
           acc := c.acc ++ [.txBuf c.tcb.tx.head]
           accepted := c.accepted ++ [x] }

/-- The loop of `tcp_sock_sendto`. A blocking call that finds no room sleeps there and, once woken, goes on
with the bytes that are left as a new call would. -/
def sendLoop (nonblock : Bool) : Conn → List Byte → Conn
  | c, [] => tcpOutput env c
  | c, x :: xs =>
    if c.tcb.tx.Full then
      let c := tcpOutput env c
      if c.tcb.tx.Full then (if nonblock then tcpOutput env c else c)
      else sendLoop nonblock (c.putTx x) xs
    else sendLoop nonblock (c.putTx x) xs

def tcpSockSendto (c : Conn) (src : List Byte) (nonblock : Bool) : Conn :=
  if c.tcb.CanSend then sendLoop env nonblock c src else c

def recvLoop : Nat → Conn → Conn
  | 0, c => c
  | n + 1, c => recvLoop n
    { c with tcb := { c.tcb with rx := c.tcb.rx.advance 1 }
             acc := c.acc ++ [.rxBuf c.tcb.active c.tcb.rx.tail]
             read := c.read ++ [c.tcb.rx.buf c.tcb.rx.tail] }

/-- `tcp_sock_recvfrom` from the point where it does not wait; with an empty ring it returns without
having changed anything. -/
def tcpSockRecvfrom (c : Conn) (len : Nat) : Conn :=
  let avail := tcpRxAvailable c.tcb
  if avail = 0 then c
  else
    let c := recvLoop (if len < avail then len else avail) c
    c.setTcb { c.tcb with rcvWnd := tcpRxFree c.tcb }

/-- A read does not touch a buffer that `tcp_tcb_free` has freed. -/
def Tcb.Readable (t : Tcb) : Prop := t.active = true ∨ tcpRxAvailable t = 0

inductive Shut
  | rd | wr | rdwr
  deriving DecidableEq

def tcpSockShutdown (c : Conn) (how : Shut) : Conn :=
  if (how = .wr ∨ how = .rdwr) ∧ c.tcb.finSent = false ∧ c.tcb.CanSend then
    let c := c.setTcb { c.tcb with finSent := true }
    let c := (tcpSendSegment env c { fin := true, ack := true } []).1
    if c.tcb.state = .established then c.setState .finWait1
    else if c.tcb.state = .closeWait then c.setState .lastAck
    else c
  else c

def tcpRexmitTimeout (c : Conn) : Conn :=
  let t := { c.tcb with rexmitTimer := false }
  if t.state = .closed ∨ t.active = false then c.setTcb t
  else if t.rexmit = [] then c.setTcb t
  else c.setTcb { t with soError := -ETIMEDOUT, state := .closed }

def tcpDelackTimeout (c : Conn) : Conn :=
  let c := c.setTcb { c.tcb with delackTimer := false }
  if c.tcb.delackPending = true ∧ c.tcb.state ≠ .closed then tcpSendAck env c else c

/-- `tcp_sock_connect` up to the wait: the block of the new connection after its SYN. -/
def tcpConnect (t : Tcb) : Conn :=
  let c : Conn := { tcb := { t with sndNxt := t.iss, sndUna := t.iss, state := .synSent } }
  let c := (tcpSendSegment env c { syn := true } []).1
  c.setTcb { c.tcb with rexmitTimer := true }

/-- `tcp_handle_syn` from the point where the child's identity is filled in. -/
def tcpHandleSyn (t : Tcb) (s : Segment) : Option Conn := do
  let t := { t with
    irs := s.seq, rcvNxt := s.seq + 1, sndNxt := t.iss, sndUna := t.iss, sndWnd := s.window }
  let (mss, acc) ← mssOption s.opts t.sndMss
  let c : Conn := { tcb := { t with sndMss := mss, state := .synReceived }, acc := acc }
  let c := (tcpSendSegment env c { syn := true, ack := true } []).1
  some (c.setTcb { c.tcb with rexmitTimer := true })

end

inductive Event
  | rx (env : Nat → TxOutcome) (s : Segment)
  | send (env : Nat → TxOutcome) (src : List Byte) (nonblock : Bool)
  | recv (len : Nat)
  | shutdown (env : Nat → TxOutcome) (how : Shut)
  | rexmitTimeout
  | delackTimeout (env : Nat → TxOutcome)
  | timewaitTimeout

/-- One event. Timers fire only while they are armed, and `tcp_rx` finds only active blocks. -/
def step (c : Conn) (e : Event) : Option Conn :=
  let c := { c with tries := 0 }
  match e with
  | .rx env s => if c.tcb.active then (tcpProcess env c s).map Prod.fst else none
  | .send env src nonblock => some (tcpSockSendto env c src nonblock)
  | .recv len => some (tcpSockRecvfrom c len)
  | .shutdown env how => some (tcpSockShutdown env c how)
  | .rexmitTimeout => if c.tcb.rexmitTimer then some (tcpRexmitTimeout c) else none
  | .delackTimeout env => if c.tcb.delackTimer then some (tcpDelackTimeout env c) else none
  | .timewaitTimeout => if c.tcb.timewaitTimer then some (c.setTcb (tcpTcbFree c.tcb)) else none

/-! ### What the functions do to the block -/

section
variable (env : Nat → TxOutcome) (c : Conn)

theorem Conn.ipTx_wire (o : TxOutcome) (seg : Segment) : ∃ l, (c.ipTx o seg).wire = c.wire ++ l ∧ ∀ s ∈ l, s = seg := by
  unfold Conn.ipTx
  split
  · exact ⟨[seg], rfl, fun s hs => mem_singleton.1 hs⟩
  · exact ⟨[], (append_nil _).symm, forall_mem_nil _⟩

theorem mem_rexmitEntry {o : TxOutcome} {seq : Seq} {data : List Byte} {flags : Flags} {ent : RexmitEntry}
    (h : ent ∈ rexmitEntry o seq data flags) :
    o.entry ∧ ent.seqStart = seq ∧ ent.flags = flags ∧ ent.dataLen = data.length ∧
      ent.data = if data.length > 0 ∧ o.copy then some data else none := by
  unfold rexmitEntry at h
  split at h
  · rw [mem_singleton.1 h]
    exact ⟨‹_›, rfl, rfl, rfl, rfl⟩
  · cases h

theorem tcpSendSegment_of_not_skb (flags : Flags) (data : List Byte) (h : (env c.tries).skb = false) :
    tcpSendSegment env c flags data =
      ({ c with tries := c.tries + 1, acc := c.acc ++ [.segment data.length] }, false) := by
  simp [tcpSendSegment, h]

theorem tcpSendSegment_of_skb (flags : Flags) (data : List Byte) (h : (env c.tries).skb)
    (hn : 0 < seqConsumed flags data.length) :
    tcpSendSegment env c flags data = (({ c with
          tries := c.tries + 1
          acc := c.acc ++ [.segment data.length]
          tcb := { c.tcb with
            sndNxt := c.tcb.sndNxt + BitVec.ofNat 32 (seqConsumed flags data.length)
            rexmit := c.tcb.rexmit ++ rexmitEntry (env c.tries) c.tcb.sndNxt data flags } } : Conn).ipTx
        (env c.tries) (builtSegment c.tcb flags data), (env c.tries).ip) := by
  simp only [tcpSendSegment, h, if_true, hn, Conn.setTcb, tcpRexmitEnqueue, builtSegment]

theorem tcpSendSegment_cases (flags : Flags) (data : List Byte) (hn : 0 < seqConsumed flags data.length) :
    (∃ acc tries, (tcpSendSegment env c flags data).1 = { c with acc := acc, tries := tries }) ∨
    ∃ l acc tries, (tcpSendSegment env c flags data).1 = { c with
          tcb := { c.tcb with
            sndNxt := c.tcb.sndNxt + BitVec.ofNat 32 (seqConsumed flags data.length)
            rexmit := c.tcb.rexmit ++ rexmitEntry (env c.tries) c.tcb.sndNxt data flags }
          wire := c.wire ++ l, acc := acc, tries := tries } ∧
      ∀ s ∈ l, s = builtSegment c.tcb flags data := by
  cases h : (env c.tries).skb with
  | false => exact .inl ⟨_, _, by rw [tcpSendSegment_of_not_skb env c flags data h]⟩
  | true =>
    obtain ⟨l, hl, hs⟩ := c.ipTx_wire (env c.tries) (builtSegment c.tcb flags data)
    exact .inr ⟨l, _, _, by rw [tcpSendSegment_of_skb env c flags data h hn, ← hl]; rfl, hs⟩

theorem tcpSendSegment_eq (flags : Flags) (data : List Byte) : ∃ sndNxt rexmit l tries,
    (tcpSendSegment env c flags data).1 = { c with
      tcb := { c.tcb with sndNxt := sndNxt, rexmit := rexmit }, wire := c.wire ++ l, tries := tries
      acc := c.acc ++ [.segment data.length] } ∧
    ∀ s ∈ l, s = builtSegment c.tcb flags data := by
  unfold tcpSendSegment
  dsimp only
  split
  · obtain ⟨l, hl, hs⟩ := c.ipTx_wire (env c.tries) (builtSegment c.tcb flags data)
    split <;> exact ⟨_, _, l, _, by rw [← hl]; rfl, hs⟩
  · exact ⟨_, _, [], _, by rw [append_nil], forall_mem_nil _⟩

theorem txPending_eq (t : Tcb) : txPending t = t.tx.used := by
  have := t.tx.tail_lt
  rw [txPending, used_eq]
  split <;> omega

theorem txChunk_le (t : Tcb) : txChunk t ≤ t.tx.used ∧ txChunk t ≤ t.sndMss := by
  unfold txChunk
  rw [txPending_eq]
  dsimp only
  split <;> split <;> omega

theorem txChunk_pos {t : Tcb} (h1 : txPending t ≠ 0) (h2 : txUsable t ≠ 0) (h3 : 0 < t.sndMss) : 0 < txChunk t := by
  unfold txChunk
  dsimp only
  split <;> split <;> omega

/-- The accesses of a round of `tcp_output` that sends `chunk` bytes. -/
def roundAccess (t : Tcb) (a : Access) : Prop :=
  a ∈ copyAccess t.tx (txChunk t) ∨ a = .segment (txChunk t)

theorem outputRound_cases (hm : 0 < c.tcb.sndMss) :
    (∃ acc tries, outputRound env c = ({ c with acc := acc, tries := tries }, false) ∧
      ∀ a ∈ acc, a ∈ c.acc ∨ roundAccess c.tcb a) ∨
    ∃ data tx timer acc tries, outputRound env c = (({ c with
            tcb := { c.tcb with
              sndNxt := c.tcb.sndNxt + BitVec.ofNat 32 data.length
              rexmit := c.tcb.rexmit ++ rexmitEntry (env c.tries) c.tcb.sndNxt data { ack := true, psh := true }
              tx := tx, rexmitTimer := timer }
            acc := acc, tries := tries } : Conn).ipTx (env c.tries)
          (builtSegment c.tcb { ack := true, psh := true } data), (env c.tries).ip) ∧
      (env c.tries).skb ∧ data = c.tcb.tx.peek (txChunk c.tcb) ∧ 0 < data.length ∧
      tx.size = c.tcb.tx.size ∧ ((env c.tries).ip → tx = c.tcb.tx.advance (txChunk c.tcb)) ∧
      ∀ a ∈ acc, a ∈ c.acc ∨ roundAccess c.tcb a := by
  unfold outputRound
  split_ifs with h1 h2 h3
  iterate 3 exact .inl ⟨_, _, rfl, fun a ha => .inl ha⟩
  · have hlen : (c.tcb.tx.peek (txChunk c.tcb)).length = txChunk c.tcb := by simp [peek]
    have hpos := txChunk_pos h2 h3 hm
    have hacc : ∀ a ∈ c.acc ++ copyAccess c.tcb.tx (txChunk c.tcb) ++ [.segment (txChunk c.tcb)],
        a ∈ c.acc ∨ roundAccess c.tcb a := by
      intro a ha
      rw [append_assoc, mem_append, mem_append, mem_singleton] at ha
      exact ha
    dsimp only
    generalize c.tcb.tx.peek (txChunk c.tcb) = data at hlen
    generalize c.acc ++ copyAccess c.tcb.tx (txChunk c.tcb) = acc at hacc
    have hsize := c.tcb.tx.size_advance (txChunk c.tcb)
    generalize htx : c.tcb.tx.advance (txChunk c.tcb) = tx at hsize
    rw [← hlen] at hpos hacc
    cases hskb : (env c.tries).skb with
    | false =>
      rw [tcpSendSegment_of_not_skb env { c with acc := acc } _ data hskb]
      exact .inl ⟨_, _, rfl, hacc⟩
    | true =>
      rw [tcpSendSegment_of_skb env { c with acc := acc } _ data hskb (by simpa [seqConsumed] using hpos)]
      refine .inr ?_
      cases hip : (env c.tries).ip with
      | false => exact ⟨data, c.tcb.tx, _, _, _, rfl, rfl, rfl, hpos, rfl, (fun h => by cases h), hacc⟩
      | true => exact ⟨data, tx, true, _, _, by rw [← htx]; rfl, rfl, rfl, hpos, hsize, fun _ => rfl, hacc⟩

theorem tcpDelackSchedule_eq (t : Tcb) : ∃ pending timer,
    tcpDelackSchedule t = { t with delackPending := pending, delackTimer := timer } := by
  unfold tcpDelackSchedule
  split <;> exact ⟨_, _, rfl⟩

theorem tcpSendAck_eq : ∃ pending timer l tries, tcpSendAck env c = { c with
      tcb := { c.tcb with delackPending := pending, delackTimer := timer }
      wire := c.wire ++ l, tries := tries } ∧
    ∀ s ∈ l, s.ack = c.tcb.rcvNxt ∧ s.data = [] ∧ s.flags = { ack := true } := by
  unfold tcpSendAck
  dsimp only
  split
  · obtain ⟨l, hl, hs⟩ := c.ipTx_wire (env c.tries)
      { seq := c.tcb.sndNxt, ack := c.tcb.rcvNxt, flags := { ack := true }, window := advertised c.tcb }
    refine ⟨_, _, l, _, by rw [← hl]; rfl, fun s hsl => ?_⟩
    rw [hs s hsl]
    exact ⟨rfl, rfl, rfl⟩
  · exact ⟨c.tcb.delackPending, c.tcb.delackTimer, [], _, by rw [append_nil], forall_mem_nil _⟩

theorem tcpSendRst_eq (seq ack : Seq) : ∃ l tries,
    tcpSendRst env c seq ack = { c with wire := c.wire ++ l, tries := tries } ∧
    ∀ s ∈ l, s.data = [] ∧ s.flags = { rst := true, ack := true } := by
  unfold tcpSendRst
  dsimp only
  split
  · obtain ⟨l, hl, hs⟩ := c.ipTx_wire (env c.tries)
      { seq := seq, ack := ack, flags := { rst := true, ack := true }, window := 0 }
    refine ⟨l, _, by rw [← hl]; rfl, fun s hsl => ?_⟩
    rw [hs s hsl]
    exact ⟨rfl, rfl⟩
  · exact ⟨[], _, by rw [append_nil], forall_mem_nil _⟩

theorem tcpAckAdvance_eq (t : Tcb) (s : Segment) : ∃ una rexmit timer wnd,
    tcpAckAdvance t s = { t with sndUna := una, rexmit := rexmit, rexmitTimer := timer, sndWnd := wnd } ∧
    rexmit <:+ t.rexmit := by
  unfold tcpAckAdvance
  split
  · exact ⟨_, _, _, _, rfl, dropWhile_suffix _⟩
  · exact ⟨_, _, _, _, rfl, suffix_refl _⟩

theorem tcpAck_eq (t : Tcb) (s : Segment) : ∃ una rexmit timer wnd state,
    tcpAck t s = { t with sndUna := una, rexmit := rexmit, rexmitTimer := timer, sndWnd := wnd, state := state } ∧
    rexmit <:+ t.rexmit ∧ (state = t.state ∨ t.state = .finWait1 ∧ state = .finWait2) := by
  obtain ⟨una, rexmit, timer, wnd, heq, hsuf⟩ := tcpAckAdvance_eq t s
  unfold tcpAck
  dsimp only
  rw [heq]
  split
  · exact ⟨una, rexmit, timer, wnd, .finWait2, rfl, hsuf, .inr ⟨‹_ ∧ _›.1, rfl⟩⟩
  · exact ⟨una, rexmit, timer, wnd, t.state, rfl, hsuf, .inl rfl⟩

def rxAccess (t : Tcb) (a : Access) : Prop := ∃ i < t.rx.size, a = .rxBuf t.active i

theorem deliverLoop_eq (c : Conn) (data : List Byte) : ∃ acc,
    deliverLoop c data = { c with tcb := { c.tcb with rx := c.tcb.rx.pushAll data }, acc := acc } ∧
    ∀ a ∈ acc, a ∈ c.acc ∨ rxAccess c.tcb a := by
  induction data generalizing c with
  | nil => exact ⟨c.acc, rfl, fun a ha => .inl ha⟩
  | cons x xs ih =>
    rw [deliverLoop, pushAll]
    split
    · exact ⟨c.acc, rfl, fun a ha => .inl ha⟩
    obtain ⟨acc, heq, hacc⟩ := ih { c with
      tcb := { c.tcb with rx := c.tcb.rx.push x }, acc := c.acc ++ [.rxBuf c.tcb.active c.tcb.rx.head] }
    refine ⟨acc, heq, fun a ha => ?_⟩
    rcases hacc a ha with ha | ha
    · refine (mem_append.1 ha).imp_right fun ha => ⟨c.tcb.rx.head, c.tcb.rx.head_lt, ?_⟩
      exact mem_singleton.1 ha
    · exact .inr ha

theorem tcpTakeData_eq (c : Conn) {data : List Byte} (hd : data ≠ []) : ∃ wnd pending timer acc,
    tcpTakeData c data = { c with
      tcb := { c.tcb with
        rx := c.tcb.rx.pushAll data, rcvNxt := c.tcb.rcvNxt + BitVec.ofNat 32 data.length
        rcvWnd := wnd, delackPending := pending, delackTimer := timer }
      acc := acc, rcvd := c.rcvd + data.length } ∧
    ∀ a ∈ acc, a ∈ c.acc ∨ rxAccess c.tcb a := by
  obtain ⟨acc, heq, hacc⟩ := deliverLoop_eq c data
  obtain ⟨pending, timer, heq'⟩ := tcpDelackSchedule_eq (tcpDeliverData c data).tcb
  refine ⟨(tcpDeliverData c data).tcb.rcvWnd, pending, timer, acc, ?_, hacc⟩
  simp only [tcpTakeData, hd, ne_eq, not_false_eq_true, if_true, heq']
  simp only [tcpDeliverData, heq, Conn.setTcb]

/-- The ring and the bytes read are named by equations, since they are never to be unfolded. -/
theorem recvLoop_eq (n : Nat) (c : Conn) : ∃ rx read acc,
    recvLoop n c = { c with tcb := { c.tcb with rx := rx }, read := c.read ++ read, acc := acc } ∧
    rx = c.tcb.rx.advance n ∧ read = c.tcb.rx.peek n ∧ ∀ a ∈ acc, a ∈ c.acc ∨ rxAccess c.tcb a := by
  induction n generalizing c with
  | zero =>
    exact ⟨c.tcb.rx, [], c.acc, by rw [recvLoop, append_nil], c.tcb.rx.advance_zero.symm, rfl, fun a ha => .inl ha⟩
  | succ n ih =>
    rw [recvLoop]
    generalize hrx : c.tcb.rx.advance 1 = rx1
    obtain ⟨rx, read, acc, h, hrx', hread, hacc⟩ := ih { c with
      tcb := { c.tcb with rx := rx1 }
      acc := c.acc ++ [.rxBuf c.tcb.active c.tcb.rx.tail]
      read := c.read ++ [c.tcb.rx.buf c.tcb.rx.tail] }
    refine ⟨rx, c.tcb.rx.buf c.tcb.rx.tail :: read, acc, ?_, ?_, ?_, fun a ha => ?_⟩
    · rw [h, append_assoc]
      rfl
    · rw [hrx', ← hrx, advance_advance, Nat.add_comm 1 n]
    · rw [peek_succ, hread, ← hrx]
    · rcases hacc a ha with ha | ⟨i, hi, ha⟩
      · refine (mem_append.1 ha).imp_right fun ha => ⟨c.tcb.rx.tail, c.tcb.rx.tail_lt, ?_⟩
        exact mem_singleton.1 ha
      · exact .inr ⟨i, by rw [← hrx] at hi; exact hi, ha⟩

theorem tcpSockRecvfrom_eq (c : Conn) (len : Nat) : ∃ n rx read wnd acc, tcpSockRecvfrom c len =
      { c with tcb := { c.tcb with rx := rx, rcvWnd := wnd }, read := c.read ++ read, acc := acc } ∧
    n ≤ tcpRxAvailable c.tcb ∧ rx = c.tcb.rx.advance n ∧ read = c.tcb.rx.peek n ∧
    ∀ a ∈ acc, a ∈ c.acc ∨ rxAccess c.tcb a := by
  unfold tcpSockRecvfrom
  dsimp only
  split
  · exact ⟨0, c.tcb.rx, [], c.tcb.rcvWnd, c.acc, by rw [append_nil], Nat.zero_le _,
      c.tcb.rx.advance_zero.symm, rfl, fun a ha => .inl ha⟩
  have hn : (if len < tcpRxAvailable c.tcb then len else tcpRxAvailable c.tcb) ≤ tcpRxAvailable c.tcb := by
    split <;> omega
  obtain ⟨rx, read, acc, heq, hrx, hread, hacc⟩ := recvLoop_eq _ c
  rw [heq]
  exact ⟨_, rx, read, _, acc, rfl, hn, hrx, hread, hacc⟩

theorem tcpProcess_isSome (c : Conn) (seg : Segment) : ∃ r, tcpProcess env c seg = some r := by
  have hsyn : ∃ c', tcpSynSent env c seg = some c' := by
    unfold tcpSynSent
    split_ifs
    · exact ⟨_, rfl⟩
    · obtain ⟨⟨mss, acc⟩, hopt⟩ : ∃ r, mssOption seg.opts c.tcb.sndMss = some r :=
        parseMss_isSome (Nat.zero_le _) (Nat.lt_succ_self _)
      rw [hopt]
      exact ⟨_, rfl⟩
    · exact ⟨_, rfl⟩
  unfold tcpProcess
  split
  · exact ⟨_, rfl⟩
  split
  case h_1 =>
    obtain ⟨c', hc⟩ := hsyn
    rw [hc]
    exact ⟨_, rfl⟩
  all_goals first | exact ⟨_, rfl⟩ | (split <;> exact ⟨_, rfl⟩)

variable {P : Conn → Prop}

theorem outputLoop_inv (hP : ∀ c, P c → P (outputRound env c).1) (fuel : Nat) (h : P c) :
    P (outputLoop env fuel c) := by
  induction fuel generalizing c with
  | zero => exact h
  | succ fuel ih =>
    have h1 := hP c h
    rw [outputLoop]
    split
    · rename_i heq; rwa [heq] at h1
    · rename_i heq; rw [heq] at h1; exact ih _ h1

theorem tcpOutput_inv (hP : ∀ c, P c → P (outputRound env c).1) (h : P c) : P (tcpOutput env c) := by
  unfold tcpOutput
  split
  · exact outputLoop_inv env c hP _ h
  · exact h

theorem sendLoop_inv (hout : ∀ c, P c → P (tcpOutput env c))
    (hput : ∀ c x, P c → ¬ c.tcb.tx.Full → P (c.putTx x)) (nonblock : Bool) (src : List Byte) (h : P c) :
    P (sendLoop env nonblock c src) := by
  induction src generalizing c with
  | nil => exact hout c h
  | cons x xs ih =>
    have h1 := hout c h
    rw [sendLoop]
    split
    · dsimp only
      split
      · split
        · exact hout _ h1
        · exact h1
      · exact ih _ (hput _ x h1 ‹_›)
    · exact ih _ (hput c x h ‹_›)

end

end ExoOS.Net
