import ExoOS.Lib.LockTrace
import ExoOS.Net.Datagram
import ExoOS.Net.TcpStack

/-!
# The locks of the control blocks

For every entry point of TCP, the lock operations and sleeps of the executing context, in order. A segment is sent by
`ip_tx`, which sleeps between its ARP lookups as long as they fail; `waitq_wait` sleeps. Everything a call cannot
choose is its `Path`: allocations, the answers of the ARP cache, and what the other contexts have done to the block
each time the call takes the lock again.

Three things break the discipline. Segments are sent under the lock. With a full accept queue `tcp_rx` frees the child
whose lock it holds. `tcp_sock_connect` releases a lock it has never taken.
-/

namespace ExoOS.Net

open List LockEvent Nat

abbrev LockTrace := List (LockEvent Nat)

/-! ### Sending -/

def NetDev.nextHop (dev : NetDev) (dstIp : Ip) : Ip :=
  if dstIp &&& dev.netmask = dev.ipAddr &&& dev.netmask then dstIp else dev.gateway

/-- The retry loop of `ip_tx`, with `tries` left, from the `k`-th lookup on. -/
def arpRetrySleeps (ip : Ip) (arp : Nat → Bool) : Nat → Nat → Nat
  | 0, _ => 0
  | tries + 1, k =>
    if ip = IP4_BROADCAST ∨ ip = 0 ∨ arp k = true then 0
    else if tries = 0 then 0
    else arpRetrySleeps ip arp tries (k + 1) + 1

def ipTxSleeps (dev : NetDev) (dstIp : Ip) (arp : Nat → Bool) : Nat :=
  if dstIp = IP4_BROADCAST ∨ dstIp = (dev.ipAddr &&& dev.netmask) ||| ~~~dev.netmask then 0
  else arpRetrySleeps (dev.nextHop dstIp) arp 3 0

/-- What happens to the transmissions of a locked region: their outcome, and the answers to their lookups. -/
structure World where
  tx : Nat → TxOutcome
  arp : Nat → Nat → Bool
  /-- The buffers of a new block can be allocated. -/
  bufs : Bool

/-- The sleeps of the first `n` transmissions; without a buffer `ip_tx` is not called. -/
def sendSleeps (dev : NetDev) (dstIp : Ip) (w : World) (n : Nat) : Nat :=
  ((range n).map fun j => if (w.tx j).skb then ipTxSleeps dev dstIp (w.arp j) else 0).sum

/-! ### The entry points -/

def locked (i n : Nat) (rest : LockTrace) : LockTrace := .acquire i :: (replicate n .sleep ++ .release i :: rest)

def tcpTcbFreeEvents (i : Nat) : LockTrace := locked i 0 []

/-- The segment completes a passive open whose listener has no room. -/
def Stack.QueueFull (s : Stack) (i : Nat) (seg : Segment) : Prop :=
  let t := (s.slots i).tcb
  seg.flags.rst = false ∧ t.state = .synReceived ∧ seg.flags.ack = true ∧ seg.ack = t.sndNxt ∧
    ∃ l, t.listener = some l ∧ (s.slots l).tcb.acceptQueue.Full

instance (s : Stack) (i : Nat) (seg : Segment) : Decidable (s.QueueFull i seg) :=
  haveI : Decidable (∃ l, (s.slots i).tcb.listener = some l ∧ (s.slots l).tcb.acceptQueue.Full) :=
    match h : (s.slots i).tcb.listener with
    | none => .isFalse fun ⟨l, hl, _⟩ => by simp at hl
    | some l => decidable_of_iff (s.slots l).tcb.acceptQueue.Full
        ⟨fun hf => ⟨l, rfl, hf⟩, fun ⟨_, hl, hf⟩ => Option.some.inj hl ▸ hf⟩
  inferInstanceAs (Decidable (_ ∧ _ ∧ _ ∧ _ ∧ _))

/-- A SYN+ACK with a wrong acknowledgement: the lock is released before the RST is sent. -/
def Tcb.BadSynAck (t : Tcb) (seg : Segment) : Prop :=
  seg.flags.rst = false ∧ t.state = .synSent ∧ seg.flags.syn = true ∧ seg.flags.ack = true ∧ seg.ack ≠ t.sndNxt

instance (t : Tcb) (seg : Segment) : Decidable (t.BadSynAck seg) := inferInstanceAs (Decidable (_ ∧ _))

/-- The segment ends `LAST_ACK`: the block is freed after the lock has been released. -/
def Tcb.EndsLastAck (t : Tcb) (seg : Segment) : Prop :=
  seg.flags.rst = false ∧ t.state = .lastAck ∧ seg.flags.ack = true ∧ t.sndUna = t.sndNxt

instance (t : Tcb) (seg : Segment) : Decidable (t.EndsLastAck seg) := inferInstanceAs (Decidable (_ ∧ _))

def processEvents (s : Stack) (i : Nat) (tcbDev dev : NetDev) (w : World) (srcIp : Ip) (seg : Segment) : LockTrace :=
  let c := s.slots i
  if c.tcb.BadSynAck seg then locked i 0 (replicate (sendSleeps dev srcIp w 1) .sleep)
  else if s.QueueFull i seg then .acquire i :: (tcpTcbFreeEvents i ++ [.release i])
  else match tcpProcess w.tx { c with tries := 0 } seg with
    | none => [.acquire i]
    | some (c', _) => locked i (sendSleeps tcbDev c.tcb.remoteIp w c'.tries)
        (if c.tcb.EndsLastAck seg then tcpTcbFreeEvents i else [])

def tcpRxEvents (s : Stack) (tcbDev : Nat → NetDev) (dev : NetDev) (w : World) (p : Packet) : LockTrace :=
  match tcpParse p with
  | none => []
  | some h =>
    match s.tcpTcbLookup dev.ipAddr h.dstPort p.srcIp h.srcPort with
    | some i => processEvents s i (tcbDev i) dev w p.srcIp h.seg
    | none =>
      -- a SYN+ACK of a new child, or a RST: no lock is held
      let sends := match s.tcpTcbLookupListen h.dstPort with
        | some _ =>
          if h.seg.flags.syn && !h.seg.flags.ack then (if (s.tcpTcbAlloc w.bufs).2.isSome then 1 else 0)
          else if h.seg.flags.rst then 0 else 1
        | none => if h.seg.flags.rst then 0 else 1
      replicate (sendSleeps dev p.srcIp w sends) .sleep

/-- `tcp_sock_connect`: `tcb` and `route` are what the allocation and `ip_route` return, `waits` is the number of waits
until the state has changed. -/
def tcpSockConnectEvents (addrOk : Bool) (tcb : Option Nat) (route : Option NetDev) (dstIp : Ip) (w : World)
    (waits : Nat) (established : Bool) : LockTrace :=
  if addrOk then
    match tcb, route with
    | none, _ => []
    | some i, none => tcpTcbFreeEvents i
    | some i, some dev =>
      replicate (sendSleeps dev dstIp w 1) .sleep ++
        (replicate waits [.release i, .sleep, .acquire i]).flatten ++
        .release i :: (if established then [] else tcpTcbFreeEvents i)
  else []

/-- `tcp_sock_sendto`: the block each time the lock is taken, and the bytes that are left. -/
def tcpSockSendtoEvents (i : Nat) (dev : NetDev) (dstIp : Ip) (nonblock : Bool) :
    List (Conn × World) → List Byte → LockTrace
  | [], _ => []
  | (c, w) :: later, src =>
    if c.tcb.CanSend then
      let c' := sendLoop w.tx nonblock { c with tries := 0 } src
      let left := src.drop (c'.accepted.length - c.accepted.length)
      locked i (sendSleeps dev dstIp w c'.tries)
        (if left = [] ∨ nonblock = true then [] else .sleep :: tcpSockSendtoEvents i dev dstIp nonblock later left)
    else locked i 0 []

/-- `tcp_sock_recvfrom`: it waits as long as there is nothing to read and the stream has not ended. -/
def tcpSockRecvfromEvents (i : Nat) (nonblock : Bool) : List Conn → LockTrace
  | [] => []
  | c :: later =>
    locked i 0 (if tcpRxAvailable c.tcb = 0 ∧ c.tcb.finReceived = false ∧ c.tcb.state ≠ .closeWait ∧
        c.tcb.state ≠ .closed ∧ nonblock = false then .sleep :: tcpSockRecvfromEvents i nonblock later else [])

def Tcb.SendsFin (t : Tcb) (how : Shut) : Prop := (how = .wr ∨ how = .rdwr) ∧ t.finSent = false ∧ t.CanSend

instance (t : Tcb) (how : Shut) : Decidable (t.SendsFin how) := inferInstanceAs (Decidable (_ ∧ _))

def Tcb.SendsDelack (t : Tcb) : Prop := t.delackPending = true ∧ t.state ≠ .closed

instance (t : Tcb) : Decidable t.SendsDelack := inferInstanceAs (Decidable (_ ∧ _))

inductive LockCall
  | rx (dev : NetDev) (p : Packet)
  | connect (addrOk : Bool) (tcb : Option Nat) (route : Option NetDev) (dstIp : Ip)
  | sendto (i : Nat) (src : List Byte) (nonblock : Bool)
  | recvfrom (i : Nat) (nonblock : Bool)
  | shutdown (i : Nat) (how : Shut)
  | rexmitTimeout (i : Nat)
  | delackTimeout (i : Nat)
  | timewaitTimeout (i : Nat)
  | tcbFree (i : Nat)

structure Path where
  now : World
  /-- The block, and the transmissions, each time the lock is taken again. -/
  later : List (Conn × World)
  waits : Nat
  established : Bool

def LockCall.events (s : Stack) (tcbDev : Nat → NetDev) (π : Path) : LockCall → LockTrace
  | .rx dev p => tcpRxEvents s tcbDev dev π.now p
  | .connect addrOk tcb route dstIp => tcpSockConnectEvents addrOk tcb route dstIp π.now π.waits π.established
  | .sendto i src nonblock =>
    tcpSockSendtoEvents i (tcbDev i) (s.slots i).tcb.remoteIp nonblock ((s.slots i, π.now) :: π.later) src
  | .recvfrom i nonblock => tcpSockRecvfromEvents i nonblock (s.slots i :: π.later.map Prod.fst)
  | .shutdown i how =>
    locked i (sendSleeps (tcbDev i) (s.slots i).tcb.remoteIp π.now (if (s.slots i).tcb.SendsFin how then 1 else 0)) []
  | .rexmitTimeout i => locked i 0 []
  | .delackTimeout i =>
    locked i (sendSleeps (tcbDev i) (s.slots i).tcb.remoteIp π.now (if (s.slots i).tcb.SendsDelack then 1 else 0)) []
  | .timewaitTimeout i => tcpTcbFreeEvents i
  | .tcbFree i => tcpTcbFreeEvents i

/-! ### When a call keeps the discipline -/

/-- `ip_tx` sleeps if the next hop is not in the ARP cache. -/
def CanSleep (dev : NetDev) (dstIp : Ip) : Prop :=
  ¬ (dstIp = IP4_BROADCAST ∨ dstIp = (dev.ipAddr &&& dev.netmask) ||| ~~~dev.netmask) ∧
    dev.nextHop dstIp ≠ IP4_BROADCAST ∧ dev.nextHop dstIp ≠ 0

/-- `tcp_rx` answers the segment with an ACK, under the lock. -/
def Tcb.Answers (t : Tcb) (seg : Segment) : Prop :=
  seg.flags.rst = false ∧
    match t.state with
    | .synSent => seg.flags.syn = true ∧ seg.flags.ack = true ∧ seg.ack = t.sndNxt
    | .established | .finWait1 | .finWait2 | .closeWait =>
      (seg.data ≠ [] ∨ seg.flags.fin = true) ∧ (seg.seq ≠ t.rcvNxt ∨ seg.flags.fin = true)
    | .timeWait => True
    | .closed | .listen | .synReceived | .closing | .lastAck => False

def LockCall.Safe (s : Stack) (tcbDev : Nat → NetDev) : LockCall → Prop
  | .rx dev p => ∀ h i, tcpParse p = some h → s.tcpTcbLookup dev.ipAddr h.dstPort p.srcIp h.srcPort = some i →
      ¬ s.QueueFull i h.seg ∧ ((s.slots i).tcb.Answers h.seg → ¬ CanSleep (tcbDev i) (s.slots i).tcb.remoteIp)
  | .connect addrOk tcb route _ => addrOk = false ∨ tcb = none ∨ route = none
  | .sendto i src nonblock =>
    let t := (s.slots i).tcb
    t.CanSend → CanSleep (tcbDev i) t.remoteIp →
      (txUsable t = 0 ∨ t.tx.used = 0 ∧ src = []) ∧ (nonblock = true ∨ src.length ≤ t.tx.size - 1 - t.tx.used)
  | .shutdown i how => (s.slots i).tcb.SendsFin how → ¬ CanSleep (tcbDev i) (s.slots i).tcb.remoteIp
  | .delackTimeout i => (s.slots i).tcb.SendsDelack → ¬ CanSleep (tcbDev i) (s.slots i).tcb.remoteIp
  | .recvfrom .. | .rexmitTimeout _ | .timewaitTimeout _ | .tcbFree _ => True

section Sleeps

variable {dev : NetDev} {dstIp : Ip} {w : World} {n : Nat}

def deaf : World := { tx := fun _ => .ok, arp := fun _ _ => false, bufs := true }

theorem ipTxSleeps_eq_zero (h : ¬ CanSleep dev dstIp) (arp : Nat → Bool) : ipTxSleeps dev dstIp arp = 0 := by
  unfold ipTxSleeps
  split
  · rfl
  next hcast =>
    have hhop : dev.nextHop dstIp = IP4_BROADCAST ∨ dev.nextHop dstIp = 0 := by
      by_contra hno
      exact h ⟨hcast, not_or.1 hno⟩
    rw [arpRetrySleeps, if_pos (hhop.elim .inl fun h0 => .inr (.inl h0))]

theorem ipTxSleeps_deaf (h : CanSleep dev dstIp) (j : Nat) : 0 < ipTxSleeps dev dstIp (deaf.arp j) := by
  obtain ⟨hcast, h1, h2⟩ := h
  rw [ipTxSleeps, if_neg hcast, arpRetrySleeps, if_neg]
  · exact succ_pos _
  · rintro (h | h | h)
    · exact h1 h
    · exact h2 h
    · cases h

theorem sendSleeps_eq_zero (h : ∀ j, ipTxSleeps dev dstIp (w.arp j) = 0) (n : Nat) : sendSleeps dev dstIp w n = 0 := by
  refine List.sum_eq_zero_iff_forall_eq_nat.2 fun x hx => ?_
  obtain ⟨j, -, rfl⟩ := mem_map.1 hx
  split
  · exact h j
  · rfl

theorem sendSleeps_deaf (h : CanSleep dev dstIp) (hn : 0 < n) : sendSleeps dev dstIp deaf n ≠ 0 := by
  obtain ⟨n, rfl⟩ := Nat.exists_eq_succ_of_ne_zero (Nat.pos_iff_ne_zero.1 hn)
  unfold sendSleeps
  rw [range_succ, map_append, sum_append_nat]
  have := ipTxSleeps_deaf h n
  have hlast : ([n].map fun j => if (deaf.tx j).skb then ipTxSleeps dev dstIp (deaf.arp j) else 0).sum =
      ipTxSleeps dev dstIp (deaf.arp n) := by simp [deaf, TxOutcome.ok]
  omega

theorem sendSleeps_zero_iff : (∀ w, sendSleeps dev dstIp w n = 0) ↔ (0 < n → ¬ CanSleep dev dstIp) := by
  constructor
  · intro h hn hcan
    exact sendSleeps_deaf hcan hn (h deaf)
  · intro h w
    rcases Nat.eq_zero_or_pos n with rfl | hn
    · rfl
    · exact sendSleeps_eq_zero (fun j => ipTxSleeps_eq_zero (h hn) _) n

theorem disciplined_region {i : Nat} {rest : LockTrace} :
    Disciplined [] (locked i n rest) ↔ n = 0 ∧ Disciplined [] rest := disciplined_locked

end Sleeps

/-! ### How many segments are sent -/

variable {seg : Segment}

section Tries

variable (env : Nat → TxOutcome) (c : Conn)

theorem tcpSendSegment_tries (flags : Flags) (data : List Byte) :
    (tcpSendSegment env c flags data).1.tries = c.tries + 1 := by
  unfold tcpSendSegment
  dsimp only
  split <;> rfl

theorem tcpSendAck_tries : (tcpSendAck env c).tries = c.tries + 1 := by
  unfold tcpSendAck
  dsimp only
  split <;> rfl

theorem tcpTakeData_tries (data : List Byte) : (tcpTakeData c data).tries = c.tries := by
  by_cases hd : data = []
  · rw [hd]
    rfl
  · obtain ⟨_, _, _, _, heq, -⟩ := tcpTakeData_eq c hd
    rw [heq]

theorem tcpTake_tries (seg : Segment) : (tcpTake env c seg).tries = c.tries + if seg.flags.fin then 1 else 0 := by
  unfold tcpTake
  split
  · show (tcpSendAck env _).tries = _
    rw [tcpSendAck_tries]
    exact congrArg (· + 1) (tcpTakeData_tries c seg.data)
  · exact tcpTakeData_tries c seg.data

theorem tcpReceive_tries (seg : Segment) : (tcpReceive env c seg).tries = c.tries +
    if (seg.data ≠ [] ∨ seg.flags.fin) ∧ (seg.seq ≠ c.tcb.rcvNxt ∨ seg.flags.fin) then 1 else 0 := by
  have hnxt : (c.setTcb (tcpAck c.tcb seg)).tcb.rcvNxt = c.tcb.rcvNxt := by
    obtain ⟨_, _, _, _, _, heq, -⟩ := tcpAck_eq c.tcb seg
    rw [heq]
    rfl
  have hlt : tcpSeqLt seg.seq c.tcb.rcvNxt → seg.seq ≠ c.tcb.rcvNxt := by
    intro h heq
    rw [heq, tcpSeqLt, tcpSeqDiff, BitVec.sub_self] at h
    cases h
  unfold tcpReceive
  dsimp only
  rw [hnxt]
  split_ifs with h1 h2 h3 h4 h5
  · exact tcpSendAck_tries env _
  · exact absurd ⟨h1.1, .inl (hlt h1.2)⟩ h2
  · exact tcpSendAck_tries env _
  · exact absurd ⟨h3.1, .inl h3.2⟩ h4
  · rw [tcpTake_tries, if_pos]
    · rfl
    · exact h5.2.resolve_left fun hne => h3 ⟨h5.1, hne⟩
  · rw [tcpTake_tries, if_neg]
    · rfl
    · exact fun hfin => h5 ⟨.inr hfin, .inr hfin⟩

theorem tcpSynSent_tries {c c' : Conn} (hst : c.tcb.state = .synSent) (hrst : seg.flags.rst = false)
    (hbad : ¬ c.tcb.BadSynAck seg) (h : tcpSynSent env c seg = some c') :
    c'.tries = c.tries ∧ ¬ (seg.flags.syn ∧ seg.flags.ack ∧ seg.ack = c.tcb.sndNxt) ∨
      c'.tries = c.tries + 1 ∧ seg.flags.syn ∧ seg.flags.ack ∧ seg.ack = c.tcb.sndNxt := by
  unfold tcpSynSent at h
  split_ifs at h with hflags hack
  · rw [Bool.and_eq_true] at hflags
    exact absurd ⟨hrst, hst, hflags.1, hflags.2, hack⟩ hbad
  · rw [Bool.and_eq_true] at hflags
    obtain ⟨⟨mss, acc⟩, -, hs⟩ := Option.bind_eq_some_iff.1 h
    cases hs
    exact .inr ⟨tcpSendAck_tries env _, hflags.1, hflags.2, not_not.1 hack⟩
  · cases h
    refine .inl ⟨rfl, fun hno => hflags ?_⟩
    rw [hno.1, hno.2.1]
    rfl

theorem tcpProcess_tries {c c' : Conn} {est : Bool} (hbad : ¬ c.tcb.BadSynAck seg)
    (h : tcpProcess env c seg = some (c', est)) (ht : c.tries = 0) : 0 < c'.tries ↔ c.tcb.Answers seg := by
  have hquiet : ∀ {c' : Conn} {P : Prop}, c'.tries = c.tries → ¬ P → (0 < c'.tries ↔ P) := fun hc hP =>
    iff_of_false (by omega) hP
  unfold tcpProcess at h
  unfold Tcb.Answers
  split at h
  next hrst =>
    cases h
    exact hquiet rfl fun hno => absurd (hrst.symm.trans hno.1) (by decide)
  next hrst =>
    rw [Bool.not_eq_true] at hrst
    rw [hrst, eq_self, true_and]
    have hreceive := tcpReceive_tries env c seg
    split at h
    case h_1 hst =>
      obtain ⟨c1, hc, hpair⟩ := Option.map_eq_some_iff.1 h
      cases hpair
      rw [hst]
      rcases tcpSynSent_tries env hst hrst hbad hc with ⟨hc', hno⟩ | ⟨hc', hyes⟩
      · exact hquiet hc' hno
      · exact iff_of_true (by omega) hyes
    case h_2 hst | h_7 hst | h_8 hst =>
      rw [hst]
      split at h <;> cases h <;> exact hquiet rfl id
    case h_3 hst | h_4 hst | h_5 hst | h_6 hst =>
      cases h
      rw [hst, hreceive, ht]
      split_ifs with hans
      · exact iff_of_true (by decide) hans
      · exact iff_of_false (by decide) hans
    case h_9 hst =>
      cases h
      rw [hst]
      refine iff_of_true ?_ trivial
      show 0 < (tcpSendAck env c).tries
      rw [tcpSendAck_tries]
      omega
    case h_10 hst | h_11 hst =>
      cases h
      rw [hst]
      exact hquiet rfl id

theorem outputRound_idle (h : c.tcb.tx.used = 0 ∨ txUsable c.tcb = 0) : outputRound env c = (c, false) := by
  unfold outputRound
  split_ifs with h1 h2 h3
  · rfl
  · rfl
  · rfl
  · rw [txPending_eq] at h2
    exact absurd h (not_or.2 ⟨h2, h3⟩)

theorem outputRound_sent (hused : 0 < c.tcb.tx.used) (h : txUsable c.tcb ≠ 0) :
    (outputRound env c).1.tries = c.tries + 1 := by
  have hpending : txPending c.tcb ≠ 0 := by
    rw [txPending_eq]
    omega
  have hempty : c.tcb.tx.tail ≠ c.tcb.tx.head := fun he => Nat.pos_iff_ne_zero.1 hused (c.tcb.tx.empty_iff.1 he.symm)
  rw [outputRound, if_neg hempty, if_neg hpending, if_neg h]
  have hseg := tcpSendSegment_tries env { c with acc := c.acc ++ copyAccess c.tcb.tx (txChunk c.tcb) }
    { ack := true, psh := true } (c.tcb.tx.peek (txChunk c.tcb))
  dsimp only at ⊢
  split
  all_goals
    rename_i heq
    rw [heq] at hseg
    exact hseg

theorem outputRound_tries : c.tries ≤ (outputRound env c).1.tries := by
  by_cases h : c.tcb.tx.used = 0 ∨ txUsable c.tcb = 0
  · rw [outputRound_idle env c h]
  · rw [outputRound_sent env c (Nat.pos_iff_ne_zero.2 (not_or.1 h).1) (not_or.1 h).2]
    exact Nat.le_succ _

theorem tcpOutput_tries : c.tries ≤ (tcpOutput env c).tries :=
  tcpOutput_inv env c (fun c' h => Nat.le_trans h (outputRound_tries env c')) (Nat.le_refl _)

theorem sendLoop_tries (nonblock : Bool) (src : List Byte) : c.tries ≤ (sendLoop env nonblock c src).tries :=
  sendLoop_inv env c (fun c' h => Nat.le_trans h (tcpOutput_tries env c'))
    (fun _ _ h _ => h) nonblock src (Nat.le_refl _)

theorem tcpOutput_idle (h : c.tcb.tx.used = 0 ∨ txUsable c.tcb = 0) : tcpOutput env c = c := by
  unfold tcpOutput
  split
  · rw [outputLoop, outputRound_idle env c h]
  · rfl

theorem tcpOutput_open (h : txUsable c.tcb ≠ 0) (hc : c.tcb.CanSend) (hused : 0 < c.tcb.tx.used) :
    c.tries < (tcpOutput env c).tries := by
  have hround := outputRound_sent env c hused h
  rw [tcpOutput, if_pos hc, outputLoop]
  split
  · rename_i heq
    rw [heq] at hround
    exact hround ▸ Nat.lt_succ_self _
  rename_i c' heq
  rw [heq] at hround
  dsimp only at hround
  have := outputLoop_inv env c' (fun c'' h => Nat.le_trans h (outputRound_tries env c'')) c.tcb.tx.used (Nat.le_refl _)
  omega

theorem sendLoop_closed (h : txUsable c.tcb = 0) (nonblock : Bool) (src : List Byte) :
    (sendLoop env nonblock c src).tries = c.tries ∧ (sendLoop env nonblock c src).accepted.length =
        c.accepted.length + min (c.tcb.tx.size - 1 - c.tcb.tx.used) src.length := by
  induction src generalizing c with
  | nil =>
    rw [sendLoop, tcpOutput_idle env c (.inr h)]
    exact ⟨rfl, by simp⟩
  | cons x xs ih =>
    rw [sendLoop, tcpOutput_idle env c (.inr h)]
    dsimp only
    split
    next hfull =>
      have hstay : (if nonblock then tcpOutput env c else c) = c := by
        rw [tcpOutput_idle env c (.inr h)]
        split <;> rfl
      rw [hstay, c.tcb.tx.full_iff.1 hfull]
      exact ⟨rfl, by simp⟩
    next hfull =>
      obtain ⟨h1, h2⟩ := @ih (c.putTx x) h
      have hroom := c.tcb.tx.not_full_iff.1 hfull
      have hused : (c.putTx x).tcb.tx.used = c.tcb.tx.used + 1 := c.tcb.tx.used_push x hfull
      have hsize : (c.putTx x).tcb.tx.size = c.tcb.tx.size := rfl
      have hacc : (c.putTx x).accepted.length = c.accepted.length + 1 := by simp [Conn.putTx]
      refine ⟨h1, ?_⟩
      rw [h2, length_cons]
      omega

theorem sendLoop_idle (nonblock : Bool) (src : List Byte) (h : txUsable c.tcb = 0 ∨ c.tcb.tx.used = 0 ∧ src = []) :
    (sendLoop env nonblock c src).tries = c.tries ∧ (sendLoop env nonblock c src).accepted.length =
        c.accepted.length + min (c.tcb.tx.size - 1 - c.tcb.tx.used) src.length := by
  rcases h with h | ⟨h, rfl⟩
  · exact sendLoop_closed env c h nonblock src
  · rw [sendLoop, tcpOutput_idle env c (.inl h)]
    exact ⟨rfl, by simp⟩

theorem sendLoop_open (h : txUsable c.tcb ≠ 0) (hc : c.tcb.CanSend) (hsize : 2 ≤ c.tcb.tx.size) (nonblock : Bool)
    (src : List Byte) (hsrc : 0 < c.tcb.tx.used ∨ src ≠ []) : c.tries < (sendLoop env nonblock c src).tries := by
  induction src generalizing c with
  | nil =>
    exact tcpOutput_open env c h hc (hsrc.resolve_right fun hne => hne rfl)
  | cons x xs ih =>
    rw [sendLoop]
    split
    next hfull =>
      -- the first flush comes when the ring is full
      have hused : 0 < c.tcb.tx.used := by
        rw [c.tcb.tx.full_iff.1 hfull]
        omega
      have hopen := tcpOutput_open env c h hc hused
      dsimp only
      split
      · split
        · exact lt_of_lt_of_le hopen (tcpOutput_tries env _)
        · exact hopen
      · exact lt_of_lt_of_le hopen (sendLoop_tries env ((tcpOutput env c).putTx x) nonblock xs)
    next hfull =>
      have hused : 0 < (c.putTx x).tcb.tx.used := by
        rw [show (c.putTx x).tcb.tx.used = c.tcb.tx.used + 1 from c.tcb.tx.used_push x hfull]
        omega
      exact @ih (c.putTx x) h hc hsize (.inl hused)

end Tries

section Calls

variable {s : Stack} {tcbDev : Nat → NetDev} {i : Nat} {dev : NetDev} {dstIp : Ip}

theorem send_safe_iff {P : Prop} [Decidable P] :
    (∀ π : Path, Disciplined [] (locked i (sendSleeps dev dstIp π.now (if P then 1 else 0)) [])) ↔
      (P → ¬ CanSleep dev dstIp) := by
  have hpos : 0 < (if P then 1 else 0) ↔ P := by split <;> simp [*]
  have hzero := @sendSleeps_zero_iff dev dstIp (if P then 1 else 0)
  rw [hpos] at hzero
  rw [← hzero]
  constructor
  · intro h w
    exact (disciplined_region.1 (h ⟨w, [], 0, true⟩)).1
  · intro h π
    exact disciplined_region.2 ⟨h π.now, trivial⟩

theorem connect_safe_iff {addrOk : Bool} {tcb : Option Nat} {route : Option NetDev} :
    (∀ π : Path, Disciplined [] (tcpSockConnectEvents addrOk tcb route dstIp π.now π.waits π.established)) ↔
      addrOk = false ∨ tcb = none ∨ route = none := by
  unfold tcpSockConnectEvents
  cases addrOk with
  | false => exact iff_of_true (fun _ => trivial) (.inl rfl)
  | true =>
    rcases tcb with _ | i
    · exact iff_of_true (fun _ => trivial) (.inr (.inl rfl))
    rcases route with _ | dev
    · exact iff_of_true (fun _ => disciplined_region.2 ⟨rfl, trivial⟩) (.inr (.inr rfl))
    refine iff_of_false (fun h => ?_) (by simp)
    -- the lock is released without having been taken, at once or before the first wait
    have hnow := h ⟨deaf, [], 0, true⟩
    simp only [replicate_zero, flatten_nil, append_nil, if_true, disciplined_sleeps] at hnow
    exact absurd hnow.1 not_mem_nil

theorem recvfrom_disciplined (nonblock : Bool) (turns : List Conn) :
    Disciplined [] (tcpSockRecvfromEvents i nonblock turns) := by
  induction turns with
  | nil => trivial
  | cons c later ih =>
    refine disciplined_region.2 ⟨rfl, ?_⟩
    split
    · exact ⟨rfl, ih⟩
    · trivial

theorem sendto_disciplined (nonblock : Bool) (turns : List (Conn × World))
    (h : ∀ t ∈ turns, ∀ n, sendSleeps dev dstIp t.2 n = 0) (src : List Byte) :
    Disciplined [] (tcpSockSendtoEvents i dev dstIp nonblock turns src) := by
  induction turns generalizing src with
  | nil => trivial
  | cons turn later ih =>
    obtain ⟨c, w⟩ := turn
    obtain ⟨hnow, hlater⟩ := forall_mem_cons.1 h
    rw [tcpSockSendtoEvents]
    split
    · refine disciplined_region.2 ⟨hnow _, ?_⟩
      split
      · trivial
      · exact ⟨rfl, ih hlater _⟩
    · exact disciplined_region.2 ⟨rfl, trivial⟩

theorem not_disciplined_sendto {c : Conn} {nonblock : Bool} {src : List Byte} {later : List (Conn × World)}
    (hcan : CanSleep dev dstIp) (hc : c.tcb.CanSend) (hopen : txUsable c.tcb ≠ 0) (hsize : 2 ≤ c.tcb.tx.size)
    (hsrc : 0 < c.tcb.tx.used ∨ src ≠ []) :
    ¬ Disciplined [] (tcpSockSendtoEvents i dev dstIp nonblock ((c, deaf) :: later) src) := by
  intro h
  rw [tcpSockSendtoEvents, if_pos hc] at h
  exact sendSleeps_deaf hcan (sendLoop_open deaf.tx { c with tries := 0 } hopen hc hsize nonblock src hsrc)
    (disciplined_region.1 h).1

def wokenConn : Conn := { tcb := { tcpTcbAlloc 0 with state := .established, sndWnd := 1 } }

theorem sendto_safe_iff {c : Conn} {src : List Byte} {nonblock : Bool} (hsize : 2 ≤ c.tcb.tx.size) :
    (∀ π : Path, Disciplined [] (tcpSockSendtoEvents i dev dstIp nonblock ((c, π.now) :: π.later) src)) ↔
      (c.tcb.CanSend → CanSleep dev dstIp → (txUsable c.tcb = 0 ∨ c.tcb.tx.used = 0 ∧ src = []) ∧
        (nonblock ∨ src.length ≤ c.tcb.tx.size - 1 - c.tcb.tx.used)) := by
  constructor
  · intro h hc hcan
    have hclosed : txUsable c.tcb = 0 ∨ c.tcb.tx.used = 0 ∧ src = [] := by
      by_contra hno
      obtain ⟨hopen, hsrc⟩ := not_or.1 hno
      refine not_disciplined_sendto hcan hc hopen hsize ?_ (h ⟨deaf, [], 0, true⟩)
      by_contra hnone
      obtain ⟨h1, h2⟩ := not_or.1 hnone
      exact hsrc ⟨by omega, not_not.1 h2⟩
    refine ⟨hclosed, ?_⟩
    by_contra hno
    obtain ⟨hblock, hlong⟩ := not_or.1 hno
    -- the call waits for room; when it wakes up the window is open
    have hwait := h ⟨deaf, [(wokenConn, deaf)], 0, true⟩
    obtain ⟨-, hacc⟩ := sendLoop_idle deaf.tx { c with tries := 0 } nonblock src hclosed
    rw [tcpSockSendtoEvents, if_pos hc] at hwait
    dsimp only at hwait
    rw [hacc, Nat.add_sub_cancel_left] at hwait
    have hleft : src.drop (min (c.tcb.tx.size - 1 - c.tcb.tx.used) src.length) ≠ [] := by
      rw [Ne, drop_eq_nil_iff]
      omega
    rw [if_neg (not_or.2 ⟨hleft, hblock⟩)] at hwait
    exact not_disciplined_sendto hcan (.inl rfl) (by decide) (by decide) (.inr hleft) (disciplined_region.1 hwait).2.2
  · intro h π
    by_cases hcan : CanSleep dev dstIp
    · rw [tcpSockSendtoEvents]
      split
      next hc =>
        obtain ⟨hidle, hfits⟩ := h hc hcan
        obtain ⟨htries, hacc⟩ := sendLoop_idle π.now.tx { c with tries := 0 } nonblock src hidle
        dsimp only at hacc ⊢
        rw [htries, hacc, if_pos]
        · exact disciplined_region.2 ⟨rfl, trivial⟩
        · refine hfits.symm.imp_left fun hle => ?_
          rw [drop_eq_nil_iff]
          omega
      next => exact disciplined_region.2 ⟨rfl, trivial⟩
    · exact sendto_disciplined nonblock _ (fun t _ => sendSleeps_eq_zero fun j => ipTxSleeps_eq_zero hcan _) src

theorem process_disciplined {dev' : NetDev} {w : World} (hfull : ¬ s.QueueFull i seg)
    (h : ∀ c' est, ¬ (s.slots i).tcb.BadSynAck seg →
      tcpProcess w.tx { s.slots i with tries := 0 } seg = some (c', est) →
      sendSleeps dev (s.slots i).tcb.remoteIp w c'.tries = 0) :
    Disciplined [] (processEvents s i dev dev' w dstIp seg) := by
  unfold processEvents
  dsimp only
  rw [if_neg hfull]
  split
  · exact disciplined_region.2 ⟨rfl, disciplined_replicate_sleep⟩
  next hbad =>
    obtain ⟨⟨c', est⟩, hc⟩ := tcpProcess_isSome w.tx { s.slots i with tries := 0 } seg
    rw [hc]
    refine disciplined_region.2 ⟨h c' est hbad hc, ?_⟩
    split
    · exact disciplined_region.2 ⟨rfl, trivial⟩
    · trivial

theorem process_safe_iff {dev' : NetDev} : (∀ π : Path, Disciplined [] (processEvents s i dev dev' π.now dstIp seg)) ↔
      ¬ s.QueueFull i seg ∧ ((s.slots i).tcb.Answers seg → ¬ CanSleep dev (s.slots i).tcb.remoteIp) := by
  constructor
  · intro h
    have hnow := h ⟨deaf, [], 0, true⟩
    unfold processEvents at hnow
    dsimp only at hnow
    split at hnow
    next hbad =>
      refine ⟨fun hfull => absurd (hbad.2.1.symm.trans hfull.2.1) (by decide), fun hans => ?_⟩
      unfold Tcb.Answers at hans
      rw [hbad.2.1] at hans
      exact absurd hans.2.2.2 hbad.2.2.2.2
    next hbad =>
      split at hnow
      · exact absurd hnow.2.1 (not_not.2 (mem_singleton_self i))
      next hfull =>
        refine ⟨hfull, fun hans hcan => ?_⟩
        obtain ⟨⟨c', est⟩, hc⟩ := tcpProcess_isSome deaf.tx { s.slots i with tries := 0 } seg
        rw [hc] at hnow
        have hsent := (tcpProcess_tries (c := { s.slots i with tries := 0 }) deaf.tx hbad hc rfl).2 hans
        exact sendSleeps_deaf hcan hsent (disciplined_region.1 hnow).1
  · rintro ⟨hfull, h⟩ π
    refine process_disciplined hfull fun c' est hbad hc => sendSleeps_zero_iff.2 (fun hpos => h ?_) π.now
    exact (tcpProcess_tries (c := { s.slots i with tries := 0 }) π.now.tx hbad hc rfl).1 hpos

theorem rx_safe_iff {p : Packet} :
    (∀ π : Path, Disciplined [] (tcpRxEvents s tcbDev dev π.now p)) ↔ (LockCall.rx dev p).Safe s tcbDev := by
  unfold tcpRxEvents
  cases hp : tcpParse p with
  | none =>
    refine iff_of_true (fun _ => trivial) fun h i hh => ?_
    cases hp.symm.trans hh
  | some h =>
    dsimp only
    cases hi : s.tcpTcbLookup dev.ipAddr h.dstPort p.srcIp h.srcPort with
    | none =>
      refine iff_of_true (fun π => disciplined_replicate_sleep) fun h' i hh hlook => ?_
      cases hp.symm.trans hh
      cases hi.symm.trans hlook
    | some i =>
      rw [process_safe_iff]
      constructor
      · intro hsafe h' i' hh hlook
        cases hp.symm.trans hh
        cases hi.symm.trans hlook
        exact hsafe
      · intro hsafe
        exact hsafe h i hp hi

end Calls

/-- All paths of a call are disciplined if and only if it is `Safe`. -/
theorem lock_discipline_iff {s : Stack} (hsize : ∀ i, 2 ≤ (s.slots i).tcb.tx.size) (tcbDev : Nat → NetDev)
    (call : LockCall) : (∀ π, Disciplined [] (call.events s tcbDev π)) ↔ call.Safe s tcbDev := by
  cases call with
  | rx dev p => exact rx_safe_iff
  | connect addrOk tcb route dstIp => exact connect_safe_iff
  | sendto i src nonblock => exact sendto_safe_iff (hsize i)
  | recvfrom i nonblock => exact iff_of_true (fun _ => recvfrom_disciplined nonblock _) trivial
  | shutdown i how | delackTimeout i => exact send_safe_iff
  | rexmitTimeout i |
      timewaitTimeout i | tcbFree i => exact iff_of_true (fun _ => disciplined_region.2 ⟨rfl, trivial⟩) trivial

/-- A connection to `10.0.0.2` whose peer has closed its window. -/
def closedWindow : Stack :=
  { Stack.init with slots := fun _ => { tcb := { tcpTcbAlloc 0 with state := .established, remoteIp := 0x0200000A } } }

/-- What is sent stays in the ring. -/
theorem lock_discipline_sendto : (closedWindow.slots 0).tcb.CanSend ∧ CanSleep (sampleDev 0x0100000A) 0x0200000A ∧
    ∀ π, Disciplined []
      ((LockCall.sendto 0 [1, 2, 3] false).events closedWindow (fun _ => sampleDev 0x0100000A) π) := by
  have hsize : ∀ i, 2 ≤ (closedWindow.slots i).tcb.tx.size := fun _ => show 2 ≤ TCP_TX_BUFSZ by decide
  refine ⟨.inl rfl, ⟨by decide, by decide, by decide⟩, ?_⟩
  exact (lock_discipline_iff hsize (fun _ => sampleDev 0x0100000A) (.sendto 0 [1, 2, 3] false)).2
    fun _ _ => ⟨.inl (by decide), .inr (by decide)⟩

/-- A connect that waits once. -/
theorem lock_discipline_broken : ¬ ∀ (s : Stack) (tcbDev : Nat → NetDev) (call : LockCall) (π : Path),
    (∀ i, 2 ≤ (s.slots i).tcb.tx.size) → Disciplined [] (call.events s tcbDev π) := by
  intro hall
  have h := hall Stack.init (fun _ => sampleDev 0x0100000A)
    (.connect true (some 0) (some (sampleDev 0x0100000A)) 0x0200000A)
    { now := { tx := fun _ => .ok, arp := fun _ _ => true, bufs := true }, later := []
      waits := 1, established := true }
    (fun _ => show 2 ≤ TCP_TX_BUFSZ by decide)
  exact absurd h (by decide)

end ExoOS.Net
