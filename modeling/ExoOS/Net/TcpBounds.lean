import ExoOS.Net.TcpStack

/-!
# Memory safety of the TCP code

Every index the TCP code uses is recorded as an `Access`. `MemInv`: the accesses of a connection so far are
inside their buffers, and the segment size is at most the size of the local buffer in `tcp_output`. The rings
carry the bounds of their positions, so that the size of the segments is the one thing to keep: it comes from the
options of the peer's SYN, and `SmallMss` says that no SYN asks for more than `TCP_MSS_DEFAULT`. It also says that a
freed block is not read, because `tcp_tcb_free` frees the ring and keeps its positions.
-/

namespace ExoOS.Net

open List Option RingBuf Transition Nat Stack

structure MemInv (c : Conn) : Prop where
  acc : ∀ a ∈ c.acc, a.Ok
  mss : c.tcb.MssOk
  rx : c.tcb.rx.size = TCP_RX_BUFSZ
  tx : c.tcb.tx.size = TCP_TX_BUFSZ

namespace MemInv

variable {c c' : Conn} (env : Nat → TxOutcome)

theorem of_eq (h : MemInv c) (ht : c'.tcb.sndMss = c.tcb.sndMss ∧ c'.tcb.rx.size = c.tcb.rx.size ∧
      c'.tcb.tx.size = c.tcb.tx.size) (ha : ∀ a ∈ c'.acc, a ∈ c.acc ∨ a.Ok) : MemInv c' where
  acc a hm := (ha a hm).elim (h.acc a) id
  mss := by rw [Tcb.MssOk, ht.1]; exact h.mss
  rx := ht.2.1.trans h.rx
  tx := ht.2.2.trans h.tx

theorem of_same (h : MemInv c) (ht : c'.tcb.sndMss = c.tcb.sndMss ∧ c'.tcb.rx.size = c.tcb.rx.size ∧
      c'.tcb.tx.size = c.tcb.tx.size) (ha : c'.acc = c.acc) : MemInv c' :=
  h.of_eq ht fun _ hm => .inl (ha ▸ hm)

/-! ### Transmission -/

section

variable (h : MemInv c)
include h

theorem sendAck : MemInv (tcpSendAck env c) := by
  obtain ⟨_, _, _, _, heq, -⟩ := tcpSendAck_eq env c
  rw [heq]
  exact h.of_same ⟨rfl, rfl, rfl⟩ rfl

theorem sendRst (seq ack : Seq) : MemInv (tcpSendRst env c seq ack) := by
  obtain ⟨_, _, heq, -⟩ := tcpSendRst_eq env c seq ack
  rw [heq]
  exact h.of_same ⟨rfl, rfl, rfl⟩ rfl

theorem sendSegment (flags : Flags) (data : List Byte) (hlen : data.length ≤ TCP_MSS_DEFAULT) :
    MemInv (tcpSendSegment env c flags data).1 := by
  obtain ⟨_, _, _, _, heq, -⟩ := tcpSendSegment_eq env c flags data
  rw [heq]
  refine h.of_eq ⟨rfl, rfl, rfl⟩ fun a ha => (mem_append.1 ha).imp_right fun ha => ?_
  rw [mem_singleton.1 ha]
  exact hlen

theorem roundAccess_ok {a : Access} (ha : roundAccess c.tcb a) : a.Ok := by
  have hchunk : txChunk c.tcb ≤ TCP_MSS_DEFAULT := le_trans (txChunk_le c.tcb).2 h.mss.2
  rcases ha with ha | rfl
  · obtain ⟨i, hi, ha⟩ := mem_flatMap.1 ha
    rw [mem_range] at hi
    rcases mem_cons.1 ha with rfl | ha
    · show (c.tcb.tx.tail + i) % c.tcb.tx.size < TCP_TX_BUFSZ
      rw [← h.tx]
      exact mod_lt _ c.tcb.tx.size_pos
    · rw [mem_singleton.1 ha]
      exact lt_of_lt_of_le hi hchunk
  · exact hchunk

theorem outputRound : MemInv (outputRound env c).1 := by
  rcases outputRound_cases env c (lt_of_lt_of_le (by decide) h.mss.1) with
    ⟨_, _, heq, hacc⟩ | ⟨_, _, _, _, _, heq, -, -, -, hsize, -, hacc⟩
  · rw [heq]
    exact h.of_eq ⟨rfl, rfl, rfl⟩ fun a ha => (hacc a ha).imp_right h.roundAccess_ok
  · rw [heq]
    exact h.of_eq ⟨rfl, rfl, hsize⟩ fun a ha => (hacc a ha).imp_right h.roundAccess_ok

theorem output : MemInv (tcpOutput env c) := tcpOutput_inv env c (fun _ hc => hc.outputRound env) h

theorem putTx (x : Byte) : MemInv (c.putTx x) := by
  refine h.of_eq ⟨rfl, rfl, rfl⟩ fun a ha => (mem_append.1 ha).imp_right fun ha => ?_
  rw [mem_singleton.1 ha]
  show c.tcb.tx.head < TCP_TX_BUFSZ
  rw [← h.tx]
  exact c.tcb.tx.head_lt

theorem sendto (src : List Byte) (nonblock : Bool) : MemInv (tcpSockSendto env c src nonblock) := by
  unfold tcpSockSendto
  split
  · exact sendLoop_inv env c (fun _ hc => hc.output env) (fun _ x hc _ => hc.putTx x) nonblock src h
  · exact h

end

/-! ### Reception -/

theorem rxAccess_ok (h : MemInv c) (hlive : c.tcb.active = true) {a : Access} (ha : rxAccess c.tcb a) : a.Ok := by
  obtain ⟨i, hi, rfl⟩ := ha
  rw [h.rx] at hi
  exact ⟨hlive, hi⟩

theorem takeData (h : MemInv c) (hlive : c.tcb.active = true) (data : List Byte) : MemInv (tcpTakeData c data) := by
  by_cases hd : data = []
  · rw [hd]
    exact h
  · obtain ⟨_, _, _, _, heq, hacc⟩ := tcpTakeData_eq c hd
    rw [heq]
    exact h.of_eq ⟨rfl, size_pushAll _ _, rfl⟩ fun a ha => (hacc a ha).imp_right (h.rxAccess_ok hlive)

theorem recvfrom (h : MemInv c) (hread : c.tcb.Readable) (len : Nat) : MemInv (tcpSockRecvfrom c len) := by
  rcases hread with hlive | hempty
  swap
  · rw [tcpSockRecvfrom, if_pos hempty]
    exact h
  obtain ⟨n, rx, _, _, _, heq, -, hrx, -, hacc⟩ := tcpSockRecvfrom_eq c len
  have hsize : rx.size = c.tcb.rx.size := by rw [hrx, size_advance]
  rw [heq]
  exact h.of_eq ⟨rfl, hsize, rfl⟩ fun a ha => (hacc a ha).imp_right (h.rxAccess_ok hlive)

theorem receive (h : MemInv c) (hlive : c.tcb.active = true) (s : Segment) : MemInv (tcpReceive env c s) := by
  obtain ⟨h1, hlive1⟩ : MemInv (c.setTcb (tcpAck c.tcb s)) ∧ (c.setTcb (tcpAck c.tcb s)).tcb.active = true := by
    obtain ⟨_, _, _, _, _, heq, -, -⟩ := tcpAck_eq c.tcb s
    rw [heq]
    exact ⟨h.of_same ⟨rfl, rfl, rfl⟩ rfl, hlive⟩
  unfold tcpReceive
  dsimp only
  split_ifs
  · exact h1.sendAck env
  · exact h1.sendAck env
  · have h2 := h1.takeData hlive1 s.data
    unfold tcpTake
    split
    · refine (sendAck env ?_).of_same ⟨rfl, rfl, rfl⟩ rfl
      exact h2.of_same ⟨rfl, rfl, rfl⟩ rfl
    · exact h2

/-- The options of a SYN or SYN+ACK do not ask for more than the local buffer holds. -/
def SmallOpts (s : Segment) : Prop := s.flags.syn = true → ∀ m, HasMss s.opts m → m ≤ TCP_MSS_DEFAULT

section

variable (h : MemInv c)
include h

theorem synSent {s : Segment} (hmss : SmallOpts s) (hs : tcpSynSent env c s = some c') : MemInv c' := by
  unfold tcpSynSent at hs
  split_ifs at hs with hflags
  · cases hs
    exact h.sendRst env s.ack 0
  · obtain ⟨⟨mss, acc⟩, hopt, hs⟩ := bind_eq_some_iff.1 hs
    cases hs
    have hsyn : s.flags.syn := (Bool.and_eq_true_iff.1 hflags).1
    refine sendAck env ⟨fun a ha => ?_, ?_, h.rx, h.tx⟩
    · exact (mem_append.1 ha).elim (h.acc a) (parseMss_access hopt (by simp) a)
    · exact ⟨parseMss_ge hopt h.mss.1, parseMss_le mss_default hopt (by simpa using hmss hsyn) h.mss.2⟩
  · cases hs
    exact h

theorem process {s : Segment} {r : Conn × Bool} (hlive : c.tcb.active = true) (hmss : SmallOpts s)
    (hs : tcpProcess env c s = some r) : MemInv r.1 := by
  unfold tcpProcess at hs
  split at hs
  · cases hs
    exact h.of_same ⟨rfl, rfl, rfl⟩ rfl
  split at hs
  case h_1 =>
    obtain ⟨c', hc, rfl⟩ := map_eq_some_iff.1 hs
    exact h.synSent env hmss hc
  case h_3 => cases hs; exact h.receive env hlive s
  case h_4 => cases hs; exact h.receive env hlive s
  case h_5 => cases hs; exact h.receive env hlive s
  case h_6 => cases hs; exact h.receive env hlive s
  case h_9 => cases hs; exact (h.sendAck env).of_same ⟨rfl, rfl, rfl⟩ rfl
  case h_10 => cases hs; exact h
  case h_11 => cases hs; exact h
  -- the rest changes the state at most
  all_goals
    split at hs <;> cases hs
    · exact h.of_same ⟨rfl, rfl, rfl⟩ rfl
    · exact h

theorem shutdown (how : Shut) : MemInv (tcpSockShutdown env c how) := by
  unfold tcpSockShutdown
  split
  · have h1 : MemInv (c.setTcb { c.tcb with finSent := true }) := h.of_same ⟨rfl, rfl, rfl⟩ rfl
    have h2 := h1.sendSegment env { fin := true, ack := true } [] (zero_le _)
    dsimp only
    split_ifs
    · exact h2.of_same ⟨rfl, rfl, rfl⟩ rfl
    · exact h2.of_same ⟨rfl, rfl, rfl⟩ rfl
    · exact h2
  · exact h

theorem rexmitTimeout : MemInv (tcpRexmitTimeout c) := by
  unfold tcpRexmitTimeout
  dsimp only
  split_ifs <;> exact h.of_same ⟨rfl, rfl, rfl⟩ rfl

theorem delackTimeout : MemInv (tcpDelackTimeout env c) := by
  have h1 : MemInv (c.setTcb { c.tcb with delackTimer := false }) := h.of_same ⟨rfl, rfl, rfl⟩ rfl
  unfold tcpDelackTimeout
  dsimp only
  split
  · exact h1.sendAck env
  · exact h1

theorem free : MemInv (c.setTcb (tcpTcbFree c.tcb)) := h.of_same ⟨rfl, rfl, rfl⟩ rfl

theorem step {e : Event} (he : ∀ env s, e ≠ .rx env s) (hread : ∀ len, e = .recv len → c.tcb.Readable)
    (hs : Net.step c e = some c') : MemInv c' := by
  have h0 : MemInv { c with tries := 0 } := h.of_same ⟨rfl, rfl, rfl⟩ rfl
  cases e with
  | rx env s => exact absurd rfl (he env s)
  | send env src nonblock => cases hs; exact h0.sendto env src nonblock
  | shutdown env how => cases hs; exact h0.shutdown env how
  | recv len =>
    cases hs
    exact h0.recvfrom (hread len rfl) len
  | rexmitTimeout =>
    obtain ⟨-, ⟨⟩⟩ := ite_none_right_eq_some.1 hs
    exact h0.rexmitTimeout
  | delackTimeout env =>
    obtain ⟨-, ⟨⟩⟩ := ite_none_right_eq_some.1 hs
    exact h0.delackTimeout env
  | timewaitTimeout =>
    obtain ⟨-, ⟨⟩⟩ := ite_none_right_eq_some.1 hs
    exact h0.free

end

theorem fresh {t : Tcb} (isn : Seq) (ht : t.sndMss = (tcpTcbAlloc isn).sndMss ∧ t.rx = (tcpTcbAlloc isn).rx ∧
    t.tx = (tcpTcbAlloc isn).tx) : MemInv { tcb := t } where
  acc a ha := by cases ha
  mss := by rw [Tcb.MssOk, ht.1]; exact ⟨mss_default, le_refl _⟩
  rx := by rw [ht.2.1]; rfl
  tx := by rw [ht.2.2]; rfl

theorem connect {t : Tcb} (h : MemInv { tcb := t }) : MemInv (tcpConnect env t) := by
  have h1 : MemInv { tcb := { t with sndNxt := t.iss, sndUna := t.iss, state := .synSent } } :=
    h.of_same ⟨rfl, rfl, rfl⟩ rfl
  have h2 := h1.sendSegment env { syn := true } [] (zero_le _)
  exact h2.of_same ⟨rfl, rfl, rfl⟩ rfl

theorem handleSyn {t : Tcb} {s : Segment} (h : MemInv { tcb := t }) (hsyn : s.flags.syn)
    (hmss : SmallOpts s) (hs : tcpHandleSyn env t s = some c) : MemInv c := by
  obtain ⟨⟨mss, acc⟩, hopt, hs⟩ := bind_eq_some_iff.1 hs
  rw [← some.inj hs]
  refine of_same (sendSegment env ⟨?_, ?_, ?_, ?_⟩ { syn := true, ack := true } [] (zero_le _))
    ⟨rfl, rfl, rfl⟩ rfl
  · exact parseMss_access hopt (by simp)
  · exact ⟨parseMss_ge hopt h.mss.1, parseMss_le mss_default hopt (by simpa using hmss hsyn) h.mss.2⟩
  · exact h.rx
  · exact h.tx

end MemInv

def StackInv (s : Stack) : Prop := ∀ i, MemInv (s.slots i)

namespace StackInv

variable {s s' : Stack} (env : Nat → TxOutcome)

section

variable (h : StackInv s)
include h

theorem of_slots (hs : s'.slots = s.slots) : StackInv s' := fun i => by
  rw [hs]; exact h i

theorem setSlot {c : Conn} (i : Nat) (hc : MemInv c) : StackInv (s.setSlot i c) := by
  intro j
  by_cases hj : j = i
  · subst hj
    simpa [Stack.setSlot] using hc
  · simpa [Stack.setSlot, hj] using h j

theorem openSlot {c : Conn} (i : Nat) (hc : MemInv c) : StackInv (s.openSlot i c) :=
  h.setSlot i { hc with acc := fun a ha => (mem_append.1 ha).elim ((h i).acc a) (hc.acc a) }

theorem freeSlot (i : Nat) : StackInv (s.freeSlot i) := h.setSlot i (h i).free

theorem alloc (bufs : Bool) :
    StackInv (s.tcpTcbAlloc bufs).1 ∧ ∀ i t, (s.tcpTcbAlloc bufs).2 = some (i, t) → ∃ isn, t = Net.tcpTcbAlloc isn := by
  unfold Stack.tcpTcbAlloc
  split
  · exact ⟨h, fun i t ht => by cases ht⟩
  have h' : StackInv { s with isn := s.isn + 64000 } := h.of_slots rfl
  split
  · exact ⟨h', fun i t ht => ⟨s.isn, by cases ht; rfl⟩⟩
  · exact ⟨h'.openSlot _ (.fresh s.isn ⟨rfl, rfl, rfl⟩), fun i t ht => by cases ht⟩

theorem acceptEnqueue {i : Nat} (hs : s.tcpAcceptEnqueue i = some s') : StackInv s' := by
  unfold tcpAcceptEnqueue at hs
  split at hs
  · cases hs
    exact h
  · dsimp only at hs
    split at hs <;> cases hs
    exact h.setSlot _ ((h _).of_same ⟨rfl, rfl, rfl⟩ rfl)

theorem handleSyn {bufs : Bool} {devIp srcIp : Ip} {l : Nat} {hd : Header}
    (hsyn : hd.seg.flags.syn) (hmss : MemInv.SmallOpts hd.seg)
    (hs : s.tcpHandleSyn env bufs devIp l srcIp hd = some s') : StackInv s' := by
  obtain ⟨h1, hfresh⟩ := h.alloc bufs
  unfold Stack.tcpHandleSyn at hs
  split at hs
  next heq =>
    rw [heq] at h1
    cases hs
    exact h1
  next s1 i t heq =>
    rw [heq] at h1 hfresh
    obtain ⟨isn, rfl⟩ := hfresh i t rfl
    obtain ⟨c, hc, hs⟩ := bind_eq_some_iff.1 hs
    cases hs
    refine h1.openSlot i (MemInv.handleSyn env ?_ hsyn hmss hc)
    exact .fresh isn ⟨rfl, rfl, rfl⟩

theorem rst (seg : Segment) : StackInv (s.tcpRst env seg) := by
  unfold tcpRst
  split
  · exact h
  · split
    · exact h.of_slots rfl
    · exact h

omit h in
theorem active_of_lookup {localIp remoteIp : Ip} {localPort remotePort i : Nat}
    (hi : s.tcpTcbLookup localIp localPort remoteIp remotePort = some i) : (s.slots i).tcb.active = true := by
  have hfound := find?_some hi
  simp only [Bool.and_eq_true] at hfound
  exact hfound.1.1.1.1

theorem rx {bufs : Bool} {devIp : Ip} {p : Packet} (hmss : ∀ hd, tcpParse p = some hd → MemInv.SmallOpts hd.seg)
    (hs : s.tcpRx env bufs devIp p = some s') : StackInv s' := by
  unfold tcpRx at hs
  split at hs
  · cases hs
    exact h
  next hd hp =>
    have hsmall := hmss hd hp
    split at hs
    next i hi =>
      obtain ⟨⟨c, est⟩, hc, hs⟩ := bind_eq_some_iff.1 hs
      have h0 : MemInv { s.slots i with tries := 0 } := (h i).of_same ⟨rfl, rfl, rfl⟩ rfl
      have h1 : StackInv (s.setSlot i c) := h.setSlot i (h0.process env (active_of_lookup hi) hsmall hc)
      dsimp only at hs
      split at hs
      · exact h1.acceptEnqueue hs
      · cases hs
        exact h1
    · split at hs
      · split at hs
        next hflags => exact h.handleSyn env (Bool.and_eq_true_iff.1 hflags).1 hsmall hs
        · cases hs
          exact h.rst env _
      · cases hs
        exact h.rst env _

theorem connect (bufs : Bool) (route : Option Ip) (remoteIp : Ip) (remotePort localPort : Nat) :
    StackInv (s.tcpSockConnect env bufs route remoteIp remotePort localPort) := by
  obtain ⟨h1, hfresh⟩ := h.alloc bufs
  unfold tcpSockConnect
  split
  next heq =>
    rw [heq] at h1
    exact h1
  next s1 i t heq =>
    rw [heq] at h1 hfresh
    obtain ⟨isn, rfl⟩ := hfresh i t rfl
    split
    · exact h1.openSlot i (.fresh isn ⟨rfl, rfl, rfl⟩)
    · refine (h1.openSlot i (MemInv.connect env ?_)).of_slots rfl
      exact .fresh isn ⟨rfl, rfl, rfl⟩

theorem connected {i : Nat} (hs : s.tcpSockConnected i = some s') : StackInv s' := by
  unfold tcpSockConnected at hs
  dsimp only at hs
  split at hs <;> cases hs
  split
  · exact h.of_slots rfl
  · exact freeSlot (h.of_slots rfl) i

theorem listen (bufs : Bool) (ip : Ip) (port : Nat) : StackInv (s.tcpSockListen bufs ip port) := by
  obtain ⟨h1, hfresh⟩ := h.alloc bufs
  unfold tcpSockListen
  split
  next heq =>
    rw [heq] at h1
    exact h1
  next s1 i t heq =>
    rw [heq] at h1 hfresh
    obtain ⟨isn, rfl⟩ := hfresh i t rfl
    exact h1.openSlot i (.fresh isn ⟨rfl, rfl, rfl⟩)

theorem accept {l : Nat} {ok : Bool} (hs : s.tcpSockAccept l ok = some s') : StackInv s' := by
  unfold tcpSockAccept at hs
  dsimp only at hs
  generalize (s.slots l).tcb.acceptQueue.advance 1 = q at hs
  have h1 : StackInv (s.setSlot l ((s.slots l).setTcb { (s.slots l).tcb with acceptQueue := q })) :=
    h.setSlot l ((h l).of_same ⟨rfl, rfl, rfl⟩ rfl)
  split at hs <;> cases hs
  split
  · exact h1
  · exact h1.freeSlot _

end

end StackInv

/-- No SYN that passes the checks of `tcp_rx` carries an MSS option above `TCP_MSS_DEFAULT`, and what a freed block
still counts as received is not read. -/
def SmallMss (s : Stack) : StackEvent → Prop
  | .rx _ _ _ p => ∀ hd, tcpParse p = some hd → MemInv.SmallOpts hd.seg
  | .conn i (.recv _) => (s.slots i).tcb.Readable
  | _ => True

theorem StackInv.init : StackInv init := fun _ => .fresh 0 ⟨rfl, rfl, rfl⟩

theorem StackInv.step {s s' : Stack} {e : StackEvent} (h : StackInv s) (hsmall : SmallMss s e)
    (hs : stackStep s e = some s') : StackInv s' := by
  cases e with
  | connect env bufs route remoteIp remotePort localPort => cases hs; exact h.connect env bufs route _ _ _
  | connected i => exact h.connected hs
  | listen bufs ip port => cases hs; exact h.listen bufs ip port
  | accept l ok => exact h.accept hs
  | rx env bufs devIp p => exact h.rx env hsmall hs
  | conn i e =>
    unfold stackStep at hs
    split at hs <;> cases ‹StackEvent.conn _ _ = _›
    · cases hs
    · obtain ⟨c, hc, rfl⟩ := map_eq_some_iff.1 hs
      refine h.setSlot i ((h i).step (by grind) (fun len he => ?_) hc)
      subst he
      exact hsmall

/-- The accesses of a run with small segments are in bounds, and the option loop always ends. -/
theorem tcp_accesses_ok {s : Stack} {es : List StackEvent} (hrun : Run stackStep SmallMss init es s) :
    (∀ i, ∀ a ∈ (s.slots i).acc, a.Ok) ∧ ∀ opts mss, ∃ r, mssOption opts mss = some r :=
  ⟨fun i => ((hrun.inv (fun _ _ _ h hsmall hs => StackInv.step h hsmall hs) .init) i).acc,
    fun _ _ => parseMss_isSome (zero_le _) (lt_succ_self _)⟩

def synPacket : Packet :=
  { srcIp := 1, dstIp := 2
    bytes := [3, 232, 0, 80, 0, 0, 0, 0, 0, 0, 0, 0, 80, 2, 255, 255, 168, 171, 0, 0] }

def jumboSynPacket : Packet :=
  { srcIp := 1, dstIp := 2
    bytes := [3, 232, 0, 80, 0, 0, 0, 0, 0, 0, 0, 0, 96, 2, 255, 255, 150, 163, 0, 0, 2, 4, 255, 255] }

def ackPacket : Packet :=
  { srcIp := 1, dstIp := 2
    bytes := [3, 232, 0, 80, 0, 0, 0, 1, 18, 53, 80, 121, 80, 16, 255, 255, 69, 238, 0, 0] }

theorem smallOpts_of_opts_nil {p : Packet} (h : (tcpParse p).map (fun hd => hd.seg.opts) = some []) :
    ∀ hd, tcpParse p = some hd → MemInv.SmallOpts hd.seg := by
  intro hd hp _ m hm
  rw [hp, map_some, some.injEq] at h
  rw [h] at hm
  cases hm

/-- A connection is opened from outside and sends three bytes. -/
def handshake : List StackEvent :=
  [.listen true 0 80, .rx (fun _ => .ok) true 2 synPacket, .rx (fun _ => .ok) true 2 ackPacket,
    .conn 1 (.send (fun _ => .ok) [1, 2, 3] true)]

theorem tcp_accesses_ok_handshake : ∃ s, Run stackStep SmallMss init handshake s ∧
    ∀ i, ∀ a ∈ (s.slots i).acc, a.Ok := by
  have h : Run stackStep SmallMss init handshake _ := .cons trivial rfl (.cons (smallOpts_of_opts_nil (by decide)) rfl
    (.cons (smallOpts_of_opts_nil (by decide)) rfl (.cons trivial rfl (.nil _))))
  exact ⟨_, h, (tcp_accesses_ok h).1⟩

/-! ### An MSS option that does not fit -/

section
variable (env : Nat → TxOutcome) (c : Conn)

theorem sendLoop_room (nonblock : Bool) (src : List Byte) (h : src.length ≤ c.tcb.tx.free) :
    sendLoop env nonblock c src = tcpOutput env (src.foldl Conn.putTx c) := by
  induction src generalizing c with
  | nil => rfl
  | cons x xs ih =>
    have hfull : ¬ c.tcb.tx.Full := by
      rw [not_full_iff]
      rw [free, length_cons] at h
      omega
    rw [sendLoop, if_neg hfull]
    refine ih _ ?_
    have := c.tcb.tx.free_push x hfull
    rw [length_cons] at h
    show xs.length ≤ (c.tcb.tx.push x).free
    omega

theorem foldl_putTx_eq (src : List Byte) (h : src.length ≤ c.tcb.tx.free) : ∃ tx acc accepted,
    src.foldl Conn.putTx c = { c with tcb := { c.tcb with tx := tx }, acc := acc, accepted := accepted } ∧
    tx.used = c.tcb.tx.used + src.length := by
  induction src generalizing c with
  | nil => exact ⟨c.tcb.tx, c.acc, c.accepted, rfl, rfl⟩
  | cons x xs ih =>
    have hfull : ¬ c.tcb.tx.Full := by
      rw [not_full_iff]
      rw [free, length_cons] at h
      omega
    have hfree := c.tcb.tx.free_push x hfull
    have hused := c.tcb.tx.used_push x hfull
    rw [length_cons] at h
    rw [foldl_cons, Conn.putTx]
    generalize c.tcb.tx.push x = tx1 at hfree hused
    obtain ⟨tx, acc, accepted, heq, hu⟩ := ih { c with
      tcb := { c.tcb with tx := tx1 }, acc := _, accepted := _ } (by show xs.length ≤ tx1.free; omega)
    refine ⟨tx, acc, accepted, heq, ?_⟩
    rw [hu, length_cons]
    show tx1.used + xs.length = _
    omega

theorem outputRound_acc (h1 : txPending c.tcb ≠ 0) (h2 : txUsable c.tcb ≠ 0) :
    (outputRound env c).1.acc = c.acc ++ copyAccess c.tcb.tx (txChunk c.tcb) ++ [.segment (txChunk c.tcb)] := by
  have hne : ¬ c.tcb.tx.tail = c.tcb.tx.head := fun h => h1 (by
    rw [txPending_eq]; exact c.tcb.tx.empty_iff.1 h.symm)
  obtain ⟨_, _, _, _, heq, -⟩ := tcpSendSegment_eq env
    { c with acc := c.acc ++ copyAccess c.tcb.tx (txChunk c.tcb) } { ack := true, psh := true }
    (c.tcb.tx.peek (txChunk c.tcb))
  have hacc := congrArg Conn.acc heq
  have hlen : (c.tcb.tx.peek (txChunk c.tcb)).length = txChunk c.tcb := by simp [peek]
  rw [hlen] at hacc
  rw [outputRound, if_neg hne, if_neg h1, if_neg h2]
  dsimp only at ⊢
  split <;> rename_i hres <;> rw [hres] at hacc <;> exact hacc

theorem mem_tcpOutput (hcan : c.tcb.CanSend) (h1 : txPending c.tcb ≠ 0) (h2 : txUsable c.tcb ≠ 0) :
    .segment (txChunk c.tcb) ∈ (tcpOutput env c).acc := by
  have hmono : ∀ c', .segment (txChunk c.tcb) ∈ c'.acc → .segment (txChunk c.tcb) ∈ (outputRound env c').1.acc := by
    intro c' h
    by_cases hsend : txPending c'.tcb ≠ 0 ∧ txUsable c'.tcb ≠ 0
    · rw [outputRound_acc env c' hsend.1 hsend.2]
      simp [h]
    rw [outputRound]
    split_ifs with _ hp hu
    · exact h
    · exact h
    · exact h
    · exact absurd ⟨hp, hu⟩ hsend
  have hfirst : .segment (txChunk c.tcb) ∈ (outputRound env c).1.acc := by
    rw [outputRound_acc env c h1 h2]
    simp
  rw [tcpOutput, if_pos hcan, outputLoop]
  split <;> rename_i heq <;> rw [heq] at hfirst
  · exact hfirst
  · exact outputLoop_inv env _ hmono _ hfirst

theorem mem_tcpSockSendto (src : List Byte) (hcan : c.tcb.CanSend) (hroom : src.length ≤ c.tcb.tx.free)
    (hempty : c.tcb.tx.used = 0) (hsrc : src ≠ []) (husable : src.length ≤ txUsable c.tcb)
    (hmss : src.length ≤ c.tcb.sndMss) (nonblock : Bool) :
    .segment src.length ∈ (tcpSockSendto env c src nonblock).acc := by
  have hpos := length_pos_of_ne_nil hsrc
  rw [tcpSockSendto, if_pos hcan, sendLoop_room env c nonblock src hroom]
  obtain ⟨tx, acc, accepted, heq, hused⟩ := foldl_putTx_eq c src hroom
  rw [heq]
  generalize hc : ({ c with tcb := { c.tcb with tx := tx }, acc := acc, accepted := accepted } : Conn) = c'
  have hp : txPending c'.tcb = src.length := by
    rw [txPending_eq, ← hc]
    show tx.used = _
    omega
  have hu : txUsable c'.tcb = txUsable c.tcb := by rw [← hc]; rfl
  have hchunk : txChunk c'.tcb = src.length := by
    have hm : c'.tcb.sndMss = c.tcb.sndMss := by rw [← hc]
    rw [txChunk, hu]
    split <;> split <;> omega
  rw [← hchunk]
  exact mem_tcpOutput env c' (by rw [← hc]; exact hcan) (by omega) (by omega)

end

/-- The peer's SYN asks for segments of 65535 bytes; the first 1461 bytes the application sends then
overrun `seg_data`. -/
theorem tcp_accesses_violated :
    ¬ ∀ (es : List StackEvent) (s : Stack), Run stackStep Any init es s →
      ∀ i, ∀ a ∈ (s.slots i).acc, a.Ok := by
  intro hall
  let es : List StackEvent := [.listen true 0 80, .rx (fun _ => .ok) true 2 jumboSynPacket,
    .rx (fun _ => .ok) true 2 ackPacket]
  obtain ⟨s, hs⟩ : ∃ s, exec stackStep init es = some s := ⟨_, rfl⟩
  have hstate : (exec stackStep init es).map (fun s => (s.slots 1).tcb.state) = some .established := by
    decide
  have hnum : (exec stackStep init es).map (fun s =>
      let t := (s.slots 1).tcb; (t.tx.used, t.tx.free, txUsable t, t.sndMss)) =
      some (0, 65535, 65535, 65535) := by
    decide
  rw [hs, map_some, some.injEq] at hstate hnum
  simp only [Prod.mk.injEq] at hnum
  obtain ⟨hused, hfree, husable, hmss⟩ := hnum
  obtain ⟨src, hsrc⟩ : ∃ src : List Byte, src.length = 1461 := ⟨replicate 1461 0, length_replicate⟩
  have hmem := mem_tcpSockSendto (fun _ => .ok) { s.slots 1 with tries := 0 } src (.inl hstate)
    (by show _ ≤ (s.slots 1).tcb.tx.free; omega) hused (ne_nil_of_length_pos (by omega))
    (by show _ ≤ txUsable (s.slots 1).tcb; omega) (by show _ ≤ (s.slots 1).tcb.sndMss; omega) true
  have hrun := (exec_iff.1 hs).append (.cons trivial rfl (.nil _) :
    Run stackStep Any s [.conn 1 (.send (fun _ => .ok) src true)] _)
  have hok := hall _ _ hrun 1 (.segment src.length) (by simpa [setSlot] using hmem)
  have : src.length ≤ TCP_MSS_DEFAULT := hok
  rw [TCP_MSS_DEFAULT] at this
  omega

end ExoOS.Net
