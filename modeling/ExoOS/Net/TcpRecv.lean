import ExoOS.Net.Tcp

/-!
# The stream a TCP connection receives

The peer's stream is a function `stream` from positions to bytes; position `p` has sequence number
`irs + 1 + p`. `RecvOk`: what the application has read, followed by what the receive ring holds, is the
stream up to `rcv_nxt` (not counting the FIN), and no segment ever sent acknowledges more. It is preserved by
every event whose segments carry the peer's stream (`FromPeer`) and, when they are taken, fit into the
ring and do not follow the FIN (`Fits`). `tcp_deliver_data` moves `rcv_nxt` over bytes it has dropped, so
without `Fits` it fails.

Most of the code does not touch the receive side: `RecvFrame` says so, once per function, and
`RecvInv.frame` carries the invariant over.
-/

namespace ExoOS.Net

open List Option RingBuf Transition

/-- An established connection before its first event. -/
structure RecvStart (c : Conn) : Prop where
  state : c.tcb.state = .established
  rcvNxt : c.tcb.rcvNxt = c.tcb.irs + 1
  rx : c.tcb.rx.contents = []
  size : c.tcb.rx.size = TCP_RX_BUFSZ
  fin : c.tcb.finReceived = false
  read : c.read = []
  rcvd : c.rcvd = 0
  wire : c.wire = []

/-- Segments carry the peer's stream: a segment whose sequence number is that of a position within
`2 ^ 31` of the next expected one has the stream's bytes from there on. -/
def FromPeer (stream : Nat → Byte) (c : Conn) : Event → Prop
  | .rx _ s => ∀ p, s.seq = seqAt c.tcb.irs p → p < c.rcvd + 2 ^ 31 → c.rcvd < p + 2 ^ 31 →
      s.data = (List.range s.data.length).map fun i => stream (p + i)
  | _ => True

def Tcb.Receives (t : Tcb) : Prop :=
  t.state = .established ∨ t.state = .finWait1 ∨ t.state = .finWait2 ∨ t.state = .closeWait

/-- A segment that is next in sequence has room in the ring, and adds nothing in `CLOSE_WAIT`; a read finds the ring
there. -/
def Fits (c : Conn) : Event → Prop
  | .rx _ s => c.tcb.Receives → s.flags.rst = false → s.seq = c.tcb.rcvNxt →
      s.data.length ≤ tcpRxFree c.tcb ∧ (c.tcb.state = .closeWait → s.data = [] ∧ s.flags.fin = false)
  | .recv _ => c.tcb.Readable
  | _ => True

structure RecvOk (stream : Nat → Byte) (c : Conn) : Prop where
  bytes : c.read ++ c.tcb.rx.contents = (List.range (c.rcvd - c.tcb.finReceived.toNat)).map stream
  nxt : c.tcb.rcvNxt = seqAt c.tcb.irs c.rcvd
  fin_le : c.tcb.finReceived.toNat ≤ c.rcvd
  acks : ∀ seg ∈ c.wire, ∃ p ≤ c.rcvd, seg.ack = seqAt c.tcb.irs p

/-- The law with what keeps it: the ring's size, and that a FIN leaves only `CLOSE_WAIT` among the states
that take data. -/
structure RecvInv (stream : Nat → Byte) (c : Conn) : Prop extends RecvOk stream c where
  size : c.tcb.rx.size = TCP_RX_BUFSZ
  synced : c.tcb.state ≠ .synSent ∧ c.tcb.state ≠ .synReceived
  finState : c.tcb.finReceived = true →
    c.tcb.state ≠ .established ∧ c.tcb.state ≠ .finWait1 ∧ c.tcb.state ≠ .finWait2

/-! ### What leaves the receive side alone -/

/-- `c'` has the receive side of `c`, in a block whose state did not change; the segments sent since
acknowledge `rcv_nxt`. -/
structure RecvFrame (c c' : Conn) : Prop where
  state : c'.tcb.state = c.tcb.state
  rcvNxt : c'.tcb.rcvNxt = c.tcb.rcvNxt
  irs : c'.tcb.irs = c.tcb.irs
  rx : c'.tcb.rx = c.tcb.rx
  fin : c'.tcb.finReceived = c.tcb.finReceived
  read : c'.read = c.read
  rcvd : c'.rcvd = c.rcvd
  wire : ∀ seg ∈ c'.wire, seg ∈ c.wire ∨ seg.ack = c.tcb.rcvNxt

def Conn.recvSide (c : Conn) :=
  (c.tcb.state, c.tcb.rcvNxt, c.tcb.irs, c.tcb.rx, c.tcb.finReceived, c.read, c.rcvd, c.wire)

namespace RecvFrame

variable {c c' c'' : Conn}

theorem refl (c : Conn) : RecvFrame c c := ⟨rfl, rfl, rfl, rfl, rfl, rfl, rfl, fun _ h => .inl h⟩

theorem trans (h : RecvFrame c c') (h' : RecvFrame c' c'') : RecvFrame c c'' where
  state := h'.state.trans h.state
  rcvNxt := h'.rcvNxt.trans h.rcvNxt
  irs := h'.irs.trans h.irs
  rx := h'.rx.trans h.rx
  fin := h'.fin.trans h.fin
  read := h'.read.trans h.read
  rcvd := h'.rcvd.trans h.rcvd
  wire seg hs := by
    rcases h'.wire seg hs with hs | hs
    · exact h.wire seg hs
    · exact .inr (hs.trans h.rcvNxt)

theorem same (h : c'.recvSide = c.recvSide) : RecvFrame c c' := by
  simp only [Conn.recvSide, Prod.mk.injEq] at h
  obtain ⟨h1, h2, h3, h4, h5, h6, h7, h8⟩ := h
  exact ⟨h1, h2, h3, h4, h5, h6, h7, fun _ hs => .inl (h8 ▸ hs)⟩

variable (env : Nat → TxOutcome)

theorem sendAck (c : Conn) : RecvFrame c (tcpSendAck env c) := by
  obtain ⟨_, _, _, _, heq, hw⟩ := tcpSendAck_eq env c
  rw [heq]
  exact ⟨rfl, rfl, rfl, rfl, rfl, rfl, rfl, fun s hs =>
    (mem_append.1 hs).imp_right fun hl => (hw s hl).1⟩

theorem sendSegment (c : Conn) (flags : Flags) (data : List Byte) :
    RecvFrame c (tcpSendSegment env c flags data).1 := by
  obtain ⟨_, _, _, _, heq, hw⟩ := tcpSendSegment_eq env c flags data
  rw [heq]
  exact ⟨rfl, rfl, rfl, rfl, rfl, rfl, rfl, fun s hs =>
    (mem_append.1 hs).imp_right fun hl => by rw [hw s hl]; rfl⟩

theorem outputRound (c : Conn) : RecvFrame c (outputRound env c).1 := by
  have h := sendSegment env { c with acc := c.acc ++ copyAccess c.tcb.tx (txChunk c.tcb) }
    { ack := true, psh := true } (c.tcb.tx.peek (txChunk c.tcb))
  have h0 : RecvFrame c { c with acc := c.acc ++ copyAccess c.tcb.tx (txChunk c.tcb) } :=
    .same rfl
  unfold Net.outputRound
  split_ifs
  · exact refl c
  · exact refl c
  · exact refl c
  · dsimp only
    split <;> rename_i heq <;> rw [heq] at h
    · exact h0.trans h
    · exact (h0.trans h).trans (.same rfl)

theorem output (c : Conn) : RecvFrame c (tcpOutput env c) :=
  tcpOutput_inv env c (fun c' h => h.trans (outputRound env c')) (refl c)

theorem sendto (c : Conn) (src : List Byte) (nonblock : Bool) : RecvFrame c (tcpSockSendto env c src nonblock) := by
  unfold tcpSockSendto
  split
  · exact sendLoop_inv env c (fun c' h => h.trans (output env c')) (fun c' x h _ => h.trans (.same rfl))
      nonblock src (refl c)
  · exact refl c

end RecvFrame

theorem tcpRxAvailable_eq {t : Tcb} (h : t.rx.size = TCP_RX_BUFSZ) : tcpRxAvailable t = t.rx.used := by
  have h2 := t.rx.tail_lt
  rw [tcpRxAvailable, used]
  rw [h, TCP_RX_BUFSZ] at *
  omega

theorem tcpRxFree_eq {t : Tcb} (h : t.rx.size = TCP_RX_BUFSZ) : tcpRxFree t = t.rx.free := by
  rw [tcpRxFree, tcpRxAvailable_eq h, free]

namespace RecvInv

variable {stream : Nat → Byte} {c c' : Conn}

section

variable (h : RecvInv stream c)
include h

theorem frame (hf : RecvFrame c c') : RecvInv stream c' where
  bytes := by rw [hf.read, hf.rx, hf.rcvd, hf.fin]; exact h.bytes
  nxt := by rw [hf.rcvNxt, hf.irs, hf.rcvd]; exact h.nxt
  fin_le := by rw [hf.fin, hf.rcvd]; exact h.fin_le
  acks seg hs := by
    rw [hf.irs, hf.rcvd]
    rcases hf.wire seg hs with hs | hs
    · exact h.acks seg hs
    · exact ⟨c.rcvd, Nat.le_refl _, hs.trans h.nxt⟩
  size := by rw [hf.rx]; exact h.size
  synced := by rw [hf.state]; exact h.synced
  finState := by rw [hf.fin, hf.state]; exact h.finState

theorem setState {st : TcpState} (h1 : st ≠ .synSent ∧ st ≠ .synReceived)
    (h2 : c.tcb.finReceived → st ≠ .established ∧ st ≠ .finWait1 ∧ st ≠ .finWait2) :
    RecvInv stream (c.setTcb { c.tcb with state := st }) :=
  { h with synced := h1, finState := h2 }

theorem ack (s : Segment) : RecvInv stream (c.setTcb (tcpAck c.tcb s)) := by
  obtain ⟨_, _, _, _, state, heq, -, hst⟩ := tcpAck_eq c.tcb s
  have h1 : RecvInv stream (c.setTcb { c.tcb with state := state }) := by
    rcases hst with rfl | ⟨hw, rfl⟩
    · exact h
    · exact h.setState (by simp) fun hf => absurd hw (h.finState hf).2.1
  rw [heq]
  exact h1.frame (.same rfl)

theorem takeData {data : List Byte} (hd : data ≠ [])
    (hfin : c.tcb.finReceived = false) (hlen : data.length ≤ tcpRxFree c.tcb)
    (hdata : data = (List.range data.length).map fun i => stream (c.rcvd + i)) :
    RecvInv stream (tcpTakeData c data) := by
  have hb := h.bytes
  rw [tcpRxFree_eq h.size] at hlen
  obtain ⟨_, _, _, _, heq, -⟩ := tcpTakeData_eq c hd
  rw [heq]
  refine { h with bytes := ?_, nxt := ?_, fin_le := ?_, acks := ?_, size := ?_ }
  · rw [contents_pushAll_of_le _ _ hlen, ← append_assoc, hb, hfin]
    conv_lhs => rw [hdata]
    simp [range_add]
  · rw [h.nxt]
    exact (seqAt_add _ _ _).symm
  · exact Nat.le_trans h.fin_le (Nat.le_add_right _ _)
  · intro seg hs
    obtain ⟨p, hp, he⟩ := h.acks seg hs
    exact ⟨p, Nat.le_trans hp (Nat.le_add_right _ _), he⟩
  · exact (size_pushAll _ _).trans h.size

theorem fin (env : Nat → TxOutcome) (hfin : c.tcb.finReceived = false) : RecvInv stream (tcpFin env c) := by
  obtain ⟨_, _, _, _, heq, hw⟩ := tcpSendAck_eq env { c with
    tcb := { c.tcb with rcvNxt := c.tcb.rcvNxt + 1, finReceived := true }, rcvd := c.rcvd + 1 }
  have hb := h.bytes
  rw [hfin] at hb
  have hn : c.tcb.rcvNxt + 1 = seqAt c.tcb.irs (c.rcvd + 1) := by rw [h.nxt]; exact (seqAt_add _ _ 1).symm
  unfold tcpFin
  dsimp only
  rw [heq]
  refine { h with bytes := hb, nxt := hn, fin_le := Nat.le_add_left _ _, acks := ?_, synced := ?_, finState := ?_ }
  · intro seg hs
    rcases mem_append.1 hs with hs | hs
    · obtain ⟨p, hp, he⟩ := h.acks seg hs
      exact ⟨p, Nat.le_succ_of_le hp, he⟩
    · exact ⟨c.rcvd + 1, Nat.le_refl _, (hw seg hs).1.trans hn⟩
  · have := h.synced
    show afterFin c.tcb.state ≠ _ ∧ afterFin c.tcb.state ≠ _
    cases hst : c.tcb.state <;> simp_all [afterFin]
  · intro _
    show afterFin c.tcb.state ≠ _ ∧ afterFin c.tcb.state ≠ _ ∧ afterFin c.tcb.state ≠ _
    cases c.tcb.state <;> simp [afterFin]

end

end RecvInv

/-- What an event does to the receive side: the invariant holds afterwards, and once the FIN has been taken
`rcv_nxt` stays. -/
structure RecvStep (stream : Nat → Byte) (c c' : Conn) : Prop where
  inv : RecvInv stream c'
  keep : c.tcb.finReceived = true →
    c'.tcb.finReceived = true ∧ c'.rcvd = c.rcvd ∧ c'.tcb.irs = c.tcb.irs

variable {s : Segment}

namespace RecvStep

variable {stream : Nat → Byte} {c c' c'' : Conn}

theorem frame (h : RecvInv stream c) (hf : RecvFrame c c') : RecvStep stream c c' :=
  ⟨h.frame hf, fun hfin => ⟨hf.fin.trans hfin, hf.rcvd, hf.irs⟩⟩

theorem state (h : RecvInv stream c) (st : TcpState) (h1 : st ≠ .synSent ∧ st ≠ .synReceived)
    (h2 : c.tcb.finReceived → st ≠ .established ∧ st ≠ .finWait1 ∧ st ≠ .finWait2) :
    RecvStep stream c (c.setTcb { c.tcb with state := st }) :=
  ⟨h.setState h1 h2, fun hfin => ⟨hfin, rfl, rfl⟩⟩

theorem accept (hfin : c.tcb.finReceived = false) (h : RecvInv stream c') : RecvStep stream c c' :=
  ⟨h, fun hf => by rw [hfin] at hf; cases hf⟩

theorem trans (h : RecvStep stream c c') (h' : RecvStep stream c' c'') : RecvStep stream c c'' where
  inv := h'.inv
  keep hfin := by
    obtain ⟨h1, h2, h3⟩ := h.keep hfin
    obtain ⟨h4, h5, h6⟩ := h'.keep h1
    exact ⟨h4, h5.trans h2, h6.trans h3⟩

theorem stateFrame (h : RecvInv stream c) (st : TcpState) (h1 : st ≠ .synSent ∧ st ≠ .synReceived)
    (h2 : c.tcb.finReceived → st ≠ .established ∧ st ≠ .finWait1 ∧ st ≠ .finWait2)
    (hf : RecvFrame (c.setTcb { c.tcb with state := st }) c') : RecvStep stream c c' :=
  (state h st h1 h2).trans (frame (h.setState h1 h2) hf)

variable (env : Nat → TxOutcome)

section

variable (h : RecvInv stream c)
include h

theorem closeWait_of_fin (hrec : c.tcb.Receives) (hfin : c.tcb.finReceived) : c.tcb.state = .closeWait := by
  obtain ⟨h1, h2, h3⟩ := h.finState hfin
  rcases hrec with hst | hst | hst | hst
  · exact absurd hst h1
  · exact absurd hst h2
  · exact absurd hst h3
  · exact hst

theorem ack (s : Segment) : RecvStep stream c (c.setTcb (tcpAck c.tcb s)) := by
  obtain ⟨_, _, _, _, state, heq, -, -⟩ := tcpAck_eq c.tcb s
  refine ⟨h.ack s, fun hfin => ?_⟩
  rw [heq]
  exact ⟨hfin, rfl, rfl⟩

theorem take (hd : s.data ≠ [] → s.data.length ≤ tcpRxFree c.tcb ∧ c.tcb.finReceived = false ∧
      s.data = (List.range s.data.length).map fun i => stream (c.rcvd + i))
    (hf : s.flags.fin → c.tcb.finReceived = false) : RecvStep stream c (tcpTake env c s) := by
  have h1 : RecvStep stream c (tcpTakeData c s.data) ∧ (tcpTakeData c s.data).tcb.finReceived = c.tcb.finReceived := by
    by_cases hdata : s.data = []
    · rw [hdata]
      exact ⟨frame h (.refl c), rfl⟩
    · obtain ⟨hlen, hfin, hbytes⟩ := hd hdata
      refine ⟨accept hfin (h.takeData hdata hfin hlen hbytes), ?_⟩
      obtain ⟨_, _, _, _, heq, -⟩ := tcpTakeData_eq c hdata
      rw [heq]
  unfold tcpTake
  split
  · have hfin := hf ‹_›
    exact accept hfin (h1.1.inv.fin env (h1.2.trans hfin))
  · exact h1.1

/-- The states that take segments. Data and a FIN are taken only with the sequence number `rcv_nxt`, and
then they are the peer's bytes from `rcvd` on. -/
theorem receive (hrec : c.tcb.Receives) (hrst : s.flags.rst = false)
    (hpeer : FromPeer stream c (.rx env s)) (hfits : Fits c (.rx env s)) :
    RecvStep stream c (tcpReceive env c s) := by
  have h1 := ack h s
  have hack : (tcpAck c.tcb s).rcvNxt = c.tcb.rcvNxt ∧ (tcpAck c.tcb s).rx = c.tcb.rx ∧
      (tcpAck c.tcb s).finReceived = c.tcb.finReceived := by
    obtain ⟨_, _, _, _, _, heq, -, -⟩ := tcpAck_eq c.tcb s
    rw [heq]
    exact ⟨rfl, rfl, rfl⟩
  have hnofin : c.tcb.state ≠ .closeWait → c.tcb.finReceived = false := fun hcw =>
    Bool.eq_false_iff.2 fun hfin => hcw (closeWait_of_fin h hrec hfin)
  unfold tcpReceive
  dsimp only
  split_ifs with hlt hne
  · exact h1.trans (frame h1.inv (.sendAck env _))
  · exact h1.trans (frame h1.inv (.sendAck env _))
  · refine h1.trans (take env h1.inv (fun hdata => ?_) fun hfin => ?_)
    · have hseq : s.seq = c.tcb.rcvNxt := by
        rw [← hack.1]; exact not_not.1 fun hq => hne ⟨.inl hdata, hq⟩
      obtain ⟨hlen, hcw⟩ := hfits hrec hrst hseq
      refine ⟨?_, ?_, ?_⟩
      · show _ ≤ tcpRxFree (tcpAck c.tcb s)
        rw [tcpRxFree, tcpRxAvailable, hack.2.1]
        exact hlen
      · exact hack.2.2.trans (hnofin fun hst => hdata (hcw hst).1)
      · exact hpeer c.rcvd (hseq.trans h.nxt) (by omega) (by omega)
    · have hseq : s.seq = c.tcb.rcvNxt := by
        rw [← hack.1]; exact not_not.1 fun hq => hne ⟨.inr hfin, hq⟩
      refine hack.2.2.trans (hnofin fun hst => ?_)
      rw [((hfits hrec hrst hseq).2 hst).2] at hfin
      cases hfin

theorem process {r : Conn × Bool} (hpeer : FromPeer stream c (.rx env s)) (hfits : Fits c (.rx env s))
    (hs : tcpProcess env c s = some r) : RecvStep stream c r.1 := by
  unfold tcpProcess at hs
  split at hs
  · cases hs
    exact stateFrame h .closed (by simp) (by simp) (.same rfl)
  have hrst : s.flags.rst = false := Bool.eq_false_iff.2 ‹_›
  split at hs
  case h_1 hst => exact absurd hst h.synced.1
  case h_2 hst => exact absurd hst h.synced.2
  case h_3 hst => cases hs; exact receive env h (.inl hst) hrst hpeer hfits
  case h_4 hst => cases hs; exact receive env h (.inr (.inl hst)) hrst hpeer hfits
  case h_5 hst => cases hs; exact receive env h (.inr (.inr (.inl hst))) hrst hpeer hfits
  case h_6 hst => cases hs; exact receive env h (.inr (.inr (.inr hst))) hrst hpeer hfits
  case h_7 =>
    split at hs <;> cases hs
    · exact stateFrame h .timeWait (by simp) (by simp) (.same rfl)
    · exact frame h (.refl c)
  case h_8 =>
    split at hs <;> cases hs
    · exact stateFrame h .closed (by simp) (by simp) (.same rfl)
    · exact frame h (.refl c)
  case h_9 =>
    cases hs
    exact frame h ((RecvFrame.sendAck env c).trans (.same rfl))
  case h_10 => cases hs; exact frame h (.refl c)
  case h_11 => cases hs; exact frame h (.refl c)

theorem recvfrom (len : Nat) : RecvStep stream c (tcpSockRecvfrom c len) := by
  obtain ⟨n, rx, read, _, _, heq, hn, hrx, hread, -⟩ := tcpSockRecvfrom_eq c len
  rw [tcpRxAvailable_eq h.size] at hn
  have hb : c.read ++ read ++ rx.contents = c.read ++ c.tcb.rx.contents := by
    rw [hrx, hread, peek_eq _ hn, contents_advance _ hn, append_assoc, take_append_drop]
  have hsize : rx.size = c.tcb.rx.size := by rw [hrx, size_advance]
  rw [heq]
  exact ⟨{ h with bytes := hb.trans h.bytes, size := hsize.trans h.size }, fun hfin => ⟨hfin, rfl, rfl⟩⟩

theorem shutdown (how : Shut) : RecvStep stream c (tcpSockShutdown env c how) := by
  unfold tcpSockShutdown
  split
  · have hf : RecvFrame c (c.setTcb { c.tcb with finSent := true }) :=
      .same rfl
    have h1 := frame h (hf.trans (.sendSegment env _ { fin := true, ack := true } []))
    dsimp only
    split
    · exact h1.trans (state h1.inv .finWait1 (by simp) fun hfin => absurd ‹_› (h1.inv.finState hfin).1)
    · split
      · exact h1.trans (state h1.inv .lastAck (by simp) (by simp))
      · exact h1
  · exact frame h (.refl c)

theorem rexmitTimeout : RecvStep stream c (tcpRexmitTimeout c) := by
  have hf : RecvFrame c (c.setTcb { c.tcb with rexmitTimer := false }) :=
    .same rfl
  unfold tcpRexmitTimeout
  dsimp only
  split_ifs
  · exact frame h hf
  · exact frame h hf
  · exact stateFrame h .closed (by simp) (by simp) (.same rfl)

theorem delackTimeout : RecvStep stream c (tcpDelackTimeout env c) := by
  have hf : RecvFrame c (c.setTcb { c.tcb with delackTimer := false }) :=
    .same rfl
  unfold tcpDelackTimeout
  dsimp only
  split
  · exact frame h (hf.trans (.sendAck env _))
  · exact frame h hf

theorem step {e : Event} (hpeer : FromPeer stream c e) (hfits : Fits c e)
    (hs : Net.step c e = some c') : RecvStep stream c c' := by
  have h0 : RecvStep stream c { c with tries := 0 } :=
    frame h (.same rfl)
  refine h0.trans ?_
  cases e with
  | rx env s =>
    simp only [Net.step, ite_none_right_eq_some, map_eq_some_iff] at hs
    obtain ⟨-, r, hr, rfl⟩ := hs
    exact process env h0.inv hpeer hfits hr
  | send env src nonblock =>
    cases hs
    exact frame h0.inv (.sendto env _ src nonblock)
  | recv len =>
    cases hs
    exact recvfrom h0.inv len
  | shutdown env how =>
    cases hs
    exact shutdown env h0.inv how
  | rexmitTimeout =>
    obtain ⟨-, ⟨⟩⟩ := ite_none_right_eq_some.1 hs
    exact rexmitTimeout h0.inv
  | delackTimeout env =>
    obtain ⟨-, ⟨⟩⟩ := ite_none_right_eq_some.1 hs
    exact delackTimeout env h0.inv
  | timewaitTimeout =>
    obtain ⟨-, ⟨⟩⟩ := ite_none_right_eq_some.1 hs
    exact stateFrame h0.inv .closed (by simp) (by simp) (.same rfl)

end

end RecvStep

/-- The events of a run: the peer's segments, each of which has room when it is taken. -/
def RecvAllowed (stream : Nat → Byte) (c : Conn) (e : Event) : Prop := FromPeer stream c e ∧ Fits c e

theorem RecvStart.inv {stream : Nat → Byte} {c : Conn} (h : RecvStart c) : RecvInv stream c where
  bytes := by rw [h.read, h.rx, h.rcvd]; simp
  nxt := by rw [h.rcvNxt, h.rcvd, seqAt_zero]
  fin_le := by rw [h.fin]; exact Nat.zero_le _
  acks seg hs := by rw [h.wire] at hs; cases hs
  size := h.size
  synced := by rw [h.state]; simp
  finState hf := by rw [h.fin] at hf; cases hf

theorem RecvInv.run {stream : Nat → Byte} {c c' : Conn} {es : List Event} (h : RecvInv stream c)
    (hrun : Run step (RecvAllowed stream) c es c') : RecvStep stream c c' := by
  induction hrun with
  | nil => exact .frame h (.refl _)
  | cons hc hs _ ih =>
    have h1 := RecvStep.step h hc.1 hc.2 hs
    exact h1.trans (ih h1.inv)

theorem recv_stream {stream : Nat → Byte} {c0 c : Conn} {es : List Event} (h0 : RecvStart c0)
    (hrun : Run step (RecvAllowed stream) c0 es c) :
    RecvOk stream c ∧ ∀ es' c', Run step (RecvAllowed stream) c es' c' → c.tcb.finReceived = true →
      c'.read ++ c'.tcb.rx.contents = c.read ++ c.tcb.rx.contents ∧ c'.tcb.rcvNxt = c.tcb.rcvNxt := by
  have h := (h0.inv.run hrun).inv
  refine ⟨h.toRecvOk, fun es' c' hrun' hfin => ?_⟩
  have h' := h.run hrun'
  obtain ⟨hf, hr, hi⟩ := h'.keep hfin
  constructor
  · rw [h.bytes, h'.inv.bytes, hf, hr, hfin]
  · rw [h.nxt, h'.inv.nxt, hr, hi]

def establishedConn : Conn :=
  { tcb := { tcpTcbAlloc 0 with state := .established, sndNxt := 1, sndUna := 1, sndWnd := 65535, rcvNxt := 1 } }

theorem recvStart_establishedConn : RecvStart establishedConn :=
  ⟨rfl, rfl, contents_empty _ _ _, rfl, rfl, rfl, rfl, rfl⟩

theorem tcpAck_of_not_ack {t : Tcb} (h : s.flags.ack = false) (hst : t.state ≠ .finWait1) : tcpAck t s = t := by
  simp [tcpAck, tcpAckAdvance, h, hst]

theorem step_data {c : Conn} (env : Nat → TxOutcome) (hst : c.tcb.state = .established)
    (hact : c.tcb.active) (hflags : s.flags = {}) (hseq : s.seq = c.tcb.rcvNxt) :
    step c (.rx env s) = some (tcpTakeData { c with tries := 0 } s.data) := by
  have h1 : tcpSeqLt c.tcb.rcvNxt c.tcb.rcvNxt = false := by simp [tcpSeqLt, tcpSeqDiff]
  have h2 : tcpAck c.tcb s = c.tcb := tcpAck_of_not_ack (by rw [hflags]) (by rw [hst]; simp)
  simp [step, tcpProcess, hst, hact, tcpReceive, tcpTake, h2, hflags, hseq, h1, Conn.setTcb]

/-- Two bytes arrive, and one is read. -/
def twoBytes : List Event :=
  [.rx (fun _ => .ok) { seq := 1, ack := 0, flags := {}, window := 0, data := [0, 1] }, .recv 1]

theorem recv_stream_two_bytes : ∃ c, Run step (RecvAllowed fun p => BitVec.ofNat 8 p) establishedConn twoBytes c ∧
    RecvOk (fun p => BitVec.ofNat 8 p) c := by
  obtain ⟨c, h⟩ : ∃ c, Run step (RecvAllowed fun p => BitVec.ofNat 8 p) establishedConn twoBytes c := by
    refine ⟨_, .cons ⟨fun p hp hlt _ => ?_, fun _ _ _ => ⟨by decide, fun h => by cases h⟩⟩ rfl
      (.cons ⟨trivial, .inl rfl⟩ rfl (.nil _))⟩
    have hseq : seqAt 0 p = seqAt 0 0 := hp.symm.trans (seqAt_zero 0).symm
    have h0 := seqAt_inj hseq
    have hp0 : p = 0 := by
      have : p < 0 + 2 ^ 31 := hlt
      omega
    subst hp0
    rfl
  exact ⟨c, h, (recv_stream recvStart_establishedConn h).1⟩

theorem taken {c : Conn} {data : List Byte} (hd : data ≠ []) : (tcpTakeData c data).rcvd = c.rcvd + data.length ∧
    (tcpTakeData c data).tcb.rcvNxt = c.tcb.rcvNxt + BitVec.ofNat 32 data.length ∧
    (tcpTakeData c data).tcb.rx.size = c.tcb.rx.size ∧
    (tcpTakeData c data).read = c.read ∧
    (tcpTakeData c data).tcb.finReceived = c.tcb.finReceived ∧
    (tcpTakeData c data).tcb.state = c.tcb.state ∧ (tcpTakeData c data).tcb.active = c.tcb.active := by
  obtain ⟨_, _, _, _, heq, -⟩ := tcpTakeData_eq c hd
  rw [heq]
  exact ⟨rfl, rfl, size_pushAll _ _, rfl, rfl, rfl, rfl⟩

/-- Two segments of 40000 bytes in a row do not fit into the ring: the law fails, because `rcv_nxt` has
moved over bytes that were dropped. -/
theorem recv_stream_violated :
    ¬ ∀ (stream : Nat → Byte) (c0 c : Conn) (es : List Event), RecvStart c0 →
      Run step (FromPeer stream) c0 es c → RecvOk stream c := by
  intro hall
  obtain ⟨data, hlen, hdata⟩ : ∃ data : List Byte, data.length = 40000 ∧
      ∀ p : Nat, data = (range data.length).map fun i => (fun _ => 0) (p + i) :=
    ⟨replicate 40000 0, length_replicate, fun p => by
      rw [length_replicate, map_const', length_range]⟩
  have hne : data ≠ [] := ne_nil_of_length_pos (by omega)
  let s1 : Segment := { seq := 1, ack := 0, flags := {}, window := 0, data := data }
  let c1 := tcpTakeData establishedConn data
  let s2 : Segment := { s1 with seq := c1.tcb.rcvNxt }
  let c2 := tcpTakeData { c1 with tries := 0 } data
  obtain ⟨h1, -, h3, h4, h5, h6, h7⟩ := taken (c := establishedConn) hne
  obtain ⟨h1', -, h3', h4', h5', -, -⟩ := taken hne
  have hrun : Run step (FromPeer fun _ => 0) establishedConn
      [.rx (fun _ => .ok) s1, .rx (fun _ => .ok) s2] c2 :=
    .cons (fun p _ _ _ => hdata p) (step_data _ rfl rfl rfl rfl)
      (.cons (fun p _ _ _ => hdata p) (step_data _ h6 h7 rfl rfl) (.nil _))
  have hbytes := congrArg length (hall _ _ _ _ recvStart_establishedConn hrun).bytes
  have hused := c2.tcb.rx.used_lt
  have hsize : c2.tcb.rx.size = 65536 := h3'.trans h3
  have hrcvd : c2.rcvd = 80000 := by
    rw [h1', h1, hlen]
    rfl
  have hread : c2.read = [] := h4'.trans h4
  have hfin : c2.tcb.finReceived = false := h5'.trans h5
  rw [length_append, hread, length_map, length_range, length_contents, hfin] at hbytes
  simp only [length_nil, Bool.toNat_false] at hbytes
  omega

end ExoOS.Net
