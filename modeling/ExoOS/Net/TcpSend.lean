import ExoOS.Net.Tcp

/-!
# The stream a TCP connection sends

Position `p` of the stream has sequence number `iss + 1 + p`. `SendOk`: the data segments on the wire follow
one another from there on and carry the bytes `tcp_sock_sendto` accepted, in order; the entries of the
retransmission queue carry the bytes of their positions; a FIN comes behind all of them.

The send ring is the part of the stream that has not been sent: `SendInv.bytes` and `SendInv.nxt` tie it to
the wire and to `snd_nxt`. `tcp_output` takes a chunk out of the ring only when `ip_tx` has succeeded but
`tcp_send_segment` has moved `snd_nxt` by then, and `tcp_sock_shutdown` sends its FIN without a look at the
ring: `SendAllowed` excludes these two, a failed copy for the queue and a segment size above the local buffer.
Everything that does not send (`SendFrame`) keeps the invariant.
-/

namespace ExoOS.Net

open List Option RingBuf Transition Nat Segment

def Conn.sentBytes (c : Conn) : List Byte := c.wire.flatMap Segment.data

/-- The data segments of a list take consecutive sequence numbers, from position `p` on. -/
def Tiles (isn : Seq) : Nat → List Segment → Prop
  | _, [] => True
  | p, s :: ss => (s.data ≠ [] → s.seq = seqAt isn p) ∧ Tiles isn (p + s.data.length) ss

/-- A payload with this sequence number holds the accepted bytes of its positions. -/
def Carries (c : Conn) (seq : Seq) (data : List Byte) : Prop :=
  ∃ p, seq = seqAt c.tcb.iss p ∧ data <+: c.accepted.drop p

structure SendOk (c : Conn) : Prop where
  /-- No byte is skipped or sent at two sequence numbers. -/
  tiles : Tiles c.tcb.iss 0 c.wire
  sent : c.sentBytes <+: c.accepted
  wire : ∀ seg ∈ c.wire, seg.data ≠ [] → Carries c seg.seq seg.data
  queue : ∀ ent ∈ c.tcb.rexmit, 0 < ent.dataLen →
    ∃ data, ent.data = some data ∧ data.length = ent.dataLen ∧ Carries c ent.seqStart data
  /-- A FIN comes behind the last byte accepted, and nothing is left behind it. -/
  finWire : ∀ seg ∈ c.wire, seg.flags.fin = true →
    seg.seq = seqAt c.tcb.iss c.accepted.length ∧ c.sentBytes = c.accepted
  finQueue : ∀ ent ∈ c.tcb.rexmit, ent.flags.fin = true →
    ent.seqStart = seqAt c.tcb.iss c.accepted.length ∧ c.sentBytes = c.accepted
  size : ∀ seg ∈ c.wire, seg.data.length ≤ TCP_MSS_DEFAULT

/-- The states in which data is, or may later be, sent. -/
def TcpState.Live (st : TcpState) : Prop :=
  st = .synSent ∨ st = .synReceived ∨ st = .established ∨ st = .closeWait

instance (st : TcpState) : Decidable st.Live := inferInstanceAs (Decidable (_ ∨ _))

theorem Tcb.CanSend.live {t : Tcb} (h : t.CanSend) : t.state.Live := .inr (.inr h)

structure SendInv (c : Conn) : Prop where
  tiles : Tiles c.tcb.iss 0 c.wire
  bytes : c.sentBytes ++ c.tcb.tx.contents = c.accepted
  nxt : c.tcb.state.Live → c.tcb.sndNxt = seqAt c.tcb.iss c.sentBytes.length
  queue : ∀ ent ∈ c.tcb.rexmit, 0 < ent.dataLen →
    ∃ data, ent.data = some data ∧ data.length = ent.dataLen ∧ Carries c ent.seqStart data
  finWire : ∀ seg ∈ c.wire, seg.flags.fin = true →
    ¬ c.tcb.state.Live ∧ seg.seq = seqAt c.tcb.iss c.accepted.length ∧ c.tcb.tx.contents = []
  finQueue : ∀ ent ∈ c.tcb.rexmit, ent.flags.fin = true →
    ¬ c.tcb.state.Live ∧ ent.seqStart = seqAt c.tcb.iss c.accepted.length ∧ c.tcb.tx.contents = []
  size : ∀ seg ∈ c.wire, seg.data.length ≤ TCP_MSS_DEFAULT
  mss : c.tcb.MssOk

variable {isn : Seq} {p : Nat} {c : Conn}

theorem Tiles.append {w l : List Segment} :
    Tiles isn p (w ++ l) ↔ Tiles isn p w ∧ Tiles isn (p + (w.flatMap data).length) l := by
  induction w generalizing p with
  | nil => simp [Tiles]
  | cons s ss ih => simp [Tiles, ih, and_assoc, add_assoc]

theorem tiles_of_no_data {l : List Segment} (h : ∀ s ∈ l, s.data = []) :
    Tiles isn p l := by
  induction l generalizing p with
  | nil => trivial
  | cons s ss ih =>
    exact ⟨fun hd => absurd (h s mem_cons_self) hd, ih fun s hs => h s (mem_cons_of_mem _ hs)⟩

theorem flatMap_no_data {w l : List Segment} (h : ∀ s ∈ l, s.data = []) : (w ++ l).flatMap data = w.flatMap data := by
  rw [flatMap_append, flatMap_eq_nil_iff.2 h, append_nil]

theorem Tiles.carries {w : List Segment} {bytes : List Byte} (h : Tiles isn p w)
    (hb : w.flatMap data <+: bytes.drop p) {seg : Segment} (hs : seg ∈ w) (hd : seg.data ≠ []) :
    ∃ q, seg.seq = seqAt isn q ∧ seg.data <+: bytes.drop q := by
  induction w generalizing p with
  | nil => cases hs
  | cons s ss ih =>
    rw [flatMap_cons] at hb
    rcases mem_cons.1 hs with rfl | hs
    · exact ⟨p, h.1 hd, (prefix_append _ _).trans hb⟩
    · refine ih h.2 ?_ hs
      obtain ⟨rest, hrest⟩ := hb
      rw [← drop_drop, ← hrest, append_assoc, drop_left]
      exact prefix_append _ _

theorem SendInv.ok (h : SendInv c) : SendOk c where
  tiles := h.tiles
  sent := ⟨_, h.bytes⟩
  wire seg hs hd := h.tiles.carries ⟨_, h.bytes⟩ hs hd
  queue := h.queue
  finWire seg hs hf := by
    obtain ⟨-, hseq, htx⟩ := h.finWire seg hs hf
    refine ⟨hseq, ?_⟩
    rw [← h.bytes, htx, append_nil]
  finQueue ent hs hf := by
    obtain ⟨-, hseq, htx⟩ := h.finQueue ent hs hf
    refine ⟨hseq, ?_⟩
    rw [← h.bytes, htx, append_nil]
  size := h.size

/-! ### What sends nothing -/

/-- `c'` has the send side of `c`, except that acknowledged entries are gone and the state does not go back
to one that sends. Only segments without data and FIN have been sent. -/
structure SendFrame (c c' : Conn) : Prop where
  iss : c'.tcb.iss = c.tcb.iss
  nxt : c'.tcb.sndNxt = c.tcb.sndNxt
  tx : c'.tcb.tx = c.tcb.tx
  accepted : c'.accepted = c.accepted
  rexmit : ∀ ent ∈ c'.tcb.rexmit, ent ∈ c.tcb.rexmit
  live : c'.tcb.state.Live → c.tcb.state.Live
  mss : c.tcb.MssOk → c'.tcb.MssOk
  wire : ∃ l, c'.wire = c.wire ++ l ∧ ∀ s ∈ l, s.data = [] ∧ s.flags.fin = false

theorem SendInv.frame {c c' : Conn} (h : SendInv c) (hf : SendFrame c c') : SendInv c' := by
  obtain ⟨l, hw, hl⟩ := hf.wire
  have hsent : c'.sentBytes = c.sentBytes := by
    rw [Conn.sentBytes, hw, flatMap_no_data fun s hs => (hl s hs).1, Conn.sentBytes]
  refine ⟨?_, ?_, ?_, ?_, ?_, ?_, ?_, hf.mss h.mss⟩
  · rw [hf.iss, hw]
    exact Tiles.append.2 ⟨h.tiles, tiles_of_no_data fun s hs => (hl s hs).1⟩
  · rw [hsent, hf.tx, hf.accepted]
    exact h.bytes
  · intro hlive
    rw [hf.nxt, hf.iss, hsent]
    exact h.nxt (hf.live hlive)
  · intro ent hent hlen
    obtain ⟨data, hd, hn, p, hseq, hp⟩ := h.queue ent (hf.rexmit ent hent) hlen
    exact ⟨data, hd, hn, p, by rw [hf.iss]; exact hseq, by rw [hf.accepted]; exact hp⟩
  · intro seg hs hfin
    rw [hw] at hs
    rcases mem_append.1 hs with hs | hs
    · obtain ⟨h1, h2, h3⟩ := h.finWire seg hs hfin
      exact ⟨fun hlive => h1 (hf.live hlive), by rw [hf.iss, hf.accepted]; exact h2, by rw [hf.tx]; exact h3⟩
    · rw [(hl seg hs).2] at hfin
      cases hfin
  · intro ent hent hfin
    obtain ⟨h1, h2, h3⟩ := h.finQueue ent (hf.rexmit ent hent) hfin
    exact ⟨fun hlive => h1 (hf.live hlive), by rw [hf.iss, hf.accepted]; exact h2, by rw [hf.tx]; exact h3⟩
  · rw [hw]
    refine forall_mem_append.2 ⟨h.size, fun seg hs => ?_⟩
    rw [(hl seg hs).1]
    exact zero_le _

def Conn.sendSide (c : Conn) :=
  (c.tcb.iss, c.tcb.sndNxt, c.tcb.tx, c.tcb.sndMss, c.tcb.rexmit, c.accepted, c.wire)

namespace SendFrame

variable {c c' c'' : Conn} (env : Nat → TxOutcome)

theorem of_eq (ht : c'.tcb.iss = c.tcb.iss ∧ c'.tcb.sndNxt = c.tcb.sndNxt ∧ c'.tcb.tx = c.tcb.tx ∧
      c'.tcb.sndMss = c.tcb.sndMss) (hq : c'.tcb.rexmit <:+ c.tcb.rexmit)
    (hc : c'.accepted = c.accepted ∧ c'.wire = c.wire) (hl : c'.tcb.state.Live → c.tcb.state.Live) :
    SendFrame c c' where
  iss := ht.1
  nxt := ht.2.1
  tx := ht.2.2.1
  accepted := hc.1
  rexmit ent hent := hq.mem hent
  live := hl
  mss hm := by rw [Tcb.MssOk, ht.2.2.2]; exact hm
  wire := ⟨[], by rw [hc.2, append_nil], forall_mem_nil _⟩

theorem same (h : c'.sendSide = c.sendSide) (hl : c'.tcb.state.Live → c.tcb.state.Live) : SendFrame c c' := by
  simp only [Conn.sendSide, Prod.mk.injEq] at h
  obtain ⟨h1, h2, h3, h4, h5, h6⟩ := h
  exact .of_eq ⟨h1, h2, h3, h4⟩ (h5 ▸ suffix_refl _) h6 hl

theorem refl (c : Conn) : SendFrame c c := .same rfl id

theorem trans (h : SendFrame c c') (h' : SendFrame c' c'') : SendFrame c c'' where
  iss := h'.iss.trans h.iss
  nxt := h'.nxt.trans h.nxt
  tx := h'.tx.trans h.tx
  accepted := h'.accepted.trans h.accepted
  rexmit ent hent := h.rexmit ent (h'.rexmit ent hent)
  live hl := h.live (h'.live hl)
  mss hm := h'.mss (h.mss hm)
  wire := by
    obtain ⟨l, hw, hl⟩ := h.wire
    obtain ⟨l', hw', hl'⟩ := h'.wire
    exact ⟨l ++ l', by rw [hw', hw, append_assoc], forall_mem_append.2 ⟨hl, hl'⟩⟩

theorem sendAck (c : Conn) : SendFrame c (tcpSendAck env c) := by
  obtain ⟨_, _, l, _, heq, hl⟩ := tcpSendAck_eq env c
  rw [heq]
  refine ⟨rfl, rfl, rfl, rfl, fun _ h => h, id, id, l, rfl, fun s hs => ?_⟩
  obtain ⟨-, h1, h2⟩ := hl s hs
  exact ⟨h1, by rw [h2]⟩

theorem sendRst (c : Conn) (seq ack : Seq) : SendFrame c (tcpSendRst env c seq ack) := by
  obtain ⟨l, _, heq, hl⟩ := tcpSendRst_eq env c seq ack
  rw [heq]
  refine ⟨rfl, rfl, rfl, rfl, fun _ h => h, id, id, l, rfl, fun s hs => ?_⟩
  obtain ⟨h1, h2⟩ := hl s hs
  exact ⟨h1, by rw [h2]⟩

theorem ack (c : Conn) (s : Segment) : SendFrame c (c.setTcb (tcpAck c.tcb s)) := by
  obtain ⟨_, _, _, _, st, heq, hsuf, hst⟩ := tcpAck_eq c.tcb s
  rw [heq]
  refine .of_eq ⟨rfl, rfl, rfl, rfl⟩ hsuf ⟨rfl, rfl⟩ fun hl => ?_
  rcases hst with rfl | ⟨-, rfl⟩
  · exact hl
  · exact absurd hl (by decide : ¬ TcpState.finWait2.Live)

theorem takeData (c : Conn) (data : List Byte) : SendFrame c (tcpTakeData c data) := by
  by_cases hd : data = []
  · rw [hd]
    exact refl c
  · obtain ⟨_, _, _, _, heq, -⟩ := tcpTakeData_eq c hd
    rw [heq]
    exact .same rfl id

theorem live_of_afterFin {st : TcpState} : (afterFin st).Live → st.Live := by
  cases st <;> decide

theorem fin (c : Conn) : SendFrame c (tcpFin env c) := by
  have h0 : SendFrame c { c with
      tcb := { c.tcb with rcvNxt := c.tcb.rcvNxt + 1, finReceived := true }, rcvd := c.rcvd + 1 } :=
    .same rfl id
  exact (h0.trans (sendAck env _)).trans (.same rfl live_of_afterFin)

theorem receive (c : Conn) (s : Segment) : SendFrame c (tcpReceive env c s) := by
  unfold tcpReceive
  dsimp only
  split_ifs
  · exact (ack c s).trans (sendAck env _)
  · exact (ack c s).trans (sendAck env _)
  · refine (ack c s).trans ((takeData _ s.data).trans ?_)
    unfold tcpTake
    split
    · exact fin env _
    · exact refl _

theorem synSent {c c' : Conn} {s : Segment} (hst : c.tcb.state = .synSent)
    (hmss : s.flags.syn → ∀ m, HasMss s.opts m → m ≤ TCP_MSS_DEFAULT)
    (hs : tcpSynSent env c s = some c') : SendFrame c c' := by
  unfold tcpSynSent at hs
  split_ifs at hs with hflags
  · cases hs
    exact sendRst env c s.ack 0
  · obtain ⟨⟨mss, acc⟩, hopt, hs⟩ := bind_eq_some_iff.1 hs
    cases hs
    refine SendFrame.trans ?_ (sendAck env _)
    have hsyn : s.flags.syn := (Bool.and_eq_true_iff.1 hflags).1
    refine ⟨rfl, rfl, rfl, rfl, fun ent hent => (dropWhile_suffix _).mem hent, fun _ => ?_, fun hm => ?_,
      [], (append_nil _).symm, forall_mem_nil _⟩
    · rw [hst]; decide
    · exact ⟨parseMss_ge hopt hm.1, parseMss_le (by decide) hopt (by simpa using hmss hsyn) hm.2⟩
  · cases hs
    exact refl c

theorem process {s : Segment} {r : Conn × Bool} (hmss : s.flags.syn → ∀ m, HasMss s.opts m → m ≤ TCP_MSS_DEFAULT)
    (hs : tcpProcess env c s = some r) : SendFrame c r.1 := by
  have hdead : ∀ {c' : Conn}, c'.tcb.iss = c.tcb.iss ∧ c'.tcb.sndNxt = c.tcb.sndNxt ∧
      c'.tcb.tx = c.tcb.tx ∧ c'.tcb.sndMss = c.tcb.sndMss → c'.tcb.rexmit <:+ c.tcb.rexmit →
      c'.accepted = c.accepted ∧ c'.wire = c.wire → ¬ c'.tcb.state.Live → SendFrame c c' :=
    fun h1 h2 h3 h4 => .of_eq h1 h2 h3 fun hl => absurd hl h4
  unfold tcpProcess at hs
  split at hs
  · cases hs
    exact hdead ⟨rfl, rfl, rfl, rfl⟩ (suffix_refl _) ⟨rfl, rfl⟩ (by decide : ¬ TcpState.closed.Live)
  split at hs
  case h_1 hst =>
    obtain ⟨c', hc, rfl⟩ := map_eq_some_iff.1 hs
    exact synSent env hst hmss hc
  case h_2 hst =>
    split at hs <;> cases hs
    · exact .of_eq ⟨rfl, rfl, rfl, rfl⟩ (dropWhile_suffix _) ⟨rfl, rfl⟩ fun _ => by rw [hst]; decide
    · exact refl c
  case h_3 => cases hs; exact receive env c s
  case h_4 => cases hs; exact receive env c s
  case h_5 => cases hs; exact receive env c s
  case h_6 => cases hs; exact receive env c s
  case h_7 =>
    split at hs <;> cases hs
    · exact hdead ⟨rfl, rfl, rfl, rfl⟩ (suffix_refl _) ⟨rfl, rfl⟩ (by decide : ¬ TcpState.timeWait.Live)
    · exact refl c
  case h_8 =>
    split at hs <;> cases hs
    · exact hdead ⟨rfl, rfl, rfl, rfl⟩ (nil_suffix) ⟨rfl, rfl⟩ (by decide : ¬ TcpState.closed.Live)
    · exact refl c
  case h_9 =>
    cases hs
    exact (sendAck env c).trans (.same rfl id)
  case h_10 => cases hs; exact refl c
  case h_11 => cases hs; exact refl c

theorem recvfrom (c : Conn) (len : Nat) : SendFrame c (tcpSockRecvfrom c len) := by
  obtain ⟨_, _, _, _, _, heq, -⟩ := tcpSockRecvfrom_eq c len
  rw [heq]
  exact .same rfl id

theorem rexmitTimeout (c : Conn) : SendFrame c (tcpRexmitTimeout c) := by
  unfold tcpRexmitTimeout
  dsimp only
  split_ifs
  · exact .same rfl id
  · exact .same rfl id
  · exact .same rfl fun hl => absurd hl (by decide : ¬ TcpState.closed.Live)

theorem delackTimeout (c : Conn) : SendFrame c (tcpDelackTimeout env c) := by
  have h0 : SendFrame c (c.setTcb { c.tcb with delackTimer := false }) :=
    .same rfl id
  unfold tcpDelackTimeout
  dsimp only
  split
  · exact h0.trans (sendAck env _)
  · exact h0

end SendFrame

/-! ### What sends -/

/-- What `tcp_output` needs of its environment: a segment that is built also goes out, and its queue entry
gets its copy. -/
def TxOutcome.Sound (o : TxOutcome) : Prop := o.skb = true → o.ip = true ∧ (o.entry = true → o.copy = true)

namespace SendInv

variable {c : Conn} {env : Nat → TxOutcome}

section

variable (h : SendInv c)
include h

section

variable (hlive : c.tcb.state.Live)
include hlive

theorem chunk {data : List Byte} {tx : RingBuf Byte} {o : TxOutcome}
    (hdata : data ++ tx.contents = c.tcb.tx.contents) (hpos : 0 < data.length)
    (hlen : data.length ≤ TCP_MSS_DEFAULT) (hcopy : o.entry → o.copy) {flags : Flags}
    (hfl : flags.fin = false) (timer : Bool) (acc : List Access) (tries : Nat) :
    SendInv { c with
      tcb := { c.tcb with
        sndNxt := c.tcb.sndNxt + BitVec.ofNat 32 data.length
        rexmit := c.tcb.rexmit ++ rexmitEntry o c.tcb.sndNxt data flags
        tx := tx, rexmitTimer := timer }
      acc := acc, tries := tries, wire := c.wire ++ [builtSegment c.tcb flags data] } := by
  have hnxt := h.nxt hlive
  have hacc : c.sentBytes ++ (data ++ tx.contents) = c.accepted := by rw [hdata, h.bytes]
  have hsent : ((c.wire ++ [builtSegment c.tcb flags data]).flatMap Segment.data) = c.sentBytes ++ data := by
    simp [Conn.sentBytes, builtSegment]
  have hcarry : data <+: c.accepted.drop c.sentBytes.length := by
    rw [← hacc, drop_left]
    exact prefix_append _ _
  refine ⟨?_, ?_, ?_, ?_, ?_, ?_, ?_, h.mss⟩
  · refine Tiles.append.2 ⟨h.tiles, ?_⟩
    rw [zero_add]
    exact ⟨fun _ => hnxt, trivial⟩
  · show (c.wire ++ [builtSegment c.tcb flags data]).flatMap Segment.data ++ tx.contents = c.accepted
    rw [hsent, append_assoc, hacc]
  · intro _
    show c.tcb.sndNxt + _ = seqAt c.tcb.iss ((c.wire ++ [builtSegment c.tcb flags data]).flatMap Segment.data).length
    rw [hsent, length_append, seqAt_add, hnxt]
  · refine forall_mem_append.2 ⟨h.queue, fun ent hent _ => ?_⟩
    obtain ⟨hentry, hseq, -, hdlen, hd⟩ := mem_rexmitEntry hent
    rw [if_pos ⟨hpos, hcopy hentry⟩] at hd
    exact ⟨data, hd, hdlen.symm, c.sentBytes.length, hseq.trans hnxt, hcarry⟩
  · refine forall_mem_append.2 ⟨fun seg hs hfin => absurd hlive (h.finWire seg hs hfin).1, ?_⟩
    exact forall_mem_singleton.2 fun hfin => absurd (hfl.symm.trans hfin) (by decide)
  · refine forall_mem_append.2 ⟨fun ent hent hfin => absurd hlive (h.finQueue ent hent hfin).1, fun ent hent hfin => ?_⟩
    obtain ⟨-, -, hflags, -⟩ := mem_rexmitEntry hent
    rw [hflags, hfl] at hfin
    cases hfin
  · exact forall_mem_append.2 ⟨h.size, forall_mem_singleton.2 hlen⟩

theorem outputRound (henv : ∀ n, (env n).Sound) :
    SendInv (outputRound env c).1 ∧ (Net.outputRound env c).1.tcb.state = c.tcb.state := by
  rcases outputRound_cases env c (lt_of_lt_of_le (by decide) h.mss.1) with
    ⟨_, _, heq, -⟩ | ⟨data, tx, timer, acc, tries, heq, hskb, hdata, hpos, -, htx, -⟩
  · rw [heq]
    exact ⟨h.frame (.same rfl id), rfl⟩
  · obtain ⟨hip, hcopy⟩ := henv c.tries hskb
    have hle := txChunk_le c.tcb
    have hcont : data ++ tx.contents = c.tcb.tx.contents := by
      rw [htx hip, hdata, peek_eq _ hle.1, contents_advance _ hle.1, take_append_drop]
    have hlen : data.length ≤ TCP_MSS_DEFAULT := by
      rw [hdata, peek, length_map, length_range]
      exact le_trans hle.2 h.mss.2
    rw [heq, Conn.ipTx, if_pos hip]
    exact ⟨h.chunk hlive hcont hpos hlen hcopy rfl timer acc tries, rfl⟩

theorem output (henv : ∀ n, (env n).Sound) :
    SendInv (tcpOutput env c) ∧ (tcpOutput env c).tcb.state = c.tcb.state :=
  tcpOutput_inv (P := fun c' => SendInv c' ∧ c'.tcb.state = c.tcb.state) env c (fun c' hc' => by
      obtain ⟨h1, h2⟩ := hc'.1.outputRound (by rw [hc'.2]; exact hlive) henv
      exact ⟨h1, h2.trans hc'.2⟩) ⟨h, rfl⟩

theorem putTx (x : Byte) (hfull : ¬ c.tcb.tx.Full) : SendInv (c.putTx x) where
  tiles := h.tiles
  bytes := by
    show c.sentBytes ++ (c.tcb.tx.push x).contents = c.accepted ++ [x]
    rw [contents_push _ x hfull, ← append_assoc, h.bytes]
  nxt := h.nxt
  queue ent hent hdl := by
    obtain ⟨data, hd, hn, p, hseq, hp⟩ := h.queue ent hent hdl
    refine ⟨data, hd, hn, p, hseq, hp.trans ?_⟩
    rw [Conn.putTx, drop_append]
    exact prefix_append _ _
  finWire seg hs hfin := absurd hlive (h.finWire seg hs hfin).1
  finQueue ent hent hfin := absurd hlive (h.finQueue ent hent hfin).1
  size := h.size
  mss := h.mss

omit hlive in
theorem sendto (henv : ∀ n, (env n).Sound) (src : List Byte) (nonblock : Bool) :
    SendInv (tcpSockSendto env c src nonblock) := by
  unfold tcpSockSendto
  split
  · have hlive := Tcb.CanSend.live ‹_›
    refine (sendLoop_inv (P := fun c' => SendInv c' ∧ c'.tcb.state = c.tcb.state) env c
      (fun c' hc' => ?_) (fun c' x hc' hfull => ?_) nonblock src ⟨h, rfl⟩).1
    · obtain ⟨h1, h2⟩ := hc'.1.output (by rw [hc'.2]; exact hlive) henv
      exact ⟨h1, h2.trans hc'.2⟩
    · exact ⟨hc'.1.putTx (by rw [hc'.2]; exact hlive) x hfull, hc'.2⟩
  · exact h

/-- A FIN with an empty ring takes the position behind the last byte. The new state sends nothing more. -/
theorem sendFin (htx : c.tcb.tx.contents = []) {st : TcpState} (hst : ¬ st.Live) :
    SendInv ((tcpSendSegment env c { fin := true, ack := true } []).1.setState st) := by
  rcases tcpSendSegment_cases env c { fin := true, ack := true } [] (by decide) with
    ⟨_, _, heq⟩ | ⟨l, _, _, heq, hl⟩
  · rw [heq]
    exact h.frame (.same rfl fun hl => absurd hl hst)
  have hb : c.sentBytes = c.accepted := by rw [← h.bytes, htx, append_nil]
  have hnxt : c.tcb.sndNxt = seqAt c.tcb.iss c.accepted.length := by rw [h.nxt hlive, hb]
  have hdata : ∀ s ∈ l, s.data = [] := fun s hs => by rw [hl s hs]; rfl
  rw [heq]
  refine ⟨?_, ?_, fun hl' => absurd hl' hst, ?_, ?_, ?_, ?_, h.mss⟩
  · exact Tiles.append.2 ⟨h.tiles, tiles_of_no_data hdata⟩
  · show (c.wire ++ l).flatMap data ++ c.tcb.tx.contents = c.accepted
    rw [flatMap_no_data hdata]
    exact h.bytes
  · refine forall_mem_append.2 ⟨h.queue, fun ent hent hdl => ?_⟩
    obtain ⟨-, -, -, hdlen, -⟩ := mem_rexmitEntry hent
    rw [hdlen] at hdl
    cases hdl
  · refine forall_mem_append.2 ⟨fun seg hs hfin => ⟨hst, (h.finWire seg hs hfin).2⟩, fun seg hs _ => ?_⟩
    rw [hl seg hs]
    exact ⟨hst, hnxt, htx⟩
  · exact forall_mem_append.2 ⟨fun ent hent hfin => ⟨hst, (h.finQueue ent hent hfin).2⟩, fun ent hent _ =>
      ⟨hst, (mem_rexmitEntry hent).2.1.trans hnxt, htx⟩⟩
  · refine forall_mem_append.2 ⟨h.size, fun seg hs => ?_⟩
    rw [hdata seg hs]
    exact zero_le _

end

theorem shutdown (how : Shut) (htx : how ≠ .rd → c.tcb.finSent = false → c.tcb.CanSend → c.tcb.tx.contents = []) :
    SendInv (tcpSockShutdown env c how) := by
  unfold tcpSockShutdown
  split
  next hcond =>
    obtain ⟨hhow, hsent, hcan⟩ := hcond
    have htx' := htx (by rintro rfl; simp at hhow) hsent hcan
    have h1 : SendInv (c.setTcb { c.tcb with finSent := true }) :=
      h.frame (.same rfl id)
    have hstate : (tcpSendSegment env (c.setTcb { c.tcb with finSent := true }) { fin := true, ack := true }
        []).1.tcb.state = c.tcb.state := by
      obtain ⟨_, _, _, _, heq, -⟩ := tcpSendSegment_eq env (c.setTcb { c.tcb with finSent := true })
        { fin := true, ack := true } []
      rw [heq]
      rfl
    dsimp only
    rw [hstate]
    split_ifs with hst hst'
    · exact h1.sendFin hcan.live htx' (by decide)
    · exact h1.sendFin hcan.live htx' (by decide)
    · exact absurd hcan (not_or.2 ⟨hst, hst'⟩)
  · exact h

end

end SendInv

def SendAllowed (c : Conn) : Event → Prop
  | .send env _ _ => ∀ n, (env n).Sound
  | .shutdown _ how => how ≠ .rd → c.tcb.finSent = false → c.tcb.CanSend → c.tcb.tx.contents = []
  | .rx _ s => s.flags.syn = true → ∀ m, HasMss s.opts m → m ≤ TCP_MSS_DEFAULT
  | _ => True

theorem SendInv.step {c c' : Conn} {e : Event} (h : SendInv c) (hall : SendAllowed c e)
    (hs : Net.step c e = some c') : SendInv c' := by
  have h0 : SendInv { c with tries := 0 } :=
    h.frame (.same rfl id)
  cases e with
  | rx env s =>
    simp only [Net.step, ite_none_right_eq_some, map_eq_some_iff] at hs
    obtain ⟨-, r, hr, rfl⟩ := hs
    exact h0.frame (.process env hall hr)
  | send env src nonblock =>
    cases hs
    exact h0.sendto hall src nonblock
  | recv len =>
    cases hs
    exact h0.frame (.recvfrom _ len)
  | shutdown env how =>
    cases hs
    exact h0.shutdown how hall
  | rexmitTimeout =>
    obtain ⟨-, ⟨⟩⟩ := ite_none_right_eq_some.1 hs
    exact h0.frame (.rexmitTimeout _)
  | delackTimeout env =>
    obtain ⟨-, ⟨⟩⟩ := ite_none_right_eq_some.1 hs
    exact h0.frame (.delackTimeout env _)
  | timewaitTimeout =>
    obtain ⟨-, ⟨⟩⟩ := ite_none_right_eq_some.1 hs
    exact h0.frame (.of_eq ⟨rfl, rfl, rfl, rfl⟩ nil_suffix ⟨rfl, rfl⟩
      fun hl => absurd hl (by decide : ¬ TcpState.closed.Live))

theorem SendInv.start (hnxt : c.tcb.sndNxt = c.tcb.iss + 1) (hacc : c.accepted = [])
    (htx : c.tcb.tx.contents = []) (hwire : ∀ s ∈ c.wire, s.data = [] ∧ s.flags.fin = false)
    (hq : ∀ ent ∈ c.tcb.rexmit, ent.dataLen = 0 ∧ ent.flags.fin = false) (hmss : c.tcb.MssOk) : SendInv c := by
  have hsent : c.sentBytes = [] := flatMap_eq_nil_iff.2 fun s hs => (hwire s hs).1
  refine ⟨tiles_of_no_data fun s hs => (hwire s hs).1, by rw [hsent, htx, hacc, nil_append],
    fun _ => by rw [hnxt, hsent, length_nil, seqAt_zero], fun ent hent hdl => ?_, fun seg hs hfin => ?_,
    fun ent hent hfin => ?_, fun seg hs => ?_, hmss⟩
  · rw [(hq ent hent).1] at hdl
    cases hdl
  · rw [(hwire seg hs).2] at hfin
    cases hfin
  · rw [(hq ent hent).2] at hfin
    cases hfin
  · rw [(hwire seg hs).1]
    exact zero_le _

theorem SendInv.syn {env : Nat → TxOutcome} {flags : Flags} (hskb : (env c.tries).skb)
    (hflags : flags.syn ∧ flags.fin = false) (hnxt : c.tcb.sndNxt = c.tcb.iss)
    (hnew : c.wire = [] ∧ c.accepted = [] ∧ c.tcb.rexmit = [] ∧ c.tcb.tx.contents = []) (hmss : c.tcb.MssOk) :
    SendInv (tcpSendSegment env c flags []).1 := by
  obtain ⟨hwire, hacc, hrexmit, htx⟩ := hnew
  have hn : seqConsumed flags ([] : List Byte).length = 1 := by simp [seqConsumed, hflags]
  obtain ⟨l, hw, hl⟩ := c.ipTx_wire (env c.tries) (builtSegment c.tcb flags [])
  rw [tcpSendSegment_of_skb env c flags [] hskb (by rw [hn]; exact one_pos), hn]
  refine start (congrArg (· + 1#32) hnxt) hacc htx (fun s hs => ?_) (fun ent hent => ?_) hmss
  · have hs' : s ∈ c.wire ++ l := hw ▸ hs
    rw [hwire] at hs'
    rw [hl s hs']
    exact ⟨rfl, hflags.2⟩
  · have hent' : ent ∈ c.tcb.rexmit ++ rexmitEntry (env c.tries) c.tcb.sndNxt [] flags := hent
    rw [hrexmit] at hent'
    obtain ⟨-, -, h1, h2, -⟩ := mem_rexmitEntry hent'
    exact ⟨h2, by rw [h1]; exact hflags.2⟩

def FreshTcb (t : Tcb) : Prop :=
  ∃ isn localIp localPort remoteIp remotePort listener, t = { tcpTcbAlloc isn with
    localIp := localIp, localPort := localPort, remoteIp := remoteIp, remotePort := remotePort
    listener := listener }

/-- A connection just opened, from either side, whose SYN could be built. -/
inductive Opened : Conn → Prop
  | connect (env : Nat → TxOutcome) (t : Tcb) (ht : FreshTcb t) (hskb : (env 0).skb = true) :
      Opened (tcpConnect env t)
  | accept (env : Nat → TxOutcome) (t : Tcb) (s : Segment) (c : Conn) (ht : FreshTcb t)
      (hskb : (env 0).skb = true) (hmss : ∀ m, HasMss s.opts m → m ≤ TCP_MSS_DEFAULT)
      (hc : tcpHandleSyn env t s = some c) : Opened c

theorem Opened.inv (h : Opened c) : SendInv c := by
  cases h with
  | connect env t ht hskb =>
    obtain ⟨isn, _, _, _, _, _, rfl⟩ := ht
    exact (SendInv.syn hskb ⟨rfl, rfl⟩ rfl ⟨rfl, rfl, rfl, contents_empty _ _ _⟩ ⟨mss_default, le_refl _⟩).frame
        (.same rfl id)
  | accept env t s c ht hskb hmss hc =>
    obtain ⟨isn, _, _, _, _, _, rfl⟩ := ht
    obtain ⟨⟨mss, acc⟩, hopt, hc⟩ := bind_eq_some_iff.1 hc
    cases hc
    have hm : 536 ≤ mss ∧ mss ≤ TCP_MSS_DEFAULT :=
      ⟨parseMss_ge hopt mss_default, parseMss_le mss_default hopt (by simpa using hmss) (le_refl _)⟩
    exact (SendInv.syn hskb ⟨rfl, rfl⟩ rfl ⟨rfl, rfl, rfl, contents_empty _ _ _⟩ ⟨hm.1, hm.2⟩).frame (.same rfl id)

theorem send_stream {c0 c : Conn} {es : List Event} (h0 : Opened c0) (hrun : Run step SendAllowed c0 es c) :
    SendOk c :=
  (hrun.inv (fun _ _ _ h hall hs => SendInv.step h hall hs) h0.inv).ok

def openedConn : Conn := tcpConnect (fun _ => .ok) (tcpTcbAlloc 0)

theorem opened_openedConn : Opened openedConn := .connect _ _ ⟨0, 0, 0, 0, 0, none, rfl⟩ rfl

def synAck : Segment := { seq := 0, ack := 1, flags := { syn := true, ack := true }, window := 100 }

theorem send_stream_hello : ∃ c, Run step SendAllowed openedConn
      [.rx (fun _ => .ok) synAck, .send (fun _ => .ok) [104, 105] true, .shutdown (fun _ => .ok) .wr] c ∧ SendOk c := by
  have h : Run step SendAllowed openedConn
      [.rx (fun _ => .ok) synAck, .send (fun _ => .ok) [104, 105] true, .shutdown (fun _ => .ok) .wr] _ :=
    .cons (fun _ m hm => by cases hm) rfl
      (.cons (fun _ _ => ⟨rfl, fun _ => rfl⟩) rfl (.cons (fun _ _ _ => rfl) rfl (.nil _)))
  exact ⟨_, h, send_stream opened_openedConn h⟩

instance decidableTiles (isn : Seq) : ∀ p w, Decidable (Tiles isn p w)
  | _, [] => .isTrue trivial
  | p, s :: ss =>
    have := decidableTiles isn (p + s.data.length) ss
    inferInstanceAs (Decidable (_ ∧ _))

/-- The first data segment is built but `ip_tx` fails, and the next call sends its byte again, at the next
sequence number. -/
theorem send_stream_violated :
    ¬ ∀ (c0 c : Conn) (es : List Event), Opened c0 → Run step Any c0 es c → SendOk c := by
  intro hall
  let es : List Event := [.rx (fun _ => .ok) synAck, .send (fun _ => { TxOutcome.ok with ip := false }) [1] true,
    .send (fun _ => .ok) [2] true]
  obtain ⟨c, hc⟩ : ∃ c, exec step openedConn es = some c := ⟨_, rfl⟩
  have hno : (exec step openedConn es).map (fun c => decide (Tiles c.tcb.iss 0 c.wire)) = some false := by decide
  have hyes := (hall _ c es opened_openedConn (exec_iff.1 hc)).tiles
  rw [hc, map_some, some.injEq, decide_eq_false_iff_not] at hno
  exact hno hyes

end ExoOS.Net
