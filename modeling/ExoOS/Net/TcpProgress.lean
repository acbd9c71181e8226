import ExoOS.Net.TcpSend

/-!
# Data that could be sent

`tcp_output` sends until the ring is empty or the window is full, but only an application's call runs it, and the
window it respects is the one of the last segment that acknowledged something new. `Watched` adds to a connection the
window that the peer advertised last in a segment with an acceptable ACK.
-/

namespace ExoOS.Net

open Option Transition TcpState

/-- `SND.UNA ≤ SEG.ACK ≤ SND.NXT`. -/
def Tcb.Acceptable (t : Tcb) (s : Segment) : Prop :=
  s.flags.ack = true ∧ tcpSeqLe t.sndUna s.ack = true ∧ tcpSeqLe s.ack t.sndNxt = true

instance (t : Tcb) (s : Segment) : Decidable (t.Acceptable s) := inferInstanceAs (Decidable (_ ∧ _))

def inFlight (t : Tcb) : Nat := (t.sndNxt - t.sndUna).toNat

structure Watched where
  conn : Conn
  peerWnd : Nat

def nextWnd (w : Watched) : Event → Nat
  | .rx _ s => if w.conn.tcb.Acceptable s then s.window else w.peerWnd
  | _ => w.peerWnd

def watch (w : Watched) (e : Event) : Option Watched := (step w.conn e).map fun c => ⟨c, nextWnd w e⟩

def Watched.Flowing (w : Watched) : Prop :=
  w.conn.tcb.CanSend → w.conn.tcb.tx.used = 0 ∨ w.peerWnd ≤ inFlight w.conn.tcb

def Sends (env : Nat → TxOutcome) : Prop := ∀ n, (env n).skb = true ∧ (env n).ip = true

def Succeeds : Event → Prop
  | .send env _ _ => Sends env
  | _ => True

/-- A segment with an acceptable ACK does not make room: it opens the window only together with a new acknowledgement,
and then the window it advertises is full or nothing is left to send. -/
def NoRoom (t : Tcb) : Event → Prop
  | .rx _ s => t.Acceptable s →
    (t.state = .synReceived ∨ t.CanSend ∧ tcpSeqGt s.ack t.sndUna = false → s.window ≤ t.sndWnd) ∧
    (t.CanSend ∧ tcpSeqGt s.ack t.sndUna = true → t.tx.used = 0 ∨ s.window ≤ (t.sndNxt - s.ack).toNat)
  | _ => True

instance (t : Tcb) : ∀ e, Decidable (NoRoom t e)
  | .rx _ s => inferInstanceAs (Decidable (t.Acceptable s → _ ∧ _))
  | .send .. | .recv _ | .shutdown .. | .rexmitTimeout | .delackTimeout _ | .timewaitTimeout => .isTrue trivial

/-! ### Flushing -/

section Flush

variable {env : Nat → TxOutcome} {c : Conn}

structure Flushed (c c' : Conn) : Prop where
  state : c'.tcb.state = c.tcb.state
  wnd : c'.tcb.sndWnd = c.tcb.sndWnd
  mss : c'.tcb.sndMss = c.tcb.sndMss
  done : c'.tcb.tx.used = 0 ∨ txUsable c'.tcb = 0

theorem Flushed.of_eq {c1 c' : Conn} (h : Flushed c1 c') (hstate : c1.tcb.state = c.tcb.state)
    (hwnd : c1.tcb.sndWnd = c.tcb.sndWnd) (hmss : c1.tcb.sndMss = c.tcb.sndMss) : Flushed c c' :=
  ⟨h.state.trans hstate, h.wnd.trans hwnd, h.mss.trans hmss, h.done⟩

theorem txUsable_eq_zero (t : Tcb) : txUsable t = 0 ↔ t.sndWnd ≤ inFlight t := by
  unfold txUsable inFlight
  dsimp only
  split
  · constructor <;> intro h <;> omega
  constructor
  · intro
    omega
  · intro
    rfl

theorem outputRound_sends (henv : Sends env) (hm : 0 < c.tcb.sndMss) :
    (∃ c', outputRound env c = (c', false) ∧ c'.tcb = c.tcb ∧ (c.tcb.tx.used = 0 ∨ txUsable c.tcb = 0)) ∨
      ∃ c', outputRound env c = (c', true) ∧ c'.tcb.state = c.tcb.state ∧ c'.tcb.sndWnd = c.tcb.sndWnd ∧
        c'.tcb.sndMss = c.tcb.sndMss ∧ c'.tcb.tx.used < c.tcb.tx.used := by
  unfold outputRound
  split_ifs with h1 h2 h3
  · exact .inl ⟨c, rfl, rfl, .inl (c.tcb.tx.empty_iff.1 h1.symm)⟩
  · exact .inl ⟨c, rfl, rfl, .inl ((txPending_eq c.tcb).symm.trans h2)⟩
  · exact .inl ⟨c, rfl, rfl, .inr h3⟩
  · right
    have hlen : (c.tcb.tx.peek (txChunk c.tcb)).length = txChunk c.tcb := by simp [RingBuf.peek]
    have hpos := txChunk_pos h2 h3 hm
    have hless : (c.tcb.tx.advance (txChunk c.tcb)).used < c.tcb.tx.used := by
      have hchunk := txChunk_le c.tcb
      rw [RingBuf.used_advance _ hchunk.1]
      omega
    dsimp only
    generalize c.tcb.tx.peek (txChunk c.tcb) = data at hlen
    generalize c.acc ++ copyAccess c.tcb.tx (txChunk c.tcb) = acc
    generalize txChunk c.tcb = chunk at *
    rw [tcpSendSegment_of_skb env { c with acc := acc } _ data (henv _).1 (by simp [seqConsumed]; omega), (henv _).2]
    exact ⟨_, rfl, rfl, rfl, rfl, hless⟩

theorem outputLoop_flushed (henv : Sends env) (hm : 0 < c.tcb.sndMss) {fuel : Nat} (hf : c.tcb.tx.used < fuel) :
    Flushed c (outputLoop env fuel c) := by
  induction fuel generalizing c with
  | zero => omega
  | succ fuel ih =>
    rw [outputLoop]
    rcases outputRound_sends henv hm with ⟨c', heq, htcb, hdone⟩ | ⟨c', heq, hstate, hwnd, hmss, hused⟩
    · rw [heq]
      exact ⟨by rw [htcb], by rw [htcb], by rw [htcb], by rw [htcb]; exact hdone⟩
    · rw [heq]
      exact (@ih c' (by omega) (by omega)).of_eq hstate hwnd hmss

theorem tcpOutput_flushed (henv : Sends env) (hm : 0 < c.tcb.sndMss) (hc : c.tcb.CanSend) :
    Flushed c (tcpOutput env c) := by
  rw [tcpOutput, if_pos hc]
  exact outputLoop_flushed henv hm (Nat.lt_succ_self _)

theorem sendLoop_flushed (henv : Sends env) (hm : 0 < c.tcb.sndMss) (hc : c.tcb.CanSend) (nonblock : Bool)
    (src : List Byte) : Flushed c (sendLoop env nonblock c src) := by
  induction src generalizing c with
  | nil => exact tcpOutput_flushed henv hm hc
  | cons x xs ih =>
    have h := tcpOutput_flushed henv hm hc
    have hc' : (tcpOutput env c).tcb.CanSend := by unfold Tcb.CanSend; rw [h.state]; exact hc
    have hm' : 0 < (tcpOutput env c).tcb.sndMss := by rw [h.mss]; exact hm
    rw [sendLoop]
    split
    · dsimp only
      split
      · split
        · exact (tcpOutput_flushed henv hm' hc').of_eq h.state h.wnd h.mss
        · exact h
      · exact (@ih ((tcpOutput env c).putTx x) hm' hc').of_eq h.state h.wnd h.mss
    · exact (@ih (c.putTx x) hm hc).of_eq rfl rfl rfl

end Flush

structure Flow (t : Tcb) (peerWnd : Nat) : Prop where
  mss : 536 ≤ t.sndMss
  opening : t.state = .synSent ∨ t.state = .synReceived → t.tx.used = 0
  active : t.state = .synSent → t.sndNxt = t.sndUna ∨ t.sndNxt = t.sndUna + 1
  wnd : t.CanSend ∨ t.state = .synReceived → peerWnd ≤ t.sndWnd
  full : t.CanSend → t.tx.used = 0 ∨ t.sndWnd ≤ inFlight t

/-- The send side is the same, and the state is one that sends only if it was. -/
structure SameFlow (t t' : Tcb) : Prop where
  tx : t'.tx = t.tx
  una : t'.sndUna = t.sndUna
  nxt : t'.sndNxt = t.sndNxt
  wnd : t'.sndWnd = t.sndWnd
  mss : t'.sndMss = t.sndMss
  canSend : t'.CanSend → t.CanSend
  synSent : t'.state = .synSent → t.state = .synSent
  synReceived : t'.state = .synReceived → t.state = .synReceived

namespace SameFlow

variable {t t' t'' : Tcb} (env : Nat → TxOutcome)

theorem refl (t : Tcb) : SameFlow t t := ⟨rfl, rfl, rfl, rfl, rfl, id, id, id⟩

theorem trans (h : SameFlow t t') (h' : SameFlow t' t'') : SameFlow t t'' where
  tx := h'.tx.trans h.tx
  una := h'.una.trans h.una
  nxt := h'.nxt.trans h.nxt
  wnd := h'.wnd.trans h.wnd
  mss := h'.mss.trans h.mss
  canSend hc := h.canSend (h'.canSend hc)
  synSent hs := h.synSent (h'.synSent hs)
  synReceived hs := h.synReceived (h'.synReceived hs)

theorem sendAck (c : Conn) : SameFlow c.tcb (tcpSendAck env c).tcb := by
  obtain ⟨_, _, _, _, heq, -⟩ := tcpSendAck_eq env c
  rw [heq]
  exact ⟨rfl, rfl, rfl, rfl, rfl, id, id, id⟩

theorem takeData (c : Conn) (data : List Byte) : SameFlow c.tcb (tcpTakeData c data).tcb := by
  by_cases hd : data = []
  · rw [hd]
    exact refl _
  · obtain ⟨_, _, _, _, heq, -⟩ := tcpTakeData_eq c hd
    rw [heq]
    exact ⟨rfl, rfl, rfl, rfl, rfl, id, id, id⟩

theorem of_afterFin (st : TcpState) :
    (afterFin st = .established ∨ afterFin st = .closeWait → st = .established ∨ st = .closeWait) ∧
      (afterFin st = .synSent → st = .synSent) ∧ (afterFin st = .synReceived → st = .synReceived) := by
  cases st <;> decide

theorem fin (c : Conn) : SameFlow c.tcb (tcpFin env c).tcb := by
  have h0 : SameFlow c.tcb { c.tcb with rcvNxt := c.tcb.rcvNxt + 1, finReceived := true } :=
    ⟨rfl, rfl, rfl, rfl, rfl, id, id, id⟩
  refine (h0.trans (sendAck env { c with tcb := _, rcvd := c.rcvd + 1 })).trans ?_
  unfold tcpFin
  dsimp only
  generalize tcpSendAck env _ = c'
  obtain ⟨h1, h2, h3⟩ := of_afterFin c'.tcb.state
  exact ⟨rfl, rfl, rfl, rfl, rfl, h1, h2, h3⟩

theorem receive (c : Conn) (s : Segment) : SameFlow (tcpAck c.tcb s) (tcpReceive env c s).tcb := by
  unfold tcpReceive
  dsimp only
  split_ifs
  · exact sendAck env (c.setTcb (tcpAck c.tcb s))
  · exact sendAck env (c.setTcb (tcpAck c.tcb s))
  · refine (takeData (c.setTcb (tcpAck c.tcb s)) s.data).trans ?_
    unfold tcpTake
    split
    · exact fin env _
    · exact refl _

end SameFlow

namespace Flow

variable {t t' : Tcb} {wnd : Nat} {s : Segment}

theorem same (h : Flow t wnd) (hs : SameFlow t t') : Flow t' wnd where
  mss := hs.mss ▸ h.mss
  opening ho := by
    rw [hs.tx]
    exact h.opening (ho.imp hs.synSent hs.synReceived)
  active ha := by
    rw [hs.nxt, hs.una]
    exact h.active (hs.synSent ha)
  wnd hw := by
    rw [hs.wnd]
    exact h.wnd (hw.imp hs.canSend hs.synReceived)
  full hc := by
    rw [hs.tx, hs.wnd, inFlight, hs.nxt, hs.una]
    exact h.full (hs.canSend hc)

theorem of_not_live (hm : 536 ≤ t.sndMss) (hl : ¬ t.state.Live) : Flow t wnd where
  mss := hm
  opening ho := absurd (ho.elim .inl fun h => .inr (.inl h)) hl
  active ha := absurd (.inl ha) hl
  wnd hw := absurd (hw.elim Tcb.CanSend.live fun h => .inr (.inl h)) hl
  full hc := absurd hc.live hl

end Flow

theorem acceptable_of_gt {t : Tcb} {s : Segment} (hack : s.flags.ack) (hgt : tcpSeqGt s.ack t.sndUna)
    (hle : tcpSeqLe s.ack t.sndNxt) : t.Acceptable s := by
  have hpos : 0 < (s.ack - t.sndUna).toInt := of_decide_eq_true hgt
  refine ⟨hack, decide_eq_true ?_, hle⟩
  show (t.sndUna - s.ack).toInt ≤ 0
  rw [BitVec.toInt_eq_toNat_cond] at hpos ⊢
  split at hpos
  · split <;> bv_omega
  · omega

theorem acceptable_of_eq {t : Tcb} {s : Segment} (hack : s.flags.ack) (heq : s.ack = t.sndNxt)
    (hnxt : t.sndNxt = t.sndUna ∨ t.sndNxt = t.sndUna + 1) : t.Acceptable s := by
  refine ⟨hack, decide_eq_true ?_, decide_eq_true ?_⟩
  · show (t.sndUna - s.ack).toInt ≤ 0
    rcases hnxt with h | h
    · rw [heq, h, BitVec.sub_self]
      decide
    · rw [heq, h, show t.sndUna - (t.sndUna + 1) = -1 by bv_omega]
      decide
  · show (s.ack - t.sndNxt).toInt ≤ 0
    rw [heq, BitVec.sub_self]
    decide

section Step

variable {c c' : Conn} {wnd : Nat} {s : Segment} {env : Nat → TxOutcome}

theorem nextWnd_le {t : Tcb} {n : Nat} (hs : t.Acceptable s → s.window ≤ n) (hw : wnd ≤ n) :
    (if t.Acceptable s then s.window else wnd) ≤ n := by
  split
  · exact hs ‹_›
  · exact hw

theorem Flow.ack {t : Tcb} (h : Flow t wnd) (hc : t.CanSend) (hroom : NoRoom t (.rx env s)) :
    Flow (tcpAck t s) (if t.Acceptable s then s.window else wnd) := by
  have hstate : t.state ≠ .finWait1 ∧ t.state ≠ .synSent ∧ t.state ≠ .synReceived := by
    rcases hc with hc | hc <;> rw [hc] <;> decide
  have hback : tcpAck t s = tcpAckAdvance t s := by
    obtain ⟨_, _, _, _, heq, -⟩ := tcpAckAdvance_eq t s
    unfold tcpAck
    rw [if_neg]
    rw [heq]
    exact fun hfin => hstate.1 hfin.1
  rw [hback]
  unfold tcpAckAdvance
  split
  next hadv =>
    -- the window of a segment that acknowledges something new is taken over
    simp only [Bool.and_eq_true] at hadv
    have hacc := acceptable_of_gt hadv.1.1 hadv.1.2 hadv.2
    rw [if_pos hacc]
    refine ⟨h.mss, fun ho => ?_, fun ha => absurd ha hstate.2.1, fun _ => Nat.le_refl _, fun _ => ?_⟩
    · exact absurd ho (not_or.2 hstate.2)
    · exact (hroom hacc).2 ⟨hc, hadv.1.2⟩
  next hadv =>
    refine ⟨h.mss, h.opening, h.active, fun hw => nextWnd_le (fun hacc => ?_) (h.wnd hw), h.full⟩
    refine (hroom hacc).1 (.inr ⟨hc, ?_⟩)
    rw [hacc.1, hacc.2.2, Bool.and_true, Bool.not_eq_true] at hadv
    exact hadv

section

variable (h : Flow c.tcb wnd)
include h

theorem Flow.synAck (hst : c.tcb.state = .synSent) (hs : tcpSynSent env c s = some c') :
    Flow c'.tcb (if c.tcb.Acceptable s then s.window else wnd) := by
  have hstay : ∀ wnd', Flow c.tcb wnd' := fun wnd' => by
    refine ⟨h.mss, h.opening, h.active, fun hw => ?_, h.full⟩
    rcases hw with (hw | hw) | hw
    all_goals rw [hst] at hw; cases hw
  unfold tcpSynSent at hs
  split_ifs at hs with hflags hack
  · cases hs
    obtain ⟨_, _, heq, -⟩ := tcpSendRst_eq env c s.ack 0
    rw [heq]
    exact hstay _
  · obtain ⟨⟨mss, acc⟩, hopt, hs⟩ := bind_eq_some_iff.1 hs
    cases hs
    refine Flow.same ?_ (SameFlow.sendAck env _)
    rw [if_pos (acceptable_of_eq (Bool.and_eq_true_iff.1 hflags).2 (not_not.1 hack) (h.active hst))]
    refine ⟨parseMss_ge hopt h.mss, fun ho => ?_, fun ha => ?_, fun _ => Nat.le_refl _, fun _ => ?_⟩
    · exact h.opening (.inl hst)
    · cases ha
    · exact .inl (h.opening (.inl hst))
  · cases hs
    exact hstay _

theorem Flow.process {r : Conn × Bool} (hroom : NoRoom c.tcb (.rx env s))
    (hs : tcpProcess env c s = some r) :
    Flow r.1.tcb (if c.tcb.Acceptable s then s.window else wnd) := by
  have hreceive : ∀ {wnd}, ¬ c.tcb.state.Live → Flow (tcpReceive env c s).tcb wnd := fun hl => by
    have hf := SendFrame.receive env c s
    have hm : (tcpReceive env c s).tcb.sndMss = c.tcb.sndMss := by
      obtain ⟨_, _, _, _, _, heq, -⟩ := tcpAck_eq c.tcb s
      rw [(SameFlow.receive env c s).mss, heq]
    exact .of_not_live (hm ▸ h.mss) fun hl' => hl (hf.live hl')
  unfold tcpProcess at hs
  split at hs
  · cases hs
    exact .of_not_live h.mss (by decide : ¬ closed.Live)
  split at hs
  case h_1 hst =>
    obtain ⟨c', hc, rfl⟩ := map_eq_some_iff.1 hs
    exact h.synAck hst hc
  case h_2 hst =>
    have hw : (if c.tcb.Acceptable s then s.window else wnd) ≤ c.tcb.sndWnd :=
      nextWnd_le (fun hacc => (hroom hacc).1 (.inl hst)) (h.wnd (.inr hst))
    split at hs <;> cases hs
    · refine ⟨h.mss, fun _ => h.opening (.inr hst), fun ha => ?_, fun _ => hw, fun _ => .inl (h.opening (.inr hst))⟩
      cases ha
    · exact ⟨h.mss, h.opening, h.active, fun _ => hw, h.full⟩
  case h_3 hst =>
    cases hs
    exact (h.ack (.inl hst) hroom).same (.receive env c s)
  case h_4 hst =>
    cases hs
    exact hreceive (by rw [hst]; decide)
  case h_5 hst =>
    cases hs
    exact hreceive (by rw [hst]; decide)
  case h_6 hst =>
    cases hs
    exact (h.ack (.inr hst) hroom).same (.receive env c s)
  case h_7 hst =>
    split at hs <;> cases hs
    · exact .of_not_live h.mss (by decide : ¬ timeWait.Live)
    · exact .of_not_live h.mss (by rw [hst]; decide)
  case h_8 hst =>
    split at hs <;> cases hs
    · exact .of_not_live h.mss (by decide : ¬ closed.Live)
    · exact .of_not_live h.mss (by rw [hst]; decide)
  case h_9 hst =>
    cases hs
    refine (Flow.of_not_live h.mss (by rw [hst]; decide)).same ((SameFlow.sendAck env c).trans ?_)
    exact ⟨rfl, rfl, rfl, rfl, rfl, id, id, id⟩
  case h_10 hst =>
    cases hs
    exact .of_not_live h.mss (by rw [hst]; decide)
  case h_11 hst =>
    cases hs
    exact .of_not_live h.mss (by rw [hst]; decide)

theorem Flow.sendto (henv : Sends env) (src : List Byte) (nonblock : Bool) :
    Flow (tcpSockSendto env c src nonblock).tcb wnd := by
  unfold tcpSockSendto
  split
  next hc =>
    have hf := sendLoop_flushed henv (Nat.lt_of_lt_of_le (by decide) h.mss) hc nonblock src
    have hstate : (sendLoop env nonblock c src).tcb.state ≠ .synSent ∧
        (sendLoop env nonblock c src).tcb.state ≠ .synReceived := by
      rw [hf.state]
      rcases hc with hc | hc <;> rw [hc] <;> decide
    refine ⟨hf.mss ▸ h.mss, fun ho => ?_, fun ha => absurd ha hstate.1, fun _ => ?_, fun _ => ?_⟩
    · exact absurd ho (not_or.2 hstate)
    · rw [hf.wnd]
      exact h.wnd (.inl hc)
    · exact hf.done.imp_right (txUsable_eq_zero _).1
  next => exact h

theorem Flow.shutdown (how : Shut) : Flow (tcpSockShutdown env c how).tcb wnd := by
  unfold tcpSockShutdown
  split
  next hcond =>
    obtain ⟨_, _, _, _, heq, -⟩ := tcpSendSegment_eq env (c.setTcb { c.tcb with finSent := true })
      { fin := true, ack := true } []
    dsimp only
    rw [heq]
    split_ifs with hst hst'
    · exact .of_not_live h.mss (by decide : ¬ finWait1.Live)
    · exact .of_not_live h.mss (by decide : ¬ lastAck.Live)
    · exact absurd hcond.2.2 (not_or.2 ⟨hst, hst'⟩)
  next => exact h

omit h in
theorem SameFlow.recvfrom (c : Conn) (len : Nat) : SameFlow c.tcb (tcpSockRecvfrom c len).tcb := by
  obtain ⟨_, _, _, _, _, heq, -⟩ := tcpSockRecvfrom_eq c len
  rw [heq]
  exact ⟨rfl, rfl, rfl, rfl, rfl, id, id, id⟩

omit h in
theorem SameFlow.delackTimeout (c : Conn) : SameFlow c.tcb (tcpDelackTimeout env c).tcb := by
  have h0 : SameFlow c.tcb (c.setTcb { c.tcb with delackTimer := false }).tcb :=
    ⟨rfl, rfl, rfl, rfl, rfl, id, id, id⟩
  unfold tcpDelackTimeout
  dsimp only
  split
  · exact h0.trans (sendAck env _)
  · exact h0

theorem Flow.rexmitTimeout : Flow (tcpRexmitTimeout c).tcb wnd := by
  unfold tcpRexmitTimeout
  dsimp only
  split_ifs
  · exact h.same ⟨rfl, rfl, rfl, rfl, rfl, id, id, id⟩
  · exact h.same ⟨rfl, rfl, rfl, rfl, rfl, id, id, id⟩
  · exact .of_not_live h.mss (by decide : ¬ closed.Live)

end

theorem Flow.step {w w' : Watched} {e : Event} (h : Flow w.conn.tcb w.peerWnd) (hok : Succeeds e)
    (hroom : NoRoom w.conn.tcb e) (hs : watch w e = some w') : Flow w'.conn.tcb w'.peerWnd := by
  rw [watch, map_eq_some_iff] at hs
  obtain ⟨c', hs, rfl⟩ := hs
  cases e with
  | rx env s =>
    simp only [Net.step, ite_none_right_eq_some, map_eq_some_iff] at hs
    obtain ⟨-, r, hr, rfl⟩ := hs
    exact Flow.process (c := { w.conn with tries := 0 }) h hroom hr
  | send env src nonblock =>
    cases hs
    exact Flow.sendto (c := { w.conn with tries := 0 }) h hok src nonblock
  | recv len =>
    cases hs
    exact h.same (.recvfrom { w.conn with tries := 0 } len)
  | shutdown env how =>
    cases hs
    exact Flow.shutdown (c := { w.conn with tries := 0 }) h how
  | rexmitTimeout =>
    obtain ⟨-, ⟨⟩⟩ := ite_none_right_eq_some.1 hs
    exact Flow.rexmitTimeout h
  | delackTimeout env =>
    obtain ⟨-, ⟨⟩⟩ := ite_none_right_eq_some.1 hs
    exact h.same (.delackTimeout { w.conn with tries := 0 })
  | timewaitTimeout =>
    obtain ⟨-, ⟨⟩⟩ := ite_none_right_eq_some.1 hs
    exact .of_not_live h.mss (by decide : ¬ closed.Live)

end Step

/-- A connection whose SYN or SYN+ACK has been handed to `tcp_send_segment`. -/
inductive Begun : Conn → Prop
  | connect (env : Nat → TxOutcome) (t : Tcb) (ht : FreshTcb t) : Begun (tcpConnect env t)
  | accept (env : Nat → TxOutcome) (t : Tcb) (s : Segment) (c : Conn) (ht : FreshTcb t)
      (hc : tcpHandleSyn env t s = some c) : Begun c

theorem Begun.flow {c : Conn} (h : Begun c) : Flow c.tcb c.tcb.sndWnd := by
  cases h with
  | connect env t ht =>
    obtain ⟨isn, _, _, _, _, _, rfl⟩ := ht
    have hused := RingBuf.used_empty TCP_TX_BUFSZ (fun _ => (0 : Byte)) (by decide)
    unfold tcpConnect
    dsimp only
    rcases tcpSendSegment_cases env { tcb := _ } { syn := true } [] (by decide) with ⟨_, _, heq⟩ | ⟨_, _, _, heq, -⟩
    · rw [heq]
      exact ⟨mss_default, fun _ => hused, fun _ => .inl rfl, fun _ => Nat.le_refl _, fun _ => .inl hused⟩
    · rw [heq]
      exact ⟨mss_default, fun _ => hused, fun _ => .inr rfl, fun _ => Nat.le_refl _, fun _ => .inl hused⟩
  | accept env t s c ht hc =>
    obtain ⟨isn, _, _, _, _, _, rfl⟩ := ht
    obtain ⟨⟨mss, acc⟩, hopt, hc⟩ := bind_eq_some_iff.1 hc
    cases hc
    have hused := RingBuf.used_empty TCP_TX_BUFSZ (fun _ => (0 : Byte)) (by decide)
    obtain ⟨_, _, _, _, heq, -⟩ := tcpSendSegment_eq env { tcb := _, acc := acc } { syn := true, ack := true } []
    rw [heq]
    refine ⟨parseMss_ge hopt mss_default, fun _ => hused, fun ha => ?_, fun _ => Nat.le_refl _, fun _ => .inl hused⟩
    cases ha

/-- Along a run in which the transmissions of the application's calls succeed and no segment makes room, sendable data
never waits. -/
theorem never_stranded {c0 : Conn} {w : Watched} {es : List Event} (h0 : Begun c0)
    (hrun : Run watch (fun w e => Succeeds e ∧ NoRoom w.conn.tcb e) ⟨c0, c0.tcb.sndWnd⟩ es w) : w.Flowing := by
  have h := hrun.inv (I := fun w => Flow w.conn.tcb w.peerWnd) (fun _ _ _ h hC hs => h.step hC.1 hC.2 hs) h0.flow
  intro hc
  exact (h.full hc).imp_right fun hfull => Nat.le_trans (h.wnd (.inl hc)) hfull

theorem begun_openedConn : Begun openedConn := .connect _ _ ⟨0, 0, 0, 0, 0, none, rfl⟩

def openAck (wnd : Nat) : Segment := { synAck with window := wnd }

def dataAck (n wnd : Nat) : Segment :=
  { seq := 1, ack := 1 + BitVec.ofNat 32 n, flags := { ack := true }, window := wnd }

/-- Two bytes, sent and acknowledged. -/
theorem never_stranded_echo :
    ∃ w, Run watch (fun w e => Succeeds e ∧ NoRoom w.conn.tcb e) ⟨openedConn, openedConn.tcb.sndWnd⟩
        [.rx (fun _ => .ok) (openAck 100), .send (fun _ => .ok) [1, 2] true, .rx (fun _ => .ok) (dataAck 2 100)] w ∧
      w.conn.tcb.CanSend ∧ w.Flowing := by
  have hrun : Run watch (fun w e => Succeeds e ∧ NoRoom w.conn.tcb e) ⟨openedConn, openedConn.tcb.sndWnd⟩
      [.rx (fun _ => .ok) (openAck 100), .send (fun _ => .ok) [1, 2] true, .rx (fun _ => .ok) (dataAck 2 100)] _ :=
    .cons ⟨trivial, by decide⟩ rfl (.cons ⟨fun _ => ⟨rfl, rfl⟩, by decide⟩ rfl
      (.cons ⟨trivial, by decide⟩ rfl (.nil _)))
  exact ⟨_, hrun, by decide, never_stranded begun_openedConn hrun⟩

/-- The peer opens with a window of one byte, then acknowledges that byte with a window of 65535: nobody sends the
second byte. -/
theorem stranded : ¬ ∀ (c0 : Conn) (w : Watched) (es : List Event), Begun c0 →
    Run watch (fun _ e => Succeeds e) ⟨c0, c0.tcb.sndWnd⟩ es w → w.Flowing := by
  intro hall
  obtain ⟨w, hrun, hw⟩ : ∃ w, Run watch (fun _ e => Succeeds e) ⟨openedConn, openedConn.tcb.sndWnd⟩
      [.rx (fun _ => .ok) (openAck 1), .send (fun _ => .ok) [1, 2] true, .rx (fun _ => .ok) (dataAck 1 65535)] w ∧
      w.conn.tcb.CanSend ∧ w.conn.tcb.tx.used = 1 ∧ w.peerWnd = 65535 ∧ inFlight w.conn.tcb = 0 :=
    ⟨_, .cons trivial rfl (.cons (fun _ => ⟨rfl, rfl⟩) rfl (.cons trivial rfl (.nil _))), by decide⟩
  obtain ⟨hc, hused, hwnd, hfl⟩ := hw
  rcases hall _ w _ begun_openedConn hrun hc with h | h <;> omega

end ExoOS.Net
