import ExoOS.Net.TcpStack

/-!
# Resets

`tcp_rx` closes a connection on every RST that is delivered to it: the reset is handled before the state is looked at,
and its sequence number is not compared with the receive window.
-/

namespace ExoOS.Net

open Transition

def Tcb.InWindow (t : Tcb) (seq : Seq) : Prop := (seq - t.rcvNxt).toNat < t.rcvWnd

instance (t : Tcb) (seq : Seq) : Decidable (t.InWindow seq) := inferInstanceAs (Decidable (_ < _))

/-- A RST from somebody who does not see the connection: outside the window or, before the handshake, without an
acknowledgement of the SYN. -/
def Tcb.BlindReset (t : Tcb) (s : Segment) : Prop :=
  t.active = true ∧ s.flags.rst = true ∧
    match t.state with
    | .established | .finWait1 | .finWait2 | .closeWait | .closing | .lastAck => ¬ t.InWindow s.seq
    | .synSent => ¬ (s.flags.ack = true ∧ s.ack = t.iss + 1)
    | .closed | .listen | .synReceived | .timeWait => False

/-- State, error and sequence variables are the same. -/
structure Tcb.Unharmed (t t' : Tcb) : Prop where
  state : t'.state = t.state
  soError : t'.soError = t.soError
  sndUna : t'.sndUna = t.sndUna
  sndNxt : t'.sndNxt = t.sndNxt
  sndWnd : t'.sndWnd = t.sndWnd
  iss : t'.iss = t.iss
  rcvNxt : t'.rcvNxt = t.rcvNxt
  rcvWnd : t'.rcvWnd = t.rcvWnd
  irs : t'.irs = t.irs

instance (t : Tcb) (s : Segment) : Decidable (t.BlindReset s) :=
  haveI : Decidable (match t.state with
    | .established | .finWait1 | .finWait2 | .closeWait | .closing | .lastAck => ¬ t.InWindow s.seq
    | .synSent => ¬ (s.flags.ack = true ∧ s.ack = t.iss + 1)
    | .closed | .listen | .synReceived | .timeWait => False) := by
    cases t.state <;> infer_instance
  inferInstanceAs (Decidable (_ ∧ _ ∧ _))

theorem Tcb.Unharmed.refl (t : Tcb) : t.Unharmed t := ⟨rfl, rfl, rfl, rfl, rfl, rfl, rfl, rfl, rfl⟩

variable {s s' : Stack} {env : Nat → TxOutcome} {bufs : Bool} {devIp : Ip} {p : Packet} {h : Header} {i j l : Nat}

namespace Stack

theorem slots_setSlot_of_ne {c : Conn} (hij : i ≠ j) : (s.setSlot j c).slots i = s.slots i :=
  Function.update_of_ne hij ..

theorem unusedSlot_ne (hi : (s.slots i).tcb.active) (hj : s.unusedSlot = some j) : i ≠ j := by
  rintro rfl
  have hu := List.find?_some hj
  dsimp only at hu
  rw [hi] at hu
  cases hu

theorem tcpTcbAlloc_slot (bufs : Bool) (hi : (s.slots i).tcb.active) :
    (s.tcpTcbAlloc bufs).1.slots i = s.slots i ∧ ∀ j t, (s.tcpTcbAlloc bufs).2 = some (j, t) → i ≠ j := by
  unfold tcpTcbAlloc
  split
  · exact ⟨rfl, fun j t hj => by cases hj⟩
  rename_i k hk
  have hik := unusedSlot_ne hi hk
  split
  · exact ⟨rfl, fun j t hj => by cases hj; exact hik⟩
  · exact ⟨slots_setSlot_of_ne hik, fun j t hj => by cases hj⟩

theorem tcpHandleSyn_slot (hi : (s.slots i).tcb.active) (srcIp : Ip) :
    ∃ s', s.tcpHandleSyn env bufs devIp l srcIp h = some s' ∧ s'.slots i = s.slots i := by
  obtain ⟨hsame, hne⟩ := tcpTcbAlloc_slot bufs hi
  unfold tcpHandleSyn
  generalize s.tcpTcbAlloc bufs = r at hsame hne
  obtain ⟨s1, _ | ⟨j, t⟩⟩ := r
  · exact ⟨s1, rfl, hsame⟩
  · obtain ⟨⟨mss, acc⟩, hr⟩ : ∃ r, mssOption h.seg.opts t.sndMss = some r :=
      parseMss_isSome (Nat.zero_le _) (Nat.lt_succ_self _)
    unfold Net.tcpHandleSyn
    dsimp only
    rw [hr]
    exact ⟨_, rfl, (slots_setSlot_of_ne (hne j t rfl)).trans hsame⟩

theorem tcpRst_slots (seg : Segment) : (s.tcpRst env seg).slots = s.slots := by
  unfold tcpRst
  split
  · rfl
  · split <;> rfl

theorem tcpProcess_rst {c : Conn} {seg : Segment} (hr : seg.flags.rst) :
    tcpProcess env c seg = some (c.setTcb { c.tcb with soError := -ECONNRESET, state := .closed }, false) :=
  if_pos hr

theorem tcpRx_other (env : Nat → TxOutcome) (bufs : Bool) (hp : tcpParse p = some h) (hr : h.seg.flags.rst)
    (hi : (s.slots i).tcb.active) (hl : s.tcpTcbLookup devIp h.dstPort p.srcIp h.srcPort ≠ some i) :
    ∃ s', s.tcpRx env bufs devIp p = some s' ∧ s'.slots i = s.slots i := by
  unfold tcpRx
  rw [hp]
  dsimp only
  split
  · rename_i j hj
    rw [tcpProcess_rst hr]
    refine ⟨_, rfl, slots_setSlot_of_ne ?_⟩
    rintro rfl
    exact hl hj
  · split
    · split
      · exact tcpHandleSyn_slot hi _
      · exact ⟨_, rfl, congrFun (tcpRst_slots _) i⟩
    · exact ⟨_, rfl, congrFun (tcpRst_slots _) i⟩

theorem tcpRx_rst (env : Nat → TxOutcome) (bufs : Bool) (hp : tcpParse p = some h) (hr : h.seg.flags.rst)
    (hl : s.tcpTcbLookup devIp h.dstPort p.srcIp h.srcPort = some i) :
    ∃ s', s.tcpRx env bufs devIp p = some s' ∧ (s'.slots i).tcb.state = .closed := by
  unfold tcpRx
  rw [hp]
  dsimp only
  rw [hl]
  dsimp only
  rw [tcpProcess_rst hr]
  refine ⟨_, rfl, ?_⟩
  show (Function.update s.slots i _ i).tcb.state = .closed
  rw [Function.update_self]
  rfl

end Stack

theorem Tcb.BlindReset.state_ne {t : Tcb} {seg : Segment} (hb : t.BlindReset seg) : t.state ≠ .closed := by
  intro hc
  have := hb.2.2
  rw [hc] at this
  exact this

/-- A blind reset leaves a connection as it was exactly if it is delivered to another one, or to none. -/
theorem blind_reset_iff (env : Nat → TxOutcome) (bufs : Bool) (hp : tcpParse p = some h)
    (hb : (s.slots i).tcb.BlindReset h.seg) :
    (∃ s', s.tcpRx env bufs devIp p = some s' ∧ (s.slots i).tcb.Unharmed (s'.slots i).tcb) ↔
      s.tcpTcbLookup devIp h.dstPort p.srcIp h.srcPort ≠ some i := by
  constructor
  · rintro ⟨s', hs, hu⟩ hl
    obtain ⟨s1, hs1, hclosed⟩ := Stack.tcpRx_rst env bufs hp hb.2.1 hl
    cases hs.symm.trans hs1
    exact hb.state_ne (hu.state.symm.trans hclosed)
  · intro hl
    obtain ⟨s', hs, hsame⟩ := Stack.tcpRx_other env bufs hp hb.2.1 hb.1 hl
    exact ⟨s', hs, hsame ▸ .refl _⟩

def connectedTo80 : List StackEvent :=
  [.connect (fun _ => .ok) true (some 0x0A000001) 0x0A000002 80 40000,
    .rx (fun _ => .ok) true 0x0A000001
      { srcIp := 0x0A000002, dstIp := 0x0A000001
        bytes := [0, 80, 156, 64, 0, 0, 3, 232, 18, 52, 86, 121, 80, 18, 255, 255, 163, 153, 0, 0] }]

def rstFrom80 : Packet :=
  { srcIp := 0x0A000002, dstIp := 0x0A000001
    bytes := [0, 80, 156, 64, 0, 0, 0, 0, 0, 0, 0, 0, 80, 4, 0, 0, 16, 61, 0, 0] }

def rstFrom81 : Packet :=
  { srcIp := 0x0A000002, dstIp := 0x0A000001
    bytes := [0, 81, 156, 64, 0, 0, 0, 0, 0, 0, 0, 0, 80, 4, 0, 0, 16, 60, 0, 0] }

theorem connectedTo80_blind : (exec stackStep Stack.init connectedTo80).any (fun s =>
      decide ((s.slots 0).tcb.state = .established) &&
      (tcpParse rstFrom80).any (fun h => decide ((s.slots 0).tcb.BlindReset h.seg) &&
        decide (s.tcpTcbLookup 0x0A000001 h.dstPort rstFrom80.srcIp h.srcPort = some 0)) &&
      (tcpParse rstFrom81).any (fun h => decide ((s.slots 0).tcb.BlindReset h.seg) &&
        decide (s.tcpTcbLookup 0x0A000001 h.dstPort rstFrom81.srcIp h.srcPort ≠ some 0))) := by
  decide +kernel

/-- The RST from port 81 does nothing to the connection. -/
theorem blind_reset_other :
    ∃ s s' : Stack, exec stackStep Stack.init connectedTo80 = some s ∧ (s.slots 0).tcb.state = .established ∧
      s.tcpRx (fun _ => .ok) true 0x0A000001 rstFrom81 = some s' ∧ (s.slots 0).tcb.Unharmed (s'.slots 0).tcb := by
  obtain ⟨s, hs, h⟩ := (Option.any_eq_true ..).1 connectedTo80_blind
  simp only [Bool.and_eq_true, decide_eq_true_eq] at h
  obtain ⟨hd, hp, hb⟩ := (Option.any_eq_true ..).1 h.2
  simp only [Bool.and_eq_true, decide_eq_true_eq] at hb
  obtain ⟨s', hrx, hu⟩ := (blind_reset_iff (fun _ => .ok) true hp hb.1).2 hb.2
  exact ⟨s, s', hs, h.1.1, hrx, hu⟩

/-- The RST from port 80 closes it. -/
theorem blind_reset_closes :
    ∃ s s' : Stack, ∃ hd : Header, Run stackStep Any Stack.init connectedTo80 s ∧
      (s.slots 0).tcb.state = .established ∧ tcpParse rstFrom80 = some hd ∧ (s.slots 0).tcb.BlindReset hd.seg ∧
      s.tcpRx (fun _ => .ok) true 0x0A000001 rstFrom80 = some s' ∧ (s'.slots 0).tcb.state = .closed := by
  obtain ⟨s, hs, h⟩ := (Option.any_eq_true ..).1 connectedTo80_blind
  simp only [Bool.and_eq_true, decide_eq_true_eq] at h
  obtain ⟨hd, hp, hb⟩ := (Option.any_eq_true ..).1 h.1.2
  simp only [Bool.and_eq_true, decide_eq_true_eq] at hb
  obtain ⟨s', hrx, hclosed⟩ := Stack.tcpRx_rst (fun _ => .ok) true hp hb.1.2.1 hb.2
  exact ⟨s, s', hd, exec_iff.1 hs, h.1.1, hp, hb.1, hrx, hclosed⟩

end ExoOS.Net
