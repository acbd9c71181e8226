import ExoOS.Net.Skbuff

/-!
# Packet buffers are freed once, with three exceptions

Every function of the stack gives up the buffers it allocates and the one it is handed, once each, except that
`udp_tx`, `icmp_send_echo` and the echo reply of `icmp_rx` keep theirs.
-/

namespace ExoOS.Net

open Ledger List

namespace Skbs

/-- The buffers of `owned`, and those allocated on the way, are given up once. -/
def Settles (owned : List Nat) (s s' : Skbs) : Prop := Ledger.Settles SkbEvent.skb owned s.ledger s'.ledger

theorem Settles.alloc {s s' : Skbs} {owned : List Nat} {asked : Nat}
    (h : Settles (s.ledger.next :: owned) { ledger := s.ledger.issue, asked := asked } s') : Settles owned s s' :=
  Ledger.Settles.issue h

theorem Settles.andThen {s s' s'' : Skbs} {owned owned' : List Nat} (h : Settles owned s s')
    (h' : Settles owned' s' s'') : Settles (owned ++ owned') s s'' := Ledger.Settles.trans h h'

section Send

variable (env : Nat → Bool) (s : Skbs)

theorem skbAlloc_cases :
    (env s.asked = false ∧ s.skbAlloc env = (none, { s with asked := s.asked + 1 })) ∨ env s.asked ∧
        s.skbAlloc env = (some s.ledger.next, { ledger := s.ledger.issue, asked := s.asked + 1 }) := by
  unfold skbAlloc ask
  cases env s.asked with
  | false => exact .inl ⟨rfl, rfl⟩
  | true => exact .inr ⟨rfl, rfl⟩

theorem ethTx_settles : Settles [] s (s.ethTx env).2 := .refl _

theorem skbFree_settles (skb : Nat) : Settles [skb] s (s.skbFree skb) :=
  Ledger.Settles.give SkbEvent.skb s.ledger (.free skb)

theorem skbQueuePush_settles (sk skb : Nat) : Settles [skb] s (s.skbQueuePush sk skb) :=
  Ledger.Settles.give SkbEvent.skb s.ledger (.queue sk skb)

theorem arpSend_settles : Settles [] s (s.arpSend env).2 := by
  unfold arpSend
  rcases s.skbAlloc_cases env with ⟨-, heq⟩ | ⟨-, heq⟩ <;> rw [heq]
  · exact .refl _
  · exact .alloc (skbFree_settles _ _)

theorem arpResolve_settles (ip : Ip) : Settles [] s (s.arpResolve env ip).2 := by
  unfold arpResolve ask
  split
  · exact .refl _
  · cases env s.asked with
    | true => exact .refl _
    | false => exact arpSend_settles env { s with asked := s.asked + 1 }

theorem arpRetry_settles (ip : Ip) (tries : Nat) : Settles [] s (s.arpRetry env ip tries).2 := by
  induction tries generalizing s with
  | zero => exact .refl _
  | succ tries ih =>
    have h := s.arpResolve_settles env ip
    unfold arpRetry
    split
    · rename_i heq
      rwa [heq] at h
    · rename_i heq
      rw [heq] at h
      exact h.andThen (ih _)

theorem ipTx_settles (dev : NetDev) (dstIp : Ip) : Settles [] s (s.ipTx env dev dstIp).2 := by
  unfold ipTx
  dsimp only
  split
  · exact s.ethTx_settles env
  generalize (if dstIp &&& dev.netmask = dev.ipAddr &&& dev.netmask then dstIp else dev.gateway) = nextHop
  have h := s.arpRetry_settles env nextHop 3
  split
  · rename_i heq
    rw [heq] at h
    exact h.andThen (ethTx_settles env _)
  · rename_i heq
    rwa [heq] at h

theorem tcpSend_settles (dev : NetDev) (dstIp : Ip) : Settles [] s (s.tcpSend env dev dstIp).2 := by
  unfold tcpSend
  rcases s.skbAlloc_cases env with ⟨-, heq⟩ | ⟨-, heq⟩ <;> rw [heq]
  · exact .refl _
  · exact .alloc ((ipTx_settles env _ dev dstIp).andThen (skbFree_settles _ _))

theorem tcpSends_settles (devs : List NetDev) (dstIp : Ip) :
    Settles [] s (devs.foldl (fun s d => (s.tcpSend env d dstIp).2) s) := by
  induction devs generalizing s with
  | nil => exact .refl _
  | cons dev devs ih => exact (s.tcpSend_settles env dev dstIp).andThen (ih _)

end Send

variable {tx : Nat → TxOutcome} {bufs : Bool} {p : IpPacket}

section Receive

variable (env : Nat → Bool) (s : Skbs) (tb : Tables) (dev : NetDev)

theorem socketDeliverIcmpRx_settles (raws : List Nat) :
    Settles [] s (s.socketDeliverIcmpRx env raws) ∧ (s.socketDeliverIcmpRx env raws).asked = s.asked + raws.length := by
  unfold socketDeliverIcmpRx
  induction raws generalizing s with
  | nil => exact ⟨.refl _, rfl⟩
  | cons sk raws ih =>
    rw [foldl_cons, length_cons]
    rcases s.skbAlloc_cases env with ⟨-, heq⟩ | ⟨-, heq⟩ <;> rw [heq]
    · obtain ⟨h1, h2⟩ := ih { s with asked := s.asked + 1 }
      exact ⟨h1, by rw [h2]; dsimp only; omega⟩
    · obtain ⟨h1, h2⟩ := ih (skbQueuePush { ledger := s.ledger.issue, asked := s.asked + 1 } sk s.ledger.next)
      refine ⟨.alloc ((skbQueuePush_settles _ sk _).andThen h1), ?_⟩
      rw [h2]
      show s.asked + 1 + raws.length = _
      omega

theorem udpRx_settles (p : IpPacket) (skb : Nat) : Settles [skb] s (s.udpRx tb p skb) := by
  unfold udpRx
  repeat' split
  all_goals first | exact skbFree_settles _ _ | exact skbQueuePush_settles _ _ _

theorem tcpRx_settles {skb : Nat} {s' : Skbs}
    (h : s.tcpRx env tb dev tx bufs p skb = some s') : Settles [skb] s s' := by
  obtain ⟨devs, -, rfl⟩ := Option.map_eq_some_iff.1 h
  exact (s.tcpSends_settles env devs p.srcIp).andThen (skbFree_settles _ _)

theorem arpRx_settles (arp : List Byte) (skb : Nat) : Settles [skb] s (s.arpRx env dev arp skb) := by
  unfold arpRx
  split_ifs
  · exact skbFree_settles _ _
  · exact skbFree_settles _ _
  · exact (s.arpSend_settles env).andThen (skbFree_settles _ _)
  · exact skbFree_settles _ _

end Receive

inductive Op
  | udpTx (dev : NetDev) (dstIp : Ip) (data : List Byte)
  | icmpSendEcho (dev : NetDev) (dstIp : Ip)
  /-- `tcp_send_segment`, `tcp_send_ack` or `tcp_send_rst`. -/
  | tcpSend (dev : NetDev) (dstIp : Ip)
  | arpSend
  | ethRx (dev : NetDev) (tx : Nat → TxOutcome) (bufs : Bool) (frame : List Byte) (skb : Nat)

def run (env : Nat → Bool) (tb : Tables) (s : Skbs) : Op → Option Skbs
  | .udpTx dev dstIp data => some (s.udpTx env dev dstIp data).2
  | .icmpSendEcho dev dstIp => some (s.icmpSendEcho env dev dstIp).2
  | .tcpSend dev dstIp => some (s.tcpSend env dev dstIp).2
  | .arpSend => some (s.arpSend env).2
  | .ethRx dev tx bufs frame skb => s.ethRx env tb dev tx bufs frame skb

def Op.received : Op → List Nat
  | .ethRx _ _ _ _ skb => [skb]
  | _ => []

def EchoRequest (dev : NetDev) (frame : List Byte) : Prop :=
  ETH_HLEN ≤ frame.length ∧ be16 frame 12 = ETH_P_IP ∧
    ∃ p msg, Net.ipRx dev (frame.drop ETH_HLEN) = some p ∧ p.protocol = IPPROTO_ICMP ∧ icmpParse p = some msg ∧
      byteAt msg 0 = ICMP_ECHO_REQUEST

/-- No buffer of `udp_tx`, `icmp_send_echo` or an echo reply is allocated. -/
def NoLeak (env : Nat → Bool) (tb : Tables) (s : Skbs) : Op → Prop
  | .udpTx _ _ data => UDP_HDR_SIZE + data.length > 65535 ∨ env s.asked = false
  | .icmpSendEcho .. => env s.asked = false
  | .ethRx dev _ _ frame _ => EchoRequest dev frame → env (s.asked + tb.raws.length) = false
  | _ => True

/-- The buffer handed over and those allocated in the operation are freed or queued once. -/
def Once (op : Op) (s s' : Skbs) : Prop :=
  ∀ skb, skb ∈ op.received ∨ s.ledger.next ≤ skb ∧ skb < s'.ledger.next →
    s'.ledger.given SkbEvent.skb skb = s.ledger.given SkbEvent.skb skb + 1

def Leaks (s s' : Skbs) : Prop :=
  ∃ skb, s.ledger.next ≤ skb ∧ skb < s'.ledger.next ∧
    s'.ledger.given SkbEvent.skb skb = s.ledger.given SkbEvent.skb skb

section Results

variable {env : Nat → Bool} {tb : Tables} {s s' s1 : Skbs} {dev : NetDev} {dstIp : Ip} {op : Op} {skb : Nat}

theorem Leaks.not_once (h : Leaks s s') : ¬ Once op s s' := by
  obtain ⟨skb, h1, h2, hgiven⟩ := h
  intro honce
  have := honce skb (.inr ⟨h1, h2⟩)
  omega

theorem Settles.once (h : Settles op.received s s') (hold : ∀ skb ∈ op.received, skb < s.ledger.next) :
    Once op s s' := by
  have hnd : op.received.Nodup := by cases op <;> simp [Op.received]
  exact fun skb hskb => Ledger.Settles.once h hold hnd hskb

theorem Leaks.alloc {owned : List Nat} {asked : Nat} (h : Settles [] s s1)
    (h' : Settles owned { ledger := s1.ledger.issue, asked := asked } s') (hold : ∀ skb ∈ owned, skb < s1.ledger.next) :
    Leaks s s' := by
  obtain ⟨hlt, hgiven⟩ := Ledger.Settles.leak h' hold
  refine ⟨s1.ledger.next, h.le, hlt, hgiven.trans ?_⟩
  rw [h.given, count_nil, if_neg (by omega), Nat.add_zero]

theorem udpTx_once_iff (data : List Byte) :
    Once (.udpTx dev dstIp data) s (s.udpTx env dev dstIp data).2 ↔ NoLeak env tb s (.udpTx dev dstIp data) := by
  have hold : ∀ skb ∈ (Op.udpTx dev dstIp data).received, skb < s.ledger.next := fun _ h => absurd h not_mem_nil
  unfold udpTx
  split
  next hlong => exact iff_of_true (Settles.once (.refl _) hold) (.inl hlong)
  next hlong =>
    rcases s.skbAlloc_cases env with ⟨hno, heq⟩ | ⟨hyes, heq⟩ <;> rw [heq]
    · exact iff_of_true (Settles.once (.refl _) hold) (.inr hno)
    · refine iff_of_false (Leaks.alloc (.refl _) (ipTx_settles env _ dev dstIp) hold).not_once ?_
      rintro (h | h)
      · exact hlong h
      · rw [hyes] at h
        cases h

theorem icmpSendEcho_once_iff :
    Once (.icmpSendEcho dev dstIp) s (s.icmpSendEcho env dev dstIp).2 ↔ NoLeak env tb s (.icmpSendEcho dev dstIp) := by
  have hold : ∀ skb ∈ (Op.icmpSendEcho dev dstIp).received, skb < s.ledger.next := fun _ h => absurd h not_mem_nil
  unfold icmpSendEcho
  rcases s.skbAlloc_cases env with ⟨hno, heq⟩ | ⟨hyes, heq⟩ <;> rw [heq]
  · exact iff_of_true (Settles.once (.refl _) hold) hno
  · refine iff_of_false (Leaks.alloc (.refl _) (ipTx_settles env _ dev dstIp) hold).not_once fun h => ?_
    exact absurd (hyes.symm.trans h) (by decide)

theorem icmpRx_leaks {msg : List Byte} (hskb : skb < s.ledger.next) (hmsg : icmpParse p = some msg)
    (htype : byteAt msg 0 = ICMP_ECHO_REQUEST) (henv : env (s.asked + tb.raws.length)) :
    Leaks s (s.icmpRx env tb dev p skb) := by
  obtain ⟨hdel, hasked⟩ := s.socketDeliverIcmpRx_settles env tb.raws
  unfold icmpRx
  rw [hmsg]
  dsimp only
  rw [if_pos htype]
  rcases (s.socketDeliverIcmpRx env tb.raws).skbAlloc_cases env with ⟨hno, -⟩ | ⟨-, heq⟩
  · rw [hasked, henv] at hno
    cases hno
  · rw [heq]
    refine Leaks.alloc hdel ((ipTx_settles env _ dev p.srcIp).andThen (skbFree_settles _ skb)) fun skb' hskb' => ?_
    rw [mem_singleton.1 hskb']
    exact Nat.lt_of_lt_of_le hskb hdel.le

theorem icmpRx_settles
    (h : ∀ msg, icmpParse p = some msg → byteAt msg 0 = ICMP_ECHO_REQUEST → env (s.asked + tb.raws.length) = false) :
    Settles [skb] s (s.icmpRx env tb dev p skb) := by
  obtain ⟨hdel, hasked⟩ := s.socketDeliverIcmpRx_settles env tb.raws
  have hfree := hdel.andThen (skbFree_settles (s.socketDeliverIcmpRx env tb.raws) skb)
  unfold icmpRx
  cases hmsg : icmpParse p with
  | none => exact s.skbFree_settles skb
  | some msg =>
    dsimp only
    split
    next htype =>
      rcases (s.socketDeliverIcmpRx env tb.raws).skbAlloc_cases env with ⟨-, heq⟩ | ⟨hyes, -⟩
      · rw [heq]
        exact hfree
      · rw [hasked, h msg hmsg htype] at hyes
        cases hyes
    next => exact hfree

theorem ethRx_settles {frame : List Byte} (hno : EchoRequest dev frame → env (s.asked + tb.raws.length) = false)
    (h : s.ethRx env tb dev tx bufs frame skb = some s') : Settles [skb] s s' := by
  unfold ethRx at h
  split_ifs at h with hlen hip
  · cases h
    exact s.skbFree_settles skb
  · unfold ipRx at h
    cases hp : Net.ipRx dev (frame.drop ETH_HLEN) with
    | none =>
      rw [hp] at h
      cases h
      exact s.skbFree_settles skb
    | some p =>
      rw [hp] at h
      dsimp only at h
      split_ifs at h with hicmp
      · cases h
        exact icmpRx_settles fun msg hmsg htype => hno ⟨not_lt.1 hlen, hip, p, msg, hp, hicmp, hmsg, htype⟩
      · cases h
        exact s.udpRx_settles tb p skb
      · exact s.tcpRx_settles env tb dev h
      · cases h
        exact s.skbFree_settles skb
  · cases h
    exact s.arpRx_settles env dev _ skb
  · cases h
    exact s.skbFree_settles skb

theorem ethRx_leaks {frame : List Byte} (hskb : skb < s.ledger.next)
    (hecho : EchoRequest dev frame) (henv : env (s.asked + tb.raws.length))
    (h : s.ethRx env tb dev tx bufs frame skb = some s') : Leaks s s' := by
  obtain ⟨hlen, hip, p, msg, hp, hicmp, hmsg, htype⟩ := hecho
  rw [ethRx, if_neg (not_lt.2 hlen), if_pos hip, ipRx, hp] at h
  dsimp only at h
  rw [if_pos hicmp] at h
  cases h
  exact icmpRx_leaks hskb hmsg htype henv

theorem skb_once_iff (hold : ∀ skb ∈ op.received, skb < s.ledger.next) (h : s.run env tb op = some s') :
    Once op s s' ↔ NoLeak env tb s op := by
  cases op with
  | udpTx dev dstIp data =>
    cases h
    exact udpTx_once_iff data
  | icmpSendEcho dev dstIp =>
    cases h
    exact icmpSendEcho_once_iff
  | tcpSend dev dstIp =>
    cases h
    exact iff_of_true (Settles.once (s.tcpSend_settles env dev dstIp) hold) trivial
  | arpSend =>
    cases h
    exact iff_of_true (Settles.once (s.arpSend_settles env) hold) trivial
  | ethRx dev tx bufs frame skb =>
    constructor
    · intro honce hecho
      by_contra henv
      have hskb : skb < s.ledger.next := hold skb (mem_singleton_self skb)
      exact (ethRx_leaks hskb hecho (Bool.of_not_eq_false henv) h).not_once honce
    · intro hno
      exact Settles.once (ethRx_settles hno h) hold

end Results

def noTables : Tables := { binds := [], raws := [], tcp := Stack.init, tcbDev := fun _ => sampleDev 0x0100000A }

/-- An echo request in an Ethernet frame. -/
def echoFrame : List Byte := replicate 12 0 ++ [8, 0] ++ Net.icmpSendEcho (sampleDev 0x0200000A) 1 0x0100000A 7 1 [1]

/-- The raw socket 5 gets its copy of the request in buffer 0, and there is no memory for the reply. -/
theorem skb_once_echo :
    run (fun k => k == 0) { noTables with raws := [5] } { ledger := { next := 1, log := [] }, asked := 0 }
      (.ethRx (sampleDev 0x0100000A) (fun _ => .ok) true echoFrame 0) =
        some { ledger := { next := 2, log := [.queue 5 1, .free 0] }, asked := 2 } ∧
    Once (.ethRx (sampleDev 0x0100000A) (fun _ => .ok) true echoFrame 0)
      { ledger := { next := 1, log := [] }, asked := 0 }
      { ledger := { next := 2, log := [.queue 5 1, .free 0] }, asked := 2 } := by
  have hrun : run (fun k => k == 0) { noTables with raws := [5] } { ledger := { next := 1, log := [] }, asked := 0 }
      (.ethRx (sampleDev 0x0100000A) (fun _ => .ok) true echoFrame 0) =
        some { ledger := { next := 2, log := [.queue 5 1, .free 0] }, asked := 2 } := by decide +kernel
  refine ⟨hrun, (skb_once_iff (fun skb hskb => ?_) hrun).2 fun _ => rfl⟩
  rw [mem_singleton.1 hskb]
  decide

/-- A datagram to the broadcast address. -/
theorem skb_leaked : ¬ ∀ (env : Nat → Bool) (tb : Tables) (op : Op) (s s' : Skbs),
    (∀ skb ∈ op.received, skb < s.ledger.next) → s.run env tb op = some s' → Once op s s' := by
  intro hall
  have honce := hall (fun _ => true) noTables (.udpTx (sampleDev 0x0100000A) IP4_BROADCAST [])
    { ledger := { next := 0, log := [] }, asked := 0 } _ (fun _ h => absurd h not_mem_nil) rfl
  exact absurd (honce 0 (.inr ⟨by decide, by decide⟩)) (by decide)

end Skbs

end ExoOS.Net
