import Mathlib.Data.List.GetD
import ExoOS.Net.TcpRecv
import ExoOS.Net.TcpSend

/-!
# Two ends of a connection

The network loses, repeats and reorders segments: the receiver is handed segments of the sender's wire, in any order
and any number of times.
-/

namespace ExoOS.Net

open List Transition

variable {a b c : Conn} {e : Event}

/-- A segment handed to `c` was sent by its peer `a` and has room when it is taken; a read finds the ring there. -/
def FromSender (a c : Conn) : Event → Prop
  | .rx env s => c.tcb.irs = a.tcb.iss ∧ s ∈ a.wire ∧ Fits c (.rx env s)
  | .recv _ => c.tcb.Readable
  | _ => True

theorem SendInv.recvAllowed (h : SendInv a) (hlen : a.accepted.length < 2 ^ 32) (d : Byte) (he : FromSender a c e) :
    RecvAllowed (fun p => a.accepted.getD (p % 2 ^ 32) d) c e := by
  cases e with
  | rx env s =>
    obtain ⟨hirs, hsent, hfits⟩ := he
    refine ⟨fun p hp _ _ => ?_, hfits⟩
    rcases eq_or_ne s.data [] with hd | hd
    · rw [hd]
      rfl
    obtain ⟨q, hq, hpre⟩ := h.ok.wire s hsent hd
    have hpq : p % 2 ^ 32 = q % 2 ^ 32 := seqAt_inj ((hirs ▸ hp.symm).trans hq)
    have hle := hpre.length_le
    rw [length_drop] at hle
    refine ext_getElem (by simp) fun i hi _ => ?_
    have hmod : (p + i) % 2 ^ 32 = q + i := by omega
    rw [hpre.getElem hi, getElem_drop, getElem_map, getElem_range]
    dsimp only
    rw [hmod, getD_eq_getElem _ _ (by omega)]
  | recv len => exact ⟨trivial, he⟩
  | _ => exact ⟨trivial, trivial⟩

/-- What the receiver has taken is what the application gave to the sender, from the first byte on. -/
theorem stream_delivered {a0 b0 : Conn} {es es' : List Event} (ha : Opened a0) (hra : Run step SendAllowed a0 es a)
    (hlen : a.accepted.length < 2 ^ 32) (hb : RecvStart b0) (hrb : Run step (FromSender a) b0 es' b) :
    b.read ++ b.tcb.rx.contents <+: a.accepted := by
  have hsend := hra.inv (fun _ _ _ h hall hs => SendInv.step h hall hs) ha.inv
  have hrecv : ∀ d, RecvInv (fun p => a.accepted.getD (p % 2 ^ 32) d) b := fun d =>
    hrb.inv (fun c e c' h he hs =>
      have hok := hsend.recvAllowed hlen d he
      (RecvStep.step h hok.1 hok.2 hs).inv) hb.inv
  have h0 := (hrecv 0).bytes
  -- a byte behind the last one accepted would be both 0 and 1
  have hn : b.rcvd - b.tcb.finReceived.toNat ≤ a.accepted.length := by
    by_contra hlt
    have h := map_inj_left.1 (h0.symm.trans (hrecv 1).bytes) _ (mem_range.2 (not_le.1 hlt))
    rw [Nat.mod_eq_of_lt hlen] at h
    simp at h
  rw [h0, prefix_iff_eq_take, length_map, length_range]
  refine ext_getElem (by simpa using hn) fun i hi _ => ?_
  rw [length_map, length_range] at hi
  rw [getElem_map, getElem_range, Nat.mod_eq_of_lt (by omega), getD_eq_getElem _ _ (by omega), getElem_take]

theorem stream_delivered_hello : ∃ es a es' b, Run step SendAllowed openedConn es a ∧
    Run step (FromSender a) establishedConn es' b ∧ b.read = [104] ∧ b.read ++ b.tcb.rx.contents <+: a.accepted := by
  obtain ⟨a, hra, hiss, hsent, hlen⟩ : ∃ a, Run step SendAllowed openedConn
      [.rx (fun _ => .ok) synAck, .send (fun _ => .ok) [104, 105] true] a ∧
      0 = a.tcb.iss ∧ builtSegment establishedConn.tcb { ack := true, psh := true } [104, 105] ∈ a.wire ∧
      a.accepted.length < 2 ^ 32 :=
    ⟨_, .cons (fun _ m hm => by cases hm) rfl (.cons (fun _ _ => ⟨rfl, fun _ => rfl⟩) rfl (.nil _)), rfl,
      by decide, by decide⟩
  have hrb : Run step (FromSender a) establishedConn [.rx (fun _ => .ok) _, .recv 1] _ :=
    .cons ⟨hiss, hsent, fun _ _ _ => ⟨by decide, nofun⟩⟩ rfl (.cons (.inl rfl) rfl (.nil _))
  exact ⟨_, a, _, _, hra, hrb, rfl, stream_delivered opened_openedConn hra hlen recvStart_establishedConn hrb⟩

end ExoOS.Net
