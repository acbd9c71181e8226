import ExoOS.Ipc.Blocking

/-!
# No wake-up is lost

`Inv` holds in every state that careful steps reach. Resources change by `Inv.setPipe`, `Inv.setMail` and the lemmas
on the tree of tasks, whose side conditions say that the sleeping tasks have been told.
-/

namespace ExoOS.Blocking

open Function List Transition Wakeups Option

variable {π τ : Type} [DecidableEq π] [DecidableEq τ] [Fintype τ] {ids : Ids τ}

def Op.Waits : Op π τ → Prop
  | .read _ _ _ | .write _ _ _ _ | .recv _ | .wait4 _ _ => True
  | _ => False

/-- Programs of a task that has not ended: it can wait, or the end is still to come. -/
def Op.Lives : Op π τ → Prop
  | .writeOpen _ _ _ | .finish | .die => True
  | .notify _ _ next | .reparent _ next => next.Lives
  | o => o.Waits

/-- Who is going to lose its children does not wait: it is the task itself, or dead. -/
def Op.Fits (life : τ → Life) (t : τ) : Op π τ → Prop
  | .reparent x next => (x = t ∨ life x = .dead) ∧ next.Fits life t
  | .notify _ _ next => next.Fits life t
  | _ => True

def Op.IsNotify : Op π τ → Prop
  | .notify _ _ _ => True
  | _ => False

variable {o : Op π τ}

omit [DecidableEq π] [DecidableEq τ] [Fintype τ] in
theorem Op.Waits.lives (h : o.Waits) : o.Lives := by
  cases o <;> first | exact h | exact h.elim

omit [DecidableEq π] [DecidableEq τ] [Fintype τ] in
theorem Op.Fits.mono {life life' : τ → Life} {t : τ} (hd : ∀ x, life x = .dead → life' x = .dead)
    (h : o.Fits life t) : o.Fits life' t := by
  induction o with
  | reparent x next ih => exact ⟨h.1.imp_right (hd x), ih h.2⟩
  | notify who signal next ih => exact ih h
  | _ => trivial

structure Inv (ids : Ids τ) (s : State π τ) : Prop where
  awake : Awake Chan.IsPipe (s.Holds ids) (s.Called ids) s.room
  waiting : ∀ t, s.room.stage t ≠ .off → (s.op t).Waits
  lives : ∀ t, (s.op t).Lives → s.life t = .alive
  parent : ∀ t, ∀ c ∈ s.children t, s.parent c = some t ∧ s.life c ≠ .unborn
  nodup : ∀ t, (s.children t).Nodup
  fits : ∀ t, (s.op t).Fits s.life t
  unborn : ∀ t, s.life t = .unborn → s.op t = .idle

variable {w : Chan π}

namespace Inv

variable {ids : Ids τ} {s : State π τ} {t : τ}

theorem stage_off (h : Inv ids s) (ht : s.life t ≠ .alive ∨ ¬ (s.op t).Waits) : s.room.stage t = .off :=
  by_contra fun hs => ht.elim (fun hl => hl (h.lives t (Op.Waits.lives (h.waiting t hs)))) fun hw => hw (h.waiting t hs)

theorem alive (h : Inv ids s) (hop : s.op t = o) (ho : o.Lives) : s.life t = .alive := h.lives t (hop ▸ ho)

/-- A task that is not about to wait, and calls nobody. -/
def Free (s : State π τ) (t : τ) : Prop := ¬ (s.op t).IsNotify ∧ s.room.stage t = .off ∧ s.life t ≠ .unborn

theorem free (h : Inv ids s) (hoff : s.room.stage t = .off) (hop : s.op t = o) (hn : ¬ o.IsNotify) (ho : o ≠ .idle) :
    Free s t :=
  ⟨hop ▸ hn, hoff, fun hu => ho (hop.symm.trans (h.unborn t hu))⟩

theorem setRet (h : Inv ids s) (f : τ → Result) : Inv ids { s with ret := f } := { h with }

theorem setSignalled (h : Inv ids s) (u : τ) (b : Bool) : Inv ids (s.setSignalled u b) := { h with }

omit [DecidableEq π] [Fintype τ] in
theorem called_setOp {v : τ} (hn : ∀ who signal next, s.op t = .notify who signal next → s.target ids t who ≠ some v)
    (h : s.Called ids v) : (s.setOp t o).Called ids v := by
  obtain ⟨u, who, signal, next, hu, hv⟩ := h
  have hut : u ≠ t := by
    rintro rfl
    exact hn who signal next hu hv
  exact ⟨u, who, signal, next, (update_of_ne hut ..).trans hu, hv⟩

variable {r : Room τ (Chan π)}

section

variable (h : Inv ids s)
include h

theorem setOpRoom (ha : Awake Chan.IsPipe (s.Holds ids) ((s.setOp t o).Called ids) r)
    (hs : ∀ u, r.stage u ≠ .off → s.room.stage u ≠ .off) (ho : o.Fits s.life t) (hw : r.stage t ≠ .off → o.Waits)
    (hl : o.Lives → s.life t = .alive) (hb : s.life t ≠ .unborn) : Inv ids { s.setOp t o with room := r } := by
  exact ⟨ha, (forall_update_iff s.op fun u o => r.stage u ≠ .off → o.Waits).2 ⟨hw, fun u _ hu => h.waiting u (hs u hu)⟩,
    (forall_update_iff s.op fun u o => o.Lives → s.life u = .alive).2 ⟨hl, fun u _ => h.lives u⟩, h.parent, h.nodup,
    (forall_update_iff s.op fun u o => o.Fits s.life u).2 ⟨ho, fun u _ => h.fits u⟩,
    (forall_update_iff s.op fun u o => s.life u = .unborn → o = .idle).2
      ⟨fun hu => absurd hu hb, fun u _ => h.unborn u⟩⟩

theorem setOp (hn : ¬ (s.op t).IsNotify) (ho : o.Fits s.life t)
    (hw : s.room.stage t ≠ .off → o.Waits) (hl : o.Lives → s.life t = .alive) (hb : s.life t ≠ .unborn) :
    Inv ids (s.setOp t o) :=
  h.setOpRoom (h.awake.mono (fun _ _ _ hc => hc) (fun _ _ _ hc => .inl hc) fun _ _ _ =>
    called_setOp fun _ _ _ hu => absurd (hu ▸ trivial) hn) (fun _ hu => hu) ho hw hl hb

theorem goOn (hf : Free s t) (ho : o.Fits s.life t) (hl : o.Lives → s.life t = .alive) : Inv ids (s.setOp t o) :=
  h.setOp hf.1 ho (fun hs => absurd hf.2.1 hs) hl hf.2.2

theorem done (hf : Free s t) (r : Result) : Inv ids (s.done t r) := (h.goOn (o := .idle) hf trivial False.elim).setRet _

theorem setRoom (ha : Awake Chan.IsPipe (s.Holds ids) (s.Called ids) r)
    (hs : ∀ u, r.stage u ≠ .off → s.room.stage u ≠ .off ∨ (s.op u).Waits) : Inv ids { s with room := r } :=
  { h with awake := ha, waiting := fun u hu => (hs u hu).elim (h.waiting u) id }

theorem setDuty {d : Duty τ (Chan π)} (hoff : s.room.stage t = .off) (hd : s.room.duty t = .none)
    (hd' : d.tasks = []) : Inv ids (s.setDuty t d) :=
  h.setRoom (h.awake.setDuty (by rw [hoff]; rfl) hd hd') fun _ hu => .inl hu

theorem test {st : Stage (Chan π)} (hoff : s.room.stage t = .off) (hc : ¬ s.Holds ids t w)
    (hst : st = .tested w ∧ w.IsPipe ∨ st = .queued w ∧ ¬ w.IsPipe ∧ s.room.duty t = .none) (hw : (s.op t).Waits) :
    Inv ids (s.setStage t st) := by
  refine h.setRoom (h.awake.test hoff hc hst) fun u hu => ?_
  by_cases hut : u = t
  · exact .inr (hut ▸ hw)
  · rw [Room.stage_setStage_of_ne hut] at hu
    exact .inl hu

end

/-! ### Pipes -/

/-- `u` does not stand between its test and its sleep, and if it sleeps, it is going to be woken. -/
structure Told (s : State π τ) (ids : Ids τ) (u : τ) (w : Chan π) : Prop where
  before : ¬ (s.room.stage u = .tested w ∨ s.room.stage u = .queued w)
  asleep : s.room.stage u = .asleep w → s.room.Pending u ∨ s.Called ids u

/-- Conditions become true for tasks that are told. -/
theorem tell {cond : τ → Chan π → Prop} {calls : τ → Prop} (h : Inv ids s)
    (hnew : ∀ u w, cond u w → s.Holds ids u w ∨ Told s ids u w)
    (hcalls : ∀ u w, s.room.stage u = .asleep w → s.Called ids u → calls u) :
    Awake Chan.IsPipe cond calls s.room := by
  refine h.awake.mono (fun u w hu hc => (hnew u w hc).resolve_right fun ht => ht.before hu) (fun u w hu hc => ?_) hcalls
  exact (hnew u w hc).imp_right fun ht => (ht.asleep hu).imp_right (hcalls u w hu)

variable {p : π}

theorem setPipe {P : Pipe} (h : Inv ids s)
    (hr : P.data ≠ [] ∨ P.writers = 0 → ((s.pipes p).data ≠ [] ∨ (s.pipes p).writers = 0) ∨ ∀ u, Told s ids u (.read p))
    (hw : P.data.length < PIPE_BUF_SIZE ∨ P.readers = 0 →
      ((s.pipes p).data.length < PIPE_BUF_SIZE ∨ (s.pipes p).readers = 0) ∨ ∀ u, Told s ids u (.write p)) :
    Inv ids (s.setPipe p P) := by
  refine { h with awake := h.tell (fun u w => ?_) fun _ _ _ hc => hc }
  -- a condition that has become true is one of this pipe
  cases w with
  | read q =>
    exact (forall_update_iff s.pipes fun q P => P.data ≠ [] ∨ P.writers = 0 → s.Holds ids u (.read q) ∨
      Told s ids u (.read q)).2 ⟨fun hc => (hr hc).imp_right fun ht => ht u, fun _ _ hc => .inl hc⟩ q
  | write q =>
    exact (forall_update_iff s.pipes fun q P => P.data.length < PIPE_BUF_SIZE ∨ P.readers = 0 →
      s.Holds ids u (.write q) ∨ Told s ids u (.write q)).2
      ⟨fun hc => (hw hc).imp_right fun ht => ht u, fun _ _ hc => .inl hc⟩ q
  | mail | child pid => exact fun hc => .inl hc

theorem told {d : Duty τ (Chan π)} {u : τ} (h : Inv ids s) (hw : w.IsPipe) (hd : s.room.duty t = .none)
    (hn : s.NoneBetween w) (hq : u ∈ s.room.queue w → (s.room.setDuty t d).Pending u) :
    Told (s.setDuty t d) ids u w := by
  refine ⟨not_or.2 (hn u), fun hu => .inl ?_⟩
  have hu' : s.room.stage u = .asleep w := hu
  exact (h.awake.placed u w (by rw [hu']; rfl) hw).elim hq fun ht => Awake.pending_setDuty hd (.inl ht)

theorem told_one (h : Inv ids s) (hw : w.IsPipe) (hd : s.room.duty t = .none) (hn : s.NoneBetween w)
    (hone : s.OneLeft w) (u : τ) : Told (s.setDuty t (.one w)) ids u w := by
  refine h.told hw hd hn fun hq => .inr (.inr ⟨w, ?_⟩)
  have hones : (s.room.setDuty t (.one w)).ones w = s.room.ones w + 1 := ones_setDuty_one (by
    rw [hd]
    exact fun h' => nomatch h')
  show u ∈ (s.room.queue w).take ((s.room.setDuty t (.one w)).ones w)
  rwa [hones, take_of_length_le hone]

theorem told_all (h : Inv ids s) (hw : w.IsPipe) (hd : s.room.duty t = .none) (hn : s.NoneBetween w) (u : τ) :
    Told (s.setDuty t (.all w)) ids u w :=
  h.told hw hd hn fun hq => .inr (.inl ⟨t, w, Room.duty_setDuty_self, hq⟩)

variable {nonblock : Bool}

theorem afterWrite {total : Nat} {rest : List Byte} (h : Inv ids s)
    (hf : Free s t) (hlife : s.life t = .alive) (hfull : rest ≠ [] → ¬ s.Holds ids t (.write p)) :
    Inv ids (s.afterWrite t p total rest nonblock) := by
  have hgo : Inv ids (s.setOp t (.write p total rest nonblock)) := h.goOn hf trivial fun _ => hlife
  unfold State.afterWrite
  split
  · rename_i hrest
    rwa [hrest] at hgo
  rename_i hrest
  split
  · exact h.done hf _
  · refine hgo.test (w := .write p) hf.2.1 (hfull hrest) (.inl ⟨rfl, trivial⟩) ?_
    rw [show (s.setOp t (.write p total rest nonblock)).op t = _ from update_self ..]
    trivial

variable {s' : State π τ}

section Region

variable (h : Inv ids s) (hoff : s.room.stage t = .off) (hd : s.room.duty t = .none)

include h hoff hd

theorem readStep {count : Nat} (hop : s.op t = .read p count nonblock)
    (hc : s.RegionOk ids t (.read p count nonblock)) : Inv ids (s.readStep t p count nonblock) := by
  have hf := h.free hoff hop id nofun
  unfold State.readStep
  dsimp only
  split
  · rename_i hdata
    obtain ⟨hnone, hone⟩ := hc hdata
    have h1 : Inv ids (s.setDuty t (.one (.write p))) := h.setDuty hoff hd rfl
    refine (h1.setPipe (fun _ => .inl (.inl hdata)) fun _ => ?_).done hf _
    rcases hone with hroom | hone
    · exact .inl (.inl hroom)
    · exact .inr (h.told_one trivial hd hnone hone)
  · rename_i hdata
    split
    · exact h.done hf _
    · rename_i hwriters
      split
      · exact h.done hf _
      · exact h.test (w := .read p) hoff (fun h' => h'.elim hdata hwriters) (.inl ⟨rfl, trivial⟩) (by rw [hop]; trivial)

theorem writeStep {total : Nat} {rest : List Byte}
    (hop : s.op t = .write p total rest nonblock) (hc : s.RegionOk ids t (.write p total rest nonblock)) :
    Inv ids (s.writeStep t p total rest nonblock) := by
  have hf := h.free hoff hop id nofun
  unfold State.writeStep
  dsimp only
  split
  · exact h.done hf _
  split
  · exact h.done hf _
  rename_i hrest hreaders
  obtain ⟨hnone, hone⟩ := hc hrest hreaders
  have h1 : Inv ids (s.setDuty t (.one (.read p))) := h.setDuty hoff hd rfl
  have h2 := h1.setPipe
    (P := { s.pipes p with data := (s.pipes p).data ++ rest.take (PIPE_BUF_SIZE - (s.pipes p).data.length) })
    (fun _ => hone.elim (fun h' => .inl (.inl h')) fun h' => .inr (h.told_one trivial hd hnone h'))
    fun h' => .inl (h'.imp_left fun hlt => by
      rw [length_append] at hlt
      exact (Nat.le_add_right _ _).trans_lt hlt)
  refine h2.afterWrite hf (h.alive hop trivial) fun hleft h' => ?_
  rw [State.Holds, show (State.setPipe _ p _).pipes p = _ from update_self ..] at h'
  refine h'.elim (fun hlt => ?_) hreaders
  rw [Ne, drop_eq_nil_iff, Nat.not_le] at hleft
  rw [length_append, length_take_of_le hleft.le] at hlt
  omega

omit hd in
theorem writeOpenStep {buf : List Byte} (hop : s.op t = .writeOpen p buf nonblock) :
    Inv ids (s.writeOpenStep t p buf nonblock) := by
  have hf := h.free hoff hop id nofun
  unfold State.writeOpenStep
  split
  · exact (h.setSignalled t true).done hf _
  · exact h.goOn hf trivial fun _ => h.alive hop trivial

theorem closeReadStep (hop : s.op t = .closeRead p)
    (hc : s.RegionOk ids t (.closeRead p)) (hs : s.closeReadStep t p = some s') : Inv ids s' := by
  have hf := h.free hoff hop id nofun
  obtain ⟨hne, ⟨⟩⟩ := ite_none_left_eq_some.1 hs
  have h1 : Inv ids (s.setDuty t (.all (.write p))) := h.setDuty hoff hd rfl
  have h2 := h1.setPipe (P := { s.pipes p with readers := (s.pipes p).readers - 1 }) (fun h' => .inl h')
    fun h' => ?_
  · exact h2.done hf _
  rcases h' with hroom | hzero
  · exact .inl (.inl hroom)
  · have hone : (s.pipes p).readers = 1 := by
      dsimp only at hzero
      omega
    exact .inr (h.told_all trivial hd (hc hone))

theorem closeWriteStep (hop : s.op t = .closeWrite p)
    (hc : s.RegionOk ids t (.closeWrite p)) (hs : s.closeWriteStep t p = some s') : Inv ids s' := by
  have hf := h.free hoff hop id nofun
  obtain ⟨hne, ⟨⟩⟩ := ite_none_left_eq_some.1 hs
  have h1 : Inv ids (s.setDuty t (.all (.read p))) := h.setDuty hoff hd rfl
  have h2 := h1.setPipe (P := { s.pipes p with writers := (s.pipes p).writers - 1 }) (fun h' => ?_)
    fun h' => .inl h'
  · exact h2.done hf _
  rcases h' with hdata | hzero
  · exact .inl (.inl hdata)
  · have hone : (s.pipes p).writers = 1 := by
      dsimp only at hzero
      omega
    exact .inr (h.told_all trivial hd (hc hone))

end Region

/-! ### Messages -/

theorem setMail {d : τ} {ms : List IpcMsg} (h : Inv ids s)
    (hd : ms ≠ [] → s.mail d ≠ [] ∨ s.room.stage d ≠ .queued .mail ∧ s.Called ids d) :
    Inv ids (s.setMail d ms) := by
  refine { h with awake := h.tell (fun u w => ?_) fun _ _ _ hc => hc }
  cases w with
  | mail =>
    refine (forall_update_iff s.mail fun u ms => ms ≠ [] → s.mail u ≠ [] ∨ Told s ids u .mail).2
      ⟨fun hc => (hd hc).imp_right fun ht => ⟨?_, fun _ => .inr ht.2⟩, fun _ _ hc => .inl hc⟩ u
    exact not_or.2 ⟨fun hu => h.awake.tested d _ hu, ht.1⟩
  | read p | write p | child pid => exact fun hc => .inl hc

theorem sendStep {dest : τ} {msg : IpcMsg} (h : Inv ids s) (hoff : s.room.stage t = .off)
    (hop : s.op t = .send dest msg) (hc : s.RegionOk ids t (.send dest msg)) : Inv ids (s.sendStep t dest msg) := by
  have hf := h.free hoff hop id nofun
  unfold State.sendStep
  split
  · exact h.done hf _
  · have h1 : Inv ids (s.setOp t (.notify (.task dest) false .idle)) := h.goOn hf trivial False.elim
    refine (h1.setMail fun _ => .inr ⟨hc, ?_⟩).setRet _
    exact ⟨t, .task dest, false, .idle, update_self .., rfl⟩

theorem recvStep {woken : Bool} (h : Inv ids s) (hoff : s.room.stage t = .off) (hd : s.room.duty t = .none)
    (hop : s.op t = .recv woken) : Inv ids (s.recvStep t woken) := by
  have hf := h.free hoff hop id nofun
  unfold State.recvStep
  split
  · exact (h.setSignalled t false).done hf _
  split
  · rename_i m ms hm
    have hmail : Inv ids (s.setMail t ms) := h.setMail fun _ => .inl (by rw [hm]; exact cons_ne_nil m ms)
    exact hmail.done hf _
  · rename_i hm
    refine h.test (w := .mail) hoff (fun h' => h' hm) (.inr ⟨rfl, id, hd⟩) ?_
    rw [hop]
    trivial

/-! ### The tree of tasks -/

/-- Nobody comes back to life, and who has something to do stays alive. -/
structure Ages (s : State π τ) (L : τ → Life) : Prop where
  dead : ∀ u, s.life u = .dead → L u = .dead
  alive : ∀ u, (s.op u).Lives → s.life u = .alive → L u = .alive
  born : ∀ u, L u = .unborn → s.life u = .unborn

omit [DecidableEq π] [Fintype τ] in
theorem ages {c : τ} {l : Life} (hd : s.life c = .dead → l = .dead)
    (ha : (s.op c).Lives → s.life c = .alive → l = .alive) (hb : l ≠ .unborn) : Ages s (update s.life c l) :=
  ⟨(forall_update_iff s.life fun u l => s.life u = .dead → l = .dead).2 ⟨hd, fun _ _ hu => hu⟩,
    (forall_update_iff s.life fun u l => (s.op u).Lives → s.life u = .alive → l = .alive).2 ⟨ha, fun _ _ _ hu => hu⟩,
    (forall_update_iff s.life fun u l => l = .unborn → s.life u = .unborn).2 ⟨fun hu => absurd hu hb, fun _ _ hu => hu⟩⟩

/-- The tree changes: a task that gets a zombie as a child is going to be woken, unless it is about to sleep for
another one. -/
theorem setTree {P : τ → Option τ} {C : τ → List τ} {L : τ → Life} (h : Inv ids s)
    (hold : ∀ u, ∀ c ∈ C u, L c = .zombie → (c ∈ s.children u ∧ s.life c = .zombie) ∨
      s.NotAwaited ids u c ∧ s.Called ids u)
    (hcall : ∀ u v w, s.room.stage v = .asleep w → (s.op u).IsNotify → s.parent u = some v → P u = some v)
    (hparent : ∀ u, ∀ c ∈ C u, P c = some u ∧ L c ≠ .unborn) (hnodup : ∀ u, (C u).Nodup) (hlife : Ages s L) :
    Inv ids { s with parent := P, children := C, life := L } := by
  have hcalled : ∀ v w, s.room.stage v = .asleep w → s.Called ids v →
      State.Called { s with parent := P, children := C, life := L } ids v := by
    rintro v w hv ⟨u, who, signal, next, hu, ht⟩
    refine ⟨u, who, signal, next, hu, ?_⟩
    cases who with
    | parent => exact hcall u v w hv (by rw [hu]; trivial) ht
    | init | task d => exact ht
  refine ⟨h.tell (fun u w hc => ?_) hcalled, h.waiting, fun u hu => hlife.alive u hu (h.lives u hu), hparent, hnodup,
    fun u => Op.Fits.mono hlife.dead (h.fits u), fun u hu => h.unborn u (hlife.born u hu)⟩
  cases w with
  | child pid =>
    obtain ⟨c, hc, hz, hm⟩ := hc
    refine (hold u c hc hz).imp (fun ho => ⟨c, ho.1, ho.2, hm⟩) fun ho => ⟨?_, fun _ => .inr ho.2⟩
    exact not_or.2 ⟨fun hu => h.awake.tested u _ hu, fun hu => ho.1 pid hu hm⟩
  | read p | write p | mail => exact .inl hc

theorem setLife {l : Life} (h : Inv ids s) (hl : l = .zombie ∨ l = .dead) (hlive : ¬ (s.op t).Lives)
    (halive : s.life t = .alive)
    (hz : l = .zombie → ∀ p, s.parent t = some p → s.NotAwaited ids p t ∧ s.Called ids p) :
    Inv ids (s.setLife t l) := by
  have hself : update s.life t l t = l := update_self ..
  have hother : ∀ {u}, u ≠ t → update s.life t l u = s.life u := fun hu => update_of_ne hu ..
  have hunborn : l ≠ .unborn := by rcases hl with rfl | rfl <;> decide
  refine h.setTree (fun u c hc hzc => ?_) (fun _ _ _ _ _ hp => hp) (fun u c hc => ?_) h.nodup
    (ages (fun hu => ?_) (fun hlu => absurd hlu hlive) hunborn)
  · by_cases hct : c = t
    · subst hct
      rw [hself] at hzc
      exact .inr (hz hzc u (h.parent u c hc).1)
    · exact .inl ⟨hc, hother hct ▸ hzc⟩
  · obtain ⟨hp, hbc⟩ := h.parent u c hc
    refine ⟨hp, ?_⟩
    by_cases hct : c = t
    · rwa [hct, hself]
    · rwa [hother hct]
  · cases halive.symm.trans hu

variable {next : Op π τ}

theorem endStep {alive : Bool} (h : Inv ids s) (hf : Free s t) (hlife : s.life t = .alive)
    (hnext : ¬ next.Lives) (hfits : next.Fits s.life t)
    (hz : alive → ∀ p, s.parent t = some p → s.NotAwaited ids p t)
    (hcall : ∃ signal next', next = .notify .parent signal next') : Inv ids (s.endStep t alive next) := by
  have hself : ∀ o, (s.setOp t o).op t = o := fun o => update_self ..
  unfold State.endStep
  split
  · rename_i ha
    have h1 : Inv ids (s.setOp t next) := h.goOn hf hfits fun hl => absurd hl hnext
    refine h1.setLife (.inl rfl) (by rwa [hself]) hlife fun _ p hp => ⟨hz ha p hp, ?_⟩
    obtain ⟨signal, next', rfl⟩ := hcall
    exact ⟨t, .parent, signal, next', hself _, hp⟩
  · have h1 : Inv ids (s.setOp t .gone) := h.goOn hf trivial False.elim
    exact h1.setLife (.inr rfl) (by rw [hself]; exact id) hlife fun h' => nomatch h'

variable {c : τ}

theorem reap (h : Inv ids s) (hoff : s.room.stage t = .off) (hc : c ∈ s.children t)
    (hz : s.life c = .zombie) : Inv ids { s with
      children := update s.children t ((s.children t).erase c)
      parent := update s.parent c none
      life := update s.life c .dead } := by
  have hsub : ∀ {u d}, d ∈ update s.children t ((s.children t).erase c) u → d ∈ s.children u ∧ d ≠ c := by
    intro u d hd
    by_cases hut : u = t
    · rw [hut, update_self] at hd
      rw [hut]
      exact ⟨mem_of_mem_erase hd, fun he => (h.nodup t).not_mem_erase (he ▸ hd)⟩
    · rw [update_of_ne hut] at hd
      refine ⟨hd, ?_⟩
      rintro rfl
      exact hut (some.inj ((h.parent u d hd).1.symm.trans (h.parent t d hc).1))
  have hlife : ∀ {u}, u ≠ c → update s.life c .dead u = s.life u := fun hu => update_of_ne hu ..
  refine h.setTree (fun u d hd hzd => ?_) (fun u v w hv _ hp => ?_) (fun u d hd => ?_)
    ((forall_update_iff s.children fun _ l => l.Nodup).2 ⟨(h.nodup t).erase c, fun u _ => h.nodup u⟩)
    (ages (fun _ => rfl) (fun _ hu => ?_) (by decide))
  · obtain ⟨hd, hdc⟩ := hsub hd
    exact .inl ⟨hd, hlife hdc ▸ hzd⟩
  · have huc : u ≠ c := by
      rintro rfl
      rw [some.inj (hp.symm.trans (h.parent t u hc).1), hoff] at hv
      cases hv
    rwa [update_of_ne huc]
  · obtain ⟨hd, hdc⟩ := hsub hd
    rw [update_of_ne hdc, hlife hdc]
    exact h.parent u d hd
  · cases hz.symm.trans hu

omit [DecidableEq π] [DecidableEq τ] [Fintype τ] in
theorem zombieOf_some {pid : Int} (h : s.zombieOf ids t pid = some c) : c ∈ s.children t ∧ s.life c = .zombie := by
  have hz := find?_some h
  exact ⟨mem_of_find?_eq_some h, (of_decide_eq_true hz).1⟩

theorem wait4Step {pid : Int} {nohang : Bool} (h : Inv ids s) (hoff : s.room.stage t = .off)
    (hd : s.room.duty t = .none) (hop : s.op t = .wait4 pid nohang) : Inv ids (s.wait4Step ids t pid nohang) := by
  have hf := h.free hoff hop id nofun
  unfold State.wait4Step
  split
  · rename_i c hc
    obtain ⟨hmem, hz⟩ := zombieOf_some hc
    have h1 := h.reap hoff hmem hz
    have hne : t ≠ c := by
      rintro rfl
      cases (h.alive hop trivial).symm.trans hz
    have hbt : update s.life c .dead t ≠ .unborn := by
      rw [update_of_ne hne]
      exact hf.2.2
    have h2 := h1.goOn (o := .reparent c .idle) ⟨hf.1, hoff, hbt⟩ ⟨.inr (update_self ..), trivial⟩ False.elim
    exact h2.setRet _
  · rename_i hnone
    split
    · exact h.done hf _
    split
    · exact h.done hf _
    · refine h.test hoff ?_ (.inr ⟨rfl, id, hd⟩) (by rw [hop]; trivial)
      rintro ⟨c, hc, hz⟩
      exact find?_eq_none.1 hnone c hc (decide_eq_true hz)

/-! ### Wake-ups by name -/

omit [DecidableEq π] [Fintype τ] in
theorem stage_unblock {u v : τ} (h : (r.unblock u).stage v ≠ .off) : r.stage v ≠ .off := by
  unfold Room.unblock at h
  split at h
  · by_cases hvu : v = u
    · rw [hvu, Room.stage_setStage_self] at h
      exact absurd rfl h
    · rwa [Room.stage_setStage_of_ne hvu] at h
  · exact h

section

variable (h : Inv ids s)
include h

theorem schedUnblock {u : τ} (hu : s.OffPipes u) : Inv ids (s.schedUnblock u) :=
  h.setRoom (h.awake.unblock hu fun _ _ hc => hc) fun _ hv => .inl (stage_unblock hv)

theorem signalSend {u : τ} (hu : s.OffPipes u) : Inv ids (s.signalSend u) := (h.setSignalled u true).schedUnblock hu

section

variable (hoff : s.room.stage t = .off)
include hoff

theorem notify {who : Target τ} {signal : Bool} (hop : s.op t = .notify who signal next)
    (ha : Awake Chan.IsPipe (s.Holds ids) ((s.setOp t next).Called ids) r)
    (hs : ∀ u, r.stage u ≠ .off → s.room.stage u ≠ .off) : Inv ids { s.setOp t next with room := r } :=
  h.setOpRoom ha hs (hop ▸ h.fits t : (Op.notify who signal next).Fits s.life t) (fun ht => absurd hoff (hs t ht))
    (fun hl => h.alive hop hl) fun hb => by cases (h.unborn t hb).symm.trans hop

theorem notifyStep {who : Target τ} {signal : Bool}
    (hop : s.op t = .notify who signal next) (hc : s.RegionOk ids t (.notify who signal next)) :
    Inv ids (s.notifyStep ids t who signal next) := by
  have hcalled : ∀ v, s.target ids t who ≠ some v → s.Called ids v → (s.setOp t next).Called ids v := by
    intro v hv
    refine called_setOp fun _ _ _ hu => ?_
    cases hop.symm.trans hu
    exact hv
  unfold State.notifyStep
  split
  · rename_i hnone
    refine h.notify hoff hop (h.awake.mono (fun _ _ _ hc => hc) (fun _ _ _ hc => .inl hc) fun v _ _ => hcalled v ?_)
      fun _ hu => hu
    rw [hnone]
    exact (some_ne_none v).symm
  · rename_i u hu
    have hstep : Inv ids ((s.setOp t next).schedUnblock u) :=
      h.notify hoff hop (h.awake.unblock (hc u hu) fun v hv => hcalled v fun ht => hv (some.inj (ht.symm.trans hu)))
        fun _ hv => stage_unblock hv
    split
    · exact hstep.setSignalled u true
    · exact hstep

omit hoff in
theorem addChild (hc : s.life c = .unborn) : Inv ids { s with
      life := update s.life c .alive
      parent := update s.parent c (some t)
      children := update s.children t (c :: s.children t) } := by
  have hnot : ∀ u, c ∉ s.children u := fun u hu => (h.parent u c hu).2 hc
  have hlife : ∀ {u}, u ≠ c → update s.life c .alive u = s.life u := fun hu => update_of_ne hu ..
  have hself : update s.life c .alive c = .alive := update_self ..
  have hcases : ∀ {u d}, d ∈ update s.children t (c :: s.children t) u → u = t ∧ d = c ∨ d ≠ c ∧ d ∈ s.children u := by
    intro u d hd
    by_cases hut : u = t
    · rw [hut, update_self] at hd
      rcases mem_cons.1 hd with he | hd
      · exact .inl ⟨hut, he⟩
      · exact .inr ⟨fun he => hnot t (he ▸ hd), hut ▸ hd⟩
    · rw [update_of_ne hut] at hd
      exact .inr ⟨fun he => hnot u (he ▸ hd), hd⟩
  refine h.setTree (fun u d hd hz => ?_) (fun u v w _ hn hp => ?_) (fun u d hd => ?_)
    ((forall_update_iff s.children fun _ l => l.Nodup).2 ⟨nodup_cons.2 ⟨hnot t, h.nodup t⟩, fun u _ => h.nodup u⟩)
    (ages (fun hu => ?_) (fun _ _ => rfl) (by decide))
  · rcases hcases hd with ⟨-, rfl⟩ | ⟨hdc, hd⟩
    · cases hself.symm.trans hz
    · exact .inl ⟨hd, hlife hdc ▸ hz⟩
  · have huc : u ≠ c := by
      rintro rfl
      rw [h.unborn u hc] at hn
      exact hn
    rwa [update_of_ne huc]
  · rcases hcases hd with ⟨rfl, rfl⟩ | ⟨hdc, hd⟩
    · rw [update_self, hself]
      exact ⟨rfl, by decide⟩
    · rw [update_of_ne hdc, hlife hdc]
      exact h.parent u d hd
  · cases hc.symm.trans hu

theorem forkStep (hop : s.op t = .fork c)
    (hs : s.forkStep ids t c = some s') : Inv ids s' := by
  have hf := h.free hoff hop id nofun
  obtain ⟨hc, ⟨⟩⟩ := ite_none_right_eq_some.1 hs
  have hct : t ≠ c := by
    rintro rfl
    exact hf.2.2 hc
  have hbt : update s.life c .alive t ≠ .unborn := by
    rw [update_of_ne hct]
    exact hf.2.2
  exact (h.addChild hc).done ⟨hf.1, hoff, hbt⟩ _

omit hoff in
theorem moveChildren {x i : τ} (hxi : x ≠ i) (hx : ∀ w, s.room.stage x ≠ .asleep w)
    (hz : ∀ c ∈ s.children x, s.life c = .zombie → s.NotAwaited ids i c ∧ s.Called ids i) :
    Inv ids (s.moveChildren x i) := by
  have hself : (s.moveChildren x i).children x = [] := update_self ..
  have hinit : (s.moveChildren x i).children i = (s.children x).reverse ++ s.children i :=
    (update_of_ne hxi.symm ..).trans (update_self ..)
  have hother : ∀ {u}, u ≠ x → u ≠ i → (s.moveChildren x i).children u = s.children u := fun hux hui =>
    (update_of_ne hux ..).trans (update_of_ne hui ..)
  have hcases : ∀ {u c}, c ∈ (s.moveChildren x i).children u → u = i ∧ c ∈ s.children x ∨
      c ∉ s.children x ∧ c ∈ s.children u := by
    intro u c hc
    by_cases hux : u = x
    · rw [hux, hself] at hc
      cases hc
    have hnot : c ∈ s.children u → c ∉ s.children x := fun hu hx =>
      hux (some.inj ((h.parent u c hu).1.symm.trans (h.parent x c hx).1))
    by_cases hui : u = i
    · rw [hui, hinit] at hc
      rcases mem_append.1 hc with hc | hc
      · exact .inl ⟨hui, mem_reverse.1 hc⟩
      · exact .inr ⟨hnot (hui ▸ hc), hui ▸ hc⟩
    · rw [hother hux hui] at hc
      exact .inr ⟨hnot hc, hc⟩
  refine h.setTree (fun u c hc hzc => ?_) (fun u v w hv _ hp => ?_) (fun u c hc => ?_) (fun u => ?_)
    ⟨fun _ hu => hu, fun _ _ hu => hu, fun _ hu => hu⟩
  · rcases hcases hc with ⟨rfl, hcx⟩ | ⟨-, hcu⟩
    · exact .inr (hz c hcx hzc)
    · exact .inl ⟨hcu, hzc⟩
  · refine (if_neg fun hu => ?_).trans hp
    rw [some.inj (hp.symm.trans (h.parent x u hu).1)] at hv
    exact hx w hv
  · rcases hcases hc with ⟨rfl, hcx⟩ | ⟨hno, hcu⟩
    · exact ⟨if_pos hcx, (h.parent x c hcx).2⟩
    · exact ⟨(if_neg hno).trans (h.parent u c hcu).1, (h.parent u c hcu).2⟩
  · show ((s.moveChildren x i).children u).Nodup
    by_cases hux : u = x
    · rw [hux, hself]
      exact nodup_nil
    by_cases hui : u = i
    · rw [hui, hinit]
      refine (nodup_reverse.2 (h.nodup x)).append (h.nodup i) fun c hc hci => hxi ?_
      exact some.inj ((h.parent x c (mem_reverse.1 hc)).1.symm.trans (h.parent i c hci).1)
    · rw [hother hux hui]
      exact h.nodup u

theorem reparentStep {x : τ}
    (hop : s.op t = .reparent x next) (hc : s.RegionOk ids t (.reparent x next)) :
    Inv ids (s.reparentStep ids t x next) := by
  have hf := h.free hoff hop id nofun
  have hfits : (Op.reparent x next).Fits s.life t := hop ▸ h.fits t
  have hset : Inv ids (s.setOp t next) := h.goOn hf hfits.2 fun hl => h.alive hop hl
  have hx : ∀ w, s.room.stage x ≠ .asleep w := by
    intro w hw
    rcases hfits.1 with rfl | hdead
    · cases hoff.symm.trans hw
    · cases (h.stage_off (.inl (by rw [hdead]; decide))).symm.trans hw
  unfold State.reparentStep
  split
  · exact hset
  rename_i i hi
  split
  · exact hset
  rename_i hxi
  split
  · have h1 : Inv ids (s.setOp t (.notify .init true (.notify .init false next))) :=
      h.goOn hf hfits.2 fun hl => h.alive hop hl
    refine h1.moveChildren hxi hx fun c hcx hz => ⟨hc i hi c hcx hz, ?_⟩
    exact ⟨t, .init, true, _, update_self .., hi⟩
  · rename_i hno
    exact hset.moveChildren hxi hx fun c hcx hz => absurd ⟨c, hcx, hz⟩ hno

theorem finishStep (hop : s.op t = .finish)
    (hc : s.RegionOk ids t .finish) : Inv ids (s.finishStep ids t) :=
  h.endStep (h.free hoff hop id nofun) (h.alive hop trivial) id trivial (fun _ => hc) ⟨_, _, rfl⟩

theorem dieStep (hop : s.op t = .die)
    (hc : s.RegionOk ids t .die) : Inv ids (s.dieStep t) :=
  h.endStep (h.free hoff hop id nofun) (h.alive hop trivial) id trivial (fun _ => hc) ⟨_, _, rfl⟩

end

end

section

variable (h : Inv ids s)
include h

theorem region (hoff : s.room.stage t = .off) (hd : s.room.duty t = .none)
    (hc : s.RegionOk ids t (s.op t)) (hs : s.region ids t (s.op t) = some s') : Inv ids s' := by
  cases hop : s.op t with rw [hop] at hc hs
  | idle | gone => cases hs
  | read p count nonblock =>
    cases hs
    exact h.readStep hoff hd hop hc
  | writeOpen p buf nonblock =>
    cases hs
    exact h.writeOpenStep hoff hop
  | write p total rest nonblock =>
    cases hs
    exact h.writeStep hoff hd hop hc
  | closeRead p => exact h.closeReadStep hoff hd hop hc hs
  | closeWrite p => exact h.closeWriteStep hoff hd hop hc hs
  | send dest msg =>
    cases hs
    exact h.sendStep hoff hop hc
  | recv woken =>
    cases hs
    exact h.recvStep hoff hd hop
  | wait4 pid nohang =>
    cases hs
    exact h.wait4Step hoff hd hop
  | fork c => exact h.forkStep hoff hop hs
  | notify who signal next =>
    cases hs
    exact h.notifyStep hoff hop hc
  | reparent x next =>
    cases hs
    exact h.reparentStep hoff hop hc
  | finish =>
    cases hs
    exact h.finishStep hoff hop hc
  | die =>
    cases hs
    exact h.dieStep hoff hop hc

theorem move (ha : Awake Chan.IsPipe (s.Holds ids) (s.Called ids) r)
    (hs : ∀ u, u ≠ t → r.stage u = s.room.stage u) (ht : s.room.stage t ≠ .off) : Inv ids { s with room := r } := by
  refine h.setRoom ha fun u hu => .inl ?_
  by_cases hut : u = t
  · exact hut ▸ ht
  · rwa [← hs u hut]

theorem blockStep (hq : s.room.stage t = .queued w) : Inv ids (s.blockStep t w) := by
  have hne : s.room.stage t ≠ .off := fun hoff => by cases hoff.symm.trans hq
  have hwaits := h.waiting t hne
  have halive := h.lives t hwaits.lives
  have hb : s.life t ≠ .unborn := by
    rw [halive]
    decide
  have hn : ¬ (s.op t).IsNotify := by
    cases hop : s.op t with rw [hop] at hwaits
    | notify => exact hwaits.elim
    | _ => exact id
  have hasleep : Inv ids (s.setStage t (.asleep w)) :=
    h.move (h.awake.block hq) (fun _ hu => Room.stage_setStage_of_ne hu) hne
  unfold State.blockStep
  split
  · rename_i hw
    subst hw
    split
    · have hcancel : Inv ids (s.setStage t .off) :=
        h.move (h.awake.cancel (by rw [hq]; rfl) id fun _ _ hc => hc) (fun _ hu => Room.stage_setStage_of_ne hu) hne
      exact (hcancel.setSignalled t false).done ⟨hn, Room.stage_setStage_self, hb⟩ _
    · exact hasleep.setOp hn trivial (fun _ => trivial) (fun _ => halive) hb
  · exact hasleep

omit h [Fintype τ] in
theorem stage_wake {x u : τ} (h : (r.wake x).stage u ≠ .off) : r.stage u ≠ .off := by
  unfold Room.wake at h
  split at h
  · split at h <;> exact h
  · exact h
  · exact h
  · exact stage_unblock h

theorem runTask (hc : Careful ids s (.run t)) (hs : s.runTask ids t = some s') : Inv ids s' := by
  unfold State.runTask at hs
  split at hs
  · rename_i hd
    split at hs
    · rename_i hoff
      exact h.region hoff hd (hc.2 hd hoff) hs
    · rename_i w hw
      cases hs
      refine h.move (h.awake.enqueue hw hd) (fun u hu => Room.stage_setStage_of_ne hu) ?_
      exact fun hoff => by cases hoff.symm.trans hw
    · rename_i w hw
      cases hs
      exact h.blockStep hw
    · cases hs
  · cases hs
    exact h.setRoom (h.awake.wake hc.1) fun u hu => .inl (stage_wake hu)

theorem call (hop : s.op t = .idle) (ht : s.life t = .alive) (c : Call π τ) :
    Inv ids (s.setOp t (c.op t)) := by
  have hoff : s.room.stage t = .off := h.stage_off (.inr (by rw [hop]; exact id))
  refine h.setOp (by rw [hop]; exact id) ?_ (fun hs => absurd hoff hs) (fun _ => ht) (by rw [ht]; decide)
  cases c with
  | exit => exact ⟨.inl rfl, trivial⟩
  | _ => trivial

theorem step {e : Event π τ} (hc : Careful ids s e) (hs : step ids s e = some s') : Inv ids s' := by
  cases e with
  | call t c =>
    unfold Blocking.step at hs
    dsimp only at hs
    split at hs
    · rename_i hop
      obtain ⟨hcall, ⟨⟩⟩ := ite_none_right_eq_some.1 hs
      exact h.call hop hcall.1 c
    · cases hs
  | run t => exact h.runTask hc hs
  | signal u =>
    cases hs
    exact h.signalSend hc
  | wake u =>
    cases hs
    exact h.schedUnblock hc

end

end Inv

theorem Init.inv {s : State π τ} (h : Init s) : Inv ids s := by
  have hchan : ∀ t w, (s.room.stage t).chan ≠ some w := by
    intro t w hw
    rw [h.stage] at hw
    cases hw
  have htasks : ∀ u t, t ∉ (s.room.duty u).tasks := by
    intro u t ht
    rw [h.duty] at ht
    cases ht
  have hqueue : ∀ w t, t ∉ s.room.queue w := by
    intro w t ht
    rw [h.queue] at ht
    cases ht
  have hstage : ∀ {t st}, st ≠ .off → s.room.stage t ≠ st := fun hst ht => hst (ht.symm.trans (h.stage _))
  constructor
  · constructor
    · constructor
      · exact fun w => h.queue w ▸ nodup_nil
      · exact fun w t ht => absurd ht (hqueue w t)
      · exact fun t w hw => absurd hw (hchan t w)
      · exact fun t ⟨u, hu⟩ => absurd hu (htasks u t)
      · exact fun u v t hu => absurd hu (htasks u t)
      · exact fun u => by rw [h.duty]; exact nodup_nil
      · exact fun t w hw => absurd hw (hstage nofun)
      · exact fun t w hw => absurd hw (hchan t w)
    · exact fun t w hw => absurd hw (not_or.2 ⟨hstage nofun, hstage nofun⟩)
    · exact fun t w hw => absurd hw (hstage nofun)
  · exact fun t ht => absurd (h.stage t) ht
  · exact fun t ht => by rw [h.op] at ht; exact ht.elim
  · exact h.parent
  · exact h.nodup
  · exact fun t => by rw [h.op]; trivial
  · exact fun t _ => h.op t

theorem not_pending {r : Room τ (Chan π)} (h : ∀ u, r.duty u = .none) (t : τ) : ¬ r.Pending t := by
  rintro (⟨u, hu⟩ | ⟨u, w, hu, -⟩ | ⟨w, hw⟩)
  · rw [h u] at hu
    cases hu
  · cases (h u).symm.trans hu
  · have hones : r.ones w = 0 := Finset.card_eq_zero.2 (Finset.filter_eq_empty_iff.2 fun u _ hu => by
      cases (h u).symm.trans hu)
    rw [hones] at hw
    cases hw

instance : DecidablePred (Op.IsNotify (π := π) (τ := τ))
  | .notify _ _ _ => isTrue trivial
  | .idle | .read _ _ _ | .writeOpen _ _ _ | .write _ _ _ _ | .closeRead _ | .closeWrite _ | .send _ _ | .recv _
  | .wait4 _ _ | .fork _ | .reparent _ _ | .finish | .die | .gone => isFalse id

/-- A task sleeps on a channel, what it waits for is there, and nobody has anybody to wake. -/
def State.Sleeps (s : State π τ) (ids : Ids τ) (t : τ) (w : Chan π) : Prop :=
  s.room.stage t = .asleep w ∧ s.Holds ids t w ∧ ∀ u, s.room.duty u = .none ∧ ¬ (s.op u).IsNotify

instance (s : State π τ) (ids : Ids τ) (t : τ) (w : Chan π) : Decidable (s.Sleeps ids t w) :=
  inferInstanceAs (Decidable (_ ∧ _))

theorem State.Sleeps.lost {s : State π τ} {t : τ} (h : s.Sleeps ids t w) : ¬ s.NoLostWakeup ids := by
  intro hno
  rcases hno t w h.1 h.2.1 with hp | ⟨u, who, signal, next, hu, -⟩
  · exact not_pending (fun u => (h.2.2 u).1) t hp
  · refine (h.2.2 u).2 ?_
    rw [hu]
    trivial

theorem lost_of_exec {s0 : State π τ} {es : List (Event π τ)} {t : τ}
    (h : (exec (step ids) s0 es).any fun s => s.Sleeps ids t w) :
    ∃ s, Run (step ids) Any s0 es s ∧ s.room.stage t = .asleep w ∧ s.Holds ids t w ∧ ¬ s.NoLostWakeup ids := by
  obtain ⟨s, hs, hlost⟩ := (Option.any_eq_true ..).1 h
  have hlost := of_decide_eq_true hlost
  exact ⟨s, exec_iff.1 hs, hlost.1, hlost.2.1, hlost.lost⟩

def ready (data : List Byte) : State Unit (Fin 3) where
  room := { stage := fun _ => .off, queue := fun _ => [], duty := fun _ => .none }
  op := fun _ => .idle
  ret := fun _ => .none
  pipes := fun _ => { data := data, readers := 1, writers := 1 }
  mail := fun _ => []
  signalled := fun _ => false
  parent := fun t => if t = 1 then some 0 else none
  children := fun t => if t = 0 then [1] else []
  life := fun _ => .alive

def threeIds : Ids (Fin 3) where
  pid := fun t => t.val + 1
  pgid := fun _ => 1
  init := none

theorem ready_init (data : List Byte) : Init (ready data) where
  stage := fun _ => rfl
  queue := fun _ => rfl
  duty := fun _ => rfl
  op := fun _ => rfl
  parent := show ∀ t, ∀ c ∈ (ready []).children t, (ready []).parent c = some t ∧ (ready []).life c ≠ .unborn by decide
  nodup := show ∀ t, ((ready []).children t).Nodup by decide

end ExoOS.Blocking
