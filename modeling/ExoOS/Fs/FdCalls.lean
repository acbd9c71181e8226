import ExoOS.Fs.FdInv

/-!
# Open-file accounting

Which system calls keep every reference count right. `Leaks` are the calls that do not: `socket`,
`accept`, `socketpair` and `epoll_create1` keep the creator's reference when they succeed (and the AF_UNIX
ones also when the table is full), and `recvmsg` adds a slot's reference to the one the queue had without
dropping either. A call that empties slots must leave a reference to each fragile file (`Survives`).
`open_file_accounting` says that runs of all other calls keep the accounts, from any state in which they
are right, and `open_file_accounting_violated` is a leaking run.
-/

namespace ExoOS.Fs
open Kernel List Transition Kernel

variable {s s' : Kernel} {t : TaskId} {f g : FileId} {held : Multiset FileId}

/-- The call keeps a reference that no slot and no queue entry stands for. -/
def Leaks (s : Kernel) : Event → Prop
  | .socket _ .unix mem _ => mem 0 ∧ mem 1 ∧ mem 2
  | .socket t .inet mem _ => mem 0 ∧ mem 1 ∧ (fdFree s t 0).isSome
  | .accept t fd ready mem _ =>
    mem 0 ∧ mem 1 ∧
      match socketFromFd s t fd with
      | some (.unixSocket us) =>
        (s.socks us).state = .listening ∧ (s.socks us).acceptQ.head ≠ (s.socks us).acceptQ.tail
      | some .inetSocket => ready ∧ (fdFree s t 0).isSome
      | _ => False
  | .socketpair _ mem _ => mem 0 ∧ mem 1 ∧ mem 2 ∧ mem 3 ∧ (mem 4 ∨ mem 5)
  | .epollCreate1 _ mem => mem 0 ∧ mem 1
  | .recvmsg t fd cap =>
    0 < scmMaxFds cap ∧
      match socketFromFd s t fd with
      | some (.unixSocket us) => (s.socks us).fdQueue.head ≠ (s.socks us).fdQueue.tail
      | _ => False
  | _ => False

def Dropped (s : Kernel) : Event → Nat → Prop
  | .dup2 t oldFd newFd _, i => (i : Int) = newFd ∧ oldFd ≠ newFd ∧ (fdGet s t oldFd).isSome
  | .close _ fd, i => (i : Int) = fd
  | .execve t _ _, i =>
    (s.tasks t).fdFlags i ∨ i ≤ 2 ∧ ∃ j ≤ 2, s.slot t j = none ∨ (s.tasks t).fdFlags j
  | .destroy _, _ => True
  | _, _ => False

/-- A queue entry, or a slot outside `D` of task `t`, points to `f`. -/
def Pinned (s : Kernel) (t : TaskId) (D : Nat → Prop) (f : FileId) : Prop :=
  (∃ t' < s.ntasks, ∃ i < FD_TABLE_SIZE, s.slot t' i = some f ∧ ¬ (t' = t ∧ D i)) ∨
    ∃ us < s.nsocks, f ∈ (s.socks us).fdQueue.contents

/-- Emptying the slots `D` of task `t` leaves a reference to every fragile file. -/
def Survives (s : Kernel) (t : TaskId) (D : Nat → Prop) : Prop :=
  ∀ f, Fragile s f → (∃ i < FD_TABLE_SIZE, D i ∧ s.slot t i = some f) → Pinned s t D f

def Careful (s : Kernel) (e : Event) : Prop := ¬ Leaks s e ∧ Survives s e.task (Dropped s e)

/-! ### Emptying slots -/

variable {D : Nat → Prop}

theorem Pinned.frame (h : Pinned s t D f) (hn : s'.ntasks = s.ntasks)
    (hs : ∀ t' i, ¬ (t' = t ∧ D i) → s'.slot t' i = s.slot t' i) (hk : s'.nsocks = s.nsocks)
    (hq : ∀ us, (s'.socks us).fdQueue.contents = (s.socks us).fdQueue.contents) : Pinned s' t D f := by
  rcases h with ⟨t', ht', i, hi, hf, hd⟩ | ⟨us, hus, hf⟩
  · exact .inl ⟨t', hn ▸ ht', i, hi, (hs t' i hd).trans hf, hd⟩
  · exact .inr ⟨us, hk ▸ hus, (hq us).symm ▸ hf⟩

theorem Pinned.mono {D D' : Nat → Prop} (h : Pinned s t D f) (hd : ∀ i, D' i → D i) : Pinned s t D' f := by
  rcases h with ⟨t', ht', i, hi, hf, hn⟩ | h
  · exact .inl ⟨t', ht', i, hi, hf, fun ⟨h1, h2⟩ => hn ⟨h1, hd i h2⟩⟩
  · exact .inr h

theorem Balanced.one_lt_of_pinned (h : Balanced s held) (ht : t < s.ntasks) {i : Nat}
    (hi : i < FD_TABLE_SIZE) (hd : D i) (hs : s.slot t i = some f) (hp : Pinned s t D f) :
    1 < (s.files f).refcount := by
  have h1 := h.clear ht hi hs
  have h2 := h1.refs f
  rw [Multiset.count_cons_self] at h2
  change (s.files f).refcount = _ + s.queueRefs f + _ at h2
  rcases hp with ⟨t', ht', j, hj, hf, hn⟩ | ⟨us, hus, hf⟩
  · have : (s.setSlot t i none).slot t' j = some f := by
      rw [setSlot_slot, if_neg (fun ⟨e1, e2⟩ => hn ⟨e1, e2 ▸ hd⟩), hf]
    have := slotRefs_pos (s := s.setSlot t i none) ht' hj this
    omega
  · have := queueRefs_pos hus hf
    omega

/-- What a loop over slots in `D` keeps, whatever it does to those slots. -/
structure Emptying (s : Kernel) (t : TaskId) (D : Nat → Prop) (s' : Kernel) : Prop where
  bal : Balanced s' 0
  survives : Survives s' t D
  ntasks : s'.ntasks = s.ntasks
  slot : ∀ t' i, ¬ (t' = t ∧ D i) → s'.slot t' i = s.slot t' i
  flags : ∀ i, (s'.tasks t).fdFlags i → (s.tasks t).fdFlags i

theorem Emptying.fdCloseSlot (h : Emptying s t D s') (ht : t < s.ntasks) {i : Nat}
    (hi : i < FD_TABLE_SIZE) (hd : D i) : Emptying s t D (fdCloseSlot s' t i) := by
  rcases hs : s'.slot t i with _ | f
  · rw [Fs.fdCloseSlot, hs]; exact h
  have ht' : t < s'.ntasks := h.ntasks ▸ ht
  obtain ⟨hb, hfr⟩ := h.bal.fdCloseSlot ht' hi hs fun hf =>
    h.bal.one_lt_of_pinned ht' hi hd hs (h.survives f hf ⟨i, hi, hd, hs⟩)
  have hslot : ∀ t' j, (Fs.fdCloseSlot s' t i).slot t' j = if t' = t ∧ j = i then none else s'.slot t' j :=
    fun t' j => (hfr.slot t' j).trans (setSlot_slot ..)
  have hkeep : ∀ t' j, ¬ (t' = t ∧ D j) → (Fs.fdCloseSlot s' t i).slot t' j = s'.slot t' j :=
    fun t' j hn => by rw [hslot, if_neg fun e : _ ∧ j = i => hn ⟨e.1, e.2 ▸ hd⟩]
  refine ⟨hb, fun g hg hex => ?_, hfr.ntasks.trans h.ntasks,
    fun t' j hn => (hkeep t' j hn).trans (h.slot t' j hn), fun j hj => h.flags j ?_⟩
  · obtain ⟨j, hj, hdj, hsj⟩ := hex
    rw [hslot] at hsj
    split at hsj
    · cases hsj
    · exact (h.survives g (hfr.fragile_iff.1 hg) ⟨j, hj, hdj, hsj⟩).frame hfr.ntasks hkeep hfr.nsocks hfr.queue
  · rw [hfr.tasks] at hj
    by_cases hji : j = i
    · subst hji; simp [setSlot, setTask] at hj
    · simpa [setSlot, setTask, hji] using hj

theorem Emptying.refl (h : Balanced s 0) (hsv : Survives s t D) : Emptying s t D s :=
  ⟨h, hsv, rfl, fun _ _ _ => rfl, fun _ h => h⟩

theorem fdCloseCloexec_emptying (h : Balanced s 0) (ht : t < s.ntasks)
    (hD : ∀ i, (s.tasks t).fdFlags i → D i) (hsv : Survives s t D) :
    Emptying s t (fun i => (s.tasks t).fdFlags i) (fdCloseCloexec s t) ∧ Survives (fdCloseCloexec s t) t D := by
  -- the loop empties flagged slots only; both readings of "survives" are carried along
  have hbody : ∀ s', (Emptying s t (fun i => (s.tasks t).fdFlags i) s' ∧ Emptying s t D s') → ∀ i ∈ range FD_TABLE_SIZE,
        (Emptying s t (fun i => (s.tasks t).fdFlags i) (if (s'.tasks t).fdFlags i then fdCloseSlot s' t i else s') ∧
          Emptying s t D (if (s'.tasks t).fdFlags i then fdCloseSlot s' t i else s')) := by
    rintro s' ⟨h1, h2⟩ i hi
    split
    · rename_i hfl
      have hi := mem_range.1 hi
      exact ⟨h1.fdCloseSlot ht hi (h1.flags i hfl), h2.fdCloseSlot ht hi (hD i (h2.flags i hfl))⟩
    · exact ⟨h1, h2⟩
  have hsv' : Survives s t (fun i => (s.tasks t).fdFlags i) := fun f hf ⟨i, hi, hd, hs⟩ =>
    (hsv f hf ⟨i, hi, hD i hd, hs⟩).mono hD
  have := foldlRecOn (motive := fun s' =>
      Emptying s t (fun i => (s.tasks t).fdFlags i) s' ∧ Emptying s t D s') (range FD_TABLE_SIZE) _
    ⟨Emptying.refl h hsv', Emptying.refl h hsv⟩ hbody
  exact ⟨this.1, this.2.survives⟩

theorem fdCloseAll_balanced (h : Balanced s 0) (ht : t < s.ntasks) (hsv : Survives s t fun _ => True) :
    Balanced (fdCloseAll s t) 0 :=
  (foldlRecOn (motive := fun s' => Emptying s t (fun _ => True) s') (range FD_TABLE_SIZE) _
    (Emptying.refl h hsv) fun _ h' _ hi => h'.fdCloseSlot ht (mem_range.1 hi) trivial).bal

/-! ### Standard streams -/

theorem Balanced.stdioFile (h : Balanced s held) (v : Vnode) (inject : Bool) :
    let s1 := if inject then (Fs.fileAlloc s v).2.setFile s.nfiles fun k => { k with fOps := some .tty }
      else (Fs.fileAlloc s v).2
    Balanced s1 (s.nfiles ::ₘ held) ∧ (∀ g, g ≠ s.nfiles → s1.files g = s.files g) ∧
      s1.tasks = s.tasks ∧ s1.ntasks = s.ntasks ∧ s1.socks = s.socks ∧ s1.nsocks = s.nsocks := by
  have ha := h.fileAlloc v
  have hpos := ha.refcount_pos_of_mem (Multiset.mem_cons_self _ _)
  cases inject with
  | false =>
    exact ⟨ha, fun g hg => by simp [Fs.fileAlloc, hg], rfl, rfl, rfl, rfl⟩
  | true =>
    refine ⟨ha.refill _ (fun _ _ => .rfl) (ha.lt_nfiles hpos) rfl (fun _ _ => rfl) (fun _ => ha.live _ hpos) ?_
      (by simp),
      fun g hg => by simp [Fs.fileAlloc, setFile, hg], rfl, rfl, rfl, rfl⟩
    intro h0; dsimp only at h0; omega

theorem setupStdioLoop_balanced {v : Vnode} {inject : Bool} {mem : Nat → Bool} (fds : List Nat)
    (hnd : fds.Nodup) (hlt : ∀ i ∈ fds, i < FD_TABLE_SIZE) (ht : t < s.ntasks) (h : Balanced s 0)
    (hsv : Survives s t (· ∈ fds)) : Balanced (setupStdioLoop t v inject mem s fds) 0 := by
  induction fds generalizing s with
  | nil => exact h
  | cons fd fds ih =>
    obtain ⟨hfd, hnd⟩ := nodup_cons.1 hnd
    have hi := hlt fd mem_cons_self
    unfold setupStdioLoop
    split
    swap
    · exact h
    obtain ⟨h1, hfiles, htasks, hntasks, hsocks, hnsocks⟩ := h.stdioFile v inject
    dsimp only at *
    generalize hs1 : (if inject then (fileAlloc s v).2.setFile s.nfiles fun k => { k with fOps := some .tty }
      else (fileAlloc s v).2) = s1 at *
    rw [show (fileAlloc s v).1 = s.nfiles from rfl, hs1]
    have hslot1 : ∀ t' j, s1.slot t' j = s.slot t' j := fun t' j => by rw [slot, htasks, slot]
    -- nothing points to the new file yet
    have hnew : ∀ {t' j}, t' < s.ntasks → j < FD_TABLE_SIZE → s.slot t' j ≠ some s.nfiles := by
      intro t' j ht' hj hs
      have := h.refcount_pos_of_slot ht' hj hs
      have := h.fresh s.nfiles (le_refl _)
      omega
    have hfrag : ∀ {g}, g ≠ s.nfiles → Fragile s1 g → Fragile s g := by
      intro g hg hf
      simpa only [Fragile, hfiles g hg, hsocks] using hf
    have ht1 : t < s1.ntasks := hntasks ▸ ht
    obtain ⟨h2, f2⟩ := h1.fdInstall ht1 hi (fun old hold hfr => by
        have hne : old ≠ s.nfiles := by rintro rfl; exact hnew ht hi (hslot1 t fd ▸ hold)
        have hp := hsv old (hfrag hne hfr) ⟨fd, hi, mem_cons_self, hslot1 t fd ▸ hold⟩
        exact h1.one_lt_of_pinned ht1 hi mem_cons_self hold
          (hp.frame hntasks (fun t' j _ => hslot1 t' j) hnsocks (fun us => by rw [hsocks])))
      (.inl (Multiset.mem_cons_self _ _))
    have hslot2 : ∀ t' j, (fdInstall s1 t fd s.nfiles).slot t' j =
        if t' = t ∧ j = fd then some s.nfiles else s.slot t' j := fun t' j => by
      rw [f2.slot, setSlot_slot, hslot1]
    -- the creator's reference goes; the slot's stays
    obtain ⟨h3, f3⟩ := h2.filePut fun _ => by
      have hr := h2.refs s.nfiles
      have := slotRefs_pos (f := s.nfiles) (by rw [f2.ntasks]; exact ht1) hi (by rw [hslot2]; simp)
      rw [Multiset.count_cons_self] at hr
      omega
    have hn3 : (filePut (fdInstall s1 t fd s.nfiles) s.nfiles).ntasks = s.ntasks :=
      f3.ntasks.trans (f2.ntasks.trans hntasks)
    have hslot3 : ∀ t' j, (filePut (fdInstall s1 t fd s.nfiles) s.nfiles).slot t' j =
        if t' = t ∧ j = fd then some s.nfiles else s.slot t' j := fun t' j => (f3.slot t' j).trans (hslot2 t' j)
    refine ih hnd (fun i hi => hlt i (mem_cons_of_mem _ hi)) (by rw [hn3]; exact ht) h3 ?_
    rintro g hg ⟨j, hj, hjm, hsj⟩
    have hjne : j ≠ fd := by rintro rfl; exact hfd hjm
    rw [hslot3, if_neg (fun e => hjne e.2)] at hsj
    have hgne : g ≠ s.nfiles := by rintro rfl; exact hnew ht hj hsj
    have hp := hsv g (hfrag hgne (f2.fragile_iff.1 (f3.fragile_iff.1 hg))) ⟨j, hj, mem_cons_of_mem _ hjm, hsj⟩
    have hp' : Pinned (filePut (fdInstall s1 t fd s.nfiles) s.nfiles) t (· ∈ fd :: fds) g := hp.frame hn3
      (fun t' k hn => by
        rw [hslot3, if_neg]
        rintro ⟨e, rfl⟩
        exact hn ⟨e, mem_cons_self⟩)
      (f3.nsocks.trans (f2.nsocks.trans hnsocks))
      (fun us => by
        rw [f3.queue, f2.queue]
        show (s1.socks us).fdQueue.contents = _
        rw [hsocks])
    exact hp'.mono fun i hi => mem_cons_of_mem _ hi

theorem fileGet_frame (s : Kernel) (f : FileId) : PutFrame s (fileGet s f) := .setFile (fun _ => rfl) fun _ => rfl

theorem fdAlloc_fragile (s : Kernel) (t : TaskId) (f g : FileId) : Fragile (fdAlloc s t f).2 g ↔ Fragile s g := by
  rcases fdAlloc_cases s t f with ⟨-, he⟩ | ⟨i, -, -, he⟩
  · rw [he]
  · rw [he]
    exact (fileGet_frame (s.setSlot t i (some f)) f).fragile_iff

theorem fdAlloc_ntasks (s : Kernel) (t : TaskId) (f : FileId) : (fdAlloc s t f).2.ntasks = s.ntasks := by
  rcases fdAlloc_cases s t f with ⟨-, he⟩ | ⟨i, -, -, he⟩ <;> rw [he]; rfl

theorem doOpenAbs_accounted (h : Accounted s) (ht : t < s.ntasks) (v : Option Vnode) (mem cloexec : Bool) :
    Accounted (doOpenAbs s t v mem cloexec) := by
  unfold doOpenAbs
  rcases v with _ | v
  · exact h
  dsimp only
  split
  · have h1 := h.fileAlloc v
    have h2 := h1.fdAlloc (h1.refcount_pos_of_mem (Multiset.mem_cons_self _ _)) ht
    have hf : ¬ Fragile (fdAlloc (fileAlloc s v).2 t s.nfiles).2 s.nfiles := by
      rw [fdAlloc_fragile]; simp [Fragile, fileAlloc]
    have h3 := (h2.filePut fun hfr => absurd hfr hf).1
    split
    · exact h3.setCloexec _ _
    · exact h3
  · exact h

theorem not_fragile_generic {ops : FileOps} (hops : ∀ us, ops ≠ .unixSocket us) :
    ¬ Fragile (fileAllocGeneric s ops).2 s.nfiles := by
  simp [Fragile, fileAllocGeneric, hops]

theorem fileAllocGeneric_fragile {ops : FileOps} (h : Balanced s held) (hf : 0 < (s.files f).refcount) :
    Fragile (fileAllocGeneric s ops).2 f ↔ Fragile s f := by
  have hne : f ≠ s.nfiles := Nat.ne_of_lt (h.lt_nfiles hf)
  simp [Fragile, fileAllocGeneric, hne]

theorem setCloexec_fragile (i : Nat) (b : Bool) : Fragile (s.setCloexec t i b) f ↔ Fragile s f := by
  cases b <;> exact Iff.rfl

theorem Balanced.putBoth (h : Balanced s (f ::ₘ g ::ₘ 0)) (hf : ¬ Fragile s f) (hg : ¬ Fragile s g) :
    Accounted (Fs.filePut (Fs.filePut s f) g) := by
  obtain ⟨h1, f1⟩ := h.filePut fun hfr => absurd hfr hf
  exact (h1.filePut fun hfr => absurd (f1.fragile_iff.1 hfr) hg).1

theorem sysPipe2_accounted (h : Accounted s) (ht : t < s.ntasks) (mem : Nat → Bool) (cloexec : Bool) :
    Accounted (sysPipe2 s t mem cloexec) := by
  unfold sysPipe2
  split
  swap
  · exact h
  dsimp only
  have h1 := h.fileAllocGeneric (o := .pipeRead) (by simp)
  have n1 : ¬ Fragile (fileAllocGeneric s .pipeRead).2 s.nfiles := not_fragile_generic (by simp)
  have p1 := h1.refcount_pos_of_mem (Multiset.mem_cons_self _ _)
  have ht1 : t < (fileAllocGeneric s .pipeRead).2.ntasks := ht
  rw [show (fileAllocGeneric s .pipeRead).1 = s.nfiles from rfl]
  generalize s.nfiles = rf at *
  generalize (fileAllocGeneric s .pipeRead).2 = s1 at *
  split
  swap
  · exact (h1.filePut fun hfr => absurd hfr n1).1
  have h2 := h1.fileAllocGeneric (o := .pipeWrite) (by simp)
  rw [Multiset.cons_swap] at h2
  have n2 : ¬ Fragile (fileAllocGeneric s1 .pipeWrite).2 s1.nfiles := not_fragile_generic (by simp)
  have n2' : ¬ Fragile (fileAllocGeneric s1 .pipeWrite).2 rf := by rwa [fileAllocGeneric_fragile h1 p1]
  have ht2 : t < (fileAllocGeneric s1 .pipeWrite).2.ntasks := ht1
  rw [show (fileAllocGeneric s1 .pipeWrite).1 = s1.nfiles from rfl]
  generalize s1.nfiles = wf at *
  generalize (fileAllocGeneric s1 .pipeWrite).2 = s2 at *
  have h3 := h2.fdAlloc (h2.refcount_pos_of_mem (Multiset.mem_cons_self _ _)) ht2
  have n3 := (not_congr (fdAlloc_fragile s2 t rf wf)).2 n2
  have n3' := (not_congr (fdAlloc_fragile s2 t rf rf)).2 n2'
  have ht3 : t < (fdAlloc s2 t rf).2.ntasks := by rw [fdAlloc_ntasks]; exact ht2
  rcases fdAlloc_cases s2 t rf with ⟨-, he⟩ | ⟨rfd, hrfd, -, he⟩
  · rw [he]
    exact h2.putBoth n2' n2
  have hs3 : (fdAlloc s2 t rf).2.slot t rfd = some rf := by
    rw [he]
    exact (setSlot_slot s2 t rfd (some rf) t rfd).trans (if_pos ⟨rfl, rfl⟩)
  rw [show fdAlloc s2 t rf = (some rfd, (fdAlloc s2 t rf).2) by rw [he]]
  dsimp only
  generalize (fdAlloc s2 t rf).2 = s3 at *
  have h4 := h3.fdAlloc (f := wf) (h3.refcount_pos_of_mem (by simp)) ht3
  rcases fdAlloc_cases s3 t wf with ⟨-, he⟩ | ⟨wfd, -, -, he⟩
  · rw [he]
    obtain ⟨h5, f5⟩ := h3.fdCloseSlot ht3 hrfd hs3 fun hfr => absurd hfr n3'
    exact h5.putBoth (fun hfr => n3' (f5.fragile_iff.1 hfr)) fun hfr => n3 (f5.fragile_iff.1 hfr)
  have n4 := (not_congr (fdAlloc_fragile s3 t wf wf)).2 n3
  have n4' := (not_congr (fdAlloc_fragile s3 t wf rf)).2 n3'
  rw [show fdAlloc s3 t wf = (some wfd, (fdAlloc s3 t wf).2) by rw [he]]
  refine ((h4.setCloexec _ _).setCloexec _ _).putBoth ?_ ?_
  · rwa [setCloexec_fragile, setCloexec_fragile]
  · rwa [setCloexec_fragile, setCloexec_fragile]

theorem Balanced.inetFull (h : Accounted s) (hfull : fdFree s t 0 = none) :
    (Fs.fdAlloc (Fs.fileAllocGeneric s .inetSocket).2 t s.nfiles) = (none, (Fs.fileAllocGeneric s .inetSocket).2) ∧
      Accounted (Fs.filePut (Fs.fileAllocGeneric s .inetSocket).2 s.nfiles) := by
  refine ⟨?_, ((h.fileAllocGeneric (by simp)).filePut fun hfr => absurd hfr (not_fragile_generic (by simp))).1⟩
  unfold Fs.fdAlloc
  rw [show fdFree (Fs.fileAllocGeneric s .inetSocket).2 t 0 = none from hfull]

theorem socketCreate_accounted (h : Accounted s) (d : Domain) (mem : Nat → Bool) (cloexec : Bool)
    (hl : ¬ Leaks s (.socket t d mem cloexec)) : Accounted (socketCreate s t d mem cloexec) := by
  cases d with
  | unix =>
    unfold socketCreate
    dsimp only
    split
    · rename_i hm
      rw [if_neg]
      · exact h.newSock (RingBuf.contents_empty _ _ _) (by simp [UnixSock.zero])
      · intro hm2
        rw [Bool.and_eq_true] at hm
        exact hl ⟨hm.1, hm.2, hm2⟩
    · exact h
  | inet =>
    unfold socketCreate
    dsimp only
    split
    · rename_i hm
      rw [Bool.and_eq_true] at hm
      have hfull : fdFree s t 0 = none := by
        rw [← Option.not_isSome_iff_eq_none]
        exact fun hf => hl ⟨hm.1, hm.2, hf⟩
      obtain ⟨he, hb⟩ := Balanced.inetFull h hfull
      rw [show (fileAllocGeneric s .inetSocket).1 = s.nfiles from rfl, he]
      exact hb
    · exact h
  | unsupported => exact h

theorem sysAccept_accounted (h : Accounted s) (fd : Int) (ready : Bool) (mem : Nat → Bool) (cloexec : Bool)
    (hl : ¬ Leaks s (.accept t fd ready mem cloexec)) :
    Accounted (sysAccept s t fd ready mem cloexec) := by
  unfold sysAccept
  simp only [Leaks, not_and] at hl
  split
  · rename_i us hus
    simp only [hus] at hl
    unfold unixAccept
    dsimp only
    split
    · rename_i hlis
      have h1 : Accounted (s.setSock us fun k => { k with acceptQ := k.acceptQ.advance 1 }) :=
        h.setSock rfl (h.peer_lt us)
      rw [if_neg]
      · exact h1.setSock rfl (h1.peer_lt _)
      · intro hm
        rw [Bool.and_eq_true] at hm
        exact hl hm.1 hm.2 hlis
    · exact h
  · rename_i hus
    simp only [hus] at hl
    unfold tcpSockAccept
    split
    · rename_i hm
      simp only [Bool.and_eq_true] at hm
      have hfull : fdFree s t 0 = none := by
        rw [← Option.not_isSome_iff_eq_none]
        exact fun hf => hl hm.1.2 hm.2 ⟨hm.1.1, hf⟩
      obtain ⟨he, hb⟩ := Balanced.inetFull h hfull
      dsimp only
      rw [show (fileAllocGeneric s .inetSocket).1 = s.nfiles from rfl, he]
      exact hb
    · exact h
  · exact h

theorem Balanced.newSockPair (h : Balanced s held) {a b : UnixSock → UnixSock}
    (hq1 : (a .zero).fdQueue.contents = []) (hq2 : (b .zero).fdQueue.contents = [])
    (hp1 : ∀ p : Nat, (a .zero).peer = some p → p < s.nsocks + 2)
    (hp2 : ∀ p : Nat, (b .zero).peer = some p → p < s.nsocks + 2) :
    Balanced ((s.newSock a).2.newSock b).2 held := by
  refine ⟨fun g => ?_, h.live, h.dead, h.fresh, fun us p hu => ?_, fun g us hg => ?_⟩
  · rw [queueRefs_newSock b hq2, queueRefs_newSock a hq1]
    exact h.refs g
  · by_cases he2 : us = s.nsocks + 1
    · subst he2; exact hp2 p (by simpa [Kernel.newSock] using hu)
    by_cases he1 : us = s.nsocks
    · subst he1; exact hp1 p (by simpa [Kernel.newSock] using hu)
    · have := h.peer_lt us p (by simpa [Kernel.newSock, he1, he2] using hu)
      show p < s.nsocks + 1 + 1
      omega
  · have := h.sock_lt g us hg
    show us < s.nsocks + 1 + 1
    omega

theorem unixSocketpair_accounted (h : Accounted s) (mem : Nat → Bool) (cloexec : Bool)
    (hl : ¬ Leaks s (.socketpair t mem cloexec)) : Accounted (unixSocketpair s t mem cloexec) := by
  unfold unixSocketpair
  simp only [Leaks, not_and, not_or] at hl
  split
  · rename_i hm
    simp only [Bool.and_eq_true] at hm
    obtain ⟨h4, h5⟩ := hl hm.1.1.1 hm.1.1.2 hm.1.2 hm.2
    rw [Bool.not_eq_true] at h4 h5
    rw [h4, h5]
    exact h.newSockPair (a := fun k => { k with state := .connected, peer := some (s.nsocks + 1) })
      (b := fun k => { k with state := .connected, peer := some s.nsocks })
      (RingBuf.contents_empty _ _ _) (RingBuf.contents_empty _ _ _)
      (by rintro p ⟨⟩; omega) (by rintro p ⟨⟩; omega)
  · exact h

theorem socketFromFd_unix {fd : Int} {us : SockId} (h : socketFromFd s t fd = some (.unixSocket us)) :
    ∃ f, (s.files f).fOps = some (.unixSocket us) := by
  unfold socketFromFd at h
  split at h
  · rename_i f _
    split at h
    · rename_i us' hops
      cases h
      exact ⟨f, hops⟩
    · cases h
    · cases h
  · cases h

section

variable (h : Accounted s)
include h

theorem unixConnect_accounted (fd : Int) (listener : Option SockId) (mem : Bool) :
    Accounted (unixConnect s t fd listener mem) := by
  unfold unixConnect
  split
  · rename_i uc l huc
    obtain ⟨f, hf⟩ := socketFromFd_unix huc
    have hlt := h.sock_lt f uc hf
    split
    · exact h
    have h1 := h.newSock (g := fun k => { k with state := .connected, peer := some uc })
      (RingBuf.contents_empty _ _ _) (fun p hp => by cases hp; omega)
    have h2 := h1.setSock (u := uc) (g := fun k => { k with peer := some s.nsocks, state := .connected })
      rfl (fun p hp => by cases hp; exact Nat.lt_succ_self _)
    exact h2.setSock rfl (h2.peer_lt l)
  · exact h

theorem sysEpollCreate1_accounted (mem : Nat → Bool)
    (hl : ¬ Leaks s (.epollCreate1 t mem)) : Accounted (sysEpollCreate1 s t mem) := by
  unfold sysEpollCreate1
  rw [if_neg]
  · exact h
  · intro hm
    rw [Bool.and_eq_true] at hm
    exact hl hm

theorem unixBind_accounted (fd : Int) (ok : Bool) : Accounted (unixBind s t fd ok) := by
  unfold unixBind
  split
  · split
    · exact h.setSock rfl (h.peer_lt _)
    · exact h
  · exact h

theorem unixListen_accounted (fd : Int) : Accounted (unixListen s t fd) := by
  unfold unixListen
  split
  · split
    · exact h.setSock rfl (h.peer_lt _)
    · exact h
  · exact h

theorem fcntlSetfd_accounted (fd : Int) (cloexec : Bool) : Accounted (fcntlSetfd s t fd cloexec) := by
  unfold fcntlSetfd
  split
  · exact h.setFdFlag _ _
  · exact h

end

theorem fdGet_spec {fd : Int} (h : fdGet s t fd = some f) :
    fd.toNat < FD_TABLE_SIZE ∧ (fd.toNat : Int) = fd ∧ s.slot t fd.toNat = some f := by
  unfold fdGet at h
  split at h
  · exact ⟨by omega, by omega, h⟩
  · cases h

section

variable (h : Accounted s)
include h

theorem fdDup_accounted (ht : t < s.ntasks) (fd : Int) : Accounted (fdDup s t fd) := by
  unfold fdDup
  split
  · rename_i f hf
    obtain ⟨hi, -, hs⟩ := fdGet_spec hf
    exact h.fdAlloc (h.refcount_pos_of_slot ht hi hs) ht
  · exact h

theorem fdDup2_accounted (ht : t < s.ntasks) (oldFd newFd : Int) (cloexec : Bool)
    (hsv : Survives s t (Dropped s (.dup2 t oldFd newFd cloexec))) :
    Accounted (fdDup2 s t oldFd newFd cloexec) := by
  unfold fdDup2
  split
  · exact h
  rename_i hr
  rw [not_or, not_not] at hr
  obtain ⟨⟨h0, h1⟩, hne⟩ := hr
  split
  · rename_i f hf
    obtain ⟨hi, hfd, hs⟩ := fdGet_spec hf
    have hj : newFd.toNat < FD_TABLE_SIZE := by omega
    have hd : Dropped s (.dup2 t oldFd newFd cloexec) newFd.toNat := ⟨by omega, hne, by rw [hf]; rfl⟩
    refine (h.fdInstall ht hj (fun old hold hfr => ?_) (.inr ⟨_, hi, by omega, hs⟩)).1.setCloexec _ _
    exact h.one_lt_of_pinned ht hj hd hold (hsv old hfr ⟨_, hj, hd, hold⟩)
  · exact h

theorem fcntlDupfd_accounted (ht : t < s.ntasks) (fd minFd : Int) (cloexec : Bool) :
    Accounted (fcntlDupfd s t fd minFd cloexec) := by
  unfold fcntlDupfd
  split
  · rename_i f hf
    obtain ⟨hi, -, hs⟩ := fdGet_spec hf
    split
    · exact h
    split
    · rename_i i hfree
      obtain ⟨hj, hnone⟩ := fdFree_spec hfree
      refine (h.fdInstall ht hj (by simp [hnone]) (.inr ⟨_, hi, ?_, hs⟩)).1.setCloexec _ _
      rintro rfl
      rw [hs] at hnone
      cases hnone
    · exact h
  · exact h

theorem unixPushFiles_accounted {dest : SockId} (ht : t < s.ntasks) (os : List (Option FileId))
    (hd : dest < s.nsocks) (hos : ∀ f, some f ∈ os → ∃ i < FD_TABLE_SIZE, s.slot t i = some f)
    (hr : unixPushFiles dest s os = some s') : Accounted s' := by
  induction os generalizing s with
  | nil => cases hr; exact h
  | cons o os ih =>
    unfold unixPushFiles at hr
    split at hr
    · cases hr; exact h
    rename_i hfull
    rcases o with _ | f
    · cases hr
    obtain ⟨i, hi, hs⟩ := hos f mem_cons_self
    have h1 := h.fileGet (h.refcount_pos_of_slot ht hi hs)
    refine ih (s := (fileGet s f).setSock dest fun k => { k with fdQueue := k.fdQueue.push f })
      ?_ ht hd (fun g hg => hos g (mem_cons_of_mem _ hg)) hr
    -- the queue entry takes over the reference
    refine ⟨fun g => ?_, h1.live, h1.dead, h1.fresh, fun us p hu => ?_, h1.sock_lt⟩
    · rw [queueRefs_push (s := fileGet s f) hd hfull]
      have := h1.refs g
      rw [Multiset.count_cons] at this
      show ((fileGet s f).files g).refcount = (fileGet s f).slotRefs g + _ + _
      by_cases hg : g = f
      · subst hg; simp at this ⊢; omega
      · simp only [hg, Ne.symm hg] at this ⊢; omega
    · by_cases he : us = dest
      · subst he; exact h1.peer_lt us p (by simpa [setSock] using hu)
      · exact h1.peer_lt us p (by simpa [setSock, he] using hu)

theorem sysSendmsg_accounted (ht : t < s.ntasks) {fd : Int} {fds : List Int}
    (hr : sysSendmsg s t fd fds = some s') : Accounted s' := by
  unfold sysSendmsg at hr
  split at hr
  · split at hr
    · rename_i us _ _ p hp
      refine unixPushFiles_accounted h ht _ (h.peer_lt us p hp) (fun f hf => ?_) hr
      obtain ⟨x, -, hx⟩ := mem_map.1 hf
      obtain ⟨hi, -, hs⟩ := fdGet_spec hx
      exact ⟨_, hi, hs⟩
    · cases hr; exact h
  · cases hr; exact h

theorem sysRecvmsg_accounted (fd : Int) (cap : Nat) (hl : ¬ Leaks s (.recvmsg t fd cap)) :
    Accounted (sysRecvmsg s t fd cap) := by
  unfold sysRecvmsg
  simp only [Leaks, not_and] at hl
  split
  · rename_i us hus
    simp only [hus, not_not] at hl
    rcases hn : scmMaxFds cap with _ | n
    · exact h
    · rw [unixPopFiles, if_pos (hl (by omega))]
      exact h
  · exact h

omit h in
theorem fdSlotClone_slot (child parent : TaskId) (i : Nat) (t' : TaskId) (j : Nat) :
    (fdSlotClone child parent s i).slot t' j =
      if t' = child ∧ j = i ∧ (s.slot parent i).isSome then s.slot parent i else s.slot t' j := by
  have hflag : ∀ (s1 : Kernel) (b : Bool), (s1.setFdFlag child i b).slot t' j = s1.slot t' j := by
    intro s1 b
    by_cases ht : t' = child
    · subst ht; simp [setFdFlag, setTask, slot]
    · simp [setFdFlag, setTask, slot, ht]
  unfold fdSlotClone
  rw [hflag]
  rcases hs : s.slot parent i with _ | f
  · simp
  · rw [setSlot_slot]
    simp only [Option.isSome_some, and_true]
    rfl

theorem fdTableClone_upto {child parent : TaskId} (hne : parent ≠ child) (hc : child < s.ntasks)
    (hp : parent < s.ntasks) (hnone : ∀ j, s.slot child j = none) {n : Nat} (hn : n ≤ FD_TABLE_SIZE) :
    let s' := (List.range n).foldl (fdSlotClone child parent) s
    Accounted s' ∧ s'.ntasks = s.ntasks ∧ (∀ j, s'.slot parent j = s.slot parent j) ∧
      ∀ j, n ≤ j → s'.slot child j = none := by
  induction n with
  | zero => exact ⟨h, rfl, fun _ => rfl, fun j _ => hnone j⟩
  | succ n ih =>
    obtain ⟨h1, h2, h3, h4⟩ := ih (by omega)
    simp only [range_succ, foldl_append, foldl_cons, foldl_nil]
    generalize (range n).foldl (fdSlotClone child parent) s = s1 at *
    refine ⟨?_, ?_, fun j => ?_, fun j hj => ?_⟩
    · unfold fdSlotClone
      rcases hs : s1.slot parent n with _ | f
      · exact h1.setFdFlag _ _
      · have hpos := h1.refcount_pos_of_slot (by rw [h2]; exact hp) hn hs
        exact ((h1.fileGet hpos).store (h2 ▸ hc : child < s1.ntasks) hn (h4 n (le_refl _))).setFdFlag _ _
    · rw [← h2]
      unfold fdSlotClone
      rcases s1.slot parent n <;> rfl
    · rw [fdSlotClone_slot, if_neg (fun e => hne e.1), h3]
    · rw [fdSlotClone_slot, if_neg (fun e => by omega), h4 j (by omega)]

theorem sysFork_accounted (ht : t < s.ntasks) (mem : Bool) : Accounted (sysFork s t mem) := by
  unfold sysFork
  split
  · have h0 : Accounted { s with
        tasks := Function.update s.tasks s.ntasks .new, ntasks := s.ntasks + 1 } := by
      refine { h with refs := fun g => ?_ }
      have := Table.sum_append (n := s.ntasks) (fun k : Task => k.refs g) s.tasks .new
      rw [show Task.refs .new g = 0 by simp [Task.refs, Task.new]] at this
      rw [h.refs g, slotRefs, slotRefs, this]
      rfl
    exact (fdTableClone_upto h0 (Nat.ne_of_lt ht) (Nat.lt_succ_self _) (Nat.lt_succ_of_lt ht)
      (fun j => by simp [slot, Task.new]) (le_refl _)).1
  · exact h

theorem sysExecve_accounted (ht : t < s.ntasks) (tty : Option (Vnode × Bool))
    (mem : Nat → Bool) (hsv : Survives s t (Dropped s (.execve t tty mem))) :
    Accounted (sysExecve s t tty mem) := by
  unfold sysExecve
  obtain ⟨h1, hsv1⟩ := fdCloseCloexec_emptying h ht (fun i hi => .inl hi) hsv
  dsimp only
  split
  · rename_i hmiss
    rcases tty with _ | ⟨v, inject⟩
    · exact h1.bal
    -- a slot that is empty now was empty before or flagged, so all three are counted as dropped
    have hj : ∃ j ≤ 2, s.slot t j = none ∨ (s.tasks t).fdFlags j := by
      have : ∃ j ≤ 2, (fdCloseCloexec s t).slot t j = none := by
        rcases hmiss with h | h | h
        exacts [⟨0, by omega, h⟩, ⟨1, by omega, h⟩, ⟨2, by omega, h⟩]
      obtain ⟨j, hj, hnone⟩ := this
      refine ⟨j, hj, ?_⟩
      by_cases hfl : (s.tasks t).fdFlags j
      · exact .inr hfl
      · exact .inl ((h1.slot t j fun e => hfl e.2).symm.trans hnone)
    refine setupStdioLoop_balanced [0, 1, 2] (by decide) (by decide) (by rw [h1.ntasks]; exact ht) h1.bal ?_
    have hsub : ∀ i ∈ [0, 1, 2], Dropped s (.execve t (some (v, inject)) mem) i := by
      intro i hi
      refine .inr ⟨?_, hj⟩
      simp at hi
      omega
    rintro f hf ⟨i, hi, him, hs⟩
    exact (hsv1 f hf ⟨i, hi, hsub i him, hs⟩).mono hsub
  · exact h1.bal

theorem fdClose_accounted (ht : t < s.ntasks) (fd : Int)
    (hsv : Survives s t (Dropped s (.close t fd))) : Accounted (fdClose s t fd) := by
  unfold fdClose
  split
  · exact ((Emptying.refl h hsv).fdCloseSlot ht (by omega) (show (fd.toNat : Int) = fd by omega)).bal
  · exact h

theorem step_accounted {e : Event} (hc : Careful s e) (hs : Fs.step s e = some s') :
    Accounted s' := by
  obtain ⟨hr, hs⟩ := Option.ite_none_right_eq_some.1 hs
  obtain ⟨hl, hsv⟩ := hc
  have ht := hr.1
  cases e <;> simp only [call, Option.some.injEq] at hs
  case sendmsg => exact sysSendmsg_accounted h ht hs
  all_goals subst hs
  case «open» => exact doOpenAbs_accounted h ht _ _ _
  case pipe2 => exact sysPipe2_accounted h ht _ _
  case socket => exact socketCreate_accounted h _ _ _ hl
  case accept => exact sysAccept_accounted h _ _ _ _ hl
  case socketpair => exact unixSocketpair_accounted h _ _ hl
  case epollCreate1 => exact sysEpollCreate1_accounted h _ hl
  case bind => exact unixBind_accounted h _ _
  case listen => exact unixListen_accounted h _
  case connect => exact unixConnect_accounted h _ _ _
  case dup => exact fdDup_accounted h ht _
  case dup2 => exact fdDup2_accounted h ht _ _ _ hsv
  case dupfd => exact fcntlDupfd_accounted h ht _ _ _
  case setfd => exact fcntlSetfd_accounted h _ _
  case recvmsg => exact sysRecvmsg_accounted h _ _ hl
  case fork => exact sysFork_accounted h ht _
  case execve => exact sysExecve_accounted h ht _ _ hsv
  case close => exact fdClose_accounted h ht _ hsv
  case destroy => exact (fdCloseAll_balanced h ht hsv).setTask _ fun _ => rfl

/-- The law of open files: the count is the number of descriptors and queued references, and a file with
none has been closed once, if it has a close operation, and has given back its vnode. -/
def CountsRight (s : Kernel) : Prop :=
  ∀ f < s.nfiles, (s.files f).refcount = s.slotRefs f + s.queueRefs f ∧
    (s.slotRefs f + s.queueRefs f = 0 →
      (s.files f).closes = (s.files f).closeOps ∧ (s.files f).vnodeRef = false)

theorem Accounted.countsRight : CountsRight s := by
  intro f hf
  have hr := h.refs f
  exact ⟨hr, fun h0 => h.dead f hf (hr.trans h0)⟩

end

def boot : Kernel :=
  { files := fun _ => .blank, nfiles := 0, tasks := fun _ => .new, ntasks := 1
    socks := fun _ => .zero, nsocks := 0 }

theorem boot_accounted : Accounted boot := by
  refine ⟨fun f => ?_, ?_, ?_, ?_, ?_, ?_⟩ <;>
    simp [boot, slotRefs, queueRefs, Task.refs, Task.new, File.blank, UnixSock.zero]

theorem open_file_accounting {es : List Event} (h0 : Accounted s) (h : Run Fs.step Careful s es s') :
    CountsRight s' :=
  have hi := h.inv (fun _ _ _ hi hc hs => step_accounted hi hc hs) h0
  hi.countsRight

theorem careful_run : ∃ s', Run Fs.step Careful boot
    [.open 0 (some ⟨7, true⟩) true false, .dup 0 0, .close 0 0, .fork 0 true] s' := by
  have hno : ∀ {P : Nat → Prop} {s : Kernel}, (∀ i, ¬ P i) → Survives s 0 P :=
    fun h _ _ ⟨i, _, hi, _⟩ => absurd hi (h i)
  refine ⟨_, .cons ⟨id, hno fun _ => id⟩ rfl (.cons ⟨id, hno fun _ => id⟩ rfl
    (.cons ⟨id, ?_⟩ rfl (.cons ⟨id, hno fun _ => id⟩ rfl (.nil _))))⟩
  rintro f - ⟨i, -, hi, hs⟩
  obtain rfl : i = 0 := by simpa [Dropped] using hi
  refine .inl ⟨0, by decide, 1, by decide, ?_, fun h => by simpa [Dropped] using h.2⟩
  rw [← hs]
  decide

theorem open_file_accounting_dup : ∃ s', Run Fs.step Careful boot
    [.open 0 (some ⟨7, true⟩) true false, .dup 0 0, .close 0 0, .fork 0 true] s' ∧ CountsRight s' := by
  obtain ⟨s', h⟩ := careful_run
  exact ⟨s', h, open_file_accounting boot_accounted h⟩

/-- A socket that is made and closed again: its file keeps the creator's reference, and its close
operation never runs. -/
theorem open_file_accounting_violated : ∃ s', Run Fs.step Any boot
    [.socket 0 .unix (fun _ => true) false, .close 0 0] s' ∧ ¬ CountsRight s' := by
  refine exists_run (fun s => decide (0 < s.nfiles ∧ (s.files 0).refcount ≠ s.slotRefs 0 + s.queueRefs 0)) true
    (by decide +kernel) fun s _ hbad h => ?_
  rw [decide_eq_true_eq] at hbad
  exact hbad.2 (h 0 hbad.1).1

end ExoOS.Fs
