import ExoOS.Fs.Fd
import ExoOS.Lib.Sums

/-!
# Reference counts of open files

The references to a file are the descriptor slots and the `SCM_RIGHTS` queue entries that point to it.
Inside a call there are more: the pointers the running code still has to drop. `Balanced s held` counts
all of them, `held` being the multiset of the latter, so each primitive has a rule that moves a reference
from one place to another, and a call is right if it ends with `held = 0`.
-/

namespace ExoOS.Fs
open Finset Function Kernel Multiset

variable {s s' : Kernel} {t : TaskId} {f g : FileId} {held : Multiset FileId}

def Task.refs (k : Task) (f : FileId) : Nat :=
  ∑ i ∈ range FD_TABLE_SIZE, if k.fdTable i = some f then 1 else 0

def Kernel.slotRefs (s : Kernel) (f : FileId) : Nat := ∑ t ∈ range s.ntasks, (s.tasks t).refs f

def Kernel.queueRefs (s : Kernel) (f : FileId) : Nat :=
  ∑ us ∈ range s.nsocks, (s.socks us).fdQueue.contents.count f

def File.closeOps (k : File) : Nat :=
  match k.fOps, k.vnode with
  | some _, _ => 1
  | none, some v => v.hasClose.toNat
  | none, none => 0

structure Balanced (s : Kernel) (held : Multiset FileId) : Prop where
  refs : ∀ f, (s.files f).refcount = s.slotRefs f + s.queueRefs f + held.count f
  live : ∀ f, 0 < (s.files f).refcount → (s.files f).closes = 0 ∧
    (s.files f).vnodeRef = (s.files f).vnode.isSome
  dead : ∀ f : Nat, f < s.nfiles → (s.files f).refcount = 0 → (s.files f).closes = (s.files f).closeOps ∧
    (s.files f).vnodeRef = false
  fresh : ∀ f : Nat, s.nfiles ≤ f → (s.files f).refcount = 0
  peer_lt : ∀ (us : SockId) (p : Nat), (s.socks us).peer = some p → p < s.nsocks
  sock_lt : ∀ (f : FileId) (us : Nat), (s.files f).fOps = some (.unixSocket us) → us < s.nsocks

/-- Every file is counted right, a file that is referred to has not been closed and keeps its vnode, and
one that is not has been closed once and has released its vnode. -/
def Accounted (s : Kernel) : Prop := Balanced s 0

/-! ### What a store does to the counts -/

variable {i : Nat}

theorem slotRefs_setSlot (ht : t < s.ntasks) (hi : i < FD_TABLE_SIZE) (o : Option FileId) (f : FileId) :
    (s.setSlot t i o).slotRefs f + (if s.slot t i = some f then 1 else 0) =
      s.slotRefs f + if o = some f then 1 else 0 := by
  have h1 := Table.sum_update (ι := Nat) (fun k : Task => k.refs f) s.tasks
    { s.tasks t with
      fdTable := update (s.tasks t).fdTable i o
      fdFlags := update (s.tasks t).fdFlags i false } (mem_range.2 ht)
  have h2 := Table.sum_update (fun o : Option FileId => if o = some f then 1 else 0) (s.tasks t).fdTable o
    (mem_range.2 hi)
  unfold slotRefs setSlot setTask slot Task.refs at *
  dsimp only at *
  omega

theorem slotRefs_setTask (gt : Task → Task) (h : ∀ k, (gt k).fdTable = k.fdTable) (f : FileId) :
    (s.setTask t gt).slotRefs f = s.slotRefs f :=
  Table.sum_update_same (fun k : Task => k.refs f) s.tasks (by unfold Task.refs; rw [h])

theorem slotRefs_pos (ht : t < s.ntasks) (hi : i < FD_TABLE_SIZE) (h : s.slot t i = some f) : 0 < s.slotRefs f := by
  have h1 : 1 ≤ (s.tasks t).refs f := by
    have := Table.le_sum (fun o : Option FileId => if o = some f then 1 else 0) (s.tasks t).fdTable (mem_range.2 hi)
    rwa [if_pos (show (s.tasks t).fdTable i = some f from h)] at this
  exact h1.trans (Table.le_sum (fun k : Task => k.refs f) s.tasks (Finset.mem_range.2 ht))

theorem queueRefs_setSock (us : SockId) (gs : UnixSock → UnixSock)
    (h : (gs (s.socks us)).fdQueue.contents = (s.socks us).fdQueue.contents) (f : FileId) :
    (s.setSock us gs).queueRefs f = s.queueRefs f :=
  Table.sum_update_same (fun k : UnixSock => k.fdQueue.contents.count f) s.socks (by rw [h])

theorem queueRefs_newSock (gs : UnixSock → UnixSock) (h : (gs .zero).fdQueue.contents = []) (f : FileId) :
    (s.newSock gs).2.queueRefs f = s.queueRefs f := by
  have := Table.sum_append (n := s.nsocks) (fun k : UnixSock => k.fdQueue.contents.count f) s.socks (gs .zero)
  rw [h, List.count_nil] at this
  exact this

variable {us : SockId}

theorem queueRefs_push (hus : us < s.nsocks) (hfull : ¬ (s.socks us).fdQueue.Full) (g f : FileId) :
    (s.setSock us fun k => { k with fdQueue := k.fdQueue.push g }).queueRefs f =
      s.queueRefs f + if g = f then 1 else 0 := by
  have h := Table.sum_update (ι := Nat) (fun k : UnixSock => k.fdQueue.contents.count f) s.socks
    { s.socks us with fdQueue := (s.socks us).fdQueue.push g } (mem_range.2 hus)
  rw [RingBuf.contents_push _ _ hfull, List.count_append, List.count_singleton] at h
  unfold queueRefs setSock
  dsimp only
  simp only [beq_iff_eq] at h
  omega

theorem queueRefs_pos (hus : us < s.nsocks) (h : f ∈ (s.socks us).fdQueue.contents) : 0 < s.queueRefs f :=
  (List.count_pos_iff.2 h).trans_le
    (Table.le_sum (fun k : UnixSock => k.fdQueue.contents.count f) s.socks (Finset.mem_range.2 hus))

/-! ### Rules for the primitives -/

/-- The last `file_put` on such a file goes wrong: it has both file operations and a vnode, so the vnode is
not released, or it is a socket with passed files waiting in its queue, which are lost. -/
def Fragile (s : Kernel) (f : FileId) : Prop :=
  ((s.files f).fOps.isSome ∧ (s.files f).vnode.isSome) ∨
    ∃ us, (s.files f).fOps = some (.unixSocket us) ∧ (s.socks us).fdQueue.contents ≠ []

structure PutFrame (s s' : Kernel) : Prop where
  tasks : s'.tasks = s.tasks
  ntasks : s'.ntasks = s.ntasks
  nfiles : s'.nfiles = s.nfiles
  nsocks : s'.nsocks = s.nsocks
  fOps : ∀ f, (s'.files f).fOps = (s.files f).fOps
  vnode : ∀ f, (s'.files f).vnode = (s.files f).vnode
  queue : ∀ us, (s'.socks us).fdQueue.contents = (s.socks us).fdQueue.contents

namespace PutFrame

theorem fragile_iff (h : PutFrame s s') : Fragile s' f ↔ Fragile s f := by
  simp only [Fragile, h.fOps, h.vnode, h.queue]

theorem slot (h : PutFrame s s') (t : TaskId) (i : Nat) : s'.slot t i = s.slot t i := by
  rw [Kernel.slot, h.tasks, Kernel.slot]

theorem setFile {gf : File → File} (h1 : ∀ k, (gf k).fOps = k.fOps) (h2 : ∀ k, (gf k).vnode = k.vnode) :
    PutFrame s (s.setFile f gf) where
  tasks := rfl
  ntasks := rfl
  nfiles := rfl
  nsocks := rfl
  fOps := Table.update_same (h1 _)
  vnode := Table.update_same (h2 _)
  queue _ := rfl

theorem setSock {gs : UnixSock → UnixSock} (h : (gs (s.socks us)).fdQueue.contents = (s.socks us).fdQueue.contents) :
    PutFrame s (s.setSock us gs) where
  tasks := rfl
  ntasks := rfl
  nfiles := rfl
  nsocks := rfl
  fOps _ := rfl
  vnode _ := rfl
  queue := Table.update_same (g := fun k : UnixSock => k.fdQueue.contents) h

theorem setTask (h : PutFrame s s') (t : TaskId) (gt : Task → Task) : PutFrame (s.setTask t gt) (s'.setTask t gt) :=
  { h with tasks := by simp only [Kernel.setTask, h.tasks] }

theorem trans {s'' : Kernel} (h : PutFrame s s') (h' : PutFrame s' s'') : PutFrame s s'' where
  tasks := h'.tasks.trans h.tasks
  ntasks := h'.ntasks.trans h.ntasks
  nfiles := h'.nfiles.trans h.nfiles
  nsocks := h'.nsocks.trans h.nsocks
  fOps f := (h'.fOps f).trans (h.fOps f)
  vnode f := (h'.vnode f).trans (h.vnode f)
  queue us := (h'.queue us).trans (h.queue us)

end PutFrame

namespace Balanced

section

variable (h : Balanced s held)
include h

theorem refcount_pos_of_slot (ht : t < s.ntasks) (hi : i < FD_TABLE_SIZE)
    (hs : s.slot t i = some f) : 0 < (s.files f).refcount := by
  have := slotRefs_pos ht hi hs
  have := h.refs f
  omega

theorem refcount_pos_of_mem (hf : f ∈ held) : 0 < (s.files f).refcount := by
  have := count_pos.2 hf
  have := h.refs f
  omega

theorem lt_nfiles (hf : 0 < (s.files f).refcount) : f < s.nfiles := by
  refine Nat.not_le.1 fun hn => ?_
  have := h.fresh f hn
  omega

theorem refill (held' : Multiset FileId) {k : File} {n : Nat} (hn : ∀ g : Nat, g ≠ f → (g < n ↔ g < s.nfiles))
    (hf : f < n) (hrc : k.refcount + held.count f = (s.files f).refcount + held'.count f)
    (hx : ∀ g ≠ f, held'.count g = held.count g)
    (hlive : 0 < k.refcount → k.closes = 0 ∧ k.vnodeRef = k.vnode.isSome)
    (hdead : k.refcount = 0 → k.closes = k.closeOps ∧ k.vnodeRef = false)
    (hops : ∀ us : Nat, k.fOps = some (.unixSocket us) → us < s.nsocks) :
    Balanced { s with files := update s.files f k, nfiles := n } held' := by
  refine ⟨(forall_update_iff s.files fun g k => k.refcount = s.slotRefs g + s.queueRefs g + held'.count g).2
      ⟨?_, fun g hg => ?_⟩,
    (forall_update_iff s.files fun _ k => 0 < k.refcount → k.closes = 0 ∧ k.vnodeRef = k.vnode.isSome).2
      ⟨hlive, fun g _ => h.live g⟩,
    (forall_update_iff s.files fun g k => (g : Nat) < n → k.refcount = 0 → k.closes = k.closeOps ∧
      k.vnodeRef = false).2 ⟨fun _ => hdead, fun g hg hlt => h.dead g ((hn g hg).1 hlt)⟩,
    (forall_update_iff s.files fun g k => n ≤ g → k.refcount = 0).2
      ⟨fun hle => absurd hf hle.not_gt, fun g hg hle => h.fresh g (not_lt.1 ((hn g hg).not.1 hle.not_gt))⟩, h.peer_lt,
    (forall_update_iff s.files fun _ k => ∀ us : Nat, k.fOps = some (.unixSocket us) → us < s.nsocks).2
      ⟨hops, fun g _ => h.sock_lt g⟩⟩
  · have := h.refs f
    omega
  · rw [hx g hg]
    exact h.refs g

theorem fileGet (hf : 0 < (s.files f).refcount) : Balanced (fileGet s f) (f ::ₘ held) := by
  have hl := h.live f hf
  refine h.refill _ (fun _ _ => .rfl) (h.lt_nfiles hf) ?_ (fun g hg => count_cons_of_ne hg _) (fun _ => hl) ?_
    (h.sock_lt f)
  · rw [count_cons_self]; dsimp only; omega
  · intro h0; simp at h0

theorem alloc {k : File} (h1 : k.refcount = 1) (hc : k.closes = 0)
    (hv : k.vnodeRef = k.vnode.isSome) (hops : ∀ us : Nat, k.fOps = some (.unixSocket us) → us < s.nsocks) :
    Balanced { s with files := update s.files s.nfiles k, nfiles := s.nfiles + 1 }
      (s.nfiles ::ₘ held) := by
  have h0 := h.fresh s.nfiles (le_refl _)
  refine h.refill _ (fun g hg => ?_) (Nat.lt_succ_self _) ?_ (fun g hg => count_cons_of_ne hg _) (fun _ => ⟨hc, hv⟩)
    (fun h0 => by omega) hops
  · omega
  · rw [count_cons_self, h0, h1]
    omega

theorem setSock {u : SockId} {g : UnixSock → UnixSock}
    (hq : (g (s.socks u)).fdQueue.contents = (s.socks u).fdQueue.contents)
    (hp : ∀ p : Nat, (g (s.socks u)).peer = some p → p < s.nsocks) : Balanced (s.setSock u g) held := by
  refine ⟨fun f => ?_, h.live, h.dead, h.fresh, (forall_update_iff s.socks fun _ k => ∀ p : Nat, k.peer = some p →
    p < s.nsocks).2 ⟨hp, fun us _ => h.peer_lt us⟩, h.sock_lt⟩
  rw [queueRefs_setSock u g hq]
  exact h.refs f

theorem unixClose (hq : (s.socks us).fdQueue.contents = []) :
    Balanced (unixClose s us) held ∧ PutFrame s (unixClose s us) := by
  have hz : ∀ k : UnixSock, ({ UnixSock.zero with state := .closing } : UnixSock).fdQueue.contents = [] :=
    fun _ => RingBuf.contents_empty _ _ _
  unfold Fs.unixClose
  split
  · rename_i p hp
    -- the peer only loses its pointer, which may be the socket's own
    have h1 := h.setSock (u := p) (g := fun k => { k with peer := none }) rfl (by simp)
    have f1 : PutFrame s (s.setSock p fun k => { k with peer := none }) := .setSock rfl
    have hq' := (f1.queue us).trans hq
    have hz' := (hz ((s.setSock p fun k => { k with peer := none }).socks us)).trans hq'.symm
    exact ⟨h1.setSock hz' (by simp [UnixSock.zero]), f1.trans (.setSock hz')⟩
  · have hz' := (hz (s.socks us)).trans hq.symm
    exact ⟨h.setSock hz' (by simp [UnixSock.zero]), .setSock hz'⟩

end

theorem fileRelease (h : Balanced s (f ::ₘ held)) (hrc : (s.files f).refcount = 1) (hf : ¬ Fragile s f) :
    let s1 := s.setFile f fun k => { k with refcount := k.refcount - 1 }
    Balanced (fileRelease s1 f) held ∧ PutFrame s (fileRelease s1 f) := by
  intro s1
  have hlt := h.lt_nfiles (f := f) (by omega)
  obtain ⟨hc, hv⟩ := h.live f (by omega)
  have hfill : ∀ k : File, k.refcount = 0 → k.fOps = (s.files f).fOps → k.closes = k.closeOps ∧ k.vnodeRef = false →
      Balanced { s with files := update s.files f k } held := fun k h0 hops hdead =>
    h.refill held (fun _ _ => .rfl) hlt (by rw [count_cons_self]; omega) (fun g hg => (count_cons_of_ne hg _).symm)
      (fun hp => absurd h0 hp.ne') (fun _ => hdead) (hops ▸ h.sock_lt f)
  have hf1 : s1.files f = { s.files f with refcount := 0 } := by simp [s1, setFile, hrc]
  have f1 : PutFrame s s1 := .setFile (fun _ => rfl) fun _ => rfl
  simp only [Fragile, not_or, not_and, not_exists, not_not] at hf
  obtain ⟨hvn, hqn⟩ := hf
  unfold Fs.fileRelease
  rw [hf1]
  dsimp only
  split
  · -- file operations, hence no vnode: `f_ops->close` runs
    rename_i _ ops hops
    have hvnone : (s.files f).vnode = none := by simpa [hops] using hvn
    have h2 : Balanced (s1.setFile f fun k => { k with closes := k.closes + 1 }) held := by
      have := hfill { s.files f with refcount := 0, closes := (s.files f).closes + 1 } rfl rfl
        ⟨by simp [hc, File.closeOps, hops], by simp [hv, hvnone]⟩
      simpa [s1, setFile, hrc] using this
    have f2 : PutFrame s (s1.setFile f fun k => { k with closes := k.closes + 1 }) :=
      f1.trans (.setFile (fun _ => rfl) fun _ => rfl)
    cases ops with
    | unixSocket us =>
      obtain ⟨h3, f3⟩ := h2.unixClose ((f2.queue us).trans (hqn us hops))
      exact ⟨h3, f2.trans f3⟩
    | _ => exact ⟨h2, f2⟩
  · -- a vnode alone: the file system's close runs, if there is one
    rename_i v hops hvs
    refine ⟨?_, f1.trans (.setFile (fun _ => rfl) fun _ => rfl)⟩
    have := hfill { s.files f with
      refcount := 0, closes := (s.files f).closes + v.hasClose.toNat, vnodeRef := false } rfl rfl
      ⟨by simp [hc, File.closeOps, hops, hvs], rfl⟩
    simpa [s1, setFile, hrc] using this
  · rename_i hops hvs
    refine ⟨?_, f1⟩
    have := hfill { s.files f with refcount := 0 } rfl rfl
      ⟨by simp [hc, File.closeOps, hops, hvs], by simp [hv, hvs]⟩
    simpa [s1, setFile, hrc] using this

theorem filePut (h : Balanced s (f ::ₘ held)) (hf : Fragile s f → 1 < (s.files f).refcount) :
    Balanced (filePut s f) held ∧ PutFrame s (filePut s f) := by
  have hpos := h.refcount_pos_of_mem (mem_cons_self f held)
  have hlt := h.lt_nfiles hpos
  unfold Fs.filePut
  rw [if_neg (by omega)]
  dsimp only
  split
  · rename_i h0
    have hrc : (s.files f).refcount = 1 := by simp [setFile] at h0; omega
    exact h.fileRelease hrc fun hfr => absurd (hf hfr) (by omega)
  rename_i h0
  refine ⟨h.refill _ (fun _ _ => .rfl) hlt ?_ (fun g hg => (count_cons_of_ne hg _).symm)
    (fun _ => h.live f hpos) (fun hz => absurd ?_ h0) (h.sock_lt f), .setFile (fun _ => rfl) fun _ => rfl⟩
  · rw [count_cons_self]; dsimp only; omega
  · simpa [setFile] using hz

theorem setSlot {held'} (h : Balanced s held) (ht : t < s.ntasks) (hi : i < FD_TABLE_SIZE) (o : Option FileId)
    (hheld : ∀ g, held'.count g + (if o = some g then 1 else 0) =
      held.count g + if s.slot t i = some g then 1 else 0) : Balanced (s.setSlot t i o) held' := by
  refine { h with refs := fun g => ?_ }
  have h1 := slotRefs_setSlot ht hi o g
  have h2 := h.refs g
  have h3 := hheld g
  show (s.files g).refcount = (s.setSlot t i o).slotRefs g + s.queueRefs g + _
  omega

theorem store (h : Balanced s (f ::ₘ held)) (ht : t < s.ntasks) (hi : i < FD_TABLE_SIZE)
    (hs : s.slot t i = none) : Balanced (s.setSlot t i (some f)) held :=
  h.setSlot ht hi (some f) fun g => by simp [hs, count_cons, eq_comm]

section

variable (h : Balanced s held)
include h

theorem clear (ht : t < s.ntasks) (hi : i < FD_TABLE_SIZE)
    (hs : s.slot t i = some f) : Balanced (s.setSlot t i none) (f ::ₘ held) :=
  h.setSlot ht hi none fun g => by simp [hs, count_cons, eq_comm]

theorem setTask (gt : Task → Task) (hg : ∀ k, (gt k).fdTable = k.fdTable) : Balanced (s.setTask t gt) held := by
  refine { h with refs := fun g => ?_ }
  rw [slotRefs_setTask gt hg]
  exact h.refs g

theorem setFdFlag (i : Nat) (b : Bool) : Balanced (s.setFdFlag t i b) held := h.setTask _ fun _ => rfl

theorem setCloexec (i : Nat) (b : Bool) : Balanced (s.setCloexec t i b) held := by
  unfold Kernel.setCloexec
  split
  · exact h.setFdFlag i true
  · exact h

theorem fileAlloc (v : Vnode) : Balanced (fileAlloc s v).2 (s.nfiles ::ₘ held) := h.alloc rfl rfl rfl (by simp)

theorem fileAllocGeneric {o : FileOps} (hops : ∀ us : Nat, o = .unixSocket us → us < s.nsocks) :
    Balanced (fileAllocGeneric s o).2 (s.nfiles ::ₘ held) :=
  h.alloc rfl rfl rfl (by simpa using hops)

theorem newSock {g : UnixSock → UnixSock}
    (hq : (g .zero).fdQueue.contents = []) (hp : ∀ p : Nat, (g .zero).peer = some p → p < s.nsocks + 1) :
    Balanced (s.newSock g).2 held := by
  refine ⟨fun f => ?_, h.live, h.dead, h.fresh, (forall_update_iff s.socks fun _ k => ∀ p : Nat, k.peer = some p →
    p < s.nsocks + 1).2 ⟨hp, fun us _ p hu => (h.peer_lt us p hu).trans (Nat.lt_succ_self _)⟩,
    fun f us hf => (h.sock_lt f us hf).trans (Nat.lt_succ_self _)⟩
  rw [queueRefs_newSock g hq]
  exact h.refs f

end

end Balanced

theorem fdFree_spec {lo i : Nat} (h : fdFree s t lo = some i) : i < FD_TABLE_SIZE ∧ s.slot t i = none := by
  have h1 := List.find?_some h
  have h2 := List.mem_range'_1.1 (List.mem_of_find?_eq_some h)
  exact ⟨by omega, by simpa using h1⟩

theorem fdAlloc_cases (s : Kernel) (t : TaskId) (f : FileId) :
    (fdFree s t 0 = none ∧ fdAlloc s t f = (none, s)) ∨ ∃ i < FD_TABLE_SIZE, s.slot t i = none ∧
        fdAlloc s t f = (some i, fileGet (s.setSlot t i (some f)) f) := by
  unfold fdAlloc
  cases hfree : fdFree s t 0 with
  | none => exact .inl ⟨rfl, rfl⟩
  | some i => exact .inr ⟨i, (fdFree_spec hfree).1, (fdFree_spec hfree).2, rfl⟩

theorem unixClose_setTask (s : Kernel) (us : SockId) (t : TaskId) (gt : Task → Task) :
    unixClose (s.setTask t gt) us = (unixClose s us).setTask t gt := by
  unfold unixClose
  rw [show ((s.setTask t gt).socks us).peer = (s.socks us).peer from rfl]
  rcases (s.socks us).peer with _ | p <;> rfl

theorem fileRelease_setTask (s : Kernel) (f : FileId) (t : TaskId) (gt : Task → Task) :
    fileRelease (s.setTask t gt) f = (fileRelease s f).setTask t gt := by
  unfold fileRelease
  show (match (s.files f).fOps, (s.files f).vnode with
    | some ops, _ => _ | none, some v => _ | none, none => _) = _
  rcases (s.files f).fOps with _ | ops
  · rcases (s.files f).vnode with _ | v <;> rfl
  · cases ops with
    | unixSocket us => exact unixClose_setTask (s.setFile f fun k => { k with closes := k.closes + 1 }) us t gt
    | _ => rfl

theorem filePut_setTask (s : Kernel) (f : FileId) (t : TaskId) (gt : Task → Task) :
    filePut (s.setTask t gt) f = (filePut s f).setTask t gt := by
  unfold filePut
  show (if (s.files f).refcount = 0 then _ else _) = _
  by_cases h : (s.files f).refcount = 0
  · rw [if_pos h, if_pos h]
  rw [if_neg h]
  dsimp only
  rw [show (s.setTask t gt).setFile f (fun k => { k with refcount := k.refcount - 1 }) =
    (s.setFile f fun k => { k with refcount := k.refcount - 1 }).setTask t gt from rfl]
  generalize s.setFile f (fun k => { k with refcount := k.refcount - 1 }) = s1
  show (if (s1.files f).refcount = 0 then _ else _) = _
  split
  · exact fileRelease_setTask s1 f t gt
  · rfl

theorem setSlot_slot (s : Kernel) (t : TaskId) (i : Nat) (o : Option FileId) (t' : TaskId) (j : Nat) :
    (s.setSlot t i o).slot t' j = if t' = t ∧ j = i then o else s.slot t' j := by
  unfold setSlot setTask slot
  by_cases ht : t' = t
  · subst ht
    by_cases hj : j = i
    · subst hj; simp
    · simp [hj]
  · simp [ht]

@[simp] theorem setSlot_setSlot (s : Kernel) (t : TaskId) (i : Nat) (o o' : Option FileId) :
    (s.setSlot t i o).setSlot t i o' = s.setSlot t i o' := by
  simp [setSlot, setTask]

theorem filePut_setSlot (s : Kernel) (f : FileId) (t : TaskId) (i : Nat) (o : Option FileId) :
    filePut (s.setSlot t i o) f = (filePut s f).setSlot t i o :=
  filePut_setTask s f t _

namespace Balanced

section

variable (h : Balanced s held)
include h

theorem fdStore (hf : 0 < (s.files f).refcount) (ht : t < s.ntasks)
    (hi : i < FD_TABLE_SIZE) (hs : s.slot t i = none) :
    Balanced (Fs.fileGet (s.setSlot t i (some f)) f) held :=
  (h.fileGet hf).store ht hi hs

theorem fdAlloc (hf : 0 < (s.files f).refcount) (ht : t < s.ntasks) :
    Balanced (fdAlloc s t f).2 held := by
  rcases fdAlloc_cases s t f with ⟨-, he⟩ | ⟨i, hi, hs, he⟩
  · rw [he]; exact h
  · rw [he]; exact h.fdStore hf ht hi hs

theorem fdCloseSlot (ht : t < s.ntasks) (hi : i < FD_TABLE_SIZE)
    (hs : s.slot t i = some f) (hf : Fragile s f → 1 < (s.files f).refcount) :
    Balanced (fdCloseSlot s t i) held ∧ PutFrame (s.setSlot t i none) (fdCloseSlot s t i) := by
  rw [Fs.fdCloseSlot, hs]
  dsimp only
  rw [← filePut_setSlot]
  exact (h.clear ht hi hs).filePut hf

theorem fdInstall (ht : t < s.ntasks) (hi : i < FD_TABLE_SIZE)
    (hold : ∀ old, s.slot t i = some old → Fragile s old → 1 < (s.files old).refcount)
    (hf : f ∈ held ∨ ∃ j < FD_TABLE_SIZE, j ≠ i ∧ s.slot t j = some f) :
    Balanced (fdInstall s t i f) held ∧ PutFrame (s.setSlot t i (some f)) (fdInstall s t i f) := by
  unfold Fs.fdInstall
  rcases hs : s.slot t i with _ | old
  · refine ⟨h.fdStore ?_ ht hi hs, .setFile (fun _ => rfl) fun _ => rfl⟩
    rcases hf with hf | ⟨j, hj, -, hf⟩
    · exact h.refcount_pos_of_mem hf
    · exact h.refcount_pos_of_slot ht hj hf
  obtain ⟨hb, hfr⟩ := (h.clear ht hi hs).filePut (hold old hs)
  rw [filePut_setSlot] at hb hfr
  have ht' : t < ((Fs.filePut s old).setSlot t i none).ntasks := by rw [hfr.ntasks]; exact ht
  have hpos : 0 < (((Fs.filePut s old).setSlot t i none).files f).refcount := by
    rcases hf with hf | ⟨j, hj, hne, hf⟩
    · exact hb.refcount_pos_of_mem hf
    · refine hb.refcount_pos_of_slot ht' hj ((hfr.slot t j).trans ?_)
      rw [setSlot_slot, if_neg (fun e => hne e.2), hf]
  have hb' := hb.fdStore hpos ht' hi (by simp [setSlot_slot])
  have hfr' := hfr.setTask t fun k => { k with
    fdTable := update k.fdTable i (some f), fdFlags := update k.fdFlags i false }
  change PutFrame ((s.setSlot t i none).setSlot t i (some f))
    (((Fs.filePut s old).setSlot t i none).setSlot t i (some f)) at hfr'
  rw [setSlot_setSlot] at hb' hfr'
  rw [setSlot_setSlot] at hfr'
  exact ⟨hb', hfr'.trans (.setFile (fun _ => rfl) fun _ => rfl)⟩

end

end Balanced

end ExoOS.Fs
