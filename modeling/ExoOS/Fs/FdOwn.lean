import ExoOS.Fs.FdInv

/-!
# A call changes only the caller's descriptors

The descriptor tables of tasks are separate: a call of a task leaves the tables of all other tasks as they are
(`call_own`), and `fork` fills the table of the new task only (`Own.fdTableClone`).
-/

namespace ExoOS.Fs
open Kernel

variable {s0 s s' : Kernel} {t : TaskId} {f : FileId}

/-- Nothing but the table of task `t` differs, as far as the tasks are concerned. -/
structure Own (t : TaskId) (s s' : Kernel) : Prop where
  tasks : ∀ u, u ≠ t → s'.tasks u = s.tasks u
  alive : (s'.tasks t).alive = (s.tasks t).alive
  ntasks : s'.ntasks = s.ntasks

namespace Own

theorem refl : Own t s s := ⟨fun _ _ => rfl, rfl, rfl⟩

theorem ite {c : Prop} [Decidable c] (h : Own t s0 s) (h' : Own t s0 s') : Own t s0 (if c then s else s') := by
  split
  · exact h
  · exact h'

section

variable (h : Own t s0 s)
include h

theorem of_tasks (ht : s'.tasks = s.tasks) (hn : s'.ntasks = s.ntasks) : Own t s0 s' :=
  ⟨fun u hu => by rw [ht, h.tasks u hu], by rw [ht, h.alive], hn.trans h.ntasks⟩

theorem setTask {g : Task → Task} (hg : (g (s.tasks t)).alive = (s.tasks t).alive) : Own t s0 (s.setTask t g) where
  tasks u hu := (Function.update_of_ne hu ..).trans (h.tasks u hu)
  alive := by
    rw [Kernel.setTask, ← h.alive]
    exact (congrArg Task.alive (Function.update_self ..)).trans hg
  ntasks := h.ntasks

theorem setSlot (i : Nat) (o : Option FileId) : Own t s0 (s.setSlot t i o) := h.setTask rfl

theorem setFdFlag (i : Nat) (b : Bool) : Own t s0 (s.setFdFlag t i b) := h.setTask rfl

theorem setCloexec (i : Nat) (b : Bool) : Own t s0 (s.setCloexec t i b) := (h.setFdFlag i true).ite h

theorem setFile (g : File → File) : Own t s0 (s.setFile f g) := h.of_tasks rfl rfl

theorem setSock (us : SockId) (g : UnixSock → UnixSock) : Own t s0 (s.setSock us g) := h.of_tasks rfl rfl

theorem newSock (g : UnixSock → UnixSock) : Own t s0 (s.newSock g).2 := h.of_tasks rfl rfl

theorem fileAlloc (v : Vnode) : Own t s0 (fileAlloc s v).2 := h.of_tasks rfl rfl

theorem fileAllocGeneric (ops : FileOps) : Own t s0 (fileAllocGeneric s ops).2 := h.of_tasks rfl rfl

theorem fileGet (f : FileId) : Own t s0 (fileGet s f) := h.setFile _

theorem unixClose (us : SockId) : Own t s0 (unixClose s us) := by
  unfold Fs.unixClose
  split
  · exact (h.setSock _ _).setSock _ _
  · exact h.setSock _ _

theorem fileRelease (f : FileId) : Own t s0 (fileRelease s f) := by
  unfold Fs.fileRelease
  rcases (s.files f).fOps with _ | ops
  · rcases (s.files f).vnode with _ | v
    · exact h
    · exact h.setFile _
  · have h1 : Own t s0 (s.setFile f fun k => { k with closes := k.closes + 1 }) := h.setFile _
    cases ops with
    | unixSocket us => exact h1.unixClose us
    | _ => exact h1

theorem filePut (f : FileId) : Own t s0 (filePut s f) := by
  refine h.ite (.ite ?_ (h.setFile _))
  exact (h.setFile _).fileRelease f

theorem fdAlloc (f : FileId) : Own t s0 (fdAlloc s t f).2 := by
  rcases fdAlloc_cases s t f with ⟨-, he⟩ | ⟨i, -, -, he⟩ <;> rw [he]
  · exact h
  · exact (h.setSlot i _).fileGet f

theorem fdAlloc_then {k : Kernel → Kernel} {l : Nat → Kernel → Kernel} (hk : ∀ s, Own t s0 s → Own t s0 (k s))
    (hl : ∀ i s, Own t s0 s → Own t s0 (l i s)) :
    Own t s0 (match Fs.fdAlloc s t f with | (none, s) => k s | (some i, s) => l i s) := by
  have h' := h.fdAlloc f
  generalize Fs.fdAlloc s t f = r at h'
  rcases r with ⟨_ | i, s'⟩
  · exact hk s' h'
  · exact hl i s' h'

theorem fdInstall (i : Nat) (f : FileId) : Own t s0 (fdInstall s t i f) := by
  unfold Fs.fdInstall
  split
  · exact ((h.filePut _).setSlot i _).fileGet f
  · exact (h.setSlot i _).fileGet f

theorem fdCloseSlot (i : Nat) : Own t s0 (fdCloseSlot s t i) := by
  unfold Fs.fdCloseSlot
  split
  · exact (h.filePut _).setSlot i none
  · exact h

end

theorem foldl {α : Type} {g : Kernel → α → Kernel} (hg : ∀ s a, Own t s0 s → Own t s0 (g s a)) (l : List α)
    (h : Own t s0 s) : Own t s0 (l.foldl g s) := by
  induction l generalizing s with
  | nil => exact h
  | cons a l ih => exact ih (hg s a h)

theorem fdCloseCloexec (h : Own t s0 s) : Own t s0 (fdCloseCloexec s t) :=
  foldl (fun _ i h => (h.fdCloseSlot i).ite h) _ h

theorem fdCloseAll (h : Own t s0 s) : Own t s0 (fdCloseAll s t) := foldl (fun _ i h => h.fdCloseSlot i) _ h

theorem setupStdioLoop {v : Vnode} {inject : Bool} {mem : Nat → Bool} (fds : List Nat) (h : Own t s0 s) :
    Own t s0 (setupStdioLoop t v inject mem s fds) := by
  induction fds generalizing s with
  | nil => exact h
  | cons fd fds ih =>
    rw [Fs.setupStdioLoop]
    exact .ite (ih ((Own.fdInstall (((h.fileAlloc v).setFile _).ite (h.fileAlloc v)) fd _).filePut _)) h

section

variable (h : Own t s0 s)
include h

theorem doOpenAbs (v : Option Vnode) (mem cloexec : Bool) : Own t s0 (doOpenAbs s t v mem cloexec) := by
  unfold Fs.doOpenAbs
  cases v with
  | none => exact h
  | some v =>
    refine .ite ?_ h
    have h1 := ((h.fileAlloc v).fdAlloc (Fs.fileAlloc s v).1).filePut (Fs.fileAlloc s v).1
    dsimp only
    split
    · exact h1.setCloexec _ _
    · exact h1

theorem sysPipe2 (mem : Nat → Bool) (cloexec : Bool) : Own t s0 (sysPipe2 s t mem cloexec) := by
  have h1 := h.fileAllocGeneric .pipeRead
  refine .ite (.ite ?_ (h1.filePut _)) h
  refine (h1.fileAllocGeneric .pipeWrite).fdAlloc_then (fun _ h => (h.filePut _).filePut _) fun _ _ h => ?_
  refine h.fdAlloc_then (fun _ h => ((h.fdCloseSlot _).filePut _).filePut _) fun _ _ h => ?_
  exact (((h.setCloexec _ _).setCloexec _ _).filePut _).filePut _

theorem socketCreate (d : Domain) (mem : Nat → Bool) (cloexec : Bool) : Own t s0 (socketCreate s t d mem cloexec) := by
  cases d with
  | unix =>
    refine .ite (.ite ?_ (h.newSock id)) h
    exact ((h.newSock id).fileAllocGeneric _).fdAlloc_then (fun _ h => h) fun _ _ h => h.setCloexec _ _
  | inet =>
    refine .ite ?_ h
    exact (h.fileAllocGeneric _).fdAlloc_then (fun _ h => h.filePut _) fun _ _ h => h.setCloexec _ _
  | unsupported => exact h

theorem sysAccept (fd : Int) (ready : Bool) (mem : Nat → Bool) (cloexec : Bool) :
    Own t s0 (sysAccept s t fd ready mem cloexec) := by
  unfold Fs.sysAccept
  split
  · rename_i us _
    have h1 := h.setSock us fun k => { k with acceptQ := k.acceptQ.advance 1 }
    refine .ite (.ite ?_ (h1.setSock _ _)) h
    exact (h1.fileAllocGeneric _).fdAlloc_then (fun _ h => h.setSock _ _) fun _ _ h => h.setCloexec _ _
  · refine .ite ?_ h
    exact (h.fileAllocGeneric _).fdAlloc_then (fun _ h => h.filePut _) fun _ _ h => h.setCloexec _ _
  · exact h

theorem unixSocketpair (mem : Nat → Bool) (cloexec : Bool) : Own t s0 (unixSocketpair s t mem cloexec) := by
  refine .ite ?_ h
  have h1 : ∀ g g', Own t s0 ((s.newSock g).2.newSock g').2 := fun g g' => (h.newSock g).newSock g'
  dsimp only
  split
  · refine (((h1 _ _).fileAllocGeneric _).fileAllocGeneric _).fdAlloc_then (fun _ h => h) fun _ _ h => ?_
    exact h.fdAlloc_then (fun _ h => h.fdCloseSlot _) fun _ _ h => (h.setCloexec _ _).setCloexec _ _
  · exact (h1 _ _).fileAllocGeneric _
  · exact (h1 _ _).fileAllocGeneric _
  · exact h1 _ _

theorem sysEpollCreate1 (mem : Nat → Bool) : Own t s0 (sysEpollCreate1 s t mem) :=
  ((h.fileAllocGeneric .epoll).fdAlloc _).ite h

theorem fdDup (fd : Int) : Own t s0 (fdDup s t fd) := by
  unfold Fs.fdDup
  split
  · exact h.fdAlloc _
  · exact h

theorem fdDup2 (oldFd newFd : Int) (cloexec : Bool) : Own t s0 (fdDup2 s t oldFd newFd cloexec) := by
  refine h.ite ?_
  split
  · exact (h.fdInstall _ _).setCloexec _ _
  · exact h

theorem fcntlDupfd (fd minFd : Int) (cloexec : Bool) : Own t s0 (fcntlDupfd s t fd minFd cloexec) := by
  unfold Fs.fcntlDupfd
  split
  · refine h.ite ?_
    split
    · exact (h.fdInstall _ _).setCloexec _ _
    · exact h
  · exact h

theorem fcntlSetfd (fd : Int) (cloexec : Bool) : Own t s0 (fcntlSetfd s t fd cloexec) := by
  unfold Fs.fcntlSetfd
  split
  · exact h.setFdFlag _ _
  · exact h

end

theorem unixPushFiles {dest : SockId} (os : List (Option FileId)) (h : Own t s0 s)
    (hs : unixPushFiles dest s os = some s') : Own t s0 s' := by
  induction os generalizing s with
  | nil => cases hs; exact h
  | cons o os ih =>
    cases o with
    | none =>
      obtain ⟨-, ⟨⟩⟩ := Option.ite_none_right_eq_some.1 hs
      exact h
    | some f =>
      simp only [Fs.unixPushFiles] at hs
      split at hs
      · cases hs
        exact h
      · exact ih ((h.fileGet f).setSock _ _) hs

theorem sysSendmsg (h : Own t s0 s) {fd : Int} {fds : List Int} (hs : sysSendmsg s t fd fds = some s') :
    Own t s0 s' := by
  unfold Fs.sysSendmsg at hs
  split at hs
  · split at hs
    · exact h.unixPushFiles _ hs
    · cases hs
      exact h
  · cases hs
    exact h

theorem unixPopFiles {src : SockId} (n : Nat) (h : Own t s0 s) : Own t s0 (unixPopFiles src t s n) := by
  induction n generalizing s with
  | zero => exact h
  | succ n ih =>
    rw [Fs.unixPopFiles]
    exact h.ite (ih ((h.setSock _ _).fdAlloc _))

section

variable (h : Own t s0 s)
include h

theorem sysRecvmsg (fd : Int) (cap : Nat) : Own t s0 (sysRecvmsg s t fd cap) := by
  unfold Fs.sysRecvmsg
  split
  · exact h.unixPopFiles _
  · exact h

theorem sysExecve (tty : Option (Vnode × Bool)) (mem : Nat → Bool) : Own t s0 (sysExecve s t tty mem) := by
  unfold Fs.sysExecve
  dsimp only
  split
  · split
    · exact h.fdCloseCloexec.setupStdioLoop _
    · exact h.fdCloseCloexec
  · exact h.fdCloseCloexec

theorem unixBind (fd : Int) (ok : Bool) : Own t s0 (unixBind s t fd ok) := by
  unfold Fs.unixBind
  split
  · exact (h.setSock _ _).ite h
  · exact h

theorem unixListen (fd : Int) : Own t s0 (unixListen s t fd) := by
  unfold Fs.unixListen
  split
  · exact (h.setSock _ _).ite h
  · exact h

theorem unixConnect (fd : Int) (listener : Option SockId) (mem : Bool) :
    Own t s0 (unixConnect s t fd listener mem) := by
  unfold Fs.unixConnect
  split
  · refine h.ite ?_
    dsimp only
    exact ((h.newSock _).setSock _ _).setSock _ _
  · exact h

theorem fdTableClone (parent : TaskId) : Own t s0 (fdTableClone s t parent) := by
  refine foldl (fun s i h => ?_) _ h
  unfold fdSlotClone
  split
  · exact ((h.fileGet _).setSlot i _).setFdFlag i _
  · exact h.setFdFlag i _

end

end Own

theorem destroy_own (s : Kernel) (t : TaskId) : ∃ s',
    (fdCloseAll s t).setTask t (fun k => { k with alive := false }) = s' ∧
    (∀ u, u ≠ t → s'.tasks u = s.tasks u) ∧ s'.ntasks = s.ntasks := by
  have hown : Own t s (fdCloseAll s t) := Own.refl.fdCloseAll
  generalize fdCloseAll s t = s1 at hown
  exact ⟨_, rfl, fun u hu => (Function.update_of_ne hu ..).trans (hown.tasks u hu), hown.ntasks⟩

theorem call_own {e : Event} (hs : call s e = some s') (hc : e.isCall) : Own e.task s s' := by
  cases e <;> simp only [call, Option.some.injEq] at hs
  case sendmsg t fd fds => exact Own.refl.sysSendmsg hs
  case fork | execve | destroy => cases hc
  all_goals subst hs
  case «open» => exact Own.refl.doOpenAbs _ _ _
  case pipe2 => exact Own.refl.sysPipe2 _ _
  case socket => exact Own.refl.socketCreate _ _ _
  case accept => exact Own.refl.sysAccept _ _ _ _
  case socketpair => exact Own.refl.unixSocketpair _ _
  case epollCreate1 => exact Own.refl.sysEpollCreate1 _
  case bind => exact Own.refl.unixBind _ _
  case listen => exact Own.refl.unixListen _
  case connect => exact Own.refl.unixConnect _ _ _
  case dup => exact Own.refl.fdDup _
  case dup2 => exact Own.refl.fdDup2 _ _ _
  case dupfd => exact Own.refl.fcntlDupfd _ _ _
  case setfd => exact Own.refl.fcntlSetfd _ _
  case recvmsg => exact Own.refl.sysRecvmsg _ _
  case close => exact (Own.refl.fdCloseSlot _).ite .refl

end ExoOS.Fs
