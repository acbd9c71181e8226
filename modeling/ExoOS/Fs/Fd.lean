import ExoOS.Lib.RingBuf
import ExoOS.Lib.Run

/-!
# Open files and descriptor tables

`fs/fd.c` (the reference counted `file_t` and the descriptor table of a task) and the system calls that
make, copy, pass and drop references to open files: `open`, `pipe2`, `socket`, `accept`, `socketpair`,
`epoll_create1`, `dup`, `dup2`, `dup3`, `fcntl`, `sendmsg`/`recvmsg` with `SCM_RIGHTS`, `fork`/`clone`,
`execve`, `close` and the destruction of a task. A system call is one step.

Allocations can fail: `mem n` says whether the `n`-th `kmalloc` of a call succeeds. Path lookup, access
checks and the arrival of connections are inputs of the calls that use them.

A freed `file_t` keeps its entry in `files`, with reference count 0; `closes` and `vnodeRef` record what
`file_put` did to it. No function reads the record.
-/

namespace ExoOS.Fs

open Function

abbrev FileId := Nat
abbrev TaskId := Nat
abbrev SockId := Nat

def FD_TABLE_SIZE : Nat := 256
def UNIX_ACCEPT_MAX : Nat := 16
def UNIX_FD_QUEUE : Nat := 16

structure Vnode where
  id : Nat
  hasClose : Bool
  deriving DecidableEq

/-- The `file_ops_t` tables of the source, with the private data that matters here. All have a `close`. -/
inductive FileOps
  | unixSocket (us : SockId)
  | inetSocket
  | pipeRead
  | pipeWrite
  | epoll
  | tty
  deriving DecidableEq

structure File where
  vnode : Option Vnode
  fOps : Option FileOps
  refcount : Nat
  closes : Nat
  /-- The vnode reference that `file_alloc` took has not been released. -/
  vnodeRef : Bool
  deriving DecidableEq

def File.blank : File := { vnode := none, fOps := none, refcount := 0, closes := 0, vnodeRef := false }

structure Task where
  fdTable : Nat → Option FileId
  /-- `FD_CLOEXEC` -/
  fdFlags : Nat → Bool
  alive : Bool

def Task.new : Task := { fdTable := fun _ => none, fdFlags := fun _ => false, alive := true }

inductive UnixState
  | initial | bound | listening | connected | closing
  deriving DecidableEq

structure UnixSock where
  state : UnixState
  peer : Option SockId
  acceptQ : RingBuf SockId
  /-- Files sent with `SCM_RIGHTS` and not yet received. -/
  fdQueue : RingBuf FileId

def UnixSock.zero : UnixSock :=
  { state := .initial
    peer := none
    acceptQ := RingBuf.empty UNIX_ACCEPT_MAX (fun _ => 0) (by decide)
    fdQueue := RingBuf.empty UNIX_FD_QUEUE (fun _ => 0) (by decide) }

structure Kernel where
  files : FileId → File
  nfiles : Nat
  tasks : TaskId → Task
  ntasks : Nat
  socks : SockId → UnixSock
  nsocks : Nat

namespace Kernel

def setFile (s : Kernel) (f : FileId) (g : File → File) : Kernel :=
  { s with files := update s.files f (g (s.files f)) }

def setTask (s : Kernel) (t : TaskId) (g : Task → Task) : Kernel :=
  { s with tasks := update s.tasks t (g (s.tasks t)) }

def setSock (s : Kernel) (us : SockId) (g : UnixSock → UnixSock) : Kernel :=
  { s with socks := update s.socks us (g (s.socks us)) }

def slot (s : Kernel) (t : TaskId) (fd : Nat) : Option FileId := (s.tasks t).fdTable fd

/-- A store to `fd_table[fd]` with `fd_flags[fd] = 0`. -/
def setSlot (s : Kernel) (t : TaskId) (fd : Nat) (o : Option FileId) : Kernel :=
  s.setTask t fun k =>
    { k with fdTable := update k.fdTable fd o, fdFlags := update k.fdFlags fd false }

def setFdFlag (s : Kernel) (t : TaskId) (fd : Nat) (b : Bool) : Kernel :=
  s.setTask t fun k => { k with fdFlags := update k.fdFlags fd b }

def setCloexec (s : Kernel) (t : TaskId) (fd : Nat) (cloexec : Bool) : Kernel :=
  if cloexec then s.setFdFlag t fd true else s

def newSock (s : Kernel) (g : UnixSock → UnixSock) : SockId × Kernel :=
  (s.nsocks, { s with socks := update s.socks s.nsocks (g .zero), nsocks := s.nsocks + 1 })

end Kernel

open Kernel

/-! ### `file_t` -/

def fileAlloc (s : Kernel) (v : Vnode) : FileId × Kernel :=
  (s.nfiles,
    { s with
      files := update s.files s.nfiles
        { vnode := some v, fOps := none, refcount := 1, closes := 0, vnodeRef := true }
      nfiles := s.nfiles + 1 })

def fileAllocGeneric (s : Kernel) (ops : FileOps) : FileId × Kernel :=
  (s.nfiles,
    { s with
      files := update s.files s.nfiles
        { vnode := none, fOps := some ops, refcount := 1, closes := 0, vnodeRef := false }
      nfiles := s.nfiles + 1 })

def fileGet (s : Kernel) (f : FileId) : Kernel :=
  s.setFile f fun k => { k with refcount := k.refcount + 1 }

/-- `unix_close`: the queue of passed files goes away with the socket. -/
def unixClose (s : Kernel) (us : SockId) : Kernel :=
  let s := match (s.socks us).peer with
    | some p => s.setSock p fun k => { k with peer := none }
    | none => s
  s.setSock us fun _ => { UnixSock.zero with state := .closing }

/-- `f_ops->close`. Only a socket's close touches state of this model: `sock_file_close`. -/
def FileOps.close (s : Kernel) : FileOps → Kernel
  | .unixSocket us => unixClose s us
  | _ => s

def fileRelease (s : Kernel) (f : FileId) : Kernel :=
  match (s.files f).fOps, (s.files f).vnode with
  | some ops, _ => ops.close (s.setFile f fun k => { k with closes := k.closes + 1 })
  | none, some v =>
    s.setFile f fun k => { k with closes := k.closes + v.hasClose.toNat, vnodeRef := false }
  | none, none => s

def filePut (s : Kernel) (f : FileId) : Kernel :=
  if (s.files f).refcount = 0 then s
  else
    let s := s.setFile f fun k => { k with refcount := k.refcount - 1 }
    if (s.files f).refcount = 0 then fileRelease s f else s

/-! ### Descriptor tables -/

def fdGet (s : Kernel) (t : TaskId) (fd : Int) : Option FileId :=
  if 0 ≤ fd ∧ fd < FD_TABLE_SIZE then s.slot t fd.toNat else none

def fdFree (s : Kernel) (t : TaskId) (lo : Nat) : Option Nat :=
  (List.range' lo (FD_TABLE_SIZE - lo)).find? fun i => s.slot t i = none

def fdAlloc (s : Kernel) (t : TaskId) (f : FileId) : Option Nat × Kernel :=
  match fdFree s t 0 with
  | some i => (some i, fileGet (s.setSlot t i (some f)) f)
  | none => (none, s)

def fdInstall (s : Kernel) (t : TaskId) (fd : Nat) (f : FileId) : Kernel :=
  let s := match s.slot t fd with
    | some old => filePut s old
    | none => s
  fileGet (s.setSlot t fd (some f)) f

def fdCloseSlot (s : Kernel) (t : TaskId) (fd : Nat) : Kernel :=
  match s.slot t fd with
  | some f => (filePut s f).setSlot t fd none
  | none => s

def fdClose (s : Kernel) (t : TaskId) (fd : Int) : Kernel :=
  if 0 ≤ fd ∧ fd < FD_TABLE_SIZE then fdCloseSlot s t fd.toNat else s

def fdDup (s : Kernel) (t : TaskId) (oldFd : Int) : Kernel :=
  match fdGet s t oldFd with
  | some f => (fdAlloc s t f).2
  | none => s

/-- `fd_dup2`, with the flag that `dup3` sets on the new descriptor. -/
def fdDup2 (s : Kernel) (t : TaskId) (oldFd newFd : Int) (cloexec : Bool) : Kernel :=
  if ¬ (0 ≤ newFd ∧ newFd < FD_TABLE_SIZE) ∨ oldFd = newFd then s
  else
    match fdGet s t oldFd with
    | some f => (fdInstall s t newFd.toNat f).setCloexec t newFd.toNat cloexec
    | none => s

def fdCloseCloexec (s : Kernel) (t : TaskId) : Kernel :=
  (List.range FD_TABLE_SIZE).foldl
    (fun s i => if (s.tasks t).fdFlags i then fdCloseSlot s t i else s) s

def fdCloseAll (s : Kernel) (t : TaskId) : Kernel :=
  (List.range FD_TABLE_SIZE).foldl (fun s i => fdCloseSlot s t i) s

/-- The loop of `fd_setup_stdio`; `inject` says whether the open hook of the console left file operations
in `pending_f_ops`. -/
def setupStdioLoop (t : TaskId) (console : Vnode) (inject : Bool) (mem : Nat → Bool) :
    Kernel → List Nat → Kernel
  | s, [] => s
  | s, fd :: fds =>
    if mem fd then
      let (f, s) := fileAlloc s console
      -- the file keeps its vnode: from here on it has both
      let s := if inject then s.setFile f fun k => { k with fOps := some .tty } else s
      let s := fdInstall s t fd f
      setupStdioLoop t console inject mem (filePut s f) fds
    else s

def fdSetupStdio (s : Kernel) (t : TaskId) (console : Vnode) (inject : Bool) (mem : Nat → Bool) : Kernel :=
  setupStdioLoop t console inject mem s [0, 1, 2]

/-! ### System calls -/

/-- `do_open_abs`, from the vnode that lookup, creation, the access checks and the open hook leave. -/
def doOpenAbs (s : Kernel) (t : TaskId) (v : Option Vnode) (mem cloexec : Bool) : Kernel :=
  match v with
  | none => s
  | some v =>
    if mem then
      let (f, s) := fileAlloc s v
      let (fd, s) := fdAlloc s t f
      let s := filePut s f
      match fd with
      | some fd => s.setCloexec t fd cloexec
      | none => s
    else s

def sysPipe2 (s : Kernel) (t : TaskId) (mem : Nat → Bool) (cloexec : Bool) : Kernel :=
  if mem 0 && mem 1 then
    let (rf, s) := fileAllocGeneric s .pipeRead
    if mem 2 then
      let (wf, s) := fileAllocGeneric s .pipeWrite
      match fdAlloc s t rf with
      | (none, s) => filePut (filePut s rf) wf
      | (some rfd, s) =>
        match fdAlloc s t wf with
        | (none, s) => filePut (filePut (fdCloseSlot s t rfd) rf) wf
        | (some wfd, s) =>
          let s := (s.setCloexec t rfd cloexec).setCloexec t wfd cloexec
          filePut (filePut s rf) wf
    else filePut s rf
  else s

/-- What the arguments of `socket` select; `unsupported` stands for every combination that is turned down
before anything is allocated. -/
inductive Domain
  | unix | inet | unsupported
  deriving DecidableEq

def socketCreate (s : Kernel) (t : TaskId) (d : Domain) (mem : Nat → Bool) (cloexec : Bool) : Kernel :=
  match d with
  | .unix =>
    if mem 0 && mem 1 then
      let (us, s) := s.newSock id
      if mem 2 then
        let (f, s) := fileAllocGeneric s (.unixSocket us)
        match fdAlloc s t f with
        -- the socket is freed, the file is not
        | (none, s) => s
        | (some fd, s) => s.setCloexec t fd cloexec
      else s
    else s
  | .inet =>
    if mem 0 && mem 1 then
      let (f, s) := fileAllocGeneric s .inetSocket
      match fdAlloc s t f with
      | (none, s) => filePut s f
      | (some fd, s) => s.setCloexec t fd cloexec
    else s
  | .unsupported => s

/-- `socket_from_fd`: the file operations of a descriptor that is a socket. -/
def socketFromFd (s : Kernel) (t : TaskId) (fd : Int) : Option FileOps :=
  match fdGet s t fd with
  | some f =>
    match (s.files f).fOps with
    | some (.unixSocket us) => some (.unixSocket us)
    | some .inetSocket => some .inetSocket
    | _ => none
  | none => none

def unixAccept (s : Kernel) (t : TaskId) (us : SockId) (mem : Nat → Bool) (cloexec : Bool) : Kernel :=
  let l := s.socks us
  if l.state = .listening ∧ l.acceptQ.head ≠ l.acceptQ.tail then
    let us' := l.acceptQ.cell 0
    let s := s.setSock us fun k => { k with acceptQ := k.acceptQ.advance 1 }
    if mem 0 && mem 1 then
      let (f, s) := fileAllocGeneric s (.unixSocket us')
      match fdAlloc s t f with
      | (none, s) => s.setSock us' fun k => { k with state := .closing }
      | (some fd, s) => s.setCloexec t fd cloexec
    else s.setSock us' fun k => { k with state := .closing }
  else s

/-- `ready`: the socket listens and a connection waits in its accept queue. -/
def tcpSockAccept (s : Kernel) (t : TaskId) (ready : Bool) (mem : Nat → Bool) (cloexec : Bool) : Kernel :=
  if ready && mem 0 && mem 1 then
    let (f, s) := fileAllocGeneric s .inetSocket
    match fdAlloc s t f with
    | (none, s) => filePut s f
    | (some fd, s) => s.setCloexec t fd cloexec
  else s

def sysAccept (s : Kernel) (t : TaskId) (fd : Int) (ready : Bool) (mem : Nat → Bool) (cloexec : Bool) :
    Kernel :=
  match socketFromFd s t fd with
  | some (.unixSocket us) => unixAccept s t us mem cloexec
  | some .inetSocket => tcpSockAccept s t ready mem cloexec
  | _ => s

/-- `unix_socketpair`. Both `file_t` are asked for before either is checked. -/
def unixSocketpair (s : Kernel) (t : TaskId) (mem : Nat → Bool) (cloexec : Bool) : Kernel :=
  if mem 0 && mem 1 && mem 2 && mem 3 then
    let ub := s.nsocks + 1
    let (ua, s) := s.newSock fun k => { k with state := .connected, peer := some ub }
    let (ub, s) := s.newSock fun k => { k with state := .connected, peer := some ua }
    match mem 4, mem 5 with
    | true, true =>
      let (fa, s) := fileAllocGeneric s (.unixSocket ua)
      let (fb, s) := fileAllocGeneric s (.unixSocket ub)
      match fdAlloc s t fa with
      | (none, s) => s
      | (some fda, s) =>
        match fdAlloc s t fb with
        | (none, s) => fdCloseSlot s t fda
        | (some fdb, s) => (s.setCloexec t fda cloexec).setCloexec t fdb cloexec
    | true, false => (fileAllocGeneric s (.unixSocket ua)).2
    | false, true => (fileAllocGeneric s (.unixSocket ub)).2
    | false, false => s
  else s

def sysEpollCreate1 (s : Kernel) (t : TaskId) (mem : Nat → Bool) : Kernel :=
  if mem 0 && mem 1 then
    let (f, s) := fileAllocGeneric s .epoll
    (fdAlloc s t f).2
  else s

def fcntlDupfd (s : Kernel) (t : TaskId) (fd minFd : Int) (cloexec : Bool) : Kernel :=
  match fdGet s t fd with
  | some f =>
    if minFd < 0 then s
    else
      match fdFree s t minFd.toNat with
      | some i => (fdInstall s t i f).setCloexec t i cloexec
      | none => s
  | none => s

def fcntlSetfd (s : Kernel) (t : TaskId) (fd : Int) (cloexec : Bool) : Kernel :=
  match fdGet s t fd with
  | some _ => s.setFdFlag t fd.toNat cloexec
  | none => s

/-- `unix_push_files`. A descriptor that is not open is a null pointer here, and the call does not return
from its use. -/
def unixPushFiles (dest : SockId) : Kernel → List (Option FileId) → Option Kernel
  | s, [] => some s
  | s, o :: os =>
    if (s.socks dest).fdQueue.Full then some s
    else
      match o with
      | none => none
      | some f =>
        unixPushFiles dest
          ((fileGet s f).setSock dest fun k => { k with fdQueue := k.fdQueue.push f }) os

def unixPopFiles (src : SockId) (t : TaskId) : Kernel → Nat → Kernel
  | s, 0 => s
  | s, n + 1 =>
    if (s.socks src).fdQueue.head = (s.socks src).fdQueue.tail then s
    else
      let f := (s.socks src).fdQueue.cell 0
      let s := s.setSock src fun k => { k with fdQueue := k.fdQueue.advance 1 }
      unixPopFiles src t (fdAlloc s t f).2 n

/-- `sendmsg` with an `SCM_RIGHTS` control message that names the descriptors `fds`. -/
def sysSendmsg (s : Kernel) (t : TaskId) (fd : Int) (fds : List Int) : Option Kernel :=
  match socketFromFd s t fd with
  | some (.unixSocket us) =>
    match (s.socks us).peer with
    | some p => unixPushFiles p s ((fds.take 16).map (fdGet s t))
    | none => some s
  | _ => some s

/-- How many files a control buffer of `cap` bytes has room for, after the credentials: an `int`. -/
def scmMaxFds (cap : Nat) : Nat :=
  if cap < 36 then 0
  else
    let n := (cap - 36) / 4 % 2 ^ 32
    if n < 2 ^ 31 then min n 16 else 0

/-- `recvmsg`, when the receive loop did not fail. -/
def sysRecvmsg (s : Kernel) (t : TaskId) (fd : Int) (cap : Nat) : Kernel :=
  match socketFromFd s t fd with
  | some (.unixSocket us) => unixPopFiles us t s (scmMaxFds cap)
  | _ => s

def fdSlotClone (child parent : TaskId) (s : Kernel) (i : Nat) : Kernel :=
  let s := match s.slot parent i with
    | some f => (fileGet s f).setSlot child i (some f)
    | none => s
  s.setFdFlag child i ((s.tasks parent).fdFlags i)

/-- `fd_table_clone`, from the new child's empty table on. -/
def fdTableClone (s : Kernel) (child parent : TaskId) : Kernel :=
  (List.range FD_TABLE_SIZE).foldl (fdSlotClone child parent) s

def sysFork (s : Kernel) (t : TaskId) (mem : Bool) : Kernel :=
  if mem then
    let child := s.ntasks
    let s := { s with tasks := update s.tasks child .new, ntasks := s.ntasks + 1 }
    fdTableClone s child t
  else s

/-- `execve`, once it can no longer fail; `tty` is what the lookup of the console gives. -/
def sysExecve (s : Kernel) (t : TaskId) (tty : Option (Vnode × Bool)) (mem : Nat → Bool) : Kernel :=
  let s := fdCloseCloexec s t
  if s.slot t 0 = none ∨ s.slot t 1 = none ∨ s.slot t 2 = none then
    match tty with
    | some (v, inject) => fdSetupStdio s t v inject mem
    | none => s
  else s

def unixBind (s : Kernel) (t : TaskId) (fd : Int) (ok : Bool) : Kernel :=
  match socketFromFd s t fd with
  | some (.unixSocket us) =>
    if (s.socks us).state = .initial ∧ ok then s.setSock us fun k => { k with state := .bound } else s
  | _ => s

def unixListen (s : Kernel) (t : TaskId) (fd : Int) : Kernel :=
  match socketFromFd s t fd with
  | some (.unixSocket us) =>
    if (s.socks us).state = .bound then s.setSock us fun k => { k with state := .listening } else s
  | _ => s

/-- `unix_connect`, to the listener that the name in the call resolves to. -/
def unixConnect (s : Kernel) (t : TaskId) (fd : Int) (listener : Option SockId) (mem : Bool) : Kernel :=
  match socketFromFd s t fd, listener with
  | some (.unixSocket uc), some l =>
    if (s.socks uc).state = .connected ∨ (s.socks l).state ≠ .listening ∨ (s.socks l).acceptQ.Full ∨ ¬ mem
    then s
    else
      let (us, s) := s.newSock fun k => { k with state := .connected, peer := some uc }
      let s := s.setSock uc fun k => { k with peer := some us, state := .connected }
      s.setSock l fun k => { k with acceptQ := k.acceptQ.push us }
  | _, _ => s

inductive Event
  | open (t : TaskId) (v : Option Vnode) (mem cloexec : Bool)
  | pipe2 (t : TaskId) (mem : Nat → Bool) (cloexec : Bool)
  | socket (t : TaskId) (d : Domain) (mem : Nat → Bool) (cloexec : Bool)
  | accept (t : TaskId) (fd : Int) (ready : Bool) (mem : Nat → Bool) (cloexec : Bool)
  | socketpair (t : TaskId) (mem : Nat → Bool) (cloexec : Bool)
  | epollCreate1 (t : TaskId) (mem : Nat → Bool)
  | bind (t : TaskId) (fd : Int) (ok : Bool)
  | listen (t : TaskId) (fd : Int)
  | connect (t : TaskId) (fd : Int) (listener : Option SockId) (mem : Bool)
  | dup (t : TaskId) (fd : Int)
  | dup2 (t : TaskId) (oldFd newFd : Int) (cloexec : Bool)
  | dupfd (t : TaskId) (fd minFd : Int) (cloexec : Bool)
  | setfd (t : TaskId) (fd : Int) (cloexec : Bool)
  | sendmsg (t : TaskId) (fd : Int) (fds : List Int)
  | recvmsg (t : TaskId) (fd : Int) (cap : Nat)
  | fork (t : TaskId) (mem : Bool)
  | execve (t : TaskId) (tty : Option (Vnode × Bool)) (mem : Nat → Bool)
  | close (t : TaskId) (fd : Int)
  | destroy (t : TaskId)

def Event.task : Event → TaskId
  | .open t .. | .pipe2 t .. | .socket t .. | .accept t .. | .socketpair t .. | .epollCreate1 t ..
  | .bind t .. | .listen t .. | .connect t .. | .dup t .. | .dup2 t .. | .dupfd t .. | .setfd t ..
  | .sendmsg t .. | .recvmsg t .. | .fork t .. | .execve t .. | .close t .. | .destroy t => t

def Event.isCall : Event → Bool
  | .fork .. | .execve .. | .destroy _ => false
  | _ => true

def call (s : Kernel) : Event → Option Kernel
  | .open t v mem cloexec => some (doOpenAbs s t v mem cloexec)
  | .pipe2 t mem cloexec => some (sysPipe2 s t mem cloexec)
  | .socket t d mem cloexec => some (socketCreate s t d mem cloexec)
  | .accept t fd ready mem cloexec => some (sysAccept s t fd ready mem cloexec)
  | .socketpair t mem cloexec => some (unixSocketpair s t mem cloexec)
  | .epollCreate1 t mem => some (sysEpollCreate1 s t mem)
  | .bind t fd ok => some (unixBind s t fd ok)
  | .listen t fd => some (unixListen s t fd)
  | .connect t fd listener mem => some (unixConnect s t fd listener mem)
  | .dup t fd => some (fdDup s t fd)
  | .dup2 t oldFd newFd cloexec => some (fdDup2 s t oldFd newFd cloexec)
  | .dupfd t fd minFd cloexec => some (fcntlDupfd s t fd minFd cloexec)
  | .setfd t fd cloexec => some (fcntlSetfd s t fd cloexec)
  | .sendmsg t fd fds => sysSendmsg s t fd fds
  | .recvmsg t fd cap => some (sysRecvmsg s t fd cap)
  | .fork t mem => some (sysFork s t mem)
  | .execve t tty mem => some (sysExecve s t tty mem)
  | .close t fd => some (fdClose s t fd)
  | .destroy t => some ((fdCloseAll s t).setTask t fun k => { k with alive := false })

def step (s : Kernel) (e : Event) : Option Kernel :=
  if e.task < s.ntasks ∧ (s.tasks e.task).alive then call s e else none

end ExoOS.Fs
