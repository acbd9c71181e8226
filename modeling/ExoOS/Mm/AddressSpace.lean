import ExoOS.Mm.Memory
import ExoOS.Mm.TablePages

/-!
# Address spaces

How address spaces come and go: `vmm_create_address_space`, `vmm_destroy_address_space`, and `sys_execve`, which
loads a program into a new space and destroys the old one. A process whose `cr3` is 0 has no address space
(page 0 is never handed out). `SpaceEvent` collects everything that makes, changes or destroys one.

Of `sys_execve` the part that deals with memory is here. What is written to the new stack is data and left out.
-/

namespace ExoOS.Mm

variable {ι : Type} [DecidableEq ι]

def USER_STACK_TOP : Nat := 0x7FFFFFF00000
def EXEC_STACK_PREMAP_PAGES : Nat := 64
def EXEC_STACK_VMA_PAGES : Nat := 2048

def Memory.Live (s : Memory ι) (i : ι) : Prop := (s.procs i).cr3 ≠ 0

instance (s : Memory ι) (i : ι) : Decidable (s.Live i) := inferInstanceAs (Decidable (_ ≠ _))

def vmmCreateAddressSpace (s : Memory ι) (i : ι) : Option (Memory ι) :=
  (s.pmm.allocPages 1).map fun r =>
    { s with pmm := r.2 }.setProc i { s.procs i with cr3 := r.1, user := fun _ => none }

def destroySpace (m : Pmm) (P : Proc) : Pmm :=
  if P.cr3 = 0 then m else (freeHalf m P.user).freePagesAt P.cr3 1

def vmmDestroyAddressSpace (s : Memory ι) (i : ι) : Memory ι :=
  { s with pmm := destroySpace s.pmm (s.procs i) }.setProc i
    { s.procs i with cr3 := 0, user := fun _ => none }

/-! ### `sys_execve` -/

/-- A program file: its loadable segments, whether all headers pass the checks, and the end of its image. -/
structure Image where
  segs : List Segment
  good : Bool
  brk : Nat

def loadImage (i : ι) (img : Image) (s : Memory ι) : Option (Bool × Memory ι) :=
  (elfLoad i img.segs s).map fun r => (r.1 && img.good, r.2)

/-- The interpreter, if the program names one: it cannot be read, or is loaded too. -/
def loadInterp (i : ι) (s : Memory ι) : Option (Option Image) → Option (Bool × Memory ι)
  | none => some (true, s)
  | some none => some (false, s)
  | some (some img) => loadImage i img s

def releaseSharedVmaMappings (s : Memory ι) (i : ι) (P : Proc) : Memory ι :=
  let pte := (s.setProc i P).pte i
  P.vmas.foldl (fun s v =>
    match v.flags.file && v.flags.shared, v.file with
    | true, some vn =>
      (List.range ((v.stop - v.start + (PAGE_SIZE - 1)) / PAGE_SIZE)).foldl (fun s k =>
        if (pte (v.start + k * PAGE_SIZE)).present && decide (k * PAGE_SIZE < v.fileSize) then
          pagecacheRelease s vn ((v.fileOffset + k * PAGE_SIZE) % 2 ^ 64)
        else s) s
    | _, _ => s) s

def premapAddr (k : Nat) : Nat := USER_STACK_TOP - (EXEC_STACK_PREMAP_PAGES - k) * PAGE_SIZE

/-- The loop that maps the top of the stack; a page that cannot be had is left out. -/
def premapStack (i : ι) : Nat → Nat → Memory ι → Option (Memory ι)
  | 0, _, s => some s
  | n + 1, k, s =>
    match zeroFrame s with
    | (none, s) => premapStack i n (k + 1) s
    | (some p, s) =>
      (s.mapPage i (premapAddr k)
          { pfn := p, present := true, write := true, user := true, nx := false, cow := false }).bind
        (premapStack i n (k + 1))

def stackVma : Vma where
  start := USER_STACK_TOP - EXEC_STACK_VMA_PAGES * PAGE_SIZE
  stop := USER_STACK_TOP
  flags := { read := true, write := true, exec := false, anon := false, heap := false, shared := false
             file := false }
  file := none
  fileOffset := 0
  fileSize := 0

def execMmapNext (interp : Option (Option Image)) : Nat :=
  match interp with
  | some (some img) => if USER_MMAP_BASE < img.brk then pageAlignUp img.brk else USER_MMAP_BASE
  | _ => USER_MMAP_BASE

def loadProgram (i : ι) (exe : Image) (interp : Option (Option Image)) (s : Memory ι) :
    Option (Bool × Memory ι) :=
  (loadImage i exe s).bind fun r => if r.1 then loadInterp i r.2 interp else some r

/-- The program is loaded: the old address space goes, and the new one gets a stack. -/
def enterProgram (mem : Bool) (i : ι) (old : Proc) (interp : Option (Option Image)) (s : Memory ι) :
    Option (Memory ι) :=
  let s := releaseSharedVmaMappings s i old
  let s := { s with pmm := destroySpace s.pmm old }
  let s := s.setProc i { s.procs i with vmas := [], mmapNext := execMmapNext interp }
  (premapStack i EXEC_STACK_PREMAP_PAGES 0 s).map fun s =>
    s.setProc i { s.procs i with vmas := if mem then [stackVma] else [] }

/-- `sys_execve` once the program file has been read; `mem`: the stack area could be allocated. -/
def sysExecve (mem : Bool) (s : Memory ι) (i : ι) (exe : Image) (interp : Option (Option Image)) :
    Option (Bool × Memory ι) :=
  (vmmCreateAddressSpace s i).bind fun s1 =>
    (loadProgram i exe interp s1).bind fun r =>
      if r.1 then (enterProgram mem i (s.procs i) interp r.2).map fun s' => (true, s')
      else some (false, (vmmDestroyAddressSpace r.2 i).setProc i (s.procs i))

inductive SpaceEvent (ι : Type)
  | create (i : ι)
  | clone (i j : ι) (nv : Nat)
  | mmap (mem : Nat → Bool) (i : ι) (addr len : Nat) (prot : Prot) (fl : MmapFlags) (b : Backing) (offset : Nat)
  | munmap (mem : Nat → Bool) (i : ι) (addr len : Nat)
  | fault (env : FaultEnv) (i : ι) (a : Nat) (write : Bool)
  | execve (mem : Bool) (i : ι) (exe : Image) (interp : Option (Option Image))
  | destroy (i : ι)

/-- Calls are made by processes that have an address space; a new one is made for a process that has none. -/
def spaceStep (s : Memory ι) : SpaceEvent ι → Option (Memory ι)
  | .create i => if s.Live i then none else vmmCreateAddressSpace s i
  | .clone i j nv => if s.Live i ∧ ¬ s.Live j then sysFork s i j nv else none
  | .mmap mem i addr len prot fl b offset =>
    if s.Live i then (sysMmap mem s i addr len prot fl b offset).map Prod.snd else none
  | .munmap mem i addr len => if s.Live i then some (sysMunmap mem s i addr len).2 else none
  | .fault env i a w =>
    if s.Live i then
      (handlePageFault env s i a { present := (s.pte i a).present, write := w }).map Prod.snd
    else none
  | .execve mem i exe interp => if s.Live i then (sysExecve mem s i exe interp).map Prod.snd else none
  | .destroy i => if s.Live i then some (vmmDestroyAddressSpace s i) else none

end ExoOS.Mm
