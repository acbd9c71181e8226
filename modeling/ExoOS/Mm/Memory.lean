import ExoOS.Lib.Run
import ExoOS.Mm.PageTable
import ExoOS.Mm.Vma

/-!
# Processes and their memory

Address spaces, the page cache, the fault handler (`vmm_handle_page_fault`) and the system calls on mappings:
`mmap`, `munmap`, `mprotect`, `fork`, and the mapping part of `elf_load`. Processes are named by a type `ι`.

`none` stands for `kpanic`: there is no page for a page table. Failures that the code handles are part of
the result. `wrote` records the last byte each process has written to an address; no function reads it.
-/

namespace ExoOS.Mm

open Function

abbrev Byte := BitVec 8

abbrev Page := Nat → Byte

structure CacheEntry where
  vn : Nat
  offset : Nat
  physPage : Nat
  refcount : Nat

structure Proc where
  cr3 : Nat
  user : Half
  vmas : List Vma
  mmapNext : Nat

structure Memory (ι : Type) where
  procs : ι → Proc
  /-- The kernel half, shared by all address spaces. -/
  kern : Half
  pmm : Pmm
  data : Nat → Page
  cache : List CacheEntry
  /-- What a zeroed page holds after the page of a file at an offset has been read into it. -/
  content : Nat → Nat → Page
  wrote : ι → Nat → Option Byte

namespace Memory

variable {ι : Type} [DecidableEq ι]

def half (s : Memory ι) (i : ι) (virt : Nat) : Half := if isKernel virt then s.kern else (s.procs i).user

def setProc (s : Memory ι) (i : ι) (p : Proc) : Memory ι := { s with procs := update s.procs i p }

def setHalf (s : Memory ι) (i : ι) (virt : Nat) (h : Half) : Memory ι :=
  if isKernel virt then { s with kern := h } else s.setProc i { s.procs i with user := h }

/-- The entry that `get_pte_in` finds, zero if there is no table. -/
def pte (s : Memory ι) (i : ι) (virt : Nat) : Pte := (lookup (s.half i virt) (loc virt)).getD .zero

def setPteAt (s : Memory ι) (i : ι) (virt : Nat) (e : Pte) : Memory ι :=
  s.setHalf i virt (setPte (s.half i virt) (loc virt) e)

def mapPage (s : Memory ι) (i : ι) (virt : Nat) (e : Pte) : Option (Memory ι) :=
  (mapPageIn s.pmm (s.half i virt) (loc virt) e).map fun r => { s with pmm := r.2 }.setHalf i virt r.1

end Memory

variable {ι : Type} [DecidableEq ι]

open Memory

def pageAlign (a : Nat) : Nat := a / PAGE_SIZE * PAGE_SIZE

/-- `(x + PAGE_SIZE - 1) & ~(PAGE_SIZE - 1)` on 64 bits. -/
def pageAlignUp (x : Nat) : Nat := pageAlign ((x + (PAGE_SIZE - 1)) % 2 ^ 64)

/-! ### Page cache -/

/-- What can go wrong in the page cache: the read, the allocation of an entry. -/
structure FaultEnv where
  io : Bool
  mem : Bool

def CacheEntry.IsFor (e : CacheEntry) (vn offset : Nat) : Prop := e.vn = vn ∧ e.offset = offset

instance (e : CacheEntry) (vn offset : Nat) : Decidable (e.IsFor vn offset) :=
  inferInstanceAs (Decidable (_ ∧ _))

def cacheCount (c : List CacheEntry) (vn offset : Nat) (g : Nat → Nat) : List CacheEntry :=
  c.map fun e => if e.IsFor vn offset then { e with refcount := g e.refcount } else e

def pagecacheLookup (s : Memory ι) (vn offset : Nat) : Option Nat × Memory ι :=
  match s.cache.find? fun e => e.IsFor vn offset with
  | none => (none, s)
  | some e =>
    (some e.physPage,
      { s with cache := cacheCount s.cache vn offset (· + 1), pmm := s.pmm.pageRef e.physPage })

def pagecacheRelease (s : Memory ι) (vn offset : Nat) : Memory ι :=
  { s with cache := cacheCount s.cache vn (pageAlign offset) (· - 1) }

def pagecacheGetOrRead (env : FaultEnv) (s : Memory ι) (vn off : Nat) : Option Nat × Memory ι :=
  let offset := pageAlign off
  match pagecacheLookup s vn offset with
  | (some p, s) => (some p, s)
  | (none, s) =>
    match s.pmm.allocPages 1 with
    | none => (none, s)
    | some (p, m) =>
      let s := { s with pmm := m, data := update s.data p (s.content vn offset) }
      if env.io && env.mem then
        pagecacheLookup { s with cache := ⟨vn, offset, p, 0⟩ :: s.cache } vn offset
      else (none, { s with pmm := s.pmm.pageUnref p })

/-! ### Page faults -/

/-- The bits of the error code that the handler reads. -/
structure FaultCode where
  present : Bool
  write : Bool

def zeroFrame (s : Memory ι) : Option Nat × Memory ι :=
  match s.pmm.allocPages 1 with
  | none => (none, s)
  | some (p, m) => (some p, { s with pmm := m, data := update s.data p fun _ => 0 })

def demandFrame (env : FaultEnv) (s : Memory ι) (v : Vma) (page : Nat) : Option Nat × Memory ι :=
  match v.flags.file, v.file with
  | true, some vn =>
    let within := (page + 2 ^ 64 - v.start) % 2 ^ 64
    let foff := (v.fileOffset + within) % 2 ^ 64
    if within < v.fileSize then
      match pagecacheGetOrRead env s vn foff with
      | (none, s) => (none, s)
      | (some cached, s) =>
        if v.flags.shared then (some cached, s)
        else
          match s.pmm.allocPages 1 with
          | none =>
            let s := pagecacheRelease s vn foff
            (none, { s with pmm := s.pmm.pageUnref cached })
          | some (p, m) =>
            let s := { s with pmm := m, data := update s.data p (s.data cached) }
            let s := pagecacheRelease s vn foff
            (some p, { s with pmm := s.pmm.pageUnref cached })
    else zeroFrame s
  | _, _ => zeroFrame s

def Vma.pteFor (v : Vma) (p : Nat) : Pte :=
  { pfn := p, present := true, write := v.flags.write, user := true, nx := !v.flags.exec, cow := false }

/-- Case 2 of `vmm_handle_page_fault`. -/
def demandPage (env : FaultEnv) (s : Memory ι) (i : ι) (a : Nat) : Option (Bool × Memory ι) :=
  match vmaFindForAddr (s.procs i).vmas a with
  | none => some (false, s)
  | some v =>
    match demandFrame env s v (pageAlign a) with
    | (none, s) => some (false, s)
    | (some p, s) => (s.mapPage i (pageAlign a) (v.pteFor p)).map fun s => (true, s)

/-- Case 1 of `vmm_handle_page_fault`: `e` is the entry of a present copy-on-write page. -/
def cowPage (s : Memory ι) (i : ι) (a : Nat) (e : Pte) : Bool × Memory ι :=
  match s.pmm.allocPages 1 with
  | none => (false, s)
  | some (p, m) =>
    let s := s.setPteAt i a { e with pfn := p, cow := false, write := true }
    (true, { s with data := update s.data p (s.data e.pfn), pmm := m.pageUnref e.pfn })

def handlePageFault (env : FaultEnv) (s : Memory ι) (i : ι) (a : Nat) (err : FaultCode) :
    Option (Bool × Memory ι) :=
  let e := s.pte i a
  if err.write && e.present && e.cow then some (cowPage s i a e)
  else if err.present then some (false, s)
  else demandPage env s i a

/-! ### User accesses -/

def Pte.Permits (e : Pte) (write : Bool) : Prop := e.present ∧ e.user ∧ (write → e.write)

instance (e : Pte) (write : Bool) : Decidable (e.Permits write) := inferInstanceAs (Decidable (_ ∧ _))

/-- An access by user code: the page it reaches, or `none` when the handler gives up. It is made again
after every fault that was handled; `n` bounds how often. -/
def access (env : FaultEnv) (i : ι) (a : Nat) (write : Bool) : Nat → Memory ι → Option (Option Nat × Memory ι)
  | 0, _ => none
  | n + 1, s =>
    let e := s.pte i a
    if e.Permits write then some (some e.pfn, s)
    else
      match handlePageFault env s i a { present := e.present, write := write } with
      | none => none
      | some (false, s) => some (none, s)
      | some (true, s) => access env i a write n s

def userRead (env : FaultEnv) (s : Memory ι) (i : ι) (a : Nat) : Option (Option Byte × Memory ι) :=
  (access env i a false 3 s).map fun r => (r.1.map fun p => r.2.data p (a % PAGE_SIZE), r.2)

def userWrite (env : FaultEnv) (s : Memory ι) (i : ι) (a : Nat) (b : Byte) : Option (Memory ι) :=
  (access env i a true 3 s).map fun r =>
    match r.1 with
    | none => r.2
    | some p =>
      { r.2 with
        data := update r.2.data p (update (r.2.data p) (a % PAGE_SIZE) b)
        wrote := update r.2.wrote i (update (r.2.wrote i) a (some b)) }

/-! ### System calls -/

def EEXIST : Int := 17
def ENOMEM : Int := 12
def EINVAL : Int := 22

/-- `prot`: the three bits, and whether any other is set. -/
structure Prot where
  read : Bool
  write : Bool
  exec : Bool
  other : Bool

/-- The addresses `addr`, `addr + PAGE_SIZE`, ... of `n` pages, on 64 bits. -/
def pageAddr (addr k : Nat) : Nat := (addr + k * PAGE_SIZE) % 2 ^ 64

/-- The second loop of `sys_mprotect`, one page. -/
def protectPage (i : ι) (prot : Prot) (s : Memory ι) (a : Nat) : Memory ι :=
  let e := s.pte i a
  if e.present then
    s.setPteAt i a
      { pfn := e.pfn, present := true, write := prot.write, user := true, nx := !prot.exec, cow := false }
  else s

def vmaApplyMprotect (start stop : Nat) (prot : Prot) (mem : Nat → Bool) (vs : List Vma) : Int × List Vma × Nat :=
  if stop ≤ start then (-EINVAL, vs, 0)
  else
    let r := applyMprotect start stop prot.read prot.write prot.exec mem 0 vs
    (if r.2.1 then 0 else -ENOMEM, r.1, r.2.2)

def sysMprotect (mem : Nat → Bool) (s : Memory ι) (i : ι) (addr len : Nat) (prot : Prot) : Int × Memory ι :=
  if addr % PAGE_SIZE ≠ 0 ∨ len = 0 then (-EINVAL, s)
  else if prot.other then (-EINVAL, s)
  else
    let len := pageAlignUp len
    let stop := (addr + len) % 2 ^ 64
    if stop < addr then (-EINVAL, s)
    else
      let vs := (s.procs i).vmas
      let n := (stop - addr) / PAGE_SIZE
      if (List.range n).all fun k => (vmaFindForAddr vs (addr + k * PAGE_SIZE)).isSome ||
          (s.pte i (addr + k * PAGE_SIZE)).present then
        let r := if vs.any fun v => decide (¬ (v.stop ≤ addr ∨ stop ≤ v.start)) then
            vmaApplyMprotect addr stop prot mem vs
          else (0, vs, 0)
        let s := s.setProc i { s.procs i with vmas := r.2.1 }
        if r.1 < 0 then (r.1, s)
        else (0, (List.range (len / PAGE_SIZE)).foldl (fun s k => protectPage i prot s (pageAddr addr k)) s)
      else (-ENOMEM, s)

/-- `vmm_unmap_page_in` and the release of the page. -/
def unmapPage (i : ι) (s : Memory ι) (a : Nat) : Memory ι :=
  let e := s.pte i a
  if e.present then
    let s := s.setPteAt i a .zero
    { s with pmm := s.pmm.pageUnref e.pfn }
  else s

/-- The first loop of `sys_munmap`, one page. -/
def munmapPage (i : ι) (s : Memory ι) (a : Nat) : Memory ι :=
  let mv := vmaFindForAddr (s.procs i).vmas a
  let s := unmapPage i s a
  match mv with
  | none => s
  | some v =>
    match v.flags.file && v.flags.shared, v.file with
    | true, some vn =>
      let within := (a + 2 ^ 64 - v.start) % 2 ^ 64
      if within < v.fileSize then pagecacheRelease s vn ((v.fileOffset + within) % 2 ^ 64) else s
    | _, _ => s

def sysMunmap (mem : Nat → Bool) (s : Memory ι) (i : ι) (addr len : Nat) : Int × Memory ι :=
  if len = 0 ∨ addr % PAGE_SIZE ≠ 0 then (-EINVAL, s)
  else
    let len := pageAlignUp len
    let s := (List.range (len / PAGE_SIZE)).foldl (fun s k => munmapPage i s (pageAddr addr k)) s
    (0, s.setProc i { s.procs i with
      vmas := munmapVmas addr ((addr + len) % 2 ^ 64) mem 0 (s.procs i).vmas })

structure MmapFlags where
  fixed : Bool
  noreplace : Bool
  shared : Bool

/-- What is mapped: zeros, a regular file (with its size) that passed the checks, or something refused. -/
inductive Backing
  | anon
  | file (vn size : Nat)
  | refused

/-- The loop of `sys_mmap` that maps anonymous pages; `k` of them are mapped. On failure they are unmapped
again. -/
def mapAnon (i : ι) (addr : Nat) (w x : Bool) : Nat → Nat → Memory ι → Option (Bool × Memory ι)
  | 0, _, s => some (true, s)
  | n + 1, k, s =>
    match zeroFrame s with
    | (none, s) => some (false, (List.range k).foldl (fun s j => unmapPage i s (pageAddr addr j)) s)
    | (some p, s) =>
      (s.mapPage i (pageAddr addr k)
          { pfn := p, present := true, write := w, user := true, nx := !x, cow := false }).bind
        (mapAnon i addr w x n (k + 1))

def mmapVma (addr len : Nat) (prot : Prot) (fl : MmapFlags) (b : Backing) (offset : Nat) : Vma :=
  let flags : VmaFlags :=
    { read := prot.read, write := prot.write, exec := prot.exec, heap := false, shared := fl.shared
      anon := match b with | .anon => true | _ => false
      file := match b with | .anon => false | _ => true }
  match b with
  | .file vn size =>
    let fsize := if offset < size then size - offset else 0
    { start := addr, stop := (addr + len) % 2 ^ 64, flags, file := some vn, fileOffset := offset
      fileSize := if len < fsize then len else fsize }
  | _ =>
    { start := addr, stop := (addr + len) % 2 ^ 64, flags, file := none, fileOffset := offset
      fileSize := 0 }

/-- `sys_mmap`. Files with a `mmap` operation of their own cannot be opened by a system call, so that branch
is left out. `mem 0` is the allocation of the area, later ones those of `sys_munmap`. -/
def sysMmap (mem : Nat → Bool) (s : Memory ι) (i : ι) (addr len : Nat) (prot : Prot) (fl : MmapFlags)
    (b : Backing) (offset : Nat) : Option (Int × Memory ι) :=
  if len = 0 ∨ (fl.noreplace ∧ ¬ fl.fixed) then some (-EINVAL, s)
  else
    match b with
    | .refused => some (-EINVAL, s)
    | b =>
      let len := pageAlignUp len
      if fl.fixed ∧ addr = 0 then some (-EINVAL, s)
      else
        let old := (s.procs i).mmapNext
        let mapAddr := if fl.fixed then pageAlign addr else old
        let s := if fl.fixed then s
          else s.setProc i { s.procs i with mmapNext := (old + len) % 2 ^ 64 }
        if fl.noreplace ∧ vmaOverlapsRange (s.procs i).vmas mapAddr ((mapAddr + len) % 2 ^ 64) then
          some (-EEXIST, s)
        else
          let r := if fl.fixed then sysMunmap (fun k => mem (k + 1)) s i mapAddr len else (0, s)
          if r.1 < 0 then some r
          else
            let mapped := match b with
              | .anon => mapAnon i mapAddr prot.write prot.exec (len / PAGE_SIZE) 0 r.2
              | _ => some (true, r.2)
            mapped.map fun q =>
              if q.1 then
                let v := mmapVma mapAddr len prot fl b offset
                let s := if mem 0 then
                    q.2.setProc i { q.2.procs i with vmas := vmaInsert v (q.2.procs i).vmas }
                  else q.2
                (mapAddr, s)
              else
                let s := if fl.fixed then q.2 else q.2.setProc i { q.2.procs i with mmapNext := old }
                (-ENOMEM, s)

/-- `vmm_clone_address_space` and `vma_list_clone` for the child `j`; `nv` areas could be allocated. -/
def sysFork (s : Memory ι) (i j : ι) (nv : Nat) : Option (Memory ι) := do
  let (cr3, m) ← s.pmm.allocPages 1
  let (src, dst, m) ← cloneHalf m (s.procs i).user
  let s := { s with pmm := m }.setProc i { s.procs i with user := src }
  return s.setProc j
    { cr3 := cr3, user := dst, vmas := vmaListClone (s.procs i).vmas nv, mmapNext := (s.procs i).mmapNext }

/-- A `PT_LOAD` header that passed the checks, with the bytes of the file it names. -/
structure Segment where
  vaddr : Nat
  memsz : Nat
  write : Bool
  exec : Bool
  bytes : List Byte

def Segment.first (g : Segment) : Nat := pageAlign g.vaddr

def Segment.pages (g : Segment) : Nat := (pageAlignUp (g.vaddr + g.memsz) - g.first) / PAGE_SIZE

/-- The mapping loop of `elf_load` for one segment: pages that are there already are skipped. -/
def mapSegment (i : ι) (g : Segment) : Nat → Nat → Memory ι → Option (Bool × Memory ι)
  | 0, _, s => some (true, s)
  | n + 1, k, s =>
    if (s.pte i (g.first + k * PAGE_SIZE)).present then mapSegment i g n (k + 1) s
    else
      match zeroFrame s with
      | (none, s) => some (false, s)
      | (some p, s) =>
        (s.mapPage i (g.first + k * PAGE_SIZE)
            { pfn := p, present := true, write := g.write, user := true, nx := !g.exec, cow := false }).bind
          (mapSegment i g n (k + 1))

def copySegment (i : ι) : Nat → List Byte → Memory ι → Bool × Memory ι
  | _, [], s => (true, s)
  | va, b :: bs, s =>
    let e := s.pte i va
    if e.present then
      copySegment i (va + 1) bs
        { s with data := update s.data e.pfn (update (s.data e.pfn) (va % PAGE_SIZE) b) }
    else (false, s)

def elfLoad (i : ι) : List Segment → Memory ι → Option (Bool × Memory ι)
  | [], s => some (true, s)
  | g :: gs, s =>
    if g.vaddr < USER_SPACE_START ∨ USER_SPACE_END ≤ g.vaddr then some (false, s)
    else
      (mapSegment i g g.pages 0 s).bind fun r =>
        if r.1 then
          let c := copySegment i g.vaddr g.bytes r.2
          if c.1 then elfLoad i gs c.2 else some c
        else some r

end ExoOS.Mm
