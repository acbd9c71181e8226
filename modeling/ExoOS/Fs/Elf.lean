import ExoOS.Mm.PageTable

/-!
# The ELF loader

`elf_load` with a record of the bytes of the file it reads and of the pages it maps and writes. The file is given by
the memory around it: the byte at every 64-bit offset from `data`, of which the first `size` belong to the file, so
that sums of header fields wrap and reads outside the file are values like any other. A program header is read as a
whole.

Of the page table only the presence of a page matters, by the four indices of its address. Whether a page or a page
table can be allocated is left open (`Env`).
-/

namespace ExoOS.Elf

open Mm (PAGE_SIZE USER_SPACE_START USER_SPACE_END)

abbrev Byte := BitVec 8
abbrev U64 := BitVec 64

def ENOEXEC : Int := 8
def ENOMEM : Int := 12
def EFAULT : Int := 14

def ELFCLASS64 : Byte := 2
def ELFDATA2LSB : Byte := 1
def ET_EXEC : Nat := 2
def ET_DYN : Nat := 3
def EM_X86_64 : Nat := 62

def PT_LOAD : Nat := 1
def PT_INTERP : Nat := 3
def PT_PHDR : Nat := 6

def PF_X : Nat := 0
def PF_W : Nat := 1

/-- `sizeof(Elf64_Ehdr)`, `sizeof(Elf64_Phdr)` and `sizeof(out->interp_path)`. -/
def EHDR_SIZE : Nat := 64
def PHDR_SIZE : Nat := 56
def INTERP_SIZE : Nat := 256

structure Image where
  byte : U64 → Byte
  size : U64

structure Ehdr where
  ident : Nat → Byte
  type : Nat
  machine : Nat
  entry : U64
  phoff : U64
  phentsize : BitVec 16
  phnum : BitVec 16

structure Phdr where
  type : Nat
  flags : Nat
  offset : U64
  vaddr : U64
  filesz : U64
  memsz : U64

namespace Image

variable (f : Image)

def le (off : U64) : Nat → Nat
  | 0 => 0
  | n + 1 => (f.byte off).toNat + 256 * le (off + 1) n

def ehdr : Ehdr :=
  { ident := fun i => f.byte (BitVec.ofNat 64 i)
    type := f.le 16 2, machine := f.le 18 2, entry := BitVec.ofNat 64 (f.le 24 8), phoff := BitVec.ofNat 64 (f.le 32 8)
    phentsize := BitVec.ofNat 16 (f.le 54 2), phnum := BitVec.ofNat 16 (f.le 56 2) }

def phdr (off : U64) : Phdr :=
  { type := f.le off 4, flags := f.le (off + 4) 4, offset := BitVec.ofNat 64 (f.le (off + 8) 8)
    vaddr := BitVec.ofNat 64 (f.le (off + 16) 8), filesz := BitVec.ofNat 64 (f.le (off + 32) 8)
    memsz := BitVec.ofNat 64 (f.le (off + 40) 8) }

def bytes (off : U64) (n : Nat) : List Byte := (List.range n).map fun i => f.byte (off + BitVec.ofNat 64 i)

end Image

def elfValidate (e : Ehdr) : Option Int :=
  if e.ident 0 ≠ 0x7f ∨ e.ident 1 ≠ 0x45 ∨ e.ident 2 ≠ 0x4c ∨ e.ident 3 ≠ 0x46 then some (-ENOEXEC)
  else if e.ident 4 ≠ ELFCLASS64 then some (-ENOEXEC)
  else if e.ident 5 ≠ ELFDATA2LSB then some (-ENOEXEC)
  else if e.type ≠ ET_EXEC ∧ e.type ≠ ET_DYN then some (-ENOEXEC)
  else if e.machine ≠ EM_X86_64 then some (-ENOEXEC)
  else if e.phentsize.toNat < PHDR_SIZE then some (-ENOEXEC)
  else none

inductive Access
  | read (off len : Nat)
  | map (va : Nat) (write nx : Bool)
  | write (va len : Nat)
  deriving DecidableEq

structure Info where
  entry : U64
  brkStart : U64
  phdrVaddr : U64
  loadBase : U64
  phdrCount : BitVec 16
  phdrSize : BitVec 16
  hasInterp : Bool
  interpPath : List Byte

/-- Whether the `k`-th page that is asked for can be had, and the tables to map it. -/
structure Env where
  page : Nat → Bool
  table : Nat → Bool

structure Loader where
  present : Nat → Bool
  tries : Nat
  log : List Access
  info : Info
  brkEnd : U64

inductive Stop
  | error (e : Int)
  | panic

def pageKey (va : Nat) : Nat := va / PAGE_SIZE % 2 ^ 36

def Loader.note (l : Loader) (as : List Access) : Loader := { l with log := l.log ++ as }

def mapPages (env : Env) (write nx : Bool) : Nat → Nat → Loader → Loader × Option Stop
  | 0, _, l => (l, none)
  | n + 1, va, l =>
    if l.present (pageKey va) then mapPages env write nx n (va + PAGE_SIZE) l
    else if ¬ env.page l.tries then ({ l with tries := l.tries + 1 }, some (.error (-ENOMEM)))
    else if ¬ env.table l.tries then ({ l with tries := l.tries + 1 }, some .panic)
    else
      mapPages env write nx n (va + PAGE_SIZE)
        { l.note [.map va write nx] with
          tries := l.tries + 1, present := Function.update l.present (pageKey va) true }

/-- The loop that copies the file data; a round copies at least one byte. -/
def copyFile (h : Phdr) (segVaddr : U64) : Nat → Nat → Loader → Loader × Option Stop
  | 0, _, l => (l, none)
  | fuel + 1, copied, l =>
    if copied < h.filesz.toNat then
      let va := (segVaddr + BitVec.ofNat 64 copied).toNat
      let chunk := min (PAGE_SIZE - va % PAGE_SIZE) (h.filesz.toNat - copied)
      if l.present (pageKey va) then
        copyFile h segVaddr fuel (copied + chunk)
          (l.note [.read (h.offset + BitVec.ofNat 64 copied).toNat chunk, .write va chunk])
      else (l, some (.error (-EFAULT)))
    else (l, none)

namespace Phdr

variable (h : Phdr) (dynBias : U64)

def segVaddr : U64 := h.vaddr + dynBias

def segStart : Nat := (h.segVaddr dynBias).toNat / PAGE_SIZE * PAGE_SIZE

def segEnd : Nat :=
  (h.segVaddr dynBias + h.memsz + BitVec.ofNat 64 (PAGE_SIZE - 1)).toNat / PAGE_SIZE * PAGE_SIZE

end Phdr

def loadSegment (env : Env) (dynBias : U64) (h : Phdr) (l : Loader) : Loader × Option Stop :=
  match mapPages env (h.flags.testBit PF_W) (!h.flags.testBit PF_X)
      ((h.segEnd dynBias - h.segStart dynBias) / PAGE_SIZE) (h.segStart dynBias) l with
  | (l, some stop) => (l, some stop)
  | (l, none) =>
    match copyFile h (h.segVaddr dynBias) (h.filesz.toNat + 1) 0 l with
    | (l, some stop) => (l, some stop)
    | (l, none) =>
      let segTop := h.segVaddr dynBias + h.memsz
      ({ l with brkEnd := if segTop > l.brkEnd then segTop else l.brkEnd }, none)

def loadHeader (env : Env) (f : Image) (dynBias : U64) (h : Phdr) (l : Loader) : Loader × Option Stop :=
  if h.type = PT_PHDR then ({ l with info := { l.info with phdrVaddr := h.vaddr + dynBias } }, none)
  else if h.type = PT_INTERP then
    if h.filesz = 0 ∨ INTERP_SIZE ≤ h.filesz.toNat then (l, some (.error (-ENOEXEC)))
    else if h.offset + h.filesz > f.size then (l, some (.error (-ENOEXEC)))
    else
      ({ l.note [.read h.offset.toNat h.filesz.toNat] with
          info := { l.info with
            hasInterp := true, interpPath := f.bytes h.offset (h.filesz.toNat - 1) ++ [0] } }, none)
  else if h.type ≠ PT_LOAD then (l, none)
  else if h.offset + h.filesz > f.size then (l, some (.error (-ENOEXEC)))
  else if (h.segVaddr dynBias).toNat < USER_SPACE_START ∨ USER_SPACE_END ≤ (h.segVaddr dynBias).toNat then
    (l, some (.error (-ENOEXEC)))
  else loadSegment env dynBias h l

/-- The offset of a program header; `i * e_phentsize` is an `int`. -/
def Ehdr.phdrOff (e : Ehdr) (i : Nat) : U64 :=
  e.phoff + (BitVec.ofNat 32 (i * e.phentsize.toNat)).signExtend 64

def loadHeaders (env : Env) (f : Image) (dynBias : U64) : Nat → Nat → Loader → Loader × Option Stop
  | 0, _, l => (l, none)
  | n + 1, i, l =>
    let off := f.ehdr.phdrOff i
    match loadHeader env f dynBias (f.phdr off) (l.note [.read off.toNat PHDR_SIZE]) with
    | (l, some stop) => (l, some stop)
    | (l, none) => loadHeaders env f dynBias n (i + 1) l

def findPhdrVaddr (f : Image) (dynBias : U64) : Nat → Nat → Loader → Loader
  | 0, _, l => l
  | n + 1, i, l =>
    let off := f.ehdr.phdrOff i
    let h := f.phdr off
    let l := l.note [.read off.toNat PHDR_SIZE]
    let delta := f.ehdr.phoff - h.offset
    if h.type ≠ PT_LOAD ∨ f.ehdr.phoff < h.offset ∨ delta ≥ h.filesz then findPhdrVaddr f dynBias n (i + 1) l
    else { l with info := { l.info with phdrVaddr := h.vaddr + dynBias + delta } }

def Ehdr.dynBias (e : Ehdr) (loadBias : U64) : U64 :=
  if e.type = ET_DYN then (if loadBias ≠ 0 then loadBias else BitVec.ofNat 64 USER_SPACE_START) else 0

def Ehdr.tableEnd (e : Ehdr) : U64 := e.phoff + BitVec.ofNat 64 (e.phnum.toNat * e.phentsize.toNat)

/-- `elf_load` into an address space in which the pages `present` are mapped. -/
def elfLoad (env : Env) (present : Nat → Bool) (f : Image) (loadBias : U64) : Loader × Option Stop :=
  let e := f.ehdr
  let dynBias := e.dynBias loadBias
  let info : Info :=
    { entry := e.entry + dynBias, brkStart := 0, phdrVaddr := 0, loadBase := dynBias, phdrCount := e.phnum
      phdrSize := e.phentsize, hasInterp := false, interpPath := [0] }
  let l : Loader := { present := present, tries := 0, log := [], info := info, brkEnd := 0 }
  if f.size.toNat < EHDR_SIZE then (l, some (.error (-ENOEXEC)))
  else
    let l := l.note [.read 0 EHDR_SIZE]
    match elfValidate e with
    | some r => (l, some (.error r))
    | none =>
      if e.tableEnd > f.size then (l, some (.error (-ENOEXEC)))
      else
        match loadHeaders env f dynBias e.phnum.toNat 0 l with
        | (l, some stop) => (l, some stop)
        | (l, none) =>
          let brkStart := (l.brkEnd + BitVec.ofNat 64 (PAGE_SIZE - 1)) &&& ~~~BitVec.ofNat 64 (PAGE_SIZE - 1)
          let l := { l with info := { l.info with brkStart := brkStart } }
          (if l.info.phdrVaddr = 0 then findPhdrVaddr f dynBias e.phnum.toNat 0 l else l, none)

def Access.Ok (size : Nat) : Access → Prop
  | .read off len => off + len ≤ size
  | .map va _ _ => USER_SPACE_START ≤ va ∧ va < USER_SPACE_END
  | .write va len => USER_SPACE_START ≤ va ∧ va + len ≤ USER_SPACE_END

instance (size : Nat) : (a : Access) → Decidable (a.Ok size)
  | .read _ _ => inferInstanceAs (Decidable (_ ≤ _))
  | .map _ _ _ => inferInstanceAs (Decidable (_ ∧ _))
  | .write _ _ => inferInstanceAs (Decidable (_ ∧ _))

def Access.page : Access → Option Nat
  | .map va _ _ => some va
  | .read _ _ | .write _ _ => none

def Loader.mapped (l : Loader) : List Nat := l.log.filterMap Access.page

/-- Reads stay in the file, mapped and written pages in the user range, and no more pages are mapped than it has. -/
structure Safe (size : Nat) (l : Loader) : Prop where
  ok : ∀ a ∈ l.log, a.Ok size
  bounded : l.mapped.length ≤ (USER_SPACE_END - USER_SPACE_START) / PAGE_SIZE

/-! ### The condition -/

variable (f : Image) (dynBias : U64)

def Phdr.Refused (h : Phdr) : Prop :=
  (h.type = PT_INTERP ∧ (h.filesz = 0 ∨ INTERP_SIZE ≤ h.filesz.toNat ∨ h.offset + h.filesz > f.size)) ∨
    (h.type = PT_LOAD ∧ (h.offset + h.filesz > f.size ∨ (h.segVaddr dynBias).toNat < USER_SPACE_START ∨
      USER_SPACE_END ≤ (h.segVaddr dynBias).toNat))

/-- What they miss: the data does not wrap, and the segment ends inside the user range. -/
def Phdr.Contained (h : Phdr) : Prop :=
  (h.type = PT_INTERP → h.offset.toNat + h.filesz.toNat < 2 ^ 64) ∧
    (h.type = PT_LOAD → h.offset.toNat + h.filesz.toNat < 2 ^ 64 ∧ h.segEnd dynBias ≤ USER_SPACE_END ∧
      (h.segVaddr dynBias).toNat + h.filesz.toNat ≤ USER_SPACE_END)

def Image.Accepted : Prop :=
  EHDR_SIZE ≤ f.size.toNat ∧ elfValidate f.ehdr = none ∧ ¬ f.ehdr.tableEnd > f.size

def Image.header (i : Nat) : Phdr := f.phdr (f.ehdr.phdrOff i)

/-- Every header up to the first one that is refused lies in the file, and those before are contained. -/
def Image.HeadersOk : Prop :=
  ∀ i, i < f.ehdr.phnum.toNat → (∀ j, j < i → ¬ (f.header j).Refused f dynBias) →
    (f.ehdr.phdrOff i).toNat + PHDR_SIZE ≤ f.size.toNat ∧
      (¬ (f.header i).Refused f dynBias → (f.header i).Contained dynBias)

end ExoOS.Elf
