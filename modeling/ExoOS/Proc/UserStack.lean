import ExoOS.Mm.UserWrite
import ExoOS.Mm.AddressSpace
import ExoOS.Ipc.Signal

/-!
# What the kernel stores in user memory

The objects that `signal_deliver_user`, `sys_execve` and `sc_getrusage` store through the direct map, with their
addresses, in the order of the stores. A program's image and stack are mapped before `sys_execve` builds the stack;
here the page table is any one.
-/

namespace ExoOS.Proc

open Function Ipc List Mm Sched Memory

variable {ι : Type}

def leBytes (w : Word) : List Byte := (List.range 8).map fun k => w.extractLsb' (8 * k) 8

abbrev UserWrites := List (Word × List Byte)

def UserWrites.store (ws : UserWrites) (s : Memory ι) (i : ι) : Memory ι :=
  ws.foldl (fun s w => s.directWrite i w.1 w.2) s

/-! ### `signal_deliver_user` -/

def frameBytes (f : Sigframe) : List Byte :=
  [f.rax, f.rbx, f.rcx, f.rdx, f.rsi, f.rdi, f.rbp, f.rsp, f.r8, f.r9, f.r10, f.r11, f.r12, f.r13, f.r14, f.r15, f.rip,
    f.rflags, f.sigMask, f.signo].flatMap leBytes

def outcomeWrites : Outcome → UserWrites
  | .idle | .died _ => []
  | .handler _ sp frame ret => (sp, frameBytes frame) :: (ret.map fun r => (r.1, leBytes r.2)).toList

/-- The stores of `signal_deliver_user` for task `t`, which runs in the address space `i`. -/
def signalWrites (s : Memory ι) (i : ι) (regs : Regs) (k : Kernel) (t : TaskId) : UserWrites :=
  outcomeWrites (signalDeliverUser (fun a => (s.vmmGetPte i a).isSome) regs k t).1

/-! ### `sc_getrusage` -/

def RUSAGE_SIZE : Nat := 144

def scGetrusage (s : Memory ι) (i : ι) (who : BitVec 32) (ru : Word) : Int × UserWrites :=
  if ru = 0 then (-EFAULT, [])
  else if who ≠ 0 ∧ who ≠ -1 then (-Sched.EINVAL, [])
  else
    match s.vmmGetPte i ru with
    | none => (-EFAULT, [])
    | some _ => (0, [(ru, List.replicate RUSAGE_SIZE 0)])

/-! ### `sys_execve` -/

abbrev CStr := { bs : List Byte // (0 : Byte) ∉ bs }

def CStr.bytes (c : CStr) : List Byte := c.1 ++ [0]

structure ExecArgs where
  path : CStr
  argv : List CStr
  envp : List CStr
  /-- `exec_rdtsc`, twice, and the address of the task. -/
  tsc₀ : Word
  tsc₁ : Word
  cur : Word
  secure : Word
  uid : BitVec 32
  euid : BitVec 32
  gid : BitVec 32
  egid : BitVec 32
  entry : Word
  base : Word
  phdrVaddr : Word
  phdrCount : Word
  phdrSize : Word
  hwcap : BitVec 32
  hwcap2 : BitVec 32

def AT_NULL : Word := 0
def AT_PHDR : Word := 3
def AT_PHENT : Word := 4
def AT_PHNUM : Word := 5
def AT_PAGESZ : Word := 6
def AT_BASE : Word := 7
def AT_ENTRY : Word := 9
def AT_UID : Word := 11
def AT_EUID : Word := 12
def AT_GID : Word := 13
def AT_EGID : Word := 14
def AT_HWCAP : Word := 16
def AT_CLKTCK : Word := 17
def AT_SECURE : Word := 23
def AT_RANDOM : Word := 25
def AT_HWCAP2 : Word := 26
def AT_EXECFN : Word := 31

/-- The loops over `envp` and `argv`, from the last string to the first: the addresses of the strings, and `sp`. -/
def pushStrings : List CStr → Word → List (Word × CStr) × Word
  | [], sp => ([], sp)
  | c :: cs, sp =>
    let r := pushStrings cs sp
    let sp := r.2 - BitVec.ofNat 64 (c.1.length + 1)
    ((sp, c) :: r.1, sp)

/-- `PUSH_U64`, for each of the words. -/
def pushWords : List Word → Word → List (Word × Word)
  | [], _ => []
  | w :: ws, sp => (sp - 8, w) :: pushWords ws (sp - 8)

def auxv (x : ExecArgs) (execfn random : Word) : List Word :=
  [0, AT_NULL, x.secure, AT_SECURE, x.egid.setWidth 64, AT_EGID, x.euid.setWidth 64, AT_EUID, x.gid.setWidth 64, AT_GID,
    x.uid.setWidth 64, AT_UID, execfn, AT_EXECFN, random, AT_RANDOM, x.base, AT_BASE, x.entry, AT_ENTRY,
    BitVec.ofNat 64 PAGE_SIZE, AT_PAGESZ, x.phdrSize, AT_PHENT, x.phdrCount, AT_PHNUM, x.phdrVaddr, AT_PHDR,
    x.hwcap2.setWidth 64, AT_HWCAP2, 100, AT_CLKTCK, x.hwcap.setWidth 64, AT_HWCAP]

namespace ExecArgs

variable (x : ExecArgs)

/-- `execfn_user`, if its page is mapped. -/
def pathSp : Word := BitVec.ofNat 64 USER_STACK_TOP - BitVec.ofNat 64 (x.path.1.length + 1)

def randomSp : Word := x.pathSp - 16

def envStrings : List (Word × CStr) × Word := pushStrings x.envp x.randomSp

def argStrings : List (Word × CStr) × Word := pushStrings x.argv x.envStrings.2

/-- All words are counted before the first is pushed, so that the last is aligned. -/
def wordsSp : Word :=
  let sp := x.argStrings.2 &&& ~~~0xF#64
  if (34 + x.envp.length + x.argv.length + 3) % 2 = 1 then sp - 8 else sp

def words (mapped : Word → Bool) : List Word :=
  auxv x (if mapped x.pathSp then x.pathSp else 0) (if mapped x.randomSp then x.randomSp else 0) ++
    0 :: (x.envStrings.1.map Prod.fst).reverse ++ 0 :: (x.argStrings.1.map Prod.fst).reverse ++
    [BitVec.ofNat 64 x.argv.length]

def randomBytes : List Byte := leBytes x.tsc₀ ++ leBytes (x.tsc₁ ^^^ x.cur ^^^ x.randomSp)

end ExecArgs

def execWrites (s : Memory ι) (i : ι) (x : ExecArgs) : UserWrites :=
  (x.pathSp, x.path.bytes) :: (x.randomSp, x.randomBytes) ::
    (x.envStrings.1.reverse ++ x.argStrings.1.reverse).map (fun w => (w.1, w.2.bytes)) ++
    (pushWords (x.words fun a => (s.vmmGetPte i a).isSome) x.wordsSp).map fun w => (w.1, leBytes w.2)

/-- Arguments of the same number and lengths. -/
structure ExecArgs.Like (x y : ExecArgs) : Prop where
  path : y.path.1.length = x.path.1.length
  argv : y.argv.map (·.1.length) = x.argv.map (·.1.length)
  envp : y.envp.map (·.1.length) = x.envp.map (·.1.length)

theorem leBytes_length (w : Word) : (leBytes w).length = 8 := by simp [leBytes]

theorem frameBytes_length (f : Sigframe) : (frameBytes f).length = 160 := by
  simp [frameBytes, leBytes_length]

theorem CStr.bytes_length (c : CStr) : c.bytes.length = c.1.length + 1 := by simp [CStr.bytes]

def shape (w : Word × List Byte) : Word × Nat := (w.1, w.2.length)

def textShape (w : Word × CStr) : Word × Nat := (w.1, w.2.1.length + 1)

theorem pushStrings_shape {cs ds : List CStr} (h : ds.map (·.1.length) = cs.map (·.1.length)) (sp : Word) :
    (pushStrings ds sp).1.map textShape = (pushStrings cs sp).1.map textShape ∧
      (pushStrings ds sp).2 = (pushStrings cs sp).2 := by
  induction cs generalizing ds with
  | nil =>
    rw [map_eq_nil_iff.1 h]
    exact ⟨rfl, rfl⟩
  | cons c cs ih =>
    cases ds with
    | nil => cases h
    | cons d ds =>
      rw [map_cons, map_cons, cons.injEq] at h
      obtain ⟨ih1, ih2⟩ := ih h.2
      simp only [pushStrings, map_cons, ih1, ih2, textShape, h.1, and_self]

theorem pushStrings_map {g : CStr → CStr} (hg : ∀ c, (g c).1.length = c.1.length) (cs : List CStr) (sp : Word) :
    pushStrings (cs.map g) sp = ((pushStrings cs sp).1.map fun w => (w.1, g w.2), (pushStrings cs sp).2) := by
  induction cs with
  | nil => rfl
  | cons c cs ih => simp only [map_cons, pushStrings, ih, hg]

theorem pushStrings_length (cs : List CStr) (sp : Word) : (pushStrings cs sp).1.length = cs.length := by
  induction cs with
  | nil => rfl
  | cons c cs ih => simp only [pushStrings, length_cons, ih]

theorem pushWords_shape {ws vs : List Word} (h : vs.length = ws.length) (sp : Word) :
    (pushWords vs sp).map Prod.fst = (pushWords ws sp).map Prod.fst := by
  induction ws generalizing vs sp with
  | nil =>
    rw [length_eq_zero_iff.1 h]
  | cons w ws ih =>
    cases vs with
    | nil => cases h
    | cons v vs => simp only [pushWords, map_cons, ih (Nat.succ.inj h)]

namespace ExecArgs

variable {x y : ExecArgs}

theorem words_length (x : ExecArgs) (mapped : Word → Bool) :
    (x.words mapped).length = 37 + x.envp.length + x.argv.length := by
  simp only [words, auxv, length_append, length_cons, length_nil, length_reverse, length_map,
    envStrings, argStrings, pushStrings_length]
  omega

theorem Like.refl (x : ExecArgs) : Like x x := ⟨rfl, rfl, rfl⟩

section

variable (h : Like x y)

include h

theorem Like.pathSp : y.pathSp = x.pathSp := by rw [ExecArgs.pathSp, h.path, ExecArgs.pathSp]

theorem Like.randomSp : y.randomSp = x.randomSp := by rw [ExecArgs.randomSp, h.pathSp, ExecArgs.randomSp]

theorem Like.envStrings : y.envStrings.1.map textShape = x.envStrings.1.map textShape ∧
    y.envStrings.2 = x.envStrings.2 := by
  unfold ExecArgs.envStrings
  rw [h.randomSp]
  exact pushStrings_shape h.envp _

theorem Like.argStrings : y.argStrings.1.map textShape = x.argStrings.1.map textShape ∧
    y.argStrings.2 = x.argStrings.2 := by
  unfold ExecArgs.argStrings
  rw [h.envStrings.2]
  exact pushStrings_shape h.argv _

theorem Like.counts : y.envp.length = x.envp.length ∧ y.argv.length = x.argv.length := by
  have he := congrArg length h.envp
  have ha := congrArg length h.argv
  rw [length_map, length_map] at he ha
  exact ⟨he, ha⟩

theorem Like.wordsSp : y.wordsSp = x.wordsSp := by
  rw [ExecArgs.wordsSp, h.argStrings.2, h.counts.1, h.counts.2, ExecArgs.wordsSp]

end

end ExecArgs

theorem shape_texts (l : List (Word × CStr)) : (l.map fun w => (w.1, w.2.bytes)).map shape = l.map textShape := by
  rw [map_map]
  exact map_congr_left fun w _ => by rw [comp_apply, shape, CStr.bytes_length, textShape]

theorem shape_words (l : List (Word × Word)) :
    (l.map fun w => (w.1, leBytes w.2)).map shape = (l.map Prod.fst).map fun a => (a, 8) := by
  rw [map_map, map_map]
  exact map_congr_left fun w _ => by rw [comp_apply, shape, leBytes_length, comp_apply]

theorem randomBytes_length (x : ExecArgs) : x.randomBytes.length = 16 := by
  rw [ExecArgs.randomBytes, length_append, leBytes_length, leBytes_length]

theorem shape_execWrites (s : Memory ι) (i : ι) (x : ExecArgs) :
    (execWrites s i x).map shape = (x.pathSp, x.path.1.length + 1) :: (x.randomSp, 16) ::
        ((x.envStrings.1.map textShape).reverse ++ (x.argStrings.1.map textShape).reverse) ++
        ((pushWords (x.words fun a => (s.vmmGetPte i a).isSome) x.wordsSp).map Prod.fst).map fun a => (a, 8) := by
  rw [execWrites, map_append, map_cons, map_cons, shape_texts, shape_words, map_append,
    map_reverse, map_reverse, shape, CStr.bytes_length, shape, randomBytes_length]

theorem ExecArgs.Like.execWrites {x y : ExecArgs} (h : Like x y) (s : Memory ι) (i : ι) :
    (execWrites s i y).map shape = (execWrites s i x).map shape := by
  have hlen : ∀ mapped, (y.words mapped).length = (x.words mapped).length := fun mapped => by
    rw [words_length, words_length, h.counts.1, h.counts.2]
  rw [shape_execWrites, shape_execWrites, h.path, h.pathSp, h.randomSp, h.envStrings.1, h.argStrings.1, h.wordsSp,
    pushWords_shape (hlen _)]

/-- Texts of the same lengths, with one character that differs from the others. -/
def CStr.odd (j : Nat) (c : CStr) : CStr :=
  ⟨Memory.oddOneOut c.1.length j, fun h => by
    obtain ⟨k, -, hk⟩ := List.mem_map.1 h
    split at hk <;> exact absurd hk (by decide)⟩

theorem CStr.odd_length (j : Nat) (c : CStr) : (CStr.odd j c).1.length = c.1.length := oddOneOut_length _ _

def ExecArgs.odd (x : ExecArgs) (j : Nat) : ExecArgs :=
  { x with path := CStr.odd j x.path, argv := x.argv.map (CStr.odd j), envp := x.envp.map (CStr.odd j) }

theorem ExecArgs.like_odd (x : ExecArgs) (j : Nat) : Like x (x.odd j) := by
  refine ⟨CStr.odd_length j x.path, ?_, ?_⟩
  · simp only [odd, map_map, comp_def, CStr.odd_length]
  · simp only [odd, map_map, comp_def, CStr.odd_length]

theorem ExecArgs.odd_strings (x : ExecArgs) (j : Nat) :
    (x.odd j).envStrings.1 = x.envStrings.1.map (fun w => (w.1, CStr.odd j w.2)) ∧
      (x.odd j).argStrings.1 = x.argStrings.1.map (fun w => (w.1, CStr.odd j w.2)) := by
  have h := x.like_odd j
  constructor
  · rw [envStrings, h.randomSp]
    exact congrArg Prod.fst (pushStrings_map (CStr.odd_length j) _ _)
  · rw [argStrings, h.envStrings.2]
    exact congrArg Prod.fst (pushStrings_map (CStr.odd_length j) _ _)

/-! ### The stores stay where they belong -/

variable {s : Memory ι} {i : ι}

theorem exec_texts_inPlace {x : ExecArgs}
    (h : ∀ y, ExecArgs.Like x y → ∀ w ∈ execWrites s i y, s.Stays i w.1 w.2) {a : Word} {c : CStr}
    (hw : (a, c) ∈ (x.pathSp, x.path) :: (x.envStrings.1.reverse ++ x.argStrings.1.reverse)) :
    s.InPlace i a c.bytes.length := by
  rw [CStr.bytes_length]
  refine inPlace_of_texts fun j => ?_
  refine h (x.odd j) (x.like_odd j) (a, (CStr.odd j c).bytes) ?_
  obtain ⟨he, ha⟩ := x.odd_strings j
  rw [execWrites, he, ha, ← map_reverse, ← map_reverse, ← map_append, map_map]
  rcases mem_cons.1 hw with he | hw
  · obtain ⟨rfl, rfl⟩ := Prod.mk.inj he
    rw [(x.like_odd j).pathSp]
    exact mem_append_left _ mem_cons_self
  · refine mem_append_left _ (mem_cons_of_mem _ (mem_cons_of_mem _ ?_))
    exact mem_map.2 ⟨(a, c), hw, rfl⟩

theorem exec_stays_iff (x : ExecArgs) : (∀ y, ExecArgs.Like x y → ∀ w ∈ execWrites s i y, s.Stays i w.1 w.2) ↔
      ∀ w ∈ execWrites s i x, s.InPlace i w.1 w.2.length := by
  constructor
  · intro h w hw
    have hsmall : w.2.length ≤ PAGE_SIZE → s.InPlace i w.1 w.2.length := fun hlen =>
      (stays_iff hlen).1 (h x (.refl x) w hw)
    rcases mem_append.1 hw with hw | hw
    · rcases mem_cons.1 hw with rfl | hw
      · exact exec_texts_inPlace h mem_cons_self
      · rcases mem_cons.1 hw with rfl | hw
        · refine hsmall ?_
          rw [randomBytes_length]
          decide
        · obtain ⟨v, hv, rfl⟩ := mem_map.1 hw
          exact exec_texts_inPlace h (mem_cons_of_mem _ hv)
    · obtain ⟨v, -, rfl⟩ := mem_map.1 hw
      refine hsmall ?_
      rw [leBytes_length]
      decide
  · intro h y hy w hw
    have hmem : shape w ∈ (execWrites s i x).map shape := hy.execWrites s i ▸ mem_map_of_mem hw
    obtain ⟨v, hv, he⟩ := mem_map.1 hmem
    have := h v hv
    obtain ⟨h1, h2⟩ : v.1 = w.1 ∧ v.2.length = w.2.length := Prod.ext_iff.1 he
    rw [h1, h2] at this
    exact this.stays

theorem signal_stays_iff (regs : Regs) (k : Kernel) (t : TaskId) :
    (∀ w ∈ signalWrites s i regs k t, s.Stays i w.1 w.2) ↔
      ∀ w ∈ signalWrites s i regs k t, s.InPlace i w.1 w.2.length := by
  refine forall₂_congr fun w hw => stays_iff ?_
  unfold signalWrites outcomeWrites at hw
  split at hw
  · cases hw
  · cases hw
  · rcases mem_cons.1 hw with rfl | hw
    · rw [frameBytes_length]
      decide
    · obtain ⟨r, -, rfl⟩ := Option.map_eq_some_iff.1 (Option.mem_toList.1 hw)
      rw [leBytes_length]
      decide

theorem getrusage_stays_iff (who : BitVec 32) (ru : Word) : (∀ w ∈ (scGetrusage s i who ru).2, s.Stays i w.1 w.2) ↔
      ∀ w ∈ (scGetrusage s i who ru).2, s.InPlace i w.1 w.2.length := by
  refine forall₂_congr fun w hw => stays_iff ?_
  unfold scGetrusage at hw
  split_ifs at hw
  · cases hw
  · cases hw
  · split at hw
    · cases hw
    · rw [mem_singleton.1 hw, length_replicate]
      decide

/-- The stores of the three calls stay where they belong if the objects do not run over the end of a page whose
successor is elsewhere, and no other process maps the pages. -/
theorem user_writes_stay_iff (s : Memory ι) (i : ι) :
    (∀ regs k t, (∀ w ∈ signalWrites s i regs k t, s.Stays i w.1 w.2) ↔
      ∀ w ∈ signalWrites s i regs k t, s.InPlace i w.1 w.2.length) ∧
    (∀ x, (∀ y, ExecArgs.Like x y → ∀ w ∈ execWrites s i y, s.Stays i w.1 w.2) ↔
      ∀ w ∈ execWrites s i x, s.InPlace i w.1 w.2.length) ∧
    ∀ who ru, (∀ w ∈ (scGetrusage s i who ru).2, s.Stays i w.1 w.2) ↔
      ∀ w ∈ (scGetrusage s i who ru).2, s.InPlace i w.1 w.2.length :=
  ⟨signal_stays_iff, exec_stays_iff, getrusage_stays_iff⟩

/-! ### Pages that are not adjacent -/

/-- A page of sevens at `v`, in frame 10, shared copy on write with a second process, and a page of the first process
after it, in frame 20. -/
def apartPages (v : Nat) : Memory Bool where
  procs child :=
    { cr3 := if child then 2 else 1, vmas := [], mmapNext := USER_MMAP_BASE
      user := fun a => some ⟨3, fun b => some ⟨4, fun c => some ⟨5, fun d =>
        if (a, b, c, d) = loc v then ⟨10, true, false, true, true, true⟩
        else if (a, b, c, d) = loc (v + PAGE_SIZE) ∧ child = false then ⟨20, true, true, true, true, false⟩
        else .zero⟩⟩⟩ }
  kern := fun _ => none
  pmm := { bitmapPages := 0, bitmap := fun _ => true, pageRefs := fun _ => 0, freePages := 0 }
  data := fun _ _ => 7
  cache := []
  content := fun _ _ _ => 0
  wrote := fun _ _ => none

def signalled : Kernel where
  tasks i := if i = 0 then some { taskCreateUser 1 true with
      sigPending := BitVec.twoPow 64 SIGUSR1, sigactions := some fun _ => ⟨0x500000, 0, 0, 0⟩ } else none
  table := Function.update (fun _ => none) 1 (some 0)
  nextUserTid := 2
  fresh := 1
  unused i hi := if_neg (by rintro rfl; cases hi)

def regsAt (sp : Word) : Regs := ⟨0, 0, 0, 0, 0, 0, 0, sp, 0, 0, 0, 0, 0, 0, 0, 0, 0, 0⟩

def longEnv : ExecArgs where
  path := ⟨[0x2F, 0x61], by decide⟩
  argv := []
  envp := [⟨List.replicate 4080 0x61, fun h => absurd (List.eq_of_mem_replicate h) (by decide)⟩]
  tsc₀ := 0
  tsc₁ := 0
  cur := 0
  secure := 0
  uid := 0
  euid := 0
  gid := 0
  egid := 0
  entry := 0
  base := 0
  phdrVaddr := 0
  phdrCount := 0
  phdrSize := 0
  hwcap := 0
  hwcap2 := 0

theorem apartPages_pfn {v : Nat} {j : Bool} {a : Nat} (h : ((apartPages v).pte j a).present) :
    ((apartPages v).pte j a).pfn = 10 ∨ ((apartPages v).pte j a).pfn = 20 := by
  unfold pte half at *
  split at h
  · cases h
  rename_i hk
  rw [if_neg hk]
  revert h
  show (if _ then _ else if _ then _ else _ : Pte).present →
    (if _ then _ else if _ then _ else _ : Pte).pfn = 10 ∨ (if _ then _ else if _ then _ else _ : Pte).pfn = 20
  split_ifs
  · exact fun _ => .inl rfl
  · exact fun _ => .inr rfl
  · exact fun h => nomatch h

theorem not_stays_apartPages {v : Nat} {a : Word} {bs : List Byte} (hlen : bs.length ≤ PAGE_SIZE) {k : Nat}
    (hk : k < bs.length)
    (h : (apartPages v).translate false (a + BitVec.ofNat 64 k) ≠ ((apartPages v).translate false a).map (· + k)) :
    ¬ (apartPages v).Stays false a bs :=
  fun hs => h (((stays_iff hlen).1 hs).adjacent k hk)

/-- `getrusage` writes to frame 11, which nobody has mapped, and not to frame 20, and the child sees frame 10 change.
A signal frame and a string of the environment are torn apart in the same way. -/
theorem user_writes_astray :
    (∃ s', (scGetrusage (apartPages 0x400000) false 0 0x400FF8).2.store (apartPages 0x400000) false = s' ∧
      (∀ j v, (apartPages 0x400000).translate j v ≠ some (11 * PAGE_SIZE)) ∧ s'.phys (11 * PAGE_SIZE) = 0 ∧
      (apartPages 0x400000).translate false 0x401000 = some (20 * PAGE_SIZE) ∧ s'.phys (20 * PAGE_SIZE) = 7 ∧
      (apartPages 0x400000).Reads true (10 * PAGE_SIZE + 0xFF8) ∧ s'.phys (10 * PAGE_SIZE + 0xFF8) = 0) ∧
    (∃ w ∈ signalWrites (apartPages 0x400000) false (regsAt 0x401090) signalled 0,
      ¬ (apartPages 0x400000).Stays false w.1 w.2) ∧
    ∃ w ∈ execWrites (apartPages (USER_STACK_TOP - 2 * PAGE_SIZE)) false longEnv,
      ¬ (apartPages (USER_STACK_TOP - 2 * PAGE_SIZE)).Stays false w.1 w.2 := by
  refine ⟨⟨_, rfl, fun j v hq => ?_, ?_, ?_, ?_, ?_, ?_⟩, ?_, ?_⟩
  · obtain ⟨e, he, hq⟩ := Option.map_eq_some_iff.1 hq
    obtain ⟨hp, he⟩ := Option.ite_none_right_eq_some.1 he
    rw [← Option.some.inj he, place, PAGE_SIZE] at hq
    rcases apartPages_pfn hp with h | h <;> omega
  · decide +kernel
  · decide +kernel
  · decide +kernel
  · exact ⟨0x400FF8, by decide +kernel, by decide +kernel⟩
  · decide +kernel
  · have hs : (signalWrites (apartPages 0x400000) false (regsAt 0x401090) signalled 0).map shape =
        [(0x400FF0, 160)] := by decide +kernel
    obtain ⟨w, l, hw, hsh, -⟩ := map_eq_cons_iff.1 hs
    obtain ⟨h1, h2⟩ := Prod.mk.inj hsh
    refine ⟨w, hw ▸ mem_cons_self, not_stays_apartPages (by rw [h2]; decide) (k := 16) (by rw [h2]; decide) ?_⟩
    rw [h1]
    decide +kernel
  · have hs : ((execWrites (apartPages (USER_STACK_TOP - 2 * PAGE_SIZE)) false longEnv).map shape)[2]? =
        some (0x7FFFFFEFEFFC, 4081) := by decide +kernel
    obtain ⟨w, hw, hsh⟩ := mem_map.1 (mem_of_getElem? hs)
    obtain ⟨h1, h2⟩ := Prod.mk.inj hsh
    refine ⟨w, hw, not_stays_apartPages (by rw [h2]; decide) (k := 4) (by rw [h2]; decide) ?_⟩
    rw [h1]
    decide +kernel

end ExoOS.Proc
