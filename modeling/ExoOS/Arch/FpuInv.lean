import ExoOS.Arch.Fpu

/-!
# When user FP registers survive the kernel

The entry stubs have one buffer for each CPU, `task_switch_asm` one for each task. So a task's registers
survive its time in the kernel only as long as no stub is entered on its CPU before it returns: a
second entry, by the kernel code it called or by a task it was switched to, overwrites the buffer.
`Undisturbed` is that condition on the state in which a stub is entered. Under it the invariant `Inv`
says that the buffer of a CPU holds the registers of every task of that CPU that is away from user
mode, and `fp_return_of_undisturbed` follows. `fp_return_violated` is the run of two tasks and two timer
ticks that breaks the law without it.
-/

namespace ExoOS.Fpu
open Function Machine Transition

variable {Fp : Type} {z x : Fp} {m m' : Machine Fp} {c : CpuId} {t : TaskId}

/-- A stub is entered only while no task of the CPU is between leaving user mode and returning to it,
and no vfork child execs (its parent is unblocked in C code after the registers were reset). -/
def Undisturbed (m : Machine Fp) : Event Fp → Prop
  | .interrupt c => ∀ t, (m.tasks t).cpuId = c → ¬ (m.tasks t).InSyscall
  | .syscall c => ∀ t, (m.tasks t).cpuId = c → ¬ (m.tasks t).InSyscall
  | .execve _ clobber => clobber = none
  | _ => True

namespace Machine

@[simp] theorem setCpu_tasks (c : CpuId) (f : Cpu Fp → Cpu Fp) : (m.setCpu c f).tasks = m.tasks := rfl

@[simp] theorem setTask_cpus (t : TaskId) (f : Task Fp → Task Fp) : (m.setTask t f).cpus = m.cpus := rfl

@[simp] theorem setCpu_self (c : CpuId) (f : Cpu Fp → Cpu Fp) : (m.setCpu c f).cpus c = f (m.cpus c) := by
  simp [setCpu]

theorem setCpu_ne {c c' : CpuId} (f : Cpu Fp → Cpu Fp) (h : c' ≠ c) : (m.setCpu c f).cpus c' = m.cpus c' := by
  simp [setCpu, h]

@[simp] theorem setTask_self (t : TaskId) (f : Task Fp → Task Fp) :
    (m.setTask t f).tasks t = f (m.tasks t) := by
  simp [setTask]

theorem setTask_ne {t t' : TaskId} (f : Task Fp → Task Fp) (h : t' ≠ t) : (m.setTask t f).tasks t' = m.tasks t' := by
  simp [setTask, h]

end Machine

structure Inv (m : Machine Fp) : Prop where
  running : ∀ c, (m.cur c).cpuId = c ∧ ((m.cur c).ctl = .user ∨ ∃ fs, (m.cur c).ctl = .kernel fs)
  user : ∀ t, (m.tasks t).ctl = .user → (m.cpus (m.tasks t).cpuId).current = t
  /-- A user task that has not run yet has its start values in its image. -/
  start : ∀ t, (m.tasks t).ctl = .fresh true → (m.tasks t).fpuState = (m.tasks t).userFp
  /-- The save buffer belongs to the task of the CPU that is away from user mode. -/
  saved : ∀ t, (m.tasks t).InSyscall →
    (m.cpus (m.tasks t).cpuId).isrXsaveBuf = some (m.tasks t).userFp
  /-- Such a task is under its user-mode stub only. -/
  single : ∀ t fs, (m.tasks t).ctl = .kernel fs → true ∈ fs → fs = [true]
  buf : ∀ c, (m.cpus c).isrXsaveBuf.isSome

theorem Boot.inv (h : Boot m) : Inv m where
  running c := ⟨(h.idle c).2, .inr ⟨_, (h.idle c).1⟩⟩
  user t ht := absurd ht (h.tasks t).1
  start := h.start
  saved t ht := absurd ht (h.tasks t).2
  single t fs hk hm := absurd ⟨fs, hk, hm⟩ (h.tasks t).2
  buf := h.buf

theorem Inv.current_ne (h : Inv m) {c c' : CpuId} (hcc : c' ≠ c) : (m.cpus c').current ≠ (m.cpus c).current := by
  intro he
  have h1 : (m.tasks (m.cpus c').current).cpuId = c' := (h.running c').1
  rw [he] at h1
  exact hcc (h1.symm.trans (h.running c).1)

/-- A step of the current task of `c` on its CPU: it stays current and bound to `c`. If it writes the
save buffer, no task of `c` may be waiting for it. -/
theorem Inv.local (h : Inv m) (c : CpuId) (f : Cpu Fp → Cpu Fp) (g : Task Fp → Task Fp)
    (hcur : (f (m.cpus c)).current = (m.cpus c).current) (hid : (g (m.cur c)).cpuId = (m.cur c).cpuId)
    (hctl : (g (m.cur c)).ctl = .user ∨ ∃ fs, (g (m.cur c)).ctl = .kernel fs)
    (hbuf : (f (m.cpus c)).isrXsaveBuf.isSome)
    (hother : (f (m.cpus c)).isrXsaveBuf = (m.cpus c).isrXsaveBuf ∨
      ∀ t, (m.tasks t).cpuId = c → ¬ (m.tasks t).InSyscall)
    (hself : (g (m.cur c)).InSyscall → (f (m.cpus c)).isrXsaveBuf = some (g (m.cur c)).userFp)
    (hsingle : ∀ fs, (g (m.cur c)).ctl = .kernel fs → true ∈ fs → fs = [true]) :
    Inv ((m.setCpu c f).setTask (m.cpus c).current g) := by
  have hc : (m.cur c).cpuId = c := (h.running c).1
  have hcpu : ∀ c', ((m.setCpu c f).cpus c').current = (m.cpus c').current := by
    intro c'
    by_cases hcc : c' = c
    · subst hcc; simp [hcur]
    · rw [setCpu_ne f hcc]
  refine ⟨?_, ?_, ?_, ?_, ?_, ?_⟩
  · intro c'
    simp only [cur, setTask_cpus, hcpu]
    by_cases hcc : c' = c
    · subst hcc
      rw [setTask_self]
      exact ⟨hid.trans hc, hctl⟩
    · rw [setTask_ne g (h.current_ne hcc)]
      exact h.running c'
  · intro t ht
    simp only [setTask_cpus, hcpu]
    by_cases htc : t = (m.cpus c).current
    · subst htc
      have : (g (m.cur c)).cpuId = c := hid.trans hc
      rw [setTask_self]
      simp only [setCpu_tasks]
      rw [show (g (m.tasks (m.cpus c).current)).cpuId = c from this]
    · rw [setTask_ne g htc] at ht ⊢
      exact h.user t ht
  · refine (forall_update_iff m.tasks fun _ k => k.ctl = .fresh true → k.fpuState = k.userFp).2
      ⟨fun ht => ?_, fun t _ => h.start t⟩
    rcases hctl with h' | ⟨fs, h'⟩ <;> exact absurd (h'.symm.trans ht) (by simp)
  · intro t ht
    simp only [setTask_cpus]
    by_cases htc : t = (m.cpus c).current
    · subst htc
      rw [setTask_self] at ht ⊢
      simp only [setCpu_tasks] at ⊢
      rw [show (g (m.tasks (m.cpus c).current)).cpuId = c from hid.trans hc, setCpu_self]
      exact hself ht
    rw [setTask_ne g htc] at ht ⊢
    simp only [setCpu_tasks] at ⊢
    by_cases hcc : (m.tasks t).cpuId = c
    · rcases hother with h' | h'
      · rw [hcc, setCpu_self, h', ← hcc]
        exact h.saved t ht
      · exact absurd ht (h' t hcc)
    · rw [setCpu_ne f hcc]
      exact h.saved t ht
  · exact (forall_update_iff m.tasks fun _ k => ∀ fs, k.ctl = .kernel fs → true ∈ fs → fs = [true]).2
      ⟨hsingle, fun t _ => h.single t⟩
  · exact (forall_update_iff m.cpus fun _ p => p.isrXsaveBuf.isSome).2 ⟨hbuf, fun c' _ => h.buf c'⟩

theorem Inv.saved_cur (h : Inv m) (hs : (m.cur c).InSyscall) : (m.cpus c).isrXsaveBuf = some (m.cur c).userFp := by
  have h1 := h.saved _ hs
  rwa [show (m.tasks (m.cpus c).current).cpuId = c from (h.running c).1] at h1

theorem Inv.setFp (h : Inv m) (c : CpuId) (r : Fp) : Inv (m.setCpu c fun p => { p with fp := r }) := by
  have he : m.setCpu c (fun p => { p with fp := r }) =
      (m.setCpu c fun p => { p with fp := r }).setTask (m.cpus c).current id := by
    simp [setTask, setCpu]
  rw [he]
  exact h.local c _ id rfl rfl (h.running c).2 (h.buf c) (.inl rfl) h.saved_cur (h.single _)

theorem Inv.enterUser (h : Inv m) (hc : ∀ t, (m.tasks t).cpuId = c → ¬ (m.tasks t).InSyscall) :
    Inv ((m.stubEnter c).setTask (m.cpus c).current fun k =>
      { k with ctl := .kernel [true], userFp := (m.cpus c).fp }) := by
  obtain ⟨b, hb⟩ := Option.isSome_iff_exists.1 (h.buf c)
  refine h.local c _ _ rfl rfl (.inr ⟨_, rfl⟩) (by simp [hb]) (.inr hc) ?_ ?_
  · intro _; simp [hb]
  · intro fs hk _; simpa using hk.symm

variable {fs : List Bool}

theorem Inv.enterKernel (h : Inv m) (hk : (m.cur c).ctl = .kernel fs)
    (hc : ∀ t, (m.tasks t).cpuId = c → ¬ (m.tasks t).InSyscall) :
    Inv ((m.stubEnter c).setTask (m.cpus c).current fun k => { k with ctl := .kernel (false :: fs) }) := by
  have hfs : true ∉ false :: fs := by
    intro hm
    exact hc _ (h.running c).1 ⟨fs, hk, by simpa using hm⟩
  obtain ⟨b, hb⟩ := Option.isSome_iff_exists.1 (h.buf c)
  refine h.local c _ _ rfl rfl (.inr ⟨_, rfl⟩) (by simp [hb]) (.inr hc) ?_ ?_
  · rintro ⟨fs', hk', hm⟩
    cases hk'
    exact absurd hm hfs
  · intro fs' hk' hm
    cases hk'
    exact absurd hm hfs

theorem Inv.exit (h : Inv m) {ctl : Ctl} (hctl : ctl = .user ∨ ∃ fs, ctl = .kernel fs ∧ true ∉ fs) :
    Inv ((m.stubExit c).setTask (m.cpus c).current fun k => { k with ctl := ctl }) := by
  refine h.local c _ _ rfl rfl ?_ (h.buf c) (.inl rfl) ?_ ?_
  · rcases hctl with h' | ⟨fs, h', _⟩
    · exact .inl h'
    · exact .inr ⟨fs, h'⟩
  · rintro ⟨fs, hk, hm⟩
    rcases hctl with rfl | ⟨fs', rfl, hn⟩
    · cases hk
    · cases hk; exact absurd hm hn
  · intro fs hk hm
    rcases hctl with rfl | ⟨fs', rfl, hn⟩
    · cases hk
    · cases hk; exact absurd hm hn

theorem Inv.execve (h : Inv m) (c : CpuId) (clobber : Option Fp) : Inv (m.sysExecve x c clobber) := by
  refine h.local c _ _ rfl rfl (.inl rfl) (h.buf c) (.inl rfl) ?_ ?_
  · rintro ⟨fs, hk, _⟩; cases hk
  · intro fs hk; cases hk

theorem Inv.newTask (h : Inv m) (ht : (m.tasks t).ctl = .absent) (k : Task Fp) {u : Bool}
    (hk : k.ctl = .fresh u) (hstart : k.fpuState = k.userFp) : Inv (m.setTask t fun _ => k) := by
  have hcur : ∀ c, (m.cpus c).current ≠ t := by
    rintro c rfl
    rcases (h.running c).2 with h' | ⟨fs, h'⟩ <;> exact absurd (h'.symm.trans ht) (by simp)
  have hno : ∀ fs, k.ctl ≠ .kernel fs := fun fs hx => by cases hk.symm.trans hx
  refine ⟨fun c => ?_, ?_, ?_, ?_, ?_, h.buf⟩
  · simp only [cur, setTask_cpus, setTask_ne _ (hcur c)]
    exact h.running c
  · exact (forall_update_iff m.tasks fun t' k => k.ctl = .user → (m.cpus k.cpuId).current = t').2
      ⟨fun hx => (by cases hk.symm.trans hx), fun t' _ => h.user t'⟩
  · exact (forall_update_iff m.tasks fun _ k => k.ctl = .fresh true → k.fpuState = k.userFp).2
      ⟨fun _ => hstart, fun t' _ => h.start t'⟩
  · exact (forall_update_iff m.tasks fun _ k => k.InSyscall → (m.cpus k.cpuId).isrXsaveBuf = some k.userFp).2
      ⟨fun ⟨fs, hx, _⟩ => absurd hx (hno fs), fun t' _ => h.saved t'⟩
  · exact (forall_update_iff m.tasks fun _ k => ∀ fs, k.ctl = .kernel fs → true ∈ fs → fs = [true]).2
      ⟨fun fs hx => absurd hx (hno fs), fun t' _ => h.single t'⟩

/-- The image the child starts with is the parent's: the parent is the task of its CPU that is away
from user mode, so the save buffer is its own. -/
theorem Inv.cloneLive (h : Inv m) (hs : (m.cur c).InSyscall) : m.cloneLiveFpuState c = (m.cur c).userFp := by
  simp [cloneLiveFpuState, h.saved_cur hs]

theorem Machine.sysFork_eq {child : TaskId} {cpu : CpuId} : m.sysFork z c child cpu = m.setTask child fun _ =>
      { fpuState := m.cloneLiveFpuState c, cpuId := cpu, ctl := .fresh true, userFp := (m.cur c).userFp } := by
  simp [sysFork, taskCreate, setTask]

theorem Inv.fork (h : Inv m) {child : TaskId} {cpu : CpuId} (hs : (m.cur c).InSyscall)
    (hch : (m.tasks child).ctl = .absent) : Inv (m.sysFork z c child cpu) := by
  rw [sysFork_eq]
  exact h.newTask hch _ rfl (h.cloneLive hs)

/-! ### The switch -/

namespace Machine
variable {c : CpuId} {t : TaskId}

section

variable (ht : t ≠ (m.cpus c).current)
include ht

theorem switch_new :
    (m.taskSwitchAsm c t).tasks t = { m.tasks t with ctl := (m.tasks t).ctl.resume } := by
  simp [taskSwitchAsm, setTask_ne _ ht]

theorem switch_old :
    (m.taskSwitchAsm c t).tasks (m.cpus c).current = { m.cur c with fpuState := (m.cpus c).fp } := by
  simp [taskSwitchAsm, setTask_ne _ ht.symm, cur]

omit ht in
theorem switch_tasks_ne {u : TaskId} (hu : u ≠ t) (hu' : u ≠ (m.cpus c).current) :
    (m.taskSwitchAsm c t).tasks u = m.tasks u := by
  simp [taskSwitchAsm, setTask_ne _ hu, setTask_ne _ hu']

theorem switch_cpu :
    (m.taskSwitchAsm c t).cpus c = { m.cpus c with fp := (m.tasks t).fpuState, current := t } := by
  simp [taskSwitchAsm, setTask_ne _ ht]

omit ht in
theorem switch_cpu_ne {c' : CpuId} (hc : c' ≠ c) : (m.taskSwitchAsm c t).cpus c' = m.cpus c' := by
  simp [taskSwitchAsm, setCpu_ne _ hc]

theorem switch_task (u : TaskId) :
    ((m.taskSwitchAsm c t).tasks u).cpuId = (m.tasks u).cpuId ∧
    ((m.taskSwitchAsm c t).tasks u).userFp = (m.tasks u).userFp ∧
    ((m.taskSwitchAsm c t).tasks u).ctl = if u = t then (m.tasks u).ctl.resume else (m.tasks u).ctl := by
  by_cases hu : u = t
  · subst hu; simp [switch_new ht]
  · by_cases hu' : u = (m.cpus c).current
    · subst hu'; simp [switch_old ht, hu, cur]
    · simp [switch_tasks_ne hu hu', hu]

theorem switch_buf (c' : CpuId) :
    ((m.taskSwitchAsm c t).cpus c').isrXsaveBuf = (m.cpus c').isrXsaveBuf := by
  by_cases hc : c' = c
  · subst hc; rw [switch_cpu ht]
  · rw [switch_cpu_ne hc]

end

end Machine

theorem Ctl.resume_kernel {k : Ctl} (h : k.resume = .kernel fs) (hm : true ∈ fs) : k = .kernel fs := by
  unfold Ctl.resume at h
  split at h
  · cases h
  · cases h; simp at hm
  · exact h

theorem Ctl.resume_running {k : Ctl} (ha : k ≠ .absent) : k.resume = .user ∨ ∃ fs, k.resume = .kernel fs := by
  cases k with
  | absent => exact absurd rfl ha
  | fresh u => cases u <;> simp [Ctl.resume]
  | user => exact .inl rfl
  | kernel fs => exact .inr ⟨fs, rfl⟩

theorem Inv.switch (h : Inv m)
    (hk : (m.cur c).ctl = .kernel fs) (ht : t ≠ (m.cpus c).current) (hsw : (m.tasks t).Switchable c) :
    Inv (m.taskSwitchAsm c t) := by
  obtain ⟨htc, hta, htu⟩ := hsw
  have hT := switch_task ht
  have hmem : ∀ u fs, ((m.taskSwitchAsm c t).tasks u).ctl = .kernel fs → true ∈ fs → (m.tasks u).ctl = .kernel fs := by
    intro u fs hu hm
    rw [(hT u).2.2] at hu
    split at hu
    · exact Ctl.resume_kernel hu hm
    · exact hu
  refine ⟨?_, ?_, ?_, ?_, ?_, ?_⟩
  · intro c'
    by_cases hcc : c' = c
    · subst hcc
      simp only [cur, switch_cpu ht, (hT t).1, (hT t).2.2]
      exact ⟨htc, Ctl.resume_running hta⟩
    -- the task of another CPU is bound to it, so it is neither `t` nor the old task of `c`
    have h1 : (m.tasks (m.cpus c').current).cpuId = c' := (h.running c').1
    have hne : (m.cpus c').current ≠ t := by
      intro he; rw [he] at h1; exact hcc (h1.symm.trans htc)
    simp only [cur, switch_cpu_ne hcc, (hT _).1, (hT _).2.2, if_neg hne]
    exact h.running c'
  · intro u hu
    rw [(hT u).2.2] at hu
    rw [(hT u).1]
    by_cases hut : u = t
    · subst hut; rw [htc, switch_cpu ht]
    rw [if_neg hut] at hu
    have h1 := h.user u hu
    by_cases huc : (m.tasks u).cpuId = c
    · -- the old task of `c` is in the kernel
      rw [huc] at h1
      have : (m.cur c).ctl = .user := by rw [cur, h1]; exact hu
      exact absurd (hk.symm.trans this) (by simp)
    · rw [switch_cpu_ne huc]; exact h1
  · intro u hu
    rw [(hT u).2.2] at hu
    by_cases hut : u = t
    · subst hut
      rw [if_pos rfl] at hu
      rcases Ctl.resume_running hta with h' | ⟨fs', h'⟩ <;> exact absurd (h'.symm.trans hu) (by simp)
    · rw [if_neg hut] at hu
      have huc : u ≠ (m.cpus c).current := by
        rintro rfl; exact absurd (hk.symm.trans hu) (by simp)
      rw [switch_tasks_ne hut huc]
      exact h.start u hu
  · rintro u ⟨fs', hu, hm⟩
    rw [(hT u).1, (hT u).2.1, switch_buf ht]
    exact h.saved u ⟨fs', hmem u fs' hu hm, hm⟩
  · intro u fs' hu hm
    exact h.single u fs' (hmem u fs' hu hm) hm
  · intro c'
    rw [switch_buf ht]
    exact h.buf c'

theorem Inv.step {e : Event Fp} (h : Inv m) (hc : Undisturbed m e) (hs : step z x m e = some m') : Inv m' := by
  cases e with
  | userCode c r | kernelCode c r =>
    simp only [Fpu.step] at hs
    split at hs <;> cases hs
    exact h.setFp c r
  | interrupt c =>
    simp only [Fpu.step] at hs
    split at hs <;> cases hs
    · exact h.enterUser hc
    · exact h.enterKernel ‹_› hc
  | syscall c =>
    simp only [Fpu.step] at hs
    split at hs <;> cases hs
    exact h.enterUser hc
  | ret c =>
    simp only [Fpu.step] at hs
    split at hs <;> cases hs
    · exact h.exit (.inl rfl)
    · rename_i fs hk
      refine h.exit (.inr ⟨fs, rfl, fun hm => ?_⟩)
      have := h.single _ _ hk (List.mem_cons_of_mem _ hm)
      simp at this
  | switch c t =>
    simp only [Fpu.step] at hs
    split at hs
    · split at hs <;> cases hs
      rename_i hk hcond
      exact h.switch hk hcond.1 hcond.2
    · cases hs
  | create t cpu isUser =>
    simp only [Fpu.step] at hs
    split at hs <;> cases hs
    exact h.newTask ‹_› _ rfl rfl
  | fork c child cpu =>
    obtain ⟨hcond, ⟨⟩⟩ := Option.ite_none_right_eq_some.1 hs
    exact h.fork hcond.1 hcond.2
  | execve c clobber =>
    simp only [Fpu.step] at hs
    split at hs <;> cases hs
    exact h.execve c clobber

theorem Inv.run {es : List (Event Fp)} (h : Inv m) (hr : Run (Fpu.step z x) Undisturbed m es m') : Inv m' :=
  hr.inv (fun _ _ _ hi hc hs => hi.step hc hs) h

theorem ReturnOk.of_ctl (hctl : ∀ t, (m'.tasks t).ctl = .user → (m.tasks t).ctl = .user) : ReturnOk m m' :=
  fun _ hn hu => absurd (hctl _ hu) hn

theorem ReturnOk.of_setTask {f : Task Fp → Task Fp} (hf : (f (m.tasks t)).ctl ≠ .user) :
    ReturnOk m (m.setTask t f) := by
  refine .of_ctl fun u hu => ?_
  by_cases hut : u = t
  · subst hut; rw [setTask_self] at hu; exact absurd hu hf
  · rwa [setTask_ne _ hut] at hu

theorem ReturnOk.local (h : Inv m) {f : Cpu Fp → Cpu Fp} {g : Task Fp → Task Fp}
    (hcur : (f (m.cpus c)).current = (m.cpus c).current)
    (hret : (g (m.cur c)).ctl = .user → (f (m.cpus c)).fp = (g (m.cur c)).userFp) :
    ReturnOk m ((m.setCpu c f).setTask (m.cpus c).current g) := by
  intro c' hn hu
  by_cases hcc : c' = c
  · subst hcc
    simp only [cur, setTask_cpus, setCpu_self, hcur, setTask_self] at hu ⊢
    exact hret hu
  · simp only [cur, setTask_cpus, setCpu_ne f hcc] at hn hu
    rw [setTask_ne g (h.current_ne hcc)] at hu
    exact absurd hu hn

theorem ReturnOk.switch (h : Inv m) (ht : t ≠ (m.cpus c).current)
    (hsw : (m.tasks t).Switchable c) : ReturnOk m (m.taskSwitchAsm c t) := by
  intro c' hn hu
  have hT := switch_task ht
  by_cases hcc : c' = c
  · subst hcc
    simp only [cur, switch_cpu ht, (hT t).2.1, (hT t).2.2, if_true] at hn hu ⊢
    -- only a fresh user task resumes in user mode
    refine h.start t ?_
    unfold Ctl.resume at hu
    split at hu
    · assumption
    · cases hu
    · exact absurd hu hn
  · have h1 : (m.tasks (m.cpus c').current).cpuId = c' := (h.running c').1
    have hne : (m.cpus c').current ≠ t := by
      intro he; rw [he] at h1; exact hcc (h1.symm.trans hsw.1)
    simp only [cur, switch_cpu_ne hcc] at hn hu
    rw [(hT _).2.2, if_neg hne] at hu
    exact absurd hu hn

theorem Inv.returnOk {e : Event Fp} (h : Inv m) (hc : Undisturbed m e) (hs : Fpu.step z x m e = some m') :
    ReturnOk m m' := by
  cases e with
  | userCode c r | kernelCode c r =>
    simp only [Fpu.step] at hs
    split at hs <;> cases hs
    exact .of_ctl fun _ hu => hu
  | interrupt c =>
    simp only [Fpu.step] at hs
    split at hs <;> cases hs
    · exact .local h rfl (by simp)
    · exact .local h rfl (by simp)
  | syscall c =>
    simp only [Fpu.step] at hs
    split at hs <;> cases hs
    exact .local h rfl (by simp)
  | ret c =>
    simp only [Fpu.step] at hs
    split at hs <;> cases hs
    · rename_i fs hk
      refine .local h rfl fun _ => ?_
      simp [h.saved_cur ⟨_, hk, List.mem_cons_self⟩]
    · exact .local h rfl (by simp)
  | switch c t =>
    simp only [Fpu.step] at hs
    split at hs
    · split at hs <;> cases hs
      rename_i hcond
      exact .switch h hcond.1 hcond.2
    · cases hs
  | create t cpu isUser =>
    simp only [Fpu.step] at hs
    split at hs <;> cases hs
    exact .of_setTask (by simp)
  | fork c child cpu =>
    simp only [Fpu.step] at hs
    split at hs <;> cases hs
    rw [sysFork_eq]
    exact .of_setTask (by simp)
  | execve c clobber =>
    simp only [Fpu.step] at hs
    split at hs <;> cases hs
    exact .local h rfl fun _ => by simp [show clobber = none from hc]

theorem fp_return_of_undisturbed {m0 : Machine Fp} {es : List (Event Fp)} {e : Event Fp} (hb : Boot m0)
    (hr : Run (step z x) Undisturbed m0 es m) (hc : Undisturbed m e) (hs : step z x m e = some m') :
    ReturnOk m m' :=
  (hb.inv.run hr).returnOk hc hs

/-- A machine whose CPU `c` runs the idle thread `2 * c`; the registers are a number. -/
def idleMachine : Machine Nat where
  cpus c := { fp := 0, isrXsaveBuf := some 0, current := 2 * c }
  tasks t := { fpuState := 0, cpuId := t / 2, ctl := if t % 2 = 0 then .kernel [] else .absent, userFp := 0 }

theorem idleMachine_boot : Boot idleMachine where
  buf _ := rfl
  idle c := by simp [idleMachine, cur]
  tasks t := by
    by_cases ht : t % 2 = 0 <;> simp [idleMachine, Task.InSyscall, ht]
  start t ht := rfl

theorem alone_run : ∃ m, Run (step 0 1) Undisturbed idleMachine
    [.create 1 0 true, .switch 0 1, .userCode 0 7, .interrupt 0, .kernelCode 0 9] m ∧
    ∃ m', step 0 1 m (.ret 0) = some m' ∧ (m'.cpus 0).fp = 7 := by
  refine ⟨_, .cons trivial rfl (.cons trivial rfl (.cons trivial rfl (.cons ?_ rfl (.cons trivial rfl
    (.nil _))))), _, rfl, rfl⟩
  rintro t - ⟨fs, hk, hm⟩
  by_cases h1 : t = 1
  · subst h1; cases hk
  by_cases h0 : t = 0
  · subst h0; cases hk; cases hm
  have hk : (if t % 2 = 0 then Ctl.kernel [] else .absent) = .kernel fs := by
    simpa [setTask, taskSwitchAsm, taskCreate, idleMachine, h1, h0] using hk
  split at hk <;> cases hk
  cases hm

theorem fp_return_of_undisturbed_alone : ∃ m m', ReturnOk m m' ∧ (m'.cpus 0).fp = 7 ∧
    step 0 1 m (.ret 0) = some m' := by
  obtain ⟨m, hr, m', hs, hfp⟩ := alone_run
  exact ⟨m, m', fp_return_of_undisturbed (e := .ret 0) idleMachine_boot hr trivial hs, hfp, hs⟩

/-- Task 1 returns with the registers of task 3. -/
theorem fp_return_violated : ¬ ∀ (m0 m m' : Machine Nat) (es : List (Event Nat)) (e : Event Nat),
    Boot m0 → Run (step 0 1) Any m0 es m → step 0 1 m e = some m' → ReturnOk m m' := by
  intro h
  have hr : exec (step 0 1) idleMachine [.create 1 0 true, .create 3 0 true, .switch 0 1, .userCode 0 7,
      .interrupt 0, .switch 0 3, .interrupt 0, .switch 0 1] = some _ := rfl
  have := h _ _ _ _ (.ret 0) idleMachine_boot (exec_iff.1 hr) rfl 0 (by decide) rfl
  cases this

end ExoOS.Fpu
