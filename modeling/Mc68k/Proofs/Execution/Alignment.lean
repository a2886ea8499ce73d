import Mc68k.Proofs.Execution.Act

namespace Mc68k

/-- A word or long that memory served lies at an even address. -/
def BusCycle.IsAligned (c : BusCycle) : Prop :=
  c.found.isSome = true → c.size ≠ 1 → c.address &&& 1 = 0

instance (c : BusCycle) : Decidable c.IsAligned :=
  inferInstanceAs (Decidable (_ → _ → _))

namespace Machine

/-- What a model that minds alignment has added to the cycles is aligned. -/
structure Aligns (m m' : Machine) : Prop where
  model : m'.model = m.model
  cycles : m.model.allowsMisalignedData = false →
    ∃ new, m'.cycles = new ++ m.cycles ∧ ∀ c ∈ new, c.IsAligned

namespace Aligns

theorem of_cycles_eq {m m' : Machine} (hmodel : m'.model = m.model)
    (hcycles : m'.cycles = m.cycles) : Aligns m m' :=
  ⟨hmodel, fun _ => ⟨[], hcycles, by simp⟩⟩

theorem trans {m m' m'' : Machine} (h : Aligns m m') (h' : Aligns m' m'') : Aligns m m'' where
  model := h'.model.trans h.model
  cycles early := by
    obtain ⟨new, hnew, haligned⟩ := h.cycles early
    obtain ⟨new', hnew', haligned'⟩ := h'.cycles (h.model ▸ early)
    refine ⟨new' ++ new, ?_, ?_⟩
    · rw [hnew', hnew, List.append_assoc]
    · simpa only [List.forall_mem_append] using ⟨haligned', haligned⟩

instance : IsPreorder Machine Aligns where
  refl _ := of_cycles_eq rfl rfl
  trans _ _ _ := .trans

theorem cons {m m' : Machine} (hmodel : m'.model = m.model) {c : BusCycle}
    (hcycles : m'.cycles = c :: m.cycles)
    (h : m.model.allowsMisalignedData = false → c.IsAligned) : Aligns m m' :=
  ⟨hmodel, fun early => ⟨[c], hcycles, by simpa using h early⟩⟩

end Aligns

theorem isAligned_cycle {m : Machine} {addr : Address} {size : Size} (fc : FunctionCode)
    (access : Access) (ha : m.isMisaligned addr size = false)
    (early : m.model.allowsMisalignedData = false) :
    (m.cycle addr size.bytes fc access).IsAligned := by
  intro _ hsize
  have hwide : size ≠ .byte := fun h => hsize (by rw [h]; rfl)
  have heven : addr &&& 1 = 0 := by simpa [isMisaligned, early, hwide] using ha
  exact heven

theorem Act.aligns {waits : Prop} {m m' : Machine} (h : Act waits m m') : Aligns m m' := by
  cases h with
  | refused addr n fc access h =>
    refine .cons rfl rfl fun _ hfound => ?_
    rw [Memory.admits] at h
    simp [cycle, h] at hfound
  | read addr size fc ha => exact .cons rfl rfl (isAligned_cycle fc .read ha)
  | write addr size value fc ha h => exact .cons rfl rfl (isAligned_cycle fc .write ha)
  | _ => exact .of_cycles_eq rfl rfl

theorem Acts.aligns {waits : Prop} {m m' : Machine} (h : Acts waits m m') : Aligns m m' :=
  h.keeps fun _ _ => Act.aligns

theorem vectorAddress_and_one (m : Machine) (e : Exception) :
    m.vectorAddress e &&& 1 = m.regs.vbr &&& 1 := by
  have hbase := m.regs.vbr.toNat_lt
  have hvector := e.vector_lt
  apply UInt32.toNat_inj.mp
  rw [vectorAddress, UInt32.toNat_and, UInt32.toNat_and, UInt32.toNat_one, Nat.and_one_is_mod,
    Nat.and_one_is_mod, UInt32.toNat_add, UInt32.toNat_ofNat']
  omega

theorem cycles_enterHandler (m : Machine) (e : Exception) : (m.enterHandler e).cycles =
    m.cycle (m.vectorAddress e) 4 .supervisorData .read :: m.cycles := by
  rw [enterHandler, load_eq]
  split
  next hr =>
    obtain ⟨-, rfl⟩ := Prod.mk.inj hr
    split <;> rfl
  next hr =>
    obtain ⟨-, rfl⟩ := Prod.mk.inj hr
    rfl

theorem condition_enterHandler_of_not_admits {m : Machine} {e : Exception}
    (h : m.memory.admits (m.vectorAddress e) 4 .supervisorData .read = false) :
    (m.enterHandler e).condition = .halted := by
  rw [enterHandler, load_eq, Size.bytes, Memory.admits_eq_false_iff.mp h]
  rfl

theorem condition_raise_of_not_stacked {m m' : Machine} {e e' : Exception}
    (h : Exec.stackFrame e m = .error e' m') : (m.raise e).condition = .halted := by
  rw [raise, h]
  rfl

end Machine

namespace Exec

open Machine

/-- A computation, on its way from a machine, comes to another one. -/
inductive Meets {β : Type} (y : Exec β) (m' : Machine) : {α : Type} → Exec α → Machine → Prop
  | self : Meets y m' y m'
  | first {α γ : Type} {x : Exec α} {f : α → Exec γ} {m : Machine} (h : Meets y m' x m) :
    Meets y m' (x >>= f) m
  | next {α γ : Type} {x : Exec α} {f : α → Exec γ} {m m₁ : Machine} {a : α}
    (hx : x m = .ok a m₁) (h : Meets y m' (f a) m₁) : Meets y m' (x >>= f) m

theorem Meets.error {α β : Type} {y : Exec β} {x : Exec α} {m m' m'' : Machine} {e : Exception}
    (h : Meets y m' x m) (he : y m' = .error e m'') : x m = .error e m'' := by
  induction h with
  | self => exact he
  | first h ih => exact bind_error ih
  | next hx h ih => rw [bind_ok hx, ih]

/-- A read or write of a word or long at an odd address, on a model that minds, and the fault that
it is. -/
inductive Misaligned (m : Machine) : {α : Type} → Exec α → Fault → Prop
  | read (addr : Address) (size : Size) (fc : FunctionCode)
    (h : m.isMisaligned addr size = true) :
    Misaligned m (Exec.read addr size fc) ⟨addr, fc, false, fc.isProgram⟩
  | write (addr : Address) (size : Size) (value : UInt32) (fc : FunctionCode)
    (h : m.isMisaligned addr size = true) :
    Misaligned m (Exec.write addr size value fc) ⟨addr, fc, true, fc.isProgram⟩

theorem Misaligned.error {α : Type} {y : Exec α} {m : Machine} {fault : Fault}
    (h : Misaligned m y fault) : y m = .error .addressError { m with fault } := by
  cases h with
  | read addr size fc h => rw [Exec.read, if_pos h]; rfl
  | write addr size value fc h => rw [Exec.write, if_pos h]; rfl

end Exec

namespace Emulator

open Exec Machine

/-- A step that keeps to even addresses. Cycles are counted from the machine that its instruction
runs on. -/
structure StepAligned (e : Emulator) : Prop where
  even : ∃ new, e.step.2.machine.cycles = new ++ e.task.2.cycles ∧ ∀ c ∈ new, c.IsAligned
  /-- An instruction that comes to an odd one ends there with an address error. -/
  addressError : ∀ run ∈ e.task.1, ∀ {α : Type} {y : Exec α} {m : Machine} {fault : Fault},
    Meets y m run e.task.2 → Misaligned m y fault →
      e.afterTask = (some .addressError, { m with fault })
  frame : ∀ x m, e.afterTask = (some x, m) →
    ∀ {α : Type} {y : Exec α} {m' : Machine} {fault : Fault},
      Meets y m' (stackFrame x) m → Misaligned m' y fault →
        e.step.2.machine.condition = .halted
  vector : ∀ x m, e.afterTask = (some x, m) → (∃ m', stackFrame x m = .ok () m') →
    m.vectorAddress x &&& 1 ≠ 0 → e.step.2.machine.condition = .halted

variable {e : Emulator} {x : Exception} {m m' : Machine}

theorem cycles_step_of_stacked (running : e.machine.condition = .normal)
    (hafter : e.afterTask = (some x, m)) (hstacked : stackFrame x m = .ok () m') :
    e.step.2.machine.cycles =
      m'.cycle (m'.vectorAddress x) 4 .supervisorData .read :: m'.cycles := by
  rw [e.machine_step_of_running running, hafter]
  simp only [raise_of_stacked hstacked, cycles_enterHandler]

theorem aligns_of_stacked (hafter : e.afterTask = (some x, m))
    (hstacked : stackFrame x m = .ok () m') : Aligns e.task.2 m' := by
  have hrun := e.acts_afterTask
  rw [hafter] at hrun
  have hacts : Acts True e.task.2 m' := hrun.trans ((acts_stackFrame x).of_ok hstacked)
  exact hacts.aligns

/-- Where the vector of an exception is served, VBR is even. -/
def EvenVectors (e : Emulator) : Prop :=
  ∀ x m m', e.afterTask = (some x, m) → stackFrame x m = .ok () m' →
    m.memory.admits (m.vectorAddress x) 4 .supervisorData .read = true → m.regs.vbr &&& 1 = 0

theorem StepAligned.evenVectors (h : e.StepAligned) (running : e.machine.condition = .normal)
    (early : e.task.2.model.allowsMisalignedData = false) : e.EvenVectors := by
  intro x m m' hafter hstacked hserved
  obtain ⟨new, hnew, haligned⟩ := h.even
  obtain ⟨before, hbefore, -⟩ := (aligns_of_stacked hafter hstacked).cycles early
  rw [cycles_step_of_stacked running hafter hstacked, hbefore, ← List.cons_append,
    List.append_left_inj] at hnew
  have hmem : m'.cycle (m'.vectorAddress x) 4 .supervisorData .read ∈ new := by
    rw [← hnew]
    exact List.mem_cons_self
  rw [← admits_of_stackFrame hstacked, ← vectorAddress_of_stackFrame hstacked] at hserved
  rw [← vectorAddress_and_one m x, ← vectorAddress_of_stackFrame hstacked]
  exact haligned _ hmem hserved fun hsize => by cases hsize

theorem cycles_step_of_not_stacked {e' : Exception} (running : e.machine.condition = .normal)
    (hafter : e.afterTask = (some x, m)) (hrefused : stackFrame x m = .error e' m') :
    e.step.2.machine.cycles = m'.cycles := by
  rw [e.machine_step_of_running running, hafter]
  simp only [raise, hrefused]
  rfl

theorem aligns_of_not_stacked {e' : Exception} (hafter : e.afterTask = (some x, m))
    (hrefused : stackFrame x m = .error e' m') : Aligns e.task.2 m' := by
  have hrun := e.acts_afterTask
  rw [hafter] at hrun
  have hleft : Leads (Acts True) (stackFrame x) m := acts_stackFrame x
  rw [Leads, hrefused] at hleft
  have hacts : Acts True e.task.2 m' := hrun.trans hleft
  exact hacts.aligns

theorem EvenVectors.even (heven : e.EvenVectors) (running : e.machine.condition = .normal)
    (early : e.task.2.model.allowsMisalignedData = false) :
    ∃ new, e.step.2.machine.cycles = new ++ e.task.2.cycles ∧ ∀ c ∈ new, c.IsAligned := by
  -- A step ends without an exception, with a frame not stacked, or with the fetch of a vector.
  rcases hafter : e.afterTask with ⟨_ | x, m⟩
  · have hcycles := e.acts_afterTask.aligns.cycles early
    rw [hafter] at hcycles
    rw [e.machine_step_of_running running, hafter]
    exact hcycles
  cases hstacked : stackFrame x m with
  | error e' m' =>
    rw [cycles_step_of_not_stacked running hafter hstacked]
    exact (aligns_of_not_stacked hafter hstacked).cycles early
  | ok _ m' =>
    obtain ⟨before, hbefore, haligned⟩ := (aligns_of_stacked hafter hstacked).cycles early
    refine ⟨m'.cycle (m'.vectorAddress x) 4 .supervisorData .read :: before, ?_, ?_⟩
    · rw [cycles_step_of_stacked running hafter hstacked, hbefore, List.cons_append]
    rw [List.forall_mem_cons]
    refine ⟨fun hfound _ => ?_, haligned⟩
    have hserved : m'.memory.admits (m'.vectorAddress x) 4 .supervisorData .read = true := hfound
    rw [admits_of_stackFrame hstacked, vectorAddress_of_stackFrame hstacked] at hserved
    have hvbr := heven x m m' hafter hstacked hserved
    rw [← vectorAddress_and_one m x, ← vectorAddress_of_stackFrame hstacked] at hvbr
    exact hvbr

theorem EvenVectors.stepAligned (heven : e.EvenVectors) (running : e.machine.condition = .normal)
    (early : e.task.2.model.allowsMisalignedData = false) : e.StepAligned where
  even := heven.even running early
  addressError run hrun _ _ _ _ hmeets hodd := by
    have herror := hmeets.error hodd.error
    rcases htask : e.task with ⟨task, m⟩
    rw [htask] at hrun herror
    obtain rfl : task = some run := hrun
    rw [afterTask, htask]
    simp only [herror]
  frame x m hafter _ _ _ _ hmeets hodd := by
    rw [e.machine_step_of_running running, hafter]
    exact condition_raise_of_not_stacked (hmeets.error hodd.error)
  vector x m hafter hstacked hodd := by
    obtain ⟨m', hstacked⟩ := hstacked
    rw [e.machine_step_of_running running, hafter]
    simp only [raise_of_stacked hstacked]
    apply condition_enterHandler_of_not_admits
    rw [admits_of_stackFrame hstacked, vectorAddress_of_stackFrame hstacked, ← Bool.not_eq_true]
    rw [vectorAddress_and_one] at hodd
    exact fun hserved => hodd (heven x m m' hafter hstacked hserved)

/-- On the 68000 and 68010 a step keeps to even addresses exactly if VBR is even wherever the vector
of its exception is served. -/
theorem stepAligned_iff (e : Emulator) (running : e.machine.condition = .normal)
    (early : e.task.2.model.allowsMisalignedData = false) :
    e.StepAligned ↔ e.EvenVectors :=
  ⟨fun h => h.evenVectors running early, fun heven => heven.stepAligned running early⟩

/-- RTS from an odd stack pointer, with VBR even: an address error, whose frame is stacked at even
addresses. -/
theorem stepAligned_iff_rts :
    let e : Emulator := ⟨{ Machine.new .m68000
        (.flat ⟨.ofList ([0x4E, 0x75] ++ List.replicate 62 0), 0⟩) with
      regs := { Registers.initial with sr := 0, usp := 33, ssp := 64 } }, .empty, []⟩
    e.StepAligned ∧ e.afterTask.1 = some .addressError ∧
      e.step.2.machine.condition = .normal := by
  intro e
  have hvbr : e.afterTask.2.regs.vbr = 0 := by decide +kernel
  refine ⟨?_, by decide +kernel, by decide +kernel⟩
  refine (e.stepAligned_iff rfl (by decide +kernel)).mpr ?_
  intro x m m' hafter _ _
  rw [hafter] at hvbr
  rw [hvbr]
  rfl

/-- TRAP #0 on the 68010 with VBR 1: the vector at 129 is fetched and the handler entered. -/
theorem not_stepAligned_oddVbr :
    let bytes := [0x4E, 0x40] ++ List.replicate 130 0 ++ [0x40] ++ List.replicate 27 0
    let e : Emulator := ⟨{ Machine.new .m68010 (.flat ⟨.ofList bytes, 0⟩) with
      regs := { Registers.initial with ssp := 160, vbr := 1 } }, .empty, []⟩
    e.step.2.machine.condition = .normal ∧ e.step.2.machine.regs.pc = 0x40 ∧ ¬e.StepAligned := by
  intro bytes e
  refine ⟨by decide +kernel, by decide +kernel, fun h => ?_⟩
  obtain ⟨new, hnew, haligned⟩ := h.even
  have hstart : e.task.2.cycles = [] := by decide +kernel
  have hodd : ¬∀ c ∈ e.step.2.machine.cycles, c.IsAligned := by decide +kernel
  rw [hstart, List.append_nil] at hnew
  rw [← hnew] at haligned
  exact hodd haligned

end Emulator

end Mc68k
