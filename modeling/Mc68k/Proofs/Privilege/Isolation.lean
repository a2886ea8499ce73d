import Mc68k.Proofs.Exception.Frame
import Mc68k.Proofs.Execution.Instruction
import Mc68k.Proofs.Decode

namespace Mc68k

namespace Memory

/-- An address lies in a range that user mode may write. -/
def UserWritable (m : Memory) (addr : Address) : Prop :=
  ∃ (start : Address) (n : Nat), m.admits start n .userData .write = true ∧
    start.toNat ≤ addr.toNat ∧ addr.toNat < start.toNat + n

end Memory

/-- The registers that neither a user program nor an exception changes. -/
structure Registers.SameControl (r r' : Registers) : Prop where
  msp : r'.msp = r.msp
  vbr : r'.vbr = r.vbr
  sfc : r'.sfc = r.sfc
  dfc : r'.dfc = r.dfc
  cacr : r'.cacr = r.cacr
  caar : r'.caar = r.caar

theorem Registers.SameSystem.control {r r' : Registers} (h : SameSystem r r') :
    SameControl r r' :=
  ⟨h.msp, h.vbr, h.sfc, h.dfc, h.cacr, h.caar⟩

namespace Machine

/-- A machine after a user program ran on it. -/
structure Confined (m m' : Machine) : Prop where
  model : m'.model = m.model
  regs : m.regs.SameSystem m'.regs
  shape : m'.memory.shape = m.memory.shape
  writable (addr : Address) (h : m'.memory.byte? addr ≠ m.memory.byte? addr) :
    m.memory.UserWritable addr

namespace Confined

theorem of_memory_eq {m m' : Machine} (model : m'.model = m.model)
    (regs : m.regs.SameSystem m'.regs) (memory : m'.memory = m.memory) : Confined m m' where
  model := model
  regs := regs
  shape := by rw [memory]
  writable addr hne := absurd (by rw [memory]) hne

theorem refl (m : Machine) : Confined m m := of_memory_eq rfl (.refl _) rfl

theorem trans {m m' m'' : Machine} (h : Confined m m') (h' : Confined m' m'') :
    Confined m m'' where
  model := h'.model.trans h.model
  regs := h.regs.trans h'.regs
  shape := h'.shape.trans h.shape
  writable addr hne := by
    by_cases hlast : m''.memory.byte? addr = m'.memory.byte? addr
    · exact h.writable addr (hlast ▸ hne)
    · obtain ⟨start, n, hadmits, hrange⟩ := h'.writable addr hlast
      rw [Memory.admits_of_shape_eq h.shape] at hadmits
      exact ⟨start, n, hadmits, hrange⟩

end Confined

theorem Step.confined {m m' : Machine} (h : Step false m m') : Confined m m' := by
  cases h with
  | registers r h => exact .of_memory_eq rfl h rfl
  | read addr size fc => exact .of_memory_eq rfl (.refl _) rfl
  | write addr size value ha hw =>
    refine ⟨rfl, .refl _, Memory.shape_patch _ _ _, ?_⟩
    intro x hne
    refine ⟨addr, size.bytes, hw, ?_⟩
    have hin : ¬(x.toNat < addr.toNat ∨
        addr.toNat + (toBigEndian value size).length ≤ x.toNat) := fun ho =>
      hne (Memory.byte?_patch m.memory addr (toBigEndian value size) x ho)
    rw [length_toBigEndian] at hin
    omega

theorem Path.confined {m m' : Machine} (h : Path false m m') : Confined m m' := by
  induction h with
  | refl => exact .refl _
  | step _ hs ih => exact ih.trans hs.confined

theorem Failure.confined {e : Exception} {m m' : Machine} (h : Failure false e m m') :
    Confined m m' := by
  cases h <;> exact .of_memory_eq rfl (.refl _) rfl

theorem Outcome.confined {α : Type} {m : Machine} {result : EStateM.Result Exception Machine α}
    (h : Outcome false m result) : Confined m (left result) := by
  cases h with
  | ok h => exact h.confined
  | error h h' => exact h.confined.trans h'.confined

end Machine

namespace Exec

open Machine

theorem isSystem_of_admit {op : Opcode} {i : Instruction} {m m' : Machine}
    (user : m.regs.isSupervisor = false) (h : admitInstruction op m = .ok i m') :
    i.operation.isSystem = false := by
  obtain ⟨hdecode, -, hprivileged, -⟩ := admitInstruction_of_ok h
  cases hs : i.operation.isSystem with
  | false => rfl
  | true =>
    have hflag := privileged_of_decode hdecode hs
    have := hprivileged (by simp [InstructionFlags.privilegedOn, hflag])
    simp [user] at this

theorem confined_execute (op : Opcode) (m : Machine) (user : m.regs.isSupervisor = false) :
    Confined m (left (execute op m)) := by
  have hset : (modify ({ · with opcode := op }) : Exec Unit) m =
      .ok () { m with opcode := op } := rfl
  have hopcode : Confined m { m with opcode := op } := .of_memory_eq rfl (.refl _) rfl
  rw [execute, bind_ok hset]
  obtain ⟨i, -, -, -, hadmit⟩ | ⟨e, -, hadmit⟩ := admitInstruction_cases op { m with opcode := op }
  · rw [bind_ok hadmit]
    have hplain := isSystem_of_admit (m := { m with opcode := op }) user hadmit
    have hruns := (program_executeInstruction i hplain).runs { m with opcode := op } user
    exact hopcode.trans hruns.confined
  · rw [bind_error hadmit]
    exact hopcode

end Exec

namespace Machine

theorem confined_runInstruction (m : Machine) (user : m.regs.isSupervisor = false) :
    Confined m (left m.runInstruction) := by
  have hpc : Confined m { m with instructionPc := m.regs.pc } := .of_memory_eq rfl (.refl _) rfl
  have hfetch := (Exec.Runs.fetchWord { m with instructionPc := m.regs.pc } user).confined
  rw [runInstruction]
  cases hf : Exec.fetchWord { m with instructionPc := m.regs.pc } with
  | error e m₁ =>
    rw [hf] at hfetch
    rw [Exec.bind_error hf]
    exact hpc.trans hfetch
  | ok op m₁ =>
    rw [hf] at hfetch
    rw [Exec.bind_ok hf]
    have hfetched := hpc.trans hfetch
    exact hfetched.trans (Exec.confined_execute op m₁ (hfetched.regs.isSupervisor.trans user))

theorem confined_afterInstruction (m : Machine) (user : m.regs.isSupervisor = false) :
    Confined m m.afterInstruction.2 := by
  have h := m.confined_runInstruction user
  rw [afterInstruction]
  cases hr : m.runInstruction with
  | ok _ m' =>
    rw [hr] at h
    exact h
  | error e m' =>
    rw [hr] at h
    exact h

end Machine

/-- One step in user mode: every byte that changed was writable for user data, but for at most 14
bytes below the old SSP if it ends in an exception. -/
theorem Emulator.step_confined (e : Emulator) (running : e.machine.condition = .normal)
    (user : e.machine.regs.isSupervisor = false)
    (plain : callNumber? e.machine.regs.pc = none) :
    (∃ m', e.machine.afterInstruction = (none, m') ∧ e.step.2.machine = m' ∧
      Status.system m'.regs.sr = Status.system e.machine.regs.sr ∧
      m'.regs.ssp = e.machine.regs.ssp ∧ e.machine.regs.SameControl m'.regs ∧
      ∀ addr, m'.memory.byte? addr ≠ e.machine.memory.byte? addr →
        e.machine.memory.UserWritable addr) ∨
    (∃ exception m₁ m', e.machine.afterInstruction = (some exception, m₁) ∧
      e.step.2.machine = m' ∧ m' = m₁.raise exception ∧
      Status.has m'.regs.sr Status.S = true ∧
      Status.has m'.regs.sr (Status.T1 ||| Status.T0) = false ∧
      Status.system m'.regs.sr &&& ~~~(Status.S ||| Status.T1 ||| Status.T0) =
        Status.system e.machine.regs.sr &&& ~~~(Status.S ||| Status.T1 ||| Status.T0) ∧
      e.machine.regs.SameControl m'.regs ∧
      ∀ addr, m'.memory.byte? addr ≠ e.machine.memory.byte? addr →
        e.machine.memory.UserWritable addr ∨
          addr.toNat < e.machine.regs.ssp.toNat ∧ e.machine.regs.ssp.toNat ≤ addr.toNat + 14) := by
  have hstep := e.machine_step running plain
  have hconfined := e.machine.confined_afterInstruction user
  rcases ha : e.machine.afterInstruction with ⟨_ | exception, m₁⟩
  · rw [ha] at hstep hconfined
    exact .inl ⟨m₁, rfl, hstep, hconfined.regs.status, hconfined.regs.ssp user,
      hconfined.regs.control, hconfined.writable⟩
  · rw [ha] at hstep hconfined
    have hraised := m₁.raised exception
    have hcontrol := hconfined.regs.control
    have hssp := hconfined.regs.ssp user
    refine .inr ⟨exception, m₁, _, rfl, hstep, rfl, ?_, ?_, ?_, ?_, ?_⟩
    · rw [hraised.regs]
      exact m₁.isSupervisor_supervised
    · rw [hraised.regs]
      exact m₁.has_trace_supervised
    · rw [hraised.regs, ← hconfined.regs.status]
      exact m₁.system_supervised
    · rw [hraised.regs]
      exact ⟨hcontrol.msp, hcontrol.vbr, hcontrol.sfc, hcontrol.dfc, hcontrol.cacr, hcontrol.caar⟩
    · intro addr hne
      by_cases hframe : (m₁.raise exception).memory.byte? addr = m₁.memory.byte? addr
      · exact .inl (hconfined.writable addr (hframe ▸ hne))
      · have hbounds := hraised.byte?_ne hframe
        have hsize := exception.size_frame_le m₁
        rw [hssp] at hbounds
        exact .inr (by omega)

/-- STOP in user mode, in RAM whose first 64 bytes are the supervisor's: no more than 14 bytes of
those are written. -/
theorem Emulator.step_confined_stop :
    let ram : FlatMemory := ⟨.ofList (List.replicate 64 0 ++ [0x4E, 0x72, 0x27, 0x00]), 64⟩
    let e : Emulator := ⟨{ Machine.new .m68000 (.flat ram) with
      regs := { Registers.initial with sr := 0, ssp := 64, pc := 64 } }, .empty, []⟩
    e.machine.afterInstruction.1 = some .privilegeViolation ∧
      Status.has e.step.2.machine.regs.sr Status.S = true ∧
      ∀ addr, e.step.2.machine.memory.byte? addr ≠ e.machine.memory.byte? addr →
        e.machine.memory.UserWritable addr ∨ addr.toNat < 64 ∧ 64 ≤ addr.toNat + 14 := by
  intro ram e
  have hviolation : e.machine.afterInstruction.1 = some .privilegeViolation := by decide +kernel
  refine ⟨hviolation, ?_⟩
  obtain ⟨m', h, -⟩ | ⟨exception, m₁, m', -, hstep, -, hs, -, -, -, hbytes⟩ :=
    e.step_confined rfl (by decide +kernel) (by decide +kernel)
  · rw [h] at hviolation
    cases hviolation
  · rw [hstep]
    exact ⟨hs, hbytes⟩

end Mc68k
