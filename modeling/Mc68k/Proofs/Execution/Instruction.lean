import Mc68k.Emulator
import Mc68k.Proofs.Execution.Operation

namespace Mc68k

namespace Exec

variable {supervisor : Bool}

theorem steady_fetchOperand (f : Option Fetch) (keep : Operands → UInt32 → Operands)
    (p : Operands) : Steady supervisor (fetchOperand f keep p) := by
  cases f with
  | none => exact .pure _
  | some f => exact .bind (f.steady_run p) fun _ => .pure _

theorem steady_fetchOperands (i : Instruction) : Steady supervisor (fetchOperands i) :=
  .bind (steady_fetchOperand _ _ _) fun _ => steady_fetchOperand _ _ _

theorem steady_loadOperands (i : Instruction) (p : Operands) :
    Steady supervisor (loadOperands i p) :=
  .ite p.neutral_load.toSteady (.pure _)

theorem program_executeInstruction (i : Instruction) (h : i.operation.isSystem = false) :
    Program supervisor (executeInstruction i) :=
  .bind (steady_fetchOperands i).program fun _ => .bind (steady_loadOperands i _).program fun _ =>
    .bind (i.operation.program_perform _ h) fun p => (p.neutral_store _).program

theorem isGroupZero_undecodable (op : Opcode) : (undecodable op).isGroupZero = false := by
  rw [undecodable]
  split <;> rfl

theorem admitInstruction_cases (op : Opcode) (m : Machine) :
    (∃ i, decode op = some i ∧ i.flags.minModel ≤ m.model ∧
      (i.flags.privilegedOn m.model = true → m.regs.isSupervisor = true) ∧
      admitInstruction op m = .ok i m) ∨
    (∃ e, e.isGroupZero = false ∧ admitInstruction op m = .error e m) := by
  rw [admitInstruction, bind_get]
  cases hd : decode op with
  | none => exact .inr ⟨undecodable op, isGroupZero_undecodable op, rfl⟩
  | some i =>
    simp only
    split
    · exact .inr ⟨.illegalInstruction, rfl, rfl⟩
    · next hm =>
      split
      · exact .inr ⟨.privilegeViolation, rfl, rfl⟩
      · next hp =>
        refine .inl ⟨i, rfl, by simpa using hm, ?_, rfl⟩
        intro h
        simpa [h] using hp

theorem admitInstruction_of_ok {op : Opcode} {i : Instruction} {m m' : Machine}
    (h : admitInstruction op m = .ok i m') :
    decode op = some i ∧ i.flags.minModel ≤ m.model ∧
      (i.flags.privilegedOn m.model = true → m.regs.isSupervisor = true) ∧ m' = m := by
  obtain ⟨j, hd, hmin, hp, hok⟩ | ⟨e, -, herror⟩ := admitInstruction_cases op m
  · rw [h] at hok
    obtain ⟨rfl, rfl⟩ := EStateM.Result.ok.inj hok
    exact ⟨hd, hmin, hp, rfl⟩
  · rw [h] at herror
    cases herror

theorem execute_of_decode {op : Opcode} {i : Instruction} {m : Machine}
    (hdecode : decode op = some i) (hmin : i.flags.minModel ≤ m.model)
    (hprivilege : (i.flags.privilegedOn m.model && !m.regs.isSupervisor) = false) :
    execute op m = executeInstruction i { m with opcode := op } := by
  have hadmit : admitInstruction op { m with opcode := op } = .ok i { m with opcode := op } := by
    rw [admitInstruction, bind_get, hdecode]
    simp only [hmin, hprivilege]
    rfl
  exact bind_ok hadmit

theorem execute_of_plain {op : Opcode} {i : Instruction} (m : Machine)
    (hdecode : decode op = some i) (hplain : i.flags = .plain) :
    execute op m = executeInstruction i { m with opcode := op } := by
  have hprivilege : InstructionFlags.plain.privilegedOn m.model = false := by
    cases m.model <;> decide
  refine execute_of_decode hdecode ?_ (by simp [hplain, hprivilege])
  rw [hplain]
  cases m.model <;> decide

theorem executeInstruction_of_ok {op : Opcode} {i : Instruction} {m m' : Machine}
    (hdecode : decode op = some i) (h : execute op m = .ok () m') :
    executeInstruction i { m with opcode := op } = .ok () m' := by
  rw [execute, bind_modify] at h
  obtain ⟨j, m₁, hadmit, hrun⟩ := exists_of_bind_ok h
  obtain ⟨hj, -, -, rfl⟩ := admitInstruction_of_ok hadmit
  obtain rfl := Option.some.inj (hj.symm.trans hdecode)
  exact hrun

theorem executeInstruction_nullary {operation : Operation} {size : Size} {flags : InstructionFlags}
    (hloads : flags.contains .loadsTarget = false)
    (hstores : flags.contains .storesResult = false) :
    executeInstruction ⟨none, none, operation, size, flags⟩ =
      (do let _ ← operation.perform (.new size); pure ()) := by
  simp [executeInstruction, fetchOperands, fetchOperand, loadOperands, Operands.store, hloads,
    hstores]

theorem execute_nullary {op : Opcode} {operation : Operation} {size : Size}
    {flags : InstructionFlags} {m : Machine}
    (hdecode : decode op = Decode.nullary operation size flags)
    (hmin : flags.minModel ≤ m.model)
    (hprivilege : (flags.privilegedOn m.model && !m.regs.isSupervisor) = false)
    (hloads : flags.contains .loadsTarget = false)
    (hstores : flags.contains .storesResult = false) :
    execute op m =
      (do let _ ← operation.perform (.new size); pure ()) { m with opcode := op } := by
  rw [execute_of_decode hdecode hmin hprivilege, executeInstruction_nullary hloads hstores]

theorem executeInstruction_of_value {f : Fetch} {operation : Operation} {size : Size}
    {flags : InstructionFlags} {value : Exec UInt32} {m : Machine}
    (hloads : flags.contains .loadsTarget = false)
    (hstores : flags.contains .storesResult = false)
    (hrun : f.run (.new size) m = valueOnly (.new size) value m) :
    executeInstruction ⟨some f, none, operation, size, flags⟩ m = (do
      let first ← value
      let _ ← operation.perform { Operands.new size with first }
      pure ()) m := by
  have hunary : executeInstruction ⟨some f, none, operation, size, flags⟩ = (do
      let found ← f.run (.new size)
      let _ ← operation.perform { found.2 with first := found.1 }
      pure ()) := by
    simp [executeInstruction, fetchOperands, fetchOperand, loadOperands, Operands.store, hloads,
      hstores]
  rw [hunary, bind_eq_of_eq hrun, valueOnly]
  simp only [bind_assoc, pure_bind]

theorem performed_of_ok {op : Opcode} {f : Fetch} {operation : Operation} {size : Size}
    {flags : InstructionFlags} {value : Exec UInt32} {m m' : Machine}
    (hdecode : decode op = some ⟨some f, none, operation, size, flags⟩)
    (hloads : flags.contains .loadsTarget = false) (hstores : flags.contains .storesResult = false)
    (hrun : f.run (.new size) { m with opcode := op } =
      valueOnly (.new size) value { m with opcode := op })
    (h : execute op m = .ok () m') :
    ∃ first m₁ p, value { m with opcode := op } = .ok first m₁ ∧
      operation.perform { Operands.new size with first } m₁ = .ok p m' := by
  have hinstruction := executeInstruction_of_ok hdecode h
  rw [executeInstruction_of_value hloads hstores hrun] at hinstruction
  obtain ⟨first, m₁, hvalue, hrest⟩ := exists_of_bind_ok hinstruction
  obtain ⟨p, m₂, hperform, hpure⟩ := exists_of_bind_ok hrest
  obtain ⟨-, rfl⟩ := EStateM.Result.ok.inj hpure
  exact ⟨first, m₁, p, hvalue, hperform⟩

end Exec

namespace Machine

/-- The instruction at PC, from its fetch to its end or to its first failure. -/
def runInstruction (m : Machine) : EStateM.Result Exception Machine Unit :=
  (do Exec.execute (← Exec.fetchWord)) { m with instructionPc := m.regs.pc }

/-- How a step leaves an instruction: the exception still to be processed, if there is one, and the
machine that it finds. -/
def afterInstruction (m : Machine) : Option Exception × Machine :=
  match m.runInstruction with
  | .ok _ m' => (if m.regs.isTraced ∧ m'.condition ≠ .halted then some .trace else none, m')
  | .error e m' => (some e, m')

theorem afterInstruction_of_quiet {m : Machine} (quiet : m.afterInstruction.1 = none) :
    ∃ m', m.runInstruction = .ok () m' ∧ m.afterInstruction = (none, m') := by
  cases hrun : m.runInstruction with
  | error e m' =>
    rw [afterInstruction, hrun] at quiet
    cases quiet
  | ok _ m' =>
    rw [afterInstruction, hrun] at quiet ⊢
    exact ⟨m', rfl, Prod.ext quiet rfl⟩

end Machine

theorem Emulator.step_of_plain (e : Emulator) (running : e.machine.condition = .normal)
    (plain : callNumber? e.machine.regs.pc = none) :
    let e' := { e with machine := match e.machine.afterInstruction with
      | (none, m) => m
      | (some exception, m) => m.raise exception }
    e.step = (e'.isRunning, e') := by
  have hr : e.isRunning = true := by simp [Emulator.isRunning, running]
  have hp : callNumber? { e.machine with instructionPc := e.machine.regs.pc }.regs.pc = none :=
    plain
  simp only [Emulator.step, hr, if_true, Emulator.advance, hp, Machine.afterInstruction,
    Machine.runInstruction]
  cases hf : Exec.fetchWord { e.machine with instructionPc := e.machine.regs.pc } with
  | error exception m => rw [Exec.bind_error hf]
  | ok op m =>
    rw [Exec.bind_ok hf]
    simp only
    cases Exec.execute op m with
    | error exception m' => rfl
    | ok _ m' =>
      simp only [Machine.complete]
      split <;> rfl

theorem Emulator.machine_step (e : Emulator) (running : e.machine.condition = .normal)
    (plain : callNumber? e.machine.regs.pc = none) :
    e.step.2.machine = match e.machine.afterInstruction with
      | (none, m) => m
      | (some exception, m) => m.raise exception := by
  rw [e.step_of_plain running plain]

namespace Emulator

theorem step_fst (e : Emulator) : e.step.1 = e.step.2.isRunning := by
  cases hr : e.isRunning with
  | false => simp [step, hr]
  | true => simp [step, hr]

/-- What a step runs, and on which machine: the instruction at PC, or the opcode that a host call
resumes with. A call that does not resume leaves nothing to run. -/
def task (e : Emulator) : Option (Exec Unit) × Machine :=
  let m := { e.machine with instructionPc := e.machine.regs.pc }
  match callNumber? m.regs.pc with
  | some n =>
    let (response, m) := e.callbacks.invoke n m
    (response.opcode?.map Exec.execute, m)
  | none => (some (do Exec.execute (← Exec.fetchWord)), m)

def afterTask (e : Emulator) : Option Exception × Machine :=
  match e.task with
  | (none, m) => (none, m.halt)
  | (some run, m) =>
    match run m with
    | .ok _ m' =>
      (if e.machine.regs.isTraced ∧ m'.condition ≠ .halted then some .trace else none, m')
    | .error exception m' => (some exception, m')

theorem machine_step_of_running (e : Emulator) (running : e.machine.condition = .normal) :
    e.step.2.machine = match e.afterTask with
      | (none, m) => m
      | (some exception, m) => m.raise exception := by
  cases hplain : callNumber? e.machine.regs.pc with
  | none =>
    have htask : e.task = (some (do Exec.execute (← Exec.fetchWord)),
        { e.machine with instructionPc := e.machine.regs.pc }) := by
      simp only [task, hplain]
    have hafter : e.afterTask = e.machine.afterInstruction := by
      rw [afterTask, htask]
      rfl
    rw [e.machine_step running hplain, hafter]
  | some n =>
    have hr : e.isRunning = true := by simp [isRunning, running]
    simp only [step, hr, if_true, advance, hplain, afterTask, task]
    cases (e.callbacks.invoke n
        { e.machine with instructionPc := e.machine.regs.pc }).1.opcode? with
    | none => rfl
    | some op =>
      simp only [Option.map_some, Machine.complete.eq_def]
      cases Exec.execute op
          (e.callbacks.invoke n { e.machine with instructionPc := e.machine.regs.pc }).2 with
      | error exception m' => rfl
      | ok _ m' =>
        simp only
        split <;> rfl

end Emulator

end Mc68k
