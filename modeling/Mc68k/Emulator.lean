import Mc68k.Callback
import Mc68k.Decode
import Mc68k.Operation.Perform

namespace Mc68k

def undecodable (op : Opcode) : Exception :=
  match op.line with
  | 0xA => .lineA
  | 0xF => .lineF
  | _ => .illegalInstruction

namespace Exec

def fetchOperand (f : Option Fetch) (keep : Operands → UInt32 → Operands) (p : Operands) :
    Exec Operands :=
  match f with
  | none => pure p
  | some f => do
    let (value, p) ← f.run p
    pure (keep p value)

def fetchOperands (i : Instruction) : Exec Operands := do
  let p ← fetchOperand i.first ({ · with first := · }) (.new i.size)
  fetchOperand i.second ({ · with second := · }) p

def loadOperands (i : Instruction) (p : Operands) : Exec Operands :=
  if i.flags.contains .loadsTarget then p.load else pure p

def executeInstruction (i : Instruction) : Exec Unit := do
  let p ← fetchOperands i
  let p ← loadOperands i p
  let p ← i.operation.perform p
  p.store i.flags

def admitInstruction (op : Opcode) : Exec Instruction := do
  let m ← get
  match decode op with
  | none => throw (undecodable op)
  | some i =>
    if ¬ i.flags.minModel ≤ m.model then throw .illegalInstruction
    else if i.flags.privilegedOn m.model && !m.regs.isSupervisor then throw .privilegeViolation
    else pure i

def execute (op : Opcode) : Exec Unit := do
  modify ({ · with opcode := op })
  executeInstruction (← admitInstruction op)

end Exec

/-- Finish an instruction: a failure is raised, and a traced success raises a trace. -/
def Machine.complete (traced : Bool) : EStateM.Result Exception Machine Unit → Machine
  | .ok _ m => if traced ∧ m.condition ≠ .halted then m.raise .trace else m
  | .error e m => m.raise e

/-- A machine with its host callbacks, and the sessions that handlers ended, latest first. -/
structure Emulator where
  machine : Machine
  callbacks : CallbackTable
  terminations : List Termination

namespace Emulator

def new (model : Model) (memory : Memory) (callbacks : CallbackTable) : Emulator :=
  ⟨Machine.new model memory, callbacks, []⟩

def isRunning (e : Emulator) : Bool := e.machine.condition == .normal

/-- Run one instruction, or the host call that PC asks for and the opcode it resumes with. -/
def advance (e : Emulator) : Emulator :=
  let traced := e.machine.regs.isTraced
  let m := { e.machine with instructionPc := e.machine.regs.pc }
  match callNumber? m.regs.pc with
  | some n =>
    let (response, m) := e.callbacks.invoke n m
    let terminations := response.termination?.toList ++ e.terminations
    match response.opcode? with
    | some op => { e with machine := Machine.complete traced (Exec.execute op m), terminations }
    | none => { e with machine := m.halt, terminations }
  | none =>
    match Exec.fetchWord m with
    | .ok op m => { e with machine := Machine.complete traced (Exec.execute op m) }
    | .error exception m => { e with machine := m.raise exception }

def step (e : Emulator) : Bool × Emulator :=
  if e.isRunning then
    let e := e.advance
    (e.isRunning, e)
  else (false, e)

def runFrom (taken : Nat) : Nat → Emulator → Nat × Emulator
  | 0, e => (taken, e)
  | limit + 1, e =>
    match e.step with
    | (false, e) => (taken + 1, e)
    | (true, e) => runFrom (taken + 1) limit e

/-- At most `limit` steps, up to the first that ends the run; tells how many there were. -/
def run (limit : Nat) (e : Emulator) : Nat × Emulator := runFrom 0 limit e

theorem runFrom_eq (taken limit : Nat) (e : Emulator) :
    runFrom taken limit e = (taken + (run limit e).1, (run limit e).2) := by
  induction limit generalizing taken e with
  | zero => rfl
  | succ limit ih =>
    simp only [run, runFrom]
    split
    · simp only [Nat.zero_add]
    · next e' _ => simp only [ih (taken + 1) e', ih (0 + 1) e', Nat.zero_add, Nat.add_assoc]

@[simp] theorem run_zero (e : Emulator) : e.run 0 = (0, e) := rfl

theorem run_succ (limit : Nat) (e : Emulator) :
    e.run (limit + 1) =
      if e.step.1 then ((e.step.2.run limit).1 + 1, (e.step.2.run limit).2) else (1, e.step.2) := by
  rw [run, runFrom]
  split
  · next h => simp [h]
  · next h => simp [h, runFrom_eq, Nat.add_comm]

def reset (e : Emulator) : Emulator := { e with machine := e.machine.reset }

def resume (e : Emulator) : Emulator :=
  if e.machine.condition = .stopped then { e with machine.condition := .normal } else e

end Emulator

end Mc68k
