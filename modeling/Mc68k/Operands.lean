import Mc68k.EffectiveAddress
import Mc68k.Instruction

namespace Mc68k

inductive Target where
  | none
  | data (n : RegisterNumber)
  | address (n : RegisterNumber)
  | memory
  deriving DecidableEq, Repr

structure Operands where
  size : Size
  target : Target
  address : Address
  first : UInt32
  /-- The destination before the operation, or a second source. -/
  second : UInt32
  result : UInt32
  deriving DecidableEq, Repr

namespace Operands

def new (size : Size) : Operands := ⟨size, .none, 0, 0, 0, 0⟩

def toData (p : Operands) (n : RegisterNumber) : UInt32 × Operands :=
  (UInt32.ofNat n, { p with target := .data n })

def toAddress (p : Operands) (n : RegisterNumber) : UInt32 × Operands :=
  (UInt32.ofNat n, { p with target := .address n })

def toMemory (p : Operands) (addr : Address) : UInt32 × Operands :=
  (addr, { p with target := .memory, address := addr })

/-- Make a place the target; program space and immediates are never written. -/
def toLocation? (p : Operands) : Location → Option (UInt32 × Operands)
  | .data n => some (p.toData n)
  | .address n => some (p.toAddress n)
  | .memory addr => some (p.toMemory addr)
  | .program _ | .immediate _ => .none

end Operands

def Location.address? : Location → Option Address
  | .memory addr | .program addr => some addr
  | _ => none

namespace Exec

def orIllegal {α : Type} : Option α → Exec α
  | some x => pure x
  | none => throw .illegalInstruction

def resolveMode (ea : Option AddressingMode) (size : Size) : Exec Location := do
  resolve (← orIllegal ea) size

def fetchTarget (ea : Option AddressingMode) (p : Operands) : Exec (UInt32 × Operands) := do
  orIllegal (p.toLocation? (← resolveMode ea p.size))

def fetchControlAddress (op : Opcode) (size : Size) : Exec UInt32 := do
  orIllegal (← resolveMode (AddressingMode.ofOpcode? op) size).address?

/-- The effective address of MOVEM; the operation itself steps An for (An)+ and -(An). -/
def fetchMovemBase (op : Opcode) (size : Size) : Exec UInt32 := do
  if op.mode = 3 ∨ op.mode = 4 then return (← regs).a op.y
  else fetchControlAddress op size

/-- A displacement of 0 stands for a word that follows, 0xFF for a long where there are long
branches. -/
def fetchBranchTarget (op : Opcode) : Exec UInt32 := do
  let m ← get
  let displacement ←
    if field op 0 8 = 0 then fetchSignedWord
    else if field op 0 8 = 0xFF ∧ m.model.hasFullExtension then fetchLong
    else pure (signExtend op.toUInt32 .byte)
  pure (m.regs.pc + displacement)

def oneToEight (n : RegisterNumber) : UInt32 := if n.val = 0 then 8 else UInt32.ofNat n

def fetchShiftCount (op : Opcode) : Exec UInt32 := do
  if bit op 5 then return (← regs).d op.x &&& 63
  else pure (oneToEight op.x)

/-- TRAPcc has a word in mode 2 of its field, a long in mode 3 and nothing else. -/
def fetchTrapOperand (op : Opcode) : Exec UInt32 := do
  match field op 0 3 with
  | 2 => return (← fetchWord).toUInt32
  | 3 => fetchLong
  | _ => pure 0

def valueOnly (p : Operands) (value : Exec UInt32) : Exec (UInt32 × Operands) := do
  return (← value, p)

def fetchAt (addr : Exec Address) (size : Size) : Exec UInt32 := do
  readLocation (.memory (← addr)) size

end Exec

open Exec in
def Fetch.run (f : Fetch) (p : Operands) : Exec (UInt32 × Operands) := do
  let op := (← get).opcode
  match f with
  | .source => valueOnly p do
      readLocation (← resolveMode (AddressingMode.ofOpcode? op) p.size) p.size
  | .target => fetchTarget (AddressingMode.ofOpcode? op) p
  | .moveTarget => fetchTarget (AddressingMode.ofMoveTarget? op) p
  | .controlAddress => valueOnly p (fetchControlAddress op p.size)
  | .movemBase => valueOnly p (fetchMovemBase op p.size)
  | .displacedAddress => valueOnly p do
      let base := (← regs).a op.y
      return base + (← fetchSignedWord)
  | .data f => valueOnly p do return signExtend ((← regs).d (op.register f)) p.size
  | .dataTarget f => pure (p.toData (op.register f))
  | .address f => valueOnly p do return (← regs).a (op.register f)
  | .addressTarget f => pure (p.toAddress (op.register f))
  | .postincrement f => valueOnly p (fetchAt (Exec.postincrement (op.register f) p.size) p.size)
  | .predecrement f => valueOnly p (fetchAt (Exec.predecrement (op.register f) p.size) p.size)
  | .predecrementTarget f => return p.toMemory (← Exec.predecrement (op.register f) p.size)
  | .immediate => valueOnly p do return signExtend (← fetchImmediate p.size) p.size
  | .immediateWord => valueOnly p do return (← fetchWord).toUInt32
  | .bitNumber => valueOnly p do return (← fetchWord).toUInt32 &&& 0xFF
  | .extension => valueOnly p do return (← fetchWord).toUInt32
  | .quick => valueOnly p (pure (oneToEight op.x))
  | .signedByte => valueOnly p (pure (signExtend op.toUInt32 .byte))
  | .branchTarget => valueOnly p (fetchBranchTarget op)
  | .wordBranchTarget => valueOnly p do
      let base := (← regs).pc
      return base + (← fetchSignedWord)
  | .displacementWord => valueOnly p fetchSignedWord
  | .displacementLong => valueOnly p fetchLong
  | .trapNumber => valueOnly p (pure (UInt32.ofNat (field op 0 4)))
  | .one => valueOnly p (pure 1)
  | .shiftCount => valueOnly p (fetchShiftCount op)
  | .trapOperand => valueOnly p (fetchTrapOperand op)

namespace Operands

open Exec

/-- Load the target into `second`: registers of data and memory sign-extended, An whole. -/
def load (p : Operands) : Exec Operands := do
  match p.target with
  | .none => pure p
  | .data n => return { p with second := signExtend ((← regs).d n) p.size }
  | .address n => return { p with second := (← regs).a n }
  | .memory => return { p with second := signExtend (← readData p.address p.size) p.size }

/-- Condition codes of a stored result, unless the operation has set its own. -/
def setCodes (p : Operands) (flags : InstructionFlags) : Exec Unit :=
  if flags.contains .setsCcr then pure ()
  else modifyRegs fun r => { r with sr := Status.logical r.sr p.result p.size }

/-- Store the result at the target. An takes it whole and leaves the condition codes alone. -/
def store (p : Operands) (flags : InstructionFlags) : Exec Unit := do
  if flags.contains .storesResult then
    match p.target with
    | .address n => modifyRegs (·.setA n p.result)
    | .data n =>
      p.setCodes flags
      modifyRegs fun r => r.setD n (merge (r.d n) p.result p.size)
    | .memory =>
      p.setCodes flags
      writeData p.address p.size p.result
    | .none => p.setCodes flags

end Operands

end Mc68k
