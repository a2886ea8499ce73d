import Mc68k.Memory.Basic
import Mc68k.Exception
import Mc68k.Opcode
import Mc68k.Registers

namespace Mc68k

inductive Condition where
  | normal
  | stopped
  | halted
  deriving DecidableEq, Repr

/-- The access behind the last bus or address error. -/
structure Fault where
  address : Address
  space : FunctionCode
  write : Bool
  instruction : Bool
  deriving DecidableEq, Repr

structure BusCycle where
  address : Address
  size : Nat
  space : FunctionCode
  access : Access
  /-- The bytes that were there before the access, or none if it was refused. -/
  found : Option (List UInt8)
  deriving DecidableEq, Repr

structure Machine where
  model : Model
  regs : Registers
  memory : Memory
  condition : Condition
  opcode : Opcode
  instructionPc : Address
  fault : Fault
  /-- Accesses so far, latest first. -/
  cycles : List BusCycle

namespace Machine

def new (model : Model) (memory : Memory) : Machine where
  model
  regs := Registers.initial
  memory
  condition := .normal
  opcode := 0
  instructionPc := 0
  fault := ⟨0, .supervisorData, false, false⟩
  cycles := []

def dataSpace (m : Machine) : FunctionCode := .of m.regs.isSupervisor false

def programSpace (m : Machine) : FunctionCode := .of m.regs.isSupervisor true

/-- Write SR, dropping the bits that the model lacks. -/
def setSr (m : Machine) (value : UInt16) : Machine :=
  { m with regs := { m.regs with sr := value &&& m.model.srMask } }

def setCcr (m : Machine) (value : UInt16) : Machine := { m with regs := m.regs.setCcr value }

def request (m : Machine) (addr : Address) (n : Nat) (fc : FunctionCode) (access : Access) :
    Option (List UInt8) × Machine :=
  let (found, memory) := m.memory.request addr n fc access
  (found, { m with memory, cycles := ⟨addr, n, fc, access, found⟩ :: m.cycles })

/-- Write bytes, all or none; tells whether they were written. -/
def store (m : Machine) (addr : Address) (bytes : List UInt8) (fc : FunctionCode) :
    Bool × Machine :=
  match m.request addr bytes.length fc .write with
  | (none, m) => (false, m)
  | (some _, m) => (true, { m with memory := m.memory.patch addr bytes })

def load (m : Machine) (addr : Address) (size : Size) (fc : FunctionCode) :
    Option UInt32 × Machine :=
  let (found, m) := m.request addr size.bytes fc .read
  (found.map ofBigEndian, m)

/-- An operand wider than a byte at an odd address, on a model that minds. -/
def isMisaligned (m : Machine) (addr : Address) (size : Size) : Bool :=
  size != .byte && addr &&& 1 != 0 && !m.model.allowsMisalignedData

end Machine

/-- A computation on a machine that may end in an exception; what it did before stays done. -/
abbrev Exec := EStateM Exception Machine

namespace Exec

def regs : Exec Registers := fun m => .ok m.regs m

def modifyRegs (f : Registers → Registers) : Exec Unit := fun m =>
  .ok () { m with regs := f m.regs }

/-- Record an access as failed, and end in an exception. -/
def fail {α : Type} (e : Exception) (addr : Address) (fc : FunctionCode) (write : Bool) :
    Exec α := fun m =>
  .error e { m with fault := ⟨addr, fc, write, fc.isProgram⟩ }

def read (addr : Address) (size : Size) (fc : FunctionCode) : Exec UInt32 := fun m =>
  if m.isMisaligned addr size then fail .addressError addr fc false m
  else match m.load addr size fc with
    | (some value, m) => .ok value m
    | (none, m) => fail .busError addr fc false m

/-- Write the low `size` bytes of a value. -/
def write (addr : Address) (size : Size) (value : UInt32) (fc : FunctionCode) : Exec Unit :=
  fun m =>
  if m.isMisaligned addr size then fail .addressError addr fc true m
  else match m.store addr (toBigEndian value size) fc with
    | (true, m) => .ok () m
    | (false, m) => fail .busError addr fc true m

def readData (addr : Address) (size : Size) : Exec UInt32 := do
  read addr size (← get).dataSpace

def writeData (addr : Address) (size : Size) (value : UInt32) : Exec Unit := do
  write addr size value (← get).dataSpace

/-- The word at PC, in program space; PC moves past it. No model fetches from an odd address. -/
def fetchWord : Exec UInt16 := fun m =>
  if m.regs.pc &&& 1 != 0 then fail .addressError m.regs.pc m.programSpace false m
  else match m.load m.regs.pc .word m.programSpace with
    | (some value, m) => .ok value.toUInt16 { m with regs := { m.regs with pc := m.regs.pc + 2 } }
    | (none, m) => fail .busError m.regs.pc m.programSpace false m

def fetchLong : Exec UInt32 := do
  let high ← fetchWord
  let low ← fetchWord
  pure ((high.toUInt32 <<< 16) ||| low.toUInt32)

/-- Write below the active stack pointer, then lower it. -/
def push (size : Size) (value : UInt32) : Exec Unit := do
  let sp := (← regs).sp - UInt32.ofNat size.bytes
  writeData sp size value
  modifyRegs (·.setSp sp)

def pushWord (value : UInt16) : Exec Unit := push .word value.toUInt32

def pushLong (value : UInt32) : Exec Unit := push .long value

def pop (size : Size) : Exec UInt32 := do
  let sp := (← regs).sp
  let value ← readData sp size
  modifyRegs (·.setSp (sp + UInt32.ofNat size.bytes))
  pure value

def popWord : Exec UInt16 := return (← pop .word).toUInt16

def popLong : Exec UInt32 := pop .long

end Exec

end Mc68k
