import Mc68k.AddressingMode
import Mc68k.Machine

namespace Mc68k

inductive Location where
  | data (n : RegisterNumber)
  | address (n : RegisterNumber)
  | memory (addr : Address)
  | program (addr : Address)
  | immediate (value : UInt32)
  deriving DecidableEq, Repr

namespace Exec

/-- What (An)+ and -(An) step by; A7 stays even. -/
def stepOf (n : RegisterNumber) (size : Size) : UInt32 :=
  if n.val = 7 ∧ size = .byte then 2 else UInt32.ofNat size.bytes

def postincrement (n : RegisterNumber) (size : Size) : Exec Address := do
  let addr := (← regs).a n
  modifyRegs (·.setA n (addr + stepOf n size))
  pure addr

def predecrement (n : RegisterNumber) (size : Size) : Exec Address := do
  let addr := (← regs).a n - stepOf n size
  modifyRegs (·.setA n addr)
  pure addr

def fetchSignedWord : Exec UInt32 := return signExtend (← fetchWord).toUInt32 .word

def fetchImmediate : Size → Exec UInt32
  | .byte => return (← fetchWord).toUInt32 &&& 0xFF
  | .word => return (← fetchWord).toUInt32
  | .long => fetchLong

end Exec

/-- The index of an extension word, scaled on models that scale. -/
def Machine.index (m : Machine) (ext : UInt16) : UInt32 :=
  let reg := m.regs.general (field ext 12 4)
  let value := if bit ext 11 then reg else signExtend reg .word
  if m.model.hasFullExtension then value <<< UInt32.ofNat (field ext 9 2) else value

namespace FullExtension

def suppressesBase (ext : UInt16) : Bool := bit ext 7

def suppressesIndex (ext : UInt16) : Bool := bit ext 6

/-- Size of the base displacement: 1 none, 2 a word, 3 a long, 0 reserved. -/
def baseSize (ext : UInt16) : Nat := field ext 4 2

/-- Indirection: 0 none, 1 to 3 before the index, 5 to 7 after it, 4 reserved. -/
def indirection (ext : UInt16) : Nat := field ext 0 3

def isReserved (ext : UInt16) : Bool :=
  indirection ext == 4 || (suppressesIndex ext && indirection ext > 4)

end FullExtension

namespace Exec

open FullExtension

/-- A displacement of a full extension word: size 1 is none, 2 a word, 3 a long. -/
def fetchDisplacement : Nat → Exec UInt32
  | 1 => pure 0
  | 2 => fetchSignedWord
  | _ => fetchLong

/-- The address of a full extension word, and whether it was read from memory. -/
def resolveFull (ext : UInt16) (base : Address) (space : FunctionCode) :
    Exec (Address × Bool) := do
  let m ← get
  let base := if suppressesBase ext then 0 else base
  let index := if suppressesIndex ext then 0 else m.index ext
  if baseSize ext = 0 then throw .illegalInstruction
  let displacement ← fetchDisplacement (baseSize ext)
  if indirection ext = 0 then
    return (base + displacement + index, false)
  if isReserved ext then throw .illegalInstruction
  let outer ← fetchDisplacement (indirection ext % 4)
  if indirection ext > 4 then
    let pointer ← read (base + displacement) .long space
    return (pointer + index + outer, true)
  else
    let pointer ← read (base + displacement + index) .long space
    return (pointer + outer, true)

def resolveIndexed (base : Address) (space : FunctionCode) : Exec (Address × Bool) := do
  let ext ← fetchWord
  let m ← get
  if bit ext 8 && m.model.hasFullExtension then resolveFull ext base space
  else pure (base + signExtend ext.toUInt32 .byte + m.index ext, false)

/-- Find the place of an operand. PC-relative modes count from their extension word. -/
def resolve (ea : AddressingMode) (size : Size) : Exec Location := do
  match ea with
  | .dataRegister n => pure (.data n)
  | .addressRegister n => pure (.address n)
  | .indirect n => return .memory ((← regs).a n)
  | .postincrement n => return .memory (← postincrement n size)
  | .predecrement n => return .memory (← predecrement n size)
  | .displacement n =>
    let displacement ← fetchSignedWord
    return .memory ((← regs).a n + displacement)
  | .indexed n =>
    let (addr, _) ← resolveIndexed ((← regs).a n) (← get).dataSpace
    pure (.memory addr)
  | .absoluteShort => return .memory (← fetchSignedWord)
  | .absoluteLong => return .memory (← fetchLong)
  | .pcDisplacement =>
    let base := (← regs).pc
    return .program (base + (← fetchSignedWord))
  | .pcIndexed =>
    let (addr, indirect) ← resolveIndexed (← regs).pc (← get).programSpace
    pure (if indirect then .memory addr else .program addr)
  | .immediate => return .immediate (← fetchImmediate size)

def readLocation (location : Location) (size : Size) : Exec UInt32 := do
  let raw ← match location with
    | .data n => pure ((← regs).d n)
    | .address n => pure ((← regs).a n)
    | .memory addr => readData addr size
    | .program addr => read addr size (← get).programSpace
    | .immediate value => pure value
  pure (signExtend raw size)

end Exec

end Mc68k
