import Mc68k.Operation.Arithmetic

namespace Mc68k

def Target.isData : Target → Bool
  | data _ => true
  | _ => false

def Bitwise.apply : Bitwise → UInt32 → UInt32 → UInt32
  | and, a, b => a &&& b
  | or, a, b => a ||| b
  | eor, a, b => a ^^^ b

def BitChange.apply : BitChange → UInt32 → UInt32 → UInt32
  | invert, value, mask => value ^^^ mask
  | clear, value, mask => value &&& ~~~mask
  | set, value, mask => value ||| mask

namespace Perform

open Exec

def combineSr (op : Bitwise) (p : Operands) (sr : UInt16) : UInt16 :=
  (op.apply p.first sr.toUInt32).toUInt16

def bitMask (number : UInt32) (wide : Bool) : UInt32 :=
  1 <<< (number % if wide then 32 else 8)

def testBit (value mask : UInt32) (sr : UInt16) : UInt16 :=
  Status.setIf sr Status.Z (value &&& mask == 0)

/-- BTST. The operand is only a source, so its mode tells whether it is a long. -/
def btst (p : Operands) : Exec Operands := do
  let op := (← get).opcode
  changeSr (testBit p.second (bitMask p.first (op.mode == 0))) p

def changeBit (change : BitChange) (p : Operands) : Exec Operands := do
  let mask := bitMask p.first p.target.isData
  let p ← changeSr (testBit p.second mask) p
  pure { p with result := change.apply p.second mask }

/-- EXT.W, EXT.L and EXTB.L: from a word in opmode 3, else from a byte. -/
def ext (p : Operands) : Exec Operands := do
  let op := (← get).opcode
  pure { p with result := signExtend p.second (if op.opmode = 3 then .word else .byte) }

def tas (p : Operands) : Exec Operands := do
  let p ← changeSr (Status.logical · p.second .byte) p
  pure { p with result := p.second ||| 0x80 }

/-- EXG: Dx with Dy, Ax with Ay, or Dx with Ay. -/
def exg (p : Operands) : Exec Operands := do
  let op := (← get).opcode
  modifyRegs fun r => match field op 3 5 with
    | 8 => (r.setD op.x (r.d op.y)).setD op.y (r.d op.x)
    | 9 => (r.setA op.x (r.a op.y)).setA op.y (r.a op.x)
    | _ => (r.setD op.x (r.a op.y)).setA op.y (r.d op.x)
  pure p

end Perform

end Mc68k
