import Mc68k.Opcode

namespace Mc68k

inductive AddressingMode where
  | dataRegister (n : RegisterNumber)
  | addressRegister (n : RegisterNumber)
  | indirect (n : RegisterNumber)
  | postincrement (n : RegisterNumber)
  | predecrement (n : RegisterNumber)
  | displacement (n : RegisterNumber)
  | indexed (n : RegisterNumber)
  | absoluteShort
  | absoluteLong
  | pcDisplacement
  | pcIndexed
  | immediate
  deriving DecidableEq, Repr

namespace AddressingMode

/-- The mode of a mode field and a register field; mode 7 has no registers above 4. -/
def ofFields? (mode reg : Nat) : Option AddressingMode :=
  match mode % 8 with
  | 0 => some (dataRegister (RegisterNumber.ofNat reg))
  | 1 => some (addressRegister (RegisterNumber.ofNat reg))
  | 2 => some (indirect (RegisterNumber.ofNat reg))
  | 3 => some (postincrement (RegisterNumber.ofNat reg))
  | 4 => some (predecrement (RegisterNumber.ofNat reg))
  | 5 => some (displacement (RegisterNumber.ofNat reg))
  | 6 => some (indexed (RegisterNumber.ofNat reg))
  | _ => match reg % 8 with
    | 0 => some absoluteShort
    | 1 => some absoluteLong
    | 2 => some pcDisplacement
    | 3 => some pcIndexed
    | 4 => some immediate
    | _ => none

def ofOpcode? (op : Opcode) : Option AddressingMode := ofFields? (field op 3 3) (field op 0 3)

/-- The destination of MOVE, whose fields are swapped. -/
def ofMoveTarget? (op : Opcode) : Option AddressingMode := ofFields? (field op 6 3) (field op 9 3)

def isData : AddressingMode → Bool
  | addressRegister _ => false
  | _ => true

def isMemory : AddressingMode → Bool
  | dataRegister _ | addressRegister _ => false
  | _ => true

/-- Those with an address and no side effect. -/
def isControl : AddressingMode → Bool
  | indirect _ | displacement _ | indexed _ | absoluteShort | absoluteLong | pcDisplacement
  | pcIndexed => true
  | _ => false

def isAlterable : AddressingMode → Bool
  | pcDisplacement | pcIndexed | immediate => false
  | _ => true

def isDataAlterable (ea : AddressingMode) : Bool := ea.isData && ea.isAlterable

def isMemoryAlterable (ea : AddressingMode) : Bool := ea.isMemory && ea.isAlterable

def isControlAlterable (ea : AddressingMode) : Bool := ea.isControl && ea.isAlterable

def isDataRegister : AddressingMode → Bool
  | dataRegister _ => true
  | _ => false

def isAddressRegister : AddressingMode → Bool
  | addressRegister _ => true
  | _ => false

def isPostincrement : AddressingMode → Bool
  | postincrement _ => true
  | _ => false

def isPredecrement : AddressingMode → Bool
  | predecrement _ => true
  | _ => false

def isPcRelative : AddressingMode → Bool
  | pcDisplacement | pcIndexed => true
  | _ => false

/-- Any mode, but An only for words and longs. -/
def isOperand (ea : AddressingMode) (size : Size) : Bool :=
  !(ea.isAddressRegister && size == .byte)

end AddressingMode

end Mc68k
