import Mc68k.Callback

namespace Mc68k

inductive HostCall where
  | unimplemented
  | load
  | illegalInstruction
  | divisionByZero
  | chkRange
  | trapvOverflow
  | privilegeViolation
  | traceException
  | lineAEmulator
  | lineFEmulator
  | unimplementedTrap
  | newPtr
  | disposePtr
  | blockMove
  | gestalt
  | noOp
  deriving DecidableEq, Repr

namespace HostCall

def all : List HostCall :=
  [unimplemented, load, illegalInstruction, divisionByZero, chkRange, trapvOverflow,
    privilegeViolation, traceException, lineAEmulator, lineFEmulator, unimplementedTrap, newPtr,
    disposePtr, blockMove, gestalt, noOp]

def number : HostCall → UInt16
  | unimplemented => 0
  | load => 1
  | illegalInstruction => 2
  | divisionByZero => 3
  | chkRange => 4
  | trapvOverflow => 5
  | privilegeViolation => 6
  | traceException => 7
  | lineAEmulator => 8
  | lineFEmulator => 9
  | unimplementedTrap => 10
  | newPtr => 11
  | disposePtr => 12
  | blockMove => 13
  | gestalt => 14
  | noOp => 15

def address (call : HostCall) : Address := (callbackAddress? call.number).getD 0

end HostCall

end Mc68k
