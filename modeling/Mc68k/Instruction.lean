import Mc68k.AddressingMode
import Mc68k.Model
import Mc68k.Shift

namespace Mc68k

/-- Properties of an instruction as bits; bits 6 to 4 hold the first model that has it. -/
structure InstructionFlags where
  bits : UInt16
  deriving DecidableEq, Repr

namespace InstructionFlags

instance : OrOp InstructionFlags := ⟨fun f g => ⟨f.bits ||| g.bits⟩⟩

def plain : InstructionFlags := ⟨0⟩
def privilegedFrom68010 : InstructionFlags := ⟨0x01⟩
def privileged : InstructionFlags := ⟨0x02⟩
def from68010 : InstructionFlags := ⟨0x10⟩
def from68020 : InstructionFlags := ⟨0x20⟩
def loadsTarget : InstructionFlags := ⟨0x80⟩
def storesResult : InstructionFlags := ⟨0x100⟩
/-- The operation sets the condition codes itself. -/
def setsCcr : InstructionFlags := ⟨0x800⟩
def modifies : InstructionFlags := loadsTarget ||| storesResult
def modifiesCcr : InstructionFlags := modifies ||| setsCcr

def contains (f g : InstructionFlags) : Bool := f.bits &&& g.bits == g.bits

def minModel (f : InstructionFlags) : Model :=
  match field f.bits 4 3 with
  | 0 => .m68000
  | 1 => .m68010
  | 2 => .m68020
  | 3 => .m68030
  | _ => .m68040

def privilegedOn (f : InstructionFlags) (model : Model) : Bool :=
  f.contains privileged || (f.contains privilegedFrom68010 && (.m68010 ≤ model : Bool))

end InstructionFlags

inductive Fetch where
  | source
  | target
  | moveTarget
  | controlAddress
  /-- The effective address of MOVEM, with An as it is for (An)+ and -(An). -/
  | movemBase
  | displacedAddress
  | data (f : RegisterField)
  | dataTarget (f : RegisterField)
  | address (f : RegisterField)
  | addressTarget (f : RegisterField)
  | postincrement (f : RegisterField)
  | predecrement (f : RegisterField)
  | predecrementTarget (f : RegisterField)
  | immediate
  | immediateWord
  | bitNumber
  | extension
  /-- The number 1 to 8 in the x field, where 0 stands for 8. -/
  | quick
  | signedByte
  | branchTarget
  | wordBranchTarget
  | displacementWord
  | displacementLong
  | trapNumber
  | one
  /-- Dx modulo 64, or 1 to 8 in the x field. -/
  | shiftCount
  | trapOperand
  deriving DecidableEq, Repr

inductive Bitwise where
  | and
  | or
  | eor
  deriving DecidableEq, Repr

inductive BitChange where
  | invert
  | clear
  | set
  deriving DecidableEq, Repr

inductive Operation where
  | move
  | pea
  | moveToCcr
  | moveToSr
  | moveFromSr
  | moveFromCcr
  | movemStore
  | movemLoad
  | movep
  | add
  | sub
  | adda
  | suba
  | addx
  | subx
  | neg
  | negx
  | cmp
  | cmpa
  | tst
  | clr
  | mulu
  | muls
  | divu
  | divs
  | mulLong
  | divLong
  | chk
  | abcd
  | sbcd
  | nbcd
  | ext
  | tas
  | exg
  | swap
  | bitwise (op : Bitwise)
  | not
  | bitwiseCcr (op : Bitwise)
  | bitwiseSr (op : Bitwise)
  | btst
  | changeBit (change : BitChange)
  | shift (kind : ShiftKind)
  | bcc
  | bsr
  | dbcc
  | scc
  | jmp
  | jsr
  | rts
  | rtr
  | rtd
  | rte
  | trap
  | trapv
  | trapcc
  | illegal
  | nop
  | reset
  | stop
  | link
  | unlk
  | moveUsp
  | movec
  | moves
  deriving DecidableEq, Repr

structure Instruction where
  first : Option Fetch
  second : Option Fetch
  operation : Operation
  size : Size
  flags : InstructionFlags
  deriving DecidableEq, Repr

namespace Instruction

def arity (i : Instruction) : Nat := i.first.toList.length + i.second.toList.length

def sizeName : Size → String
  | .byte => "Byte"
  | .word => "Word"
  | .long => "Long"

def summary (i : Instruction) : String :=
  "Instruction \x7b fetchers: " ++ toString i.arity ++ ", size: " ++ sizeName i.size ++
    ", flags: InstructionFlags(" ++ toString i.flags.bits.toNat ++ "), .. \x7d"

end Instruction

end Mc68k
