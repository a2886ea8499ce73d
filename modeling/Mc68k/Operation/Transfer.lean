import Mc68k.Operands

namespace Mc68k

namespace Perform

open Exec

def listed (mask : UInt16) : List Nat := (List.range 16).filter (bit mask)

def storeUp (size : Size) : List Nat → Address → Exec Unit
  | [], _ => pure ()
  | index :: rest, addr => do
    writeData addr size ((← regs).general index)
    storeUp size rest (addr + UInt32.ofNat size.bytes)

def storeDown (size : Size) (an : Nat) (anValue : UInt32) : List Nat → Address → Exec Address
  | [], addr => pure addr
  | index :: rest, addr => do
    let r ← regs
    let addr := addr - UInt32.ofNat size.bytes
    writeData addr size (if index = an then anValue else r.general index)
    storeDown size an anValue rest addr

/-- Read registers upward from an address, words sign-extended; ends past the last. -/
def loadUp (size : Size) (space : FunctionCode) : List Nat → Address → Exec Address
  | [], addr => pure addr
  | index :: rest, addr => do
    let value ← read addr size space
    modifyRegs (·.setGeneral index (signExtend value size))
    loadUp size space rest (addr + UInt32.ofNat size.bytes)

/-- MOVEM to memory. In -(An), An goes as it was before on the 68000 and 68010, as it is after on
later models. -/
def movemStore (p : Operands) : Exec Operands := do
  let m ← get
  let mask := p.first.toUInt16
  if m.opcode.mode = 4 then do
    let final := p.second - UInt32.ofNat (p.size.bytes * (listed mask).length)
    let an := 8 + m.opcode.y.val
    let anValue := if .m68020 ≤ m.model then final else m.regs.a m.opcode.y
    let addr ← storeDown p.size an anValue ((listed mask).map (15 - ·)) p.second
    modifyRegs (·.setA m.opcode.y addr)
    pure p
  else do
    storeUp p.size (listed mask) p.second
    pure p

/-- MOVEM to registers. PC-relative modes read program space, and (An)+ leaves An past the last. -/
def movemLoad (p : Operands) : Exec Operands := do
  let m ← get
  let pcRelative := (AddressingMode.ofOpcode? m.opcode).any (·.isPcRelative)
  let space := if pcRelative then m.programSpace else m.dataSpace
  let addr ← loadUp p.size space (listed p.first.toUInt16) p.second
  if m.opcode.mode = 3 then modifyRegs (·.setA m.opcode.y addr)
  pure p

def writeAlternate : List UInt8 → Address → Exec Unit
  | [], _ => pure ()
  | b :: bs, addr => do
    writeData addr .byte b.toUInt32
    writeAlternate bs (addr + 2)

def readAlternate : Nat → UInt32 → Address → Exec UInt32
  | 0, value, _ => pure value
  | n + 1, value, addr => do
    let b ← readData addr .byte
    readAlternate n ((value <<< 8) ||| b) (addr + 2)

/-- MOVEP: bit 7 of the opcode is set for a move to memory, bit 6 for a long. -/
def movep (p : Operands) : Exec Operands := do
  let op := (← get).opcode
  let size : Size := if bit op 6 then .long else .word
  if bit op 7 then do
    writeAlternate (toBigEndian ((← regs).d op.x) size) p.first
    pure p
  else do
    let value ← readAlternate size.bytes 0 p.first
    modifyRegs fun r => r.setD op.x (merge (r.d op.x) value size)
    pure p

/-- The space that MOVES addresses; one that does not exist is a bus error. -/
def movesSpace (code : UInt8) : Exec FunctionCode :=
  match FunctionCode.ofCode? code with
  | some fc => pure fc
  | none => throw .busError

/-- MOVES: the extension word in `first` names the register and, in bit 11, the direction. -/
def moves (p : Operands) : Exec Operands := do
  let general := p.first.toNat / 4096
  let r ← regs
  if bit p.first.toUInt16 11 then do
    write p.address p.size (r.general general) (← movesSpace r.dfc)
    pure p
  else do
    let value ← read p.address p.size (← movesSpace r.sfc)
    modifyRegs fun r =>
      if general < 8 then r.setGeneral general (merge (r.general general) value p.size)
      else r.setGeneral general (signExtend value p.size)
    pure p

end Perform

inductive ControlRegister where
  | sfc
  | dfc
  | usp
  | vbr
  | cacr
  | caar
  | msp
  | isp
  deriving DecidableEq, Repr

namespace ControlRegister

def ofCode? (model : Model) : Nat → Option ControlRegister
  | 0x000 => some sfc
  | 0x001 => some dfc
  | 0x800 => some usp
  | 0x801 => some vbr
  | 0x002 => if model.hasCacheControl then some cacr else none
  | 0x802 => if model.hasCacheControl then some caar else none
  | 0x803 => if model.hasCacheControl then some msp else none
  | 0x804 => if model.hasCacheControl then some isp else none
  | _ => none

def get (r : Registers) : ControlRegister → UInt32
  | sfc => r.sfc.toUInt32
  | dfc => r.dfc.toUInt32
  | usp => r.usp
  | vbr => r.vbr
  | cacr => r.cacr
  | caar => r.caar
  | msp => r.msp
  | isp => r.ssp

/-- Function codes keep three bits. -/
def set (r : Registers) (value : UInt32) : ControlRegister → Registers
  | sfc => { r with sfc := (value &&& 7).toUInt8 }
  | dfc => { r with dfc := (value &&& 7).toUInt8 }
  | usp => { r with usp := value }
  | vbr => { r with vbr := value }
  | cacr => { r with cacr := value }
  | caar => { r with caar := value }
  | msp => { r with msp := value }
  | isp => { r with ssp := value }

end ControlRegister

namespace Perform

open Exec

/-- MOVEC: the extension word in `first` names both registers, bit 0 of the opcode the direction. -/
def movec (p : Operands) : Exec Operands := do
  let m ← get
  let general := p.first.toNat / 4096
  let control ← orIllegal (ControlRegister.ofCode? m.model (p.first.toNat % 4096))
  modifyRegs fun r =>
    if bit m.opcode 0 then control.set r (r.general general)
    else r.setGeneral general (control.get r)
  pure p

end Perform

end Mc68k
