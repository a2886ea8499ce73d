import Mc68k.Instruction

namespace Mc68k.Decode

open AddressingMode InstructionFlags

def nullary (operation : Operation) (size : Size) (flags : InstructionFlags) : Option Instruction :=
  some ⟨none, none, operation, size, flags⟩

def unary (f : Fetch) (operation : Operation) (size : Size) (flags : InstructionFlags) :
    Option Instruction :=
  some ⟨some f, none, operation, size, flags⟩

def binary (f g : Fetch) (operation : Operation) (size : Size) (flags : InstructionFlags) :
    Option Instruction :=
  some ⟨some f, some g, operation, size, flags⟩

/-- An instruction that exists only if a condition holds. -/
def only (condition : Bool) (i : Option Instruction) : Option Instruction :=
  if condition then i else none

def wordOrLong (op : Opcode) : Size := if bit op 6 then .long else .word

def bitOperation (op : Opcode) (ea : AddressingMode) (number : Fetch) (testable : Bool) :
    Option Instruction :=
  let size := if ea.isDataRegister then .long else .byte
  match field op 6 2 with
  | 0 => only testable (binary number .source .btst size plain)
  | 1 => only ea.isDataAlterable (binary number .target (.changeBit .invert) size modifiesCcr)
  | 2 => only ea.isDataAlterable (binary number .target (.changeBit .clear) size modifiesCcr)
  | _ => only ea.isDataAlterable (binary number .target (.changeBit .set) size modifiesCcr)

/-- ORI, ANDI and EORI: to memory and registers, and in place of immediate mode to CCR and SR. -/
def bitwiseImmediate (logic : Bitwise) (ea : AddressingMode) (size : Size) : Option Instruction :=
  if ea = .immediate then
    match size with
    | .byte => unary .immediateWord (.bitwiseCcr logic) .byte plain
    | .word => unary .immediateWord (.bitwiseSr logic) .word privileged
    | .long => none
  else only ea.isDataAlterable (binary .immediate .target (.bitwise logic) size modifies)

/-- Line 0: bit operations, MOVEP, immediates and MOVES. -/
def line0 (op : Opcode) : Option Instruction :=
  if bit op 8 && op.mode == 1 then unary .displacedAddress .movep (wordOrLong op) plain
  else do
    let ea ← ofOpcode? op
    if bit op 8 then bitOperation op ea (.data .x) ea.isData
    else if field op 9 3 = 4 then
      bitOperation op ea .bitNumber (ea.isData && ea != .immediate)
    else do
      let size ← op.size?
      match field op 9 3 with
      | 0 => bitwiseImmediate .or ea size
      | 1 => bitwiseImmediate .and ea size
      | 2 => only ea.isDataAlterable (binary .immediate .target .sub size modifiesCcr)
      | 3 => only ea.isDataAlterable (binary .immediate .target .add size modifiesCcr)
      | 5 => bitwiseImmediate .eor ea size
      | 6 =>
        if ea.isDataAlterable then binary .immediate .source .cmp size plain
        else only ea.isPcRelative (binary .immediate .source .cmp size from68020)
      | _ =>
        only ea.isMemoryAlterable
          (binary .extension .target .moves size (privileged ||| from68010))

/-- Lines 1 to 3: MOVE and MOVEA. -/
def move (op : Opcode) : Option Instruction := do
  let size ← Size.ofMoveCode? (field op 12 2)
  let source ← ofOpcode? op
  let target ← ofMoveTarget? op
  if !source.isOperand size then none
  else if target.isAddressRegister then
    only (size != .byte) (binary .source (.addressTarget .x) .move size storesResult)
  else only target.isDataAlterable (binary .source .moveTarget .move size storesResult)

def singleOperand (op : Opcode) : Option Instruction := do
  let ea ← ofOpcode? op
  match op.size? with
  | none =>
    match field op 9 2 with
    | 0 =>
      only ea.isDataAlterable
        (unary .target .moveFromSr .word (storesResult ||| setsCcr ||| privilegedFrom68010))
    | 1 =>
      only ea.isDataAlterable
        (unary .target .moveFromCcr .word (storesResult ||| setsCcr ||| from68010))
    | 2 => only ea.isData (unary .source .moveToCcr .word plain)
    | _ => only ea.isData (unary .source .moveToSr .word privileged)
  | some size =>
    match field op 9 2 with
    | 0 => only ea.isDataAlterable (unary .target .negx size modifiesCcr)
    | 1 => only ea.isDataAlterable (unary .target .clr size storesResult)
    | 2 => only ea.isDataAlterable (unary .target .neg size modifiesCcr)
    | _ => only ea.isDataAlterable (unary .target .not size modifies)

/-- Opcodes 48xx: NBCD, SWAP, PEA, BKPT, LINK.L, EXT and MOVEM to memory. -/
def line48 (op : Opcode) : Option Instruction :=
  match field op 3 5 with
  | 1 => unary .displacementLong .link .long from68020
  | 8 => unary (.dataTarget .y) .swap .long modifies
  | 9 => nullary .illegal .word from68010
  | 16 => unary (.dataTarget .y) .ext .word modifies
  | 24 => unary (.dataTarget .y) .ext .long modifies
  | _ => do
    let ea ← ofOpcode? op
    match field op 6 2 with
    | 0 => only ea.isDataAlterable (unary .target .nbcd .byte modifiesCcr)
    | 1 => only ea.isControl (unary .controlAddress .pea .long plain)
    | _ =>
      only (ea.isControlAlterable || ea.isPredecrement)
        (binary .extension .movemBase .movemStore (wordOrLong op) plain)

/-- Opcodes 4Axx: TST, TAS and ILLEGAL. -/
def line4A (op : Opcode) : Option Instruction :=
  if field op 0 8 = 0xFC then nullary .illegal .word plain
  else do
    let ea ← ofOpcode? op
    match op.size? with
    | none => only ea.isDataAlterable (unary .target .tas .byte modifiesCcr)
    | some size =>
      if ea.isDataAlterable then unary .source .tst size plain
      else only (ea.isOperand size) (unary .source .tst size from68020)

/-- Opcodes 4Cxx: long multiplication and division, and MOVEM to registers. -/
def line4C (op : Opcode) : Option Instruction := do
  let ea ← ofOpcode? op
  match field op 6 2 with
  | 0 => only ea.isData (binary .extension .source .mulLong .long from68020)
  | 1 => only ea.isData (binary .extension .source .divLong .long from68020)
  | _ =>
    only (ea.isControl || ea.isPostincrement)
      (binary .extension .movemBase .movemLoad (wordOrLong op) plain)

/-- Opcodes 4Exx: system control, TRAP, LINK, UNLK, MOVE USP, JSR and JMP. -/
def line4E (op : Opcode) : Option Instruction :=
  match field op 0 8 with
  | 0x70 => nullary .reset .word privileged
  | 0x71 => nullary .nop .word plain
  | 0x72 => unary .immediateWord .stop .word privileged
  | 0x73 => nullary .rte .word privileged
  | 0x74 => unary .displacementWord .rtd .word from68010
  | 0x75 => nullary .rts .word plain
  | 0x76 => nullary .trapv .word plain
  | 0x77 => nullary .rtr .word plain
  | 0x7A | 0x7B => unary .extension .movec .long (privileged ||| from68010)
  | _ =>
    match field op 3 5 with
    | 8 | 9 => unary .trapNumber .trap .word plain
    | 10 => unary .displacementWord .link .word plain
    | 11 => nullary .unlk .long plain
    | 12 | 13 => nullary .moveUsp .long privileged
    | _ => do
      let ea ← ofOpcode? op
      match field op 6 2 with
      | 2 => only ea.isControl (unary .controlAddress .jsr .long plain)
      | 3 => only ea.isControl (unary .controlAddress .jmp .long plain)
      | _ => none

def line4 (op : Opcode) : Option Instruction :=
  if bit op 8 then
    if field op 9 3 = 4 ∧ op.opmode = 7 ∧ op.mode = 0 then
      unary (.dataTarget .y) .ext .long (modifies ||| from68020)
    else do
      let ea ← ofOpcode? op
      match op.opmode with
      | 7 => only ea.isControl (binary .controlAddress (.addressTarget .x) .move .long storesResult)
      | 6 => only ea.isData (binary .source (.data .x) .chk .word plain)
      | 4 => only ea.isData (binary .source (.data .x) .chk .long from68020)
      | _ => none
  else
    match field op 9 3 with
    | 4 => line48 op
    | 5 => line4A op
    | 6 => line4C op
    | 7 => line4E op
    | _ => singleOperand op

/-- Line 5: ADDQ, SUBQ, Scc, DBcc and TRAPcc. -/
def line5 (op : Opcode) : Option Instruction := do
  let ea ← ofOpcode? op
  match op.size? with
  | none =>
    if ea.isAddressRegister then unary .wordBranchTarget .dbcc .word plain
    else if ea.isAlterable then unary .target .scc .byte (storesResult ||| setsCcr)
    else unary .trapOperand .trapcc .word from68020
  | some size =>
    if ea.isAddressRegister then
      only (size != .byte)
        (binary .quick .target (if bit op 8 then .suba else .adda) size modifies)
    else
      only ea.isDataAlterable
        (binary .quick .target (if bit op 8 then .sub else .add) size modifiesCcr)

def line6 (op : Opcode) : Option Instruction :=
  unary .branchTarget (if op.condition = 1 then .bsr else .bcc) .word plain

def line7 (op : Opcode) : Option Instruction :=
  only (!bit op 8) (binary .signedByte (.dataTarget .x) .move .long storesResult)

/-- ABCD, SBCD, ADDX and SUBX: Dy and Dx, or -(Ay) and -(Ax) if bit 3 is set. -/
def pair (op : Opcode) (operation : Operation) (size : Size) : Option Instruction :=
  if bit op 3 then
    binary (.predecrement .y) (.predecrementTarget .x) operation size modifiesCcr
  else binary (.data .y) (.dataTarget .x) operation size modifiesCcr

def bitwise (op : Opcode) (ea : AddressingMode) (logic : Bitwise) : Option Instruction := do
  let size ← op.size?
  if bit op 8 then
    only ea.isMemoryAlterable (binary (.data .x) .target (.bitwise logic) size modifies)
  else only ea.isData (binary .source (.dataTarget .x) (.bitwise logic) size modifies)

/-- Line 8: OR, DIVU, DIVS and SBCD. -/
def line8 (op : Opcode) : Option Instruction := do
  let ea ← ofOpcode? op
  match op.opmode with
  | 3 => only ea.isData (unary .source .divu .word plain)
  | 7 => only ea.isData (unary .source .divs .word plain)
  | 4 => if op.mode ≤ 1 then pair op .sbcd .byte else bitwise op ea .or
  | _ => bitwise op ea .or

/-- Line C: AND, MULU, MULS, ABCD and EXG. -/
def lineC (op : Opcode) : Option Instruction := do
  let ea ← ofOpcode? op
  match op.opmode with
  | 3 => only ea.isData (unary .source .mulu .word plain)
  | 7 => only ea.isData (unary .source .muls .word plain)
  | 4 => if op.mode ≤ 1 then pair op .abcd .byte else bitwise op ea .and
  | 5 => if op.mode ≤ 1 then nullary .exg .long plain else bitwise op ea .and
  | 6 => if op.mode = 1 then nullary .exg .long plain else bitwise op ea .and
  | _ => bitwise op ea .and

/-- Lines 9 and D: SUB and ADD, with their address and extended forms. -/
def addSub (op : Opcode) (plainly address extended : Operation) : Option Instruction := do
  let ea ← ofOpcode? op
  match op.size? with
  | none => binary .source (.addressTarget .x) address (if bit op 8 then .long else .word) modifies
  | some size =>
    if bit op 8 then
      if op.mode ≤ 1 then pair op extended size
      else only ea.isMemoryAlterable (binary (.data .x) .target plainly size modifiesCcr)
    else only (ea.isOperand size) (binary .source (.dataTarget .x) plainly size modifiesCcr)

/-- Line B: CMP, CMPA, CMPM and EOR. -/
def lineB (op : Opcode) : Option Instruction := do
  let ea ← ofOpcode? op
  match op.size? with
  | none => binary .source (.address .x) .cmpa (if bit op 8 then .long else .word) plain
  | some size =>
    if bit op 8 then
      if ea.isAddressRegister then binary (.postincrement .y) (.postincrement .x) .cmp size plain
      else only ea.isDataAlterable (binary (.data .x) .target (.bitwise .eor) size modifies)
    else only (ea.isOperand size) (binary .source (.data .x) .cmp size plain)

def shiftKind : Nat → ShiftKind
  | 0 => .arithmetic
  | 1 => .logical
  | 2 => .rotateExtend
  | _ => .rotate

/-- Line E: shifts and rotates, of Dy by a count or of a word in memory by one. -/
def lineE (op : Opcode) : Option Instruction :=
  match op.size? with
  | some size =>
    binary .shiftCount (.dataTarget .y) (.shift (shiftKind (field op 3 2))) size modifiesCcr
  | none => do
    let ea ← ofOpcode? op
    only (!bit op 11 && ea.isMemoryAlterable)
      (binary .one .target (.shift (shiftKind (field op 9 2))) .word modifiesCcr)

end Decode

def decode (op : Opcode) : Option Instruction :=
  match op.line with
  | 0x0 => Decode.line0 op
  | 0x1 | 0x2 | 0x3 => Decode.move op
  | 0x4 => Decode.line4 op
  | 0x5 => Decode.line5 op
  | 0x6 => Decode.line6 op
  | 0x7 => Decode.line7 op
  | 0x8 => Decode.line8 op
  | 0x9 => Decode.addSub op .sub .suba .subx
  | 0xB => Decode.lineB op
  | 0xC => Decode.lineC op
  | 0xD => Decode.addSub op .add .adda .addx
  | 0xE => Decode.lineE op
  | _ => none

end Mc68k
