import Mc68k.Operation.Flow
import Mc68k.Operation.Logic
import Mc68k.Operation.Transfer

namespace Mc68k

namespace Operation

open Exec Perform

def perform (operation : Operation) (p : Operands) : Exec Operands :=
  match operation with
  | move => pure { p with result := p.first }
  | pea => do pushLong p.first; pure p
  | moveToCcr => changeSr (Status.withCcr · p.first.toUInt16) p
  | moveToSr => do modify (·.setSr p.first.toUInt16); pure p
  | moveFromSr => do pure { p with result := (← regs).sr.toUInt32 }
  | moveFromCcr => do pure { p with result := ((← regs).sr &&& Status.ccr).toUInt32 }
  | movemStore => Perform.movemStore p
  | movemLoad => Perform.movemLoad p
  | movep => Perform.movep p
  | add => compute (Alu.add p.first p.second p.size) p
  | sub => compute (Alu.sub p.first p.second p.size) p
  | adda => pure { p with result := p.second + p.first }
  | suba => pure { p with result := p.second - p.first }
  | addx => compute (Alu.addx p.first p.second p.size) p
  | subx => compute (Alu.subx p.first p.second p.size) p
  | neg => compute (Alu.neg p.second p.size) p
  | negx => compute (Alu.negx p.second p.size) p
  | cmp => changeSr (Alu.compare p.first p.second p.size) p
  | cmpa => changeSr (Alu.compare p.first p.second .long) p
  | tst => changeSr (Status.logical · p.first p.size) p
  | clr => pure { p with result := 0 }
  | mulu => multiplyWord false p
  | muls => multiplyWord true p
  | divu => divideWord false p
  | divs => divideWord true p
  | mulLong => multiplyLong p
  | divLong => divideLong p
  | chk => Perform.chk p
  | abcd => compute (Decimal.add p.first p.second) p
  | sbcd => compute (Decimal.sub p.first p.second) p
  | nbcd => compute (Decimal.sub p.second 0) p
  | ext => Perform.ext p
  | tas => Perform.tas p
  | exg => Perform.exg p
  | swap => pure { p with result := (p.second <<< 16) ||| (p.second >>> 16) }
  | bitwise op => pure { p with result := op.apply p.first p.second }
  | not => pure { p with result := ~~~p.second }
  | bitwiseCcr op => changeSr (fun sr => Status.withCcr sr (combineSr op p sr)) p
  | bitwiseSr op => do modify (fun m => m.setSr (combineSr op p m.regs.sr)); pure p
  | btst => Perform.btst p
  | changeBit change => Perform.changeBit change p
  | shift kind => do
    let left := bit (← get).opcode 8
    compute (Shift.shift kind (if left then .left else .right) p.first.toNat p.second p.size) p
  | bcc => Perform.bcc p
  | bsr | jsr => call p
  | dbcc => Perform.dbcc p
  | scc => Perform.scc p
  | jmp => do jump p.first; pure p
  | rts => Perform.rts p
  | rtr => Perform.rtr p
  | rtd => Perform.rtd p
  | rte => Perform.rte p
  | trap => throw (.trap p.first.toUInt8)
  | trapv => Perform.trapv p
  | trapcc => Perform.trapcc p
  | illegal => throw .illegalInstruction
  | nop | reset => pure p
  | stop => Perform.stop p
  | link => Perform.link p
  | unlk => Perform.unlk p
  | moveUsp => Perform.moveUsp p
  | movec => Perform.movec p
  | moves => Perform.moves p

end Operation

end Mc68k
