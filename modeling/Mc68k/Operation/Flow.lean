import Mc68k.ExceptionProcessing
import Mc68k.Operands

namespace Mc68k.Perform

open Exec

def conditionHolds : Exec Bool := do
  let m ← get
  pure (Status.condition m.regs.sr m.opcode.condition)

def jump (target : Address) : Exec Unit := modifyRegs ({ · with pc := target })

def bcc (p : Operands) : Exec Operands := do
  if ← conditionHolds then jump p.first
  pure p

def call (p : Operands) : Exec Operands := do
  pushLong (← regs).pc
  jump p.first
  pure p

/-- DBcc: unless the condition holds, count the low word of Dy down and jump until it is -1. -/
def dbcc (p : Operands) : Exec Operands := do
  if ← conditionHolds then pure p
  else do
    let n := (← get).opcode.y
    let count := ((← regs).d n).toUInt16 - 1
    modifyRegs fun r => r.setD n (merge (r.d n) count.toUInt32 .word)
    if count != 0xFFFF then jump p.first
    pure p

def scc (p : Operands) : Exec Operands := do
  pure { p with result := if ← conditionHolds then 0xFF else 0 }

def rts (p : Operands) : Exec Operands := do
  jump (← popLong)
  pure p

def rtr (p : Operands) : Exec Operands := do
  let ccr ← popWord
  jump (← popLong)
  modifyRegs (·.setCcr ccr)
  pure p

def rtd (p : Operands) : Exec Operands := do
  jump (← popLong)
  modifyRegs fun r => r.setSp (r.sp + p.first)
  pure p

def rte (p : Operands) : Exec Operands := do
  returnFromException
  pure p

def trapv (p : Operands) : Exec Operands := do
  if Status.has (← regs).sr Status.V then throw .trapV else pure p

def trapcc (p : Operands) : Exec Operands := do
  if ← conditionHolds then throw .trapV else pure p

def stop (p : Operands) : Exec Operands := do
  modify fun m => { m.setSr p.first.toUInt16 with condition := .stopped }
  pure p

/-- LINK: stack An, point it at the stack and reserve space. A7 is stacked as already lowered. -/
def link (p : Operands) : Exec Operands := do
  let n := (← get).opcode.y
  let r ← regs
  let sp := r.sp - 4
  writeData sp .long (if n.val = 7 then sp else r.a n)
  modifyRegs fun r => (((r.setSp sp).setA n sp).setSp (sp + p.first))
  pure p

def unlk (p : Operands) : Exec Operands := do
  let n := (← get).opcode.y
  let frame := (← regs).a n
  let saved ← readData frame .long
  modifyRegs fun r => (r.setSp (frame + 4)).setA n saved
  pure p

/-- MOVE USP: from An, or to An if bit 3 is set. -/
def moveUsp (p : Operands) : Exec Operands := do
  let op := (← get).opcode
  modifyRegs fun r => if bit op 3 then r.setA op.y r.usp else { r with usp := r.a op.y }
  pure p

end Mc68k.Perform
