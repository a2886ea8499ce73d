import Mc68k.Machine

/-!
Entry to and return from exceptions. Entry switches to supervisor mode, stacks a frame and jumps
through the vector table; if any of that fails, the processor halts.

* 68000: PC and SR; for bus and address errors also the opcode, the address and an information word.
* 68010: PC, SR and a word of format 0 with the vector offset.
* 68020 and later: format 2 for CHK, TRAPV, zero divide and trace, with the address of the
  instruction above the rest.
-/

namespace Mc68k

/-- The information word of a group 0 frame: function code, and whether data was read. -/
def Fault.information (f : Fault) : UInt16 :=
  f.space.code.toUInt16 ||| (if f.instruction then 0 else 0x08) ||| (if f.write then 0 else 0x10)

def Exception.formatWord (e : Exception) (model : Model) : UInt16 :=
  UInt16.ofNat (e.frameFormat model * 4096 + e.vector * 4)

namespace Exec

def pushShortFrame (e : Exception) (pc : Address) (sr : UInt16) : Exec Unit := do
  pushLong pc
  pushWord sr
  if e.isGroupZero then do
    let m ← get
    pushWord m.opcode
    pushLong m.fault.address
    pushWord m.fault.information

def pushFormatFrame (e : Exception) (pc : Address) (sr : UInt16) : Exec Unit := do
  let m ← get
  if e.frameFormat m.model = 2 then pushLong m.instructionPc
  pushWord (e.formatWord m.model)
  pushLong pc
  pushWord sr

def stackFrame (e : Exception) : Exec Unit := do
  let m ← get
  let sr := m.regs.sr
  let pc := if e.isFault then m.instructionPc else m.regs.pc
  modifyRegs fun r => { r with sr := (sr ||| Status.S) &&& ~~~(Status.T1 ||| Status.T0) }
  if m.model.hasFrameFormats then pushFormatFrame e pc sr else pushShortFrame e pc sr

def frameSize? : Nat → Option UInt32
  | 0 => some 8
  | 2 => some 12
  | _ => none

/-- Unstack SR and PC from the supervisor stack; nothing changes unless all of the frame is read. -/
def returnFromException : Exec Unit := do
  let sp := (← regs).ssp
  let sr ← read sp .word .supervisorData
  let pc ← read (sp + 2) .long .supervisorData
  let size ← if (← get).model.hasFrameFormats then do
      let word ← read (sp + 6) .word .supervisorData
      match frameSize? (word.toNat / 4096) with
      | some size => pure size
      | none => throw .formatError
    else pure 6
  modify fun m =>
    let m := { m with regs := { m.regs with ssp := sp + size } }.setSr sr.toUInt16
    { m with regs := { m.regs with pc } }

end Exec

namespace Machine

def halt (m : Machine) : Machine := { m with condition := .halted }

def vectorAddress (m : Machine) (e : Exception) : Address :=
  m.regs.vbr + UInt32.ofNat (4 * e.vector)

/-- Jump to the handler of an exception, which must be at an even address; it ends a stop. -/
def enterHandler (m : Machine) (e : Exception) : Machine :=
  match m.load (m.vectorAddress e) .long .supervisorData with
  | (some handler, m) =>
    if handler &&& 1 = 0 then
      { m with
        regs := { m.regs with pc := handler }
        condition := if m.condition = .stopped then .normal else m.condition }
    else m.halt
  | (none, m) => m.halt

/-- Process an exception; a second fault on the way halts the processor. -/
def raise (m : Machine) (e : Exception) : Machine :=
  match Exec.stackFrame e m with
  | .ok _ m => m.enterHandler e
  | .error _ m => m.halt

def reset (m : Machine) : Machine :=
  let m := { m with regs := { m.regs with sr := 0x2700, vbr := 0 }, condition := .normal }
  let (ssp, m) := m.load 0 .long .supervisorProgram
  let (pc, m) := m.load 4 .long .supervisorProgram
  match ssp, pc with
  | some ssp, some pc => { m with regs := { m.regs with ssp, pc } }
  | _, _ => m.halt

end Machine

end Mc68k
