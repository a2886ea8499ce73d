import Mc68k.Host.Basic

namespace Mc68k

namespace Host

def terminal (signal : Signal) (message : String) : Handler :=
  fun m => (.terminate ⟨signal, message⟩, m)

def unimplementedTrap : Handler := fun m =>
  (.terminate ⟨.illegalInstruction,
    "Unimplemented Mac trap: A" ++ hexDigits 3 (m.regs.d .one &&& 0xFFF).toNat⟩, m)

def handler (host : Host) : HostCall → Handler
  | .unimplemented => fun m => (.decline, m)
  | .load => load host
  | .illegalInstruction => terminal .illegalInstruction "Illegal Instruction"
  | .divisionByZero => terminal .arithmetic "Division By Zero"
  | .chkRange => terminal .arithmetic "CHK range exceeded"
  | .trapvOverflow => terminal .arithmetic "TRAPV on overflow"
  | .privilegeViolation => terminal .illegalInstruction "Privilege Violation"
  | .traceException => terminal .trap "Trace Exception"
  | .lineAEmulator => terminal .illegalInstruction "Line A Emulator"
  | .lineFEmulator => terminal .illegalInstruction "Line F Emulator"
  | .unimplementedTrap => unimplementedTrap
  | .newPtr => newPtr
  | .disposePtr => disposePtr
  | .blockMove => blockMove
  | .gestalt => gestalt
  | .noOp => noOp

def table (host : Host) : CallbackTable :=
  HostCall.all.foldl (fun table call => (table.install call.number (host.handler call)).2) .empty

def vectors : List (Nat × HostCall) :=
  [(4, .illegalInstruction), (5, .divisionByZero), (6, .chkRange), (7, .trapvOverflow),
    (8, .privilegeViolation), (9, .traceException), (10, .lineAEmulator), (11, .lineFEmulator)]

/-- Point vectors of the table at `vbr` to calls, one after the other, up to the first that is
refused. -/
def installVectors (vbr : Address) : List (Nat × HostCall) → Service Unit
  | [] => pure ()
  | (vector, call) :: rest => do
    let addr := vbr + UInt32.ofNat (4 * vector)
    if ← modifyGet (·.store addr (toBigEndian call.address .long) .supervisorData) then
      installVectors vbr rest
    else throw (.vectorTable vector addr)

def installDefaultVectors (vbr : Address) : Service Unit := installVectors vbr vectors

end Host

end Mc68k
