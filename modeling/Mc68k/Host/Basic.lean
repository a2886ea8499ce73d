import Mc68k.Host.Call
import Mc68k.Host.Error

namespace Mc68k

/-- What the host lets programs do, and its files by path. -/
structure Host where
  allowFileAccess : Bool
  openFile : List UInt8 → Except HostError (List UInt8)

namespace Host

def memErr : Address := 0x0220

/-- Memory is full: -108. -/
def memFullErr : UInt16 := 0xFF94

/-- A parameter is wrong: -50. -/
def paramErr : UInt32 := 0xFFFFFFCE

/-- Gestalt does not know the selector: -5551. -/
def undefinedSelectorErr : UInt32 := 0xFFFFEA51

def emulatorSelector : UInt32 := 0x7636386B

def processorSelector : UInt32 := 0x70726F63

def modifyRegs (m : Machine) (f : Registers → Registers) : Machine := { m with regs := f m.regs }

def resume (m : Machine) : Response × Machine := (.resume rtsOpcode, m)

/-- NewPtr: size in D0, address out in A0. Address 0 is a failure, and goes with a memory error. -/
def newPtr : Handler := fun m =>
  let (addr, m) := match m.memory.allocate? (m.regs.d .zero).toNat with
    | some (addr, memory) => (addr, { m with memory })
    | none => (0, m)
  let m := modifyRegs m (·.setA .zero addr)
  resume (if addr = 0 then
    (m.store memErr (toBigEndian memFullErr.toUInt32 .word) .supervisorData).2 else m)

def disposePtr : Handler := fun m =>
  resume (match m.memory.deallocate? (m.regs.a .zero) with
    | some memory => { m with memory }
    | none => m)

/-- Copy user data, as if all of it were read before any is written, and note it as modified. -/
def copy (m : Machine) (source target : Address) (n : Nat) : Bool × Machine :=
  match m.request source n .userData .read with
  | (none, m) => (false, m)
  | (some bytes, m) =>
    match m.store target bytes .userData with
    | (false, m) => (false, m)
    | (true, m) =>
      let (found, m) := m.request target n .userData .update
      (found.isSome, m)

/-- BlockMove: from A0 to A1, D0 bytes; a result code out in D0. -/
def blockMove : Handler := fun m =>
  let (copied, m) := copy m (m.regs.a .zero) (m.regs.a .one) (m.regs.d .zero).toNat
  resume (modifyRegs m (·.setD .zero (if copied then 0 else paramErr)))

def answer (model : Model) (selector : UInt32) : UInt32 × UInt32 :=
  if selector = emulatorSelector then (0, 0)
  else if selector = processorSelector then (0, model.gestalt)
  else (undefinedSelectorErr, 0)

/-- Gestalt: selector in D0; result code out in D0, response out in A0. -/
def gestalt : Handler := fun m =>
  let (result, response) := answer m.model (m.regs.d .zero)
  resume (modifyRegs m fun r => (r.setD .zero result).setA .zero response)

def noOp : Handler := resume

/-- A path in memory ends in NUL; it is what comes before the first, and may not be empty. -/
def pathOf? (bytes : List UInt8) : Option (List UInt8) :=
  if bytes.getLast? = some 0 ∧ bytes.head? ≠ some 0 then some (bytes.takeWhile (· != 0))
  else none

abbrev Service := EStateM HostError Machine

def readPath (addr : Address) (n : Nat) : Service (List UInt8) := do
  match ← modifyGet (·.request addr n .userData .read) with
  | none => throw (.badAddress addr n)
  | some bytes =>
    match pathOf? bytes with
    | none => throw .invalidPath
    | some path => pure path

def readFile (host : Host) (path : List UInt8) : Service (List UInt8) :=
  match host.openFile path with
  | .error e => throw e
  | .ok contents => if 0x100000000 ≤ contents.length then throw .tooLarge else pure contents

def allocate (n : Nat) : Service Address := fun m =>
  match m.memory.allocate? n with
  | some (addr, memory) => .ok addr { m with memory }
  | none => .error (.outOfMemory n) m

/-- Fill fresh pages; they are freed again if they cannot be written. -/
def fill (addr : Address) (contents : List UInt8) : Service Unit := fun m =>
  match m.store addr contents .supervisorData with
  | (true, m) => .ok () m
  | (false, m) => .error (.badAddress addr contents.length)
      { m with memory := (m.memory.deallocate? addr).getD m.memory }

def loadFile (host : Host) (addr : Address) (n : Nat) : Service (Address × Nat) := do
  if !host.allowFileAccess then throw .notPermitted
  let path ← readPath addr n
  let contents ← readFile host path
  let target ← allocate contents.length
  fill target contents
  pure (target, contents.length)

/-- Load: path in A0 with its size in D0; address out in A0 and size in D0, or an error number in
D1. -/
def load (host : Host) : Handler := fun m =>
  match loadFile host (m.regs.a .zero) (m.regs.d .zero).toNat (modifyRegs m (·.setA .zero 0)) with
  | .ok (addr, n) m =>
    resume (modifyRegs m fun r => (r.setA .zero addr).setD .zero (UInt32.ofNat n))
  | .error e m => resume (modifyRegs m (·.setD .one e.errno))

end Host

end Mc68k
