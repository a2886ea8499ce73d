import Mc68k.Machine

namespace Mc68k

def rtsOpcode : Opcode := 0x4E75

def callNumber? (pc : Address) : Option UInt16 :=
  if pc < callbackRegion ∨ pc &&& 1 ≠ 0 then none else some (-pc / 2 - 1).toUInt16

/-- The address of a call, of which there are 32768. -/
def callbackAddress? (n : UInt16) : Option Address :=
  if n < 32768 then some (-(2 * (n.toUInt32 + 1))) else none

inductive Signal where
  | illegalInstruction
  | arithmetic
  | trap
  deriving DecidableEq, Repr

/-- How a handler ends a session: a signal, and what it says first. -/
structure Termination where
  signal : Signal
  message : String
  deriving DecidableEq, Repr

namespace Termination

def line (t : Termination) : String := "v68k: exception: " ++ t.message ++ "\n"

end Termination

inductive Response where
  /-- Run an opcode in place of a fetched one. -/
  | resume (op : Opcode)
  | decline
  | terminate (t : Termination)
  deriving DecidableEq, Repr

namespace Response

def opcode? : Response → Option Opcode
  | resume op => some op
  | _ => none

def termination? : Response → Option Termination
  | terminate t => some t
  | _ => none

end Response

abbrev Handler := Machine → Response × Machine

structure CallbackTable where
  handlers : List (UInt16 × Handler)

namespace CallbackTable

def empty : CallbackTable := ⟨[]⟩

def handler? (table : CallbackTable) (n : UInt16) : Option Handler :=
  (table.handlers.find? (·.1 == n)).map (·.2)

def contains (table : CallbackTable) (n : UInt16) : Bool := (table.handler? n).isSome

/-- Make a handler that of a call; gives the one it replaces. -/
def install (table : CallbackTable) (n : UInt16) (handler : Handler) :
    Option Handler × CallbackTable :=
  (table.handler? n,
    ⟨table.handlers.filter (·.1 < n) ++ (n, handler) :: table.handlers.filter (n < ·.1)⟩)

def remove (table : CallbackTable) (n : UInt16) : Option Handler × CallbackTable :=
  (table.handler? n, ⟨table.handlers.filter (·.1 != n)⟩)

def installed (table : CallbackTable) : List UInt16 := table.handlers.map (·.1)

def size (table : CallbackTable) : Nat := table.handlers.length

def isEmpty (table : CallbackTable) : Bool := table.handlers.isEmpty

/-- Run a call; without a handler it does not resume. -/
def invoke (table : CallbackTable) (n : UInt16) (m : Machine) : Response × Machine :=
  match table.handler? n with
  | some handler => handler m
  | none => (.decline, m)

def summary (table : CallbackTable) : String :=
  "CallbackTable \x7b installed: [" ++
    ", ".intercalate (table.installed.map fun n => toString n.toNat) ++ "] \x7d"

end CallbackTable

end Mc68k
