import Mc68k.Memory.Bank
import Mc68k.FunctionCode

namespace Mc68k

/-- RAM of which the addresses below the limit are open to supervisor codes only. -/
structure FlatMemory where
  bytes : Bank
  supervisorLimit : UInt32

namespace FlatMemory

def new (size : Nat) (supervisorLimit : UInt32) : FlatMemory :=
  ⟨Bank.zeros size, supervisorLimit⟩

/-- Whether `n` bytes from `addr` are accessible; program and data spaces share them. -/
def admits (m : FlatMemory) (addr : Address) (n : Nat) (fc : FunctionCode) : Bool :=
  addr.toNat + n < 0x100000000 && addr.toNat + n ≤ m.bytes.size &&
  (fc.isSupervisor || m.supervisorLimit ≤ addr)

def load? (m : FlatMemory) (addr : Address) (bytes : List UInt8) : Option FlatMemory :=
  if addr.toNat + bytes.length ≤ m.bytes.size then
    some { m with bytes := m.bytes.write addr.toNat bytes }
  else none

def peek? (m : FlatMemory) (addr : Address) (n : Nat) : Option (List UInt8) :=
  if addr.toNat + n ≤ m.bytes.size then some (m.bytes.slice addr.toNat n) else none

end FlatMemory

end Mc68k
