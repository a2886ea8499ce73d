import Mc68k.Memory.Flat
import Mc68k.Memory.Map

namespace Mc68k

inductive Memory where
  | flat (ram : FlatMemory)
  | mapped (map : MemoryMap)

inductive LoadError where
  | pastEnd
  | map (error : MapError)
  deriving DecidableEq, Repr

namespace Memory

/-- The bytes of a range, if all of it admits the access. -/
def view? (m : Memory) (addr : Address) (n : Nat) (fc : FunctionCode) (access : Access) :
    Option (List UInt8) :=
  match m with
  | flat ram => if ram.admits addr n fc then some (ram.bytes.slice addr.toNat n) else none
  | mapped map => (map.admit? addr n fc access).map (·.slice addr n)

def noteUpdate (m : Memory) (addr : Address) (n : Nat) : Memory :=
  match m with
  | flat ram => flat ram
  | mapped map => mapped (map.noteUpdate addr n)

/-- Check a range and find its bytes; an admitted update is noted. -/
def request (m : Memory) (addr : Address) (n : Nat) (fc : FunctionCode) (access : Access) :
    Option (List UInt8) × Memory :=
  let found := m.view? addr n fc access
  (found, if found.isSome && access == .update then m.noteUpdate addr n else m)

def patch (m : Memory) (addr : Address) (bytes : List UInt8) : Memory :=
  match m with
  | flat ram => flat { ram with bytes := ram.bytes.write addr.toNat bytes }
  | mapped map => mapped (map.patch addr bytes)

def load (m : Memory) (addr : Address) (bytes : List UInt8) : Except LoadError Memory :=
  match m with
  | flat ram => match ram.load? addr bytes with
    | some ram => .ok (flat ram)
    | none => .error .pastEnd
  | mapped map => match map.load addr bytes with
    | .ok map => .ok (mapped map)
    | .error e => .error (.map e)

def heap? : Memory → Option Heap
  | flat _ => none
  | mapped map => some map.heap

def withHeap (m : Memory) (heap : Heap) : Memory :=
  match m with
  | flat ram => flat ram
  | mapped map => mapped { map with heap }

def allocate? (m : Memory) (n : Nat) : Option (Address × Memory) :=
  (m.heap?.bind (·.allocate? n)).map fun (addr, heap) => (addr, m.withHeap heap)

def deallocate? (m : Memory) (addr : Address) : Option Memory :=
  (m.heap?.bind (·.deallocate? addr)).map m.withHeap

end Memory

end Mc68k
