import Mc68k.Machine
import Std.Data.TreeMap

namespace Mc68k

structure Overwritten where
  byte : UInt8
  space : FunctionCode
  deriving DecidableEq, Repr

namespace BusTrace

/-- Note bytes from an address up, except where there is a note already. -/
def note (space : FunctionCode) : Nat → List UInt8 → Std.TreeMap Nat Overwritten →
    Std.TreeMap Nat Overwritten
  | _, [], notes => notes
  | addr, b :: bs, notes => note space (addr + 1) bs (notes.insertIfNew addr ⟨b, space⟩)

/-- The bytes that cycles wrote over, latest cycle first, each as its first write found it. -/
def overwritten (cycles : List BusCycle) : Std.TreeMap Nat Overwritten :=
  cycles.foldr (fun cycle notes =>
    match cycle.access.writes, cycle.found with
    | true, some bytes => note cycle.space cycle.address.toNat bytes notes
    | _, _ => notes) {}

end BusTrace

structure ByteChange where
  address : Nat
  byte : UInt8
  deriving DecidableEq, Repr

namespace ByteChange

def extend (c : ByteChange) : List (Nat × List UInt8) → List (Nat × List UInt8)
  | [] => [(c.address, [c.byte])]
  | (start, bytes) :: rest =>
    if start = c.address + 1 then (c.address, c.byte :: bytes) :: rest
    else (c.address, [c.byte]) :: (start, bytes) :: rest

def runs (changes : List ByteChange) : List (Nat × List UInt8) := changes.foldr extend []

end ByteChange

def Machine.changes (m : Machine) : List ByteChange :=
  (BusTrace.overwritten m.cycles).toList.filterMap fun (addr, old) =>
    match m.memory.view? (UInt32.ofNat addr) 1 old.space .read with
    | some [b] => if b = old.byte then none else some ⟨addr, b⟩
    | _ => none

end Mc68k
