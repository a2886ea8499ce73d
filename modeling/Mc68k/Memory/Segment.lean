import Mc68k.Memory.Bank
import Mc68k.Memory.Protection

namespace Mc68k

structure Segment where
  base : Address
  bytes : Bank
  protection : Protection

namespace Segment

def limit (s : Segment) : Nat := s.base.toNat + s.bytes.size

def offset (s : Segment) (addr : Address) : Nat := addr.toNat - s.base.toNat

def slice (s : Segment) (addr : Address) (n : Nat) : List UInt8 := s.bytes.slice (s.offset addr) n

def patch (s : Segment) (addr : Address) (bytes : List UInt8) : Segment :=
  { s with bytes := s.bytes.write (s.offset addr) bytes }

@[simp] theorem base_patch (s : Segment) (addr : Address) (bytes : List UInt8) :
    (s.patch addr bytes).base = s.base := rfl

@[simp] theorem protection_patch (s : Segment) (addr : Address) (bytes : List UInt8) :
    (s.patch addr bytes).protection = s.protection := rfl

@[simp] theorem limit_patch (s : Segment) (addr : Address) (bytes : List UInt8) :
    (s.patch addr bytes).limit = s.limit := by simp [limit, patch]

end Segment

abbrev Segments := List Segment

namespace Segments

def at? (segments : Segments) (base : Address) : Option Segment :=
  segments.find? (·.base == base)

/-- The segment in which `n` bytes from `addr` lie. -/
def locate? (segments : Segments) (addr : Address) (n : Nat) : Option Segment :=
  (segments.takeWhile (·.base ≤ addr)).getLast?.filter (addr.toNat + n ≤ ·.limit)

/-- Put a segment before the first that does not start below it. -/
def insert (segments : Segments) (s : Segment) : Segments :=
  segments.takeWhile (·.base < s.base) ++ s :: segments.dropWhile (·.base < s.base)

def erase (segments : Segments) (base : Address) : Segments :=
  segments.eraseP (·.base == base)

def patch (segments : Segments) (base addr : Address) (bytes : List UInt8) : Segments :=
  segments.map fun s => if s.base = base then s.patch addr bytes else s

end Segments

end Mc68k
