import Mc68k.Status

namespace Mc68k

structure Computed where
  value : UInt32
  sr : UInt16
  deriving DecidableEq, Repr

namespace Alu

/-- X, C, V and N of a sum or difference; carry and overflow are the sign bits of two words. -/
def flags (sr : UInt16) (result carry overflow : UInt32) (size : Size) : UInt16 :=
  let carried := carry &&& size.signBit != 0
  Status.setIf (Status.setIf (Status.setIf (Status.setIf sr
    Status.C carried) Status.X carried)
    Status.V (overflow &&& size.signBit != 0))
    Status.N (result &&& size.signBit != 0)

def setZero (sr : UInt16) (result : UInt32) : UInt16 := Status.setIf sr Status.Z (result == 0)

/-- Z of a link in a chain: cleared by a non-zero digit and never set. -/
def keepZero (sr : UInt16) (result : UInt32) : UInt16 :=
  if result == 0 then sr else sr &&& ~~~Status.Z

def extendIn (sr : UInt16) : UInt32 := if Status.has sr Status.X then 1 else 0

def sum (src dst carry : UInt32) (size : Size) (sr : UInt16) : Computed :=
  let s := src &&& size.mask
  let d := dst &&& size.mask
  let result := (s + d + carry) &&& size.mask
  ⟨result, flags sr result ((s &&& d) ||| ((s ||| d) &&& ~~~result))
    ((s ^^^ result) &&& (d ^^^ result)) size⟩

def difference (src dst borrow : UInt32) (size : Size) (sr : UInt16) : Computed :=
  let s := src &&& size.mask
  let d := dst &&& size.mask
  let result := (d - s - borrow) &&& size.mask
  ⟨result, flags sr result ((~~~d &&& s) ||| ((~~~d ||| s) &&& result))
    ((s ^^^ d) &&& (result ^^^ d)) size⟩

def add (src dst : UInt32) (size : Size) (sr : UInt16) : Computed :=
  let r := sum src dst 0 size sr
  ⟨r.value, setZero r.sr r.value⟩

def sub (src dst : UInt32) (size : Size) (sr : UInt16) : Computed :=
  let r := difference src dst 0 size sr
  ⟨r.value, setZero r.sr r.value⟩

/-- The status of `dst - src`, with X as before. -/
def compare (src dst : UInt32) (size : Size) (sr : UInt16) : UInt16 :=
  ((sub src dst size sr).sr &&& ~~~Status.X) ||| (sr &&& Status.X)

def addx (src dst : UInt32) (size : Size) (sr : UInt16) : Computed :=
  let r := sum src dst (extendIn sr) size sr
  ⟨r.value, keepZero r.sr r.value⟩

def subx (src dst : UInt32) (size : Size) (sr : UInt16) : Computed :=
  let r := difference src dst (extendIn sr) size sr
  ⟨r.value, keepZero r.sr r.value⟩

def neg (dst : UInt32) (size : Size) (sr : UInt16) : Computed := sub dst 0 size sr

def negx (dst : UInt32) (size : Size) (sr : UInt16) : Computed := subx dst 0 size sr

end Alu

end Mc68k
