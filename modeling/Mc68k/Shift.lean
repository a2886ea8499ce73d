import Mc68k.Alu

namespace Mc68k

inductive ShiftKind where
  | arithmetic
  | logical
  | rotateExtend
  | rotate
  deriving DecidableEq, Repr

inductive Direction where
  | left
  | right
  deriving DecidableEq, Repr

namespace Shift

structure Progress where
  value : UInt32
  extend : Bool
  carry : Bool
  overflow : Bool
  deriving DecidableEq, Repr

def left (kind : ShiftKind) (size : Size) (p : Progress) : Progress :=
  let out := p.value &&& size.signBit != 0
  let fill := match kind with
    | .arithmetic | .logical => false
    | .rotateExtend => p.extend
    | .rotate => out
  let value := ((p.value <<< 1) ||| (if fill then 1 else 0)) &&& size.mask
  { value
    extend := if kind = .rotate then p.extend else out
    carry := out
    overflow := p.overflow ||
      (kind == .arithmetic && (value &&& size.signBit != 0) != out) }

def right (kind : ShiftKind) (size : Size) (p : Progress) : Progress :=
  let out := p.value &&& 1 != 0
  let fill := match kind with
    | .arithmetic => p.value &&& size.signBit != 0
    | .logical => false
    | .rotateExtend => p.extend
    | .rotate => out
  { value := (p.value >>> 1) ||| (if fill then size.signBit else 0)
    extend := if kind = .rotate then p.extend else out
    carry := out
    overflow := p.overflow }

def once (kind : ShiftKind) : Direction → Size → Progress → Progress
  | .left => left kind
  | .right => right kind

def steps (kind : ShiftKind) (direction : Direction) (size : Size) : Nat → Progress → Progress
  | 0, p => p
  | count + 1, p => steps kind direction size count (once kind direction size p)

/-- C after a shift; a rotation through X by nothing copies X. -/
def carryOut (kind : ShiftKind) (count : Nat) (p : Progress) : Bool :=
  if count = 0 then kind == .rotateExtend && p.extend else p.carry

def shift (kind : ShiftKind) (direction : Direction) (count : Nat) (value : UInt32) (size : Size)
    (sr : UInt16) : Computed :=
  let p := steps kind direction size count
    ⟨value &&& size.mask, Status.has sr Status.X, false, false⟩
  ⟨p.value, Status.withNZ (Status.setIf (Status.setIf (Status.setIf sr
    Status.C (carryOut kind count p)) Status.V p.overflow) Status.X p.extend)
    (p.value &&& size.signBit != 0) (p.value == 0)⟩

end Shift

end Mc68k
