import Mc68k.Size

namespace Mc68k.Status

def C : UInt16 := 0x0001
def V : UInt16 := 0x0002
def Z : UInt16 := 0x0004
def N : UInt16 := 0x0008
/-- Extend, the carry of multi-precision chains. -/
def X : UInt16 := 0x0010
def S : UInt16 := 0x2000
def T0 : UInt16 := 0x4000
def T1 : UInt16 := 0x8000
def ccr : UInt16 := 0x001F

/-- Whether any bit of `flag` is set. -/
def has (sr flag : UInt16) : Bool := sr &&& flag != 0

def setIf (sr flag : UInt16) (condition : Bool) : UInt16 :=
  if condition then sr ||| flag else sr &&& ~~~flag

def withNZ (sr : UInt16) (negative zero : Bool) : UInt16 :=
  setIf (setIf sr Z zero) N negative

def updateNZ (sr : UInt16) (value : UInt32) (size : Size) : UInt16 :=
  withNZ sr (signExtend value size &&& 0x80000000 != 0) (signExtend value size == 0)

def clearVC (sr : UInt16) : UInt16 := sr &&& ~~~(V ||| C)

/-- The rule of data movement and logic: N and Z from the value, V and C clear, X stays. -/
def logical (sr : UInt16) (value : UInt32) (size : Size) : UInt16 :=
  clearVC (updateNZ sr value size)

def withCcr (sr value : UInt16) : UInt16 := (sr &&& ~~~ccr) ||| (value &&& ccr)

def interruptMask (sr : UInt16) : Nat := sr.toNat / 256 % 8

/-- Whether condition `code`, of which the low four bits count, holds. -/
def condition (sr : UInt16) (code : Nat) : Bool :=
  let c := has sr C
  let v := has sr V
  let z := has sr Z
  let n := has sr N
  match code % 16 with
  | 0x0 => true
  | 0x1 => false
  | 0x2 => !c && !z
  | 0x3 => c || z
  | 0x4 => !c
  | 0x5 => c
  | 0x6 => !z
  | 0x7 => z
  | 0x8 => !v
  | 0x9 => v
  | 0xA => !n
  | 0xB => n
  | 0xC => n == v
  | 0xD => n != v
  | 0xE => !z && n == v
  | _ => z || n != v

end Mc68k.Status
