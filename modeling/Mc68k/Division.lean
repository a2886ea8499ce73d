import Mc68k.Size

namespace Mc68k.Division

structure Result where
  quotient : UInt32
  remainder : UInt32
  deriving DecidableEq, Repr

def unsigned? (size : Size) (dividend divisor : UInt64) : Option Result :=
  let quotient := dividend / divisor
  if quotient ≤ size.mask.toUInt64 then
    some ⟨quotient.toUInt32, (dividend % divisor).toUInt32⟩
  else none

/-- Signed, truncated toward zero, for a quotient of the given size with its sign. -/
def signed? (size : Size) (dividend divisor : Int64) : Option Result :=
  let quotient := dividend / divisor
  let limit := size.signBit.toUInt64.toInt64
  if -limit ≤ quotient ∧ quotient < limit then
    some ⟨quotient.toInt32.toUInt32, (dividend % divisor).toInt32.toUInt32⟩
  else none

def word? (signed : Bool) (dividend divisor : UInt32) : Option Result :=
  if signed then signed? .word dividend.toInt32.toInt64 divisor.toUInt16.toInt16.toInt64
  else unsigned? .word dividend.toUInt64 divisor.toUInt16.toUInt64

def wide (high low : UInt32) : UInt64 := (high.toUInt64 <<< 32) ||| low.toUInt64

/-- A long divisor and a quotient of a long; without `high` the dividend is `low` alone. -/
def long? (signed : Bool) (high : Option UInt32) (low divisor : UInt32) : Option Result :=
  if signed then
    let dividend := match high with
      | some high => (wide high low).toInt64
      | none => low.toInt32.toInt64
    signed? .long dividend divisor.toInt32.toInt64
  else unsigned? .long (wide (high.getD 0) low) divisor.toUInt64

end Mc68k.Division
