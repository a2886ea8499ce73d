import Mc68k.Alu

namespace Mc68k.Decimal

/-- X and C from the decimal carry; Z is cleared by a non-zero byte and never set. -/
def flags (sr : UInt16) (result : UInt32) (carry overflow : Bool) : UInt16 :=
  Alu.keepZero (Status.setIf (Status.setIf (Status.setIf (Status.setIf sr
    Status.C carry) Status.X carry) Status.V overflow) Status.N (result &&& 0x80 != 0)) result

def add (src dst : UInt32) (sr : UInt16) : Computed :=
  let low := (src &&& 0x0F) + (dst &&& 0x0F) + Alu.extendIn sr
  let both := (if low > 9 then low + 6 else low) + (src &&& 0xF0) + (dst &&& 0xF0)
  let carry := both > 0x99
  let result := (if carry then both - 0xA0 else both) &&& 0xFF
  ⟨result, flags sr result carry (~~~low &&& result &&& 0x80 != 0)⟩

/-- The difference `dst - src - X` of packed bytes; a borrow shows as a word above 0x99. -/
def sub (src dst : UInt32) (sr : UInt16) : Computed :=
  let low := (dst &&& 0x0F) - (src &&& 0x0F) - Alu.extendIn sr
  let both := (if low > 9 then low - 6 else low) + (dst &&& 0xF0) - (src &&& 0xF0)
  let carry := both > 0x99
  let result := (if carry then both + 0xA0 else both) &&& 0xFF
  ⟨result, flags sr result carry (~~~low &&& result &&& 0x80 != 0)⟩

end Mc68k.Decimal
