import Mc68k.Decimal
import Mc68k.Division
import Mc68k.Operands

namespace Mc68k.Perform

open Exec

def compute (f : UInt16 → Computed) (p : Operands) : Exec Operands := do
  let r := f (← regs).sr
  modifyRegs ({ · with sr := r.sr })
  pure { p with result := r.value }

def changeSr (f : UInt16 → UInt16) (p : Operands) : Exec Operands := do
  modifyRegs fun r => { r with sr := f r.sr }
  pure p

def productOfWords (signed : Bool) (a b : UInt32) : UInt32 :=
  if signed then (a.toUInt16.toInt16.toInt32 * b.toUInt16.toInt16.toInt32).toUInt32
  else (a &&& 0xFFFF) * (b &&& 0xFFFF)

def multiplyWord (signed : Bool) (p : Operands) : Exec Operands := do
  let n := (← get).opcode.x
  modifyRegs fun r =>
    let product := productOfWords signed (r.d n) p.first
    { r.setD n product with sr := Status.logical r.sr product .long }
  pure p

def productOfLongs (signed : Bool) (a b : UInt32) : UInt64 :=
  if signed then (a.toInt32.toInt64 * b.toInt32.toInt64).toUInt64 else a.toUInt64 * b.toUInt64

def exceedsLong (signed : Bool) (product : UInt64) : Bool :=
  if signed then product.toUInt32.toInt32.toInt64 != product.toInt64 else product >>> 32 != 0

/-- MULU.L and MULS.L, as the extension word in `first` has them. -/
def multiplyLong (p : Operands) : Exec Operands := do
  let ext := p.first.toUInt16
  let low := RegisterNumber.ofNat (field ext 12 3)
  let high := RegisterNumber.ofNat (field ext 0 3)
  modifyRegs fun r =>
    let product := productOfLongs (bit ext 11) (r.d low) p.second
    if bit ext 10 then
      { (r.setD high (product >>> 32).toUInt32).setD low product.toUInt32 with
        sr := Status.clearVC (Status.withNZ r.sr (product &&& 0x8000000000000000 != 0)
          (product == 0)) }
    else
      { r.setD low product.toUInt32 with
        sr := Status.setIf (Status.logical r.sr product.toUInt32 .long) Status.V
          (exceedsLong (bit ext 11) product) }
  pure p

/-- A division by zero clears C. -/
def zeroDivide : Exec Operands := do
  modifyRegs fun r => { r with sr := r.sr &&& ~~~Status.C }
  throw .zeroDivide

/-- A quotient that does not fit sets V and changes no data register. -/
def divideOverflow (p : Operands) : Exec Operands :=
  changeSr (fun sr => (sr ||| Status.V) &&& ~~~Status.C) p

def divideWord (signed : Bool) (p : Operands) : Exec Operands := do
  if p.first &&& 0xFFFF = 0 then zeroDivide
  else do
    let n := (← get).opcode.x
    match Division.word? signed ((← regs).d n) p.first with
    | none => divideOverflow p
    | some q => do
      modifyRegs fun r =>
        { r.setD n ((q.remainder <<< 16) ||| (q.quotient &&& 0xFFFF)) with
          sr := Status.logical r.sr q.quotient .word }
      pure p

/-- DIVU.L, DIVS.L, DIVUL.L and DIVSL.L, as the extension word in `first` has them. -/
def divideLong (p : Operands) : Exec Operands := do
  let ext := p.first.toUInt16
  let dq := RegisterNumber.ofNat (field ext 12 3)
  let dr := RegisterNumber.ofNat (field ext 0 3)
  if p.second = 0 then zeroDivide
  else do
    let r ← regs
    let high := if bit ext 10 then some (r.d dr) else none
    match Division.long? (bit ext 11) high (r.d dq) p.second with
    | none => divideOverflow p
    | some q => do
      modifyRegs fun r =>
        { (r.setD dr q.remainder).setD dq q.quotient with
          sr := Status.logical r.sr q.quotient .long }
      pure p

/-- CHK: N is set if Dn is negative, cleared if it is above the bound, and else left alone. -/
def chk (p : Operands) : Exec Operands := do
  let value := p.second.toInt32
  let sr (r : Registers) := Status.setIf (Status.clearVC r.sr) Status.Z (value == 0)
  if value < 0 then do
    modifyRegs fun r => { r with sr := sr r ||| Status.N }
    throw .chk
  else if p.first.toInt32 < value then do
    modifyRegs fun r => { r with sr := sr r &&& ~~~Status.N }
    throw .chk
  else do
    modifyRegs fun r => { r with sr := sr r }
    pure p

end Mc68k.Perform
