import Mc68k.Model

namespace Mc68k

inductive Exception where
  | busError
  | addressError
  | illegalInstruction
  | zeroDivide
  | chk
  | trapV
  | privilegeViolation
  | trace
  | lineA
  | lineF
  | formatError
  /-- TRAP, of whose number the low four bits count. -/
  | trap (number : UInt8)
  deriving DecidableEq, Repr

namespace Exception

def vector : Exception → Nat
  | busError => 2
  | addressError => 3
  | illegalInstruction => 4
  | zeroDivide => 5
  | chk => 6
  | trapV => 7
  | privilegeViolation => 8
  | trace => 9
  | lineA => 10
  | lineF => 11
  | formatError => 14
  | trap number => 32 + number.toNat % 16

/-- Faults stack the address of their own instruction, the others that of the next. -/
def isFault : Exception → Bool
  | busError | addressError | illegalInstruction | privilegeViolation | lineA | lineF
  | formatError => true
  | _ => false

def isGroupZero : Exception → Bool
  | busError | addressError => true
  | _ => false

/-- Frame format: 2 adds the address of the instruction to 0. -/
def frameFormat (e : Exception) (model : Model) : Nat :=
  match e with
  | chk | trapV | zeroDivide | trace => if .m68020 ≤ model then 2 else 0
  | _ => 0

theorem vector_lt (e : Exception) : e.vector < 48 := by
  cases e <;> simp only [vector] <;> omega

end Exception

end Mc68k
