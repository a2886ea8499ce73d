import Mc68k.Size

namespace Mc68k

abbrev RegisterNumber := Fin 8

namespace RegisterNumber

def ofNat (n : Nat) : RegisterNumber := ⟨n % 8, Nat.mod_lt n (by decide)⟩

def zero : RegisterNumber := ofNat 0

def one : RegisterNumber := ofNat 1

end RegisterNumber

abbrev Opcode := UInt16

/-- The `width` bits of a word from bit `low` up. -/
def field (word : UInt16) (low width : Nat) : Nat := (word.toBitVec.extractLsb' low width).toNat

def bit (word : UInt16) (i : Nat) : Bool := field word i 1 == 1

inductive RegisterField where
  | x
  | y
  deriving DecidableEq, Repr

namespace Opcode

def line (op : Opcode) : Nat := field op 12 4

def x (op : Opcode) : RegisterNumber := RegisterNumber.ofNat (field op 9 3)

def y (op : Opcode) : RegisterNumber := RegisterNumber.ofNat (field op 0 3)

def opmode (op : Opcode) : Nat := field op 6 3

def mode (op : Opcode) : Nat := field op 3 3

def condition (op : Opcode) : Nat := field op 8 4

def size? (op : Opcode) : Option Size := Size.ofCode? (field op 6 2)

def register (op : Opcode) : RegisterField → RegisterNumber
  | .x => op.x
  | .y => op.y

end Opcode

end Mc68k
