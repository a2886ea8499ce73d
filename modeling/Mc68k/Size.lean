namespace Mc68k

inductive Size where
  | byte
  | word
  | long
  deriving DecidableEq, Repr

namespace Size

/-- The usual two-bit code: 0 is a byte, 1 a word, 2 a long. -/
def ofCode? (code : Nat) : Option Size :=
  match code % 4 with
  | 0 => some byte
  | 1 => some word
  | 2 => some long
  | _ => none

/-- The code of MOVE: 1 is a byte, 3 a word, 2 a long. -/
def ofMoveCode? (code : Nat) : Option Size :=
  match code % 4 with
  | 1 => some byte
  | 3 => some word
  | 2 => some long
  | _ => none

def bytes : Size → Nat
  | byte => 1
  | word => 2
  | long => 4

def bits (size : Size) : Nat := 8 * size.bytes

def signBit : Size → UInt32
  | byte => 0x80
  | word => 0x8000
  | long => 0x80000000

def mask : Size → UInt32
  | byte => 0xFF
  | word => 0xFFFF
  | long => 0xFFFFFFFF

theorem bytes_pos (size : Size) : 0 < size.bytes := by cases size <;> decide

end Size

def signExtend (value : UInt32) : Size → UInt32
  | .byte => value.toUInt8.toInt8.toInt32.toUInt32
  | .word => value.toUInt16.toInt16.toInt32.toUInt32
  | .long => value

/-- Lay the low `size` bytes of `new` over `old`, keeping the bytes above them. -/
def merge (old new : UInt32) (size : Size) : UInt32 :=
  (old &&& ~~~size.mask) ||| (new &&& size.mask)

/-- The low `size` bytes of a value, most significant first. -/
def toBigEndian (value : UInt32) : Size → List UInt8
  | .byte => [value.toUInt8]
  | .word => [(value >>> 8).toUInt8, value.toUInt8]
  | .long => [(value >>> 24).toUInt8, (value >>> 16).toUInt8, (value >>> 8).toUInt8, value.toUInt8]

def ofBigEndian (bytes : List UInt8) : UInt32 :=
  bytes.foldl (fun value b => (value <<< 8) ||| b.toUInt32) 0

@[simp] theorem length_toBigEndian (value : UInt32) (size : Size) :
    (toBigEndian value size).length = size.bytes := by
  cases size <;> rfl

end Mc68k
