namespace Mc68k

inductive Model where
  | m68000
  | m68010
  | m68020
  | m68030
  | m68040
  deriving DecidableEq, Repr

namespace Model

def all : List Model := [m68000, m68010, m68020, m68030, m68040]

def generation : Model → Nat
  | m68000 => 0
  | m68010 => 1
  | m68020 => 2
  | m68030 => 3
  | m68040 => 4

instance : LE Model := ⟨fun a b => a.generation ≤ b.generation⟩

instance (a b : Model) : Decidable (a ≤ b) :=
  inferInstanceAs (Decidable (a.generation ≤ b.generation))

def hasCacheControl (model : Model) : Bool := m68020 ≤ model

def hasFrameFormats (model : Model) : Bool := m68010 ≤ model

def allowsMisalignedData (model : Model) : Bool := m68020 ≤ model

/-- Extension words scale their index and have a full format. -/
def hasFullExtension (model : Model) : Bool := m68020 ≤ model

def srMask (model : Model) : UInt16 := if m68020 ≤ model then 0xF71F else 0xA71F

/-- Processor type in answer to the Gestalt selector `proc`: 1 for the 68000, and so on. -/
def gestalt (model : Model) : UInt32 := UInt32.ofNat (model.generation + 1)

end Model

end Mc68k
