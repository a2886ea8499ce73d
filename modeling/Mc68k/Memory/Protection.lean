import Mc68k.FunctionCode

namespace Mc68k

/-- Rules as bits, of which the low four have a meaning. -/
structure Protection where
  bits : UInt8
  deriving DecidableEq, Repr

namespace Protection

instance : OrOp Protection := ⟨fun p q => ⟨p.bits ||| q.bits⟩⟩

def supervisorOnly : Protection := ⟨0x01⟩
def readOnly : Protection := ⟨0x02⟩
def program : Protection := ⟨0x04⟩
def data : Protection := ⟨0x08⟩
def ram : Protection := program ||| data
def supervisorRam : Protection := ram ||| supervisorOnly

def contains (p q : Protection) : Bool := p.bits &&& q.bits == q.bits

def allows (p : Protection) (fc : FunctionCode) (access : Access) : Bool :=
  !(p.contains supervisorOnly && !fc.isSupervisor) &&
  !(p.contains readOnly && access.writes) &&
  p.contains (if fc.isProgram then program else data)

@[simp] theorem ram_allows (fc : FunctionCode) (access : Access) : ram.allows fc access = true := by
  cases fc <;> cases access <;> decide

end Protection

end Mc68k
