namespace Mc68k

abbrev Address := UInt32

inductive FunctionCode where
  | userData
  | userProgram
  | supervisorData
  | supervisorProgram
  deriving DecidableEq, Repr

namespace FunctionCode

def all : List FunctionCode := [userData, userProgram, supervisorData, supervisorProgram]

def of (supervisor program : Bool) : FunctionCode :=
  match supervisor, program with
  | false, false => userData
  | false, true => userProgram
  | true, false => supervisorData
  | true, true => supervisorProgram

def code : FunctionCode → UInt8
  | userData => 1
  | userProgram => 2
  | supervisorData => 5
  | supervisorProgram => 6

/-- The space of a code, of which the low three bits count; 0, 3, 4 and 7 name none. -/
def ofCode? (code : UInt8) : Option FunctionCode :=
  match code.toNat % 8 with
  | 1 => some userData
  | 2 => some userProgram
  | 5 => some supervisorData
  | 6 => some supervisorProgram
  | _ => none

def isSupervisor : FunctionCode → Bool
  | supervisorData | supervisorProgram => true
  | _ => false

def isProgram : FunctionCode → Bool
  | userProgram | supervisorProgram => true
  | _ => false

@[simp] theorem isSupervisor_of (s p : Bool) : (of s p).isSupervisor = s := by
  cases s <;> cases p <;> rfl

@[simp] theorem isProgram_of (s p : Bool) : (of s p).isProgram = p := by
  cases s <;> cases p <;> rfl

@[simp] theorem ofCode?_code (fc : FunctionCode) : ofCode? fc.code = some fc := by
  cases fc <;> rfl

end FunctionCode

inductive Access where
  | read
  | write
  /-- Check a range again as writable and mark it modified, after its bytes were changed. -/
  | update
  deriving DecidableEq, Repr

namespace Access

def all : List Access := [read, write, update]

def writes : Access → Bool
  | read => false
  | _ => true

end Access

end Mc68k
