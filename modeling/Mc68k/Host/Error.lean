import Mc68k.FunctionCode
import Mc68k.Hexadecimal

namespace Mc68k

inductive HostError where
  | notPermitted
  | badAddress (addr : Address) (size : Nat)
  | invalidPath
  | outOfMemory (size : Nat)
  | shortRead (expected actual : Nat)
  | tooLarge
  | vectorTable (vector : Nat) (addr : Address)
  | system (code : UInt32)
  | other (text : String)
  deriving DecidableEq, Repr

namespace HostError

def notPermittedCode : UInt32 := 1
def noSuchFileCode : UInt32 := 2
def inputOutputCode : UInt32 := 5
def outOfMemoryCode : UInt32 := 12
def badAddressCode : UInt32 := 14
def notDirectoryCode : UInt32 := 20
def isDirectoryCode : UInt32 := 21
def invalidArgumentCode : UInt32 := 22
def nameTooLongCode : UInt32 := 36

def message : HostError → String
  | notPermitted => "host file access is not permitted"
  | badAddress addr size => s!"{size} bytes at {hexText 8 addr.toNat} are not readable user data"
  | invalidPath => "path is empty or not NUL-terminated"
  | outOfMemory size => s!"no heap pages for {size} bytes"
  | shortRead expected actual => s!"read {actual} of {expected} bytes"
  | tooLarge => "file is larger than the address space"
  | vectorTable vector addr => s!"vector {vector} at {hexText 8 addr.toNat} could not be written"
  | system code => s!"system error {code.toNat}"
  | other text => text

/-- The number that a program finds in D1. -/
def errno : HostError → UInt32
  | notPermitted => notPermittedCode
  | badAddress _ _ | vectorTable _ _ => badAddressCode
  | invalidPath => invalidArgumentCode
  | outOfMemory _ | tooLarge => outOfMemoryCode
  | shortRead _ _ | other _ => inputOutputCode
  | system code => code

end HostError

end Mc68k
