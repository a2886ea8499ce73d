import Mc68k.Host.Error

namespace Mc68k

structure Directory where
  files : List (List UInt8 × List UInt8)

namespace Directory

inductive Place where
  | directory
  | file (contents : List UInt8)
  deriving DecidableEq, Repr

def maxName : Nat := 255
def maxPath : Nat := 4096

def separator : UInt8 := 0x2F

def dot : UInt8 := 0x2E

def find? (dir : Directory) (name : List UInt8) : Option (List UInt8) :=
  (dir.files.find? (·.1 == name)).map (·.2)

/-- One component of a path; an empty one and a dot stay where they are. -/
def enter (dir : Directory) (place : Place) (name : List UInt8) : Except HostError Place :=
  match place with
  | .file _ => .error (.system HostError.notDirectoryCode)
  | .directory =>
    if name = [] ∨ name = [dot] then .ok .directory
    else if name.length > maxName then .error (.system HostError.nameTooLongCode)
    else match dir.find? name with
      | some contents => .ok (.file contents)
      | none => .error (.system HostError.noSuchFileCode)

def walk (dir : Directory) (place : Place) : List (List UInt8) → Except HostError Place
  | [] => .ok place
  | name :: rest => do dir.walk (← dir.enter place name) rest

/-- The components of a path, of which there is at least one. -/
def components : List UInt8 → List (List UInt8)
  | [] => [[]]
  | b :: bs =>
    if b = separator then [] :: components bs
    else match components bs with
      | [] => [[b]]
      | name :: rest => (b :: name) :: rest

def openFile (dir : Directory) (path : List UInt8) : Except HostError (List UInt8) :=
  if maxPath ≤ path.length then .error (.system HostError.nameTooLongCode)
  else if path.head? = some separator then .error (.system HostError.noSuchFileCode)
  else do
    match ← dir.walk .directory (components path) with
    | .file contents => .ok contents
    | .directory => .error (.system HostError.isDirectoryCode)

end Directory

end Mc68k
