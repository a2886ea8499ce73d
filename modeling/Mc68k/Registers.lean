import Mc68k.Opcode
import Mc68k.Status

namespace Mc68k

structure Registers where
  data : Vector UInt32 8
  address : Vector UInt32 7
  /-- A7 in user mode. -/
  usp : UInt32
  ssp : UInt32
  pc : UInt32
  sr : UInt16
  vbr : UInt32
  sfc : UInt8
  dfc : UInt8
  cacr : UInt32
  caar : UInt32
  /-- Master stack pointer, which only MOVEC sees. -/
  msp : UInt32
  deriving DecidableEq

namespace Registers

def initial : Registers where
  data := Vector.replicate 8 0
  address := Vector.replicate 7 0
  usp := 0
  ssp := 0
  pc := 0
  sr := 0x2700
  vbr := 0
  sfc := 0
  dfc := 0
  cacr := 0
  caar := 0
  msp := 0

def isSupervisor (r : Registers) : Bool := Status.has r.sr Status.S

def isTraced (r : Registers) : Bool := Status.has r.sr Status.T1

def sp (r : Registers) : UInt32 := if r.isSupervisor then r.ssp else r.usp

def setSp (r : Registers) (value : UInt32) : Registers :=
  if r.isSupervisor then { r with ssp := value } else { r with usp := value }

def d (r : Registers) (n : RegisterNumber) : UInt32 := r.data[n]

def setD (r : Registers) (n : RegisterNumber) (value : UInt32) : Registers :=
  { r with data := r.data.set n value }

def a (r : Registers) (n : RegisterNumber) : UInt32 :=
  if h : n.val < 7 then r.address[n.val] else r.sp

def setA (r : Registers) (n : RegisterNumber) (value : UInt32) : Registers :=
  if h : n.val < 7 then { r with address := r.address.set n.val value } else r.setSp value

/-- A register by its place in a register list: below 8 Dn, from 8 on An. -/
def general (r : Registers) (index : Nat) : UInt32 :=
  if index < 8 then r.d (.ofNat index) else r.a (.ofNat index)

def setGeneral (r : Registers) (index : Nat) (value : UInt32) : Registers :=
  if index < 8 then r.setD (.ofNat index) value else r.setA (.ofNat index) value

def setCcr (r : Registers) (value : UInt16) : Registers :=
  { r with sr := Status.withCcr r.sr value }

end Registers

end Mc68k
