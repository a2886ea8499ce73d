import Mc68k.Hexadecimal
import Mc68k.Memory.Heap

namespace Mc68k

/-- Where the callback region begins; it reaches to the end of the address space. -/
def callbackRegion : Address := 0xFFFF0000

inductive MapError where
  | empty (base : Address)
  | wraps (base : Address) (size : Nat)
  | overlap (base : Address) (limit : Nat) (other : Address)
  | heapWindow (base : Address) (limit : Nat)
  | callbackRegion (base : Address) (limit : Nat)
  | unmapped (addr : Address) (size : Nat)
  | supervisorLimit (limit ramSize : UInt32)
  deriving DecidableEq, Repr

namespace MapError

def message : MapError → String
  | empty base => s!"region at {hexText 8 base.toNat} is empty"
  | wraps base size =>
    s!"region at {hexText 8 base.toNat} of {hexText 1 size} bytes " ++
      "runs past the end of the address space"
  | overlap base limit other =>
    s!"region {hexText 8 base.toNat}..{hexText 8 limit} overlaps the region " ++
      s!"at {hexText 8 other.toNat}"
  | heapWindow base limit =>
    s!"region {hexText 8 base.toNat}..{hexText 8 limit} overlaps the heap window"
  | callbackRegion base limit =>
    s!"region {hexText 8 base.toNat}..{hexText 8 limit} overlaps the callback region"
  | unmapped addr size =>
    s!"{hexText 1 size} bytes at {hexText 8 addr.toNat} are not inside one mapped region"
  | supervisorLimit limit ramSize =>
    s!"supervisor limit {hexText 1 limit.toNat} exceeds RAM size {hexText 1 ramSize.toNat}"

end MapError

/-- Shape of the usual address space: RAM from 0 with a supervisor-only start, and a heap window. -/
structure Layout where
  ramSize : UInt32 := 0x00100000
  supervisorLimit : UInt32 := 0x400
  heapBase : Address := 0x40000000
  heapSize : UInt32 := 0x01000000
  deriving DecidableEq, Repr

/-- Regions, heap and the log of updates, oldest first, each with its start and its end. -/
structure MemoryMap where
  regions : Segments
  heap : Heap
  updates : List (Address × Address)

namespace MemoryMap

def withHeap (heap : Heap) : MemoryMap := ⟨[], heap, []⟩

def overlaps (base limit : Nat) (s : Segment) : Bool := base < s.limit && s.base.toNat < limit

def map (m : MemoryMap) (base : Address) (bytes : Bank) (protection : Protection) :
    Except MapError MemoryMap :=
  let limit := base.toNat + bytes.size
  if bytes.size = 0 then .error (.empty base)
  else if limit > 0x100000000 then .error (.wraps base bytes.size)
  else if limit > callbackRegion.toNat then .error (.callbackRegion base limit)
  else if base.toNat < m.heap.limit ∧ m.heap.base.toNat < limit then
    .error (.heapWindow base limit)
  else match m.regions.find? (overlaps base.toNat limit) with
    | some other => .error (.overlap base limit other.base)
    | none => .ok { m with regions := m.regions.insert ⟨base, bytes, protection⟩ }

def mapZeros (m : MemoryMap) (base : Address) (size : UInt32) (protection : Protection) :
    Except MapError MemoryMap :=
  if size = 0 then .ok m else m.map base (Bank.zeros size.toNat) protection

def new (layout : Layout) : Except MapError MemoryMap :=
  if layout.ramSize < layout.supervisorLimit then
    .error (.supervisorLimit layout.supervisorLimit layout.ramSize)
  else do
    let m := withHeap (Heap.new layout.heapBase layout.heapSize)
    let m ← m.mapZeros 0 layout.supervisorLimit .supervisorRam
    m.mapZeros layout.supervisorLimit (layout.ramSize - layout.supervisorLimit) .ram

def unmap? (m : MemoryMap) (base : Address) : Option (Bank × MemoryMap) :=
  (m.regions.at? base).map fun s => (s.bytes, { m with regions := m.regions.erase base })

/-- The region or block in which `n` bytes from `addr` lie; inside the window only blocks count. -/
def locate? (m : MemoryMap) (addr : Address) (n : Nat) : Option Segment :=
  if m.heap.contains addr then m.heap.blocks.locate? addr n else m.regions.locate? addr n

/-- The segment that admits an access; the range may not reach the end of the address space. -/
def admit? (m : MemoryMap) (addr : Address) (n : Nat) (fc : FunctionCode) (access : Access) :
    Option Segment :=
  if addr.toNat + n < 0x100000000 then
    (m.locate? addr n).filter (·.protection.allows fc access)
  else none

def patch (m : MemoryMap) (addr : Address) (bytes : List UInt8) : MemoryMap :=
  match m.locate? addr bytes.length with
  | none => m
  | some s =>
    if m.heap.contains addr then
      { m with heap := { m.heap with blocks := m.heap.blocks.patch s.base addr bytes } }
    else { m with regions := m.regions.patch s.base addr bytes }

def load (m : MemoryMap) (addr : Address) (bytes : List UInt8) : Except MapError MemoryMap :=
  match m.locate? addr bytes.length with
  | none => .error (.unmapped addr bytes.length)
  | some _ => .ok (m.patch addr bytes)

def noteUpdate (m : MemoryMap) (addr : Address) (n : Nat) : MemoryMap :=
  { m with updates := m.updates ++ [(addr, addr + UInt32.ofNat n)] }

end MemoryMap

end Mc68k
