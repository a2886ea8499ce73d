import Mc68k.Memory.Segment

namespace Mc68k

def pageSize : Nat := 4096

/-- Round up to whole pages, at least one. -/
def pageRound (n : Nat) : Nat := (max n 1 + pageSize - 1) / pageSize * pageSize

structure Heap where
  base : Address
  size : UInt32
  blocks : Segments

namespace Heap

def pageMask : UInt32 := 0xFFFFF000

/-- An empty window, cut down to page boundaries. -/
def new (base : Address) (size : UInt32) : Heap := ⟨base &&& pageMask, size &&& pageMask, []⟩

def limit (heap : Heap) : Nat := heap.base.toNat + heap.size.toNat

def contains (heap : Heap) (addr : Address) : Bool :=
  heap.base ≤ addr && addr.toNat < heap.limit

def allocated (heap : Heap) : Nat :=
  heap.blocks.foldr (fun block total => block.bytes.size + total) 0

def blockSize? (heap : Heap) (addr : Address) : Option Nat :=
  (heap.blocks.at? addr).map (·.bytes.size)

/-- Where the first gap of `n` bytes starts, going up from `cursor` over the blocks. -/
def firstGap (n : Nat) : Nat → Segments → Nat
  | cursor, [] => cursor
  | cursor, block :: blocks =>
    if n ≤ block.base.toNat - cursor then cursor else firstGap n block.limit blocks

def gap? (heap : Heap) (n : Nat) : Option Address :=
  let start := firstGap n heap.base.toNat heap.blocks
  if n ≤ heap.limit - start ∧ start < 0x100000000 then some (UInt32.ofNat start) else none

def place? (heap : Heap) (bytes : Bank) : Option (Address × Heap) :=
  (heap.gap? bytes.size).map fun addr =>
    (addr, { heap with blocks := heap.blocks.insert ⟨addr, bytes, .ram⟩ })

def allocate? (heap : Heap) (n : Nat) : Option (Address × Heap) :=
  if pageRound n ≤ heap.size.toNat then heap.place? (Bank.zeros (pageRound n)) else none

/-- A block of given contents, which must be whole pages. -/
def allocatePages? (heap : Heap) (bytes : Bank) : Option (Address × Heap) :=
  if bytes.size = 0 ∨ bytes.size % pageSize ≠ 0 then none else heap.place? bytes

def deallocate? (heap : Heap) (addr : Address) : Option Heap :=
  (heap.blocks.at? addr).map fun _ => { heap with blocks := heap.blocks.erase addr }

end Heap

end Mc68k
