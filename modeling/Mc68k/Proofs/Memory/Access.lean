import Mc68k.Memory.Basic
import Mc68k.Proofs.Memory.Segment

namespace Mc68k

namespace MemoryMap

theorem locate?_patch (m : MemoryMap) (addr : Address) (bytes : List UInt8) {s : Segment}
    (hs : m.locate? addr bytes.length = some s) (x : Address) (n : Nat) :
    (m.patch addr bytes).locate? x n = (m.locate? x n).map fun t =>
      if m.heap.contains x = m.heap.contains addr ∧ t.base = s.base then t.patch addr bytes
      else t := by
  have hid : (fun t : Segment => t) = id := rfl
  have hw : Heap.contains { m.heap with blocks := m.heap.blocks.patch s.base addr bytes } x =
      m.heap.contains x := rfl
  rw [patch, hs]
  cases ha : m.heap.contains addr <;> cases hx : m.heap.contains x <;>
    simp only [hx, hw, locate?, Bool.false_eq_true, if_false, if_true, false_and, true_and,
      reduceCtorEq, hid, Option.map_id_fun, id_eq]
  · exact Segments.locate?_patch _ _ _ _ _ _
  · exact Segments.locate?_patch _ _ _ _ _ _

theorem patch_of_locate?_eq_none (m : MemoryMap) (addr : Address) (bytes : List UInt8)
    (hs : m.locate? addr bytes.length = none) : m.patch addr bytes = m := by
  rw [patch, hs]

theorem le_of_locate?_eq_some {m : MemoryMap} {addr : Address} {n : Nat} {s : Segment}
    (h : m.locate? addr n = some s) : s.base ≤ addr ∧ addr.toNat + n ≤ s.limit := by
  rw [locate?] at h
  split at h
  · exact (Segments.locate?_eq_some h).2
  · exact (Segments.locate?_eq_some h).2

theorem admit?_eq_some {m : MemoryMap} {addr : Address} {n : Nat} {fc : FunctionCode}
    {access : Access} {s : Segment} :
    m.admit? addr n fc access = some s ↔ addr.toNat + n < 0x100000000 ∧
      m.locate? addr n = some s ∧ s.protection.allows fc access = true := by
  rw [admit?]
  split
  · next h => simp [h, Option.filter_eq_some_iff]
  · next h => simp [h]

end MemoryMap

theorem Protection.allows_read {p : Protection} {fc : FunctionCode} {access : Access}
    (h : p.allows fc access = true) : p.allows fc .read = true := by
  simp only [allows, Access.writes, Bool.and_eq_true] at h ⊢
  exact ⟨⟨h.1.1, by simp⟩, h.2⟩

theorem FlatMemory.admits_iff {m : FlatMemory} {addr : Address} {n : Nat} {fc : FunctionCode} :
    m.admits addr n fc = true ↔ (addr.toNat + n < 0x100000000 ∧
      addr.toNat + n ≤ m.bytes.size) ∧ (fc.isSupervisor = true ∨ m.supervisorLimit ≤ addr) := by
  simp [admits]

namespace Memory

/-- The byte at an address, in RAM or in the segment that holds it. -/
def byte? (m : Memory) (addr : Address) : Option UInt8 :=
  match m with
  | flat ram => if addr.toNat < ram.bytes.size then some (ram.bytes.get addr.toNat) else none
  | mapped map => (map.locate? addr 1).map (·.byte addr)

def admits (m : Memory) (addr : Address) (n : Nat) (fc : FunctionCode) (access : Access) : Bool :=
  (m.view? addr n fc access).isSome

theorem admits_eq_false_iff {m : Memory} {addr : Address} {n : Nat} {fc : FunctionCode}
    {access : Access} : m.admits addr n fc access = false ↔ m.view? addr n fc access = none := by
  rw [admits, Option.isSome_eq_false_iff, Option.isNone_iff_eq_none]

theorem admits_of_view? {m : Memory} {addr : Address} {n : Nat} {fc : FunctionCode}
    {access : Access} {bytes : List UInt8} (h : m.view? addr n fc access = some bytes) :
    m.admits addr n fc access = true := by
  rw [admits, h]
  rfl

@[simp] theorem admits_flat (ram : FlatMemory) (addr : Address) (n : Nat) (fc : FunctionCode)
    (access : Access) : (flat ram).admits addr n fc access = ram.admits addr n fc := by
  cases h : ram.admits addr n fc <;> simp [admits, view?, h]

@[simp] theorem admits_mapped (map : MemoryMap) (addr : Address) (n : Nat) (fc : FunctionCode)
    (access : Access) :
    (mapped map).admits addr n fc access = (map.admit? addr n fc access).isSome := by
  simp [admits, view?]

end Memory

/-- All of a memory that no write changes. -/
inductive Shape where
  | flat (size : Nat) (supervisorLimit : UInt32)
  | mapped (regions : List Extent) (heapBase : Address) (heapSize : UInt32) (blocks : List Extent)
  deriving DecidableEq

namespace Memory

def shape : Memory → Shape
  | flat ram => .flat ram.bytes.size ram.supervisorLimit
  | mapped map => .mapped map.regions.extents map.heap.base map.heap.size map.heap.blocks.extents

@[simp] theorem shape_patch (m : Memory) (addr : Address) (bytes : List UInt8) :
    (m.patch addr bytes).shape = m.shape := by
  cases m with
  | flat ram => simp [patch, shape]
  | mapped map =>
    simp only [patch, shape, MemoryMap.patch]
    split
    · rfl
    · split <;> simp

theorem admits_of_shape_eq {m m' : Memory} (h : m.shape = m'.shape) (addr : Address) (n : Nat)
    (fc : FunctionCode) (access : Access) :
    m.admits addr n fc access = m'.admits addr n fc access := by
  cases m with
  | flat ram =>
    cases m' with
    | mapped map' => simp [shape] at h
    | flat ram' =>
      simp only [shape, Shape.flat.injEq] at h
      simp only [admits_flat, FlatMemory.admits, h.1, h.2]
  | mapped map =>
    cases m' with
    | flat ram' => simp [shape] at h
    | mapped map' =>
      simp only [shape, Shape.mapped.injEq] at h
      obtain ⟨hr, hb, hs, hk⟩ := h
      have hc : map.heap.contains addr = map'.heap.contains addr := by
        rw [Heap.contains, Heap.contains, Heap.limit, Heap.limit, hb, hs]
      have hl : (map.locate? addr n).map Segment.extent =
          (map'.locate? addr n).map Segment.extent := by
        simp only [MemoryMap.locate?, hc]
        split
        · rw [Segments.extent_locate?, Segments.extent_locate?, hk]
        · rw [Segments.extent_locate?, Segments.extent_locate?, hr]
      have hp (map : MemoryMap) : (map.admit? addr n fc access).isSome =
          (decide (addr.toNat + n < 0x100000000) &&
            ((map.locate? addr n).map Segment.extent).any (·.protection.allows fc access)) := by
        rw [MemoryMap.admit?]
        by_cases hlt : addr.toNat + n < 0x100000000
        · cases hs : map.locate? addr n with
          | none => simp
          | some s => simp [hlt, Segment.extent]
        · simp [hlt]
      rw [admits_mapped, admits_mapped, hp, hp, hl]

@[simp] theorem admits_patch (m : Memory) (at_ : Address) (bytes : List UInt8) (addr : Address)
    (n : Nat) (fc : FunctionCode) (access : Access) :
    (m.patch at_ bytes).admits addr n fc access = m.admits addr n fc access :=
  admits_of_shape_eq (shape_patch m at_ bytes) addr n fc access

/-- Nothing admitted reaches the end of the address space. -/
theorem lt_of_admits {m : Memory} {addr : Address} {n : Nat} {fc : FunctionCode} {access : Access}
    (h : m.admits addr n fc access = true) : addr.toNat + n < 0x100000000 := by
  cases m with
  | flat ram =>
    rw [admits_flat] at h
    exact (FlatMemory.admits_iff.mp h).1.1
  | mapped map =>
    rw [admits_mapped] at h
    obtain ⟨s, hs⟩ := Option.isSome_iff_exists.mp h
    exact (MemoryMap.admit?_eq_some.mp hs).1

theorem admits_read_of_write {m : Memory} {addr : Address} {n : Nat} {fc : FunctionCode}
    (h : m.admits addr n fc .write = true) : m.admits addr n fc .read = true := by
  cases m with
  | flat ram =>
    rw [admits_flat] at h ⊢
    exact h
  | mapped map =>
    rw [admits_mapped] at h ⊢
    obtain ⟨s, hs⟩ := Option.isSome_iff_exists.mp h
    obtain ⟨hlt, hl, hp⟩ := MemoryMap.admit?_eq_some.mp hs
    have hr := Protection.allows_read hp
    exact Option.isSome_iff_exists.mpr ⟨s, MemoryMap.admit?_eq_some.mpr ⟨hlt, hl, hr⟩⟩

theorem byte?_patch (m : Memory) (addr : Address) (bytes : List UInt8) (x : Address)
    (h : x.toNat < addr.toNat ∨ addr.toNat + bytes.length ≤ x.toNat) :
    (m.patch addr bytes).byte? x = m.byte? x := by
  cases m with
  | flat ram =>
    simp only [patch, byte?, Bank.size_write]
    split
    · rw [Bank.get_write_of_disjoint _ _ _ _ h]
    · rfl
  | mapped map =>
    simp only [patch, byte?]
    cases hs : map.locate? addr bytes.length with
    | none => rw [map.patch_of_locate?_eq_none addr bytes hs]
    | some s =>
      rw [map.locate?_patch addr bytes hs, Option.map_map]
      cases ht : map.locate? x 1 with
      | none => rfl
      | some t =>
        simp only [Option.map_some, Function.comp_apply]
        split
        · next hbase =>
          have hsb := (MemoryMap.le_of_locate?_eq_some hs).1
          have htb := (MemoryMap.le_of_locate?_eq_some ht).1
          rw [← hbase.2] at hsb
          rw [Segment.byte_patch_of_disjoint t addr bytes x hsb htb h]
        · rfl

/-- Bytes written to a range are what every admitted access then finds there. -/
theorem view?_patch (m : Memory) (addr : Address) (bytes : List UInt8) (fc : FunctionCode)
    (access : Access) (h : m.admits addr bytes.length fc access = true) :
    (m.patch addr bytes).view? addr bytes.length fc access = some bytes := by
  have h' := h
  rw [← admits_patch m addr bytes] at h'
  cases m with
  | flat ram =>
    simp only [patch, admits_flat] at h h'
    have hsize := (FlatMemory.admits_iff.mp h).1.2
    simp only [patch, view?, h', if_true, Bank.slice_write _ _ _ hsize]
  | mapped map =>
    rw [admits_mapped] at h
    obtain ⟨s, hs⟩ := Option.isSome_iff_exists.mp h
    obtain ⟨hlt, hl, hp⟩ := MemoryMap.admit?_eq_some.mp hs
    obtain ⟨hb, hle⟩ := MemoryMap.le_of_locate?_eq_some hl
    have hl' : (map.patch addr bytes).locate? addr bytes.length = some (s.patch addr bytes) := by
      rw [map.locate?_patch addr bytes hl, hl]
      simp
    have ha : (map.patch addr bytes).admit? addr bytes.length fc access =
        some (s.patch addr bytes) :=
      MemoryMap.admit?_eq_some.mpr ⟨hlt, hl', hp⟩
    simp only [patch, view?, ha, Option.map_some, Segment.slice_patch s addr bytes hb hle]

theorem view?_patch_of_disjoint (m : Memory) (addr : Address) (bytes : List UInt8) (x : Address)
    (n : Nat) (fc : FunctionCode) (access : Access)
    (h : x.toNat + n ≤ addr.toNat ∨ addr.toNat + bytes.length ≤ x.toNat) :
    (m.patch addr bytes).view? x n fc access = m.view? x n fc access := by
  cases m with
  | flat ram =>
    have ha := admits_patch (flat ram) addr bytes x n fc access
    simp only [patch, admits_flat] at ha
    simp only [patch, view?, ha, Bank.slice_write_of_disjoint _ _ _ _ _ h]
  | mapped map =>
    simp only [patch, view?, MemoryMap.admit?]
    split
    · cases hs : map.locate? addr bytes.length with
      | none => rw [map.patch_of_locate?_eq_none addr bytes hs]
      | some s =>
        rw [map.locate?_patch addr bytes hs]
        cases ht : map.locate? x n with
        | none => rfl
        | some t =>
          have hsb := (MemoryMap.le_of_locate?_eq_some hs).1
          have htb := (MemoryMap.le_of_locate?_eq_some ht).1
          simp only [Option.map_some]
          split
          · next hbase =>
            rw [← hbase.2] at hsb
            cases hp : t.protection.allows fc access
            · simp [Option.filter_some, hp]
            · simp [Option.filter_some, hp,
                Segment.slice_patch_of_disjoint t addr bytes x n hsb htb h]
          · rfl
    · rfl

theorem view?_append {ram : FlatMemory} {addr mid : Address} {n k : Nat} {fc : FunctionCode}
    {access : Access} {bytes bytes' : List UInt8} (hmid : addr.toNat + n = mid.toNat)
    (h : (flat ram).view? addr n fc access = some bytes)
    (h' : (flat ram).view? mid k fc access = some bytes') :
    (flat ram).view? addr (n + k) fc access = some (bytes ++ bytes') := by
  simp only [view?, Option.ite_none_right_eq_some, Option.some.injEq, FlatMemory.admits_iff]
    at h h' ⊢
  obtain ⟨⟨-, hopen⟩, rfl⟩ := h
  obtain ⟨⟨⟨hlt, hsize⟩, -⟩, rfl⟩ := h'
  rw [← hmid] at hlt hsize ⊢
  refine ⟨⟨⟨by omega, by omega⟩, hopen⟩, ?_⟩
  rw [Bank.slice_append]

theorem flat_of_shape_eq {m m' : Memory} {ram : FlatMemory} (hm : m = flat ram)
    (h : m'.shape = m.shape) : ∃ ram', m' = flat ram' := by
  subst hm
  cases m' with
  | flat ram' => exact ⟨ram', rfl⟩
  | mapped map => cases h

end Memory

end Mc68k
