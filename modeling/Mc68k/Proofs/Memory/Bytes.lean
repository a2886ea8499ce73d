import Mc68k.Proofs.Memory.Translate

namespace Mc68k

namespace MemoryMap

/-- A map that some requests lead to. -/
def Reached (m : MemoryMap) : Prop :=
  ∃ (base : Address) (size : UInt32) (start : MemoryMap) (requests : List Request),
    Starts base size start ∧ start.run requests = m

theorem Reached.orderly {m : MemoryMap} (h : m.Reached) : m.Orderly := by
  obtain ⟨base, size, start, requests, hstart, rfl⟩ := h
  exact hstart.orderly_run requests

theorem Orderly.admits_iff {m : MemoryMap} (h : m.Orderly) {addr : Address} {n : Nat}
    {fc : FunctionCode} {access : Access} (hn : 0 < n) :
    (Memory.mapped m).admits addr n fc access = true ↔ addr.toNat + n < 0x100000000 ∧
      ∃ x ∈ m.regions.extents ++ m.heap.blocks.extents, x.base ≤ addr ∧
        addr.toNat + n ≤ x.limit ∧ x.protection.allows fc access = true := by
  have hextents : m.regions.extents ++ m.heap.blocks.extents = m.segments.map Segment.extent :=
    (List.map_append).symm
  simp only [Memory.admits_mapped, Option.isSome_iff_exists, h.admit?_eq_some_iff hn, hextents]
  constructor
  · rintro ⟨s, hlt, ⟨hs, hbase, hlimit⟩, hallows⟩
    exact ⟨hlt, s.extent, List.mem_map_of_mem hs, hbase, hlimit, hallows⟩
  · rintro ⟨hlt, x, hx, hbase, hlimit, hallows⟩
    obtain ⟨s, hs, rfl⟩ := List.mem_map.mp hx
    exact ⟨s, hlt, ⟨hs, hbase, hlimit⟩, hallows⟩

theorem Reached.patch {m : MemoryMap} (h : m.Reached) {addr : Address} {bytes : List UInt8}
    {fc : FunctionCode} (hw : (Memory.mapped m).admits addr bytes.length fc .write = true) :
    (m.patch addr bytes).Reached := by
  obtain ⟨base, size, start, requests, hstart, rfl⟩ := h
  refine ⟨base, size, start, requests ++ [.write addr bytes fc .write], hstart, ?_⟩
  have hfound : ((start.run requests).request addr bytes.length fc .write).1.isSome = true := hw
  have hsame : ((start.run requests).request addr bytes.length fc .write).2 =
      start.run requests := by simp [request]
  rw [run_append]
  simp only [run, List.foldl_cons, List.foldl_nil, serve]
  rw [run] at hfound hsame
  rw [if_pos hfound, hsame]

end MemoryMap

namespace Memory

def Orderly : Memory → Prop
  | flat _ => True
  | mapped map => map.Orderly

theorem Orderly.patch {m : Memory} (h : m.Orderly) (addr : Address) (bytes : List UInt8) :
    (m.patch addr bytes).Orderly := by
  cases m with
  | flat ram => trivial
  | mapped map => exact (MemoryMap.KeepsOrder.patch map addr bytes).1 h

def updates : Memory → List (Address × Address)
  | flat _ => []
  | mapped map => map.updates

theorem updates_patch (m : Memory) (addr : Address) (bytes : List UInt8) :
    (m.patch addr bytes).updates = m.updates := by
  cases m with
  | flat ram => rfl
  | mapped map => exact map.updates_patch addr bytes

/-- Two memories that differ in bytes of a range at most. -/
structure SameBut (bottom top : Nat) (m m' : Memory) : Prop where
  shape : m'.shape = m.shape
  updates : m'.updates = m.updates
  byte? (addr : Address) (h : addr.toNat < bottom ∨ top ≤ addr.toNat) :
    m'.byte? addr = m.byte? addr

theorem SameBut.patch (m : Memory) (addr : Address) (bytes : List UInt8) :
    SameBut addr.toNat (addr.toNat + bytes.length) m (m.patch addr bytes) where
  shape := shape_patch m addr bytes
  updates := updates_patch m addr bytes
  byte? x h := byte?_patch m addr bytes x h

section

variable {m : Memory} {addr : Address} {n i : Nat} {fc : FunctionCode} {access : Access}

theorem length_view? {bytes : List UInt8} (h : m.view? addr n fc access = some bytes) :
    bytes.length = n := by
  cases m with
  | flat ram =>
    obtain ⟨-, hslice⟩ := Option.ite_none_right_eq_some.mp h
    simp [← Option.some.inj hslice]
  | mapped map =>
    obtain ⟨s, -, rfl⟩ := Option.map_eq_some_iff.mp h
    simp

theorem toNat_add_of_admits (h : m.admits addr n fc access = true) (hi : i < n) :
    (addr + UInt32.ofNat i).toNat = addr.toNat + i := by
  have hlt := lt_of_admits h
  rw [UInt32.toNat_add, UInt32.toNat_ofNat']
  omega

/-- One segment, or RAM, holds the range and so each address of it. -/
theorem Orderly.byte?_of_view? (h : m.Orderly) {bytes : List UInt8}
    (hview : m.view? addr n fc access = some bytes) (hi : i < n) :
    m.byte? (addr + UInt32.ofNat i) = bytes[i]? := by
  have haddr := toNat_add_of_admits (admits_of_view? hview) hi
  cases m with
  | flat ram =>
    obtain ⟨hram, hslice⟩ := Option.ite_none_right_eq_some.mp hview
    have hsize := (FlatMemory.admits_iff.mp hram).1.2
    rw [byte?, haddr, if_pos (by omega), ← Option.some.inj hslice]
    simp [Bank.slice, hi]
  | mapped map =>
    obtain ⟨s, hs, rfl⟩ := Option.map_eq_some_iff.mp hview
    obtain ⟨-, ⟨hmem, hbase, hlimit⟩, -⟩ := (h.admit?_eq_some_iff (by omega)).mp hs
    rw [UInt32.le_iff_toNat_le] at hbase
    have hlocate : map.locate? (addr + UInt32.ofNat i) 1 = some s := by
      rw [h.locate?_eq_some_iff Nat.one_pos, UInt32.le_iff_toNat_le, haddr]
      exact ⟨hmem, by omega, by omega⟩
    have hoffset : s.offset (addr + UInt32.ofNat i) = s.offset addr + i := by
      rw [Segment.offset, Segment.offset, haddr]
      omega
    rw [byte?, hlocate, Option.map_some, Segment.byte, hoffset]
    simp [Segment.slice, Bank.slice, hi]

theorem Orderly.admits_byte (h : m.Orderly) (hadmits : m.admits addr n fc access = true)
    (hi : i < n) : m.admits (addr + UInt32.ofNat i) 1 fc .read = true := by
  have haddr := toNat_add_of_admits hadmits hi
  have hlt := lt_of_admits hadmits
  cases m with
  | flat ram =>
    rw [admits_flat, FlatMemory.admits_iff] at hadmits ⊢
    obtain ⟨⟨-, hsize⟩, hopen⟩ := hadmits
    rw [UInt32.le_iff_toNat_le] at hopen ⊢
    rw [haddr]
    exact ⟨⟨by omega, by omega⟩, hopen.imp_right fun h => by omega⟩
  | mapped map =>
    rw [admits_mapped, Option.isSome_iff_exists] at hadmits ⊢
    obtain ⟨s, hs⟩ := hadmits
    obtain ⟨-, ⟨hmem, hbase, hlimit⟩, hallows⟩ := (h.admit?_eq_some_iff (by omega)).mp hs
    rw [UInt32.le_iff_toNat_le] at hbase
    refine ⟨s, (h.admit?_eq_some_iff Nat.one_pos).mpr ⟨by omega, ⟨hmem, ?_, by omega⟩, ?_⟩⟩
    · rw [UInt32.le_iff_toNat_le]
      omega
    · exact Protection.allows_read hallows

theorem Orderly.byte?_patch (h : m.Orderly) {bytes : List UInt8}
    (hadmits : m.admits addr bytes.length fc access = true) (hi : i < bytes.length) :
    (m.patch addr bytes).byte? (addr + UInt32.ofNat i) = bytes[i]? :=
  (h.patch addr bytes).byte?_of_view? (view?_patch m addr bytes fc access hadmits) hi

end

end Memory

end Mc68k
