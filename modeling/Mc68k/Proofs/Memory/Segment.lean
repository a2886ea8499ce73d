import Mc68k.Memory.Segment
import Mathlib.Data.List.TakeWhile

namespace Mc68k

namespace Bank

theorem slice_write (b : Bank) (start : Nat) (bytes : List UInt8)
    (h : start + bytes.length ≤ b.size) :
    (b.write start bytes).slice start bytes.length = bytes := by
  apply List.ext_getElem?
  intro i
  by_cases hi : i < bytes.length
  · have hin : start + i < b.size := by omega
    simp [slice, hi, get_write, hin]
  · rw [List.getElem?_eq_none (by simpa using hi), List.getElem?_eq_none (by omega)]

theorem slice_append (b : Bank) (start n k : Nat) :
    b.slice start (n + k) = b.slice start n ++ b.slice (start + n) k := by
  simp [slice, List.range_add, Nat.add_assoc]

theorem get_write_of_disjoint (b : Bank) (start : Nat) (bytes : List UInt8) (i : Nat)
    (h : i < start ∨ start + bytes.length ≤ i) : (b.write start bytes).get i = b.get i := by
  rw [get_write]
  rcases h with h | h
  · rw [if_neg (by omega)]
  · split
    · rw [List.getElem?_eq_none (by omega)]
      rfl
    · rfl

theorem slice_write_of_disjoint (b : Bank) (start : Nat) (bytes : List UInt8) (i n : Nat)
    (h : i + n ≤ start ∨ start + bytes.length ≤ i) :
    (b.write start bytes).slice i n = b.slice i n := by
  apply List.map_congr_left
  intro k hk
  have := List.mem_range.mp hk
  exact get_write_of_disjoint b start bytes (i + k) (by omega)

end Bank

/-- What a segment is apart from its bytes. -/
structure Extent where
  base : Address
  size : Nat
  protection : Protection
  deriving DecidableEq

namespace Extent

def limit (x : Extent) : Nat := x.base.toNat + x.size

end Extent

namespace Segment

def extent (s : Segment) : Extent := ⟨s.base, s.bytes.size, s.protection⟩

def byte (s : Segment) (addr : Address) : UInt8 := s.bytes.get (s.offset addr)

@[simp] theorem base_extent (s : Segment) : s.extent.base = s.base := rfl

@[simp] theorem limit_extent (s : Segment) : s.extent.limit = s.limit := rfl

@[simp] theorem extent_patch (s : Segment) (addr : Address) (bytes : List UInt8) :
    (s.patch addr bytes).extent = s.extent := by
  simp [extent, patch]

@[simp] theorem length_slice (s : Segment) (addr : Address) (n : Nat) :
    (s.slice addr n).length = n := by
  simp [slice]

theorem slice_patch (s : Segment) (addr : Address) (bytes : List UInt8) (hb : s.base ≤ addr)
    (hl : addr.toNat + bytes.length ≤ s.limit) :
    (s.patch addr bytes).slice addr bytes.length = bytes := by
  have ha : s.base.toNat ≤ addr.toNat := UInt32.le_iff_toNat_le.mp hb
  apply Bank.slice_write
  simp only [limit] at hl
  simp only [offset]
  omega

theorem get_patch (s : Segment) {addr : Address} {bytes : List UInt8} (hb : s.base ≤ addr)
    (hl : addr.toNat + bytes.length ≤ s.limit) (i : Nat) : (s.patch addr bytes).bytes.get i =
      if s.base.toNat + i < addr.toNat then s.bytes.get i
      else bytes[s.base.toNat + i - addr.toNat]?.getD (s.bytes.get i) := by
  rw [UInt32.le_iff_toNat_le] at hb
  rw [limit] at hl
  rw [patch, offset, Bank.get_write]
  by_cases hlow : s.base.toNat + i < addr.toNat
  · rw [if_pos hlow, if_neg (by omega)]
  · have hplace : i - (addr.toNat - s.base.toNat) = s.base.toNat + i - addr.toNat := by omega
    rw [if_neg hlow, hplace]
    by_cases hin : i < s.bytes.size
    · rw [if_pos ⟨by omega, hin⟩]
    · rw [if_neg (by omega), List.getElem?_eq_none (by omega)]
      rfl

theorem byte_patch_of_disjoint (s : Segment) (addr : Address) (bytes : List UInt8) (x : Address)
    (ha : s.base ≤ addr) (hx : s.base ≤ x)
    (h : x.toNat < addr.toNat ∨ addr.toNat + bytes.length ≤ x.toNat) :
    (s.patch addr bytes).byte x = s.byte x := by
  have ha' : s.base.toNat ≤ addr.toNat := UInt32.le_iff_toNat_le.mp ha
  have hx' : s.base.toNat ≤ x.toNat := UInt32.le_iff_toNat_le.mp hx
  apply Bank.get_write_of_disjoint
  simp only [offset, base_patch]
  omega

theorem slice_patch_of_disjoint (s : Segment) (addr : Address) (bytes : List UInt8)
    (x : Address) (n : Nat) (ha : s.base ≤ addr) (hx : s.base ≤ x)
    (h : x.toNat + n ≤ addr.toNat ∨ addr.toNat + bytes.length ≤ x.toNat) :
    (s.patch addr bytes).slice x n = s.slice x n := by
  have ha' : s.base.toNat ≤ addr.toNat := UInt32.le_iff_toNat_le.mp ha
  have hx' : s.base.toNat ≤ x.toNat := UInt32.le_iff_toNat_le.mp hx
  apply Bank.slice_write_of_disjoint
  simp only [offset, base_patch]
  omega

end Segment

namespace Segments

def extents (segments : Segments) : List Extent := segments.map Segment.extent

theorem locate?_eq_some {segments : Segments} {addr : Address} {n : Nat} {s : Segment}
    (h : segments.locate? addr n = some s) :
    s ∈ segments ∧ s.base ≤ addr ∧ addr.toNat + n ≤ s.limit := by
  obtain ⟨hlast, hlimit⟩ := Option.filter_eq_some_iff.mp h
  have hmem := List.mem_of_getLast? hlast
  have hbase := List.mem_takeWhile_imp hmem
  exact ⟨List.takeWhile_subset _ hmem, by simpa using hbase, by simpa using hlimit⟩

theorem locate?_map (segments : Segments) (f : Segment → Segment) (addr : Address) (n : Nat)
    (hb : ∀ s, (f s).base = s.base) (hl : ∀ s, (f s).limit = s.limit) :
    locate? (segments.map f) addr n = (segments.locate? addr n).map f := by
  have hbase : ((fun s : Segment => decide (s.base ≤ addr)) ∘ f) =
      fun s => decide (s.base ≤ addr) := by
    funext s
    simp [hb]
  have hlimit : ((fun s : Segment => decide (addr.toNat + n ≤ s.limit)) ∘ f) =
      fun s => decide (addr.toNat + n ≤ s.limit) := by
    funext s
    simp [hl]
  rw [locate?, List.takeWhile_map, List.getLast?_map, Option.filter_map, hbase, hlimit]
  rfl

theorem locate?_patch (segments : Segments) (base at_ : Address) (bytes : List UInt8)
    (addr : Address) (n : Nat) :
    (segments.patch base at_ bytes).locate? addr n =
      (segments.locate? addr n).map fun s => if s.base = base then s.patch at_ bytes else s := by
  apply locate?_map
  · intro s
    split <;> rfl
  · intro s
    split
    · exact Segment.limit_patch _ _ _
    · rfl

theorem extent_locate? (segments : Segments) (addr : Address) (n : Nat) :
    (segments.locate? addr n).map Segment.extent =
      ((segments.extents.takeWhile (·.base ≤ addr)).getLast?.filter
        (addr.toNat + n ≤ ·.limit)) := by
  rw [extents, List.takeWhile_map, List.getLast?_map, Option.filter_map]
  rfl

@[simp] theorem extents_patch (segments : Segments) (base addr : Address) (bytes : List UInt8) :
    (segments.patch base addr bytes).extents = segments.extents := by
  rw [extents, patch, List.map_map]
  apply List.map_congr_left
  intro s _
  simp only [Function.comp_apply]
  split
  · exact Segment.extent_patch _ _ _
  · rfl

theorem exists_of_mem_patch {segments : Segments} {base addr : Address} {bytes : List UInt8}
    {s : Segment} (hs : s ∈ segments.patch base addr bytes) :
    ∃ t ∈ segments, t.base = s.base ∧ t.bytes.size = s.bytes.size ∧ t.limit = s.limit := by
  obtain ⟨t, ht, rfl⟩ := List.mem_map.mp hs
  refine ⟨t, ht, ?_⟩
  split
  · exact ⟨rfl, (Bank.size_write _ _ _).symm, (Segment.limit_patch _ _ _).symm⟩
  · exact ⟨rfl, rfl, rfl⟩

end Segments

end Mc68k
