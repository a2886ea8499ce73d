import Mc68k.Proofs.Memory.Access
import Mc68k.Proofs.Memory.MapRun

namespace Mc68k

namespace MemoryMap

/-- No access finds a range that reaches into the callback region, and no heap block does. -/
structure Sealed (m : MemoryMap) : Prop where
  refused (addr : Address) (n : Nat) (fc : FunctionCode) (access : Access) (_ : 0 < n)
    (hreach : callbackRegion.toNat < addr.toNat + n) : (m.request addr n fc access).1 = none
  blocks : ∀ s ∈ m.heap.blocks, s.limit ≤ callbackRegion.toNat

/-- A map as it is built: with its heap window alone, or with RAM as well. -/
inductive Starts (base : Address) (size : UInt32) : MemoryMap → Prop
  | withHeap : Starts base size (withHeap (Heap.new base size))
  | new {ramSize supervisorLimit : UInt32} {m : MemoryMap}
    (h : MemoryMap.new ⟨ramSize, supervisorLimit, base, size⟩ = .ok m) : Starts base size m

theorem WellFormed.sealed {m : MemoryMap} (h : m.WellFormed)
    (hwindow : m.heap.limit ≤ callbackRegion.toNat ∨ m.heap.size = 0) : Sealed m := by
  have hblocks : ∀ s ∈ m.heap.blocks, s.limit ≤ callbackRegion.toNat := by
    intro s hs
    obtain ⟨hbase, hlimit⟩ := h.heap.inside s hs
    rcases hwindow with hwindow | hempty
    · omega
    · have hpos := h.heap.apart.nonempty s hs
      have hend : m.heap.limit = m.heap.base.toNat := by rw [Heap.limit, hempty]; rfl
      have hs : s.limit = s.base.toNat + s.bytes.size := rfl
      omega
  refine ⟨?_, hblocks⟩
  intro addr n fc access _ hreach
  cases hadmit : m.admit? addr n fc access with
  | none =>
    rw [request, hadmit]
    rfl
  | some s =>
    obtain ⟨-, hlocate, -⟩ := admit?_eq_some.mp hadmit
    have hlimit := (le_of_locate?_eq_some hlocate).2
    rw [locate?] at hlocate
    have hbelow : s.limit ≤ callbackRegion.toNat := by
      split at hlocate
      · exact hblocks s (Segments.locate?_eq_some hlocate).1
      · exact h.below s (Segments.locate?_eq_some hlocate).1
    omega

end MemoryMap

theorem Heap.allocate?_all {heap : Heap} (hblocks : heap.blocks = [])
    (hsize : pageSize ∣ heap.size.toNat) (hpos : 0 < heap.size.toNat) :
    heap.allocate? heap.size.toNat = some (heap.base,
      { heap with blocks := [⟨heap.base, Bank.zeros heap.size.toNat, .ram⟩] }) := by
  have hround := pageRound_of_dvd hsize hpos
  have hgap : heap.gap? heap.size.toNat = some heap.base := by
    have hbase := heap.base.toNat_lt
    have hlimit : heap.limit = heap.base.toNat + heap.size.toNat := rfl
    simp only [gap?, hblocks, firstGap]
    rw [if_pos ⟨by omega, hbase⟩, UInt32.ofNat_toNat]
  simp only [allocate?, hround, Nat.le_refl, if_true, place?, Bank.size_zeros, hgap,
    Option.map_some, hblocks]
  rfl

theorem Heap.serve_allocate_all {heap : Heap} (hblocks : heap.blocks = [])
    (hsize : pageSize ∣ heap.size.toNat) (hpos : 0 < heap.size.toNat) :
    heap.serve (.allocate heap.size) =
      { heap with blocks := [⟨heap.base, Bank.zeros heap.size.toNat, .ram⟩] } := by
  rw [serve, allocate?_all hblocks hsize hpos]
  rfl

namespace MemoryMap

theorem request_block {m : MemoryMap} {base : Address} {size n : Nat}
    (hbase : m.heap.base = base) (hsize : m.heap.size.toNat = size)
    (hblocks : m.heap.blocks = [⟨base, Bank.zeros size, .ram⟩]) {addr : Address}
    (hle : base ≤ addr) (hlimit : addr.toNat + n ≤ base.toNat + size) (hn : 0 < n)
    (hend : addr.toNat + n < 0x100000000) (fc : FunctionCode) (access : Access) :
    (m.request addr n fc access).1 = some (List.replicate n 0) := by
  have hcontains : m.heap.contains addr = true := by
    have : addr.toNat < m.heap.limit := by
      rw [Heap.limit, hbase, hsize]
      omega
    simp [Heap.contains, hbase, hle, this]
  have hlocate : m.locate? addr n = some ⟨base, Bank.zeros size, .ram⟩ := by
    have hin : addr.toNat + n ≤ Segment.limit ⟨base, Bank.zeros size, .ram⟩ := hlimit
    rw [locate?, if_pos hcontains, hblocks, Segments.locate?,
      List.takeWhile_cons_of_pos (by simpa using hle), List.takeWhile_nil, List.getLast?_singleton,
      Option.filter_some, if_pos (by simpa using hin)]
  have hadmit : m.admit? addr n fc access = some ⟨base, Bank.zeros size, .ram⟩ :=
    admit?_eq_some.mpr ⟨hend, hlocate, Protection.ram_allows fc access⟩
  simp [request, hadmit, Segment.slice, Bank.slice, List.map_const']

/-- Once a window that is not kept below the callback region has been allocated, memory is found in
the region, and a block reaches into it. -/
theorem reaches_of_window {m : MemoryMap} {base : Address} {size : UInt32}
    (hheap : m.heap = Heap.new base size)
    (hreach : callbackRegion.toNat < (Heap.new base size).limit)
    (hpos : (Heap.new base size).size ≠ 0) :
    (∃ addr, callbackRegion ≤ addr ∧ ∀ fc access,
      ((m.serve (.heap (.allocate m.heap.size))).request addr 1 fc access).1 = some [0]) ∧
    ∃ s ∈ (m.serve (.heap (.allocate m.heap.size))).heap.blocks,
      callbackRegion.toNat < s.limit := by
  have hpages := Heap.pageSize_dvd_new base size
  rw [← hheap] at hreach hpos hpages
  have hblocks : m.heap.blocks = [] := by rw [hheap]; rfl
  have hpos' : 0 < m.heap.size.toNat :=
    Nat.pos_of_ne_zero fun h => hpos (UInt32.toNat_inj.mp h)
  have hlimit : m.heap.limit = m.heap.base.toNat + m.heap.size.toNat := rfl
  have hserve : (m.serve (.heap (.allocate m.heap.size))).heap =
      { m.heap with blocks := [⟨m.heap.base, Bank.zeros m.heap.size.toNat, .ram⟩] } :=
    Heap.serve_allocate_all hblocks hpages.2 hpos'
  generalize m.serve (.heap (.allocate m.heap.size)) = m' at hserve
  -- The lowest address that is in the region and in the window.
  obtain ⟨addr, hregion, hle, hin, hend⟩ : ∃ addr : Address, callbackRegion ≤ addr ∧
      m.heap.base ≤ addr ∧ addr.toNat < m.heap.limit ∧ addr.toNat + 1 < 0x100000000 := by
    by_cases habove : callbackRegion ≤ m.heap.base
    · obtain ⟨k, hk⟩ := hpages.1
      have hbase := m.heap.base.toNat_lt
      rw [pageSize] at hk
      exact ⟨m.heap.base, habove, UInt32.le_refl _, by omega, by omega⟩
    · exact ⟨callbackRegion, UInt32.le_refl _, UInt32.le_of_lt (UInt32.not_le.mp habove), hreach,
        by decide⟩
  refine ⟨⟨addr, hregion, ?_⟩, ?_⟩
  · have hbase' : m'.heap.base = m.heap.base := by rw [hserve]
    have hsize' : m'.heap.size.toNat = m.heap.size.toNat := by rw [hserve]
    exact request_block hbase' hsize' (by rw [hserve]) hle (by omega) (by decide) hend
  · rw [hserve]
    exact ⟨_, List.mem_singleton_self _, hreach⟩

/-- The callback region stays sealed, whatever is asked of the map, exactly when the heap window
ends below it or is empty. -/
theorem sealed_run_iff {m : MemoryMap} {base : Address} {size : UInt32} (h : Starts base size m) :
    (∀ requests, Sealed (m.run requests)) ↔
      (Heap.new base size).limit ≤ callbackRegion.toNat ∨ (Heap.new base size).size = 0 := by
  obtain ⟨hkeeps, hheap⟩ :
      Keeps (MemoryMap.withHeap (Heap.new base size)) m ∧ m.heap = Heap.new base size := by
    cases h with
    | withHeap => exact ⟨.refl _, rfl⟩
    | new h => exact keeps_new h
  constructor
  · intro hsealed
    by_contra hwindow
    rw [not_or, Nat.not_le] at hwindow
    obtain ⟨-, s, hs, hreach⟩ := reaches_of_window hheap hwindow.1 hwindow.2
    have := (hsealed [.heap (.allocate m.heap.size)]).blocks s hs
    omega
  · intro hwindow requests
    have hlimit : (Heap.new base size).limit ≤ 0x100000000 := by
      have hbase := (Heap.new base size).base.toNat_lt
      have hregion : callbackRegion.toNat ≤ 0x100000000 := by decide
      rcases hwindow with hbelow | hempty
      · omega
      · rw [Heap.limit, hempty]
        exact Nat.le_of_lt hbase
    obtain ⟨hrun, hrunBase, hrunSize⟩ := hkeeps.trans (.run m requests)
    apply (hrun (wellFormed_withHeap hlimit)).sealed
    rw [Heap.limit, hrunBase, hrunSize]
    exact hwindow

/-- The default window stays out of the region. -/
theorem sealed_run_default : Sealed ((MemoryMap.withHeap (Heap.new 0x40000000 0x01000000)).run
    [.heap (.allocate 0x01000000)]) :=
  (sealed_run_iff .withHeap).mpr (.inl (by decide)) _

/-- A window over the top 64 KiB: the first page allocated is memory in the region. -/
theorem not_sealed_allocate : ¬Sealed ((MemoryMap.withHeap (Heap.new 0xFFFF0000 0x10000)).run
    [.heap (.allocate 1)]) := by
  intro h
  have hnone := h.refused 0xFFFF0000 1 .userData .read (by decide) (by decide)
  have hsome : (((MemoryMap.withHeap (Heap.new 0xFFFF0000 0x10000)).run
      [.heap (.allocate 1)]).request 0xFFFF0000 1 .userData .read).1 = some [0] := by
    decide +kernel
  rw [hnone] at hsome
  cases hsome

end MemoryMap

end Mc68k
