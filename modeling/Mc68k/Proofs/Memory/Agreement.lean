import Mc68k.Proofs.Execution.Path
import Mc68k.Proofs.Memory.Bytes

namespace Mc68k

namespace MemoryMap

theorem mem_regions_mapZeros {m m' : MemoryMap} {base : Address} {size : UInt32}
    {protection : Protection} (h : m.mapZeros base size protection = .ok m') (s : Segment) :
    s ∈ m'.regions ↔
      (size ≠ 0 ∧ s = ⟨base, Bank.zeros size.toNat, protection⟩) ∨ s ∈ m.regions := by
  rw [mapZeros] at h
  split at h
  next hzero =>
    obtain rfl := Except.ok.inj h
    simp [hzero]
  next hsize =>
    obtain ⟨-, -, -, -, rfl⟩ := map_eq_ok h
    simp [Segments.mem_insert, hsize]

theorem mem_regions_new {layout : Layout} {m : MemoryMap} (h : new layout = .ok m) :
    layout.supervisorLimit ≤ layout.ramSize ∧ ∀ s, s ∈ m.regions ↔
      (layout.ramSize - layout.supervisorLimit ≠ 0 ∧ s = ⟨layout.supervisorLimit,
        Bank.zeros (layout.ramSize - layout.supervisorLimit).toNat, .ram⟩) ∨
      (layout.supervisorLimit ≠ 0 ∧
        s = ⟨0, Bank.zeros layout.supervisorLimit.toNat, .supervisorRam⟩) := by
  simp only [new] at h
  split at h
  · cases h
  next hle =>
    cases hsupervisor : (withHeap (Heap.new layout.heapBase layout.heapSize)).mapZeros 0
        layout.supervisorLimit .supervisorRam with
    | error e =>
      rw [hsupervisor] at h
      cases h
    | ok m₁ =>
      rw [hsupervisor] at h
      have hfirst := mem_regions_mapZeros hsupervisor
      have hsecond := mem_regions_mapZeros h
      refine ⟨UInt32.not_lt.mp hle, fun s => ?_⟩
      rw [hsecond, hfirst]
      simp [withHeap]

theorem blocks_new {layout : Layout} {m : MemoryMap} (h : new layout = .ok m) :
    m.heap.blocks = [] := by
  rw [(keepsOrder_new h).2.1]
  rfl

end MemoryMap

@[simp] theorem Protection.supervisorRam_allows (fc : FunctionCode) (access : Access) :
    supervisorRam.allows fc access = fc.isSupervisor := by
  cases fc <;> cases access <;> decide

namespace MemoryMap

variable {layout : Layout} {m : MemoryMap} {addr : Address} {n : Nat}

theorem exists_region_new_iff (h : new layout = .ok m) (addr : Address) (hn : 0 < n)
    (p : Protection) :
    (∃ s ∈ m.regions, s.protection = p ∧ s.base ≤ addr ∧ addr.toNat + n ≤ s.limit) ↔
      (p = .ram ∧ layout.supervisorLimit.toNat ≤ addr.toNat ∧
        addr.toNat + n ≤ layout.ramSize.toNat) ∨
      (p = .supervisorRam ∧ addr.toNat + n ≤ layout.supervisorLimit.toNat) := by
  obtain ⟨hle, hregions⟩ := mem_regions_new h
  have hsize := UInt32.toNat_sub_of_le _ _ hle
  rw [UInt32.le_iff_toNat_le] at hle
  constructor
  · rintro ⟨s, hs, rfl, hbase, hlimit⟩
    rcases (hregions s).mp hs with ⟨-, rfl⟩ | ⟨-, rfl⟩
    · simp only [Segment.limit, Bank.size_zeros, UInt32.le_iff_toNat_le] at hbase hlimit
      exact .inl ⟨rfl, hbase, by omega⟩
    · simp only [Segment.limit, Bank.size_zeros, UInt32.toNat_zero] at hlimit
      exact .inr ⟨rfl, by omega⟩
  · rintro (⟨rfl, hbase, hlimit⟩ | ⟨rfl, hlimit⟩)
    · refine ⟨_, (hregions _).mpr (.inl ⟨?_, rfl⟩), rfl, UInt32.le_iff_toNat_le.mpr hbase, ?_⟩
      · intro hzero
        rw [hzero, UInt32.toNat_zero] at hsize
        omega
      · simp only [Segment.limit, Bank.size_zeros]
        omega
    · refine ⟨_, (hregions _).mpr (.inr ⟨?_, rfl⟩), rfl, ?_, ?_⟩
      · intro hzero
        rw [hzero, UInt32.toNat_zero] at hlimit
        omega
      · exact UInt32.le_iff_toNat_le.mpr (Nat.zero_le _)
      · simp only [Segment.limit, Bank.size_zeros, UInt32.toNat_zero]
        omega

theorem orderly_new (h : new layout = .ok m) : m.Orderly :=
  (keepsOrder_new h).1.1 (orderly_withHeap _ _)

theorem admits_new_iff (h : new layout = .ok m) {fc : FunctionCode} {access : Access}
    (hn : 0 < n) :
    (Memory.mapped m).admits addr n fc access = true ↔ addr.toNat + n < 0x100000000 ∧
      ((layout.supervisorLimit.toNat ≤ addr.toNat ∧ addr.toNat + n ≤ layout.ramSize.toNat) ∨
        (addr.toNat + n ≤ layout.supervisorLimit.toNat ∧ fc.isSupervisor = true)) := by
  have hregion (p : Protection) := exists_region_new_iff h addr hn p
  rw [(orderly_new h).admits_iff hn, blocks_new h]
  refine and_congr_right fun _ => ?_
  constructor
  · rintro ⟨x, hx, hbase, hlimit, hallows⟩
    obtain ⟨s, hs, rfl⟩ : ∃ s ∈ m.regions, s.extent = x := by
      simpa [Segments.extents] using hx
    rcases (hregion s.protection).mp ⟨s, hs, rfl, hbase, hlimit⟩ with ⟨-, hram⟩ | ⟨hp, hlow⟩
    · exact .inl hram
    · simp only [Segment.extent, hp, Protection.supervisorRam_allows] at hallows
      exact .inr ⟨hlow, hallows⟩
  · have hextent (s : Segment) (hs : s ∈ m.regions) :
        s.extent ∈ m.regions.extents ++ Segments.extents [] :=
      List.mem_append_left _ (List.mem_map_of_mem hs)
    rintro (hram | ⟨hlow, hsupervisor⟩)
    · obtain ⟨s, hs, hp, hbase, hlimit⟩ := (hregion .ram).mpr (.inl ⟨rfl, hram⟩)
      refine ⟨s.extent, hextent s hs, hbase, hlimit, ?_⟩
      simp only [Segment.extent, hp, Protection.ram_allows]
    · obtain ⟨s, hs, hp, hbase, hlimit⟩ := (hregion .supervisorRam).mpr (.inr ⟨rfl, hlow⟩)
      refine ⟨s.extent, hextent s hs, hbase, hlimit, ?_⟩
      simp only [Segment.extent, hp, Protection.supervisorRam_allows, hsupervisor]

end MemoryMap

/-- A range on both sides of an address. -/
def Straddles (limit addr : Address) (n : Nat) : Prop :=
  addr.toNat < limit.toNat ∧ limit.toNat < addr.toNat + n

instance (limit addr : Address) (n : Nat) : Decidable (Straddles limit addr n) :=
  inferInstanceAs (Decidable (_ ∧ _))

namespace Memory

/-- Flat RAM and a map that both came from a layout and hold the same bytes. -/
structure Mirrors (layout : Layout) (f g : Memory) : Prop where
  flat : f.shape = .flat layout.ramSize.toNat layout.supervisorLimit
  mapped : ∃ m, MemoryMap.new layout = .ok m ∧ g.shape = (mapped m).shape
  orderly : g.Orderly
  bytes : ∀ addr, f.byte? addr = g.byte? addr

theorem mirrors_new {layout : Layout} {m : MemoryMap} (h : MemoryMap.new layout = .ok m) :
    Mirrors layout (.flat (.new layout.ramSize.toNat layout.supervisorLimit)) (.mapped m) := by
  obtain ⟨hle, hregions⟩ := MemoryMap.mem_regions_new h
  have horderly := MemoryMap.orderly_new h
  rw [UInt32.le_iff_toNat_le] at hle
  refine ⟨by simp [shape, FlatMemory.new], ⟨m, h, rfl⟩, horderly, fun addr => ?_⟩
  have hregion := MemoryMap.exists_region_new_iff h addr Nat.one_pos
  have hlocate (s : Segment) : m.locate? addr 1 = some s ↔
      s ∈ m.regions ∧ s.base ≤ addr ∧ addr.toNat + 1 ≤ s.limit := by
    rw [horderly.locate?_eq_some_iff Nat.one_pos]
    simp [MemoryMap.segments, MemoryMap.blocks_new h]
  simp only [byte?, FlatMemory.new, Bank.size_zeros, Bank.get_zeros]
  cases hs : m.locate? addr 1 with
  | some s =>
    obtain ⟨hin, hrange⟩ := (hlocate s).mp hs
    have hbelow := (hregion s.protection).mp ⟨s, hin, rfl, hrange⟩
    have hbyte : s.byte addr = 0 := by
      rcases (hregions s).mp hin with ⟨-, rfl⟩ | ⟨-, rfl⟩ <;> simp [Segment.byte]
    rw [if_pos (by omega), Option.map_some, hbyte]
  | none =>
    rw [if_neg, Option.map_none]
    intro hlt
    obtain ⟨s, hin, -, hrange⟩ : ∃ s ∈ m.regions, s.protection =
        (if layout.supervisorLimit.toNat ≤ addr.toNat then .ram else .supervisorRam) ∧
        s.base ≤ addr ∧ addr.toNat + 1 ≤ s.limit := by
      rw [hregion]
      split
      next habove => exact .inl ⟨rfl, habove, hlt⟩
      next hbelow => exact .inr ⟨rfl, by omega⟩
    rw [(hlocate s).mpr ⟨hin, hrange⟩] at hs
    cases hs

namespace Mirrors

variable {layout : Layout} {f g : Memory} {addr : Address} {n : Nat} {fc : FunctionCode}
  {access : Access}

theorem flat_admits_iff (h : Mirrors layout f g) : f.admits addr n fc access = true ↔
    addr.toNat + n < 0x100000000 ∧ addr.toNat + n ≤ layout.ramSize.toNat ∧
      (fc.isSupervisor = true ∨ layout.supervisorLimit.toNat ≤ addr.toNat) := by
  have hflat := h.flat
  cases f with
  | mapped map => cases hflat
  | flat ram =>
    simp only [shape, Shape.flat.injEq] at hflat
    rw [admits_flat, FlatMemory.admits_iff, hflat.1, hflat.2, UInt32.le_iff_toNat_le, and_assoc]

theorem mapped_admits_iff (h : Mirrors layout f g) (hn : 0 < n) :
    g.admits addr n fc access = true ↔ addr.toNat + n < 0x100000000 ∧
      ((layout.supervisorLimit.toNat ≤ addr.toNat ∧ addr.toNat + n ≤ layout.ramSize.toNat) ∨
        (addr.toNat + n ≤ layout.supervisorLimit.toNat ∧ fc.isSupervisor = true)) := by
  obtain ⟨m, hnew, hshape⟩ := h.mapped
  rw [admits_of_shape_eq hshape, MemoryMap.admits_new_iff hnew hn]

theorem limit_le (h : Mirrors layout f g) :
    layout.supervisorLimit.toNat ≤ layout.ramSize.toNat := by
  obtain ⟨m, hnew, -⟩ := h.mapped
  exact UInt32.le_iff_toNat_le.mp (MemoryMap.mem_regions_new hnew).1

theorem admits_eq (h : Mirrors layout f g) (hn : 0 < n)
    (hwhole : ¬Straddles layout.supervisorLimit addr n) :
    f.admits addr n fc access = g.admits addr n fc access := by
  have hlimit := h.limit_le
  rw [Bool.eq_iff_iff, h.flat_admits_iff, h.mapped_admits_iff hn]
  rw [Straddles] at hwhole
  cases fc.isSupervisor <;> simp only [Bool.false_eq_true, true_or, false_or, and_true, and_false,
    or_false] <;> omega

theorem flat_orderly (h : Mirrors layout f g) : f.Orderly := by
  have hflat := h.flat
  cases f with
  | mapped map => cases hflat
  | flat ram => trivial

theorem view?_eq (h : Mirrors layout f g) (hn : 0 < n)
    (hwhole : ¬Straddles layout.supervisorLimit addr n) :
    f.view? addr n fc access = g.view? addr n fc access := by
  have hadmits : f.admits addr n fc access = g.admits addr n fc access := h.admits_eq hn hwhole
  rw [admits, admits] at hadmits
  cases hf : f.view? addr n fc access with
  | none =>
    rw [hf] at hadmits
    exact (Option.isNone_iff_eq_none.mp (by simpa using hadmits.symm)).symm
  | some bytes =>
    rw [hf] at hadmits
    obtain ⟨bytes', hg⟩ := Option.isSome_iff_exists.mp hadmits.symm
    rw [hg, Option.some.injEq]
    apply List.ext_getElem?
    intro i
    by_cases hi : i < n
    · have hleft := h.flat_orderly.byte?_of_view? hf hi
      have hright := h.orderly.byte?_of_view? hg hi
      rw [← hleft, ← hright, h.bytes]
    · have hlength := length_view? hf
      have hlength' := length_view? hg
      rw [List.getElem?_eq_none (by omega), List.getElem?_eq_none (by omega)]

theorem patch (h : Mirrors layout f g) {bytes : List UInt8}
    (hf : f.admits addr bytes.length fc access = true)
    (hg : g.admits addr bytes.length fc access = true) :
    Mirrors layout (f.patch addr bytes) (g.patch addr bytes) where
  flat := (shape_patch f addr bytes).trans h.flat
  mapped := by
    obtain ⟨m, hnew, hshape⟩ := h.mapped
    exact ⟨m, hnew, (shape_patch g addr bytes).trans hshape⟩
  orderly := h.orderly.patch addr bytes
  bytes x := by
    by_cases hx : x.toNat < addr.toNat ∨ addr.toNat + bytes.length ≤ x.toNat
    · rw [byte?_patch f addr bytes x hx, byte?_patch g addr bytes x hx, h.bytes]
    · have hi : x.toNat - addr.toNat < bytes.length := by omega
      have hindex : addr + UInt32.ofNat (x.toNat - addr.toNat) = x := by
        apply UInt32.toNat_inj.mp
        rw [toNat_add_of_admits hf hi]
        omega
      have hleft := h.flat_orderly.byte?_patch hf hi
      have hright := h.orderly.byte?_patch hg hi
      rw [hindex] at hleft hright
      rw [hleft, hright]

end Mirrors

end Memory

namespace Machine

inductive Call where
  | get (addr : Address) (size : Size) (fc : FunctionCode)
  | put (addr : Address) (size : Size) (value : UInt32) (fc : FunctionCode)

namespace Call

def address : Call → Address
  | get addr _ _ | put addr _ _ _ => addr

def length : Call → Nat
  | get _ size _ | put _ size _ _ => size.bytes

end Call

inductive Reply where
  | found (value : Option UInt32)
  | stored (done : Bool)
  deriving DecidableEq, Repr

def call (m : Machine) : Call → Reply × Machine
  | .get addr size fc =>
    let (value, m) := m.load addr size fc
    (.found value, m)
  | .put addr size value fc =>
    let (done, m) := m.store addr (toBigEndian value size) fc
    (.stored done, m)

/-- Calls one after another, with all replies. -/
def converse (m : Machine) : List Call → List Reply × Machine
  | [] => ([], m)
  | c :: rest =>
    let (reply, m) := m.call c
    let (replies, m) := m.converse rest
    (reply :: replies, m)

/-- A range is refused under a function code, for reading and for writing, and left as it is. -/
structure Refuses (m : Machine) (addr : Address) (n : Nat) (fc : FunctionCode) : Prop where
  request (access : Access) : (m.request addr n fc access).1 = none ∧
    (m.request addr n fc access).2.memory = m.memory
  store (bytes : List UInt8) (h : bytes.length = n) : (m.store addr bytes fc).1 = false ∧
    (m.store addr bytes fc).2.memory = m.memory

theorem refuses_of_not_admits {m : Machine} {addr : Address} {n : Nat} {fc : FunctionCode}
    (h : ∀ access, m.memory.admits addr n fc access = false) : m.Refuses addr n fc := by
  have hview (access : Access) : m.memory.view? addr n fc access = none :=
    Memory.admits_eq_false_iff.mp (h access)
  refine ⟨fun access => ?_, fun bytes hlength => ?_⟩
  · simp [request, Memory.request, hview]
  · subst hlength
    rw [store_of_not_admits m addr bytes fc (h .write)]
    exact ⟨rfl, rfl⟩

variable {layout : Layout} {f g : Machine}

theorem call_mirrors (h : Memory.Mirrors layout f.memory g.memory) {c : Call}
    (hwhole : ¬Straddles layout.supervisorLimit c.address c.length) :
    (f.call c).1 = (g.call c).1 ∧
      Memory.Mirrors layout (f.call c).2.memory (g.call c).2.memory := by
  cases c with
  | get addr size fc =>
    have hview : f.memory.view? addr size.bytes fc .read =
        g.memory.view? addr size.bytes fc .read :=
      h.view?_eq size.bytes_pos hwhole
    simp only [call, load_eq, hview]
    exact ⟨trivial, h⟩
  | put addr size value fc =>
    have hn := length_toBigEndian value size
    have hadmits : f.memory.admits addr (toBigEndian value size).length fc .write =
        g.memory.admits addr (toBigEndian value size).length fc .write := by
      rw [hn]
      exact h.admits_eq size.bytes_pos hwhole
    simp only [call]
    cases hg : g.memory.admits addr (toBigEndian value size).length fc .write with
    | false =>
      rw [store_of_not_admits f _ _ _ (hadmits.trans hg), store_of_not_admits g _ _ _ hg]
      exact ⟨rfl, h⟩
    | true =>
      rw [store_of_admits f _ _ _ (hadmits.trans hg), store_of_admits g _ _ _ hg]
      exact ⟨rfl, h.patch (hadmits.trans hg) hg⟩

theorem converse_mirrors (h : Memory.Mirrors layout f.memory g.memory) {calls : List Call}
    (hwhole : ∀ c ∈ calls, ¬Straddles layout.supervisorLimit c.address c.length) :
    (f.converse calls).1 = (g.converse calls).1 ∧
      Memory.Mirrors layout (f.converse calls).2.memory (g.converse calls).2.memory := by
  induction calls generalizing f g with
  | nil => exact ⟨rfl, h⟩
  | cons c rest ih =>
    obtain ⟨hfirst, hrest⟩ := List.forall_mem_cons.mp hwhole
    obtain ⟨hreply, hmirrors⟩ := call_mirrors h hfirst
    obtain ⟨hreplies, hlast⟩ := ih hmirrors hrest
    exact ⟨congrArg₂ List.cons hreply hreplies, hlast⟩

theorem refuses_of_straddles (h : Memory.Mirrors layout f.memory g.memory) {addr : Address}
    {n : Nat} (hstraddles : Straddles layout.supervisorLimit addr n)
    (hram : addr.toNat + n ≤ layout.ramSize.toNat) (fc : FunctionCode) :
    g.Refuses addr n fc ∧ (fc.isSupervisor = false → f.Refuses addr n fc) ∧
      ∀ access, (f.request addr n fc access).1.isSome = fc.isSupervisor := by
  obtain ⟨hbelow, habove⟩ := hstraddles
  have hsize := layout.ramSize.toNat_lt
  have hflat (access : Access) : f.memory.admits addr n fc access = fc.isSupervisor := by
    rw [Bool.eq_iff_iff, h.flat_admits_iff]
    constructor
    · rintro ⟨-, -, hsupervisor | hle⟩
      · exact hsupervisor
      · omega
    · intro hsupervisor
      exact ⟨by omega, hram, .inl hsupervisor⟩
  refine ⟨refuses_of_not_admits fun access => ?_, fun huser => ?_, hflat⟩
  · rw [← Bool.not_eq_true, h.mapped_admits_iff (by omega)]
    omega
  · exact refuses_of_not_admits fun access => (hflat access).trans huser

/-- Flat RAM and a new map of the same layout give the same replies to any calls that do not
straddle the supervisor limit, and hold the same bytes afterwards. -/
theorem converse_agree (m : Machine) {layout : Layout} {map : MemoryMap}
    (h : MemoryMap.new layout = .ok map) (calls : List Call)
    (hwhole : ∀ c ∈ calls, ¬Straddles layout.supervisorLimit c.address c.length) :
    let f := { m with memory := .flat (.new layout.ramSize.toNat layout.supervisorLimit) }
    let g := { m with memory := .mapped map }
    (f.converse calls).1 = (g.converse calls).1 ∧
      (∀ addr, (f.converse calls).2.memory.byte? addr = (g.converse calls).2.memory.byte? addr) ∧
      ∀ addr n fc, Straddles layout.supervisorLimit addr n →
        addr.toNat + n ≤ layout.ramSize.toNat →
        (g.converse calls).2.Refuses addr n fc ∧
        (fc.isSupervisor = false → (f.converse calls).2.Refuses addr n fc) ∧
        ∀ access, ((f.converse calls).2.request addr n fc access).1.isSome = fc.isSupervisor := by
  intro f g
  have hstart : Memory.Mirrors layout f.memory g.memory := Memory.mirrors_new h
  obtain ⟨hreplies, hmirrors⟩ := converse_mirrors hstart hwhole
  refine ⟨hreplies, hmirrors.bytes, ?_⟩
  intro addr n fc hstraddles hram
  exact refuses_of_straddles hmirrors hstraddles hram fc

/-- Two KiB of RAM, the lower half the supervisor's, with a long across the limit. -/
theorem converse_agree_halves :
    let layout : Layout := ⟨0x800, 0x400, 0x1000, 0x1000⟩
    let calls : List Call := [.put 0x3FC .long 0x12345678 .supervisorData,
      .get 0x3FE .word .supervisorProgram, .get 0x3FE .word .userData,
      .put 0x400 .word 0x9ABC .userProgram, .get 0x7FF .word .supervisorData,
      .get 0x1000 .byte .supervisorData]
    ∃ map, MemoryMap.new layout = .ok map ∧
      ((Machine.new .m68000 (.mapped map)).converse calls).1 = [.stored true,
        .found (some 0x5678), .found none, .stored true, .found none, .found none] ∧
      ((Machine.new .m68000 (.mapped map)).converse calls).2.Refuses 0x3FE 4 .supervisorData := by
  intro layout calls
  have hbuilt : (MemoryMap.new layout).isOk = true := by decide +kernel
  cases hnew : MemoryMap.new layout with
  | error e =>
    rw [hnew] at hbuilt
    cases hbuilt
  | ok map =>
    obtain ⟨hreplies, -, hrefuses⟩ :=
      converse_agree (Machine.new .m68000 (.mapped map)) hnew calls (by decide +kernel)
    have hflat : ((Machine.new .m68000 (.flat (.new 0x800 0x400))).converse calls).1 =
        [.stored true, .found (some 0x5678), .found none, .stored true, .found none,
          .found none] := by decide +kernel
    exact ⟨map, rfl, hreplies.symm.trans hflat, (hrefuses 0x3FE 4 _ (by decide) (by decide)).1⟩

end Machine

end Mc68k
