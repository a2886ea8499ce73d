import Mc68k.Host.Table
import Mc68k.Proofs.Execution.Path
import Mc68k.Proofs.Memory.Translate

namespace Mc68k

theorem Registers.a_setA_zero (r : Registers) (value : UInt32) :
    (r.setA .zero value).a .zero = value := by
  simp [Registers.a, Registers.setA, RegisterNumber.zero, RegisterNumber.ofNat]

namespace Host

/-- The block for a request: new, of the least whole pages, zeroed and writable by the program. -/
structure GainsBlock (map map' : MemoryMap) (addr : Address) (n : Nat) : Prop where
  pages : PagesFor n (pageRound n)
  regions : map'.regions = map.regions
  blocks : ∃ before after, map.heap.blocks = before ++ after ∧
    map'.heap.blocks = before ++ ⟨addr, Bank.zeros (pageRound n), .ram⟩ :: after
  fresh : ∀ s ∈ map.heap.blocks, s.base ≠ addr
  disjoint : ∀ s ∈ map.heap.blocks, s.limit ≤ addr.toNat ∨
    addr.toNat + pageRound n ≤ s.base.toNat
  writable : (Memory.mapped map').view? addr (pageRound n) .userData .write =
    some (List.replicate (pageRound n) 0)
  others (x : Address) (h : x.toNat < addr.toNat ∨ addr.toNat + pageRound n ≤ x.toNat) :
    (Memory.mapped map').byte? x = (Memory.mapped map).byte? x

/-- The report that there is no block: none would fit, and at most the memory error is new. -/
structure ReportsFull (map : MemoryMap) (memory : Memory) (n : Nat) : Prop where
  pages : PagesFor n (pageRound n)
  full (start : Nat) : ¬map.heap.FreeRun start (pageRound n)
  heap : memory.heap? = some map.heap
  written (h : (Memory.mapped map).admits memErr 2 .supervisorData .write = true) :
    memory.view? memErr 2 .supervisorData .read = some [0xFF, 0x94] ∧
      ∀ x : Address, x.toNat < memErr.toNat ∨ memErr.toNat + 2 ≤ x.toNat →
        memory.byte? x = (Memory.mapped map).byte? x
  refused (h : (Memory.mapped map).admits memErr 2 .supervisorData .write = false) :
    memory = .mapped map

/-- A0 after NewPtr is the address of a new block, or zero if there is none. -/
def Truthful (map : MemoryMap) (m m' : Machine) : Prop :=
  (m'.regs.a .zero ≠ 0 ∧ ∃ map', m'.memory = .mapped map' ∧
    GainsBlock map map' (m'.regs.a .zero) (m.regs.d .zero).toNat) ∨
  (m'.regs.a .zero = 0 ∧ ReportsFull map m'.memory (m.regs.d .zero).toNat)

theorem handlers_table (host : Host) :
    (table host).handlers = HostCall.all.map fun call => (call.number, host.handler call) := by
  simp [table, HostCall.all, CallbackTable.install, CallbackTable.empty, HostCall.number]

theorem handler?_table (host : Host) (call : HostCall) :
    (table host).handler? call.number = some (host.handler call) := by
  rw [CallbackTable.handler?, handlers_table]
  cases call <;> rfl

theorem invoke_table (host : Host) (call : HostCall) (m : Machine) :
    (table host).invoke call.number m = host.handler call m := by
  rw [CallbackTable.invoke, handler?_table]

theorem callNumber?_address (call : HostCall) : callNumber? call.address = some call.number := by
  cases call <;> decide

theorem invoke_newPtr (host : Host) (m : Machine) :
    (table host).invoke HostCall.newPtr.number m = newPtr m :=
  invoke_table host .newPtr m

theorem allocate?_mapped (map : MemoryMap) (n : Nat) : (Memory.mapped map).allocate? n =
    (map.heap.allocate? n).map fun (addr, heap) => (addr, .mapped { map with heap }) := rfl

theorem newPtr_of_some {m : Machine} {map : MemoryMap} {addr : Address} {heap : Heap}
    (hm : m.memory = .mapped map) (haddr : addr ≠ 0)
    (halloc : map.heap.allocate? (m.regs.d .zero).toNat = some (addr, heap)) :
    (newPtr m).2.regs.a .zero = addr ∧ (newPtr m).2.memory = .mapped { map with heap } := by
  simp only [newPtr, hm, allocate?_mapped, halloc, Option.map_some, if_neg haddr, resume,
    modifyRegs, Registers.a_setA_zero, and_self]

theorem newPtr_of_zero {m : Machine} (haddr : ∀ addr memory,
    m.memory.allocate? (m.regs.d .zero).toNat = some (addr, memory) → addr = 0) :
    (newPtr m).2.regs.a .zero = 0 := by
  have hstore (m : Machine) (addr : Address) (bytes : List UInt8) (fc : FunctionCode) :
      (m.store addr bytes fc).2.regs = m.regs := by
    obtain ⟨written, memory, cycles, hwrite⟩ := m.store_frame addr bytes fc
    rw [hwrite]
  rw [newPtr]
  cases halloc : m.memory.allocate? (m.regs.d .zero).toNat with
  | none => simp only [resume, modifyRegs, if_true, hstore, Registers.a_setA_zero]
  | some found =>
    have hzero := haddr found.1 found.2 halloc
    simp only [hzero, resume, modifyRegs, if_true, hstore, Registers.a_setA_zero]

theorem newPtr_of_none {m : Machine} {map : MemoryMap} (hm : m.memory = .mapped map)
    (halloc : map.heap.allocate? (m.regs.d .zero).toNat = none) :
    (newPtr m).2.memory =
      if (Memory.mapped map).admits memErr 2 .supervisorData .write then
        .mapped (map.patch memErr [0xFF, 0x94])
      else .mapped map := by
  have hbytes : toBigEndian memFullErr.toUInt32 .word = [0xFF, 0x94] := by decide
  simp only [newPtr, hm, allocate?_mapped, halloc, Option.map_none, if_true, hbytes, resume]
  generalize hm' : modifyRegs m (·.setA .zero 0) = m'
  have hmemory : m'.memory = .mapped map := by rw [← hm', ← hm]; rfl
  rw [← hmemory]
  cases hw : m'.memory.admits memErr 2 .supervisorData .write with
  | true =>
    rw [m'.store_of_admits memErr [0xFF, 0x94] _ hw, hmemory]
    rfl
  | false =>
    rw [m'.store_of_not_admits memErr [0xFF, 0x94] _ hw, hmemory]
    rfl

variable {map : MemoryMap}

theorem orderly_allocate? (h : map.Orderly) {n : UInt32} {addr : Address} {heap : Heap}
    (halloc : map.heap.allocate? n.toNat = some (addr, heap)) :
    MemoryMap.Orderly { map with heap } := by
  have hserve : map.heap.serve (.allocate n) = heap := by
    rw [Heap.serve, halloc]
    rfl
  have hkept := (MemoryMap.KeepsOrder.heap map (.allocate n)).1 h
  rwa [hserve] at hkept

theorem gainsBlock (h : map.Orderly) (hlimit : map.heap.limit < 0x100000000) {n : UInt32}
    {addr : Address} {heap : Heap} (halloc : map.heap.allocate? n.toNat = some (addr, heap)) :
    GainsBlock map { map with heap } addr n.toNat := by
  have hpages := pagesFor_pageRound n.toNat
  have hpos := hpages.pos
  have horderly := orderly_allocate? h halloc
  have hplaced := (h.heap.wellFormed (Nat.le_of_lt hlimit)).allocate? n.toNat
  rw [halloc] at hplaced
  obtain ⟨hrun, -, before, after, hblocks, hheap⟩ := hplaced
  rw [Bank.size_zeros, Heap.freeRun_iff hpos h.heap.apart.nonempty] at hrun
  obtain ⟨hbase, hwindow, hsides⟩ := hrun
  have hmem (s : Segment) : s ∈ MemoryMap.segments { map with heap } ↔
      s = ⟨addr, Bank.zeros (pageRound n.toNat), .ram⟩ ∨ s ∈ map.segments := by
    simp only [MemoryMap.segments, hheap, hblocks, List.mem_append, List.mem_cons]
    grind
  refine ⟨hpages, rfl, ⟨before, after, hblocks, by rw [hheap]⟩, ?_, fun s hs => (hsides s hs).symm,
    ?_, ?_⟩
  · rintro s hs rfl
    have := hsides s hs
    have := h.heap.apart.nonempty s hs
    have hend : s.limit = s.base.toNat + s.bytes.size := rfl
    omega
  · have hadmit : MemoryMap.admit? { map with heap } addr (pageRound n.toNat) .userData .write =
        some ⟨addr, Bank.zeros (pageRound n.toNat), .ram⟩ := by
      rw [horderly.admit?_eq_some_iff hpos, hmem]
      exact ⟨by omega, ⟨.inl rfl, UInt32.le_refl _, Nat.le_refl _⟩, Protection.ram_allows _ _⟩
    simp [Memory.view?, hadmit, Segment.slice, Bank.slice, List.map_const']
  · intro x hx
    simp only [Memory.byte?, h.locate?_eq_of_outside horderly hmem hx]

theorem reportsFull (h : map.Orderly) (hlimit : map.heap.limit < 0x100000000)
    (herror : map.heap.contains memErr = false) {m : Machine} (hm : m.memory = .mapped map)
    (halloc : map.heap.allocate? (m.regs.d .zero).toNat = none) :
    ReportsFull map (newPtr m).2.memory (m.regs.d .zero).toNat := by
  have hfull := (h.heap.wellFormed (Nat.le_of_lt hlimit)).allocate? (m.regs.d .zero).toNat
  rw [halloc] at hfull
  rw [newPtr_of_none hm halloc]
  refine ⟨pagesFor_pageRound _, hfull, ?_, ?_, ?_⟩
  · split
    · rw [Memory.heap?, MemoryMap.patch]
      cases map.locate? memErr 2 with
      | none => rfl
      | some s => simp [herror]
    · rfl
  · intro hw
    rw [if_pos hw]
    exact ⟨Memory.view?_patch (.mapped map) memErr [0xFF, 0x94] _ _
      (Memory.admits_read_of_write hw), Memory.byte?_patch (.mapped map) memErr [0xFF, 0x94]⟩
  · intro hw
    rw [if_neg (by simp [hw])]

theorem truthful_newPtr (h : map.Orderly) (hwindow : map.heap.size = 0 ∨
      map.heap.base ≠ 0 ∧ map.heap.limit < 0x100000000) {m : Machine}
    (hm : m.memory = .mapped map) : Truthful map m (newPtr m).2 := by
  have hlimit : map.heap.limit < 0x100000000 := by
    rcases hwindow with hempty | ⟨-, hlimit⟩
    · rw [Heap.limit, hempty]
      exact map.heap.base.toNat_lt
    · exact hlimit
  cases halloc : map.heap.allocate? (m.regs.d .zero).toNat with
  | none =>
    refine .inr ⟨newPtr_of_zero ?_, reportsFull h hlimit ?_ hm halloc⟩
    · rw [hm, allocate?_mapped, halloc]
      simp
    · -- The lowest window has its base a page above the memory error.
      rw [Bool.eq_false_iff, ne_eq, Heap.contains_iff]
      rintro ⟨hle, hlt⟩
      obtain ⟨k, hk⟩ := h.heap.base
      rw [pageSize, show memErr.toNat = 0x220 from rfl] at *
      rcases hwindow with hempty | ⟨hbase, -⟩
      · rw [Heap.limit, hempty, show (0 : UInt32).toNat = 0 from rfl] at hlt
        omega
      · exact hbase (UInt32.toNat_inj.mp (by rw [show (0 : UInt32).toNat = 0 from rfl]; omega))
  | some found =>
    obtain ⟨addr, heap⟩ := found
    have hgains := gainsBlock h hlimit halloc
    have hplaced := (h.heap.wellFormed (Nat.le_of_lt hlimit)).allocate? (m.regs.d .zero).toNat
    rw [halloc] at hplaced
    have hpos : 0 < pageRound (m.regs.d .zero).toNat := (pagesFor_pageRound _).pos
    obtain ⟨hle, hin, -⟩ := (Heap.freeRun_iff hpos h.heap.apart.nonempty).mp hplaced.1
    have haddr : addr ≠ 0 := by
      rintro rfl
      rcases hwindow with hempty | ⟨hbase, -⟩
      · rw [Heap.limit, hempty] at hin
        simp only [UInt32.toNat_zero] at hle hin
        omega
      · exact hbase (UInt32.toNat_inj.mp (Nat.le_zero.mp hle))
    obtain ⟨ha, hmemory⟩ := newPtr_of_some hm haddr halloc
    refine .inl ⟨by rwa [ha], _, hmemory, ?_⟩
    rw [ha]
    exact hgains

theorem window_of_truthful (hblocks : map.heap.blocks = [])
    (hpages : pageSize ∣ map.heap.size.toNat) {m : Machine} (hm : m.memory = .mapped map)
    (hd : m.regs.d .zero = map.heap.size) (htold : Truthful map m (newPtr m).2) :
    map.heap.size = 0 ∨ map.heap.base ≠ 0 ∧ map.heap.limit < 0x100000000 := by
  by_cases hsize : map.heap.size = 0
  · exact .inl hsize
  have hpos : 0 < map.heap.size.toNat :=
    Nat.pos_of_ne_zero fun h => hsize (UInt32.toNat_inj.mp h)
  have hround := pageRound_of_dvd hpages hpos
  have halloc := Heap.allocate?_all hblocks hpages hpos
  rw [← hd] at halloc hround
  refine .inr ?_
  by_cases hbase : map.heap.base = 0
  · -- The block is there, and is reported as missing.
    have hzero : (newPtr m).2.regs.a .zero = 0 := by
      apply newPtr_of_zero
      intro addr memory hfound
      rw [hm, allocate?_mapped, halloc] at hfound
      obtain ⟨rfl, -⟩ := Prod.mk.inj (Option.some.inj hfound)
      exact hbase
    rcases htold with ⟨hne, -⟩ | ⟨-, hfull⟩
    · exact absurd hzero hne
    · refine absurd ?_ (hfull.full map.heap.base.toNat)
      rw [hround, hd, Heap.freeRun_iff hpos (by simp [hblocks])]
      exact ⟨Nat.le_refl _, Nat.le_refl _, by simp [hblocks]⟩
  · -- The block is reported, and cannot be used to its end.
    obtain ⟨ha, -⟩ := newPtr_of_some hm hbase halloc
    rcases htold with ⟨-, map', -, hgains⟩ | ⟨hzero, -⟩
    · have hwritable := hgains.writable
      rw [ha, hround, hd] at hwritable
      have hadmits : (Memory.mapped map').admits map.heap.base map.heap.size.toNat .userData
          .write = true := by
        rw [Memory.admits, hwritable]
        rfl
      exact ⟨hbase, Memory.lt_of_admits hadmits⟩
    · exact absurd (ha.symm.trans hzero) hbase

/-- NewPtr reports truthfully, after any requests and for any size, exactly when the heap window
neither begins at zero nor reaches the end of the address space, or is empty. -/
theorem newPtr_truthful_iff {base : Address} {size : UInt32} {start : MemoryMap}
    (h : MemoryMap.Starts base size start) (host : Host) :
    (∀ requests (m : Machine), m.memory = .mapped (start.run requests) →
      Truthful (start.run requests) m ((table host).invoke HostCall.newPtr.number m).2) ↔
      (Heap.new base size).size = 0 ∨
        (Heap.new base size).base ≠ 0 ∧ (Heap.new base size).limit < 0x100000000 := by
  simp only [invoke_newPtr]
  constructor
  · intro htruthful
    have hheap : start.heap = Heap.new base size := h.keepsOrder.2.1
    have htold := htruthful [] { Machine.new .m68000 (.mapped start) with
      regs := Registers.initial.setD .zero start.heap.size } rfl
    rw [← hheap]
    exact window_of_truthful (by rw [hheap]; rfl)
      (by rw [hheap]; exact (Heap.pageSize_dvd_new base size).2) rfl rfl htold
  · intro hwindow requests m hm
    obtain ⟨hbase, hsize⟩ := h.window_run requests
    apply truthful_newPtr (h.orderly_run requests) ?_ hm
    rw [Heap.limit, hbase, hsize]
    exact hwindow

/-- In the default window, a page is found. -/
theorem newPtr_truthful_default :
    let start := MemoryMap.withHeap (Heap.new 0x40000000 0x01000000)
    let m : Machine := { Machine.new .m68000 (.mapped start) with
      regs := Registers.initial.setD .zero 10 }
    let m' := ((table ⟨false, fun _ => .error .invalidPath⟩).invoke 11 m).2
    Truthful start m m' ∧ m'.regs.a .zero = 0x40000000 := by
  intro start m m'
  refine ⟨?_, by decide +kernel⟩
  exact (newPtr_truthful_iff (.withHeap : MemoryMap.Starts 0x40000000 0x01000000 start) _).mpr
    (.inr (by decide)) [] m rfl

/-- In a window of the first page, the page is taken and A0 says that there is none. -/
theorem not_truthful_newPtr :
    let start := MemoryMap.withHeap (Heap.new 0 0x1000)
    let m : Machine := { Machine.new .m68000 (.mapped start) with
      regs := Registers.initial.setD .zero 1 }
    let m' := ((table ⟨false, fun _ => .error .invalidPath⟩).invoke 11 m).2
    ¬Truthful start m m' := by
  intro start m m' htold
  have hzero : m'.regs.a .zero = 0 := by decide +kernel
  have htaken : m'.memory.heap?.map (·.blocks.length) = some 1 := by decide +kernel
  rcases htold with ⟨hne, -⟩ | ⟨-, hfull⟩
  · exact hne hzero
  · rw [hfull.heap] at htaken
    cases htaken

end Host

end Mc68k
