import Mc68k.Proofs.Host.NewPtr
import Mc68k.Proofs.Memory.Bytes

namespace Mc68k

theorem Bank.slice_write_zeros {size : Nat} {bytes : List UInt8} (h : bytes.length ≤ size) :
    ((Bank.zeros size).write 0 bytes).slice 0 size =
      bytes ++ List.replicate (size - bytes.length) 0 := by
  obtain ⟨rest, rfl⟩ := Nat.exists_eq_add_of_le h
  have hwritten := (Bank.zeros (bytes.length + rest)).slice_write 0 bytes (by simp)
  have hzeros := (Bank.zeros (bytes.length + rest)).slice_write_of_disjoint 0 bytes bytes.length
    rest (.inr (by omega))
  rw [slice_append, hwritten, Nat.zero_add, hzeros]
  simp [slice, List.map_const']

theorem MemoryMap.locate?_of_le {m : MemoryMap} {addr : Address} {n k : Nat} {s : Segment}
    (h : m.locate? addr n = some s) (hk : k ≤ n) : m.locate? addr k = some s := by
  have hsegments {segments : Segments} (h : segments.locate? addr n = some s) :
      segments.locate? addr k = some s := by
    rw [Segments.locate?, Option.filter_eq_some_iff] at h ⊢
    refine ⟨h.1, ?_⟩
    have hlimit := h.2
    rw [decide_eq_true_eq] at hlimit ⊢
    omega
  rw [locate?] at h ⊢
  split at h
  · next hwindow =>
    rw [if_pos hwindow]
    exact hsegments h
  · next hwindow =>
    rw [if_neg hwindow]
    exact hsegments h

namespace Host

/-- Bytes spell a path: it is not empty, it ends where the first NUL is, and the last byte is NUL
too. -/
structure Spells (bytes path : List UInt8) : Prop where
  nonempty : path ≠ []
  plain : 0 ∉ path
  ended : ∃ rest, bytes = path ++ 0 :: rest
  last : bytes.getLast? = some 0

theorem spells_of_pathOf? {bytes path : List UInt8} (h : pathOf? bytes = some path) :
    Spells bytes path := by
  rw [pathOf?, Option.ite_none_right_eq_some, Option.some.injEq] at h
  obtain ⟨⟨hlast, hhead⟩, rfl⟩ := h
  have hsplit := List.takeWhile_append_dropWhile (p := (· != (0 : UInt8))) (l := bytes)
  refine ⟨?_, ?_, ?_, hlast⟩
  · intro hempty
    cases bytes with
    | nil => cases hlast
    | cons b bs => simp_all
  · intro hzero
    simpa using List.mem_takeWhile_imp hzero
  · cases hrest : bytes.dropWhile (· != 0) with
    | nil =>
      have hplain := List.dropWhile_eq_nil_iff.mp hrest 0 (List.mem_of_getLast? hlast)
      simp at hplain
    | cons b rest =>
      obtain rfl : b = 0 := by
        have hnot := List.head?_dropWhile_not (· != (0 : UInt8)) bytes
        rw [hrest] at hnot
        simpa using hnot
      rw [hrest] at hsplit
      exact ⟨rest, hsplit.symm⟩

theorem pathOf?_of_spells {bytes path : List UInt8} (h : Spells bytes path) :
    pathOf? bytes = some path := by
  obtain ⟨hnonempty, hplain, ⟨rest, rfl⟩, hlast⟩ := h
  have hpath : ∀ b ∈ path, (b != 0) = true := by
    intro b hb
    rw [bne_iff_ne]
    rintro rfl
    exact hplain hb
  have hhead : (path ++ 0 :: rest).head? ≠ some 0 := by
    cases path with
    | nil => exact absurd rfl hnonempty
    | cons b bs => simpa using hpath b
  rw [pathOf?, if_pos ⟨hlast, hhead⟩, List.takeWhile_append_of_pos hpath]
  simp

theorem pathOf?_eq_some_iff {bytes path : List UInt8} :
    pathOf? bytes = some path ↔ Spells bytes path :=
  ⟨spells_of_pathOf?, pathOf?_of_spells⟩

/-- The file is in the first free run of pages that is long enough, with zeros after it. -/
structure GainsFile (map map' : MemoryMap) (addr : Address) (contents : List UInt8) : Prop where
  pages : PagesFor contents.length (pageRound contents.length)
  free : map.heap.FreeRun addr.toNat (pageRound contents.length)
  first (start : Nat) (h : map.heap.FreeRun start (pageRound contents.length)) :
    addr.toNat ≤ start
  block : ∃ before after bytes, map.heap.blocks = before ++ after ∧
    bytes.size = pageRound contents.length ∧
    map' = { map with heap :=
      { map.heap with blocks := before ++ ⟨addr, bytes, .ram⟩ :: after } }
  held (fc : FunctionCode) (access : Access) :
    (Memory.mapped map').view? addr (pageRound contents.length) fc access =
      some (contents ++ List.replicate (pageRound contents.length - contents.length) 0)
  others (x : Address)
    (h : x.toNat < addr.toNat ∨ addr.toNat + pageRound contents.length ≤ x.toNat) :
    (Memory.mapped map').byte? x = (Memory.mapped map).byte? x

variable {map : MemoryMap}

theorem gainsFile (h : map.Orderly) (hlimit : map.heap.limit < 0x100000000)
    {contents : List UInt8} {addr : Address} {heap : Heap}
    (halloc : map.heap.allocate? contents.length = some (addr, heap)) :
    (Memory.mapped { map with heap }).admits addr contents.length .supervisorData .write = true ∧
      GainsFile map (MemoryMap.patch { map with heap } addr contents) addr contents := by
  have hpages := pagesFor_pageRound contents.length
  have hpos := hpages.pos
  have hle := hpages.le
  have hplaced := (h.heap.wellFormed (Nat.le_of_lt hlimit)).allocate? contents.length
  rw [halloc] at hplaced
  obtain ⟨hfree, hfirst, before, after, hblocks, hheap⟩ := hplaced
  rw [Bank.size_zeros] at hfree hfirst
  obtain ⟨hbase, hwindow, -⟩ := (Heap.freeRun_iff hpos h.heap.apart.nonempty).mp hfree
  have hn : (UInt32.ofNat contents.length).toNat = contents.length :=
    UInt32.toNat_ofNat_of_lt' (by rw [UInt32.size]; omega)
  rw [← hn] at halloc
  have horderly := orderly_allocate? h halloc
  have hgains := gainsBlock h hlimit halloc
  rw [hn] at hgains
  subst hheap
  let s : Segment := ⟨addr, Bank.zeros (pageRound contents.length), .ram⟩
  let map₁ : MemoryMap := { map with heap := { map.heap with blocks := before ++ s :: after } }
  have hs : s ∈ map₁.segments := by simp [map₁, MemoryMap.segments]
  have hall : map₁.locate? addr (pageRound contents.length) = some s :=
    (horderly.locate?_eq_some_iff hpos).mpr ⟨hs, UInt32.le_refl _, Nat.le_refl _⟩
  have hstart : map₁.locate? addr contents.length = some s := MemoryMap.locate?_of_le hall hle
  refine ⟨?_, hpages, hfree, hfirst,
    ⟨before, after, (s.patch addr contents).bytes, hblocks, ?_, ?_⟩, ?_, ?_⟩
  · rw [Memory.admits_mapped, Option.isSome_iff_exists]
    exact ⟨s, MemoryMap.admit?_eq_some.mpr ⟨by omega, hstart, Protection.ram_allows _ _⟩⟩
  · simp [s, Segment.patch]
  · have hin : map₁.heap.contains addr = true :=
      Heap.contains_iff.mpr ⟨hbase, by change addr.toNat < map.heap.limit; omega⟩
    have hpatch : map₁.heap.blocks.patch s.base addr contents =
        before ++ s.patch addr contents :: after :=
      Segments.patch_eq horderly.heap.apart addr contents
    change MemoryMap.patch map₁ addr contents = _
    rw [MemoryMap.patch, hstart]
    simp only [hin, if_true, hpatch]
    rfl
  · intro fc access
    have hlocate : (map₁.patch addr contents).locate? addr (pageRound contents.length) =
        some (s.patch addr contents) := by
      rw [map₁.locate?_patch addr contents hstart, hall]
      simp
    have hadmit : (map₁.patch addr contents).admit? addr (pageRound contents.length) fc access =
        some (s.patch addr contents) :=
      MemoryMap.admit?_eq_some.mpr ⟨by omega, hlocate, Protection.ram_allows _ _⟩
    change (Memory.mapped (map₁.patch addr contents)).view? _ _ _ _ = _
    rw [Memory.view?, hadmit, Option.map_some, ← Bank.slice_write_zeros hle]
    simp only [Segment.slice, Segment.patch, Segment.offset, s, Nat.sub_self]
  · intro x hx
    rw [← hgains.others x hx]
    exact Memory.byte?_patch (.mapped map₁) addr contents x (by omega)

/-- A range is readable and spells a path. -/
def Names (map : MemoryMap) (addr : Address) (n : Nat) (path : List UInt8) : Prop :=
  ∃ bytes, (Memory.mapped map).view? addr n .userData .read = some bytes ∧ Spells bytes path

theorem Names.unique {addr : Address} {n : Nat} {path path' : List UInt8}
    (h : Names map addr n path) (h' : Names map addr n path') : path = path' := by
  obtain ⟨bytes, hview, hspells⟩ := h
  obtain ⟨bytes', hview', hspells'⟩ := h'
  rw [hview] at hview'
  cases hview'
  rw [← pathOf?_eq_some_iff] at hspells hspells'
  rw [hspells] at hspells'
  exact Option.some.inj hspells'

/-- What lets a load of these contents succeed. -/
structure Loadable (host : Host) (map : MemoryMap) (addr : Address) (n : Nat)
    (contents : List UInt8) : Prop where
  permitted : host.allowFileAccess = true
  named : ∃ path, Names map addr n path ∧ host.openFile path = .ok contents
  room : ∃ size start, PagesFor contents.length size ∧ map.heap.FreeRun start size

/-- The number by which programs know an error: that of the operating system where it comes from
there, else EPERM, EFAULT, EINVAL, ENOMEM or EIO. -/
inductive HasNumber : HostError → UInt32 → Prop
  | notPermitted : HasNumber .notPermitted 1
  | badAddress (addr : Address) (size : Nat) : HasNumber (.badAddress addr size) 14
  | vectorTable (vector : Nat) (addr : Address) : HasNumber (.vectorTable vector addr) 14
  | invalidPath : HasNumber .invalidPath 22
  | outOfMemory (size : Nat) : HasNumber (.outOfMemory size) 12
  | tooLarge : HasNumber .tooLarge 12
  | shortRead (expected actual : Nat) : HasNumber (.shortRead expected actual) 5
  | other (text : String) : HasNumber (.other text) 5
  | system (code : UInt32) : HasNumber (.system code) code

theorem hasNumber_errno (e : HostError) : HasNumber e e.errno := by
  cases e <;> constructor

/-- The error number of the first check of a load that fails, those before it having passed. -/
inductive FirstFailure (host : Host) (map : MemoryMap) (addr : Address) (n : Nat) : UInt32 → Prop
  | access (h : host.allowFileAccess = false) : FirstFailure host map addr n 1
  | range (permitted : host.allowFileAccess = true)
    (h : (Memory.mapped map).admits addr n .userData .read = false) :
    FirstFailure host map addr n 14
  | path (permitted : host.allowFileAccess = true)
    (readable : (Memory.mapped map).admits addr n .userData .read = true)
    (h : ∀ path, ¬Names map addr n path) :
    FirstFailure host map addr n 22
  | file {path : List UInt8} {e : HostError} {code : UInt32}
    (permitted : host.allowFileAccess = true) (named : Names map addr n path)
    (h : host.openFile path = .error e) (number : HasNumber e code) :
    FirstFailure host map addr n code
  | heap {path contents : List UInt8} (permitted : host.allowFileAccess = true)
    (named : Names map addr n path) (opened : host.openFile path = .ok contents)
    (h : ∀ size start, PagesFor contents.length size → ¬map.heap.FreeRun start size) :
    FirstFailure host map addr n 12

theorem FirstFailure.not_loadable {host : Host} {addr : Address} {n : Nat} {code : UInt32}
    (h : FirstFailure host map addr n code) (contents : List UInt8) :
    ¬Loadable host map addr n contents := by
  rintro ⟨hpermitted, ⟨path, hnamed, hopened⟩, size, start, hpages, hroom⟩
  cases h with
  | access h => simp [h] at hpermitted
  | range _ h =>
    obtain ⟨bytes, hview, -⟩ := hnamed
    simp [Memory.admits, hview] at h
  | path _ _ h => exact h path hnamed
  | file _ hnamed' h _ =>
    rw [hnamed.unique hnamed', h] at hopened
    cases hopened
  | heap _ hnamed' hopened' h =>
    rw [hnamed.unique hnamed', hopened'] at hopened
    cases hopened
    exact h size start hpages hroom

theorem modifyGet_eq_ok {α : Type} {g : Machine → α × Machine} {m m' : Machine} {a : α}
    (h : g m = (a, m')) : (modifyGet g : Service α) m = .ok a m' := by
  change (match g m with | (a, m) => EStateM.Result.ok a m) = _
  rw [h]

theorem readPath_cases (addr : Address) (n : Nat) {m : Machine} (hm : m.memory = .mapped map) :
    ∃ cycles,
      (Memory.mapped map).admits addr n .userData .read = false ∧
        readPath addr n m = .error (.badAddress addr n) { m with cycles } ∨
      (Memory.mapped map).admits addr n .userData .read = true ∧ (∀ path, ¬Names map addr n path) ∧
        readPath addr n m = .error .invalidPath { m with cycles } ∨
      ∃ path, Names map addr n path ∧ readPath addr n m = .ok path { m with cycles } := by
  refine ⟨m.cycle addr n .userData .read :: m.cycles, ?_⟩
  have hrequest : m.request addr n .userData .read =
      ((Memory.mapped map).view? addr n .userData .read,
        { m with cycles := m.cycle addr n .userData .read :: m.cycles }) := by
    rw [← hm]
    exact m.request_eq addr n .userData (by decide)
  have hfound := modifyGet_eq_ok (g := (·.request addr n .userData .read)) hrequest
  rw [readPath, Exec.bind_ok hfound]
  cases hview : (Memory.mapped map).view? addr n .userData .read with
  | none => exact .inl ⟨Memory.admits_eq_false_iff.mpr hview, rfl⟩
  | some bytes =>
    refine .inr ?_
    simp only
    cases hpath : pathOf? bytes with
    | none =>
      refine .inl ⟨Memory.admits_of_view? hview, ?_, rfl⟩
      rintro path ⟨bytes', hview', hspells⟩
      rw [hview] at hview'
      cases hview'
      rw [pathOf?_of_spells hspells] at hpath
      cases hpath
    | some path => exact .inr ⟨path, ⟨bytes, hview, spells_of_pathOf? hpath⟩, rfl⟩

theorem readFile_cases (host : Host) (path : List UInt8) (m : Machine) :
    (∃ e, host.openFile path = .error e ∧ readFile host path m = .error e m) ∨
      ∃ contents, host.openFile path = .ok contents ∧
        (0x100000000 ≤ contents.length ∧ readFile host path m = .error .tooLarge m ∨
          contents.length < 0x100000000 ∧ readFile host path m = .ok contents m) := by
  rw [readFile]
  cases hopen : host.openFile path with
  | error e => exact .inl ⟨e, rfl, rfl⟩
  | ok contents =>
    refine .inr ⟨contents, rfl, ?_⟩
    by_cases hlarge : 0x100000000 ≤ contents.length
    · simp only [hlarge, if_true]
      exact .inl ⟨trivial, rfl⟩
    · simp only [hlarge, if_false]
      exact .inr ⟨Nat.lt_of_not_le hlarge, rfl⟩

def place (contents : List UInt8) : Service (Address × Nat) := do
  let target ← allocate contents.length
  fill target contents
  pure (target, contents.length)

theorem loadFile_of_permitted {host : Host} (h : host.allowFileAccess = true) (addr : Address)
    (n : Nat) : loadFile host addr n = (do place (← readFile host (← readPath addr n))) := by
  simp only [loadFile, place, h, Bool.not_true, Bool.false_eq_true, if_false]

theorem place_cases (h : map.Orderly) (hlimit : map.heap.limit < 0x100000000) {m : Machine}
    (hm : m.memory = .mapped map) (contents : List UInt8) :
    (∀ size start, PagesFor contents.length size → ¬map.heap.FreeRun start size) ∧
        place contents m = .error (.outOfMemory contents.length) m ∨
      ∃ target map' cycles, GainsFile map map' target contents ∧ place contents m =
        .ok (target, contents.length) { m with memory := .mapped map', cycles } := by
  cases halloc : map.heap.allocate? contents.length with
  | none =>
    have hfull := (h.heap.wellFormed (Nat.le_of_lt hlimit)).allocate? contents.length
    rw [halloc] at hfull
    refine .inl ⟨?_, ?_⟩
    · rintro size start hpages
      rw [hpages.eq_pageRound]
      exact hfull start
    apply Exec.bind_error
    rw [allocate, hm, allocate?_mapped, halloc]
    rfl
  | some found =>
    obtain ⟨target, heap⟩ := found
    obtain ⟨hadmits, hgains⟩ := gainsFile h hlimit halloc
    have hallocate : allocate contents.length m =
        .ok target { m with memory := .mapped { map with heap } } := by
      rw [allocate, hm, allocate?_mapped, halloc]
      rfl
    have hstore := Machine.store_of_admits
      { m with memory := .mapped { map with heap } } target contents .supervisorData hadmits
    obtain ⟨cycles, hfill⟩ : ∃ cycles,
        fill target contents { m with memory := .mapped { map with heap } } = .ok () { m with
          memory := .mapped (MemoryMap.patch { map with heap } target contents), cycles } := by
      rw [fill, hstore]
      exact ⟨_, rfl⟩
    refine .inr ⟨target, _, cycles, hgains, ?_⟩
    rw [place, Exec.bind_ok hallocate, Exec.bind_ok hfill]
    rfl

theorem loadFile_cases (host : Host) (h : map.Orderly) (hlimit : map.heap.limit < 0x100000000)
    {m : Machine} (hm : m.memory = .mapped map) (addr : Address) (n : Nat) :
    (∃ e cycles, FirstFailure host map addr n e.errno ∧
        loadFile host addr n m = .error e { m with cycles }) ∨
      ∃ contents target map' cycles, Loadable host map addr n contents ∧
        GainsFile map map' target contents ∧ loadFile host addr n m =
          .ok (target, contents.length) { m with memory := .mapped map', cycles } := by
  cases hpermitted : host.allowFileAccess with
  | false =>
    refine .inl ⟨.notPermitted, m.cycles, .access hpermitted, ?_⟩
    simp only [loadFile, hpermitted, Bool.not_false, if_true]
    rfl
  | true =>
    rw [loadFile_of_permitted hpermitted]
    obtain ⟨cycles, ⟨hrange, hread⟩ | ⟨hrange, hnone, hread⟩ | ⟨path, hnamed, hread⟩⟩ :=
      readPath_cases addr n hm
    · exact .inl ⟨.badAddress addr n, cycles, .range hpermitted hrange, Exec.bind_error hread⟩
    · exact .inl ⟨.invalidPath, cycles, .path hpermitted hrange hnone, Exec.bind_error hread⟩
    rw [Exec.bind_ok hread]
    obtain ⟨e, hopen, hfile⟩ | ⟨contents, hopen, ⟨hlarge, hfile⟩ | ⟨-, hfile⟩⟩ :=
      readFile_cases host path { m with cycles }
    · exact .inl ⟨e, cycles, .file hpermitted hnamed hopen (hasNumber_errno e),
        Exec.bind_error hfile⟩
    · -- The window is smaller than the address space, and no run in it is longer.
      refine .inl ⟨.tooLarge, cycles, .heap hpermitted hnamed hopen ?_, Exec.bind_error hfile⟩
      intro size start hpages hrun
      obtain ⟨-, hpos, hle, -⟩ := hpages
      obtain ⟨-, hwindow, -⟩ := (Heap.freeRun_iff hpos h.heap.apart.nonempty).mp hrun
      omega
    rw [Exec.bind_ok hfile]
    obtain ⟨hfull, hplace⟩ | ⟨target, map', cycles', hgains, hplace⟩ :=
      place_cases (m := { m with cycles }) h hlimit hm contents
    · exact .inl ⟨.outOfMemory contents.length, cycles, .heap hpermitted hnamed hopen hfull, hplace⟩
    · exact .inr ⟨contents, target, map', cycles',
        ⟨hpermitted, ⟨path, hnamed, hopen⟩, _, _, hgains.pages, hgains.free⟩, hgains, hplace⟩

/-- After a load that succeeded: the address of the file in A0 and its size in D0. -/
structure Loaded (map : MemoryMap) (m m' : Machine) (contents : List UInt8) : Prop where
  size : (m'.regs.d .zero).toNat = contents.length
  regs : m'.regs = (m.regs.setA .zero (m'.regs.a .zero)).setD .zero (m'.regs.d .zero)
  memory : ∃ map', m'.memory = .mapped map' ∧ GainsFile map map' (m'.regs.a .zero) contents
  others : m' = { m with regs := m'.regs, memory := m'.memory, cycles := m'.cycles }

/-- After a load that failed: zero in A0 and an error number in D1. -/
structure Failed (m m' : Machine) (code : UInt32) : Prop where
  regs : m'.regs = (m.regs.setA .zero 0).setD .one code
  others : m' = { m with regs := m'.regs, cycles := m'.cycles }

theorem GainsFile.bounds {map' : MemoryMap} {addr : Address} {contents : List UInt8}
    (hgains : GainsFile map map' addr contents) (h : map.Orderly) (hbase : map.heap.base ≠ 0)
    (hlimit : map.heap.limit < 0x100000000) :
    addr ≠ 0 ∧ (UInt32.ofNat contents.length).toNat = contents.length := by
  obtain ⟨-, hpos, hle, -⟩ := hgains.pages
  obtain ⟨hstart, hwindow, -⟩ := (Heap.freeRun_iff hpos h.heap.apart.nonempty).mp hgains.free
  constructor
  · rintro rfl
    exact hbase (UInt32.toNat_inj.mp (Nat.le_zero.mp hstart))
  · exact UInt32.toNat_ofNat_of_lt' (by rw [UInt32.size]; omega)

/-- Load succeeds exactly where every check passes, with the lowest free pages in A0; else D1 has
the number of the first check that fails, and memory is as it was. -/
theorem load_contract (host : Host) {m : Machine} {map : MemoryMap} (hm : m.memory = .mapped map)
    (h : map.Reached) (hbase : map.heap.base ≠ 0)
    (hlimit : map.heap.limit ≤ callbackRegion.toNat) :
    let m' := ((table host).invoke HostCall.load.number m).2
    let addr := m.regs.a .zero
    let n := (m.regs.d .zero).toNat
    (m'.regs.a .zero ≠ 0 ↔ ∃ contents, Loadable host map addr n contents) ∧
      (m'.regs.a .zero ≠ 0 → ∃ contents, Loadable host map addr n contents ∧
        Loaded map m m' contents) ∧
      (m'.regs.a .zero = 0 → ∃ code, FirstFailure host map addr n code ∧ Failed m m' code) := by
  intro m' addr n
  have hm' : m' = (load host m).2 := by simp only [m', invoke_table, handler]
  have hlt : map.heap.limit < 0x100000000 := Nat.lt_of_le_of_lt hlimit (by decide)
  obtain ⟨e, cycles, hfails, hload⟩ | ⟨contents, target, map', cycles, hpasses, hgains, hload⟩ :=
    loadFile_cases host h.orderly hlt (m := modifyRegs m (·.setA .zero 0)) hm addr n
  · have hfailed : Failed m m' e.errno := by
      rw [hm', load, hload]
      exact ⟨rfl, rfl⟩
    have hzero : m'.regs.a .zero = 0 := by
      rw [hfailed.regs]
      exact Registers.a_setA_zero m.regs 0
    refine ⟨⟨fun hne => absurd hzero hne, ?_⟩, fun hne => absurd hzero hne, fun _ => ?_⟩
    · rintro ⟨contents, hpasses⟩
      exact absurd hpasses (hfails.not_loadable contents)
    · exact ⟨e.errno, hfails, hfailed⟩
  · obtain ⟨hne, hsize⟩ := hgains.bounds h.orderly hbase hlt
    have hregs : m'.regs =
        (m.regs.setA .zero target).setD .zero (UInt32.ofNat contents.length) := by
      rw [hm', load, hload, ← Registers.setA_setA m.regs .zero 0 target]
      rfl
    have ha : m'.regs.a .zero = target := by
      rw [hregs]
      exact Registers.a_setA_zero m.regs target
    have hd : m'.regs.d .zero = UInt32.ofNat contents.length := by
      rw [hregs]
      exact Registers.d_setD_self _ _ _
    have hloaded : Loaded map m m' contents := by
      refine ⟨by rw [hd, hsize], by rw [ha, hd, hregs], ⟨map', ?_, by rwa [ha]⟩, ?_⟩
      · rw [hm', load, hload]
        rfl
      · rw [hm', load, hload]
        rfl
    refine ⟨⟨fun _ => ⟨contents, hpasses⟩, fun _ => by rwa [ha]⟩, ?_, ?_⟩
    · exact fun _ => ⟨contents, hpasses, hloaded⟩
    · exact fun hzero => absurd (ha.symm.trans hzero) hne

/-- There is a file of three bytes that is named `a`, and none that is named `b`. -/
theorem load_contract_file :
    let host : Host := ⟨true, fun path => if path = [0x61] then .ok [1, 2, 3] else
      .error (.system 2)⟩
    let map := (MemoryMap.withHeap (Heap.new 0x40000000 0x01000000)).run
      [.map 0x1000 (Bank.zeros 8) .ram, .load 0x1000 [0x61, 0, 0x62, 0]]
    let found : Machine := { Machine.new .m68000 (.mapped map) with
      regs := (Registers.initial.setA .zero 0x1000).setD .zero 4 }
    let missing : Machine := { Machine.new .m68000 (.mapped map) with
      regs := (Registers.initial.setA .zero 0x1002).setD .zero 2 }
    let found' := ((table host).invoke HostCall.load.number found).2
    let missing' := ((table host).invoke HostCall.load.number missing).2
    found'.regs.a .zero = 0x40000000 ∧ Loaded map found found' [1, 2, 3] ∧
      missing'.regs.a .zero = 0 ∧ Failed missing missing' 2 := by
  intro host map found missing found' missing'
  have haddr : found'.regs.a .zero = 0x40000000 := by decide +kernel
  have hzero : missing'.regs.a .zero = 0 := by decide +kernel
  have hcode : missing'.regs.d .one = 2 := by decide +kernel
  have hreached : map.Reached := ⟨0x40000000, 0x01000000, _, _, .withHeap, rfl⟩
  obtain ⟨-, hsuccess, -⟩ := load_contract host (m := found) rfl hreached (by decide) (by decide)
  obtain ⟨-, -, hfailure⟩ := load_contract host (m := missing) rfl hreached (by decide) (by decide)
  obtain ⟨contents, ⟨-, ⟨path, -, hopened⟩, -⟩, hloaded⟩ := hsuccess (by rw [haddr]; decide)
  obtain ⟨code, -, hfailed⟩ := hfailure hzero
  refine ⟨haddr, ?_, hzero, ?_⟩
  · simp only [host] at hopened
    split at hopened
    · cases hopened
      exact hloaded
    · cases hopened
  · have hsame : missing'.regs.d .one = code := by
      rw [hfailed.regs]
      exact Registers.d_setD_self _ _ _
    rw [← hcode, hsame]
    exact hfailed

end Host

end Mc68k
