import Mc68k.Proofs.Memory.Access
import Mc68k.Proofs.Memory.CallbackRegion

namespace Mc68k

theorem Heap.contains_iff {heap : Heap} {addr : Address} :
    heap.contains addr = true ↔ heap.base.toNat ≤ addr.toNat ∧ addr.toNat < heap.limit := by
  rw [contains, Bool.and_eq_true, decide_eq_true_eq, decide_eq_true_eq, UInt32.le_iff_toNat_le]

/-- A segment has `n` addresses from `addr` on, and at each of them the byte of the list. -/
structure Segment.Holds (s : Segment) (addr : Address) (n : Nat) (bytes : List UInt8) : Prop where
  base : s.base ≤ addr
  limit : addr.toNat + n ≤ s.limit
  length : bytes.length = n
  byte (i : Nat) (hi : i < n) : bytes[i]? = some (s.bytes.get (addr.toNat + i - s.base.toNat))

theorem Segment.holds_iff {s : Segment} {addr : Address} {n : Nat} {bytes : List UInt8} :
    s.Holds addr n bytes ↔ s.base ≤ addr ∧ addr.toNat + n ≤ s.limit ∧ s.slice addr n = bytes := by
  have hbyte (hbase : s.base ≤ addr) (i : Nat) (hi : i < n) :
      (s.slice addr n)[i]? = some (s.bytes.get (addr.toNat + i - s.base.toNat)) := by
    rw [UInt32.le_iff_toNat_le] at hbase
    have hplace : addr.toNat + i - s.base.toNat = addr.toNat - s.base.toNat + i := by omega
    simp [slice, Bank.slice, offset, hi, hplace]
  constructor
  · rintro ⟨hbase, hlimit, rfl, hbytes⟩
    refine ⟨hbase, hlimit, List.ext_getElem? fun i => ?_⟩
    by_cases hi : i < bytes.length
    · rw [hbyte hbase i hi, hbytes i hi]
    · rw [List.getElem?_eq_none (by simpa using hi), List.getElem?_eq_none (by omega)]
  · rintro ⟨hbase, hlimit, rfl⟩
    exact ⟨hbase, hlimit, s.length_slice addr n, hbyte hbase⟩

namespace MemoryMap

def segments (m : MemoryMap) : Segments := m.regions ++ m.heap.blocks

theorem Orderly.locate?_eq_some_iff {m : MemoryMap} (h : m.Orderly) {addr : Address} {n : Nat}
    {s : Segment} (hn : 0 < n) : m.locate? addr n = some s ↔
      s ∈ m.segments ∧ s.base ≤ addr ∧ addr.toNat + n ≤ s.limit := by
  rw [locate?, segments, List.mem_append]
  -- In the window lies no region, and outside it no block.
  split
  · next hwindow =>
    rw [Heap.contains_iff] at hwindow
    rw [h.heap.apart.locate?_eq_some_iff hn]
    constructor
    · rintro ⟨hs, hrange⟩
      exact ⟨.inr hs, hrange⟩
    · rintro ⟨hs | hs, hbase, hlimit⟩
      · have := h.outside s hs
        rw [UInt32.le_iff_toNat_le] at hbase
        omega
      · exact ⟨hs, hbase, hlimit⟩
  · next hwindow =>
    rw [Heap.contains_iff] at hwindow
    rw [h.apart.locate?_eq_some_iff hn]
    constructor
    · rintro ⟨hs, hrange⟩
      exact ⟨.inl hs, hrange⟩
    · rintro ⟨hs | hs, hbase, hlimit⟩
      · exact ⟨hs, hbase, hlimit⟩
      · have := h.heap.inside s hs
        rw [UInt32.le_iff_toNat_le] at hbase
        omega

theorem Orderly.admit?_eq_some_iff {m : MemoryMap} (h : m.Orderly) {addr : Address} {n : Nat}
    {fc : FunctionCode} {access : Access} {s : Segment} (hn : 0 < n) :
    m.admit? addr n fc access = some s ↔ addr.toNat + n < 0x100000000 ∧
      (s ∈ m.segments ∧ s.base ≤ addr ∧ addr.toNat + n ≤ s.limit) ∧
      s.protection.allows fc access = true := by
  rw [admit?_eq_some, h.locate?_eq_some_iff hn]

theorem Orderly.locate?_eq_of_outside {m m' : MemoryMap} (h : m.Orderly) (h' : m'.Orderly)
    {s : Segment} (hmem : ∀ t, t ∈ m'.segments ↔ t = s ∨ t ∈ m.segments) {x : Address}
    (hx : x.toNat < s.base.toNat ∨ s.limit ≤ x.toNat) : m'.locate? x 1 = m.locate? x 1 := by
  apply Option.ext
  intro t
  rw [h'.locate?_eq_some_iff Nat.one_pos, h.locate?_eq_some_iff Nat.one_pos, hmem]
  constructor
  · rintro ⟨rfl | ht, hle, hlt⟩
    · rw [UInt32.le_iff_toNat_le] at hle
      omega
    · exact ⟨ht, hle, hlt⟩
  · rintro ⟨ht, hrange⟩
    exact ⟨.inr ht, hrange⟩

end MemoryMap

namespace Heap

def Open (heap : Heap) : Prop := ∀ s ∈ heap.blocks, s.protection = .ram

theorem Open.served {heap heap' : Heap} (h : heap.Open) (hserved : Served heap heap') :
    heap'.Open := by
  cases hserved with
  | unchanged => exact h
  | placed addr bytes =>
    intro s hs
    rcases Segments.mem_insert.mp hs with rfl | hs
    · rfl
    · exact h s hs
  | erased addr => exact fun s hs => h s (List.mem_of_mem_eraseP hs)
  | patched base addr bytes =>
    intro s hs
    obtain ⟨s', hs', rfl⟩ := List.mem_map.mp hs
    split
    · exact h s' hs'
    · exact h s' hs'

theorem open_run {heap : Heap} (h : heap.Open) (requests : List Request) :
    (heap.run requests).Open := by
  induction requests generalizing heap with
  | nil => exact h
  | cons request requests ih => exact ih (h.served (heap.served_serve request))

end Heap

namespace MemoryMap

theorem heap_patch (m : MemoryMap) (addr : Address) (bytes : List UInt8) :
    ∃ requests, (m.patch addr bytes).heap = m.heap.run requests := by
  cases hwindow : m.heap.contains addr with
  | true =>
    refine ⟨[.write addr bytes], ?_⟩
    rw [m.patch_of_contains addr bytes hwindow]
    rfl
  | false =>
    refine ⟨[], ?_⟩
    rw [patch]
    cases m.locate? addr bytes.length with
    | none => rfl
    | some s => simp [hwindow, Heap.run]

theorem heap_serve (m : MemoryMap) (request : Request) :
    ∃ requests, (m.serve request).heap = m.heap.run requests := by
  cases request with
  | map base bytes protection =>
    refine ⟨[], ?_⟩
    rw [serve]
    cases hmap : m.map base bytes protection with
    | error e => rfl
    | ok m' =>
      obtain ⟨-, -, -, -, rfl⟩ := map_eq_ok hmap
      rfl
  | unmap base =>
    refine ⟨[], ?_⟩
    rw [serve, unmap?]
    cases m.regions.at? base <;> rfl
  | load addr bytes =>
    rw [serve, load]
    cases m.locate? addr bytes.length with
    | none => exact ⟨[], rfl⟩
    | some s => exact m.heap_patch addr bytes
  | heap request => exact ⟨[request], rfl⟩
  | translate addr n fc access =>
    refine ⟨[], ?_⟩
    simp only [serve, MemoryMap.request]
    split <;> rfl
  | write addr bytes fc access =>
    have hrequest : (m.request addr bytes.length fc access).2.heap = m.heap := by
      simp only [MemoryMap.request]
      split <;> rfl
    simp only [serve]
    split
    · rw [← hrequest]
      exact heap_patch _ addr bytes
    · exact ⟨[], hrequest⟩
  | takeUpdates => exact ⟨[], rfl⟩

theorem open_run {m : MemoryMap} (h : m.heap.Open) (requests : List Request) :
    (m.run requests).heap.Open := by
  induction requests generalizing m with
  | nil => exact h
  | cons request requests ih =>
    obtain ⟨heapRequests, hheap⟩ := m.heap_serve request
    apply ih
    rw [hheap]
    exact Heap.open_run h heapRequests

def takeUpdates (m : MemoryMap) : List (Address × Address) × MemoryMap :=
  (m.updates, { m with updates := [] })

/-- The range that a request updates, if it does. -/
def updatesOf (m : MemoryMap) : Request → List (Address × Address)
  | .translate addr n fc .update =>
    if (m.request addr n fc .update).1.isSome then [(addr, addr + UInt32.ofNat n)] else []
  | .write addr bytes fc .update =>
    if (m.request addr bytes.length fc .update).1.isSome then
      [(addr, addr + UInt32.ofNat bytes.length)]
    else []
  | _ => []

def updatesOfRun (m : MemoryMap) : List Request → List (Address × Address)
  | [] => []
  | request :: requests => m.updatesOf request ++ (m.serve request).updatesOfRun requests

theorem updates_patch (m : MemoryMap) (addr : Address) (bytes : List UInt8) :
    (m.patch addr bytes).updates = m.updates := by
  rw [patch]
  cases m.locate? addr bytes.length with
  | none => rfl
  | some s =>
    simp only
    split <;> rfl

theorem updates_request (m : MemoryMap) (addr : Address) (n : Nat) (fc : FunctionCode)
    (access : Access) : (m.request addr n fc access).2.updates =
      m.updates ++ m.updatesOf (.translate addr n fc access) := by
  cases access with
  | read => simp [request, updatesOf]
  | write => simp [request, updatesOf]
  | update =>
    simp only [request, updatesOf, beq_self_eq_true, Bool.and_true]
    split
    · rfl
    · exact (List.append_nil _).symm

theorem updates_serve (m : MemoryMap) {request : Request} (h : request ≠ .takeUpdates) :
    (m.serve request).updates = m.updates ++ m.updatesOf request := by
  cases request with
  | map base bytes protection =>
    rw [serve, updatesOf, List.append_nil]
    · cases hmap : m.map base bytes protection with
      | error e => rfl
      | ok m' =>
        obtain ⟨-, -, -, -, rfl⟩ := map_eq_ok hmap
        rfl
    all_goals simp
  | unmap base =>
    rw [serve, unmap?]
    cases m.regions.at? base <;> exact (List.append_nil _).symm
  | load addr bytes =>
    rw [serve, load]
    cases m.locate? addr bytes.length with
    | none => exact (List.append_nil _).symm
    | some s => exact (m.updates_patch addr bytes).trans (List.append_nil _).symm
  | heap request => exact (List.append_nil _).symm
  | translate addr n fc access => exact m.updates_request addr n fc access
  | write addr bytes fc access =>
    have hrequest := m.updates_request addr bytes.length fc access
    have hsame : m.updatesOf (.translate addr bytes.length fc access) =
        m.updatesOf (.write addr bytes fc access) := by cases access <;> rfl
    simp only [serve]
    split
    · rw [updates_patch, hrequest, hsame]
    · rw [hrequest, hsame]
  | takeUpdates => exact absurd rfl h

/-- Until it is taken, the log only grows, by the updates that succeed. -/
theorem updates_run (m : MemoryMap) (requests : List Request) (h : .takeUpdates ∉ requests) :
    (m.run requests).updates = m.updates ++ m.updatesOfRun requests := by
  induction requests generalizing m with
  | nil => exact (List.append_nil _).symm
  | cons request requests ih =>
    obtain ⟨hne, hrest⟩ := not_or.mp (List.mem_cons.not.mp h)
    have hserve := m.updates_serve fun heq => hne heq.symm
    change ((m.serve request).run requests).updates = _
    rw [ih _ hrest, hserve, updatesOfRun, List.append_assoc]

theorem run_append (m : MemoryMap) (before after : List Request) :
    m.run (before ++ after) = (m.run before).run after :=
  List.foldl_append

theorem Starts.keepsOrder {base : Address} {size : UInt32} {m : MemoryMap}
    (h : Starts base size m) : KeepsOrder (MemoryMap.withHeap (Heap.new base size)) m ∧
      m.heap = Heap.new base size ∧ m.updates = [] := by
  cases h with
  | withHeap => exact ⟨.refl _, rfl, rfl⟩
  | new h => exact keepsOrder_new h

theorem Starts.orderly_run {base : Address} {size : UInt32} {m : MemoryMap}
    (h : Starts base size m) (requests : List Request) : (m.run requests).Orderly :=
  (h.keepsOrder.1.trans (.run m requests)).1 (orderly_withHeap base size)

theorem Starts.open_run {base : Address} {size : UInt32} {m : MemoryMap}
    (h : Starts base size m) (requests : List Request) : (m.run requests).heap.Open := by
  apply MemoryMap.open_run
  rw [h.keepsOrder.2.1]
  exact fun _ hs => absurd hs List.not_mem_nil

theorem Starts.window_run {base : Address} {size : UInt32} {m : MemoryMap}
    (h : Starts base size m) (requests : List Request) :
    (m.run requests).heap.base = (Heap.new base size).base ∧
      (m.run requests).heap.size = (Heap.new base size).size :=
  (h.keepsOrder.1.trans (.run m requests)).2

/-- A map whose next translation is right, whatever it asks for. -/
structure Exact (m : MemoryMap) : Prop where
  ordered : m.regions.Pairwise fun s t => s.limit ≤ t.base.toNat
  regions : ∀ s ∈ m.regions, 0 < s.bytes.size ∧ s.limit ≤ callbackRegion.toNat ∧
    (s.limit ≤ m.heap.base.toNat ∨ m.heap.limit ≤ s.base.toNat)
  found (addr : Address) (n : Nat) (fc : FunctionCode) (access : Access) (bytes : List UInt8)
    (hn : 0 < n) : (m.request addr n fc access).1 = some bytes ↔
      (∃ s ∈ m.regions, s.protection.allows fc access = true ∧ s.Holds addr n bytes) ∨
      ∃ s ∈ m.heap.blocks, s.Holds addr n bytes
  effect (addr : Address) (n : Nat) (fc : FunctionCode) (access : Access) :
    (m.request addr n fc access).2 =
      if (m.request addr n fc access).1.isSome ∧ access = .update then
        { m with updates := m.updates ++ [(addr, addr + UInt32.ofNat n)] }
      else m

/-- Below the callback region nothing reaches the end of the address space. -/
theorem Orderly.exact {m : MemoryMap} (h : m.Orderly) (hopen : m.heap.Open)
    (hwindow : m.heap.limit ≤ callbackRegion.toNat) : Exact m where
  ordered := h.apart.ordered
  regions s hs := ⟨h.apart.nonempty s hs, h.below s hs, h.outside s hs⟩
  found addr n fc access bytes hn := by
    have hregion : callbackRegion.toNat < 0x100000000 := by decide
    simp only [request, Option.map_eq_some_iff, h.admit?_eq_some_iff hn, segments, List.mem_append,
      Segment.holds_iff]
    constructor
    · rintro ⟨s, ⟨-, ⟨hs | hs, hbase, hlimit⟩, hallows⟩, hslice⟩
      · exact .inl ⟨s, hs, hallows, hbase, hlimit, hslice⟩
      · exact .inr ⟨s, hs, hbase, hlimit, hslice⟩
    · rintro (⟨s, hs, hallows, hbase, hlimit, hslice⟩ | ⟨s, hs, hbase, hlimit, hslice⟩)
      · have := h.below s hs
        exact ⟨s, ⟨by omega, ⟨.inl hs, hbase, hlimit⟩, hallows⟩, hslice⟩
      · have := (h.heap.inside s hs).2
        have hallows : s.protection.allows fc access = true := by
          rw [hopen s hs]
          exact Protection.ram_allows fc access
        exact ⟨s, ⟨by omega, ⟨.inr hs, hbase, hlimit⟩, hallows⟩, hslice⟩
  effect addr n fc access := by
    simp only [request, Bool.and_eq_true, beq_iff_eq]
    rfl

/-- Translation is exact after any requests to a map whose heap window ends below the callback
region; what is taken from the log is the updates since it was last taken. -/
theorem exact_run {base : Address} {size : UInt32} {m : MemoryMap} (h : Starts base size m)
    (hwindow : (Heap.new base size).limit ≤ callbackRegion.toNat) (requests : List Request) :
    Exact (m.run requests) ∧
      ∀ before after, requests = before ++ after → (∀ r ∈ before.getLast?, r = .takeUpdates) →
        .takeUpdates ∉ after →
        (m.run requests).takeUpdates.1 = (m.run before).updatesOfRun after := by
  refine ⟨?_, ?_⟩
  · apply (h.orderly_run requests).exact (h.open_run requests)
    rw [Heap.limit, (h.window_run requests).1, (h.window_run requests).2]
    exact hwindow
  · rintro before after rfl hdrained hafter
    -- The log was empty at the start and after each time that it was taken.
    have hempty : (m.run before).updates = [] := by
      cases hlast : before.getLast? with
      | none =>
        rw [List.getLast?_eq_none_iff.mp hlast]
        exact h.keepsOrder.2.2
      | some last =>
        obtain ⟨init, rfl⟩ := List.getLast?_eq_some_iff.mp hlast
        rw [hdrained last hlast, run_append]
        rfl
    rw [takeUpdates, run_append, updates_run _ after hafter, hempty, List.nil_append]

/-- Two regions that touch, and a block: a range that crosses from one region into the other is not
found. -/
theorem exact_run_adjacent :
    let m := (MemoryMap.withHeap (Heap.new 0x3000 0x1000)).run
      [.map 0x1004 (Bank.ofList [5, 6]) .supervisorRam, .map 0x1000 (Bank.ofList [1, 2, 3, 4]) .ram,
        .heap (.allocate 1), .write 0x3FFE [7, 8] .userData .write, .load 0x1005 [9],
        .translate 0x1000 2 .userData .update, .takeUpdates,
        .translate 0x1002 2 .userData .update, .translate 0x1002 4 .userData .update]
    Exact m ∧ (m.request 0x1001 3 .userData .read).1 = some [2, 3, 4] ∧
      (m.request 0x1004 2 .supervisorData .read).1 = some [5, 9] ∧
      (m.request 0x1004 2 .userData .read).1 = none ∧
      (m.request 0x1002 4 .supervisorData .read).1 = none ∧
      (m.request 0x3FFD 3 .userData .read).1 = some [0, 7, 8] ∧
      m.takeUpdates.1 = [(0x1002, 0x1004)] := by
  intro m
  obtain ⟨hexact, hlog⟩ := exact_run (.withHeap : Starts 0x3000 0x1000 _) (by decide)
    [.map 0x1004 (Bank.ofList [5, 6]) .supervisorRam, .map 0x1000 (Bank.ofList [1, 2, 3, 4]) .ram,
      .heap (.allocate 1), .write 0x3FFE [7, 8] .userData .write, .load 0x1005 [9],
      .translate 0x1000 2 .userData .update, .takeUpdates,
      .translate 0x1002 2 .userData .update, .translate 0x1002 4 .userData .update]
  refine ⟨hexact, by decide +kernel, by decide +kernel, by decide +kernel, by decide +kernel,
    by decide +kernel, ?_⟩
  rw [hlog (_ :: _ :: _ :: _ :: _ :: _ :: [.takeUpdates]) _ rfl (by simp) (by simp)]
  decide +kernel

end MemoryMap

end Mc68k
