import Mc68k.Memory.Basic
import Mc68k.Proofs.Memory.HeapRun

namespace Mc68k

namespace MemoryMap

def request (m : MemoryMap) (addr : Address) (n : Nat) (fc : FunctionCode) (access : Access) :
    Option (List UInt8) × MemoryMap :=
  let found := (m.admit? addr n fc access).map (·.slice addr n)
  (found, if found.isSome && access == .update then m.noteUpdate addr n else m)

theorem request_mapped (m : MemoryMap) (addr : Address) (n : Nat) (fc : FunctionCode)
    (access : Access) : (Memory.mapped m).request addr n fc access =
      ((m.request addr n fc access).1, .mapped (m.request addr n fc access).2) := by
  simp only [Memory.request, Memory.view?, Memory.noteUpdate, request]
  exact Prod.ext rfl (apply_ite Memory.mapped _ _ _).symm

inductive Request where
  | map (base : Address) (bytes : Bank) (protection : Protection)
  | unmap (base : Address)
  | load (addr : Address) (bytes : List UInt8)
  | heap (request : Heap.Request)
  | translate (addr : Address) (n : Nat) (fc : FunctionCode) (access : Access)
  /-- A write of all the bytes of a range that was found. -/
  | write (addr : Address) (bytes : List UInt8) (fc : FunctionCode) (access : Access)
  | takeUpdates

/-- The map after a request; one that is turned down leaves it as it was. -/
def serve (m : MemoryMap) : Request → MemoryMap
  | .map base bytes protection => ((m.map base bytes protection).toOption).getD m
  | .unmap base => ((m.unmap? base).map (·.2)).getD m
  | .load addr bytes => ((m.load addr bytes).toOption).getD m
  | .heap request => { m with heap := m.heap.serve request }
  | .translate addr n fc access => (m.request addr n fc access).2
  | .write addr bytes fc access =>
    let (found, m) := m.request addr bytes.length fc access
    if found.isSome then m.patch addr bytes else m
  | .takeUpdates => { m with updates := [] }

def run (m : MemoryMap) (requests : List Request) : MemoryMap := requests.foldl serve m

/-- Regions apart, out of the heap window and below the callback region, and an orderly heap. -/
structure Orderly (m : MemoryMap) : Prop where
  heap : m.heap.Orderly
  apart : Segments.Apart m.regions
  below : ∀ s ∈ m.regions, s.limit ≤ callbackRegion.toNat
  outside : ∀ s ∈ m.regions, s.limit ≤ m.heap.base.toNat ∨ m.heap.limit ≤ s.base.toNat

structure WellFormed (m : MemoryMap) : Prop extends Orderly m where
  limit : m.heap.limit ≤ 0x100000000

def SameWindow (m m' : MemoryMap) : Prop :=
  m'.heap.base = m.heap.base ∧ m'.heap.size = m.heap.size

/-- What a request must not break. -/
def KeepsOrder (m m' : MemoryMap) : Prop := (m.Orderly → m'.Orderly) ∧ SameWindow m m'

def Keeps (m m' : MemoryMap) : Prop := (m.WellFormed → m'.WellFormed) ∧ SameWindow m m'

theorem KeepsOrder.keeps {m m' : MemoryMap} (h : KeepsOrder m m') : Keeps m m' := by
  refine ⟨fun hm => ⟨h.1 hm.toOrderly, ?_⟩, h.2⟩
  rw [Heap.limit, h.2.1, h.2.2]
  exact hm.limit

theorem map_eq_ok {m m' : MemoryMap} {base : Address} {bytes : Bank} {protection : Protection}
    (h : m.map base bytes protection = .ok m') :
    0 < bytes.size ∧ base.toNat + bytes.size ≤ callbackRegion.toNat ∧
      (base.toNat + bytes.size ≤ m.heap.base.toNat ∨ m.heap.limit ≤ base.toNat) ∧
      (∀ s ∈ m.regions, s.limit ≤ base.toNat ∨ base.toNat + bytes.size ≤ s.base.toNat) ∧
      m' = { m with regions := m.regions.insert ⟨base, bytes, protection⟩ } := by
  simp only [MemoryMap.map] at h
  split at h
  · cases h
  next hempty =>
  split at h
  · cases h
  split at h
  · cases h
  next hcallback =>
  split at h
  · cases h
  next hwindow =>
  cases hfind : m.regions.find? (overlaps base.toNat (base.toNat + bytes.size)) with
  | some other =>
    rw [hfind] at h
    cases h
  | none =>
    rw [hfind] at h
    refine ⟨by omega, by omega, by omega, ?_, (Except.ok.inj h).symm⟩
    intro s hs
    have hno := List.find?_eq_none.mp hfind s hs
    simp only [overlaps, Bool.and_eq_true, decide_eq_true_eq] at hno
    omega

namespace KeepsOrder

theorem refl (m : MemoryMap) : KeepsOrder m m := ⟨id, rfl, rfl⟩

theorem trans {m m' m'' : MemoryMap} (h : KeepsOrder m m') (h' : KeepsOrder m' m'') :
    KeepsOrder m m'' :=
  ⟨h'.1 ∘ h.1, h'.2.1.trans h.2.1, h'.2.2.trans h.2.2⟩

theorem map {m m' : MemoryMap} {base : Address} {bytes : Bank} {protection : Protection}
    (h : m.map base bytes protection = .ok m') : KeepsOrder m m' := by
  obtain ⟨hnew, hbelow, hwindow, hfree, rfl⟩ := map_eq_ok h
  refine ⟨fun hm => ⟨hm.heap, hm.apart.insert hnew hfree, ?_, ?_⟩, rfl, rfl⟩
  · intro s hs
    rcases Segments.mem_insert.mp hs with rfl | hs
    · exact hbelow
    · exact hm.below s hs
  · intro s hs
    rcases Segments.mem_insert.mp hs with rfl | hs
    · exact hwindow
    · exact hm.outside s hs

theorem erase (m : MemoryMap) (base : Address) :
    KeepsOrder m { m with regions := m.regions.erase base } := by
  refine ⟨fun hm => ⟨hm.heap, hm.apart.erase base, ?_, ?_⟩, rfl, rfl⟩
  · exact fun s hs => hm.below s (List.mem_of_mem_eraseP hs)
  · exact fun s hs => hm.outside s (List.mem_of_mem_eraseP hs)

theorem patch (m : MemoryMap) (addr : Address) (bytes : List UInt8) :
    KeepsOrder m (m.patch addr bytes) := by
  rw [MemoryMap.patch]
  cases m.locate? addr bytes.length with
  | none => exact refl m
  | some s =>
    simp only
    split
    · exact ⟨fun hm => ⟨hm.heap.patch _ _ _, hm.apart, hm.below, hm.outside⟩, rfl, rfl⟩
    · refine ⟨fun hm => ⟨hm.heap, hm.apart.patch _ _ _, ?_, ?_⟩, rfl, rfl⟩
      · intro t ht
        obtain ⟨t', ht', -, -, hlimit⟩ := Segments.exists_of_mem_patch ht
        rw [← hlimit]
        exact hm.below t' ht'
      · intro t ht
        obtain ⟨t', ht', hbase, -, hlimit⟩ := Segments.exists_of_mem_patch ht
        rw [← hbase, ← hlimit]
        exact hm.outside t' ht'

theorem heap (m : MemoryMap) (request : Heap.Request) :
    KeepsOrder m { m with heap := m.heap.serve request } := by
  obtain ⟨hbase, hsize⟩ := m.heap.serve_window request
  refine ⟨fun hm => ⟨hm.heap.serve request, hm.apart, hm.below, ?_⟩, hbase, hsize⟩
  intro s hs
  rw [Heap.limit, hbase, hsize]
  exact hm.outside s hs

theorem request (m : MemoryMap) (addr : Address) (n : Nat) (fc : FunctionCode)
    (access : Access) : KeepsOrder m (m.request addr n fc access).2 := by
  simp only [MemoryMap.request]
  split
  · exact ⟨fun hm => ⟨hm.heap, hm.apart, hm.below, hm.outside⟩, rfl, rfl⟩
  · exact refl m

theorem serve (m : MemoryMap) (request : Request) : KeepsOrder m (m.serve request) := by
  cases request with
  | map base bytes protection =>
    rw [MemoryMap.serve]
    cases hmap : m.map base bytes protection with
    | error e => exact refl m
    | ok m' => exact map hmap
  | unmap base =>
    rw [MemoryMap.serve, unmap?]
    cases m.regions.at? base with
    | none => exact refl m
    | some s => exact erase m base
  | load addr bytes =>
    rw [MemoryMap.serve, MemoryMap.load]
    cases m.locate? addr bytes.length with
    | none => exact refl m
    | some s => exact patch m addr bytes
  | heap request => exact heap m request
  | translate addr n fc access => exact KeepsOrder.request m addr n fc access
  | write addr bytes fc access =>
    have hrequest := KeepsOrder.request m addr bytes.length fc access
    simp only [MemoryMap.serve]
    split
    · exact hrequest.trans (patch _ addr bytes)
    · exact hrequest
  | takeUpdates => exact ⟨fun hm => ⟨hm.heap, hm.apart, hm.below, hm.outside⟩, rfl, rfl⟩

theorem run (m : MemoryMap) (requests : List Request) : KeepsOrder m (m.run requests) := by
  induction requests generalizing m with
  | nil => exact refl m
  | cons request requests ih => exact (serve m request).trans (ih (m.serve request))

end KeepsOrder

theorem Keeps.refl (m : MemoryMap) : Keeps m m := (KeepsOrder.refl m).keeps

theorem Keeps.trans {m m' m'' : MemoryMap} (h : Keeps m m') (h' : Keeps m' m'') : Keeps m m'' :=
  ⟨h'.1 ∘ h.1, h'.2.1.trans h.2.1, h'.2.2.trans h.2.2⟩

theorem Keeps.run (m : MemoryMap) (requests : List Request) : Keeps m (m.run requests) :=
  (KeepsOrder.run m requests).keeps

theorem orderly_withHeap (base : Address) (size : UInt32) :
    (withHeap (Heap.new base size)).Orderly :=
  ⟨Heap.orderly_new base size, .nil, fun _ hs => absurd hs List.not_mem_nil,
    fun _ hs => absurd hs List.not_mem_nil⟩

theorem wellFormed_withHeap {base : Address} {size : UInt32}
    (h : (Heap.new base size).limit ≤ 0x100000000) : (withHeap (Heap.new base size)).WellFormed :=
  ⟨orderly_withHeap base size, h⟩

theorem keepsOrder_mapZeros {m m' : MemoryMap} {base : Address} {size : UInt32}
    {protection : Protection} (h : m.mapZeros base size protection = .ok m') :
    KeepsOrder m m' ∧ m'.heap = m.heap ∧ m'.updates = m.updates := by
  rw [mapZeros] at h
  split at h
  · obtain rfl := Except.ok.inj h
    exact ⟨.refl m, rfl, rfl⟩
  · obtain ⟨-, -, -, -, hm⟩ := map_eq_ok h
    exact ⟨.map h, by rw [hm], by rw [hm]⟩

theorem keepsOrder_new {layout : Layout} {m : MemoryMap} (h : new layout = .ok m) :
    KeepsOrder (withHeap (Heap.new layout.heapBase layout.heapSize)) m ∧
      m.heap = Heap.new layout.heapBase layout.heapSize ∧ m.updates = [] := by
  simp only [new] at h
  split at h
  · cases h
  · cases hsupervisor : (withHeap (Heap.new layout.heapBase layout.heapSize)).mapZeros 0
        layout.supervisorLimit .supervisorRam with
    | error e =>
      rw [hsupervisor] at h
      cases h
    | ok m₁ =>
      rw [hsupervisor] at h
      obtain ⟨hkeeps₁, hheap₁, hlog₁⟩ := keepsOrder_mapZeros hsupervisor
      obtain ⟨hkeeps, hheap, hlog⟩ := keepsOrder_mapZeros h
      exact ⟨hkeeps₁.trans hkeeps, hheap.trans hheap₁, hlog.trans hlog₁⟩

theorem keeps_new {layout : Layout} {m : MemoryMap} (h : new layout = .ok m) :
    Keeps (withHeap (Heap.new layout.heapBase layout.heapSize)) m ∧
      m.heap = Heap.new layout.heapBase layout.heapSize := by
  obtain ⟨hkeeps, hheap, -⟩ := keepsOrder_new h
  exact ⟨hkeeps.keeps, hheap⟩

end MemoryMap

end Mc68k
