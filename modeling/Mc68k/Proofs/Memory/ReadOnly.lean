import Mathlib.Data.List.Forall2
import Mc68k.Proofs.Memory.Access
import Mc68k.Proofs.Memory.MapRun

namespace Mc68k

/-- A region as it is found later: in the same place, and the same if it is read-only. -/
structure Segment.Kept (s s' : Segment) : Prop where
  extent : s'.extent = s.extent
  readOnly (h : s.protection.contains .readOnly = true) : s' = s

namespace Segment.Kept

theorem refl (s : Segment) : Kept s s := ⟨rfl, fun _ => rfl⟩

theorem trans {s s' s'' : Segment} (h : Kept s s') (h' : Kept s' s'') : Kept s s'' := by
  refine ⟨h'.extent.trans h.extent, ?_⟩
  intro hs
  have hsame := h.readOnly hs
  rw [hsame] at h'
  exact h'.readOnly hs

end Segment.Kept

theorem Protection.not_readOnly_of_allows {p : Protection} {fc : FunctionCode}
    (h : p.allows fc .write = true) : p.contains readOnly = false := by
  have hwrites : Access.write.writes = true := rfl
  simp only [allows, hwrites, Bool.and_true, Bool.and_eq_true] at h
  simpa using h.1.2

namespace MemoryMap

/-- The requests that a running machine has for a map. -/
def Request.IsGuest : Request → Prop
  | heap _ | translate _ _ _ _ => True
  | write _ _ _ access => access = .write
  | map _ _ _ | unmap _ | load _ _ | takeUpdates => False

def KeepsRegions (m m' : MemoryMap) : Prop := List.Forall₂ Segment.Kept m.regions m'.regions

namespace KeepsRegions

variable {m m' m'' : MemoryMap}

theorem of_regions_eq (h : m'.regions = m.regions) : KeepsRegions m m' := by
  rw [KeepsRegions, h, List.forall₂_same]
  intro s _
  exact .refl s

theorem trans (h : KeepsRegions m m') (h' : KeepsRegions m' m'') : KeepsRegions m m'' := by
  rw [KeepsRegions] at *
  generalize m.regions = before at h
  generalize m'.regions = between at h h'
  generalize m''.regions = after at h'
  induction h generalizing after with
  | nil => exact h'
  | cons hs _ ih =>
    cases h' with
    | cons hs' hrest => exact .cons (hs.trans hs') (ih _ hrest)

theorem patch (hm : m.Orderly) {addr : Address} {bytes : List UInt8} {fc : FunctionCode}
    {s : Segment} (hs : m.admit? addr bytes.length fc .write = some s) :
    KeepsRegions m (m.patch addr bytes) := by
  obtain ⟨-, hlocate, hallows⟩ := admit?_eq_some.mp hs
  have hopen := Protection.not_readOnly_of_allows hallows
  rw [MemoryMap.patch, hlocate]
  cases hheap : m.heap.contains addr with
  | true => exact of_regions_eq rfl
  | false =>
    have hmem : s ∈ m.regions := by
      rw [locate?, hheap] at hlocate
      exact (Segments.locate?_eq_some hlocate).1
    refine List.forall₂_map_right_iff.mpr (List.forall₂_same.mpr ?_)
    intro t ht
    split
    next hbase =>
      have hsame : t = s := hm.apart.eq_of_base_eq ht hmem hbase
      rw [hsame]
      refine ⟨s.extent_patch addr bytes, fun hread => ?_⟩
      rw [hopen] at hread
      cases hread
    next => exact .refl t

theorem serve (hm : m.Orderly) {request : Request} (h : request.IsGuest) :
    KeepsRegions m (m.serve request) := by
  cases request with
  | map base bytes protection => exact absurd h id
  | unmap base => exact absurd h id
  | load addr bytes => exact absurd h id
  | takeUpdates => exact absurd h id
  | heap request => exact of_regions_eq rfl
  | translate addr n fc access =>
    refine of_regions_eq ?_
    simp only [MemoryMap.serve, request]
    split <;> rfl
  | write addr bytes fc access =>
    obtain rfl : access = .write := h
    cases hs : m.admit? addr bytes.length fc .write with
    | none =>
      simp only [MemoryMap.serve, request, hs]
      exact of_regions_eq rfl
    | some s =>
      have hpatch := patch hm hs
      simp only [MemoryMap.serve, request, hs]
      exact hpatch

theorem run (hm : m.Orderly) {requests : List Request} (h : ∀ r ∈ requests, r.IsGuest) :
    KeepsRegions m (m.run requests) := by
  induction requests generalizing m with
  | nil => exact of_regions_eq rfl
  | cons request requests ih =>
    obtain ⟨hfirst, hrest⟩ := List.forall_mem_cons.mp h
    have horderly := (KeepsOrder.serve m request).1 hm
    exact (serve hm hfirst).trans (ih horderly hrest)

end KeepsRegions

end MemoryMap

end Mc68k
