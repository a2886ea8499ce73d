import Mc68k.Proofs.Memory.Bytes

namespace Mc68k

theorem disjoint_iff_forall_address {a b c d : Nat} (hab : a < b) (hcd : c < d)
    (hb : b ≤ 0x100000000) :
    (∀ addr : Address, a ≤ addr.toNat → addr.toNat < b → ¬(c ≤ addr.toNat ∧ addr.toNat < d)) ↔
      b ≤ c ∨ d ≤ a := by
  constructor
  · intro hapart
    by_contra hmeet
    have hlt : max a c < UInt32.size := by
      change max a c < 0x100000000
      omega
    have haddr : (UInt32.ofNat (max a c)).toNat = max a c := UInt32.toNat_ofNat_of_lt' hlt
    have hnot := hapart (UInt32.ofNat (max a c))
    rw [haddr] at hnot
    exact hnot (by omega) (by omega) (by omega)
  · intro hsides addr hbase hlimit
    omega

namespace Segments

theorem insert_perm (segments : Segments) (s : Segment) :
    (segments.insert s).Perm (s :: segments) := by
  obtain ⟨before, after, hsegments, hinsert, -⟩ := segments.insert_eq s
  rw [hinsert, hsegments]
  exact List.perm_middle

namespace Apart

variable {segments segments' : Segments}

theorem eq_of_perm (h : Apart segments) (h' : Apart segments') (hperm : segments.Perm segments') :
    segments = segments' := by
  refine hperm.eq_of_pairwise ?_ h.ordered h'.ordered
  intro s t hs ht hst hts
  have hpos := h.nonempty s hs
  rw [Segment.limit] at hst hts
  omega

theorem sides_of_perm {s : Segment} (h : Apart segments)
    (hperm : segments.Perm (s :: segments')) :
    ∀ t ∈ segments', t.limit ≤ s.base.toNat ∨ s.limit ≤ t.base.toNat := by
  have hsides : segments.Pairwise fun s t => s.limit ≤ t.base.toNat ∨ t.limit ≤ s.base.toNat :=
    h.ordered.imp .inl
  rw [hperm.pairwise_iff Or.symm, List.pairwise_cons] at hsides
  exact fun t ht => (hsides.1 t ht).symm

end Apart

end Segments

namespace MemoryMap

variable {m m' : MemoryMap} {base : Address} {bytes : Bank} {protection : Protection}

/-- A range to map: not empty, below the callback region, and with none of its addresses in the heap
window or in a region. -/
structure IsFree (m : MemoryMap) (base : Address) (n : Nat) : Prop where
  nonempty : 0 < n
  below : base.toNat + n ≤ callbackRegion.toNat
  window (addr : Address) (hbase : base.toNat ≤ addr.toNat) (hlimit : addr.toNat < base.toNat + n) :
    m.heap.contains addr = false
  regions (addr : Address) (hbase : base.toNat ≤ addr.toNat)
    (hlimit : addr.toNat < base.toNat + n) :
    ∀ s ∈ m.regions, ¬(s.base.toNat ≤ addr.toNat ∧ addr.toNat < s.limit)

/-- A range that reaches past the place of a heap window without addresses. -/
structure SpansEmptyWindow (m : MemoryMap) (base : Address) (n : Nat) : Prop where
  empty : m.heap.size = 0
  starts : base.toNat < m.heap.base.toNat
  ends : m.heap.base.toNat < base.toNat + n

/-- Mapping accepts a range exactly if it is free, and changes nothing where it refuses it. -/
structure AcceptsFree (m : MemoryMap) (base : Address) (bytes : Bank) (protection : Protection) :
    Prop where
  accepts : (∃ m', m.map base bytes protection = .ok m') ↔ m.IsFree base bytes.size
  refuses (e : MapError) (h : m.map base bytes protection = .error e) :
    m.serve (.map base bytes protection) = m

theorem map_of_sides (hn : 0 < bytes.size)
    (hbelow : base.toNat + bytes.size ≤ callbackRegion.toNat)
    (hwindow : base.toNat + bytes.size ≤ m.heap.base.toNat ∨ m.heap.limit ≤ base.toNat)
    (hregions : ∀ s ∈ m.regions, s.limit ≤ base.toNat ∨ base.toNat + bytes.size ≤ s.base.toNat) :
    m.map base bytes protection =
      .ok { m with regions := m.regions.insert ⟨base, bytes, protection⟩ } := by
  have hspace : callbackRegion.toNat ≤ 0x100000000 := by decide
  have hnone : m.regions.find? (overlaps base.toNat (base.toNat + bytes.size)) = none := by
    rw [List.find?_eq_none]
    intro s hs
    have := hregions s hs
    simp only [overlaps, Bool.and_eq_true, decide_eq_true_eq]
    omega
  simp only [MemoryMap.map]
  rw [if_neg (by omega), if_neg (by omega), if_neg (by omega), if_neg (by omega), hnone]

/-- The heap window and a range that is not empty have no address in common, exactly if the window
is empty or lies to one side. -/
theorem window_apart_iff {n : Nat} (hn : 0 < n) (hb : base.toNat + n ≤ 0x100000000) :
    (∀ addr : Address, base.toNat ≤ addr.toNat → addr.toNat < base.toNat + n →
        m.heap.contains addr = false) ↔
      m.heap.size = 0 ∨ base.toNat + n ≤ m.heap.base.toNat ∨ m.heap.limit ≤ base.toNat := by
  simp only [← Bool.not_eq_true, Heap.contains_iff]
  by_cases hempty : m.heap.size = 0
  · refine iff_of_true ?_ (.inl hempty)
    intro addr _ _ hin
    rw [Heap.limit, hempty, UInt32.toNat_zero] at hin
    omega
  · have hpos : 0 < m.heap.size.toNat := Nat.pos_of_ne_zero fun h => hempty (UInt32.toNat_inj.mp h)
    have hwindow : m.heap.base.toNat < m.heap.limit := Nat.lt_add_of_pos_right hpos
    rw [disjoint_iff_forall_address (by omega) hwindow hb]
    simp only [hempty, false_or]

theorem isFree_iff (h : m.Orderly) {n : Nat} :
    m.IsFree base n ↔ 0 < n ∧ base.toNat + n ≤ callbackRegion.toNat ∧
      (m.heap.size = 0 ∨ base.toNat + n ≤ m.heap.base.toNat ∨ m.heap.limit ≤ base.toNat) ∧
      ∀ s ∈ m.regions, s.limit ≤ base.toNat ∨ base.toNat + n ≤ s.base.toNat := by
  have hspace : callbackRegion.toNat ≤ 0x100000000 := by decide
  constructor
  · rintro ⟨hn, hbelow, hwindow, hregions⟩
    refine ⟨hn, hbelow, (window_apart_iff hn (by omega)).mp hwindow, ?_⟩
    intro s hs
    have hpos : s.base.toNat < s.limit := Nat.lt_add_of_pos_right (h.apart.nonempty s hs)
    have hsides := (disjoint_iff_forall_address (by omega) hpos (by omega)).mp
      fun addr hbase hlimit => hregions addr hbase hlimit s hs
    exact hsides.symm
  · rintro ⟨hn, hbelow, hwindow, hregions⟩
    refine ⟨hn, hbelow, (window_apart_iff hn (by omega)).mpr hwindow, ?_⟩
    intro addr hbase hlimit s hs
    have := hregions s hs
    omega

theorem exists_map_iff (h : m.Orderly) :
    (∃ m', m.map base bytes protection = .ok m') ↔
      m.IsFree base bytes.size ∧ ¬m.SpansEmptyWindow base bytes.size := by
  rw [isFree_iff h]
  constructor
  · rintro ⟨m', hmap⟩
    obtain ⟨hn, hbelow, hwindow, hregions, -⟩ := map_eq_ok hmap
    refine ⟨⟨hn, hbelow, .inr hwindow, hregions⟩, ?_⟩
    rintro ⟨hempty, hbase, hlimit⟩
    rw [Heap.limit, hempty, UInt32.toNat_zero] at hwindow
    omega
  · rintro ⟨⟨hn, hbelow, hwindow, hregions⟩, hspans⟩
    refine ⟨_, map_of_sides hn hbelow ?_ hregions⟩
    rcases hwindow with hempty | hwindow
    · -- A window without addresses is passed on one side.
      rw [Heap.limit, hempty, UInt32.toNat_zero]
      by_contra hboth
      exact hspans ⟨hempty, by omega, by omega⟩
    · exact hwindow

/-- Mapping accepts exactly the free ranges, but for those that reach past the place of an empty
heap window. -/
theorem acceptsFree_iff (h : m.Reached) (base : Address) (bytes : Bank) (protection : Protection) :
    m.AcceptsFree base bytes protection ↔
      ¬(m.IsFree base bytes.size ∧ m.SpansEmptyWindow base bytes.size) := by
  have hexists : (∃ m', m.map base bytes protection = .ok m') ↔
      m.IsFree base bytes.size ∧ ¬m.SpansEmptyWindow base bytes.size := exists_map_iff h.orderly
  constructor
  · rintro ⟨haccepts, -⟩ ⟨hfree, hspans⟩
    exact (hexists.mp (haccepts.mpr hfree)).2 hspans
  · intro hnot
    refine ⟨?_, ?_⟩
    · rw [hexists]
      exact and_iff_left_of_imp fun hfree hspans => hnot ⟨hfree, hspans⟩
    · intro e herror
      rw [serve, herror]
      rfl

theorem exists_eq_ok {r : Except MapError MemoryMap} (h : r.toBool = true) :
    ∃ m', r = .ok m' := by
  cases r with
  | error e => cases h
  | ok m' => exact ⟨m', rfl⟩

/-- Between a region and the heap window there is room for a page. -/
theorem acceptsFree_iff_between :
    let m := (withHeap (Heap.new 0x3000 0x1000)).run [.map 0x1000 (Bank.zeros 0x1000) .ram]
    m.AcceptsFree 0x2000 (Bank.zeros 0x1000) .ram ∧ m.IsFree 0x2000 (Bank.zeros 0x1000).size := by
  intro m
  have haccepts : m.AcceptsFree 0x2000 (Bank.zeros 0x1000) .ram :=
    (acceptsFree_iff ⟨0x3000, 0x1000, _, _, .withHeap, rfl⟩ _ _ _).mpr
      fun h => absurd h.2.empty (by decide +kernel)
  exact ⟨haccepts, haccepts.accepts.mp (exists_eq_ok (by decide +kernel))⟩

/-- A heap of less than a page has no address, yet two bytes around its base are refused. -/
theorem not_acceptsFree_emptyWindow :
    let m := withHeap (Heap.new 0x1000 0xFFF)
    m.map 0xFFF (Bank.zeros 2) .ram = .error (.heapWindow 0xFFF 0x1001) ∧
      m.IsFree 0xFFF (Bank.zeros 2).size ∧ ¬m.AcceptsFree 0xFFF (Bank.zeros 2) .ram := by
  intro m
  have hrefused : m.map 0xFFF (Bank.zeros 2) .ram = .error (.heapWindow 0xFFF 0x1001) := rfl
  have hfree : m.IsFree 0xFFF (Bank.zeros 2).size := by
    rw [isFree_iff (orderly_withHeap _ _)]
    exact ⟨by decide, by decide, .inl (by decide), fun _ hs => absurd hs List.not_mem_nil⟩
  refine ⟨hrefused, hfree, fun h => ?_⟩
  obtain ⟨m', hmap⟩ := h.accepts.mpr hfree
  rw [hrefused] at hmap
  cases hmap

/-- Map segments one after another, up to the first that is refused. -/
def mapAll (m : MemoryMap) (segments : Segments) : Except MapError MemoryMap :=
  segments.foldlM (fun m s => m.map s.base s.bytes s.protection) m

structure Gains (m : MemoryMap) (segments : Segments) (m' : MemoryMap) : Prop where
  orderly : m'.Orderly
  regions : m'.regions.Perm (segments ++ m.regions)
  others : m' = { m with regions := m'.regions }

theorem map_of_perm {s : Segment} {others : Segments} (h' : m'.Orderly) (hheap : m'.heap = m.heap)
    (hperm : m'.regions.Perm (s :: others)) (hothers : ∀ t ∈ m.regions, t ∈ others) :
    m.map s.base s.bytes s.protection = .ok { m with regions := m.regions.insert s } := by
  have hs : s ∈ m'.regions := hperm.mem_iff.mpr List.mem_cons_self
  have houtside := h'.outside s hs
  rw [hheap] at houtside
  apply map_of_sides (h'.apart.nonempty s hs) (h'.below s hs) houtside
  exact fun t ht => h'.apart.sides_of_perm hperm t (hothers t ht)

theorem map_eq_ok_iff_gains (h : m.Orderly) {s : Segment} :
    m.map s.base s.bytes s.protection = .ok m' ↔ m.Gains [s] m' := by
  constructor
  · intro hmap
    obtain ⟨-, -, -, -, hm'⟩ := map_eq_ok hmap
    refine ⟨(KeepsOrder.map hmap).1 h, ?_, ?_⟩
    · rw [hm']
      exact m.regions.insert_perm s
    · rw [hm']
  · rintro ⟨horderly, hperm, hm'⟩
    have hmap := map_of_perm horderly (by rw [hm']) hperm fun t ht => ht
    have hregions : m.regions.insert s = m'.regions :=
      ((KeepsOrder.map hmap).1 h).apart.eq_of_perm horderly.apart
        ((m.regions.insert_perm s).trans hperm.symm)
    rw [hmap, hregions, ← hm']

theorem mapAll_eq_ok_iff (h : m.Orderly) {segments : Segments} :
    m.mapAll segments = .ok m' ↔ m.Gains segments m' := by
  induction segments generalizing m with
  | nil =>
    constructor
    · intro hall
      obtain rfl := Except.ok.inj hall
      exact ⟨h, .refl _, rfl⟩
    · rintro ⟨horderly, hperm, hm'⟩
      have hregions := h.apart.eq_of_perm horderly.apart hperm.symm
      rw [hm', ← hregions]
      rfl
  | cons s rest ih =>
    have hall : m.mapAll (s :: rest) =
        (m.map s.base s.bytes s.protection >>= (·.mapAll rest)) := rfl
    rw [hall]
    constructor
    · intro hrest
      cases hmap : m.map s.base s.bytes s.protection with
      | error e =>
        rw [hmap] at hrest
        cases hrest
      | ok m₁ =>
        rw [hmap] at hrest
        obtain ⟨horderly₁, hperm₁, hm₁⟩ := (map_eq_ok_iff_gains h).mp hmap
        obtain ⟨horderly, hperm, hm'⟩ := (ih horderly₁).mp hrest
        refine ⟨horderly, ?_, ?_⟩
        · exact hperm.trans ((hperm₁.append_left rest).trans List.perm_middle)
        · rw [hm₁] at hm'
          exact hm'
    · rintro ⟨horderly, hperm, hm'⟩
      have hmap := map_of_perm horderly (by rw [hm']) hperm
        fun t ht => List.mem_append_right rest ht
      have hafter : Gains { m with regions := m.regions.insert s } rest m' := by
        refine ⟨horderly, ?_, hm'⟩
        exact hperm.trans
          (List.perm_middle.symm.trans ((m.regions.insert_perm s).symm.append_left rest))
      rw [hmap]
      exact (ih ((KeepsOrder.map hmap).1 h)).mpr hafter

theorem unmap?_of_map (h : m.Orderly) (hmap : m.map base bytes protection = .ok m') :
    m'.unmap? base = some (bytes, m) := by
  obtain ⟨-, -, -, -, hm'⟩ := map_eq_ok hmap
  have horderly := (KeepsOrder.map hmap).1 h
  let s : Segment := ⟨base, bytes, protection⟩
  have hregions : m'.regions = m.regions.insert s := by rw [hm']
  have hs : s ∈ m'.regions := hregions ▸ Segments.mem_insert.mpr (.inl rfl)
  cases hat : m'.regions.at? base with
  | none => exact absurd rfl (Segments.at?_eq_none.mp hat s hs)
  | some t =>
    obtain ⟨hbase, before, after, hsplit, herase⟩ := Segments.erase_eq hat
    obtain rfl : t = s :=
      horderly.apart.eq_of_base_eq (hsplit ▸ List.mem_append_right _ List.mem_cons_self) hs hbase
    have hperm : (m'.regions.erase base).Perm m.regions := by
      have hcons : (before ++ s :: after).Perm (s :: m.regions) :=
        (hsplit ▸ hregions ▸ m.regions.insert_perm s)
      rw [herase]
      exact (List.perm_middle.symm.trans hcons).cons_inv
    have herased := (horderly.apart.erase base).eq_of_perm h.apart hperm
    rw [unmap?, hat, Option.map_some, herased, hm']

/-- What is mapped in some order can be mapped in any other, and comes to the same map; a region
that was mapped last is unmapped with its bytes. -/
theorem mapAll_perm_and_unmap (h : m.Reached) :
    (∀ segments segments' m', segments.Perm segments' → m.mapAll segments = .ok m' →
      m.mapAll segments' = .ok m') ∧
    (∀ base bytes protection m', m.map base bytes protection = .ok m' →
      m'.unmap? base = some (bytes, m)) ∧
    ∀ base, (∀ s ∈ m.regions, s.base ≠ base) →
      m.unmap? base = none ∧ m.serve (.unmap base) = m := by
  refine ⟨?_, ?_, ?_⟩
  · intro segments segments' m' hperm hall
    obtain ⟨horderly, hregions, hm'⟩ := (mapAll_eq_ok_iff h.orderly).mp hall
    rw [mapAll_eq_ok_iff h.orderly]
    exact ⟨horderly, hregions.trans (hperm.append_right m.regions), hm'⟩
  · intro base bytes protection m' hmap
    exact unmap?_of_map h.orderly hmap
  · intro base hnone
    have hunmap : m.unmap? base = none := by
      rw [unmap?, Segments.at?_eq_none.mpr hnone, Option.map_none]
    refine ⟨hunmap, ?_⟩
    rw [serve, hunmap]
    rfl

/-- Two regions that touch, mapped in either order. -/
theorem mapAll_perm_and_unmap_adjacent :
    let m := withHeap (Heap.new 0x4000 0x1000)
    let low : Segment := ⟨0x1000, Bank.zeros 0x1000, .ram⟩
    let high : Segment := ⟨0x2000, Bank.zeros 0x1000, .supervisorRam⟩
    (∃ m', m.mapAll [low, high] = .ok m' ∧ m.mapAll [high, low] = .ok m') ∧
      (∃ m', m.map low.base low.bytes low.protection = .ok m' ∧
        m'.unmap? low.base = some (low.bytes, m)) ∧
      m.unmap? 0x1800 = none := by
  intro m low high
  obtain ⟨hperm, hunmap, hnone⟩ :=
    mapAll_perm_and_unmap (m := m) ⟨0x4000, 0x1000, m, [], .withHeap, rfl⟩
  obtain ⟨both, hboth⟩ := exists_eq_ok (r := m.mapAll [low, high]) (by decide +kernel)
  obtain ⟨one, hone⟩ :=
    exists_eq_ok (r := m.map low.base low.bytes low.protection) (by decide +kernel)
  refine ⟨⟨both, hboth, hperm _ _ _ (.swap _ _ _) hboth⟩, ⟨one, hone, hunmap _ _ _ _ hone⟩, ?_⟩
  exact (hnone 0x1800 fun _ hs => absurd hs List.not_mem_nil).1

end MemoryMap

end Mc68k
