import Mc68k.Memory.Map
import Mc68k.Proofs.Memory.FirstFit

namespace Mc68k

namespace Heap

/-- Lay bytes over the block in which they lie. -/
def write? (heap : Heap) (addr : Address) (bytes : List UInt8) : Option Heap :=
  (heap.blocks.locate? addr bytes.length).map fun s =>
    { heap with blocks := heap.blocks.patch s.base addr bytes }

end Heap

theorem MemoryMap.patch_of_contains (m : MemoryMap) (addr : Address) (bytes : List UInt8)
    (h : m.heap.contains addr = true) :
    m.patch addr bytes = { m with heap := (m.heap.write? addr bytes).getD m.heap } := by
  rw [patch, locate?, if_pos h, Heap.write?]
  cases m.heap.blocks.locate? addr bytes.length with
  | none => rfl
  | some s => simp [h]

namespace Heap

inductive Request where
  | allocate (n : UInt32)
  | allocatePages (bytes : Bank)
  | deallocate (addr : Address)
  | write (addr : Address) (bytes : List UInt8)

/-- The heap after a request; one that is turned down leaves it as it was. -/
def serve (heap : Heap) : Request → Heap
  | .allocate n => ((heap.allocate? n.toNat).map (·.2)).getD heap
  | .allocatePages bytes => ((heap.allocatePages? bytes).map (·.2)).getD heap
  | .deallocate addr => (heap.deallocate? addr).getD heap
  | .write addr bytes => (heap.write? addr bytes).getD heap

def run (heap : Heap) (requests : List Request) : Heap := requests.foldl serve heap

/-- All that a request can do to a heap. -/
inductive Served (heap : Heap) : Heap → Prop
  | unchanged : Served heap heap
  | placed (addr : Address) (bytes : Bank) (hpos : 0 < bytes.size)
      (hpages : pageSize ∣ bytes.size) (hgap : heap.gap? bytes.size = some addr) :
      Served heap { heap with blocks := heap.blocks.insert ⟨addr, bytes, .ram⟩ }
  | erased (addr : Address) : Served heap { heap with blocks := heap.blocks.erase addr }
  | patched (base addr : Address) (bytes : List UInt8) :
      Served heap { heap with blocks := heap.blocks.patch base addr bytes }

theorem served_place? (heap : Heap) {bytes : Bank} (hpos : 0 < bytes.size)
    (hpages : pageSize ∣ bytes.size) :
    Served heap (((heap.place? bytes).map (·.2)).getD heap) := by
  rw [place?]
  cases hgap : heap.gap? bytes.size with
  | none => exact .unchanged
  | some addr => exact .placed addr bytes hpos hpages hgap

theorem served_serve (heap : Heap) (request : Request) : Served heap (heap.serve request) := by
  cases request with
  | allocate n =>
    have hpages := pagesFor_pageRound n.toNat
    rw [serve, allocate?]
    split
    · exact heap.served_place? hpages.pos hpages.paged
    · exact .unchanged
  | allocatePages bytes =>
    rw [serve, allocatePages?]
    split
    · exact .unchanged
    · exact heap.served_place? (by omega) (Nat.dvd_of_mod_eq_zero (by omega))
  | deallocate addr =>
    rw [serve, deallocate?]
    cases heap.blocks.at? addr with
    | none => exact .unchanged
    | some s => exact .erased addr
  | write addr bytes =>
    rw [serve, write?]
    cases heap.blocks.locate? addr bytes.length with
    | none => exact .unchanged
    | some s => exact .patched s.base addr bytes

/-- An allocation of given bytes: a new block at the lowest run of free addresses; none if there is
no such run. -/
def PlacesFirst (heap : Heap) (bytes : Bank) : Option (Address × Heap) → Prop
  | none => ∀ start, ¬heap.FreeRun start bytes.size
  | some (addr, heap') => heap.FreeRun addr.toNat bytes.size ∧
      (∀ start, heap.FreeRun start bytes.size → addr.toNat ≤ start) ∧
      ∃ before after, heap.blocks = before ++ after ∧
        heap' = { heap with blocks := before ++ ⟨addr, bytes, .ram⟩ :: after }

/-- A deallocation: all blocks but the one that starts at the address; none if there is none. -/
def Frees (heap : Heap) (addr : Address) : Option Heap → Prop
  | none => ∀ s ∈ heap.blocks, s.base ≠ addr
  | some heap' => ∃ before s after, heap.blocks = before ++ s :: after ∧ s.base = addr ∧
      (∀ t ∈ before ++ after, t.base ≠ addr) ∧ heap' = { heap with blocks := before ++ after }

/-- A write: the bytes, in the one block that holds the range; none if no block holds it. -/
def Writes (heap : Heap) (addr : Address) (bytes : List UInt8) : Option Heap → Prop
  | none => ∀ s ∈ heap.blocks, s.base ≤ addr → s.limit < addr.toNat + bytes.length
  | some heap' => ∃ before s after written, heap.blocks = before ++ s :: after ∧ s.base ≤ addr ∧
      addr.toNat + bytes.length ≤ s.limit ∧ written.size = s.bytes.size ∧
      (∀ i, written.get i = if s.base.toNat + i < addr.toNat then s.bytes.get i
        else bytes[s.base.toNat + i - addr.toNat]?.getD (s.bytes.get i)) ∧
      heap' = { heap with blocks := before ++ { s with bytes := written } :: after }

namespace WellFormed

variable {heap : Heap}

theorem place? (h : WellFormed heap) {bytes : Bank} (hn : 0 < bytes.size) :
    PlacesFirst heap bytes (heap.place? bytes) := by
  rw [Heap.place?]
  cases hgap : heap.gap? bytes.size with
  | none => exact h.gap?_eq_none hn hgap
  | some addr =>
    obtain ⟨-, hrun, hleast⟩ := h.toOrderly.gap?_eq_some hn hgap
    obtain ⟨before, after, hblocks, hinsert, -⟩ := heap.blocks.insert_eq ⟨addr, bytes, .ram⟩
    exact ⟨hrun, hleast, before, after, hblocks, by rw [hinsert]⟩

theorem allocate? (h : WellFormed heap) (n : Nat) :
    PlacesFirst heap (Bank.zeros (pageRound n)) (heap.allocate? n) := by
  have hpos := (pagesFor_pageRound n).pos
  rw [Heap.allocate?]
  split
  · exact h.place? hpos
  · next hsize =>
    intro start hrun
    obtain ⟨hbase, hwindow, -⟩ := (freeRun_iff hpos h.apart.nonempty).mp hrun
    rw [Heap.limit] at hwindow
    change start + pageRound n ≤ _ at hwindow
    omega

theorem allocatePages? (h : WellFormed heap) (bytes : Bank) :
    if 0 < bytes.size ∧ pageSize ∣ bytes.size then
      PlacesFirst heap bytes (heap.allocatePages? bytes)
    else heap.allocatePages? bytes = none := by
  rw [Heap.allocatePages?]
  by_cases hpages : 0 < bytes.size ∧ pageSize ∣ bytes.size
  · have hmod := Nat.mod_eq_zero_of_dvd hpages.2
    rw [if_pos hpages, if_neg (by omega)]
    exact h.place? hpages.1
  · rw [if_neg hpages, if_pos ?_]
    by_cases hzero : bytes.size = 0
    · exact .inl hzero
    · exact .inr fun hmod => hpages ⟨Nat.pos_of_ne_zero hzero, Nat.dvd_of_mod_eq_zero hmod⟩

theorem deallocate? (h : WellFormed heap) (addr : Address) :
    Frees heap addr (heap.deallocate? addr) := by
  rw [Heap.deallocate?]
  cases hat : heap.blocks.at? addr with
  | none => exact Segments.at?_eq_none.mp hat
  | some s =>
    obtain ⟨hbase, before, after, hblocks, herase⟩ := Segments.erase_eq hat
    have hothers := Segments.Apart.base_ne (hblocks ▸ h.apart)
    exact ⟨before, s, after, hblocks, hbase, hbase ▸ hothers, by rw [herase]⟩

theorem write? (h : WellFormed heap) (addr : Address) (bytes : List UInt8) :
    Writes heap addr bytes (heap.write? addr bytes) := by
  rw [Heap.write?]
  cases hlocate : heap.blocks.locate? addr bytes.length with
  | none => exact h.apart.lt_of_locate?_eq_none hlocate
  | some s =>
    obtain ⟨hmem, hbase, hlimit⟩ := Segments.locate?_eq_some hlocate
    obtain ⟨before, after, hblocks⟩ := List.append_of_mem hmem
    have hpatch := Segments.patch_eq (hblocks ▸ h.apart) addr bytes
    refine ⟨before, s, after, (s.patch addr bytes).bytes, hblocks, hbase, hlimit,
      s.bytes.size_write _ bytes, ?_, by simp only [hblocks, hpatch]; rfl⟩
    exact s.get_patch hbase hlimit

end WellFormed

namespace Orderly

variable {heap : Heap}

theorem insert (h : Orderly heap) {bytes : Bank} (hn : 0 < bytes.size)
    (hpages : pageSize ∣ bytes.size) {addr : Address} (hgap : heap.gap? bytes.size = some addr) :
    Orderly { heap with blocks := heap.blocks.insert ⟨addr, bytes, .ram⟩ } := by
  obtain ⟨hstart, hrun, -⟩ := h.gap?_eq_some hn hgap
  obtain ⟨hbase, hwindow, hsides⟩ := (freeRun_iff hn h.apart.nonempty).mp hrun
  have hdvd := h.pageSize_dvd_firstGap bytes.size
  rw [← hstart] at hdvd
  refine ⟨h.base, h.size, ?_, ?_, ?_⟩
  · apply h.apart.insert hn
    intro s hs
    exact (hsides s hs).symm
  · intro s hs
    rcases Segments.mem_insert.mp hs with rfl | hs
    · exact ⟨hbase, hwindow⟩
    · exact h.inside s hs
  · intro s hs
    rcases Segments.mem_insert.mp hs with rfl | hs
    · exact ⟨hdvd, hpages⟩
    · exact h.paged s hs

theorem erase (h : Orderly heap) (addr : Address) :
    Orderly { heap with blocks := heap.blocks.erase addr } where
  base := h.base
  size := h.size
  apart := h.apart.erase addr
  inside s hs := h.inside s (List.mem_of_mem_eraseP hs)
  paged s hs := h.paged s (List.mem_of_mem_eraseP hs)

theorem patch (h : Orderly heap) (base addr : Address) (bytes : List UInt8) :
    Orderly { heap with blocks := heap.blocks.patch base addr bytes } := by
  refine ⟨h.base, h.size, h.apart.patch base addr bytes, ?_, ?_⟩
  · intro s hs
    obtain ⟨t, ht, hbase, -, hlimit⟩ := Segments.exists_of_mem_patch hs
    rw [← hbase, ← hlimit]
    exact h.inside t ht
  · intro s hs
    obtain ⟨t, ht, hbase, hsize, -⟩ := Segments.exists_of_mem_patch hs
    rw [← hbase, ← hsize]
    exact h.paged t ht

theorem served {heap' : Heap} (h : Orderly heap) (hserved : Served heap heap') :
    Orderly heap' := by
  cases hserved with
  | unchanged => exact h
  | placed addr bytes hpos hpages hgap => exact h.insert hpos hpages hgap
  | erased addr => exact h.erase addr
  | patched base addr bytes => exact h.patch base addr bytes

theorem serve (h : Orderly heap) (request : Request) : Orderly (heap.serve request) :=
  h.served (heap.served_serve request)

theorem run (h : Orderly heap) (requests : List Request) : Orderly (heap.run requests) := by
  induction requests generalizing heap with
  | nil => exact h
  | cons request requests ih => exact ih (h.serve request)

end Orderly

theorem toNat_and_pageMask (x : UInt32) : (x &&& pageMask).toNat = x.toNat / 4096 * 4096 := by
  have hlow : (x.toNat &&& pageMask.toNat) % 2 ^ 12 = 0 := by
    rw [Nat.and_mod_two_pow, show pageMask.toNat % 2 ^ 12 = 0 from rfl, Nat.and_zero]
  have hhigh : (x.toNat &&& pageMask.toNat) / 2 ^ 12 = x.toNat / 2 ^ 12 := by
    have hlt := x.toNat_lt
    rw [Nat.and_div_two_pow, show pageMask.toNat / 2 ^ 12 = 2 ^ 20 - 1 from rfl,
      Nat.and_two_pow_sub_one_eq_mod]
    omega
  rw [UInt32.toNat_and]
  omega

theorem toNat_new (base : Address) (size : UInt32) :
    (Heap.new base size).base.toNat = base.toNat / 4096 * 4096 ∧
      (Heap.new base size).size.toNat = size.toNat / 4096 * 4096 :=
  ⟨toNat_and_pageMask base, toNat_and_pageMask size⟩

theorem pageSize_dvd_new (base : Address) (size : UInt32) :
    pageSize ∣ (Heap.new base size).base.toNat ∧ pageSize ∣ (Heap.new base size).size.toNat := by
  obtain ⟨hbase, hsize⟩ := toNat_new base size
  rw [hbase, hsize]
  exact ⟨Nat.dvd_mul_left _ _, Nat.dvd_mul_left _ _⟩

theorem orderly_new (base : Address) (size : UInt32) : Orderly (Heap.new base size) := by
  obtain ⟨hbase, hsize⟩ := pageSize_dvd_new base size
  exact ⟨hbase, hsize, .nil, fun _ hs => absurd hs List.not_mem_nil,
    fun _ hs => absurd hs List.not_mem_nil⟩

theorem wellFormed_new (base : Address) (size : UInt32)
    (h : (Heap.new base size).limit ≤ 0x100000000) : WellFormed (Heap.new base size) :=
  (orderly_new base size).wellFormed h

theorem Served.window {heap heap' : Heap} (h : Served heap heap') :
    heap'.base = heap.base ∧ heap'.size = heap.size := by
  cases h <;> exact ⟨rfl, rfl⟩

theorem serve_window (heap : Heap) (request : Request) :
    (heap.serve request).base = heap.base ∧ (heap.serve request).size = heap.size :=
  (heap.served_serve request).window

theorem run_window (heap : Heap) (requests : List Request) :
    (heap.run requests).base = heap.base ∧ (heap.run requests).size = heap.size := by
  induction requests generalizing heap with
  | nil => exact ⟨rfl, rfl⟩
  | cons request requests ih =>
    obtain ⟨hbase, hsize⟩ := heap.serve_window request
    obtain ⟨hbase', hsize'⟩ := ih (heap.serve request)
    exact ⟨hbase'.trans hbase, hsize'.trans hsize⟩

theorem WellFormed.run {heap : Heap} (h : WellFormed heap) (requests : List Request) :
    WellFormed (heap.run requests) := by
  obtain ⟨hbase, hsize⟩ := heap.run_window requests
  apply (h.toOrderly.run requests).wellFormed
  rw [Heap.limit, hbase, hsize]
  exact h.limit

/-- A heap that does what it should on the next request, whatever that is. -/
structure Correct (heap : Heap) : Prop where
  blocks : ∀ s ∈ heap.blocks, 0 < s.bytes.size ∧ pageSize ∣ s.base.toNat ∧
    pageSize ∣ s.bytes.size ∧ heap.base.toNat ≤ s.base.toNat ∧ s.limit ≤ heap.limit
  disjoint : heap.blocks.Pairwise fun s t => s.limit ≤ t.base.toNat
  scan (n : Nat) : firstGap? n heap.base.toNat heap.blocks =
    some (firstGap n heap.base.toNat heap.blocks) ∧
      firstGap n heap.base.toNat heap.blocks ≤ heap.limit
  allocate (n : Nat) : ∃ bytes : Bank, PagesFor n bytes.size ∧ (∀ i, bytes.get i = 0) ∧
    PlacesFirst heap bytes (heap.allocate? n)
  allocatePages (bytes : Bank) : if 0 < bytes.size ∧ pageSize ∣ bytes.size then
    PlacesFirst heap bytes (heap.allocatePages? bytes) else heap.allocatePages? bytes = none
  deallocate (addr : Address) : Frees heap addr (heap.deallocate? addr)
  write (addr : Address) (bytes : List UInt8) : Writes heap addr bytes (heap.write? addr bytes)

theorem WellFormed.correct {heap : Heap} (h : WellFormed heap) : Correct heap where
  blocks s hs := ⟨h.apart.nonempty s hs, (h.paged s hs).1, (h.paged s hs).2, h.inside s hs⟩
  disjoint := h.apart.ordered
  scan n := ⟨firstGap?_eq h.apart h.toOrderly.base_le, h.toOrderly.firstGap_le_limit n⟩
  allocate n := ⟨_, pagesFor_pageRound n, Bank.get_zeros _, h.allocate? n⟩
  allocatePages := h.allocatePages?
  deallocate := h.deallocate?
  write := h.write?

/-- A heap is correct after any requests, as long as its window ends with the address space. -/
theorem correct_run (base : Address) (size : UInt32) (requests : List Request)
    (h : base.toNat / 4096 * 4096 + size.toNat / 4096 * 4096 ≤ 0x100000000) :
    Correct ((Heap.new base size).run requests) ∧
      ((Heap.new base size).run requests).base.toNat = base.toNat / 4096 * 4096 ∧
      ((Heap.new base size).run requests).size.toNat = size.toNat / 4096 * 4096 := by
  obtain ⟨hbase, hsize⟩ := toNat_new base size
  obtain ⟨hbase', hsize'⟩ := (Heap.new base size).run_window requests
  rw [hbase', hsize', hbase, hsize]
  refine ⟨((wellFormed_new base size ?_).run requests).correct, rfl, rfl⟩
  rw [Heap.limit, hbase, hsize]
  exact h

/-- Four pages at the very end of the address space: one page and two pages are taken, and the first
is given back. -/
theorem correct_run_top :
    let heap := (Heap.new 0xFFFFC123 0x4FFF).run [.allocate 5, .allocate 0x1001]
    let heap' := (Heap.new 0xFFFFC123 0x4FFF).run
      [.allocate 5, .allocate 0x1001, .deallocate 0xFFFFC000, .write 0xFFFFD010 [1, 2]]
    Correct heap ∧ Correct heap' ∧
      heap.blocks.map (fun s => (s.base, s.bytes.size)) =
        [(0xFFFFC000, 0x1000), (0xFFFFD000, 0x2000)] ∧
      heap'.blocks.map (fun s => (s.base, s.bytes.size, s.bytes.slice 0xF 4)) =
        [(0xFFFFD000, 0x2000, [0, 1, 2, 0])] ∧
      (heap'.allocate? 0x1001).isNone = true ∧
      (heap'.allocate? 0x1000).map (·.1) = some 0xFFFFC000 := by
  intro heap heap'
  refine ⟨?_, ?_, by decide +kernel, by decide +kernel, by decide +kernel, by decide +kernel⟩
  · exact (correct_run 0xFFFFC123 0x4FFF _ (by decide)).1
  · exact (correct_run 0xFFFFC123 0x4FFF _ (by decide)).1

end Heap

end Mc68k
