import Mc68k.Memory.Heap
import Mc68k.Proofs.Memory.Apart

namespace Mc68k

/-- The least number of whole pages that holds `n` bytes, which is at least one page. -/
structure PagesFor (n size : Nat) : Prop where
  paged : 4096 ∣ size
  pos : 0 < size
  le : n ≤ size
  least (k : Nat) (hpaged : 4096 ∣ k) (hpos : 0 < k) (hle : n ≤ k) : size ≤ k

theorem pagesFor_pageRound (n : Nat) : PagesFor n (pageRound n) := by
  simp only [pageRound, pageSize]
  refine ⟨⟨_, Nat.mul_comm _ _⟩, by omega, by omega, ?_⟩
  rintro k ⟨pages, rfl⟩ hpos hle
  omega

theorem PagesFor.eq_pageRound {n size : Nat} (h : PagesFor n size) : size = pageRound n := by
  have hround := pagesFor_pageRound n
  apply Nat.le_antisymm
  · exact h.least _ hround.paged hround.pos hround.le
  · exact hround.least _ h.paged h.pos h.le

theorem pageRound_of_dvd {n : Nat} (hpages : pageSize ∣ n) (hpos : 0 < n) : pageRound n = n :=
  (PagesFor.eq_pageRound ⟨hpages, hpos, Nat.le_refl n, fun _ _ _ hle => hle⟩).symm

namespace Heap

/-- An address of the window that lies in no block. -/
def IsFree (heap : Heap) (addr : Nat) : Prop :=
  heap.base.toNat ≤ addr ∧ addr < heap.limit ∧
    ∀ s ∈ heap.blocks, ¬(s.base.toNat ≤ addr ∧ addr < s.limit)

/-- `n` free addresses in a row. -/
def FreeRun (heap : Heap) (start n : Nat) : Prop :=
  ∀ addr, start ≤ addr → addr < start + n → heap.IsFree addr

theorem freeRun_iff {heap : Heap} {start n : Nat} (hn : 0 < n)
    (hblocks : ∀ s ∈ heap.blocks, 0 < s.bytes.size) :
    heap.FreeRun start n ↔ heap.base.toNat ≤ start ∧ start + n ≤ heap.limit ∧
      ∀ s ∈ heap.blocks, start + n ≤ s.base.toNat ∨ s.limit ≤ start := by
  have hlimit (s : Segment) : s.limit = s.base.toNat + s.bytes.size := rfl
  constructor
  · intro h
    have hfirst := h start (Nat.le_refl _) (by omega)
    have hlast := h (start + n - 1) (by omega) (by omega)
    refine ⟨hfirst.1, by have := hlast.2.1; omega, ?_⟩
    intro s hs
    have hout := hfirst.2.2 s hs
    by_cases hbelow : s.base.toNat < start
    · omega
    · by_cases habove : start + n ≤ s.base.toNat
      · exact .inl habove
      · have := (h s.base.toNat (by omega) (by omega)).2.2 s hs
        have := hblocks s hs
        have := hlimit s
        omega
  · rintro ⟨hbase, hwindow, hsides⟩ addr hle hlt
    refine ⟨by omega, by omega, ?_⟩
    intro s hs
    have := hsides s hs
    omega

/-- The scan of the blocks, with every subtraction checked. -/
def firstGap? (n : Nat) : Nat → Segments → Option Nat
  | cursor, [] => some cursor
  | cursor, block :: blocks =>
    if block.base.toNat < cursor then none
    else if n ≤ block.base.toNat - cursor then some cursor
    else firstGap? n block.limit blocks

variable {n cursor : Nat} {blocks : Segments}

/-- The cursor is never above the block that it is compared with. -/
theorem firstGap?_eq (h : Segments.Apart blocks) (hcursor : ∀ s ∈ blocks, cursor ≤ s.base.toNat) :
    firstGap? n cursor blocks = some (firstGap n cursor blocks) := by
  induction blocks generalizing cursor with
  | nil => rfl
  | cons block blocks ih =>
    have hle := hcursor block List.mem_cons_self
    rw [firstGap?, firstGap, if_neg (by omega)]
    split
    · rfl
    · exact ih h.tail (List.pairwise_cons.mp h.ordered).1

theorem firstGap_cases (n cursor : Nat) (blocks : Segments) :
    firstGap n cursor blocks = cursor ∨ ∃ s ∈ blocks, firstGap n cursor blocks = s.limit := by
  induction blocks generalizing cursor with
  | nil => exact .inl rfl
  | cons block blocks ih =>
    rw [firstGap]
    split
    · exact .inl rfl
    · rcases ih block.limit with h | ⟨s, hs, h⟩
      · exact .inr ⟨block, List.mem_cons_self, h⟩
      · exact .inr ⟨s, List.mem_cons_of_mem _ hs, h⟩

/-- Where the scan stops, `n` addresses touch no block. -/
theorem firstGap_fits (h : Segments.Apart blocks)
    (hcursor : ∀ s ∈ blocks, cursor ≤ s.base.toNat) :
    cursor ≤ firstGap n cursor blocks ∧
      ∀ s ∈ blocks, firstGap n cursor blocks + n ≤ s.base.toNat ∨
        s.limit ≤ firstGap n cursor blocks := by
  induction blocks generalizing cursor with
  | nil => exact ⟨Nat.le_refl _, fun _ hs => absurd hs List.not_mem_nil⟩
  | cons block blocks ih =>
    have hlimit (s : Segment) : s.limit = s.base.toNat + s.bytes.size := rfl
    have hfirst := hcursor block List.mem_cons_self
    have hrest := (List.pairwise_cons.mp h.ordered).1
    rw [firstGap]
    split
    · next hfit =>
      refine ⟨Nat.le_refl _, ?_⟩
      intro s hs
      rcases List.mem_cons.mp hs with rfl | hs
      · omega
      · have := hrest s hs
        have := hlimit block
        omega
    · obtain ⟨hle, hsides⟩ := ih h.tail hrest
      have := hlimit block
      refine ⟨by omega, ?_⟩
      intro s hs
      rcases List.mem_cons.mp hs with rfl | hs
      · exact .inr hle
      · exact hsides s hs

/-- No lower place has `n` addresses that touch no block. -/
theorem firstGap_le {start : Nat} (hcursor : cursor ≤ start)
    (hsides : ∀ s ∈ blocks, start + n ≤ s.base.toNat ∨ s.limit ≤ start) :
    firstGap n cursor blocks ≤ start := by
  induction blocks generalizing cursor with
  | nil => exact hcursor
  | cons block blocks ih =>
    have hfirst := hsides block List.mem_cons_self
    rw [firstGap]
    split
    · exact hcursor
    · exact ih (by omega) fun s hs => hsides s (List.mem_cons_of_mem _ hs)

/-- Whole pages throughout, and blocks apart inside the window, wherever that ends. -/
structure Orderly (heap : Heap) : Prop where
  base : pageSize ∣ heap.base.toNat
  size : pageSize ∣ heap.size.toNat
  apart : Segments.Apart heap.blocks
  inside : ∀ s ∈ heap.blocks, heap.base.toNat ≤ s.base.toNat ∧ s.limit ≤ heap.limit
  paged : ∀ s ∈ heap.blocks, pageSize ∣ s.base.toNat ∧ pageSize ∣ s.bytes.size

/-- An orderly heap whose window does not wrap around. -/
structure WellFormed (heap : Heap) : Prop extends Orderly heap where
  limit : heap.limit ≤ 0x100000000

namespace Orderly

variable {heap : Heap}

theorem wellFormed (h : Orderly heap) (hlimit : heap.limit ≤ 0x100000000) : WellFormed heap :=
  ⟨h, hlimit⟩

theorem base_le (h : Orderly heap) : ∀ s ∈ heap.blocks, heap.base.toNat ≤ s.base.toNat :=
  fun s hs => (h.inside s hs).1

theorem firstGap_le_limit (h : Orderly heap) (n : Nat) :
    firstGap n heap.base.toNat heap.blocks ≤ heap.limit := by
  rcases firstGap_cases n heap.base.toNat heap.blocks with hstart | ⟨s, hs, hstart⟩
  · rw [hstart, Heap.limit]
    omega
  · rw [hstart]
    exact (h.inside s hs).2

theorem pageSize_dvd_firstGap (h : Orderly heap) (n : Nat) :
    pageSize ∣ firstGap n heap.base.toNat heap.blocks := by
  rcases firstGap_cases n heap.base.toNat heap.blocks with hstart | ⟨s, hs, hstart⟩
  · rw [hstart]
    exact h.base
  · rw [hstart]
    exact Nat.dvd_add (h.paged s hs).1 (h.paged s hs).2

theorem gap?_eq_some (h : Orderly heap) {n : Nat} (hn : 0 < n) {addr : Address}
    (hgap : heap.gap? n = some addr) :
    addr.toNat = firstGap n heap.base.toNat heap.blocks ∧ heap.FreeRun addr.toNat n ∧
      ∀ start, heap.FreeRun start n → addr.toNat ≤ start := by
  have hle := h.firstGap_le_limit n
  obtain ⟨hbase, hsides⟩ := firstGap_fits (n := n) h.apart h.base_le
  simp only [gap?] at hgap
  split at hgap
  · next hfit =>
    obtain rfl := Option.some.inj hgap
    have haddr : (UInt32.ofNat (firstGap n heap.base.toNat heap.blocks)).toNat =
        firstGap n heap.base.toNat heap.blocks := UInt32.toNat_ofNat_of_lt' hfit.2
    refine ⟨haddr, ?_, ?_⟩
    · rw [haddr, freeRun_iff hn h.apart.nonempty]
      exact ⟨hbase, by omega, hsides⟩
    · intro start hrun
      obtain ⟨hstart, -, hfree⟩ := (freeRun_iff hn h.apart.nonempty).mp hrun
      rw [haddr]
      exact firstGap_le hstart hfree
  · cases hgap

end Orderly

theorem WellFormed.gap?_eq_none {heap : Heap} (h : WellFormed heap) {n : Nat} (hn : 0 < n)
    (hgap : heap.gap? n = none) (start : Nat) : ¬heap.FreeRun start n := by
  intro hrun
  obtain ⟨hstart, hwindow, hfree⟩ := (freeRun_iff hn h.apart.nonempty).mp hrun
  have hle := firstGap_le hstart hfree
  have hlimit := h.limit
  simp only [gap?] at hgap
  rw [if_pos ⟨by omega, by omega⟩] at hgap
  cases hgap

end Heap

end Mc68k
