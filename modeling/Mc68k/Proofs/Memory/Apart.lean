import Mc68k.Proofs.Memory.Segment
import Mathlib.Data.List.Pairwise

namespace Mc68k

namespace Segments

/-- In order of address, none empty and none reaching into the next. -/
structure Apart (segments : Segments) : Prop where
  nonempty : ∀ s ∈ segments, 0 < s.bytes.size
  ordered : segments.Pairwise fun s t => s.limit ≤ t.base.toNat

theorem insert_eq (segments : Segments) (new : Segment) :
    ∃ before after, segments = before ++ after ∧ segments.insert new = before ++ new :: after ∧
      (∀ s ∈ before, s.base.toNat < new.base.toNat) ∧
      ∀ s ∈ after.head?, new.base.toNat ≤ s.base.toNat := by
  refine ⟨_, _, List.takeWhile_append_dropWhile.symm, rfl, ?_, ?_⟩
  · intro s hs
    have hlt := List.mem_takeWhile_imp hs
    exact UInt32.lt_iff_toNat_lt.mp (by simpa using hlt)
  · intro s hs
    have hle := List.head?_dropWhile_not (fun s : Segment => decide (s.base < new.base)) segments
    rw [Option.mem_def.mp hs] at hle
    have hnot : ¬ s.base < new.base := by simpa using hle
    exact Nat.le_of_not_lt fun h => hnot (UInt32.lt_iff_toNat_lt.mpr h)

theorem mem_insert {segments : Segments} {new s : Segment} :
    s ∈ segments.insert new ↔ s = new ∨ s ∈ segments := by
  obtain ⟨before, after, hsegments, hinsert, -⟩ := segments.insert_eq new
  rw [hinsert, hsegments]
  simp only [List.mem_append, List.mem_cons]
  exact or_left_comm

namespace Apart

variable {segments : Segments}

theorem nil : Apart [] :=
  ⟨fun _ h => absurd h List.not_mem_nil, .nil⟩

theorem tail {s : Segment} (h : Apart (s :: segments)) : Apart segments :=
  ⟨fun t ht => h.nonempty t (List.mem_cons_of_mem s ht), (List.pairwise_cons.mp h.ordered).2⟩

theorem insert {new : Segment} (h : Apart segments) (hnew : 0 < new.bytes.size)
    (hfree : ∀ s ∈ segments, s.limit ≤ new.base.toNat ∨ new.limit ≤ s.base.toNat) :
    Apart (segments.insert new) := by
  refine ⟨?_, ?_⟩
  · intro s hs
    rcases mem_insert.mp hs with rfl | hs
    · exact hnew
    · exact h.nonempty s hs
  · obtain ⟨before, after, rfl, hinsert, hbefore, hafter⟩ := segments.insert_eq new
    obtain ⟨hb, ha, hba⟩ := List.pairwise_append.mp h.ordered
    have hlimit (s : Segment) : s.limit = s.base.toNat + s.bytes.size := rfl
    have hbelow : ∀ s ∈ before, s.limit ≤ new.base.toNat := by
      intro s hs
      have := hbefore s hs
      have := hlimit new
      rcases hfree s (List.mem_append_left _ hs) with h | h
      · exact h
      · omega
    have habove : ∀ s ∈ after, new.limit ≤ s.base.toNat := by
      intro s hs
      have hbase : new.base.toNat ≤ s.base.toNat := by
        cases after with
        | nil => exact absurd hs List.not_mem_nil
        | cons t rest =>
          have ht := hafter t rfl
          rcases List.mem_cons.mp hs with rfl | hs
          · exact ht
          · have := (List.pairwise_cons.mp ha).1 s hs
            have := hlimit t
            omega
      have := h.nonempty s (List.mem_append_right _ hs)
      have := hlimit s
      rcases hfree s (List.mem_append_right _ hs) with h | h
      · omega
      · exact h
    rw [hinsert, List.pairwise_append]
    refine ⟨hb, List.pairwise_cons.mpr ⟨habove, ha⟩, ?_⟩
    intro s hs t ht
    rcases List.mem_cons.mp ht with rfl | ht
    · exact hbelow s hs
    · exact hba s hs t ht

theorem erase (h : Apart segments) (base : Address) : Apart (segments.erase base) where
  nonempty s hs := h.nonempty s (List.mem_of_mem_eraseP hs)
  ordered := h.ordered.sublist List.eraseP_sublist

theorem map (h : Apart segments) (f : Segment → Segment) (hf : ∀ s, (f s).extent = s.extent) :
    Apart (segments.map f) := by
  have hbase (s : Segment) : (f s).base = s.base := congrArg Extent.base (hf s)
  have hsize (s : Segment) : (f s).bytes.size = s.bytes.size := congrArg Extent.size (hf s)
  refine ⟨?_, ?_⟩
  · intro s hs
    obtain ⟨t, ht, rfl⟩ := List.mem_map.mp hs
    rw [hsize]
    exact h.nonempty t ht
  · rw [List.pairwise_map]
    refine h.ordered.imp ?_
    intro s t hst
    rw [Segment.limit, hbase, hbase, hsize]
    exact hst

theorem patch (h : Apart segments) (base addr : Address) (bytes : List UInt8) :
    Apart (segments.patch base addr bytes) := by
  apply h.map
  intro s
  split
  · exact Segment.extent_patch _ _ _
  · rfl

theorem base_ne {before after : Segments} {s : Segment} (h : Apart (before ++ s :: after)) :
    ∀ t ∈ before ++ after, t.base ≠ s.base := by
  obtain ⟨-, hs, hbefore⟩ := List.pairwise_append.mp h.ordered
  have hlimit (s : Segment) : s.limit = s.base.toNat + s.bytes.size := rfl
  intro t ht heq
  have hnat : t.base.toNat = s.base.toNat := congrArg UInt32.toNat heq
  rcases List.mem_append.mp ht with ht | ht
  · have := hbefore t ht s List.mem_cons_self
    have := h.nonempty t (List.mem_append_left _ ht)
    have := hlimit t
    omega
  · have := (List.pairwise_cons.mp hs).1 t ht
    have := h.nonempty s (List.mem_append_right _ List.mem_cons_self)
    have := hlimit s
    omega

theorem mem_takeWhile {s : Segment} {addr : Address} (h : Apart segments) (hs : s ∈ segments)
    (hle : s.base ≤ addr) : s ∈ segments.takeWhile (·.base ≤ addr) := by
  induction segments with
  | nil => exact absurd hs List.not_mem_nil
  | cons t rest ih =>
    have hlimit : t.limit = t.base.toNat + t.bytes.size := rfl
    have hnext := (List.pairwise_cons.mp h.ordered).1
    rcases List.mem_cons.mp hs with rfl | hs
    · rw [List.takeWhile_cons_of_pos (by simpa using hle)]
      exact List.mem_cons_self
    · have := hnext s hs
      have hbase : t.base ≤ addr := by
        rw [UInt32.le_iff_toNat_le] at hle ⊢
        omega
      rw [List.takeWhile_cons_of_pos (by simpa using hbase)]
      exact List.mem_cons_of_mem t (ih h.tail hs)

theorem lt_of_locate?_eq_none {addr : Address} {n : Nat} (h : Apart segments)
    (hnone : segments.locate? addr n = none) :
    ∀ s ∈ segments, s.base ≤ addr → s.limit < addr.toNat + n := by
  intro s hs hle
  have hmem := h.mem_takeWhile hs hle
  have hordered := h.ordered.sublist (List.takeWhile_sublist (·.base ≤ addr))
  rw [locate?] at hnone
  cases hlast : (segments.takeWhile (·.base ≤ addr)).getLast? with
  | none =>
    rw [List.getLast?_eq_none_iff.mp hlast] at hmem
    exact absurd hmem List.not_mem_nil
  | some last =>
    obtain ⟨init, hinit⟩ := List.getLast?_eq_some_iff.mp hlast
    rw [hlast] at hnone
    have hout : last.limit < addr.toNat + n := by
      by_contra hle
      rw [Option.filter_some, if_pos (by simpa using hle)] at hnone
      cases hnone
    rw [hinit] at hmem hordered
    rcases List.mem_append.mp hmem with hs | hs
    · have := (List.pairwise_append.mp hordered).2.2 s hs last (List.mem_singleton_self last)
      have hlimit : last.limit = last.base.toNat + last.bytes.size := rfl
      omega
    · rw [List.mem_singleton.mp hs]
      exact hout

theorem disjoint (h : Apart segments) {s t : Segment} (hs : s ∈ segments) (ht : t ∈ segments)
    (hne : s ≠ t) : s.limit ≤ t.base.toNat ∨ t.limit ≤ s.base.toNat := by
  have hsides : segments.Pairwise fun s t => s.limit ≤ t.base.toNat ∨ t.limit ≤ s.base.toNat :=
    h.ordered.imp .inl
  have hsymm : Std.Symm fun s t : Segment => s.limit ≤ t.base.toNat ∨ t.limit ≤ s.base.toNat :=
    ⟨fun _ _ => Or.symm⟩
  exact hsides.forall hs ht hne

theorem eq_of_base_eq (h : Apart segments) {s t : Segment} (hs : s ∈ segments)
    (ht : t ∈ segments) (hbase : s.base = t.base) : s = t := by
  by_contra hne
  have hspos := h.nonempty s hs
  have htpos := h.nonempty t ht
  have hsides := h.disjoint hs ht hne
  rw [Segment.limit, Segment.limit, hbase] at hsides
  omega

/-- What is found is the one segment that holds all of the range. -/
theorem locate?_eq_some_iff {addr : Address} {n : Nat} {s : Segment} (h : Apart segments)
    (hn : 0 < n) : segments.locate? addr n = some s ↔
      s ∈ segments ∧ s.base ≤ addr ∧ addr.toNat + n ≤ s.limit := by
  refine ⟨Segments.locate?_eq_some, ?_⟩
  rintro ⟨hs, hbase, hlimit⟩
  cases hlocate : segments.locate? addr n with
  | none =>
    have := h.lt_of_locate?_eq_none hlocate s hs hbase
    omega
  | some t =>
    obtain ⟨ht, hbase', hlimit'⟩ := Segments.locate?_eq_some hlocate
    rw [UInt32.le_iff_toNat_le] at hbase hbase'
    by_contra hne
    have := h.disjoint hs ht fun heq => hne (by rw [heq])
    omega

end Apart

theorem at?_eq_none {segments : Segments} {base : Address} :
    segments.at? base = none ↔ ∀ s ∈ segments, s.base ≠ base := by
  simp [at?]

theorem erase_eq {segments : Segments} {base : Address} {s : Segment}
    (h : segments.at? base = some s) :
    s.base = base ∧ ∃ before after, segments = before ++ s :: after ∧
      segments.erase base = before ++ after := by
  obtain ⟨hs, before, after, rfl, hbefore⟩ := List.find?_eq_some_iff_append.mp h
  refine ⟨by simpa using hs, before, after, rfl, ?_⟩
  rw [erase, List.eraseP_append_right _ (by simpa using hbefore),
    List.eraseP_cons_of_pos (p := fun t : Segment => t.base == base) hs]

theorem patch_eq {before after : Segments} {s : Segment} (h : Apart (before ++ s :: after))
    (addr : Address) (bytes : List UInt8) :
    Segments.patch (before ++ s :: after) s.base addr bytes =
      before ++ s.patch addr bytes :: after := by
  have hothers := h.base_ne
  have hkeep (segments : Segments) (hne : ∀ t ∈ segments, t.base ≠ s.base) :
      segments.patch s.base addr bytes = segments := by
    refine (List.map_congr_left ?_).trans (List.map_id segments)
    intro t ht
    exact if_neg (hne t ht)
  have hbefore := hkeep before fun t ht => hothers t (List.mem_append_left _ ht)
  have hafter := hkeep after fun t ht => hothers t (List.mem_append_right _ ht)
  simp only [patch] at hbefore hafter ⊢
  rw [List.map_append, List.map_cons, hbefore, hafter, if_pos rfl]

end Segments

end Mc68k
