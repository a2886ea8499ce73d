import Mc68k.Proofs.Host.NewPtr
import Mc68k.Proofs.Memory.Bytes

namespace Mc68k

theorem Memory.admits_update (m : Memory) (addr : Address) (n : Nat) (fc : FunctionCode) :
    m.admits addr n fc .update = m.admits addr n fc .write := by
  cases m with
  | flat ram => simp only [admits_flat]
  | mapped map =>
    have hallows (p : Protection) : p.allows fc .update = p.allows fc .write := rfl
    simp only [admits_mapped, MemoryMap.admit?, hallows]

theorem Machine.request_update {m : Machine} {addr : Address} {n : Nat} {fc : FunctionCode}
    (h : m.memory.admits addr n fc .write = true) :
    ∃ found cycles, m.request addr n fc .update =
      (some found, { m with memory := m.memory.noteUpdate addr n, cycles }) := by
  rw [← Memory.admits_update] at h
  obtain ⟨found, hfound⟩ := Option.isSome_iff_exists.mp h
  refine ⟨found, ⟨addr, n, fc, .update, some found⟩ :: m.cycles, ?_⟩
  simp [request, Memory.request, hfound]

namespace Host

/-- The target holds what the source held, and is the last range noted as modified. -/
structure Moves (map map' : MemoryMap) (source target : Address) (n : UInt32) : Prop where
  moved (i : Nat) (h : i < n.toNat) : ∃ byte,
    (Memory.mapped map).byte? (source + UInt32.ofNat i) = some byte ∧
      (Memory.mapped map').byte? (target + UInt32.ofNat i) = some byte
  others (x : Address) (h : x.toNat < target.toNat ∨ target.toNat + n.toNat ≤ x.toNat) :
    (Memory.mapped map').byte? x = (Memory.mapped map).byte? x
  shape : (Memory.mapped map').shape = (Memory.mapped map).shape
  updates : map'.updates = map.updates ++ [(target, target + n)]

theorem copy_of_admits {m : Machine} {source target : Address} {n : Nat} {bytes : List UInt8}
    (hread : m.memory.view? source n .userData .read = some bytes)
    (hwrite : m.memory.admits target n .userData .write = true) :
    ∃ cycles, copy m source target n =
      (true, { m with memory := (m.memory.patch target bytes).noteUpdate target n, cycles }) := by
  obtain rfl := Memory.length_view? hread
  have hfound : m.request source bytes.length .userData .read = (some bytes,
      { m with cycles := m.cycle source bytes.length .userData .read :: m.cycles }) := by
    rw [m.request_eq source bytes.length .userData (by decide), hread]
  obtain ⟨cycles, hstore⟩ : ∃ cycles, Machine.store { m with
      cycles := m.cycle source bytes.length .userData .read :: m.cycles } target bytes .userData =
        (true, { m with memory := m.memory.patch target bytes, cycles }) :=
    ⟨_, Machine.store_of_admits _ target bytes .userData hwrite⟩
  obtain ⟨found, cycles', hnoted⟩ :=
    Machine.request_update (m := { m with memory := m.memory.patch target bytes, cycles })
      ((Memory.admits_patch _ _ _ _ _ _ _).trans hwrite)
  refine ⟨cycles', ?_⟩
  rw [copy, hfound]
  simp only [hstore, hnoted, Option.isSome_some]

theorem copy_of_refused {m : Machine} {source target : Address} {n : Nat}
    (h : ¬(m.memory.admits source n .userData .read = true ∧
      m.memory.admits target n .userData .write = true)) :
    ∃ cycles, copy m source target n = (false, { m with cycles }) := by
  let cycles := m.cycle source n .userData .read :: m.cycles
  have hrequest : m.request source n .userData .read =
      (m.memory.view? source n .userData .read, { m with cycles }) :=
    m.request_eq source n .userData (by decide)
  cases hread : m.memory.view? source n .userData .read with
  | none =>
    rw [copy, hrequest, hread]
    exact ⟨_, rfl⟩
  | some bytes =>
    have hwrite : m.memory.admits target bytes.length .userData .write = false := by
      rw [Memory.length_view? hread]
      exact Bool.eq_false_iff.mpr fun hw => h ⟨Memory.admits_of_view? hread, hw⟩
    have hstore := Machine.store_of_not_admits { m with cycles } target bytes .userData hwrite
    simp only [copy, hrequest, hread, hstore]
    exact ⟨_, rfl⟩

theorem moves_patch {map : MemoryMap} (h : map.Orderly) {source target : Address} {n : UInt32}
    {bytes : List UInt8}
    (hread : (Memory.mapped map).view? source n.toNat .userData .read = some bytes)
    (hwrite : (Memory.mapped map).admits target n.toNat .userData .write = true) :
    Moves map ((map.patch target bytes).noteUpdate target n.toNat) source target n := by
  have hlength := Memory.length_view? hread
  have horderly : (Memory.mapped map).Orderly := h
  rw [← hlength] at hwrite
  refine ⟨?_, ?_, ?_, ?_⟩
  · intro i hi
    have hi' : i < bytes.length := hlength ▸ hi
    refine ⟨bytes[i], ?_, ?_⟩
    · rw [horderly.byte?_of_view? hread hi]
      exact List.getElem?_eq_getElem hi'
    · apply (horderly.byte?_patch hwrite hi').trans
      exact List.getElem?_eq_getElem hi'
  · intro x hx
    rw [← hlength] at hx
    exact Memory.byte?_patch (.mapped map) target bytes x hx
  · exact Memory.shape_patch (.mapped map) target bytes
  · simp only [MemoryMap.noteUpdate, MemoryMap.updates_patch, UInt32.ofNat_toNat]

/-- BlockMove moves A0's bytes to A1 where both ranges are admitted, and otherwise fails with -50.
-/
theorem blockMove_moves (host : Host) {m : Machine} {map : MemoryMap}
    (hm : m.memory = .mapped map) (h : map.Reached) :
    let m' := ((table host).invoke HostCall.blockMove.number m).2
    let source := m.regs.a .zero
    let target := m.regs.a .one
    let n := m.regs.d .zero
    if (Memory.mapped map).admits source n.toNat .userData .read = true ∧
        (Memory.mapped map).admits target n.toNat .userData .write = true then
      m'.regs.d .zero = 0 ∧ ∃ map', m'.memory = .mapped map' ∧ Moves map map' source target n
    else m'.regs.d .zero = -50 ∧ m'.memory = .mapped map := by
  intro m' source target n
  have hm' : m' = (blockMove m).2 := by simp only [m', invoke_table, handler]
  rw [← hm]
  split
  next hadmits =>
    obtain ⟨bytes, hread⟩ := Option.isSome_iff_exists.mp hadmits.1
    obtain ⟨cycles, hcopy⟩ := copy_of_admits hread hadmits.2
    rw [hm', blockMove, hcopy]
    refine ⟨Registers.d_setD_self _ _ _, (map.patch target bytes).noteUpdate target n.toNat, ?_, ?_⟩
    · simp only [resume, modifyRegs, hm, Memory.patch, Memory.noteUpdate]
    · rw [hm] at hread hadmits
      exact moves_patch h.orderly hread hadmits.2
  next hrefused =>
    obtain ⟨cycles, hcopy⟩ := copy_of_refused hrefused
    rw [hm', blockMove, hcopy]
    exact ⟨Registers.d_setD_self _ _ _, rfl⟩

/-- Three bytes go up by one, over each other. -/
theorem blockMove_moves_overlap :
    let map := (MemoryMap.withHeap (Heap.new 0x40000000 0x01000000)).run
      [.map 0x1000 (Bank.zeros 8) .ram, .load 0x1000 [1, 2, 3, 4]]
    let regs := (((Registers.initial.setA .zero 0x1000).setA .one 0x1001).setD .zero 3)
    let m : Machine := { Machine.new .m68000 (.mapped map) with regs }
    let m' := ((table ⟨false, fun _ => .error .invalidPath⟩).invoke 13 m).2
    m'.regs.d .zero = 0 ∧ (∃ map', m'.memory = .mapped map' ∧ Moves map map' 0x1000 0x1001 3) ∧
      m'.memory.view? 0x1000 5 .userData .read = some [1, 1, 2, 3, 0] := by
  intro map regs m m'
  have hreached : map.Reached := ⟨0x40000000, 0x01000000, _, _, .withHeap, rfl⟩
  have hmoves := blockMove_moves ⟨false, fun _ => .error .invalidPath⟩ (m := m) rfl hreached
  rw [if_pos (by decide +kernel)] at hmoves
  exact ⟨hmoves.1, hmoves.2, by decide +kernel⟩

end Host

end Mc68k
