import Mc68k.Operands
import Mc68k.Proofs.Arithmetic.Number
import Mc68k.Proofs.Execution.Path
import Mc68k.Proofs.Memory.Bytes

namespace Mc68k

theorem merge_and_mask (old new : UInt32) (size : Size) :
    merge old new size &&& size.mask = new &&& size.mask := by
  apply UInt32.eq_of_toBitVec_eq
  ext i hi
  simp [merge]
  grind

theorem merge_and_not_mask (old new : UInt32) (size : Size) :
    merge old new size &&& ~~~size.mask = old &&& ~~~size.mask := by
  apply UInt32.eq_of_toBitVec_eq
  ext i hi
  simp [merge]
  grind

theorem signExtend_merge (old new : UInt32) (size : Size) :
    signExtend (merge old new size) size = signExtend new size := by
  rw [← signExtend_and_mask, merge_and_mask, signExtend_and_mask]

/-- Condition codes that tell the sign of a value, and whether it is zero. -/
structure Status.Tells (sr sr' : UInt16) (value : UInt32) : Prop where
  negative : has sr' N = decide (value.toInt32 < 0)
  zero : has sr' Z = decide (value = 0)
  overflow : has sr' V = false
  carry : has sr' C = false
  extend : has sr' X = has sr X

theorem Status.tells_logical (sr : UInt16) (value : UInt32) (size : Size) :
    Tells sr (logical sr value size) (signExtend value size) := by
  refine ⟨?_, ?_, has_logical_V .., has_logical_C .., has_logical_X ..⟩
  · rw [has_logical_N_eq_top, Size.top_eq_decide, ← Size.number_signExtend, Size.number_long_signed]
    simp only [Int32.lt_iff_toInt_lt, Int32.toInt_zero]
  · rw [has_logical_Z, beq_eq_decide]

namespace Operands

open Exec Machine

variable {p : Operands} {flags : InstructionFlags} {m m' : Machine}

/-- What a load finds after a store. -/
def stored (p : Operands) : UInt32 :=
  match p.target with
  | .address _ => p.result
  | _ => signExtend p.result p.size

def LeavesCodes (p : Operands) (flags : InstructionFlags) : Prop :=
  (∃ n, p.target = .address n) ∨ flags.contains .setsCcr = true

structure Stored (p : Operands) (flags : InstructionFlags) (m m' : Machine) : Prop where
  data (n : RegisterNumber) (h : p.target = .data n) :
    m'.regs.d n &&& p.size.mask = p.result &&& p.size.mask ∧
      m'.regs.d n &&& ~~~p.size.mask = m.regs.d n &&& ~~~p.size.mask ∧
      m' = { m with regs := { m.regs.setD n (m'.regs.d n) with sr := m'.regs.sr } }
  /-- An address register is the result; A7 is the active stack pointer. -/
  address (n : RegisterNumber) (h : p.target = .address n) :
    m'.regs.a n = p.result ∧ (n.val = 7 → m'.regs.sp = p.result) ∧
      m' = { m with regs := m.regs.setA n p.result }
  memory (h : p.target = .memory) :
    m'.memory.view? p.address p.size.bytes m.dataSpace .read =
        some (toBigEndian p.result p.size) ∧
      m.memory.SameBut p.address.toNat (p.address.toNat + p.size.bytes) m'.memory ∧
      m' = { m with
        regs := { m.regs with sr := m'.regs.sr }
        memory := m'.memory
        cycles := m'.cycles }
  kept (h : p.LeavesCodes flags) : m'.regs.sr = m.regs.sr
  codes (h : ¬p.LeavesCodes flags) :
    Status.Tells m.regs.sr m'.regs.sr (signExtend p.result p.size)
  system : Status.system m'.regs.sr = Status.system m.regs.sr
  loads : ∃ cycles, p.load m' = .ok { p with second := p.stored } { m' with cycles }

def statusAfter (p : Operands) (flags : InstructionFlags) (sr : UInt16) : UInt16 :=
  if flags.contains .setsCcr then sr else Status.logical sr p.result p.size

theorem setCodes_eq (p : Operands) (flags : InstructionFlags) (m : Machine) :
    p.setCodes flags m =
      .ok () { m with regs := { m.regs with sr := p.statusAfter flags m.regs.sr } } := by
  rw [setCodes, statusAfter]
  split
  · rfl
  · rfl

theorem codes_statusAfter (p : Operands) (flags : InstructionFlags) (sr : UInt16)
    (htarget : ∀ n, p.target ≠ .address n) :
    (p.LeavesCodes flags → p.statusAfter flags sr = sr) ∧
      (¬p.LeavesCodes flags → Status.Tells sr (p.statusAfter flags sr)
        (signExtend p.result p.size)) ∧
      Status.system (p.statusAfter flags sr) = Status.system sr := by
  have hleaves : p.LeavesCodes flags ↔ flags.contains .setsCcr = true := by
    refine ⟨?_, .inr⟩
    rintro (⟨n, hn⟩ | hflag)
    · exact absurd hn (htarget n)
    · exact hflag
  rw [hleaves, statusAfter]
  split
  next hflag => exact ⟨fun _ => rfl, fun h => absurd hflag h, rfl⟩
  next hflag => exact ⟨fun h => absurd h hflag, fun _ => Status.tells_logical .., by simp⟩

section

variable {n : RegisterNumber}

theorem load_data (htarget : p.target = .data n) :
    p.load m = .ok { p with second := signExtend (m.regs.d n) p.size } m := by
  simp only [load, htarget]
  rfl

theorem load_address (htarget : p.target = .address n) :
    p.load m = .ok { p with second := m.regs.a n } m := by
  simp only [load, htarget]
  rfl

theorem load_memory {bytes : List UInt8} (htarget : p.target = .memory)
    (ha : m.isMisaligned p.address p.size = false)
    (hview : m.memory.view? p.address p.size.bytes m.dataSpace .read = some bytes) :
    p.load m = .ok { p with second := signExtend (ofBigEndian bytes) p.size }
      { m with cycles := m.cycle p.address p.size.bytes m.dataSpace .read :: m.cycles } := by
  have hread : readData p.address p.size m = .ok (ofBigEndian bytes)
      { m with cycles := m.cycle p.address p.size.bytes m.dataSpace .read :: m.cycles } := by
    rw [readData, bind_get]
    exact read_of_view? ha hview
  simp only [load, htarget]
  rw [bind_ok hread]
  rfl

variable (hstores : flags.contains .storesResult = true)

include hstores

theorem store_data (htarget : p.target = .data n) : p.store flags m = .ok () { m with
    regs := { m.regs.setD n (merge (m.regs.d n) p.result p.size) with
      sr := p.statusAfter flags m.regs.sr } } := by
  simp only [store, if_pos hstores, htarget]
  rw [bind_ok (setCodes_eq p flags m)]
  rfl

theorem store_address (htarget : p.target = .address n) :
    p.store flags m = .ok () { m with regs := m.regs.setA n p.result } := by
  simp only [store, if_pos hstores, htarget]
  rfl

theorem store_memory (htarget : p.target = .memory) : p.store flags m =
    writeData p.address p.size p.result
      { m with regs := { m.regs with sr := p.statusAfter flags m.regs.sr } } := by
  simp only [store, if_pos hstores, htarget]
  rw [bind_ok (setCodes_eq p flags m)]

theorem stored_data (htarget : p.target = .data n) (h : p.store flags m = .ok () m') :
    p.Stored flags m m' := by
  rw [store_data hstores htarget] at h
  obtain ⟨-, hm'⟩ := EStateM.Result.ok.inj h
  have hd : m'.regs.d n = merge (m.regs.d n) p.result p.size := by
    rw [← hm']
    exact m.regs.d_setD_self n _
  have hsr : m'.regs.sr = p.statusAfter flags m.regs.sr := by rw [← hm']
  obtain ⟨hkept, hcodes, hsystem⟩ := codes_statusAfter p flags m.regs.sr (by simp [htarget])
  rw [← hsr] at hkept hcodes hsystem
  refine ⟨?_, by simp [htarget], by simp [htarget], hkept, hcodes, hsystem, m'.cycles, ?_⟩
  · intro k hk
    obtain rfl : n = k := by simpa [htarget] using hk
    rw [hd, hsr]
    exact ⟨merge_and_mask _ _ _, merge_and_not_mask _ _ _, hm'.symm⟩
  · rw [load_data htarget, hd, signExtend_merge]
    simp only [stored, htarget]

theorem stored_address (htarget : p.target = .address n) (h : p.store flags m = .ok () m') :
    p.Stored flags m m' := by
  rw [store_address hstores htarget] at h
  obtain ⟨-, hm'⟩ := EStateM.Result.ok.inj h
  have ha : m'.regs.a n = p.result := by
    rw [← hm']
    exact m.regs.a_setA_self n _
  have hsr : m'.regs.sr = m.regs.sr := by
    rw [← hm']
    exact m.regs.sr_setA n _
  have hleaves : p.LeavesCodes flags := .inl ⟨n, htarget⟩
  refine ⟨by simp [htarget], ?_, by simp [htarget], fun _ => hsr, fun h => absurd hleaves h,
    by rw [hsr], m'.cycles, ?_⟩
  · intro k hk
    obtain rfl : n = k := by simpa [htarget] using hk
    refine ⟨ha, ?_, hm'.symm⟩
    intro hseven
    rw [Registers.a, dif_neg (by omega)] at ha
    exact ha
  · rw [load_address htarget, ha]
    simp only [stored, htarget]

theorem stored_memory (htarget : p.target = .memory) (h : p.store flags m = .ok () m') :
    p.Stored flags m m' := by
  rw [store_memory hstores htarget] at h
  obtain ⟨hkept, hcodes, hsystem⟩ := codes_statusAfter p flags m.regs.sr (by simp [htarget])
  obtain ⟨haligned, hwrite, hm'⟩ := writeData_eq_ok h
  have hn := length_toBigEndian p.result p.size
  have hsr : m'.regs.sr = p.statusAfter flags m.regs.sr := by rw [hm']
  have hsupervisor : m'.regs.isSupervisor = m.regs.isSupervisor := by
    rw [Registers.isSupervisor, hsr]
    exact Status.has_S_of_system_eq hsystem
  have hspace : m'.dataSpace = m.dataSpace := by rw [dataSpace, dataSpace, hsupervisor]
  have hmemory : m'.memory = m.memory.patch p.address (toBigEndian p.result p.size) := by rw [hm']
  have hview : m'.memory.view? p.address p.size.bytes m.dataSpace .read =
      some (toBigEndian p.result p.size) := by
    have hread : m.memory.admits p.address p.size.bytes m.dataSpace .read = true := by
      rw [← hspace, hm']
      exact Memory.admits_read_of_write hwrite
    rw [← hn] at hread ⊢
    rw [hmemory]
    exact Memory.view?_patch _ _ _ _ _ hread
  have hsame := Memory.SameBut.patch m.memory p.address (toBigEndian p.result p.size)
  rw [hn, ← hmemory] at hsame
  have haligned' : m'.isMisaligned p.address p.size = false := by
    rw [hm']
    exact haligned
  rw [← hsr] at hkept hcodes hsystem
  refine ⟨by simp [htarget], by simp [htarget], fun _ => ⟨hview, hsame, ?_⟩, hkept, hcodes,
    hsystem, m'.cycle p.address p.size.bytes m'.dataSpace .read :: m'.cycles, ?_⟩
  · rw [hm']
  · rw [load_memory htarget haligned' (by rw [hspace, hview]), ofBigEndian_toBigEndian,
      signExtend_and_mask]
    simp only [stored, htarget]

end

/-- A result that was stored is what a load finds, and only its target and the condition codes have
changed; where it could not be stored, memory is as it was. -/
theorem store_load (hstores : flags.contains .storesResult = true) (htarget : p.target ≠ .none)
    (m m' : Machine) :
    (p.store flags m = .ok () m' → p.Stored flags m m') ∧
      ∀ e, p.store flags m = .error e m' → m'.memory = m.memory := by
  cases h : p.target with
  | none => exact absurd h htarget
  | data n =>
    refine ⟨stored_data hstores h, ?_⟩
    intro e herror
    rw [store_data hstores h] at herror
    cases herror
  | address n =>
    refine ⟨stored_address hstores h, ?_⟩
    intro e herror
    rw [store_address hstores h] at herror
    cases herror
  | memory =>
    refine ⟨stored_memory hstores h, ?_⟩
    intro e herror
    rw [store_memory hstores h] at herror
    have hsame := memory_of_writeData_error herror
    exact hsame

/-- A word at an odd address of a model that reaches it. -/
theorem store_load_odd :
    let p : Operands :=
      { Operands.new .word with target := .memory, address := 5, result := 0x1ABCD }
    let m : Machine := Machine.new .m68020 (.flat (.new 16 0))
    ∃ m', p.store .modifies m = .ok () m' ∧ p.Stored .modifies m m' ∧
      m'.memory.view? 4 4 .supervisorData .read = some [0, 0xAB, 0xCD, 0] ∧
      p.stored = 0xFFFFABCD := by
  intro p m
  have hstore := eq_ok_left (r := p.store .modifies m) (by decide +kernel)
  refine ⟨_, hstore, ?_, by decide +kernel, by decide⟩
  exact (store_load (by decide) (by decide) m _).1 hstore

end Operands

end Mc68k
