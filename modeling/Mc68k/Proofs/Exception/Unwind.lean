import Mc68k.Proofs.BigEndian
import Mc68k.Proofs.Exception.Frame

namespace Mc68k

/-- Where an exception returns to: to the instruction that it interrupted, or past it. -/
def Exception.returnAddress (e : Exception) (m : Machine) : Address :=
  if e.isFault then m.instructionPc else m.regs.pc

theorem Exception.frameFormat_cases (e : Exception) (model : Model) :
    e.frameFormat model = 0 ∨ e.frameFormat model = 2 := by
  rw [frameFormat.eq_def]
  split
  all_goals first | exact .inl rfl | (split <;> simp)

theorem Exception.format_formatWord (e : Exception) (model : Model) :
    (e.formatWord model).toUInt32.toNat / 4096 = e.frameFormat model := by
  have hv := e.vector_lt
  have hf := e.frameFormat_cases model
  rw [UInt16.toNat_toUInt32, formatWord, UInt16.toNat_ofNat']
  omega

theorem and_eq_of_and_not_eq_zero {sr mask : UInt16} (h : sr &&& ~~~mask = 0) :
    sr &&& mask = sr := by
  apply UInt16.eq_of_toBitVec_eq
  ext i hi
  have h' : (sr &&& ~~~mask).toBitVec[i] = (0 : UInt16).toBitVec[i] := by rw [h]
  simp at h' ⊢
  grind

theorem Model.and_not_srMask_supervised (model : Model) (sr : UInt16)
    (h : sr &&& ~~~model.srMask = 0) :
    ((sr ||| Status.S) &&& ~~~(Status.T1 ||| Status.T0)) &&& ~~~model.srMask = 0 := by
  have hs : Status.S &&& ~~~model.srMask = 0 := by cases model <;> decide
  apply UInt16.eq_of_toBitVec_eq
  ext i hi
  have h' : (sr &&& ~~~model.srMask).toBitVec[i] = (0 : UInt16).toBitVec[i] := by rw [h]
  have hs' : (Status.S &&& ~~~model.srMask).toBitVec[i] = (0 : UInt16).toBitVec[i] := by rw [hs]
  simp at h' hs' ⊢
  grind

namespace Machine

theorem add_eq_of_toNat {ssp top : Address} {n : Nat} (h : ssp.toNat + n = top.toNat) :
    ssp + UInt32.ofNat n = top := by
  have htop := top.toNat_lt
  apply UInt32.toNat_inj.mp
  rw [UInt32.toNat_add, UInt32.toNat_ofNat']
  omega

theorem toNat_sub_ofNat {ssp top : Address} {n k : Nat} (h : ssp.toNat + (n + k) = top.toNat) :
    ssp.toNat + n = (top - UInt32.ofNat k).toNat := by
  have htop := top.toNat_lt
  rw [UInt32.toNat_sub, UInt32.toNat_ofNat']
  omega

theorem sub_eq_add {ssp top : Address} {n k : Nat} (h : ssp.toNat + (n + k) = top.toNat) :
    top - UInt32.ofNat k = ssp + UInt32.ofNat n :=
  (add_eq_of_toNat (toNat_sub_ofNat h)).symm

variable {m : Machine} {top : Address} {pc : Address} {sr word : UInt16}

theorem Holds.state (h : m.Holds top [(.long, pc), (.word, sr.toUInt32)])
    (hssp : m.regs.ssp.toNat + 6 = top.toNat) :
    m.Finds m.regs.ssp .word sr.toUInt32 ∧ m.Finds (m.regs.ssp + 2) .long pc := by
  have hlong : top - 4 = m.regs.ssp + 2 := sub_eq_add (n := 2) (k := 4) hssp
  have hword : m.regs.ssp + 2 - 2 = m.regs.ssp := UInt32.add_sub_cancel _ _
  obtain ⟨hpc, hsr, -⟩ := h
  rw [show UInt32.ofNat Size.long.bytes = 4 from rfl, hlong] at hpc hsr
  rw [show UInt32.ofNat Size.word.bytes = 2 from rfl, hword] at hsr
  exact ⟨hsr, hpc⟩

theorem Holds.format (h : m.Holds top [(.word, word.toUInt32), (.long, pc), (.word, sr.toUInt32)])
    (hssp : m.regs.ssp.toNat + 8 = top.toNat) :
    m.Finds (m.regs.ssp + 6) .word word.toUInt32 ∧
      m.Finds m.regs.ssp .word sr.toUInt32 ∧ m.Finds (m.regs.ssp + 2) .long pc := by
  have hword : top - 2 = m.regs.ssp + 6 := sub_eq_add (n := 6) (k := 2) hssp
  obtain ⟨hformat, hrest⟩ := h
  rw [show UInt32.ofNat Size.word.bytes = 2 from rfl] at hformat hrest
  rw [hword] at hformat
  exact ⟨hformat, hrest.state (toNat_sub_ofNat (n := 6) (k := 2) hssp)⟩

end Machine

namespace Exec

open Machine

theorem read_of_finds {m : Machine} {addr : Address} {size : Size} {value : UInt32}
    (h : m.Finds addr size value) :
    read addr size .supervisorData m = .ok (ofBigEndian (toBigEndian value size))
      { m with cycles := m.cycle addr size.bytes .supervisorData .read :: m.cycles } := by
  obtain ⟨ha, hview⟩ := h
  exact read_of_view? ha hview

theorem reads_state {m : Machine} {pc : Address} {sr : UInt16}
    (hsr : m.Finds m.regs.ssp .word sr.toUInt32) (hpc : m.Finds (m.regs.ssp + 2) .long pc) :
    ∃ m₁ m₂, read m.regs.ssp .word .supervisorData m = .ok sr.toUInt32 m₁ ∧
      read (m.regs.ssp + 2) .long .supervisorData m₁ = .ok pc m₂ ∧
      ∃ cycles, m₂ = { m with cycles } := by
  have hread := read_of_finds hsr
  rw [ofBigEndian_toBigEndian_word] at hread
  have hread' (cycles : List BusCycle) := read_of_finds (m := { m with cycles }) hpc
  simp only [ofBigEndian_toBigEndian_long] at hread'
  exact ⟨_, _, hread, hread' _, _, rfl⟩

theorem returnFromException_short {m : Machine} {top pc : Address} {sr : UInt16}
    (hf : m.model.hasFrameFormats = false) (hssp : m.regs.ssp.toNat + 6 = top.toNat)
    (hholds : m.Holds top [(.long, pc), (.word, sr.toUInt32)]) :
    ∃ cycles, returnFromException m = .ok () { m with
      regs := { m.regs with ssp := top, sr := sr &&& m.model.srMask, pc }, cycles } := by
  obtain ⟨hsr, hpc⟩ := hholds.state hssp
  obtain ⟨m₁, m₂, hread, hread', cycles, rfl⟩ := reads_state hsr hpc
  have htop : m.regs.ssp + 6 = top := add_eq_of_toNat hssp
  refine ⟨cycles, ?_⟩
  rw [returnFromException, bind_regs, bind_ok hread, bind_ok hread', bind_get]
  simp only [hf, Bool.false_eq_true, if_false, UInt16.toUInt16_toUInt32]
  rw [← htop]
  rfl

theorem returnFromException_format {m : Machine} {top mid pc : Address} {sr word : UInt16}
    {n : Nat} (hf : m.model.hasFrameFormats = true) (hssp : m.regs.ssp.toNat + n = top.toNat)
    (hsize : frameSize? (word.toUInt32.toNat / 4096) = some (UInt32.ofNat n))
    (hmid : m.regs.ssp.toNat + 8 = mid.toNat)
    (hholds : m.Holds mid [(.word, word.toUInt32), (.long, pc), (.word, sr.toUInt32)]) :
    ∃ cycles, returnFromException m = .ok () { m with
      regs := { m.regs with ssp := top, sr := sr &&& m.model.srMask, pc }, cycles } := by
  obtain ⟨hformat, hsr, hpc⟩ := hholds.format hmid
  obtain ⟨m₁, m₂, hread, hread', cycles, rfl⟩ := reads_state hsr hpc
  have hword := read_of_finds (m := { m with cycles }) hformat
  rw [ofBigEndian_toBigEndian_word] at hword
  have htop := add_eq_of_toNat hssp
  refine ⟨{ m with cycles }.cycle (m.regs.ssp + 6) 2 .supervisorData .read :: cycles, ?_⟩
  rw [returnFromException, bind_regs, bind_ok hread, bind_ok hread', bind_get]
  simp only [hf, if_true]
  rw [bind_ok hword]
  simp only [hsize, UInt16.toUInt16_toUInt32]
  rw [← htop]
  rfl

/-- RTE undoes the entry to an exception whose frame is on top of the stack. -/
theorem returnFromException_of_frame {e : Exception} {m₀ m : Machine}
    (hmodel : m.model = m₀.model) (hgroup : m₀.model = .m68000 → e.isGroupZero = false)
    (hssp : m.regs.ssp.toNat + (e.frame m₀).size = m₀.regs.ssp.toNat)
    (hholds : m.Holds m₀.regs.ssp (e.frame m₀)) :
    ∃ m', returnFromException m = .ok () m' ∧
      m'.regs = { m.regs with
        ssp := m₀.regs.ssp
        sr := m₀.regs.sr &&& m₀.model.srMask
        pc := e.returnAddress m₀ } ∧
      m'.model = m₀.model ∧ m'.memory = m.memory := by
  rw [Exception.frame, ← hmodel] at hssp hholds
  cases hf : m.model.hasFrameFormats with
  | false =>
    have hzero : e.isGroupZero = false := by
      apply hgroup
      rw [← hmodel]
      revert hf
      cases m.model <;> decide
    simp only [hf, hzero, Bool.false_eq_true, if_false] at hssp hholds
    obtain ⟨_, hreturn⟩ := returnFromException_short hf hssp hholds
    exact ⟨_, hreturn, by rw [hmodel]; rfl, hmodel, rfl⟩
  | true =>
    have hformat := e.format_formatWord m.model
    by_cases h2 : e.frameFormat m.model = 2
    · simp only [hf, h2, if_true, List.cons_append, List.nil_append, Frame.size] at hssp hholds
      obtain ⟨-, hrest⟩ := hholds
      have hmid : m.regs.ssp.toNat + 8 = (m₀.regs.ssp - 4).toNat :=
        toNat_sub_ofNat (n := 8) (k := 4) hssp
      obtain ⟨_, hreturn⟩ :=
        returnFromException_format (n := 12) hf hssp (by rw [hformat, h2]; rfl) hmid hrest
      exact ⟨_, hreturn, by rw [hmodel]; rfl, hmodel, rfl⟩
    · have h0 := e.frameFormat_cases m.model
      simp only [hf, h2, if_true, if_false, List.nil_append, Frame.size] at hssp hholds
      have hzero : e.frameFormat m.model = 0 := by omega
      obtain ⟨_, hreturn⟩ :=
        returnFromException_format (n := 8) hf hssp (by rw [hformat, hzero]; rfl) hssp hholds
      exact ⟨_, hreturn, by rw [hmodel]; rfl, hmodel, rfl⟩

def unwind : Nat → Exec Unit
  | 0 => pure ()
  | n + 1 => do
    unwind n
    returnFromException

end Exec

namespace Machine

theorem condition_raise_of_halted {m : Machine} (e : Exception) (h : m.condition = .halted) :
    (m.raise e).condition = .halted := by
  have hraised := m.raised e
  generalize m.raise e = m' at hraised
  cases hraised with
  | @handled m' handler hstacked =>
    have hc : m'.condition = .halted := hstacked.condition.trans h
    simp [hc]
  | halted => rfl

theorem condition_foldl_raise_of_halted {m : Machine} (es : List Exception)
    (h : m.condition = .halted) : (es.foldl raise m).condition = .halted := by
  induction es generalizing m with
  | nil => exact h
  | cons e es ih => exact ih (condition_raise_of_halted e h)

structure Entered (e : Exception) (m m' : Machine) : Prop where
  model : m'.model = m.model
  regs : m'.regs = { m.supervised.regs with ssp := m'.regs.ssp, pc := m'.regs.pc }
  ssp : m'.regs.ssp.toNat + (e.frame m).size = m.regs.ssp.toNat
  holds : m'.Holds m.regs.ssp (e.frame m)
  view? (addr : Address) (k : Nat) (h : m.regs.ssp.toNat ≤ addr.toNat) :
    m'.memory.view? addr k .supervisorData .read = m.memory.view? addr k .supervisorData .read

theorem entered_of_running {m : Machine} {e : Exception}
    (running : (m.raise e).condition ≠ .halted) : Entered e m (m.raise e) := by
  have hraised := m.raised e
  generalize m.raise e = m₁ at hraised running
  cases hraised with
  | halted => exact absurd rfl running
  | @handled m' handler hstacked hholds =>
    have hssp : m'.regs.ssp.toNat + (e.frame m).size = m.regs.ssp.toNat := hstacked.ssp
    have htop : (e.frame m).size ≤ m.regs.ssp.toNat := by omega
    refine ⟨hstacked.model, ?_, hssp, hholds.of_view rfl htop fun _ _ _ => rfl, ?_⟩
    · rw [hstacked.regs]
    · exact fun addr k h => hstacked.view? addr k _ _ (.inr h)

/-- Returns from exceptions restore the registers that the first of them found, and find what lay
above its stack pointer as it was. -/
theorem unwind_foldl_raise (es : List Exception) (m : Machine)
    (hsr : m.regs.sr &&& ~~~m.model.srMask = 0)
    (hgroup : m.model = .m68000 → ∀ e ∈ es, e.isGroupZero = false)
    (running : (es.foldl raise m).condition ≠ .halted) :
    ∃ m', Exec.unwind es.length (es.foldl raise m) = .ok () m' ∧
      m'.regs = { m.regs with pc := m'.regs.pc } ∧
      (∀ e ∈ es.head?, m'.regs.pc = e.returnAddress m) ∧
      m'.model = m.model ∧
      ∀ (addr : Address) (k : Nat), m.regs.ssp.toNat ≤ addr.toNat →
        m'.memory.view? addr k .supervisorData .read =
          m.memory.view? addr k .supervisorData .read := by
  induction es generalizing m with
  | nil => exact ⟨m, rfl, rfl, by simp, rfl, fun _ _ _ => rfl⟩
  | cons e es ih =>
    have hentered : Entered e m (m.raise e) := entered_of_running fun h =>
      running (condition_foldl_raise_of_halted es h)
    simp only [List.foldl_cons] at running ⊢
    generalize m.raise e = m₁ at hentered running
    have hssp := hentered.ssp
    have hsr₁ : m₁.regs.sr &&& ~~~m₁.model.srMask = 0 := by
      rw [hentered.model, hentered.regs]
      exact m.model.and_not_srMask_supervised m.regs.sr hsr
    have hgroup₁ : m₁.model = .m68000 → ∀ x ∈ es, x.isGroupZero = false := fun h x hx =>
      hgroup (hentered.model.symm.trans h) x (List.mem_cons_of_mem e hx)
    obtain ⟨m₂, hunwind, hregs, -, hmodel, hview⟩ := ih m₁ hsr₁ hgroup₁ running
    -- The frame of `e` lies above the stack pointer that the later exceptions started from.
    have hholds : m₂.Holds m.regs.ssp (e.frame m) := by
      apply hentered.holds.of_view hmodel (by omega)
      intro addr k haddr
      exact hview addr k (by omega)
    have hssp₂ : m₂.regs.ssp.toNat + (e.frame m).size = m.regs.ssp.toNat := by
      rw [hregs]
      exact hssp
    obtain ⟨m₃, hreturn, hregs₃, hmodel₃, hmemory₃⟩ := Exec.returnFromException_of_frame
      (hmodel.trans hentered.model) (fun h => hgroup h e List.mem_cons_self) hssp₂ hholds
    refine ⟨m₃, ?_, ?_, ?_, hmodel₃, ?_⟩
    · rw [List.length_cons, Exec.unwind, Exec.bind_ok hunwind, hreturn]
    · rw [hregs₃, hregs, hentered.regs, and_eq_of_and_not_eq_zero hsr]
      rfl
    · intro x hx
      obtain rfl : e = x := by simpa using hx
      rw [hregs₃]
    · intro addr k haddr
      rw [hmemory₃, hview addr k (by omega), hentered.view? addr k haddr]

/-- Exceptions processed one after another, none of which halted, are undone by as many returns. -/
theorem unwind_raise (m : Machine) (e : Exception) (es : List Exception)
    (hsr : m.regs.sr &&& ~~~m.model.srMask = 0)
    (hgroup : m.model = .m68000 → ∀ x ∈ e :: es, x.isGroupZero = false)
    (running : ((e :: es).foldl raise m).condition ≠ .halted) :
    ∃ m', Exec.unwind (e :: es).length ((e :: es).foldl raise m) = .ok () m' ∧
      m'.regs = { m.regs with pc := if e.isFault then m.instructionPc else m.regs.pc } := by
  obtain ⟨m', hunwind, hregs, hpc, -⟩ := unwind_foldl_raise (e :: es) m hsr hgroup running
  refine ⟨m', hunwind, ?_⟩
  rw [hregs, hpc e rfl]
  rfl

/-- A divide by zero, and an address error in its handler: frames of formats 2 and 0. -/
theorem unwind_raise_twice :
    let m : Machine := { Machine.new .m68020 (.flat (.new 256 0)) with
      regs := { Registers.initial with ssp := 256, pc := 2 } }
    ([.zeroDivide, .addressError].foldl raise m).condition ≠ .halted ∧
      ∃ m', Exec.unwind 2 ([.zeroDivide, .addressError].foldl raise m) = .ok () m' ∧
        m'.regs = m.regs := by
  intro m
  have running : ([.zeroDivide, .addressError].foldl raise m).condition ≠ .halted := by
    decide +kernel
  exact ⟨running, unwind_raise m .zeroDivide [.addressError] (by decide) (by decide) running⟩

end Machine

end Mc68k
