import Mc68k.Proofs.Arithmetic.Comparison
import Mc68k.Proofs.Execution.AllOrNothing
import Mc68k.Proofs.Execution.Composition
import Mc68k.Proofs.Execution.StoreLoad

namespace Mc68k

open Exec

/-- DBF Dn, which is DBcc with the condition that never holds. -/
def dbfOpcode (n : RegisterNumber) : Opcode := 0x51C8 + UInt16.ofNat n

theorem decode_dbfOpcode :
    ∀ n, decode (dbfOpcode n) = Decode.unary .wordBranchTarget .dbcc .word .plain := by
  decide +kernel

theorem y_dbfOpcode : ∀ n, (dbfOpcode n).y = n := by
  decide +kernel

theorem condition_dbfOpcode : ∀ n, (dbfOpcode n).condition = 1 := by
  decide +kernel

theorem merge_merge (old a b : UInt32) (size : Size) :
    merge (merge old a size) b size = merge old b size := by
  apply UInt32.eq_of_toBitVec_eq
  ext i hi
  simp [merge]
  grind

namespace Exec

variable {m : Machine} {n : RegisterNumber}

theorem execute_dbf (heven : m.regs.pc &&& 1 = 0)
    (hview : m.memory.view? m.regs.pc 2 m.programSpace .read = some [0xFF, 0xFE]) :
    let count := (m.regs.d n).toUInt16 - 1
    ∃ cycles, execute (dbfOpcode n) m = .ok () { m with
      opcode := dbfOpcode n
      regs := { m.regs.setD n (merge (m.regs.d n) count.toUInt32 .word) with
        pc := if count != 0xFFFF then m.regs.pc - 2 else m.regs.pc + 2 }
      cycles } := by
  intro count
  let m₁ : Machine := { m with opcode := dbfOpcode n }
  let m₂ : Machine := { m₁ with
    regs := { m.regs with pc := m.regs.pc + 2 }
    cycles := m.cycle m.regs.pc 2 m.programSpace .read :: m.cycles }
  let target : Exec UInt32 := do
    let base := (← Exec.regs).pc
    return base + (← fetchSignedWord)
  have hword : fetchWord m₁ = .ok 0xFFFE m₂ := fetchWord_of_view? (m := m₁) heven hview
  have hoffset : signExtend (0xFFFE : UInt16).toUInt32 .word = -2 := by decide
  have htarget : target m₁ = .ok (m.regs.pc - 2) m₂ := by
    simp only [target, bind_regs, fetchSignedWord, bind_assoc, pure_bind]
    rw [bind_ok hword, hoffset, ← UInt32.sub_eq_add_neg]
    rfl
  have hfails : ¬Status.condition m₂.regs.sr m₂.opcode.condition = true := by
    have hnever : m₂.opcode.condition = 1 := condition_dbfOpcode n
    rw [hnever]
    exact Bool.false_ne_true
  have hdbcc := (Operation.decidesBy_condition
    { Operands.new .word with first := m.regs.pc - 2 } m₂).counts hfails
  have hregs : Operation.countedDown ({ Operands.new .word with first := m.regs.pc - 2 }) m₂ =
      { m.regs.setD n (merge (m.regs.d n) count.toUInt32 .word) with
        pc := if count != 0xFFFF then m.regs.pc - 2 else m.regs.pc + 2 } := by
    have hy : m₂.opcode.y = n := y_dbfOpcode n
    have hcount : (m₂.regs.d n).toUInt16 - 1 = count := rfl
    simp only [Operation.countedDown, hy, hcount]
    cases count != 0xFFFF <;> rfl
  refine ⟨m₂.cycles, ?_⟩
  calc execute (dbfOpcode n) m
    _ = executeInstruction ⟨some .wordBranchTarget, none, .dbcc, .word, .plain⟩ m₁ :=
      execute_of_plain m (decode_dbfOpcode n) rfl
    _ = (do
        let first ← target
        let _ ← Operation.dbcc.perform { Operands.new .word with first }
        pure ()) m₁ := executeInstruction_of_value (by decide) (by decide) rfl
    _ = (do
        let _ ← Operation.dbcc.perform { Operands.new .word with first := m.regs.pc - 2 }
        pure () : Exec Unit) m₂ := bind_ok htarget
    _ = .ok () { m₂ with
        regs := Operation.countedDown ({ Operands.new .word with first := m.regs.pc - 2 }) m₂ } :=
      bind_ok hdbcc
    _ = _ := by rw [hregs]

end Exec

theorem toNat_sub_one {v : UInt16} {count : Nat} (h : v.toNat = count + 1) :
    (v - 1).toNat = count ∧ (v - 1 != 0xFFFF) = true := by
  have hlt := v.toNat_lt
  have hvalue : (v - 1).toNat = count := by
    rw [UInt16.toNat_sub, h, UInt16.toNat_one]
    omega
  refine ⟨hvalue, ?_⟩
  rw [bne_iff_ne, ne_eq, ← UInt16.toNat_inj, hvalue]
  change ¬count = 65535
  omega

namespace Machine

/-- A running machine without tracing, away from the host calls, with DBF Dn to itself at PC. -/
structure AtLoop (m : Machine) (n : RegisterNumber) : Prop where
  running : m.condition = .normal
  untraced : m.regs.isTraced = false
  even : m.regs.pc &&& 1 = 0
  plain : callNumber? m.regs.pc = none
  opcode : m.memory.view? m.regs.pc 2 m.programSpace .read =
    some (toBigEndian (dbfOpcode n).toUInt32 .word)
  displacement : m.memory.view? (m.regs.pc + 2) 2 m.programSpace .read = some [0xFF, 0xFE]

/-- The machine with another count in the low word of Dn and with PC at `pc`. -/
def counting (m : Machine) (n : RegisterNumber) (count : UInt16) (pc : Address)
    (cycles : List BusCycle) : Machine :=
  { m with
    opcode := dbfOpcode n
    instructionPc := m.regs.pc
    regs := { m.regs.setD n (merge (m.regs.d n) count.toUInt32 .word) with pc }
    cycles }

def turned (m : Machine) (n : RegisterNumber) (cycles : List BusCycle) : Machine :=
  let count := (m.regs.d n).toUInt16 - 1
  m.counting n count (if count != 0xFFFF then m.regs.pc else m.regs.pc + 4) cycles

variable {m : Machine} {n : RegisterNumber}

theorem AtLoop.counting (h : m.AtLoop n) (count : UInt16) (cycles : List BusCycle) :
    (m.counting n count m.regs.pc cycles).AtLoop n :=
  ⟨h.running, h.untraced, h.even, h.plain, h.opcode, h.displacement⟩

theorem counting_counting (count count' : UInt16) (pc : Address) (cycles cycles' : List BusCycle) :
    (m.counting n count m.regs.pc cycles).counting n count' pc cycles' =
      m.counting n count' pc cycles' := by
  have hd : ({ m.regs.setD n (merge (m.regs.d n) count.toUInt32 .word) with
      pc := m.regs.pc } : Registers).d n = merge (m.regs.d n) count.toUInt32 .word :=
    m.regs.d_setD_self n _
  have hset := m.regs.setD_setD n (merge (m.regs.d n) count.toUInt32 .word)
    (merge (m.regs.d n) count'.toUInt32 .word)
  simp only [Machine.counting, hd, merge_merge]
  rw [← hset]
  rfl

theorem toUInt16_counting (count : UInt16) (pc : Address) (cycles : List BusCycle) :
    ((m.counting n count pc cycles).regs.d n).toUInt16 = count := by
  have hd : (m.counting n count pc cycles).regs.d n =
      merge (m.regs.d n) count.toUInt32 .word :=
    m.regs.d_setD_self n _
  have hlow := congrArg UInt32.toNat (merge_and_mask (m.regs.d n) count.toUInt32 .word)
  rw [toNat_and_mask, toNat_and_mask] at hlow
  apply UInt16.toNat_inj.mp
  rw [hd, UInt32.toNat_toUInt16]
  exact hlow.trans (Nat.mod_eq_of_lt count.toNat_lt)

theorem AtLoop.runInstruction (h : m.AtLoop n) :
    ∃ cycles, m.runInstruction = .ok () (m.turned n cycles) := by
  let m₀ : Machine := { m with instructionPc := m.regs.pc }
  let m₁ : Machine := { m₀ with
    regs := { m.regs with pc := m.regs.pc + 2 }
    cycles := m.cycle m.regs.pc 2 m.programSpace .read :: m.cycles }
  have hfetch := fetchWord_of_view? (m := m₀) h.even h.opcode
  rw [ofBigEndian_toBigEndian_word, UInt16.toUInt16_toUInt32] at hfetch
  have heven : m₁.regs.pc &&& 1 = 0 := (parity_add_two m.regs.pc).trans h.even
  obtain ⟨cycles, hexecute⟩ := execute_dbf (m := m₁) (n := n) heven h.displacement
  refine ⟨cycles, ?_⟩
  have hback : m.regs.pc + 2 - 2 = m.regs.pc := UInt32.add_sub_cancel _ _
  have hpast : m.regs.pc + 2 + 2 = m.regs.pc + 4 := UInt32.add_assoc _ _ _
  have hrun : m.runInstruction = execute (dbfOpcode n) m₁ := bind_ok hfetch
  rw [hrun, hexecute]
  simp only [m₁, hback, hpast]
  rfl

end Machine

namespace Emulator

open Machine

variable {e : Emulator} {n : RegisterNumber}

theorem run_add_of_goes {k : Nat} (h : ∀ j < k, (e.after j).step.1 = true) (rest : Nat) :
    e.run (k + rest) = (k + ((e.after k).run rest).1, ((e.after k).run rest).2) := by
  induction k generalizing e with
  | zero =>
    rw [Nat.zero_add, Nat.zero_add]
    rfl
  | succ k ih =>
    have hfirst : e.step.1 = true := h 0 (Nat.succ_pos k)
    have hrest := ih (e := e.step.2) fun j hj => h (j + 1) (Nat.succ_lt_succ hj)
    rw [Nat.succ_add, run_succ_of_true hfirst, hrest, Nat.succ_add]
    rfl

theorem step_of_atLoop (h : e.machine.AtLoop n) :
    ∃ cycles, e.step = (true, { e with machine := e.machine.turned n cycles }) := by
  obtain ⟨cycles, hrun⟩ := h.runInstruction
  refine ⟨cycles, ?_⟩
  have hafter : e.machine.afterInstruction = (none, e.machine.turned n cycles) := by
    rw [afterInstruction, hrun, h.untraced]
    rfl
  have hstep := e.step_of_plain h.running h.plain
  rw [hafter] at hstep
  rw [hstep, isRunning]
  exact congrArg (·, _) (beq_iff_eq.mpr h.running)

theorem after_of_atLoop {count : Nat} (h : e.machine.AtLoop n)
    (hcount : (e.machine.regs.d n).toUInt16.toNat = count) :
    (∀ j ≤ count, (e.after j).step.1 = true ∧
      (e.after j).machine.regs.pc = e.machine.regs.pc) ∧
    ∃ cycles, e.after (count + 1) = { e with
      machine := e.machine.counting n 0xFFFF (e.machine.regs.pc + 4) cycles } := by
  induction count generalizing e with
  | zero =>
    obtain ⟨cycles, hstep⟩ := step_of_atLoop h
    have hzero : (e.machine.regs.d n).toUInt16 = 0 := UInt16.toNat_inj.mp hcount
    rw [turned, hzero] at hstep
    refine ⟨?_, cycles, congrArg Prod.snd hstep⟩
    intro j hj
    obtain rfl := Nat.le_zero.mp hj
    exact ⟨congrArg Prod.fst hstep, rfl⟩
  | succ count ih =>
    obtain ⟨cycles, hstep⟩ := step_of_atLoop h
    obtain ⟨hlow, hgoes⟩ := toNat_sub_one hcount
    simp only [turned, hgoes, if_true] at hstep
    let e' : Emulator := { e with
      machine := e.machine.counting n ((e.machine.regs.d n).toUInt16 - 1) e.machine.regs.pc cycles }
    have hcount' : (e'.machine.regs.d n).toUInt16.toNat = count := by
      rw [toUInt16_counting, hlow]
    have hnext (j : Nat) : e.after (j + 1) = e'.after j :=
      congrArg (Emulator.after · j) (congrArg Prod.snd hstep)
    obtain ⟨hsteps, cycles', hafter⟩ := ih (e := e') (h.counting _ cycles) hcount'
    refine ⟨?_, cycles', ?_⟩
    · intro j hj
      cases j with
      | zero => exact ⟨congrArg Prod.fst hstep, rfl⟩
      | succ j =>
        rw [hnext]
        exact hsteps j (Nat.le_of_succ_le_succ hj)
    · rw [hnext, hafter]
      exact congrArg (fun machine => { e with machine }) (counting_counting ..)

/-- From a word of `k`, DBF to itself takes `k + 1` steps and leaves -1 in that word, PC past the
loop, and all else that a program can see as it was. -/
theorem counted_loop (h : e.machine.AtLoop n) :
    let m := e.machine
    let k := (m.regs.d n).toNat % 65536 + 1
    (∀ j < k, (e.after j).step.1 = true ∧ (e.after j).machine.regs.pc = m.regs.pc) ∧
    (∃ value cycles,
      value &&& Size.word.mask = 0xFFFF ∧
      value &&& ~~~Size.word.mask = m.regs.d n &&& ~~~Size.word.mask ∧
      e.after k = { e with machine := { m with
        opcode := dbfOpcode n
        instructionPc := m.regs.pc
        regs := { m.regs.setD n value with pc := m.regs.pc + 4 }
        cycles } }) ∧
    ∀ rest, e.run (k + rest) = (k + ((e.after k).run rest).1, ((e.after k).run rest).2) := by
  intro m k
  have hcount : (m.regs.d n).toUInt16.toNat = (m.regs.d n).toNat % 65536 := UInt32.toNat_toUInt16 _
  obtain ⟨hsteps, cycles, hafter⟩ := after_of_atLoop h hcount
  refine ⟨fun j hj => hsteps j (Nat.le_of_lt_succ hj), ?_, ?_⟩
  · refine ⟨merge (m.regs.d n) 0xFFFF .word, cycles, ?_, ?_, hafter⟩
    · rw [merge_and_mask]
      decide
    · exact merge_and_not_mask _ _ _
  · exact run_add_of_goes fun j hj => (hsteps j (Nat.le_of_lt_succ hj)).1

/-- DBF D0 at 0 with 2 in the low word: three steps, and then whatever is at 4. -/
theorem counted_loop_two :
    let m : Machine := { Machine.new .m68000 (.flat ⟨.ofList [0x51, 0xC8, 0xFF, 0xFE], 0⟩) with
      regs := Registers.initial.setD .zero 0xABCD0002 }
    let e : Emulator := ⟨m, .empty, []⟩
    m.AtLoop .zero ∧ (∀ j < 3, (e.after j).step.1 = true ∧ (e.after j).machine.regs.pc = 0) ∧
      e.run (3 + 1) = (3 + ((e.after 3).run 1).1, ((e.after 3).run 1).2) ∧
      (e.after 3).machine.regs = { m.regs.setD .zero 0xABCDFFFF with pc := 4 } := by
  intro m e
  have hloop : m.AtLoop .zero := by
    constructor <;> decide +kernel
  have hcount : (e.machine.regs.d .zero).toNat % 65536 + 1 = 3 := by decide +kernel
  obtain ⟨hsteps, -, hrun⟩ := counted_loop (e := e) hloop
  rw [hcount] at hsteps hrun
  exact ⟨hloop, hsteps, hrun 1, by decide +kernel⟩

end Emulator

end Mc68k
