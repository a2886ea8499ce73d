import Mc68k.Proofs.Compatibility.Step

namespace Mc68k

namespace ControlRegister

theorem get_untraced (c : ControlRegister) (r : Registers) : c.get r.untraced = c.get r := by
  cases c <;> rfl

theorem set_untraced (c : ControlRegister) (r : Registers) (value : UInt32) :
    (c.set r.untraced value).untraced = (c.set r value).untraced := by
  cases c <;> simp [set, Registers.untraced]

end ControlRegister

namespace Perform

open Exec

variable {m : Machine}

theorem traceFree_bitwiseSr (op : Bitwise) (p : Operands) :
    TraceFree (do modify (fun m => m.setSr (combineSr op p m.regs.sr)); pure p) m := by
  refine .bind (.modifyMachine ?_) fun _ _ _ _ _ => .pure p
  have hmask : ~~~Status.T1 &&& (m.model.srMask &&& ~~~Status.T1) =
      m.model.srMask &&& ~~~Status.T1 := by
    cases m.model <;> decide
  have hsr := combineSr_untraced_and op p m.regs.sr _ hmask
  rw [← UInt16.and_assoc, ← UInt16.and_assoc] at hsr
  exact congrArg (fun sr => { m with regs := { m.regs with sr } }) hsr

theorem traceFree_returnFromException : TraceFree returnFromException m := by
  refine .regs_bind (.bind (.read _ _ _) fun sr _ _ m₁ _ => ?_) rfl
  refine .bind (.read _ _ _) fun pc _ _ m₂ _ => .get_bind (.ite ?_ ?_) rfl
  · refine .bind (.read _ _ _) fun word _ _ m₃ _ => ?_
    cases frameSize? (word.toNat / 4096) with
    | none => exact .bind (.throw _) fun _ _ _ _ _ => .modifyMachine rfl
    | some size => exact .bind (.pure size) fun _ _ _ _ _ => .modifyMachine rfl
  · exact .bind (.pure 6) fun _ _ _ _ _ => .modifyMachine rfl

theorem traceFree_moveUsp (p : Operands) : TraceFree (moveUsp p) m := by
  refine .get_bind (.bind (.modifyRegs ?_) fun _ _ _ _ _ => .pure p) rfl
  split
  · rw [Registers.setA_untraced, Registers.untraced_untraced]
    rfl
  · rw [Registers.a_untraced]
    simp [Registers.untraced]

theorem traceFree_movesSpace (code : UInt8) : TraceFree (movesSpace code) m := by
  rw [movesSpace]
  cases FunctionCode.ofCode? code with
  | none => exact .throw _
  | some fc => exact .pure fc

theorem traceFree_moves (p : Operands) : TraceFree (moves p) m := by
  refine .regs_bind (.ite ?_ ?_) ?_
  · refine .bind (traceFree_movesSpace _) fun fc _ _ _ _ => ?_
    exact .bind (.write _ _ _ fc) fun _ _ _ _ _ => .pure p
  · refine .bind (traceFree_movesSpace _) fun fc _ _ _ _ => ?_
    refine .bind (.read _ _ fc) fun value _ _ _ _ => ?_
    refine .bind (.modifyRegs ?_) fun _ _ _ _ _ => .pure p
    split <;> simp
  · simp only [Registers.general_untraced]
    rfl

theorem traceFree_movec (p : Operands) : TraceFree (movec p) m := by
  refine .get_bind (.bind ((neutral_orIllegal _).traceFree rfl) fun control _ _ _ _ => ?_) rfl
  refine .bind (.modifyRegs ?_) fun _ _ _ _ _ => .pure p
  split
  · rw [Registers.general_untraced, ControlRegister.set_untraced]
  · rw [ControlRegister.get_untraced, Registers.setGeneral_untraced, Registers.untraced_untraced]

end Perform

open Exec Perform

theorem Operation.traceFree_perform {operation : Operation} {m : Machine} (p : Operands)
    (h : operation ≠ .moveFromSr) : TraceFree (operation.perform p) m := by
  cases hs : operation.isSystem with
  | false => exact (steady_perform p hs h).traceFree rfl
  | true =>
    cases operation with
    | moveToSr => exact .bind (.modifyMachine rfl) fun _ _ _ _ _ => .pure p
    | bitwiseSr op => exact traceFree_bitwiseSr op p
    | rte => exact .bind traceFree_returnFromException fun _ _ _ _ _ => .pure p
    | stop => exact .bind (.modifyMachine rfl) fun _ _ _ _ _ => .pure p
    | moveUsp => exact traceFree_moveUsp p
    | movec => exact traceFree_movec p
    | moves => exact traceFree_moves p
    | _ => cases hs

namespace Exec

variable {m : Machine}

theorem traceFree_admitInstruction (op : Opcode) : TraceFree (admitInstruction op) m := by
  refine .get_bind ?_ ?_
  · cases decode op with
    | none => exact .throw _
    | some i => exact .ite (.throw _) (.ite (.throw _) (.pure i))
  · rw [Machine.regs_untraced, Registers.isSupervisor_untraced]
    rfl

theorem traceFree_fetchInstruction : TraceFree fetchInstruction m := by
  refine .bind .fetchWord fun op _ _ _ _ => .bind (.modifyMachine ?_) fun _ _ _ _ _ => ?_
  · simp [Machine.untraced]
  · exact traceFree_admitInstruction op

theorem traceFree_prepare (i : Instruction) : TraceFree (prepare i) m :=
  .bind ((steady_fetchOperands i).traceFree rfl) fun p _ _ _ _ =>
    (steady_loadOperands i p).traceFree rfl

end Exec

namespace Machine

/-- Traced or not, an instruction other than MOVE from SR ends in the same way, and in the same
machine but for T1. -/
theorem traceFree_runInstruction (m : Machine)
    (h : ∀ x ∈ m.untraced.fetched?, x.1.operation ≠ .moveFromSr) :
    TraceFree runInstruction m := by
  change untracedResult m.untraced.runInstruction = untracedResult m.runInstruction
  rw [runInstruction_eq, runInstruction_eq]
  change TraceFree _ { m with instructionPc := m.regs.pc }
  refine .bind traceFree_fetchInstruction fun i n hfetch _ _ => ?_
  have hfetched : m.untraced.fetched? = some (i, n) := result?_of_ok hfetch
  refine .bind (traceFree_prepare i) fun p _ _ _ _ => ?_
  refine .bind (i.operation.traceFree_perform p (h _ hfetched)) fun p _ _ _ _ => ?_
  exact (p.neutral_store i.flags).traceFree rfl

end Machine

end Mc68k
