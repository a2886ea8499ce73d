import Mc68k.Decode
import Mc68k.Proofs.Execution.Operation

namespace Mc68k

/-- Flags that tell where an operation may run: a system operation needs supervisor mode on every
model, and the 68000 has no MOVEC. -/
def Operation.guardedBy (operation : Operation) (flags : InstructionFlags) : Bool :=
  (!operation.isSystem || flags.contains .privileged) &&
    (!flags.contains .privilegedFrom68010 || operation == .moveFromSr) &&
    (operation != .movec || .m68010 ≤ flags.minModel)

def Operation.isBranch : Operation → Bool
  | .bcc | .bsr => true
  | _ => false

def Fetch.isBranchTarget : Fetch → Bool
  | .branchTarget => true
  | _ => false

/-- Operands that an operation may have: a branch has its target first. -/
def Operation.mayFetch (operation : Operation) (first second : Option Fetch) : Bool :=
  (!first.any (·.isBranchTarget) || operation.isBranch) && !second.any (·.isBranchTarget)

structure Instruction.Guarded (i : Instruction) : Prop where
  privilege : i.operation.guardedBy i.flags = true
  operands : i.operation.mayFetch i.first i.second = true

namespace Decode

def Guards (i : Option Instruction) : Prop := ∀ instruction ∈ i, instruction.Guarded

theorem Guards.none : Guards none := by
  simp [Guards]

theorem Guards.bind {α : Type} {o : Option α} {f : α → Option Instruction}
    (h : ∀ a ∈ o, Guards (f a)) : Guards (o >>= f) := by
  intro i hi
  obtain ⟨a, ha, hfa⟩ := Option.bind_eq_some_iff.mp hi
  exact h a ha i hfa

theorem Guards.only {i : Option Instruction} (condition : Bool) (h : Guards i) :
    Guards (Decode.only condition i) := by
  cases condition with
  | false => exact .none
  | true => exact h

theorem Guards.row {first second : Option Fetch} {operation : Operation} {size : Size}
    {flags : InstructionFlags} (h : operation.guardedBy flags = true)
    (hf : operation.mayFetch first second = true) :
    Guards (some ⟨first, second, operation, size, flags⟩) := by
  intro i hi
  obtain rfl := Option.some.inj hi
  exact ⟨h, hf⟩

theorem guards_bitOperation (op : Opcode) (ea : AddressingMode) {number : Fetch}
    (testable : Bool) (h : number.isBranchTarget = false) :
    Guards (bitOperation op ea number testable) := by
  have hf (operation : Operation) (second : Fetch) (hs : second.isBranchTarget = false) :
      operation.mayFetch (some number) (some second) = true := by
    simp [Operation.mayFetch, h, hs]
  rw [bitOperation]
  split
  · exact .only _ (.row rfl (hf _ _ rfl))
  · exact .only _ (.row rfl (hf _ _ rfl))
  · exact .only _ (.row rfl (hf _ _ rfl))
  · exact .only _ (.row rfl (hf _ _ rfl))

theorem guards_bitwiseImmediate (logic : Bitwise) (ea : AddressingMode) (size : Size) :
    Guards (bitwiseImmediate logic ea size) := by
  rw [bitwiseImmediate.eq_def]
  split
  · cases size with
    | byte => exact .row rfl rfl
    | word => exact .row rfl rfl
    | long => exact .none
  · exact .only _ (.row rfl rfl)

theorem guards_line0 (op : Opcode) : Guards (line0 op) := by
  rw [line0]
  split
  · exact .row rfl rfl
  apply Guards.bind
  intro ea _
  split
  · exact guards_bitOperation _ _ _ rfl
  split
  · exact guards_bitOperation _ _ _ rfl
  apply Guards.bind
  intro size _
  split
  · exact guards_bitwiseImmediate _ _ _
  · exact guards_bitwiseImmediate _ _ _
  · exact .only _ (.row rfl rfl)
  · exact .only _ (.row rfl rfl)
  · exact guards_bitwiseImmediate _ _ _
  · split
    · exact .row rfl rfl
    · exact .only _ (.row rfl rfl)
  · exact .only _ (.row rfl rfl)

theorem guards_move (op : Opcode) : Guards (move op) := by
  apply Guards.bind
  intro size _
  apply Guards.bind
  intro source _
  apply Guards.bind
  intro target _
  split
  · exact .none
  split
  · exact .only _ (.row rfl rfl)
  · exact .only _ (.row rfl rfl)

theorem guards_singleOperand (op : Opcode) : Guards (singleOperand op) := by
  apply Guards.bind
  intro ea _
  split
  · split
    · exact .only _ (.row rfl rfl)
    · exact .only _ (.row rfl rfl)
    · exact .only _ (.row rfl rfl)
    · exact .only _ (.row rfl rfl)
  · split
    · exact .only _ (.row rfl rfl)
    · exact .only _ (.row rfl rfl)
    · exact .only _ (.row rfl rfl)
    · exact .only _ (.row rfl rfl)

theorem guards_line48 (op : Opcode) : Guards (line48 op) := by
  rw [line48]
  split
  · exact .row rfl rfl
  · exact .row rfl rfl
  · exact .row rfl rfl
  · exact .row rfl rfl
  · exact .row rfl rfl
  · apply Guards.bind
    intro ea _
    split
    · exact .only _ (.row rfl rfl)
    · exact .only _ (.row rfl rfl)
    · exact .only _ (.row rfl rfl)

theorem guards_line4A (op : Opcode) : Guards (line4A op) := by
  rw [line4A]
  split
  · exact .row rfl rfl
  · apply Guards.bind
    intro ea _
    split
    · exact .only _ (.row rfl rfl)
    · split
      · exact .row rfl rfl
      · exact .only _ (.row rfl rfl)

theorem guards_line4C (op : Opcode) : Guards (line4C op) := by
  apply Guards.bind
  intro ea _
  split
  · exact .only _ (.row rfl rfl)
  · exact .only _ (.row rfl rfl)
  · exact .only _ (.row rfl rfl)

theorem guards_line4E (op : Opcode) : Guards (line4E op) := by
  rw [line4E]
  split
  · exact .row rfl rfl
  · exact .row rfl rfl
  · exact .row rfl rfl
  · exact .row rfl rfl
  · exact .row rfl rfl
  · exact .row rfl rfl
  · exact .row rfl rfl
  · exact .row rfl rfl
  · exact .row rfl rfl
  · exact .row rfl rfl
  · split
    · exact .row rfl rfl
    · exact .row rfl rfl
    · exact .row rfl rfl
    · exact .row rfl rfl
    · exact .row rfl rfl
    · exact .row rfl rfl
    · apply Guards.bind
      intro ea _
      split
      · exact .only _ (.row rfl rfl)
      · exact .only _ (.row rfl rfl)
      · exact .none

theorem guards_line4 (op : Opcode) : Guards (line4 op) := by
  rw [line4]
  split
  · split
    · exact .row rfl rfl
    · apply Guards.bind
      intro ea _
      split
      · exact .only _ (.row rfl rfl)
      · exact .only _ (.row rfl rfl)
      · exact .only _ (.row rfl rfl)
      · exact .none
  · split
    · exact guards_line48 op
    · exact guards_line4A op
    · exact guards_line4C op
    · exact guards_line4E op
    · exact guards_singleOperand op

theorem guards_line5 (op : Opcode) : Guards (line5 op) := by
  apply Guards.bind
  intro ea _
  split
  · split
    · exact .row rfl rfl
    · split
      · exact .row rfl rfl
      · exact .row rfl rfl
  · have h : (if bit op 8 then Operation.suba else .adda).guardedBy .modifies = true := by
      split <;> rfl
    have h' : (if bit op 8 then Operation.sub else .add).guardedBy .modifiesCcr = true := by
      split <;> rfl
    split
    · exact .only _ (.row h rfl)
    · exact .only _ (.row h' rfl)

theorem guards_line6 (op : Opcode) : Guards (line6 op) := by
  rw [line6, unary]
  split
  · exact .row rfl rfl
  · exact .row rfl rfl

theorem guards_pair (op : Opcode) {operation : Operation} (size : Size)
    (h : operation.guardedBy .modifiesCcr = true) : Guards (pair op operation size) := by
  rw [pair]
  split
  · exact .row h rfl
  · exact .row h rfl

theorem guards_bitwise (op : Opcode) (ea : AddressingMode) (logic : Bitwise) :
    Guards (bitwise op ea logic) := by
  apply Guards.bind
  intro size _
  split
  · exact .only _ (.row rfl rfl)
  · exact .only _ (.row rfl rfl)

theorem guards_line8 (op : Opcode) : Guards (line8 op) := by
  apply Guards.bind
  intro ea _
  split
  · exact .only _ (.row rfl rfl)
  · exact .only _ (.row rfl rfl)
  · split
    · exact guards_pair op _ rfl
    · exact guards_bitwise op ea _
  · exact guards_bitwise op ea _

theorem guards_lineC (op : Opcode) : Guards (lineC op) := by
  apply Guards.bind
  intro ea _
  split
  · exact .only _ (.row rfl rfl)
  · exact .only _ (.row rfl rfl)
  · split
    · exact guards_pair op _ rfl
    · exact guards_bitwise op ea _
  · split
    · exact .row rfl rfl
    · exact guards_bitwise op ea _
  · split
    · exact .row rfl rfl
    · exact guards_bitwise op ea _
  · exact guards_bitwise op ea _

theorem guards_addSub (op : Opcode) {plainly address extended : Operation}
    (hp : plainly.guardedBy .modifiesCcr = true) (ha : address.guardedBy .modifies = true)
    (he : extended.guardedBy .modifiesCcr = true) :
    Guards (addSub op plainly address extended) := by
  apply Guards.bind
  intro ea _
  split
  · exact .row ha rfl
  · split
    · split
      · exact guards_pair op _ he
      · exact .only _ (.row hp rfl)
    · exact .only _ (.row hp rfl)

theorem guards_lineB (op : Opcode) : Guards (lineB op) := by
  apply Guards.bind
  intro ea _
  split
  · exact .row rfl rfl
  · split
    · split
      · exact .row rfl rfl
      · exact .only _ (.row rfl rfl)
    · exact .only _ (.row rfl rfl)

theorem guards_lineE (op : Opcode) : Guards (lineE op) := by
  rw [lineE]
  split
  · exact .row rfl rfl
  · apply Guards.bind
    intro ea _
    exact .only _ (.row rfl rfl)

end Decode

open Decode

theorem guards_decode (op : Opcode) : Guards (decode op) := by
  rw [decode]
  split
  · exact guards_line0 op
  · exact guards_move op
  · exact guards_move op
  · exact guards_move op
  · exact guards_line4 op
  · exact guards_line5 op
  · exact guards_line6 op
  · exact .only _ (.row rfl rfl)
  · exact guards_line8 op
  · exact guards_addSub op rfl rfl rfl
  · exact guards_lineB op
  · exact guards_lineC op
  · exact guards_addSub op rfl rfl rfl
  · exact guards_lineE op
  · exact .none

theorem privileged_of_decode {op : Opcode} {i : Instruction} (h : decode op = some i)
    (hs : i.operation.isSystem = true) : i.flags.contains .privileged = true := by
  have hguarded := (guards_decode op i h).privilege
  rw [Operation.guardedBy, hs, Bool.and_assoc] at hguarded
  simpa using (Bool.and_eq_true_iff.mp hguarded).1

theorem moveFromSr_of_decode {op : Opcode} {i : Instruction} (h : decode op = some i)
    (hlater : i.flags.contains .privilegedFrom68010 = true) : i.operation = .moveFromSr := by
  have hguarded := (guards_decode op i h).privilege
  rw [Operation.guardedBy, hlater, Bool.and_right_comm] at hguarded
  simpa using (Bool.and_eq_true_iff.mp hguarded).2

theorem movec_of_decode {op : Opcode} {i : Instruction} (h : decode op = some i)
    (hmovec : i.operation = .movec) : .m68010 ≤ i.flags.minModel := by
  have hguarded := (guards_decode op i h).privilege
  rw [Operation.guardedBy, hmovec] at hguarded
  simpa using (Bool.and_eq_true_iff.mp hguarded).2

theorem isBranch_of_decode {op : Opcode} {i : Instruction} (h : decode op = some i)
    (hf : i.first = some .branchTarget) : i.operation.isBranch = true := by
  have hoperands := (guards_decode op i h).operands
  rw [Operation.mayFetch, hf] at hoperands
  simpa [Fetch.isBranchTarget] using (Bool.and_eq_true_iff.mp hoperands).1

theorem second_ne_branchTarget_of_decode {op : Opcode} {i : Instruction}
    (h : decode op = some i) : i.second ≠ some .branchTarget := by
  intro hf
  have hoperands := (guards_decode op i h).operands
  rw [Operation.mayFetch, hf] at hoperands
  simp [Fetch.isBranchTarget] at hoperands

end Mc68k
