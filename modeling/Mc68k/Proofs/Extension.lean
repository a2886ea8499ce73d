import Mc68k.Proofs.Execution.Instruction
import Mc68k.Proofs.OpcodeMap

namespace Mc68k

open Decode

variable {op : Opcode} {i : Instruction}

theorem moves_of_decode (h : decode op = some i) (hm : i.operation = .moves) :
    ∃ size, i = ⟨some .extension, some .target, .moves, size, .privileged ||| .from68010⟩ := by
  have hpage : op.page / 16 = 0 := by
    have honPage := isOnPage_of_decode h
    simpa [hm, Operation.isOnPage] using honPage
  rw [decode, op.line_eq_page, hpage] at h
  simp only [line0, bitOperation, bitwiseImmediate, only, unary, binary, bind, Option.bind] at h
  grind

theorem movemStore_of_decode (h : decode op = some i) (hm : i.operation = .movemStore) :
    i = ⟨some .extension, some .movemBase, .movemStore, wordOrLong op, .plain⟩ := by
  have hpage : op.page = 0x48 := by
    have honPage := isOnPage_of_decode h
    simpa [hm, Operation.isOnPage] using honPage
  rw [decode_of_page (by simp [hpage])] at h
  simp only [hpage, if_true, line48, only, nullary, unary, binary, bind, Option.bind] at h
  grind

theorem movemLoad_of_decode (h : decode op = some i) (hm : i.operation = .movemLoad) :
    ∃ ea, AddressingMode.ofOpcode? op = some ea ∧ (ea.isControl || ea.isPostincrement) = true ∧
      i = ⟨some .extension, some .movemBase, .movemLoad, wordOrLong op, .plain⟩ := by
  have hpage : op.page = 0x4C := by
    have honPage := isOnPage_of_decode h
    simpa [hm, Operation.isOnPage] using honPage
  rw [decode_of_page (by simp [hpage])] at h
  simp only [hpage, if_true, Nat.reduceEqDiff, if_false, line4C, only, binary, bind,
    Option.bind] at h
  grind

namespace Exec

theorem fetchOperand_extension (keep : Operands → UInt32 → Operands) (p : Operands)
    (m : Machine) : fetchOperand (some .extension) keep p m =
      (do let word ← Exec.fetchWord; pure (keep p word.toUInt32)) m := by
  simp only [fetchOperand, Fetch.run, valueOnly, bind_assoc, pure_bind]
  rfl

theorem loadOperands_of_moves {op : Opcode} {i : Instruction} (hdecode : decode op = some i)
    (hmoves : i.operation = .moves) (p : Operands) : loadOperands i p = pure p := by
  obtain ⟨size, rfl⟩ := moves_of_decode hdecode hmoves
  have hflags : (InstructionFlags.privileged ||| .from68010).contains .loadsTarget = false := by
    decide
  simp only [loadOperands, hflags, Bool.false_eq_true, if_false]

end Exec

end Mc68k
