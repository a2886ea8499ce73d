import Mc68k.Decode

namespace Mc68k

/-- Whether an operation may stand on a page, the opcodes with one first byte. -/
def Operation.isOnPage (page : Nat) : Operation → Bool
  | move => page / 16 ∈ [1, 2, 3, 7] || page / 16 == 4 && page % 2 == 1
  | bitwise _ => page / 16 ∈ [0x0, 0x8, 0xB, 0xC]
  | btst | changeBit _ | movep | bitwiseCcr _ | bitwiseSr _ | moves => page / 16 == 0x0
  | add => page / 16 ∈ [0x0, 0x5, 0xD]
  | sub => page / 16 ∈ [0x0, 0x5, 0x9]
  | adda => page / 16 ∈ [0x5, 0xD]
  | suba => page / 16 ∈ [0x5, 0x9]
  | cmp => page / 16 ∈ [0x0, 0xB]
  | dbcc | scc | trapcc => page / 16 == 0x5
  | bsr => page == 0x61
  | bcc => page / 16 == 0x6
  | divu | divs | sbcd => page / 16 == 0x8
  | subx => page / 16 == 0x9
  | cmpa => page / 16 == 0xB
  | mulu | muls | abcd | exg => page / 16 == 0xC
  | addx => page / 16 == 0xD
  | shift _ => page / 16 == 0xE
  | chk => page / 16 == 4 && page % 2 == 1
  | ext => page / 16 == 4 && (page % 2 == 1 || page == 0x48)
  | negx | clr | neg | not | moveFromSr | moveFromCcr | moveToCcr | moveToSr =>
    page / 16 == 4 && page % 16 < 8
  | swap | nbcd | pea | movemStore => page == 0x48
  | tas | tst => page == 0x4A
  | illegal => page == 0x48 || page == 0x4A
  | mulLong | divLong | movemLoad => page == 0x4C
  | link => page == 0x48 || page == 0x4E
  | reset | nop | stop | rte | rtd | rts | trapv | rtr | movec | trap | unlk | moveUsp | jsr
  | jmp => page == 0x4E

namespace Opcode

def page (op : Opcode) : Nat := field op 8 8

theorem line_eq_page (op : Opcode) : op.line = op.page / 16 := by
  simp only [line, page, field, BitVec.extractLsb'_toNat, Nat.shiftRight_eq_div_pow]
  omega

theorem condition_eq_page (op : Opcode) : op.condition = op.page % 16 := by
  simp only [condition, page, field, BitVec.extractLsb'_toNat, Nat.shiftRight_eq_div_pow]
  omega

theorem field_nine_eq_page (op : Opcode) : field op 9 3 = op.page / 2 % 8 := by
  simp only [page, field, BitVec.extractLsb'_toNat, Nat.shiftRight_eq_div_pow]
  omega

theorem bit_eight_eq_page (op : Opcode) : bit op 8 = (op.page % 2 == 1) := by
  have hbit : field op 8 1 = op.page % 2 := by
    simp only [page, field, BitVec.extractLsb'_toNat, Nat.shiftRight_eq_div_pow]
    omega
  rw [bit, hbit]

end Opcode

namespace Decode

variable {op : Opcode} {i : Instruction} {page : Nat}

theorem isOnPage_line0 (hpage : page / 16 = 0x0) (h : line0 op = some i) :
    i.operation.isOnPage page = true := by
  simp only [line0, bitOperation, bitwiseImmediate, only, unary, binary, bind, Option.bind] at h
  grind [Operation.isOnPage]

theorem isOnPage_move (hpage : page / 16 ∈ [1, 2, 3]) (h : move op = some i) :
    i.operation.isOnPage page = true := by
  simp only [move, only, binary, bind, Option.bind] at h
  grind [Operation.isOnPage]

theorem isOnPage_singleOperand (hpage : page / 16 = 4) (hlow : page % 16 < 8)
    (h : singleOperand op = some i) : i.operation.isOnPage page = true := by
  simp only [singleOperand, only, unary, bind, Option.bind] at h
  grind [Operation.isOnPage]

theorem isOnPage_line48 (h : line48 op = some i) : i.operation.isOnPage 0x48 = true := by
  simp only [line48, only, nullary, unary, binary, bind, Option.bind] at h
  grind [Operation.isOnPage]

theorem isOnPage_line4A (h : line4A op = some i) : i.operation.isOnPage 0x4A = true := by
  simp only [line4A, only, nullary, unary, bind, Option.bind] at h
  grind [Operation.isOnPage]

theorem isOnPage_line4C (h : line4C op = some i) : i.operation.isOnPage 0x4C = true := by
  simp only [line4C, only, binary, bind, Option.bind] at h
  grind [Operation.isOnPage]

theorem isOnPage_line4E (h : line4E op = some i) : i.operation.isOnPage 0x4E = true := by
  simp only [line4E, only, nullary, unary, bind, Option.bind] at h
  grind [Operation.isOnPage]

theorem isOnPage_line4 (hpage : op.page / 16 = 4) (h : line4 op = some i) :
    i.operation.isOnPage op.page = true := by
  rw [line4, op.bit_eight_eq_page, op.field_nine_eq_page] at h
  split at h
  next hodd =>
    simp only [only, unary, binary, bind, Option.bind] at h
    grind [Operation.isOnPage]
  next heven =>
    have heven : op.page % 2 = 0 := by
      have hodd : ¬op.page % 2 = 1 := by simpa using heven
      omega
    split at h
    next hblock =>
      rw [show op.page = 0x48 by omega]
      exact isOnPage_line48 h
    next hblock =>
      rw [show op.page = 0x4A by omega]
      exact isOnPage_line4A h
    next hblock =>
      rw [show op.page = 0x4C by omega]
      exact isOnPage_line4C h
    next hblock =>
      rw [show op.page = 0x4E by omega]
      exact isOnPage_line4E h
    next h4 h5 h6 h7 =>
      simp only [imp_false] at h4 h5 h6 h7
      exact isOnPage_singleOperand hpage (by omega) h

theorem isOnPage_line5 (hpage : page / 16 = 0x5) (h : line5 op = some i) :
    i.operation.isOnPage page = true := by
  simp only [line5, only, unary, binary, bind, Option.bind] at h
  grind [Operation.isOnPage]

theorem isOnPage_line6 (hpage : op.page / 16 = 0x6) (h : line6 op = some i) :
    i.operation.isOnPage op.page = true := by
  simp only [line6, unary, op.condition_eq_page] at h
  grind [Operation.isOnPage]

theorem isOnPage_line7 (hpage : page / 16 = 0x7) (h : line7 op = some i) :
    i.operation.isOnPage page = true := by
  simp only [line7, only, binary] at h
  grind [Operation.isOnPage]

theorem isOnPage_bitwise {ea : AddressingMode} {logic : Bitwise}
    (hlogic : (Operation.bitwise logic).isOnPage page = true)
    (h : Decode.bitwise op ea logic = some i) : i.operation.isOnPage page = true := by
  simp only [Decode.bitwise, only, binary, bind, Option.bind] at h
  grind

theorem isOnPage_line8 (hpage : page / 16 = 0x8) (h : line8 op = some i) :
    i.operation.isOnPage page = true := by
  have hbitwise (ea : AddressingMode) (h : Decode.bitwise op ea .or = some i) :
      i.operation.isOnPage page = true := isOnPage_bitwise (by simp [Operation.isOnPage, hpage]) h
  simp only [line8, pair, only, unary, binary, bind, Option.bind] at h
  grind [Operation.isOnPage]

theorem isOnPage_addSub {plainly address extended : Operation}
    (hp : plainly.isOnPage page = true) (ha : address.isOnPage page = true)
    (he : extended.isOnPage page = true) (h : addSub op plainly address extended = some i) :
    i.operation.isOnPage page = true := by
  simp only [addSub, pair, only, binary, bind, Option.bind] at h
  grind

theorem isOnPage_lineB (hpage : page / 16 = 0xB) (h : lineB op = some i) :
    i.operation.isOnPage page = true := by
  simp only [lineB, only, binary, bind, Option.bind] at h
  grind [Operation.isOnPage]

theorem isOnPage_lineC (hpage : page / 16 = 0xC) (h : lineC op = some i) :
    i.operation.isOnPage page = true := by
  have hbitwise (ea : AddressingMode) (h : Decode.bitwise op ea .and = some i) :
      i.operation.isOnPage page = true := isOnPage_bitwise (by simp [Operation.isOnPage, hpage]) h
  simp only [lineC, pair, only, nullary, unary, binary, bind, Option.bind] at h
  grind [Operation.isOnPage]

theorem isOnPage_lineE (hpage : page / 16 = 0xE) (h : lineE op = some i) :
    i.operation.isOnPage page = true := by
  simp only [lineE, only, binary, bind, Option.bind] at h
  grind [Operation.isOnPage]

end Decode

open Decode

variable {op : Opcode} {i : Instruction}

theorem isOnPage_of_decode (h : decode op = some i) : i.operation.isOnPage op.page = true := by
  rw [decode, op.line_eq_page] at h
  split at h
  next hline => exact isOnPage_line0 hline h
  next hline => exact isOnPage_move (by simp [hline]) h
  next hline => exact isOnPage_move (by simp [hline]) h
  next hline => exact isOnPage_move (by simp [hline]) h
  next hline => exact isOnPage_line4 hline h
  next hline => exact isOnPage_line5 hline h
  next hline => exact isOnPage_line6 hline h
  next hline => exact isOnPage_line7 hline h
  next hline => exact isOnPage_line8 hline h
  next hline =>
    refine isOnPage_addSub ?_ ?_ ?_ h <;> simp [Operation.isOnPage, hline]
  next hline => exact isOnPage_lineB hline h
  next hline => exact isOnPage_lineC hline h
  next hline =>
    refine isOnPage_addSub ?_ ?_ ?_ h <;> simp [Operation.isOnPage, hline]
  next hline => exact isOnPage_lineE hline h
  next => cases h

theorem decode_of_page (hpage : op.page ∈ [0x48, 0x4A, 0x4C, 0x4E]) :
    decode op = if op.page = 0x48 then line48 op
      else if op.page = 0x4A then line4A op
      else if op.page = 0x4C then line4C op
      else line4E op := by
  rw [decode, op.line_eq_page, line4, op.bit_eight_eq_page, op.field_nine_eq_page]
  simp only [List.mem_cons, List.not_mem_nil, or_false] at hpage
  obtain hpage | hpage | hpage | hpage := hpage <;> simp [hpage]

end Mc68k
