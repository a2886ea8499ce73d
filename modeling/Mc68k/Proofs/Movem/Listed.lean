import Mc68k.Operation.Transfer

namespace Mc68k

variable {op : Opcode} {ea : AddressingMode}

theorem ofOpcode?_of_mode_eq_three (h : op.mode = 3) :
    AddressingMode.ofOpcode? op = some (.postincrement op.y) := by
  rw [Opcode.mode] at h
  rw [AddressingMode.ofOpcode?, h]
  rfl

theorem mode_of_ofOpcode? (h : AddressingMode.ofOpcode? op = some ea) :
    (op.mode = 3 ↔ ea.isPostincrement = true) ∧ (op.mode = 4 ↔ ea.isPredecrement = true) := by
  have hlt : field op 3 3 < 8 := (op.toBitVec.extractLsb' 3 3).isLt
  rw [AddressingMode.ofOpcode?, AddressingMode.ofFields?, Nat.mod_eq_of_lt hlt] at h
  rw [Opcode.mode]
  grind [AddressingMode.isPostincrement, AddressingMode.isPredecrement]

theorem steps_of_isControl (h : ea.isControl = true) :
    ea.isPostincrement = false ∧ ea.isPredecrement = false := by
  cases ea <;> first | exact ⟨rfl, rfl⟩ | cases h

namespace Perform

theorem add_bytes_nil (addr : Address) (size : Size) :
    addr + UInt32.ofNat (size.bytes * ([] : List Nat).length) = addr :=
  UInt32.add_zero addr

theorem add_bytes_cons (addr : Address) (size : Size) (index : Nat) (rest : List Nat) :
    addr + UInt32.ofNat (size.bytes * (index :: rest).length) =
      addr + UInt32.ofNat size.bytes + UInt32.ofNat (size.bytes * rest.length) := by
  rw [UInt32.add_assoc, ← UInt32.ofNat_add, List.length_cons, Nat.mul_add, Nat.mul_one,
    Nat.add_comm]

/-- The list of -(An) for the list of (An)+, with A7 in the lowest bit. -/
def reversed (mask : UInt16) : UInt16 := .ofBitVec mask.toBitVec.reverse

theorem bit_eq_getLsbD (word : UInt16) (i : Nat) : bit word i = word.toBitVec.getLsbD i := by
  rw [bit, field, BitVec.extractLsb'_toNat, Nat.shiftRight_eq_div_pow, BitVec.getLsbD,
    Nat.testBit_eq_decide_div_mod_eq]
  rfl

theorem bit_reversed (mask : UInt16) {i : Nat} (hi : i < 16) :
    bit (reversed mask) i = bit mask (15 - i) := by
  rw [bit_eq_getLsbD, bit_eq_getLsbD, reversed, UInt16.toBitVec_ofBitVec, BitVec.getLsbD_reverse,
    BitVec.getMsbD]
  simp [hi]

theorem listed_lt {mask : UInt16} {index : Nat} (h : index ∈ listed mask) : index < 16 :=
  List.mem_range.mp (List.mem_filter.mp h).1

theorem listed_reversed (mask : UInt16) :
    (listed (reversed mask)).map (15 - ·) = (listed mask).reverse := by
  have hbits : ∀ i ∈ List.range 16, bit (reversed mask) i = (bit mask ∘ (15 - ·)) i := by
    intro i hi
    exact bit_reversed mask (List.mem_range.mp hi)
  have hrange : (List.range 16).map (15 - ·) = (List.range 16).reverse := by decide
  rw [listed, List.filter_congr hbits, ← List.filter_map, hrange, List.filter_reverse, listed]

end Perform

end Mc68k
