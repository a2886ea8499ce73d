import Mc68k.Proofs.Execution.Length
import Mc68k.Proofs.Execution.Refusal
import Mc68k.Proofs.Execution.StoreLoad

namespace Mc68k

open Decode Status

theorem signExtend_masked (v : UInt32) (size : Size) :
    signExtend v size &&& size.mask = v &&& size.mask := by
  have hnumber := Size.number_signExtend size v
  have hwhole := (signExtend v size).toNat_lt
  rw [Size.number_signed, Size.number_signed, toNat_and_mask, toNat_and_mask] at hnumber
  apply UInt32.toNat_inj.mp
  rw [toNat_and_mask, toNat_and_mask]
  generalize (signExtend v size).toNat = x at *
  cases size <;>
    simp only [Chain.signed, Size.modulus, Size.bits, Size.bytes, Nat.reduceMul,
      Nat.reducePow] at hnumber hwhole ⊢ <;>
    omega

theorem signExtend_mod_bits (v : UInt32) (size : Size) :
    (signExtend v size).toNat % size.bits = v.toNat % size.bits := by
  have hdvd : size.bits ∣ 2 ^ size.bits := by cases size <;> decide
  rw [← Nat.mod_mod_of_dvd _ hdvd, ← toNat_and_mask, signExtend_masked, toNat_and_mask,
    Nat.mod_mod_of_dvd _ hdvd]

theorem testBit_masked (v : UInt32) (size : Size) (j : Nat) :
    (v &&& size.mask).toNat.testBit j = (decide (j < size.bits) && v.toNat.testBit j) := by
  rw [toNat_and_mask, Nat.testBit_mod_two_pow]

theorem testBit_congr {v w : UInt32} {size : Size} (h : v &&& size.mask = w &&& size.mask) {j : Nat}
    (hj : j < size.bits) : v.toNat.testBit j = w.toNat.testBit j := by
  have hv := testBit_masked v size j
  have hw := testBit_masked w size j
  rw [h] at hv
  simpa [hj] using hv.symm.trans hw

def BitChange.effect : BitChange → Bool → Bool
  | invert => not
  | clear => fun _ => false
  | set => fun _ => true

theorem BitChange.effect_ne_id (change : BitChange) : change.effect ≠ id := by
  intro h
  have htrue := congrFun h true
  have hfalse := congrFun h false
  cases change <;> simp [effect] at htrue hfalse

theorem BitChange.testBit_apply (change : BitChange) (value mask : UInt32) {j : Nat} (hj : j < 32) :
    (change.apply value mask).toNat.testBit j =
      if mask.toNat.testBit j then change.effect (value.toNat.testBit j)
      else value.toNat.testBit j := by
  change (change.apply value mask).toBitVec.getLsbD j =
      if mask.toBitVec.getLsbD j then change.effect (value.toBitVec.getLsbD j)
      else value.toBitVec.getLsbD j
  cases change <;> simp [apply, effect, hj] <;> cases value.toBitVec[j] <;> simp

namespace Perform

theorem toNat_bitMask (number : UInt32) (wide : Bool) :
    (bitMask number wide).toNat = 2 ^ (number.toNat % if wide then 32 else 8) := by
  have hindex : (number % if wide then 32 else 8).toNat =
      number.toNat % if wide then 32 else 8 := by
    cases wide <;> rfl
  have hlt : number.toNat % (if wide then 32 else 8) < 32 := by
    split <;> omega
  rw [bitMask, UInt32.toNat_shiftLeft, hindex, Nat.mod_eq_of_lt hlt, Nat.shiftLeft_eq,
    UInt32.toNat_one, Nat.one_mul]
  exact Nat.mod_eq_of_lt (Nat.pow_lt_pow_right (by decide) hlt)

theorem testBit_eq {value mask : UInt32} {i : Nat} (hmask : mask.toNat = 2 ^ i) (sr : UInt16) :
    testBit value mask sr = setIf sr Z (!value.toNat.testBit i) := by
  have hzero : (value &&& mask == 0) = !value.toNat.testBit i := by
    have hpos := Nat.two_pow_pos i
    rw [Bool.eq_iff_iff, beq_iff_eq, ← UInt32.toNat_inj, UInt32.toNat_and, hmask, Nat.and_two_pow]
    cases value.toNat.testBit i <;> simp
  rw [testBit, hzero]

end Perform

theorem Size.eq_long_of_bits {size : Size} (h : size.bits = 32) : size = .long := by
  cases size <;> first | rfl | cases h

theorem Size.eq_byte_of_bits {size : Size} (h : size.bits = 8) : size = .byte := by
  cases size <;> first | rfl | cases h

/-- Bits of an operand at a place: Dn is a long, and anything else a byte. -/
def Location.width : Location → Nat
  | .data _ => 32
  | _ => 8

namespace Machine

/-- The operand at a place, as a number; An has no bits to test. -/
def operandAt? (m : Machine) : Location → Option Nat
  | .data n => some (m.regs.d n).toNat
  | .memory addr =>
    (m.memory.view? addr 1 m.dataSpace .read).map fun bytes => (ofBigEndian bytes).toNat
  | .program addr =>
    (m.memory.view? addr 1 m.programSpace .read).map fun bytes => (ofBigEndian bytes).toNat
  | .immediate value => some value.toNat
  | .address _ => none

/-- The bit number of an opcode: all of Dx, or the low byte of the word at PC. -/
def bitNumber (m : Machine) (op : Opcode) : Nat :=
  if bit op 8 then (m.regs.d op.x).toNat else m.nextWord.toNat % 256

end Machine

namespace Exec

def skipBitNumber (op : Opcode) : Exec Unit := if bit op 8 then pure () else discard fetchWord

/-- Find the operand of a bit instruction, past its bit number. In memory it is a byte. -/
def bitOperand (op : Opcode) : Exec Location := do
  skipBitNumber op
  resolveMode (AddressingMode.ofOpcode? op) .byte

end Exec

def Operation.bitEffect? : Operation → Option (Bool → Bool)
  | btst => some id
  | changeBit change => some change.effect
  | _ => none

/-- One bit of the operand at a place was put to `effect`, and Z tells what it was. -/
structure Machine.Touches (m : Machine) (op : Opcode) (effect : Bool → Bool) (location : Location)
    (m' : Machine) : Prop where
  operand : ∃ old new, m.operandAt? location = some old ∧ m'.operandAt? location = some new ∧
    m'.regs.sr = setIf m.regs.sr Z (!old.testBit (m.bitNumber op % location.width)) ∧
    ∀ j, new.testBit j =
      if j = m.bitNumber op % location.width then effect (old.testBit j) else old.testBit j
  data (n : RegisterNumber) (h : location ≠ .data n) : m'.regs.d n = m.regs.d n
  address (n : RegisterNumber) (h : (AddressingMode.ofOpcode? op).bind (·.stepped?) ≠ some n) :
    m'.regs.a n = m.regs.a n
  system : m.regs.SameSystem m'.regs
  memory (h : (∀ addr, location ≠ .memory addr) ∨ effect = id) : m'.memory = m.memory
  byte (addr : Address) (h : location = .memory addr) :
    m.memory.SameBut addr.toNat (addr.toNat + 1) m'.memory
  rest : m' = { m with
    opcode := op
    regs := m'.regs
    memory := m'.memory
    fault := m'.fault
    cycles := m'.cycles }

def AddressingMode.bitSize (ea : AddressingMode) : Size :=
  if ea.isDataRegister then .long else .byte

theorem bits_of_decode {op : Opcode} {i : Instruction} {effect : Bool → Bool}
    (h : decode op = some i) (heffect : i.operation.bitEffect? = some effect) :
    ∃ ea number, AddressingMode.ofOpcode? op = some ea ∧
      number = (if bit op 8 then Fetch.data .x else .bitNumber) ∧
      (ea.isData = true ∧ effect = id ∧
          i = ⟨some number, some .source, .btst, ea.bitSize, .plain⟩ ∨
        ea.isDataAlterable = true ∧ ∃ change : BitChange, effect = change.effect ∧
          i = ⟨some number, some .target, .changeBit change, ea.bitSize, .modifiesCcr⟩) := by
  have hpage : op.page / 16 = 0 := by
    have honPage := isOnPage_of_decode h
    cases hop : i.operation <;> rw [hop] at heffect honPage <;>
      simp [Operation.bitEffect?] at heffect <;> simpa [Operation.isOnPage] using honPage
  rw [decode, op.line_eq_page, hpage] at h
  simp only [line0, bitOperation, bitwiseImmediate, only, unary, binary, bind, Option.bind] at h
  grind [Operation.bitEffect?, AddressingMode.bitSize]

/-- The target is the operand at a place. -/
inductive Operands.Aims (p : Operands) : Location → Prop
  | data (n : RegisterNumber) (h : p.target = .data n) : Aims p (.data n)
  | memory (h : p.target = .memory) : Aims p (.memory p.address)

namespace Operands.Aims

variable {p p' : Operands} {location : Location}

theorem congr (h : p.Aims location) (htarget : p'.target = p.target)
    (haddress : p'.address = p.address) : p'.Aims location := by
  cases h with
  | data n h => exact .data n (htarget.trans h)
  | memory h =>
    rw [← haddress]
    exact .memory (htarget.trans h)

theorem wide (h : p.Aims location) : (if p.target.isData then 32 else 8) = location.width := by
  cases h with
  | data n htarget => simp [htarget, Target.isData, Location.width]
  | memory htarget => simp [htarget, Target.isData, Location.width]

end Operands.Aims

namespace Exec

open Machine

theorem view?_of_read {addr : Address} {size : Size} {fc : FunctionCode} {value : UInt32}
    {m m' : Machine} (h : Exec.read addr size fc m = .ok value m') :
    ∃ bytes, m.memory.view? addr size.bytes fc .read = some bytes ∧ value = ofBigEndian bytes := by
  obtain ⟨-, hread⟩ | ⟨-, -, hread⟩ | ⟨bytes, -, hview, hread⟩ := read_cases addr size fc m
  · cases h.symm.trans hread
  · cases h.symm.trans hread
  · obtain ⟨rfl, -⟩ := EStateM.Result.ok.inj (h.symm.trans hread)
    exact ⟨bytes, hview, rfl⟩

section Place

variable {ea : AddressingMode} {location : Location} {m m' : Machine}

theorem width_of_resolve {size : Size} (hdata : ea.isData = true)
    (h : resolve ea size m = .ok location m') :
    location.width = ea.bitSize.bits ∧ ∀ n, location ≠ .address n := by
  cases hcontrol : ea.isControl with
  | true =>
    have hsize : ea.bitSize.bits = 8 := by cases ea <;> first | rfl | cases hcontrol
    rw [hsize]
    obtain ⟨addr, rfl | ⟨-, rfl⟩⟩ := resolve_of_isControl hcontrol h
    · cases ea.isPcRelative <;> exact ⟨rfl, fun _ => Location.noConfusion⟩
    · exact ⟨rfl, fun _ => Location.noConfusion⟩
  | false =>
    cases ea with
    | addressRegister n => cases hdata
    | dataRegister n =>
      obtain ⟨rfl, -⟩ := EStateM.Result.ok.inj h
      exact ⟨rfl, fun _ => Location.noConfusion⟩
    | postincrement n =>
      obtain ⟨rfl, -⟩ := EStateM.Result.ok.inj h
      exact ⟨rfl, fun _ => Location.noConfusion⟩
    | predecrement n =>
      obtain ⟨rfl, -⟩ := EStateM.Result.ok.inj h
      exact ⟨rfl, fun _ => Location.noConfusion⟩
    | immediate =>
      obtain ⟨value, -, rfl⟩ := eq_of_bind_pure h
      exact ⟨rfl, fun _ => Location.noConfusion⟩
    | _ => cases hcontrol

theorem resolve_bitSize (ea : AddressingMode) : resolve ea ea.bitSize = resolve ea .byte := by
  cases ea <;> rfl

theorem operandAt?_of_readLocation {size : Size} {value : UInt32}
    (haddress : ∀ n, location ≠ .address n) (hsize : location.width = size.bits)
    (h : readLocation location size m = .ok value m') :
    ∃ raw, m.operandAt? location = some raw.toNat ∧ value = signExtend raw size := by
  have hbyte (hwidth : 8 = size.bits) : size.bytes = 1 := by
    rw [Size.eq_byte_of_bits hwidth.symm]
    rfl
  cases location with
  | address n => exact absurd rfl (haddress n)
  | data n =>
    obtain ⟨rfl, -⟩ := EStateM.Result.ok.inj h
    exact ⟨m.regs.d n, rfl, rfl⟩
  | immediate v =>
    obtain ⟨rfl, -⟩ := EStateM.Result.ok.inj h
    exact ⟨v, rfl, rfl⟩
  | memory addr =>
    obtain ⟨raw, hread, rfl⟩ := eq_of_bind_pure h
    obtain ⟨bytes, hview, rfl⟩ := view?_of_read (hread : Exec.read addr size m.dataSpace m = _)
    rw [hbyte hsize] at hview
    exact ⟨_, by rw [operandAt?, hview]; rfl, rfl⟩
  | program addr =>
    obtain ⟨raw, hread, rfl⟩ := eq_of_bind_pure h
    obtain ⟨bytes, hview, rfl⟩ := view?_of_read (hread : Exec.read addr size m.programSpace m = _)
    rw [hbyte hsize] at hview
    exact ⟨_, by rw [operandAt?, hview]; rfl, rfl⟩

end Place

theorem load_of_aims {p : Operands} {location : Location} (h : p.Aims location) :
    p.load = (do let second ← readLocation location p.size; pure { p with second }) := by
  cases h with
  | data n h => simp [Operands.load, h, readLocation]
  | memory h => simp [Operands.load, h, readLocation]

section Prepared

variable {op : Opcode} {size : Size} {m m' : Machine} {p p' : Operands}

theorem bitNumber_of_fetch (hop : m.opcode = op)
    (h : fetchOperand (some (if bit op 8 then .data .x else .bitNumber))
      ({ · with first := · }) (.new size) m = .ok p m') :
    skipBitNumber op m = .ok () m' ∧ ∃ first, p = { Operands.new size with first } ∧
      first.toNat % size.bits = m.bitNumber op % size.bits := by
  cases hdynamic : bit op 8 with
  | true =>
    simp only [hdynamic, if_true] at h
    obtain ⟨rfl, rfl⟩ := EStateM.Result.ok.inj h
    refine ⟨by rw [skipBitNumber, if_pos hdynamic]; rfl, _, rfl, ?_⟩
    rw [bitNumber, if_pos hdynamic, ← hop]
    exact signExtend_mod_bits _ size
  | false =>
    simp only [hdynamic, Bool.false_eq_true, if_false] at h
    have hrun : fetchOperand (some .bitNumber) ({ · with first := · }) (.new size) m = (do
        let word ← fetchWord
        pure { Operands.new size with first := word.toUInt32 &&& 0xFF }) m := by
      simp only [fetchOperand, Fetch.run, valueOnly, bind_assoc, pure_bind]
      rfl
    obtain ⟨word, hword, rfl⟩ := eq_of_bind_pure (hrun.symm.trans h)
    refine ⟨?_, _, rfl, ?_⟩
    · rw [skipBitNumber, if_neg (by simp [hdynamic])]
      exact bind_ok hword
    · have hlow : (word.toUInt32 &&& 0xFF).toNat = word.toNat % 256 :=
        toNat_and_mask word.toUInt32 .byte
      rw [bitNumber, if_neg (by simp [hdynamic]), nextWord_of_fetchWord hword, ← hlow]

/-- Operands of a bit instruction, ready to be operated on. -/
structure Ready (m : Machine) (op : Opcode) (location : Location) (p : Operands) : Prop where
  width : location.width = p.size.bits
  number : p.first.toNat % p.size.bits = m.bitNumber op % p.size.bits
  operand : ∃ raw, m.operandAt? location = some raw.toNat ∧ p.second = signExtend raw p.size

theorem operandAt?_congr (hdata : m'.regs.data = m.regs.data) (hmemory : m'.memory = m.memory)
    (hsupervisor : m'.regs.isSupervisor = m.regs.isSupervisor) (location : Location) :
    m'.operandAt? location = m.operandAt? location := by
  have hspace (program : Bool) : FunctionCode.of m'.regs.isSupervisor program =
      .of m.regs.isSupervisor program := by rw [hsupervisor]
  cases location <;>
    simp only [operandAt?, Registers.d, hdata, hmemory, dataSpace, programSpace, hspace]

theorem operandAt?_of_prepares {stepped : List RegisterNumber} (h : Prepares stepped m m')
    (location : Location) : m'.operandAt? location = m.operandAt? location :=
  operandAt?_congr h.data (by rw [h.machine]) h.system.isSupervisor location

variable {stepped : List RegisterNumber}

theorem prepares_skipBitNumber (op : Opcode) : Leads (Prepares stepped) (skipBitNumber op) m := by
  apply Leads.ite
  · intro _
    exact .pure ()
  · intro _
    exact .bind prepares_fetchWord fun _ _ _ => .pure ()

theorem prepares_bitOperand (op : Opcode) :
    Leads (Prepares ((AddressingMode.ofOpcode? op).bind (·.stepped?)).toList)
      (bitOperand op) m :=
  .bind (prepares_skipBitNumber op) fun _ _ _ =>
    prepares_resolveMode .byte fun _ hn => Option.mem_toList.mpr hn

theorem ready_of_read {location : Location} {m₁ : Machine}
    (hfind : bitOperand op m = .ok location m₁)
    (haddress : ∀ n, location ≠ .address n) (hwidth : location.width = p.size.bits)
    (hnumber : p.first.toNat % p.size.bits = m.bitNumber op % p.size.bits)
    (h : (do let second ← readLocation location p.size; pure { p with second } : Exec Operands) m₁ =
      .ok p' m') : Ready m op location p' := by
  obtain ⟨value, hread, rfl⟩ := eq_of_bind_pure h
  obtain ⟨raw, hraw, hvalue⟩ := operandAt?_of_readLocation haddress hwidth hread
  rw [operandAt?_of_prepares ((prepares_bitOperand op).of_ok hfind)] at hraw
  exact ⟨hwidth, hnumber, raw, hraw, hvalue⟩

end Prepared

section Kinds

variable {op : Opcode} {ea : AddressingMode} {operation : Operation} {m m₁ m' : Machine}
  {p : Operands} {number : Fetch} {location : Location}
  (hea : AddressingMode.ofOpcode? op = some ea)
  (hnumber : number = if bit op 8 then .data .x else .bitNumber) (hop : m.opcode = op)
include hea hop

theorem bitOperand_of_resolve (hdata : ea.isData = true) (hskip : skipBitNumber op m = .ok () m₁)
    (h : resolveMode (AddressingMode.ofOpcode? m₁.opcode) ea.bitSize m₁ = .ok location m') :
    bitOperand op m = .ok location m' ∧ location.width = ea.bitSize.bits ∧
      ∀ n, location ≠ .address n := by
  have hprepares : Leads (Prepares []) (skipBitNumber op) m := prepares_skipBitNumber op
  have hop₁ : m₁.opcode = op := (hprepares.of_ok hskip).opcode.trans hop
  rw [hop₁, hea] at h
  refine ⟨?_, width_of_resolve hdata (h : resolve ea ea.bitSize m₁ = _)⟩
  rw [bitOperand, bind_ok hskip, hea, ← h]
  exact congrFun (resolve_bitSize ea).symm m₁

include hnumber

theorem ready_of_source (hdata : ea.isData = true)
    (h : prepare ⟨some number, some .source, operation, ea.bitSize, .plain⟩ m = .ok p m') :
    ∃ location m₁, bitOperand op m = .ok location m₁ ∧ Ready m op location p ∧
      location.width = ea.bitSize.bits := by
  subst hnumber
  obtain ⟨p₂, m₃, hfetch, hload⟩ := exists_of_bind_ok h
  have hloads : InstructionFlags.plain.contains .loadsTarget = false := by decide
  simp only [loadOperands, hloads, Bool.false_eq_true, if_false] at hload
  obtain ⟨rfl, rfl⟩ := EStateM.Result.ok.inj hload
  obtain ⟨p₁, m₁, h₁, h₂⟩ := exists_of_bind_ok hfetch
  obtain ⟨hskip, first, rfl, hfirst⟩ := bitNumber_of_fetch hop h₁
  have hrun : fetchOperand (some .source) ({ · with second := · })
      { Operands.new ea.bitSize with first } m₁ = (do
        let location ← resolveMode (AddressingMode.ofOpcode? m₁.opcode) ea.bitSize
        let second ← readLocation location ea.bitSize
        pure { Operands.new ea.bitSize with first, second }) m₁ := by
    simp only [fetchOperand, Fetch.run, valueOnly, bind_assoc, pure_bind]
    rfl
  obtain ⟨location, m₂, hresolve, hread⟩ := exists_of_bind_ok (hrun.symm.trans h₂)
  obtain ⟨hfind, hwidth, haddress⟩ := bitOperand_of_resolve hea hop hdata hskip hresolve
  refine ⟨location, m₂, hfind, ?_, hwidth⟩
  exact ready_of_read (p := { Operands.new ea.bitSize with first }) hfind haddress hwidth hfirst
    hread

theorem ready_of_target (hdata : ea.isData = true)
    (h : prepare ⟨some number, some .target, operation, ea.bitSize, .modifiesCcr⟩ m = .ok p m') :
    ∃ location m₁, bitOperand op m = .ok location m₁ ∧ Ready m op location p ∧
      p.Aims location := by
  subst hnumber
  obtain ⟨p₂, m₃, hfetch, hload⟩ := exists_of_bind_ok h
  have hloads : InstructionFlags.modifiesCcr.contains .loadsTarget = true := by decide
  simp only [loadOperands, hloads, if_true] at hload
  obtain ⟨p₁, m₁, h₁, h₂⟩ := exists_of_bind_ok hfetch
  obtain ⟨hskip, first, rfl, hfirst⟩ := bitNumber_of_fetch hop h₁
  have hrun : fetchOperand (some .target) ({ · with second := · })
      { Operands.new ea.bitSize with first } m₁ = (do
        let location ← resolveMode (AddressingMode.ofOpcode? m₁.opcode) ea.bitSize
        let found ← orIllegal ({ Operands.new ea.bitSize with first }.toLocation? location)
        pure { found.2 with second := found.1 }) m₁ := by
    simp only [fetchOperand, Fetch.run, fetchTarget, bind_assoc]
    rfl
  obtain ⟨location, m₂, hresolve, h₂⟩ := exists_of_bind_ok (hrun.symm.trans h₂)
  obtain ⟨hfind, hwidth, haddress⟩ := bitOperand_of_resolve hea hop hdata hskip hresolve
  have htarget : p₂.Aims location ∧ p₂.size = ea.bitSize ∧ p₂.first = first ∧ m₃ = m₂ := by
    cases location with
    | address n => exact absurd rfl (haddress n)
    | data n =>
      obtain ⟨rfl, rfl⟩ := EStateM.Result.ok.inj h₂
      exact ⟨.data n rfl, rfl, rfl, rfl⟩
    | memory addr =>
      obtain ⟨rfl, rfl⟩ := EStateM.Result.ok.inj h₂
      exact ⟨.memory rfl, rfl, rfl, rfl⟩
    | _ => cases h₂
  obtain ⟨haims, hsize, rfl, rfl⟩ := htarget
  have hread : (do
      let second ← readLocation location p₂.size
      pure { p₂ with second } : Exec Operands) m₃ = .ok p m' := by
    rw [← load_of_aims haims]
    exact hload
  rw [← hsize] at hwidth hfirst
  refine ⟨location, m₃, hfind, ready_of_read hfind haddress hwidth hfirst hread, ?_⟩
  obtain ⟨value, -, rfl⟩ := eq_of_bind_pure hread
  exact haims.congr rfl rfl

end Kinds

section Bits

variable {op : Opcode} {location : Location} {m : Machine} {p : Operands} {wide : Bool}

theorem operandAt?_lt {old : Nat} (haims : p.Aims location) (h : m.operandAt? location = some old) :
    old < 2 ^ location.width := by
  cases haims with
  | data n _ =>
    obtain rfl := Option.some.inj h
    exact (m.regs.d n).toNat_lt
  | memory _ =>
    obtain ⟨bytes, hview, rfl⟩ := Option.map_eq_some_iff.mp h
    obtain ⟨b, rfl⟩ := List.length_eq_one_iff.mp (Memory.length_view? hview)
    have hvalue := toNat_shiftLeft_or 0 b
    have hb := b.toNat_lt
    simp only [ofBigEndian, List.foldl_cons, List.foldl_nil, hvalue, Location.width]
    simpa using hb

variable (h : Ready m op location p) (hwide : (if wide then 32 else 8) = location.width)
include h hwide

theorem toNat_bitMask_of_ready :
    (Perform.bitMask p.first wide).toNat = 2 ^ (m.bitNumber op % location.width) := by
  rw [Perform.toNat_bitMask, hwide, h.width, h.number]

theorem bits_of_ready : ∃ old, m.operandAt? location = some old ∧
    (∀ sr, Perform.testBit p.second (Perform.bitMask p.first wide) sr =
      setIf sr Z (!old.testBit (m.bitNumber op % location.width))) ∧
    (p.Aims location → ∀ (change : BitChange) j,
      (change.apply p.second (Perform.bitMask p.first wide) &&& p.size.mask).toNat.testBit j =
        if j = m.bitNumber op % location.width then change.effect (old.testBit j)
        else old.testBit j) := by
  obtain ⟨raw, hraw, hsecond⟩ := h.operand
  have hmask := toNat_bitMask_of_ready h hwide
  have hindex : m.bitNumber op % location.width < p.size.bits := by
    rw [h.width]
    exact Nat.mod_lt _ (by cases p.size <;> decide)
  have hbit {j : Nat} (hj : j < p.size.bits) : p.second.toNat.testBit j = raw.toNat.testBit j := by
    rw [hsecond]
    exact testBit_congr (signExtend_masked raw p.size) hj
  refine ⟨raw.toNat, hraw, ?_, ?_⟩
  · intro sr
    rw [Perform.testBit_eq hmask, hbit hindex]
  · intro haims change j
    rw [testBit_masked]
    by_cases hj : j < p.size.bits
    · have hlt : j < 32 := hj.trans_le (by cases p.size <;> decide)
      rw [change.testBit_apply _ _ hlt, hmask, Nat.testBit_two_pow, hbit hj]
      simp [hj, eq_comm]
    · have hzero : raw.toNat.testBit j = false := by
        apply Nat.testBit_lt_two_pow
        have hraw' := operandAt?_lt haims hraw
        rw [h.width] at hraw'
        exact hraw'.trans_le (Nat.pow_le_pow_right (by decide) (by omega))
      rw [if_neg (by omega), hzero]
      simp [hj]

end Bits

section Written

variable {op : Opcode} {effect : Bool → Bool} {location : Location} {m m₁ m' : Machine}
  {old new : Nat}
  {data : Vector UInt32 8} {memory : Memory} {cycles : List BusCycle}

theorem touches_of_written
    (hprepares : Prepares ((AddressingMode.ofOpcode? op).bind (·.stepped?)).toList
      { m with opcode := op } m₁)
    (hold : m.operandAt? location = some old)
    (hwritten : m' = { m₁ with
      regs := { m₁.regs with
        data
        sr := setIf m₁.regs.sr Z (!old.testBit (m.bitNumber op % location.width)) }
      memory
      cycles })
    (hnew : m'.operandAt? location = some new)
    (hbits : ∀ j, new.testBit j =
      if j = m.bitNumber op % location.width then effect (old.testBit j) else old.testBit j)
    (hdata : ∀ n : RegisterNumber, location ≠ .data n →
      ({ m₁.regs with data } : Registers).d n = m₁.regs.d n)
    (hmemory : (∀ addr, location ≠ .memory addr) ∨ effect = id → memory = m₁.memory)
    (hbyte : ∀ addr, location = .memory addr →
      m₁.memory.SameBut addr.toNat (addr.toNat + 1) memory) :
    m.Touches op effect location m' := by
  have hregs : m'.regs = { m₁.regs with
      data
      sr := setIf m₁.regs.sr Z (!old.testBit (m.bitNumber op % location.width)) } := by
    rw [hwritten]
  have hsame : m₁.memory = m.memory := by rw [hprepares.machine]
  have hsystem : m₁.regs.SameSystem m'.regs := by
    rw [hregs]
    exact ⟨system_setIf_Z _ _, fun _ => rfl, fun _ => rfl, rfl, rfl, rfl, rfl, rfl, rfl⟩
  have haddress (n : RegisterNumber) : m'.regs.a n = m₁.regs.a n := by
    have hsupervisor := hsystem.isSupervisor
    rw [hregs] at hsupervisor ⊢
    simp only [Registers.a, Registers.sp, hsupervisor]
  exact {
    operand := ⟨old, new, hold, hnew, by rw [hregs, hprepares.status], hbits⟩
    data n hn := by
      have hkept : m₁.regs.d n = m.regs.d n := by
        rw [Registers.d, Registers.d, hprepares.data]
      rw [hregs]
      exact (hdata n hn).trans hkept
    address n hn := by
      rw [haddress]
      exact hprepares.address n (by simpa [Option.mem_toList] using hn)
    system := hprepares.system.trans hsystem
    memory hkept := by
      rw [hwritten]
      exact (hmemory hkept).trans hsame
    byte addr haddr := by
      rw [hwritten, ← hsame]
      exact hbyte addr haddr
    rest := by
      have hmachine := hprepares.machine
      rw [hmachine] at hwritten
      rw [hwritten] }

theorem touches_of_store {change : BitChange} {p : Operands}
    (hprepares : Prepares ((AddressingMode.ofOpcode? op).bind (·.stepped?)).toList
      { m with opcode := op } m₁)
    (hold : m.operandAt? location = some old) (hwidth : location.width = p.size.bits)
    (haims : p.Aims location)
    (hbits : ∀ j, (p.result &&& p.size.mask).toNat.testBit j =
      if j = m.bitNumber op % location.width then change.effect (old.testBit j)
      else old.testBit j)
    (hstore : p.store .modifiesCcr { m₁ with regs := { m₁.regs with
      sr := setIf m₁.regs.sr Z (!old.testBit (m.bitNumber op % location.width)) } } = .ok () m') :
    m.Touches op change.effect location m' := by
  have hstores : InstructionFlags.modifiesCcr.contains .storesResult = true := by decide
  have hcodes : p.LeavesCodes .modifiesCcr := .inr (by decide)
  cases haims with
  | data n htarget =>
    have hsize : p.size = .long := Size.eq_long_of_bits hwidth.symm
    have hstored := Operands.stored_data hstores htarget hstore
    obtain ⟨hlow, -, hm'⟩ := hstored.data n htarget
    have hvalue : m'.regs.d n = p.result &&& p.size.mask := by
      rw [← hlow, hsize]
      exact UInt32.and_neg_one.symm
    rw [hstored.kept hcodes] at hm'
    apply touches_of_written hprepares hold hm' rfl
    · rwa [hvalue]
    · intro k hk
      exact m₁.regs.d_setD_of_ne (fun heq => hk (congrArg Location.data (Fin.ext heq.symm))) _
    · exact fun _ => rfl
    · intro addr haddr
      cases haddr
  | memory htarget =>
    have hsize : p.size = .byte := Size.eq_byte_of_bits hwidth.symm
    have hstored := Operands.stored_memory hstores htarget hstore
    obtain ⟨hview, hsame, hm'⟩ := hstored.memory htarget
    rw [hstored.kept hcodes] at hm'
    rw [hsize] at hview hsame
    have hnew : m'.operandAt? (.memory p.address) =
        some (p.result &&& p.size.mask).toNat := by
      rw [hm'] at hview ⊢
      rw [operandAt?, hsize, ← ofBigEndian_toBigEndian]
      exact congrArg (Option.map fun bytes => (ofBigEndian bytes).toNat) hview
    apply touches_of_written hprepares hold hm' hnew hbits
    · exact fun _ _ => rfl
    · rintro (hplace | heffect)
      · exact absurd rfl (hplace p.address)
      · exact absurd heffect change.effect_ne_id
    · intro addr haddr
      obtain rfl := Location.memory.inj haddr
      exact hsame

end Written

theorem exists_of_executeInstruction_ok {i : Instruction} {m m' : Machine}
    (h : executeInstruction i m = .ok () m') : ∃ p m₁ p' m₂, prepare i m = .ok p m₁ ∧
      i.operation.perform p m₁ = .ok p' m₂ ∧ p'.store i.flags m₂ = .ok () m' := by
  have hprepare : executeInstruction i = (do
      let p ← prepare i
      let p ← i.operation.perform p
      p.store i.flags) := by
    simp only [executeInstruction, prepare, bind_assoc]
  rw [hprepare] at h
  obtain ⟨p, m₁, h₁, h⟩ := exists_of_bind_ok h
  obtain ⟨p', m₂, h₂, h⟩ := exists_of_bind_ok h
  exact ⟨p, m₁, p', m₂, h₁, h₂, h⟩

theorem mode_eq_zero_iff {op : Opcode} {ea : AddressingMode}
    (h : AddressingMode.ofOpcode? op = some ea) : op.mode = 0 ↔ ea.isDataRegister = true := by
  have hlt : field op 3 3 < 8 := (op.toBitVec.extractLsb' 3 3).isLt
  rw [AddressingMode.ofOpcode?, AddressingMode.ofFields?, Nat.mod_eq_of_lt hlt] at h
  rw [Opcode.mode]
  grind [AddressingMode.isDataRegister]

theorem stepped_of_bits {op : Opcode} {number second : Fetch} {operation : Operation} {size : Size}
    {flags : InstructionFlags} (hnumber : number = if bit op 8 then .data .x else .bitNumber)
    (hsecond : second = .source ∨ second = .target) :
    Instruction.stepped ⟨some number, some second, operation, size, flags⟩ op =
      ((AddressingMode.ofOpcode? op).bind (·.stepped?)).toList := by
  subst hnumber
  obtain rfl | rfl := hsecond <;> cases bit op 8 <;> rfl

section Kinds

variable {op : Opcode} {ea : AddressingMode} {m m' : Machine} {number : Fetch}
  (hea : AddressingMode.ofOpcode? op = some ea)
  (hnumber : number = if bit op 8 then .data .x else .bitNumber)
include hea hnumber

theorem touches_of_btst (hdata : ea.isData = true)
    (h : executeInstruction ⟨some number, some .source, .btst, ea.bitSize, .plain⟩
      { m with opcode := op } = .ok () m') :
    ∃ location m₁, bitOperand op { m with opcode := op } = .ok location m₁ ∧
      m.Touches op id location m' := by
  obtain ⟨p, m₁, p', m₂, hprepare, hperform, hstore⟩ := exists_of_executeInstruction_ok h
  have hprepares := (prepares_prepare _).of_ok hprepare
  rw [stepped_of_bits hnumber (.inl rfl)] at hprepares
  obtain ⟨location, m₃, hfind, hready, hwidth⟩ := ready_of_source hea hnumber rfl hdata hprepare
  have hop : m₁.opcode = op := hprepares.opcode
  have hwide : (if m₁.opcode.mode == 0 then 32 else 8) = location.width := by
    have hmode := mode_eq_zero_iff hea
    rw [hwidth, hop, AddressingMode.bitSize]
    cases hregister : ea.isDataRegister <;> simp [hmode, hregister, Size.bits, Size.bytes]
  obtain ⟨old, hold, hz, -⟩ := bits_of_ready hready hwide
  have hm' : m' = { m₁ with regs := { m₁.regs with
      sr := setIf m₁.regs.sr Z (!old.testBit (m.bitNumber op % location.width)) } } := by
    obtain ⟨rfl, rfl⟩ := EStateM.Result.ok.inj hperform
    have hstores : InstructionFlags.plain.contains .storesResult = false := by decide
    simp only [Operands.store, hstores, Bool.false_eq_true, if_false] at hstore
    obtain ⟨-, rfl⟩ := EStateM.Result.ok.inj hstore
    simp only [hz]
    rfl
  have hnew : m'.operandAt? location = some old := by
    have hsupervisor : m'.regs.isSupervisor = m₁.regs.isSupervisor := by
      rw [hm']
      exact has_setIf_of_disjoint _ Z S _ (by decide)
    rw [operandAt?_congr (by rw [hm']) (by rw [hm']) hsupervisor,
      operandAt?_of_prepares hprepares]
    exact hold
  refine ⟨location, m₃, hfind, ?_⟩
  apply touches_of_written hprepares hold hm' hnew
  · intro j
    split <;> rfl
  · exact fun _ _ => rfl
  · exact fun _ => rfl
  · exact fun addr _ => ⟨rfl, rfl, fun _ _ => rfl⟩

theorem touches_of_changeBit {change : BitChange} (hdata : ea.isDataAlterable = true)
    (h : executeInstruction
      ⟨some number, some .target, .changeBit change, ea.bitSize, .modifiesCcr⟩
      { m with opcode := op } = .ok () m') :
    ∃ location m₁, bitOperand op { m with opcode := op } = .ok location m₁ ∧
      m.Touches op change.effect location m' := by
  obtain ⟨p, m₁, p', m₂, hprepare, hperform, hstore⟩ := exists_of_executeInstruction_ok h
  have hprepares := (prepares_prepare _).of_ok hprepare
  rw [stepped_of_bits hnumber (.inr rfl)] at hprepares
  obtain ⟨location, m₃, hfind, hready, haims⟩ := ready_of_target hea hnumber rfl
    (Bool.and_elim_left hdata) hprepare
  obtain ⟨old, hold, hz, hbits⟩ := bits_of_ready hready haims.wide
  obtain ⟨rfl, hm₂⟩ := EStateM.Result.ok.inj hperform
  obtain rfl : m₂ = { m₁ with regs := { m₁.regs with
      sr := setIf m₁.regs.sr Z (!old.testBit (m.bitNumber op % location.width)) } } := by
    rw [← hm₂]
    simp only [hz]
    rfl
  let p' : Operands :=
    { p with result := change.apply p.second (Perform.bitMask p.first p.target.isData) }
  exact ⟨location, m₃, hfind, touches_of_store (p := p') hprepares hold hready.width
    (haims.congr rfl rfl) (hbits haims change) hstore⟩

end Kinds

/-- BTST, BCHG, BCLR and BSET touch one bit: Z tells what it was, and the operand is changed there
or not at all. -/
theorem execute_touches_bit {op : Opcode} {i : Instruction} {effect : Bool → Bool} {m m' : Machine}
    (hdecode : decode op = some i) (heffect : i.operation.bitEffect? = some effect)
    (h : execute op m = .ok () m') :
    ∃ location m₁, bitOperand op { m with opcode := op } = .ok location m₁ ∧
      m.Touches op effect location m' := by
  have hrun := executeInstruction_of_ok hdecode h
  obtain ⟨ea, number, hea, hnumber, ⟨hdata, rfl, rfl⟩ | ⟨hdata, change, rfl, rfl⟩⟩ :=
    bits_of_decode hdecode heffect
  · exact touches_of_btst hea hnumber hdata hrun
  · exact touches_of_changeBit hea hnumber hdata hrun

/-- BCLR D1,-(A7): number 0x8000000B picks bit 3 of a byte, and A7 steps by two. -/
theorem execute_touches_bit_predecrement :
    let memory := (Memory.flat (.new 16 0)).patch 6 [0xFF]
    let m : Machine := { Machine.new .m68000 memory with
      regs := { Registers.initial.setD .one 0x8000000B with ssp := 8, sr := 0x2704 } }
    let m' := left (execute 0x03A7 m)
    execute 0x03A7 m = .ok () m' ∧ (∃ location m₁,
      bitOperand 0x03A7 { m with opcode := 0x03A7 } = .ok location m₁ ∧
        m.Touches 0x03A7 (fun _ => false) location m') ∧
      m'.operandAt? (.memory 6) = some 0xF7 ∧ m'.regs.sr = 0x2700 ∧ m'.regs.ssp = 6 := by
  intro memory m m'
  have hexecute := eq_ok_left (r := execute 0x03A7 m) (by decide +kernel)
  let i : Instruction := ⟨some (.data .x), some .target, .changeBit .clear, .byte, .modifiesCcr⟩
  have hdecode : decode 0x03A7 = some i := by decide +kernel
  exact ⟨hexecute, execute_touches_bit hdecode rfl hexecute, by decide +kernel,
    by decide +kernel, by decide +kernel⟩

end Exec

end Mc68k
