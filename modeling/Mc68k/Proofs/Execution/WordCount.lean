import Mc68k.Proofs.Execution.AllOrNothing
import Mc68k.Proofs.Execution.Length
import Mc68k.Proofs.Execution.Refusal
import Mc68k.Proofs.OperandModes

namespace Mc68k

def Size.wordCount : Size → Nat
  | .long => 2
  | _ => 1

/-- The words of an indexed mode, the first of which is given. -/
def Model.indexedCount (model : Model) (ext : UInt16) : Nat :=
  if bit ext 8 && model.hasFullExtension then 1 + FullExtension.words ext else 1

/-- The words of a mode, the first of which is given. -/
def AddressingMode.wordCount (model : Model) (size : Size) (next : UInt16) : AddressingMode → Nat
  | displacement _ | absoluteShort | pcDisplacement => 1
  | absoluteLong => 2
  | indexed _ | pcIndexed => model.indexedCount next
  | immediate => size.wordCount
  | _ => 0

namespace Fetch

def trapCount (op : Opcode) : Nat :=
  match field op 0 3 with
  | 2 => 1
  | 3 => 2
  | _ => 0

/-- The words of a fetch, the first of which is given. -/
def wordCount (f : Fetch) (op : Opcode) (model : Model) (size : Size) (next : UInt16) : Nat :=
  match f with
  | source | target | moveTarget | controlAddress | movemBase =>
    (f.mode? op).elim 0 (·.wordCount model size next)
  | displacedAddress | immediateWord | bitNumber | extension | wordBranchTarget
  | displacementWord => 1
  | displacementLong => 2
  | immediate => size.wordCount
  | branchTarget => branchWords op model
  | trapOperand => trapCount op
  | _ => 0

end Fetch

namespace Instruction

def firstCount (i : Instruction) (op : Opcode) (model : Model) (stream : Nat → UInt16) : Nat :=
  i.first.elim 0 (·.wordCount op model i.size (stream 0))

def secondCount (i : Instruction) (op : Opcode) (model : Model) (stream : Nat → UInt16) : Nat :=
  i.second.elim 0 (·.wordCount op model i.size (stream (i.firstCount op model stream)))

end Instruction

/-- The words that follow an opcode, in a stream that starts past it. -/
def Opcode.wordCount (op : Opcode) (model : Model) (stream : Nat → UInt16) : Nat :=
  (decode op).elim 0 fun i => i.firstCount op model stream + i.secondCount op model stream

/-- The word some words past PC, or zero if none can be fetched. -/
def Machine.wordAhead (m : Machine) (k : Nat) : UInt16 :=
  ((m.memory.view? (m.regs.pc + UInt32.ofNat (2 * k)) 2 m.programSpace .read).elim 0
    ofBigEndian).toUInt16

section

variable {α : Type} {count count' : α → Nat}

theorem elim_le {n : Nat} (x : Option α) (h : ∀ a, count a ≤ n) : x.elim 0 count ≤ n := by
  cases x with
  | none => exact Nat.zero_le n
  | some a => exact h a

theorem elim_congr {P : Prop} (x : Option α) (h : ∀ a, (0 < count a → P) → count' a = count a)
    (hP : 0 < x.elim 0 count → P) : x.elim 0 count' = x.elim 0 count := by
  cases x with
  | none => rfl
  | some a => exact h a hP

end

section

variable {model : Model}

theorem FullExtension.words_le (ext : UInt16) : words ext ≤ 4 := by
  have hbase : baseSize ext < 4 := (ext.toBitVec.extractLsb' 4 2).isLt
  rw [words]
  split <;> omega

theorem Size.wordCount_le (size : Size) : size.wordCount ≤ 2 := by
  cases size <;> decide

theorem Model.indexedCount_le (ext : UInt16) : model.indexedCount ext ≤ 5 := by
  have hfull := FullExtension.words_le ext
  rw [indexedCount]
  split <;> omega

theorem Model.indexedCount_pos (ext : UInt16) : 0 < model.indexedCount ext := by
  rw [indexedCount]
  split <;> omega

namespace AddressingMode

theorem wordCount_le (ea : AddressingMode) (size : Size) (next : UInt16) :
    ea.wordCount model size next ≤ 5 := by
  have hsize := size.wordCount_le
  have hindexed : model.indexedCount next ≤ 5 := Model.indexedCount_le next
  cases ea <;> simp only [wordCount] <;> omega

theorem wordCount_congr (ea : AddressingMode) (size : Size) {next next' : UInt16}
    (h : 0 < ea.wordCount model size next → next' = next) :
    ea.wordCount model size next' = ea.wordCount model size next := by
  cases ea with
  | indexed n => rw [h (Model.indexedCount_pos next)]
  | pcIndexed => rw [h (Model.indexedCount_pos next)]
  | _ => rfl

theorem words_eq_wordCount {ea : AddressingMode} (h : ea.isControl = true) (m : Machine)
    (size : Size) : ea.words m = ea.wordCount m.model size m.nextWord := by
  cases ea <;> first | rfl | cases h

end AddressingMode

theorem branchWords_le (op : Opcode) : branchWords op model ≤ 2 := by
  rw [branchWords]
  split
  · decide
  · split <;> decide

namespace Fetch

theorem trapCount_le (op : Opcode) : trapCount op ≤ 2 := by
  rw [trapCount]
  split <;> decide

/-- At most an index word with two displacements of two words each. -/
theorem wordCount_le (f : Fetch) (op : Opcode) (size : Size) (next : UInt16) :
    f.wordCount op model size next ≤ 5 := by
  have hmode : (f.mode? op).elim 0 (·.wordCount model size next) ≤ 5 :=
    elim_le _ fun ea => ea.wordCount_le size next
  have hsize := size.wordCount_le
  have hbranch : branchWords op model ≤ 2 := branchWords_le op
  have htrap := trapCount_le op
  cases f <;> simp only [wordCount] <;> omega

theorem wordCount_congr (f : Fetch) (op : Opcode) (size : Size) {next next' : UInt16}
    (h : 0 < f.wordCount op model size next → next' = next) :
    f.wordCount op model size next' = f.wordCount op model size next := by
  have hmode (h : 0 < (f.mode? op).elim 0 (·.wordCount model size next) → next' = next) :
      (f.mode? op).elim 0 (·.wordCount model size next') =
        (f.mode? op).elim 0 (·.wordCount model size next) :=
    elim_congr _ (fun ea => ea.wordCount_congr size) h
  cases f with
  | source => exact hmode h
  | target => exact hmode h
  | moveTarget => exact hmode h
  | controlAddress => exact hmode h
  | movemBase => exact hmode h
  | _ => rfl

end Fetch

end

namespace Opcode

variable {op : Opcode} {i : Instruction} {model : Model} {stream stream' : Nat → UInt16}

theorem wordCount_of_decode (h : decode op = some i) :
    op.wordCount model stream = i.firstCount op model stream + i.secondCount op model stream := by
  rw [wordCount, h]
  rfl

theorem wordCount_le (op : Opcode) : op.wordCount model stream ≤ 10 := by
  cases hdecode : decode op with
  | none =>
    rw [wordCount, hdecode]
    exact Nat.zero_le 10
  | some i =>
    have hfirst : i.firstCount op model stream ≤ 5 :=
      elim_le i.first fun f => f.wordCount_le op i.size _
    have hsecond : i.secondCount op model stream ≤ 5 :=
      elim_le i.second fun f => f.wordCount_le op i.size _
    rw [wordCount_of_decode hdecode]
    exact Nat.add_le_add hfirst hsecond

theorem wordCount_congr (h : ∀ j < op.wordCount model stream, stream' j = stream j) :
    op.wordCount model stream' = op.wordCount model stream := by
  cases hdecode : decode op with
  | none => rw [wordCount, wordCount, hdecode]; rfl
  | some i =>
    rw [wordCount_of_decode hdecode] at h
    have hfirst : i.firstCount op model stream' = i.firstCount op model stream := by
      refine elim_congr i.first (fun f => f.wordCount_congr op i.size) fun hpos => ?_
      exact h 0 (Nat.add_pos_left hpos _)
    have hsecond : i.secondCount op model stream' = i.secondCount op model stream := by
      rw [Instruction.secondCount, hfirst]
      refine elim_congr i.second (fun f => f.wordCount_congr op i.size) fun hpos => ?_
      exact h _ (Nat.lt_add_of_pos_right hpos)
    rw [wordCount_of_decode hdecode, wordCount_of_decode hdecode, hfirst, hsecond]

end Opcode

namespace Machine

theorem add_no_words (addr : Address) : addr + UInt32.ofNat (2 * 0) = addr := UInt32.add_zero addr

theorem wordAhead_zero (m : Machine) : m.wordAhead 0 = m.nextWord := by
  rw [wordAhead, nextWord, add_no_words]

theorem wordAhead_of_prepares {stepped : List RegisterNumber} {m m' : Machine} {k : Nat}
    (h : Prepares stepped m m') (hpc : m'.regs.pc = m.regs.pc + UInt32.ofNat (2 * k)) (j : Nat) :
    m'.wordAhead j = m.wordAhead (k + j) := by
  have hmemory : m'.memory = m.memory := by rw [h.machine]
  have hspace : m'.programSpace = m.programSpace := by
    rw [programSpace, programSpace, h.system.isSupervisor]
  rw [wordAhead, wordAhead, hmemory, hspace, hpc, Nat.mul_add, UInt32.ofNat_add, UInt32.add_assoc]

theorem parity_add_words (addr : Address) (k : Nat) :
    (addr + UInt32.ofNat (2 * k)) &&& 1 = addr &&& 1 := by
  induction k with
  | zero => rw [add_no_words]
  | succ k ih =>
    have hlast : UInt32.ofNat (2 * (k + 1)) = UInt32.ofNat (2 * k) + 2 := by
      rw [Nat.mul_add, UInt32.ofNat_add]
      rfl
    rw [hlast, ← UInt32.add_assoc, parity_add_two, ih]

end Machine

theorem Registers.pc_setA (r : Registers) (n : RegisterNumber) (value : UInt32) :
    (r.setA n value).pc = r.pc := by
  rw [setA, setSp]
  split
  · rfl
  · split <;> rfl

namespace Exec

open Machine

/-- Where a computation succeeds, it has taken PC past some words. -/
def Advances {α : Type} (words : Nat) (x : Exec α) (m : Machine) : Prop :=
  ∀ a m', x m = .ok a m' → m'.regs.pc = m.regs.pc + UInt32.ofNat (2 * words)

namespace Advances

variable {α β : Type} {words : Nat} {m : Machine}

theorem of_past {x : Exec α} (h : ∀ a m', x m = .ok a m' → m.Past words m') :
    Advances words x m := by
  intro a m' hr
  rw [(h a m' hr).regs]

theorem pure (a : α) : Advances 0 (Pure.pure a : Exec α) m := by
  intro b m' h
  obtain ⟨-, rfl⟩ := EStateM.Result.ok.inj h
  exact (add_no_words _).symm

theorem get_bind {f : Machine → Exec β} (h : Advances words (f m) m) :
    Advances words (get >>= f) m := h

theorem regs_bind {f : Registers → Exec β} (h : Advances words (f m.regs) m) :
    Advances words (Exec.regs >>= f) m := h

theorem bind_still {x : Exec α} {f : α → Exec β} (hx : Advances words x m)
    (hf : ∀ a m', x m = .ok a m' → Advances 0 (f a) m') : Advances words (x >>= f) m := by
  intro b m'' h
  obtain ⟨a, m', hr, hnext⟩ := exists_of_bind_ok h
  have hstill := hf a m' hr b m'' hnext
  rw [add_no_words] at hstill
  exact hstill.trans (hx a m' hr)

theorem setA (n : RegisterNumber) (value : UInt32) :
    Advances 0 (Exec.modifyRegs (·.setA n value)) m := by
  intro a m' h
  obtain ⟨-, rfl⟩ := EStateM.Result.ok.inj h
  rw [add_no_words]
  exact m.regs.pc_setA n value

theorem read (addr : Address) (size : Size) (fc : FunctionCode) :
    Advances 0 (Exec.read addr size fc) m :=
  .of_past fun _ _ => past_of_read

theorem readData (addr : Address) (size : Size) : Advances 0 (Exec.readData addr size) m :=
  .get_bind (.read addr size m.dataSpace)

theorem fetchWord : Advances 1 Exec.fetchWord m :=
  .of_past fun _ _ => past_of_fetchWord

theorem fetchLong : Advances 2 Exec.fetchLong m :=
  .of_past fun _ _ => past_of_fetchLong

theorem fetchSignedWord : Advances 1 Exec.fetchSignedWord m :=
  .of_past fun _ _ => past_of_fetchSignedWord

theorem fetchImmediate (size : Size) : Advances size.wordCount (Exec.fetchImmediate size) m := by
  cases size with
  | byte => exact .bind_still .fetchWord fun _ _ _ => .pure _
  | word => exact .bind_still .fetchWord fun _ _ _ => .pure _
  | long => exact .fetchLong

theorem throw (e : Exception) : Advances words (MonadExcept.throw e : Exec α) m := by
  intro a m' h
  cases h

theorem throw_bind (e : Exception) (f : α → Exec β) :
    Advances words ((MonadExcept.throw e : Exec α) >>= f) m := by
  intro a m' h
  cases h

theorem orIllegal (x : Option α) : Advances 0 (Exec.orIllegal x) m := by
  cases x with
  | none => exact .throw _
  | some a => exact .pure a

theorem postincrement (n : RegisterNumber) (size : Size) :
    Advances 0 (Exec.postincrement n size) m :=
  .regs_bind (.bind_still (.setA n _) fun _ _ _ => .pure _)

theorem predecrement (n : RegisterNumber) (size : Size) :
    Advances 0 (Exec.predecrement n size) m :=
  .regs_bind (.bind_still (.setA n _) fun _ _ _ => .pure _)

theorem resolve (ea : AddressingMode) (size : Size) :
    Advances (ea.wordCount m.model size m.nextWord) (Exec.resolve ea size) m := by
  cases hcontrol : ea.isControl with
  | true =>
    rw [← AddressingMode.words_eq_wordCount hcontrol]
    exact .of_past fun _ _ => past_of_resolve hcontrol
  | false =>
    cases ea with
    | dataRegister n => exact .pure _
    | addressRegister n => exact .pure _
    | postincrement n => exact .bind_still (.postincrement n size) fun _ _ _ => .pure _
    | predecrement n => exact .bind_still (.predecrement n size) fun _ _ _ => .pure _
    | immediate => exact .bind_still (.fetchImmediate size) fun _ _ _ => .pure _
    | _ => cases hcontrol

theorem resolveMode (ea : Option AddressingMode) (size : Size) :
    Advances (ea.elim 0 (·.wordCount m.model size m.nextWord)) (Exec.resolveMode ea size) m := by
  cases ea with
  | none => exact .throw_bind _ _
  | some ea =>
    rw [Option.elim_some]
    exact .resolve ea size

theorem readLocation (location : Location) (size : Size) :
    Advances 0 (Exec.readLocation location size) m := by
  cases location with
  | data n => exact .regs_bind (.pure _)
  | address n => exact .regs_bind (.pure _)
  | memory addr => exact .bind_still (.readData addr size) fun _ _ _ => .pure _
  | program addr =>
    exact .get_bind (.bind_still (.read addr size m.programSpace) fun _ _ _ => .pure _)
  | immediate value => exact .pure _

theorem fetchTarget (ea : Option AddressingMode) (p : Operands) :
    Advances (ea.elim 0 (·.wordCount m.model p.size m.nextWord)) (Exec.fetchTarget ea p) m :=
  .bind_still (.resolveMode ea p.size) fun _ _ _ => .orIllegal _

theorem fetchControlAddress (op : Opcode) (size : Size) :
    Advances ((AddressingMode.ofOpcode? op).elim 0 (·.wordCount m.model size m.nextWord))
      (Exec.fetchControlAddress op size) m :=
  .bind_still (.resolveMode _ size) fun _ _ _ => .orIllegal _

theorem fetchMovemBase (op : Opcode) (size : Size) :
    Advances ((AddressingMode.ofOpcode? op).elim 0 (·.wordCount m.model size m.nextWord))
      (Exec.fetchMovemBase op size) m := by
  rw [Exec.fetchMovemBase]
  split
  next hmode =>
    cases hea : AddressingMode.ofOpcode? op with
    | none => exact .regs_bind (.pure _)
    | some ea =>
      obtain ⟨hpost, hpre⟩ := mode_of_ofOpcode? hea
      rw [hpost, hpre] at hmode
      cases ea with
      | postincrement n => exact .regs_bind (.pure _)
      | predecrement n => exact .regs_bind (.pure _)
      | _ => simp [AddressingMode.isPostincrement, AddressingMode.isPredecrement] at hmode
  next => exact .fetchControlAddress op size

theorem fetchTrapOperand (op : Opcode) :
    Advances (Fetch.trapCount op) (Exec.fetchTrapOperand op) m := by
  rw [Exec.fetchTrapOperand]
  split
  next hword =>
    rw [Fetch.trapCount, hword]
    exact .bind_still .fetchWord fun _ _ _ => .pure _
  next hlong =>
    rw [Fetch.trapCount, hlong]
    exact .fetchLong
  next hword hlong =>
    have hnone : Fetch.trapCount op = 0 := by
      rw [Fetch.trapCount]
      split
      next h => exact (hword h).elim
      next h => exact (hlong h).elim
      next => rfl
    rw [hnone]
    exact .pure _

theorem fetchShiftCount (op : Opcode) : Advances 0 (Exec.fetchShiftCount op) m := by
  rw [Exec.fetchShiftCount]
  split
  · exact .regs_bind (.pure _)
  · exact .pure _

theorem valueOnly (p : Operands) {value : Exec UInt32} (h : Advances words value m) :
    Advances words (Exec.valueOnly p value) m :=
  .bind_still h fun _ _ _ => .pure _

theorem fetchAt {addr : Exec Address} (size : Size) (h : Advances 0 addr m) :
    Advances 0 (Exec.fetchAt addr size) m :=
  .bind_still h fun _ _ _ => .readLocation _ size

end Advances

end Exec

open Exec Machine

variable {m : Machine}

theorem Fetch.advances_run (f : Fetch) (p : Operands) :
    Advances (f.wordCount m.opcode m.model p.size m.nextWord) (f.run p) m := by
  apply Advances.get_bind
  cases f with
  | source =>
    apply Advances.valueOnly
    exact .bind_still (.resolveMode _ p.size) fun _ _ _ => .readLocation _ p.size
  | target => exact .fetchTarget _ p
  | moveTarget => exact .fetchTarget _ p
  | controlAddress => exact .valueOnly p (.fetchControlAddress _ p.size)
  | movemBase => exact .valueOnly p (.fetchMovemBase _ p.size)
  | displacedAddress =>
    apply Advances.valueOnly
    exact .regs_bind (.bind_still .fetchSignedWord fun _ _ _ => .pure _)
  | data f => exact .valueOnly p (.regs_bind (.pure _))
  | dataTarget f => exact .pure _
  | address f => exact .valueOnly p (.regs_bind (.pure _))
  | addressTarget f => exact .pure _
  | postincrement f => exact .valueOnly p (.fetchAt p.size (.postincrement _ p.size))
  | predecrement f => exact .valueOnly p (.fetchAt p.size (.predecrement _ p.size))
  | predecrementTarget f => exact .bind_still (.predecrement _ p.size) fun _ _ _ => .pure _
  | immediate =>
    exact .valueOnly p (.bind_still (.fetchImmediate p.size) fun _ _ _ => .pure _)
  | immediateWord => exact .valueOnly p (.bind_still .fetchWord fun _ _ _ => .pure _)
  | bitNumber => exact .valueOnly p (.bind_still .fetchWord fun _ _ _ => .pure _)
  | extension => exact .valueOnly p (.bind_still .fetchWord fun _ _ _ => .pure _)
  | quick => exact .valueOnly p (.pure _)
  | signedByte => exact .valueOnly p (.pure _)
  | branchTarget => exact .valueOnly p (.of_past fun _ _ => past_of_fetchBranchTarget)
  | wordBranchTarget =>
    apply Advances.valueOnly
    exact .regs_bind (.bind_still .fetchSignedWord fun _ _ _ => .pure _)
  | displacementWord => exact .valueOnly p .fetchSignedWord
  | displacementLong => exact .valueOnly p .fetchLong
  | trapNumber => exact .valueOnly p (.pure _)
  | one => exact .valueOnly p (.pure _)
  | shiftCount => exact .valueOnly p (.fetchShiftCount _)
  | trapOperand => exact .valueOnly p (.fetchTrapOperand _)

namespace Exec

theorem advances_fetchOperand (f : Option Fetch) (keep : Operands → UInt32 → Operands)
    (p : Operands) : Advances (f.elim 0 (·.wordCount m.opcode m.model p.size m.nextWord))
      (fetchOperand f keep p) m := by
  cases f with
  | none => exact .pure p
  | some f => exact .bind_still (f.advances_run p) fun _ _ _ => .pure _

theorem advances_fetchOperands (i : Instruction) :
    Advances (i.firstCount m.opcode m.model m.wordAhead +
      i.secondCount m.opcode m.model m.wordAhead) (fetchOperands i) m := by
  intro q m₂ h
  obtain ⟨p, m₁, h₁, h₂⟩ := exists_of_bind_ok h
  have hfirst : m₁.regs.pc =
      m.regs.pc + UInt32.ofNat (2 * i.firstCount m.opcode m.model m.wordAhead) := by
    rw [Instruction.firstCount, wordAhead_zero]
    exact advances_fetchOperand i.first ({ · with first := · }) (.new i.size) p m₁ h₁
  have hprepares := (prepares_firstOperand i).of_ok h₁
  have hfetched := fetched_fetchOperand i.first ({ · with first := · }) (.new i.size)
    fun p value => ⟨rfl, by simp⟩
  have hsize : p.size = i.size := (hfetched p m m₁ h₁).size
  have hsecond : m₂.regs.pc =
      m₁.regs.pc + UInt32.ofNat (2 * i.secondCount m.opcode m.model m.wordAhead) := by
    have hadvances := advances_fetchOperand i.second _ p q m₂ h₂
    rw [hprepares.opcode, hprepares.model, hsize, ← wordAhead_zero,
      wordAhead_of_prepares hprepares hfirst, Nat.add_zero] at hadvances
    exact hadvances
  rw [hsecond, hfirst, Nat.mul_add, UInt32.ofNat_add, UInt32.add_assoc]

/-- Operands take PC past at most ten words and leave it as even as it was; how many they are is a
matter of the model, the opcode and those words alone. -/
theorem pc_of_fetchOperands {op : Opcode} {i : Instruction} {p : Operands} {m m' : Machine}
    (hdecode : decode op = some i) (hop : m.opcode = op) (h : fetchOperands i m = .ok p m') :
    let k := op.wordCount m.model m.wordAhead
    k ≤ 10 ∧ m'.regs.pc = m.regs.pc + UInt32.ofNat (2 * k) ∧
      m'.regs.pc &&& 1 = m.regs.pc &&& 1 ∧
      ∀ m₁ p₁ m₁', m₁.model = m.model → m₁.opcode = op →
        (∀ j < k, m₁.wordAhead j = m.wordAhead j) → fetchOperands i m₁ = .ok p₁ m₁' →
        m₁'.regs.pc = m₁.regs.pc + UInt32.ofNat (2 * k) := by
  intro k
  have hpc : ∀ m₁ p₁ m₁', m₁.opcode = op → fetchOperands i m₁ = .ok p₁ m₁' →
      m₁'.regs.pc = m₁.regs.pc + UInt32.ofNat (2 * op.wordCount m₁.model m₁.wordAhead) := by
    intro m₁ p₁ m₁' hop₁ h₁
    have hadvances := advances_fetchOperands i p₁ m₁' h₁
    rw [hop₁] at hadvances
    rw [hadvances, Opcode.wordCount_of_decode hdecode]
  have hend := hpc m p m' hop h
  refine ⟨op.wordCount_le, hend, ?_, ?_⟩
  · rw [hend]
    exact parity_add_words _ k
  · intro m₁ p₁ m₁' hmodel hop₁ hwords h₁
    rw [hpc m₁ p₁ m₁' hop₁ h₁, hmodel, Opcode.wordCount_congr hwords]

/-- MOVE.L ([0,A0,D0.W],0),([0,A0,D0.W],0), with all displacements as longs, by two pointers. -/
theorem pc_of_fetchOperands_pointers :
    let words : List UInt8 := [0x01, 0x33, 0, 0, 0, 0, 0, 0, 0, 0]
    let ready (pc base : Address) (pointer : List UInt8) : Machine :=
      { Machine.new .m68020
          (((Memory.flat (.new 64 0)).patch pc (words ++ words)).patch base pointer) with
        regs := { Registers.initial.setA .zero base with pc }
        opcode := 0x21B0 }
    let m := ready 16 0 [0, 0, 0, 4]
    let m₁ := ready 10 40 [0, 0, 0, 52]
    let i : Instruction := ⟨some .source, some .moveTarget, .move, .long, .storesResult⟩
    decode 0x21B0 = some i ∧ Opcode.wordCount 0x21B0 .m68020 m.wordAhead = 10 ∧
      (left (fetchOperands i m)).regs.pc = 36 ∧ (left (fetchOperands i m₁)).regs.pc = 30 := by
  intro words ready m m₁ i
  have hdecode : decode 0x21B0 = some i := by decide +kernel
  have hten : Opcode.wordCount 0x21B0 .m68020 m.wordAhead = 10 := by decide +kernel
  obtain ⟨p, h⟩ := exists_ok_left (r := fetchOperands i m) (by decide +kernel)
  obtain ⟨p₁, h₁⟩ := exists_ok_left (r := fetchOperands i m₁) (by decide +kernel)
  have hmodel : m₁.model = m.model := by decide +kernel
  have hwords : ∀ j < Opcode.wordCount 0x21B0 m.model m.wordAhead,
      m₁.wordAhead j = m.wordAhead j := by decide +kernel
  obtain ⟨-, hend, -, hsame⟩ := pc_of_fetchOperands hdecode rfl h
  exact ⟨hdecode, hten, hend.trans (by decide +kernel),
    (hsame m₁ p₁ _ hmodel rfl hwords h₁).trans (by decide +kernel)⟩

end Exec

end Mc68k
