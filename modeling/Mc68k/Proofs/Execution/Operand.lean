import Mc68k.Operands
import Mc68k.Proofs.Execution.Neutral

namespace Mc68k

open Registers (SameSystem)

def AddressingMode.isIndexed : AddressingMode → Bool
  | indexed _ | pcIndexed => true
  | _ => false

/-- Fetches that may look at the model: by an addressing mode, or the target of a branch. -/
def Fetch.seesModel : Fetch → Bool
  | source | target | moveTarget | controlAddress | movemBase | branchTarget => true
  | _ => false

@[simp] theorem Machine.index_veiled (m : Machine) (ext : UInt16) :
    m.veiled.index ext = m.index ext := by
  rw [index, index, regs_veiled, Registers.general_untraced]
  rfl

namespace Exec

variable {supervisor : Bool} {α : Type}

theorem neutral_orIllegal (x : Option α) : Neutral supervisor (orIllegal x) := by
  cases x with
  | none => exact .throw .illegalInstruction rfl
  | some a => exact .pure a

theorem neutral_postincrement (n : RegisterNumber) (size : Size) :
    Neutral supervisor (postincrement n size) :=
  .regs_bind (fun _ => .bind (.setA n _) fun _ => .pure _) fun r => by simp

theorem neutral_predecrement (n : RegisterNumber) (size : Size) :
    Neutral supervisor (predecrement n size) :=
  .regs_bind (fun _ => .bind (.setA n _) fun _ => .pure _) fun r => by simp

theorem neutral_fetchSignedWord : Neutral supervisor fetchSignedWord :=
  .bind .fetchWord fun _ => .pure _

theorem neutral_fetchImmediate (size : Size) : Neutral supervisor (fetchImmediate size) := by
  cases size with
  | byte => exact .bind .fetchWord fun _ => .pure _
  | word => exact .bind .fetchWord fun _ => .pure _
  | long => exact .fetchLong

theorem neutral_fetchDisplacement (size : Nat) : Neutral supervisor (fetchDisplacement size) := by
  rw [fetchDisplacement.eq_def]
  split
  · exact .pure _
  · exact neutral_fetchSignedWord
  · exact .fetchLong

theorem steady_resolveFull (ext : UInt16) (base : Address) {space : FunctionCode}
    (hs : space.isSupervisor = supervisor) : Steady supervisor (resolveFull ext base space) := by
  refine .get_bind (fun m _ => ?_) fun m => by simp
  apply Steady.ite
  · exact .throw_bind _ _ rfl
  apply Steady.bind (neutral_fetchDisplacement _).toSteady
  intro displacement
  apply Steady.ite
  · exact .pure _
  apply Steady.ite
  · exact .throw_bind _ _ rfl
  apply Steady.bind (neutral_fetchDisplacement _).toSteady
  intro outer
  apply Steady.ite
  · exact .bind (.read _ .long hs) fun _ => .pure _
  · exact .bind (.read _ .long hs) fun _ => .pure _

theorem steady_resolveIndexed (base : Address) {space : FunctionCode}
    (hs : space.isSupervisor = supervisor) :
    Steady supervisor (resolveIndexed base space) := by
  apply Steady.bind .fetchWord
  intro ext
  refine .get_bind (fun m _ => ?_) fun m => by simp only [Machine.index_veiled]; rfl
  apply Steady.ite
  · exact steady_resolveFull ext base hs
  · exact .pure _

theorem neutral_resolve {ea : AddressingMode} (size : Size) (h : ea.isIndexed = false) :
    Neutral supervisor (resolve ea size) := by
  cases ea with
  | dataRegister n => exact .pure _
  | addressRegister n => exact .pure _
  | indirect n => exact .regs_bind (fun _ => .pure _) fun r => by simp
  | postincrement n => exact .bind (neutral_postincrement n size) fun _ => .pure _
  | predecrement n => exact .bind (neutral_predecrement n size) fun _ => .pure _
  | displacement n =>
    exact .bind neutral_fetchSignedWord fun _ => .regs_bind (fun _ => .pure _) fun r => by simp
  | indexed n => cases h
  | absoluteShort => exact .bind neutral_fetchSignedWord fun _ => .pure _
  | absoluteLong => exact .bind .fetchLong fun _ => .pure _
  | pcDisplacement =>
    exact .regs_bind (fun _ => .bind neutral_fetchSignedWord fun _ => .pure _) fun r => by simp
  | pcIndexed => cases h
  | immediate => exact .bind (neutral_fetchImmediate size) fun _ => .pure _

theorem steady_resolve (ea : AddressingMode) (size : Size) :
    Steady supervisor (resolve ea size) := by
  cases hi : ea.isIndexed with
  | false => exact (neutral_resolve size hi).toSteady
  | true =>
    cases ea with
    | indexed n =>
      refine .regs_bind (fun r => ?_) fun r => by simp
      refine .get_bind (fun m hm => ?_) fun m => by simp
      refine .bind (steady_resolveIndexed _ ?_) fun _ => .pure _
      rw [Machine.dataSpace, FunctionCode.isSupervisor_of, hm]
    | pcIndexed =>
      refine .regs_bind (fun r => ?_) fun r => by simp
      refine .get_bind (fun m hm => ?_) fun m => by simp
      refine .bind (steady_resolveIndexed _ ?_) fun _ => .pure _
      rw [Machine.programSpace, FunctionCode.isSupervisor_of, hm]
    | _ => cases hi

theorem neutral_readLocation (location : Location) (size : Size) :
    Neutral supervisor (readLocation location size) := by
  cases location with
  | data n => exact .regs_bind (fun _ => .pure _) fun r => by simp
  | address n => exact .regs_bind (fun _ => .pure _) fun r => by simp
  | memory addr => exact .bind (.readData addr size) fun _ => .pure _
  | program addr =>
    refine .get_bind (fun m hm => .bind (.read addr size ?_) fun _ => .pure _) fun m => by simp
    rw [Machine.programSpace, FunctionCode.isSupervisor_of, hm]
  | immediate value => exact .pure _

theorem steady_resolveMode (ea : Option AddressingMode) (size : Size) :
    Steady supervisor (resolveMode ea size) :=
  .bind (neutral_orIllegal ea).toSteady fun ea => steady_resolve ea size

theorem steady_fetchTarget (ea : Option AddressingMode) (p : Operands) :
    Steady supervisor (fetchTarget ea p) :=
  .bind (steady_resolveMode ea p.size) fun _ => (neutral_orIllegal _).toSteady

theorem steady_fetchControlAddress (op : Opcode) (size : Size) :
    Steady supervisor (fetchControlAddress op size) :=
  .bind (steady_resolveMode _ size) fun _ => (neutral_orIllegal _).toSteady

theorem steady_fetchMovemBase (op : Opcode) (size : Size) :
    Steady supervisor (fetchMovemBase op size) := by
  apply Steady.ite
  · exact .regs_bind (fun _ => .pure _) fun r => by simp
  · exact steady_fetchControlAddress op size

theorem steady_fetchBranchTarget (op : Opcode) : Steady supervisor (fetchBranchTarget op) := by
  refine .get_bind (fun m _ => ?_) fun _ => rfl
  apply Steady.ite
  · exact .bind neutral_fetchSignedWord.toSteady fun _ => .pure _
  apply Steady.ite
  · exact .bind Neutral.fetchLong.toSteady fun _ => .pure _
  · exact .pure _

theorem neutral_fetchShiftCount (op : Opcode) : Neutral supervisor (fetchShiftCount op) := by
  apply Neutral.ite
  · exact .regs_bind (fun _ => .pure _) fun r => by simp
  · exact .pure _

theorem neutral_fetchTrapOperand (op : Opcode) : Neutral supervisor (fetchTrapOperand op) := by
  rw [fetchTrapOperand]
  split
  · exact .bind .fetchWord fun _ => .pure _
  · exact .fetchLong
  · exact .pure _

theorem neutral_valueOnly (p : Operands) {value : Exec UInt32} (h : Neutral supervisor value) :
    Neutral supervisor (valueOnly p value) :=
  .bind h fun _ => .pure _

theorem neutral_fetchAt {addr : Exec Address} (size : Size) (h : Neutral supervisor addr) :
    Neutral supervisor (fetchAt addr size) :=
  .bind h fun _ => neutral_readLocation _ size

end Exec

open Exec

variable {supervisor : Bool}

theorem Fetch.neutral_run {f : Fetch} (p : Operands) (h : f.seesModel = false) :
    Neutral supervisor (f.run p) := by
  refine .get_bind (fun m _ => ?_) fun _ => rfl
  cases f with
  | source | target | moveTarget | controlAddress | movemBase | branchTarget => cases h
  | displacedAddress =>
    refine neutral_valueOnly p (.regs_bind (fun _ => ?_) fun r => by simp)
    exact .bind neutral_fetchSignedWord fun _ => .pure _
  | data f => exact neutral_valueOnly p (.regs_bind (fun _ => .pure _) fun r => by simp)
  | dataTarget f => exact .pure _
  | address f => exact neutral_valueOnly p (.regs_bind (fun _ => .pure _) fun r => by simp)
  | addressTarget f => exact .pure _
  | postincrement f => exact neutral_valueOnly p (neutral_fetchAt _ (neutral_postincrement _ _))
  | predecrement f => exact neutral_valueOnly p (neutral_fetchAt _ (neutral_predecrement _ _))
  | predecrementTarget f => exact .bind (neutral_predecrement _ _) fun _ => .pure _
  | immediate => exact neutral_valueOnly p (.bind (neutral_fetchImmediate _) fun _ => .pure _)
  | immediateWord => exact neutral_valueOnly p (.bind .fetchWord fun _ => .pure _)
  | bitNumber => exact neutral_valueOnly p (.bind .fetchWord fun _ => .pure _)
  | extension => exact neutral_valueOnly p (.bind .fetchWord fun _ => .pure _)
  | quick => exact neutral_valueOnly p (.pure _)
  | signedByte => exact neutral_valueOnly p (.pure _)
  | wordBranchTarget =>
    refine neutral_valueOnly p (.regs_bind (fun _ => ?_) fun r => by simp)
    exact .bind neutral_fetchSignedWord fun _ => .pure _
  | displacementWord => exact neutral_valueOnly p neutral_fetchSignedWord
  | displacementLong => exact neutral_valueOnly p .fetchLong
  | trapNumber => exact neutral_valueOnly p (.pure _)
  | one => exact neutral_valueOnly p (.pure _)
  | shiftCount => exact neutral_valueOnly p (neutral_fetchShiftCount _)
  | trapOperand => exact neutral_valueOnly p (neutral_fetchTrapOperand _)

theorem Fetch.steady_run (f : Fetch) (p : Operands) : Steady supervisor (f.run p) := by
  cases hf : f.seesModel with
  | false => exact (neutral_run p hf).toSteady
  | true =>
    refine .get_bind (fun m _ => ?_) fun _ => rfl
    cases f with
    | source =>
      exact .bind (.bind (steady_resolveMode _ _) fun _ => (neutral_readLocation _ _).toSteady)
        fun _ => .pure _
    | target => exact steady_fetchTarget _ p
    | moveTarget => exact steady_fetchTarget _ p
    | controlAddress => exact .bind (steady_fetchControlAddress _ _) fun _ => .pure _
    | movemBase => exact .bind (steady_fetchMovemBase _ _) fun _ => .pure _
    | branchTarget => exact .bind (steady_fetchBranchTarget _) fun _ => .pure _
    | _ => cases hf

namespace Operands

theorem neutral_load (p : Operands) : Neutral supervisor p.load := by
  rw [Operands.load]
  split
  · exact .pure _
  · exact .regs_bind (fun _ => .pure _) fun r => by simp
  · exact .regs_bind (fun _ => .pure _) fun r => by simp
  · exact .bind (.readData _ _) fun _ => .pure _

theorem neutral_setCodes (p : Operands) (flags : InstructionFlags) :
    Neutral supervisor (p.setCodes flags) := by
  apply Neutral.ite
  · exact .pure _
  · exact .modifySr (Status.logical · p.result p.size) (fun sr => by simp) fun sr => by simp

theorem neutral_store (p : Operands) (flags : InstructionFlags) :
    Neutral supervisor (p.store flags) := by
  rw [Operands.store]
  apply Neutral.ite
  · split
    · exact .setA _ _
    · refine .bind (neutral_setCodes p flags) fun _ => ?_
      exact .modifyRegs (fun r => SameSystem.setD r _ _) fun r => by simp
    · exact .bind (neutral_setCodes p flags) fun _ => .writeData _ _ _
    · exact neutral_setCodes p flags
  · exact .pure _

end Operands

end Mc68k
