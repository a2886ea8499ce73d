import Mc68k.Proofs.Compatibility.Operand
import Mc68k.Proofs.Decode
import Mc68k.Proofs.Movem.Place

namespace Mc68k

def Fetch.findsPlace : Fetch → Bool
  | source | target | moveTarget | controlAddress | movemBase => true
  | _ => false

/-- Modes that a fetch has a use for. -/
def Fetch.accepts : Fetch → AddressingMode → Bool
  | target, ea | moveTarget, ea => ea.isAlterable
  | controlAddress, ea => ea.isControl
  | movemBase, ea => ea.isControl || ea.isPostincrement || ea.isPredecrement
  | _, _ => true

/-- Whether the opcode has a mode that the fetch accepts, if the fetch goes by one. -/
def Fetch.fits (op : Opcode) (f : Fetch) : Bool := !f.findsPlace || (f.mode? op).any f.accepts

def Fetch.setsTarget : Fetch → Bool
  | target | moveTarget | dataTarget _ | addressTarget _ | predecrementTarget _ => true
  | _ => false

def InstructionFlags.usesTarget (flags : InstructionFlags) : Bool :=
  flags.contains .loadsTarget || flags.contains .storesResult

namespace Instruction

def fetches (i : Instruction) : List Fetch := i.first.toList ++ i.second.toList

/-- The fetches of an instruction fit an opcode, and set the target that its flags ask for. -/
structure Suits (i : Instruction) (op : Opcode) : Prop where
  fits : ∀ f ∈ i.fetches, f.fits op = true
  target : i.flags.usesTarget = true → ∃ f ∈ i.fetches, f.setsTarget = true

end Instruction

theorem AddressingMode.isAlterable_of_isAddressRegister {ea : AddressingMode}
    (h : ea.isAddressRegister = true) : ea.isAlterable = true := by
  cases ea with
  | addressRegister n => rfl
  | _ => cases h

namespace Fetch

variable {op : Opcode} {ea : AddressingMode}

theorem fits_of_mode? {f : Fetch} (hea : f.mode? op = some ea) (h : f.accepts ea = true) :
    f.fits op = true := by
  rw [fits, hea, Option.any_some, h, Bool.or_true]

theorem fits_source (hea : AddressingMode.ofOpcode? op = some ea) : source.fits op = true :=
  fits_of_mode? hea rfl

theorem fits_target (hea : AddressingMode.ofOpcode? op = some ea) (h : ea.isAlterable = true) :
    target.fits op = true :=
  fits_of_mode? hea h

theorem fits_dataAlterable (hea : AddressingMode.ofOpcode? op = some ea)
    (h : ea.isDataAlterable = true) : target.fits op = true :=
  fits_target hea (Bool.and_eq_true_iff.mp h).2

theorem fits_memoryAlterable (hea : AddressingMode.ofOpcode? op = some ea)
    (h : ea.isMemoryAlterable = true) : target.fits op = true :=
  fits_target hea (Bool.and_eq_true_iff.mp h).2

theorem fits_controlAddress (hea : AddressingMode.ofOpcode? op = some ea)
    (h : ea.isControl = true) : controlAddress.fits op = true :=
  fits_of_mode? hea h

theorem exists_mode_of_fits {f : Fetch} (h : f.fits op = true) (hplace : f.findsPlace = true) :
    ∃ ea, f.mode? op = some ea ∧ f.accepts ea = true := by
  rw [fits, hplace, Bool.not_true, Bool.false_or] at h
  cases hea : f.mode? op with
  | none =>
    rw [hea] at h
    cases h
  | some ea =>
    rw [hea] at h
    exact ⟨ea, rfl, h⟩

end Fetch

namespace Decode

open AddressingMode Fetch

def Suits (op : Opcode) (i : Option Instruction) : Prop := ∀ instruction ∈ i, instruction.Suits op

variable {op : Opcode}

namespace Suits

theorem none : Suits op none := by
  simp [Suits]

theorem bind {α : Type} {o : Option α} {f : α → Option Instruction}
    (h : ∀ a, o = some a → Suits op (f a)) : Suits op (o >>= f) := by
  intro i hi
  obtain ⟨a, ha, hfa⟩ := Option.bind_eq_some_iff.mp hi
  exact h a ha i hfa

theorem only {i : Option Instruction} {condition : Bool} (h : condition = true → Suits op i) :
    Suits op (Decode.only condition i) := by
  cases condition with
  | false => exact none
  | true => exact h rfl

variable {f g : Fetch} {operation : Operation} {size : Size} {flags : InstructionFlags}

theorem nullary (h : flags.usesTarget = false) :
    Suits op (Decode.nullary operation size flags) := by
  intro i hi
  obtain rfl := Option.some.inj hi
  refine ⟨nofun, fun huses => ?_⟩
  rw [h] at huses
  cases huses

theorem unary (hf : f.fits op = true) (ht : (!flags.usesTarget || f.setsTarget) = true) :
    Suits op (Decode.unary f operation size flags) := by
  intro i hi
  obtain rfl := Option.some.inj hi
  refine ⟨?_, fun huses => ?_⟩
  · simpa [Instruction.fetches] using hf
  · rw [huses, Bool.not_true, Bool.false_or] at ht
    exact ⟨f, by simp [Instruction.fetches], ht⟩

theorem binary (hf : f.fits op = true) (hg : g.fits op = true)
    (ht : (!flags.usesTarget || g.setsTarget) = true) :
    Suits op (Decode.binary f g operation size flags) := by
  intro i hi
  obtain rfl := Option.some.inj hi
  refine ⟨?_, fun huses => ?_⟩
  · simpa [Instruction.fetches] using ⟨hf, hg⟩
  · rw [huses, Bool.not_true, Bool.false_or] at ht
    exact ⟨g, by simp [Instruction.fetches], ht⟩

end Suits

variable {ea : AddressingMode}

theorem suits_bitOperation (hea : ofOpcode? op = some ea) {number : Fetch}
    (hnumber : number.fits op = true) (testable : Bool) :
    Suits op (bitOperation op ea number testable) := by
  rw [bitOperation]
  split
  · exact .only fun _ => .binary hnumber (fits_source hea) rfl
  · exact .only fun h => .binary hnumber (fits_dataAlterable hea h) rfl
  · exact .only fun h => .binary hnumber (fits_dataAlterable hea h) rfl
  · exact .only fun h => .binary hnumber (fits_dataAlterable hea h) rfl

theorem suits_bitwiseImmediate (hea : ofOpcode? op = some ea) (logic : Bitwise) (size : Size) :
    Suits op (bitwiseImmediate logic ea size) := by
  rw [bitwiseImmediate.eq_def]
  split
  · cases size with
    | byte => exact .unary rfl rfl
    | word => exact .unary rfl rfl
    | long => exact .none
  · exact .only fun h => .binary rfl (fits_dataAlterable hea h) rfl

theorem suits_line0 (op : Opcode) : Suits op (line0 op) := by
  rw [line0]
  split
  · exact .unary rfl rfl
  apply Suits.bind
  intro ea hea
  split
  · exact suits_bitOperation hea rfl _
  split
  · exact suits_bitOperation hea rfl _
  apply Suits.bind
  intro size _
  split
  · exact suits_bitwiseImmediate hea _ _
  · exact suits_bitwiseImmediate hea _ _
  · exact .only fun h => .binary rfl (fits_dataAlterable hea h) rfl
  · exact .only fun h => .binary rfl (fits_dataAlterable hea h) rfl
  · exact suits_bitwiseImmediate hea _ _
  · split
    · exact .binary rfl (fits_source hea) rfl
    · exact .only fun _ => .binary rfl (fits_source hea) rfl
  · exact .only fun h => .binary rfl (fits_memoryAlterable hea h) rfl

theorem suits_move (op : Opcode) : Suits op (move op) := by
  apply Suits.bind
  intro size _
  apply Suits.bind
  intro ea hea
  apply Suits.bind
  intro destination hdestination
  split
  · exact .none
  split
  · exact .only fun _ => .binary (fits_source hea) rfl rfl
  · refine .only fun h => .binary (fits_source hea) ?_ rfl
    exact fits_of_mode? hdestination (Bool.and_eq_true_iff.mp h).2

theorem suits_singleOperand (op : Opcode) : Suits op (singleOperand op) := by
  apply Suits.bind
  intro ea hea
  split
  · split
    · exact .only fun h => .unary (fits_dataAlterable hea h) rfl
    · exact .only fun h => .unary (fits_dataAlterable hea h) rfl
    · exact .only fun _ => .unary (fits_source hea) rfl
    · exact .only fun _ => .unary (fits_source hea) rfl
  · split
    · exact .only fun h => .unary (fits_dataAlterable hea h) rfl
    · exact .only fun h => .unary (fits_dataAlterable hea h) rfl
    · exact .only fun h => .unary (fits_dataAlterable hea h) rfl
    · exact .only fun h => .unary (fits_dataAlterable hea h) rfl

theorem suits_line48 (op : Opcode) : Suits op (line48 op) := by
  rw [line48]
  split
  · exact .unary rfl rfl
  · exact .unary rfl rfl
  · exact .nullary rfl
  · exact .unary rfl rfl
  · exact .unary rfl rfl
  · apply Suits.bind
    intro ea hea
    split
    · exact .only fun h => .unary (fits_dataAlterable hea h) rfl
    · exact .only fun h => .unary (fits_controlAddress hea h) rfl
    · refine .only fun h => .binary rfl (fits_of_mode? hea ?_) rfl
      obtain halterable | hpre := Bool.or_eq_true_iff.mp h
      · obtain ⟨hcontrol, -⟩ := Bool.and_eq_true_iff.mp halterable
        simp [accepts, hcontrol]
      · simp [accepts, hpre]

theorem suits_line4A (op : Opcode) : Suits op (line4A op) := by
  rw [line4A]
  split
  · exact .nullary rfl
  · apply Suits.bind
    intro ea hea
    split
    · exact .only fun h => .unary (fits_dataAlterable hea h) rfl
    · split
      · exact .unary (fits_source hea) rfl
      · exact .only fun _ => .unary (fits_source hea) rfl

theorem suits_line4C (op : Opcode) : Suits op (line4C op) := by
  apply Suits.bind
  intro ea hea
  split
  · exact .only fun _ => .binary rfl (fits_source hea) rfl
  · exact .only fun _ => .binary rfl (fits_source hea) rfl
  · refine .only fun h => .binary rfl (fits_of_mode? hea ?_) rfl
    rw [accepts, h, Bool.true_or]

theorem suits_line4E (op : Opcode) : Suits op (line4E op) := by
  rw [line4E]
  split
  · exact .nullary rfl
  · exact .nullary rfl
  · exact .unary rfl rfl
  · exact .nullary rfl
  · exact .unary rfl rfl
  · exact .nullary rfl
  · exact .nullary rfl
  · exact .nullary rfl
  · exact .unary rfl rfl
  · exact .unary rfl rfl
  · split
    · exact .unary rfl rfl
    · exact .unary rfl rfl
    · exact .unary rfl rfl
    · exact .nullary rfl
    · exact .nullary rfl
    · exact .nullary rfl
    · apply Suits.bind
      intro ea hea
      split
      · exact .only fun h => .unary (fits_controlAddress hea h) rfl
      · exact .only fun h => .unary (fits_controlAddress hea h) rfl
      · exact .none

theorem suits_line4 (op : Opcode) : Suits op (line4 op) := by
  rw [line4]
  split
  · split
    · exact .unary rfl rfl
    · apply Suits.bind
      intro ea hea
      split
      · exact .only fun h => .binary (fits_controlAddress hea h) rfl rfl
      · exact .only fun _ => .binary (fits_source hea) rfl rfl
      · exact .only fun _ => .binary (fits_source hea) rfl rfl
      · exact .none
  · split
    · exact suits_line48 op
    · exact suits_line4A op
    · exact suits_line4C op
    · exact suits_line4E op
    · exact suits_singleOperand op

theorem suits_line5 (op : Opcode) : Suits op (line5 op) := by
  apply Suits.bind
  intro ea hea
  split
  · split
    · exact .unary rfl rfl
    · split
      next h => exact .unary (fits_target hea h) rfl
      next => exact .unary rfl rfl
  · split
    next h =>
      exact .only fun _ => .binary rfl (fits_target hea (isAlterable_of_isAddressRegister h)) rfl
    next =>
      exact .only fun h => .binary rfl (fits_dataAlterable hea h) rfl

theorem suits_pair (op : Opcode) (operation : Operation) (size : Size) :
    Suits op (pair op operation size) := by
  rw [pair]
  split
  · exact .binary rfl rfl rfl
  · exact .binary rfl rfl rfl

theorem suits_bitwise (hea : ofOpcode? op = some ea) (logic : Bitwise) :
    Suits op (bitwise op ea logic) := by
  apply Suits.bind
  intro size _
  split
  · exact .only fun h => .binary rfl (fits_memoryAlterable hea h) rfl
  · exact .only fun _ => .binary (fits_source hea) rfl rfl

theorem suits_line8 (op : Opcode) : Suits op (line8 op) := by
  apply Suits.bind
  intro ea hea
  split
  · exact .only fun _ => .unary (fits_source hea) rfl
  · exact .only fun _ => .unary (fits_source hea) rfl
  · split
    · exact suits_pair op _ _
    · exact suits_bitwise hea _
  · exact suits_bitwise hea _

theorem suits_lineC (op : Opcode) : Suits op (lineC op) := by
  apply Suits.bind
  intro ea hea
  split
  · exact .only fun _ => .unary (fits_source hea) rfl
  · exact .only fun _ => .unary (fits_source hea) rfl
  · split
    · exact suits_pair op _ _
    · exact suits_bitwise hea _
  · split
    · exact .nullary rfl
    · exact suits_bitwise hea _
  · split
    · exact .nullary rfl
    · exact suits_bitwise hea _
  · exact suits_bitwise hea _

theorem suits_addSub (op : Opcode) (plainly address extended : Operation) :
    Suits op (addSub op plainly address extended) := by
  apply Suits.bind
  intro ea hea
  split
  · exact .binary (fits_source hea) rfl rfl
  · split
    · split
      · exact suits_pair op _ _
      · exact .only fun h => .binary rfl (fits_memoryAlterable hea h) rfl
    · exact .only fun _ => .binary (fits_source hea) rfl rfl

theorem suits_lineB (op : Opcode) : Suits op (lineB op) := by
  apply Suits.bind
  intro ea hea
  split
  · exact .binary (fits_source hea) rfl rfl
  · split
    · split
      · exact .binary rfl rfl rfl
      · exact .only fun h => .binary rfl (fits_dataAlterable hea h) rfl
    · exact .only fun _ => .binary (fits_source hea) rfl rfl

theorem suits_lineE (op : Opcode) : Suits op (lineE op) := by
  rw [lineE]
  split
  · exact .binary rfl rfl rfl
  · apply Suits.bind
    intro ea hea
    refine .only fun h => .binary rfl (fits_memoryAlterable hea ?_) rfl
    exact (Bool.and_eq_true_iff.mp h).2

end Decode

open Decode in
theorem suits_decode (op : Opcode) : Suits op (decode op) := by
  rw [decode]
  split
  · exact suits_line0 op
  · exact suits_move op
  · exact suits_move op
  · exact suits_move op
  · exact suits_line4 op
  · exact suits_line5 op
  · exact .unary rfl rfl
  · exact .only fun _ => .binary rfl rfl rfl
  · exact suits_line8 op
  · exact suits_addSub op _ _ _
  · exact suits_lineB op
  · exact suits_lineC op
  · exact suits_addSub op _ _ _
  · exact suits_lineE op
  · exact .none

namespace Exec

def Returns {α : Type} (P : α → Prop) (x : Exec α) : Prop := ∀ a m m', x m = .ok a m' → P a

namespace Returns

variable {α β : Type} {P : α → Prop} {Q : β → Prop}

theorem pure {a : α} (h : P a) : Returns P (Pure.pure a : Exec α) := by
  intro b m m' hr
  obtain ⟨rfl, -⟩ := EStateM.Result.ok.inj hr
  exact h

theorem throw (e : Exception) : Returns P (MonadExcept.throw e : Exec α) := by
  intro a m m' hr
  cases hr

theorem bind {x : Exec α} {f : α → Exec β} (hx : Returns P x) (hf : ∀ a, P a → Returns Q (f a)) :
    Returns Q (x >>= f) := by
  intro b m m'' h
  obtain ⟨a, m', hr, hnext⟩ := exists_of_bind_ok h
  exact hf a (hx a m m' hr) b m' m'' hnext

theorem after {x : Exec α} {f : α → Exec β} (hf : ∀ a, Returns Q (f a)) : Returns Q (x >>= f) :=
  bind (P := fun _ => True) (fun _ _ _ _ => trivial) fun a _ => hf a

theorem ite {c : Prop} [Decidable c] {x y : Exec α} (hx : Returns P x) (hy : Returns P y) :
    Returns P (if c then x else y) := by
  split
  · exact hx
  · exact hy

end Returns

end Exec

namespace Operands

structure Fetched (sets : Bool) (p q : Operands) : Prop where
  size : q.size = p.size
  target : q.target ≠ .none ↔ sets = true ∨ p.target ≠ .none

namespace Fetched

variable {sets sets' : Bool} {p q r : Operands}

theorem refl (p : Operands) : Fetched false p p := ⟨rfl, by simp⟩

theorem trans (h : Fetched sets p q) (h' : Fetched sets' q r) : Fetched (sets || sets') p r where
  size := h'.size.trans h.size
  target := by rw [h'.target, h.target, Bool.or_eq_true, or_assoc, or_left_comm]

end Fetched

end Operands

namespace Exec

open Operands

variable {p : Operands}

theorem fetched_fetchTarget (ea : Option AddressingMode) (p : Operands) :
    Returns (fun found => Fetched true p found.2) (fetchTarget ea p) := by
  refine .after fun location => ?_
  cases location with
  | data n => exact .pure ⟨rfl, by simp [toData]⟩
  | address n => exact .pure ⟨rfl, by simp [toAddress]⟩
  | memory addr => exact .pure ⟨rfl, by simp [toMemory]⟩
  | program addr => exact .throw _
  | immediate value => exact .throw _

theorem fetched_valueOnly (p : Operands) (value : Exec UInt32) :
    Returns (fun found => Fetched false p found.2) (valueOnly p value) :=
  .after fun _ => .pure (.refl p)

end Exec

open Exec Operands

theorem Fetch.fetched_run (f : Fetch) (p : Operands) :
    Returns (fun found => Fetched f.setsTarget p found.2) (f.run p) := by
  refine .after fun m => ?_
  cases f with
  | target => exact fetched_fetchTarget _ p
  | moveTarget => exact fetched_fetchTarget _ p
  | dataTarget f => exact .pure ⟨rfl, by simp [setsTarget, toData]⟩
  | addressTarget f => exact .pure ⟨rfl, by simp [setsTarget, toAddress]⟩
  | predecrementTarget f =>
    exact .after fun _ => .pure ⟨rfl, by simp [setsTarget, toMemory]⟩
  | _ => exact fetched_valueOnly p _

namespace Exec

theorem fetched_fetchOperand (f : Option Fetch) (keep : Operands → UInt32 → Operands)
    (p : Operands) (hkeep : ∀ p value, Fetched false p (keep p value)) :
    Returns (Fetched (f.any (·.setsTarget)) p) (fetchOperand f keep p) := by
  cases f with
  | none => exact .pure (.refl p)
  | some f =>
    refine .bind (f.fetched_run p) fun found h => .pure ?_
    simpa using h.trans (hkeep found.2 found.1)

theorem fetched_fetchOperands (i : Instruction) :
    Returns (Fetched (i.fetches.any (·.setsTarget)) (.new i.size)) (fetchOperands i) := by
  have hany : i.fetches.any (·.setsTarget) =
      (i.first.any (·.setsTarget) || i.second.any (·.setsTarget)) := by
    cases hf : i.first <;> cases hs : i.second <;> simp [Instruction.fetches, hf, hs]
  rw [hany]
  refine .bind (fetched_fetchOperand i.first _ _ fun p value => ⟨rfl, by simp⟩) fun p hp => ?_
  intro q m m' hq
  have hsecond := fetched_fetchOperand i.second ({ · with second := · }) p fun p value =>
    ⟨rfl, by simp⟩
  exact hp.trans (hsecond q m m' hq)

end Exec

end Mc68k
