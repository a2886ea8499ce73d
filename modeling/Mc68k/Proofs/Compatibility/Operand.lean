import Mc68k.Proofs.Execution.Operand

namespace Mc68k

/-- Full extension words, and what came with them, set the models apart. -/
def Model.PartInExtensions (a b : Model) : Prop := a.hasFullExtension ≠ b.hasFullExtension

/-- An index word whose format and scale no model can tell apart: bits 8 to 10 are clear. -/
def isPlainIndex (ext : UInt16) : Bool := field ext 8 3 == 0

def Fetch.mode? (op : Opcode) : Fetch → Option AddressingMode
  | source | target | controlAddress | movemBase => AddressingMode.ofOpcode? op
  | moveTarget => AddressingMode.ofMoveTarget? op
  | _ => none

def Exec.result? {α : Type} (x : Exec α) (m : Machine) : Option (α × Machine) :=
  match x m with
  | .ok a m' => some (a, m')
  | .error _ _ => none

theorem Exec.result?_of_ok {α : Type} {x : Exec α} {m m' : Machine} {a : α}
    (h : x m = .ok a m') : x.result? m = some (a, m') := by
  rw [result?, h]

theorem Exec.result?_bind {α β : Type} {x : Exec α} {f : α → Exec β} {m m' : Machine} {a : α}
    (h : x m = .ok a m') : (x >>= f).result? m = (f a).result? m' := by
  rw [result?, result?, bind_ok h]

/-- The index word that a mode, or a fetch by its mode, takes at PC. -/
def AddressingMode.indexWord? (ea : AddressingMode) (m : Machine) : Option UInt16 :=
  if ea.isIndexed then (Exec.fetchWord.result? m).map Prod.fst else none

def Fetch.indexWord? (f : Fetch) (m : Machine) : Option UInt16 :=
  (f.mode? m.opcode).bind (·.indexWord? m)

theorem field_scale_of_isPlainIndex {ext : UInt16} (h : isPlainIndex ext = true) :
    field ext 9 2 = 0 := by
  simp only [isPlainIndex, field, beq_iff_eq, BitVec.extractLsb'_toNat,
    Nat.shiftRight_eq_div_pow] at h ⊢
  omega

theorem bit_full_of_isPlainIndex {ext : UInt16} (h : isPlainIndex ext = true) :
    bit ext 8 = false := by
  simp only [isPlainIndex, bit, field, beq_iff_eq, beq_eq_false_iff_ne, BitVec.extractLsb'_toNat,
    Nat.shiftRight_eq_div_pow] at h ⊢
  omega

variable {model : Model} {m : Machine}

theorem Machine.index_on {ext : UInt16}
    (h : m.model.PartInExtensions model → isPlainIndex ext = true) :
    (m.on model).index ext = m.index ext := by
  by_cases hpart : m.model.hasFullExtension = model.hasFullExtension
  · rw [Machine.index, Machine.index, Machine.on_model, Machine.on_regs, hpart]
  · have hscale := field_scale_of_isPlainIndex (h hpart)
    simp [Machine.index, hscale]

namespace Exec

theorem ports_resolveFull (hle : m.model ≤ model) (hfull : m.model.hasFullExtension = true)
    (ext : UInt16) (base : Address) (space : FunctionCode) :
    Ports model (resolveFull ext base space) m := by
  have hfull' : model.hasFullExtension = true := Model.decide_le_mono hle hfull
  have hsame : m.model.hasFullExtension = model.hasFullExtension := hfull.trans hfull'.symm
  have hindex : (m.on model).index ext = m.index ext := Machine.index_on fun h => absurd hsame h
  refine .get_bind ?_ (by simp only [hindex])
  refine .ite (fun _ => .throw _) fun _ => ?_
  refine .neutral_bind hle (neutral_fetchDisplacement _) fun displacement m₁ h₁ => ?_
  refine .ite (fun _ => .pure _) fun _ => ?_
  refine .ite (fun _ => .throw _) fun _ => ?_
  refine .neutral_bind (h₁ ▸ hle) (neutral_fetchDisplacement _) fun outer m₂ h₂ => ?_
  have hle₂ : m₂.model ≤ model := h₂ ▸ h₁ ▸ hle
  refine .ite (fun _ => ?_) fun _ => ?_
  · exact .bind (.read hle₂ _ _ _) fun _ _ _ _ => .pure _
  · exact .bind (.read hle₂ _ _ _) fun _ _ _ _ => .pure _

theorem ports_resolveIndexed (hle : m.model ≤ model)
    (hplain : m.model.PartInExtensions model →
      ∀ ext ∈ (fetchWord.result? m).map Prod.fst, isPlainIndex ext = true)
    (base : Address) (space : FunctionCode) : Ports model (resolveIndexed base space) m := by
  refine .bind .fetchWord fun ext m' h hmodel => ?_
  have hext : m'.model.PartInExtensions model → isPlainIndex ext = true := by
    intro hpart
    refine hplain (hmodel ▸ hpart) ext ?_
    simp [result?_of_ok h]
  refine .get_bind ?_ ?_
  · refine .ite (fun hfull => ?_) fun _ => .pure _
    exact ports_resolveFull (hmodel ▸ hle) (Bool.and_eq_true_iff.mp hfull).2 ext base space
  · have hcondition : (bit ext 8 && model.hasFullExtension) =
        (bit ext 8 && m'.model.hasFullExtension) := by
      by_cases hpart : m'.model.hasFullExtension = model.hasFullExtension
      · rw [hpart]
      · simp [bit_full_of_isPlainIndex (hext hpart)]
    simp only [Machine.index_on hext, Machine.on_model, hcondition]

theorem ports_resolve (hle : m.model ≤ model) {ea : AddressingMode} (size : Size)
    (hplain : m.model.PartInExtensions model →
      ∀ ext ∈ ea.indexWord? m, isPlainIndex ext = true) :
    Ports model (resolve ea size) m := by
  cases hi : ea.isIndexed with
  | false => exact (neutral_resolve size hi).ports rfl hle
  | true =>
    simp only [AddressingMode.indexWord?, hi, if_true] at hplain
    cases ea with
    | indexed n =>
      refine .regs_bind (.get_bind ?_ rfl)
      exact .bind (ports_resolveIndexed hle hplain _ _) fun _ _ _ _ => .pure _
    | pcIndexed =>
      refine .regs_bind (.get_bind ?_ rfl)
      exact .bind (ports_resolveIndexed hle hplain _ _) fun _ _ _ _ => .pure _
    | _ => cases hi

theorem ports_resolveMode (hle : m.model ≤ model) {ea : Option AddressingMode} (size : Size)
    (hplain : m.model.PartInExtensions model →
      ∀ ext ∈ ea.bind (·.indexWord? m), isPlainIndex ext = true) :
    Ports model (resolveMode ea size) m := by
  cases ea with
  | none => exact .throw _
  | some ea => exact ports_resolve hle size hplain

theorem ports_fetchTarget (hle : m.model ≤ model) {ea : Option AddressingMode} (p : Operands)
    (hplain : m.model.PartInExtensions model →
      ∀ ext ∈ ea.bind (·.indexWord? m), isPlainIndex ext = true) :
    Ports model (fetchTarget ea p) m :=
  .bind (ports_resolveMode hle p.size hplain) fun _ _ _ h =>
    (neutral_orIllegal _).ports rfl (h ▸ hle)

theorem ports_fetchControlAddress (hle : m.model ≤ model) {op : Opcode} (size : Size)
    (hplain : m.model.PartInExtensions model →
      ∀ ext ∈ (AddressingMode.ofOpcode? op).bind (·.indexWord? m), isPlainIndex ext = true) :
    Ports model (fetchControlAddress op size) m :=
  .bind (ports_resolveMode hle size hplain) fun _ _ _ h =>
    (neutral_orIllegal _).ports rfl (h ▸ hle)

theorem ports_fetchBranchTarget (hle : m.model ≤ model) {op : Opcode}
    (hshort : m.model.PartInExtensions model → field op 0 8 ≠ 0xFF) :
    Ports model (fetchBranchTarget op) m := by
  have hsame : (field op 0 8 = 0xFF ∧ model.hasFullExtension = true) =
      (field op 0 8 = 0xFF ∧ m.model.hasFullExtension = true) := by
    by_cases hpart : m.model.hasFullExtension = model.hasFullExtension
    · rw [hpart]
    · simp [hshort hpart]
  refine .get_bind ?_ (by simp only [Machine.on_model, Machine.on_regs, hsame])
  refine .ite (fun _ => ?_) fun _ => .ite (fun _ => ?_) fun _ => .pure _
  · exact .neutral_bind hle neutral_fetchSignedWord fun _ _ _ => .pure _
  · exact .neutral_bind hle .fetchLong fun _ _ _ => .pure _

end Exec

open Exec

theorem Fetch.ports_run (hle : m.model ≤ model) {f : Fetch} (p : Operands)
    (hplain : m.model.PartInExtensions model → ∀ ext ∈ f.indexWord? m, isPlainIndex ext = true)
    (hshort : m.model.PartInExtensions model → f = .branchTarget → field m.opcode 0 8 ≠ 0xFF) :
    Ports model (f.run p) m := by
  cases hf : f.seesModel with
  | false => exact (neutral_run p hf).ports rfl hle
  | true =>
    refine .get_bind ?_ rfl
    cases f with
    | source =>
      refine .bind (.bind (ports_resolveMode hle p.size hplain) fun _ _ _ h => ?_)
        fun _ _ _ _ => .pure _
      exact (neutral_readLocation _ _).ports rfl (h ▸ hle)
    | target => exact ports_fetchTarget hle p hplain
    | moveTarget => exact ports_fetchTarget hle p hplain
    | controlAddress =>
      exact .bind (ports_fetchControlAddress hle p.size hplain) fun _ _ _ _ => .pure _
    | movemBase =>
      refine .bind (.ite (fun _ => ?_) fun _ => ?_) fun _ _ _ _ => .pure _
      · exact .regs_bind (.pure _)
      · exact ports_fetchControlAddress hle p.size hplain
    | branchTarget =>
      have hbranch (h : m.model.PartInExtensions model) := hshort h rfl
      exact .bind (ports_fetchBranchTarget hle hbranch) fun _ _ _ _ => .pure _
    | _ => cases hf

end Mc68k
