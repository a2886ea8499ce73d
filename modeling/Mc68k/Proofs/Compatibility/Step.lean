import Mc68k.Proofs.Compatibility.Operation
import Mc68k.Proofs.Decode
import Mc68k.Proofs.Execution.Instruction

namespace Mc68k

/-- An instruction about to operate. -/
structure Pending where
  instruction : Instruction
  operands : Operands
  machine : Machine

/-- The index words that the operand fetches of an instruction take, in order. -/
def Instruction.indexWords (i : Instruction) (m : Machine) : List UInt16 :=
  let keep (p : Operands) (value : UInt32) : Operands := { p with first := value }
  (i.first.bind (·.indexWord? m)).toList ++
    match (Exec.fetchOperand i.first keep (.new i.size)).result? m with
    | some (_, m') => (i.second.bind (·.indexWord? m')).toList
    | none => []

namespace Exec

def fetchInstruction : Exec Instruction := do
  let op ← fetchWord
  modify ({ · with opcode := op })
  admitInstruction op

def prepare (i : Instruction) : Exec Operands := do
  let p ← fetchOperands i
  loadOperands i p

end Exec

namespace Machine

open Exec

def fetched? (m : Machine) : Option (Instruction × Machine) :=
  fetchInstruction.result? { m with instructionPc := m.regs.pc }

def indexWords (m : Machine) : List UInt16 :=
  match m.fetched? with
  | some (i, m) => i.indexWords m
  | none => []

/-- What a step is about to do once its operands are there. -/
def pending? (m : Machine) : Option Pending := do
  let (i, m) ← m.fetched?
  let (p, m) ← (prepare i).result? m
  some ⟨i, p, m⟩

def srValue? (m : Machine) : Option UInt16 :=
  m.pending?.bind fun x => x.instruction.operation.srValue? x.operands x.machine

/-- A step that frame formats and the privilege that came with them make no difference to. -/
structure AvoidsFormats (m : Machine) : Prop where
  rte : ∀ x ∈ m.fetched?, x.1.operation ≠ .rte
  moveFromSr : ∀ x ∈ m.fetched?, x.1.operation = .moveFromSr → x.2.regs.isSupervisor = true

/-- A step that full extension words and what came with them make no difference to. -/
structure AvoidsExtensions (m : Machine) : Prop where
  index : ∀ ext ∈ m.indexWords, isPlainIndex ext = true
  branch : ∀ x ∈ m.fetched?, x.1.operation.isBranch = true → field x.2.opcode 0 8 ≠ 0xFF
  movem : ∀ x ∈ m.pending?, x.instruction.operation = .movemStore →
    x.operands.storesBase x.machine.opcode = false
  status : ∀ value ∈ m.srValue?, value &&& Status.laterBits = 0

end Machine

namespace Exec

variable {model : Model} {m : Machine}

theorem mem_indexWords_of_first {i : Instruction} {ext : UInt16}
    (h : ext ∈ i.first.bind (·.indexWord? m)) : ext ∈ i.indexWords m :=
  List.mem_append_left _ (Option.mem_toList.mpr h)

theorem mem_indexWords_of_second {i : Instruction} {ext : UInt16} {p : Operands} {m' : Machine}
    (hfirst : fetchOperand i.first ({ · with first := · }) (.new i.size) m = .ok p m')
    (h : ext ∈ i.second.bind (·.indexWord? m')) : ext ∈ i.indexWords m := by
  refine List.mem_append_right _ ?_
  rw [result?_of_ok hfirst]
  exact Option.mem_toList.mpr h

theorem ports_fetchOperand (hle : m.model ≤ model) {f : Option Fetch}
    (keep : Operands → UInt32 → Operands) (p : Operands)
    (hplain : m.model.PartInExtensions model →
      ∀ ext ∈ f.bind (·.indexWord? m), isPlainIndex ext = true)
    (hshort : m.model.PartInExtensions model → f = some .branchTarget →
      field m.opcode 0 8 ≠ 0xFF) :
    Ports model (fetchOperand f keep p) m := by
  cases f with
  | none => exact .pure _
  | some f =>
    have hbranch (hpart : m.model.PartInExtensions model) (hf : f = .branchTarget) :=
      hshort hpart (congrArg some hf)
    exact .bind (f.ports_run hle p hplain hbranch) fun _ _ _ _ => .pure _

theorem ports_fetchOperands (hle : m.model ≤ model) {i : Instruction}
    (hplain : m.model.PartInExtensions model → ∀ ext ∈ i.indexWords m, isPlainIndex ext = true)
    (hshort : m.model.PartInExtensions model → i.first = some .branchTarget →
      field m.opcode 0 8 ≠ 0xFF)
    (hsecond : i.second ≠ some .branchTarget) : Ports model (fetchOperands i) m := by
  have hfirst (hpart : m.model.PartInExtensions model) :
      ∀ ext ∈ i.first.bind (·.indexWord? m), isPlainIndex ext = true := by
    intro ext hext
    exact hplain hpart ext (mem_indexWords_of_first hext)
  refine .bind (ports_fetchOperand hle _ _ hfirst hshort) fun p m' h hmodel => ?_
  have hsecondary (hpart : m'.model.PartInExtensions model) :
      ∀ ext ∈ i.second.bind (·.indexWord? m'), isPlainIndex ext = true := by
    intro ext hext
    exact hplain (hmodel ▸ hpart) ext (mem_indexWords_of_second h hext)
  exact ports_fetchOperand (hmodel ▸ hle) _ _ hsecondary fun _ hf => absurd hf hsecond

/-- Privileges of the later model that the earlier one lacks are those of MOVE from SR. -/
theorem isSupervisor_of_privilegedOn {op : Opcode} {i : Instruction} (hd : decode op = some i)
    (hp : i.flags.privilegedOn m.model = true → m.regs.isSupervisor = true)
    (huser : m.model.PartInFormats model → i.operation = .moveFromSr →
      m.regs.isSupervisor = true)
    (h : i.flags.privilegedOn model = true) : m.regs.isSupervisor = true := by
  by_cases hpart : m.model.hasFrameFormats = model.hasFrameFormats
  · have hlater : decide (.m68010 ≤ m.model) = decide (.m68010 ≤ model) := hpart
    have hsame : i.flags.privilegedOn m.model = i.flags.privilegedOn model := by
      rw [InstructionFlags.privilegedOn, InstructionFlags.privilegedOn, hlater]
    exact hp (hsame.trans h)
  · rw [InstructionFlags.privilegedOn, Bool.or_eq_true_iff, Bool.and_eq_true_iff] at h
    obtain halways | ⟨hlater, -⟩ := h
    · have hprivileged : i.flags.privilegedOn m.model = true := by
        rw [InstructionFlags.privilegedOn, halways, Bool.true_or]
      exact hp hprivileged
    · exact huser hpart (moveFromSr_of_decode hd hlater)

theorem ports_admitInstruction (hle : m.model ≤ model) {op : Opcode}
    (huser : m.model.PartInFormats model → ∀ x ∈ (admitInstruction op).result? m,
      x.1.operation = .moveFromSr → x.2.regs.isSupervisor = true) :
    Ports model (admitInstruction op) m := by
  intro i m' h
  have hresult := result?_of_ok h
  obtain ⟨hd, hmin, hp, rfl⟩ := admitInstruction_of_ok h
  have hmin' : i.flags.minModel ≤ model := Model.le_trans hmin hle
  have hp' : (i.flags.privilegedOn model && !m'.regs.isSupervisor) = false := by
    cases hs : i.flags.privilegedOn model with
    | false => rfl
    | true =>
      rw [isSupervisor_of_privilegedOn hd hp (fun hpart => huser hpart _ hresult) hs]
      rfl
  refine ⟨rfl, ?_⟩
  rw [admitInstruction, bind_get]
  simp only [hd, Machine.on_model, Machine.on_regs, hmin', hp', not_true_eq_false, if_false,
    Bool.false_eq_true]
  rfl

theorem ports_fetchInstruction (hle : m.model ≤ model)
    (huser : m.model.PartInFormats model → ∀ x ∈ fetchInstruction.result? m,
      x.1.operation = .moveFromSr → x.2.regs.isSupervisor = true) :
    Ports model fetchInstruction m := by
  refine .bind .fetchWord fun op m₁ h hmodel₁ => ?_
  refine .bind (ports_modify rfl rfl) fun _ m₂ h' hmodel₂ => ?_
  have hmodel := hmodel₂.trans hmodel₁
  refine ports_admitInstruction (hmodel ▸ hle) fun hpart x hx => huser (hmodel ▸ hpart) x ?_
  rw [fetchInstruction, result?_bind h, result?_bind h']
  exact hx

theorem decode_of_fetchInstruction {m' : Machine} {i : Instruction}
    (h : fetchInstruction m = .ok i m') : ∃ op, decode op = some i := by
  cases hword : fetchWord m with
  | error e m₁ =>
    rw [fetchInstruction, bind_error hword] at h
    cases h
  | ok op m₁ =>
    rw [fetchInstruction, bind_ok hword] at h
    exact ⟨op, (admitInstruction_of_ok h).1⟩

theorem ports_prepare (hle : m.model ≤ model) {i : Instruction}
    (hplain : m.model.PartInExtensions model → ∀ ext ∈ i.indexWords m, isPlainIndex ext = true)
    (hshort : m.model.PartInExtensions model → i.first = some .branchTarget →
      field m.opcode 0 8 ≠ 0xFF)
    (hsecond : i.second ≠ some .branchTarget) : Ports model (prepare i) m :=
  .bind (ports_fetchOperands hle hplain hshort hsecond) fun p _ _ h =>
    .ite (fun _ => p.neutral_load.ports rfl (h ▸ hle)) fun _ => .pure p

end Exec

namespace Machine

open Exec

variable {model : Model} {m : Machine}

theorem runInstruction_eq (m : Machine) :
    m.runInstruction = (do
      let i ← fetchInstruction
      let p ← prepare i
      let p ← i.operation.perform p
      p.store i.flags) { m with instructionPc := m.regs.pc } := by
  simp only [runInstruction, execute, executeInstruction, fetchInstruction, prepare, bind_assoc]

theorem runInstruction_on (hle : m.model ≤ model)
    (hformats : m.model.PartInFormats model → m.AvoidsFormats)
    (hextensions : m.model.PartInExtensions model → m.AvoidsExtensions) {m' : Machine}
    (h : m.runInstruction = .ok () m') :
    m'.model = m.model ∧ (m.on model).runInstruction = .ok () (m'.on model) := by
  rw [runInstruction_eq] at h ⊢
  refine Ports.bind ?_ ?_ () m' h
  · exact ports_fetchInstruction hle fun hpart => (hformats hpart).moveFromSr
  intro i m₁ h₁ hmodel₁
  have hfetched : m.fetched? = some (i, m₁) := result?_of_ok h₁
  obtain ⟨op, hd⟩ := decode_of_fetchInstruction h₁
  have hle₁ : m₁.model ≤ model := hmodel₁ ▸ hle
  refine .bind (ports_prepare hle₁ ?_ ?_ (second_ne_branchTarget_of_decode hd)) ?_
  · intro hpart ext hext
    refine (hextensions (hmodel₁ ▸ hpart)).index ext ?_
    rw [indexWords, hfetched]
    exact hext
  · intro hpart hfirst
    exact (hextensions (hmodel₁ ▸ hpart)).branch _ hfetched (isBranch_of_decode hd hfirst)
  intro p m₂ h₂ hmodel₂
  have hpending : m.pending? = some ⟨i, p, m₂⟩ := by
    simp [pending?, hfetched, result?_of_ok h₂]
  have hmodel : m₂.model = m.model := hmodel₂.trans hmodel₁
  refine .bind (i.operation.ports_perform (hmodel ▸ hle) p ?_ ?_ ?_) ?_
  · exact fun hpart => (hformats (hmodel ▸ hpart)).rte _ hfetched
  · exact fun hpart => (hextensions (hmodel ▸ hpart)).movem _ hpending
  · intro hpart value hvalue
    refine (hextensions (hmodel ▸ hpart)).status value ?_
    rw [srValue?, hpending]
    exact hvalue
  intro p' m₃ _ hmodel₃
  exact (p'.neutral_store i.flags).ports rfl (hmodel₃ ▸ hmodel ▸ hle)

theorem afterInstruction_on (hle : m.model ≤ model)
    (hformats : m.model.PartInFormats model → m.AvoidsFormats)
    (hextensions : m.model.PartInExtensions model → m.AvoidsExtensions)
    (quiet : m.afterInstruction.1 = none) :
    ∃ m', m'.model = m.model ∧ m.afterInstruction = (none, m') ∧
      (m.on model).afterInstruction = (none, m'.on model) := by
  obtain ⟨m', hrun, hafter⟩ := afterInstruction_of_quiet quiet
  obtain ⟨hmodel, hon⟩ := runInstruction_on hle hformats hextensions hrun
  refine ⟨m', hmodel, hafter, ?_⟩
  simp only [afterInstruction, hrun, hon] at quiet ⊢
  exact Prod.ext quiet rfl

end Machine

namespace Emulator

def on (e : Emulator) (model : Model) : Emulator := { e with machine := e.machine.on model }

structure Portable (model : Model) (e : Emulator) : Prop where
  running : e.machine.condition = .normal
  plain : callNumber? e.machine.regs.pc = none
  quiet : e.machine.afterInstruction.1 = none
  formats : e.machine.model.PartInFormats model → e.machine.AvoidsFormats
  extensions : e.machine.model.PartInExtensions model → e.machine.AvoidsExtensions

variable {e : Emulator} {model : Model}

theorem Portable.step_on (h : e.Portable model) (hle : e.machine.model ≤ model) :
    e.step.2.machine.model = e.machine.model ∧
      (e.on model).step = (e.step.1, e.step.2.on model) := by
  obtain ⟨m', hmodel, hafter, hon⟩ := Machine.afterInstruction_on hle h.formats h.extensions h.quiet
  have hstep := e.step_of_plain h.running h.plain
  have hstep' := (e.on model).step_of_plain h.running h.plain
  have hafter' : (e.on model).machine.afterInstruction = (none, m'.on model) := hon
  rw [hafter] at hstep
  rw [hafter'] at hstep'
  rw [hstep, hstep']
  exact ⟨hmodel, rfl⟩

def RunsPortable (model : Model) : Nat → Emulator → Prop
  | 0, _ => True
  | limit + 1, e => e.Portable model ∧ (e.step.1 = true → RunsPortable model limit e.step.2)

/-- A portable run is the same run on the later model. -/
theorem run_on {limit : Nat} (h : e.RunsPortable model limit) (hle : e.machine.model ≤ model) :
    (e.on model).run limit = ((e.run limit).1, (e.run limit).2.on model) := by
  induction limit generalizing e with
  | zero => rfl
  | succ limit ih =>
    obtain ⟨hportable, hrest⟩ := h
    obtain ⟨hmodel, hstep⟩ := hportable.step_on hle
    rw [run_succ, run_succ, hstep]
    cases hgoes : e.step.1 with
    | false => rfl
    | true =>
      have hlast := ih (hrest hgoes) (hmodel ▸ hle)
      simp only [if_true, hlast]

/-- A step without an exception that avoids what the next model does differently is the same step
there. -/
theorem step_on_next_model (e : Emulator) (running : e.machine.condition = .normal)
    (plain : callNumber? e.machine.regs.pc = none)
    (quiet : e.machine.afterInstruction.1 = none) :
    (e.machine.model = .m68000 → e.machine.AvoidsFormats →
      (e.on .m68010).step = (e.step.1, e.step.2.on .m68010)) ∧
    (e.machine.model = .m68010 → e.machine.AvoidsExtensions →
      (e.on .m68020).step = (e.step.1, e.step.2.on .m68020)) := by
  refine ⟨fun hmodel havoids => ?_, fun hmodel havoids => ?_⟩
  · have hsame : ¬e.machine.model.PartInExtensions .m68010 := by
      rw [hmodel]
      exact not_not.mpr rfl
    have hle : e.machine.model ≤ .m68010 := by
      rw [hmodel]
      decide
    have hportable : e.Portable .m68010 :=
      ⟨running, plain, quiet, fun _ => havoids, fun hpart => absurd hpart hsame⟩
    exact (hportable.step_on hle).2
  · have hsame : ¬e.machine.model.PartInFormats .m68020 := by
      rw [hmodel]
      exact not_not.mpr rfl
    have hle : e.machine.model ≤ .m68020 := by
      rw [hmodel]
      decide
    have hportable : e.Portable .m68020 :=
      ⟨running, plain, quiet, fun hpart => absurd hpart hsame, fun _ => havoids⟩
    exact (hportable.step_on hle).2

/-- MOVE SR,D0 in supervisor mode, and MOVE.W 4(A0,D0.W),D1. -/
theorem step_on_next_model_move :
    let start (model : Model) (bytes : List UInt8) : Emulator :=
      ⟨Machine.new model (.flat ⟨.ofList bytes, 0⟩), .empty, []⟩
    let e := start .m68000 [0x40, 0xC0]
    let e' := start .m68010 [0x32, 0x30, 0x00, 0x04, 0x12, 0x34]
    (e.on .m68010).step = (e.step.1, e.step.2.on .m68010) ∧
      (e'.on .m68020).step = (e'.step.1, e'.step.2.on .m68020) ∧
      e'.machine.indexWords = [4] ∧ e'.step.2.machine.regs.d 1 = 0x1234 := by
  intro start e e'
  have havoids : e.machine.AvoidsFormats := ⟨by decide +kernel, by decide +kernel⟩
  have hwords : e'.machine.indexWords = [4] := by decide +kernel
  have hsr : e'.machine.srValue? = none := by decide +kernel
  have havoids' : e'.machine.AvoidsExtensions :=
    ⟨by simp only [hwords, List.mem_singleton, forall_eq]; rfl, by decide +kernel,
      by decide +kernel, by simp [hsr]⟩
  have hstep := step_on_next_model e rfl (by decide +kernel) (by decide +kernel)
  have hstep' := step_on_next_model e' rfl (by decide +kernel) (by decide +kernel)
  exact ⟨hstep.1 rfl havoids, hstep'.2 rfl havoids', hwords, by decide +kernel⟩

end Emulator

end Mc68k
