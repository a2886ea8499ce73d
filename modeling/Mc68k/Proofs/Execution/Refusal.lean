import Mc68k.Proofs.Compatibility.Step
import Mc68k.Proofs.Execution.Act
import Mc68k.Proofs.Extension
import Mc68k.Proofs.Movem.Listed

namespace Mc68k

/-- The register that a mode steps. -/
def AddressingMode.stepped? : AddressingMode → Option RegisterNumber
  | postincrement n | predecrement n => some n
  | _ => none

/-- The register that a fetch steps; that of MOVEM steps none, whatever its mode. -/
def Fetch.stepped? (f : Fetch) (op : Opcode) : Option RegisterNumber :=
  match f with
  | source | target | controlAddress => (AddressingMode.ofOpcode? op).bind (·.stepped?)
  | moveTarget => (AddressingMode.ofMoveTarget? op).bind (·.stepped?)
  | postincrement f | predecrement f | predecrementTarget f => some (op.register f)
  | _ => none

def Instruction.stepped (i : Instruction) (op : Opcode) : List RegisterNumber :=
  (i.first.bind (·.stepped? op)).toList ++ (i.second.bind (·.stepped? op)).toList

namespace Machine

/-- All that may change before an operation: some address registers, PC and the fault record, with
reads on the bus. -/
structure Prepares (stepped : List RegisterNumber) (m m' : Machine) : Prop where
  machine : m' = { m with regs := m'.regs, fault := m'.fault, cycles := m'.cycles }
  reads : ∃ new, m'.cycles = new ++ m.cycles ∧ ∀ c ∈ new, c.access = .read
  data : m'.regs.data = m.regs.data
  status : m'.regs.sr = m.regs.sr
  system : m.regs.SameSystem m'.regs
  address (n : RegisterNumber) (h : n ∉ stepped) : m'.regs.a n = m.regs.a n

namespace Prepares

variable {stepped : List RegisterNumber} {m m' m'' : Machine}

theorem refl (m : Machine) : Prepares stepped m m :=
  ⟨rfl, ⟨[], rfl, by simp⟩, rfl, rfl, .refl m.regs, fun _ _ => rfl⟩

theorem trans (h : Prepares stepped m m') (h' : Prepares stepped m' m'') :
    Prepares stepped m m'' where
  machine := by
    have hfirst := h.machine
    have hsecond := h'.machine
    rw [hfirst] at hsecond
    exact hsecond
  reads := by
    obtain ⟨new, hnew, hreads⟩ := h.reads
    obtain ⟨new', hnew', hreads'⟩ := h'.reads
    refine ⟨new' ++ new, ?_, ?_⟩
    · rw [hnew', hnew, List.append_assoc]
    · simpa only [List.forall_mem_append] using ⟨hreads', hreads⟩
  data := h'.data.trans h.data
  status := h'.status.trans h.status
  system := h.system.trans h'.system
  address n hn := (h'.address n hn).trans (h.address n hn)

instance : IsPreorder Machine (Prepares stepped) where
  refl := refl
  trans _ _ _ := trans

theorem note (m : Machine) (fault : Fault) : Prepares stepped m { m with fault } :=
  ⟨rfl, ⟨[], rfl, by simp⟩, rfl, rfl, .refl m.regs, fun _ _ => rfl⟩

theorem cycle (m : Machine) (addr : Address) (n : Nat) (fc : FunctionCode) :
    Prepares stepped m { m with cycles := m.cycle addr n fc .read :: m.cycles } :=
  ⟨rfl, ⟨[m.cycle addr n fc .read], rfl, by simp [Machine.cycle]⟩, rfl, rfl, .refl m.regs,
    fun _ _ => rfl⟩

theorem withPc (m : Machine) (pc : Address) :
    Prepares stepped m { m with regs := { m.regs with pc } } :=
  ⟨rfl, ⟨[], rfl, by simp⟩, rfl, rfl, .withPc m.regs pc, fun _ _ => rfl⟩

theorem setA (m : Machine) {n : RegisterNumber} (hn : n ∈ stepped) (value : UInt32) :
    Prepares stepped m { m with regs := m.regs.setA n value } where
  machine := rfl
  reads := ⟨[], rfl, by simp⟩
  data := by
    apply Vector.ext
    intro k hk
    exact m.regs.d_setA n ⟨k, hk⟩ value
  status := m.regs.sr_setA n value
  system := .setA m.regs n value
  address k hk := by
    apply m.regs.a_setA_of_ne
    intro heq
    rw [Fin.ext heq] at hk
    exact hk hn

theorem opcode (h : Prepares stepped m m') : m'.opcode = m.opcode := by
  rw [h.machine]

theorem model (h : Prepares stepped m m') : m'.model = m.model := by
  rw [h.machine]

end Prepares

end Machine

namespace Exec

open Machine

variable {stepped : List RegisterNumber} {m : Machine} {α : Type}

theorem prepares_read (addr : Address) (size : Size) (fc : FunctionCode) :
    Leads (Prepares stepped) (read addr size fc) m := by
  rw [Leads]
  obtain ⟨-, hread⟩ | ⟨-, -, hread⟩ | ⟨bytes, -, -, hread⟩ := read_cases addr size fc m
  · rw [hread]
    exact .note m _
  · rw [hread]
    exact (Prepares.cycle m addr size.bytes fc).trans (.note _ _)
  · rw [hread]
    exact .cycle m addr size.bytes fc

theorem prepares_readData (addr : Address) (size : Size) :
    Leads (Prepares stepped) (readData addr size) m :=
  .get_bind (prepares_read addr size m.dataSpace)

theorem prepares_fetchWord : Leads (Prepares stepped) fetchWord m := by
  rw [Leads]
  have hcycle : Prepares stepped m
      { m with cycles := m.cycle m.regs.pc 2 m.programSpace .read :: m.cycles } := .cycle m _ _ _
  obtain ⟨-, hfetch⟩ | ⟨-, -, hfetch⟩ | ⟨bytes, -, -, hfetch⟩ := fetchWord_cases m
  · rw [hfetch]
    exact .note m _
  · rw [hfetch]
    exact hcycle.trans (.note _ _)
  · rw [hfetch]
    exact hcycle.trans (.withPc _ _)

theorem prepares_fetchLong : Leads (Prepares stepped) fetchLong m :=
  .bind prepares_fetchWord fun _ _ _ => .bind prepares_fetchWord fun _ _ _ => .pure _

theorem prepares_postincrement {n : RegisterNumber} (hn : n ∈ stepped) (size : Size) :
    Leads (Prepares stepped) (postincrement n size) m :=
  .regs_bind (.bind (.modifyRegs (.setA m hn _)) fun _ _ _ => .pure _)

theorem prepares_predecrement {n : RegisterNumber} (hn : n ∈ stepped) (size : Size) :
    Leads (Prepares stepped) (predecrement n size) m :=
  .regs_bind (.bind (.modifyRegs (.setA m hn _)) fun _ _ _ => .pure _)

theorem prepares_fetchSignedWord : Leads (Prepares stepped) fetchSignedWord m :=
  .bind prepares_fetchWord fun _ _ _ => .pure _

theorem prepares_fetchImmediate (size : Size) :
    Leads (Prepares stepped) (fetchImmediate size) m := by
  cases size with
  | byte => exact .bind prepares_fetchWord fun _ _ _ => .pure _
  | word => exact .bind prepares_fetchWord fun _ _ _ => .pure _
  | long => exact prepares_fetchLong

theorem prepares_fetchDisplacement (size : Nat) :
    Leads (Prepares stepped) (fetchDisplacement size) m := by
  rw [fetchDisplacement.eq_def]
  split
  · exact .pure _
  · exact prepares_fetchSignedWord
  · exact prepares_fetchLong

theorem prepares_resolveFull (ext : UInt16) (base : Address) (space : FunctionCode) :
    Leads (Prepares stepped) (resolveFull ext base space) m := by
  apply Leads.get_bind
  apply Leads.ite
  · intro _
    exact .throw_bind _ _
  intro _
  apply Leads.bind (prepares_fetchDisplacement _)
  intro displacement m₁ _
  apply Leads.ite
  · intro _
    exact .pure _
  intro _
  apply Leads.ite
  · intro _
    exact .throw_bind _ _
  intro _
  apply Leads.bind (prepares_fetchDisplacement _)
  intro outer m₂ _
  apply Leads.ite
  · intro _
    exact .bind (prepares_read _ .long space) fun _ _ _ => .pure _
  · intro _
    exact .bind (prepares_read _ .long space) fun _ _ _ => .pure _

theorem prepares_resolveIndexed (base : Address) (space : FunctionCode) :
    Leads (Prepares stepped) (resolveIndexed base space) m := by
  apply Leads.bind prepares_fetchWord
  intro ext m₁ _
  apply Leads.get_bind
  apply Leads.ite
  · intro _
    exact prepares_resolveFull ext base space
  · intro _
    exact .pure _

theorem prepares_resolve {ea : AddressingMode} (size : Size)
    (h : ∀ n ∈ ea.stepped?, n ∈ stepped) : Leads (Prepares stepped) (resolve ea size) m := by
  cases ea with
  | dataRegister n => exact .pure _
  | addressRegister n => exact .pure _
  | indirect n => exact .regs_bind (.pure _)
  | postincrement n =>
    exact .bind (prepares_postincrement (h n rfl) size) fun _ _ _ => .pure _
  | predecrement n =>
    exact .bind (prepares_predecrement (h n rfl) size) fun _ _ _ => .pure _
  | displacement n =>
    exact .bind prepares_fetchSignedWord fun _ _ _ => .regs_bind (.pure _)
  | indexed n =>
    exact .regs_bind (.get_bind (.bind (prepares_resolveIndexed _ _) fun _ _ _ => .pure _))
  | absoluteShort => exact .bind prepares_fetchSignedWord fun _ _ _ => .pure _
  | absoluteLong => exact .bind prepares_fetchLong fun _ _ _ => .pure _
  | pcDisplacement =>
    exact .regs_bind (.bind prepares_fetchSignedWord fun _ _ _ => .pure _)
  | pcIndexed =>
    exact .regs_bind (.get_bind (.bind (prepares_resolveIndexed _ _) fun _ _ _ => .pure _))
  | immediate => exact .bind (prepares_fetchImmediate size) fun _ _ _ => .pure _

theorem prepares_readLocation (location : Location) (size : Size) :
    Leads (Prepares stepped) (readLocation location size) m := by
  cases location with
  | data n => exact .regs_bind (.pure _)
  | address n => exact .regs_bind (.pure _)
  | memory addr => exact .bind (prepares_readData addr size) fun _ _ _ => .pure _
  | program addr => exact .get_bind (.bind (prepares_read addr size _) fun _ _ _ => .pure _)
  | immediate value => exact .pure _

theorem prepares_resolveMode {ea : Option AddressingMode} (size : Size)
    (h : ∀ n ∈ ea.bind (·.stepped?), n ∈ stepped) :
    Leads (Prepares stepped) (resolveMode ea size) m := by
  cases ea with
  | none => exact .throw_bind _ _
  | some ea => exact prepares_resolve size h

theorem prepares_fetchTarget {ea : Option AddressingMode} (p : Operands)
    (h : ∀ n ∈ ea.bind (·.stepped?), n ∈ stepped) :
    Leads (Prepares stepped) (fetchTarget ea p) m :=
  .bind (prepares_resolveMode p.size h) fun _ _ _ => .orIllegal _

theorem prepares_fetchControlAddress {op : Opcode} (size : Size)
    (h : ∀ n ∈ (AddressingMode.ofOpcode? op).bind (·.stepped?), n ∈ stepped) :
    Leads (Prepares stepped) (fetchControlAddress op size) m :=
  .bind (prepares_resolveMode size h) fun _ _ _ => .orIllegal _

/-- MOVEM steps An itself, once it operates: (An)+ and -(An) only look at it. -/
theorem prepares_fetchMovemBase (op : Opcode) (size : Size) :
    Leads (Prepares stepped) (fetchMovemBase op size) m := by
  apply Leads.ite
  · intro _
    exact .regs_bind (.pure _)
  intro hmode
  apply prepares_fetchControlAddress
  intro n hn
  obtain ⟨ea, hea, hstep⟩ := Option.bind_eq_some_iff.mp hn
  obtain ⟨hpost, hpre⟩ := mode_of_ofOpcode? hea
  cases ea with
  | postincrement k => exact absurd (.inl (hpost.mpr rfl)) hmode
  | predecrement k => exact absurd (.inr (hpre.mpr rfl)) hmode
  | _ => cases hstep

theorem prepares_fetchBranchTarget (op : Opcode) :
    Leads (Prepares stepped) (fetchBranchTarget op) m := by
  apply Leads.get_bind
  apply Leads.ite
  · intro _
    exact .bind prepares_fetchSignedWord fun _ _ _ => .pure _
  intro _
  apply Leads.ite
  · intro _
    exact .bind prepares_fetchLong fun _ _ _ => .pure _
  · intro _
    exact .pure _

theorem prepares_fetchShiftCount (op : Opcode) :
    Leads (Prepares stepped) (fetchShiftCount op) m := by
  apply Leads.ite
  · intro _
    exact .regs_bind (.pure _)
  · intro _
    exact .pure _

theorem prepares_fetchTrapOperand (op : Opcode) :
    Leads (Prepares stepped) (fetchTrapOperand op) m := by
  rw [fetchTrapOperand]
  split
  · exact .bind prepares_fetchWord fun _ _ _ => .pure _
  · exact prepares_fetchLong
  · exact .pure _

theorem prepares_valueOnly (p : Operands) {value : Exec UInt32}
    (h : Leads (Prepares stepped) value m) : Leads (Prepares stepped) (valueOnly p value) m :=
  .bind h fun _ _ _ => .pure _

theorem prepares_fetchAt {addr : Exec Address} (size : Size)
    (h : Leads (Prepares stepped) addr m) : Leads (Prepares stepped) (fetchAt addr size) m :=
  .bind h fun _ _ _ => prepares_readLocation _ size

end Exec

open Exec Machine

variable {stepped : List RegisterNumber} {m : Machine}

theorem Fetch.prepares_run {f : Fetch} (p : Operands)
    (h : ∀ n ∈ f.stepped? m.opcode, n ∈ stepped) : Leads (Prepares stepped) (f.run p) m := by
  apply Leads.get_bind
  cases f with
  | source =>
    apply prepares_valueOnly
    exact .bind (prepares_resolveMode p.size h) fun _ _ _ => prepares_readLocation _ p.size
  | target => exact prepares_fetchTarget p h
  | moveTarget => exact prepares_fetchTarget p h
  | controlAddress => exact prepares_valueOnly p (prepares_fetchControlAddress p.size h)
  | movemBase => exact prepares_valueOnly p (prepares_fetchMovemBase _ p.size)
  | displacedAddress =>
    apply prepares_valueOnly
    exact .regs_bind (.bind prepares_fetchSignedWord fun _ _ _ => .pure _)
  | data f => exact prepares_valueOnly p (.regs_bind (.pure _))
  | dataTarget f => exact .pure _
  | address f => exact prepares_valueOnly p (.regs_bind (.pure _))
  | addressTarget f => exact .pure _
  | postincrement f =>
    apply prepares_valueOnly
    exact prepares_fetchAt p.size (prepares_postincrement (h _ rfl) p.size)
  | predecrement f =>
    apply prepares_valueOnly
    exact prepares_fetchAt p.size (prepares_predecrement (h _ rfl) p.size)
  | predecrementTarget f =>
    exact .bind (prepares_predecrement (h _ rfl) p.size) fun _ _ _ => .pure _
  | immediate =>
    exact prepares_valueOnly p (.bind (prepares_fetchImmediate p.size) fun _ _ _ => .pure _)
  | immediateWord => exact prepares_valueOnly p (.bind prepares_fetchWord fun _ _ _ => .pure _)
  | bitNumber => exact prepares_valueOnly p (.bind prepares_fetchWord fun _ _ _ => .pure _)
  | extension => exact prepares_valueOnly p (.bind prepares_fetchWord fun _ _ _ => .pure _)
  | quick => exact prepares_valueOnly p (.pure _)
  | signedByte => exact prepares_valueOnly p (.pure _)
  | branchTarget => exact prepares_valueOnly p (prepares_fetchBranchTarget _)
  | wordBranchTarget =>
    apply prepares_valueOnly
    exact .regs_bind (.bind prepares_fetchSignedWord fun _ _ _ => .pure _)
  | displacementWord => exact prepares_valueOnly p prepares_fetchSignedWord
  | displacementLong => exact prepares_valueOnly p prepares_fetchLong
  | trapNumber => exact prepares_valueOnly p (.pure _)
  | one => exact prepares_valueOnly p (.pure _)
  | shiftCount => exact prepares_valueOnly p (prepares_fetchShiftCount _)
  | trapOperand => exact prepares_valueOnly p (prepares_fetchTrapOperand _)

theorem Operands.prepares_load (p : Operands) : Leads (Prepares stepped) p.load m := by
  rw [Operands.load]
  split
  · exact .pure _
  · exact .regs_bind (.pure _)
  · exact .regs_bind (.pure _)
  · exact .bind (prepares_readData _ _) fun _ _ _ => .pure _

namespace Exec

theorem prepares_fetchOperand {f : Option Fetch} (keep : Operands → UInt32 → Operands)
    (p : Operands) (h : ∀ n ∈ f.bind (·.stepped? m.opcode), n ∈ stepped) :
    Leads (Prepares stepped) (fetchOperand f keep p) m := by
  cases f with
  | none => exact .pure p
  | some f => exact .bind (f.prepares_run p h) fun _ _ _ => .pure _

theorem prepares_firstOperand (i : Instruction) : Leads (Prepares (i.stepped m.opcode))
    (fetchOperand i.first ({ · with first := · }) (.new i.size)) m := by
  apply prepares_fetchOperand
  intro n hn
  exact List.mem_append_left _ (Option.mem_toList.mpr hn)

theorem prepares_fetchOperands (i : Instruction) :
    Leads (Prepares (i.stepped m.opcode)) (fetchOperands i) m := by
  apply Leads.bind (prepares_firstOperand i)
  intro p m₁ h₁
  have hopcode : m₁.opcode = m.opcode := ((prepares_firstOperand i).of_ok h₁).opcode
  apply prepares_fetchOperand
  intro n hn
  rw [hopcode] at hn
  exact List.mem_append_right _ (Option.mem_toList.mpr hn)

theorem prepares_prepare (i : Instruction) :
    Leads (Prepares (i.stepped m.opcode)) (prepare i) m := by
  apply Leads.bind (prepares_fetchOperands i)
  intro p m₁ _
  apply Leads.ite
  · intro _
    exact p.prepares_load
  · intro _
    exact .pure p

end Exec

namespace Machine

/-- Why an opcode is refused before anything is fetched for it. -/
inductive Bars (m : Machine) (op : Opcode) : Exception → Prop
  | undecodable (h : decode op = none) : Bars m op (undecodable op)
  | laterModel {i : Instruction} (h : decode op = some i) (hmodel : ¬i.flags.minModel ≤ m.model) :
    Bars m op .illegalInstruction
  | privilege {i : Instruction} (h : decode op = some i) (hmodel : i.flags.minModel ≤ m.model)
    (hprivileged : i.flags.privilegedOn m.model = true) (huser : m.regs.isSupervisor = false) :
    Bars m op .privilegeViolation

theorem Bars.of_withOpcode {m : Machine} {op : Opcode} {e : Exception}
    (h : Bars { m with opcode := op } op e) : m.Bars op e := by
  cases h with
  | undecodable hd => exact .undecodable hd
  | laterModel hd hmodel => exact .laterModel hd hmodel
  | privilege hd hmodel hprivileged huser => exact .privilege hd hmodel hprivileged huser

structure Admits (m : Machine) (op : Opcode) (i : Instruction) : Prop where
  decode : decode op = some i
  model : i.flags.minModel ≤ m.model
  privilege : i.flags.privilegedOn m.model = true → m.regs.isSupervisor = true

end Machine

namespace Exec

theorem admitInstruction_of_error {op : Opcode} {e : Exception} {m' : Machine}
    (h : admitInstruction op m = .error e m') : m.Bars op e ∧ m' = m := by
  rw [admitInstruction, bind_get] at h
  cases hd : decode op with
  | none =>
    rw [hd] at h
    cases h
    exact ⟨.undecodable hd, rfl⟩
  | some i =>
    rw [hd] at h
    simp only at h
    split at h
    next hmodel =>
      cases h
      exact ⟨.laterModel hd hmodel, rfl⟩
    next hmodel =>
      split at h
      next hprivilege =>
        cases h
        obtain ⟨hprivileged, huser⟩ := by simpa using hprivilege
        exact ⟨.privilege hd (not_not.mp hmodel) hprivileged huser, rfl⟩
      next => cases h

/-- All that comes before an operation: the opcode is noted and admitted, and the operands of its
instruction are fetched and loaded. -/
def approach (op : Opcode) : Exec (Instruction × Operands) := do
  modify ({ · with opcode := op })
  let i ← admitInstruction op
  let p ← prepare i
  pure (i, p)

theorem execute_eq_approach (op : Opcode) :
    execute op = (do
      let (i, p) ← approach op
      let p ← i.operation.perform p
      p.store i.flags) := by
  simp only [execute, executeInstruction, approach, prepare, bind_assoc, pure_bind]

theorem stepped_of_movem {op : Opcode} {i : Instruction} (h : decode op = some i)
    (hmovem : i.operation = .movemStore ∨ i.operation = .movemLoad) : i.stepped op = [] := by
  obtain hstore | hload := hmovem
  · obtain rfl := movemStore_of_decode h hstore
    rfl
  · obtain ⟨ea, -, -, rfl⟩ := movemLoad_of_decode h hload
    rfl

/-- An opcode that was not admitted leaves the machine as it was; one whose operands could not be
fetched or loaded has read, and stepped the registers of its (An)+ and -(An) operands, but for the
base of MOVEM. -/
theorem execute_of_approach_error {op : Opcode} {e : Exception} {m' : Machine}
    (h : approach op m = .error e m') :
    execute op m = .error e m' ∧
      (m.Bars op e ∧ m' = { m with opcode := op } ∨
        ∃ i, m.Admits op i ∧ Prepares (i.stepped op) { m with opcode := op } m' ∧
          (i.operation = .movemStore ∨ i.operation = .movemLoad → i.stepped op = [])) := by
  refine ⟨?_, ?_⟩
  · rw [execute_eq_approach, bind_error h]
  rw [approach, bind_modify] at h
  cases hadmit : admitInstruction op { m with opcode := op } with
  | error e₁ m₁ =>
    obtain ⟨hbars, rfl⟩ := admitInstruction_of_error hadmit
    rw [bind_error hadmit] at h
    cases h
    exact .inl ⟨hbars.of_withOpcode, rfl⟩
  | ok i m₁ =>
    obtain ⟨hd, hmodel, hprivilege, rfl⟩ := admitInstruction_of_ok hadmit
    have hleads := prepares_prepare (m := { m with opcode := op }) i
    rw [bind_ok hadmit] at h
    cases hprepare : prepare i { m with opcode := op } with
    | ok p m₂ =>
      rw [bind_ok hprepare] at h
      cases h
    | error e₂ m₂ =>
      rw [bind_error hprepare] at h
      cases h
      rw [Leads, hprepare] at hleads
      exact .inr ⟨i, ⟨hd, hmodel, hprivilege⟩, hleads, stepped_of_movem hd⟩

/-- MOVE.W (A0)+,D0 with A0 past the end of memory: the fault comes after A0 has stepped. -/
theorem execute_of_approach_error_postincrement :
    let m : Machine := { Machine.new .m68000 (.flat (.new 16 0)) with
      regs := { Registers.initial with address := #v[16, 0, 0, 0, 0, 0, 0] } }
    let m' := left (approach 0x3018 m)
    (approach 0x3018 m matches .error .busError _) = true ∧
      left (execute 0x3018 m) = m' ∧ Prepares [0] { m with opcode := 0x3018 } m' ∧
        m'.regs.a 0 = 18 := by
  intro m m'
  have hstepped : (left (approach 0x3018 m)).regs.a 0 = 18 := by decide +kernel
  obtain ⟨e, herror⟩ := exists_error_left (r := approach 0x3018 m) (by decide +kernel)
  obtain ⟨hexecute, ⟨-, hleft⟩ | ⟨i, hadmits, hprepares, -⟩⟩ := execute_of_approach_error herror
  · rw [hleft] at hstepped
    exact absurd hstepped (by decide +kernel)
  · let i : Instruction := ⟨some .source, some .moveTarget, .move, .word, .storesResult⟩
    have hdecode : decode 0x3018 = some i := by decide +kernel
    obtain rfl := Option.some.inj (hadmits.decode.symm.trans hdecode)
    exact ⟨by decide +kernel, congrArg left hexecute, hprepares, hstepped⟩

end Exec

end Mc68k
