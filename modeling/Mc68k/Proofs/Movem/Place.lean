import Mc68k.Proofs.Execution.Act
import Mc68k.Proofs.Extension
import Mc68k.Proofs.Movem.Listed

namespace Mc68k

namespace Location

def inSpace (program : Bool) (addr : Address) : Location :=
  if program then .program addr else .memory addr

def advance (size : Size) : Location → Location
  | .memory addr => .memory (addr + UInt32.ofNat size.bytes)
  | .program addr => .program (addr + UInt32.ofNat size.bytes)
  | location => location

theorem advance_inSpace (size : Size) (program : Bool) (addr : Address) :
    (inSpace program addr).advance size = inSpace program (addr + UInt32.ofNat size.bytes) := by
  cases program <;> rfl

theorem address?_inSpace (program : Bool) (addr : Address) :
    (inSpace program addr).address? = some addr := by
  cases program <;> rfl

end Location

namespace Exec

open Machine Perform

def readRegisters (size : Size) : List Nat → Location → Exec Unit
  | [], _ => pure ()
  | index :: rest, location => do
    let value ← readLocation location size
    modifyRegs (·.setGeneral index value)
    readRegisters size rest (location.advance size)

/-- MOVEM to registers from the place that its effective address resolves to. -/
def readListed (ea : AddressingMode) (size : Size) : Exec Unit := do
  let list ← fetchWord
  let r ← regs
  let location ← resolve ea size
  match ea with
  | .postincrement n =>
    modifyRegs (·.setA n (r.a n))
    readRegisters size (listed list) location
    modifyRegs (·.setA n (r.a n + UInt32.ofNat (size.bytes * (listed list).length)))
  | _ => readRegisters size (listed list) location

theorem readLocation_inSpace (program : Bool) (addr : Address) (size : Size) (m : Machine) :
    readLocation (.inSpace program addr) size m = (do
      let raw ← Exec.read addr size (.of m.regs.isSupervisor program)
      pure (signExtend raw size)) m := by
  cases program <;> rfl

theorem loadUp_eq_readRegisters (size : Size) (program : Bool) (list : List Nat) (addr : Address)
    (m : Machine) : loadUp size (.of m.regs.isSupervisor program) list addr m = (do
      readRegisters size list (.inSpace program addr)
      pure (addr + UInt32.ofNat (size.bytes * list.length))) m := by
  induction list generalizing addr m with
  | nil =>
    rw [add_bytes_nil]
    rfl
  | cons index rest ih =>
    have hlocation := readLocation_inSpace program addr size m
    rw [loadUp, readRegisters, Location.advance_inSpace, bind_assoc, add_bytes_cons]
    cases hread : Exec.read addr size (.of m.regs.isSupervisor program) m with
    | error e m₁ => rw [bind_error hread, bind_error (hlocation.trans (bind_error hread))]
    | ok raw m₁ =>
      rw [bind_ok hread, bind_ok (hlocation.trans (bind_ok hread))]
      have hspace : m.regs.isSupervisor =
          (m₁.regs.setGeneral index (signExtend raw size)).isSupervisor := by
        have hread' := (Program.read addr size (FunctionCode.isSupervisor_of _ _)).path_of_ok hread
        rw [(Registers.SameSystem.setGeneral _ _ _).isSupervisor, hread'.isSupervisor]
      rw [hspace]
      exact ih _ { m₁ with regs := m₁.regs.setGeneral index (signExtend raw size) }

def loadListed (op : Opcode) (size : Size) (list : UInt16) (base : Address) : Exec Unit := do
  let m ← get
  let addr ← loadUp size
    (.of m.regs.isSupervisor ((AddressingMode.ofOpcode? op).any (·.isPcRelative)))
    (listed list) base
  if op.mode = 3 then modifyRegs (·.setA op.y addr)

variable {op : Opcode} {i : Instruction} {ea : AddressingMode} {m : Machine}

theorem movemLoad_eq (p : Operands) : movemLoad p m =
    (do loadListed m.opcode p.size p.first.toUInt16 p.second; pure p) m := by
  have hspace (program : Bool) : (if program then m.programSpace else m.dataSpace) =
      .of m.regs.isSupervisor program := by
    cases program <;> rfl
  rw [movemLoad, loadListed, bind_get]
  simp only [hspace]
  by_cases hmode : m.opcode.mode = 3
  · simp only [hmode, if_true, bind_assoc]
    rfl
  · simp only [hmode, if_false, bind_assoc]
    rfl

theorem fetchOperand_movemBase (keep : Operands → UInt32 → Operands) (p : Operands) :
    fetchOperand (some .movemBase) keep p m =
      (do let base ← fetchMovemBase m.opcode p.size; pure (keep p base)) m := by
  simp only [fetchOperand, Fetch.run, valueOnly, bind_assoc, pure_bind]
  rfl

theorem executeInstruction_movemLoad (hdecode : decode op = some i)
    (hload : i.operation = .movemLoad) : executeInstruction i = (do
      let p ← fetchOperand (some .extension) ({ · with first := · }) (.new i.size)
      let p ← fetchOperand (some .movemBase) ({ · with second := · }) p
      let _ ← movemLoad p
      pure ()) := by
  obtain ⟨-, -, -, rfl⟩ := movemLoad_of_decode hdecode hload
  have hloads : InstructionFlags.plain.contains .loadsTarget = false := by decide
  have hstores : InstructionFlags.plain.contains .storesResult = false := by decide
  simp [executeInstruction, fetchOperands, loadOperands, Operation.perform, Operands.store, hloads,
    hstores]

theorem execute_movemLoad (hdecode : decode op = some i) (hload : i.operation = .movemLoad) :
    execute op m = (do
      let list ← fetchWord
      loadListed op i.size list (← fetchMovemBase op i.size)) { m with opcode := op } := by
  obtain ⟨-, -, -, hplain⟩ := movemLoad_of_decode hdecode hload
  rw [execute_of_plain m hdecode (by rw [hplain]), executeInstruction_movemLoad hdecode hload,
    bind_eq_of_eq (fetchOperand_extension _ _ _)]
  simp only [bind_assoc, pure_bind]
  refine bind_congr fun list m₁ h₁ => ?_
  have hopcode₁ : m₁.opcode = op := (Program.fetchWord.path_of_ok h₁).opcode
  rw [bind_eq_of_eq (fetchOperand_movemBase _ _), hopcode₁]
  simp only [bind_assoc, pure_bind]
  refine bind_congr fun base m₂ h₂ => ?_
  have hopcode₂ : m₂.opcode = op :=
    ((steady_fetchMovemBase _ _).program.path_of_ok h₂).opcode.trans hopcode₁
  rw [bind_eq_of_eq (movemLoad_eq _), hopcode₂]
  simp only [bind_assoc, pure_bind, bind_pure_unit, UInt16.toUInt16_toUInt32]
  rfl

theorem fetchMovemBase_of_isControl (hea : AddressingMode.ofOpcode? op = some ea)
    (hcontrol : ea.isControl = true) (size : Size) :
    fetchMovemBase op size = (do orIllegal (← resolve ea size).address?) := by
  obtain ⟨h3, h4⟩ := mode_of_ofOpcode? hea
  have hmode : ¬(op.mode = 3 ∨ op.mode = 4) := by
    simp [h3, h4, steps_of_isControl hcontrol]
  rw [fetchMovemBase, if_neg hmode, fetchControlAddress, resolveMode, hea]
  rfl

theorem readListed_of_isControl (hcontrol : ea.isControl = true) (size : Size) :
    readListed ea size = (do
      let list ← fetchWord
      readRegisters size (listed list) (← resolve ea size)) := by
  cases ea <;> first | rfl | cases hcontrol

theorem eq_of_bind_pure {α β : Type} {x : Exec α} {f : α → β} {m m' : Machine} {b : β}
    (h : (do let a ← x; pure (f a) : Exec β) m = .ok b m') : ∃ a, x m = .ok a m' ∧ b = f a := by
  obtain ⟨a, m₁, hx, hpure⟩ := exists_of_bind_ok h
  obtain ⟨rfl, rfl⟩ := EStateM.Result.ok.inj hpure
  exact ⟨a, hx, rfl⟩

theorem resolve_pcIndexed {size : Size} {location : Location} {m' : Machine}
    (h : resolve .pcIndexed size m = .ok location m') :
    ∃ found, resolveIndexed m.regs.pc m.programSpace m = .ok found m' ∧
      location = .inSpace (!found.2) found.1 := by
  have hrun : resolve .pcIndexed size m = (do
      let found ← resolveIndexed m.regs.pc m.programSpace
      pure (if found.2 then Location.memory found.1 else .program found.1)) m := rfl
  obtain ⟨found, hfound, rfl⟩ := eq_of_bind_pure (hrun.symm.trans h)
  refine ⟨found, hfound, ?_⟩
  cases found.2 <;> rfl

theorem resolve_of_isControl (hcontrol : ea.isControl = true) {size : Size} {location : Location}
    {m' : Machine} (h : resolve ea size m = .ok location m') :
    ∃ addr, location = .inSpace ea.isPcRelative addr ∨
      ea = .pcIndexed ∧ location = .memory addr := by
  cases ea with
  | indirect n =>
    obtain ⟨rfl, -⟩ := EStateM.Result.ok.inj h
    exact ⟨_, .inl rfl⟩
  | displacement n =>
    obtain ⟨d, m₁, -, hd⟩ := exists_of_bind_ok h
    obtain ⟨rfl, -⟩ := EStateM.Result.ok.inj hd
    exact ⟨_, .inl rfl⟩
  | indexed n =>
    have hrun : resolve (.indexed n) size m = (do
        let found ← resolveIndexed (m.regs.a n) m.dataSpace
        pure (Location.memory found.1)) m := rfl
    obtain ⟨found, -, rfl⟩ := eq_of_bind_pure (hrun.symm.trans h)
    exact ⟨found.1, .inl rfl⟩
  | absoluteShort =>
    obtain ⟨addr, -, rfl⟩ := eq_of_bind_pure h
    exact ⟨addr, .inl rfl⟩
  | absoluteLong =>
    obtain ⟨addr, -, rfl⟩ := eq_of_bind_pure h
    exact ⟨addr, .inl rfl⟩
  | pcDisplacement =>
    have hrun : resolve .pcDisplacement size m = (do
        let d ← fetchSignedWord
        pure (Location.program (m.regs.pc + d))) m := rfl
    obtain ⟨d, -, rfl⟩ := eq_of_bind_pure (hrun.symm.trans h)
    exact ⟨_, .inl rfl⟩
  | pcIndexed =>
    obtain ⟨found, -, rfl⟩ := resolve_pcIndexed h
    refine ⟨found.1, ?_⟩
    cases found.2 with
    | true => exact .inr ⟨rfl, rfl⟩
    | false => exact .inl rfl
  | _ => cases hcontrol

theorem loadListed_eq (hmode : op.mode ≠ 3) (size : Size) (list : UInt16) (addr : Address) :
    loadListed op size list addr m = readRegisters size (listed list)
      (.inSpace ((AddressingMode.ofOpcode? op).any (·.isPcRelative)) addr) m := by
  rw [loadListed, bind_get, bind_eq_of_eq (loadUp_eq_readRegisters _ _ _ _ _)]
  simp only [hmode, if_false, bind_assoc, pure_bind, bind_pure_unit]

/-- A PC-relative mode that goes through a pointer in memory, with registers to load from there. -/
def FollowsPointer (ea : AddressingMode) (size : Size) (m : Machine) : Prop :=
  ea = .pcIndexed ∧ ∃ list m₁ addr m₂, fetchWord m = .ok list m₁ ∧ listed list ≠ [] ∧
    resolve ea size m₁ = .ok (.memory addr) m₂

theorem execute_of_isControl (hdecode : decode op = some i) (hload : i.operation = .movemLoad)
    (hea : AddressingMode.ofOpcode? op = some ea) (hcontrol : ea.isControl = true) :
    execute op m = (do
      let list ← fetchWord
      let addr ← orIllegal (← resolve ea i.size).address?
      readRegisters i.size (listed list) (.inSpace ea.isPcRelative addr))
        { m with opcode := op } := by
  have hmode : op.mode ≠ 3 := by
    simp [(mode_of_ofOpcode? hea).1, steps_of_isControl hcontrol]
  rw [execute_movemLoad hdecode hload, fetchMovemBase_of_isControl hea hcontrol]
  refine bind_congr fun list m₁ _ => ?_
  rw [bind_assoc]
  refine bind_congr fun location m₂ _ => bind_congr fun addr m₃ _ => ?_
  rw [loadListed_eq hmode, hea]
  rfl

theorem execute_eq_readListed_of_isControl (hdecode : decode op = some i)
    (hload : i.operation = .movemLoad) (hea : AddressingMode.ofOpcode? op = some ea)
    (hcontrol : ea.isControl = true) (h : ¬FollowsPointer ea i.size { m with opcode := op }) :
    execute op m = readListed ea i.size { m with opcode := op } := by
  rw [execute_of_isControl hdecode hload hea hcontrol, readListed_of_isControl hcontrol]
  refine bind_congr fun list m₁ h₁ => bind_congr fun location m₂ h₂ => ?_
  obtain ⟨addr, rfl | ⟨rfl, rfl⟩⟩ := resolve_of_isControl hcontrol h₂
  · rw [Location.address?_inSpace]
    rfl
  · have hempty : listed list = [] := by
      by_contra hne
      exact h ⟨rfl, list, m₁, addr, m₂, h₁, hne, h₂⟩
    rw [hempty]
    rfl

theorem execute_eq_readListed_of_postincrement {n : RegisterNumber} (hdecode : decode op = some i)
    (hload : i.operation = .movemLoad)
    (hea : AddressingMode.ofOpcode? op = some (.postincrement n)) :
    execute op m = readListed (.postincrement n) i.size { m with opcode := op } := by
  have hmode : op.mode = 3 := (mode_of_ofOpcode? hea).1.mpr rfl
  obtain rfl : op.y = n := by
    rw [ofOpcode?_of_mode_eq_three hmode] at hea
    exact AddressingMode.postincrement.inj (Option.some.inj hea)
  rw [execute_movemLoad hdecode hload]
  refine bind_congr fun list m₁ _ => ?_
  have hbase : fetchMovemBase op i.size m₁ = .ok (m₁.regs.a op.y) m₁ := by
    rw [fetchMovemBase, if_pos (.inl hmode)]
    rfl
  have hspace : (AddressingMode.ofOpcode? op).any (·.isPcRelative) = false := by
    rw [hea]
    rfl
  let stepped : Machine := { m₁ with
    regs := m₁.regs.setA op.y (m₁.regs.a op.y + stepOf op.y i.size) }
  have hresolve : resolve (.postincrement op.y) i.size m₁ =
      .ok (.memory (m₁.regs.a op.y)) stepped := rfl
  have hback : modifyRegs (·.setA op.y (m₁.regs.a op.y)) stepped = .ok () m₁ := by
    simp only [modifyRegs, stepped, Registers.setA_setA, Registers.setA_a]
  rw [bind_ok hbase, loadListed, bind_get, hspace, bind_eq_of_eq (loadUp_eq_readRegisters ..),
    bind_assoc, bind_regs, bind_ok hresolve]
  simp only [hmode, if_true, pure_bind, bind_ok hback]
  rfl

theorem suffix_of_acts {m' : Machine} (h : Acts True m m') : m.cycles <:+ m'.cycles := by
  induction h with
  | refl => exact List.suffix_refl _
  | tail _ hlast ih =>
    refine ih.trans ?_
    cases hlast with
    | refused addr n fc access h => exact List.suffix_cons _ _
    | read addr size fc ha => exact List.suffix_cons _ _
    | write addr size value fc ha h => exact List.suffix_cons _ _
    | _ => exact List.suffix_refl _

theorem cycles_loadUp {size : Size} {space : FunctionCode} {index : Nat} {rest : List Nat}
    {addr : Address} (hs : space.isSupervisor = m.regs.isSupervisor)
    (ha : m.isMisaligned addr size = false) :
    m.cycle addr size.bytes space .read :: m.cycles <:+
      (left (loadUp size space (index :: rest) addr m)).cycles := by
  rw [loadUp]
  obtain ⟨hodd, -⟩ | ⟨-, -, hread⟩ | ⟨bytes, -, -, hread⟩ := read_cases addr size space m
  · exact absurd hodd (by simp [ha])
  · rw [bind_error hread]
    exact List.suffix_refl _
  · rw [bind_ok hread]
    let m₁ : Machine := { m with
      regs := m.regs.setGeneral index (signExtend (ofBigEndian bytes) size)
      cycles := m.cycle addr size.bytes space .read :: m.cycles }
    have hs₁ : m₁.regs.isSupervisor = space.isSupervisor :=
      ((Registers.SameSystem.setGeneral _ _ _).isSupervisor).trans hs.symm
    have hrest :=
      (neutral_loadUp size rfl rest (addr + UInt32.ofNat size.bytes)).program.runs m₁ hs₁
    exact suffix_of_acts (m := m₁) hrest.acts

theorem left_bind_pure {α β : Type} {x : Exec α} {f : α → β} :
    left ((do let a ← x; pure (f a) : Exec β) m) = left (x m) := by
  cases h : x m with
  | error e m' => rw [bind_error h]; rfl
  | ok a m' => rw [bind_ok h]; rfl

/-- Registers that are read in one space are not read in the other. -/
theorem readRegisters_inSpace_ne {size : Size} {list : List Nat} {addr : Address}
    (hlist : list ≠ []) (ha : m.isMisaligned addr size = false) :
    readRegisters size list (.inSpace true addr) m ≠
      readRegisters size list (.inSpace false addr) m := by
  intro hsame
  obtain ⟨index, rest, rfl⟩ := List.exists_cons_of_ne_nil hlist
  have hcycles (program : Bool) :
      m.cycle addr size.bytes (.of m.regs.isSupervisor program) .read :: m.cycles <:+
        (left (readRegisters size (index :: rest) (.inSpace program addr) m)).cycles := by
    rw [← left_bind_pure, ← loadUp_eq_readRegisters]
    exact cycles_loadUp (FunctionCode.isSupervisor_of _ _) ha
  obtain ⟨later, hlater⟩ := hcycles true
  obtain ⟨later', hlater'⟩ := hcycles false
  rw [hsame, ← hlater'] at hlater
  have hfirst := (List.cons.inj (List.append_inj_right' hlater rfl)).1
  have hspace := congrArg BusCycle.space hfirst
  cases hm : m.regs.isSupervisor <;> simp [cycle, hm, FunctionCode.of] at hspace

theorem hasFullExtension_of_indirect {base : Address} {space : FunctionCode}
    {found : Address × Bool} {m' : Machine} (h : resolveIndexed base space m = .ok found m')
    (hindirect : found.2 = true) : m.model.hasFullExtension = true := by
  obtain ⟨ext, m₁, hfetch, hrest⟩ := exists_of_bind_ok h
  have hacts : Acts True m m₁ := (Program.fetchWord.path_of_ok hfetch).acts
  have hmodel : m₁.model = m.model := hacts.model
  rw [bind_get] at hrest
  split at hrest
  next hfull => rw [← hmodel, (Bool.and_eq_true_iff.mp hfull).2]
  next hbrief =>
    obtain ⟨rfl, -⟩ := EStateM.Result.ok.inj hrest
    cases hindirect

theorem execute_ne_readListed (hdecode : decode op = some i) (hload : i.operation = .movemLoad)
    (hea : AddressingMode.ofOpcode? op = some ea)
    (h : FollowsPointer ea i.size { m with opcode := op }) :
    execute op m ≠ readListed ea i.size { m with opcode := op } := by
  obtain ⟨rfl, list, m₁, addr, m₂, h₁, hlist, h₂⟩ := h
  obtain ⟨found, hfound, hplace⟩ := resolve_pcIndexed h₂
  have hindirect : found.2 = true := by
    cases hi : found.2 with
    | true => rfl
    | false =>
      rw [hi] at hplace
      cases hplace
  have hacts : Acts True m₁ m₂ := ((steady_resolve _ _).program.path_of_ok h₂).acts
  have hmodel : m₂.model = m₁.model := hacts.model
  have haligned : m₂.isMisaligned addr i.size = false := by
    have hallows : m₂.model.allowsMisalignedData = true := by
      rw [hmodel]
      exact hasFullExtension_of_indirect hfound hindirect
    rw [isMisaligned, hallows, Bool.not_true, Bool.and_false]
  rw [execute_of_isControl hdecode hload hea rfl, readListed_of_isControl rfl, bind_ok h₁,
    bind_ok h₁, bind_ok h₂, bind_ok h₂]
  exact readRegisters_inSpace_ne hlist haligned

/-- MOVEM to registers reads them from the place that its effective address resolves to, exactly if
that is not found through a pointer next to PC. -/
theorem execute_eq_readListed_iff (m : Machine) (hdecode : decode op = some i)
    (hload : i.operation = .movemLoad) (hea : AddressingMode.ofOpcode? op = some ea) :
    execute op m = readListed ea i.size { m with opcode := op } ↔
      ¬FollowsPointer ea i.size { m with opcode := op } := by
  refine ⟨fun heq h => execute_ne_readListed hdecode hload hea h heq, fun h => ?_⟩
  obtain ⟨ea', hea', hform, -⟩ := movemLoad_of_decode hdecode hload
  obtain rfl := Option.some.inj (hea.symm.trans hea')
  cases hcontrol : ea.isControl with
  | true => exact execute_eq_readListed_of_isControl hdecode hload hea hcontrol h
  | false =>
    cases ea with
    | postincrement n => exact execute_eq_readListed_of_postincrement hdecode hload hea
    | _ => simp_all [AddressingMode.isPostincrement]

/-- MOVEM.W (4,PC),D0 on the 68000, from program memory that is not data. -/
theorem execute_eq_readListed_iff_pcDisplacement :
    let code : Segment := ⟨0x1000, .ofList [0x00, 0x01, 0x00, 0x04, 0, 0, 0x80, 0x01], .program⟩
    let m : Machine := { Machine.new .m68000 (.mapped ⟨[code], Heap.new 0x40000000 0x1000, []⟩) with
      regs := { Registers.initial with pc := 0x1000 } }
    execute 0x4CBA m = readListed .pcDisplacement .word { m with opcode := 0x4CBA } ∧
      (execute 0x4CBA m matches .ok _ _) = true ∧
      (left (execute 0x4CBA m)).regs.d .zero = 0xFFFF8001 := by
  intro code m
  have hdecode : decode 0x4CBA =
      some ⟨some .extension, some .movemBase, .movemLoad, .word, .plain⟩ := by decide +kernel
  refine ⟨?_, by decide +kernel, by decide +kernel⟩
  exact (execute_eq_readListed_iff m hdecode rfl (by decide +kernel)).mpr fun h => nomatch h.1

/-- MOVEM.W ([4,PC]),D0 on the 68020: the pointer leads to a word of data, and the load is refused
as one of program. -/
theorem execute_ne_readListed_pointer :
    let code : Segment := ⟨0x1000, .ofList
      [0x00, 0x01, 0x01, 0x61, 0x00, 0x04, 0x00, 0x00, 0x20, 0x00], .program⟩
    let data : Segment := ⟨0x2000, .ofList [0x80, 0x01], .data⟩
    let m : Machine := { Machine.new .m68020
        (.mapped ⟨[code, data], Heap.new 0x40000000 0x1000, []⟩) with
      regs := { Registers.initial with pc := 0x1000 } }
    let m' : Machine := { m with opcode := 0x4CBB }
    (execute 0x4CBB m matches .error .busError _) = true ∧
      (readListed .pcIndexed .word m' matches .ok _ _) = true ∧
      (left (readListed .pcIndexed .word m')).regs.d .zero = 0xFFFF8001 ∧
      execute 0x4CBB m ≠ readListed .pcIndexed .word m' := by
  intro code data m m'
  have herror : (execute 0x4CBB m matches .error .busError _) = true := by decide +kernel
  have hok : (readListed .pcIndexed .word m' matches .ok _ _) = true := by decide +kernel
  refine ⟨herror, hok, by decide +kernel, fun heq => ?_⟩
  rw [heq] at herror
  cases hrun : readListed .pcIndexed .word m' with
  | ok _ _ =>
    rw [hrun] at herror
    cases herror
  | error _ _ =>
    rw [hrun] at hok
    cases hok

end Exec

end Mc68k
