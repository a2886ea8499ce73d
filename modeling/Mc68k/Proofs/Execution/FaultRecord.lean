import Mc68k.Proofs.Execution.Alignment
import Mc68k.Proofs.Extension

namespace Mc68k

namespace Exec

open Machine

/-- An access that fails, with the exception that ends it and the fault that it is. -/
inductive Denied (m : Machine) : {α : Type} → Exec α → Exception → Fault → Prop
  | misaligned {α : Type} {y : Exec α} {fault : Fault} (h : Misaligned m y fault) :
    Denied m y .addressError fault
  | oddPc (h : m.regs.pc &&& 1 ≠ 0) :
    Denied m Exec.fetchWord .addressError
      ⟨m.regs.pc, m.programSpace, false, m.programSpace.isProgram⟩
  | read (addr : Address) (size : Size) (fc : FunctionCode)
    (ha : m.isMisaligned addr size = false)
    (h : m.memory.admits addr size.bytes fc .read = false) :
    Denied m (Exec.read addr size fc) .busError ⟨addr, fc, false, fc.isProgram⟩
  | write (addr : Address) (size : Size) (value : UInt32) (fc : FunctionCode)
    (ha : m.isMisaligned addr size = false)
    (h : m.memory.admits addr size.bytes fc .write = false) :
    Denied m (Exec.write addr size value fc) .busError ⟨addr, fc, true, fc.isProgram⟩
  | fetchWord (ha : m.regs.pc &&& 1 = 0)
    (h : m.memory.admits m.regs.pc 2 m.programSpace .read = false) :
    Denied m Exec.fetchWord .busError
      ⟨m.regs.pc, m.programSpace, false, m.programSpace.isProgram⟩

theorem Denied.error {α : Type} {y : Exec α} {e : Exception} {fault : Fault} {m : Machine}
    (h : Denied m y e fault) : ∃ cycles, y m = .error e { m with fault, cycles } ∧
      (e = .busError → ∃ c, cycles = c :: m.cycles ∧ c.found = none) := by
  cases h with
  | misaligned h => exact ⟨m.cycles, h.error, fun hbus => by cases hbus⟩
  | oddPc h =>
    obtain ⟨-, hfetch⟩ | ⟨ha, -⟩ | ⟨-, ha, -⟩ := fetchWord_cases m
    · exact ⟨m.cycles, hfetch, fun hbus => by cases hbus⟩
    · exact absurd ha h
    · exact absurd ha h
  | read addr size fc ha h =>
    obtain ⟨hodd, -⟩ | ⟨-, hv, hread⟩ | ⟨bytes, -, hv, -⟩ := read_cases addr size fc m
    · exact absurd hodd (by simp [ha])
    · exact ⟨_, hread, fun _ => ⟨_, rfl, hv⟩⟩
    · cases h.symm.trans (Memory.admits_of_view? hv)
  | write addr size value fc ha h =>
    obtain ⟨hodd, -⟩ | ⟨-, hw, hwrite⟩ | ⟨-, hw, -⟩ := write_cases addr size value fc m
    · exact absurd hodd (by simp [ha])
    · exact ⟨_, hwrite, fun _ => ⟨_, rfl, Memory.admits_eq_false_iff.mp hw⟩⟩
    · cases h.symm.trans hw
  | fetchWord ha h =>
    obtain ⟨hodd, -⟩ | ⟨-, hv, hfetch⟩ | ⟨bytes, -, hv, -⟩ := fetchWord_cases m
    · exact absurd ha hodd
    · exact ⟨_, hfetch, fun _ => ⟨_, rfl, hv⟩⟩
    · cases h.symm.trans (Memory.admits_of_view? hv)

/-- What a computation leaves in the fault record. -/
structure RecordsFault {α : Type} (x : Exec α) (m : Machine) : Prop where
  denied : ∀ e m', x m = .error e m' → e.isGroupZero = true →
    ∃ (β : Type) (y : Exec β) (m₁ : Machine), Meets y m₁ x m ∧ Denied m₁ y e m'.fault
  other : ∀ e m', x m = .error e m' → e.isGroupZero = false → m'.fault = m.fault
  ok : ∀ a m', x m = .ok a m' → m'.fault = m.fault

namespace RecordsFault

variable {α β : Type} {m : Machine}

theorem of_denied {y : Exec α} {e : Exception} {fault : Fault} (h : Denied m y e fault)
    (he : e.isGroupZero = true) : RecordsFault y m := by
  obtain ⟨cycles, hy, -⟩ := h.error
  refine ⟨fun e' m' h' _ => ?_, fun e' m' h' he' => ?_, fun a m' h' => nomatch hy.symm.trans h'⟩
  · obtain ⟨rfl, rfl⟩ := EStateM.Result.error.inj (hy.symm.trans h')
    exact ⟨α, y, m, .self, h⟩
  · obtain ⟨rfl, -⟩ := EStateM.Result.error.inj (hy.symm.trans h')
    exact absurd he (by simp [he'])

theorem of_ok {x : Exec α} {a : α} {m' : Machine} (h : x m = .ok a m')
    (hfault : m'.fault = m.fault) : RecordsFault x m where
  denied _ _ h' _ := nomatch h.symm.trans h'
  other _ _ h' _ := nomatch h.symm.trans h'
  ok _ _ h' := by
    obtain ⟨-, rfl⟩ := EStateM.Result.ok.inj (h.symm.trans h')
    exact hfault

theorem pure (a : α) : RecordsFault (Pure.pure a : Exec α) m := of_ok rfl rfl

theorem modifyRegs (f : Registers → Registers) : RecordsFault (Exec.modifyRegs f) m := of_ok rfl rfl

theorem modifyMachine {g : Machine → Machine} (h : (g m).fault = m.fault) :
    RecordsFault (modify g) m := of_ok rfl h

theorem of_error {x : Exec α} {e : Exception} {m' : Machine} (h : x m = .error e m')
    (he : e.isGroupZero = false) (hfault : m'.fault = m.fault) : RecordsFault x m where
  denied _ _ h' he' := by
    obtain ⟨rfl, -⟩ := EStateM.Result.error.inj (h.symm.trans h')
    exact absurd he' (by simp [he])
  other _ _ h' _ := by
    obtain ⟨-, rfl⟩ := EStateM.Result.error.inj (h.symm.trans h')
    exact hfault
  ok _ _ h' := nomatch h.symm.trans h'

theorem throw (e : Exception) (h : e.isGroupZero = false) :
    RecordsFault (MonadExcept.throw e : Exec α) m := of_error rfl h rfl

theorem bind {x : Exec α} {f : α → Exec β} (hx : RecordsFault x m)
    (hf : ∀ a m', x m = .ok a m' → RecordsFault (f a) m') : RecordsFault (x >>= f) m := by
  cases hr : x m with
  | error e m' =>
    have hbind : (x >>= f) m = .error e m' := bind_error hr
    refine ⟨fun e' m'' h he => ?_, fun e' m'' h he => ?_, fun a m'' h => ?_⟩
    · obtain ⟨rfl, rfl⟩ := EStateM.Result.error.inj (hbind.symm.trans h)
      obtain ⟨γ, y, m₁, hmeets, hdenied⟩ := hx.denied e m' hr he
      exact ⟨γ, y, m₁, hmeets.first, hdenied⟩
    · obtain ⟨rfl, rfl⟩ := EStateM.Result.error.inj (hbind.symm.trans h)
      exact hx.other e m' hr he
    · exact nomatch hbind.symm.trans h
  | ok a m' =>
    have hbind : (x >>= f) m = f a m' := bind_ok hr
    have hnext := hf a m' hr
    have hkept := hx.ok a m' hr
    refine ⟨fun e m'' h he => ?_, fun e m'' h he => ?_, fun b m'' h => ?_⟩
    · obtain ⟨γ, y, m₁, hmeets, hdenied⟩ := hnext.denied e m'' (hbind.symm.trans h) he
      exact ⟨γ, y, m₁, hmeets.next hr, hdenied⟩
    · exact (hnext.other e m'' (hbind.symm.trans h) he).trans hkept
    · exact (hnext.ok b m'' (hbind.symm.trans h)).trans hkept

theorem get_bind {f : Machine → Exec β} (hf : RecordsFault (f m) m) :
    RecordsFault (get >>= f) m := by
  refine bind (of_ok rfl rfl) fun a m' h => ?_
  obtain ⟨rfl, rfl⟩ := EStateM.Result.ok.inj h
  exact hf

theorem regs_bind {f : Registers → Exec β} (hf : RecordsFault (f m.regs) m) :
    RecordsFault (Exec.regs >>= f) m := by
  refine bind (of_ok rfl rfl) fun a m' h => ?_
  obtain ⟨rfl, rfl⟩ := EStateM.Result.ok.inj h
  exact hf

theorem read (addr : Address) (size : Size) (fc : FunctionCode) :
    RecordsFault (Exec.read addr size fc) m := by
  obtain ⟨ha, -⟩ | ⟨ha, hv, -⟩ | ⟨bytes, -, -, hread⟩ := read_cases addr size fc m
  · exact of_denied (.misaligned (.read addr size fc ha)) rfl
  · exact of_denied (.read addr size fc ha (Memory.admits_eq_false_iff.mpr hv)) rfl
  · exact of_ok hread rfl

theorem write (addr : Address) (size : Size) (value : UInt32) (fc : FunctionCode) :
    RecordsFault (Exec.write addr size value fc) m := by
  obtain ⟨ha, -⟩ | ⟨ha, hw, -⟩ | ⟨-, -, hwrite⟩ := write_cases addr size value fc m
  · exact of_denied (.misaligned (.write addr size value fc ha)) rfl
  · exact of_denied (.write addr size value fc ha hw) rfl
  · exact of_ok hwrite rfl

theorem fetchWord : RecordsFault Exec.fetchWord m := by
  obtain ⟨ha, -⟩ | ⟨ha, hv, -⟩ | ⟨bytes, -, -, hfetch⟩ := fetchWord_cases m
  · exact of_denied (.oddPc ha) rfl
  · exact of_denied (.fetchWord ha (Memory.admits_eq_false_iff.mpr hv)) rfl
  · exact of_ok hfetch rfl

theorem orIllegal (x : Option α) : RecordsFault (Exec.orIllegal x) m := by
  cases x with
  | none => exact throw _ rfl
  | some a => exact pure a

end RecordsFault

theorem Program.recordsFault {supervisor : Bool} {α : Type} {x : Exec α}
    (h : Program supervisor x) {m : Machine} (hm : m.regs.isSupervisor = supervisor) :
    RecordsFault x m := by
  induction h generalizing m with
  | registers g h => exact .of_ok rfl rfl
  | throw e h => exact .throw e h
  | bind hx hf ihx ihf =>
    refine .bind (ihx hm) fun a m' hr => ihf a ?_
    have hout := hx.runs m hm
    rw [hr] at hout
    cases hout with
    | ok hpath => exact hpath.isSupervisor.trans hm
  | get_bind hf blind ih => exact .get_bind (ih m hm hm)
  | read addr size hs => exact .read addr size _
  | write addr size value => exact .write addr size value _
  | fetchWord => exact .fetchWord

end Exec

namespace Perform

open Exec Machine

variable {m : Machine}

theorem recordsFault_setSr (f : Machine → UInt16) (p : Operands) :
    RecordsFault (do modify (fun m => m.setSr (f m)); pure p : Exec Operands) m :=
  .bind (.modifyMachine rfl) fun _ _ _ => .pure p

theorem recordsFault_returnFromException : RecordsFault returnFromException m := by
  refine .regs_bind (.bind (.read _ _ _) fun sr m₁ _ => .bind (.read _ _ _) fun pc m₂ _ => ?_)
  apply RecordsFault.get_bind
  split
  · refine .bind (.read _ _ _) fun word m₃ _ => ?_
    split
    · exact .bind (.pure _) fun _ _ _ => .modifyMachine rfl
    · exact .bind (.throw _ rfl) fun _ _ _ => .modifyMachine rfl
  · exact .bind (.pure _) fun _ _ _ => .modifyMachine rfl

theorem recordsFault_movec (p : Operands) : RecordsFault (movec p) m :=
  .get_bind (.bind (.orIllegal _) fun _ _ _ => .bind (.modifyRegs _) fun _ _ _ => .pure p)

/-- The function code that MOVES goes by, to memory or from there. -/
def movesCode (p : Operands) (r : Registers) : UInt8 :=
  if bit p.first.toUInt16 11 then r.dfc else r.sfc

theorem recordsFault_moves {p : Operands} {fc : FunctionCode}
    (h : FunctionCode.ofCode? (movesCode p m.regs) = some fc) : RecordsFault (moves p) m := by
  have hspace : movesSpace (movesCode p m.regs) = pure fc := by
    rw [movesSpace, h]
  apply RecordsFault.regs_bind
  rw [movesCode] at hspace
  split
  next hbit =>
    rw [if_pos hbit] at hspace
    rw [hspace]
    exact .bind (.pure fc) fun _ _ _ => .bind (.write _ _ _ _) fun _ _ _ => .pure p
  next hbit =>
    rw [if_neg hbit] at hspace
    rw [hspace]
    exact .bind (.pure fc) fun _ _ _ => .bind (.read _ _ _) fun _ _ _ =>
      .bind (.modifyRegs _) fun _ _ _ => .pure p

theorem moves_of_ofCode?_eq_none {p : Operands}
    (h : FunctionCode.ofCode? (movesCode p m.regs) = none) : moves p m = .error .busError m := by
  have hspace : movesSpace (movesCode p m.regs) m = .error .busError m := by
    rw [movesSpace, h]
    rfl
  rw [movesCode] at hspace
  rw [moves, bind_regs]
  split
  next hbit =>
    rw [if_pos hbit] at hspace
    exact bind_error hspace
  next hbit =>
    rw [if_neg hbit] at hspace
    exact bind_error hspace

end Perform

namespace Exec

open Machine Perform

variable {m : Machine}

theorem recordsFault_perform (operation : Operation) (p : Operands)
    (h : operation = .moves → ∃ fc, FunctionCode.ofCode? (movesCode p m.regs) = some fc) :
    RecordsFault (operation.perform p) m := by
  cases hs : operation.isSystem with
  | false => exact (operation.program_perform p hs).recordsFault rfl
  | true =>
    cases operation with
    | moveToSr => exact recordsFault_setSr (fun _ => p.first.toUInt16) p
    | bitwiseSr op => exact recordsFault_setSr (fun m => combineSr op p m.regs.sr) p
    | rte => exact .bind recordsFault_returnFromException fun _ _ _ => .pure p
    | stop => exact .bind (.modifyMachine rfl) fun _ _ _ => .pure p
    | moveUsp => exact .get_bind (.bind (.modifyRegs _) fun _ _ _ => .pure p)
    | movec => exact recordsFault_movec p
    | moves =>
      obtain ⟨fc, hfc⟩ := h rfl
      exact recordsFault_moves hfc
    | _ => cases hs

/-- MOVES that the machine has and may run, with its operands found, through a function code that
names no space. -/
def UnknownSpace (op : Opcode) (m : Machine) : Prop :=
  ∃ i p m', admitInstruction op { m with opcode := op } = .ok i { m with opcode := op } ∧
    i.operation = .moves ∧ fetchOperands i { m with opcode := op } = .ok p m' ∧
    FunctionCode.ofCode? (movesCode p m'.regs) = none

theorem recordsFault_of_not_unknownSpace {op : Opcode} (h : ¬UnknownSpace op m) :
    RecordsFault (execute op) m := by
  refine .bind (.modifyMachine rfl) fun _ m₁ h₁ => ?_
  obtain ⟨-, rfl⟩ := EStateM.Result.ok.inj h₁
  obtain ⟨i, hdecode, -, -, haccepts⟩ | ⟨e, he, haccepts⟩ :=
    admitInstruction_cases op { m with opcode := op }
  · refine .bind (.of_ok haccepts rfl) fun j m₂ h₂ => ?_
    obtain ⟨rfl, rfl⟩ := EStateM.Result.ok.inj (haccepts.symm.trans h₂)
    refine .bind ((steady_fetchOperands i).program.recordsFault rfl) fun p m₃ h₃ => ?_
    refine .bind ((steady_loadOperands i p).program.recordsFault rfl) fun p' m₄ h₄ => ?_
    refine .bind (recordsFault_perform i.operation p' fun hmoves => ?_) fun q m₅ _ => ?_
    · -- MOVES loads no target, so that the code is that of the operands as fetched.
      rw [loadOperands_of_moves hdecode hmoves] at h₄
      obtain ⟨rfl, rfl⟩ := EStateM.Result.ok.inj h₄
      apply Option.ne_none_iff_exists'.mp
      exact fun hnone => h ⟨i, p, m₃, haccepts, hmoves, h₃, hnone⟩
    · exact (q.neutral_store i.flags).program.recordsFault rfl
  · exact .bind (.of_error haccepts he rfl) fun i m₂ h₂ => nomatch haccepts.symm.trans h₂

def Served (m m' : Machine) : Prop :=
  ∃ new, m'.cycles = new ++ m.cycles ∧ ∀ c ∈ new, c.found ≠ none

theorem served_of_path {supervisor : Bool} {m m' : Machine} (h : Path supervisor m m') :
    Served m m' := by
  induction h with
  | refl => exact ⟨[], rfl, by simp⟩
  | step _ hs ih =>
    obtain ⟨new, hnew, hfound⟩ := ih
    cases hs with
    | registers r h => exact ⟨new, hnew, hfound⟩
    | read addr size fc hs ha h =>
      refine ⟨_ :: new, congrArg _ hnew, List.forall_mem_cons.mpr ⟨?_, hfound⟩⟩
      exact Option.isSome_iff_ne_none.mp h
    | write addr size value ha h =>
      refine ⟨_ :: new, congrArg _ hnew, List.forall_mem_cons.mpr ⟨?_, hfound⟩⟩
      exact Option.isSome_iff_ne_none.mp h

theorem cycles_fetchOperands_of_moves {op : Opcode} {i : Instruction} {p : Operands}
    {m m' : Machine} (hdecode : decode op = some i) (hmoves : i.operation = .moves)
    (h : fetchOperands i m = .ok p m') : ∃ c rest, m'.cycles = c :: rest ∧ c.found ≠ none := by
  obtain ⟨size, rfl⟩ := moves_of_decode hdecode hmoves
  have hfirst := fetchOperand_extension ({ · with first := · }) (.new size) m
  rw [fetchOperands, bind_eq_of_eq hfirst, bind_assoc] at h
  obtain ⟨word, m₁, hfetch, hrest⟩ := exists_of_bind_ok h
  rw [pure_bind] at hrest
  obtain ⟨new, hnew, hfound⟩ :=
    served_of_path ((steady_fetchOperand _ _ _).program.path_of_ok hrest)
  cases new with
  | nil =>
    obtain ⟨bytes, -, hv, -, rfl⟩ := fetchWord_eq_ok hfetch
    refine ⟨_, _, hnew, ?_⟩
    rw [cycle, hv]
    exact Option.some_ne_none _
  | cons c new => exact ⟨c, _, hnew, hfound c List.mem_cons_self⟩

theorem execute_of_unknownSpace {op : Opcode} {m : Machine} (h : UnknownSpace op m) :
    ∃ m', execute op m = .error .busError m' ∧
      ∃ c rest, m'.cycles = c :: rest ∧ c.found ≠ none := by
  obtain ⟨i, p, m', haccepts, hmoves, hfetch, hnone⟩ := h
  have hdecode := (admitInstruction_of_ok haccepts).1
  have hload : loadOperands i p m' = .ok p m' := by
    rw [loadOperands_of_moves hdecode hmoves]
    rfl
  have hmove : i.operation.perform p m' = .error .busError m' := by
    rw [hmoves]
    exact moves_of_ofCode?_eq_none hnone
  refine ⟨m', ?_, cycles_fetchOperands_of_moves hdecode hmoves hfetch⟩
  change (admitInstruction op >>= executeInstruction) { m with opcode := op } = _
  rw [bind_ok haccepts, executeInstruction, bind_ok hfetch, bind_ok hload, bind_error hmove]

theorem not_recordsFault_of_unknownSpace {op : Opcode} {m : Machine} (h : UnknownSpace op m) :
    ¬RecordsFault (execute op) m := by
  intro hrecords
  obtain ⟨m', hrun, c, rest, hcycles, hfound⟩ := execute_of_unknownSpace h
  obtain ⟨β, y, m₁, hmeets, hdenied⟩ := hrecords.denied _ _ hrun rfl
  obtain ⟨cycles, hy, hrefused⟩ := hdenied.error
  obtain ⟨c', hc', hnone⟩ := hrefused rfl
  have hsame := (EStateM.Result.error.inj ((hmeets.error hy).symm.trans hrun)).2
  have hlatest : cycles = m'.cycles := congrArg (·.cycles) hsame
  obtain ⟨rfl, -⟩ := List.cons.inj (hc'.symm.trans (hlatest.trans hcycles))
  exact hfound hnone

/-- A bus or address error leaves its access in the fault record and nothing else changes the
record, exactly if the opcode is not MOVES through a function code that names no space. -/
theorem recordsFault_execute_iff (op : Opcode) (m : Machine) :
    RecordsFault (execute op) m ↔ ¬UnknownSpace op m :=
  ⟨fun h hunknown => not_recordsFault_of_unknownSpace hunknown h, recordsFault_of_not_unknownSpace⟩

/-- MOVES.L D0,(A0) on the 68010 with DFC 0: a bus error, with the record of earlier. -/
theorem not_recordsFault_moves :
    let m : Machine := { Machine.new .m68010 (.flat ⟨.ofList [0x08, 0x00, 0, 0], 0⟩) with
      fault := ⟨0x1234, .userProgram, false, true⟩ }
    (execute 0x0E90 m matches .error .busError _) = true ∧
      (left (execute 0x0E90 m)).fault = m.fault ∧ ¬RecordsFault (execute 0x0E90) m := by
  intro m
  let i : Instruction :=
    ⟨some .extension, some .target, .moves, .long, .privileged ||| .from68010⟩
  have hdecode : decode 0x0E90 = some i := by decide +kernel
  let start : Machine := { m with opcode := 0x0E90 }
  have hunknown : UnknownSpace 0x0E90 m := by
    obtain ⟨j, haccepts⟩ := exists_ok_left (r := admitInstruction 0x0E90 start) (by decide +kernel)
    obtain ⟨hj, -, -, hstart⟩ := admitInstruction_of_ok haccepts
    obtain ⟨p, hfetch⟩ := exists_ok_left (r := fetchOperands i start) (by decide +kernel)
    have hsfc : (left (fetchOperands i start)).regs.sfc = 0 := by decide +kernel
    have hdfc : (left (fetchOperands i start)).regs.dfc = 0 := by decide +kernel
    rw [hstart, Option.some.inj (hj.symm.trans hdecode)] at haccepts
    refine ⟨i, p, _, haccepts, rfl, hfetch, ?_⟩
    rw [movesCode, hsfc, hdfc, ite_self]
    rfl
  exact ⟨by decide +kernel, by decide +kernel, not_recordsFault_of_unknownSpace hunknown⟩

end Exec

end Mc68k
