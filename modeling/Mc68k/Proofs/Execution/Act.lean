import Mc68k.Proofs.Decode
import Mc68k.Proofs.Exception.Frame
import Mc68k.Proofs.Execution.Instruction
import Mathlib.Logic.Relation

namespace Mc68k

namespace Machine

/-- One act of a processor, which may be to stop running only where that is allowed. -/
inductive Act (waits : Prop) : Machine → Machine → Prop
  | registers {m : Machine} (r : Registers) (h : m.regs.SameSystem r) :
    Act waits m { m with regs := r }
  | stackPointers {m : Machine} (usp ssp : UInt32) :
    Act waits m { m with regs := { m.regs with usp, ssp } }
  | status {m : Machine} (value : UInt16) : Act waits m (m.setSr value)
  | supervise {m : Machine} : Act waits m m.supervised
  | control {m : Machine} (c : ControlRegister) (value : UInt32) (h : .m68010 ≤ m.model) :
    Act waits m { m with regs := c.set m.regs value }
  | note {m : Machine} (opcode : Opcode) (instructionPc : Address) (fault : Fault) :
    Act waits m { m with opcode, instructionPc, fault }
  | wait {m : Machine} (condition : Condition) (h : waits) : Act waits m { m with condition }
  | refused {m : Machine} (addr : Address) (n : Nat) (fc : FunctionCode) (access : Access)
    (h : m.memory.admits addr n fc access = false) :
    Act waits m { m with cycles := m.cycle addr n fc access :: m.cycles }
  | read {m : Machine} (addr : Address) (size : Size) (fc : FunctionCode)
    (ha : m.isMisaligned addr size = false) :
    Act waits m { m with cycles := m.cycle addr size.bytes fc .read :: m.cycles }
  | write {m : Machine} (addr : Address) (size : Size) (value : UInt32) (fc : FunctionCode)
    (ha : m.isMisaligned addr size = false)
    (h : m.memory.admits addr size.bytes fc .write = true) :
    Act waits m { m with
      memory := m.memory.patch addr (toBigEndian value size)
      cycles := m.cycle addr size.bytes fc .write :: m.cycles }

abbrev Acts (waits : Prop) : Machine → Machine → Prop := Relation.ReflTransGen (Act waits)

variable {waits : Prop}

theorem Act.acts {m m' : Machine} (h : Act waits m m') : Acts waits m m' := .single h

theorem Acts.keeps {R : Machine → Machine → Prop} [IsPreorder Machine R] {m m' : Machine}
    (h : Acts waits m m') (hact : ∀ m m', Act waits m m' → R m m') : R m m' := by
  induction h with
  | refl => exact Std.Refl.refl m
  | tail _ hlast ih => exact IsTrans.trans _ _ _ ih (hact _ _ hlast)

theorem Acts.same {α : Type} {f : Machine → α} {m m' : Machine} (h : Acts waits m m')
    (hact : ∀ m m', Act waits m m' → f m' = f m) : f m' = f m := by
  induction h with
  | refl => rfl
  | tail _ hlast ih => exact (hact _ _ hlast).trans ih

variable {supervisor : Bool}

theorem Step.act {m m' : Machine} (h : Step supervisor m m') : Act waits m m' := by
  cases h with
  | registers r h => exact .registers r h
  | read addr size fc hs ha h => exact .read addr size fc ha
  | write addr size value ha h => exact .write addr size value _ ha h

theorem Path.acts {m m' : Machine} (h : Path supervisor m m') : Acts waits m m' := by
  induction h with
  | refl => exact .refl
  | step _ hs ih => exact ih.tail hs.act

theorem Failure.acts {e : Exception} {m m' : Machine} (h : Failure supervisor e m m') :
    Acts waits m m' := by
  cases h with
  | misaligned addr size fc write hs ha => exact (Act.note _ _ _).acts
  | oddPc h => exact (Act.note _ _ _).acts
  | refused addr n fc access hs hu h => exact (Act.refused addr n fc access h).acts.tail (.note ..)
  | thrown e h => exact .refl

theorem Outcome.acts {α : Type} {m : Machine} {result : EStateM.Result Exception Machine α}
    (h : Outcome supervisor m result) : Acts waits m (left result) := by
  cases h with
  | ok h => exact h.acts
  | error h h' => exact h.acts.trans h'.acts

end Machine

namespace Exec

open Machine

/-- However a computation ends, it leaves a machine that is related to the one it started from. -/
def Leads {ε α : Type} (R : Machine → Machine → Prop) (x : EStateM ε Machine α) (m : Machine) :
    Prop := R m (left (x m))

namespace Leads

variable {ε α β : Type} {R : Machine → Machine → Prop} {m : Machine}

theorem modifyMachine {g : Machine → Machine} (h : R m (g m)) :
    Leads R (modify g : EStateM ε Machine Unit) m := h

theorem get_bind {f : Machine → EStateM ε Machine β} (hf : Leads R (f m) m) :
    Leads R (get >>= f) m := hf

theorem regs_bind {f : Registers → Exec β} (hf : Leads R (f m.regs) m) :
    Leads R (Exec.regs >>= f) m := hf

theorem modifyRegs {f : Registers → Registers} (h : R m { m with regs := f m.regs }) :
    Leads R (Exec.modifyRegs f) m := h

theorem ite {c : Prop} [Decidable c] {x y : EStateM ε Machine α} (hx : c → Leads R x m)
    (hy : ¬c → Leads R y m) : Leads R (if c then x else y) m := by
  split
  next h => exact hx h
  next h => exact hy h

variable [IsPreorder Machine R]

theorem pure (a : α) : Leads R (Pure.pure a : EStateM ε Machine α) m := Std.Refl.refl m

theorem throw (e : ε) : Leads R (MonadExcept.throw e : EStateM ε Machine α) m := Std.Refl.refl m

theorem throw_bind (e : ε) (f : α → EStateM ε Machine β) :
    Leads R ((MonadExcept.throw e : EStateM ε Machine α) >>= f) m := Std.Refl.refl m

theorem bind {x : EStateM ε Machine α} {f : α → EStateM ε Machine β} (hx : Leads R x m)
    (hf : ∀ a m', x m = .ok a m' → Leads R (f a) m') : Leads R (x >>= f) m := by
  change R m (left (EStateM.bind x f m))
  rw [EStateM.bind]
  rw [Leads] at hx
  cases hr : x m with
  | error e m' =>
    rw [hr] at hx
    exact hx
  | ok a m' =>
    rw [hr] at hx
    exact IsTrans.trans _ _ _ hx (hf a m' hr)

theorem orIllegal (x : Option α) : Leads R (Exec.orIllegal x) m := by
  cases x with
  | none => exact throw _
  | some a => exact pure a

end Leads

variable {waits : Prop} {m : Machine} {α : Type}

theorem acts_program {x : Exec α} (h : ∀ supervisor, Program supervisor x) (m : Machine) :
    Leads (Acts waits) x m :=
  ((h m.regs.isSupervisor).runs m rfl).acts

theorem acts_read (addr : Address) (size : Size) (fc : FunctionCode) :
    Leads (Acts waits) (read addr size fc) m := by
  rw [Leads]
  obtain ⟨-, hread⟩ | ⟨ha, -, hread⟩ | ⟨bytes, ha, -, hread⟩ := read_cases addr size fc m
  · rw [hread]
    exact (Act.note _ _ _).acts
  · rw [hread]
    exact (Act.read addr size fc ha).acts.tail (.note _ _ _)
  · rw [hread]
    exact (Act.read addr size fc ha).acts

theorem acts_write (addr : Address) (size : Size) (value : UInt32) (fc : FunctionCode) :
    Leads (Acts waits) (write addr size value fc) m := by
  rw [Leads]
  obtain ⟨-, hwrite⟩ | ⟨-, h, hwrite⟩ | ⟨ha, h, hwrite⟩ := write_cases addr size value fc m
  · rw [hwrite]
    exact (Act.note _ _ _).acts
  · rw [hwrite]
    exact (Act.refused addr _ fc _ h).acts.tail (.note _ _ _)
  · rw [hwrite]
    exact (Act.write addr size value fc ha h).acts

end Exec

namespace Perform

open Exec Machine

variable {waits : Prop} {m : Machine}

theorem acts_setSr (f : Machine → UInt16) (p : Operands) :
    Leads (Acts waits) (do modify (fun m => m.setSr (f m)); pure p : Exec Operands) m :=
  .bind (.modifyMachine (Act.status _).acts) fun _ _ _ => .pure p

/-- RTE moves the stack pointer, then loads SR, then PC. -/
theorem acts_returnFromException : Leads (Acts waits) returnFromException m := by
  have hunstack (m : Machine) (ssp : UInt32) (sr : UInt16) (pc : Address) :
      Acts waits m { { m with regs := { m.regs with ssp } }.setSr sr with
        regs := { ({ m with regs := { m.regs with ssp } }.setSr sr).regs with pc } } :=
    ((Act.stackPointers m.regs.usp ssp).acts.tail (.status sr)).tail
      (.registers _ (.withPc _ pc))
  refine .regs_bind (.bind (acts_read _ _ _) fun sr m₁ _ => ?_)
  refine .bind (acts_read _ _ _) fun pc m₂ _ => .get_bind (.ite (fun _ => ?_) fun _ => ?_)
  · refine .bind (acts_read _ _ _) fun word m₃ _ => ?_
    cases frameSize? (word.toNat / 4096) with
    | none => exact .bind (.throw _) fun _ _ _ => .modifyMachine (hunstack _ _ _ _)
    | some size => exact .bind (.pure size) fun _ _ _ => .modifyMachine (hunstack _ _ _ _)
  · exact .bind (.pure 6) fun _ _ _ => .modifyMachine (hunstack _ _ _ _)

theorem acts_stop (p : Operands) (h : waits) : Leads (Acts waits) (stop p) m :=
  .bind (.modifyMachine ((Act.status p.first.toUInt16).acts.tail (.wait .stopped h)))
    fun _ _ _ => .pure p

theorem acts_moveUsp (p : Operands) : Leads (Acts waits) (moveUsp p) m := by
  refine .get_bind (.bind (.modifyRegs ?_) fun _ _ _ => .pure p)
  split
  · exact (Act.registers _ (.setA _ _ _)).acts
  · exact (Act.stackPointers _ m.regs.ssp).acts

theorem acts_movesSpace (code : UInt8) : Leads (Acts waits) (movesSpace code) m := by
  rw [movesSpace]
  cases FunctionCode.ofCode? code with
  | none => exact .throw _
  | some fc => exact .pure fc

theorem acts_moves (p : Operands) : Leads (Acts waits) (moves p) m := by
  refine .regs_bind (.ite (fun _ => ?_) fun _ => ?_)
  · refine .bind (acts_movesSpace _) fun fc _ _ => ?_
    exact .bind (acts_write _ _ _ fc) fun _ _ _ => .pure p
  · refine .bind (acts_movesSpace _) fun fc _ _ => .bind (acts_read _ _ fc) fun value m' _ => ?_
    refine .bind (.modifyRegs ?_) fun _ _ _ => .pure p
    split
    · exact (Act.registers _ (.setGeneral _ _ _)).acts
    · exact (Act.registers _ (.setGeneral _ _ _)).acts

theorem acts_movec (p : Operands) (h : .m68010 ≤ m.model) : Leads (Acts waits) (movec p) m := by
  refine .get_bind (.bind (.orIllegal _) fun control m' hcontrol => ?_)
  have hmodel : m' = m := by
    cases hr : ControlRegister.ofCode? m.model (p.first.toNat % 4096) with
    | none =>
      rw [hr] at hcontrol
      cases hcontrol
    | some _ =>
      rw [hr] at hcontrol
      exact (EStateM.Result.ok.inj hcontrol).2.symm
  refine .bind (.modifyRegs ?_) fun _ _ _ => .pure p
  split
  · exact (Act.control control _ (hmodel ▸ h)).acts
  · exact (Act.registers _ (.setGeneral _ _ _)).acts

end Perform

open Exec Machine Perform

variable {waits : Prop}

theorem Operation.acts_perform {m : Machine} (operation : Operation) (p : Operands)
    (h : operation = .movec → .m68010 ≤ m.model) (hstop : operation = .stop → waits) :
    Leads (Acts waits) (operation.perform p) m := by
  cases hs : operation.isSystem with
  | false => exact acts_program (fun _ => operation.program_perform p hs) m
  | true =>
    cases operation with
    | moveToSr => exact acts_setSr (fun _ => p.first.toUInt16) p
    | bitwiseSr op => exact acts_setSr (fun m => combineSr op p m.regs.sr) p
    | rte => exact .bind acts_returnFromException fun _ _ _ => .pure p
    | stop => exact acts_stop p (hstop rfl)
    | moveUsp => exact acts_moveUsp p
    | movec => exact acts_movec p (h rfl)
    | moves => exact acts_moves p
    | _ => cases hs

namespace Machine

theorem Act.model {m m' : Machine} (h : Act waits m m') : m'.model = m.model := by
  cases h <;> rfl

theorem Acts.model {m m' : Machine} (h : Acts waits m m') : m'.model = m.model :=
  h.same fun _ _ => Act.model

theorem Act.condition {m m' : Machine} (h : Act False m m') : m'.condition = m.condition := by
  cases h with
  | wait condition h => exact h.elim
  | _ => rfl

theorem Acts.condition {m m' : Machine} (h : Acts False m m') : m'.condition = m.condition :=
  h.same fun _ _ => Act.condition

end Machine

namespace Exec

variable {m : Machine}

theorem Leads.of_ok {α : Type} {x : Exec α} {R : Machine → Machine → Prop} (h : Leads R x m) {a : α}
    {m' : Machine} (hr : x m = .ok a m') : R m m' := by
  rw [Leads, hr] at h
  exact h

theorem acts_executeInstruction (i : Instruction)
    (h : i.operation = .movec → .m68010 ≤ m.model) (hstop : i.operation = .stop → waits) :
    Leads (Acts waits) (executeInstruction i) m := by
  have hfetch : Leads (Acts waits) (fetchOperands i) m :=
    acts_program (fun _ => (steady_fetchOperands i).program) m
  refine .bind hfetch fun p m₁ h₁ => ?_
  have hload : Leads (Acts waits) (loadOperands i p) m₁ :=
    acts_program (fun _ => (steady_loadOperands i p).program) m₁
  refine .bind hload fun p m₂ h₂ => ?_
  have hmodel : m₂.model = m.model :=
    (hload.of_ok h₂).model.trans (hfetch.of_ok h₁).model
  refine .bind (i.operation.acts_perform p (fun hmovec => hmodel ▸ h hmovec) hstop)
    fun p m₃ _ => ?_
  exact acts_program (fun _ => (p.neutral_store _).program) m₃

theorem acts_execute (op : Opcode)
    (hstop : ∀ i m', admitInstruction op { m with opcode := op } = .ok i m' →
      i.operation = .stop → waits) : Leads (Acts waits) (execute op) m := by
  refine .bind (.modifyMachine (Act.note op ..).acts) fun _ m₁ h₁ => ?_
  obtain ⟨-, rfl⟩ := EStateM.Result.ok.inj h₁
  obtain ⟨i, hdecode, hmin, -, hadmit⟩ | ⟨e, -, hadmit⟩ :=
    admitInstruction_cases op { m with opcode := op }
  · rw [Leads, bind_ok hadmit]
    exact acts_executeInstruction i
      (fun hmovec => Model.le_trans (movec_of_decode hdecode hmovec) hmin) (hstop i _ hadmit)
  · rw [Leads, bind_error hadmit]
    exact .refl

theorem program_pushAll {supervisor : Bool} (f : Frame) : Program supervisor (pushAll f) := by
  induction f with
  | nil => exact .pure ()
  | cons item rest ih => exact .bind (Neutral.push _ _).program fun _ => ih

theorem acts_stackFrame (e : Exception) : Leads (Acts waits) (stackFrame e) m := by
  rw [Leads, stackFrame_eq]
  exact Act.supervise.acts.trans (acts_program (fun _ => program_pushAll _) m.supervised)

theorem acts_fetchExecute (m : Machine) : Leads (Acts True) (do execute (← fetchWord)) m :=
  .bind (acts_program (fun _ => .fetchWord) m) fun op _ _ => acts_execute op fun _ _ _ _ => trivial

end Exec

namespace Emulator

open Exec Machine

theorem acts_afterTask (e : Emulator) : Acts True e.task.2 e.afterTask.2 := by
  have hrun : ∀ run ∈ e.task.1, Leads (Acts True) run e.task.2 := by
    rw [task]
    simp only
    split
    next n _ =>
      intro run hrun
      obtain ⟨op, -, rfl⟩ := Option.map_eq_some_iff.mp hrun
      exact acts_execute op fun _ _ _ _ => trivial
    next =>
      intro run hrun
      obtain rfl := Option.some.inj hrun
      exact acts_fetchExecute _
  rw [afterTask]
  rcases ht : e.task with ⟨_ | run, m⟩
  · exact (Act.wait .halted trivial).acts
  · rw [ht] at hrun
    have hleads := hrun run rfl
    rw [Leads] at hleads
    simp only
    cases hr : run m with
    | ok _ m' =>
      rw [hr] at hleads
      exact hleads
    | error exception m' =>
      rw [hr] at hleads
      exact hleads

end Emulator

section

open Machine Exec

variable {R : Machine → Machine → Prop} [IsPreorder Machine R]
  (hact : ∀ m m', Act True m m' → R m m') (hentry : ∀ m e, R m (m.enterHandler e))

include hact hentry

theorem Machine.leads_raise (m : Machine) (e : Exception) : R m (m.raise e) := by
  have hstack : R m (left (stackFrame e m)) := (acts_stackFrame e).keeps hact
  rw [raise]
  cases hr : stackFrame e m with
  | ok _ m' =>
    rw [hr] at hstack
    exact IsTrans.trans _ _ _ hstack (hentry m' e)
  | error _ m' =>
    rw [hr] at hstack
    have hhalt : R m' m'.halt := hact _ _ (.wait .halted trivial)
    exact IsTrans.trans _ _ _ hstack hhalt

theorem Emulator.leads_step {e : Emulator} (hcalls : ∀ n m, R m (e.callbacks.invoke n m).2) :
    R e.machine e.step.2.machine := by
  by_cases running : e.machine.condition = .normal
  · have hpc : R e.machine { e.machine with instructionPc := e.machine.regs.pc } :=
      hact _ _ (.note e.machine.opcode _ e.machine.fault)
    have htask : R e.machine e.task.2 := by
      rw [task]
      simp only
      split
      · exact IsTrans.trans _ _ _ hpc (hcalls _ _)
      · exact hpc
    have hafter : R e.machine e.afterTask.2 :=
      IsTrans.trans _ _ _ htask (e.acts_afterTask.keeps hact)
    rw [e.machine_step_of_running running]
    rcases ha : e.afterTask with ⟨_ | exception, m⟩
    · rw [ha] at hafter
      exact hafter
    · rw [ha] at hafter
      exact IsTrans.trans _ _ _ hafter (m.leads_raise hact hentry exception)
  · have hidle : e.isRunning = false := by simpa [isRunning] using running
    rw [step, hidle]
    exact Std.Refl.refl _

end

end Mc68k
