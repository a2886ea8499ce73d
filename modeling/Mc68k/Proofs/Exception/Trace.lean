import Mc68k.Proofs.Exception.Layout
import Mc68k.Proofs.Execution.Control
import Mc68k.Proofs.Execution.TraceFree
import Mc68k.Proofs.Memory.Bytes

namespace Mc68k

namespace Machine

open Exec

theorem Act.updates {waits : Prop} {m m' : Machine} (h : Act waits m m') :
    m'.memory.updates = m.memory.updates := by
  cases h with
  | write addr size value => exact m.memory.updates_patch addr _
  | _ => rfl

theorem Acts.updates {waits : Prop} {m m' : Machine} (h : Acts waits m m') :
    m'.memory.updates = m.memory.updates :=
  h.same fun _ _ => Act.updates

theorem acts_runInstruction {waits : Prop} {m m' : Machine} (hrun : m.runInstruction = .ok () m')
    (hstop : ∀ x ∈ m.fetched?, x.1.operation = .stop → waits) : Acts waits m m' := by
  let start : Machine := { m with instructionPc := m.regs.pc }
  have hstart : Act waits m start := .note m.opcode m.regs.pc m.fault
  have hleads : Leads (Acts waits) (do execute (← fetchWord)) start := by
    refine .bind (acts_program (fun _ => .fetchWord) start) fun op m₁ hword => ?_
    refine acts_execute op fun i m₂ hadmit => hstop (i, m₂) ?_
    have hfetch : fetchInstruction start = .ok i m₂ := by
      rw [fetchInstruction, bind_ok hword]
      exact hadmit
    exact result?_of_ok hfetch
  exact hstart.acts.trans (hleads.of_ok hrun)

/-- The trace handler is RTE alone, and a trace from here gets there and leaves it as it is. -/
structure TracesToRte (m : Machine) (handler : Address) : Prop where
  vector : m.memory.view? (m.vectorAddress .trace) 4 .supervisorData .read =
    some (toBigEndian handler .long)
  even : handler &&& 1 = 0
  plain : handler < callbackRegion
  opcode : m.memory.view? handler 2 .supervisorProgram .read = some [0x4E, 0x73]
  frame : ∃ m', stackFrame .trace m = .ok () m'
  vector_apart :
    (m.vectorAddress .trace).toNat + 4 + Exception.trace.frameLength m.model ≤ m.regs.ssp.toNat ∨
      m.regs.ssp.toNat ≤ (m.vectorAddress .trace).toNat
  opcode_apart : handler.toNat + 2 + Exception.trace.frameLength m.model ≤ m.regs.ssp.toNat ∨
    m.regs.ssp.toNat ≤ handler.toNat

structure TraceEntered (handler : Address) (m m' : Machine) : Prop extends
    Entered .trace m m' where
  pc : m'.regs.pc = handler
  condition : m'.condition = m.condition
  opcode : m'.memory.view? handler 2 .supervisorProgram .read = some [0x4E, 0x73]
  memory : m.memory.SameBut (m.regs.ssp.toNat - Exception.trace.frameLength m.model)
    m.regs.ssp.toNat m'.memory

theorem enterHandler_of_vector {m : Machine} {e : Exception} {handler : Address}
    (running : m.condition = .normal) (even : handler &&& 1 = 0)
    (hvector : m.memory.view? (m.vectorAddress e) 4 .supervisorData .read =
      some (toBigEndian handler .long)) :
    m.enterHandler e = { m with
      regs := { m.regs with pc := handler }
      cycles := m.cycle (m.vectorAddress e) 4 .supervisorData .read :: m.cycles } := by
  rw [enterHandler, load_eq, Size.bytes, hvector, Option.map_some, ofBigEndian_toBigEndian_long]
  simp [even, running]

theorem TracesToRte.entered {m : Machine} {handler : Address} (h : m.TracesToRte handler)
    (running : m.condition = .normal) : TraceEntered handler m (m.raise .trace) := by
  obtain ⟨m₁, hframe⟩ := h.frame
  obtain ⟨hstacked, -⟩ := stackFrame_of_ok hframe
  have hvectorAt := vectorAddress_of_stackFrame hframe
  have hssp : m₁.regs.ssp.toNat + Exception.trace.frameLength m.model = m.regs.ssp.toNat := by
    rw [← Exception.size_frame]
    exact hstacked.ssp
  -- The frame is apart from the vector and from the opcode, so that both are found as before.
  have hvector : m₁.memory.view? (m₁.vectorAddress .trace) 4 .supervisorData .read =
      some (toBigEndian handler .long) := by
    rw [hvectorAt, ← h.vector]
    have hapart := h.vector_apart
    exact hstacked.view? _ _ _ _ (hapart.imp_left fun _ => by omega)
  have hraise := raise_of_stacked hframe
  rw [enterHandler_of_vector (hstacked.condition.trans running) h.even hvector] at hraise
  have hentered : Entered .trace m (m.raise .trace) := by
    apply entered_of_running
    rw [hraise]
    simp [hstacked.condition.trans running]
  rw [hraise] at hentered ⊢
  refine ⟨hentered, rfl, hstacked.condition, ?_, ?_⟩
  · rw [← h.opcode]
    have hapart := h.opcode_apart
    exact hstacked.view? _ _ _ _ (hapart.imp_left fun _ => by omega)
  · have hacts : Acts False m m₁ := (acts_stackFrame .trace).of_ok hframe
    refine ⟨hstacked.shape, hacts.updates, fun addr haddr => hstacked.byte? addr ?_⟩
    exact haddr.imp_left fun _ => by omega

theorem execute_rte {m : Machine} (hs : m.regs.isSupervisor = true) :
    execute 0x4E73 m = returnFromException { m with opcode := 0x4E73 } := by
  have hdecode : decode 0x4E73 = Decode.nullary .rte .word .privileged := by decide +kernel
  have hmin : InstructionFlags.privileged.minModel ≤ m.model := by
    cases m.model <;> decide
  rw [execute_nullary hdecode hmin (by simp [hs]) (by decide) (by decide)]
  simp [Operation.perform, Perform.rte]

theorem runInstruction_rte {m : Machine} (hs : m.regs.isSupervisor = true)
    (even : m.regs.pc &&& 1 = 0)
    (hopcode : m.memory.view? m.regs.pc 2 .supervisorProgram .read = some [0x4E, 0x73]) :
    m.runInstruction = returnFromException { m with
      regs := { m.regs with pc := m.regs.pc + 2 }
      opcode := 0x4E73
      instructionPc := m.regs.pc
      cycles := m.cycle m.regs.pc 2 m.programSpace .read :: m.cycles } := by
  have hspace : m.programSpace = .supervisorProgram := by
    rw [programSpace, hs]
    rfl
  rw [← hspace] at hopcode
  have hword := fetchWord_of_view? (m := { m with instructionPc := m.regs.pc }) even hopcode
  rw [runInstruction, bind_ok hword]
  exact execute_rte hs

theorem TraceEntered.isTraced {m m' : Machine} {handler : Address}
    (h : TraceEntered handler m m') : m'.regs.isTraced = false := by
  have hsr : m'.regs.sr = m.supervised.regs.sr := by rw [h.regs]
  rw [Registers.isTraced, Status.has, hsr, supervised, UInt16.and_assoc,
    show ~~~(Status.T1 ||| Status.T0) &&& Status.T1 = 0 by decide, UInt16.and_zero]
  rfl

theorem TraceEntered.afterInstruction {m m' : Machine} {handler : Address}
    (h : TraceEntered handler m m') (even : handler &&& 1 = 0)
    (hsr : m.regs.sr &&& ~~~m.model.srMask = 0) :
    ∃ m'', m'.afterInstruction = (none, m'') ∧ m''.regs = m.regs ∧ m''.memory = m'.memory ∧
      m''.condition = m'.condition := by
  have hsupervisor : m'.regs.isSupervisor = true := by
    rw [h.regs]
    exact m.isSupervisor_supervised
  have hopcode := h.opcode
  rw [← h.pc] at even hopcode
  have hrun := runInstruction_rte hsupervisor even hopcode
  have hssp := h.ssp
  have htop : (Exception.trace.frame m).size ≤ m.regs.ssp.toNat := by omega
  let n : Machine := { m' with
    regs := { m'.regs with pc := m'.regs.pc + 2 }
    opcode := 0x4E73
    instructionPc := m'.regs.pc
    cycles := m'.cycle m'.regs.pc 2 m'.programSpace .read :: m'.cycles }
  have hholds : n.Holds m.regs.ssp (Exception.trace.frame m) :=
    h.holds.of_view rfl htop fun _ _ _ => rfl
  obtain ⟨m'', hreturn, hregs, -, hmemory⟩ :=
    returnFromException_of_frame (m := n) h.model (fun _ => rfl) hssp hholds
  have hacts : Acts False n m'' := Perform.acts_returnFromException.of_ok hreturn
  refine ⟨m'', ?_, ?_, hmemory, hacts.condition⟩
  · simp [Machine.afterInstruction, hrun, n, hreturn, h.isTraced]
  · rw [hregs, and_eq_of_and_not_eq_zero hsr]
    change ({ m'.regs with ssp := _, sr := _, pc := _ } : Registers) = _
    rw [h.regs]
    rfl

theorem TracesToRte.congr {m m' : Machine} {handler : Address} (h : m.TracesToRte handler)
    (heq : m'.untraced = m.untraced) : m'.TracesToRte handler := by
  have hmodel : m'.model = m.model := congrArg (·.model) heq
  have hmemory : m'.memory = m.memory := congrArg (·.memory) heq
  have hssp : m'.regs.ssp = m.regs.ssp := congrArg (·.regs.ssp) heq
  have hvector : m'.vectorAddress .trace = m.vectorAddress .trace :=
    congrArg (·.regs.vbr + UInt32.ofNat (4 * Exception.trace.vector)) heq
  have hframe : ∃ n, stackFrame .trace m' = .ok () n := by
    have haccepts := (stackFrame_ok_iff .trace m).mp h.frame
    rw [stackFrame_ok_iff, Exception.sizes_frame .trace hmodel, hssp]
    exact haccepts.congr hmodel (congrArg Memory.shape hmemory)
  exact {
    vector := by rw [hmemory, hvector, h.vector]
    even := h.even
    plain := h.plain
    opcode := by rw [hmemory, h.opcode]
    frame := hframe
    vector_apart := by
      rw [hvector, hmodel, hssp]
      exact h.vector_apart
    opcode_apart := by
      rw [hmodel, hssp]
      exact h.opcode_apart }

theorem afterInstruction_traced {m : Machine} (running : m.condition = .normal)
    (traced : m.regs.isTraced = true) (quiet : m.untraced.afterInstruction.1 = none)
    (hoperation : ∀ x ∈ m.untraced.fetched?,
      x.1.operation ≠ .stop ∧ x.1.operation ≠ .moveFromSr) :
    ∃ m', m.afterInstruction = (some .trace, m') ∧ KeepsControl m m' ∧ m'.condition = .normal ∧
      m'.untraced = m.untraced.afterInstruction.2.untraced := by
  obtain ⟨m₁, hrun₁, hafter₁⟩ := afterInstruction_of_quiet quiet
  obtain ⟨m', hrun, huntraced⟩ :=
    (m.traceFree_runInstruction fun x hx => (hoperation x hx).2).of_ok hrun₁
  have hacts₁ : Acts False m.untraced m₁ :=
    acts_runInstruction hrun₁ fun x hx => (hoperation x hx).1
  have hacts : Acts True m m' := acts_runInstruction hrun fun _ _ _ => trivial
  have hcondition : m'.condition = m₁.condition := congrArg (·.condition) huntraced
  have running' : m'.condition = .normal :=
    hcondition.trans (hacts₁.condition.trans running)
  refine ⟨m', ?_, hacts.keeps fun _ _ => Act.keepsControl, running', ?_⟩
  · simp [afterInstruction, hrun, traced, running']
  · rw [hafter₁]
    exact huntraced

end Machine

namespace Emulator

open Machine

def untraced (e : Emulator) : Emulator := { e with machine := e.machine.untraced }

/-- With a trace handler that is RTE alone, a traced step and the step of the handler come to what
the instruction comes to untraced, but for T1 and the frame below the stack pointer. -/
theorem trace_transparent (e : Emulator) {handler : Address}
    (running : e.machine.condition = .normal) (traced : e.machine.regs.isTraced = true)
    (hsr : e.machine.regs.sr &&& ~~~e.machine.model.srMask = 0)
    (plain : callNumber? e.machine.regs.pc = none)
    (quiet : e.untraced.machine.afterInstruction.1 = none)
    (hoperation : ∀ x ∈ e.untraced.machine.fetched?,
      x.1.operation ≠ .stop ∧ x.1.operation ≠ .moveFromSr)
    (htrace : e.untraced.step.2.machine.TracesToRte handler) :
    let one := e.untraced.step.2.machine
    let two := e.step.2.step.2.machine
    two.regs.untraced = one.regs.untraced ∧ two.condition = one.condition ∧
      one.memory.SameBut (one.regs.ssp.toNat - Exception.trace.frameLength one.model)
        one.regs.ssp.toNat two.memory := by
  intro one two
  obtain ⟨m, hafter, hkept, running', huntraced⟩ :=
    afterInstruction_traced running traced quiet hoperation
  have hone : one = e.machine.untraced.afterInstruction.2 := by
    obtain ⟨m₁, -, hafter₁⟩ := afterInstruction_of_quiet quiet
    have hstep := e.untraced.machine_step running plain
    rw [hafter₁] at hstep
    exact hstep.trans (congrArg Prod.snd hafter₁).symm
  rw [← hone] at huntraced
  have hfirst : e.step.2.machine = m.raise .trace := by
    rw [e.machine_step running plain, hafter]
  have hhandler : m.TracesToRte handler := htrace.congr huntraced
  have hentered := hhandler.entered running'
  rw [← hfirst] at hentered
  obtain ⟨m', hafter', hregs, hmemory, hcondition⟩ :=
    hentered.afterInstruction hhandler.even (hkept.sr hsr)
  have hplain : callNumber? e.step.2.machine.regs.pc = none := by
    rw [hentered.pc, callNumber?, if_pos (.inl hhandler.plain)]
  have htwo : two = m' := by
    have hstep := e.step.2.machine_step (hentered.condition.trans running') hplain
    rw [hafter'] at hstep
    exact hstep
  rw [htwo]
  refine ⟨?_, ?_, ?_⟩
  · rw [hregs]
    exact congrArg (·.regs) huntraced
  · rw [hcondition, hentered.condition]
    exact congrArg (·.condition) huntraced
  · have hframe := hentered.memory
    have hssp : m.regs.ssp = one.regs.ssp := congrArg (·.regs.ssp) huntraced
    have hmodel : m.model = one.model := congrArg (·.model) huntraced
    have hsame : m.memory = one.memory := congrArg (·.memory) huntraced
    rw [hssp, hmodel, hsame] at hframe
    rw [hmemory]
    exact hframe

/-- MOVE #$8000,SR leaves supervisor mode, traced before and after, with RTE at 64. -/
theorem trace_transparent_moveToSr :
    let bytes := [0x46, 0xFC, 0x80, 0x00] ++ List.replicate 35 0 ++ [64] ++ List.replicate 24 0 ++
      [0x4E, 0x73] ++ List.replicate 62 0
    let e : Emulator := ⟨{ Machine.new .m68020 (.flat ⟨.ofList bytes, 0⟩) with
      regs := { Registers.initial with sr := 0xA700, ssp := 128 } }, .empty, []⟩
    e.step.2.machine.regs.pc = 64 ∧ e.step.2.step.2.machine.regs.pc = 4 ∧
      e.step.2.step.2.machine.regs.untraced = e.untraced.step.2.machine.regs.untraced ∧
      e.step.2.step.2.machine.condition = e.untraced.step.2.machine.condition ∧
      e.untraced.step.2.machine.memory.SameBut 116 128 e.step.2.step.2.machine.memory := by
  intro bytes e
  have htrace : e.untraced.step.2.machine.TracesToRte 64 := {
    vector := by decide +kernel
    even := by decide
    plain := by decide
    opcode := by decide +kernel
    frame := (Exec.stackFrame_ok_iff _ _).mpr (by decide +kernel)
    vector_apart := by decide +kernel
    opcode_apart := by decide +kernel }
  obtain ⟨hregs, hcondition, hmemory⟩ := e.trace_transparent rfl (by decide) (by decide)
    (by decide) (by decide +kernel) (by decide +kernel) htrace
  have htop : e.untraced.step.2.machine.regs.ssp.toNat = 128 := by decide +kernel
  have hlength : Exception.trace.frameLength e.untraced.step.2.machine.model = 12 := by
    decide +kernel
  rw [htop, hlength] at hmemory
  exact ⟨by decide +kernel, by decide +kernel, hregs, hcondition, hmemory⟩

end Emulator

end Mc68k
