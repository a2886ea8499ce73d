import Mc68k.Proofs.Exception.Layout
import Mc68k.Proofs.Exception.Unwind
import Mc68k.Proofs.Host.Dispatch
import Mc68k.Proofs.Host.NewPtr

namespace Mc68k

namespace Host

/-- The registers in which a call answers are all that it sets. -/
inductive Answers (r : Registers) : HostCall → Registers → Prop
  | newPtr (addr : Address) : Answers r .newPtr (r.setA .zero addr)
  | disposePtr : Answers r .disposePtr r
  | blockMove (result : UInt32) : Answers r .blockMove (r.setD .zero result)
  | gestalt (result response : UInt32) :
    Answers r .gestalt ((r.setD .zero result).setA .zero response)
  | noOp : Answers r .noOp r

/-- Besides the registers of its answer, a call that returns changes memory and the bus. -/
structure Resumes (call : HostCall) (m : Machine) (answer : Response × Machine) : Prop where
  response : answer.1 = .resume rtsOpcode
  answers : Answers m.regs call answer.2.regs
  others : answer.2 = { m with
    regs := answer.2.regs
    memory := answer.2.memory
    cycles := answer.2.cycles }

theorem copy_frame (m : Machine) (source target : Address) (n : Nat) :
    ∃ copied memory cycles, copy m source target n = (copied, { m with memory, cycles }) := by
  have hrequest (m : Machine) (addr : Address) (fc : FunctionCode) (access : Access) :
      ∃ found memory cycles, m.request addr n fc access = (found, { m with memory, cycles }) :=
    ⟨_, _, _, rfl⟩
  obtain ⟨found, memory, cycles, hread⟩ := hrequest m source .userData .read
  rw [copy, hread]
  cases found with
  | none => exact ⟨_, _, _, rfl⟩
  | some bytes =>
    obtain ⟨written, memory', cycles', hwrite⟩ :=
      Machine.store_frame { m with memory, cycles } target bytes .userData
    simp only [hwrite]
    cases written with
    | false => exact ⟨_, _, _, rfl⟩
    | true => exact ⟨_, _, _, rfl⟩

theorem resumes_newPtr (m : Machine) : Resumes .newPtr m (newPtr m) := by
  have hreport (memory : Memory) (addr : Address) : Resumes .newPtr m (resume (if addr = 0 then
      ((modifyRegs { m with memory } (·.setA .zero addr)).store memErr
        (toBigEndian memFullErr.toUInt32 .word) .supervisorData).2
      else modifyRegs { m with memory } (·.setA .zero addr))) := by
    split
    · obtain ⟨written, memory', cycles, hstore⟩ :=
        Machine.store_frame (modifyRegs { m with memory } (·.setA .zero addr)) memErr
          (toBigEndian memFullErr.toUInt32 .word) .supervisorData
      rw [hstore]
      exact ⟨rfl, .newPtr addr, rfl⟩
    · exact ⟨rfl, .newPtr addr, rfl⟩
  rw [newPtr]
  cases m.memory.allocate? (m.regs.d .zero).toNat with
  | none => exact hreport m.memory 0
  | some found => exact hreport found.2 found.1

theorem resumes_disposePtr (m : Machine) : Resumes .disposePtr m (disposePtr m) := by
  rw [disposePtr]
  cases m.memory.deallocate? (m.regs.a .zero) with
  | none => exact ⟨rfl, .disposePtr, rfl⟩
  | some memory => exact ⟨rfl, .disposePtr, rfl⟩

theorem resumes_blockMove (m : Machine) : Resumes .blockMove m (blockMove m) := by
  obtain ⟨copied, memory, cycles, hcopy⟩ :=
    copy_frame m (m.regs.a .zero) (m.regs.a .one) (m.regs.d .zero).toNat
  rw [blockMove, hcopy]
  exact ⟨rfl, .blockMove _, rfl⟩

theorem resumes_handler (host : Host) {call : HostCall} (hcall : 11 ≤ call.number) (m : Machine) :
    Resumes call m (host.handler call m) := by
  cases call with
  | newPtr => exact resumes_newPtr m
  | disposePtr => exact resumes_disposePtr m
  | blockMove => exact resumes_blockMove m
  | gestalt => exact ⟨rfl, .gestalt _ _, rfl⟩
  | noOp => exact ⟨rfl, .noOp, rfl⟩
  | _ => exact absurd hcall (by decide)

namespace Resumes

variable {call : HostCall} {m : Machine} {answer : Response × Machine}

theorem sr (h : Resumes call m answer) : answer.2.regs.sr = m.regs.sr := by
  have hanswers := h.answers
  generalize answer.2.regs = r at hanswers ⊢
  cases hanswers <;> rfl

theorem sp (h : Resumes call m answer) : answer.2.regs.sp = m.regs.sp := by
  have hanswers := h.answers
  generalize answer.2.regs = r at hanswers ⊢
  cases hanswers <;> rfl

theorem dataSpace (h : Resumes call m answer) : answer.2.dataSpace = m.dataSpace := by
  rw [Machine.dataSpace, Registers.isSupervisor, h.sr]
  rfl

theorem isMisaligned (h : Resumes call m answer) (addr : Address) (size : Size) :
    answer.2.isMisaligned addr size = m.isMisaligned addr size := by
  rw [h.others]
  rfl

end Resumes

end Host

namespace Exec

open Machine

variable {m : Machine}

theorem popLong_of_view? {bytes : List UInt8} (ha : m.isMisaligned m.regs.sp .long = false)
    (hview : m.memory.view? m.regs.sp 4 m.dataSpace .read = some bytes) :
    popLong m = .ok (ofBigEndian bytes) { m with
      regs := m.regs.setSp (m.regs.sp + 4)
      cycles := m.cycle m.regs.sp 4 m.dataSpace .read :: m.cycles } := by
  have hread : readData m.regs.sp .long m = .ok (ofBigEndian bytes)
      { m with cycles := m.cycle m.regs.sp 4 m.dataSpace .read :: m.cycles } := by
    rw [readData, bind_get, read, if_neg (by simp [ha]), load_eq, Size.bytes, hview]
    rfl
  rw [popLong, pop, bind_regs, bind_ok hread]
  rfl

theorem popLong_of_unreadable (h : m.isMisaligned m.regs.sp .long = true ∨
      m.memory.view? m.regs.sp 4 m.dataSpace .read = none) :
    ∃ cycles, popLong m =
      .error (if m.isMisaligned m.regs.sp .long then .addressError else .busError)
        { m with fault := ⟨m.regs.sp, m.dataSpace, false, false⟩, cycles } := by
  have hspace : m.dataSpace.isProgram = false := FunctionCode.isProgram_of _ _
  cases ha : m.isMisaligned m.regs.sp .long with
  | true =>
    have hread : readData m.regs.sp .long m = .error .addressError
        { m with fault := ⟨m.regs.sp, m.dataSpace, false, false⟩ } := by
      rw [readData, bind_get, read, if_pos ha, fail, hspace]
    exact ⟨m.cycles, by rw [popLong, pop, bind_regs, bind_error hread, if_pos rfl]⟩
  | false =>
    have hview := h.resolve_left (by simp [ha])
    have hread : readData m.regs.sp .long m = .error .busError { m with
        fault := ⟨m.regs.sp, m.dataSpace, false, false⟩
        cycles := m.cycle m.regs.sp 4 m.dataSpace .read :: m.cycles } := by
      rw [readData, bind_get, read, if_neg (by simp [ha]), load_eq, Size.bytes, hview,
        Option.map_none]
      simp only [fail, hspace]
    exact ⟨_, by rw [popLong, pop, bind_regs, bind_error hread, if_neg Bool.false_ne_true]⟩

theorem execute_rts (m : Machine) :
    execute rtsOpcode m = (do Perform.jump (← popLong)) { m with opcode := rtsOpcode } := by
  have hdecode : decode rtsOpcode = Decode.nullary .rts .word .plain := by decide +kernel
  rw [execute_of_plain m hdecode rfl, executeInstruction_nullary (by decide) (by decide)]
  simp [Operation.perform, Perform.rts]

theorem execute_rts_of_view? {bytes : List UInt8} (ha : m.isMisaligned m.regs.sp .long = false)
    (hview : m.memory.view? m.regs.sp 4 m.dataSpace .read = some bytes) :
    ∃ cycles, execute rtsOpcode m = .ok () { m with
      opcode := rtsOpcode
      regs := { m.regs.setSp (m.regs.sp + 4) with pc := ofBigEndian bytes }
      cycles } := by
  have hpop := popLong_of_view? (m := { m with opcode := rtsOpcode }) ha hview
  exact ⟨_, by rw [execute_rts, bind_ok hpop]; rfl⟩

theorem execute_rts_of_unreadable (h : m.isMisaligned m.regs.sp .long = true ∨
      m.memory.view? m.regs.sp 4 m.dataSpace .read = none) :
    ∃ cycles, execute rtsOpcode m =
      .error (if m.isMisaligned m.regs.sp .long then .addressError else .busError) { m with
        opcode := rtsOpcode
        fault := ⟨m.regs.sp, m.dataSpace, false, false⟩
        cycles } := by
  obtain ⟨cycles, hpop⟩ := popLong_of_unreadable (m := { m with opcode := rtsOpcode }) h
  exact ⟨cycles, by rw [execute_rts, bind_error hpop]; rfl⟩

end Exec

namespace Exception

/-- A bus or address error stacks the address of its instruction, in a frame of the model. -/
theorem frame_of_isGroupZero {e : Exception} (hz : e.isGroupZero = true) (m : Machine) :
    e.frame m = if m.model = .m68000 then
        [(.long, m.instructionPc), (.word, m.regs.sr.toUInt32), (.word, m.opcode.toUInt32),
          (.long, m.fault.address), (.word, m.fault.information.toUInt32)]
      else [(.word, (e.formatWord m.model).toUInt32), (.long, m.instructionPc),
        (.word, m.regs.sr.toUInt32)] := by
  have hfault : e.isFault = true := by
    cases e <;> simp_all [isGroupZero, isFault]
  have hformat : e.frameFormat m.model = 0 := by
    cases e <;> simp_all [isGroupZero, frameFormat]
  rw [frame, hasFrameFormats_eq]
  by_cases hmodel : m.model = .m68000
  · simp [hmodel, hz, hfault]
  · simp [hmodel, hfault, hformat]

end Exception

namespace Machine

def faultPcOffset (model : Model) : UInt32 := if model = .m68000 then 10 else 2

theorem Raised.finds_pc {e : Exception} {m m' : Machine} (hz : e.isGroupZero = true)
    (h : Raised e m m') : m'.condition = .halted ∨
      m'.Finds (m'.regs.ssp + faultPcOffset m.model) .long m.instructionPc := by
  cases h with
  | halted => exact .inl rfl
  | @handled m' handler hstacked hholds hfound heven hfault =>
    refine .inr ?_
    have hssp : m'.regs.ssp.toNat + (e.frame m).size = m.regs.ssp.toNat := hstacked.ssp
    rw [e.frame_of_isGroupZero hz] at hholds hssp
    rw [faultPcOffset]
    by_cases hmodel : m.model = .m68000
    · rw [if_pos hmodel] at hholds hssp ⊢
      obtain ⟨hpc, -⟩ := hholds
      have haddr : m.regs.ssp - 4 = m'.regs.ssp + 10 := sub_eq_add (n := 10) (k := 4) hssp
      rw [show UInt32.ofNat Size.long.bytes = 4 from rfl, haddr] at hpc
      exact hpc
    · rw [if_neg hmodel] at hholds hssp ⊢
      exact (hholds.format hssp).2.2

end Machine

namespace Emulator

open Host

def called (e : Emulator) (host : Host) (call : HostCall) : Machine :=
  (host.handler call { e.machine with instructionPc := e.machine.regs.pc }).2

variable {e : Emulator} {host : Host} {call : HostCall}

theorem step_of_call (hcall : 11 ≤ call.number) (running : e.machine.condition = .normal)
    (hcallbacks : e.callbacks = table host) (hpc : e.machine.regs.pc = call.address) :
    let e' := { e with
      machine := Machine.complete e.machine.regs.isTraced
        (Exec.execute rtsOpcode (e.called host call)) }
    e.step = (e'.isRunning, e') := by
  have hnumber : callNumber? e.machine.regs.pc = some call.number := by
    rw [hpc]
    exact callNumber?_address call
  have hfound : e.callbacks.handler? call.number = some (host.handler call) := by
    rw [hcallbacks]
    exact handler?_table host call
  have hresumes := resumes_handler host hcall { e.machine with instructionPc := e.machine.regs.pc }
  exact step_of_resumed running hnumber hfound (Prod.ext hresumes.response rfl)

theorem step_of_readable (hcall : 11 ≤ call.number) (running : e.machine.condition = .normal)
    (untraced : e.machine.regs.isTraced = false) (hcallbacks : e.callbacks = table host)
    (hpc : e.machine.regs.pc = call.address) {bytes : List UInt8}
    (ha : e.machine.isMisaligned e.machine.regs.sp .long = false)
    (hview : (e.called host call).memory.view? e.machine.regs.sp 4 e.machine.dataSpace .read =
      some bytes) :
    ∃ cycles, e.step = (true, { e with machine := { e.called host call with
      opcode := rtsOpcode
      regs := { (e.called host call).regs.setSp (e.machine.regs.sp + 4) with
        pc := ofBigEndian bytes }
      cycles } }) := by
  have hresumes := resumes_handler host hcall { e.machine with instructionPc := e.machine.regs.pc }
  have hsp : (e.called host call).regs.sp = e.machine.regs.sp := hresumes.sp
  have hspace : (e.called host call).dataSpace = e.machine.dataSpace := hresumes.dataSpace
  have haligned : (e.called host call).isMisaligned e.machine.regs.sp .long = false :=
    (hresumes.isMisaligned _ _).trans ha
  have hcondition : (e.called host call).condition = .normal := by
    rw [called, hresumes.others]
    exact running
  rw [← hspace] at hview
  rw [← hsp] at haligned hview ⊢
  obtain ⟨cycles, hrun⟩ := Exec.execute_rts_of_view? haligned hview
  refine ⟨cycles, ?_⟩
  rw [step_of_call hcall running hcallbacks hpc, hrun, untraced]
  simp [Machine.complete, isRunning, hcondition]

theorem step_of_unreadable (hcall : 11 ≤ call.number) (running : e.machine.condition = .normal)
    (hcallbacks : e.callbacks = table host) (hpc : e.machine.regs.pc = call.address)
    (h : e.machine.isMisaligned e.machine.regs.sp .long = true ∨
      (e.called host call).memory.view? e.machine.regs.sp 4 e.machine.dataSpace .read = none) :
    ∃ cycles, e.step.2.machine = Machine.raise
      { e.called host call with
        opcode := rtsOpcode
        fault := ⟨e.machine.regs.sp, e.machine.dataSpace, false, false⟩
        cycles }
      (if e.machine.isMisaligned e.machine.regs.sp .long then .addressError else .busError) := by
  have hresumes := resumes_handler host hcall { e.machine with instructionPc := e.machine.regs.pc }
  have hsp : (e.called host call).regs.sp = e.machine.regs.sp := hresumes.sp
  have hspace : (e.called host call).dataSpace = e.machine.dataSpace := hresumes.dataSpace
  have haligned : (e.called host call).isMisaligned e.machine.regs.sp .long =
      e.machine.isMisaligned e.machine.regs.sp .long := hresumes.isMisaligned _ _
  rw [← haligned, ← hspace, ← hsp] at h
  obtain ⟨cycles, hrun⟩ := Exec.execute_rts_of_unreadable h
  rw [hsp, hspace, haligned] at hrun
  refine ⟨cycles, ?_⟩
  rw [step_of_call hcall running hcallbacks hpc, hrun]
  rfl

/-- Calls 11 to 15, untraced, go back to the long on top of the active stack; where it cannot be
read, the step raises an error that stacks the address of the call. -/
theorem call_returns (e : Emulator) (host : Host) (call : HostCall) (hcall : 11 ≤ call.number)
    (running : e.machine.condition = .normal) (untraced : e.machine.regs.isTraced = false)
    (hcallbacks : e.callbacks = table host) (hpc : e.machine.regs.pc = call.address) :
    let sp := e.machine.regs.sp
    let called := e.called host call
    (∀ bytes, e.machine.isMisaligned sp .long = false →
      called.memory.view? sp 4 e.machine.dataSpace .read = some bytes →
      Answers e.machine.regs call called.regs ∧ e.step.2.machine.regs.sr = e.machine.regs.sr ∧
        ∃ cycles, e.step = (true, { e with machine := { called with
          opcode := rtsOpcode
          regs := { called.regs.setSp (sp + 4) with pc := ofBigEndian bytes }
          cycles } })) ∧
    (e.machine.isMisaligned sp .long = true ∨
      called.memory.view? sp 4 e.machine.dataSpace .read = none →
      (∃ cycles, e.step.2.machine = Machine.raise
        { called with
          opcode := rtsOpcode
          fault := ⟨sp, e.machine.dataSpace, false, false⟩
          cycles }
        (if e.machine.isMisaligned sp .long then .addressError else .busError)) ∧
      (e.step.2.machine.condition = .halted ∨
        e.step.2.machine.Finds
          (e.step.2.machine.regs.ssp + Machine.faultPcOffset e.machine.model) .long
          call.address)) := by
  intro sp called
  have hresumes := resumes_handler host hcall { e.machine with instructionPc := e.machine.regs.pc }
  refine ⟨?_, ?_⟩
  · intro bytes ha hview
    obtain ⟨cycles, hstep⟩ :=
      step_of_readable hcall running untraced hcallbacks hpc ha hview
    refine ⟨hresumes.answers, ?_, cycles, hstep⟩
    rw [hstep, ← hresumes.sr]
    exact Registers.sr_setSp _ _
  · intro hunreadable
    obtain ⟨cycles, hraise⟩ := step_of_unreadable hcall running hcallbacks hpc hunreadable
    refine ⟨⟨cycles, hraise⟩, ?_⟩
    have hz : (if e.machine.isMisaligned sp .long then Exception.addressError
        else .busError).isGroupZero = true := by
      split <;> rfl
    have hmodel : called.model = e.machine.model := congrArg (·.model) hresumes.others
    have hinstruction : called.instructionPc = call.address := by
      rw [← hpc]
      exact congrArg (·.instructionPc) hresumes.others
    let faulted : Machine := { called with
      opcode := rtsOpcode
      fault := ⟨sp, e.machine.dataSpace, false, false⟩
      cycles }
    have hfinds := Machine.Raised.finds_pc hz (faulted.raised _)
    rw [← hmodel, ← hinstruction, hraise]
    exact hfinds

/-- BlockMove over the address that it returns to, in user mode, and DisposePtr of the block with
the stack. -/
theorem call_returns_blockMove :
    let host : Host := ⟨false, fun _ => .error .invalidPath⟩
    let map := (MemoryMap.withHeap (Heap.new 0x3000 0x1000)).run
      [.map 0 (.ofList (List.replicate 8 0 ++ [0, 0, 0x10, 0])) .ram,
        .map 0x1000 (.ofList ([0, 0, 0x12, 0x34] ++ List.replicate 28 0)) .ram,
        .heap (.allocate 1)]
    let at_ (call : HostCall) (a0 : Address) : Emulator :=
      ⟨{ Machine.new .m68000 (.mapped map) with
        regs := { (Registers.initial.setD .zero 4) with
          sr := 0, usp := 0x3000, ssp := 0x1020, pc := call.address
          address := #v[a0, 0x3000, 0, 0, 0, 0, 0] } }, table host, []⟩
    let moved := (at_ .blockMove 0x1000).step
    let freed := (at_ .disposePtr 0x3000).step
    (moved.1 = true ∧ moved.2.machine.regs.pc = 0x1234 ∧ moved.2.machine.regs.usp = 0x3004 ∧
        moved.2.machine.regs.sr = 0) ∧
      freed.2.machine.condition = .normal ∧ freed.2.machine.regs.pc = 0x1000 ∧
      freed.2.machine.Finds (freed.2.machine.regs.ssp + 10) .long 0xFFFFFFE6 := by
  intro host map at_ moved freed
  obtain ⟨hmoved, -⟩ := call_returns (at_ .blockMove 0x1000) host .blockMove (by decide) rfl
    (by decide) rfl rfl
  obtain ⟨-, hfreed⟩ := call_returns (at_ .disposePtr 0x3000) host .disposePtr (by decide) rfl
    (by decide) rfl rfl
  obtain ⟨-, hsr, cycles, hstep⟩ := hmoved [0, 0, 0x12, 0x34] (by decide) (by decide +kernel)
  obtain ⟨-, hfinds⟩ := hfreed (.inr (by decide +kernel))
  have hpc : moved.2.machine.regs.pc = ofBigEndian [0, 0, 0x12, 0x34] :=
    congrArg (·.2.machine.regs.pc) hstep
  have hnormal : freed.2.machine.condition = .normal := by decide +kernel
  refine ⟨⟨congrArg Prod.fst hstep, hpc, by decide +kernel, hsr⟩, hnormal, by decide +kernel, ?_⟩
  have hrunning : freed.2.machine.condition ≠ .halted := by
    rw [hnormal]
    decide
  exact hfinds.resolve_left hrunning

end Emulator

end Mc68k
