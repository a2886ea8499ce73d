import Mc68k.Proofs.Execution.Length
import Mc68k.Proofs.Host.Return
import Mc68k.Proofs.Memory.Bytes
import Mc68k.Proofs.OpcodeMap

namespace Mc68k

/-- The address of the instruction after a call, while PC is past the opcode. -/
def Machine.afterCall (m : Machine) (op : Opcode) (operation : Operation) : Address :=
  let words := if operation = .bsr then branchWords op m.model
    else (AddressingMode.ofOpcode? op).elim 0 (·.words m)
  m.regs.pc + UInt32.ofNat (2 * words)

section

variable {op : Opcode} {i : Instruction}

theorem bsr_of_decode (h : decode op = some i) (hi : i.operation = .bsr) :
    i = ⟨some .branchTarget, none, .bsr, .word, .plain⟩ := by
  have hpage : op.page = 0x61 := by
    have honPage := isOnPage_of_decode h
    simpa [hi, Operation.isOnPage] using honPage
  rw [decode, op.line_eq_page, hpage] at h
  simp only [Decode.line6, Decode.unary, op.condition_eq_page, hpage] at h
  exact (Option.some.inj h).symm

theorem jsr_of_decode (h : decode op = some i) (hi : i.operation = .jsr) :
    i = ⟨some .controlAddress, none, .jsr, .long, .plain⟩ ∧
      ∃ ea, AddressingMode.ofOpcode? op = some ea ∧ ea.isControl = true := by
  have hpage : op.page = 0x4E := by
    have honPage := isOnPage_of_decode h
    simpa [hi, Operation.isOnPage] using honPage
  rw [decode_of_page (by simp [hpage])] at h
  simp only [hpage, Nat.reduceEqDiff, if_false, Decode.line4E, Decode.only, Decode.nullary,
    Decode.unary, bind, Option.bind] at h
  grind

theorem link_of_decode (h : decode op = some i) (hi : i.operation = .link) :
    i = ⟨some .displacementWord, none, .link, .word, .plain⟩ ∨
      i = ⟨some .displacementLong, none, .link, .long, .from68020⟩ := by
  have hpage : op.page = 0x48 ∨ op.page = 0x4E := by
    have honPage := isOnPage_of_decode h
    simpa [hi, Operation.isOnPage] using honPage
  obtain hpage | hpage := hpage
  · rw [decode_of_page (by simp [hpage])] at h
    simp only [hpage, if_true, Decode.line48, Decode.only, Decode.nullary,
      Decode.unary, Decode.binary, bind, Option.bind] at h
    grind
  · rw [decode_of_page (by simp [hpage])] at h
    simp only [hpage, Nat.reduceEqDiff, if_false, Decode.line4E, Decode.only, Decode.nullary,
      Decode.unary, bind, Option.bind] at h
    grind

end

namespace Machine

/-- At its privilege, a machine reads a long at an address. -/
def FindsLong (m : Machine) (addr : Address) (value : UInt32) : Prop :=
  m.isMisaligned addr .long = false ∧
    m.memory.view? addr 4 m.dataSpace .read = some (toBigEndian value .long)

/-- What a computation must keep of a saved long: the privilege, and the long as it reads. -/
structure KeepsLong (m : Machine) (addr : Address) (u : Machine) : Prop where
  model : u.model = m.model
  isSupervisor : u.regs.isSupervisor = m.regs.isSupervisor
  view? : u.memory.view? addr 4 u.dataSpace .read = m.memory.view? addr 4 m.dataSpace .read

theorem KeepsLong.of_memory_eq {addr : Address} {m u : Machine} (hmodel : u.model = m.model)
    (hsupervisor : u.regs.isSupervisor = m.regs.isSupervisor) (hmemory : u.memory = m.memory) :
    m.KeepsLong addr u :=
  ⟨hmodel, hsupervisor, by rw [dataSpace, hsupervisor, hmemory]; rfl⟩

theorem FindsLong.of_keepsLong {m u : Machine} {addr : Address} {value : UInt32}
    (h : m.FindsLong addr value) (hkeeps : m.KeepsLong addr u) : u.FindsLong addr value := by
  obtain ⟨ha, hview⟩ := h
  refine ⟨?_, hkeeps.view?.trans hview⟩
  rw [isMisaligned, hkeeps.model]
  exact ha

/-- After a call: PC, the stack pointer and the four bytes below it, which hold where to go on. -/
structure Called (m : Machine) (op : Opcode) (next : Address) (m' : Machine) : Prop where
  others : m' = { m with
    opcode := op
    regs := { m.regs.setSp (m.regs.sp - 4) with pc := m'.regs.pc }
    memory := m'.memory
    cycles := m'.cycles }
  memory : m.memory.SameBut (m.regs.sp - 4).toNat m.regs.sp.toNat m'.memory
  below : (m.regs.sp - 4).toNat + 4 = m.regs.sp.toNat
  saved : m'.FindsLong (m.regs.sp - 4) next

theorem Called.sp {op : Opcode} {next : Address} {m m' : Machine} (h : m.Called op next m') :
    m'.regs.sp = m.regs.sp - 4 := by
  rw [h.others]
  exact m.regs.sp_setSp _

end Machine

def rtdOpcode : Opcode := 0x4E74

def unlkOpcode (n : RegisterNumber) : Opcode := 0x4E58 + UInt16.ofNat n

namespace Exec

open Machine

variable {op : Opcode} {m m' u : Machine} {value : UInt32}

theorem findsLong_of_writeData {addr : Address} (h : writeData addr .long value m = .ok () m') :
    m'.FindsLong addr value := by
  obtain ⟨ha, hwrite, rfl⟩ := writeData_eq_ok h
  have hread : m.memory.admits addr (toBigEndian value .long).length m.dataSpace .read = true :=
    Memory.admits_read_of_write hwrite
  exact ⟨ha, Memory.view?_patch _ _ _ _ _ hread⟩

theorem call_eq (p : Operands) (m : Machine) : Perform.call p m = (do
    writeData (m.regs.sp - 4) .long m.regs.pc
    modifyRegs fun r => { r.setSp (m.regs.sp - 4) with pc := p.first }
    pure p) m := by
  have hpush : pushLong m.regs.pc m = (do
      writeData (m.regs.sp - 4) .long m.regs.pc
      modifyRegs (·.setSp (m.regs.sp - 4))) m := rfl
  rw [Perform.call, bind_regs, bind_eq_of_eq hpush, bind_assoc]
  rfl

theorem called_of_call {words : Nat} {p q : Operands}
    (hpast : Past words { m with opcode := op } m') (h : Perform.call p m' = .ok q u) :
    m.Called op (m.regs.pc + UInt32.ofNat (2 * words)) u := by
  obtain ⟨cycles, rfl⟩ : ∃ cycles, m' = { m with
      opcode := op
      regs := { m.regs with pc := m.regs.pc + UInt32.ofNat (2 * words) }
      cycles } := ⟨_, hpast⟩
  rw [call_eq] at h
  obtain ⟨_, m₁, hwrite, hrest⟩ := exists_of_bind_ok h
  obtain ⟨-, rfl⟩ := EStateM.Result.ok.inj hrest
  have hsaved := findsLong_of_writeData hwrite
  obtain ⟨-, hadmits, rfl⟩ := writeData_eq_ok hwrite
  -- Nothing is admitted around the end of the address space, so the bytes are below the old top.
  have hbelow : (m.regs.sp - 4).toNat + 4 = m.regs.sp.toNat := by
    have hlong : m.memory.admits (m.regs.sp - UInt32.ofNat Size.long.bytes) Size.long.bytes
        m.dataSpace .write = true := hadmits
    simpa [Size.bytes] using toNat_sub_add hlong
  have hsame := Memory.SameBut.patch m.memory (m.regs.sp - 4)
    (toBigEndian (m.regs.pc + UInt32.ofNat (2 * words)) .long)
  rw [length_toBigEndian, Size.bytes, hbelow] at hsame
  constructor
  · simp only [Registers.setSp_of_pc]
    rfl
  · exact hsame
  · exact hbelow
  · refine hsaved.of_keepsLong (.of_memory_eq rfl ?_ rfl)
    exact Registers.isSupervisor_setSp _ _

theorem execute_rts_of_findsLong (h : m.FindsLong m.regs.sp value) :
    ∃ cycles, execute rtsOpcode m = .ok () { m with
      opcode := rtsOpcode
      regs := { m.regs.setSp (m.regs.sp + 4) with pc := value }
      cycles } := by
  have hrts := execute_rts_of_view? h.1 h.2
  rw [ofBigEndian_toBigEndian_long] at hrts
  exact hrts

theorem fetchWord_of_opcode {word : UInt16} (h : fetchWord m = .ok word m') (op : Opcode) :
    ∃ cycles, fetchWord { m with opcode := op } = .ok word { m with
      opcode := op
      regs := { m.regs with pc := m.regs.pc + 2 }
      cycles } := by
  obtain ⟨bytes, heven, hview, rfl, -⟩ := fetchWord_eq_ok h
  exact ⟨_, fetchWord_of_view? (m := { m with opcode := op }) heven hview⟩

theorem execute_rtd (hmodel : .m68010 ≤ m.model) : execute rtdOpcode m = (do
    let released ← fetchSignedWord
    Perform.jump (← popLong)
    modifyRegs fun r => r.setSp (r.sp + released)) { m with opcode := rtdOpcode } := by
  have hdecode : decode rtdOpcode = Decode.unary .displacementWord .rtd .word .from68010 := by
    decide +kernel
  have hprivilege : InstructionFlags.from68010.privilegedOn m.model = false := by
    cases m.model <;> decide
  rw [execute_of_decode hdecode hmodel (by simp [hprivilege]),
    executeInstruction_of_value (by decide) (by decide) rfl]
  simp [Operation.perform, Perform.rtd]

theorem execute_rtd_of_findsLong {word : UInt16} (hmodel : .m68010 ≤ m.model)
    (h : m.FindsLong m.regs.sp value) (hfetch : fetchWord m = .ok word m') :
    ∃ cycles, execute rtdOpcode m = .ok () { m with
      opcode := rtdOpcode
      regs := { m.regs.setSp (m.regs.sp + 4 + signExtend word.toUInt32 .word) with pc := value }
      cycles } := by
  obtain ⟨cycles, hword⟩ := fetchWord_of_opcode hfetch rtdOpcode
  let m₁ : Machine := { m with
    opcode := rtdOpcode
    regs := { m.regs with pc := m.regs.pc + 2 }
    cycles }
  have hfinds : m₁.FindsLong m₁.regs.sp value := h.of_keepsLong (.of_memory_eq rfl rfl rfl)
  have hpop := popLong_of_view? hfinds.1 hfinds.2
  rw [ofBigEndian_toBigEndian_long] at hpop
  have hsigned : fetchSignedWord { m with opcode := rtdOpcode } =
      .ok (signExtend word.toUInt32 .word) m₁ := by
    rw [fetchSignedWord, bind_ok hword]
    rfl
  let returned : Registers := { m₁.regs.setSp (m₁.regs.sp + 4) with pc := value }
  have hsp : returned.sp = m.regs.sp + 4 := m₁.regs.sp_setSp _
  have hreleased : returned.setSp (returned.sp + signExtend word.toUInt32 .word) =
      { m.regs.setSp (m.regs.sp + 4 + signExtend word.toUInt32 .word) with pc := value } := by
    rw [hsp]
    simp only [returned, m₁, Registers.setSp_of_pc, Registers.setSp_setSp]
  refine ⟨m₁.cycle m₁.regs.sp 4 m₁.dataSpace .read :: cycles, ?_⟩
  rw [execute_rtd hmodel, bind_ok hsigned, bind_ok hpop, ← hreleased]
  rfl

theorem decode_unlkOpcode : ∀ n, decode (unlkOpcode n) = Decode.nullary .unlk .long .plain := by
  decide +kernel

theorem y_unlkOpcode : ∀ n, (unlkOpcode n).y = n := by
  decide +kernel

theorem unlk_eq (p : Operands) (m : Machine) : Perform.unlk p m = (do
    let saved ← readData (m.regs.a m.opcode.y) .long
    modifyRegs fun r => (r.setSp (m.regs.a m.opcode.y + 4)).setA m.opcode.y saved
    pure p) m := rfl

theorem execute_unlk_of_findsLong {n : RegisterNumber} (h : m.FindsLong (m.regs.a n) value) :
    ∃ cycles, execute (unlkOpcode n) m = .ok () { m with
      opcode := unlkOpcode n
      regs := (m.regs.setSp (m.regs.a n + 4)).setA n value
      cycles } := by
  let m₁ : Machine := { m with opcode := unlkOpcode n }
  have hfinds : m₁.FindsLong (m₁.regs.a n) value := h.of_keepsLong (.of_memory_eq rfl rfl rfl)
  have hread : readData (m₁.regs.a n) .long m₁ = _ := read_of_view? hfinds.1 hfinds.2
  rw [ofBigEndian_toBigEndian_long] at hread
  have hy : m₁.opcode.y = n := y_unlkOpcode n
  have hperform : Perform.unlk (.new .long) m₁ = _ := unlk_eq _ _
  rw [hy, bind_ok hread] at hperform
  rw [execute_of_plain m (decode_unlkOpcode n) rfl,
    executeInstruction_nullary (by decide) (by decide)]
  exact ⟨_, bind_ok hperform⟩

theorem called_of_execute {i : Instruction} (hdecode : decode op = some i)
    (hcall : i.operation = .bsr ∨ i.operation = .jsr) (h : execute op m = .ok () m') :
    m.Called op (m.afterCall op i.operation) m' := by
  obtain hbsr | hjsr := hcall
  · obtain rfl := bsr_of_decode hdecode hbsr
    obtain ⟨target, m₁, q, htarget, hperform⟩ :=
      performed_of_ok hdecode (by decide) (by decide) rfl h
    exact called_of_call (past_of_fetchBranchTarget htarget) hperform
  · obtain ⟨rfl, ea, hea, hcontrol⟩ := jsr_of_decode hdecode hjsr
    obtain ⟨target, m₁, q, htarget, hperform⟩ :=
      performed_of_ok hdecode (by decide) (by decide) rfl h
    have hpast := past_of_fetchControlAddress hea hcontrol htarget
    have hcalled := called_of_call hpast hperform
    rw [afterCall, if_neg (by decide), hea]
    exact hcalled

theorem link_eq (p : Operands) (m : Machine) : Perform.link p m = (do
    let n := m.opcode.y
    let sp := m.regs.sp - 4
    writeData sp .long (if n.val = 7 then sp else m.regs.a n)
    modifyRegs fun r => ((r.setSp sp).setA n sp).setSp (sp + p.first)
    pure p) m := rfl

/-- LINK proper, once PC is past the displacement: An is left at the long where it is saved. -/
theorem findsLong_of_link {words : Nat} {p q : Operands} (hn : op.y.val ≠ 7)
    (hpast : Past words { m with opcode := op } m') (h : Perform.link p m' = .ok q u) :
    u.regs.a op.y = m.regs.sp - 4 ∧ u.FindsLong (m.regs.sp - 4) (m.regs.a op.y) := by
  obtain ⟨cycles, rfl⟩ : ∃ cycles, m' = { m with
      opcode := op
      regs := { m.regs with pc := m.regs.pc + UInt32.ofNat (2 * words) }
      cycles } := ⟨_, hpast⟩
  rw [link_eq] at h
  obtain ⟨_, m₁, hwrite, hrest⟩ := exists_of_bind_ok h
  -- LINK A7 would save the stack pointer as already lowered.
  rw [if_neg hn] at hwrite
  obtain ⟨-, rfl⟩ := EStateM.Result.ok.inj hrest
  have hsaved := findsLong_of_writeData hwrite
  have hframe : (((m₁.regs.setSp (m.regs.sp - 4)).setA op.y (m.regs.sp - 4)).setSp
      (m.regs.sp - 4 + p.first)).a op.y = m.regs.sp - 4 := by
    rw [Registers.a_setSp_of_ne _ hn, Registers.a_setA_self]
  have hsupervisor : (((m₁.regs.setSp (m.regs.sp - 4)).setA op.y (m.regs.sp - 4)).setSp
      (m.regs.sp - 4 + p.first)).isSupervisor = m₁.regs.isSupervisor := by
    rw [Registers.isSupervisor_setSp, (Registers.SameSystem.setA _ _ _).isSupervisor,
      Registers.isSupervisor_setSp]
  exact ⟨hframe, hsaved.of_keepsLong (.of_memory_eq rfl hsupervisor rfl)⟩

theorem linked_of_execute {i : Instruction} (hdecode : decode op = some i)
    (hlink : i.operation = .link) (hn : op.y.val ≠ 7) (h : execute op m = .ok () m') :
    m'.regs.a op.y = m.regs.sp - 4 ∧ m'.FindsLong (m.regs.sp - 4) (m.regs.a op.y) := by
  obtain rfl | rfl := link_of_decode hdecode hlink
  · obtain ⟨displacement, m₁, q, hfetch, hperform⟩ :=
      performed_of_ok hdecode (by decide) (by decide) rfl h
    exact findsLong_of_link hn (past_of_fetchSignedWord hfetch) hperform
  · obtain ⟨displacement, m₁, q, hfetch, hperform⟩ :=
      performed_of_ok hdecode (by decide) (by decide) rfl h
    exact findsLong_of_link hn (past_of_fetchLong hfetch) hperform

/-- From any later machine that reads the saved long the same, RTS and RTD go on after the call, and
UNLK restores An and the stack pointer. -/
theorem execute_unwinds {i : Instruction} (hdecode : decode op = some i)
    (h : execute op m = .ok () m') :
    (i.operation = .bsr ∨ i.operation = .jsr →
      let next := m.afterCall op i.operation
      m.Called op next m' ∧
        ∀ u, m'.KeepsLong m'.regs.sp u → u.regs.sp = m'.regs.sp →
          (∃ cycles, execute rtsOpcode u = .ok () { u with
            opcode := rtsOpcode
            regs := { u.regs.setSp m.regs.sp with pc := next }
            cycles }) ∧
          ∀ word u', .m68010 ≤ u.model → fetchWord u = .ok word u' →
            ∃ cycles, execute rtdOpcode u = .ok () { u with
              opcode := rtdOpcode
              regs := { u.regs.setSp (m.regs.sp + signExtend word.toUInt32 .word) with pc := next }
              cycles }) ∧
      (i.operation = .link → op.y.val ≠ 7 →
        ∀ u, m'.KeepsLong (m'.regs.a op.y) u → u.regs.a op.y = m'.regs.a op.y →
          ∃ r cycles, execute (unlkOpcode op.y) u =
              .ok () { u with opcode := unlkOpcode op.y, regs := r, cycles } ∧
            r = (u.regs.setSp m.regs.sp).setA op.y (m.regs.a op.y) ∧
            r.a op.y = m.regs.a op.y ∧ r.sp = m.regs.sp) := by
  have htop : m.regs.sp - 4 + 4 = m.regs.sp := UInt32.sub_add_cancel _ _
  refine ⟨fun hcall => ?_, fun hlink hn u hkeeps hframe => ?_⟩
  · have hcalled := called_of_execute hdecode hcall h
    refine ⟨hcalled, fun u hkeeps hsp => ?_⟩
    have hfinds : u.FindsLong u.regs.sp (m.afterCall op i.operation) := by
      rw [hsp]
      refine FindsLong.of_keepsLong ?_ hkeeps
      rw [hcalled.sp]
      exact hcalled.saved
    have hback : u.regs.sp + 4 = m.regs.sp := by
      rw [hsp, hcalled.sp, htop]
    refine ⟨?_, fun word u' hmodel hfetch => ?_⟩
    · rw [← hback]
      exact execute_rts_of_findsLong hfinds
    · rw [← hback]
      exact execute_rtd_of_findsLong hmodel hfinds hfetch
  · obtain ⟨hstart, hsaved⟩ := linked_of_execute hdecode hlink hn h
    rw [hstart] at hkeeps hframe
    have hfinds : u.FindsLong (u.regs.a op.y) (m.regs.a op.y) := by
      rw [hframe]
      exact hsaved.of_keepsLong hkeeps
    obtain ⟨cycles, hunlk⟩ := execute_unlk_of_findsLong hfinds
    rw [hframe, htop] at hunlk
    refine ⟨_, cycles, hunlk, rfl, Registers.a_setA_self _ _ _, ?_⟩
    rw [Registers.sp_setA_of_ne _ hn, Registers.sp_setSp]

/-- JSR (32,PC,D0.W) by a full index word, with RTS and with RTD #8; and LINK A1,#-8 with UNLK A1.
-/
theorem execute_unwinds_pcIndexed :
    let at_ (memory : Memory) : Machine := { Machine.new .m68020 memory with
      regs := { Registers.initial.setA .one 0x1234 with pc := 16, ssp := 64 } }
    let m := at_
      (((Memory.flat (.new 64 0)).patch 16 [0x01, 0x20, 0x00, 0x20]).patch 48 [0x00, 0x08])
    let m' := left (execute 0x4EBB m)
    let l := at_ ((Memory.flat (.new 64 0)).patch 16 [0xFF, 0xF8])
    let l' := left (execute 0x4E51 l)
    m.Called 0x4EBB 20 m' ∧
      (∃ cycles, execute rtsOpcode m' = .ok () { m' with
        opcode := rtsOpcode
        regs := { m'.regs.setSp 64 with pc := 20 }
        cycles }) ∧
      (∃ cycles, execute rtdOpcode m' = .ok () { m' with
        opcode := rtdOpcode
        regs := { m'.regs.setSp 72 with pc := 20 }
        cycles }) ∧
      ∃ r cycles, execute (unlkOpcode .one) { l' with regs := l'.regs.setSp 8 } =
          .ok () { l' with opcode := unlkOpcode .one, regs := r, cycles } ∧
        r.a .one = 0x1234 ∧ r.sp = 64 := by
  intro at_ m m' l l'
  have hjsr : decode 0x4EBB = some ⟨some .controlAddress, none, .jsr, .long, .plain⟩ := by
    decide +kernel
  have hlink : decode 0x4E51 = some ⟨some .displacementWord, none, .link, .word, .plain⟩ := by
    decide +kernel
  have hcall : execute 0x4EBB m = .ok () m' := eq_ok_left (by decide +kernel)
  have hframe : execute 0x4E51 l = .ok () l' := eq_ok_left (by decide +kernel)
  have hfetch := fetchWord_of_view? (m := m') (by decide +kernel)
    (show m'.memory.view? m'.regs.pc 2 m'.programSpace .read = some [0x00, 0x08] by decide +kernel)
  obtain ⟨hcalls, -⟩ := execute_unwinds hjsr hcall
  obtain ⟨-, hframes⟩ := execute_unwinds hlink hframe
  obtain ⟨hcalled, hreturns⟩ := hcalls (.inr rfl)
  obtain ⟨hrts, hrtd⟩ := hreturns m' ⟨rfl, rfl, rfl⟩ rfl
  have hnext : m.afterCall 0x4EBB .jsr = 20 := by decide +kernel
  have hsp : m.regs.sp = 64 := by decide +kernel
  rw [hnext] at hcalled hrts hrtd
  rw [hsp] at hrts hrtd
  refine ⟨hcalled, hrts, hrtd _ _ (by decide) hfetch, ?_⟩
  obtain ⟨r, cycles, hunlk, -, ha, hback⟩ := hframes rfl (by decide)
    { l' with regs := l'.regs.setSp 8 } ⟨rfl, by decide +kernel, by decide +kernel⟩
    (by decide +kernel)
  rw [show l.regs.sp = 64 by decide +kernel] at hback
  exact ⟨r, cycles, hunlk, ha, hback⟩

end Exec

end Mc68k
