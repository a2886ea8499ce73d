import Mc68k.Proofs.Exception.Frame

namespace Mc68k

namespace Frame

def image : Frame → List UInt8
  | [] => []
  | (size, value) :: rest => toBigEndian value size ++ image rest

@[simp] theorem image_append (f g : Frame) : (f ++ g).image = f.image ++ g.image := by
  induction f with
  | nil => rfl
  | cons item rest ih => simp [image, ih]

end Frame

/-- The information word of a bus or address error: the function code, 8 unless an instruction was
fetched, and 16 unless the access was a write. -/
def Fault.word (f : Fault) : UInt32 :=
  (match f.space with
    | .userData => 1
    | .userProgram => 2
    | .supervisorData => 5
    | .supervisorProgram => 6) + (if f.instruction then 0 else 8) + if f.write then 0 else 16

theorem Fault.toUInt32_information (f : Fault) : f.information.toUInt32 = f.word := by
  obtain ⟨address, space, write, instruction⟩ := f
  cases space <;> cases write <;> cases instruction <;>
    simp only [information, word, FunctionCode.code, if_true, Bool.false_eq_true, if_false] <;> rfl

namespace Exception

/-- From the 68020 on, CHK, TRAPV, zero divide and trace stack the address of the instruction. -/
def stacksInstruction (e : Exception) (model : Model) : Bool :=
  .m68020 ≤ model && [chk, trapV, zeroDivide, trace].contains e

/-- On the 68000, bus and address errors stack the access that failed. -/
def stacksAccess (e : Exception) (model : Model) : Bool :=
  model = .m68000 && [busError, addressError].contains e

/-- Faults stack the PC of their own instruction, traps that of the next. -/
def stacksOwnPc (e : Exception) : Bool :=
  [busError, addressError, illegalInstruction, privilegeViolation, lineA, lineF,
    formatError].contains e

def frameLength (e : Exception) (model : Model) : Nat :=
  if model = .m68000 then
    if e.stacksAccess model then 14 else 6
  else if e.stacksInstruction model then 12 else 8

/-- What lies on the stack when a handler is entered, from the stack pointer upward. -/
def layout (e : Exception) (m : Machine) : Frame :=
  let state := [(.word, m.regs.sr.toUInt32),
    (.long, if e.stacksOwnPc then m.instructionPc else m.regs.pc)]
  if m.model = .m68000 then
    if e.stacksAccess m.model then
      [(.word, m.fault.word), (.long, m.fault.address), (.word, m.opcode.toUInt32)] ++ state
    else state
  else if e.stacksInstruction m.model then
    state ++ [(.word, UInt32.ofNat (2 * 4096 + 4 * e.vector)), (.long, m.instructionPc)]
  else state ++ [(.word, UInt32.ofNat (4 * e.vector))]

theorem isGroupZero_eq (e : Exception) : e.isGroupZero = e.stacksAccess .m68000 := by
  cases e <;> simp [isGroupZero, stacksAccess]

theorem isFault_eq (e : Exception) : e.isFault = e.stacksOwnPc := by
  cases e <;> simp [isFault, stacksOwnPc]

theorem frameFormat_eq (e : Exception) (model : Model) :
    e.frameFormat model = if e.stacksInstruction model then 2 else 0 := by
  cases e <;> simp [frameFormat, stacksInstruction]

theorem hasFrameFormats_eq (model : Model) : model.hasFrameFormats = decide (model ≠ .m68000) := by
  cases model <;> rfl

theorem formatWord_toUInt32 (e : Exception) (model : Model) : (e.formatWord model).toUInt32 =
    UInt32.ofNat (e.frameFormat model * 4096 + 4 * e.vector) := by
  have hv := e.vector_lt
  have hf : e.frameFormat model = 0 ∨ e.frameFormat model = 2 := by
    rw [frameFormat_eq]
    split <;> simp
  apply UInt32.toNat_inj.mp
  rw [formatWord, UInt16.toNat_toUInt32, UInt16.toNat_ofNat', UInt32.toNat_ofNat']
  omega

theorem reverse_frame (e : Exception) (m : Machine) : (e.frame m).reverse = e.layout m := by
  rw [frame, layout, hasFrameFormats_eq, formatWord_toUInt32, frameFormat_eq, isGroupZero_eq,
    isFault_eq, Fault.toUInt32_information]
  by_cases hmodel : m.model = .m68000
  · cases hz : e.stacksAccess .m68000 <;> simp [hmodel, hz]
  · cases hs : e.stacksInstruction m.model <;> simp [hmodel]

theorem frameLength_pos (e : Exception) (model : Model) : 0 < e.frameLength model := by
  rw [frameLength]
  split <;> split <;> decide

theorem size_frame (e : Exception) (m : Machine) : (e.frame m).size = e.frameLength m.model := by
  rw [frame, frameLength, hasFrameFormats_eq, frameFormat_eq, isGroupZero_eq]
  by_cases hmodel : m.model = .m68000
  · cases hz : e.stacksAccess .m68000 <;> simp [hmodel, hz, Frame.size, Size.bytes]
  · cases hs : e.stacksInstruction m.model <;> simp [hmodel, Frame.size, Size.bytes]

end Exception

namespace Machine

theorem Holds.view? {m : Machine} {ram : FlatMemory} (hm : m.memory = .flat ram) {f : Frame}
    {top addr : Address} (h : m.Holds top f) (hf : f ≠ [])
    (haddr : addr.toNat + f.size = top.toNat) :
    m.memory.view? addr f.size .supervisorData .read = some (Frame.image f.reverse) := by
  -- From the top down: what is pushed after a value lies right below it.
  induction f generalizing top with
  | nil => exact absurd rfl hf
  | cons item rest ih =>
    obtain ⟨size, value⟩ := item
    obtain ⟨⟨-, hview⟩, hrest⟩ := h
    have hmid : (top - UInt32.ofNat size.bytes).toNat + size.bytes = top.toNat := by
      exact toNat_sub_add (Memory.admits_of_view? hview)
    rw [Frame.size] at haddr ⊢
    rw [List.reverse_cons, Frame.image_append, Nat.add_comm size.bytes]
    have hlast : Frame.image [(size, value)] = toBigEndian value size := by simp [Frame.image]
    rw [hlast]
    by_cases hne : rest = []
    · subst hne
      have hbase : addr = top - UInt32.ofNat size.bytes :=
        UInt32.toNat_inj.mp (by simp only [Frame.size] at haddr; omega)
      rw [hbase]
      simpa [Frame.size, Frame.image] using hview
    · have hbelow := ih hrest hne (by omega)
      rw [hm] at hview hbelow ⊢
      exact Memory.view?_append (by omega) hbelow hview

/-- A handler entered in supervisor mode, with the frame on the stack; nothing else is new. -/
structure InHandler (e : Exception) (m m' : Machine) : Prop where
  isSupervisor : m'.regs.isSupervisor = true
  untraced : Status.has m'.regs.sr (Status.T1 ||| Status.T0) = false
  status : m'.regs.sr &&& ~~~(Status.S ||| Status.T1 ||| Status.T0) =
    m.regs.sr &&& ~~~(Status.S ||| Status.T1 ||| Status.T0)
  ssp : m'.regs.ssp.toNat + e.frameLength m.model = m.regs.ssp.toNat
  frame : m'.memory.view? m'.regs.ssp (e.frameLength m.model) .supervisorData .read =
    some (e.layout m).image
  handler : (m'.memory.view? (m.regs.vbr + UInt32.ofNat (4 * e.vector)) 4 .supervisorData
    .read).map ofBigEndian = some m'.regs.pc
  even : m'.regs.pc &&& 1 = 0
  others : m' = { m with
    regs := { m.regs with sr := m'.regs.sr, ssp := m'.regs.ssp, pc := m'.regs.pc }
    memory := m'.memory
    condition := .normal
    cycles := m'.cycles }

/-- An exception processed: the processor is in the handler or halted, and no byte but those of the
frame is new. -/
structure Processed (e : Exception) (m m' : Machine) : Prop where
  ended : m'.condition = .halted ∨ InHandler e m m'
  shape : m'.memory.shape = m.memory.shape
  byte? (addr : Address) (h : addr.toNat + e.frameLength m.model < m.regs.ssp.toNat ∨
    m.regs.ssp.toNat ≤ addr.toNat) : m'.memory.byte? addr = m.memory.byte? addr

theorem Raised.shape {e : Exception} {m m' : Machine} (h : Raised e m m') :
    m'.memory.shape = m.memory.shape := by
  cases h with
  | handled handler stacked => exact stacked.shape
  | halted n hn stacked => exact stacked.shape

theorem Raised.byte?_of_outside {e : Exception} {m m' : Machine} (h : Raised e m m')
    {addr : Address} (ho : addr.toNat + e.frameLength m.model < m.regs.ssp.toNat ∨
      m.regs.ssp.toNat ≤ addr.toNat) : m'.memory.byte? addr = m.memory.byte? addr := by
  by_contra hne
  obtain ⟨hbelow, habove⟩ := h.byte?_ne hne
  rw [e.size_frame] at habove
  omega

theorem Stacked.view?_layout {e : Exception} {m m' : Machine} {ram : FlatMemory}
    (hm : m.memory = .flat ram) (h : Stacked (e.frame m).size m.supervised m')
    (holds : m'.Holds m.regs.ssp (e.frame m)) :
    m'.memory.view? m'.regs.ssp (e.frameLength m.model) .supervisorData .read =
      some (e.layout m).image := by
  obtain ⟨ram', hm'⟩ := Memory.flat_of_shape_eq hm h.shape
  have hsize := e.size_frame m
  have hne : e.frame m ≠ [] := by
    intro hnil
    have hpos := e.frameLength_pos m.model
    rw [← hsize, hnil] at hpos
    exact Nat.lt_irrefl 0 hpos
  have hview := holds.view? hm' hne h.ssp
  rwa [e.reverse_frame, hsize] at hview

theorem Raised.inHandler {e : Exception} {m m₁ : Machine} {ram : FlatMemory}
    (h : Raised e m m₁) (hm : m.memory = .flat ram) (running : m.condition ≠ .halted) :
    m₁.condition = .halted ∨ InHandler e m m₁ := by
  cases h with
  | halted => exact .inl rfl
  | @handled m' handler hstacked hholds hfound heven hfault =>
    have hregs := hstacked.regs
    have hcondition : m'.condition = m.condition := hstacked.condition
    have hlayout := hstacked.view?_layout hm hholds
    refine .inr ⟨?_, ?_, ?_, ?_, hlayout, hfound, heven, ?_⟩
    · exact hstacked.isSupervisor.trans m.isSupervisor_supervised
    · rw [hregs]
      exact m.has_trace_supervised
    · rw [hregs]
      exact m.status_supervised
    · rw [← e.size_frame]
      exact hstacked.ssp
    · simp only [Machine.mk.injEq]
      refine ⟨hstacked.model, ?_, trivial, ?_, hstacked.opcode, hstacked.instructionPc, hfault,
        trivial⟩
      · rw [hregs]
        rfl
      · rw [hcondition]
        revert running
        cases m.condition <;> decide

theorem processed_raise {m : Machine} {ram : FlatMemory} (hm : m.memory = .flat ram)
    (running : m.condition ≠ .halted) (e : Exception) : Processed e m (m.raise e) where
  ended := (m.raised e).inHandler hm running
  shape := (m.raised e).shape
  byte? _ ho := (m.raised e).byte?_of_outside ho

/-- A zero divide on the 68020, of format 2, and a bus error on the 68000, where the word is 1 for
user data, with 8 and 16 for a read of it. -/
theorem processed_raise_frames :
    let ram : FlatMemory :=
      ⟨((Bank.zeros 256).write 8 [0, 0, 0, 0x90]).write 20 [0, 0, 0, 0x80], 0⟩
    let divide : Machine := { Machine.new .m68020 (.flat ram) with
      regs := { Registers.initial with ssp := 256, pc := 0x1234 }
      instructionPc := 0x1232 }
    let access : Machine := { Machine.new .m68000 (.flat ram) with
      regs := { Registers.initial with sr := 0x0004, ssp := 256, pc := 0x1236 }
      opcode := 0xD090
      instructionPc := 0x1234
      fault := ⟨0x00020000, .userData, false, false⟩ }
    InHandler .zeroDivide divide (divide.raise .zeroDivide) ∧
      (divide.raise .zeroDivide).regs.pc = 0x80 ∧
      (Exception.layout .zeroDivide divide).image =
        [0x27, 0x00, 0x00, 0x00, 0x12, 0x34, 0x20, 0x14, 0x00, 0x00, 0x12, 0x32] ∧
      InHandler .busError access (access.raise .busError) ∧
      (access.raise .busError).regs.pc = 0x90 ∧
      (Exception.layout .busError access).image =
        [0x00, 0x19, 0x00, 0x02, 0x00, 0x00, 0xD0, 0x90, 0x00, 0x04, 0x00, 0x00, 0x12, 0x34] := by
  intro ram divide access
  have hdivide : (divide.raise .zeroDivide).condition ≠ .halted := by decide +kernel
  have haccess : (access.raise .busError).condition ≠ .halted := by decide +kernel
  refine ⟨?_, by decide +kernel, by decide +kernel, ?_, by decide +kernel, by decide +kernel⟩
  · exact (processed_raise rfl (by decide) .zeroDivide).ended.resolve_left hdivide
  · exact (processed_raise rfl (by decide) .busError).ended.resolve_left haccess

end Machine

end Mc68k
