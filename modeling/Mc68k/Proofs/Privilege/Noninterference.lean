import Mc68k.Proofs.Memory.Bytes
import Mc68k.Proofs.Privilege.Isolation

namespace Mc68k

namespace Memory

/-- User mode may read the byte at an address, as data or as program. -/
def UserReadable (m : Memory) (addr : Address) : Prop :=
  ∃ fc : FunctionCode, fc.isSupervisor = false ∧ m.admits addr 1 fc .read = true

/-- RAM of one size and limit, or maps with the same regions, protections and heap blocks; the bytes
may differ. -/
inductive Congruent : Memory → Memory → Prop
  | flat {ram ram' : FlatMemory} (size : ram'.bytes.size = ram.bytes.size)
    (limit : ram'.supervisorLimit = ram.supervisorLimit) : Congruent (.flat ram) (.flat ram')
  | mapped {map map' : MemoryMap} (reached : map.Reached) (reached' : map'.Reached)
    (regions : map'.regions.extents = map.regions.extents)
    (blocks : map'.heap.blocks.extents = map.heap.blocks.extents) :
    Congruent (.mapped map) (.mapped map')

namespace Congruent

variable {m m' : Memory}

theorem orderly (h : Congruent m m') : m.Orderly ∧ m'.Orderly := by
  cases h with
  | flat => exact ⟨trivial, trivial⟩
  | mapped reached reached' => exact ⟨reached.orderly, reached'.orderly⟩

theorem admits (h : Congruent m m') (addr : Address) {n : Nat} (hn : 0 < n) (fc : FunctionCode)
    (access : Access) : m'.admits addr n fc access = m.admits addr n fc access := by
  cases h with
  | flat size limit => simp only [admits_flat, FlatMemory.admits, size, limit]
  | mapped reached reached' regions blocks =>
    rw [Bool.eq_iff_iff, reached.orderly.admits_iff hn, reached'.orderly.admits_iff hn, regions,
      blocks]

theorem patch (h : Congruent m m') (addr : Address) (bytes : List UInt8) {fc : FunctionCode}
    (hn : 0 < bytes.length) (hw : m.admits addr bytes.length fc .write = true) :
    Congruent (m.patch addr bytes) (m'.patch addr bytes) := by
  have hw' := (h.admits addr hn fc .write).trans hw
  cases h with
  | flat size limit => exact .flat (by simp [size]) limit
  | @mapped map map' reached reached' regions blocks =>
    have hshape := shape_patch (.mapped map) addr bytes
    have hshape' := shape_patch (.mapped map') addr bytes
    simp only [Memory.patch, shape, Shape.mapped.injEq] at hshape hshape'
    obtain ⟨hregions, -, -, hblocks⟩ := hshape
    obtain ⟨hregions', -, -, hblocks'⟩ := hshape'
    refine .mapped (reached.patch hw) (reached'.patch hw') ?_ ?_
    · rw [hregions, hregions', regions]
    · rw [hblocks, hblocks', blocks]

end Congruent

/-- Memories that agree on what user mode may read. -/
structure Alike (m m' : Memory) : Prop where
  congruent : Congruent m m'
  byte? (addr : Address) (h : m.UserReadable addr) : m'.byte? addr = m.byte? addr

namespace Alike

variable {m m' : Memory}

/-- An access in user mode is answered alike: admitted in both or in none, and with the bytes that
user mode may read one by one. -/
theorem view? (h : Alike m m') (addr : Address) {n : Nat} (hn : 0 < n) {fc : FunctionCode}
    (user : fc.isSupervisor = false) (access : Access) :
    m'.view? addr n fc access = m.view? addr n fc access := by
  have hadmits := h.congruent.admits addr hn fc access
  obtain ⟨horderly, horderly'⟩ := h.congruent.orderly
  cases hview : m.view? addr n fc access with
  | none =>
    rw [Memory.admits, Memory.admits, hview] at hadmits
    exact Option.isNone_iff_eq_none.mp (Option.isSome_eq_false_iff.mp hadmits)
  | some bytes =>
    have hread : m.admits addr n fc access = true := by
      rw [Memory.admits, hview]
      rfl
    obtain ⟨bytes', hview'⟩ := Option.isSome_iff_exists.mp (hadmits.trans hread)
    rw [hview', Option.some.injEq]
    -- Each byte may be read by itself, so that it is the same in both.
    apply List.ext_getElem?
    intro i
    by_cases hi : i < n
    · have hbyte := h.byte? (addr + UInt32.ofNat i) ⟨fc, user, horderly.admits_byte hread hi⟩
      rwa [horderly.byte?_of_view? hview hi, horderly'.byte?_of_view? hview' hi] at hbyte
    · rw [List.getElem?_eq_none (by rw [length_view? hview']; omega),
        List.getElem?_eq_none (by rw [length_view? hview]; omega)]

theorem patch (h : Alike m m') (addr : Address) (bytes : List UInt8) {fc : FunctionCode}
    (hn : 0 < bytes.length) (hw : m.admits addr bytes.length fc .write = true) :
    Alike (m.patch addr bytes) (m'.patch addr bytes) := by
  have hw' := (h.congruent.admits addr hn fc .write).trans hw
  obtain ⟨horderly, horderly'⟩ := h.congruent.orderly
  refine ⟨h.congruent.patch addr bytes hn hw, ?_⟩
  intro x hx
  by_cases hin : addr.toNat ≤ x.toNat ∧ x.toNat < addr.toNat + bytes.length
  · obtain ⟨i, hi, rfl⟩ : ∃ i, i < bytes.length ∧ x = addr + UInt32.ofNat i := by
      refine ⟨x.toNat - addr.toNat, by omega, UInt32.toNat_inj.mp ?_⟩
      rw [toNat_add_of_admits hw (by omega)]
      omega
    rw [horderly.byte?_patch hw hi, horderly'.byte?_patch hw' hi]
  · rw [Memory.byte?_patch m addr bytes x (by omega), Memory.byte?_patch m' addr bytes x (by omega)]
    apply h.byte?
    obtain ⟨fc', user, hread⟩ := hx
    exact ⟨fc', user, by rwa [admits_patch] at hread⟩

end Alike

end Memory

namespace Machine

/-- Machines in user mode that a program cannot tell apart. -/
structure Alike (m m' : Machine) : Prop where
  user : m.regs.isSupervisor = false
  model : m'.model = m.model
  regs : m'.regs = m.regs
  condition : m'.condition = m.condition
  opcode : m'.opcode = m.opcode
  fault : m'.fault = m.fault
  memory : m.memory.Alike m'.memory

namespace Alike

variable {m m' : Machine}

theorem exists_eq (h : Alike m m') : ∃ memory instructionPc cycles,
    m' = { m with memory, instructionPc, cycles } := by
  refine ⟨m'.memory, m'.instructionPc, m'.cycles, ?_⟩
  rw [← h.model, ← h.regs, ← h.condition, ← h.opcode, ← h.fault]

theorem blind (h : Alike m m') : m'.blind = m.blind := by
  rw [Machine.blind, Machine.blind, h.model, h.regs, h.opcode]

theorem isMisaligned (h : Alike m m') (addr : Address) (size : Size) :
    m'.isMisaligned addr size = m.isMisaligned addr size := by
  rw [Machine.isMisaligned, Machine.isMisaligned, h.model]

theorem withRegs (h : Alike m m') {r : Registers} (hr : m.regs.SameSystem r) :
    Alike { m with regs := r } { m' with regs := r } :=
  ⟨hr.isSupervisor.trans h.user, h.model, rfl, h.condition, h.opcode, h.fault, h.memory⟩

theorem withCycles (h : Alike m m') (cycles cycles' : List BusCycle) :
    Alike { m with cycles } { m' with cycles := cycles' } :=
  ⟨h.user, h.model, h.regs, h.condition, h.opcode, h.fault, h.memory⟩

theorem withFault (h : Alike m m') (fault : Fault) :
    Alike { m with fault } { m' with fault } :=
  ⟨h.user, h.model, h.regs, h.condition, h.opcode, rfl, h.memory⟩

end Alike

inductive SameOutcome {α : Type} : EStateM.Result Exception Machine α →
    EStateM.Result Exception Machine α → Prop
  | ok {m m' : Machine} (a : α) (h : Alike m m') : SameOutcome (.ok a m) (.ok a m')
  | error {m m' : Machine} (e : Exception) (h : Alike m m') :
    SameOutcome (.error e m) (.error e m')

end Machine

namespace Exec

open Machine

variable {α β : Type} {m m' : Machine}

theorem sameOutcome_bind {x : Exec α} {f : α → Exec β} (hx : SameOutcome (x m) (x m'))
    (hf : ∀ a m₁ m₁', x m = .ok a m₁ → Alike m₁ m₁' → SameOutcome (f a m₁) (f a m₁')) :
    SameOutcome ((x >>= f) m) ((x >>= f) m') := by
  generalize hr : x m = r at hx
  generalize hr' : x m' = r' at hx
  cases hx with
  | ok a h =>
    rw [bind_ok hr, bind_ok hr']
    exact hf a _ _ hr h
  | error e h =>
    rw [bind_error hr, bind_error hr']
    exact .error e h

theorem sameOutcome_read (h : Alike m m') (addr : Address) (size : Size) {fc : FunctionCode}
    (user : fc.isSupervisor = false) :
    SameOutcome (read addr size fc m) (read addr size fc m') := by
  have hview := h.memory.view? addr size.bytes_pos user .read
  rw [read, read, h.isMisaligned]
  split
  · exact .error _ (h.withFault _)
  · rw [load_eq, load_eq, hview]
    cases m.memory.view? addr size.bytes fc .read with
    | none => exact .error _ ((h.withCycles _ _).withFault _)
    | some bytes => exact .ok _ (h.withCycles _ _)

theorem sameOutcome_write (h : Alike m m') (addr : Address) (size : Size) (value : UInt32)
    (fc : FunctionCode) :
    SameOutcome (write addr size value fc m) (write addr size value fc m') := by
  have hpos : 0 < (toBigEndian value size).length := by
    rw [length_toBigEndian]
    exact size.bytes_pos
  have hadmits := h.memory.congruent.admits addr hpos fc .write
  rw [write, write, h.isMisaligned]
  split
  · exact .error _ (h.withFault _)
  · cases hw : m.memory.admits addr (toBigEndian value size).length fc .write with
    | false =>
      rw [store_of_not_admits m _ _ _ hw, store_of_not_admits m' _ _ _ (hadmits.trans hw)]
      exact .error _ ((h.withCycles _ _).withFault _)
    | true =>
      rw [store_of_admits m _ _ _ hw, store_of_admits m' _ _ _ (hadmits.trans hw)]
      exact .ok _ ⟨h.user, h.model, h.regs, h.condition, h.opcode, h.fault,
        h.memory.patch addr _ hpos hw⟩

theorem sameOutcome_fetchWord (h : Alike m m') :
    SameOutcome (fetchWord m) (fetchWord m') := by
  obtain ⟨memory, instructionPc, cycles, rfl⟩ := h.exists_eq
  have hspace : programSpace { m with memory, instructionPc, cycles } = m.programSpace := rfl
  have user : m.programSpace.isSupervisor = false := by
    rw [programSpace, FunctionCode.isSupervisor_of, h.user]
  have hview : memory.view? m.regs.pc 2 m.programSpace .read =
      m.memory.view? m.regs.pc 2 m.programSpace .read :=
    h.memory.view? m.regs.pc Nat.two_pos user .read
  rw [fetchWord, fetchWord]
  split
  · exact .error _ (h.withFault _)
  · rw [load_eq, load_eq]
    simp only [Size.bytes, hspace, hview]
    cases m.memory.view? m.regs.pc 2 m.programSpace .read with
    | none => exact .error _ ⟨h.user, rfl, rfl, rfl, rfl, rfl, h.memory⟩
    | some bytes => exact .ok _ ⟨h.user, rfl, rfl, rfl, rfl, rfl, h.memory⟩

theorem Program.sameOutcome {x : Exec α} (hx : Program false x) (h : Alike m m') :
    SameOutcome (x m) (x m') := by
  induction hx generalizing m m' with
  | registers g hg =>
    obtain ⟨memory, instructionPc, cycles, rfl⟩ := h.exists_eq
    exact .ok _ (h.withRegs (hg m.regs))
  | throw e => exact .error e h
  | bind _ _ ihx ihf => exact sameOutcome_bind (ihx h) fun a m₁ m₁' _ h₁ => ihf a h₁
  | @get_bind β f _ blind ihf =>
    rw [bind_get, bind_get, blind m', h.blind, ← blind m]
    exact ihf m h.user h
  | read addr size user => exact sameOutcome_read h addr size user
  | write addr size value => exact sameOutcome_write h addr size value _
  | fetchWord => exact sameOutcome_fetchWord h

theorem program_admitInstruction {supervisor : Bool} (op : Opcode) :
    Program supervisor (admitInstruction op) := by
  refine .get_bind (fun m _ => ?_) fun _ => rfl
  split
  · next hd => exact .throw _ (isGroupZero_undecodable op)
  · next i hd =>
    split
    · exact .throw _ rfl
    · split
      · exact .throw _ rfl
      · exact .pure i

theorem sameOutcome_execute (op : Opcode) (h : Alike m m') :
    SameOutcome (execute op m) (execute op m') := by
  have hset (m : Machine) : (modify ({ · with opcode := op }) : Exec Unit) m =
      .ok () { m with opcode := op } := rfl
  have hopcode : Alike { m with opcode := op } { m' with opcode := op } :=
    ⟨h.user, h.model, h.regs, h.condition, rfl, h.fault, h.memory⟩
  rw [execute, bind_ok (hset m), bind_ok (hset m')]
  apply sameOutcome_bind ((program_admitInstruction op).sameOutcome hopcode)
  intro i m₁ m₁' hok h₁
  have hplain := isSystem_of_admit hopcode.user hok
  exact (program_executeInstruction i hplain).sameOutcome h₁

end Exec

namespace Machine

theorem sameOutcome_runInstruction {m m' : Machine} (h : Alike m m') :
    SameOutcome m.runInstruction m'.runInstruction := by
  have hpc : Alike { m with instructionPc := m.regs.pc } { m' with instructionPc := m'.regs.pc } :=
    ⟨h.user, h.model, h.regs, h.condition, h.opcode, h.fault, h.memory⟩
  exact Exec.sameOutcome_bind (Exec.sameOutcome_fetchWord hpc) fun op _ _ _ h₁ =>
    Exec.sameOutcome_execute op h₁

theorem Alike.afterInstruction {m m' : Machine} (h : Alike m m') :
    m'.afterInstruction.1 = m.afterInstruction.1 ∧
      Alike m.afterInstruction.2 m'.afterInstruction.2 := by
  have hrun := sameOutcome_runInstruction h
  rw [Machine.afterInstruction, Machine.afterInstruction]
  generalize m.runInstruction = r at hrun
  generalize m'.runInstruction = r' at hrun
  cases hrun with
  | ok a h₁ => exact ⟨by simp only [h.regs, h₁.condition], h₁⟩
  | error e h₁ => exact ⟨rfl, h₁⟩

end Machine

namespace Emulator

variable {e e' : Emulator}

theorem steps_of_alike (running : e.machine.condition = .normal)
    (plain : callNumber? e.machine.regs.pc = none) (alike : e.machine.Alike e'.machine) :
    ∃ exception m m', e.machine.afterInstruction = (exception, m) ∧
      e'.machine.afterInstruction = (exception, m') ∧ m.Alike m' ∧
      e.step.2.machine = exception.elim m m.raise ∧
      e'.step.2.machine = exception.elim m' m'.raise := by
  obtain ⟨hexception, hafter⟩ := alike.afterInstruction
  have hstep := e.machine_step running plain
  have hstep' := e'.machine_step (alike.condition.trans running) (by rw [alike.regs, plain])
  generalize e.machine.afterInstruction = left at *
  generalize e'.machine.afterInstruction = left' at *
  obtain ⟨_, m⟩ := left
  obtain ⟨exception, m'⟩ := left'
  obtain rfl := hexception
  refine ⟨exception, m, m', rfl, rfl, hafter, ?_, ?_⟩
  · rw [hstep]
    cases exception <;> rfl
  · rw [hstep']
    cases exception <;> rfl

/-- Steps of a user program that come to nothing but instructions: it neither calls the host nor
ends in an exception. -/
def Quiet : Nat → Emulator → Prop
  | 0, _ => True
  | limit + 1, e => e.machine.condition = .normal ∧ callNumber? e.machine.regs.pc = none ∧
    e.machine.afterInstruction.1 = none ∧ Quiet limit e.step.2

/-- While a program runs undisturbed, it cannot tell where it runs. -/
theorem alike_run {limit : Nat} (quiet : e.Quiet limit) (alike : e.machine.Alike e'.machine) :
    (e'.run limit).1 = (e.run limit).1 ∧
      (e.run limit).2.machine.Alike (e'.run limit).2.machine := by
  induction limit generalizing e e' with
  | zero => exact ⟨rfl, alike⟩
  | succ limit ih =>
    obtain ⟨running, plain, hnone, hrest⟩ := quiet
    obtain ⟨_, m, m', hafter, -, hstep, hm, hm'⟩ := steps_of_alike running plain alike
    rw [hafter] at hnone
    obtain rfl := hnone
    rw [Option.elim_none] at hm hm'
    rw [← hm, ← hm'] at hstep
    have hgoes : e'.step.1 = e.step.1 := by
      rw [step_fst, step_fst, isRunning, isRunning, hstep.condition]
    obtain ⟨hcount, hlast⟩ := ih hrest hstep
    rw [run_succ, run_succ, hgoes]
    split
    · exact ⟨by rw [hcount], hlast⟩
    · exact ⟨rfl, hstep⟩

/-- One step in user mode on two machines that agree on what user mode may read leaves them in
agreement, or ends in the same exception. -/
theorem step_noninterference (e e' : Emulator) (running : e.machine.condition = .normal)
    (plain : callNumber? e.machine.regs.pc = none) (alike : e.machine.Alike e'.machine) :
    (∃ m m', e.machine.afterInstruction = (none, m) ∧ e'.machine.afterInstruction = (none, m') ∧
      e.step.2.machine = m ∧ e'.step.2.machine = m' ∧ m.Alike m') ∨
    (∃ exception m m', e.machine.afterInstruction = (some exception, m) ∧
      e'.machine.afterInstruction = (some exception, m') ∧
      e.step.2.machine = m.raise exception ∧ e'.step.2.machine = m'.raise exception ∧
      m.Alike m') := by
  obtain ⟨exception, m, m', hafter, hafter', halike, hm, hm'⟩ := steps_of_alike running plain alike
  cases exception with
  | none => exact .inl ⟨m, m', hafter, hafter', hm, hm', halike⟩
  | some exception => exact .inr ⟨exception, m, m', hafter, hafter', hm, hm', halike⟩

/-- A word read from RAM that is the supervisor's: whatever lies there, a bus error. -/
theorem step_noninterference_busError :
    let ram : FlatMemory :=
      ⟨.ofList (List.replicate 64 0 ++ [0x30, 0x39, 0x00, 0x00, 0x00, 0x00]), 64⟩
    let m : Machine := { Machine.new .m68000 (.flat ram) with
      regs := { Registers.initial with sr := 0, pc := 64 } }
    let e : Emulator := ⟨m, .empty, []⟩
    let e' : Emulator := ⟨{ m with memory := m.memory.patch 0 [1, 2] }, .empty, []⟩
    e.machine.afterInstruction.1 = some .busError ∧
      e'.machine.afterInstruction.1 = some .busError := by
  intro ram m e e'
  have herror : e.machine.afterInstruction.1 = some .busError := by decide +kernel
  have hmemory : m.memory.Alike (m.memory.patch 0 [1, 2]) := by
    refine ⟨.flat (Bank.size_write _ _ _) rfl, ?_⟩
    rintro addr ⟨fc, user, hread⟩
    have habove := (FlatMemory.admits_iff.mp ((Memory.admits_flat _ _ _ _ _).symm.trans hread)).2
    rw [user, UInt32.le_iff_toNat_le] at habove
    have hlimit : ram.supervisorLimit.toNat = 64 := rfl
    exact Memory.byte?_patch m.memory 0 [1, 2] addr (.inr (by simp at habove ⊢; omega))
  refine ⟨herror, ?_⟩
  obtain ⟨_, _, h, -⟩ | ⟨exception, m₁, m₁', h, h', -⟩ :=
    step_noninterference e e' rfl (by decide +kernel)
      ⟨by decide +kernel, rfl, rfl, rfl, rfl, rfl, hmemory⟩
  · rw [h] at herror
    cases herror
  · rw [h']
    rw [h] at herror
    exact herror

end Emulator

end Mc68k
