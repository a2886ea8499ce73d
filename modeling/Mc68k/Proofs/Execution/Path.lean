import Mc68k.EffectiveAddress
import Mc68k.Proofs.Memory.Access
import Mc68k.Proofs.Registers

namespace Mc68k

namespace Machine

def cycle (m : Machine) (addr : Address) (n : Nat) (fc : FunctionCode) (access : Access) :
    BusCycle :=
  ⟨addr, n, fc, access, m.memory.view? addr n fc access⟩

/-- Reads and writes leave memory as it is until bytes are laid over it. -/
theorem request_eq (m : Machine) (addr : Address) (n : Nat) (fc : FunctionCode) {access : Access}
    (h : access ≠ .update) :
    m.request addr n fc access = (m.memory.view? addr n fc access,
      { m with cycles := m.cycle addr n fc access :: m.cycles }) := by
  have hu : (access == Access.update) = false := by simpa using h
  simp [request, Memory.request, hu, cycle]

theorem load_eq (m : Machine) (addr : Address) (size : Size) (fc : FunctionCode) :
    m.load addr size fc = ((m.memory.view? addr size.bytes fc .read).map ofBigEndian,
      { m with cycles := m.cycle addr size.bytes fc .read :: m.cycles }) := by
  rw [load, request_eq m addr size.bytes fc (by decide)]

theorem store_of_admits (m : Machine) (addr : Address) (bytes : List UInt8) (fc : FunctionCode)
    (h : m.memory.admits addr bytes.length fc .write = true) :
    m.store addr bytes fc = (true, { m with
      memory := m.memory.patch addr bytes
      cycles := m.cycle addr bytes.length fc .write :: m.cycles }) := by
  obtain ⟨found, hf⟩ := Option.isSome_iff_exists.mp h
  rw [store, request_eq m addr bytes.length fc (by decide), hf]

theorem store_of_not_admits (m : Machine) (addr : Address) (bytes : List UInt8)
    (fc : FunctionCode) (h : m.memory.admits addr bytes.length fc .write = false) :
    m.store addr bytes fc =
      (false, { m with cycles := m.cycle addr bytes.length fc .write :: m.cycles }) := by
  rw [store, request_eq m addr bytes.length fc (by decide), Memory.admits_eq_false_iff.mp h]

theorem store_frame (m : Machine) (addr : Address) (bytes : List UInt8) (fc : FunctionCode) :
    ∃ written memory cycles, m.store addr bytes fc = (written, { m with memory, cycles }) := by
  cases hw : m.memory.admits addr bytes.length fc .write with
  | true => exact ⟨_, _, _, m.store_of_admits addr bytes fc hw⟩
  | false => exact ⟨_, _, _, m.store_of_not_admits addr bytes fc hw⟩

/-- One step of a computation at a privilege. -/
inductive Step (supervisor : Bool) : Machine → Machine → Prop
  | registers {m : Machine} (r : Registers) (h : m.regs.SameSystem r) :
    Step supervisor m { m with regs := r }
  | read {m : Machine} (addr : Address) (size : Size) (fc : FunctionCode)
    (hs : fc.isSupervisor = supervisor) (ha : m.isMisaligned addr size = false)
    (h : m.memory.admits addr size.bytes fc .read = true) :
    Step supervisor m { m with cycles := m.cycle addr size.bytes fc .read :: m.cycles }
  | write {m : Machine} (addr : Address) (size : Size) (value : UInt32)
    (ha : m.isMisaligned addr size = false)
    (h : m.memory.admits addr size.bytes (.of supervisor false) .write = true) :
    Step supervisor m { m with
      memory := m.memory.patch addr (toBigEndian value size)
      cycles := m.cycle addr size.bytes (.of supervisor false) .write :: m.cycles }

/-- How a computation at a privilege may end early. -/
inductive Failure (supervisor : Bool) : Exception → Machine → Machine → Prop
  | misaligned {m : Machine} (addr : Address) (size : Size) (fc : FunctionCode) (write : Bool)
    (hs : fc.isSupervisor = supervisor) (ha : m.isMisaligned addr size = true) :
    Failure supervisor .addressError m { m with fault := ⟨addr, fc, write, fc.isProgram⟩ }
  | oddPc {m : Machine} (h : m.regs.pc &&& 1 ≠ 0) :
    Failure supervisor .addressError m
      { m with fault := ⟨m.regs.pc, m.programSpace, false, m.programSpace.isProgram⟩ }
  | refused {m : Machine} (addr : Address) (n : Nat) (fc : FunctionCode) (access : Access)
    (hs : fc.isSupervisor = supervisor) (hu : access ≠ .update)
    (h : m.memory.admits addr n fc access = false) :
    Failure supervisor .busError m { m with
      cycles := m.cycle addr n fc access :: m.cycles
      fault := ⟨addr, fc, access.writes, fc.isProgram⟩ }
  | thrown {m : Machine} (e : Exception) (h : e.isGroupZero = false) : Failure supervisor e m m

inductive Path (supervisor : Bool) : Machine → Machine → Prop
  | refl (m : Machine) : Path supervisor m m
  | step {m m' m'' : Machine} (h : Path supervisor m m') (h' : Step supervisor m' m'') :
    Path supervisor m m''

variable {supervisor : Bool}

theorem Path.trans {m m' m'' : Machine} (h : Path supervisor m m')
    (h' : Path supervisor m' m'') : Path supervisor m m'' := by
  induction h' with
  | refl => exact h
  | step _ hs ih => exact ih.step hs

theorem Step.isSupervisor {m m' : Machine} (h : Step supervisor m m') :
    m'.regs.isSupervisor = m.regs.isSupervisor := by
  cases h with
  | registers r h => exact h.isSupervisor
  | read => rfl
  | write => rfl

theorem Path.isSupervisor {m m' : Machine} (h : Path supervisor m m') :
    m'.regs.isSupervisor = m.regs.isSupervisor := by
  induction h with
  | refl => rfl
  | step _ hs ih => exact hs.isSupervisor.trans ih

theorem Path.opcode {m m' : Machine} (h : Path supervisor m m') : m'.opcode = m.opcode := by
  induction h with
  | refl => rfl
  | step _ hs ih =>
    cases hs with
    | registers r h => exact ih
    | read addr size fc hs ha h => exact ih
    | write addr size value ha h => exact ih

def blind (m : Machine) : Machine :=
  { Machine.new m.model (.flat (.new 0 0)) with regs := m.regs, opcode := m.opcode }

/-- What a computation from a machine came to is a path, and a failure if it failed. -/
inductive Outcome (supervisor : Bool) {α : Type} (m : Machine) :
    EStateM.Result Exception Machine α → Prop
  | ok {a : α} {m' : Machine} (h : Path supervisor m m') : Outcome supervisor m (.ok a m')
  | error {e : Exception} {m' m'' : Machine} (h : Path supervisor m m')
    (h' : Failure supervisor e m' m'') : Outcome supervisor m (.error e m'')

/-- What a computation left when it ended, by itself or early. -/
def left {ε α : Type} : EStateM.Result ε Machine α → Machine
  | .ok _ m => m
  | .error _ m => m

theorem exists_ok_left {ε α : Type} {r : EStateM.Result ε Machine α} (h : r matches .ok _ _) :
    ∃ a, r = .ok a (left r) := by
  cases r with
  | ok a m => exact ⟨a, rfl⟩
  | error e m => cases h

theorem exists_error_left {ε α : Type} {r : EStateM.Result ε Machine α}
    (h : r matches .error _ _) : ∃ e, r = .error e (left r) := by
  cases r with
  | ok a m => cases h
  | error e m => exact ⟨e, rfl⟩

theorem eq_ok_left {ε : Type} {r : EStateM.Result ε Machine Unit} (h : r matches .ok _ _) :
    r = .ok () (left r) := by
  cases r with
  | ok a m => rfl
  | error e m => cases h

end Machine

namespace Exec

open Machine

theorem bind_ok {ε α β : Type} {x : EStateM ε Machine α} {f : α → EStateM ε Machine β}
    {m m' : Machine} {a : α} (h : x m = .ok a m') : (x >>= f) m = f a m' := by
  simp [bind, EStateM.bind, h]

theorem bind_error {ε α β : Type} {x : EStateM ε Machine α} {f : α → EStateM ε Machine β}
    {m m' : Machine} {e : ε} (h : x m = .error e m') : (x >>= f) m = .error e m' := by
  simp [bind, EStateM.bind, h]

theorem exists_of_bind_ok {α β : Type} {x : Exec α} {f : α → Exec β} {m m'' : Machine} {b : β}
    (h : (x >>= f) m = .ok b m'') : ∃ a m', x m = .ok a m' ∧ f a m' = .ok b m'' := by
  cases hr : x m with
  | error e m' =>
    rw [bind_error hr] at h
    cases h
  | ok a m' =>
    rw [bind_ok hr] at h
    exact ⟨a, m', rfl, h⟩

theorem bind_congr {α β : Type} {x : Exec α} {f g : α → Exec β} {m : Machine}
    (h : ∀ a m', x m = .ok a m' → f a m' = g a m') : (x >>= f) m = (x >>= g) m := by
  cases hr : x m with
  | error e m' => rw [bind_error hr, bind_error hr]
  | ok a m' => rw [bind_ok hr, bind_ok hr, h a m' hr]

theorem bind_eq_of_eq {α β : Type} {x y : Exec α} {f : α → Exec β} {m : Machine}
    (h : x m = y m) : (x >>= f) m = (y >>= f) m := by
  simp only [bind, EStateM.bind, h]

theorem bind_get {β : Type} (f : Machine → Exec β) (m : Machine) : (get >>= f) m = f m m := rfl

theorem bind_regs {β : Type} (f : Registers → Exec β) (m : Machine) :
    (Exec.regs >>= f) m = f m.regs m := rfl

theorem bind_modify {β : Type} (g : Machine → Machine) (f : Unit → Exec β) (m : Machine) :
    (modify g >>= f) m = f () (g m) := rfl

theorem read_cases (addr : Address) (size : Size) (fc : FunctionCode) (m : Machine) :
    m.isMisaligned addr size = true ∧ Exec.read addr size fc m =
      .error .addressError { m with fault := ⟨addr, fc, false, fc.isProgram⟩ } ∨
    m.isMisaligned addr size = false ∧ m.memory.view? addr size.bytes fc .read = none ∧
      Exec.read addr size fc m = .error .busError { m with
        cycles := m.cycle addr size.bytes fc .read :: m.cycles
        fault := ⟨addr, fc, false, fc.isProgram⟩ } ∨
    ∃ bytes, m.isMisaligned addr size = false ∧
      m.memory.view? addr size.bytes fc .read = some bytes ∧
      Exec.read addr size fc m = .ok (ofBigEndian bytes)
        { m with cycles := m.cycle addr size.bytes fc .read :: m.cycles } := by
  rw [Exec.read]
  cases ha : m.isMisaligned addr size with
  | true => exact .inl ⟨rfl, rfl⟩
  | false =>
    rw [load_eq]
    cases hv : m.memory.view? addr size.bytes fc .read with
    | none => exact .inr (.inl ⟨rfl, rfl, rfl⟩)
    | some bytes => exact .inr (.inr ⟨bytes, rfl, rfl, rfl⟩)

theorem read_of_view? {addr : Address} {size : Size} {fc : FunctionCode} {bytes : List UInt8}
    {m : Machine} (ha : m.isMisaligned addr size = false)
    (hview : m.memory.view? addr size.bytes fc .read = some bytes) :
    Exec.read addr size fc m = .ok (ofBigEndian bytes)
      { m with cycles := m.cycle addr size.bytes fc .read :: m.cycles } := by
  rw [Exec.read, if_neg (by simp [ha]), load_eq, hview]
  rfl

theorem write_cases (addr : Address) (size : Size) (value : UInt32) (fc : FunctionCode)
    (m : Machine) :
    m.isMisaligned addr size = true ∧ Exec.write addr size value fc m =
      .error .addressError { m with fault := ⟨addr, fc, true, fc.isProgram⟩ } ∨
    m.isMisaligned addr size = false ∧ m.memory.admits addr size.bytes fc .write = false ∧
      Exec.write addr size value fc m = .error .busError { m with
        cycles := m.cycle addr size.bytes fc .write :: m.cycles
        fault := ⟨addr, fc, true, fc.isProgram⟩ } ∨
    m.isMisaligned addr size = false ∧ m.memory.admits addr size.bytes fc .write = true ∧
      Exec.write addr size value fc m = .ok () { m with
        memory := m.memory.patch addr (toBigEndian value size)
        cycles := m.cycle addr size.bytes fc .write :: m.cycles } := by
  have hn := length_toBigEndian value size
  rw [Exec.write]
  cases ha : m.isMisaligned addr size with
  | true => exact .inl ⟨rfl, rfl⟩
  | false =>
    cases hw : m.memory.admits addr size.bytes fc .write with
    | false =>
      rw [store_of_not_admits m addr _ _ (by rw [hn]; exact hw), hn]
      exact .inr (.inl ⟨rfl, rfl, rfl⟩)
    | true =>
      rw [store_of_admits m addr _ _ (by rw [hn]; exact hw), hn]
      exact .inr (.inr ⟨rfl, rfl, rfl⟩)

theorem writeData_eq_ok {addr : Address} {size : Size} {value : UInt32} {m m' : Machine}
    (h : writeData addr size value m = .ok () m') :
    m.isMisaligned addr size = false ∧
      m.memory.admits addr size.bytes m.dataSpace .write = true ∧
      m' = { m with
        memory := m.memory.patch addr (toBigEndian value size)
        cycles := m.cycle addr size.bytes m.dataSpace .write :: m.cycles } := by
  rw [writeData, bind_get] at h
  obtain ⟨-, hwrite⟩ | ⟨-, -, hwrite⟩ | ⟨ha, hw, hwrite⟩ :=
    write_cases addr size value m.dataSpace m
  · rw [hwrite] at h
    cases h
  · rw [hwrite] at h
    cases h
  · rw [hwrite] at h
    cases h
    exact ⟨ha, hw, rfl⟩

theorem memory_of_writeData_error {addr : Address} {size : Size} {value : UInt32} {m m' : Machine}
    {e : Exception} (h : writeData addr size value m = .error e m') : m'.memory = m.memory := by
  rw [writeData, bind_get] at h
  obtain ⟨-, hwrite⟩ | ⟨-, -, hwrite⟩ | ⟨-, -, hwrite⟩ := write_cases addr size value m.dataSpace m
  · rw [hwrite] at h
    cases h
    rfl
  · rw [hwrite] at h
    cases h
    rfl
  · rw [hwrite] at h
    cases h

theorem fetchWord_cases (m : Machine) :
    m.regs.pc &&& 1 ≠ 0 ∧ Exec.fetchWord m = .error .addressError
      { m with fault := ⟨m.regs.pc, m.programSpace, false, m.programSpace.isProgram⟩ } ∨
    m.regs.pc &&& 1 = 0 ∧ m.memory.view? m.regs.pc 2 m.programSpace .read = none ∧
      Exec.fetchWord m = .error .busError { m with
        cycles := m.cycle m.regs.pc 2 m.programSpace .read :: m.cycles
        fault := ⟨m.regs.pc, m.programSpace, false, m.programSpace.isProgram⟩ } ∨
    ∃ bytes, m.regs.pc &&& 1 = 0 ∧
      m.memory.view? m.regs.pc 2 m.programSpace .read = some bytes ∧
      Exec.fetchWord m = .ok (ofBigEndian bytes).toUInt16 { m with
        regs := { m.regs with pc := m.regs.pc + 2 }
        cycles := m.cycle m.regs.pc 2 m.programSpace .read :: m.cycles } := by
  rw [Exec.fetchWord]
  by_cases ha : m.regs.pc &&& 1 = 0
  · rw [if_neg (by simpa using ha), load_eq]
    cases hv : m.memory.view? m.regs.pc 2 m.programSpace .read with
    | none =>
      rw [Size.bytes, hv]
      exact .inr (.inl ⟨ha, rfl, rfl⟩)
    | some bytes =>
      rw [Size.bytes, hv]
      exact .inr (.inr ⟨bytes, ha, rfl, rfl⟩)
  · rw [if_pos (by simpa using ha)]
    exact .inl ⟨ha, rfl⟩

theorem fetchWord_eq_ok {word : UInt16} {m m' : Machine} (h : Exec.fetchWord m = .ok word m') :
    ∃ bytes, m.regs.pc &&& 1 = 0 ∧
      m.memory.view? m.regs.pc 2 m.programSpace .read = some bytes ∧
      word = (ofBigEndian bytes).toUInt16 ∧ m' = { m with
        regs := { m.regs with pc := m.regs.pc + 2 }
        cycles := m.cycle m.regs.pc 2 m.programSpace .read :: m.cycles } := by
  obtain ⟨-, hfetch⟩ | ⟨-, -, hfetch⟩ | ⟨bytes, ha, hv, hfetch⟩ := fetchWord_cases m
  · cases h.symm.trans hfetch
  · cases h.symm.trans hfetch
  · obtain ⟨rfl, rfl⟩ := EStateM.Result.ok.inj (h.symm.trans hfetch)
    exact ⟨bytes, ha, hv, rfl, rfl⟩

theorem fetchWord_of_view? {m : Machine} {bytes : List UInt8} (even : m.regs.pc &&& 1 = 0)
    (h : m.memory.view? m.regs.pc 2 m.programSpace .read = some bytes) :
    Exec.fetchWord m = .ok (ofBigEndian bytes).toUInt16 { m with
      regs := { m.regs with pc := m.regs.pc + 2 }
      cycles := m.cycle m.regs.pc 2 m.programSpace .read :: m.cycles } := by
  rw [Exec.fetchWord, if_neg (by simp [even]), load_eq, Size.bytes, h]
  rfl

/-- A computation that takes nothing but steps of a privilege from machines of that privilege. -/
def Runs (supervisor : Bool) {α : Type} (x : Exec α) : Prop :=
  ∀ m : Machine, m.regs.isSupervisor = supervisor → Outcome supervisor m (x m)

namespace Runs

variable {supervisor : Bool} {α β : Type}

theorem registers (g : Registers → α × Registers) (h : ∀ r : Registers, r.SameSystem (g r).2) :
    Runs supervisor (fun m => .ok (g m.regs).1 { m with regs := (g m.regs).2 } : Exec α) :=
  fun m _ => .ok ((Machine.Path.refl m).step (.registers _ (h m.regs)))

theorem throw (e : Exception) (h : e.isGroupZero = false) :
    Runs supervisor (MonadExcept.throw e : Exec α) :=
  fun m _ => .error (.refl m) (.thrown e h)

theorem bind {x : Exec α} {f : α → Exec β} (hx : Runs supervisor x)
    (hf : ∀ a, Runs supervisor (f a)) : Runs supervisor (x >>= f) := by
  intro m hm
  have ho := hx m hm
  cases hr : x m with
  | error e m' =>
    rw [hr] at ho
    rw [bind_error hr]
    cases ho with
    | error h h' => exact .error h h'
  | ok a m' =>
    rw [hr] at ho
    rw [bind_ok hr]
    cases ho with
    | ok h =>
      have ho' := hf a m' (h.isSupervisor.trans hm)
      cases hr' : f a m' with
      | error e m'' =>
        rw [hr'] at ho'
        cases ho' with
        | error k k' => exact .error (h.trans k) k'
      | ok b m'' =>
        rw [hr'] at ho'
        cases ho' with
        | ok k => exact .ok (h.trans k)

theorem get_bind {f : Machine → Exec β}
    (hf : ∀ m : Machine, m.regs.isSupervisor = supervisor → Runs supervisor (f m)) :
    Runs supervisor (get >>= f) :=
  fun m hm => hf m hm m hm

theorem read (addr : Address) (size : Size) {fc : FunctionCode}
    (hs : fc.isSupervisor = supervisor) : Runs supervisor (Exec.read addr size fc) := by
  intro m _
  obtain ⟨ha, hread⟩ | ⟨-, hv, hread⟩ | ⟨bytes, ha, hv, hread⟩ := read_cases addr size fc m
  · rw [hread]
    exact .error (.refl m) (.misaligned addr size fc false hs ha)
  · rw [hread]
    have h := Memory.admits_eq_false_iff.mpr hv
    exact .error (.refl m) (.refused addr size.bytes fc .read hs (by decide) h)
  · rw [hread]
    exact .ok ((Machine.Path.refl m).step (.read addr size fc hs ha (Memory.admits_of_view? hv)))

theorem write (addr : Address) (size : Size) (value : UInt32) :
    Runs supervisor (Exec.write addr size value (.of supervisor false)) := by
  intro m _
  have hs := FunctionCode.isSupervisor_of supervisor false
  obtain ⟨ha, hwrite⟩ | ⟨-, h, hwrite⟩ | ⟨ha, h, hwrite⟩ :=
    write_cases addr size value (.of supervisor false) m
  · rw [hwrite]
    exact .error (.refl m) (.misaligned addr size _ true hs ha)
  · rw [hwrite]
    exact .error (.refl m) (.refused addr size.bytes _ .write hs (by decide) h)
  · rw [hwrite]
    exact .ok ((Machine.Path.refl m).step (.write addr size value ha h))

theorem fetchWord : Runs supervisor Exec.fetchWord := by
  intro m hm
  have hs : m.programSpace.isSupervisor = supervisor := by
    rw [Machine.programSpace, FunctionCode.isSupervisor_of, hm]
  obtain ⟨h, hfetch⟩ | ⟨-, hv, hfetch⟩ | ⟨bytes, ha, hv, hfetch⟩ := fetchWord_cases m
  · rw [hfetch]
    exact .error (.refl m) (.oddPc h)
  · rw [hfetch]
    have h := Memory.admits_eq_false_iff.mpr hv
    exact .error (.refl m) (.refused m.regs.pc 2 _ .read hs (by decide) h)
  · rw [hfetch]
    have haligned : m.isMisaligned m.regs.pc .word = false := by
      simp [Machine.isMisaligned, ha]
    have hread := (Machine.Path.refl m).step
      (.read m.regs.pc .word m.programSpace hs haligned (Memory.admits_of_view? hv))
    exact .ok (hread.step (.registers _ (Registers.SameSystem.withPc _ _)))

end Runs

/-- Computations put together from steps of a privilege. A look at the machine shows its model,
registers and opcode; what is in memory shows only when it is read. -/
inductive Program (supervisor : Bool) : {α : Type} → Exec α → Prop
  | registers {α : Type} (g : Registers → α × Registers)
    (h : ∀ r : Registers, r.SameSystem (g r).2) :
    Program supervisor (fun m => .ok (g m.regs).1 { m with regs := (g m.regs).2 } : Exec α)
  | throw {α : Type} (e : Exception) (h : e.isGroupZero = false) :
    Program supervisor (MonadExcept.throw e : Exec α)
  | bind {α β : Type} {x : Exec α} {f : α → Exec β} (hx : Program supervisor x)
    (hf : ∀ a, Program supervisor (f a)) : Program supervisor (x >>= f)
  | get_bind {β : Type} {f : Machine → Exec β}
    (hf : ∀ m : Machine, m.regs.isSupervisor = supervisor → Program supervisor (f m))
    (blind : ∀ m : Machine, f m = f m.blind) : Program supervisor (get >>= f)
  | read (addr : Address) (size : Size) {fc : FunctionCode} (hs : fc.isSupervisor = supervisor) :
    Program supervisor (Exec.read addr size fc)
  | write (addr : Address) (size : Size) (value : UInt32) :
    Program supervisor (Exec.write addr size value (.of supervisor false))
  | fetchWord : Program supervisor Exec.fetchWord

namespace Program

variable {supervisor : Bool} {α β : Type}

theorem runs {x : Exec α} (h : Program supervisor x) : Runs supervisor x := by
  induction h with
  | registers g h => exact .registers g h
  | throw e h => exact .throw e h
  | bind _ _ hx hf => exact .bind hx hf
  | get_bind _ _ hf => exact .get_bind hf
  | read addr size hs => exact .read addr size hs
  | write addr size value => exact .write addr size value
  | fetchWord => exact .fetchWord

theorem path_of_ok {x : Exec α} {m m' : Machine} {a : α} (h : Program m.regs.isSupervisor x)
    (hr : x m = .ok a m') : Path m.regs.isSupervisor m m' := by
  have hout := h.runs m rfl
  rw [hr] at hout
  cases hout with
  | ok hpath => exact hpath

theorem pure (a : α) : Program supervisor (Pure.pure a : Exec α) :=
  .registers (fun r => (a, r)) fun r => .refl r

theorem regs : Program supervisor Exec.regs :=
  .registers (fun r => (r, r)) fun r => .refl r

theorem modifyRegs {f : Registers → Registers} (hf : ∀ r : Registers, r.SameSystem (f r)) :
    Program supervisor (Exec.modifyRegs f) :=
  .registers (fun r => ((), f r)) hf

theorem throw_bind (e : Exception) (f : α → Exec β) (h : e.isGroupZero = false) :
    Program supervisor (MonadExcept.throw e >>= f) :=
  throw e h

theorem ite {c : Prop} [Decidable c] {x y : Exec α} (hx : Program supervisor x)
    (hy : Program supervisor y) : Program supervisor (if c then x else y) := by
  split
  · exact hx
  · exact hy

end Program

end Exec

end Mc68k
