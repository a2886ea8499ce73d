import Mc68k.Proofs.Execution.Path
import Mc68k.Proofs.Untraced

namespace Mc68k

namespace Machine

def veiled (m : Machine) : Machine := m.blind.untraced

@[simp] theorem dataSpace_veiled (m : Machine) : m.veiled.dataSpace = m.dataSpace :=
  m.dataSpace_untraced

@[simp] theorem programSpace_veiled (m : Machine) : m.veiled.programSpace = m.programSpace :=
  m.programSpace_untraced

@[simp] theorem regs_veiled (m : Machine) : m.veiled.regs = m.regs.untraced := rfl

@[simp] theorem opcode_veiled (m : Machine) : m.veiled.opcode = m.opcode := rfl

@[simp] theorem model_veiled (m : Machine) : m.veiled.model = m.model := rfl

theorem isSupervisor_of_untraced_eq {m m' : Machine} (h : m'.untraced = m.untraced) :
    m'.regs.isSupervisor = m.regs.isSupervisor := by
  rw [← m'.regs.isSupervisor_untraced, ← m.regs.isSupervisor_untraced]
  exact congrArg (·.regs.isSupervisor) h

def untracedResult {α : Type} :
    EStateM.Result Exception Machine α → EStateM.Result Exception Machine α
  | .ok a m => .ok a m.untraced
  | .error e m => .error e m.untraced

end Machine

namespace Exec

open Machine

variable {α β : Type}

/-- From a machine, T1 makes no difference to a computation but in T1 itself. -/
def TraceFree (x : Exec α) (m : Machine) : Prop :=
  untracedResult (x m.untraced) = untracedResult (x m)

namespace TraceFree

variable {m : Machine}

theorem of_ok {x : Exec α} (h : TraceFree x m) {a : α} {n : Machine}
    (hr : x m.untraced = .ok a n) : ∃ n', x m = .ok a n' ∧ n'.untraced = n.untraced := by
  rw [TraceFree, hr] at h
  cases hx : x m with
  | error e n' =>
    rw [hx] at h
    cases h
  | ok a' n' =>
    rw [hx] at h
    obtain ⟨rfl, heq⟩ := EStateM.Result.ok.inj h
    exact ⟨n', rfl, heq.symm⟩

theorem of_error {x : Exec α} (h : TraceFree x m) {e : Exception} {n : Machine}
    (hr : x m.untraced = .error e n) : ∃ n', x m = .error e n' ∧ n'.untraced = n.untraced := by
  rw [TraceFree, hr] at h
  cases hx : x m with
  | ok a n' =>
    rw [hx] at h
    cases h
  | error e' n' =>
    rw [hx] at h
    obtain ⟨rfl, heq⟩ := EStateM.Result.error.inj h
    exact ⟨n', rfl, heq.symm⟩

theorem bind {x : Exec α} {f : α → Exec β} (hx : TraceFree x m)
    (hf : ∀ a n, x m.untraced = .ok a n → ∀ n', n'.untraced = n.untraced →
      TraceFree (f a) n') : TraceFree (x >>= f) m := by
  -- Either run may have T1 set after the first part; both are compared with one that has it clear.
  rw [TraceFree]
  cases hr : x m.untraced with
  | error e n =>
    obtain ⟨n', hr', heq⟩ := hx.of_error hr
    rw [bind_error hr, bind_error hr', untracedResult, untracedResult, heq]
  | ok a n =>
    obtain ⟨n', hr', heq⟩ := hx.of_ok hr
    have hfirst : untracedResult (f a n.untraced) = untracedResult (f a n) := hf a n hr n rfl
    have hsecond : untracedResult (f a n'.untraced) = untracedResult (f a n') := hf a n hr n' heq
    rw [bind_ok hr, bind_ok hr', ← hfirst, ← hsecond, heq]

theorem get_bind {f : Machine → Exec β} (hf : TraceFree (f m) m)
    (hsame : f m.untraced = f m) : TraceFree (get >>= f) m := by
  rw [TraceFree, Exec.bind_get, Exec.bind_get, hsame]
  exact hf

theorem regs_bind {f : Registers → Exec β} (hf : TraceFree (f m.regs) m)
    (hsame : f m.regs.untraced = f m.regs) : TraceFree (Exec.regs >>= f) m := by
  rw [TraceFree, Exec.bind_regs, Exec.bind_regs, regs_untraced, hsame]
  exact hf

theorem modifyMachine {g : Machine → Machine} (h : (g m.untraced).untraced = (g m).untraced) :
    TraceFree (modify g) m :=
  congrArg (EStateM.Result.ok ()) h

theorem registers {g : Registers → α × Registers} (hvalue : (g m.regs.untraced).1 = (g m.regs).1)
    (hregs : (g m.regs.untraced).2.untraced = (g m.regs).2.untraced) :
    TraceFree (fun m => .ok (g m.regs).1 { m with regs := (g m.regs).2 } : Exec α) m := by
  simp only [TraceFree, untracedResult, regs_untraced, hvalue]
  simp only [Machine.untraced, hregs]

theorem modifyRegs {f : Registers → Registers}
    (h : (f m.regs.untraced).untraced = (f m.regs).untraced) : TraceFree (Exec.modifyRegs f) m :=
  registers (g := fun r => ((), f r)) rfl h

theorem pure (a : α) : TraceFree (Pure.pure a : Exec α) m :=
  congrArg (EStateM.Result.ok a) m.untraced_untraced

theorem throw (e : Exception) : TraceFree (MonadExcept.throw e : Exec α) m :=
  congrArg (EStateM.Result.error e) m.untraced_untraced

theorem ite {c : Prop} [Decidable c] {x y : Exec α} (hx : TraceFree x m)
    (hy : TraceFree y m) : TraceFree (if c then x else y) m := by
  split
  · exact hx
  · exact hy

theorem read (addr : Address) (size : Size) (fc : FunctionCode) :
    TraceFree (Exec.read addr size fc) m := by
  have ha : m.untraced.isMisaligned addr size = m.isMisaligned addr size := rfl
  have hview : m.untraced.memory.view? addr size.bytes fc .read =
    m.memory.view? addr size.bytes fc .read := rfl
  rw [TraceFree, Exec.read, Exec.read, load_eq, load_eq, ha, hview]
  split
  · simp [fail, untracedResult, Machine.untraced]
  · cases m.memory.view? addr size.bytes fc .read with
    | none => simp [fail, untracedResult, Machine.untraced, cycle]
    | some bytes => simp [untracedResult, Machine.untraced, cycle]

theorem write (addr : Address) (size : Size) (value : UInt32) (fc : FunctionCode) :
    TraceFree (Exec.write addr size value fc) m := by
  have ha : m.untraced.isMisaligned addr size = m.isMisaligned addr size := rfl
  rw [TraceFree, Exec.write, Exec.write, ha]
  split
  · simp [fail, untracedResult, Machine.untraced]
  · cases h : m.memory.admits addr (toBigEndian value size).length fc .write with
    | false =>
      rw [store_of_not_admits m addr _ fc h, store_of_not_admits m.untraced addr _ fc h]
      simp [fail, untracedResult, Machine.untraced, cycle]
    | true =>
      rw [store_of_admits m addr _ fc h, store_of_admits m.untraced addr _ fc h]
      simp [untracedResult, Machine.untraced, cycle]

theorem fetchWord : TraceFree Exec.fetchWord m := by
  have hpc : m.untraced.regs.pc = m.regs.pc := rfl
  have hmemory : m.untraced.memory = m.memory := rfl
  rw [TraceFree, Exec.fetchWord, Exec.fetchWord, load_eq, load_eq, hpc, hmemory,
    programSpace_untraced]
  split
  · simp [fail, untracedResult, Machine.untraced]
  · cases m.memory.view? m.regs.pc Size.word.bytes m.programSpace .read with
    | none => simp [fail, untracedResult, Machine.untraced, cycle, programSpace]
    | some bytes =>
      simp [untracedResult, Machine.untraced, Registers.untraced, cycle]

end TraceFree

/-- A program that never looks at T1. -/
structure Steady (supervisor : Bool) (x : Exec α) : Prop where
  program : Program supervisor x
  traceFree {m : Machine} : m.regs.isSupervisor = supervisor → TraceFree x m

namespace Steady

variable {supervisor : Bool}

theorem registers (g : Registers → α × Registers) (h : ∀ r : Registers, r.SameSystem (g r).2)
    (hvalue : ∀ r : Registers, (g r.untraced).1 = (g r).1)
    (hregs : ∀ r : Registers, (g r.untraced).2.untraced = (g r).2.untraced) :
    Steady supervisor (fun m => .ok (g m.regs).1 { m with regs := (g m.regs).2 } : Exec α) :=
  ⟨.registers g h, fun {m} _ => .registers (hvalue m.regs) (hregs m.regs)⟩

theorem throw (e : Exception) (h : e.isGroupZero = false) :
    Steady supervisor (MonadExcept.throw e : Exec α) :=
  ⟨.throw e h, fun _ => .throw e⟩

theorem bind {x : Exec α} {f : α → Exec β} (hx : Steady supervisor x)
    (hf : ∀ a, Steady supervisor (f a)) : Steady supervisor (x >>= f) := by
  refine ⟨.bind hx.program fun a => (hf a).program, ?_⟩
  intro m hs
  refine (hx.traceFree hs).bind ?_
  intro a n h n' heq
  have hs' : m.untraced.regs.isSupervisor = supervisor :=
    m.regs.isSupervisor_untraced.trans hs
  have houtcome := hx.program.runs m.untraced hs'
  rw [h] at houtcome
  cases houtcome with
  | ok hpath =>
    exact (hf a).traceFree ((isSupervisor_of_untraced_eq heq).trans (hpath.isSupervisor.trans hs'))

theorem throw_bind (e : Exception) (f : α → Exec β) (h : e.isGroupZero = false) :
    Steady supervisor (MonadExcept.throw e >>= f) :=
  throw e h

theorem get_bind {f : Machine → Exec β}
    (hf : ∀ m : Machine, m.regs.isSupervisor = supervisor → Steady supervisor (f m))
    (veiled : ∀ m : Machine, f m = f m.veiled) : Steady supervisor (get >>= f) := by
  have huntraced (m : Machine) : f m.untraced = f m := by
    have hsame : m.untraced.veiled = m.veiled := m.blind.untraced_untraced
    rw [veiled m.untraced, hsame, ← veiled m]
  refine ⟨.get_bind (fun m hs => (hf m hs).program) fun m => ?_, fun {m} hs => ?_⟩
  · exact (veiled m).trans (huntraced m.blind)
  · exact .get_bind ((hf m hs).traceFree hs) (huntraced m)

theorem regs_bind {f : Registers → Exec β} (hf : ∀ r, Steady supervisor (f r))
    (hsame : ∀ r : Registers, f r.untraced = f r) : Steady supervisor (Exec.regs >>= f) :=
  ⟨.bind .regs fun r => (hf r).program,
    fun {m} hs => .regs_bind ((hf m.regs).traceFree hs) (hsame m.regs)⟩

theorem read (addr : Address) (size : Size) {fc : FunctionCode}
    (hs : fc.isSupervisor = supervisor) : Steady supervisor (Exec.read addr size fc) :=
  ⟨.read addr size hs, fun _ => .read addr size fc⟩

theorem write (addr : Address) (size : Size) (value : UInt32) :
    Steady supervisor (Exec.write addr size value (.of supervisor false)) :=
  ⟨.write addr size value, fun _ => .write addr size value _⟩

theorem fetchWord : Steady supervisor Exec.fetchWord := ⟨.fetchWord, fun _ => .fetchWord⟩

theorem pure (a : α) : Steady supervisor (Pure.pure a : Exec α) := ⟨.pure a, fun _ => .pure a⟩

theorem modifyRegs {f : Registers → Registers} (hf : ∀ r : Registers, r.SameSystem (f r))
    (hregs : ∀ r : Registers, (f r.untraced).untraced = (f r).untraced) :
    Steady supervisor (Exec.modifyRegs f) :=
  ⟨.modifyRegs hf, fun {m} _ => .modifyRegs (hregs m.regs)⟩

theorem ite {c : Prop} [Decidable c] {x y : Exec α} (hx : Steady supervisor x)
    (hy : Steady supervisor y) : Steady supervisor (if c then x else y) := by
  split
  · exact hx
  · exact hy

end Steady

end Exec

end Mc68k
