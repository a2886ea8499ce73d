import Mc68k.Proofs.Execution.Steady

namespace Mc68k

theorem Model.le_trans {a b c : Model} (h : a ≤ b) (h' : b ≤ c) : a ≤ c := Nat.le_trans h h'

theorem Model.decide_le_mono {first a b : Model} (h : a ≤ b) (ha : decide (first ≤ a) = true) :
    decide (first ≤ b) = true :=
  decide_eq_true (Model.le_trans (of_decide_eq_true ha) h)

namespace Machine

def on (m : Machine) (model : Model) : Machine := { m with model }

@[simp] theorem on_model (m : Machine) (model : Model) : (m.on model).model = model := rfl

@[simp] theorem on_regs (m : Machine) (model : Model) : (m.on model).regs = m.regs := rfl

def shown (m : Machine) : Machine := m.veiled.on .m68000

@[simp] theorem dataSpace_shown (m : Machine) : m.shown.dataSpace = m.dataSpace :=
  m.dataSpace_untraced

@[simp] theorem programSpace_shown (m : Machine) : m.shown.programSpace = m.programSpace :=
  m.programSpace_untraced

@[simp] theorem regs_shown (m : Machine) : m.shown.regs = m.regs.untraced := rfl

@[simp] theorem opcode_shown (m : Machine) : m.shown.opcode = m.opcode := rfl

theorem isMisaligned_on {m : Machine} {model : Model} (h : m.model ≤ model) {addr : Address}
    {size : Size} (ha : m.isMisaligned addr size = false) :
    (m.on model).isMisaligned addr size = false := by
  have hmono : m.model.allowsMisalignedData = true → model.allowsMisalignedData = true :=
    Model.decide_le_mono h
  simp only [isMisaligned, on] at ha ⊢
  grind

end Machine

namespace Exec

open Machine

variable {α β : Type}

/-- From a machine, a computation that ends well ends so on another model too. -/
def Ports (model : Model) (x : Exec α) (m : Machine) : Prop :=
  ∀ a m', x m = .ok a m' → m'.model = m.model ∧ x (m.on model) = .ok a (m'.on model)

namespace Ports

variable {model : Model} {m : Machine}

theorem bind {x : Exec α} {f : α → Exec β} (hx : Ports model x m)
    (hf : ∀ a m', x m = .ok a m' → m'.model = m.model → Ports model (f a) m') :
    Ports model (x >>= f) m := by
  intro b m'' h
  obtain ⟨a, m', hr, hnext⟩ := exists_of_bind_ok h
  obtain ⟨hmodel, hon⟩ := hx a m' hr
  obtain ⟨hmodel', hon'⟩ := hf a m' hr hmodel b m'' hnext
  exact ⟨hmodel'.trans hmodel, by rw [bind_ok hon, hon']⟩

theorem get_bind {f : Machine → Exec β} (hf : Ports model (f m) m)
    (hsame : f (m.on model) (m.on model) = f m (m.on model)) : Ports model (get >>= f) m := by
  intro b m' h
  obtain ⟨hmodel, hon⟩ := hf b m' h
  exact ⟨hmodel, hsame.trans hon⟩

theorem regs_bind {f : Registers → Exec β} (hf : Ports model (f m.regs) m) :
    Ports model (Exec.regs >>= f) m := hf

theorem pure (a : α) : Ports model (Pure.pure a : Exec α) m := by
  intro b m' h
  obtain ⟨rfl, rfl⟩ := EStateM.Result.ok.inj h
  exact ⟨rfl, rfl⟩

theorem throw (e : Exception) : Ports model (MonadExcept.throw e : Exec α) m := by
  intro b m' h
  cases h

theorem registers (g : Registers → α × Registers) :
    Ports model (fun m => .ok (g m.regs).1 { m with regs := (g m.regs).2 } : Exec α) m := by
  intro b m' h
  obtain ⟨rfl, rfl⟩ := EStateM.Result.ok.inj h
  exact ⟨rfl, rfl⟩

theorem modifyRegs (f : Registers → Registers) : Ports model (Exec.modifyRegs f) m :=
  .registers fun r => ((), f r)

theorem ite {c : Prop} [Decidable c] {x y : Exec α} (hx : c → Ports model x m)
    (hy : ¬c → Ports model y m) : Ports model (if c then x else y) m := by
  split
  next h => exact hx h
  next h => exact hy h

theorem read (hle : m.model ≤ model) (addr : Address) (size : Size) (fc : FunctionCode) :
    Ports model (Exec.read addr size fc) m := by
  intro a m' h
  rw [Exec.read, load_eq] at h ⊢
  split at h
  · cases h
  next ha =>
    have ha' := isMisaligned_on hle (by simpa using ha)
    rw [if_neg (by simpa using ha')]
    have hview : (m.on model).memory.view? addr size.bytes fc .read =
      m.memory.view? addr size.bytes fc .read := rfl
    rw [hview]
    cases hv : m.memory.view? addr size.bytes fc .read with
    | none =>
      rw [hv] at h
      cases h
    | some bytes =>
      rw [hv] at h
      obtain ⟨rfl, rfl⟩ := EStateM.Result.ok.inj h
      exact ⟨rfl, rfl⟩

theorem write (hle : m.model ≤ model) (addr : Address) (size : Size) (value : UInt32)
    (fc : FunctionCode) : Ports model (Exec.write addr size value fc) m := by
  intro a m' h
  rw [Exec.write] at h ⊢
  split at h
  · cases h
  next ha =>
    have ha' := isMisaligned_on hle (by simpa using ha)
    rw [if_neg (by simpa using ha')]
    cases hw : m.memory.admits addr (toBigEndian value size).length fc .write with
    | false =>
      rw [store_of_not_admits m _ _ _ hw] at h
      cases h
    | true =>
      rw [store_of_admits m _ _ _ hw] at h
      rw [store_of_admits (m.on model) _ _ _ hw]
      obtain ⟨rfl, rfl⟩ := EStateM.Result.ok.inj h
      exact ⟨rfl, rfl⟩

theorem fetchWord : Ports model Exec.fetchWord m := by
  intro a m' h
  rw [Exec.fetchWord, load_eq] at h ⊢
  have hpc : (m.on model).regs.pc = m.regs.pc := rfl
  have hview : (m.on model).memory.view? m.regs.pc Size.word.bytes (m.on model).programSpace .read =
      m.memory.view? m.regs.pc Size.word.bytes m.programSpace .read := rfl
  split at h
  · cases h
  next ha =>
    rw [hpc, if_neg ha, hview]
    cases hv : m.memory.view? m.regs.pc Size.word.bytes m.programSpace .read with
    | none =>
      rw [hv] at h
      cases h
    | some bytes =>
      rw [hv] at h
      obtain ⟨rfl, rfl⟩ := EStateM.Result.ok.inj h
      exact ⟨rfl, rfl⟩

end Ports

/-- A program that looks neither at T1 nor at the model. -/
structure Neutral (supervisor : Bool) (x : Exec α) : Prop extends Steady supervisor x where
  ports {model : Model} {m : Machine} : m.regs.isSupervisor = supervisor → m.model ≤ model →
    Ports model x m

namespace Neutral

variable {supervisor : Bool}

theorem registers (g : Registers → α × Registers) (h : ∀ r : Registers, r.SameSystem (g r).2)
    (hvalue : ∀ r : Registers, (g r.untraced).1 = (g r).1)
    (hregs : ∀ r : Registers, (g r.untraced).2.untraced = (g r).2.untraced) :
    Neutral supervisor (fun m => .ok (g m.regs).1 { m with regs := (g m.regs).2 } : Exec α) :=
  ⟨.registers g h hvalue hregs, fun _ _ => .registers g⟩

theorem throw (e : Exception) (h : e.isGroupZero = false) :
    Neutral supervisor (MonadExcept.throw e : Exec α) :=
  ⟨.throw e h, fun _ _ => .throw e⟩

theorem bind {x : Exec α} {f : α → Exec β} (hx : Neutral supervisor x)
    (hf : ∀ a, Neutral supervisor (f a)) : Neutral supervisor (x >>= f) := by
  refine ⟨.bind hx.toSteady fun a => (hf a).toSteady, ?_⟩
  intro model m hs hle
  refine (hx.ports hs hle).bind ?_
  intro a m' h hmodel
  have houtcome := hx.program.runs m hs
  rw [h] at houtcome
  cases houtcome with
  | ok hpath => exact (hf a).ports (hpath.isSupervisor.trans hs) (hmodel ▸ hle)

/-- What follows a look at the machine may count on its privilege, and goes by the rest of its
registers and by its opcode. -/
theorem get_bind {f : Machine → Exec β}
    (hf : ∀ m : Machine, m.regs.isSupervisor = supervisor → Neutral supervisor (f m))
    (shown : ∀ m : Machine, f m = f m.shown) : Neutral supervisor (get >>= f) := by
  refine ⟨.get_bind (fun m hs => (hf m hs).toSteady) fun m => ?_, ?_⟩
  · have hsame : m.veiled.shown = m.shown :=
      congrArg (·.on .m68000) m.blind.untraced_untraced
    rw [shown m.veiled, hsame, ← shown m]
  · intro model m hs hle
    refine .get_bind ((hf m hs).ports hs hle) ?_
    have hsame : f (m.on model) = f m := (shown (m.on model)).trans (shown m).symm
    rw [hsame]

theorem regs_bind {f : Registers → Exec β} (hf : ∀ r, Neutral supervisor (f r))
    (hsame : ∀ r : Registers, f r.untraced = f r) : Neutral supervisor (Exec.regs >>= f) :=
  ⟨.regs_bind (fun r => (hf r).toSteady) hsame,
    fun {_ m} hs hle => .regs_bind ((hf m.regs).ports hs hle)⟩

theorem read (addr : Address) (size : Size) {fc : FunctionCode}
    (hs : fc.isSupervisor = supervisor) : Neutral supervisor (Exec.read addr size fc) :=
  ⟨.read addr size hs, fun _ hle => .read hle addr size fc⟩

theorem write (addr : Address) (size : Size) (value : UInt32) :
    Neutral supervisor (Exec.write addr size value (.of supervisor false)) :=
  ⟨.write addr size value, fun _ hle => .write hle addr size value _⟩

theorem fetchWord : Neutral supervisor Exec.fetchWord :=
  ⟨.fetchWord, fun _ _ => .fetchWord⟩

theorem pure (a : α) : Neutral supervisor (Pure.pure a : Exec α) :=
  ⟨.pure a, fun _ _ => .pure a⟩

theorem modifyRegs {f : Registers → Registers} (hf : ∀ r : Registers, r.SameSystem (f r))
    (hregs : ∀ r : Registers, (f r.untraced).untraced = (f r).untraced) :
    Neutral supervisor (Exec.modifyRegs f) :=
  ⟨.modifyRegs hf hregs, fun _ _ => .modifyRegs f⟩

theorem ite {c : Prop} [Decidable c] {x y : Exec α} (hx : Neutral supervisor x)
    (hy : Neutral supervisor y) : Neutral supervisor (if c then x else y) := by
  split
  · exact hx
  · exact hy

theorem readData (addr : Address) (size : Size) :
    Neutral supervisor (Exec.readData addr size) := by
  refine .get_bind (fun m hm => ?_) fun m => by simp
  apply read
  rw [Machine.dataSpace, FunctionCode.isSupervisor_of, hm]

theorem writeData (addr : Address) (size : Size) (value : UInt32) :
    Neutral supervisor (Exec.writeData addr size value) := by
  refine .get_bind (fun m hm => ?_) fun m => by simp
  rw [Machine.dataSpace, hm]
  exact write addr size value

theorem fetchLong : Neutral supervisor Exec.fetchLong :=
  bind fetchWord fun _ => bind fetchWord fun _ => pure _

theorem setSp (value : UInt32) : Neutral supervisor (Exec.modifyRegs (·.setSp value)) :=
  modifyRegs (fun r => Registers.SameSystem.setSp r value) fun r => by simp

theorem setA (n : RegisterNumber) (value : UInt32) :
    Neutral supervisor (Exec.modifyRegs (·.setA n value)) :=
  modifyRegs (fun r => Registers.SameSystem.setA r n value) fun r => by simp

theorem modifySr (f : UInt16 → UInt16) (hsystem : ∀ sr, Status.system (f sr) = Status.system sr)
    (huntraced : ∀ sr, f (Status.untraced sr) = Status.untraced (f sr)) :
    Neutral supervisor (Exec.modifyRegs fun r => { r with sr := f r.sr }) :=
  modifyRegs (fun r => Registers.SameSystem.withSr r _ (hsystem r.sr)) fun r => by
    simp [Registers.untraced, huntraced]

theorem push (size : Size) (value : UInt32) : Neutral supervisor (Exec.push size value) :=
  regs_bind (fun _ => bind (writeData _ size value) fun _ => setSp _) fun r => by simp

theorem pushLong (value : UInt32) : Neutral supervisor (Exec.pushLong value) := push .long value

theorem pop (size : Size) : Neutral supervisor (Exec.pop size) :=
  regs_bind (fun _ => bind (readData _ size) fun _ => bind (setSp _) fun _ => pure _)
    fun r => by simp

theorem popWord : Neutral supervisor Exec.popWord := bind (pop .word) fun _ => pure _

theorem popLong : Neutral supervisor Exec.popLong := pop .long

end Neutral

theorem Ports.neutral_bind {model : Model} {m : Machine} (hle : m.model ≤ model) {x : Exec α}
    {f : α → Exec β} (hx : Neutral m.regs.isSupervisor x)
    (hf : ∀ a m', m'.model = m.model → Ports model (f a) m') : Ports model (x >>= f) m :=
  .bind (hx.ports rfl hle) fun a m' _ hmodel => hf a m' hmodel

end Exec

end Mc68k
