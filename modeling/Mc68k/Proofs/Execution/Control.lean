import Mc68k.Proofs.Exception.Unwind
import Mc68k.Proofs.Execution.Session
import Mc68k.Proofs.Privilege.Isolation

namespace Mc68k

namespace Registers.SameControl

theorem refl (r : Registers) : SameControl r r := ⟨rfl, rfl, rfl, rfl, rfl, rfl⟩

theorem trans {r r' r'' : Registers} (h : SameControl r r') (h' : SameControl r' r'') :
    SameControl r r'' :=
  ⟨h'.msp.trans h.msp, h'.vbr.trans h.vbr, h'.sfc.trans h.sfc, h'.dfc.trans h.dfc,
    h'.cacr.trans h.cacr, h'.caar.trans h.caar⟩

end Registers.SameControl

/-- Registers as far as resets, if there were any, have changed those of control. -/
def Registers.afterResets (r : Registers) (any : Bool) : Registers :=
  { r with vbr := if any then 0 else r.vbr }

theorem Registers.SameControl.afterResets {r r' : Registers} (h : SameControl r r') (any : Bool) :
    SameControl (r.afterResets any) (r'.afterResets any) :=
  ⟨h.msp, congrArg (if any then 0 else ·) h.vbr, h.sfc, h.dfc, h.cacr, h.caar⟩

namespace Model

theorem and_not_srMask_of_system_eq (model : Model) {sr sr' : UInt16}
    (hsystem : Status.system sr' = Status.system sr) (h : sr &&& ~~~model.srMask = 0) :
    sr' &&& ~~~model.srMask = 0 := by
  have hmask : ~~~model.srMask = ~~~Status.ccr &&& ~~~model.srMask := by cases model <;> decide
  rw [hmask, ← UInt16.and_assoc] at h ⊢
  exact (congrArg (· &&& ~~~model.srMask) hsystem).trans h

theorem and_srMask_and_not (model : Model) (value : UInt16) :
    value &&& model.srMask &&& ~~~model.srMask = 0 := by
  rw [UInt16.and_assoc, show model.srMask &&& ~~~model.srMask = 0 by cases model <;> decide,
    UInt16.and_zero]

end Model

namespace ControlRegister

variable (c : ControlRegister) {r : Registers} (value : UInt32)

theorem sr_set (r : Registers) : (c.set r value).sr = r.sr := by
  cases c <;> rfl

theorem toUInt8_and_lt : (value &&& 7).toUInt8 < 8 := by
  have hle : (value &&& 7).toNat ≤ 7 := by
    rw [UInt32.toNat_and]
    exact Nat.and_le_right
  rw [UInt8.lt_iff_toNat_lt, UInt32.toNat_toUInt8]
  exact Nat.lt_of_le_of_lt (Nat.mod_le _ _) (Nat.lt_succ_of_le hle)

theorem sfc_set_lt (h : r.sfc < 8) : (c.set r value).sfc < 8 := by
  cases c with
  | sfc => exact toUInt8_and_lt value
  | _ => exact h

theorem dfc_set_lt (h : r.dfc < 8) : (c.set r value).dfc < 8 := by
  cases c with
  | dfc => exact toUInt8_and_lt value
  | _ => exact h

end ControlRegister

namespace Machine

/-- SR has no bits that the model lacks, and function codes have three bits. -/
structure Lawful (m : Machine) : Prop where
  sr : m.regs.sr &&& ~~~m.model.srMask = 0
  sfc : m.regs.sfc < 8
  dfc : m.regs.dfc < 8

/-- What is as it was of the registers that control a processor. -/
structure KeepsControl (m m' : Machine) : Prop where
  model : m'.model = m.model
  sr : m.regs.sr &&& ~~~m.model.srMask = 0 → m'.regs.sr &&& ~~~m'.model.srMask = 0
  sfc : m.regs.sfc < 8 → m'.regs.sfc < 8
  dfc : m.regs.dfc < 8 → m'.regs.dfc < 8
  control : m.model = .m68000 → m.regs.SameControl m'.regs

namespace KeepsControl

theorem lawful {m m' : Machine} (h : KeepsControl m m') (hm : m.Lawful) : m'.Lawful :=
  ⟨h.sr hm.sr, h.sfc hm.sfc, h.dfc hm.dfc⟩

theorem refl (m : Machine) : KeepsControl m m := ⟨rfl, id, id, id, fun _ => .refl _⟩

theorem trans {m m' m'' : Machine} (h : KeepsControl m m') (h' : KeepsControl m' m'') :
    KeepsControl m m'' where
  model := h'.model.trans h.model
  sr hm := h'.sr (h.sr hm)
  sfc hm := h'.sfc (h.sfc hm)
  dfc hm := h'.dfc (h.dfc hm)
  control hm := (h.control hm).trans (h'.control (h.model.trans hm))

instance : IsPreorder Machine KeepsControl where
  refl := .refl
  trans _ _ _ := .trans

theorem of_sameSystem {m m' : Machine} (hmodel : m'.model = m.model)
    (h : m.regs.SameSystem m'.regs) : KeepsControl m m' where
  model := hmodel
  sr hm := by
    rw [hmodel]
    exact m.model.and_not_srMask_of_system_eq h.status hm
  sfc hm := h.sfc.symm ▸ hm
  dfc hm := h.dfc.symm ▸ hm
  control _ := h.control

theorem of_status {m : Machine} {sr : UInt16}
    (h : m.regs.sr &&& ~~~m.model.srMask = 0 → sr &&& ~~~m.model.srMask = 0) :
    KeepsControl m { m with regs := { m.regs with sr } } where
  model := rfl
  sr := h
  sfc := id
  dfc := id
  control _ := ⟨rfl, rfl, rfl, rfl, rfl, rfl⟩

end KeepsControl

theorem Act.keepsControl {waits : Prop} {m m' : Machine} (h : Act waits m m') :
    KeepsControl m m' := by
  cases h with
  | registers r h => exact .of_sameSystem rfl h
  | status value => exact .of_status fun _ => m.model.and_srMask_and_not value
  | supervise => exact .of_status (m.model.and_not_srMask_supervised m.regs.sr)
  | control c value h =>
    refine ⟨rfl, fun hm => ?_, c.sfc_set_lt value, c.dfc_set_lt value, fun hm => ?_⟩
    · exact (c.sr_set value m.regs).symm ▸ hm
    · rw [hm] at h
      cases h
  | _ => exact ⟨rfl, id, id, id, fun _ => ⟨rfl, rfl, rfl, rfl, rfl, rfl⟩⟩

theorem keepsControl_enterHandler (m : Machine) (e : Exception) :
    KeepsControl m (m.enterHandler e) := by
  rw [enterHandler, load_eq]
  split
  next hr =>
    obtain ⟨-, rfl⟩ := Prod.mk.inj hr
    split
    · exact .of_sameSystem rfl (.withPc _ _)
    · exact .of_sameSystem rfl (.refl _)
  next hr =>
    obtain ⟨-, rfl⟩ := Prod.mk.inj hr
    exact .of_sameSystem rfl (.refl _)

theorem regs_reset (m : Machine) :
    m.reset.regs = { m.regs with
      sr := 0x2700, vbr := 0, ssp := m.reset.regs.ssp, pc := m.reset.regs.pc } := by
  rw [reset]
  simp only [load_eq]
  split <;> rfl

theorem sameControl_reset (m : Machine) (any : Bool) :
    (m.regs.afterResets true).SameControl (m.reset.regs.afterResets any) := by
  rw [regs_reset]
  exact ⟨rfl, ite_self _, rfl, rfl, rfl, rfl⟩

theorem model_reset (m : Machine) : m.reset.model = m.model := by
  rw [reset]
  simp only [load_eq]
  split <;> rfl

theorem Lawful.reset {m : Machine} (h : m.Lawful) : m.reset.Lawful := by
  refine ⟨?_, ?_, ?_⟩
  · rw [model_reset, regs_reset]
    change 0x2700 &&& ~~~m.model.srMask = 0
    cases m.model <;> decide
  · rw [regs_reset]
    exact h.sfc
  · rw [regs_reset]
    exact h.dfc

end Machine

namespace Emulator

open Machine (KeepsControl)

theorem keepsControl_step (e : Emulator) (hcalls : e.callbacks.Serves) :
    KeepsControl e.machine e.step.2.machine :=
  e.leads_step (fun _ _ => Machine.Act.keepsControl) Machine.keepsControl_enterHandler
    fun n m => .of_sameSystem (hcalls n m).model (hcalls n m).regs

theorem keepsControl_run (e : Emulator) (hcalls : e.callbacks.Serves) (limit : Nat) :
    KeepsControl e.machine (e.run limit).2.machine := by
  let P (e' : Emulator) : Prop := e'.callbacks.Serves ∧ KeepsControl e.machine e'.machine
  have hstep : ∀ e', P e' → P e'.step.2 := by
    rintro e' ⟨hcalls', hkept⟩
    refine ⟨?_, hkept.trans (e'.keepsControl_step hcalls')⟩
    rw [callbacks_step]
    exact hcalls'
  exact (run_preserves hstep limit ⟨hcalls, .refl _⟩).2

theorem callbacks_perform (e : Emulator) (command : Command) :
    (e.perform command).callbacks = e.callbacks := by
  cases command with
  | step => exact e.callbacks_step
  | run limit =>
    have hstep (e' : Emulator) (h : e'.callbacks = e.callbacks) :
        e'.step.2.callbacks = e.callbacks := e'.callbacks_step.trans h
    exact run_preserves hstep limit rfl
  | reset => rfl
  | resume =>
    simp only [perform, resume]
    split <;> rfl

theorem keepsControl_perform (e : Emulator) (hcalls : e.callbacks.Serves) {command : Command}
    (h : command ≠ .reset) : KeepsControl e.machine (e.perform command).machine := by
  cases command with
  | step => exact e.keepsControl_step hcalls
  | run limit => exact e.keepsControl_run hcalls limit
  | reset => exact absurd rfl h
  | resume =>
    simp only [perform, resume]
    split
    · exact .of_sameSystem rfl (.refl _)
    · exact .refl _

theorem session_control (e : Emulator) (hcalls : e.callbacks.Serves) (commands : List Command) :
    let m := (e.session commands).machine
    m.model = e.machine.model ∧ (e.machine.Lawful → m.Lawful) ∧
      (e.machine.model = .m68000 →
        (e.machine.regs.afterResets (commands.contains .reset)).SameControl m.regs) := by
  induction commands generalizing e with
  | nil => exact ⟨rfl, id, fun _ => .refl _⟩
  | cons command commands ih =>
    have hcalls' : (e.perform command).callbacks.Serves := by
      rw [callbacks_perform]
      exact hcalls
    obtain ⟨hmodel, hlawful, hcontrol⟩ := ih (e.perform command) hcalls'
    by_cases hreset : command = .reset
    · -- Whatever VBR was before, the commands after a reset start from one that is clear.
      subst hreset
      have hstart : (e.perform .reset).machine = e.machine.reset := rfl
      rw [hstart] at hmodel hlawful hcontrol
      rw [Machine.model_reset] at hmodel hcontrol
      exact ⟨hmodel, fun h => hlawful h.reset, fun h =>
        (e.machine.sameControl_reset _).trans (hcontrol h)⟩
    · have hkept := e.keepsControl_perform hcalls hreset
      have hresets : (command :: commands).contains .reset = commands.contains .reset := by
        simp [Ne.symm hreset]
      refine ⟨hmodel.trans hkept.model, fun h => hlawful (hkept.lawful h), fun h => ?_⟩
      rw [hresets]
      exact ((hkept.control h).afterResets _).trans (hcontrol (hkept.model.trans h))

/-- In every state of a session SR has only bits of the model and function codes are below 8; on the
68000 a reset alone changes a control register. -/
theorem session_keeps_control (e : Emulator) (h : e.machine.Lawful)
    (hcalls : e.callbacks = .empty ∨ ∃ host, e.callbacks = Host.table host)
    (commands : List Command) :
    let m := (e.session commands).machine
    m.model = e.machine.model ∧
      m.regs.sr &&& ~~~m.model.srMask = 0 ∧ m.regs.sfc < 8 ∧ m.regs.dfc < 8 ∧
      (m.model = .m68000 →
        m.regs.vbr = (if .reset ∈ commands then 0 else e.machine.regs.vbr) ∧
        m.regs.sfc = e.machine.regs.sfc ∧ m.regs.dfc = e.machine.regs.dfc ∧
        m.regs.cacr = e.machine.regs.cacr ∧ m.regs.caar = e.machine.regs.caar ∧
        m.regs.msp = e.machine.regs.msp) := by
  intro m
  obtain ⟨hmodel, hlawful, hcontrol⟩ := e.session_control (CallbackTable.serves hcalls) commands
  have hm : m.Lawful := hlawful h
  refine ⟨hmodel, hm.sr, hm.sfc, hm.dfc, fun h68000 => ?_⟩
  have hkept := hcontrol (hmodel.symm.trans h68000)
  have hvbr : m.regs.vbr = if commands.contains .reset then 0 else e.machine.regs.vbr := hkept.vbr
  exact ⟨by simpa using hvbr, hkept.sfc, hkept.dfc, hkept.cacr, hkept.caar, hkept.msp⟩

/-- MOVE #$FFFF,SR on the 68000 sets the bits that are there, and a reset clears VBR. -/
theorem session_keeps_control_moveToSr :
    let e : Emulator := ⟨{ Machine.new .m68000 (.flat ⟨.ofList [0x46, 0xFC, 0xFF, 0xFF], 0⟩) with
      regs := { Registers.initial with vbr := 0x100, sfc := 3 } }, .empty, []⟩
    e.machine.Lawful ∧ (e.session [.step]).machine.regs.sr = 0xA71F ∧
      (e.session [.step]).machine.regs.vbr = 0x100 ∧
      (e.session [.step, .reset, .resume]).machine.regs.vbr = 0 ∧
      (e.session [.step, .reset, .resume]).machine.regs.sfc = 3 := by
  intro e
  have hlawful : e.machine.Lawful := ⟨by decide, by decide, by decide⟩
  obtain ⟨hmodel, -, -, -, hstep⟩ := e.session_keeps_control hlawful (.inl rfl) [.step]
  obtain ⟨hmodel', -, -, -, hreset⟩ :=
    e.session_keeps_control hlawful (.inl rfl) [.step, .reset, .resume]
  refine ⟨hlawful, by decide +kernel, ?_, ?_, ?_⟩
  · exact (hstep hmodel).1
  · exact (hreset hmodel').1
  · exact (hreset hmodel').2.1

end Emulator

end Mc68k
