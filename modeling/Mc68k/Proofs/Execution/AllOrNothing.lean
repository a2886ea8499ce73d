import Mc68k.Operation.Perform
import Mc68k.Proofs.Execution.Path

namespace Mc68k

namespace Machine

/-- Equal but for the fault record and what the bus saw. -/
def Unchanged (m m' : Machine) : Prop := m' = { m with fault := m'.fault, cycles := m'.cycles }

theorem Unchanged.trans {m m' m'' : Machine} (h : Unchanged m m') (h' : Unchanged m' m'') :
    Unchanged m m'' := by
  rw [Unchanged] at h h' ⊢
  rw [h', h]

/-- The active stack serves a word, and no long above it. -/
def EndsAfterWord (m : Machine) : Prop :=
  m.isMisaligned m.regs.sp .word = false ∧
    m.memory.admits m.regs.sp 2 m.dataSpace .read = true ∧
    m.memory.admits (m.regs.sp + 2) 4 m.dataSpace .read = false

theorem parity_add_two (addr : Address) : (addr + 2) &&& 1 = addr &&& 1 := by
  apply UInt32.toNat_inj.mp
  rw [UInt32.toNat_and, UInt32.toNat_and, UInt32.toNat_one, Nat.and_one_is_mod,
    Nat.and_one_is_mod, UInt32.toNat_add, show (2 : UInt32).toNat = 2 from rfl]
  omega

theorem isMisaligned_add_two (m : Machine) (addr : Address) :
    m.isMisaligned (addr + 2) .long = m.isMisaligned addr .word := by
  rw [isMisaligned, isMisaligned, parity_add_two]
  rfl

end Machine

namespace Exec

open Machine

/-- A computation that changes nothing, whatever it comes to. -/
def Quiet {α : Type} (x : Exec α) : Prop := ∀ m, Unchanged m (left (x m))

def Total {α : Type} (x : Exec α) : Prop := ∀ m, ∃ a m', x m = .ok a m'

/-- A computation that changes nothing if it ends in an exception. -/
def AllOrNothing {α : Type} (x : Exec α) (m : Machine) : Prop :=
  ∀ e m', x m = .error e m' → Unchanged m m'

section

variable {α β : Type} {m : Machine}

theorem Quiet.pure (a : α) : Quiet (Pure.pure a : Exec α) := fun _ => rfl

theorem Quiet.throw (e : Exception) : Quiet (MonadExcept.throw e : Exec α) := fun _ => rfl

theorem Quiet.regs : Quiet Exec.regs := fun _ => rfl

theorem Quiet.get : Quiet (MonadState.get : Exec Machine) := fun _ => rfl

theorem Quiet.bind {x : Exec α} {f : α → Exec β} (hx : Quiet x) (hf : ∀ a, Quiet (f a)) :
    Quiet (x >>= f) := by
  intro m
  have hm := hx m
  cases hr : x m with
  | error e m' =>
    rw [hr] at hm
    rw [bind_error hr]
    exact hm
  | ok a m' =>
    rw [hr] at hm
    rw [bind_ok hr]
    exact hm.trans (hf a m')

theorem Quiet.read (addr : Address) (size : Size) (fc : FunctionCode) :
    Quiet (Exec.read addr size fc) := by
  intro m
  obtain ⟨-, hread⟩ | ⟨-, -, hread⟩ | ⟨bytes, -, -, hread⟩ := read_cases addr size fc m
  · rw [hread]
    rfl
  · rw [hread]
    rfl
  · rw [hread]
    rfl

theorem Quiet.readData (addr : Address) (size : Size) : Quiet (Exec.readData addr size) :=
  .bind .get fun _ => .read _ _ _

theorem Total.pure (a : α) : Total (Pure.pure a : Exec α) := fun m => ⟨a, m, rfl⟩

theorem Total.modify (f : Machine → Machine) : Total (modify f) :=
  fun m => ⟨(), f m, rfl⟩

theorem Total.modifyRegs (f : Registers → Registers) : Total (Exec.modifyRegs f) :=
  fun _ => ⟨(), _, rfl⟩

theorem Total.bind {x : Exec α} {f : α → Exec β} (hx : Total x) (hf : ∀ a, Total (f a)) :
    Total (x >>= f) := by
  intro m
  obtain ⟨a, m', hr⟩ := hx m
  rw [bind_ok hr]
  exact hf a m'

theorem Quiet.allOrNothing {x : Exec α} (hx : Quiet x) : AllOrNothing x m := by
  intro e m' h
  have hm := hx m
  rw [h] at hm
  exact hm

theorem Total.allOrNothing {x : Exec α} (hx : Total x) : AllOrNothing x m := by
  intro e m' h
  obtain ⟨a, m₁, hok⟩ := hx m
  rw [hok] at h
  cases h

theorem AllOrNothing.write (addr : Address) (size : Size) (value : UInt32) (fc : FunctionCode) :
    AllOrNothing (Exec.write addr size value fc) m := by
  intro e m' h
  obtain ⟨-, hwrite⟩ | ⟨-, -, hwrite⟩ | ⟨-, -, hwrite⟩ := write_cases addr size value fc m
  · rw [hwrite] at h
    cases h
    rfl
  · rw [hwrite] at h
    cases h
    rfl
  · rw [hwrite] at h
    cases h

theorem AllOrNothing.bind_total {x : Exec α} {f : α → Exec β} (hx : AllOrNothing x m)
    (hf : ∀ a, Total (f a)) : AllOrNothing (x >>= f) m := by
  intro e m' h
  cases hr : x m with
  | error e' m₁ =>
    rw [bind_error hr] at h
    cases h
    exact hx e m' hr
  | ok a m₁ =>
    obtain ⟨b, m₂, hok⟩ := hf a m₁
    rw [bind_ok hr, hok] at h
    cases h

theorem AllOrNothing.quiet_bind {x : Exec α} {f : α → Exec β} (hx : Quiet x)
    (hf : ∀ a m', AllOrNothing (f a) m') : AllOrNothing (x >>= f) m := by
  intro e m' h
  have hm := hx m
  cases hr : x m with
  | error e' m₁ =>
    rw [bind_error hr] at h
    cases h
    exact hx.allOrNothing e m' hr
  | ok a m₁ =>
    rw [hr] at hm
    rw [bind_ok hr] at h
    exact hm.trans (hf a m₁ e m' h)

theorem AllOrNothing.writeData (addr : Address) (size : Size) (value : UInt32) :
    AllOrNothing (Exec.writeData addr size value) m :=
  .quiet_bind .get fun _ _ => .write _ _ _ _

theorem AllOrNothing.push (size : Size) (value : UInt32) :
    AllOrNothing (Exec.push size value) m :=
  .quiet_bind .regs fun _ _ => .bind_total (.writeData _ _ _) fun _ => .modifyRegs _

theorem AllOrNothing.pop (size : Size) : AllOrNothing (Exec.pop size) m :=
  .quiet_bind .regs fun _ _ => .quiet_bind (.readData _ _) fun _ _ =>
    Total.allOrNothing (.bind (.modifyRegs _) fun _ => .pure _)

theorem AllOrNothing.popLong_bind {f : UInt32 → Exec α} (hf : ∀ value, Total (f value)) :
    AllOrNothing (popLong >>= f) m :=
  .bind_total (.pop .long) hf

/-- All of a frame is read before anything is taken from it. -/
theorem AllOrNothing.returnFromException : AllOrNothing Exec.returnFromException m := by
  refine .quiet_bind .regs fun r _ => .quiet_bind (.read _ _ _) fun sr _ =>
    .quiet_bind (.read _ _ _) fun pc _ => .quiet_bind .get fun m _ => ?_
  split
  · refine .quiet_bind (.read _ _ _) fun word _ => ?_
    split
    · exact .quiet_bind (.pure _) fun _ _ => (Total.modify _).allOrNothing
    · exact .quiet_bind (.throw _) fun _ _ => (Total.modify _).allOrNothing
  · exact .quiet_bind (.pure _) fun _ _ => (Total.modify _).allOrNothing

theorem pop_cases (size : Size) (m : Machine) :
    (m.isMisaligned m.regs.sp size = true ∨
        m.memory.admits m.regs.sp size.bytes m.dataSpace .read = false) ∧
      (∃ e fault cycles, pop size m = .error e { m with fault, cycles }) ∨
    (m.isMisaligned m.regs.sp size = false ∧
        m.memory.admits m.regs.sp size.bytes m.dataSpace .read = true) ∧
      ∃ value cycles, pop size m = .ok value
        { m with regs := m.regs.setSp (m.regs.sp + UInt32.ofNat size.bytes), cycles } := by
  have hpop : pop size m = (do
      let value ← Exec.read m.regs.sp size m.dataSpace
      modifyRegs (·.setSp (m.regs.sp + UInt32.ofNat size.bytes))
      pure value) m := rfl
  obtain ⟨ha, hread⟩ | ⟨-, hv, hread⟩ | ⟨bytes, ha, hv, hread⟩ :=
    read_cases m.regs.sp size m.dataSpace m
  · exact .inl ⟨.inl ha, _, _, m.cycles, by rw [hpop, bind_error hread]⟩
  · have hrefused := Memory.admits_eq_false_iff.mpr hv
    exact .inl ⟨.inr hrefused, _, _, _, by rw [hpop, bind_error hread]⟩
  · have hserved := Memory.admits_of_view? hv
    exact .inr ⟨⟨ha, hserved⟩, ofBigEndian bytes, _, by rw [hpop, bind_ok hread]; rfl⟩

end

end Exec

namespace Operation

open Exec Machine Perform

def usesStack : Operation → Bool
  | pea | bsr | jsr | link | unlk | rts | rtr | rtd | rte => true
  | _ => false

variable {m : Machine}

theorem allOrNothing_call (p : Operands) : AllOrNothing (call p) m :=
  .quiet_bind .regs fun _ _ => .bind_total (.push _ _) fun _ =>
    .bind (.modifyRegs _) fun _ => .pure _

theorem allOrNothing_of_ne_rtr {operation : Operation} (hstack : operation.usesStack = true)
    (h : operation ≠ .rtr) (p : Operands) : AllOrNothing (operation.perform p) m := by
  cases operation <;> try cases hstack
  case rtr => exact absurd rfl h
  case pea => exact .bind_total (.push _ _) fun _ => .pure _
  case bsr => exact allOrNothing_call p
  case jsr => exact allOrNothing_call p
  case rts => exact .popLong_bind fun _ => .bind (.modifyRegs _) fun _ => .pure _
  case rtd =>
    exact .popLong_bind fun _ =>
      .bind (.modifyRegs _) fun _ => .bind (.modifyRegs _) fun _ => .pure _
  case rte => exact .bind_total .returnFromException fun _ => .pure _
  case link =>
    exact .quiet_bind .get fun _ _ => .quiet_bind .regs fun _ _ =>
      .bind_total (.writeData _ _ _) fun _ => .bind (.modifyRegs _) fun _ => .pure _
  case unlk =>
    exact .quiet_bind .get fun _ _ => .quiet_bind .regs fun _ _ =>
      .quiet_bind (.readData _ _) fun _ _ =>
        Total.allOrNothing (.bind (.modifyRegs _) fun _ => .pure _)

theorem allOrNothing_rtr_iff (p : Operands) :
    AllOrNothing (Operation.rtr.perform p) m ↔ ¬m.EndsAfterWord := by
  have hrtr : Operation.rtr.perform p m = (do
      let ccr ← pop .word
      jump (← pop .long)
      modifyRegs (·.setCcr ccr.toUInt16)
      pure p) m := by
    simp only [perform, Perform.rtr, popWord, popLong, bind_assoc, pure_bind]
  obtain ⟨hword, e, fault, cycles, hpop⟩ | ⟨⟨ha, hserved⟩, ccr, cycles, hpop⟩ := pop_cases .word m
  · rw [bind_error hpop] at hrtr
    refine iff_of_true ?_ ?_
    · intro e' m' h
      rw [hrtr] at h
      cases h
      rfl
    · rintro ⟨ha, hserved, -⟩
      rw [ha, Size.bytes, hserved] at hword
      simp at hword
  let m₁ : Machine := { m with regs := m.regs.setSp (m.regs.sp + 2), cycles }
  have hsp : m₁.regs.sp = m.regs.sp + 2 := m.regs.sp_setSp _
  have hspace : m₁.dataSpace = m.dataSpace := by
    rw [dataSpace, dataSpace, Registers.isSupervisor_setSp]
  have haligned : m₁.isMisaligned m₁.regs.sp .long = false := by
    rw [hsp]
    exact (m.isMisaligned_add_two m.regs.sp).trans ha
  rw [bind_ok hpop] at hrtr
  obtain ⟨hlong, e, fault, cycles', hpop'⟩ | ⟨⟨-, hserved'⟩, pc, cycles', hpop'⟩ :=
    pop_cases .long m₁
  · have hrefused := hlong.resolve_left (by simp [haligned])
    rw [hsp, hspace] at hrefused
    refine iff_of_false ?_ (not_not_intro ⟨ha, hserved, hrefused⟩)
    intro hall
    have hsame := hall e _ (hrtr.trans (bind_error hpop'))
    -- The stack pointer would have to be two bytes above itself.
    have hsp' : m.regs.sp = m.regs.sp + 2 := by
      have hregs := congrArg (·.regs.sp) hsame
      simpa [m₁, Registers.sp_setSp] using hregs.symm
    have hnat := congrArg UInt32.toNat hsp'
    rw [UInt32.toNat_add, show (2 : UInt32).toNat = 2 from rfl] at hnat
    omega
  · refine iff_of_true ?_ ?_
    · intro e m' h
      rw [hrtr.trans (bind_ok hpop')] at h
      cases h
    · rintro ⟨-, -, hrefused⟩
      rw [hsp, hspace] at hserved'
      exact Bool.false_ne_true (hrefused.symm.trans hserved')

/-- An operation on the stack that ends in an exception changes no register and no byte, unless it
is RTR from a stack that ends after a word. -/
theorem allOrNothing_iff {operation : Operation} (hstack : operation.usesStack = true)
    (p : Operands) (m : Machine) :
    AllOrNothing (operation.perform p) m ↔ ¬(operation = .rtr ∧ m.EndsAfterWord) := by
  by_cases h : operation = .rtr
  · subst h
    simpa using allOrNothing_rtr_iff p
  · exact iff_of_true (allOrNothing_of_ne_rtr hstack h p) fun hrtr => h hrtr.1

/-- RTE of the 68010 from a stack that ends before the format word. -/
theorem allOrNothing_iff_rte :
    let m : Machine := { Machine.new .m68010 (.flat (.new 8 0)) with
      regs := { Registers.initial with ssp := 2 } }
    (Operation.rte.perform (.new .word) m matches .error .busError _) = true ∧
      AllOrNothing (Operation.rte.perform (.new .word)) m := by
  intro m
  refine ⟨by decide +kernel, ?_⟩
  exact (allOrNothing_iff (by decide) (.new .word) m).mpr fun h => nomatch h.1

/-- RTR from a stack with two bytes to its end takes them, and fails. -/
theorem not_allOrNothing_rtr :
    let m : Machine := { Machine.new .m68000 (.flat (.new 256 0)) with
      regs := { Registers.initial with ssp := 254 } }
    (Operation.rtr.perform (.new .word) m matches .error .busError _) = true ∧
      (left (Operation.rtr.perform (.new .word) m)).regs.ssp = 256 ∧
      ¬AllOrNothing (Operation.rtr.perform (.new .word)) m := by
  intro m
  have hssp : (left (Operation.rtr.perform (.new .word) m)).regs.ssp = 256 := by decide +kernel
  have herror : (Operation.rtr.perform (.new .word) m matches .error .busError _) = true := by
    decide +kernel
  refine ⟨herror, hssp, fun hall => ?_⟩
  cases hrun : Operation.rtr.perform (.new .word) m with
  | ok p m' =>
    rw [hrun] at herror
    cases herror
  | error e m' =>
    have hsame : m'.regs.ssp = 254 := congrArg (·.regs.ssp) (hall e m' hrun)
    rw [hrun] at hssp
    exact absurd (hsame.symm.trans hssp) (by decide)

end Operation

end Mc68k
