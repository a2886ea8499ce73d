import Mc68k.Operation.Perform
import Mc68k.Proofs.Execution.Operand

namespace Mc68k

open Registers (SameSystem)

/-- Operations that reach what is not a program's own. -/
def Operation.isSystem : Operation → Bool
  | .moveToSr | .bitwiseSr _ | .rte | .stop | .moveUsp | .movec | .moves => true
  | _ => false

namespace Perform

open Exec

variable {supervisor : Bool}

theorem neutral_compute (f : UInt16 → Computed) (p : Operands)
    (hf : ∀ sr, Status.system (f sr).sr = Status.system sr)
    (hu : ∀ sr, f (Status.untraced sr) = (f sr).untraced) : Neutral supervisor (compute f p) :=
  .registers (fun r => ({ p with result := (f r.sr).value }, { r with sr := (f r.sr).sr }))
    (fun r => SameSystem.withSr r _ (hf _)) (fun r => by simp [hu, Computed.untraced])
    fun r => by simp [hu, Registers.untraced, Computed.untraced]

theorem neutral_changeSr (f : UInt16 → UInt16) (p : Operands)
    (hf : ∀ sr, Status.system (f sr) = Status.system sr)
    (hu : ∀ sr, f (Status.untraced sr) = Status.untraced (f sr)) :
    Neutral supervisor (changeSr f p) :=
  .bind (.modifySr f hf hu) fun _ => .pure _

theorem neutral_multiplyWord (signed : Bool) (p : Operands) :
    Neutral supervisor (multiplyWord signed p) := by
  refine .get_bind (fun m _ => ?_) fun _ => rfl
  refine .bind (.modifyRegs (fun r => ?_) fun r => ?_) fun _ => .pure _
  · exact (SameSystem.setD r _ _).trans (SameSystem.withSr _ _ (Status.system_logical _ _ _))
  · exact Registers.untraced_withSr (r.setD _ _) (by simp)

theorem neutral_multiplyLong (p : Operands) : Neutral supervisor (multiplyLong p) := by
  refine .bind (.modifyRegs (fun r => ?_) fun r => ?_) fun _ => .pure _
  · dsimp only
    split
    · refine ((SameSystem.setD r _ _).trans (SameSystem.setD _ _ _)).trans
        (SameSystem.withSr _ _ ?_)
      simp [Registers.setD]
    · refine (SameSystem.setD r _ _).trans (SameSystem.withSr _ _ ?_)
      simp [Registers.setD]
  · dsimp only
    split
    · exact Registers.untraced_withSr ((r.setD _ _).setD _ _) (by simp)
    · exact Registers.untraced_withSr (r.setD _ _) (by simp)

theorem neutral_zeroDivide : Neutral supervisor zeroDivide :=
  .bind (.modifySr (· &&& ~~~Status.C) (fun sr => Status.system_clear sr _ (by decide))
    fun sr => Status.and_not_untraced sr _ (by decide)) fun _ => .throw .zeroDivide rfl

theorem neutral_divideOverflow (p : Operands) : Neutral supervisor (divideOverflow p) := by
  apply neutral_changeSr
  · intro sr
    rw [Status.system_clear _ Status.C (by decide), Status.system_or _ Status.V (by decide)]
  · intro sr
    rw [Status.or_untraced _ Status.V (by decide), Status.and_not_untraced _ Status.C (by decide)]

theorem neutral_divideWord (signed : Bool) (p : Operands) :
    Neutral supervisor (divideWord signed p) := by
  apply Neutral.ite neutral_zeroDivide
  refine .get_bind (fun m _ => ?_) fun _ => rfl
  refine .regs_bind (fun r => ?_) fun r => by simp
  dsimp only
  split
  · exact neutral_divideOverflow p
  · refine .bind (.modifyRegs (fun r => ?_) fun r => ?_) fun _ => .pure _
    · exact (SameSystem.setD r _ _).trans (SameSystem.withSr _ _ (Status.system_logical _ _ _))
    · exact Registers.untraced_withSr (r.setD _ _) (by simp)

theorem neutral_divideLong (p : Operands) : Neutral supervisor (divideLong p) := by
  apply Neutral.ite neutral_zeroDivide
  refine .regs_bind (fun r => ?_) fun r => by simp
  dsimp only
  split
  · exact neutral_divideOverflow p
  · refine .bind (.modifyRegs (fun r => ?_) fun r => ?_) fun _ => .pure _
    · exact ((SameSystem.setD r _ _).trans (SameSystem.setD _ _ _)).trans
        (SameSystem.withSr _ _ (Status.system_logical _ _ _))
    · exact Registers.untraced_withSr ((r.setD _ _).setD _ _) (by simp)

theorem neutral_chk (p : Operands) : Neutral supervisor (chk p) := by
  let zero (sr : UInt16) := Status.setIf (Status.clearVC sr) Status.Z (p.second.toInt32 == 0)
  have hsystem (sr : UInt16) : Status.system (zero sr) = Status.system sr := by simp [zero]
  have huntraced (sr : UInt16) : zero (Status.untraced sr) = Status.untraced (zero sr) := by
    simp [zero]
  apply Neutral.ite
  · refine .bind (.modifySr (fun sr => zero sr ||| Status.N) (fun sr => ?_) fun sr => ?_)
      fun _ => .throw .chk rfl
    · rw [Status.system_or _ Status.N (by decide), hsystem]
    · rw [huntraced, Status.or_untraced _ Status.N (by decide)]
  apply Neutral.ite
  · refine .bind (.modifySr (fun sr => zero sr &&& ~~~Status.N) (fun sr => ?_) fun sr => ?_)
      fun _ => .throw .chk rfl
    · rw [Status.system_clear _ Status.N (by decide), hsystem]
    · rw [huntraced, Status.and_not_untraced _ Status.N (by decide)]
  · exact .bind (.modifySr zero hsystem huntraced) fun _ => .pure _

theorem neutral_btst (p : Operands) : Neutral supervisor (btst p) :=
  .get_bind (fun _ _ => neutral_changeSr _ p (fun sr => by simp [testBit])
    fun sr => by simp [testBit]) fun _ => rfl

theorem neutral_changeBit (change : BitChange) (p : Operands) :
    Neutral supervisor (changeBit change p) :=
  .bind (neutral_changeSr _ p (fun sr => by simp [testBit]) fun sr => by simp [testBit])
    fun _ => .pure _

theorem neutral_tas (p : Operands) : Neutral supervisor (tas p) :=
  .bind (neutral_changeSr (Status.logical · p.second .byte) p (fun sr => by simp)
    fun sr => by simp) fun _ => .pure _

theorem neutral_ext (p : Operands) : Neutral supervisor (ext p) :=
  .get_bind (fun _ _ => .pure _) fun _ => rfl

theorem neutral_exg (p : Operands) : Neutral supervisor (exg p) := by
  refine .get_bind (fun m _ => ?_) fun _ => rfl
  refine .bind (.modifyRegs (fun r => ?_) fun r => ?_) fun _ => .pure _
  · split
    · exact (SameSystem.setD r _ _).trans (SameSystem.setD _ _ _)
    · exact (SameSystem.setA r _ _).trans (SameSystem.setA _ _ _)
    · exact (SameSystem.setD r _ _).trans (SameSystem.setA _ _ _)
  · split <;> simp

theorem neutral_conditionHolds : Neutral supervisor conditionHolds :=
  .get_bind (fun _ _ => .pure _) fun m => by simp

theorem neutral_jump (target : Address) : Neutral supervisor (jump target) :=
  .modifyRegs (fun r => SameSystem.withPc r target) fun r => by simp [Registers.untraced]

theorem neutral_bcc (p : Operands) : Neutral supervisor (bcc p) := by
  apply Neutral.bind neutral_conditionHolds
  intro holds
  apply Neutral.ite
  · exact .bind (neutral_jump _) fun _ => .pure _
  · exact .pure _

theorem neutral_call (p : Operands) : Neutral supervisor (call p) :=
  .regs_bind (fun _ => .bind (.pushLong _) fun _ => .bind (neutral_jump _) fun _ => .pure _)
    fun r => by simp

theorem neutral_dbcc (p : Operands) : Neutral supervisor (dbcc p) := by
  apply Neutral.bind neutral_conditionHolds
  intro holds
  apply Neutral.ite
  · exact .pure _
  refine .get_bind (fun m _ => ?_) fun _ => rfl
  refine .regs_bind (fun r => ?_) fun r => by simp
  apply Neutral.bind
  · exact .modifyRegs (fun r => SameSystem.setD r _ _) fun r => by simp
  intro _
  apply Neutral.ite
  · exact .bind (neutral_jump _) fun _ => .pure _
  · exact .pure _

theorem neutral_scc (p : Operands) : Neutral supervisor (scc p) :=
  .bind neutral_conditionHolds fun _ => .pure _

theorem neutral_rts (p : Operands) : Neutral supervisor (rts p) :=
  .bind .popLong fun _ => .bind (neutral_jump _) fun _ => .pure _

theorem neutral_rtr (p : Operands) : Neutral supervisor (rtr p) :=
  .bind .popWord fun _ => .bind .popLong fun _ => .bind (neutral_jump _) fun _ =>
    .bind (.modifyRegs (fun r => SameSystem.setCcr r _) fun r => by simp) fun _ => .pure _

theorem neutral_rtd (p : Operands) : Neutral supervisor (rtd p) :=
  .bind .popLong fun _ => .bind (neutral_jump _) fun _ =>
    .bind (.modifyRegs (fun r => SameSystem.setSp r _) fun r => by simp) fun _ => .pure _

theorem neutral_trapv (p : Operands) : Neutral supervisor (trapv p) :=
  .regs_bind (fun _ => .ite (.throw .trapV rfl) (.pure _)) fun r => by simp

theorem neutral_trapcc (p : Operands) : Neutral supervisor (trapcc p) :=
  .bind neutral_conditionHolds fun _ => .ite (.throw .trapV rfl) (.pure _)

theorem neutral_link (p : Operands) : Neutral supervisor (link p) := by
  refine .get_bind (fun m _ => ?_) fun _ => rfl
  refine .regs_bind (fun r => ?_) fun r => by simp
  apply Neutral.bind (.writeData _ _ _)
  intro _
  refine .bind (.modifyRegs (fun r => ?_) fun r => by simp) fun _ => .pure _
  exact ((SameSystem.setSp r _).trans (SameSystem.setA _ _ _)).trans (SameSystem.setSp _ _)

theorem neutral_unlk (p : Operands) : Neutral supervisor (unlk p) := by
  refine .get_bind (fun m _ => ?_) fun _ => rfl
  refine .regs_bind (fun r => ?_) fun r => by simp
  apply Neutral.bind (.readData _ _)
  intro saved
  refine .bind (.modifyRegs (fun r => ?_) fun r => by simp) fun _ => .pure _
  exact (SameSystem.setSp r _).trans (SameSystem.setA _ _ _)

theorem neutral_storeUp (size : Size) (list : List Nat) (addr : Address) :
    Neutral supervisor (storeUp size list addr) := by
  induction list generalizing addr with
  | nil => exact .pure _
  | cons index rest ih =>
    exact .regs_bind (fun _ => .bind (.writeData _ _ _) fun _ => ih _) fun r => by simp

theorem neutral_storeDown (size : Size) (an : Nat) (anValue : UInt32) (list : List Nat)
    (addr : Address) : Neutral supervisor (storeDown size an anValue list addr) := by
  induction list generalizing addr with
  | nil => exact .pure _
  | cons index rest ih =>
    exact .regs_bind (fun _ => .bind (.writeData _ _ _) fun _ => ih _) fun r => by simp

theorem neutral_loadUp (size : Size) {space : FunctionCode} (hs : space.isSupervisor = supervisor)
    (list : List Nat) (addr : Address) : Neutral supervisor (loadUp size space list addr) := by
  induction list generalizing addr with
  | nil => exact .pure _
  | cons index rest ih =>
    refine .bind (.read _ _ hs) fun _ => .bind ?_ fun _ => ih _
    exact .modifyRegs (fun r => SameSystem.setGeneral r _ _) fun r => by simp

theorem steady_movemStore (p : Operands) : Steady supervisor (movemStore p) := by
  refine .get_bind (fun m _ => ?_) fun m => by simp
  apply Steady.ite
  · exact .bind (neutral_storeDown _ _ _ _ _).toSteady fun _ =>
      .bind (Neutral.setA _ _).toSteady fun _ => .pure _
  · exact .bind (neutral_storeUp _ _ _).toSteady fun _ => .pure _

theorem neutral_movemLoad (p : Operands) : Neutral supervisor (movemLoad p) := by
  refine .get_bind (fun m hm => ?_) fun m => by simp
  apply Neutral.bind
  · apply neutral_loadUp
    split
    · rw [Machine.programSpace, FunctionCode.isSupervisor_of, hm]
    · rw [Machine.dataSpace, FunctionCode.isSupervisor_of, hm]
  intro addr
  apply Neutral.ite
  · exact .bind (.setA _ _) fun _ => .pure _
  · exact .pure _

theorem neutral_writeAlternate (bytes : List UInt8) (addr : Address) :
    Neutral supervisor (writeAlternate bytes addr) := by
  induction bytes generalizing addr with
  | nil => exact .pure _
  | cons b bs ih => exact .bind (.writeData _ _ _) fun _ => ih _

theorem neutral_readAlternate (n : Nat) (value : UInt32) (addr : Address) :
    Neutral supervisor (readAlternate n value addr) := by
  induction n generalizing value addr with
  | zero => exact .pure _
  | succ n ih => exact .bind (.readData _ _) fun _ => ih _ _

theorem neutral_movep (p : Operands) : Neutral supervisor (movep p) := by
  refine .get_bind (fun m _ => ?_) fun _ => rfl
  apply Neutral.ite
  · exact .regs_bind (fun _ => .bind (neutral_writeAlternate _ _) fun _ => .pure _)
      fun r => by simp
  · refine .bind (neutral_readAlternate _ _ _) fun _ => .bind ?_ fun _ => .pure _
    exact .modifyRegs (fun r => SameSystem.setD r _ _) fun r => by simp

theorem combineSr_untraced_and (op : Bitwise) (p : Operands) (sr mask : UInt16)
    (h : ~~~Status.T1 &&& mask = mask) :
    combineSr op p (Status.untraced sr) &&& mask = combineSr op p sr &&& mask := by
  apply UInt16.eq_of_toBitVec_eq
  ext i hi
  have hbit := congrArg (·.toBitVec[i]) (Status.untraced_and sr mask h)
  cases op <;> simp [combineSr, Bitwise.apply] at hbit ⊢ <;> grind

end Perform

namespace Operation

open Exec Perform

variable {supervisor : Bool}

theorem neutral_perform {operation : Operation} (p : Operands) (h : operation.isSystem = false)
    (hmovem : operation ≠ .movemStore) (hsr : operation ≠ .moveFromSr) :
    Neutral supervisor (operation.perform p) := by
  cases operation with
  | moveToSr | bitwiseSr | rte | stop | moveUsp | movec | moves => simp [isSystem] at h
  | move | adda | suba | clr | swap | bitwise | not | nop | reset => exact .pure _
  | pea => exact .bind (.pushLong _) fun _ => .pure _
  | moveToCcr =>
    exact neutral_changeSr (Status.withCcr · p.first.toUInt16) p (fun sr => by simp)
      fun sr => by simp
  | moveFromSr => exact absurd rfl hsr
  | moveFromCcr => exact .regs_bind (fun _ => .pure _) fun r => by simp
  | movemStore => exact absurd rfl hmovem
  | movemLoad => exact neutral_movemLoad p
  | movep => exact neutral_movep p
  | add => exact neutral_compute _ p (fun sr => by simp) fun sr => by simp
  | sub => exact neutral_compute _ p (fun sr => by simp) fun sr => by simp
  | addx => exact neutral_compute _ p (fun sr => by simp) fun sr => by simp
  | subx => exact neutral_compute _ p (fun sr => by simp) fun sr => by simp
  | neg => exact neutral_compute _ p (fun sr => by simp [Alu.neg]) fun sr => by simp [Alu.neg]
  | negx => exact neutral_compute _ p (fun sr => by simp [Alu.negx]) fun sr => by simp [Alu.negx]
  | cmp => exact neutral_changeSr _ p (fun sr => by simp) fun sr => by simp
  | cmpa => exact neutral_changeSr _ p (fun sr => by simp) fun sr => by simp
  | tst =>
    exact neutral_changeSr (Status.logical · p.first p.size) p (fun sr => by simp)
      fun sr => by simp
  | mulu => exact neutral_multiplyWord false p
  | muls => exact neutral_multiplyWord true p
  | divu => exact neutral_divideWord false p
  | divs => exact neutral_divideWord true p
  | mulLong => exact neutral_multiplyLong p
  | divLong => exact neutral_divideLong p
  | chk => exact neutral_chk p
  | abcd => exact neutral_compute _ p (fun sr => by simp) fun sr => by simp
  | sbcd => exact neutral_compute _ p (fun sr => by simp) fun sr => by simp
  | nbcd => exact neutral_compute _ p (fun sr => by simp) fun sr => by simp
  | ext => exact neutral_ext p
  | tas => exact neutral_tas p
  | exg => exact neutral_exg p
  | bitwiseCcr op =>
    refine neutral_changeSr (fun sr => Status.withCcr sr (combineSr op p sr)) p
      (fun sr => by simp) fun sr => ?_
    simp only [Status.withCcr, combineSr_untraced_and op p sr Status.ccr (by decide)]
    exact Status.withCcr_untraced sr _
  | btst => exact neutral_btst p
  | changeBit change => exact neutral_changeBit change p
  | shift kind =>
    exact .get_bind (fun _ _ => neutral_compute _ p (fun sr => by simp) fun sr => by simp)
      fun _ => rfl
  | bcc => exact neutral_bcc p
  | bsr => exact neutral_call p
  | jsr => exact neutral_call p
  | dbcc => exact neutral_dbcc p
  | scc => exact neutral_scc p
  | jmp => exact .bind (neutral_jump _) fun _ => .pure _
  | rts => exact neutral_rts p
  | rtr => exact neutral_rtr p
  | rtd => exact neutral_rtd p
  | trap => exact .throw _ rfl
  | trapv => exact neutral_trapv p
  | trapcc => exact neutral_trapcc p
  | illegal => exact .throw .illegalInstruction rfl
  | link => exact neutral_link p
  | unlk => exact neutral_unlk p

theorem steady_perform {operation : Operation} (p : Operands) (h : operation.isSystem = false)
    (hsr : operation ≠ .moveFromSr) : Steady supervisor (operation.perform p) := by
  by_cases hmovem : operation = .movemStore
  · rw [hmovem]
    exact steady_movemStore p
  · exact (neutral_perform p h hmovem hsr).toSteady

theorem program_perform (operation : Operation) (p : Operands) (h : operation.isSystem = false) :
    Program supervisor (operation.perform p) := by
  by_cases hsr : operation = .moveFromSr
  · rw [hsr]
    exact .bind .regs fun _ => .pure _
  · exact (steady_perform p h hsr).program

end Operation

end Mc68k
