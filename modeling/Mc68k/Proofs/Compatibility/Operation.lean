import Mc68k.Proofs.Compatibility.Operand
import Mc68k.Proofs.Execution.Operation

namespace Mc68k

def Status.laterBits : UInt16 := 0x5000

/-- Frame formats set the models apart. -/
def Model.PartInFormats (a b : Model) : Prop := a.hasFrameFormats ≠ b.hasFrameFormats

variable {model : Model} {m : Machine}

theorem Model.srMask_eq (a : Model) :
    a.srMask = if a.hasFullExtension then 0xA71F ||| Status.laterBits else 0xA71F := by
  simp only [srMask, hasFullExtension, decide_eq_true_eq]
  rfl

theorem Model.and_srMask {a b : Model} {value : UInt16}
    (h : a.PartInExtensions b → value &&& Status.laterBits = 0) :
    value &&& a.srMask = value &&& b.srMask := by
  by_cases hpart : a.hasFullExtension = b.hasFullExtension
  · rw [srMask_eq, srMask_eq, hpart]
  · have hlater : value &&& (0xA71F ||| Status.laterBits) = value &&& 0xA71F := by
      have hzero := h hpart
      apply UInt16.eq_of_toBitVec_eq
      rw [UInt16.toBitVec_and, UInt16.toBitVec_or, BitVec.and_or_distrib_left,
        ← UInt16.toBitVec_and, ← UInt16.toBitVec_and, hzero]
      simp
    have hmask (c : Model) : value &&& c.srMask = value &&& 0xA71F := by
      rw [srMask_eq]
      split
      · exact hlater
      · rfl
    rw [hmask, hmask]

theorem Machine.setSr_on {value : UInt16}
    (h : m.model.PartInExtensions model → value &&& Status.laterBits = 0) :
    (m.on model).setSr value = (m.setSr value).on model := by
  simp only [setSr, on, Model.and_srMask h]

theorem ControlRegister.ofCode?_mono (h : m.model ≤ model) {code : Nat} {r : ControlRegister}
    (hr : ofCode? m.model code = some r) : ofCode? model code = some r := by
  have hcache : m.model.hasCacheControl = true → model.hasCacheControl = true :=
    Model.decide_le_mono h
  have hgained {x : Option ControlRegister} (hx : (if m.model.hasCacheControl then x else none) =
      some r) : (if model.hasCacheControl then x else none) = some r := by
    rw [Option.ite_none_right_eq_some] at hx ⊢
    exact ⟨hcache hx.1, hx.2⟩
  rw [ofCode?.eq_def] at hr ⊢
  split at hr
  · exact hr
  · exact hr
  · exact hr
  · exact hr
  · exact hgained hr
  · exact hgained hr
  · exact hgained hr
  · exact hgained hr
  · cases hr

def Operation.srValue? (operation : Operation) (p : Operands) (m : Machine) : Option UInt16 :=
  match operation with
  | moveToSr | stop => some p.first.toUInt16
  | bitwiseSr op => some (Perform.combineSr op p m.regs.sr)
  | rte => ((Exec.read m.regs.ssp .word .supervisorData).result? m).map (·.1.toUInt16)
  | _ => none

/-- MOVEM to -(An) with An among the registers. -/
def Operands.storesBase (p : Operands) (op : Opcode) : Bool :=
  op.mode == 4 && bit p.first.toUInt16 (7 - op.y)

namespace Exec

theorem ports_modify {g : Machine → Machine} (hmodel : (g m).model = m.model)
    (hon : g (m.on model) = (g m).on model) : Ports model (modify g) m := by
  intro _ m' h
  obtain ⟨-, rfl⟩ := EStateM.Result.ok.inj h
  exact ⟨hmodel, congrArg (EStateM.Result.ok ()) hon⟩

end Exec

namespace Perform

open Exec

theorem storeDown_congr (size : Size) {an : Nat} (a b : UInt32) {list : List Nat}
    (h : an ∉ list) (addr : Address) :
    storeDown size an a list addr = storeDown size an b list addr := by
  induction list generalizing addr with
  | nil => rfl
  | cons index rest ih =>
    obtain ⟨hindex, hrest⟩ := not_or.mp (List.mem_cons.not.mp h)
    simp only [storeDown, ih hrest, if_neg (Ne.symm hindex)]

theorem base_not_mem_of_storesBase {p : Operands} {op : Opcode} (hmode : op.mode = 4)
    (h : p.storesBase op = false) :
    8 + op.y.val ∉ (listed p.first.toUInt16).map (15 - ·) := by
  intro hmem
  obtain ⟨k, hk, hreg⟩ := List.mem_map.mp hmem
  obtain ⟨hrange, hbit⟩ := List.mem_filter.mp hk
  have hlt : k < 16 := List.mem_range.mp hrange
  have hk7 : k = 7 - op.y.val := by omega
  simp [Operands.storesBase, hmode, ← hk7, hbit] at h

theorem storeDown_on {p : Operands} (hmode : m.opcode.mode = 4)
    (hbase : m.model.PartInExtensions model → p.storesBase m.opcode = false)
    (after before : UInt32) (addr : Address) :
    storeDown p.size (8 + m.opcode.y.val) (if .m68020 ≤ model then after else before)
        ((listed p.first.toUInt16).map (15 - ·)) addr =
      storeDown p.size (8 + m.opcode.y.val) (if .m68020 ≤ m.model then after else before)
        ((listed p.first.toUInt16).map (15 - ·)) addr := by
  by_cases hpart : m.model.hasFullExtension = model.hasFullExtension
  · have hlater : .m68020 ≤ m.model ↔ .m68020 ≤ model := decide_eq_decide.mp hpart
    rw [if_congr hlater rfl rfl]
  · exact storeDown_congr _ _ _ (base_not_mem_of_storesBase hmode (hbase hpart)) addr

theorem ports_movemStore (hle : m.model ≤ model) (p : Operands)
    (hbase : m.model.PartInExtensions model → p.storesBase m.opcode = false) :
    Ports model (movemStore p) m := by
  by_cases hmode : m.opcode.mode = 4
  · have hmode' : (m.on model).opcode.mode = 4 := hmode
    refine .get_bind ?_ ?_
    · simp only [hmode, if_true]
      refine .neutral_bind hle (neutral_storeDown _ _ _ _ _) fun addr m' h => ?_
      exact .bind (.modifyRegs _) fun _ _ _ _ => .pure _
    · rw [if_pos hmode', if_pos hmode, ← storeDown_on hmode hbase]
      rfl
  · have hmode' : (m.on model).opcode.mode ≠ 4 := hmode
    refine .get_bind ?_ ?_
    · simp only [hmode, if_false]
      exact .neutral_bind hle (neutral_storeUp _ _ _) fun _ _ _ => .pure _
    · rw [if_neg hmode', if_neg hmode]

theorem ports_rte (hle : m.model ≤ model) (p : Operands)
    (hformats : ¬m.model.PartInFormats model)
    (hsr : m.model.PartInExtensions model →
      ∀ value ∈ Operation.rte.srValue? p m, value &&& Status.laterBits = 0) :
    Ports model (rte p) m := by
  refine .bind (.regs_bind ?_) fun _ _ _ _ => .pure _
  refine .bind (.read hle _ _ _) fun sr m₁ h h₁ => ?_
  refine .bind (.read (h₁ ▸ hle) _ _ _) fun pc m₂ _ h₂ => ?_
  have hmodel₂ : m₂.model = m.model := h₂.trans h₁
  have hload (m' : Machine) (hmodel : m'.model = m.model) (ssp : UInt32) :
      ({ m' with regs := { m'.regs with ssp } }.on model).setSr sr.toUInt16 =
        ({ m' with regs := { m'.regs with ssp } }.setSr sr.toUInt16).on model := by
    refine Machine.setSr_on fun hpart => ?_
    refine hsr (hmodel ▸ hpart) sr.toUInt16 ?_
    simp [Operation.srValue?, result?_of_ok h]
  have hunstack (m' : Machine) (hmodel : m'.model = m.model) (ssp : UInt32) :
      Ports model (modify fun m =>
        let m := { m with regs := { m.regs with ssp } }.setSr sr.toUInt16
        { m with regs := { m.regs with pc } }) m' :=
    ports_modify rfl (congrArg (fun m => { m with regs := { m.regs with pc } })
      (hload m' hmodel ssp))
  have hsame : model.hasFrameFormats = m₂.model.hasFrameFormats := by
    rw [hmodel₂]
    exact (not_not.mp hformats).symm
  refine .get_bind (.ite (fun _ => ?_) fun _ => ?_) (by simp only [Machine.on_model, hsame])
  · refine .bind (.read (hmodel₂ ▸ hle) _ _ _) fun word m₃ _ h₃ => ?_
    have hmodel₃ : m₃.model = m.model := h₃.trans hmodel₂
    cases frameSize? (word.toNat / 4096) with
    | none => exact .bind (.throw _) fun size m₄ _ h₄ => hunstack m₄ (h₄.trans hmodel₃) _
    | some size => exact .bind (.pure size) fun size m₄ _ h₄ => hunstack m₄ (h₄.trans hmodel₃) _
  · exact .bind (.pure 6) fun size m₃ _ h₃ => hunstack m₃ (h₃.trans hmodel₂) _

theorem ports_movesSpace (code : UInt8) : Ports model (movesSpace code) m := by
  rw [movesSpace]
  cases FunctionCode.ofCode? code with
  | none => exact .throw _
  | some fc => exact .pure fc

theorem ports_moves (hle : m.model ≤ model) (p : Operands) : Ports model (moves p) m := by
  refine .regs_bind ?_
  refine .ite (fun _ => ?_) fun _ => ?_
  · refine .bind (ports_movesSpace _) fun fc m₁ _ h => ?_
    exact .bind (.write (h ▸ hle) _ _ _ _) fun _ _ _ _ => .pure _
  · refine .bind (ports_movesSpace _) fun fc m₁ _ h => ?_
    refine .bind (.read (h ▸ hle) _ _ _) fun _ _ _ _ => ?_
    exact .bind (.modifyRegs _) fun _ _ _ _ => .pure _

/-- A control register that is missing on the earlier model ends the instruction there. -/
theorem ports_movec (hle : m.model ≤ model) (p : Operands) : Ports model (movec p) m := by
  cases hr : ControlRegister.ofCode? m.model (p.first.toNat % 4096) with
  | none =>
    intro _ m' h
    rw [movec, bind_get] at h
    simp only [hr] at h
    cases h
  | some r =>
    have hon := ControlRegister.ofCode?_mono hle hr
    refine .get_bind ?_ ?_
    · simp only [hr]
      exact .bind (.pure r) fun _ _ _ _ => .bind (.modifyRegs _) fun _ _ _ _ => .pure _
    · simp only [Machine.on_model, hr, hon]
      rfl

end Perform

open Exec Perform

theorem Operation.ports_perform (hle : m.model ≤ model) {operation : Operation} (p : Operands)
    (hformats : m.model.PartInFormats model → operation ≠ .rte)
    (hbase : m.model.PartInExtensions model → operation = .movemStore →
      p.storesBase m.opcode = false)
    (hsr : m.model.PartInExtensions model →
      ∀ value ∈ operation.srValue? p m, value &&& Status.laterBits = 0) :
    Ports model (operation.perform p) m := by
  cases hs : operation.isSystem with
  | false =>
    by_cases hmovem : operation = .movemStore
    · rw [hmovem]
      exact ports_movemStore hle p fun hpart => hbase hpart hmovem
    by_cases hstatus : operation = .moveFromSr
    · rw [hstatus]
      exact .regs_bind (.pure _)
    · exact (neutral_perform p hs hmovem hstatus).ports rfl hle
  | true =>
    cases operation with
    | moveToSr =>
      have hload := Machine.setSr_on fun hpart => hsr hpart _ rfl
      exact .bind (ports_modify rfl hload) fun _ _ _ _ => .pure _
    | bitwiseSr op =>
      have hload := Machine.setSr_on fun hpart => hsr hpart _ rfl
      exact .bind (ports_modify rfl hload) fun _ _ _ _ => .pure _
    | rte => exact ports_rte hle p (fun hpart => hformats hpart rfl) hsr
    | stop =>
      have hload := Machine.setSr_on fun hpart => hsr hpart _ rfl
      have hstop := congrArg (fun m : Machine => { m with condition := .stopped }) hload
      exact .bind (ports_modify rfl hstop) fun _ _ _ _ => .pure _
    | moveUsp => exact .get_bind (.bind (.modifyRegs _) fun _ _ _ _ => .pure _) rfl
    | movec => exact ports_movec hle p
    | moves => exact ports_moves hle p
    | _ => cases hs

end Mc68k
