import Mc68k.Proofs.Execution.IndexWord
import Mc68k.Proofs.Execution.Refusal
import Mc68k.Proofs.OperandModes

namespace Mc68k

namespace Perform

open Exec

/-- Operands that an operation has left as they were, but for the result. -/
def Retained (p q : Operands) : Prop := q = { p with result := q.result }

variable (p : Operands)

theorem retains_compute (f : UInt16 → Computed) : Returns (Retained p) (compute f p) :=
  .after fun _ => .after fun _ => .pure rfl

theorem retains_changeSr (f : UInt16 → UInt16) : Returns (Retained p) (changeSr f p) :=
  .after fun _ => .pure rfl

theorem retains_zeroDivide : Returns (Retained p) zeroDivide :=
  .after fun _ => .throw _

theorem retains_divideWord (signed : Bool) : Returns (Retained p) (divideWord signed p) := by
  refine .ite (retains_zeroDivide p) (.after fun m => .after fun r => ?_)
  dsimp only
  split
  · exact retains_changeSr p _
  · exact .after fun _ => .pure rfl

theorem retains_divideLong : Returns (Retained p) (divideLong p) := by
  refine .ite (retains_zeroDivide p) (.after fun r => ?_)
  dsimp only
  split
  · exact retains_changeSr p _
  · exact .after fun _ => .pure rfl

theorem retains_chk : Returns (Retained p) (chk p) :=
  .ite (.after fun _ => .throw _) (.ite (.after fun _ => .throw _) (.after fun _ => .pure rfl))

theorem retains_bcc : Returns (Retained p) (bcc p) :=
  .after fun _ => .ite (.after fun _ => .pure rfl) (.pure rfl)

theorem retains_dbcc : Returns (Retained p) (dbcc p) :=
  .after fun _ => .ite (.pure rfl) (.after fun _ => .after fun _ => .after fun _ =>
    .ite (.after fun _ => .pure rfl) (.pure rfl))

theorem retains_movemStore : Returns (Retained p) (movemStore p) :=
  .after fun _ => .ite (.after fun _ => .after fun _ => .pure rfl) (.after fun _ => .pure rfl)

theorem retains_movemLoad : Returns (Retained p) (movemLoad p) :=
  .after fun _ => .after fun _ => .ite (.after fun _ => .pure rfl) (.pure rfl)

theorem retains_movep : Returns (Retained p) (movep p) :=
  .after fun _ => .ite (.after fun _ => .after fun _ => .pure rfl)
    (.after fun _ => .after fun _ => .pure rfl)

theorem retains_moves : Returns (Retained p) (moves p) :=
  .after fun _ => .ite (.after fun _ => .after fun _ => .pure rfl)
    (.after fun _ => .after fun _ => .after fun _ => .pure rfl)

end Perform

open Exec Perform

theorem Operation.retains_perform (operation : Operation) (p : Operands) :
    Returns (Retained p) (operation.perform p) := by
  cases operation with
  | move | adda | suba | clr | swap | bitwise | not | nop | reset => exact .pure rfl
  | add | sub | addx | subx | neg | negx | abcd | sbcd | nbcd => exact retains_compute p _
  | pea | moveToCcr | moveToSr | moveFromSr | moveFromCcr | cmp | cmpa | tst | mulLong | ext
  | bitwiseCcr | bitwiseSr | jmp | scc | rte | stop => exact .after fun _ => .pure rfl
  | movemStore => exact retains_movemStore p
  | movemLoad => exact retains_movemLoad p
  | movep => exact retains_movep p
  | mulu | muls | exg | rts | moveUsp => exact .after fun _ => .after fun _ => .pure rfl
  | divu | divs => exact retains_divideWord p _
  | divLong => exact retains_divideLong p
  | chk => exact retains_chk p
  | tas => exact .bind (retains_changeSr p _) fun q hq => .pure (by rw [hq]; rfl)
  | btst => exact .after fun _ => retains_changeSr p _
  | changeBit change => exact .bind (retains_changeSr p _) fun q hq => .pure (by rw [hq]; rfl)
  | shift kind => exact .after fun _ => retains_compute p _
  | bcc => exact retains_bcc p
  | bsr | jsr | rtd => exact .after fun _ => .after fun _ => .after fun _ => .pure rfl
  | dbcc => exact retains_dbcc p
  | rtr => exact .after fun _ => .after fun _ => .after fun _ => .after fun _ => .pure rfl
  | trap | illegal => exact .throw _
  | trapv | trapcc => exact .after fun _ => .ite (.throw _) (.pure rfl)
  | link | unlk => exact .after fun _ => .after fun _ => .after fun _ => .after fun _ => .pure rfl
  | movec => exact .after fun _ => .after fun _ => .after fun _ => .pure rfl
  | moves => exact retains_moves p

/-- An index word in full format that its model finds without a meaning. -/
structure Model.Rejects (model : Model) (ext : UInt16) : Prop where
  model : .m68020 ≤ model
  full : bit ext 8 = true
  reserved : FullExtension.baseSize ext = 0 ∨ FullExtension.indirection ext = 4 ∨
    FullExtension.suppressesIndex ext = true ∧ 4 < FullExtension.indirection ext

/-- Places that a fetch has a use for: a target is set, or an address is there. -/
def Fetch.Uses (f : Fetch) (location : Location) : Prop :=
  match f with
  | target | moveTarget => ∀ p : Operands, (p.toLocation? location).isSome = true
  | controlAddress | movemBase => location.address?.isSome = true
  | _ => True

namespace Exec

variable {ea : AddressingMode} {size : Size} {location : Location} {m m' : Machine}

theorem resolve_of_isAlterable (halterable : ea.isAlterable = true)
    (h : resolve ea size m = .ok location m') :
    (∃ n, location = .data n) ∨ (∃ n, location = .address n) ∨ ∃ addr, location = .memory addr := by
  cases ea with
  | dataRegister n =>
    obtain ⟨rfl, -⟩ := EStateM.Result.ok.inj h
    exact .inl ⟨n, rfl⟩
  | addressRegister n =>
    obtain ⟨rfl, -⟩ := EStateM.Result.ok.inj h
    exact .inr (.inl ⟨n, rfl⟩)
  | postincrement n =>
    obtain ⟨addr, -, rfl⟩ := eq_of_bind_pure h
    exact .inr (.inr ⟨addr, rfl⟩)
  | predecrement n =>
    obtain ⟨addr, -, rfl⟩ := eq_of_bind_pure h
    exact .inr (.inr ⟨addr, rfl⟩)
  | indirect n | displacement n | indexed n | absoluteShort | absoluteLong =>
    obtain ⟨addr, hplace | ⟨hpc, -⟩⟩ := resolve_of_isControl rfl h
    · exact .inr (.inr ⟨addr, hplace⟩)
    · cases hpc
  | pcDisplacement | pcIndexed | immediate => cases halterable

theorem isSome_address?_of_resolve (hcontrol : ea.isControl = true)
    (h : resolve ea size m = .ok location m') : location.address?.isSome = true := by
  obtain ⟨addr, rfl | ⟨-, rfl⟩⟩ := resolve_of_isControl hcontrol h
  · rw [Location.address?_inSpace, Option.isSome_some]
  · rfl

theorem uses_of_resolve {f : Fetch} (haccepts : f.accepts ea = true)
    (h : resolve ea size m = .ok location m') : f.Uses location := by
  have hwritten (halterable : ea.isAlterable = true) (p : Operands) :
      (p.toLocation? location).isSome = true := by
    obtain ⟨n, rfl⟩ | ⟨n, rfl⟩ | ⟨addr, rfl⟩ := resolve_of_isAlterable halterable h
    · rfl
    · rfl
    · rfl
  cases f with
  | target => exact hwritten haccepts
  | moveTarget => exact hwritten haccepts
  | controlAddress => exact isSome_address?_of_resolve haccepts h
  | movemBase =>
    cases ea with
    | postincrement n =>
      obtain ⟨addr, -, rfl⟩ := eq_of_bind_pure h
      rfl
    | predecrement n =>
      obtain ⟨addr, -, rfl⟩ := eq_of_bind_pure h
      rfl
    | _ => first | exact isSome_address?_of_resolve rfl h | cases haccepts
  | _ => trivial

/-- An illegal instruction is found only for a reason. -/
def IllegalFor {α : Type} (reason : Prop) (x : Exec α) (m : Machine) : Prop :=
  ∀ m', x m = .error .illegalInstruction m' → reason

namespace IllegalFor

variable {α β : Type} {reason : Prop}

theorem because {x : Exec α} (h : reason) : IllegalFor reason x m := fun _ _ => h

theorem mono {reason' : Prop} {x : Exec α} (h : reason → reason') (hx : IllegalFor reason x m) :
    IllegalFor reason' x m := fun m' hr => h (hx m' hr)

theorem pure (a : α) : IllegalFor reason (Pure.pure a : Exec α) m := by
  intro m' h
  cases h

theorem modifyRegs (f : Registers → Registers) : IllegalFor reason (Exec.modifyRegs f) m := by
  intro m' h
  cases h

theorem get_bind {f : Machine → Exec β} (h : IllegalFor reason (f m) m) :
    IllegalFor reason (get >>= f) m := h

theorem regs_bind {f : Registers → Exec β} (h : IllegalFor reason (f m.regs) m) :
    IllegalFor reason (Exec.regs >>= f) m := h

theorem bind {x : Exec α} {f : α → Exec β} (hx : IllegalFor reason x m)
    (hf : ∀ a m', x m = .ok a m' → IllegalFor reason (f a) m') : IllegalFor reason (x >>= f) m := by
  intro m'' h
  cases hr : x m with
  | error e m' =>
    rw [bind_error hr] at h
    obtain ⟨rfl, rfl⟩ := EStateM.Result.error.inj h
    exact hx m' hr
  | ok a m' =>
    rw [bind_ok hr] at h
    exact hf a m' hr m'' h

theorem ite {c : Prop} [Decidable c] {x y : Exec α} (hx : c → IllegalFor reason x m)
    (hy : ¬c → IllegalFor reason y m) : IllegalFor reason (if c then x else y) m := by
  split
  next h => exact hx h
  next h => exact hy h

theorem read (addr : Address) (size : Size) (fc : FunctionCode) :
    IllegalFor reason (Exec.read addr size fc) m := by
  intro m' h
  obtain ⟨-, hread⟩ | ⟨-, -, hread⟩ | ⟨bytes, -, -, hread⟩ := read_cases addr size fc m
  · cases h.symm.trans hread
  · cases h.symm.trans hread
  · cases h.symm.trans hread

theorem readData (addr : Address) (size : Size) : IllegalFor reason (Exec.readData addr size) m :=
  .get_bind (.read addr size m.dataSpace)

theorem fetchWord : IllegalFor reason Exec.fetchWord m := by
  intro m' h
  obtain ⟨-, hfetch⟩ | ⟨-, -, hfetch⟩ | ⟨bytes, -, -, hfetch⟩ := fetchWord_cases m
  · cases h.symm.trans hfetch
  · cases h.symm.trans hfetch
  · cases h.symm.trans hfetch

theorem fetchLong : IllegalFor reason Exec.fetchLong m :=
  .bind .fetchWord fun _ _ _ => .bind .fetchWord fun _ _ _ => .pure _

theorem fetchSignedWord : IllegalFor reason Exec.fetchSignedWord m :=
  .bind .fetchWord fun _ _ _ => .pure _

theorem fetchImmediate (size : Size) : IllegalFor reason (Exec.fetchImmediate size) m := by
  cases size with
  | byte => exact .bind .fetchWord fun _ _ _ => .pure _
  | word => exact .bind .fetchWord fun _ _ _ => .pure _
  | long => exact .fetchLong

theorem fetchDisplacement (size : Nat) : IllegalFor reason (Exec.fetchDisplacement size) m := by
  rw [Exec.fetchDisplacement.eq_def]
  split
  · exact .pure _
  · exact .fetchSignedWord
  · exact .fetchLong

theorem postincrement (n : RegisterNumber) (size : Size) :
    IllegalFor reason (Exec.postincrement n size) m :=
  .regs_bind (.bind (.modifyRegs _) fun _ _ _ => .pure _)

theorem predecrement (n : RegisterNumber) (size : Size) :
    IllegalFor reason (Exec.predecrement n size) m :=
  .regs_bind (.bind (.modifyRegs _) fun _ _ _ => .pure _)

theorem resolveFull {ext : UInt16} (hbase : FullExtension.baseSize ext = 0 → reason)
    (hreserved : FullExtension.isReserved ext = true → reason) (base : Address)
    (space : FunctionCode) : IllegalFor reason (Exec.resolveFull ext base space) m := by
  refine .get_bind (.ite (fun hsize => .because (hbase hsize)) fun _ => ?_)
  refine .bind (.fetchDisplacement _) fun displacement m₁ _ => ?_
  refine .ite (fun _ => .pure _) fun _ => ?_
  refine .ite (fun hindirection => .because (hreserved hindirection)) fun _ => ?_
  refine .bind (.fetchDisplacement _) fun outer m₂ _ => ?_
  refine .ite (fun _ => ?_) fun _ => ?_
  · exact .bind (.read _ .long space) fun _ _ _ => .pure _
  · exact .bind (.read _ .long space) fun _ _ _ => .pure _

theorem resolveIndexed (base : Address) (space : FunctionCode) :
    IllegalFor (∃ ext ∈ (Exec.fetchWord.result? m).map Prod.fst, m.model.Rejects ext)
      (Exec.resolveIndexed base space) m := by
  refine .bind .fetchWord fun ext m₁ h₁ => .get_bind (.ite (fun hfull => ?_) fun _ => .pure _)
  obtain ⟨hbit, hmodel⟩ := Bool.and_eq_true_iff.mp hfull
  rw [(past_of_fetchWord h₁).model] at hmodel
  have hrejects (h : FullExtension.baseSize ext = 0 ∨ FullExtension.indirection ext = 4 ∨
      FullExtension.suppressesIndex ext = true ∧ 4 < FullExtension.indirection ext) :
      ∃ ext ∈ (Exec.fetchWord.result? m).map Prod.fst, m.model.Rejects ext :=
    ⟨ext, by simp [result?_of_ok h₁], of_decide_eq_true hmodel, hbit, h⟩
  refine .resolveFull (fun hsize => hrejects (.inl hsize)) (fun hreserved => hrejects ?_) _ _
  simpa [FullExtension.isReserved] using Or.inr hreserved

theorem resolve (ea : AddressingMode) (size : Size) :
    IllegalFor (∃ ext ∈ ea.indexWord? m, m.model.Rejects ext) (Exec.resolve ea size) m := by
  cases ea with
  | dataRegister n => exact .pure _
  | addressRegister n => exact .pure _
  | indirect n => exact .regs_bind (.pure _)
  | postincrement n => exact .bind (.postincrement n size) fun _ _ _ => .pure _
  | predecrement n => exact .bind (.predecrement n size) fun _ _ _ => .pure _
  | displacement n => exact .bind .fetchSignedWord fun _ _ _ => .regs_bind (.pure _)
  | indexed n =>
    exact .regs_bind (.get_bind (.bind (.resolveIndexed _ _) fun _ _ _ => .pure _))
  | absoluteShort => exact .bind .fetchSignedWord fun _ _ _ => .pure _
  | absoluteLong => exact .bind .fetchLong fun _ _ _ => .pure _
  | pcDisplacement => exact .regs_bind (.bind .fetchSignedWord fun _ _ _ => .pure _)
  | pcIndexed =>
    exact .regs_bind (.get_bind (.bind (.resolveIndexed _ _) fun _ _ _ => .pure _))
  | immediate => exact .bind (.fetchImmediate size) fun _ _ _ => .pure _

theorem readLocation (location : Location) (size : Size) :
    IllegalFor reason (Exec.readLocation location size) m := by
  cases location with
  | data n => exact .regs_bind (.pure _)
  | address n => exact .regs_bind (.pure _)
  | memory addr => exact .bind (.readData addr size) fun _ _ _ => .pure _
  | program addr => exact .get_bind (.bind (.read addr size _) fun _ _ _ => .pure _)
  | immediate value => exact .pure _

theorem orIllegal {x : Option α} (h : x.isSome = true) :
    IllegalFor reason (Exec.orIllegal x) m := by
  cases x with
  | none => cases h
  | some a => exact .pure a

theorem valueOnly (p : Operands) {value : Exec UInt32} (h : IllegalFor reason value m) :
    IllegalFor reason (Exec.valueOnly p value) m :=
  .bind h fun _ _ _ => .pure _

theorem fetchAt {addr : Exec Address} (size : Size) (h : IllegalFor reason addr m) :
    IllegalFor reason (Exec.fetchAt addr size) m :=
  .bind h fun _ _ _ => .readLocation _ size

theorem fetchBranchTarget (op : Opcode) : IllegalFor reason (Exec.fetchBranchTarget op) m := by
  apply IllegalFor.get_bind
  apply IllegalFor.ite
  · intro _
    exact .bind .fetchSignedWord fun _ _ _ => .pure _
  intro _
  apply IllegalFor.ite
  · intro _
    exact .bind .fetchLong fun _ _ _ => .pure _
  · intro _
    exact .pure _

theorem fetchShiftCount (op : Opcode) : IllegalFor reason (Exec.fetchShiftCount op) m :=
  .ite (fun _ => .regs_bind (.pure _)) fun _ => .pure _

theorem fetchTrapOperand (op : Opcode) : IllegalFor reason (Exec.fetchTrapOperand op) m := by
  rw [Exec.fetchTrapOperand]
  split
  · exact .bind .fetchWord fun _ _ _ => .pure _
  · exact .fetchLong
  · exact .pure _

end IllegalFor

end Exec

open Exec

variable {op : Opcode} {m : Machine}

namespace Fetch

theorem exists_mode_uses {f : Fetch} (hfits : f.fits op = true) (hplace : f.findsPlace = true) :
    ∃ ea, f.mode? op = some ea ∧ ∀ size m location m',
      resolve ea size m = .ok location m' → f.Uses location := by
  obtain ⟨ea, hea, haccepts⟩ := exists_mode_of_fits hfits hplace
  exact ⟨ea, hea, fun size m location m' h => uses_of_resolve haccepts h⟩

theorem illegal_run {f : Fetch} (hfits : f.fits m.opcode = true) (p : Operands) :
    IllegalFor (∃ ext ∈ f.indexWord? m, m.model.Rejects ext) (f.run p) m := by
  have hmode (hplace : f.findsPlace = true) :
      IllegalFor (∃ ext ∈ f.indexWord? m, m.model.Rejects ext)
          (resolveMode (f.mode? m.opcode) p.size) m ∧
        ∀ location m', resolveMode (f.mode? m.opcode) p.size m = .ok location m' →
          f.Uses location := by
    obtain ⟨ea, hea, huses⟩ := exists_mode_uses hfits hplace
    rw [indexWord?, hea]
    exact ⟨.resolve ea p.size, fun location m' h => huses p.size m location m' h⟩
  apply IllegalFor.get_bind
  cases f with
  | source =>
    obtain ⟨hresolve, -⟩ := hmode rfl
    exact .valueOnly p (.bind hresolve fun _ _ _ => .readLocation _ p.size)
  | target =>
    obtain ⟨hresolve, huses⟩ := hmode rfl
    exact .bind hresolve fun location m' h => .orIllegal (huses location m' h p)
  | moveTarget =>
    obtain ⟨hresolve, huses⟩ := hmode rfl
    exact .bind hresolve fun location m' h => .orIllegal (huses location m' h p)
  | controlAddress =>
    obtain ⟨hresolve, huses⟩ := hmode rfl
    exact .valueOnly p (.bind hresolve fun location m' h => .orIllegal (huses location m' h))
  | movemBase =>
    obtain ⟨hresolve, huses⟩ := hmode rfl
    refine .valueOnly p (.ite (fun _ => .regs_bind (.pure _)) fun _ => ?_)
    exact .bind hresolve fun location m' h => .orIllegal (huses location m' h)
  | displacedAddress =>
    exact .valueOnly p (.regs_bind (.bind .fetchSignedWord fun _ _ _ => .pure _))
  | data f => exact .valueOnly p (.regs_bind (.pure _))
  | dataTarget f => exact .pure _
  | address f => exact .valueOnly p (.regs_bind (.pure _))
  | addressTarget f => exact .pure _
  | postincrement f => exact .valueOnly p (.fetchAt p.size (.postincrement _ p.size))
  | predecrement f => exact .valueOnly p (.fetchAt p.size (.predecrement _ p.size))
  | predecrementTarget f => exact .bind (.predecrement _ p.size) fun _ _ _ => .pure _
  | immediate => exact .valueOnly p (.bind (.fetchImmediate p.size) fun _ _ _ => .pure _)
  | immediateWord => exact .valueOnly p (.bind .fetchWord fun _ _ _ => .pure _)
  | bitNumber => exact .valueOnly p (.bind .fetchWord fun _ _ _ => .pure _)
  | extension => exact .valueOnly p (.bind .fetchWord fun _ _ _ => .pure _)
  | quick => exact .valueOnly p (.pure _)
  | signedByte => exact .valueOnly p (.pure _)
  | branchTarget => exact .valueOnly p (.fetchBranchTarget _)
  | wordBranchTarget =>
    exact .valueOnly p (.regs_bind (.bind .fetchSignedWord fun _ _ _ => .pure _))
  | displacementWord => exact .valueOnly p .fetchSignedWord
  | displacementLong => exact .valueOnly p .fetchLong
  | trapNumber => exact .valueOnly p (.pure _)
  | one => exact .valueOnly p (.pure _)
  | shiftCount => exact .valueOnly p (.fetchShiftCount _)
  | trapOperand => exact .valueOnly p (.fetchTrapOperand _)

end Fetch

namespace Exec

open Operands

theorem illegal_fetchOperand {f : Option Fetch} (hfits : ∀ g ∈ f, g.fits m.opcode = true)
    (keep : Operands → UInt32 → Operands) (p : Operands) :
    IllegalFor (∃ ext ∈ f.bind (·.indexWord? m), m.model.Rejects ext)
      (fetchOperand f keep p) m := by
  cases f with
  | none => exact .pure p
  | some f => exact .bind (Fetch.illegal_run (hfits f rfl) p) fun _ _ _ => .pure _

theorem illegal_fetchOperands {i : Instruction} (hfits : ∀ f ∈ i.fetches, f.fits m.opcode = true) :
    IllegalFor (∃ ext ∈ i.indexWords m, m.model.Rejects ext) (fetchOperands i) m := by
  have hfirst : ∀ f ∈ i.first, f.fits m.opcode = true := by
    intro f hf
    exact hfits f (List.mem_append_left _ (Option.mem_toList.mpr hf))
  refine .bind (.mono ?_ (illegal_fetchOperand hfirst _ _)) fun p m₁ h₁ => ?_
  · rintro ⟨ext, hext, hrejects⟩
    exact ⟨ext, mem_indexWords_of_first hext, hrejects⟩
  have hprepares := (prepares_firstOperand i).of_ok h₁
  have hsecond : ∀ f ∈ i.second, f.fits m₁.opcode = true := by
    intro f hf
    rw [hprepares.opcode]
    exact hfits f (List.mem_append_right _ (Option.mem_toList.mpr hf))
  refine .mono ?_ (illegal_fetchOperand hsecond _ _)
  rintro ⟨ext, hext, hrejects⟩
  rw [hprepares.model] at hrejects
  exact ⟨ext, mem_indexWords_of_second h₁ hext, hrejects⟩

theorem target_loadOperands (i : Instruction) (p : Operands) :
    Returns (fun q => q.target = p.target) (loadOperands i p) := by
  refine .ite ?_ (.pure rfl)
  rw [load]
  split
  · exact .pure rfl
  · exact .after fun _ => .pure rfl
  · exact .after fun _ => .pure rfl
  · exact .after fun _ => .pure rfl

/-- The operands of a decoded opcode are illegal only for an index word that its model rejects; each
fetch by a mode is led to a place that it can use, and where a target is loaded or stored there is
one. -/
theorem fetchOperands_of_decode {op : Opcode} {i : Instruction} {m : Machine}
    (hdecode : decode op = some i) (hop : m.opcode = op) :
    (∀ m', fetchOperands i m = .error .illegalInstruction m' →
      ∃ ext ∈ i.indexWords m, m.model.Rejects ext) ∧
    (∀ f ∈ i.fetches, f.findsPlace = true → ∃ ea, f.mode? op = some ea ∧
      ∀ size m₁ location m₂, resolve ea size m₁ = .ok location m₂ → f.Uses location) ∧
    ∀ p m₁, fetchOperands i m = .ok p m₁ → i.flags.usesTarget = true → p.target ≠ .none ∧
      ∀ q m₂ r m₃, loadOperands i p m₁ = .ok q m₂ → i.operation.perform q m₂ = .ok r m₃ →
        r.target = p.target := by
  obtain ⟨hfits, htarget⟩ := suits_decode op i hdecode
  refine ⟨?_, ?_, ?_⟩
  · rw [← hop] at hfits
    exact illegal_fetchOperands hfits
  · intro f hf hplace
    exact Fetch.exists_mode_uses (hfits f hf) hplace
  · intro p m₁ hfetch huses
    have hsets : i.fetches.any (·.setsTarget) = true := List.any_eq_true.mpr (htarget huses)
    have hfetched := fetched_fetchOperands i p m m₁ hfetch
    refine ⟨hfetched.target.mpr (.inl hsets), ?_⟩
    intro q m₂ r m₃ hload hperform
    have hretained : r = { q with result := r.result } :=
      i.operation.retains_perform q r m₂ m₃ hperform
    rw [hretained]
    exact target_loadOperands i p q m₁ m₂ hload

/-- ORI.W #1 to an index word with the reserved indirection, and to (4,A0,D0.W). -/
theorem fetchOperands_of_decode_indexed :
    let ready (words : List UInt8) : Machine :=
      { Machine.new .m68020 ((Memory.flat (.new 64 0)).patch 16 words) with
        regs := { Registers.initial with pc := 16 }
        opcode := 0x0070 }
    let reserved := ready [0x00, 0x01, 0x01, 0x24]
    let plain := ready [0x00, 0x01, 0x00, 0x04]
    let i : Instruction := ⟨some .immediate, some .target, .bitwise .or, .word, .modifies⟩
    decode 0x0070 = some i ∧
      (fetchOperands i reserved matches .error .illegalInstruction _) = true ∧
      (∃ ext ∈ i.indexWords reserved, Model.m68020.Rejects ext) ∧
      (∃ ea, Fetch.target.mode? 0x0070 = some ea) ∧
      ∃ p m₁, fetchOperands i plain = .ok p m₁ ∧ p.target ≠ .none := by
  intro ready reserved plain i
  have hdecode : decode 0x0070 = some i := by decide +kernel
  have hmatches : (fetchOperands i reserved matches .error .illegalInstruction _) = true := by
    decide +kernel
  obtain ⟨p, hplain⟩ := Machine.exists_ok_left (r := fetchOperands i plain) (by decide +kernel)
  obtain ⟨hillegal, hmodes, -⟩ := fetchOperands_of_decode (m := reserved) hdecode rfl
  obtain ⟨-, -, htarget⟩ := fetchOperands_of_decode (m := plain) hdecode rfl
  obtain ⟨ea, hea, -⟩ := hmodes .target (by decide) rfl
  refine ⟨hdecode, hmatches, ?_, ⟨ea, hea⟩, p, _, hplain, (htarget p _ hplain (by decide)).1⟩
  split at hmatches
  next m' herror => exact hillegal m' herror
  next => cases hmatches

end Exec

end Mc68k
