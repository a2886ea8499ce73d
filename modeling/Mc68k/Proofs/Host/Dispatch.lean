import Mathlib.Data.Set.Card
import Mc68k.Proofs.Execution.Instruction

namespace Mc68k

theorem callbackAddress?_eq_some {n : UInt16} {pc : Address} : callbackAddress? n = some pc ↔
    n.toNat < 32768 ∧ pc.toNat + 2 * (n.toNat + 1) = 0x100000000 := by
  have hn := n.toNat_lt
  have hpc := pc.toNat_lt
  have haddr : (-(2 * (n.toUInt32 + 1))).toNat =
      (0x100000000 - 2 * (n.toNat + 1) % 0x100000000) % 0x100000000 := by
    simp [UInt32.toNat_neg]
  rw [callbackAddress?, Option.ite_none_right_eq_some, Option.some.injEq, ← UInt32.toNat_inj, haddr,
    UInt16.lt_iff_toNat_lt, show (32768 : UInt16).toNat = 32768 from rfl]
  omega

theorem callNumber?_eq_some {pc : Address} {n : UInt16} : callNumber? pc = some n ↔
    n.toNat < 32768 ∧ pc.toNat + 2 * (n.toNat + 1) = 0x100000000 := by
  have hn := n.toNat_lt
  have hpc := pc.toNat_lt
  have hodd : pc &&& 1 = 0 ↔ pc.toNat % 2 = 0 := by
    rw [← UInt32.toNat_inj, UInt32.toNat_and, UInt32.toNat_one, Nat.and_one_is_mod]
    rfl
  have hcallback : pc < callbackRegion ↔ pc.toNat < 0xFFFF0000 := UInt32.lt_iff_toNat_lt
  have hnumber (hlow : 0xFFFF0000 ≤ pc.toNat) (heven : pc.toNat % 2 = 0) :
      (-pc / 2 - 1).toUInt16.toNat = (0x100000000 - pc.toNat) / 2 - 1 := by
    have hneg : (-pc).toNat = 0x100000000 - pc.toNat := by
      rw [UInt32.toNat_neg, UInt32.size]
      omega
    rw [UInt32.toNat_toUInt16, UInt32.toNat_sub, UInt32.toNat_div, hneg,
      show (2 : UInt32).toNat = 2 from rfl, UInt32.toNat_one]
    omega
  rw [callNumber?]
  split
  next h =>
    rw [hcallback, ne_eq, hodd] at h
    simp only [reduceCtorEq, false_iff]
    omega
  next h =>
    rw [hcallback, ne_eq, hodd] at h
    rw [Option.some.injEq, ← UInt16.toNat_inj, hnumber (by omega) (by omega)]
    omega

theorem callNumber?_iff (pc : Address) (n : UInt16) :
    callNumber? pc = some n ↔ callbackAddress? n = some pc := by
  rw [callNumber?_eq_some, callbackAddress?_eq_some]

namespace CallbackTable

variable {table : CallbackTable} {n k : UInt16} {handler : Handler}

theorem find?_filter (handlers : List (UInt16 × Handler)) (p : UInt16 → Bool) (n : UInt16) :
    (handlers.filter (p ·.1)).find? (·.1 == n) =
      if p n then handlers.find? (·.1 == n) else none := by
  induction handlers with
  | nil => simp
  | cons entry handlers ih =>
    by_cases hn : entry.1 = n
    · subst hn
      cases hp : p entry.1 with
      | false => simpa [hp] using ih
      | true => simp [hp]
    · cases hp : p entry.1 with
      | false => simpa [hp, hn] using ih
      | true => simpa [hp, hn] using ih

theorem handler?_install (table : CallbackTable) (n k : UInt16) (handler : Handler) :
    (table.install n handler).2.handler? k = if k = n then some handler else table.handler? k := by
  have hbelow := find?_filter table.handlers (· < n) k
  have habove := find?_filter table.handlers (n < ·) k
  simp only [install, handler?, List.find?_append, List.find?_cons, hbelow, habove]
  by_cases h : k = n
  · subst h
    simp [UInt16.lt_irrefl]
  · rw [if_neg h, show (n == k) = false by simpa using Ne.symm h]
    -- Below or above the number installed, one of the two parts has all entries that count.
    rcases UInt16.lt_or_lt_of_ne h with hlt | hlt
    · simp [hlt, UInt16.lt_asymm hlt]
    · simp [hlt, UInt16.lt_asymm hlt]

theorem handler?_remove (table : CallbackTable) (n k : UInt16) :
    (table.remove n).2.handler? k = if k = n then none else table.handler? k := by
  have hothers := find?_filter table.handlers (· != n) k
  rw [remove, handler?, hothers]
  by_cases h : k = n
  · simp [h]
  · simp [h, handler?]

def Ascending (table : CallbackTable) : Prop := table.handlers.Pairwise (·.1 < ·.1)

theorem Ascending.install (h : table.Ascending) (n : UInt16) (handler : Handler) :
    (table.install n handler).2.Ascending := by
  rw [Ascending, CallbackTable.install, List.pairwise_append, List.pairwise_cons]
  have hbelow (entry : UInt16 × Handler) (hentry : entry ∈ table.handlers.filter (·.1 < n)) :
      entry.1 < n := by
    simpa using List.of_mem_filter hentry
  have habove (entry : UInt16 × Handler) (hentry : entry ∈ table.handlers.filter (n < ·.1)) :
      n < entry.1 := by
    simpa using List.of_mem_filter hentry
  refine ⟨h.filter _, ⟨habove, h.filter _⟩, ?_⟩
  intro entry hentry other hother
  have hlow := hbelow entry hentry
  rcases List.mem_cons.mp hother with rfl | hother
  · exact hlow
  · exact UInt16.lt_trans hlow (habove other hother)

theorem Ascending.remove (h : table.Ascending) (n : UInt16) : (table.remove n).2.Ascending :=
  h.filter _

theorem mem_installed : n ∈ table.installed ↔ table.contains n = true := by
  simp [installed, contains, handler?, List.find?_isSome]

theorem Ascending.size_eq (h : table.Ascending) :
    table.size = {n | table.contains n = true}.ncard := by
  have hnodup : table.installed.Nodup := by
    rw [installed, List.nodup_iff_pairwise_ne, List.pairwise_map]
    exact List.Pairwise.imp UInt16.ne_of_lt h
  have hset : {n | table.contains n = true} = (table.installed.toFinset : Set UInt16) := by
    ext n
    rw [Set.mem_ofPred_eq, List.coe_toFinset, Set.mem_ofPred_eq, mem_installed]
  rw [hset, Set.ncard_coe_finset, List.toFinset_card_of_nodup hnodup, installed, List.length_map,
    size]

/-- One change of a table. -/
inductive Edit where
  | install (n : UInt16) (handler : Handler)
  | remove (n : UInt16)

def Edit.number : Edit → UInt16
  | .install n _ => n
  | .remove n => n

def edit (table : CallbackTable) : Edit → Option Handler × CallbackTable
  | .install n handler => table.install n handler
  | .remove n => table.remove n

/-- The table that changes lead to, one after the other. -/
def edited (edits : List Edit) : CallbackTable :=
  edits.foldl (fun table edit => (table.edit edit).2) empty

/-- The last change for a number installed a handler. -/
def LastInstalled (edits : List Edit) (n : UInt16) (handler : Handler) : Prop :=
  ∃ before after, edits = before ++ .install n handler :: after ∧ ∀ edit ∈ after, edit.number ≠ n

theorem lastInstalled_concat (edits : List Edit) (edit : Edit) (n : UInt16) (handler : Handler) :
    LastInstalled (edits ++ [edit]) n handler ↔
      edit = .install n handler ∨ edit.number ≠ n ∧ LastInstalled edits n handler := by
  constructor
  · rintro ⟨before, after, hedits, hafter⟩
    obtain rfl | ⟨after, last, rfl⟩ := List.eq_nil_or_concat after
    · obtain ⟨-, hlast⟩ := List.append_inj' hedits rfl
      exact .inl (List.singleton_inj.mp hlast)
    · rw [List.concat_eq_append] at hafter hedits
      rw [← List.cons_append, ← List.append_assoc] at hedits
      obtain ⟨hbefore, hlast⟩ := List.append_inj' hedits rfl
      obtain rfl := List.singleton_inj.mp hlast
      rw [List.forall_mem_append, List.forall_mem_singleton] at hafter
      exact .inr ⟨hafter.2, before, after, hbefore, hafter.1⟩
  · rintro (rfl | ⟨hnumber, before, after, rfl, hafter⟩)
    · exact ⟨edits, [], rfl, by simp⟩
    · refine ⟨before, after ++ [edit], by simp, ?_⟩
      rw [List.forall_mem_append, List.forall_mem_singleton]
      exact ⟨hafter, hnumber⟩

theorem handler?_edit (table : CallbackTable) (edit : Edit) (n : UInt16) (handler : Handler) :
    (table.edit edit).2.handler? n = some handler ↔
      edit = .install n handler ∨ edit.number ≠ n ∧ table.handler? n = some handler := by
  cases edit with
  | install k handler' =>
    rw [CallbackTable.edit, handler?_install, Edit.number, Edit.install.injEq]
    by_cases h : n = k
    · subst h
      simp
    · simp [h, Ne.symm h]
  | remove k =>
    rw [CallbackTable.edit, handler?_remove, Edit.number]
    by_cases h : n = k
    · subst h
      simp
    · simp [h, Ne.symm h]

/-- A table is its history, number by number. -/
theorem handler?_edited (edits : List Edit) (n : UInt16) (handler : Handler) :
    (edited edits).handler? n = some handler ↔ LastInstalled edits n handler := by
  induction edits using List.reverseRecOn with
  | nil => simp [edited, empty, handler?, LastInstalled]
  | append_singleton edits edit ih =>
    rw [lastInstalled_concat, ← ih, edited, List.foldl_append]
    exact handler?_edit (edited edits) edit n handler

theorem ascending_edited (edits : List Edit) : (edited edits).Ascending := by
  induction edits using List.reverseRecOn with
  | nil => exact List.Pairwise.nil
  | append_singleton edits edit ih =>
    rw [edited, List.foldl_append]
    cases edit with
    | install n handler => exact ih.install n handler
    | remove n => exact ih.remove n

theorem contains_edited (edits : List Edit) (n : UInt16) :
    (edited edits).contains n = true ↔ ∃ handler, LastInstalled edits n handler := by
  rw [contains, Option.isSome_iff_exists]
  exact exists_congr fun handler => handler?_edited edits n handler

theorem fst_edit (table : CallbackTable) (edit : Edit) :
    (table.edit edit).1 = table.handler? edit.number := by
  cases edit <;> rfl

end CallbackTable

namespace Emulator

open CallbackTable

/-- A step that runs a handler: what it resumes with is executed, and without that the processor
halts. -/
def serve (e : Emulator) (handler : Handler) : Emulator :=
  let (response, m) := handler { e.machine with instructionPc := e.machine.regs.pc }
  { e with
    machine := match response.opcode? with
      | some op => Machine.complete e.machine.regs.isTraced (Exec.execute op m)
      | none => m.halt
    terminations := response.termination?.toList ++ e.terminations }

variable {e : Emulator} {n : UInt16} {handler : Handler}

theorem step_of_handler (running : e.machine.condition = .normal)
    (hpc : callNumber? e.machine.regs.pc = some n)
    (h : e.callbacks.handler? n = some handler) :
    e.step = ((e.serve handler).isRunning, e.serve handler) := by
  have hr : e.isRunning = true := by simp [isRunning, running]
  have hadvance : e.advance = e.serve handler := by
    simp only [advance, hpc, CallbackTable.invoke, h, serve]
    cases (handler { e.machine with instructionPc := e.machine.regs.pc }).1.opcode? <;> rfl
  rw [step, if_pos hr, hadvance]

theorem step_of_no_handler (running : e.machine.condition = .normal)
    (hpc : callNumber? e.machine.regs.pc = some n) (h : e.callbacks.handler? n = none) :
    e.step = (false, { e with machine := { e.machine with
      condition := .halted, instructionPc := e.machine.regs.pc } }) := by
  have hr : e.isRunning = true := by simp [isRunning, running]
  have hadvance : e.advance = { e with machine := { e.machine with
      condition := .halted, instructionPc := e.machine.regs.pc } } := by
    simp only [advance, hpc, CallbackTable.invoke, h]
    rfl
  rw [step, if_pos hr, hadvance]
  rfl

theorem step_of_resumed {op : Opcode} {m : Machine} (running : e.machine.condition = .normal)
    (hpc : callNumber? e.machine.regs.pc = some n) (h : e.callbacks.handler? n = some handler)
    (resumed : handler { e.machine with instructionPc := e.machine.regs.pc } = (.resume op, m)) :
    let e' := { e with
      machine := Machine.complete e.machine.regs.isTraced (Exec.execute op m) }
    e.step = (e'.isRunning, e') := by
  rw [step_of_handler running hpc h, serve, resumed]
  rfl

theorem step_of_declined (running : e.machine.condition = .normal)
    (hpc : callNumber? e.machine.regs.pc = some n) (h : e.callbacks.handler? n = some handler)
    (declined : (handler { e.machine with instructionPc := e.machine.regs.pc }).1.opcode? = none) :
    e.step.1 = false ∧ e.step.2.machine.condition = .halted := by
  have hhalted : (e.serve handler).machine.condition = .halted := by
    simp only [serve, declined]
    rfl
  rw [step_of_handler running hpc h]
  exact ⟨by rw [isRunning, hhalted]; rfl, hhalted⟩

/-- After any changes of a table, a step at the address of a call runs the handler installed last,
or halts where there is none. -/
theorem dispatches_edited (edits : List Edit) :
    (∀ pc n, callNumber? pc = some n ↔ callbackAddress? n = some pc) ∧
    (∀ n, (callbackAddress? n).isSome = true ↔ n < 32768) ∧
    (∀ edit handler, ((edited edits).edit edit).1 = some handler ↔
      LastInstalled edits edit.number handler) ∧
    (∀ n, (edited edits).contains n = true ↔ ∃ handler, LastInstalled edits n handler) ∧
    (edited edits).size = {n | ∃ handler, LastInstalled edits n handler}.ncard ∧
    ∀ (e : Emulator) (n : UInt16), e.callbacks = edited edits → e.machine.condition = .normal →
      callbackAddress? n = some e.machine.regs.pc →
      (∀ handler, LastInstalled edits n handler →
        e.step = ((e.serve handler).isRunning, e.serve handler) ∧
        ((handler { e.machine with instructionPc := e.machine.regs.pc }).1.opcode? = none →
          e.step.1 = false ∧ e.step.2.machine.condition = .halted)) ∧
      ((¬∃ handler, LastInstalled edits n handler) →
        e.step = (false, { e with machine := { e.machine with
          condition := .halted, instructionPc := e.machine.regs.pc } })) := by
  refine ⟨callNumber?_iff, ?_, ?_, contains_edited edits, ?_, ?_⟩
  · intro n
    rw [callbackAddress?, Option.isSome_ite]
  · intro edit handler
    rw [fst_edit]
    exact handler?_edited edits edit.number handler
  · rw [(ascending_edited edits).size_eq]
    congr 1
    ext n
    exact contains_edited edits n
  · intro e n hcallbacks running haddress
    have hpc := (callNumber?_iff _ _).mpr haddress
    refine ⟨?_, ?_⟩
    · intro handler hlast
      have hfound : e.callbacks.handler? n = some handler := by
        rw [hcallbacks]
        exact (handler?_edited edits n handler).mpr hlast
      exact ⟨step_of_handler running hpc hfound, step_of_declined running hpc hfound⟩
    · intro hnone
      have hmissing : e.callbacks.handler? n = none := by
        rw [hcallbacks, Option.eq_none_iff_forall_ne_some]
        intro handler hfound
        exact hnone ⟨handler, (handler?_edited edits n handler).mp hfound⟩
      exact step_of_no_handler running hpc hmissing

/-- Two handlers for the lowest call, of which the second declines. -/
theorem dispatches_edited_lowest :
    let returns : Handler := fun m => (.resume rtsOpcode, m)
    let declines : Handler := fun m => (.decline, { m with opcode := 7 })
    let edits : List Edit := [.install 32767 returns, .install 32766 returns,
      .install 32767 declines, .remove 32766]
    let at_ (pc : Address) : Emulator := ⟨{ Machine.new .m68000 (.flat (.new 0 0)) with
      regs := { Registers.initial with pc } }, edited edits, []⟩
    (edited edits).size = 1 ∧ (edited edits).contains 32767 = true ∧
      (at_ 0xFFFF0000).step.1 = false ∧ (at_ 0xFFFF0000).step.2.machine.opcode = 7 ∧
      (at_ 0xFFFF0002).step = (false, { at_ 0xFFFF0002 with machine :=
        { (at_ 0xFFFF0002).machine with condition := .halted, instructionPc := 0xFFFF0002 } }) := by
  intro returns declines edits at_
  have hlast : LastInstalled edits 32767 declines :=
    ⟨[.install 32767 returns, .install 32766 returns], [.remove 32766], rfl, by simp [Edit.number]⟩
  have hremoved : ¬∃ handler, LastInstalled edits 32766 handler := by
    rw [← contains_edited]
    decide
  obtain ⟨-, -, -, hcontains, -, hstep⟩ := dispatches_edited edits
  obtain ⟨hserved, -⟩ := hstep (at_ 0xFFFF0000) 32767 rfl rfl (by decide)
  obtain ⟨-, hmissing⟩ := hstep (at_ 0xFFFF0002) 32766 rfl rfl (by decide)
  obtain ⟨hrun, hdeclined⟩ := hserved declines hlast
  refine ⟨by decide, (hcontains 32767).mpr ⟨declines, hlast⟩, (hdeclined rfl).1, ?_,
    hmissing hremoved⟩
  rw [hrun]
  rfl

end Emulator

end Mc68k
