import Mathlib.Logic.Function.Iterate
import Mc68k.Proofs.Execution.Session

namespace Mc68k

namespace Emulator

/-- The emulator after `n` steps, whatever they told. -/
def after (e : Emulator) (n : Nat) : Emulator := (fun e => e.step.2)^[n] e

/-- The last step of a run told that it was the last. -/
def EndsWithin (e : Emulator) (limit : Nat) : Prop :=
  ∃ k, (e.run limit).1 = k + 1 ∧ (e.after k).step.1 = false

variable {e : Emulator}

theorem step_of_idle (idle : e.machine.condition ≠ .normal) : e.step = (false, e) := by
  have hidle : e.isRunning = false := by simpa [isRunning] using idle
  rw [step, hidle]
  rfl

theorem run_succ_of_true (h : e.step.1 = true) (limit : Nat) :
    e.run (limit + 1) = ((e.step.2.run limit).1 + 1, (e.step.2.run limit).2) := by
  rw [run_succ, if_pos h]

theorem run_succ_of_false (h : e.step.1 = false) (limit : Nat) :
    e.run (limit + 1) = (1, e.step.2) := by
  rw [run_succ, if_neg (by simp [h])]

theorem run_of_idle (idle : e.machine.condition ≠ .normal) (limit : Nat) :
    (e.run limit).2 = e := by
  cases limit with
  | zero => rfl
  | succ limit =>
    have hstep := step_of_idle idle
    rw [run_succ_of_false (by rw [hstep]), hstep]

theorem idle_of_step (h : e.step.1 = false) : e.step.2.machine.condition ≠ .normal := by
  intro running
  rw [step_fst, isRunning, running] at h
  cases h

theorem resume_of_ne (h : e.machine.condition ≠ .stopped) : e.resume = e := by
  rw [resume, if_neg h]

theorem not_endsWithin_zero (e : Emulator) : ¬e.EndsWithin 0 := by
  rintro ⟨k, hcount, -⟩
  exact absurd hcount (Nat.succ_ne_zero k).symm

theorem endsWithin_succ_of_false (h : e.step.1 = false) (limit : Nat) :
    e.EndsWithin (limit + 1) := by
  refine ⟨0, ?_, h⟩
  rw [run_succ_of_false h]

theorem endsWithin_succ_of_true (h : e.step.1 = true) (limit : Nat) :
    e.EndsWithin (limit + 1) ↔ e.step.2.EndsWithin limit := by
  rw [EndsWithin, EndsWithin, run_succ_of_true h]
  constructor
  · rintro ⟨k, hcount, hlast⟩
    cases k with
    | zero =>
      have hfirst : e.step.1 = false := hlast
      rw [h] at hfirst
      cases hfirst
    | succ k => exact ⟨k, Nat.succ.inj hcount, hlast⟩
  · rintro ⟨k, hcount, hlast⟩
    exact ⟨k + 1, congrArg (· + 1) hcount, hlast⟩

theorem run_eq_after (e : Emulator) (limit : Nat) :
    (e.run limit).2 = e.after (e.run limit).1 ∧
      ∀ k, k + 1 < (e.run limit).1 → (e.after k).step.1 = true := by
  induction limit generalizing e with
  | zero =>
    refine ⟨rfl, ?_⟩
    intro k hk
    exact absurd hk (Nat.not_lt_zero _)
  | succ limit ih =>
    cases h : e.step.1 with
    | false =>
      rw [run_succ_of_false h]
      refine ⟨rfl, ?_⟩
      intro k hk
      exact absurd (Nat.lt_of_succ_lt_succ hk) (Nat.not_lt_zero k)
    | true =>
      obtain ⟨hstate, hsteps⟩ := ih e.step.2
      rw [run_succ_of_true h]
      refine ⟨hstate, ?_⟩
      intro k hk
      cases k with
      | zero => exact h
      | succ k => exact hsteps k (Nat.lt_of_succ_lt_succ hk)

theorem idle_of_endsWithin {limit : Nat} (h : e.EndsWithin limit) :
    (e.run limit).2.machine.condition ≠ .normal := by
  obtain ⟨k, hcount, hlast⟩ := h
  have hstate := (e.run_eq_after limit).1
  rw [hcount, after, Function.iterate_succ_apply'] at hstate
  rw [hstate]
  exact idle_of_step hlast

theorem run_add_of_endsWithin {a : Nat} (h : e.EndsWithin a) (b : Nat) :
    e.run (a + b) = e.run a := by
  induction a generalizing e with
  | zero => exact absurd h e.not_endsWithin_zero
  | succ a ih =>
    rw [Nat.succ_add]
    cases hstep : e.step.1 with
    | false => rw [run_succ_of_false hstep, run_succ_of_false hstep]
    | true =>
      rw [endsWithin_succ_of_true hstep] at h
      rw [run_succ_of_true hstep, run_succ_of_true hstep, ih h]

theorem run_add_of_not_endsWithin {a : Nat} (h : ¬e.EndsWithin a) (b : Nat) :
    e.run (a + b) = (a + ((e.run a).2.run b).1, ((e.run a).2.run b).2) := by
  induction a generalizing e with
  | zero => rw [Nat.zero_add, Nat.zero_add, run_zero]
  | succ a ih =>
    cases hstep : e.step.1 with
    | false => exact absurd (endsWithin_succ_of_false hstep a) h
    | true =>
      rw [endsWithin_succ_of_true hstep] at h
      rw [Nat.succ_add, run_succ_of_true hstep, run_succ_of_true hstep, ih h, Nat.succ_add]

theorem fst_run_of_not_endsWithin {limit : Nat} (h : ¬e.EndsWithin limit) :
    (e.run limit).1 = limit :=
  congrArg Prod.fst (run_add_of_not_endsWithin h 0)

theorem snd_run_add (e : Emulator) (a b : Nat) :
    (e.run (a + b)).2 = ((e.run a).2.run b).2 := by
  by_cases h : e.EndsWithin a
  · rw [run_add_of_endsWithin h, run_of_idle (idle_of_endsWithin h)]
  · rw [run_add_of_not_endsWithin h]

theorem perform_of_halted (halted : e.machine.condition = .halted) {command : Command}
    (h : command ≠ .reset) : e.perform command = e := by
  have idle : e.machine.condition ≠ .normal := by simp [halted]
  cases command with
  | step => exact congrArg Prod.snd (step_of_idle idle)
  | run limit => exact run_of_idle idle limit
  | reset => exact absurd rfl h
  | resume => exact resume_of_ne (by simp [halted])

theorem session_of_halted (halted : e.machine.condition = .halted) {commands : List Command}
    (h : .reset ∉ commands) : e.session commands = e := by
  induction commands with
  | nil => rfl
  | cons command commands ih =>
    have hrest : .reset ∉ commands := fun hmem => h (List.mem_cons_of_mem _ hmem)
    have hcommand : command ≠ .reset := fun heq => h (heq ▸ List.mem_cons_self)
    rw [session, List.foldl_cons, perform_of_halted halted hcommand]
    exact ih hrest

/-- Two runs come to what one run of both their lengths comes to, and what is stopped or halted
stays as it is until it is resumed. -/
theorem run_composes (e : Emulator) (a b : Nat) :
    ((e.run a).2.run b).2 = (e.run (a + b)).2 ∧
    (e.EndsWithin a → (e.run (a + b)).1 = (e.run a).1) ∧
    (¬e.EndsWithin a →
      (e.run a).1 = a ∧ (e.run (a + b)).1 = (e.run a).1 + ((e.run a).2.run b).1) ∧
    ((e.run a).2 = e.after (e.run a).1 ∧
      ∀ k, k + 1 < (e.run a).1 → (e.after k).step.1 = true) ∧
    (e.step.1 = true ↔ e.step.2.machine.condition = .normal) ∧
    (e.machine.condition ≠ .normal → e.step = (false, e) ∧ (e.run a).2 = e) ∧
    (e.machine.condition = .stopped →
      e.resume = { e with machine := { e.machine with condition := .normal } }) ∧
    (e.machine.condition ≠ .stopped → e.resume = e) ∧
    (e.machine.condition = .halted →
      ∀ commands, .reset ∉ commands → e.session commands = e) := by
  refine ⟨(snd_run_add e a b).symm, ?_, ?_, e.run_eq_after a, ?_, ?_, ?_, resume_of_ne, ?_⟩
  · intro hends
    rw [run_add_of_endsWithin hends]
  · intro hgoes
    have hcount := fst_run_of_not_endsWithin hgoes
    refine ⟨hcount, ?_⟩
    rw [run_add_of_not_endsWithin hgoes, hcount]
  · rw [step_fst, isRunning]
    exact beq_iff_eq
  · intro idle
    exact ⟨step_of_idle idle, run_of_idle idle a⟩
  · intro stopped
    rw [resume, if_pos stopped]
  · intro halted commands hreset
    exact session_of_halted halted hreset

/-- NOP and STOP: a run of one step goes on, a run of two has ended. -/
theorem run_composes_stop :
    let e : Emulator := ⟨{ Machine.new .m68000
        (.flat ⟨.ofList [0x4E, 0x71, 0x4E, 0x72, 0x20, 0x00], 0⟩) with
      regs := { Registers.initial with ssp := 6 } }, .empty, []⟩
    ¬e.EndsWithin 1 ∧ (e.run (1 + 3)).1 = (e.run 1).1 + ((e.run 1).2.run 3).1 ∧
      e.EndsWithin 2 ∧ (e.run (2 + 3)).1 = (e.run 2).1 ∧
      (e.run 2).2.step = (false, (e.run 2).2) ∧
      (e.run 2).2.resume.machine.condition = .normal ∧
      ({ e with machine := e.machine.halt } : Emulator).session [.step, .resume, .run 3] =
        { e with machine := e.machine.halt } := by
  intro e
  have hends : e.EndsWithin 2 := ⟨1, by decide +kernel, by decide +kernel⟩
  have hgoes : ¬e.EndsWithin 1 := by
    rintro ⟨k, hcount, hlast⟩
    have hone : (e.run 1).1 = 1 := by decide +kernel
    obtain rfl : k = 0 := by omega
    have hfirst : (e.after 0).step.1 = true := by decide +kernel
    rw [hfirst] at hlast
    cases hlast
  have hstopped : (e.run 2).2.machine.condition = .stopped := by decide +kernel
  obtain ⟨-, -, hadd, -⟩ := e.run_composes 1 3
  obtain ⟨-, hsame, -⟩ := e.run_composes 2 3
  obtain ⟨-, -, -, -, -, hidle, hresume, -⟩ := (e.run 2).2.run_composes 0 0
  obtain ⟨-, -, -, -, -, -, -, -, hhalted⟩ :=
    ({ e with machine := e.machine.halt } : Emulator).run_composes 0 0
  refine ⟨hgoes, (hadd hgoes).2, hends, hsame hends, ?_, ?_, ?_⟩
  · exact (hidle (by simp [hstopped])).1
  · rw [hresume hstopped]
  · exact hhalted rfl _ (by decide)

end Emulator

end Mc68k
