import Mc68k.Proofs.Host.Requests
import Mc68k.Proofs.Memory.Bytes

namespace Mc68k

namespace Emulator

/-- What is done with an emulator. -/
inductive Command where
  | step
  | run (limit : Nat)
  | reset
  | resume
  deriving DecidableEq, Repr

def perform (e : Emulator) : Command → Emulator
  | .step => e.step.2
  | .run limit => (e.run limit).2
  | .reset => e.reset
  | .resume => e.resume

def session (e : Emulator) (commands : List Command) : Emulator := commands.foldl perform e

theorem run_preserves {P : Emulator → Prop} (hstep : ∀ e, P e → P e.step.2) (limit : Nat)
    {e : Emulator} (h : P e) : P (e.run limit).2 := by
  induction limit generalizing e with
  | zero => exact h
  | succ limit ih =>
    rw [run_succ]
    split
    · exact ih (hstep e h)
    · exact hstep e h

theorem session_preserves {P : Emulator → Prop} (hstep : ∀ e, P e → P e.step.2)
    (hreset : ∀ e, P e → P e.reset) (hresume : ∀ e, P e → P e.resume) (commands : List Command)
    {e : Emulator} (h : P e) : P (e.session commands) := by
  induction commands generalizing e with
  | nil => exact h
  | cons command commands ih =>
    refine ih (e := e.perform command) ?_
    cases command with
    | step => exact hstep e h
    | run limit => exact run_preserves hstep limit h
    | reset => exact hreset e h
    | resume => exact hresume e h

open Machine (Asks)

theorem asks_step (e : Emulator) (hcalls : e.callbacks.Serves) :
    Asks e.machine e.step.2.machine :=
  e.leads_step (fun _ _ => Machine.Act.asks) Machine.asks_enterHandler
    fun n m => (hcalls n m).asks

theorem callbacks_step (e : Emulator) : e.step.2.callbacks = e.callbacks := by
  rw [step]
  split
  · simp only [advance]
    split
    · split <;> rfl
    · split <;> rfl
  · rfl

theorem asks_session (e : Emulator) (hcalls : e.callbacks.Serves) (commands : List Command) :
    Asks e.machine (e.session commands).machine := by
  let P (e' : Emulator) : Prop := e'.callbacks.Serves ∧ Asks e.machine e'.machine
  have hstep : ∀ e', P e' → P e'.step.2 := by
    rintro e' ⟨hcalls', hasks⟩
    refine ⟨?_, hasks.trans (e'.asks_step hcalls')⟩
    rw [callbacks_step]
    exact hcalls'
  have hreset : ∀ e', P e' → P e'.reset := by
    rintro e' ⟨hcalls', hasks⟩
    exact ⟨hcalls', hasks.trans e'.machine.asks_reset⟩
  have hresume : ∀ e', P e' → P e'.resume := by
    rintro e' ⟨hcalls', hasks⟩
    rw [resume]
    split
    · exact ⟨hcalls', hasks.congr rfl⟩
    · exact ⟨hcalls', hasks⟩
  exact (session_preserves hstep hreset hresume commands ⟨hcalls, .refl _⟩).2

/-- Sessions leave read-only memory as it is, and every region in its place. -/
theorem session_keeps_readOnly (e : Emulator) (map : MemoryMap)
    (hmemory : e.machine.memory = .mapped map) (hreached : map.Reached)
    (hcalls : e.callbacks = .empty ∨ ∃ host, e.callbacks = Host.table host)
    (commands : List Command) :
    ∃ map', (e.session commands).machine.memory = .mapped map' ∧
      List.Forall₂ (fun s s' => s'.base = s.base ∧ s'.bytes.size = s.bytes.size ∧
        s'.protection = s.protection ∧
        (s.protection.contains .readOnly = true → s'.bytes = s.bytes))
        map.regions map'.regions := by
  obtain ⟨requests, hguest, hmap'⟩ :=
    e.asks_session (CallbackTable.serves hcalls) commands map hmemory
  have hkeeps := MemoryMap.KeepsRegions.run hreached.orderly hguest
  refine ⟨_, hmap', hkeeps.imp ?_⟩
  intro s s' hkept
  have hextent := hkept.extent
  refine ⟨congrArg Extent.base hextent, congrArg Extent.size hextent,
    congrArg Extent.protection hextent, ?_⟩
  intro hread
  rw [hkept.readOnly hread]

/-- A program in read-only memory that writes over itself. -/
theorem session_keeps_readOnly_rom :
    let rom : Protection := .ram ||| .readOnly
    let map := (MemoryMap.withHeap (Heap.new 0x3000 0x1000)).run
      [.map 0x1000 (.ofList [0x10, 0x80, 0x4E, 0x71]) rom]
    let e : Emulator := ⟨{ Machine.new .m68010 (.mapped map) with
      regs := { Registers.initial with pc := 0x1000, address := #v[0x1000, 0, 0, 0, 0, 0, 0] } },
      .empty, []⟩
    map.regions.map (·.protection) = [rom] ∧ rom.contains .readOnly = true ∧
      ∃ map', (e.session [.step, .run 3, .reset, .resume]).machine.memory = .mapped map' ∧
        List.Forall₂ (fun s s' => s'.base = s.base ∧ s'.bytes.size = s.bytes.size ∧
          s'.protection = s.protection ∧
          (s.protection.contains .readOnly = true → s'.bytes = s.bytes))
          map.regions map'.regions := by
  intro rom map e
  refine ⟨by decide +kernel, by decide, ?_⟩
  exact e.session_keeps_readOnly map rfl ⟨0x3000, 0x1000, _, _, .withHeap, rfl⟩ (.inl rfl) _

end Emulator

end Mc68k
