import Mc68k.Proofs.Exception.Trace
import Mc68k.Proofs.Host.Dispatch
import Mc68k.Proofs.Host.NewPtr

namespace Mc68k

namespace Host

/-- Where a vector lies in the table at `vbr`. -/
def slot (vbr : Address) (vector : Nat) : Address := vbr + UInt32.ofNat (4 * vector)

theorem toNat_slot (vbr : Address) (vector : Nat) :
    (slot vbr vector).toNat = (vbr.toNat + 4 * vector) % 2 ^ 32 := by
  rw [slot, UInt32.toNat_add, UInt32.toNat_ofNat', Nat.add_mod_mod]

/-- Slots are apart in a table that wraps around too, as the address space is whole longs. -/
theorem slot_apart (vbr : Address) {v w : Nat} (hv : v < 256) (hw : w < 256) (hne : v ≠ w) :
    (slot vbr v).toNat + 4 ≤ (slot vbr w).toNat ∨
      (slot vbr w).toNat + 4 ≤ (slot vbr v).toNat := by
  rw [toNat_slot, toNat_slot]
  omega

/-- A range that the slots of no vectors reach into. -/
def Misses (vbr : Address) (entries : List (Nat × HostCall)) (addr : Address) (n : Nat) : Prop :=
  ∀ entry ∈ entries, addr.toNat + n ≤ (slot vbr entry.1).toNat ∨
    (slot vbr entry.1).toNat + 4 ≤ addr.toNat

/-- Vectors have come to point to calls, and nothing but their slots and the bus is new. -/
structure PointsTo (vbr : Address) (entries : List (Nat × HostCall)) (m m' : Machine) :
    Prop where
  vector (entry : Nat × HostCall) (h : entry ∈ entries) :
    m'.memory.view? (slot vbr entry.1) 4 .supervisorData .read =
      some (toBigEndian entry.2.address .long)
  byte? (addr : Address) (h : Misses vbr entries addr 1) :
    m'.memory.byte? addr = m.memory.byte? addr
  view? (addr : Address) (n : Nat) (fc : FunctionCode) (access : Access)
    (h : Misses vbr entries addr n) :
    m'.memory.view? addr n fc access = m.memory.view? addr n fc access
  shape : m'.memory.shape = m.memory.shape
  updates : m'.memory.updates = m.memory.updates
  others : m' = { m with memory := m'.memory, cycles := m'.cycles }

def withVector (m : Machine) (vbr : Address) (vector : Nat) (call : HostCall) : Machine :=
  { m with
    memory := m.memory.patch (slot vbr vector) (toBigEndian call.address .long)
    cycles := m.cycle (slot vbr vector) 4 .supervisorData .write :: m.cycles }

namespace PointsTo

variable {vbr : Address} {before after : List (Nat × HostCall)} {m m' m'' : Machine}

theorem nil (vbr : Address) (m : Machine) (cycles : List BusCycle) :
    PointsTo vbr [] m { m with cycles } :=
  ⟨by simp, fun _ _ => rfl, fun _ _ _ _ _ => rfl, rfl, rfl, rfl⟩

theorem single {vector : Nat} (call : HostCall)
    (h : m.memory.admits (slot vbr vector) 4 .supervisorData .write = true) :
    PointsTo vbr [(vector, call)] m (withVector m vbr vector call) where
  vector entry hentry := by
    obtain rfl := List.mem_singleton.mp hentry
    exact Memory.view?_patch _ _ (toBigEndian call.address .long) _ _
      (Memory.admits_read_of_write h)
  byte? addr hmiss := by
    have hlen := length_toBigEndian call.address .long
    have hapart := hmiss _ (List.mem_singleton_self _)
    apply Memory.byte?_patch
    rw [hlen]
    exact hapart.imp_left Nat.lt_of_succ_le
  view? addr n fc access hmiss := by
    have hlen := length_toBigEndian call.address .long
    have hapart := hmiss _ (List.mem_singleton_self _)
    apply Memory.view?_patch_of_disjoint
    rw [hlen]
    exact hapart
  shape := Memory.shape_patch _ _ _
  updates := Memory.updates_patch _ _ _
  others := rfl

theorem append (h : PointsTo vbr before m m') (h' : PointsTo vbr after m' m'')
    (apart : ∀ entry ∈ before, Misses vbr after (slot vbr entry.1) 4) :
    PointsTo vbr (before ++ after) m m'' where
  vector entry hentry := by
    rcases List.mem_append.mp hentry with hbefore | hafter
    · rw [h'.view? _ _ _ _ (apart entry hbefore)]
      exact h.vector entry hbefore
    · exact h'.vector entry hafter
  byte? addr hmiss := by
    obtain ⟨hbefore, hafter⟩ := List.forall_mem_append.mp hmiss
    rw [h'.byte? addr hafter, h.byte? addr hbefore]
  view? addr n fc access hmiss := by
    obtain ⟨hbefore, hafter⟩ := List.forall_mem_append.mp hmiss
    rw [h'.view? addr n fc access hafter, h.view? addr n fc access hbefore]
  shape := h'.shape.trans h.shape
  updates := h'.updates.trans h.updates
  others := by rw [h'.others, h.others]

end PointsTo

/-- Vectors below 256, each of them once. -/
structure Ordered (entries : List (Nat × HostCall)) : Prop where
  ascending : entries.Pairwise (·.1 < ·.1)
  small : ∀ entry ∈ entries, entry.1 < 256

theorem ordered_vectors : Ordered vectors := ⟨by decide, by decide⟩

theorem Ordered.misses {vbr : Address} {entry : Nat × HostCall} {rest : List (Nat × HostCall)}
    (h : Ordered (entry :: rest)) : Misses vbr rest (slot vbr entry.1) 4 := by
  intro other hother
  have hlt := (List.pairwise_cons.mp h.ascending).1 other hother
  have hentry := h.small entry List.mem_cons_self
  exact slot_apart vbr hentry (h.small other (List.mem_cons_of_mem _ hother)) (Nat.ne_of_lt hlt)

theorem Ordered.tail {entry : Nat × HostCall} {rest : List (Nat × HostCall)}
    (h : Ordered (entry :: rest)) : Ordered rest :=
  ⟨(List.pairwise_cons.mp h.ascending).2, fun other hother =>
    h.small other (List.mem_cons_of_mem _ hother)⟩

theorem Ordered.filter_eq {before after : List (Nat × HostCall)} {entry : Nat × HostCall}
    (h : Ordered (before ++ entry :: after)) :
    (before ++ entry :: after).filter (·.1 < entry.1) = before := by
  obtain ⟨-, hafter, hbefore⟩ := List.pairwise_append.mp h.ascending
  have hbelow : before.filter (·.1 < entry.1) = before := by
    rw [List.filter_eq_self]
    intro other hother
    exact decide_eq_true (hbefore other hother entry List.mem_cons_self)
  have habove : (entry :: after).filter (·.1 < entry.1) = [] := by
    rw [List.filter_eq_nil_iff]
    intro other hother
    rw [decide_eq_true_eq, Nat.not_lt]
    rcases List.mem_cons.mp hother with rfl | hother
    · exact Nat.le_refl _
    · exact Nat.le_of_lt ((List.pairwise_cons.mp hafter).1 other hother)
  rw [List.filter_append, hbelow, habove, List.append_nil]

variable {vbr : Address} {m : Machine} {vector : Nat}

theorem installVectors_cons (call : HostCall) (rest : List (Nat × HostCall)) :
    installVectors vbr ((vector, call) :: rest) m =
      let (written, m) :=
        m.store (slot vbr vector) (toBigEndian call.address .long) .supervisorData
      (if written then installVectors vbr rest
        else throw (.vectorTable vector (slot vbr vector)) : Service Unit) m := rfl

theorem installVectors_of_admits (call : HostCall) (rest : List (Nat × HostCall))
    (h : m.memory.admits (slot vbr vector) 4 .supervisorData .write = true) :
    installVectors vbr ((vector, call) :: rest) m =
      installVectors vbr rest (withVector m vbr vector call) := by
  rw [installVectors_cons, m.store_of_admits _ (toBigEndian call.address .long) _ h]
  rfl

theorem installVectors_of_not_admits (call : HostCall) (rest : List (Nat × HostCall))
    (h : m.memory.admits (slot vbr vector) 4 .supervisorData .write = false) :
    installVectors vbr ((vector, call) :: rest) m =
      .error (.vectorTable vector (slot vbr vector))
        { m with cycles := m.cycle (slot vbr vector) 4 .supervisorData .write :: m.cycles } := by
  rw [installVectors_cons, m.store_of_not_admits _ (toBigEndian call.address .long) _ h]
  rfl

/-- All of the vectors are written, or those before the first whose slot is refused. -/
theorem installVectors_cases (vbr : Address) {entries : List (Nat × HostCall)}
    (h : Ordered entries) (m : Machine) :
    (∃ m', installVectors vbr entries m = .ok () m' ∧ PointsTo vbr entries m m') ∨
    ∃ before vector call after m', entries = before ++ (vector, call) :: after ∧
      installVectors vbr entries m = .error (.vectorTable vector (slot vbr vector)) m' ∧
      PointsTo vbr before m m' ∧
      m.memory.admits (slot vbr vector) 4 .supervisorData .write = false := by
  induction entries generalizing m with
  | nil => exact .inl ⟨m, rfl, .nil vbr m m.cycles⟩
  | cons entry rest ih =>
    obtain ⟨vector, call⟩ := entry
    cases hw : m.memory.admits (slot vbr vector) 4 .supervisorData .write with
    | false =>
      rw [installVectors_of_not_admits call rest hw]
      exact .inr ⟨[], vector, call, rest, _, rfl, rfl, .nil vbr m _, hw⟩
    | true =>
      rw [installVectors_of_admits call rest hw]
      have hfirst := PointsTo.single call hw
      -- The vectors written later lie in other slots.
      have happend {m' : Machine} {after : List (Nat × HostCall)} (hsub : ∀ x ∈ after, x ∈ rest)
          (hafter : PointsTo vbr after (withVector m vbr vector call) m') :
          PointsTo vbr ((vector, call) :: after) m m' := by
        refine hfirst.append hafter ?_
        intro first hmem other hother
        obtain rfl := List.mem_singleton.mp hmem
        exact h.misses other (hsub other hother)
      obtain ⟨m', hrun, hrest⟩ | ⟨before, v, c, after, m', rfl, hrun, hbefore, hrefused⟩ :=
        ih h.tail (withVector m vbr vector call)
      · exact .inl ⟨m', hrun, happend (fun _ hx => hx) hrest⟩
      · rw [withVector, Memory.admits_patch] at hrefused
        refine .inr ⟨(vector, call) :: before, v, c, after, m', rfl, hrun, ?_, hrefused⟩
        exact happend (fun x hx => List.mem_append_left _ hx) hbefore

end Host

namespace Machine

theorem raise_of_vector {m : Machine} {e : Exception} {handler : Address}
    (running : m.condition = .normal)
    (hvector : m.memory.view? (m.vectorAddress e) 4 .supervisorData .read =
      some (toBigEndian handler .long))
    (apart : (m.vectorAddress e).toNat + 4 + e.frameLength m.model ≤ m.regs.ssp.toNat ∨
      m.regs.ssp.toNat ≤ (m.vectorAddress e).toNat)
    (hraised : (m.raise e).condition ≠ .halted) :
    (m.raise e).regs.pc = handler ∧ (m.raise e).condition = .normal := by
  have hcases := m.raised e
  generalize m.raise e = raised at hcases hraised ⊢
  cases hcases with
  | halted => exact absurd rfl hraised
  | @handled m' found hstacked hholds hfound heven hfault =>
    have hssp : m'.regs.ssp.toNat + e.frameLength m.model = m.regs.ssp.toNat := by
      rw [← e.size_frame m]
      exact hstacked.ssp
    have hview := hstacked.view? (m.vectorAddress e) 4 .supervisorData .read
      (apart.imp_left fun _ => by omega)
    have hsame : m.supervised.memory = m.memory := rfl
    rw [hview, hsame, hvector, Option.map_some, ofBigEndian_toBigEndian_long] at hfound
    have hcondition : m'.condition = .normal := hstacked.condition.trans running
    refine ⟨(Option.some.inj hfound).symm, ?_⟩
    simp [hcondition]

end Machine

namespace Host

theorem mem_vectors {entry : Nat × HostCall} (h : entry ∈ vectors) :
    4 ≤ entry.1 ∧ entry.1 ≤ 11 ∧ entry.2.number.toNat + 2 = entry.1 := by
  revert entry
  decide

theorem exists_vector {vector : Nat} (hlow : 4 ≤ vector) (hhigh : vector ≤ 11) :
    ∃ call, (vector, call) ∈ vectors := by
  have hall : ∀ v < 12, 4 ≤ v → ∃ entry ∈ vectors, entry.1 = v := by decide
  obtain ⟨entry, hentry, rfl⟩ := hall vector (Nat.lt_succ_of_le hhigh) hlow
  exact ⟨entry.2, hentry⟩

theorem pointsTo_of_ok {vbr : Address} {m m' : Machine}
    (h : installDefaultVectors vbr m = .ok () m') : PointsTo vbr vectors m m' := by
  have hcases := installVectors_cases vbr ordered_vectors m
  rw [← installDefaultVectors, h] at hcases
  obtain ⟨m₁, hok, hpoints⟩ | ⟨before, v, call, after, m₁, -, herror, -⟩ := hcases
  · obtain ⟨-, rfl⟩ := EStateM.Result.ok.inj hok
    exact hpoints
  · cases herror

theorem refused_of_error {vbr : Address} {m m' : Machine} {err : HostError}
    (h : installDefaultVectors vbr m = .error err m') :
    ∃ v, 4 ≤ v ∧ v ≤ 11 ∧ err = .vectorTable v (slot vbr v) ∧
      PointsTo vbr (vectors.filter (·.1 < v)) m m' ∧
      m.memory.admits (slot vbr v) 4 .supervisorData .write = false := by
  have hcases := installVectors_cases vbr ordered_vectors m
  rw [← installDefaultVectors, h] at hcases
  obtain ⟨m₁, hok, -⟩ | ⟨before, v, call, after, m₁, hentries, herror, hbefore, hrefused⟩ := hcases
  · cases hok
  · obtain ⟨rfl, rfl⟩ := EStateM.Result.error.inj herror
    have hordered := ordered_vectors
    rw [hentries] at hordered
    have hmem : (v, call) ∈ vectors := by simp [hentries]
    obtain ⟨hlow, hhigh, -⟩ := mem_vectors hmem
    refine ⟨v, hlow, hhigh, rfl, ?_, hrefused⟩
    rw [hentries, hordered.filter_eq]
    exact hbefore

theorem handler_vector (host : Host) {entry : Nat × HostCall} (h : entry ∈ vectors) :
    ∃ signal message, host.handler entry.2 = terminal signal message := by
  simp only [vectors, List.mem_cons, List.not_mem_nil, or_false] at h
  rcases h with rfl | rfl | rfl | rfl | rfl | rfl | rfl | rfl <;> exact ⟨_, _, rfl⟩

end Host

namespace Emulator

open Host

theorem step_of_terminal {e : Emulator} {n : UInt16} {signal : Signal} {message : String}
    (running : e.machine.condition = .normal) (hpc : callNumber? e.machine.regs.pc = some n)
    (h : e.callbacks.handler? n = some (terminal signal message)) :
    e.step = (false, { e with
      machine := { e.machine with condition := .halted, instructionPc := e.machine.regs.pc }
      terminations := ⟨signal, message⟩ :: e.terminations }) := by
  rw [step_of_handler running hpc h]
  rfl

/-- At the call two below a vector, where the next step runs its handler, ends the session and
halts. -/
def EndsSession (host : Host) (vector : Nat) (e : Emulator) : Prop :=
  ∃ (call : HostCall) (t : Termination), call.number.toNat + 2 = vector ∧
    callNumber? e.machine.regs.pc = some call.number ∧
    (∀ m, host.handler call m = (.terminate t, m)) ∧
    e.step = (false, { e with
      machine := { e.machine with condition := .halted, instructionPc := e.machine.regs.pc }
      terminations := t :: e.terminations })

theorem endsSession_of_mem {host : Host} {vector : Nat} {call : HostCall} {e : Emulator}
    (hcall : (vector, call) ∈ vectors) (running : e.machine.condition = .normal)
    (hcallbacks : e.callbacks = table host) (hpc : e.machine.regs.pc = call.address) :
    EndsSession host vector e := by
  obtain ⟨signal, message, hhandler⟩ := host.handler_vector hcall
  have hnumber : callNumber? e.machine.regs.pc = some call.number := by
    rw [hpc]
    exact callNumber?_address call
  have hfound : e.callbacks.handler? call.number = some (terminal signal message) := by
    rw [hcallbacks, handler?_table, hhandler]
  refine ⟨call, ⟨signal, message⟩, (mem_vectors hcall).2.2, hnumber, ?_,
    step_of_terminal running hnumber hfound⟩
  intro m
  rw [hhandler]
  rfl

theorem endsSession_of_raise {host : Host} {vbr : Address} {m m' : Machine} {e : Emulator}
    {x : Exception} (hpoints : PointsTo vbr vectors m m') (hmemory : e.machine.memory = m'.memory)
    (hvbr : e.machine.regs.vbr = vbr) (running : e.machine.condition = .normal)
    (hcallbacks : e.callbacks = table host) (hlow : 4 ≤ x.vector) (hhigh : x.vector ≤ 11)
    (apart : (slot vbr x.vector).toNat + 4 + x.frameLength e.machine.model ≤
        e.machine.regs.ssp.toNat ∨
      e.machine.regs.ssp.toNat ≤ (slot vbr x.vector).toNat)
    (hraised : (e.machine.raise x).condition ≠ .halted) :
    EndsSession host x.vector { e with machine := e.machine.raise x } := by
  obtain ⟨call, hcall⟩ := exists_vector hlow hhigh
  have hslot : e.machine.vectorAddress x = slot vbr x.vector := by
    rw [Machine.vectorAddress, hvbr]
    rfl
  have hvector := hpoints.vector _ hcall
  rw [← hmemory, ← hslot] at hvector
  rw [← hslot] at apart
  obtain ⟨hpc, hnormal⟩ := Machine.raise_of_vector running hvector apart hraised
  exact endsSession_of_mem hcall hnormal hcallbacks hpc

/-- The default vectors are written, or those below the first slot that is refused; once they are in
place, an exception of theirs leads to the call two below its vector, which ends the session. -/
theorem uncaught_ends_session (host : Host) (vbr : Address) (m : Machine) :
    (∀ m', installDefaultVectors vbr m = .ok () m' → PointsTo vbr vectors m m' ∧
      ∀ (e : Emulator) (x : Exception), e.machine.memory = m'.memory → e.machine.regs.vbr = vbr →
        e.machine.condition = .normal → e.callbacks = table host →
        4 ≤ x.vector → x.vector ≤ 11 →
        ((slot vbr x.vector).toNat + 4 + x.frameLength e.machine.model ≤
            e.machine.regs.ssp.toNat ∨
          e.machine.regs.ssp.toNat ≤ (slot vbr x.vector).toNat) →
        (e.machine.raise x).condition ≠ .halted →
        EndsSession host x.vector { e with machine := e.machine.raise x }) ∧
    ∀ err m', installDefaultVectors vbr m = .error err m' →
      ∃ v, 4 ≤ v ∧ v ≤ 11 ∧ err = .vectorTable v (slot vbr v) ∧
        PointsTo vbr (vectors.filter (·.1 < v)) m m' ∧
        m.memory.admits (slot vbr v) 4 .supervisorData .write = false := by
  refine ⟨?_, fun err m' hrun => refused_of_error hrun⟩
  intro m' hrun
  have hpoints := pointsTo_of_ok hrun
  refine ⟨hpoints, ?_⟩
  intro e x hmemory hvbr running hcallbacks hlow hhigh apart hraised
  exact endsSession_of_raise hpoints hmemory hvbr running hcallbacks hlow hhigh apart hraised

/-- A zero divide on the 68020, with a table that lies around the end of the address space. -/
theorem uncaught_ends_session_zeroDivide :
    let host : Host := ⟨false, fun _ => .error .invalidPath⟩
    let m := Machine.left (installDefaultVectors 0xFFFFFFF0 (.new .m68020 (.flat (.new 64 0))))
    let e : Emulator := ⟨{ m with
      regs := { Registers.initial with ssp := 64, vbr := 0xFFFFFFF0 } }, table host, []⟩
    let raised : Emulator := { e with machine := e.machine.raise .zeroDivide }
    raised.machine.regs.pc = 0xFFFFFFF8 ∧ raised.step.1 = false ∧
      raised.step.2.machine.condition = .halted ∧ raised.step.2.machine.regs.pc = 0xFFFFFFF8 ∧
      raised.step.2.terminations = [⟨.arithmetic, "Division By Zero"⟩] := by
  intro host m e raised
  have hrun : installDefaultVectors 0xFFFFFFF0 (.new .m68020 (.flat (.new 64 0))) = .ok () m :=
    Machine.eq_ok_left (by decide +kernel)
  have hpc : raised.machine.regs.pc = 0xFFFFFFF8 := by decide +kernel
  have hraised : raised.machine.condition ≠ .halted := by decide +kernel
  have hmodel : e.machine.model = .m68020 := by decide +kernel
  have running : e.machine.condition = .normal := by decide +kernel
  have apart : (slot 0xFFFFFFF0 Exception.zeroDivide.vector).toNat + 4 +
      Exception.zeroDivide.frameLength e.machine.model ≤ e.machine.regs.ssp.toNat := by
    rw [hmodel]
    decide
  clear_value m
  obtain ⟨-, hends⟩ := (uncaught_ends_session host 0xFFFFFFF0 _).1 m hrun
  obtain ⟨call, t, hcall, -, hhandler, hstep⟩ := hends e .zeroDivide rfl rfl running rfl
    (by decide) (by decide) (.inl apart) hraised
  obtain rfl : call = .divisionByZero := by
    revert hcall
    cases call <;> decide
  have ht : Response.terminate _ = .terminate t := congrArg Prod.fst (hhandler m)
  rw [hstep]
  exact ⟨hpc, rfl, rfl, hpc, by rw [← Response.terminate.inj ht]⟩

end Emulator

end Mc68k
