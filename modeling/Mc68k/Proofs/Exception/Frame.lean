import Mc68k.ExceptionProcessing
import Mc68k.Proofs.Execution.Path

namespace Mc68k

/-- Values that are pushed together, the first one first. -/
abbrev Frame := List (Size × UInt32)

namespace Frame

def size : Frame → Nat
  | [] => 0
  | (size, _) :: rest => size.bytes + Frame.size rest

end Frame

def Exception.frame (e : Exception) (m : Machine) : Frame :=
  let pc := if e.isFault then m.instructionPc else m.regs.pc
  let state := [(.long, pc), (.word, m.regs.sr.toUInt32)]
  if m.model.hasFrameFormats then
    (if e.frameFormat m.model = 2 then [(.long, m.instructionPc)] else []) ++
      (.word, (e.formatWord m.model).toUInt32) :: state
  else if e.isGroupZero then
    state ++ [(.word, m.opcode.toUInt32), (.long, m.fault.address),
      (.word, m.fault.information.toUInt32)]
  else state

theorem Exception.size_frame_le (e : Exception) (m : Machine) : (e.frame m).size ≤ 14 := by
  simp only [frame]
  split
  · split <;> simp [Frame.size, Size.bytes]
  · split <;> simp [Frame.size, Size.bytes]

theorem Exception.sizes_frame (e : Exception) {m m' : Machine} (h : m'.model = m.model) :
    (e.frame m').map Prod.fst = (e.frame m).map Prod.fst := by
  simp only [frame, h]
  split
  · split <;> rfl
  · split <;> rfl

namespace Machine

def supervised (m : Machine) : Machine :=
  { m with regs := { m.regs with
    sr := (m.regs.sr ||| Status.S) &&& ~~~(Status.T1 ||| Status.T0) } }

theorem isSupervisor_supervised (m : Machine) : m.supervised.regs.isSupervisor = true := by
  have hs (x flag : UInt16) : (x ||| flag) &&& flag = flag := by
    apply UInt16.eq_of_toBitVec_eq
    ext i hi
    simpa using Or.inr
  rw [Registers.isSupervisor, Status.has, supervised, UInt16.and_assoc,
    show ~~~(Status.T1 ||| Status.T0) &&& Status.S = Status.S by decide, hs]
  rfl

theorem has_trace_supervised (m : Machine) :
    Status.has m.supervised.regs.sr (Status.T1 ||| Status.T0) = false := by
  rw [Status.has, supervised, UInt16.and_assoc,
    show ~~~(Status.T1 ||| Status.T0) &&& (Status.T1 ||| Status.T0) = 0 by decide, UInt16.and_zero]
  rfl

theorem status_supervised (m : Machine) :
    m.supervised.regs.sr &&& ~~~(Status.S ||| Status.T1 ||| Status.T0) =
      m.regs.sr &&& ~~~(Status.S ||| Status.T1 ||| Status.T0) := by
  have hbits (x s t t' : UInt16) : ((x ||| s) &&& ~~~(t ||| t')) &&& ~~~(s ||| t ||| t') =
      x &&& ~~~(s ||| t ||| t') := by
    apply UInt16.eq_of_toBitVec_eq
    ext i hi
    simp
    grind
  exact hbits m.regs.sr Status.S Status.T1 Status.T0

theorem system_supervised (m : Machine) :
    Status.system m.supervised.regs.sr &&& ~~~(Status.S ||| Status.T1 ||| Status.T0) =
      Status.system m.regs.sr &&& ~~~(Status.S ||| Status.T1 ||| Status.T0) := by
  have hswap (x c n : UInt16) : x &&& c &&& n = x &&& n &&& c := by
    rw [UInt16.and_assoc, UInt16.and_comm c, UInt16.and_assoc]
  rw [Status.system, Status.system, hswap, status_supervised, hswap]

def pushed (m : Machine) (size : Size) (value : UInt32) : Machine :=
  let addr := m.regs.ssp - UInt32.ofNat size.bytes
  { m with
    regs := { m.regs with ssp := addr }
    memory := m.memory.patch addr (toBigEndian value size)
    cycles := m.cycle addr size.bytes .supervisorData .write :: m.cycles }

/-- What `n` bytes more on the supervisor stack change: the stack pointer and those bytes. -/
structure Stacked (n : Nat) (m m' : Machine) : Prop where
  model : m'.model = m.model
  regs : m'.regs = { m.regs with ssp := m'.regs.ssp }
  ssp : m'.regs.ssp.toNat + n = m.regs.ssp.toNat
  condition : m'.condition = m.condition
  opcode : m'.opcode = m.opcode
  instructionPc : m'.instructionPc = m.instructionPc
  shape : m'.memory.shape = m.memory.shape
  byte? (addr : Address) (h : addr.toNat < m'.regs.ssp.toNat ∨ m.regs.ssp.toNat ≤ addr.toNat) :
    m'.memory.byte? addr = m.memory.byte? addr
  view? (addr : Address) (k : Nat) (fc : FunctionCode) (access : Access)
    (h : addr.toNat + k ≤ m'.regs.ssp.toNat ∨ m.regs.ssp.toNat ≤ addr.toNat) :
    m'.memory.view? addr k fc access = m.memory.view? addr k fc access

namespace Stacked

theorem refl (m : Machine) : Stacked 0 m m :=
  ⟨rfl, rfl, rfl, rfl, rfl, rfl, rfl, fun _ _ => rfl, fun _ _ _ _ _ => rfl⟩

theorem isSupervisor {n : Nat} {m m' : Machine} (h : Stacked n m m') :
    m'.regs.isSupervisor = m.regs.isSupervisor := by
  rw [h.regs]
  rfl

theorem trans {n k : Nat} {m m' m'' : Machine} (h : Stacked n m m') (h' : Stacked k m' m'') :
    Stacked (n + k) m m'' where
  model := h'.model.trans h.model
  regs := by rw [h'.regs, h.regs]
  ssp := by
    have := h.ssp
    have := h'.ssp
    omega
  condition := h'.condition.trans h.condition
  opcode := h'.opcode.trans h.opcode
  instructionPc := h'.instructionPc.trans h.instructionPc
  shape := h'.shape.trans h.shape
  byte? addr ha := by
    have := h.ssp
    have := h'.ssp
    rw [h'.byte? addr (by omega), h.byte? addr (by omega)]
  view? addr i fc access ha := by
    have := h.ssp
    have := h'.ssp
    rw [h'.view? addr i fc access (by omega), h.view? addr i fc access (by omega)]

theorem byte?_ne {n : Nat} {m m' : Machine} (h : Stacked n m m') {addr : Address}
    (hne : m'.memory.byte? addr ≠ m.memory.byte? addr) :
    addr.toNat < m.regs.ssp.toNat ∧ m.regs.ssp.toNat ≤ addr.toNat + n := by
  have hssp := h.ssp
  have hin : ¬(addr.toNat < m'.regs.ssp.toNat ∨ m.regs.ssp.toNat ≤ addr.toNat) := fun ho =>
    hne (h.byte? addr ho)
  omega

theorem failed {n : Nat} {m m' : Machine} (h : Stacked n m m') (fault : Fault)
    (cycles : List BusCycle) : Stacked n m { m' with fault, cycles } :=
  ⟨h.model, h.regs, h.ssp, h.condition, h.opcode, h.instructionPc, h.shape, h.byte?, h.view?⟩

end Stacked

def Finds (m : Machine) (addr : Address) (size : Size) (value : UInt32) : Prop :=
  m.isMisaligned addr size = false ∧
    m.memory.view? addr size.bytes .supervisorData .read = some (toBigEndian value size)

def Holds (m : Machine) (top : Address) : Frame → Prop
  | [] => True
  | (size, value) :: rest =>
    m.Finds (top - UInt32.ofNat size.bytes) size value ∧
      Holds m (top - UInt32.ofNat size.bytes) rest

/-- Nothing admitted wraps around, so a pushed value lies right below the old stack pointer. -/
theorem toNat_sub_add {m : Machine} {top : Address} {size : Size} {fc : FunctionCode}
    {access : Access}
    (h : m.memory.admits (top - UInt32.ofNat size.bytes) size.bytes fc access = true) :
    (top - UInt32.ofNat size.bytes).toNat + size.bytes = top.toNat := by
  have hlt := Memory.lt_of_admits h
  have htop := top.toNat_lt
  rw [UInt32.toNat_sub] at hlt ⊢
  cases size <;> simp only [Size.bytes, UInt32.reduceOfNat, UInt32.reduceToNat] at hlt ⊢ <;> omega

theorem stacked_pushed {m : Machine} {size : Size} (value : UInt32)
    (h : m.memory.admits (m.regs.ssp - UInt32.ofNat size.bytes) size.bytes .supervisorData .write =
      true) : Stacked size.bytes m (m.pushed size value) where
  model := rfl
  regs := rfl
  ssp := toNat_sub_add h
  condition := rfl
  opcode := rfl
  instructionPc := rfl
  shape := Memory.shape_patch _ _ _
  byte? addr ha := by
    have htop := toNat_sub_add h
    have hlen := length_toBigEndian value size
    apply Memory.byte?_patch
    simp only [pushed] at ha
    omega
  view? addr k fc access ha := by
    have htop := toNat_sub_add h
    have hlen := length_toBigEndian value size
    apply Memory.view?_patch_of_disjoint
    simp only [pushed] at ha
    omega

theorem view?_pushed {m : Machine} {size : Size} (value : UInt32)
    (h : m.memory.admits (m.regs.ssp - UInt32.ofNat size.bytes) size.bytes .supervisorData .write =
      true) :
    (m.pushed size value).memory.view? (m.regs.ssp - UInt32.ofNat size.bytes) size.bytes
      .supervisorData .read = some (toBigEndian value size) := by
  have hn := length_toBigEndian value size
  have hread := Memory.admits_read_of_write h
  have hview := Memory.view?_patch m.memory (m.regs.ssp - UInt32.ofNat size.bytes)
    (toBigEndian value size) .supervisorData .read (by rw [hn]; exact hread)
  rw [hn] at hview
  exact hview

theorem Holds.of_view {m m' : Machine} {top : Address} {f : Frame} (h : m.Holds top f)
    (hmodel : m'.model = m.model) (hsize : f.size ≤ top.toNat)
    (hview : ∀ (addr : Address) (k : Nat), top.toNat ≤ addr.toNat + f.size →
      m'.memory.view? addr k .supervisorData .read = m.memory.view? addr k .supervisorData .read) :
    m'.Holds top f := by
  induction f generalizing top with
  | nil => trivial
  | cons item rest ih =>
    obtain ⟨size, value⟩ := item
    obtain ⟨⟨ha, hv⟩, hrest⟩ := h
    simp only [Frame.size] at hsize hview
    have haddr : (top - UInt32.ofNat size.bytes).toNat + size.bytes = top.toNat := by
      exact toNat_sub_add (Memory.admits_of_view? hv)
    refine ⟨⟨?_, ?_⟩, ?_⟩
    · rw [isMisaligned, hmodel]
      exact ha
    · rw [hview _ _ (by omega), hv]
    · apply ih hrest (by omega)
      intro addr k hk
      exact hview addr k (by omega)

/-- Values of the given sizes can be pushed below an address of the supervisor stack, the first one
first. -/
def Accepts (m : Machine) (top : Address) : List Size → Prop
  | [] => True
  | size :: rest =>
    let addr := top - UInt32.ofNat size.bytes
    m.isMisaligned addr size = false ∧
      m.memory.admits addr size.bytes .supervisorData .write = true ∧ m.Accepts addr rest

instance Accepts.decidable (m : Machine) (top : Address) :
    (sizes : List Size) → Decidable (m.Accepts top sizes)
  | [] => inferInstanceAs (Decidable True)
  | size :: rest =>
    have := decidable m (top - UInt32.ofNat size.bytes) rest
    inferInstanceAs (Decidable (_ ∧ _ ∧ m.Accepts (top - UInt32.ofNat size.bytes) rest))

theorem Accepts.congr {m m' : Machine} {top : Address} {sizes : List Size}
    (h : m.Accepts top sizes) (hmodel : m'.model = m.model)
    (hshape : m'.memory.shape = m.memory.shape) : m'.Accepts top sizes := by
  induction sizes generalizing top with
  | nil => trivial
  | cons size rest ih =>
    obtain ⟨ha, hw, hrest⟩ := h
    refine ⟨?_, ?_, ih hrest⟩
    · rw [isMisaligned, hmodel]
      exact ha
    · rw [Memory.admits_of_shape_eq hshape]
      exact hw

end Machine

namespace Exec

open Machine

theorem push_cases (size : Size) (value : UInt32) (m : Machine)
    (h : m.regs.isSupervisor = true) :
    (m.isMisaligned (m.regs.ssp - UInt32.ofNat size.bytes) size = false ∧
      m.memory.admits (m.regs.ssp - UInt32.ofNat size.bytes) size.bytes .supervisorData .write =
        true ∧
      push size value m = .ok () (m.pushed size value)) ∨
    (m.isMisaligned (m.regs.ssp - UInt32.ofNat size.bytes) size = true ∨
      m.memory.admits (m.regs.ssp - UInt32.ofNat size.bytes) size.bytes .supervisorData .write =
        false) ∧
      ∃ e fault cycles, push size value m = .error e { m with fault, cycles } := by
  have hspace : m.dataSpace = .supervisorData := by
    rw [dataSpace, h]
    rfl
  have hsp : m.regs.sp = m.regs.ssp := by
    rw [Registers.sp, h]
    rfl
  rw [push, bind_regs, hsp]
  have hwrite : writeData (m.regs.ssp - UInt32.ofNat size.bytes) size value m =
      write (m.regs.ssp - UInt32.ofNat size.bytes) size value .supervisorData m := by
    rw [writeData, bind_get, hspace]
  obtain ⟨ha, hrun⟩ | ⟨-, hw, hrun⟩ | ⟨ha, hw, hrun⟩ :=
    write_cases (m.regs.ssp - UInt32.ofNat size.bytes) size value .supervisorData m
  · exact .inr ⟨.inl ha, _, _, m.cycles, bind_error (hwrite.trans hrun)⟩
  · exact .inr ⟨.inr hw, _, _, _, bind_error (hwrite.trans hrun)⟩
  · refine .inl ⟨ha, hw, ?_⟩
    rw [bind_ok (hwrite.trans hrun)]
    simp [modifyRegs, Registers.setSp, h, pushed]

def pushAll : Frame → Exec Unit
  | [] => pure ()
  | (size, value) :: rest => do
    push size value
    pushAll rest

/-- A frame is stacked whole, or only in part. -/
theorem pushAll_cases (f : Frame) (m : Machine) (h : m.regs.isSupervisor = true) :
    (∃ m', pushAll f m = .ok () m' ∧ Stacked f.size m m' ∧ m'.fault = m.fault ∧
      m'.Holds m.regs.ssp f) ∨
    ∃ e m' n, pushAll f m = .error e m' ∧ n ≤ f.size ∧ Stacked n m m' := by
  induction f generalizing m with
  | nil => exact .inl ⟨m, rfl, .refl m, rfl, trivial⟩
  | cons item rest ih =>
    obtain ⟨size, value⟩ := item
    obtain ⟨ha, hw, hpush⟩ | ⟨-, e, fault, cycles, hpush⟩ := push_cases size value m h
    · have hstacked := stacked_pushed value hw
      obtain ⟨m', hrun, hrest, hfault, hholds⟩ | ⟨e, m', n, hrun, hn', hrest⟩ :=
        ih (m.pushed size value) (hstacked.isSupervisor.trans h)
      · refine .inl ⟨m', ?_, hstacked.trans hrest, hfault, ⟨?_, ?_⟩, hholds⟩
        · rw [pushAll, bind_ok hpush, hrun]
        · rw [isMisaligned, hrest.model]
          exact ha
        · -- What is pushed later lies below the value.
          have habove : (m.pushed size value).regs.ssp.toNat ≤
              (m.regs.ssp - UInt32.ofNat size.bytes).toNat := Nat.le_refl _
          rw [hrest.view? _ _ _ _ (.inr habove), view?_pushed value hw]
      · refine .inr ⟨e, m', size.bytes + n, ?_, Nat.add_le_add_left hn' _, hstacked.trans hrest⟩
        rw [pushAll, bind_ok hpush, hrun]
    · refine .inr ⟨e, _, 0, ?_, Nat.zero_le _, (Stacked.refl m).failed fault cycles⟩
      rw [pushAll, bind_error hpush]

theorem pushAll_ok_iff (f : Frame) (m : Machine) (hs : m.regs.isSupervisor = true) :
    (∃ m', pushAll f m = .ok () m') ↔ m.Accepts m.regs.ssp (f.map Prod.fst) := by
  induction f generalizing m with
  | nil => exact iff_of_true ⟨m, rfl⟩ trivial
  | cons item rest ih =>
    obtain ⟨size, value⟩ := item
    rw [List.map_cons, Accepts]
    obtain ⟨ha, hw, hpush⟩ | ⟨hrefused, e, fault, cycles, hpush⟩ := push_cases size value m hs
    · have hstacked := stacked_pushed value hw
      have hrest := ih (m.pushed size value) (hstacked.isSupervisor.trans hs)
      simp only [pushAll, bind_ok hpush, hrest]
      constructor
      · exact fun h => ⟨ha, hw, h.congr hstacked.model.symm hstacked.shape.symm⟩
      · exact fun h => h.2.2.congr hstacked.model hstacked.shape
    · simp only [pushAll, bind_error hpush]
      constructor
      · rintro ⟨m', h⟩
        cases h
      · rintro ⟨ha, hw, -⟩
        simp [ha, hw] at hrefused

theorem pushAll_append (f g : Frame) :
    pushAll (f ++ g) = (do pushAll f; pushAll g) := by
  induction f with
  | nil => simp [pushAll]
  | cons item rest ih => simp [pushAll, ih]

theorem stackFrame_eq (e : Exception) (m : Machine) :
    stackFrame e m = pushAll (e.frame m) m.supervised := by
  have hset : modifyRegs (fun r =>
      { r with sr := (m.regs.sr ||| Status.S) &&& ~~~(Status.T1 ||| Status.T0) }) m =
      .ok () m.supervised := rfl
  have hmodel : m.supervised.model = m.model := rfl
  have hpc : m.supervised.instructionPc = m.instructionPc := rfl
  rw [stackFrame, bind_get, bind_ok hset, Exception.frame]
  generalize (if e.isFault = true then m.instructionPc else m.regs.pc) = pc
  cases hf : m.model.hasFrameFormats with
  | true =>
    rw [if_pos rfl, if_pos rfl, pushFormatFrame, bind_get, hmodel, hpc]
    split
    · simp [pushAll, pushLong, pushWord]
    · simp [pushAll, pushLong, pushWord]
  | false =>
    rw [if_neg (by decide), if_neg (by decide), pushShortFrame]
    cases hz : e.isGroupZero with
    | false => simp [pushAll, pushLong, pushWord]
    | true =>
      simp only [if_true]
      have hstate (rest : Exec Unit) : (do pushLong pc; pushWord m.regs.sr; rest) =
          (do pushAll [(.long, pc), (.word, m.regs.sr.toUInt32)]; rest) := by
        simp [pushAll, pushLong, pushWord]
      rw [pushAll_append, hstate]
      obtain ⟨m', hrun, hstacked, hfault, -⟩ | ⟨e, m', n, hrun, -⟩ :=
        pushAll_cases [(.long, pc), (.word, m.regs.sr.toUInt32)] m.supervised
          m.isSupervisor_supervised
      · have hopcode : m'.opcode = m.opcode := hstacked.opcode
        have hfault' : m'.fault = m.fault := hfault
        rw [bind_ok hrun, bind_ok hrun, bind_get, hopcode, hfault']
        simp [pushAll, pushLong, pushWord]
      · rw [bind_error hrun, bind_error hrun]

theorem stackFrame_ok_iff (e : Exception) (m : Machine) :
    (∃ m', stackFrame e m = .ok () m') ↔ m.Accepts m.regs.ssp ((e.frame m).map Prod.fst) := by
  rw [stackFrame_eq, pushAll_ok_iff _ _ m.isSupervisor_supervised]
  exact ⟨fun h => h.congr rfl rfl, fun h => h.congr rfl rfl⟩

end Exec

namespace Machine

theorem raise_of_stacked {m m' : Machine} {e : Exception} (h : Exec.stackFrame e m = .ok () m') :
    m.raise e = m'.enterHandler e := by
  rw [raise, h]

theorem stackFrame_of_ok {m m' : Machine} {e : Exception} (h : Exec.stackFrame e m = .ok () m') :
    Stacked (e.frame m).size m.supervised m' ∧ m'.Holds m.regs.ssp (e.frame m) := by
  rw [Exec.stackFrame_eq] at h
  obtain ⟨m₁, hrun, hstacked, -, hholds⟩ | ⟨e', m₁, n, hrun, -⟩ :=
    Exec.pushAll_cases (e.frame m) m.supervised m.isSupervisor_supervised
  · rw [h] at hrun
    obtain ⟨-, rfl⟩ := EStateM.Result.ok.inj hrun
    exact ⟨hstacked, hholds⟩
  · rw [h] at hrun
    cases hrun

theorem vectorAddress_of_stackFrame {m m' : Machine} {e : Exception}
    (h : Exec.stackFrame e m = .ok () m') : m'.vectorAddress e = m.vectorAddress e := by
  rw [vectorAddress, (stackFrame_of_ok h).1.regs]
  rfl

theorem admits_of_stackFrame {m m' : Machine} {e : Exception}
    (h : Exec.stackFrame e m = .ok () m') (addr : Address) (n : Nat) (fc : FunctionCode)
    (access : Access) : m'.memory.admits addr n fc access = m.memory.admits addr n fc access :=
  Memory.admits_of_shape_eq (stackFrame_of_ok h).1.shape addr n fc access

/-- What processing an exception comes to: its handler, with all of the frame stacked, or a halt on
the way there. -/
inductive Raised (e : Exception) (m : Machine) : Machine → Prop
  | handled {m' : Machine} (handler : Address)
    (stacked : Stacked (e.frame m).size m.supervised m') (holds : m'.Holds m.regs.ssp (e.frame m))
    (found : (m'.memory.view? (m.vectorAddress e) 4 .supervisorData .read).map ofBigEndian =
      some handler)
    (even : handler &&& 1 = 0) (fault : m'.fault = m.fault) :
    Raised e m { m' with
      regs := { m'.regs with pc := handler }
      condition := if m'.condition = .stopped then .normal else m'.condition }
  | halted {m' : Machine} (n : Nat) (hn : n ≤ (e.frame m).size)
    (stacked : Stacked n m.supervised m') : Raised e m m'.halt

theorem raised (m : Machine) (e : Exception) : Raised e m (m.raise e) := by
  rw [raise, Exec.stackFrame_eq]
  obtain ⟨m', hrun, hstacked, hfault, hholds⟩ | ⟨e', m', n, hrun, hn, hstacked⟩ :=
    Exec.pushAll_cases (e.frame m) m.supervised m.isSupervisor_supervised
  · rw [hrun]
    have hvector : m'.vectorAddress e = m.vectorAddress e := by
      rw [vectorAddress, hstacked.regs]
      rfl
    have hload (cycles : List BusCycle) :
        Stacked (e.frame m).size m.supervised { m' with cycles } :=
      hstacked.failed m'.fault cycles
    have hssp : m'.regs.ssp.toNat + (e.frame m).size = m.regs.ssp.toNat := hstacked.ssp
    have htop : (e.frame m).size ≤ m.regs.ssp.toNat := by omega
    have hframe (cycles : List BusCycle) : { m' with cycles }.Holds m.regs.ssp (e.frame m) :=
      hholds.of_view rfl htop fun _ _ _ => rfl
    simp only [enterHandler, load_eq, hvector]
    split
    · next handler m'' h =>
      obtain ⟨hfound, rfl⟩ := Prod.mk.inj h
      split
      · next heven => exact .handled handler (hload _) (hframe _) hfound heven hfault
      · exact .halted _ (Nat.le_refl _) (hload _)
    · next m'' h =>
      obtain ⟨-, rfl⟩ := Prod.mk.inj h
      exact .halted _ (Nat.le_refl _) (hload _)
  · rw [hrun]
    exact .halted n hn hstacked

theorem Raised.regs {e : Exception} {m m' : Machine} (h : Raised e m m') :
    m'.regs = { m.supervised.regs with ssp := m'.regs.ssp, pc := m'.regs.pc } := by
  cases h with
  | handled handler stacked => rw [stacked.regs]
  | halted n hn stacked =>
    simp only [halt]
    rw [stacked.regs]

theorem Raised.byte?_ne {e : Exception} {m m' : Machine} (h : Raised e m m') {addr : Address}
    (hne : m'.memory.byte? addr ≠ m.memory.byte? addr) :
    addr.toNat < m.regs.ssp.toNat ∧ m.regs.ssp.toNat ≤ addr.toNat + (e.frame m).size := by
  cases h with
  | handled handler stacked => exact stacked.byte?_ne hne
  | halted n hn stacked =>
    obtain ⟨hbelow, habove⟩ := stacked.byte?_ne hne
    exact ⟨hbelow, Nat.le_trans habove (Nat.add_le_add_left hn _)⟩

end Machine

end Mc68k
