import Mc68k.Proofs.Exception.Unwind
import Mc68k.Proofs.Movem.Listed

namespace Mc68k

namespace Memory

/-- Nothing changed but bytes from `low` up to `high`. -/
structure ChangedWithin (low high : Nat) (m m' : Memory) : Prop where
  shape : m'.shape = m.shape
  byte? (addr : Address) (h : addr.toNat < low ∨ high ≤ addr.toNat) : m'.byte? addr = m.byte? addr
  view? (addr : Address) (n : Nat) (fc : FunctionCode) (access : Access)
    (h : addr.toNat + n ≤ low ∨ high ≤ addr.toNat) :
    m'.view? addr n fc access = m.view? addr n fc access

namespace ChangedWithin

theorem refl (low : Nat) (m : Memory) : ChangedWithin low low m m :=
  ⟨rfl, fun _ _ => rfl, fun _ _ _ _ _ => rfl⟩

theorem patch (m : Memory) (addr : Address) (bytes : List UInt8) :
    ChangedWithin addr.toNat (addr.toNat + bytes.length) m (m.patch addr bytes) where
  shape := shape_patch m addr bytes
  byte? x h := byte?_patch m addr bytes x h
  view? x n fc access h := view?_patch_of_disjoint m addr bytes x n fc access h

theorem trans {low mid high : Nat} {m m' m'' : Memory} (hlow : low ≤ mid) (hhigh : mid ≤ high)
    (h : ChangedWithin mid high m m') (h' : ChangedWithin low mid m' m'') :
    ChangedWithin low high m m'' where
  shape := h'.shape.trans h.shape
  byte? addr ha := by rw [h'.byte? addr (by omega), h.byte? addr (by omega)]
  view? addr n fc access ha := by
    rw [h'.view? addr n fc access (by omega), h.view? addr n fc access (by omega)]

end ChangedWithin

end Memory

namespace Registers

/-- Load the registers of a list, each with the value that stands for it. -/
def loadList (size : Size) (value : Nat → UInt32) (list : List Nat) (r : Registers) : Registers :=
  list.foldl (fun r index => r.setGeneral index (signExtend (value index) size)) r

section

variable {size : Size} {value : Nat → UInt32} {list : List Nat}

theorem loadList_cons (index : Nat) (r : Registers) :
    r.loadList size value (index :: list) =
      (r.setGeneral index (signExtend (value index) size)).loadList size value list := rfl

theorem loadList_congr {value' : Nat → UInt32} (h : ∀ index ∈ list, value index = value' index)
    (r : Registers) : r.loadList size value list = r.loadList size value' list := by
  induction list generalizing r with
  | nil => rfl
  | cons index rest ih =>
    have hrest : ∀ k ∈ rest, value k = value' k := fun k hk => h k (List.mem_cons_of_mem index hk)
    rw [loadList_cons, loadList_cons, h index List.mem_cons_self, ih hrest]

theorem setGeneral_loadList (hlist : ∀ index ∈ list, index < 16) {k : Nat} (hk : k < 16)
    (x : UInt32) (r : Registers) :
    (r.loadList size value list).setGeneral k x =
      (r.setGeneral k x).loadList size value (list.filter (· ≠ k)) := by
  induction list generalizing r with
  | nil => rfl
  | cons index rest ih =>
    have hindex : index < 16 := hlist index List.mem_cons_self
    have hrest := ih fun i hi => hlist i (List.mem_cons_of_mem index hi)
    rw [loadList_cons, hrest]
    by_cases heq : index = k
    · subst heq
      rw [List.filter_cons_of_neg (by simp), setGeneral_setGeneral]
    · rw [List.filter_cons_of_pos (by simpa using heq), loadList_cons,
        r.setGeneral_comm hindex hk (Ne.symm heq)]

theorem general_loadList (hlist : ∀ index ∈ list, index < 16) {k : Nat} (hk : k < 16)
    (r : Registers) : (r.loadList size value list).general k =
      if k ∈ list then signExtend (value k) size else r.general k := by
  induction list generalizing r with
  | nil => rfl
  | cons index rest ih =>
    have hindex : index < 16 := hlist index List.mem_cons_self
    have hrest := ih fun i hi => hlist i (List.mem_cons_of_mem index hi)
    rw [loadList_cons, hrest]
    by_cases hmem : k ∈ rest
    · rw [if_pos hmem, if_pos (List.mem_cons_of_mem index hmem)]
    · rw [if_neg hmem]
      by_cases heq : k = index
      · rw [heq, general_setGeneral_self, if_pos List.mem_cons_self]
      · rw [r.general_setGeneral_of_ne hindex hk heq,
          if_neg (List.mem_cons.not.mpr (not_or.mpr ⟨heq, hmem⟩))]

theorem loadList_general_long (r : Registers) : r.loadList .long r.general list = r := by
  induction list with
  | nil => rfl
  | cons index rest ih => rw [loadList_cons, signExtend, setGeneral_general, ih]

end

end Registers

namespace Machine

/-- Values of a size lie upward from an address of a space, one for each register of a list. -/
def HoldsUp (m : Machine) (space : FunctionCode) (size : Size) (value : Nat → UInt32) :
    List Nat → Address → Prop
  | [], _ => True
  | index :: rest, addr =>
    (m.isMisaligned addr size = false ∧
      m.memory.view? addr size.bytes space .read = some (toBigEndian (value index) size)) ∧
    m.HoldsUp space size value rest (addr + UInt32.ofNat size.bytes)

section

variable {m m' : Machine} {space : FunctionCode} {size : Size} {value : Nat → UInt32}

theorem HoldsUp.congr {list : List Nat} {addr : Address} (h : m.HoldsUp space size value list addr)
    (hmodel : m'.model = m.model) (hmemory : m'.memory = m.memory) :
    m'.HoldsUp space size value list addr := by
  induction list generalizing addr with
  | nil => trivial
  | cons index rest ih =>
    obtain ⟨⟨ha, hv⟩, hrest⟩ := h
    refine ⟨⟨?_, ?_⟩, ih hrest⟩
    · rw [isMisaligned, hmodel]
      exact ha
    · rw [hmemory, hv]

theorem HoldsUp.concat {list : List Nat} {index : Nat} {low addr : Address}
    (h : m.HoldsUp space size value list low)
    (haddr : low.toNat + size.bytes * list.length = addr.toNat)
    (ha : m.isMisaligned addr size = false)
    (hv : m.memory.view? addr size.bytes space .read = some (toBigEndian (value index) size)) :
    m.HoldsUp space size value (list ++ [index]) low := by
  induction list generalizing low with
  | nil =>
    have heq : low = addr := UInt32.toNat_inj.mp haddr
    subst heq
    exact ⟨⟨ha, hv⟩, trivial⟩
  | cons first rest ih =>
    have hlt := addr.toNat_lt
    have hnext : (low + UInt32.ofNat size.bytes).toNat = low.toNat + size.bytes := by
      rw [UInt32.toNat_add, UInt32.toNat_ofNat']
      simp only [List.length_cons, Nat.mul_add] at haddr
      omega
    refine ⟨h.1, ih h.2 ?_⟩
    rw [hnext, ← haddr, List.length_cons, Nat.mul_add]
    omega

end

end Machine

namespace Perform

open Exec Machine

/-- A save that went through: the values of a list lie from `low` up to `high`, the last one lowest.
-/
structure LaidDown (size : Size) (value : Nat → UInt32) (list : List Nat) (high low : Address)
    (m m' : Machine) : Prop where
  others : m' = { m with memory := m'.memory, cycles := m'.cycles }
  room : low.toNat + size.bytes * list.length = high.toNat
  memory : m.memory.ChangedWithin low.toNat high.toNat m'.memory
  holds : m'.HoldsUp m.dataSpace size value list.reverse low

theorem LaidDown.cons {size : Size} {value : Nat → UInt32} {index : Nat} {rest : List Nat}
    {high low : Address} {m m₁ m' : Machine}
    (hwrite : writeData (high - UInt32.ofNat size.bytes) size (value index) m = .ok () m₁)
    (hrest : LaidDown size value rest (high - UInt32.ofNat size.bytes) low m₁ m') :
    LaidDown size value (index :: rest) high low m m' := by
  obtain ⟨ha, hw, rfl⟩ := writeData_eq_ok hwrite
  have hn := length_toBigEndian (value index) size
  have htop := toNat_sub_add hw
  have hroom := hrest.room
  have hview : m'.memory.view? (high - UInt32.ofNat size.bytes) size.bytes m.dataSpace .read =
      some (toBigEndian (value index) size) := by
    rw [hrest.memory.view? _ _ _ _ (.inr (Nat.le_refl _))]
    have hread := Memory.admits_read_of_write hw
    have hpatch := Memory.view?_patch m.memory (high - UInt32.ofNat size.bytes)
      (toBigEndian (value index) size) m.dataSpace .read (by rw [hn]; exact hread)
    rw [hn] at hpatch
    exact hpatch
  have hmodel : m'.model = m.model := by rw [hrest.others]
  have haligned : m'.isMisaligned (high - UInt32.ofNat size.bytes) size = false := by
    rw [isMisaligned, hmodel]
    exact ha
  refine ⟨by rw [hrest.others], ?_, ?_, ?_⟩
  · rw [List.length_cons, Nat.mul_add, Nat.mul_one]
    omega
  · have hpatch := Memory.ChangedWithin.patch m.memory (high - UInt32.ofNat size.bytes)
      (toBigEndian (value index) size)
    rw [hn, htop] at hpatch
    exact hpatch.trans (by omega) (by omega) hrest.memory
  · rw [List.reverse_cons]
    refine hrest.holds.concat ?_ haligned hview
    rw [List.length_reverse]
    exact hroom

theorem storeDown_eq_ok {size : Size} {an : Nat} {anValue : UInt32} {list : List Nat}
    {high low : Address} {m m' : Machine}
    (h : storeDown size an anValue list high m = .ok low m') :
    LaidDown size (fun index => if index = an then anValue else m.regs.general index) list high low
      m m' := by
  induction list generalizing high m with
  | nil =>
    cases h
    exact ⟨rfl, rfl, .refl _ _, trivial⟩
  | cons index rest ih =>
    rw [storeDown, bind_regs] at h
    obtain ⟨_, m₁, hwrite, hnext⟩ := exists_of_bind_ok h
    have hrest := ih hnext
    have hregs : m₁.regs = m.regs := by rw [(writeData_eq_ok hwrite).2.2]
    rw [hregs] at hrest
    exact .cons hwrite hrest

theorem loadUp_of_holdsUp {size : Size} {space : FunctionCode} {value : Nat → UInt32}
    {list : List Nat} {addr : Address} {m : Machine} (h : m.HoldsUp space size value list addr) :
    ∃ cycles, loadUp size space list addr m =
      .ok (addr + UInt32.ofNat (size.bytes * list.length))
        { m with regs := m.regs.loadList size value list, cycles } := by
  induction list generalizing addr m with
  | nil =>
    refine ⟨m.cycles, ?_⟩
    rw [add_bytes_nil]
    rfl
  | cons index rest ih =>
    obtain ⟨⟨ha, hv⟩, hrest⟩ := h
    have hread : read addr size space m = .ok (value index &&& size.mask)
        { m with cycles := m.cycle addr size.bytes space .read :: m.cycles } := by
      rw [Exec.read, if_neg (by simp [ha]), load_eq, hv, Option.map_some, ofBigEndian_toBigEndian]
    let m₁ : Machine := { m with
      regs := m.regs.setGeneral index (signExtend (value index) size)
      cycles := m.cycle addr size.bytes space .read :: m.cycles }
    have hholds : m₁.HoldsUp space size value rest (addr + UInt32.ofNat size.bytes) :=
      hrest.congr rfl rfl
    obtain ⟨cycles, hloads⟩ := ih hholds
    refine ⟨cycles, ?_⟩
    rw [loadUp, bind_ok hread, signExtend_and_mask, add_bytes_cons]
    exact hloads

/-- What a save of `n` bytes may change: the bytes right below An, and An, which ends below them. -/
structure SavedBelow (an : RegisterNumber) (n : Nat) (m m' : Machine) : Prop where
  others : m' = { m with
    regs := m.regs.setA an (m.regs.a an - UInt32.ofNat n)
    memory := m'.memory
    cycles := m'.cycles }
  room : n ≤ (m.regs.a an).toNat
  memory : m.memory.ChangedWithin ((m.regs.a an).toNat - n) (m.regs.a an).toNat m'.memory

section

variable {m saved : Machine} {p p' : Operands} {mask : UInt16}

/-- A save to -(An) that goes through leaves the list where a restore looks for it, An with a value
that goes by the model. -/
theorem movemStore_eq_ok (hmode : m.opcode.mode = 4) (hbase : p.second = m.regs.a m.opcode.y)
    (hlist : p.first.toUInt16 = reversed mask) (h : movemStore p m = .ok p' saved) :
    SavedBelow m.opcode.y (p.size.bytes * (listed mask).length) m saved ∧
      ∃ anValue, saved.HoldsUp m.dataSpace p.size
        (fun index => if index = 8 + m.opcode.y.val then anValue else m.regs.general index)
        (listed mask) (saved.regs.a m.opcode.y) := by
  rw [movemStore, bind_get, if_pos hmode, hlist, listed_reversed, hbase] at h
  obtain ⟨anValue, h⟩ : ∃ anValue, (do
      let low ← storeDown p.size (8 + m.opcode.y.val) anValue (listed mask).reverse
        (m.regs.a m.opcode.y)
      modifyRegs (·.setA m.opcode.y low)
      pure p) m = .ok p' saved := ⟨_, h⟩
  obtain ⟨low, m₁, hdown, hrest⟩ := exists_of_bind_ok h
  obtain ⟨-, rfl⟩ := EStateM.Result.ok.inj hrest
  have hlaid := storeDown_eq_ok hdown
  have hroom := hlaid.room
  have hholds := hlaid.holds
  rw [List.length_reverse] at hroom
  rw [List.reverse_reverse] at hholds
  have hregs : m₁.regs = m.regs := by rw [hlaid.others]
  have hlow : m.regs.a m.opcode.y -
      UInt32.ofNat (p.size.bytes * (listed mask).length) = low := by
    rw [← add_eq_of_toNat hroom, UInt32.add_sub_cancel]
  refine ⟨⟨?_, by omega, ?_⟩, anValue, ?_⟩
  · rw [hlow, hlaid.others]
  · have hmid : (m.regs.a m.opcode.y).toNat - p.size.bytes * (listed mask).length =
        low.toNat := by omega
    rw [hmid]
    exact hlaid.memory
  · simp only [hregs, Registers.a_setA_self]
    exact hholds.congr rfl rfl

theorem setA_loadList_setA (r : Registers) (n : RegisterNumber) (size : Size)
    (anValue low : UInt32) {list : List Nat} (hlist : ∀ index ∈ list, index < 16) :
    ((r.setA n low).loadList size
        (fun index => if index = 8 + n.val then anValue else r.general index) list).setA n (r.a n) =
      r.loadList size r.general (list.filter (· ≠ 8 + n.val)) := by
  have hn := n.isLt
  have hvalue : ∀ index ∈ list.filter (· ≠ 8 + n.val),
      (if index = 8 + n.val then anValue else r.general index) = r.general index := by
    intro index hmem
    have hne : index ≠ 8 + n.val := by simpa using (List.mem_filter.mp hmem).2
    rw [if_neg hne]
  rw [← Registers.setGeneral_address _ n (r.a n), Registers.setGeneral_loadList hlist (by omega),
    Registers.setGeneral_address, Registers.setA_setA, Registers.setA_a,
    Registers.loadList_congr hvalue]

theorem movemLoad_of_holdsUp {q : Operands} {op : Opcode} {anValue : UInt32}
    (hmode : op.mode = 3) (hsame : op.y = m.opcode.y)
    (hbelow : SavedBelow m.opcode.y (q.size.bytes * (listed q.first.toUInt16).length) m saved)
    (hbase : q.second = saved.regs.a op.y)
    (hholds : saved.HoldsUp m.dataSpace q.size
      (fun index => if index = 8 + m.opcode.y.val then anValue else m.regs.general index)
      (listed q.first.toUInt16) (saved.regs.a m.opcode.y)) :
    ∃ cycles, movemLoad q { saved with opcode := op } = .ok q { saved with
      opcode := op
      regs := m.regs.loadList q.size m.regs.general
        ((listed q.first.toUInt16).filter (· ≠ 8 + m.opcode.y.val))
      cycles } := by
  have hregs : saved.regs = m.regs.setA m.opcode.y
      (m.regs.a m.opcode.y - UInt32.ofNat (q.size.bytes * (listed q.first.toUInt16).length)) := by
    rw [hbelow.others]
  have hspace : saved.dataSpace = m.dataSpace := by
    rw [dataSpace, dataSpace, hregs, (Registers.SameSystem.setA _ _ _).isSupervisor]
  have hholds' : HoldsUp { saved with opcode := op } m.dataSpace q.size
      (fun index => if index = 8 + m.opcode.y.val then anValue else m.regs.general index)
      (listed q.first.toUInt16) (saved.regs.a m.opcode.y) := hholds.congr rfl rfl
  obtain ⟨cycles, hloads⟩ := loadUp_of_holdsUp hholds'
  have hend : saved.regs.a m.opcode.y +
      UInt32.ofNat (q.size.bytes * (listed q.first.toUInt16).length) = m.regs.a m.opcode.y := by
    rw [hregs, Registers.a_setA_self, UInt32.sub_add_cancel]
  have hlist : ∀ index ∈ listed q.first.toUInt16, index < 16 := fun index => listed_lt
  refine ⟨cycles, ?_⟩
  have hrun : movemLoad q { saved with opcode := op } = (do
      let addr ← loadUp q.size saved.dataSpace (listed q.first.toUInt16) q.second
      modifyRegs (·.setA op.y addr)
      pure q) { saved with opcode := op } := by
    rw [movemLoad, bind_get]
    simp only [ofOpcode?_of_mode_eq_three hmode, hmode, if_true]
    rfl
  have hback := setA_loadList_setA m.regs m.opcode.y q.size anValue
    (m.regs.a m.opcode.y - UInt32.ofNat (q.size.bytes * (listed q.first.toUInt16).length)) hlist
  rw [hrun, hspace, hbase, hsame, bind_ok hloads, hend, hregs, ← hback]
  rfl

/-- MOVEM from (An)+ undoes MOVEM to -(An) of the same list, but that words come back sign-extended.
-/
theorem movemLoad_movemStore {q : Operands} {op : Opcode} (hdown : m.opcode.mode = 4)
    (hbase : p.second = m.regs.a m.opcode.y) (h : movemStore p m = .ok p' saved)
    (hup : op.mode = 3) (hsame : op.y = m.opcode.y) (hbase' : q.second = saved.regs.a op.y)
    (hsize : q.size = p.size) (hlist : p.first.toUInt16 = reversed q.first.toUInt16) :
    let list := listed q.first.toUInt16
    SavedBelow m.opcode.y (p.size.bytes * list.length) m saved ∧
      ∃ restored, movemLoad q { saved with opcode := op } = .ok q restored ∧
        restored = { saved with
          opcode := op, regs := restored.regs, cycles := restored.cycles } ∧
        restored.regs = m.regs.loadList p.size m.regs.general
          (list.filter (· ≠ 8 + m.opcode.y.val)) ∧
        (∀ index < 16, restored.regs.general index =
          if index ∈ list ∧ index ≠ 8 + m.opcode.y.val then
            signExtend (m.regs.general index) p.size
          else m.regs.general index) ∧
        (p.size = .long → restored.regs = m.regs) := by
  intro list
  obtain ⟨hbelow, anValue, hholds⟩ := movemStore_eq_ok hdown hbase hlist h
  rw [← hsize] at hbelow hholds ⊢
  obtain ⟨cycles, hrestore⟩ := movemLoad_of_holdsUp hup hsame hbelow hbase' hholds
  have hothers : ∀ index ∈ list.filter (· ≠ 8 + m.opcode.y.val),
      index < 16 := fun index hmem => listed_lt (List.mem_filter.mp hmem).1
  refine ⟨hbelow, _, hrestore, rfl, rfl, ?_, ?_⟩
  · intro index hindex
    rw [Registers.general_loadList hothers hindex]
    simp only [List.mem_filter, decide_eq_true_eq]
  · intro hlong
    simp only [hlong, Registers.loadList_general_long]

/-- MOVEM.W of D0 and A1 to -(A1) and from (A1)+ on the 68020, which stores A1 as it is after. -/
theorem movemLoad_movemStore_base :
    let m : Machine := { Machine.new .m68020 (.flat (.new 64 0)) with
      opcode := 0x48A1
      regs := (Registers.initial.setD .zero 0x12348765).setA .one 32 }
    let p : Operands := { Operands.new .word with first := 0x8040, second := 32 }
    let q : Operands := { Operands.new .word with first := 0x0201, second := 28 }
    ∃ p' saved restored, movemStore p m = .ok p' saved ∧ SavedBelow .one 4 m saved ∧
      saved.memory.view? 28 4 .supervisorData .read = some [0x87, 0x65, 0, 28] ∧
      movemLoad q { saved with opcode := 0x4C99 } = .ok q restored ∧
      restored.regs.general 0 = 0xFFFF8765 ∧ restored.regs.general 9 = 32 := by
  intro m p q
  have hbase : p.second = m.regs.a m.opcode.y := by decide +kernel
  obtain ⟨p', h⟩ := exists_ok_left (r := movemStore p m) (by decide +kernel)
  have hview : (left (movemStore p m)).memory.view? 28 4 .supervisorData .read =
      some [0x87, 0x65, 0, 28] := by decide +kernel
  have hlow : q.second = (left (movemStore p m)).regs.a (0x4C99 : Opcode).y := by decide +kernel
  obtain ⟨hbelow, restored, hrestore, -, -, hgeneral, -⟩ :=
    movemLoad_movemStore (q := q) (by decide) hbase h (by decide) (by decide) hlow rfl (by decide)
  have hsize : p.size.bytes * (listed q.first.toUInt16).length = 4 := by decide
  rw [hsize, show m.opcode.y = .one by decide] at hbelow
  refine ⟨p', _, restored, h, hbelow, hview, hrestore, ?_, ?_⟩
  · rw [hgeneral 0 (by decide)]
    decide +kernel
  · rw [hgeneral 9 (by decide)]
    decide +kernel

end

end Perform

end Mc68k
