import Mc68k.Machine
import Mc68k.Proofs.Status

namespace Mc68k

namespace Status

/-- The status with T1 clear. -/
def untraced (sr : UInt16) : UInt16 := sr &&& ~~~T1

@[simp] theorem untraced_untraced (sr : UInt16) : untraced (untraced sr) = untraced sr := by
  rw [untraced, untraced, UInt16.and_assoc, UInt16.and_self]

theorem setIf_untraced (sr flag : UInt16) (c : Bool) (h : flag &&& T1 = 0) :
    setIf (untraced sr) flag c = untraced (setIf sr flag c) := by
  apply UInt16.eq_of_toBitVec_eq
  ext i hi
  have hb : (flag &&& T1).toBitVec[i] = (0 : UInt16).toBitVec[i] := by rw [h]
  cases c <;> simp [setIf, untraced] at hb ⊢ <;> grind

@[simp] theorem setIf_C_untraced (sr : UInt16) (c : Bool) :
    setIf (untraced sr) C c = untraced (setIf sr C c) :=
  setIf_untraced sr C c (by decide)

@[simp] theorem setIf_V_untraced (sr : UInt16) (c : Bool) :
    setIf (untraced sr) V c = untraced (setIf sr V c) :=
  setIf_untraced sr V c (by decide)

@[simp] theorem setIf_Z_untraced (sr : UInt16) (c : Bool) :
    setIf (untraced sr) Z c = untraced (setIf sr Z c) :=
  setIf_untraced sr Z c (by decide)

@[simp] theorem setIf_N_untraced (sr : UInt16) (c : Bool) :
    setIf (untraced sr) N c = untraced (setIf sr N c) :=
  setIf_untraced sr N c (by decide)

@[simp] theorem setIf_X_untraced (sr : UInt16) (c : Bool) :
    setIf (untraced sr) X c = untraced (setIf sr X c) :=
  setIf_untraced sr X c (by decide)

theorem or_untraced (sr flag : UInt16) (h : flag &&& T1 = 0) :
    untraced sr ||| flag = untraced (sr ||| flag) :=
  setIf_untraced sr flag true h

theorem and_not_untraced (sr flag : UInt16) (h : flag &&& T1 = 0) :
    untraced sr &&& ~~~flag = untraced (sr &&& ~~~flag) :=
  setIf_untraced sr flag false h

theorem untraced_and (sr mask : UInt16) (h : ~~~T1 &&& mask = mask) :
    untraced sr &&& mask = sr &&& mask := by
  rw [untraced, UInt16.and_assoc, h]

theorem has_untraced (sr flag : UInt16) (h : ~~~T1 &&& flag = flag) :
    has (untraced sr) flag = has sr flag := by
  rw [has, has, untraced_and sr flag h]

@[simp] theorem has_S_untraced (sr : UInt16) : has (untraced sr) S = has sr S :=
  has_untraced sr S (by decide)

@[simp] theorem has_V_untraced (sr : UInt16) : has (untraced sr) V = has sr V :=
  has_untraced sr V (by decide)

@[simp] theorem has_X_untraced (sr : UInt16) : has (untraced sr) X = has sr X :=
  has_untraced sr X (by decide)

@[simp] theorem untraced_and_ccr (sr : UInt16) : untraced sr &&& ccr = sr &&& ccr :=
  untraced_and sr ccr (by decide)

@[simp] theorem condition_untraced (sr : UInt16) (code : Nat) :
    condition (untraced sr) code = condition sr code := by
  simp [condition, has_untraced sr C (by decide), has_untraced sr Z (by decide),
    has_untraced sr N (by decide)]

@[simp] theorem withNZ_untraced (sr : UInt16) (n z : Bool) :
    withNZ (untraced sr) n z = untraced (withNZ sr n z) := by
  simp [withNZ]

@[simp] theorem clearVC_untraced (sr : UInt16) :
    clearVC (untraced sr) = untraced (clearVC sr) :=
  and_not_untraced sr (V ||| C) (by decide)

@[simp] theorem logical_untraced (sr : UInt16) (value : UInt32) (size : Size) :
    logical (untraced sr) value size = untraced (logical sr value size) := by
  simp [logical, updateNZ]

@[simp] theorem withCcr_untraced (sr value : UInt16) :
    withCcr (untraced sr) value = untraced (withCcr sr value) := by
  have hvalue : value &&& ccr &&& T1 = 0 := by
    rw [UInt16.and_assoc, show ccr &&& T1 = 0 by decide, UInt16.and_zero]
  rw [withCcr, and_not_untraced sr ccr (by decide), or_untraced _ _ hvalue, withCcr]

end Status

open Status

def Computed.untraced (c : Computed) : Computed := ⟨c.value, Status.untraced c.sr⟩

namespace Alu

@[simp] theorem flags_untraced (sr : UInt16) (result carry overflow : UInt32) (size : Size) :
    flags (untraced sr) result carry overflow size =
      untraced (flags sr result carry overflow size) := by
  simp [flags]

@[simp] theorem setZero_untraced (sr : UInt16) (result : UInt32) :
    setZero (untraced sr) result = untraced (setZero sr result) := by
  simp [setZero]

@[simp] theorem keepZero_untraced (sr : UInt16) (result : UInt32) :
    keepZero (untraced sr) result = untraced (keepZero sr result) := by
  rw [keepZero_eq, keepZero_eq]
  split <;> simp

@[simp] theorem extendIn_untraced (sr : UInt16) : extendIn (untraced sr) = extendIn sr := by
  simp [extendIn]

@[simp] theorem add_untraced (src dst : UInt32) (size : Size) (sr : UInt16) :
    add src dst size (untraced sr) = (add src dst size sr).untraced := by
  simp [add, sum, Computed.untraced]

@[simp] theorem sub_untraced (src dst : UInt32) (size : Size) (sr : UInt16) :
    sub src dst size (untraced sr) = (sub src dst size sr).untraced := by
  simp [sub, difference, Computed.untraced]

@[simp] theorem addx_untraced (src dst : UInt32) (size : Size) (sr : UInt16) :
    addx src dst size (untraced sr) = (addx src dst size sr).untraced := by
  simp [addx, sum, Computed.untraced]

@[simp] theorem subx_untraced (src dst : UInt32) (size : Size) (sr : UInt16) :
    subx src dst size (untraced sr) = (subx src dst size sr).untraced := by
  simp [subx, difference, Computed.untraced]

@[simp] theorem compare_untraced (src dst : UInt32) (size : Size) (sr : UInt16) :
    compare src dst size (untraced sr) = untraced (compare src dst size sr) := by
  have hx : sr &&& X &&& T1 = 0 := by
    rw [UInt16.and_assoc, show X &&& T1 = 0 by decide, UInt16.and_zero]
  simp only [compare, sub_untraced, Computed.untraced, untraced_and sr X (by decide)]
  rw [and_not_untraced _ X (by decide), or_untraced _ _ hx]

end Alu

@[simp] theorem Shift.shift_untraced (kind : ShiftKind) (direction : Direction) (count : Nat)
    (value : UInt32) (size : Size) (sr : UInt16) :
    Shift.shift kind direction count value size (untraced sr) =
      (Shift.shift kind direction count value size sr).untraced := by
  simp [Shift.shift, Computed.untraced]

namespace Decimal

@[simp] theorem flags_untraced (sr : UInt16) (result : UInt32) (carry overflow : Bool) :
    flags (untraced sr) result carry overflow = untraced (flags sr result carry overflow) := by
  simp [flags]

@[simp] theorem add_untraced (src dst : UInt32) (sr : UInt16) :
    add src dst (untraced sr) = (add src dst sr).untraced := by
  simp [add, Computed.untraced]

@[simp] theorem sub_untraced (src dst : UInt32) (sr : UInt16) :
    sub src dst (untraced sr) = (sub src dst sr).untraced := by
  simp [sub, Computed.untraced]

end Decimal

namespace Registers

def untraced (r : Registers) : Registers := { r with sr := Status.untraced r.sr }

variable (r : Registers)

@[simp] theorem sr_untraced : r.untraced.sr = Status.untraced r.sr := rfl

@[simp] theorem pc_untraced : r.untraced.pc = r.pc := rfl

@[simp] theorem ssp_untraced : r.untraced.ssp = r.ssp := rfl

@[simp] theorem untraced_untraced : r.untraced.untraced = r.untraced := by
  simp [untraced]

theorem untraced_withSr {sr sr' : UInt16} (h : Status.untraced sr = Status.untraced sr') :
    ({ r.untraced with sr := sr } : Registers).untraced =
      ({ r with sr := sr' } : Registers).untraced := by
  simp [untraced, h]

@[simp] theorem isSupervisor_untraced : r.untraced.isSupervisor = r.isSupervisor :=
  has_S_untraced r.sr

@[simp] theorem d_untraced (n : RegisterNumber) : r.untraced.d n = r.d n := rfl

@[simp] theorem sp_untraced : r.untraced.sp = r.sp := by
  rw [sp, isSupervisor_untraced]
  rfl

@[simp] theorem a_untraced (n : RegisterNumber) : r.untraced.a n = r.a n := by
  rw [a, sp_untraced]
  rfl

@[simp] theorem general_untraced (index : Nat) : r.untraced.general index = r.general index := by
  rw [general, d_untraced, a_untraced]
  rfl

@[simp] theorem setD_untraced (n : RegisterNumber) (value : UInt32) :
    r.untraced.setD n value = (r.setD n value).untraced := rfl

@[simp] theorem setSp_untraced (value : UInt32) :
    r.untraced.setSp value = (r.setSp value).untraced := by
  rw [setSp, setSp, isSupervisor_untraced]
  split <;> rfl

@[simp] theorem setA_untraced (n : RegisterNumber) (value : UInt32) :
    r.untraced.setA n value = (r.setA n value).untraced := by
  rw [setA, setA]
  split
  · rfl
  · exact r.setSp_untraced value

@[simp] theorem setGeneral_untraced (index : Nat) (value : UInt32) :
    r.untraced.setGeneral index value = (r.setGeneral index value).untraced := by
  rw [setGeneral, setGeneral]
  split
  · rfl
  · exact r.setA_untraced _ value

@[simp] theorem setCcr_untraced (value : UInt16) :
    r.untraced.setCcr value = (r.setCcr value).untraced := by
  simp [setCcr, untraced]

end Registers

namespace Machine

def untraced (m : Machine) : Machine := { m with regs := m.regs.untraced }

variable (m : Machine)

@[simp] theorem regs_untraced : m.untraced.regs = m.regs.untraced := rfl

@[simp] theorem untraced_untraced : m.untraced.untraced = m.untraced := by
  simp [untraced]

@[simp] theorem dataSpace_untraced : m.untraced.dataSpace = m.dataSpace := by
  simp [dataSpace]

@[simp] theorem programSpace_untraced : m.untraced.programSpace = m.programSpace := by
  simp [programSpace]

end Machine

end Mc68k
