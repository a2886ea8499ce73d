import Mc68k.Decimal
import Mc68k.Shift

namespace Mc68k

namespace Status

/-- All bits but the condition codes. -/
def system (sr : UInt16) : UInt16 := sr &&& ~~~ccr

theorem setIf_and (sr flag mask : UInt16) (c : Bool) (h : flag &&& mask = 0) :
    setIf sr flag c &&& mask = sr &&& mask := by
  apply UInt16.eq_of_toBitVec_eq
  ext i hi
  have hb : (flag &&& mask).toBitVec[i] = (0 : UInt16).toBitVec[i] := by rw [h]
  cases c <;> simp [setIf] at hb ⊢ <;> grind

theorem system_setIf (sr flag : UInt16) (c : Bool) (h : flag &&& ~~~ccr = 0) :
    system (setIf sr flag c) = system sr :=
  setIf_and sr flag (~~~ccr) c h

@[simp] theorem system_setIf_C (sr : UInt16) (c : Bool) : system (setIf sr C c) = system sr :=
  system_setIf sr C c (by decide)

@[simp] theorem system_setIf_V (sr : UInt16) (c : Bool) : system (setIf sr V c) = system sr :=
  system_setIf sr V c (by decide)

@[simp] theorem system_setIf_Z (sr : UInt16) (c : Bool) : system (setIf sr Z c) = system sr :=
  system_setIf sr Z c (by decide)

@[simp] theorem system_setIf_N (sr : UInt16) (c : Bool) : system (setIf sr N c) = system sr :=
  system_setIf sr N c (by decide)

@[simp] theorem system_setIf_X (sr : UInt16) (c : Bool) : system (setIf sr X c) = system sr :=
  system_setIf sr X c (by decide)

theorem system_or (sr flag : UInt16) (h : flag &&& ~~~ccr = 0) :
    system (sr ||| flag) = system sr :=
  system_setIf sr flag true h

theorem system_clear (sr flag : UInt16) (h : flag &&& ~~~ccr = 0) :
    system (sr &&& ~~~flag) = system sr :=
  system_setIf sr flag false h

@[simp] theorem system_withNZ (sr : UInt16) (n z : Bool) : system (withNZ sr n z) = system sr := by
  simp [withNZ]

@[simp] theorem system_clearVC (sr : UInt16) : system (clearVC sr) = system sr :=
  system_clear sr (V ||| C) (by decide)

@[simp] theorem system_logical (sr : UInt16) (value : UInt32) (size : Size) :
    system (logical sr value size) = system sr := by
  simp [logical, updateNZ]

@[simp] theorem system_withCcr (sr value : UInt16) : system (withCcr sr value) = system sr := by
  apply UInt16.eq_of_toBitVec_eq
  ext i hi
  simp [system, withCcr]
  grind

theorem has_S_of_system_eq {sr sr' : UInt16} (h : system sr' = system sr) :
    has sr' S = has sr S := by
  have hs (x : UInt16) : x &&& S = system x &&& S := by
    rw [system, UInt16.and_assoc]
    rfl
  rw [has, has, hs sr', hs sr, h]

end Status

namespace Status

theorem has_setIf_self (sr flag : UInt16) (c : Bool) (h : flag ≠ 0) :
    has (setIf sr flag c) flag = c := by
  have hand : setIf sr flag c &&& flag = if c then flag else 0 := by
    apply UInt16.eq_of_toBitVec_eq
    ext i hi
    cases c <;> simp [setIf]
    grind
  cases c <;> simp [has, hand, h]

theorem has_setIf_of_disjoint (sr flag other : UInt16) (c : Bool) (h : flag &&& other = 0) :
    has (setIf sr flag c) other = has sr other := by
  rw [has, has, setIf_and sr flag other c h]

theorem has_clear (sr mask flag : UInt16) (h : ~~~mask &&& flag = 0) :
    has (sr &&& ~~~mask) flag = false := by
  rw [has, UInt16.and_assoc, h, UInt16.and_zero]
  rfl

theorem has_clear_of_disjoint (sr mask other : UInt16) (h : mask &&& other = 0) :
    has (sr &&& ~~~mask) other = has sr other :=
  has_setIf_of_disjoint sr mask other false h

section WithNZ

variable (sr : UInt16) (negative zero : Bool)

theorem has_withNZ_N : has (withNZ sr negative zero) N = negative :=
  has_setIf_self _ N _ (by decide)

theorem has_withNZ_Z : has (withNZ sr negative zero) Z = zero := by
  rw [withNZ, has_setIf_of_disjoint _ N Z _ (by decide), has_setIf_self _ Z _ (by decide)]

theorem has_withNZ_of_disjoint (other : UInt16) (hN : N &&& other = 0) (hZ : Z &&& other = 0) :
    has (withNZ sr negative zero) other = has sr other := by
  rw [withNZ, has_setIf_of_disjoint _ N other _ hN, has_setIf_of_disjoint _ Z other _ hZ]

end WithNZ

section Logical

variable (sr : UInt16) (value : UInt32) (size : Size)

theorem has_logical_N :
    has (logical sr value size) N = (signExtend value size &&& 0x80000000 != 0) := by
  rw [logical, clearVC, has_clear_of_disjoint _ _ N (by decide), updateNZ, has_withNZ_N]

theorem has_logical_Z : has (logical sr value size) Z = (signExtend value size == 0) := by
  rw [logical, clearVC, has_clear_of_disjoint _ _ Z (by decide), updateNZ, has_withNZ_Z]

theorem has_logical_V : has (logical sr value size) V = false :=
  has_clear _ _ V (by decide)

theorem has_logical_C : has (logical sr value size) C = false :=
  has_clear _ _ C (by decide)

theorem has_logical_X : has (logical sr value size) X = has sr X := by
  rw [logical, clearVC, has_clear_of_disjoint _ _ X (by decide), updateNZ,
    has_withNZ_of_disjoint _ _ _ X (by decide) (by decide)]

end Logical

end Status

open Status

namespace Alu

theorem keepZero_eq (sr : UInt16) (result : UInt32) :
    keepZero sr result = if result = 0 then sr else setIf sr Z false := by
  simp only [keepZero, beq_iff_eq]
  rfl

theorem has_keepZero_Z (sr : UInt16) (result : UInt32) :
    has (keepZero sr result) Z = (has sr Z && result == 0) := by
  rw [keepZero_eq]
  split
  · simp [*]
  · simp [*, has_setIf_self sr Z false (by decide)]

theorem has_keepZero_of_disjoint (sr other : UInt16) (result : UInt32) (h : Z &&& other = 0) :
    has (keepZero sr result) other = has sr other := by
  rw [keepZero_eq]
  split
  · rfl
  · exact has_setIf_of_disjoint sr Z other false h

@[simp] theorem system_flags (sr : UInt16) (result carry overflow : UInt32) (size : Size) :
    system (flags sr result carry overflow size) = system sr := by
  simp [flags]

@[simp] theorem system_setZero (sr : UInt16) (result : UInt32) :
    system (setZero sr result) = system sr := by
  simp [setZero]

@[simp] theorem system_keepZero (sr : UInt16) (result : UInt32) :
    system (keepZero sr result) = system sr := by
  rw [keepZero]
  split
  · rfl
  · exact system_clear sr Z (by decide)

@[simp] theorem system_add (src dst : UInt32) (size : Size) (sr : UInt16) :
    system (add src dst size sr).sr = system sr := by
  simp [add, sum]

@[simp] theorem system_sub (src dst : UInt32) (size : Size) (sr : UInt16) :
    system (sub src dst size sr).sr = system sr := by
  simp [sub, difference]

@[simp] theorem system_addx (src dst : UInt32) (size : Size) (sr : UInt16) :
    system (addx src dst size sr).sr = system sr := by
  simp [addx, sum]

@[simp] theorem system_subx (src dst : UInt32) (size : Size) (sr : UInt16) :
    system (subx src dst size sr).sr = system sr := by
  simp [subx, difference]

@[simp] theorem system_compare (src dst : UInt32) (size : Size) (sr : UInt16) :
    system (compare src dst size sr) = system sr := by
  have hor (x : UInt16) : system (x ||| (sr &&& X)) = system x := by
    apply system_or
    rw [UInt16.and_assoc, show X &&& ~~~ccr = 0 by decide, UInt16.and_zero]
  rw [compare, hor, system_clear _ X (by decide), system_sub]

end Alu

@[simp] theorem Shift.system_shift (kind : ShiftKind) (direction : Direction) (count : Nat)
    (value : UInt32) (size : Size) (sr : UInt16) :
    system (Shift.shift kind direction count value size sr).sr = system sr := by
  simp [Shift.shift]

namespace Decimal

@[simp] theorem system_flags (sr : UInt16) (result : UInt32) (carry overflow : Bool) :
    system (flags sr result carry overflow) = system sr := by
  simp [flags]

@[simp] theorem system_add (src dst : UInt32) (sr : UInt16) :
    system (add src dst sr).sr = system sr := by
  simp [add]

@[simp] theorem system_sub (src dst : UInt32) (sr : UInt16) :
    system (sub src dst sr).sr = system sr := by
  simp [sub]

end Decimal

end Mc68k
