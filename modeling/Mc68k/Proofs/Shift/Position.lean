import Mc68k.Proofs.Arithmetic.Number

namespace Mc68k.Shift

open Status

section Position

variable (kind : ShiftKind) (size : Size) (p : Progress)

/-- The bit that enters at the end that a position to the left frees. -/
def entersLeft : Bool :=
  match kind with
  | .arithmetic | .logical => false
  | .rotateExtend => p.extend
  | .rotate => Alu.top size p.value

/-- The bit that enters at the end that a position to the right frees. -/
def entersRight : Bool :=
  match kind with
  | .arithmetic => Alu.top size p.value
  | .logical => false
  | .rotateExtend => p.extend
  | .rotate => p.value &&& 1 != 0

theorem toNat_masked_double (v : UInt32) (enters : Bool) :
    (((v <<< 1) ||| (if enters then 1 else 0)) &&& size.mask).toNat =
      (2 * v.toNat + enters.toNat) % size.modulus := by
  have hshift : (v <<< 1).toNat = 2 ^ 1 * (v.toNat % 2 ^ 31) := by
    simp only [UInt32.toNat_shiftLeft, Nat.shiftLeft_eq]
    change v.toNat * 2 ^ 1 % 2 ^ 32 = _
    omega
  have henters : (if enters then 1 else 0 : UInt32).toNat = enters.toNat := by
    cases enters <;> rfl
  have hle := enters.toNat_le
  rw [toNat_and_mask, UInt32.toNat_or, hshift, henters, ← Nat.two_pow_add_eq_or_of_lt (by omega)]
  cases size <;> simp only [Size.modulus, Size.bits, Size.bytes] <;> omega

theorem toNat_halved (v : UInt32) (enters : Bool) (h : v.toNat < size.modulus) :
    ((v >>> 1) ||| (if enters then size.signBit else 0)).toNat =
      size.modulus / 2 * enters.toNat + v.toNat / 2 := by
  have hhalf : size.modulus / 2 = 2 ^ (size.bits - 1) := by cases size <;> rfl
  have hshift : (v >>> 1).toNat = v.toNat / 2 := by simp [Nat.shiftRight_eq_div_pow]
  have henters : (if enters then size.signBit else 0).toNat =
      2 ^ (size.bits - 1) * enters.toNat := by
    cases enters <;> cases size <;> rfl
  have heven := Alu.two_dvd_modulus size
  have hlow : v.toNat / 2 < 2 ^ (size.bits - 1) := by omega
  rw [UInt32.toNat_or, hshift, henters, hhalf, Nat.or_comm, ← Nat.two_pow_add_eq_or_of_lt hlow]

theorem bne_zero_iff_odd (v : UInt32) : (v &&& 1 != 0) = true ↔ v.toNat % 2 = 1 := by
  rw [bne_iff_ne, ne_eq, ← UInt32.toNat_inj, UInt32.toNat_and, UInt32.toNat_one,
    Nat.and_one_is_mod, UInt32.toNat_zero]
  omega

variable {p}

theorem left_exact (h : p.value.toNat < size.modulus) :
    2 * p.value.toNat + (entersLeft kind size p).toNat =
      (left kind size p).value.toNat + size.modulus * (left kind size p).carry.toNat := by
  have hvalue : (left kind size p).value.toNat =
      (2 * p.value.toNat + (entersLeft kind size p).toNat) % size.modulus := by
    rw [← toNat_masked_double]
    cases kind <;> rfl
  have hcarry : (left kind size p).carry = true ↔ size.modulus ≤ 2 * p.value.toNat :=
    Alu.top_iff size p.value h
  have heven := Alu.two_dvd_modulus size
  have hle := (entersLeft kind size p).toNat_le
  rw [hvalue]
  generalize (entersLeft kind size p).toNat = enters at hle ⊢
  cases hc : (left kind size p).carry with
  | false =>
    have hlt : 2 * p.value.toNat + enters < size.modulus := by
      rw [hc] at hcarry
      simp at hcarry
      omega
    rw [Nat.mod_eq_of_lt hlt]
    simp
  | true =>
    have hge := hcarry.mp hc
    rw [Nat.mod_eq_sub_mod (by omega), Nat.mod_eq_of_lt (by omega)]
    simp
    omega

theorem right_exact (h : p.value.toNat < size.modulus) :
    p.value.toNat + size.modulus * (entersRight kind size p).toNat =
      2 * (right kind size p).value.toNat + (right kind size p).carry.toNat := by
  have hvalue : (right kind size p).value.toNat =
      size.modulus / 2 * (entersRight kind size p).toNat + p.value.toNat / 2 := by
    rw [← toNat_halved size p.value _ h]
    cases kind <;> rfl
  have hcarry : (right kind size p).carry.toNat = p.value.toNat % 2 := by
    have hodd := bne_zero_iff_odd p.value
    change (p.value &&& 1 != 0).toNat = _
    cases hc : p.value &&& 1 != 0 <;> simp [hc] at hodd ⊢ <;> omega
  have hsplit : size.modulus * (entersRight kind size p).toNat =
      2 * (size.modulus / 2 * (entersRight kind size p).toNat) := by
    rw [← Nat.mul_assoc, Nat.mul_div_cancel' (Alu.two_dvd_modulus size)]
  rw [hvalue, hcarry, hsplit]
  omega

theorem left_lt : (left kind size p).value.toNat < size.modulus :=
  Alu.toNat_masked_lt _ size

theorem right_lt (h : p.value.toNat < size.modulus) :
    (right kind size p).value.toNat < size.modulus := by
  have hexact := right_exact kind size h
  have hle := Nat.mul_le_mul_left size.modulus (entersRight kind size p).toNat_le
  omega

end Position

section Steps

variable (kind : ShiftKind) (direction : Direction) (size : Size)

theorem steps_succ (n : Nat) (p : Progress) :
    steps kind direction size (n + 1) p =
      once kind direction size (steps kind direction size n p) := by
  induction n generalizing p with
  | zero => rfl
  | succ n ih => rw [steps, ih, steps]

theorem steps_lt {p : Progress} (h : p.value.toNat < size.modulus) (n : Nat) :
    (steps kind direction size n p).value.toNat < size.modulus := by
  induction n with
  | zero => exact h
  | succ n ih =>
    rw [steps_succ]
    cases direction with
    | left => exact left_lt kind size
    | right => exact right_lt kind size ih

theorem extend_steps_succ (h : kind ≠ .rotate) (n : Nat) (p : Progress) :
    (steps kind direction size (n + 1) p).extend =
      (steps kind direction size (n + 1) p).carry := by
  rw [steps_succ]
  cases direction <;> exact if_neg h

theorem extend_steps_rotate (n : Nat) (p : Progress) :
    (steps .rotate direction size n p).extend = p.extend := by
  induction n with
  | zero => rfl
  | succ n ih =>
    rw [steps_succ, ← ih]
    cases direction <;> rfl

/-- It is arithmetic shifts to the left alone that overflow. -/
theorem overflow_steps (h : ¬ (kind = .arithmetic ∧ direction = .left)) (n : Nat) (p : Progress) :
    (steps kind direction size n p).overflow = p.overflow := by
  induction n with
  | zero => rfl
  | succ n ih =>
    rw [steps_succ, ← ih]
    cases direction with
    | right => rfl
    | left =>
      have hkind : (kind == .arithmetic) = false := by simpa using h
      simp [once, left, hkind]

end Steps

section Codes

variable (kind : ShiftKind) (direction : Direction) (n : Nat) (value : UInt32) (size : Size)
  (sr : UInt16)

def start : Progress := ⟨value &&& size.mask, has sr X, false, false⟩

def finish : Progress := steps kind direction size n (start value size sr)

theorem start_lt : (start value size sr).value.toNat < size.modulus :=
  Alu.toNat_masked_lt value size

theorem overflow_finish (h : ¬ (kind = .arithmetic ∧ direction = .left)) :
    (finish kind direction n value size sr).overflow = false :=
  overflow_steps kind direction size h n _

theorem has_shift_C : has (shift kind direction n value size sr).sr C =
    carryOut kind n (finish kind direction n value size sr) := by
  rw [shift, has_withNZ_of_disjoint _ _ _ C (by decide) (by decide),
    has_setIf_of_disjoint _ X C _ (by decide), has_setIf_of_disjoint _ V C _ (by decide),
    has_setIf_self _ C _ (by decide)]
  rfl

theorem has_shift_V : has (shift kind direction n value size sr).sr V =
    (finish kind direction n value size sr).overflow := by
  rw [shift, has_withNZ_of_disjoint _ _ _ V (by decide) (by decide),
    has_setIf_of_disjoint _ X V _ (by decide), has_setIf_self _ V _ (by decide)]
  rfl

theorem has_shift_X : has (shift kind direction n value size sr).sr X =
    (finish kind direction n value size sr).extend := by
  rw [shift, has_withNZ_of_disjoint _ _ _ X (by decide) (by decide),
    has_setIf_self _ X _ (by decide)]
  rfl

/-- Condition codes that describe a result of a size, and system bits that are as before. -/
structure Describes (size : Size) (before : UInt16) (r : Computed) : Prop where
  lt : r.value.toNat < size.modulus
  negative : has r.sr N = Alu.top size r.value
  zero : has r.sr Z = true ↔ r.value = 0
  system : Status.system r.sr = Status.system before

theorem describes_shift : Describes size sr (shift kind direction n value size sr) where
  lt := steps_lt kind direction size (start_lt value size sr) n
  negative := has_withNZ_N _ _ _
  zero := by rw [shift, has_withNZ_Z, beq_iff_eq]
  system := system_shift kind direction n value size sr

end Codes

end Mc68k.Shift
