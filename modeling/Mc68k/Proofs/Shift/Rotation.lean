import Mc68k.Proofs.Shift.Position

namespace Mc68k.Shift

open Status

section Wheel

variable {w : Nat} (x y : BitVec w)

theorem rotateLeft_rotateLeft (m n : Nat) :
    (x.rotateLeft m).rotateLeft n = x.rotateLeft (m + n) := by
  apply BitVec.eq_of_getMsbD_eq
  intro i hi
  have hin : (n + i) % w < w := Nat.mod_lt _ (by omega)
  rw [BitVec.getMsbD_rotateLeft, BitVec.getMsbD_rotateLeft, BitVec.getMsbD_rotateLeft,
    decide_eq_true hin, Bool.true_and, Nat.add_mod_mod, Nat.add_assoc]

theorem rotateLeft_zero : x.rotateLeft 0 = x := by
  apply BitVec.eq_of_getMsbD_eq
  intro i hi
  rw [BitVec.getMsbD_rotateLeft, decide_eq_true hi, Bool.true_and, Nat.zero_add,
    Nat.mod_eq_of_lt hi]

theorem rotateRight_eq_rotateLeft (n : Nat) :
    x.rotateRight n = x.rotateLeft (w - n % w) := by
  rcases Nat.eq_zero_or_pos w with rfl | hw
  · exact BitVec.eq_of_zero_length rfl
  rcases Nat.eq_zero_or_pos (n % w) with hn | hn
  · rw [← BitVec.rotateRight_mod_eq_rotateRight, ← BitVec.rotateLeft_mod_eq_rotateLeft, hn,
      Nat.sub_zero, Nat.mod_self, rotateLeft_zero, BitVec.rotateRight_def]
    simp
  · have hlt := Nat.mod_lt n hw
    rw [BitVec.rotateRight_def, BitVec.rotateLeft_def, @Nat.mod_eq_of_lt (w - n % w) w (by omega),
      Nat.sub_sub_self hlt.le, BitVec.or_comm]

theorem rotateRight_rotateLeft (n : Nat) : (x.rotateLeft n).rotateRight n = x := by
  rw [rotateRight_eq_rotateLeft, rotateLeft_rotateLeft]
  rcases Nat.eq_zero_or_pos w with rfl | hw
  · exact BitVec.eq_of_zero_length rfl
  have hturn : n + (w - n % w) = w * (n / w) + w := by
    have hlt := Nat.mod_lt n hw
    have hsplit := Nat.div_add_mod n w
    omega
  rw [hturn, ← BitVec.rotateLeft_mod_eq_rotateLeft, Nat.add_mod_right, Nat.mul_mod_right,
    rotateLeft_zero]

variable {x y}

theorem rotateLeft_one (hw : 1 < w) (bit : Bool)
    (h : 2 * x.toNat + bit.toNat = y.toNat + 2 ^ w * bit.toNat) : x.rotateLeft 1 = y := by
  obtain ⟨k, rfl⟩ : ∃ k, w = k + 1 := ⟨w - 1, by omega⟩
  have hx := x.isLt
  have hy := y.isLt
  have hle := bit.toNat_le
  rw [Nat.pow_succ] at h hx hy
  obtain ⟨low, hlow, hsplit⟩ : ∃ low < 2 ^ k, x.toNat = 2 ^ k * bit.toNat + low := by
    refine ⟨x.toNat - 2 ^ k * bit.toNat, ?_, ?_⟩ <;> cases bit <;> simp at h ⊢ <;> omega
  have hshift : x.toNat <<< 1 % 2 ^ (k + 1) = 2 ^ 1 * low := by
    rw [Nat.shiftLeft_eq, Nat.pow_one, Nat.mul_comm, Nat.pow_succ', Nat.mul_mod_mul_left, hsplit,
      Nat.mul_add_mod, Nat.mod_eq_of_lt hlow]
  have hout : x.toNat >>> k = bit.toNat := by
    rw [Nat.shiftRight_eq_div_pow, hsplit, Nat.mul_add_div (Nat.two_pow_pos k),
      Nat.div_eq_of_lt hlow, Nat.add_zero]
  apply BitVec.eq_of_toNat_eq
  rw [BitVec.toNat_rotateLeft, Nat.mod_eq_of_lt hw, hshift, Nat.add_sub_cancel, hout,
    ← Nat.two_pow_add_eq_or_of_lt (by omega)]
  cases bit <;> simp at h hsplit ⊢ <;> omega

end Wheel

def operand (size : Size) (v : UInt32) : BitVec size.bits := BitVec.ofNat size.bits v.toNat

def extended (size : Size) (x : Bool) (v : UInt32) : BitVec (size.bits + 1) :=
  BitVec.cons x (operand size v)

section Operand

variable (size : Size)

theorem one_lt_bits : 1 < size.bits := by
  cases size <;> decide

theorem toNat_operand {v : UInt32} (h : v.toNat < size.modulus) :
    (operand size v).toNat = v.toNat :=
  Nat.mod_eq_of_lt h

theorem toNat_extended {v : UInt32} (h : v.toNat < size.modulus) (x : Bool) :
    (extended size x v).toNat = x.toNat * size.modulus + v.toNat := by
  rw [extended, BitVec.toNat_cons', toNat_operand size h, Nat.shiftLeft_eq]
  rfl

theorem operand_and_mask (v : UInt32) : operand size (v &&& size.mask) = operand size v := by
  apply BitVec.eq_of_toNat_eq
  rw [operand, operand, BitVec.toNat_ofNat, BitVec.toNat_ofNat, toNat_and_mask, Nat.mod_mod]

theorem eq_and_mask_of_operand {v w : UInt32} (hv : v.toNat < size.modulus)
    (h : operand size v = operand size w) : v = w &&& size.mask := by
  apply UInt32.toNat_inj.mp
  rw [← toNat_operand size hv, h, ← operand_and_mask,
    toNat_operand size (Alu.toNat_masked_lt w size)]

theorem extended_inj {x y : Bool} {v w : UInt32} (h : extended size x v = extended size y w) :
    operand size v = operand size w ∧ x = y := by
  have hoperand := congrArg (BitVec.setWidth size.bits) h
  have hx := congrArg BitVec.msb h
  rw [extended, extended, BitVec.setWidth_cons, BitVec.setWidth_cons] at hoperand
  rw [extended, extended, BitVec.msb_cons, BitVec.msb_cons] at hx
  exact ⟨hoperand, hx⟩

end Operand

/-- A view of an operand in which every position of a shift is one of a rotation. -/
structure Turns (kind : ShiftKind) (size : Size) {w : Nat} (view : Progress → BitVec w) :
    Prop where
  left {p : Progress} (hp : p.value.toNat < size.modulus) :
    (view p).rotateLeft 1 = view (left kind size p)
  right {p : Progress} (hp : p.value.toNat < size.modulus) :
    (view (right kind size p)).rotateLeft 1 = view p

theorem turns_rotate (size : Size) : Turns .rotate size (fun p => operand size p.value) where
  left hp := by
    apply rotateLeft_one (one_lt_bits size) (Alu.top size _)
    rw [toNat_operand size hp, toNat_operand size (left_lt .rotate size)]
    exact left_exact .rotate size hp
  right hp := by
    apply rotateLeft_one (one_lt_bits size) _
    rw [toNat_operand size hp, toNat_operand size (right_lt .rotate size hp)]
    exact (right_exact .rotate size hp).symm

theorem turns_rotateExtend (size : Size) :
    Turns .rotateExtend size (fun p => extended size p.extend p.value) where
  left {p} hp := by
    apply rotateLeft_one (Nat.lt_succ_of_lt (one_lt_bits size)) p.extend
    have hexact : _ = _ + size.modulus * (left .rotateExtend size p).extend.toNat :=
      left_exact .rotateExtend size hp
    have hturn : 2 ^ (size.bits + 1) = 2 * size.modulus := Nat.pow_succ'
    rw [toNat_extended size hp, toNat_extended size (left_lt .rotateExtend size), hturn]
    simp only [entersLeft] at hexact
    linarith
  right {p} hp := by
    apply rotateLeft_one (Nat.lt_succ_of_lt (one_lt_bits size)) (right .rotateExtend size p).extend
    have hexact : _ = _ + (right .rotateExtend size p).extend.toNat :=
      right_exact .rotateExtend size hp
    have hturn : 2 ^ (size.bits + 1) = 2 * size.modulus := Nat.pow_succ'
    rw [toNat_extended size hp, toNat_extended size (right_lt .rotateExtend size hp), hturn]
    simp only [entersRight] at hexact
    linarith

section Steps

variable {kind : ShiftKind} {size : Size} {w : Nat} {view : Progress → BitVec w}
  (h : Turns kind size view) {p : Progress} (hp : p.value.toNat < size.modulus)
include h hp

theorem Turns.steps_left (n : Nat) :
    view (steps kind .left size n p) = (view p).rotateLeft n := by
  induction n with
  | zero => exact (rotateLeft_zero _).symm
  | succ n ih =>
    rw [steps_succ, once, ← h.left (steps_lt kind .left size hp n), ih, rotateLeft_rotateLeft]

theorem Turns.steps_right (n : Nat) :
    view (steps kind .right size n p) = (view p).rotateRight n := by
  have hback : (view (steps kind .right size n p)).rotateLeft n = view p := by
    induction n with
    | zero => exact rotateLeft_zero _
    | succ n ih =>
      rw [steps_succ, once, Nat.add_comm, ← rotateLeft_rotateLeft,
        h.right (steps_lt kind .right size hp n), ih]
  rw [← hback, rotateRight_rotateLeft]

end Steps

section Carry

variable {size : Size} {p : Progress} (hp : p.value.toNat < size.modulus)
include hp

theorem carry_left : (left .rotate size p).carry =
    (operand size (left .rotate size p).value).getLsbD 0 := by
  have hexact : 2 * p.value.toNat + (left .rotate size p).carry.toNat = _ + _ * _ :=
    left_exact .rotate size hp
  have hlow : (left .rotate size p).value.toNat % 2 = (left .rotate size p).carry.toNat := by
    have heven := Alu.two_dvd_modulus size
    have hle := (left .rotate size p).carry.toNat_le
    generalize (left .rotate size p).carry = out at *
    cases out <;> simp at hexact ⊢ <;> omega
  rw [BitVec.getLsbD, toNat_operand size (left_lt .rotate size), Nat.testBit_zero, hlow]
  cases (left .rotate size p).carry <;> rfl

theorem carry_right : (right .rotate size p).carry =
    (operand size (right .rotate size p).value).getLsbD (size.bits - 1) := by
  have hexact : p.value.toNat + _ * (right .rotate size p).carry.toNat = _ + _ :=
    right_exact .rotate size hp
  have hlt := right_lt .rotate size hp
  have htop := Alu.top_iff size _ hlt
  have heven := Alu.two_dvd_modulus size
  rw [BitVec.getLsbD, toNat_operand size hlt]
  change _ = (right .rotate size p).value.toBitVec.getLsbD (size.bits - 1)
  rw [← Alu.top_eq_getLsbD, Bool.eq_iff_iff, htop]
  generalize (right .rotate size p).carry = out at *
  cases out <;> simp at hexact ⊢ <;> omega

end Carry

/-- A rotation of the operand alone; the bit that went round last is where it came back in. -/
structure Rotates (size : Size) (before : UInt16) (n : Nat) (rotated : BitVec size.bits)
    (lastBit : Nat) (r : Computed) : Prop extends Describes size before r where
  operand : operand size r.value = rotated
  carry : has r.sr C = (decide (n ≠ 0) && rotated.getLsbD lastBit)
  extend : has r.sr X = has before X
  overflow : has r.sr V = false

/-- A rotation of the operand together with X, which C copies. -/
structure RotatesThrough (size : Size) (before : UInt16) (rotated : BitVec (size.bits + 1))
    (r : Computed) : Prop extends Describes size before r where
  extended : extended size (has r.sr X) r.value = rotated
  carry : has r.sr C = has r.sr X
  overflow : has r.sr V = false

section Shift

variable {direction : Direction} {n : Nat} {value : UInt32} {size : Size} {sr : UInt16}

theorem rotates_of_finish {rotated : BitVec size.bits} {lastBit : Nat}
    (hoperand : operand size (finish .rotate direction n value size sr).value = rotated)
    (hcarry : ∀ {p : Progress}, p.value.toNat < size.modulus →
      (once .rotate direction size p).carry =
        (operand size (once .rotate direction size p).value).getLsbD lastBit) :
    Rotates size sr n rotated lastBit (shift .rotate direction n value size sr) where
  toDescribes := describes_shift .rotate direction n value size sr
  operand := hoperand
  carry := by
    rw [has_shift_C, carryOut]
    cases n with
    | zero => rfl
    | succ k =>
      have hlast := hcarry (steps_lt .rotate direction size (start_lt value size sr) k)
      rw [← steps_succ] at hlast
      rw [← hoperand, decide_eq_true k.succ_ne_zero, Bool.true_and]
      exact hlast
  extend := by
    rw [has_shift_X, finish, extend_steps_rotate]
    rfl
  overflow := by
    rw [has_shift_V]
    exact overflow_finish _ _ _ _ _ _ (by simp)

theorem rotatesThrough_of_finish {rotated : BitVec (size.bits + 1)}
    (hextended : extended size (finish .rotateExtend direction n value size sr).extend
      (finish .rotateExtend direction n value size sr).value = rotated) :
    RotatesThrough size sr rotated (shift .rotateExtend direction n value size sr) where
  toDescribes := describes_shift .rotateExtend direction n value size sr
  extended := by
    rw [has_shift_X]
    exact hextended
  carry := by
    rw [has_shift_C, has_shift_X, carryOut]
    cases n with
    | zero => rfl
    | succ k => exact (extend_steps_succ .rotateExtend direction size (by decide) k _).symm
  overflow := by
    rw [has_shift_V]
    exact overflow_finish _ _ _ _ _ _ (by simp)

variable (n value size sr)

theorem rotates_left : Rotates size sr n ((operand size value).rotateLeft (n % size.bits)) 0
    (shift .rotate .left n value size sr) := by
  refine rotates_of_finish ?_ carry_left
  rw [BitVec.rotateLeft_mod_eq_rotateLeft, ← operand_and_mask size value]
  exact (turns_rotate size).steps_left (start_lt value size sr) n

theorem rotates_right :
    Rotates size sr n ((operand size value).rotateRight (n % size.bits)) (size.bits - 1)
      (shift .rotate .right n value size sr) := by
  refine rotates_of_finish ?_ carry_right
  rw [BitVec.rotateRight_mod_eq_rotateRight, ← operand_and_mask size value]
  exact (turns_rotate size).steps_right (start_lt value size sr) n

theorem rotatesThrough_left :
    RotatesThrough size sr ((extended size (has sr X) value).rotateLeft (n % (size.bits + 1)))
      (shift .rotateExtend .left n value size sr) := by
  apply rotatesThrough_of_finish
  rw [BitVec.rotateLeft_mod_eq_rotateLeft, extended, extended, ← operand_and_mask size value]
  exact (turns_rotateExtend size).steps_left (start_lt value size sr) n

theorem rotatesThrough_right :
    RotatesThrough size sr ((extended size (has sr X) value).rotateRight (n % (size.bits + 1)))
      (shift .rotateExtend .right n value size sr) := by
  apply rotatesThrough_of_finish
  rw [BitVec.rotateRight_mod_eq_rotateRight, extended, extended, ← operand_and_mask size value]
  exact (turns_rotateExtend size).steps_right (start_lt value size sr) n

end Shift

/-- Rotations in closed form, for every count: the operand goes round in its own width, or with X
above it in one bit more. -/
theorem shift_rotates (n : Nat) (value : UInt32) (size : Size) (sr : UInt16) :
    let v := operand size value
    let x := extended size (has sr X) value
    let there := shift .rotateExtend .left n value size sr
    let back := shift .rotateExtend .right n there.value size there.sr
    Rotates size sr n (v.rotateLeft (n % size.bits)) 0 (shift .rotate .left n value size sr) ∧
      Rotates size sr n (v.rotateRight (n % size.bits)) (size.bits - 1)
        (shift .rotate .right n value size sr) ∧
      RotatesThrough size sr (x.rotateLeft (n % (size.bits + 1)))
        (shift .rotateExtend .left n value size sr) ∧
      RotatesThrough size sr (x.rotateRight (n % (size.bits + 1)))
        (shift .rotateExtend .right n value size sr) ∧
      (∀ sr', (shift .rotate .right n (shift .rotate .left n value size sr).value size sr').value =
        value &&& size.mask) ∧
      back.value = value &&& size.mask ∧ has back.sr X = has sr X := by
  intro v x there back
  refine ⟨rotates_left n value size sr, rotates_right n value size sr,
    rotatesThrough_left n value size sr, rotatesThrough_right n value size sr, ?beside, ?through⟩
  case beside =>
    intro sr'
    have hthere := rotates_left n value size sr
    have hback := rotates_right n (shift .rotate .left n value size sr).value size sr'
    apply eq_and_mask_of_operand size hback.lt
    rw [hback.operand, hthere.operand, rotateRight_rotateLeft]
  case through =>
    have hthere := rotatesThrough_left n value size sr
    have hback := rotatesThrough_right n there.value size there.sr
    have hextended : extended size (has back.sr X) back.value = extended size (has sr X) value := by
      rw [hback.extended, hthere.extended, rotateRight_rotateLeft]
    obtain ⟨hoperand, hx⟩ := extended_inj size hextended
    exact ⟨eq_and_mask_of_operand size hback.lt hoperand, hx⟩

end Mc68k.Shift
