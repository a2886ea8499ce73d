import Mc68k.Proofs.Shift.Position

namespace Mc68k.Shift

open Status Chain

section Left

variable {kind : ShiftKind} (hkind : kind = .arithmetic ∨ kind = .logical) {size : Size}
  {p : Progress} (hp : p.value.toNat < size.modulus)
include hkind

theorem entersLeft_eq_false : entersLeft kind size p = false := by
  obtain rfl | rfl := hkind <;> rfl

include hp

theorem value_steps_left (n : Nat) :
    (steps kind .left size n p).value.toNat = p.value.toNat * 2 ^ n % size.modulus := by
  induction n with
  | zero => exact (by rw [Nat.pow_zero, Nat.mul_one, Nat.mod_eq_of_lt hp]; rfl)
  | succ n ih =>
    have hexact := left_exact kind size (steps_lt kind .left size hp n)
    rw [entersLeft_eq_false hkind, Bool.toNat_false, Nat.add_zero] at hexact
    calc (steps kind .left size (n + 1) p).value.toNat
        = (left kind size (steps kind .left size n p)).value.toNat := by rw [steps_succ]; rfl
      _ = 2 * (steps kind .left size n p).value.toNat % size.modulus := by
        rw [hexact, Nat.add_mul_mod_self_left, Nat.mod_eq_of_lt (left_lt kind size)]
      _ = p.value.toNat * 2 ^ (n + 1) % size.modulus := by
        rw [ih, Nat.mul_mod_mod, Nat.pow_succ, Nat.mul_comm 2, Nat.mul_assoc]

theorem carry_steps_left (n : Nat) :
    (steps kind .left size (n + 1) p).carry =
      (p.value.toNat * 2 ^ (n + 1)).testBit size.bits := by
  have hbits : size.bits = size.bits - 1 + 1 := by cases size <;> rfl
  have hhalf : p.value.toNat * 2 ^ (n + 1) / 2 = p.value.toNat * 2 ^ n := by
    rw [Nat.pow_succ, ← Nat.mul_assoc, Nat.mul_div_cancel _ (by decide)]
  calc (steps kind .left size (n + 1) p).carry
      = Alu.top size (steps kind .left size n p).value := by rw [steps_succ]; rfl
    _ = (p.value.toNat * 2 ^ n % 2 ^ size.bits).testBit (size.bits - 1) := by
      rw [Alu.top_eq_getLsbD]
      exact congrArg (fun v : Nat => v.testBit (size.bits - 1)) (value_steps_left hkind hp n)
    _ = (p.value.toNat * 2 ^ n).testBit (size.bits - 1) := by
      rw [Nat.testBit_mod_two_pow, decide_eq_true (by omega), Bool.true_and]
    _ = (p.value.toNat * 2 ^ (n + 1)).testBit size.bits := by
      rw [hbits, Nat.testBit_succ, hhalf, Nat.add_sub_cancel]

end Left

section Overflow

variable {size : Size} {p : Progress} (hp : p.value.toNat < size.modulus)
include hp

theorem doubles_left :
    ((left .arithmetic size p).overflow = true ↔
      p.overflow = true ∨ Overflows size.modulus (2 * signed size.modulus p.value.toNat)) ∧
    (¬ Overflows size.modulus (2 * signed size.modulus p.value.toNat) →
      signed size.modulus (left .arithmetic size p).value.toNat =
        2 * signed size.modulus p.value.toNat) := by
  have hexact := left_exact .arithmetic size hp
  have hlt := @left_lt .arithmetic size p
  have htop := Alu.top_iff size _ hlt
  have hcarry : (left .arithmetic size p).carry = true ↔ _ := Alu.top_iff size p.value hp
  have hoverflow : (left .arithmetic size p).overflow = (p.overflow ||
      (Alu.top size (left .arithmetic size p).value != (left .arithmetic size p).carry)) := rfl
  have heven := Alu.two_dvd_modulus size
  rw [hoverflow, Bool.or_eq_true]
  generalize (left .arithmetic size p).value.toNat = v' at *
  generalize Alu.top size (left .arithmetic size p).value = top' at *
  simp only [entersLeft, Bool.toNat_false, Nat.add_zero] at hexact
  simp only [Overflows, signed]
  cases hc : (left .arithmetic size p).carry <;> cases top' <;>
    simp [hc] at hexact hcarry htop ⊢ <;> omega

/-- V is set as soon as the exact product has no room, and stays. -/
theorem overflow_steps_left (h : p.overflow = false) (n : Nat) :
    ((steps .arithmetic .left size n p).overflow = true ↔
      Overflows size.modulus (signed size.modulus p.value.toNat * 2 ^ n)) ∧
    (¬ Overflows size.modulus (signed size.modulus p.value.toNat * 2 ^ n) →
      signed size.modulus (steps .arithmetic .left size n p).value.toNat =
        signed size.modulus p.value.toNat * 2 ^ n) := by
  induction n with
  | zero =>
    have hroom : ¬ Overflows size.modulus (signed size.modulus p.value.toNat) := by
      simp only [Overflows, signed]
      split <;> omega
    rw [Int.pow_zero, Int.mul_one]
    exact ⟨by simp [steps, h, hroom], fun _ => rfl⟩
  | succ n ih =>
    obtain ⟨hoverflow, hexact⟩ := ih
    obtain ⟨hnext, hdouble⟩ := doubles_left (steps_lt .arithmetic .left size hp n)
    rw [steps_succ, once, hnext, hoverflow, Int.pow_succ, ← Int.mul_assoc,
      Int.mul_comm _ (2 : Int)]
    generalize signed size.modulus p.value.toNat * 2 ^ n = product at *
    by_cases hroom : Overflows size.modulus product
    · have hdoubled : Overflows size.modulus (2 * product) := by
        simp only [Overflows] at hroom ⊢
        omega
      exact ⟨by simp [hroom, hdoubled], fun hfits => absurd hdoubled hfits⟩
    · rw [hexact hroom] at hdouble ⊢
      exact ⟨by simp [hroom], hdouble⟩

end Overflow

section Right

variable {size : Size} {p : Progress}

theorem carry_steps_right (kind : ShiftKind) (n : Nat) :
    (steps kind .right size (n + 1) p).carry = true ↔
      (steps kind .right size n p).value.toNat % 2 = 1 := by
  rw [steps_succ]
  exact bne_zero_iff_odd (steps kind .right size n p).value

variable (hp : p.value.toNat < size.modulus)
include hp

theorem value_steps_right (n : Nat) :
    (steps .logical .right size n p).value.toNat = p.value.toNat / 2 ^ n := by
  induction n with
  | zero => exact (Nat.div_one _).symm
  | succ n ih =>
    have hexact := right_exact .logical size (steps_lt .logical .right size hp n)
    have hle := (right .logical size (steps .logical .right size n p)).carry.toNat_le
    have hhalf : (right .logical size (steps .logical .right size n p)).value.toNat =
        (steps .logical .right size n p).value.toNat / 2 := by
      simp only [entersRight, Bool.toNat_false, Nat.mul_zero] at hexact
      omega
    rw [steps_succ, once, hhalf, ih, Nat.div_div_eq_div_mul, Nat.pow_succ]

/-- A position to the right halves the signed number, toward minus infinity. -/
theorem halves_right : signed size.modulus (right .arithmetic size p).value.toNat =
    signed size.modulus p.value.toNat / 2 := by
  have hexact := right_exact .arithmetic size hp
  have hlt := right_lt .arithmetic size hp
  have hle := (right .arithmetic size p).carry.toNat_le
  have htop := Alu.top_iff size p.value hp
  have heven := Alu.two_dvd_modulus size
  simp only [entersRight] at hexact
  simp only [signed]
  cases ht : Alu.top size p.value <;> simp [ht] at hexact htop <;> split <;> omega

theorem signed_steps_right (n : Nat) :
    signed size.modulus (steps .arithmetic .right size n p).value.toNat =
      signed size.modulus p.value.toNat / 2 ^ n := by
  induction n with
  | zero => exact (Int.ediv_one _).symm
  | succ n ih =>
    rw [steps_succ, once, halves_right (steps_lt .arithmetic .right size hp n), ih, Int.pow_succ,
      Int.ediv_ediv_of_nonneg (by positivity)]

end Right

section Signed

variable {size : Size} {v : Nat}

theorem signed_emod (h : v < size.modulus) : signed size.modulus v % size.modulus = v := by
  rw [signed]
  split
  · exact Int.emod_eq_of_lt (by omega) (by omega)
  · rw [Int.sub_emod_right, Int.emod_eq_of_lt (by omega) (by omega)]

theorem signed_emod_two (size : Size) (v : Nat) :
    signed size.modulus v % 2 = 1 ↔ v % 2 = 1 := by
  have heven := Alu.two_dvd_modulus size
  rw [signed]
  split <;> omega

end Signed

/-- A shift that leaves a number cut to the operand, where `lost` tells the last bit out of it. -/
structure Scales (size : Size) (before : UInt16) (n : Nat) (number : Int) (lost overflow : Prop)
    (r : Computed) : Prop extends Describes size before r where
  value : (r.value.toNat : Int) = number % size.modulus
  carry : has r.sr C = true ↔ n ≠ 0 ∧ lost
  extend : has r.sr X = if n = 0 then has before X else has r.sr C
  overflow : has r.sr V = true ↔ overflow

section Shift

variable {kind : ShiftKind} {direction : Direction} {n : Nat} {value : UInt32} {size : Size}
  {sr : UInt16}

theorem scales_of_finish {number : Int} {lost overflow : Prop}
    (hkind : kind = .arithmetic ∨ kind = .logical)
    (hvalue : ((finish kind direction n value size sr).value.toNat : Int) = number % size.modulus)
    (hlost : ∀ k, n = k + 1 → ((finish kind direction n value size sr).carry = true ↔ lost))
    (hoverflow : (finish kind direction n value size sr).overflow = true ↔ overflow) :
    Scales size sr n number lost overflow (shift kind direction n value size sr) where
  toDescribes := describes_shift kind direction n value size sr
  value := hvalue
  carry := by
    rw [has_shift_C, carryOut]
    cases n with
    | zero => obtain rfl | rfl := hkind <;> simp
    | succ k => simp [hlost k rfl]
  extend := by
    rw [has_shift_X, has_shift_C, carryOut]
    cases n with
    | zero => rfl
    | succ k =>
      have hrotate : kind ≠ .rotate := by rintro rfl; simp at hkind
      exact extend_steps_succ kind direction size hrotate k _
  overflow := by rw [has_shift_V, hoverflow]

theorem overflow_finish_iff (h : ¬ (kind = .arithmetic ∧ direction = .left)) :
    (finish kind direction n value size sr).overflow = true ↔ False := by
  rw [overflow_finish _ _ _ _ _ _ h]
  exact iff_of_false Bool.false_ne_true id

theorem scales_left (hkind : kind = .arithmetic ∨ kind = .logical) {overflow : Prop}
    (hoverflow : (finish kind .left n value size sr).overflow = true ↔ overflow) :
    let v := value.toNat % 2 ^ size.bits
    Scales size sr n (v * 2 ^ n : Nat) ((v * 2 ^ n).testBit size.bits) overflow
      (shift kind .left n value size sr) := by
  intro v
  have hstart := start_lt value size sr
  have hv : (start value size sr).value.toNat = v := toNat_and_mask value size
  refine scales_of_finish hkind ?value ?lost hoverflow
  case value => rw [finish, value_steps_left hkind hstart, hv, Int.natCast_emod]
  case lost =>
    intro k hk
    rw [finish, hk, carry_steps_left hkind hstart, hv]

theorem scales_logical_right :
    let v := value.toNat % 2 ^ size.bits
    Scales size sr n (v / 2 ^ n : Nat) (v / 2 ^ (n - 1) % 2 = 1) False
      (shift .logical .right n value size sr) := by
  intro v
  have hstart := start_lt value size sr
  have hv : (start value size sr).value.toNat = v := toNat_and_mask value size
  refine scales_of_finish (.inr rfl) ?value ?lost (overflow_finish_iff (by simp))
  case value =>
    have hlt := steps_lt .logical .right size hstart n
    rw [value_steps_right hstart, hv] at hlt
    rw [finish, value_steps_right hstart, hv, ← Int.natCast_emod, Nat.mod_eq_of_lt hlt]
  case lost =>
    intro k hk
    rw [finish, hk, carry_steps_right, value_steps_right hstart, hv, Nat.add_sub_cancel]

theorem scales_arithmetic_right :
    let s := size.number true value
    Scales size sr n (s / 2 ^ n) (s / 2 ^ (n - 1) % 2 = 1) False
      (shift .arithmetic .right n value size sr) := by
  intro s
  have hstart := start_lt value size sr
  have hs : signed size.modulus (start value size sr).value.toNat = s := rfl
  refine scales_of_finish (.inl rfl) ?value ?lost (overflow_finish_iff (by simp))
  case value =>
    rw [← hs, ← signed_steps_right hstart, signed_emod (steps_lt _ _ size hstart n)]
    rfl
  case lost =>
    intro k hk
    rw [finish, hk, carry_steps_right, ← signed_emod_two, signed_steps_right hstart, hs,
      Nat.add_sub_cancel]

end Shift

/-- Shifts in closed form, for every count: to the left the product with 2^n, to the right the
quotient by it rounded down. -/
theorem shift_scales (n : Nat) (value : UInt32) (size : Size) (sr : UInt16) :
    let v := value.toNat % 2 ^ size.bits
    let s := size.number true value
    Scales size sr n (v * 2 ^ n : Nat) ((v * 2 ^ n).testBit size.bits)
        (¬ size.Fits true (s * 2 ^ n)) (shift .arithmetic .left n value size sr) ∧
      Scales size sr n (v * 2 ^ n : Nat) ((v * 2 ^ n).testBit size.bits) False
        (shift .logical .left n value size sr) ∧
      Scales size sr n (v / 2 ^ n : Nat) (v / 2 ^ (n - 1) % 2 = 1) False
        (shift .logical .right n value size sr) ∧
      Scales size sr n (s / 2 ^ n) (s / 2 ^ (n - 1) % 2 = 1) False
        (shift .arithmetic .right n value size sr) := by
  intro v s
  have hs : signed size.modulus (start value size sr).value.toNat = s := rfl
  have hoverflow : (finish .arithmetic .left n value size sr).overflow = true ↔
      ¬ size.Fits true (s * 2 ^ n) := by
    rw [finish, (overflow_steps_left (start_lt value size sr) rfl n).1, hs]
    exact not_not.symm
  exact ⟨scales_left (.inl rfl) hoverflow, scales_left (.inr rfl) (overflow_finish_iff (by simp)),
    scales_logical_right, scales_arithmetic_right⟩

end Mc68k.Shift
