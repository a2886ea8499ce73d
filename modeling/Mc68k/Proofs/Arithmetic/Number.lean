import Mc68k.Proofs.Arithmetic.Binary

namespace Mc68k

open Status

namespace Chain

theorem signed_toNat {w : Nat} (v : BitVec w) : signed (2 ^ w) v.toNat = v.toInt := by
  rw [signed, BitVec.toInt_eq_toNat_cond]

/-- The number that a word below `modulus` spells, in two's complement if it is signed. -/
def spelled (modulus : Nat) (signed : Bool) (word : Nat) : Int :=
  if signed then Chain.signed modulus word else word

/-- There is a word below `modulus` that spells the number. -/
def Fits (modulus : Nat) (signed : Bool) (n : Int) : Prop :=
  if signed then ¬ Overflows modulus n else 0 ≤ n ∧ n < modulus

instance (modulus : Nat) : (signed : Bool) → (n : Int) → Decidable (Fits modulus signed n)
  | false, _ => inferInstanceAs (Decidable (_ ∧ _))
  | true, _ => inferInstanceAs (Decidable (¬ (_ ∨ _)))

@[simp] theorem spelled_unsigned (modulus word : Nat) : spelled modulus false word = word := rfl

@[simp] theorem spelled_signed (modulus word : Nat) :
    spelled modulus true word = Chain.signed modulus word :=
  rfl

@[simp] theorem fits_unsigned (modulus : Nat) (n : Int) :
    Fits modulus false n ↔ 0 ≤ n ∧ n < modulus :=
  Iff.rfl

@[simp] theorem fits_signed (modulus : Nat) (n : Int) :
    Fits modulus true n ↔ ¬ Overflows modulus n :=
  Iff.rfl

theorem fits_spelled {modulus word : Nat} (heven : 2 ∣ modulus) (signed : Bool)
    (hlt : word < modulus) : Fits modulus signed (spelled modulus signed word) := by
  obtain ⟨half, rfl⟩ := heven
  cases signed with
  | false =>
    rw [fits_unsigned, spelled_unsigned]
    omega
  | true =>
    rw [fits_signed, spelled_signed, Overflows, Chain.signed]
    split <;> omega

end Chain

namespace Size

/-- The number that the low `size` bytes of a word spell, in two's complement if it is signed. -/
def number (size : Size) (signed : Bool) (v : UInt32) : Int :=
  Chain.spelled size.modulus signed (v &&& size.mask).toNat

def Fits (size : Size) (signed : Bool) (n : Int) : Prop :=
  Chain.Fits size.modulus signed n

instance (size : Size) (signed : Bool) (n : Int) : Decidable (size.Fits signed n) :=
  inferInstanceAs (Decidable (Chain.Fits _ _ _))

variable (size : Size) (v : UInt32)

theorem modulus_pos : 0 < size.modulus := by
  cases size <;> decide

theorem number_unsigned : size.number false v = (v &&& size.mask).toNat := rfl

theorem number_signed : size.number true v = Chain.signed size.modulus (v &&& size.mask).toNat :=
  rfl

theorem number_congr {size : Size} {signed : Bool} {v w : UInt32}
    (h : v &&& size.mask = w &&& size.mask) : size.number signed v = size.number signed w := by
  rw [number, number, h]

theorem number_fits (signed : Bool) : size.Fits signed (size.number signed v) :=
  Chain.fits_spelled (Alu.two_dvd_modulus size) signed (Alu.toNat_masked_lt v size)

theorem number_eq_zero_iff (signed : Bool) :
    size.number signed v = 0 ↔ (v &&& size.mask).toNat = 0 := by
  have hlt := Alu.toNat_masked_lt v size
  cases signed with
  | false => rw [number_unsigned, Int.natCast_eq_zero]
  | true =>
    rw [number_signed, Chain.signed]
    split <;> omega

theorem number_word_unsigned : word.number false v = v.toUInt16.toNat := by
  rw [number_unsigned, toNat_and_mask, UInt32.toNat_toUInt16]
  rfl

theorem number_long_unsigned : long.number false v = v.toNat := by
  rw [number_unsigned, toNat_and_mask]
  exact congrArg Nat.cast (Nat.mod_eq_of_lt v.toNat_lt)

theorem number_byte_signed : byte.number true v = v.toUInt8.toInt8.toInt := by
  rw [number_signed, toNat_and_mask]
  exact Chain.signed_toNat v.toUInt8.toBitVec

theorem number_word_signed : word.number true v = v.toUInt16.toInt16.toInt := by
  rw [number_signed, toNat_and_mask]
  exact Chain.signed_toNat v.toUInt16.toBitVec

theorem number_long_signed : long.number true v = v.toInt32.toInt := by
  rw [number_signed, toNat_and_mask, show v.toNat % 2 ^ long.bits = v.toNat from
    Nat.mod_eq_of_lt v.toNat_lt]
  exact Chain.signed_toNat v.toBitVec

/-- A sign extension spells the number of its operand. -/
theorem number_signExtend : long.number true (signExtend v size) = size.number true v := by
  rw [number_long_signed]
  cases size with
  | byte =>
    rw [number_byte_signed]
    exact Int8.toInt_toInt32 _
  | word =>
    rw [number_word_signed]
    exact Int16.toInt_toInt32 _
  | long => exact (number_long_signed v).symm

theorem top_eq_decide : Alu.top size v = decide (size.number true v < 0) := by
  have hlt := Alu.toNat_masked_lt v size
  have htop := Alu.top_iff size _ hlt
  have hsign : Alu.top size (v &&& size.mask) = Alu.top size v := by
    rw [Alu.top_and, Alu.top_eq_getLsbD size size.mask]
    cases size <;> exact Bool.and_true _
  rw [hsign] at htop
  rw [Bool.eq_iff_iff, htop, decide_eq_true_iff, number_signed, Chain.signed]
  split <;> omega

end Size

namespace Status

variable (sr : UInt16) (v : UInt32) (size : Size)

theorem has_logical_N_eq_top : has (logical sr v size) N = Alu.top size v := by
  have hsign : (signExtend v size &&& 0x80000000 != 0) = Alu.top .long (signExtend v size) := rfl
  rw [has_logical_N, hsign, Size.top_eq_decide, Size.top_eq_decide, Size.number_signExtend]

theorem has_logical_Z_iff (signed : Bool) :
    has (logical sr v size) Z = true ↔ size.number signed v = 0 := by
  have hwhole : signExtend v size &&& Size.long.mask = signExtend v size := UInt32.and_neg_one
  have hzero := Size.number_eq_zero_iff .long (signExtend v size) true
  rw [hwhole, Size.number_signExtend, Size.number_eq_zero_iff] at hzero
  rw [has_logical_Z, beq_iff_eq, ← UInt32.toNat_inj, Size.number_eq_zero_iff, hzero]
  rfl

end Status

end Mc68k
