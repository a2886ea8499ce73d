import Mathlib.Algebra.Group.Nat.Defs
import Mc68k.Size

namespace Mc68k

theorem toNat_and_mask (value : UInt32) (size : Size) :
    (value &&& size.mask).toNat = value.toNat % 2 ^ size.bits := by
  rw [UInt32.toNat_and, ← Nat.and_two_pow_sub_one_eq_mod]
  cases size <;> rfl

theorem signExtend_and_mask (value : UInt32) (size : Size) :
    signExtend (value &&& size.mask) size = signExtend value size := by
  have hbyte : (value &&& 0xFF).toUInt8 = value.toUInt8 := by
    apply UInt8.toNat_inj.mp
    have h := toNat_and_mask value .byte
    simp only [Size.mask] at h
    rw [UInt32.toNat_toUInt8, UInt32.toNat_toUInt8, h, Size.bits, Size.bytes, Nat.mod_mod]
  have hword : (value &&& 0xFFFF).toUInt16 = value.toUInt16 := by
    apply UInt16.toNat_inj.mp
    have h := toNat_and_mask value .word
    simp only [Size.mask] at h
    rw [UInt32.toNat_toUInt16, UInt32.toNat_toUInt16, h, Size.bits, Size.bytes, Nat.mod_mod]
  cases size with
  | byte => exact congrArg (·.toInt8.toInt32.toUInt32) hbyte
  | word => exact congrArg (·.toInt16.toInt32.toUInt32) hword
  | long => exact UInt32.and_neg_one

theorem toNat_shiftLeft_or (value : UInt32) (b : UInt8) :
    ((value <<< 8) ||| b.toUInt32).toNat = value.toNat % 0x1000000 * 256 + b.toNat := by
  have hb : b.toNat < 2 ^ 8 := b.toNat_lt
  have hshift : (value <<< 8).toNat = 2 ^ 8 * (value.toNat % 0x1000000) := by
    simp only [UInt32.toNat_shiftLeft, Nat.shiftLeft_eq]
    change value.toNat * 2 ^ 8 % 2 ^ 32 = _
    omega
  rw [UInt32.toNat_or, hshift, UInt8.toNat_toUInt32, ← Nat.two_pow_add_eq_or_of_lt hb]
  omega

/-- Bytes spell the value that they were taken from, as far as they go. -/
theorem ofBigEndian_toBigEndian (value : UInt32) (size : Size) :
    ofBigEndian (toBigEndian value size) = value &&& size.mask := by
  have hv := value.toNat_lt
  have hshift (k : UInt32) :
      (value >>> k).toUInt8.toNat = value.toNat / 2 ^ (k.toNat % 32) % 256 := by
    simp [Nat.shiftRight_eq_div_pow]
  have h8 := hshift 8
  have h16 := hshift 16
  have h24 := hshift 24
  have h0 : value.toUInt8.toNat = value.toNat % 256 := UInt32.toNat_toUInt8 value
  apply UInt32.toNat_inj.mp
  rw [toNat_and_mask]
  simp only [UInt32.reduceToNat, Nat.reduceMod, Nat.reducePow] at h8 h16 h24
  cases size <;> simp only [toBigEndian, ofBigEndian, List.foldl_cons, List.foldl_nil,
    toNat_shiftLeft_or, h0, h8, h16, h24, UInt32.toNat_zero, Size.bits, Size.bytes] <;> omega

@[simp] theorem ofBigEndian_toBigEndian_long (value : UInt32) :
    ofBigEndian (toBigEndian value .long) = value := by
  rw [ofBigEndian_toBigEndian]
  exact UInt32.and_neg_one

@[simp] theorem ofBigEndian_toBigEndian_word (value : UInt16) :
    ofBigEndian (toBigEndian value.toUInt32 .word) = value.toUInt32 := by
  rw [ofBigEndian_toBigEndian]
  apply UInt32.toNat_inj.mp
  rw [UInt32.toNat_and, UInt16.toNat_toUInt32]
  exact (Nat.and_two_pow_sub_one_eq_mod value.toNat 16).trans (Nat.mod_eq_of_lt value.toNat_lt)

end Mc68k
