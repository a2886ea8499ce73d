import Mc68k.Division
import Mc68k.Proofs.Arithmetic.Number

namespace Mc68k.Division

/-- What a division of two numbers has to give: the quotient truncated toward zero and its
remainder, or nothing where the quotient has no room. -/
def Gives (size : Size) (signed : Bool) (dividend divisor : Int) : Option Result → Prop
  | none => ¬ size.Fits signed (dividend.tdiv divisor)
  | some q => size.number signed q.quotient = dividend.tdiv divisor ∧
      size.number signed q.remainder = dividend.tmod divisor

section Unsigned

variable {size : Size}

theorem number_toUInt32 {v : UInt64} (h : size.Fits false v.toNat) :
    size.number false v.toUInt32 = v.toNat := by
  have hlt : v.toNat < size.modulus := Int.ofNat_lt.mp h.2
  rw [Size.number_unsigned, toNat_and_mask, UInt64.toNat_toUInt32]
  cases size <;> simp only [Size.modulus, Size.bits, Size.bytes] at hlt ⊢ <;> omega

theorem gives_unsigned (dividend divisor : UInt64) (hzero : (divisor.toNat : Int) ≠ 0)
    (hdivisor : size.Fits false divisor.toNat) :
    Gives size false dividend.toNat divisor.toNat (unsigned? size dividend divisor) := by
  have hmask : size.mask.toUInt64.toNat = size.modulus - 1 := by cases size <;> rfl
  have hpos := size.modulus_pos
  have hroom : dividend / divisor ≤ size.mask.toUInt64 ↔
      size.Fits false ((dividend.toNat : Int).tdiv divisor.toNat) := by
    rw [UInt64.le_iff_toNat_le, UInt64.toNat_div, hmask, ← Int.ofNat_tdiv]
    generalize dividend.toNat / divisor.toNat = quotient
    simp only [Size.Fits, Chain.fits_unsigned]
    omega
  have hremainder : size.Fits false (dividend.toNat % divisor.toNat : Nat) := by
    have hlt := Nat.mod_lt dividend.toNat (show 0 < divisor.toNat by omega)
    exact ⟨by omega, by have := hdivisor.2; omega⟩
  rw [unsigned?]
  split
  · next hle =>
    refine ⟨?_, ?_⟩
    · rw [number_toUInt32, UInt64.toNat_div, Int.ofNat_tdiv]
      simpa only [UInt64.toNat_div, Int.ofNat_tdiv] using hroom.mp hle
    · rw [number_toUInt32, UInt64.toNat_mod, Int.ofNat_tmod]
      rwa [UInt64.toNat_mod]
  · next hgt => exact fun hfits => hgt (hroom.mpr hfits)

end Unsigned

section Signed

variable {size : Size}

theorem number_toInt32 {v : Int64} (h : size.Fits true v.toInt) :
    size.number true v.toInt32.toUInt32 = v.toInt := by
  have hlong : Size.long.number true v.toInt32.toUInt32 = v.toInt.bmod (2 ^ 32) := by
    rw [Size.number_long_signed]
    exact Int64.toInt_toInt32 v
  simp only [Size.Fits, Chain.fits_signed, Chain.Overflows] at h
  simp only [Size.number_signed, toNat_and_mask, Chain.signed, Int.bmod_def] at hlong ⊢
  cases size <;> simp only [Size.modulus, Size.bits, Size.bytes] at h hlong ⊢ <;> omega

/-- A quotient of 64 bits is exact but for the one that leaves them, and that has no room in an
operand either. -/
theorem fits_div (size : Size) (dividend divisor : Int64) :
    (size.Fits true (dividend / divisor).toInt ↔
      size.Fits true (dividend.toInt.tdiv divisor.toInt)) ∧
    (size.Fits true (dividend / divisor).toInt →
      (dividend / divisor).toInt = dividend.toInt.tdiv divisor.toInt) := by
  have hbound := Int.natAbs_tdiv_le_natAbs dividend.toInt divisor.toInt
  have hlow := dividend.le_toInt
  have hhigh := dividend.toInt_lt
  rw [Int64.toInt_div, Int.bmod_def]
  generalize dividend.toInt.tdiv divisor.toInt = quotient at hbound ⊢
  simp only [Size.Fits, Chain.fits_signed, Chain.Overflows]
  cases size <;> simp only [Size.modulus, Size.bits, Size.bytes] <;> omega

theorem fits_tmod {dividend divisor : Int} (hzero : divisor ≠ 0)
    (hdivisor : size.Fits true divisor) : size.Fits true (dividend.tmod divisor) := by
  have hlt : (dividend.tmod divisor).natAbs < divisor.natAbs := by
    rw [Int.natAbs_tmod]
    exact Nat.mod_lt _ (Int.natAbs_pos.mpr hzero)
  have hpos := size.modulus_pos
  simp only [Size.Fits, Chain.fits_signed, Chain.Overflows] at hdivisor ⊢
  omega

theorem gives_signed {dividend divisor : Int64} (hzero : divisor.toInt ≠ 0)
    (hdivisor : size.Fits true divisor.toInt) :
    Gives size true dividend.toInt divisor.toInt (signed? size dividend divisor) := by
  have hlimit : size.signBit.toUInt64.toInt64.toInt = size.modulus / 2 := by cases size <;> rfl
  have hopposite : (-size.signBit.toUInt64.toInt64).toInt = -(size.modulus / 2) := by
    cases size <;> rfl
  have hroom : (-size.signBit.toUInt64.toInt64 ≤ dividend / divisor ∧
      dividend / divisor < size.signBit.toUInt64.toInt64) ↔
      size.Fits true (dividend / divisor).toInt := by
    have heven := Alu.two_dvd_modulus size
    rw [Int64.le_iff_toInt_le, Int64.lt_iff_toInt_lt, hlimit, hopposite, Size.Fits,
      Chain.fits_signed, Chain.Overflows]
    omega
  obtain ⟨hsame, hexact⟩ := fits_div size dividend divisor
  rw [signed?]
  split
  · next hle =>
    have hfits := hroom.mp hle
    refine ⟨?_, ?_⟩
    · rw [number_toInt32 hfits, hexact hfits]
    · rw [number_toInt32, Int64.toInt_mod]
      rw [Int64.toInt_mod]
      exact fits_tmod hzero hdivisor
  · next hgt => exact fun hfits => hgt (hroom.mpr (hsame.mpr hfits))

end Signed

/-- The number that a long division divides: one long, or two of which the high one has the sign. -/
def dividend (signed : Bool) (high : Option UInt32) (low : UInt32) : Int :=
  match high with
  | none => Size.long.number signed low
  | some high => low.toNat + 2 ^ 32 * Size.long.number signed high

theorem toNat_wide (high low : UInt32) :
    (wide high low).toNat = low.toNat + 2 ^ 32 * high.toNat := by
  have hhigh := high.toNat_lt
  have hshift : (high.toUInt64 <<< 32).toNat = 2 ^ 32 * high.toNat := by
    simp only [UInt64.toNat_shiftLeft, Nat.shiftLeft_eq, UInt32.toNat_toUInt64]
    change high.toNat * 2 ^ 32 % 2 ^ 64 = _
    omega
  rw [wide, UInt64.toNat_or, hshift, UInt32.toNat_toUInt64,
    ← Nat.two_pow_add_eq_or_of_lt low.toNat_lt, Nat.add_comm]

theorem toInt_wide (high low : UInt32) :
    (wide high low).toInt64.toInt = low.toNat + 2 ^ 32 * high.toInt32.toInt := by
  have hlow : low.toNat < 2 ^ 32 := low.toNat_lt
  have happend : Chain.signed (2 ^ 32 * 2 ^ 32) (low.toNat + 2 ^ 32 * high.toNat) = _ :=
    Chain.signed_append (by decide) hlow
  have hwide : Chain.signed (2 ^ 32 * 2 ^ 32) (wide high low).toNat = _ :=
    Chain.signed_toNat (wide high low).toBitVec
  have hhigh : Chain.signed (2 ^ 32) high.toNat = _ := Chain.signed_toNat high.toBitVec
  rw [← toNat_wide, hwide, hhigh] at happend
  exact happend

theorem gives_word (signed : Bool) (dividend divisor : UInt32)
    (hzero : Size.word.number signed divisor ≠ 0) :
    Gives .word signed (Size.long.number signed dividend) (Size.word.number signed divisor)
      (word? signed dividend divisor) := by
  have hfits := Size.word.number_fits divisor signed
  cases signed with
  | false =>
    rw [Size.number_word_unsigned] at hzero hfits ⊢
    rw [Size.number_long_unsigned]
    exact gives_unsigned dividend.toUInt64 divisor.toUInt16.toUInt64 hzero hfits
  | true =>
    rw [Size.number_word_signed, ← Int16.toInt_toInt64] at hzero hfits ⊢
    rw [Size.number_long_signed, ← Int32.toInt_toInt64]
    exact gives_signed hzero hfits

theorem gives_long (signed : Bool) (high : Option UInt32) (low divisor : UInt32)
    (hzero : Size.long.number signed divisor ≠ 0) :
    Gives .long signed (dividend signed high low) (Size.long.number signed divisor)
      (long? signed high low divisor) := by
  have hfits := Size.long.number_fits divisor signed
  cases signed with
  | false =>
    have hdividend : dividend false high low = (wide (high.getD 0) low).toNat := by
      rw [toNat_wide]
      cases high with
      | none => exact Size.number_long_unsigned low
      | some high =>
        simp only [dividend, Size.number_long_unsigned, Option.getD_some]
        push_cast
        rfl
    rw [Size.number_long_unsigned] at hzero hfits ⊢
    rw [hdividend]
    exact gives_unsigned (wide (high.getD 0) low) divisor.toUInt64 hzero hfits
  | true =>
    rw [Size.number_long_signed, ← Int32.toInt_toInt64] at hzero hfits ⊢
    cases high with
    | none =>
      have hdividend : dividend true none low = low.toInt32.toInt64.toInt :=
        (Size.number_long_signed low).trans (Int32.toInt_toInt64 _).symm
      rw [hdividend]
      exact gives_signed hzero hfits
    | some high =>
      have hdividend : dividend true (some high) low = (wide high low).toInt64.toInt := by
        rw [toInt_wide, ← Size.number_long_signed]
        rfl
      rw [hdividend]
      exact gives_signed hzero hfits

end Mc68k.Division
