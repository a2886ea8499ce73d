import Mathlib.Tactic.NormNum
import Mc68k.Proofs.Arithmetic.Chain

namespace Mc68k.Decimal

open Status Chain

def IsPacked (v : UInt32) : Prop := v.toNat / 16 ≤ 9 ∧ v.toNat % 16 ≤ 9

instance (v : UInt32) : Decidable (IsPacked v) :=
  inferInstanceAs (Decidable (_ ∧ _))

def numeral : Numeral where
  base := 100
  valid := IsPacked
  read v := v.toNat / 16 * 10 + v.toNat % 16
  read_lt v h := by
    have := h.1
    have := h.2
    omega

def link : Kind → UInt32 → UInt32 → UInt16 → Computed
  | .sum, src, dst, sr => add src dst sr
  | .difference, src, dst, sr => sub src dst sr
  | .opposite, _, dst, sr => sub dst 0 sr

theorem toNat_and_low (v : UInt32) : (v &&& 0x0F).toNat = v.toNat % 16 := by
  rw [UInt32.toNat_and]
  exact Nat.and_two_pow_sub_one_eq_mod v.toNat 4

theorem IsPacked.toNat_and_high {v : UInt32} (h : IsPacked v) :
    (v &&& 0xF0).toNat = v.toNat / 16 * 16 := by
  have hall : ∀ n < 160, n &&& 0xF0 = n / 16 * 16 := by decide +kernel
  have hv : v.toNat < 160 := by
    have := h.1
    omega
  rw [UInt32.toNat_and]
  exact hall _ hv

theorem toNat_and_byte (v : UInt32) : (v &&& 0xFF).toNat = v.toNat % 256 := by
  rw [UInt32.toNat_and]
  exact Nat.and_two_pow_sub_one_eq_mod v.toNat 8

section Flags

variable (sr : UInt16) (result : UInt32) (carry overflow : Bool)

theorem has_flags_X : has (flags sr result carry overflow) X = carry := by
  rw [flags, Alu.has_keepZero_of_disjoint _ X _ (by decide),
    has_setIf_of_disjoint _ N X _ (by decide), has_setIf_of_disjoint _ V X _ (by decide),
    has_setIf_self _ X _ (by decide)]

theorem has_flags_C : has (flags sr result carry overflow) C = carry := by
  rw [flags, Alu.has_keepZero_of_disjoint _ C _ (by decide),
    has_setIf_of_disjoint _ N C _ (by decide), has_setIf_of_disjoint _ V C _ (by decide),
    has_setIf_of_disjoint _ X C _ (by decide), has_setIf_self _ C _ (by decide)]

theorem has_flags_Z :
    has (flags sr result carry overflow) Z = (has sr Z && result == 0) := by
  rw [flags, Alu.has_keepZero_Z, has_setIf_of_disjoint _ N Z _ (by decide),
    has_setIf_of_disjoint _ V Z _ (by decide), has_setIf_of_disjoint _ X Z _ (by decide),
    has_setIf_of_disjoint _ C Z _ (by decide)]

end Flags

def lowSum (src dst : UInt32) (sr : UInt16) : UInt32 :=
  (src &&& 0x0F) + (dst &&& 0x0F) + Alu.extendIn sr

def mendSum (low : UInt32) : UInt32 := if low > 9 then low + 6 else low

def bothSum (src dst : UInt32) (sr : UInt16) : UInt32 :=
  mendSum (lowSum src dst sr) + (src &&& 0xF0) + (dst &&& 0xF0)

def cutSum (both : UInt32) : UInt32 := (if both > 0x99 then both - 0xA0 else both) &&& 0xFF

theorem add_eq (src dst : UInt32) (sr : UInt16) :
    add src dst sr = ⟨cutSum (bothSum src dst sr), flags sr (cutSum (bothSum src dst sr))
      (bothSum src dst sr > 0x99)
      (~~~lowSum src dst sr &&& cutSum (bothSum src dst sr) &&& 0x80 != 0)⟩ :=
  rfl

def lowDifference (src dst : UInt32) (sr : UInt16) : UInt32 :=
  (dst &&& 0x0F) - (src &&& 0x0F) - Alu.extendIn sr

def bothDifference (src dst : UInt32) (sr : UInt16) : UInt32 :=
  (if lowDifference src dst sr > 9 then lowDifference src dst sr - 6 else
    lowDifference src dst sr) + (dst &&& 0xF0) - (src &&& 0xF0)

def cutDifference (both : UInt32) : UInt32 := (if both > 0x99 then both + 0xA0 else both) &&& 0xFF

theorem sub_eq (src dst : UInt32) (sr : UInt16) :
    sub src dst sr = ⟨cutDifference (bothDifference src dst sr),
      flags sr (cutDifference (bothDifference src dst sr)) (bothDifference src dst sr > 0x99)
      (~~~lowDifference src dst sr &&& cutDifference (bothDifference src dst sr) &&& 0x80 != 0)⟩ :=
  rfl

theorem gt_iff_toNat_lt (v w : UInt32) : v > w ↔ w.toNat < v.toNat :=
  UInt32.lt_iff_toNat_lt

theorem toNat_lowSum (src dst : UInt32) (sr : UInt16) :
    (lowSum src dst sr).toNat = src.toNat % 16 + dst.toNat % 16 + extend sr := by
  have hx : (Alu.extendIn sr).toNat ≤ 1 := extend_le sr
  rw [lowSum, UInt32.toNat_add, UInt32.toNat_add, toNat_and_low, toNat_and_low, extend]
  omega

theorem toNat_mendSum {low : UInt32} (h : low.toNat ≤ 19) :
    (mendSum low).toNat = if 9 < low.toNat then low.toNat + 6 else low.toNat := by
  simp only [mendSum, gt_iff_toNat_lt, UInt32.reduceToNat]
  split
  · simp only [UInt32.toNat_add, UInt32.reduceToNat]
    omega
  · rfl

theorem toNat_cutSum {both : UInt32} {tens units : Nat} (htens : tens ≤ 19) (hunits : units ≤ 9)
    (h : both.toNat = 16 * tens + units) : (cutSum both).toNat = 16 * (tens % 10) + units := by
  rw [cutSum, toNat_and_byte]
  simp only [gt_iff_toNat_lt, UInt32.reduceToNat]
  split
  · simp only [UInt32.toNat_sub, UInt32.reduceToNat]
    omega
  · omega

theorem toNat_cutDifference {both : UInt32} {tens : Int} {units : Nat} (hlow : -10 ≤ tens)
    (hhigh : tens ≤ 9) (hunits : units ≤ 9)
    (h : (both.toNat : Int) = (16 * tens + units) % 0x100000000) :
    ((cutDifference both).toNat : Int) = 16 * (tens % 10) + units := by
  rw [cutDifference, toNat_and_byte]
  simp only [gt_iff_toNat_lt, UInt32.reduceToNat]
  split
  · simp only [UInt32.toNat_add, UInt32.reduceToNat]
    omega
  · omega

section Words

variable {src dst : UInt32} (hsrc : IsPacked src) (hdst : IsPacked dst) (sr : UInt16)
include hsrc hdst

theorem toNat_lowSum_le : (lowSum src dst sr).toNat ≤ 19 := by
  have hx := extend_le sr
  obtain ⟨-, hs0⟩ := hsrc
  obtain ⟨-, hd0⟩ := hdst
  rw [toNat_lowSum]
  omega

/-- Mended, the low place of a sum holds a digit, and all digits spell the decimal sum. -/
theorem bothSum_digits : ∃ tens units : Nat, tens ≤ 19 ∧ units ≤ 9 ∧
    (bothSum src dst sr).toNat = 16 * tens + units ∧
    numeral.read src + numeral.read dst + extend sr = 10 * tens + units := by
  have hx := extend_le sr
  have hlow := toNat_lowSum src dst sr
  have hmend := toNat_mendSum (toNat_lowSum_le hsrc hdst sr)
  have hboth : (bothSum src dst sr).toNat =
      (mendSum (lowSum src dst sr)).toNat + src.toNat / 16 * 16 + dst.toNat / 16 * 16 := by
    rw [bothSum, UInt32.toNat_add, UInt32.toNat_add, hsrc.toNat_and_high, hdst.toNat_and_high]
    obtain ⟨hs1, -⟩ := hsrc
    obtain ⟨hd1, -⟩ := hdst
    split at hmend <;> omega
  obtain ⟨hs1, hs0⟩ := hsrc
  obtain ⟨hd1, hd0⟩ := hdst
  refine ⟨src.toNat / 16 + dst.toNat / 16 + (lowSum src dst sr).toNat / 10,
    (lowSum src dst sr).toNat % 10, by omega, by omega, ?_, ?_⟩
  · rw [hboth, hmend]
    split <;> omega
  · simp only [numeral]
    omega

/-- Mended, the low place of a difference holds a digit, and the place above it may be negative. -/
theorem bothDifference_digits : ∃ (tens : Int) (units : Nat), -10 ≤ tens ∧ tens ≤ 9 ∧ units ≤ 9 ∧
    ((bothDifference src dst sr).toNat : Int) = (16 * tens + units) % 0x100000000 ∧
    (numeral.read dst : Int) - numeral.read src - extend sr = 10 * tens + units := by
  have hx := extend_le sr
  have hlow : ((lowDifference src dst sr).toNat : Int) =
      (dst.toNat % 16 - src.toNat % 16 - extend sr : Int) % 0x100000000 := by
    change (Alu.extendIn sr).toNat ≤ 1 at hx
    rw [lowDifference, UInt32.toNat_sub, UInt32.toNat_sub, toNat_and_low, toNat_and_low, extend]
    omega
  have hs := hsrc.toNat_and_high
  have hd := hdst.toNat_and_high
  obtain ⟨hs1, hs0⟩ := hsrc
  obtain ⟨hd1, hd0⟩ := hdst
  have hexact : ∃ borrow units : Nat, borrow ≤ 1 ∧ units ≤ 9 ∧
      (dst.toNat % 16 - src.toNat % 16 - extend sr : Int) = units - 10 * borrow := by
    by_cases hborrow : dst.toNat % 16 < src.toNat % 16 + extend sr
    · exact ⟨1, dst.toNat % 16 + 10 - src.toNat % 16 - extend sr, by omega, by omega, by omega⟩
    · exact ⟨0, dst.toNat % 16 - src.toNat % 16 - extend sr, by omega, by omega, by omega⟩
  obtain ⟨borrow, units, hborrow, hunits, hexact⟩ := hexact
  rw [hexact] at hlow
  simp only [bothDifference, numeral, gt_iff_toNat_lt]
  generalize lowDifference src dst sr = low at *
  refine ⟨dst.toNat / 16 - src.toNat / 16 - borrow, units, by omega, by omega, hunits, ?_, ?_⟩
  · split <;>
      simp only [UInt32.toNat_add, UInt32.toNat_sub, hs, hd, UInt32.reduceToNat] at * <;> omega
  · omega

end Words

structure Digit (kind : Kind) (src dst x : Nat) (r : Computed) : Prop where
  valid : IsPacked r.value
  exact : kind.exact src dst x = numeral.read r.value + 100 * kind.exact 0 0 (extend r.sr)

theorem digit_add {src dst : UInt32} (hsrc : IsPacked src) (hdst : IsPacked dst) (sr : UInt16) :
    Digit .sum (numeral.read src) (numeral.read dst) (extend sr) (add src dst sr) := by
  obtain ⟨tens, units, htens, hunits, hboth, hexact⟩ := bothSum_digits hsrc hdst sr
  have hcut := toNat_cutSum htens hunits hboth
  have hread : numeral.read (cutSum (bothSum src dst sr)) = 10 * (tens % 10) + units := by
    simp only [numeral]
    omega
  have hcarry : bothSum src dst sr > 0x99 ↔ 9 < tens := by
    simp only [gt_iff_toNat_lt, UInt32.reduceToNat]
    omega
  have hout : extend (add src dst sr).sr = if 9 < tens then 1 else 0 := by
    rw [add_eq, extend_eq, has_flags_X]
    simp only [hcarry, decide_eq_true_eq]
  constructor
  · simp only [IsPacked, add_eq]
    omega
  · rw [hout]
    simp only [Kind.exact, add_eq, hread]
    split <;> omega

theorem digit_sub {src dst : UInt32} (hsrc : IsPacked src) (hdst : IsPacked dst) (sr : UInt16) :
    Digit .difference (numeral.read src) (numeral.read dst) (extend sr) (sub src dst sr) := by
  obtain ⟨tens, units, hlow, hhigh, hunits, hboth, hexact⟩ := bothDifference_digits hsrc hdst sr
  have hcut := toNat_cutDifference hlow hhigh hunits hboth
  have hread : (numeral.read (cutDifference (bothDifference src dst sr)) : Int) =
      10 * (tens % 10) + units := by
    simp only [numeral]
    omega
  have hborrow : bothDifference src dst sr > 0x99 ↔ tens < 0 := by
    simp only [gt_iff_toNat_lt, UInt32.reduceToNat]
    omega
  have hout : extend (sub src dst sr).sr = if tens < 0 then 1 else 0 := by
    rw [sub_eq, extend_eq, has_flags_X]
    simp only [hborrow, decide_eq_true_eq]
  constructor
  · simp only [IsPacked, sub_eq]
    omega
  · rw [hout]
    simp only [Kind.exact, sub_eq, hread]
    split <;> omega

theorem isPacked_zero : IsPacked 0 := by decide

theorem digit_link (kind : Kind) {src dst : UInt32} (hsrc : IsPacked src) (hdst : IsPacked dst)
    (sr : UInt16) :
    Digit kind (numeral.read src) (numeral.read dst) (extend sr) (link kind src dst sr) := by
  cases kind with
  | sum => exact digit_add hsrc hdst sr
  | difference => exact digit_sub hsrc hdst sr
  | opposite =>
    have h := digit_sub hdst isPacked_zero sr
    exact ⟨h.valid, h.exact⟩

theorem isLink (kind : Kind) : Link numeral kind (link kind) where
  valid sr hsrc hdst := (digit_link kind hsrc hdst sr).valid
  exact sr hsrc hdst := (digit_link kind hsrc hdst sr).exact
  carry src dst sr := by
    cases kind <;> simp only [link, add, sub, has_flags_C, has_flags_X]
  zero {src dst} sr hsrc hdst := by
    have hvalid := (digit_link kind hsrc hdst sr).valid
    have hread : numeral.read (link kind src dst sr).value = 0 ↔
        (link kind src dst sr).value = 0 := by
      simp only [numeral, ← UInt32.toNat_inj, UInt32.toNat_zero]
      omega
    have hZ : has (link kind src dst sr).sr Z =
        (has sr Z && (link kind src dst sr).value == 0) := by
      cases kind <;> simp only [link, add, sub, has_flags_Z]
    rw [hZ, hread, Bool.and_eq_true, beq_iff_eq]
  system src dst sr := by
    cases kind
    · exact system_add src dst sr
    · exact system_sub src dst sr
    · exact system_sub dst 0 sr

def checkedAdd (v w : UInt32) : Option UInt32 :=
  if v.toNat + w.toNat < 0x100000000 then some (v + w) else none

def checkedSub (v w : UInt32) : Option UInt32 := if w ≤ v then some (v - w) else none

/-- The addition of packed bytes, each of its steps checked. -/
def add? (src dst : UInt32) (sr : UInt16) : Option Computed := do
  let low ← checkedAdd (← checkedAdd (src &&& 0x0F) (dst &&& 0x0F)) (Alu.extendIn sr)
  let mended ← bif low > 9 then checkedAdd low 6 else some low
  let both ← checkedAdd mended (← checkedAdd (src &&& 0xF0) (dst &&& 0xF0))
  let carry := both > 0x99
  let cut ← bif carry then checkedSub both 0xA0 else some both
  let result := cut &&& 0xFF
  return ⟨result, flags sr result carry (~~~low &&& result &&& 0x80 != 0)⟩

theorem checkedAdd_eq {v w : UInt32} (h : v.toNat + w.toNat < 0x100000000) :
    checkedAdd v w = some (v + w) :=
  if_pos h

theorem checkedSub_eq {v w : UInt32} (h : w.toNat ≤ v.toNat) : checkedSub v w = some (v - w) :=
  if_pos h

/-- No step of an addition of packed bytes wraps. -/
theorem add?_eq {src dst : UInt32} (hsrc : IsPacked src) (hdst : IsPacked dst) (sr : UInt16) :
    add? src dst sr = some (add src dst sr) := by
  obtain ⟨tens, units, htens, hunits, hboth, -⟩ := bothSum_digits hsrc hdst sr
  have hx : (Alu.extendIn sr).toNat ≤ 1 := extend_le sr
  have hle := toNat_lowSum_le hsrc hdst sr
  have hmend := toNat_mendSum hle
  have hs0 := toNat_and_low src
  have hd0 := toNat_and_low dst
  have hs1 := hsrc.toNat_and_high
  have hd1 := hdst.toNat_and_high
  obtain ⟨hs9, -⟩ := hsrc
  obtain ⟨hd9, -⟩ := hdst
  have hdigits : checkedAdd (src &&& 0x0F) (dst &&& 0x0F) =
      some ((src &&& 0x0F) + (dst &&& 0x0F)) := checkedAdd_eq (by omega)
  have hlow : checkedAdd ((src &&& 0x0F) + (dst &&& 0x0F)) (Alu.extendIn sr) =
      some (lowSum src dst sr) := checkedAdd_eq (by rw [UInt32.toNat_add]; omega)
  have hmended : (bif lowSum src dst sr > 9 then checkedAdd (lowSum src dst sr) 6 else
      some (lowSum src dst sr)) = some (mendSum (lowSum src dst sr)) := by
    rw [checkedAdd_eq (by simp only [UInt32.reduceToNat]; omega), mendSum, Bool.cond_decide]
    split <;> rfl
  have hhigh : checkedAdd (src &&& 0xF0) (dst &&& 0xF0) =
      some ((src &&& 0xF0) + (dst &&& 0xF0)) := checkedAdd_eq (by omega)
  have hsum : checkedAdd (mendSum (lowSum src dst sr)) ((src &&& 0xF0) + (dst &&& 0xF0)) =
      some (bothSum src dst sr) := by
    rw [checkedAdd_eq (by rw [UInt32.toNat_add]; split at hmend <;> omega), bothSum,
      UInt32.add_assoc]
  have hcut : (bif bothSum src dst sr > 0x99 then checkedSub (bothSum src dst sr) 0xA0 else
      some (bothSum src dst sr)) = some (if bothSum src dst sr > 0x99 then
        bothSum src dst sr - 0xA0 else bothSum src dst sr) := by
    rw [Bool.cond_decide]
    split
    next hgt =>
      rw [gt_iff_toNat_lt] at hgt
      simp only [UInt32.reduceToNat] at hgt
      exact checkedSub_eq (by simp only [UInt32.reduceToNat]; omega)
    next => rfl
  simp only [add?, hdigits, hlow, hmended, hhigh, hsum, hcut, Option.bind_eq_bind,
    Option.bind_some]
  rfl

/-- Chains of ABCD, SBCD and NBCD compute with packed numbers of any length. Additions wrap
nowhere; subtractions wrap by design. -/
theorem computes_packed (kind : Kind) (pairs : List (UInt32 × UInt32)) (sr : UInt16)
    (hne : pairs ≠ []) (hpairs : numeral.ValidPairs pairs) :
    Computes numeral kind pairs sr (run (link kind) pairs sr) ∧
      run? add? pairs sr = some (run add pairs sr) := by
  refine ⟨(isLink kind).computes hne hpairs sr, run?_eq (fun hsrc hdst => ?_) hpairs sr⟩
  exact add?_eq hsrc hdst

/-- Borrows across both places of two bytes. -/
theorem computes_packed_borrow :
    [((0x01 : UInt32), (0x00 : UInt32)), (0x00, 0x10)] ≠ [] ∧
      numeral.ValidPairs [(0x01, 0x00), (0x00, 0x10)] ∧
      run (link .difference) [(0x01, 0x00), (0x00, 0x10)] Z = ([0x99, 0x09], 0) ∧
      Computes numeral .difference [(0x01, 0x00), (0x00, 0x10)] Z
        (run (link .difference) [(0x01, 0x00), (0x00, 0x10)] Z) := by
  have hpairs : numeral.ValidPairs [(0x01, 0x00), (0x00, 0x10)] := by
    simp [Numeral.ValidPairs, numeral, IsPacked]
  have hne := List.cons_ne_nil ((0x01 : UInt32), (0x00 : UInt32)) [(0x00, 0x10)]
  exact ⟨hne, hpairs, by decide, (computes_packed .difference _ Z hne hpairs).1⟩

end Mc68k.Decimal
