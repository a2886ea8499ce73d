import Mc68k.Operation.Perform
import Mc68k.Proofs.Arithmetic.Number
import Mc68k.Proofs.Registers

namespace Mc68k

open Status Chain

namespace Multiplication

/-- The word that spells a number, or what is left of the number where there is none. -/
def truncated (modulus : Nat) (n : Int) : Nat := (n % modulus).toNat

section Spelled

variable {modulus word : Nat} (heven : 2 ∣ modulus) (signed : Bool)
include heven

theorem truncated_spelled (hlt : word < modulus) :
    truncated modulus (spelled modulus signed word) = word := by
  have hmod : (word : Int) % modulus = word := Int.emod_eq_of_lt (by omega) (by omega)
  cases signed with
  | false => rw [truncated, spelled_unsigned, hmod, Int.toNat_natCast]
  | true =>
    rw [truncated, spelled_signed, Chain.signed]
    split
    · rw [hmod, Int.toNat_natCast]
    · rw [Int.sub_emod_right, hmod, Int.toNat_natCast]

theorem spelled_truncated {n : Int} (h : Fits modulus signed n) :
    spelled modulus signed (truncated modulus n) = n := by
  obtain ⟨half, rfl⟩ := heven
  cases signed with
  | false =>
    rw [fits_unsigned] at h
    rw [spelled_unsigned, truncated, Int.emod_eq_of_lt h.1 h.2, Int.toNat_of_nonneg h.1]
  | true =>
    rw [fits_signed, Overflows] at h
    have hmod : n % ((2 * half : Nat) : Int) = if 0 ≤ n then n else n + (2 * half : Nat) := by
      split
      · exact Int.emod_eq_of_lt (by omega) (by omega)
      · rw [← Int.add_emod_right, Int.emod_eq_of_lt (by omega) (by omega)]
    rw [spelled_signed, truncated, Chain.signed, hmod]
    split <;> split <;> omega

end Spelled

theorem truncated_wide (signed : Bool) (word : Nat) :
    truncated (2 ^ 32) (spelled (2 ^ 64) signed word) = word % 2 ^ 32 := by
  cases signed with
  | false =>
    rw [truncated, spelled_unsigned]
    omega
  | true =>
    rw [truncated, spelled_signed, Chain.signed]
    split <;> omega

/-- A multiplication as numbers, with the registers that receive the product. -/
structure Task where
  size : Size
  signed : Bool
  multiplicand : Int
  multiplier : Int
  low : RegisterNumber
  high? : Option RegisterNumber
  deriving DecidableEq

namespace Task

def word (signed : Bool) (p : Operands) (m : Machine) : Task where
  size := .word
  signed
  multiplicand := Size.word.number signed (m.regs.d m.opcode.x)
  multiplier := Size.word.number signed p.first
  low := m.opcode.x
  high? := none

/-- MULU.L and MULS.L multiply Dl; the product is kept in Dl, or in Dh and Dl as halves. -/
def long (p : Operands) (m : Machine) : Task :=
  let ext := p.first.toUInt16
  let low := RegisterNumber.ofNat (field ext 12 3)
  { size := .long
    signed := bit ext 11
    multiplicand := Size.long.number (bit ext 11) (m.regs.d low)
    multiplier := Size.long.number (bit ext 11) p.second
    low
    high? := if bit ext 10 then some (.ofNat (field ext 0 3)) else none }

def product (t : Task) : Int := t.multiplicand * t.multiplier

def modulus (t : Task) : Nat := if t.high?.isSome then 2 ^ 64 else 2 ^ 32

def kept (t : Task) : Nat := truncated t.modulus t.product

def HasRoom (t : Task) : Prop := Fits t.modulus t.signed t.product

instance (t : Task) : Decidable t.HasRoom := inferInstanceAs (Decidable (Fits _ _ _))

/-- Condition codes that describe what is kept. -/
structure Codes (t : Task) (before after : UInt16) : Prop where
  negative : has after N = true ↔ t.modulus ≤ 2 * t.kept
  zero : has after Z = true ↔ t.kept = 0
  overflow : has after V = true ↔ ¬ t.HasRoom
  carry : has after C = false
  extend : has after X = has before X
  system : Status.system after = Status.system before

structure Stored (t : Task) (before after : Registers) : Prop where
  low : (after.d t.low).toNat = t.kept % 2 ^ 32
  high : ∀ n ∈ t.high?, n ≠ t.low → (after.d n).toNat = t.kept / 2 ^ 32
  exact : t.HasRoom → spelled t.modulus t.signed t.kept = t.product
  room : t.size = .word ∨ t.high?.isSome → t.HasRoom
  codes : t.Codes before.sr after.sr
  data (n : RegisterNumber) : n ≠ t.low → n ∉ t.high? → after.d n = before.d n
  rest : { after with data := before.data, sr := before.sr } = before

theorem two_dvd_modulus (t : Task) : 2 ∣ t.modulus := by
  rw [modulus]
  split <;> decide

theorem exact_of_hasRoom {t : Task} (h : t.HasRoom) :
    spelled t.modulus t.signed t.kept = t.product :=
  spelled_truncated t.two_dvd_modulus t.signed h

end Task

section Products

variable (signed : Bool) (a b : UInt32)

theorem natAbs_mul_le {x y : Int} {half : Nat} (hx : x.natAbs ≤ half) (hy : y.natAbs ≤ half) :
    (x * y).natAbs ≤ half * half := by
  rw [Int.natAbs_mul]
  exact Nat.mul_le_mul hx hy

theorem spelled_productOfWords :
    spelled (2 ^ 32) signed (Perform.productOfWords signed a b).toNat =
      Size.word.number signed a * Size.word.number signed b := by
  cases signed with
  | false =>
    have ha : (a &&& 0xFFFF).toNat < 2 ^ 16 := Alu.toNat_masked_lt a .word
    have hb : (b &&& 0xFFFF).toNat < 2 ^ 16 := Alu.toNat_masked_lt b .word
    have hlt := Nat.mul_lt_mul'' ha hb
    have hvalue : (Perform.productOfWords false a b).toNat =
        (a &&& 0xFFFF).toNat * (b &&& 0xFFFF).toNat :=
      (UInt32.toNat_mul _ _).trans (Nat.mod_eq_of_lt (by omega))
    rw [spelled_unsigned, hvalue, Int.natCast_mul]
    rfl
  | true =>
    have hlow (v : UInt32) : v.toUInt16.toInt16.toInt.natAbs ≤ 2 ^ 15 := by
      have hle := v.toUInt16.toInt16.le_toInt
      have hlt := v.toUInt16.toInt16.toInt_lt
      omega
    have hsmall := natAbs_mul_le (hlow a) (hlow b)
    have hvalue : spelled (2 ^ 32) true (Perform.productOfWords true a b).toNat =
        (a.toUInt16.toInt16.toInt32 * b.toUInt16.toInt16.toInt32).toInt :=
      signed_toNat (Perform.productOfWords true a b).toBitVec
    rw [hvalue, Int32.toInt_mul, Int16.toInt_toInt32, Int16.toInt_toInt32,
      Size.number_word_signed, Size.number_word_signed]
    exact Int.bmod_eq_of_le_mul_two (by omega) (by omega)

theorem spelled_productOfLongs :
    spelled (2 ^ 64) signed (Perform.productOfLongs signed a b).toNat =
      Size.long.number signed a * Size.long.number signed b := by
  cases signed with
  | false =>
    have hlt := Nat.mul_lt_mul'' a.toNat_lt b.toNat_lt
    have hvalue : (Perform.productOfLongs false a b).toNat = a.toNat * b.toNat :=
      (UInt64.toNat_mul _ _).trans (Nat.mod_eq_of_lt (by simpa using hlt))
    rw [spelled_unsigned, hvalue, Int.natCast_mul, Size.number_long_unsigned,
      Size.number_long_unsigned]
  | true =>
    have hlow (v : UInt32) : v.toInt32.toInt.natAbs ≤ 2 ^ 31 := by
      have hle := v.toInt32.le_toInt
      have hlt := v.toInt32.toInt_lt
      omega
    have hsmall := natAbs_mul_le (hlow a) (hlow b)
    have hvalue : spelled (2 ^ 64) true (Perform.productOfLongs true a b).toNat =
        (a.toInt32.toInt64 * b.toInt32.toInt64).toInt :=
      signed_toNat (Perform.productOfLongs true a b).toBitVec
    rw [hvalue, Int64.toInt_mul, Int32.toInt_toInt64, Int32.toInt_toInt64,
      Size.number_long_signed, Size.number_long_signed]
    exact Int.bmod_eq_of_le_mul_two (by omega) (by omega)

theorem exceedsLong_iff (product : UInt64) : Perform.exceedsLong signed product = true ↔
    ¬ Fits (2 ^ 32) signed (spelled (2 ^ 64) signed product.toNat) := by
  cases signed with
  | false =>
    have hshift : (product >>> 32).toNat = product.toNat / 2 ^ 32 := by
      simp [Nat.shiftRight_eq_div_pow]
    rw [Perform.exceedsLong, if_neg (by decide), bne_iff_ne, ne_eq, ← UInt64.toNat_inj, hshift]
    rw [fits_unsigned, spelled_unsigned, UInt64.toNat_zero]
    omega
  | true =>
    have hwhole : product.toInt64.toInt = Chain.signed (2 ^ 64) product.toNat :=
      (signed_toNat product.toBitVec).symm
    have hlow : product.toUInt32.toInt32.toInt64.toInt =
        Chain.signed (2 ^ 32) (product.toNat % 2 ^ 32) := by
      rw [Int32.toInt_toInt64, ← UInt64.toNat_toUInt32]
      exact (signed_toNat product.toUInt32.toBitVec).symm
    rw [Perform.exceedsLong, if_pos rfl, bne_iff_ne, ne_eq, ← Int64.toInt_inj, hwhole, hlow]
    rw [fits_signed, spelled_signed, Overflows, Chain.signed, Chain.signed]
    split <;> split <;> omega

theorem top_wide_iff (product : UInt64) :
    (product &&& 0x8000000000000000 != 0) = true ↔ 2 ^ 64 ≤ 2 * product.toNat := by
  have hlt := product.toNat_lt
  have htop : product.toNat.testBit 63 = true ↔ 2 ^ 64 ≤ 2 * product.toNat := by
    rw [Nat.testBit_eq_decide_div_mod_eq, decide_eq_true_iff]
    omega
  have hsign : (0x8000000000000000 : UInt64).toNat = 2 ^ 63 := rfl
  rw [← htop, bne_iff_ne, ne_eq, ← UInt64.toNat_inj, UInt64.toNat_and, hsign, Nat.and_two_pow]
  cases product.toNat.testBit 63 <;> decide

end Products

section Written

variable {t : Task} {before : Registers}

theorem hasRoom_of_spelled {word : Nat} (hlt : word < t.modulus)
    (h : spelled t.modulus t.signed word = t.product) : t.HasRoom := by
  rw [Task.HasRoom, ← h]
  exact fits_spelled t.two_dvd_modulus t.signed hlt

theorem kept_of_spelled {word : Nat} (hlt : word < t.modulus)
    (h : spelled t.modulus t.signed word = t.product) : t.kept = word := by
  rw [Task.kept, ← h]
  exact truncated_spelled t.two_dvd_modulus t.signed hlt

theorem codes_long {value : UInt32} {exceeds : Bool} (sr : UInt16) (hhigh : t.high? = none)
    (hkept : t.kept = value.toNat) (hexceeds : exceeds = true ↔ ¬ t.HasRoom) :
    t.Codes sr (setIf (logical sr value .long) V exceeds) := by
  have hmodulus : t.modulus = Size.long.modulus := by rw [Task.modulus, hhigh]; rfl
  have hother (flag : UInt16) (h : V &&& flag = 0) :
      has (setIf (logical sr value .long) V exceeds) flag = has (logical sr value .long) flag :=
    has_setIf_of_disjoint _ V flag exceeds h
  exact {
    negative := by
      rw [hother N (by decide), has_logical_N_eq_top, Alu.top_iff .long value value.toNat_lt,
        hmodulus, hkept]
    zero := by
      rw [hother Z (by decide), has_logical_Z_iff _ _ _ false, Size.number_long_unsigned, hkept,
        Int.natCast_eq_zero]
    overflow := by rw [has_setIf_self _ V _ (by decide), hexceeds]
    carry := by rw [hother C (by decide), has_logical_C]
    extend := by rw [hother X (by decide), has_logical_X]
    system := by rw [system_setIf_V, system_logical] }

theorem codes_wide {value : UInt64} {n : RegisterNumber} (sr : UInt16) (hhigh : t.high? = some n)
    (hkept : t.kept = value.toNat) (hroom : t.HasRoom) :
    t.Codes sr (clearVC (withNZ sr (value &&& 0x8000000000000000 != 0) (value == 0))) := by
  have hmodulus : t.modulus = 2 ^ 64 := by rw [Task.modulus, hhigh]; rfl
  have hother (flag : UInt16) (h : (V ||| C) &&& flag = 0) (negative zero : Bool) :
      has (clearVC (withNZ sr negative zero)) flag = has (withNZ sr negative zero) flag :=
    has_clear_of_disjoint _ (V ||| C) flag h
  exact {
    negative := by rw [hother N (by decide), has_withNZ_N, top_wide_iff, hmodulus, hkept]
    zero := by
      rw [hother Z (by decide), has_withNZ_Z, beq_iff_eq, ← UInt64.toNat_inj, hkept]
      rfl
    overflow := by
      have hclear (x : UInt16) : has (clearVC x) V = false := has_clear x (V ||| C) V (by decide)
      simp [hclear, hroom]
    carry := has_clear _ _ C (by decide)
    extend := by
      rw [hother X (by decide), has_withNZ_of_disjoint _ _ _ X (by decide) (by decide)]
    system := by rw [system_clearVC, system_withNZ] }

theorem stored_long {value : UInt32} {exceeds : Bool} (hhigh : t.high? = none)
    (hroom : t.size = .word → t.HasRoom) (hkept : t.kept = value.toNat)
    (hexceeds : exceeds = true ↔ ¬ t.HasRoom) :
    t.Stored before { before.setD t.low value with
      sr := setIf (logical before.sr value .long) V exceeds } where
  low := by
    rw [hkept, Nat.mod_eq_of_lt value.toNat_lt]
    exact congrArg UInt32.toNat (before.d_setD_self t.low value)
  high n hn := by
    rw [hhigh] at hn
    cases hn
  exact := t.exact_of_hasRoom
  room h := hroom (by simpa [hhigh] using h)
  codes := codes_long before.sr hhigh hkept hexceeds
  data n hn _ := before.d_setD_of_ne (Fin.val_ne_of_ne hn) value
  rest := rfl

theorem stored_wide {value : UInt64} {n : RegisterNumber} (hhigh : t.high? = some n)
    (hroom : t.HasRoom) (hkept : t.kept = value.toNat) :
    t.Stored before { (before.setD n (value >>> 32).toUInt32).setD t.low value.toUInt32 with
      sr := clearVC (withNZ before.sr (value &&& 0x8000000000000000 != 0) (value == 0)) } where
  low := by
    rw [hkept, ← UInt64.toNat_toUInt32]
    exact congrArg UInt32.toNat (Registers.d_setD_self _ t.low value.toUInt32)
  high k hk hne := by
    obtain rfl := Option.some.inj (hhigh.symm.trans hk)
    have hlt := value.toNat_lt
    have hshift : (value >>> 32).toUInt32.toNat = value.toNat / 2 ^ 32 := by
      simp [Nat.shiftRight_eq_div_pow]
      omega
    rw [hkept, ← hshift]
    exact congrArg UInt32.toNat ((Registers.d_setD_of_ne _ (Fin.val_ne_of_ne hne) _).trans
      (before.d_setD_self n _))
  exact := t.exact_of_hasRoom
  room _ := hroom
  codes := codes_wide before.sr hhigh hkept hroom
  data k hlow hk :=
    (Registers.d_setD_of_ne _ (Fin.val_ne_of_ne hlow) _).trans
      (before.d_setD_of_ne (fun heq => hk (hhigh.trans (congrArg some (Fin.ext heq.symm)))) _)
  rest := rfl

end Written

theorem setIf_logical_V (sr : UInt16) (value : UInt32) :
    setIf (logical sr value .long) V false = logical sr value .long := by
  have hmask : ~~~(V ||| C) &&& ~~~V = ~~~(V ||| C) := by decide
  rw [logical, clearVC, setIf, if_neg (by decide), UInt16.and_assoc, hmask]

theorem stores_multiplyWord (signed : Bool) (p : Operands) (m : Machine) :
    ∃ regs, Perform.multiplyWord signed p m = .ok p { m with regs } ∧
      (Task.word signed p m).Stored m.regs regs := by
  set value := Perform.productOfWords signed (m.regs.d m.opcode.x) p.first
  have hvalue : spelled (2 ^ 32) signed value.toNat = (Task.word signed p m).product :=
    spelled_productOfWords signed _ _
  have hroom := hasRoom_of_spelled (t := Task.word signed p m) value.toNat_lt hvalue
  have hkept := kept_of_spelled (t := Task.word signed p m) value.toNat_lt hvalue
  have hexceeds : false = true ↔ ¬ (Task.word signed p m).HasRoom := by simpa using hroom
  have hstored : (Task.word signed p m).Stored m.regs _ :=
    stored_long rfl (fun _ => hroom) hkept hexceeds
  rw [setIf_logical_V] at hstored
  exact ⟨_, rfl, hstored⟩

theorem stores_multiplyLong (p : Operands) (m : Machine) :
    ∃ regs, Perform.multiplyLong p m = .ok p { m with regs } ∧
      (Task.long p m).Stored m.regs regs := by
  refine ⟨_, rfl, ?_⟩
  dsimp only
  set ext := p.first.toUInt16
  set low := RegisterNumber.ofNat (field ext 12 3)
  set value := Perform.productOfLongs (bit ext 11) (m.regs.d low) p.second
  have hvalue : spelled (2 ^ 64) (bit ext 11) value.toNat = (Task.long p m).product :=
    spelled_productOfLongs (bit ext 11) _ _
  split
  · next hwide =>
    have hhigh : (Task.long p m).high? = some (.ofNat (field ext 0 3)) := if_pos hwide
    have hmodulus : (Task.long p m).modulus = 2 ^ 64 := by rw [Task.modulus, hhigh]; rfl
    rw [← hmodulus] at hvalue
    have hlt : value.toNat < (Task.long p m).modulus := hmodulus ▸ value.toNat_lt
    exact stored_wide hhigh (hasRoom_of_spelled hlt hvalue) (kept_of_spelled hlt hvalue)
  · next hnarrow =>
    have hhigh : (Task.long p m).high? = none := if_neg hnarrow
    have hmodulus : (Task.long p m).modulus = 2 ^ 32 := by rw [Task.modulus, hhigh]; rfl
    have hkept : (Task.long p m).kept = value.toUInt32.toNat := by
      rw [Task.kept, hmodulus, ← hvalue, truncated_wide, UInt64.toNat_toUInt32]
    have hexceeds : Perform.exceedsLong (bit ext 11) value = true ↔ ¬ (Task.long p m).HasRoom := by
      rw [exceedsLong_iff, hvalue, Task.HasRoom, hmodulus]
      rfl
    exact stored_long hhigh (fun h => nomatch h) hkept hexceeds

end Multiplication

def Operation.multiplication? (operation : Operation) (p : Operands) (m : Machine) :
    Option Multiplication.Task :=
  match operation with
  | mulu => some (.word false p m)
  | muls => some (.word true p m)
  | mulLong => some (.long p m)
  | _ => none

/-- No product leaves the word that it is computed in, and all of them are stored as far as the
registers hold them. -/
theorem Operation.multiplies {operation : Operation} {t : Multiplication.Task} (p : Operands)
    (m : Machine) (h : operation.multiplication? p m = some t) :
    (∀ signed a b, Chain.spelled (2 ^ 32) signed
      (Perform.productOfWords signed a b).toNat =
        Size.word.number signed a * Size.word.number signed b) ∧
    (∀ signed a b, Chain.spelled (2 ^ 64) signed
      (Perform.productOfLongs signed a b).toNat =
        Size.long.number signed a * Size.long.number signed b) ∧
    ∃ regs, operation.perform p m = .ok p { m with regs } ∧ t.Stored m.regs regs := by
  refine ⟨Multiplication.spelled_productOfWords, Multiplication.spelled_productOfLongs, ?_⟩
  cases operation with
  | mulu =>
    obtain rfl := Option.some.inj h
    exact Multiplication.stores_multiplyWord false p m
  | muls =>
    obtain rfl := Option.some.inj h
    exact Multiplication.stores_multiplyWord true p m
  | mulLong =>
    obtain rfl := Option.some.inj h
    exact Multiplication.stores_multiplyLong p m
  | _ => cases h

/-- The most negative long by itself, where 32 bits are kept: the product is 2^62, and all of it is
lost. -/
theorem Operation.multiplies_most_negative :
    let m : Machine := { Machine.new .m68020 (.flat (.new 0 0)) with
      regs := Registers.initial.setD .one 0x80000000 }
    let p : Operands := { Operands.new .long with first := 0x1800, second := 0x80000000 }
    let t : Multiplication.Task := ⟨.long, true, -0x80000000, -0x80000000, .one, none⟩
    mulLong.multiplication? p m = some t ∧ t.product = 2 ^ 62 ∧ t.kept = 0 ∧ ¬ t.HasRoom ∧
      ∃ regs, mulLong.perform p m = .ok p { m with regs } ∧ t.Stored m.regs regs := by
  intro m p t
  have htask : mulLong.multiplication? p m = some t := by decide
  exact ⟨htask, by decide, by decide, by decide, (multiplies p m htask).2.2⟩

end Mc68k
