import Mc68k.Operation.Perform
import Mc68k.Proofs.Arithmetic.Number
import Mc68k.Proofs.Execution.Path

namespace Mc68k

open Status

namespace Alu

/-- What a condition says of two operands that were compared, `dst` with `src`. -/
def Compared (size : Size) (src dst : UInt32) (code : Nat) : Prop :=
  let s := size.number false src
  let d := size.number false dst
  let s' := size.number true src
  let d' := size.number true dst
  match code % 16 with
  | 0x0 => True
  | 0x1 => False
  | 0x2 => s < d
  | 0x3 => d ≤ s
  | 0x4 => s ≤ d
  | 0x5 => d < s
  | 0x6 => d ≠ s
  | 0x7 => d = s
  | 0x8 => size.Fits true (d' - s')
  | 0x9 => ¬ size.Fits true (d' - s')
  | 0xA => 2 * ((d - s) % size.modulus) < size.modulus
  | 0xB => size.modulus ≤ 2 * ((d - s) % size.modulus)
  | 0xC => s' ≤ d'
  | 0xD => d' < s'
  | 0xE => s' < d'
  | _ => d' ≤ s'

section Difference

variable {modulus s d r : Nat} (heven : 2 ∣ modulus) (hs : s < modulus) (hd : d < modulus)
  (hr : r < modulus) (hwraps : d = r + s ∨ d + modulus = r + s)
include heven hs hd hr hwraps

/-- The sign of a difference orders its operands, the other way round where it overflows. -/
theorem signed_lt_iff : Chain.signed modulus d < Chain.signed modulus s ↔
    ¬ (modulus ≤ 2 * r ↔
      Chain.Overflows modulus (Chain.signed modulus d - Chain.signed modulus s)) := by
  obtain ⟨half, rfl⟩ := heven
  simp only [Chain.Overflows, Chain.signed]
  split <;> split <;> omega

theorem signed_eq_iff : Chain.signed modulus d = Chain.signed modulus s ↔ r = 0 := by
  obtain ⟨half, rfl⟩ := heven
  simp only [Chain.signed]
  split <;> split <;> omega

end Difference

theorem emod_of_wraps {modulus s d r : Nat} (hr : r < modulus)
    (hwraps : d = r + s ∨ d + modulus = r + s) : ((d : Int) - s) % modulus = r := by
  obtain h | h := hwraps
  · rw [show (d : Int) - s = r by omega]
    exact Int.emod_eq_of_lt (by omega) (by omega)
  · rw [show (d : Int) - s = r - modulus by omega, Int.sub_emod_right]
    exact Int.emod_eq_of_lt (by omega) (by omega)

section Compare

variable (src dst : UInt32) (size : Size) (sr : UInt16)

theorem has_compare_X : has (compare src dst size sr) X = has sr X := by
  have hand (x : UInt16) : ((x &&& ~~~X) ||| (sr &&& X)) &&& X = sr &&& X := by
    apply UInt16.eq_of_toBitVec_eq
    ext i hi
    simp
    grind
  rw [has, compare, hand, has]

theorem has_compare_of_disjoint (flag : UInt16) (h : X &&& flag = 0) :
    has (compare src dst size sr) flag = has (sub src dst size sr).sr flag := by
  have hand (x : UInt16) : ((x &&& ~~~X) ||| (sr &&& X)) &&& flag = x &&& ~~~X &&& flag := by
    apply UInt16.eq_of_toBitVec_eq
    ext i hi
    have hb : (X &&& flag).toBitVec[i] = (0 : UInt16).toBitVec[i] := by rw [h]
    simp at hb ⊢
    grind
  rw [has, compare, hand]
  exact has_clear_of_disjoint _ X flag h

theorem has_sub_Z : has (sub src dst size sr).sr Z =
    ((difference src dst 0 size sr).value == 0) :=
  has_setIf_self _ Z _ (by decide)

theorem has_sub_of_disjoint (flag : UInt16) (h : Z &&& flag = 0) :
    has (sub src dst size sr).sr flag = has (difference src dst 0 size sr).sr flag :=
  has_setIf_of_disjoint _ Z flag _ h

structure Codes (size : Size) (s d r : Nat) (sr : UInt16) : Prop where
  carry : has sr C = true ↔ d < s
  overflow : has sr V = true ↔
    Chain.Overflows size.modulus (Chain.signed size.modulus d - Chain.signed size.modulus s)
  zero : has sr Z = true ↔ r = 0
  negative : has sr N = true ↔ size.modulus ≤ 2 * r

theorem codes_compare :
    Codes size (src &&& size.mask).toNat (dst &&& size.mask).toNat
      (difference src dst 0 size sr).value.toNat (compare src dst size sr) := by
  have hdigit := digit_difference src dst 0 size sr (by decide)
  have hcarry := has_compare_of_disjoint src dst size sr C (by decide)
  have hoverflow := has_compare_of_disjoint src dst size sr V (by decide)
  have hzero := has_compare_of_disjoint src dst size sr Z (by decide)
  have hnegative := has_compare_of_disjoint src dst size sr N (by decide)
  rw [has_sub_of_disjoint _ _ _ _ _ (by decide)] at hcarry hoverflow hnegative
  rw [has_sub_Z] at hzero
  constructor
  · rw [hcarry, hdigit.carry]
    have hlt := hdigit.lt
    have hexact := hdigit.exact
    simp only [Chain.Kind.exact, Chain.extend_eq] at hexact
    cases hx : has (difference src dst 0 size sr).sr X <;> simp [hx] at hexact ⊢ <;> omega
  · rw [hoverflow, hdigit.overflow]
    simp [Chain.Kind.exact]
  · rw [hzero, beq_iff_eq, ← UInt32.toNat_inj]
    rfl
  · rw [hnegative, hdigit.negative]

end Compare

theorem Codes.condition_iff {src dst : UInt32} {size : Size} {r : Nat} {sr : UInt16}
    (h : Codes size (src &&& size.mask).toNat (dst &&& size.mask).toNat r sr)
    (hr : r < size.modulus)
    (hwraps : (dst &&& size.mask).toNat = r + (src &&& size.mask).toNat ∨
      (dst &&& size.mask).toNat + size.modulus = r + (src &&& size.mask).toNat) (code : Nat) :
    condition sr code = true ↔ Compared size src dst code := by
  have hs := toNat_masked_lt src size
  have hd := toNat_masked_lt dst size
  have hless := signed_lt_iff (two_dvd_modulus size) hs hd hr hwraps
  have hequal := signed_eq_iff (two_dvd_modulus size) hs hd hr hwraps
  obtain ⟨hC, hV, hZ, hN⟩ := h
  rw [← hV, ← hN] at hless
  simp only [condition, Compared, Size.number_unsigned, Size.number_signed, Size.Fits,
    Chain.fits_signed, emod_of_wraps hr hwraps]
  generalize (src &&& size.mask).toNat = s at *
  generalize (dst &&& size.mask).toNat = d at *
  generalize Chain.signed size.modulus s = s' at *
  generalize Chain.signed size.modulus d = d' at *
  generalize has sr C = c at *
  generalize has sr V = v at *
  generalize has sr Z = z at *
  generalize has sr N = n at *
  generalize code % 16 = number at *
  split <;> grind

theorem condition_compare (src dst : UInt32) (size : Size) (sr : UInt16) (code : Nat) :
    condition (compare src dst size sr) code = true ↔ Compared size src dst code := by
  have hwraps := difference_wraps src dst 0 size sr (by decide)
  exact (codes_compare src dst size sr).condition_iff (digit_difference src dst 0 size sr
    (by decide)).lt hwraps code

end Alu

namespace Operation

/-- The registers of DBcc once the low word of Dy is counted down: it jumps until that is -1. -/
def countedDown (p : Operands) (m : Machine) : Registers :=
  let n := m.opcode.y
  let count := (m.regs.d n).toUInt16 - 1
  let r := m.regs.setD n (merge (m.regs.d n) count.toUInt32 .word)
  if count != 0xFFFF then { r with pc := p.first } else r

/-- Instructions with a condition act as on a condition that is `holds`. -/
structure DecidesBy (holds : Prop) (p : Operands) (m : Machine) : Prop where
  jumps : holds → bcc.perform p m = .ok p { m with regs.pc := p.first }
  passes : ¬ holds → bcc.perform p m = .ok p m
  ones : holds → scc.perform p m = .ok { p with result := 0xFF } m
  zeros : ¬ holds → scc.perform p m = .ok { p with result := 0 } m
  leaves : holds → dbcc.perform p m = .ok p m
  counts : ¬ holds → dbcc.perform p m = .ok p { m with regs := countedDown p m }
  traps : holds → trapcc.perform p m = .error .trapV m
  proceeds : ¬ holds → trapcc.perform p m = .ok p m

theorem decidesBy_condition (p : Operands) (m : Machine) :
    DecidesBy (condition m.regs.sr m.opcode.condition = true) p m := by
  have hcondition : Perform.conditionHolds m =
    .ok (condition m.regs.sr m.opcode.condition) m := rfl
  have hbcc : bcc.perform p m = _ := Exec.bind_ok hcondition
  have hscc : scc.perform p m = _ := Exec.bind_ok hcondition
  have hdbcc : dbcc.perform p m = _ := Exec.bind_ok hcondition
  have htrapcc : trapcc.perform p m = _ := Exec.bind_ok hcondition
  constructor <;> intro holds <;>
    simp only [holds, if_true, if_false] at hbcc hscc hdbcc htrapcc
  · exact hbcc
  · exact hbcc
  · exact hscc
  · exact hscc
  · exact hdbcc
  · rw [hdbcc, Exec.bind_get, Exec.bind_regs, countedDown]
    cases (m.regs.d m.opcode.y).toUInt16 - 1 != 0xFFFF <;> rfl
  · exact htrapcc
  · exact htrapcc

theorem decidesBy_compare (src dst : UInt32) (size : Size) (sr : UInt16) (p : Operands)
    (m : Machine) : DecidesBy (Alu.Compared size src dst m.opcode.condition) p
      { m with regs.sr := Alu.compare src dst size sr } := by
  have hdecides := decidesBy_condition p { m with regs.sr := Alu.compare src dst size sr }
  rwa [propext (Alu.condition_compare src dst size sr m.opcode.condition)] at hdecides

/-- After a comparison, at any size, each condition holds exactly when the numbers stand in its
relation, and every instruction with a condition decides by it. -/
theorem compare_orders :
    (∀ (src dst : UInt32) (size : Size) (sr : UInt16),
      let sr' := Alu.compare src dst size sr
      (∀ code, condition sr' code = true ↔ Alu.Compared size src dst code) ∧
        has sr' X = has sr X ∧ system sr' = system sr) ∧
    ∀ (p : Operands) (m : Machine),
      (∃ sr', cmp.perform p m = .ok p { m with regs.sr := sr' } ∧
        ∀ (q : Operands) (later : Machine),
          DecidesBy (Alu.Compared p.size p.first p.second later.opcode.condition) q
            { later with regs.sr := sr' }) ∧
      ∃ sr', cmpa.perform p m = .ok p { m with regs.sr := sr' } ∧
        ∀ (q : Operands) (later : Machine),
          DecidesBy (Alu.Compared .long p.first p.second later.opcode.condition) q
            { later with regs.sr := sr' } := by
  refine ⟨fun src dst size sr => ?_, fun p m => ⟨?_, ?_⟩⟩
  · exact ⟨Alu.condition_compare src dst size sr, Alu.has_compare_X src dst size sr,
      Alu.system_compare src dst size sr⟩
  · exact ⟨_, rfl, decidesBy_compare p.first p.second p.size m.regs.sr⟩
  · exact ⟨_, rfl, decidesBy_compare p.first p.second .long m.regs.sr⟩

example : condition (Alu.compare 0x7F 0x80 .byte 0) 0x2 = true ∧
    condition (Alu.compare 0x7F 0x80 .byte 0) 0xD = true := by
  decide

end Operation

end Mc68k
