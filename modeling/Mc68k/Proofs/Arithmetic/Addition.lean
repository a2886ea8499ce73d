import Mc68k.Operation.Perform
import Mc68k.Proofs.Arithmetic.Number

namespace Mc68k

open Status Chain

namespace Alu

def single (size : Size) : Kind → UInt32 → UInt32 → UInt16 → Computed
  | .sum, src, dst, sr => add src dst size sr
  | .difference, src, dst, sr => sub src dst size sr
  | .opposite, _, dst, sr => neg dst size sr

/-- What operands make as numbers, before the result is cut to their size. -/
def uncut (size : Size) (signed : Bool) (kind : Kind) (src dst : UInt32) : Int :=
  kind.exact (size.number signed src) (size.number signed dst) 0

/-- A result with the condition codes that describe it. -/
structure Described (size : Size) (kind : Kind) (src dst : UInt32) (sr : UInt16) (r : Computed) :
    Prop where
  value : (r.value.toNat : Int) = uncut size false kind src dst % size.modulus
  carry : has r.sr C = true ↔ ¬ size.Fits false (uncut size false kind src dst)
  extend : has r.sr X = has r.sr C
  overflow : has r.sr V = true ↔ ¬ size.Fits true (uncut size true kind src dst)
  negative : has r.sr N = top size r.value
  zero : has r.sr Z = true ↔ r.value = 0
  system : Status.system r.sr = Status.system sr

variable (size : Size) (kind : Kind) (src dst : UInt32) (sr : UInt16)

theorem digit_single :
    Digit size kind (src &&& size.mask).toNat (dst &&& size.mask).toNat 0
      (single size kind src dst sr) := by
  have hnone : (0 : UInt32).toNat ≤ 1 := by decide
  cases kind with
  | sum => exact (digit_sum src dst 0 size sr hnone).setZero
  | difference => exact (digit_difference src dst 0 size sr hnone).setZero
  | opposite =>
    have hzero : (0 &&& size.mask).toNat = 0 := by rw [UInt32.zero_and]; rfl
    have h := digit_difference dst 0 0 size sr hnone
    rw [hzero] at h
    exact h.setZero.opposite

theorem has_single_Z :
    has (single size kind src dst sr).sr Z = ((single size kind src dst sr).value == 0) := by
  cases kind <;> exact has_setIf_self _ Z _ (by decide)

theorem system_single : Status.system (single size kind src dst sr).sr = Status.system sr := by
  cases kind
  · exact system_add src dst size sr
  · exact system_sub src dst size sr
  · exact system_sub dst 0 size sr

theorem single_masked :
    single size kind (src &&& size.mask) (dst &&& size.mask) sr = single size kind src dst sr := by
  cases kind <;>
    simp only [single, add, sub, neg, sum, difference, UInt32.and_assoc, UInt32.and_self]

theorem described_single : Described size kind src dst sr (single size kind src dst sr) := by
  have hdigit := digit_single size kind src dst sr
  generalize hr : single size kind src dst sr = r at hdigit
  have hlt : (r.value.toNat : Int) < size.modulus := by exact_mod_cast hdigit.lt
  have hexact : uncut size false kind src dst =
      r.value.toNat + size.modulus * kind.exact 0 0 (Chain.extend r.sr) := hdigit.exact
  have hcarry := kind.carry_iff r.sr (by omega) hlt
  rw [← hexact] at hcarry
  exact {
    value := by rw [hexact, Int.add_mul_emod_self_left, Int.emod_eq_of_lt (by omega) hlt]
    carry := by
      rw [hdigit.carry, hcarry]
      simp only [Size.Fits, Chain.fits_unsigned]
      omega
    extend := hdigit.carry.symm
    overflow := hdigit.overflow.trans not_not.symm
    negative := by rw [Bool.eq_iff_iff, hdigit.negative, top_iff size r.value hdigit.lt]
    zero := by rw [← hr, has_single_Z, beq_iff_eq]
    system := hr ▸ system_single size kind src dst sr }

end Alu

def Chain.Kind.operation : Kind → Operation
  | .sum => .add
  | .difference => .sub
  | .opposite => .neg

/-- ADD, SUB and NEG are exact: the result is the sum or difference modulo the values of the size,
and the codes say what was cut off. -/
theorem Operation.adds_exactly (kind : Kind) :
    (∀ size src dst sr, Alu.Described size kind src dst sr (Alu.single size kind src dst sr) ∧
      Alu.single size kind (src &&& size.mask) (dst &&& size.mask) sr =
        Alu.single size kind src dst sr) ∧
    ∀ (p : Operands) (m : Machine),
      let r := Alu.single p.size kind p.first p.second m.regs.sr
      kind.operation.perform p m =
        .ok { p with result := r.value } { m with regs := { m.regs with sr := r.sr } } := by
  refine ⟨fun size src dst sr => ⟨?_, ?_⟩, fun p m => ?_⟩
  · exact Alu.described_single size kind src dst sr
  · exact Alu.single_masked size kind src dst sr
  · cases kind <;> rfl

example : Alu.single .byte .opposite 0 0xFFFFFF80 Z = ⟨0x80, X ||| N ||| V ||| C⟩ := by decide

end Mc68k
