import Mc68k.Operation.Perform
import Mc68k.Proofs.Arithmetic.Quotient
import Mc68k.Proofs.Execution.Path

namespace Mc68k

open Status

namespace Division

/-- A division as numbers, with the registers that receive its results. -/
structure Task where
  size : Size
  signed : Bool
  dividend : Int
  divisor : Int
  dq : RegisterNumber
  dr : RegisterNumber
  deriving DecidableEq

namespace Task

def word (signed : Bool) (p : Operands) (m : Machine) : Task where
  size := .word
  signed
  dividend := Size.long.number signed (m.regs.d m.opcode.x)
  divisor := Size.word.number signed p.first
  dq := m.opcode.x
  dr := m.opcode.x

/-- DIVU.L, DIVS.L, DIVUL.L and DIVSL.L divide Dq, or Dr and Dq as the halves of 64 bits. -/
def long (p : Operands) (m : Machine) : Task :=
  let ext := p.first.toUInt16
  let dq := RegisterNumber.ofNat (field ext 12 3)
  let dr := RegisterNumber.ofNat (field ext 0 3)
  { size := .long
    signed := bit ext 11
    dividend := Division.dividend (bit ext 11) (if bit ext 10 then some (m.regs.d dr) else none)
      (m.regs.d dq)
    divisor := Size.long.number (bit ext 11) p.second
    dq
    dr }

def HasRoom (t : Task) : Prop := t.size.Fits t.signed (t.dividend.tdiv t.divisor)

instance (t : Task) : Decidable t.HasRoom := inferInstanceAs (Decidable (Size.Fits _ _ _))

/-- The remainder of a word division is in the high word of the quotient's register. That of a long
division has a register of its own, or is not kept. -/
def remainder? (t : Task) (r : Registers) : Option UInt32 :=
  match t.size with
  | .long => if t.dr = t.dq then none else some (r.d t.dr)
  | _ => some (r.d t.dq >>> 16)

structure Stored (t : Task) (before after : Registers) : Prop where
  exact : ∃ remainder,
    t.dividend = t.size.number t.signed (after.d t.dq) * t.divisor + remainder ∧
      remainder.natAbs < t.divisor.natAbs ∧
      (remainder = 0 ∨ remainder.sign = t.dividend.sign) ∧
      ∀ v ∈ t.remainder? after, t.size.number t.signed v = remainder
  negative : has after.sr N = Alu.top t.size (after.d t.dq)
  zero : has after.sr Z = true ↔ t.size.number t.signed (after.d t.dq) = 0
  overflow : has after.sr V = false
  carry : has after.sr C = false
  extend : has after.sr X = has before.sr X
  system : Status.system after.sr = Status.system before.sr
  data (n : RegisterNumber) : n ≠ t.dq → n ≠ t.dr → after.d n = before.d n
  rest : { after with data := before.data, sr := before.sr } = before

structure Outcome (t : Task) (p : Operands) (m : Machine)
    (result : EStateM.Result Exception Machine Operands) : Prop where
  byZero : t.divisor = 0 →
    result = .error .zeroDivide { m with regs.sr := setIf m.regs.sr C false }
  overflow : t.divisor ≠ 0 → ¬ t.HasRoom →
    result = .ok p { m with regs.sr := setIf (setIf m.regs.sr V true) C false }
  stored : t.divisor ≠ 0 → t.HasRoom →
    ∃ regs, result = .ok p { m with regs } ∧ t.Stored m.regs regs

end Task

theorem exact_of_tdiv {dividend divisor quotient remainder : Int} (hzero : divisor ≠ 0)
    (hq : quotient = dividend.tdiv divisor) (hr : remainder = dividend.tmod divisor) :
    dividend = quotient * divisor + remainder ∧ remainder.natAbs < divisor.natAbs ∧
      (remainder = 0 ∨ remainder.sign = dividend.sign) := by
  subst hq hr
  refine ⟨(Int.tdiv_mul_add_tmod dividend divisor).symm, ?_, ?_⟩
  · rw [Int.natAbs_tmod]
    exact Nat.mod_lt _ (Int.natAbs_pos.mpr hzero)
  · have hsign := Int.sign_tmod dividend divisor
    split at hsign
    · exact .inl (Int.sign_eq_zero_iff_zero.mp hsign)
    · exact .inr hsign

def packed (q : Result) : UInt32 := (q.remainder <<< 16) ||| (q.quotient &&& 0xFFFF)

theorem toNat_packed (q : Result) :
    (packed q).toNat = q.quotient.toNat % 2 ^ 16 + 2 ^ 16 * (q.remainder.toNat % 2 ^ 16) := by
  have hlow : (q.quotient &&& 0xFFFF).toNat = q.quotient.toNat % 2 ^ 16 :=
    toNat_and_mask q.quotient .word
  have hhigh : (q.remainder <<< 16).toNat = 2 ^ 16 * (q.remainder.toNat % 2 ^ 16) := by
    simp only [UInt32.toNat_shiftLeft, Nat.shiftLeft_eq]
    change q.remainder.toNat * 2 ^ 16 % 2 ^ 32 = _
    omega
  rw [packed, UInt32.toNat_or, hlow, hhigh,
    ← Nat.two_pow_add_eq_or_of_lt (Nat.mod_lt _ (by decide)), Nat.add_comm]

theorem packed_low (q : Result) : packed q &&& Size.word.mask = q.quotient &&& Size.word.mask := by
  apply UInt32.toNat_inj.mp
  rw [toNat_and_mask, toNat_and_mask, toNat_packed]
  simp only [Size.bits, Size.bytes]
  omega

theorem packed_high (q : Result) :
    (packed q >>> 16) &&& Size.word.mask = q.remainder &&& Size.word.mask := by
  have hshift : (packed q >>> 16).toNat = (packed q).toNat / 2 ^ 16 := by
    simp [Nat.shiftRight_eq_div_pow]
  apply UInt32.toNat_inj.mp
  rw [toNat_and_mask, toNat_and_mask, hshift, toNat_packed]
  simp only [Size.bits, Size.bytes]
  omega

section Written

variable {t : Task} {p : Operands} {m : Machine} {q : Result}

theorem hasRoom_of_gives (h : Gives t.size t.signed t.dividend t.divisor (some q)) : t.HasRoom := by
  rw [Task.HasRoom, ← h.1]
  exact t.size.number_fits q.quotient t.signed

theorem stored_of_written {before after : Registers} (hzero : t.divisor ≠ 0)
    (hgives : Gives t.size t.signed t.dividend t.divisor (some q))
    (hquotient : after.d t.dq &&& t.size.mask = q.quotient &&& t.size.mask)
    (hremainder : ∀ v ∈ t.remainder? after, v &&& t.size.mask = q.remainder &&& t.size.mask)
    (hsr : after.sr = logical before.sr q.quotient t.size)
    (hdata : ∀ n, n ≠ t.dq → n ≠ t.dr → after.d n = before.d n)
    (hrest : { after with data := before.data, sr := before.sr } = before) :
    t.Stored before after := by
  obtain ⟨hq, hr⟩ := hgives
  have hnumber : t.size.number t.signed (after.d t.dq) = t.size.number t.signed q.quotient :=
    Size.number_congr hquotient
  obtain ⟨hexact, hsmall, hsign⟩ := exact_of_tdiv hzero (hnumber.trans hq) rfl
  exact {
    exact := ⟨_, hexact, hsmall, hsign, fun v hv =>
      (Size.number_congr (hremainder v hv)).trans hr⟩
    negative := by
      rw [hsr, has_logical_N_eq_top, Size.top_eq_decide, Size.top_eq_decide,
        Size.number_congr hquotient]
    zero := by rw [hsr, has_logical_Z_iff _ _ _ t.signed, hnumber]
    overflow := by rw [hsr, has_logical_V]
    carry := by rw [hsr, has_logical_C]
    extend := by rw [hsr, has_logical_X]
    system := by rw [hsr, system_logical]
    data := hdata
    rest := hrest }

theorem outcome_of_cases {result : EStateM.Result Exception Machine Operands}
    (quotient? : Option Result)
    (byZero : t.divisor = 0 →
      result = .error .zeroDivide { m with regs.sr := setIf m.regs.sr C false })
    (hgives : t.divisor ≠ 0 → Gives t.size t.signed t.dividend t.divisor quotient?)
    (hnone : t.divisor ≠ 0 → quotient? = none →
      result = .ok p { m with regs.sr := setIf (setIf m.regs.sr V true) C false })
    (hsome : t.divisor ≠ 0 → ∀ q, quotient? = some q →
      ∃ regs, result = .ok p { m with regs } ∧ t.Stored m.regs regs) :
    t.Outcome p m result where
  byZero := byZero
  overflow hzero hroom := by
    apply hnone hzero
    cases hq : quotient? with
    | none => rfl
    | some q => exact absurd (hasRoom_of_gives (hq ▸ hgives hzero)) hroom
  stored hzero hroom := by
    cases hq : quotient? with
    | none => exact absurd hroom (hq ▸ hgives hzero : Gives _ _ _ _ none)
    | some q => exact hsome hzero q hq

end Written

theorem divideWord_of_zero {signed : Bool} {p : Operands} {m : Machine}
    (h : p.first &&& 0xFFFF = 0) : Perform.divideWord signed p m =
      .error .zeroDivide { m with regs.sr := setIf m.regs.sr C false } := by
  rw [Perform.divideWord, if_pos h]
  rfl

theorem divideWord_of_ne_zero {signed : Bool} {p : Operands} {m : Machine}
    (h : p.first &&& 0xFFFF ≠ 0) : Perform.divideWord signed p m =
      match word? signed (m.regs.d m.opcode.x) p.first with
      | none => .ok p { m with regs.sr := setIf (setIf m.regs.sr V true) C false }
      | some q => .ok p { m with regs := { m.regs.setD m.opcode.x (packed q) with
          sr := logical m.regs.sr q.quotient .word } } := by
  rw [Perform.divideWord, if_neg h, Exec.bind_get, Exec.bind_regs]
  cases word? signed (m.regs.d m.opcode.x) p.first <;> rfl

theorem outcome_divideWord (signed : Bool) (p : Operands) (m : Machine) :
    (Task.word signed p m).Outcome p m (Perform.divideWord signed p m) := by
  have hzero : Size.word.number signed p.first = 0 ↔ p.first &&& 0xFFFF = 0 := by
    rw [Size.number_eq_zero_iff, ← UInt32.toNat_inj]
    rfl
  apply outcome_of_cases (word? signed (m.regs.d m.opcode.x) p.first)
  · exact fun h => divideWord_of_zero (hzero.mp h)
  · exact gives_word signed _ _
  · intro h hnone
    rw [divideWord_of_ne_zero (mt hzero.mpr h), hnone]
  · intro h q hsome
    refine ⟨_, by rw [divideWord_of_ne_zero (mt hzero.mpr h), hsome], ?_⟩
    have hself := m.regs.d_setD_self m.opcode.x (packed q)
    apply stored_of_written h (hsome ▸ gives_word signed _ _ h)
    · exact (congrArg (· &&& Size.word.mask) hself).trans (packed_low q)
    · intro v hv
      obtain rfl := Option.some.inj hv
      exact (congrArg (fun v : UInt32 => (v >>> 16) &&& Size.word.mask) hself).trans
        (packed_high q)
    · rfl
    · intro n hn _
      exact m.regs.d_setD_of_ne (Fin.val_ne_of_ne hn) _
    · rfl

theorem divideLong_of_zero {p : Operands} {m : Machine} (h : p.second = 0) :
    Perform.divideLong p m =
      .error .zeroDivide { m with regs.sr := setIf m.regs.sr C false } := by
  rw [Perform.divideLong, if_pos h]
  rfl

theorem divideLong_of_ne_zero {p : Operands} {m : Machine} (h : p.second ≠ 0) :
    let ext := p.first.toUInt16
    let dq := RegisterNumber.ofNat (field ext 12 3)
    let dr := RegisterNumber.ofNat (field ext 0 3)
    Perform.divideLong p m =
      match long? (bit ext 11) (if bit ext 10 then some (m.regs.d dr) else none) (m.regs.d dq)
        p.second with
      | none => .ok p { m with regs.sr := setIf (setIf m.regs.sr V true) C false }
      | some q => .ok p { m with regs := { (m.regs.setD dr q.remainder).setD dq q.quotient with
          sr := logical m.regs.sr q.quotient .long } } := by
  intro ext dq dr
  rw [Perform.divideLong, if_neg h, Exec.bind_regs]
  dsimp only
  cases long? (bit ext 11) (if bit ext 10 then some (m.regs.d dr) else none) (m.regs.d dq)
    p.second <;> rfl

theorem outcome_divideLong (p : Operands) (m : Machine) :
    (Task.long p m).Outcome p m (Perform.divideLong p m) := by
  have hzero (signed : Bool) : Size.long.number signed p.second = 0 ↔ p.second = 0 := by
    have hwhole : p.second &&& Size.long.mask = p.second := UInt32.and_neg_one
    rw [Size.number_eq_zero_iff, hwhole, ← UInt32.toNat_inj]
    rfl
  have hvalue (h : p.second ≠ 0) := divideLong_of_ne_zero (m := m) h
  dsimp only at hvalue
  set dq := RegisterNumber.ofNat (field p.first.toUInt16 12 3)
  set dr := RegisterNumber.ofNat (field p.first.toUInt16 0 3)
  set signed := bit p.first.toUInt16 11
  set high := if bit p.first.toUInt16 10 then some (m.regs.d dr) else none
  apply outcome_of_cases (long? signed high (m.regs.d dq) p.second)
  · exact fun h => divideLong_of_zero ((hzero _).mp h)
  · exact gives_long signed high _ _
  · intro h hnone
    rw [hvalue (mt (hzero _).mpr h), hnone]
  · intro h q hsome
    refine ⟨_, by rw [hvalue (mt (hzero _).mpr h), hsome], ?_⟩
    apply stored_of_written h (hsome ▸ gives_long signed high _ _ h)
    · exact congrArg (· &&& Size.long.mask) (Registers.d_setD_self _ dq q.quotient)
    · intro v hv
      obtain ⟨hne, hv⟩ := Option.ite_none_left_eq_some.mp hv
      obtain rfl := Option.some.inj hv
      have hkept := Registers.d_setD_of_ne (m.regs.setD dr q.remainder) (Fin.val_ne_of_ne hne)
        q.quotient
      exact congrArg (· &&& Size.long.mask) (hkept.trans (m.regs.d_setD_self dr q.remainder))
    · rfl
    · intro n hq hr
      exact (Registers.d_setD_of_ne _ (Fin.val_ne_of_ne hq) _).trans
        (m.regs.d_setD_of_ne (Fin.val_ne_of_ne hr) _)
    · rfl

end Division

def Operation.division? (operation : Operation) (p : Operands) (m : Machine) :
    Option Division.Task :=
  match operation with
  | divu => some (.word false p m)
  | divs => some (.word true p m)
  | divLong => some (.long p m)
  | _ => none

/-- Whatever is divided: a zero divisor raises an exception, a quotient without room is reported in
V, and any other is stored with its remainder. -/
theorem Operation.divides {operation : Operation} {t : Division.Task} (p : Operands) (m : Machine)
    (h : operation.division? p m = some t) : t.Outcome p m (operation.perform p m) := by
  cases operation with
  | divu =>
    obtain rfl := Option.some.inj h
    exact Division.outcome_divideWord false p m
  | divs =>
    obtain rfl := Option.some.inj h
    exact Division.outcome_divideWord true p m
  | divLong =>
    obtain rfl := Option.some.inj h
    exact Division.outcome_divideLong p m
  | _ => cases h

/-- The least long quotient, with Dq = Dr: 2^32 + 1 by -2 is -2^31, and the remainder is lost. -/
theorem Operation.divides_least_quotient :
    let m : Machine := { Machine.new .m68020 (.flat (.new 0 0)) with
      regs := Registers.initial.setD .one 1 }
    let p : Operands := { Operands.new .long with first := 0x1C01, second := 0xFFFFFFFE }
    let t : Division.Task := ⟨.long, true, 0x100000001, -2, .one, .one⟩
    divLong.division? p m = some t ∧ t.HasRoom ∧ ∃ regs,
      divLong.perform p m = .ok p { m with regs } ∧ t.Stored m.regs regs ∧
      regs.d .one = 0x80000000 ∧ t.remainder? regs = none := by
  intro m p t
  have htask : divLong.division? p m = some t := by decide
  have hroom : t.HasRoom := by decide
  obtain ⟨regs, hresult, hstored⟩ := (divides p m htask).stored (by decide) hroom
  refine ⟨htask, hroom, regs, hresult, hstored, ?_, rfl⟩
  have hleft : (Machine.left (divLong.perform p m)).regs = regs := by rw [hresult]; rfl
  rw [← hleft]
  decide

end Mc68k
