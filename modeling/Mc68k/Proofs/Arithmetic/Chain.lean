import Mathlib.Data.Nat.Digits.Defs
import Mathlib.Tactic.Ring
import Mc68k.Proofs.Status

namespace Mc68k

open Status

inductive Chain.Kind where
  | sum
  | difference
  | opposite
  deriving DecidableEq, Repr

namespace Chain

/-- The result before it is cut to the digits there are. -/
def Kind.exact : Kind → Int → Int → Int → Int
  | sum, src, dst, x => dst + src + x
  | difference, src, dst, x => dst - src - x
  | opposite, _, dst, x => 0 - dst - x

def extend (sr : UInt16) : Nat := (Alu.extendIn sr).toNat

/-- Process the digits of two numbers, pairs of source and destination, from the least significant
pair up. -/
def run (link : UInt32 → UInt32 → UInt16 → Computed) :
    List (UInt32 × UInt32) → UInt16 → List UInt32 × UInt16
  | [], sr => ([], sr)
  | (src, dst) :: rest, sr =>
    let digit := link src dst sr
    let (digits, final) := run link rest digit.sr
    (digit.value :: digits, final)

def run? (link : UInt32 → UInt32 → UInt16 → Option Computed) :
    List (UInt32 × UInt32) → UInt16 → Option (List UInt32 × UInt16)
  | [], sr => some ([], sr)
  | (src, dst) :: rest, sr => do
    let digit ← link src dst sr
    let (digits, final) ← run? link rest digit.sr
    return (digit.value :: digits, final)

/-- How digits are written in operands. -/
structure Numeral where
  base : Nat
  valid : UInt32 → Prop
  read : UInt32 → Nat
  read_lt (v : UInt32) : valid v → read v < base

def Numeral.number (numeral : Numeral) (digits : List UInt32) : Nat :=
  Nat.ofDigits numeral.base (digits.map numeral.read)

def Numeral.exact (numeral : Numeral) (kind : Kind) (pairs : List (UInt32 × UInt32))
    (sr : UInt16) : Int :=
  kind.exact (numeral.number (pairs.map Prod.fst)) (numeral.number (pairs.map Prod.snd)) (extend sr)

def Numeral.ValidPairs (numeral : Numeral) (pairs : List (UInt32 × UInt32)) : Prop :=
  ∀ pair ∈ pairs, numeral.valid pair.1 ∧ numeral.valid pair.2

/-- A link: one digit computed exactly, with X as the carry between it and the next one, and a Z
that a non-zero digit clears. -/
structure Link (numeral : Numeral) (kind : Kind)
    (link : UInt32 → UInt32 → UInt16 → Computed) : Prop where
  valid {src dst : UInt32} (sr : UInt16) : numeral.valid src → numeral.valid dst →
    numeral.valid (link src dst sr).value
  exact {src dst : UInt32} (sr : UInt16) : numeral.valid src → numeral.valid dst →
    kind.exact (numeral.read src) (numeral.read dst) (extend sr) =
      numeral.read (link src dst sr).value +
        numeral.base * kind.exact 0 0 (extend (link src dst sr).sr)
  carry (src dst : UInt32) (sr : UInt16) :
    has (link src dst sr).sr C = has (link src dst sr).sr X
  zero {src dst : UInt32} (sr : UInt16) : numeral.valid src → numeral.valid dst →
    (has (link src dst sr).sr Z = true ↔
      has sr Z = true ∧ numeral.read (link src dst sr).value = 0)
  system (src dst : UInt32) (sr : UInt16) : Status.system (link src dst sr).sr = Status.system sr

/-- What a whole chain leaves: the digits of the result modulo the power of the base, with the
carry or borrow out of it in X and C. -/
structure Computes (numeral : Numeral) (kind : Kind) (pairs : List (UInt32 × UInt32)) (sr : UInt16)
    (out : List UInt32 × UInt16) : Prop where
  length : out.1.length = pairs.length
  valid : ∀ digit ∈ out.1, numeral.valid digit
  value : (numeral.number out.1 : Int) =
    numeral.exact kind pairs sr % (numeral.base ^ pairs.length : Nat)
  carryOut : has out.2 X = true ↔
    numeral.exact kind pairs sr < 0 ∨
      (numeral.base ^ pairs.length : Nat) ≤ numeral.exact kind pairs sr
  carry : has out.2 C = has out.2 X
  zero : has out.2 Z = true ↔ has sr Z = true ∧ numeral.number out.1 = 0
  system : Status.system out.2 = Status.system sr

section Exact

variable (kind : Kind) (src dst x src' dst' x' base : Int)

@[simp] theorem Kind.exact_zero : kind.exact 0 0 0 = 0 := by
  cases kind <;> rfl

theorem Kind.exact_carry : kind.exact src dst x = kind.exact src dst 0 + kind.exact 0 0 x := by
  cases kind <;> simp only [exact] <;> ring

theorem Kind.exact_step (digit : Int)
    (h : kind.exact src dst x = digit + base * kind.exact 0 0 x') :
    kind.exact (src + base * src') (dst + base * dst') x =
      digit + base * kind.exact src' dst' x' := by
  have hshift : kind.exact (src + base * src') (dst + base * dst') x =
      kind.exact src dst x + base * kind.exact src' dst' 0 := by
    cases kind <;> simp only [exact] <;> ring
  rw [hshift, h, exact_carry kind src' dst' x']
  ring

end Exact

theorem extend_eq (sr : UInt16) : extend sr = if has sr X then 1 else 0 := by
  rw [extend, Alu.extendIn]
  split <;> rfl

theorem extend_le (sr : UInt16) : extend sr ≤ 1 := by
  rw [extend_eq]
  split <;> decide

/-- One carry out of `modulus` at most: it is there exactly when the result is out of range. -/
theorem Kind.carry_iff (kind : Kind) (sr : UInt16) {result modulus : Int} (hlow : 0 ≤ result)
    (hhigh : result < modulus) :
    has sr X = true ↔ result + modulus * kind.exact 0 0 (extend sr) < 0 ∨
      modulus ≤ result + modulus * kind.exact 0 0 (extend sr) := by
  cases hx : has sr X <;> cases kind <;> simp [extend_eq, hx, exact] <;> omega

namespace Numeral

variable (numeral : Numeral)

@[simp] theorem number_nil : numeral.number [] = 0 := rfl

theorem number_cons (d : UInt32) (digits : List UInt32) :
    numeral.number (d :: digits) = numeral.read d + numeral.base * numeral.number digits := by
  simp [number, Nat.ofDigits_cons]

theorem number_append (low high : List UInt32) :
    numeral.number (low ++ high) =
      numeral.number low + numeral.base ^ low.length * numeral.number high := by
  simp [number, Nat.ofDigits_append]

theorem number_lt {digits : List UInt32} (h : ∀ d ∈ digits, numeral.valid d) :
    numeral.number digits < numeral.base ^ digits.length := by
  induction digits with
  | nil => simp
  | cons d digits ih =>
    have hd : numeral.read d < numeral.base := numeral.read_lt d (h d List.mem_cons_self)
    have hrest : numeral.number digits + 1 ≤ numeral.base ^ digits.length :=
      ih fun d hd => h d (List.mem_cons_of_mem _ hd)
    have hscaled := Nat.mul_le_mul_left numeral.base hrest
    rw [number_cons, List.length_cons, Nat.pow_succ']
    rw [Nat.mul_add] at hscaled
    omega

theorem number_eq_zero_cons (hbase : 0 < numeral.base) (d : UInt32) (digits : List UInt32) :
    numeral.number (d :: digits) = 0 ↔ numeral.read d = 0 ∧ numeral.number digits = 0 := by
  rw [number_cons, Nat.add_eq_zero_iff, Nat.mul_eq_zero]
  simp [hbase.ne']

theorem validPairs_cons (pair : UInt32 × UInt32) (pairs : List (UInt32 × UInt32)) :
    numeral.ValidPairs (pair :: pairs) ↔
      (numeral.valid pair.1 ∧ numeral.valid pair.2) ∧ numeral.ValidPairs pairs :=
  List.forall_mem_cons

end Numeral

section Run

variable {link : UInt32 → UInt32 → UInt16 → Computed}

theorem run_append (low high : List (UInt32 × UInt32)) (sr : UInt16) :
    run link (low ++ high) sr =
      ((run link low sr).1 ++ (run link high (run link low sr).2).1,
        (run link high (run link low sr).2).2) := by
  induction low generalizing sr with
  | nil => rfl
  | cons pair low ih => simp [run, ih]

@[simp] theorem length_run (pairs : List (UInt32 × UInt32)) (sr : UInt16) :
    (run link pairs sr).1.length = pairs.length := by
  induction pairs generalizing sr with
  | nil => rfl
  | cons pair rest ih => simp [run, ih]

theorem run?_eq {numeral : Numeral} {pairs : List (UInt32 × UInt32)}
    {link? : UInt32 → UInt32 → UInt16 → Option Computed}
    (h : ∀ {src dst}, numeral.valid src → numeral.valid dst → ∀ sr,
      link? src dst sr = some (link src dst sr))
    (hpairs : numeral.ValidPairs pairs) (sr : UInt16) :
    run? link? pairs sr = some (run link pairs sr) := by
  induction pairs generalizing sr with
  | nil => rfl
  | cons pair rest ih =>
    obtain ⟨⟨hsrc, hdst⟩, hrest⟩ := (numeral.validPairs_cons pair rest).mp hpairs
    simp only [run?, run, h hsrc hdst, ih hrest, Option.bind_eq_bind, Option.bind_some]
    rfl

end Run

namespace Link

variable {numeral : Numeral} {kind : Kind} {link : UInt32 → UInt32 → UInt16 → Computed}
  {pairs : List (UInt32 × UInt32)}

theorem run_valid (h : Link numeral kind link) (hpairs : numeral.ValidPairs pairs) (sr : UInt16) :
    ∀ digit ∈ (run link pairs sr).1, numeral.valid digit := by
  induction pairs generalizing sr with
  | nil => simp [run]
  | cons pair rest ih =>
    obtain ⟨⟨hsrc, hdst⟩, hrest⟩ := (numeral.validPairs_cons pair rest).mp hpairs
    simp only [run, List.forall_mem_cons]
    exact ⟨h.valid sr hsrc hdst, ih hrest _⟩

theorem run_exact (h : Link numeral kind link) (hpairs : numeral.ValidPairs pairs) (sr : UInt16) :
    numeral.exact kind pairs sr =
      numeral.number (run link pairs sr).1 +
        (numeral.base ^ pairs.length : Nat) * kind.exact 0 0 (extend (run link pairs sr).2) := by
  induction pairs generalizing sr with
  | nil => simp [Numeral.exact, run]
  | cons pair rest ih =>
    obtain ⟨⟨hsrc, hdst⟩, hrest⟩ := (numeral.validPairs_cons pair rest).mp hpairs
    have hstep := kind.exact_step _ _ _ (numeral.number (rest.map Prod.fst))
      (numeral.number (rest.map Prod.snd)) _ _ _ (h.exact sr hsrc hdst)
    have htail := ih hrest (link pair.1 pair.2 sr).sr
    simp only [Numeral.exact] at htail
    simp only [Numeral.exact, run, List.map_cons, Numeral.number_cons, List.length_cons]
    push_cast at hstep htail ⊢
    rw [hstep, htail]
    ring

theorem run_zero (h : Link numeral kind link) (hpairs : numeral.ValidPairs pairs) (sr : UInt16) :
    has (run link pairs sr).2 Z = true ↔
      has sr Z = true ∧ numeral.number (run link pairs sr).1 = 0 := by
  induction pairs generalizing sr with
  | nil => simp [run]
  | cons pair rest ih =>
    obtain ⟨⟨hsrc, hdst⟩, hrest⟩ := (numeral.validPairs_cons pair rest).mp hpairs
    have hbase : 0 < numeral.base := Nat.zero_lt_of_lt (numeral.read_lt _ hsrc)
    simp only [run, numeral.number_eq_zero_cons hbase]
    rw [ih hrest, h.zero sr hsrc hdst, and_assoc]

theorem run_system (h : Link numeral kind link) (pairs : List (UInt32 × UInt32)) (sr : UInt16) :
    Status.system (run link pairs sr).2 = Status.system sr := by
  induction pairs generalizing sr with
  | nil => rfl
  | cons pair rest ih => exact (ih _).trans (h.system _ _ _)

theorem run_carry (h : Link numeral kind link) (hne : pairs ≠ []) (sr : UInt16) :
    has (run link pairs sr).2 C = has (run link pairs sr).2 X := by
  induction pairs generalizing sr with
  | nil => exact absurd rfl hne
  | cons pair rest ih =>
    cases rest with
    | nil => exact h.carry _ _ _
    | cons next rest => exact ih (by simp) _

theorem computes (h : Link numeral kind link) (hne : pairs ≠ [])
    (hpairs : numeral.ValidPairs pairs) (sr : UInt16) :
    Computes numeral kind pairs sr (run link pairs sr) := by
  have hvalid := h.run_valid hpairs sr
  have hexact := h.run_exact hpairs sr
  have hbound := numeral.number_lt hvalid
  rw [length_run] at hbound
  have hlt : (numeral.number (run link pairs sr).1 : Int) <
      (numeral.base ^ pairs.length : Nat) := by exact_mod_cast hbound
  refine ⟨length_run _ _, hvalid, ?_, ?_, h.run_carry hne sr, h.run_zero hpairs sr,
    h.run_system pairs sr⟩
  · rw [hexact, Int.add_mul_emod_self_left, Int.emod_eq_of_lt (by omega) hlt]
  · rw [hexact]
    exact kind.carry_iff _ (by omega) hlt

end Link

end Chain

end Mc68k
