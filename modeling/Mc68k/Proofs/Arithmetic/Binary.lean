import Mathlib.Data.Nat.Bitwise
import Mc68k.Proofs.Arithmetic.Chain
import Mc68k.Proofs.BigEndian

namespace Mc68k

open Status Chain

def Size.modulus (size : Size) : Nat := 2 ^ size.bits

/-- A number below `modulus`, read as two's complement. -/
def Chain.signed (modulus value : Nat) : Int :=
  if 2 * value < modulus then value else (value : Int) - modulus

/-- Two's complement has no room for a result. -/
def Chain.Overflows (modulus : Nat) (result : Int) : Prop :=
  2 * result < -modulus ∨ (modulus : Int) ≤ 2 * result

namespace Alu

def numeral (size : Size) : Numeral where
  base := size.modulus
  valid _ := True
  read v := (v &&& size.mask).toNat
  read_lt v _ := by
    rw [toNat_and_mask]
    exact Nat.mod_lt _ (by positivity)

def link (size : Size) : Kind → UInt32 → UInt32 → UInt16 → Computed
  | .sum, src, dst, sr => addx src dst size sr
  | .difference, src, dst, sr => subx src dst size sr
  | .opposite, _, dst, sr => negx dst size sr

section SignBit

variable (size : Size) (v w : UInt32)

def top : Bool := v &&& size.signBit != 0

theorem top_eq_getLsbD : top size v = v.toBitVec.getLsbD (size.bits - 1) := by
  have hsign : size.signBit.toNat = 2 ^ (size.bits - 1) := by cases size <;> rfl
  have hand : (v &&& size.signBit).toNat =
      (v.toNat.testBit (size.bits - 1)).toNat * 2 ^ (size.bits - 1) := by
    rw [UInt32.toNat_and, hsign, Nat.and_two_pow]
  have hzero : v &&& size.signBit = 0 ↔ (v &&& size.signBit).toNat = 0 := UInt32.toNat_inj.symm
  change (v &&& size.signBit != 0) = v.toNat.testBit (size.bits - 1)
  rw [Bool.eq_iff_iff, bne_iff_ne, ne_eq, hzero, hand]
  cases v.toNat.testBit (size.bits - 1) <;> simp

theorem top_and : top size (v &&& w) = (top size v && top size w) := by
  simp [top_eq_getLsbD]

theorem top_or : top size (v ||| w) = (top size v || top size w) := by
  simp [top_eq_getLsbD]

theorem top_xor : top size (v ^^^ w) = (top size v ^^ top size w) := by
  simp [top_eq_getLsbD]

theorem top_not : top size (~~~v) = !top size v := by
  have hbits : size.bits - 1 < 32 := by cases size <;> decide
  simp [top_eq_getLsbD, hbits]

theorem top_iff (h : v.toNat < size.modulus) : top size v = true ↔ size.modulus ≤ 2 * v.toNat := by
  have hbit : v.toBitVec.getLsbD (size.bits - 1) = v.toNat.testBit (size.bits - 1) := rfl
  rw [top_eq_getLsbD, hbit, Nat.testBit_eq_decide_div_mod_eq, decide_eq_true_iff]
  cases size <;> simp only [Size.modulus, Size.bits, Size.bytes] at h ⊢ <;> omega

end SignBit

section Flags

variable (sr : UInt16) (result carry overflow : UInt32) (size : Size)

theorem has_flags_X : has (flags sr result carry overflow size) X = top size carry := by
  rw [flags, has_setIf_of_disjoint _ N X _ (by decide), has_setIf_of_disjoint _ V X _ (by decide),
    has_setIf_self _ X _ (by decide)]
  rfl

theorem has_flags_C : has (flags sr result carry overflow size) C = top size carry := by
  rw [flags, has_setIf_of_disjoint _ N C _ (by decide), has_setIf_of_disjoint _ V C _ (by decide),
    has_setIf_of_disjoint _ X C _ (by decide), has_setIf_self _ C _ (by decide)]
  rfl

theorem has_flags_V : has (flags sr result carry overflow size) V = top size overflow := by
  rw [flags, has_setIf_of_disjoint _ N V _ (by decide), has_setIf_self _ V _ (by decide)]
  rfl

theorem has_flags_N : has (flags sr result carry overflow size) N = top size result := by
  rw [flags, has_setIf_self _ N _ (by decide)]
  rfl

theorem has_flags_Z : has (flags sr result carry overflow size) Z = has sr Z := by
  rw [flags, has_setIf_of_disjoint _ N Z _ (by decide), has_setIf_of_disjoint _ V Z _ (by decide),
    has_setIf_of_disjoint _ X Z _ (by decide), has_setIf_of_disjoint _ C Z _ (by decide)]

end Flags

/-- One digit computed from the numbers `src` and `dst` with a carry in. -/
structure Digit (size : Size) (kind : Kind) (src dst x : Nat) (r : Computed) : Prop where
  lt : r.value.toNat < size.modulus
  exact : kind.exact src dst x =
    r.value.toNat + size.modulus * kind.exact 0 0 (extend r.sr)
  carry : has r.sr C = has r.sr X
  overflow : has r.sr V = true ↔
    Overflows size.modulus (kind.exact (signed size.modulus src) (signed size.modulus dst) x)
  negative : has r.sr N = true ↔ size.modulus ≤ 2 * r.value.toNat

theorem toNat_masked_lt (v : UInt32) (size : Size) : (v &&& size.mask).toNat < size.modulus :=
  (numeral size).read_lt v trivial

section Signs

variable {modulus s d r x : Nat} {ts td tr : Bool} (heven : 2 ∣ modulus) (hs : s < modulus)
  (hd : d < modulus) (hr : r < modulus) (hx : x ≤ 1) (hts : ts = true ↔ modulus ≤ 2 * s)
  (htd : td = true ↔ modulus ≤ 2 * d) (htr : tr = true ↔ modulus ≤ 2 * r)
include heven hs hd hr hx hts htd htr

theorem sum_of_signs (hsum : s + d + x = r ∨ s + d + x = r + modulus) :
    (d : Int) + s + x =
      r + modulus * (if ts && td || (ts || td) && !tr then (1 : Nat) else 0) := by
  obtain ⟨half, rfl⟩ := heven
  cases ts <;> cases td <;> cases tr <;> simp at hts htd htr ⊢ <;> omega

theorem sum_overflows_iff (hsum : s + d + x = r ∨ s + d + x = r + modulus) :
    ((ts ^^ tr) && (td ^^ tr)) = true ↔
      Overflows modulus (signed modulus d + signed modulus s + x) := by
  obtain ⟨half, rfl⟩ := heven
  simp only [Overflows, signed]
  cases ts <;> cases td <;> cases tr <;> simp at hts htd htr ⊢ <;> omega

theorem difference_of_signs (hdiff : d = r + s + x ∨ d + modulus = r + s + x) :
    (d : Int) - s - x =
      r + modulus * (0 - 0 - (if !td && ts || (!td || ts) && tr then (1 : Nat) else 0 : Nat)) := by
  obtain ⟨half, rfl⟩ := heven
  cases ts <;> cases td <;> cases tr <;> simp at hts htd htr ⊢ <;> omega

theorem difference_overflows_iff (hdiff : d = r + s + x ∨ d + modulus = r + s + x) :
    ((ts ^^ td) && (tr ^^ td)) = true ↔
      Overflows modulus (signed modulus d - signed modulus s - x) := by
  obtain ⟨half, rfl⟩ := heven
  simp only [Overflows, signed]
  cases ts <;> cases td <;> cases tr <;> simp at hts htd htr ⊢ <;> omega

end Signs

theorem two_dvd_modulus (size : Size) : 2 ∣ size.modulus := by
  cases size <;> decide

section Digit

variable (src dst x : UInt32) (size : Size) (sr : UInt16) (hx : x.toNat ≤ 1)
include hx

theorem sum_wraps :
    (src &&& size.mask).toNat + (dst &&& size.mask).toNat + x.toNat =
        (sum src dst x size sr).value.toNat ∨
      (src &&& size.mask).toNat + (dst &&& size.mask).toNat + x.toNat =
        (sum src dst x size sr).value.toNat + size.modulus := by
  have hs := toNat_masked_lt src size
  have hd := toNat_masked_lt dst size
  simp only [sum]
  generalize src &&& size.mask = s at *
  generalize dst &&& size.mask = d at *
  rw [toNat_and_mask, UInt32.toNat_add, UInt32.toNat_add]
  cases size <;> simp only [Size.bits, Size.bytes, Size.modulus] at * <;> omega

theorem difference_wraps :
    (dst &&& size.mask).toNat =
        (difference src dst x size sr).value.toNat + (src &&& size.mask).toNat + x.toNat ∨
      (dst &&& size.mask).toNat + size.modulus =
        (difference src dst x size sr).value.toNat + (src &&& size.mask).toNat + x.toNat := by
  have hs := toNat_masked_lt src size
  have hd := toNat_masked_lt dst size
  simp only [difference]
  generalize src &&& size.mask = s at *
  generalize dst &&& size.mask = d at *
  rw [toNat_and_mask, UInt32.toNat_sub, UInt32.toNat_sub]
  cases size <;> simp only [Size.bits, Size.bytes, Size.modulus] at * <;> omega

theorem digit_sum :
    Digit size .sum (src &&& size.mask).toNat (dst &&& size.mask).toNat x.toNat
      (sum src dst x size sr) := by
  have hwraps := sum_wraps src dst x size sr hx
  have hs := toNat_masked_lt src size
  have hd := toNat_masked_lt dst size
  have hr := toNat_masked_lt ((src &&& size.mask) + (dst &&& size.mask) + x) size
  simp only [sum] at hwraps ⊢
  generalize src &&& size.mask = s at *
  generalize dst &&& size.mask = d at *
  generalize s + d + x &&& size.mask = r at *
  have hts := top_iff size s hs
  have htd := top_iff size d hd
  have htr := top_iff size r hr
  refine ⟨hr, ?_, ?_, ?_, ?_⟩
  · simp only [Kind.exact, extend_eq, has_flags_X, top_or, top_and, top_not, Int.zero_add]
    exact sum_of_signs (two_dvd_modulus size) hs hd hr hx hts htd htr hwraps
  · simp only [has_flags_C, has_flags_X]
  · simp only [has_flags_V, top_and, top_xor]
    exact sum_overflows_iff (two_dvd_modulus size) hs hd hr hx hts htd htr hwraps
  · simpa only [has_flags_N] using htr

theorem digit_difference :
    Digit size .difference (src &&& size.mask).toNat (dst &&& size.mask).toNat x.toNat
      (difference src dst x size sr) := by
  have hwraps := difference_wraps src dst x size sr hx
  have hs := toNat_masked_lt src size
  have hd := toNat_masked_lt dst size
  have hr := toNat_masked_lt ((dst &&& size.mask) - (src &&& size.mask) - x) size
  simp only [difference] at hwraps ⊢
  generalize src &&& size.mask = s at *
  generalize dst &&& size.mask = d at *
  generalize d - s - x &&& size.mask = r at *
  have hts := top_iff size s hs
  have htd := top_iff size d hd
  have htr := top_iff size r hr
  refine ⟨hr, ?_, ?_, ?_, ?_⟩
  · simp only [Kind.exact, extend_eq, has_flags_X, top_or, top_and, top_not]
    exact difference_of_signs (two_dvd_modulus size) hs hd hr hx hts htd htr hwraps
  · simp only [has_flags_C, has_flags_X]
  · simp only [has_flags_V, top_and, top_xor]
    exact difference_overflows_iff (two_dvd_modulus size) hs hd hr hx hts htd htr hwraps
  · simpa only [has_flags_N] using htr

end Digit

variable {size : Size} {kind : Kind}

theorem Digit.of_agrees {src dst x : Nat} {r : Computed} {sr : UInt16}
    (h : Digit size kind src dst x r)
    (hagree : ∀ flag, Z &&& flag = 0 → has sr flag = has r.sr flag) :
    Digit size kind src dst x ⟨r.value, sr⟩ := by
  have hX := hagree X (by decide)
  have hextend : extend sr = extend r.sr := by rw [extend_eq, extend_eq, hX]
  refine ⟨h.lt, ?_, ?_, ?_, ?_⟩
  · simpa only [hextend] using h.exact
  · rw [hagree C (by decide), hX, h.carry]
  · rw [hagree V (by decide), h.overflow]
  · rw [hagree N (by decide), h.negative]

theorem Digit.keepZero {src dst x : Nat} {r : Computed} (h : Digit size kind src dst x r) :
    Digit size kind src dst x ⟨r.value, Alu.keepZero r.sr r.value⟩ :=
  h.of_agrees fun flag hflag => has_keepZero_of_disjoint r.sr flag r.value hflag

theorem Digit.setZero {src dst x : Nat} {r : Computed} (h : Digit size kind src dst x r) :
    Digit size kind src dst x ⟨r.value, Alu.setZero r.sr r.value⟩ :=
  h.of_agrees fun flag hflag => has_setIf_of_disjoint r.sr Z flag _ hflag

theorem Digit.opposite {src dst x : Nat} {r : Computed}
    (h : Digit size .difference dst 0 x r) : Digit size .opposite src dst x r := by
  have hsigned : signed size.modulus 0 = 0 := by cases size <;> rfl
  have hoverflow := h.overflow
  rw [hsigned] at hoverflow
  exact ⟨h.lt, h.exact, h.carry, hoverflow, h.negative⟩

theorem digit_link (size : Size) (kind : Kind) (src dst : UInt32) (sr : UInt16) :
    Digit size kind ((numeral size).read src) ((numeral size).read dst) (extend sr)
      (link size kind src dst sr) := by
  have hx := extend_le sr
  cases kind with
  | sum => exact (digit_sum src dst _ size sr hx).keepZero
  | difference => exact (digit_difference src dst _ size sr hx).keepZero
  | opposite =>
    have hzero : (0 &&& size.mask).toNat = 0 := by rw [UInt32.zero_and]; rfl
    have h := digit_difference dst 0 _ size sr hx
    rw [hzero] at h
    exact h.keepZero.opposite

theorem read_of_lt {v : UInt32} (h : v.toNat < size.modulus) : (numeral size).read v = v.toNat :=
  (toNat_and_mask v size).trans (Nat.mod_eq_of_lt h)

theorem has_link_Z (kind : Kind) (src dst : UInt32) (sr : UInt16) :
    has (link size kind src dst sr).sr Z =
      (has sr Z && (link size kind src dst sr).value == 0) := by
  cases kind <;>
    simp only [link, addx, subx, negx, sum, difference, has_keepZero_Z, has_flags_Z]

theorem validPairs (size : Size) (pairs : List (UInt32 × UInt32)) :
    (numeral size).ValidPairs pairs :=
  fun _ _ => ⟨trivial, trivial⟩

theorem isLink (size : Size) (kind : Kind) : Link (numeral size) kind (link size kind) where
  valid _ _ _ := trivial
  exact {src dst} sr _ _ := by
    have h := digit_link size kind src dst sr
    rw [read_of_lt h.lt]
    exact h.exact
  carry src dst sr := (digit_link size kind src dst sr).carry
  zero {src dst} sr _ _ := by
    have h := digit_link size kind src dst sr
    rw [read_of_lt h.lt, has_link_Z, Bool.and_eq_true, beq_iff_eq, ← UInt32.toNat_inj]
    rfl
  system src dst sr := by
    cases kind
    · exact system_addx src dst size sr
    · exact system_subx src dst size sr
    · exact system_subx dst 0 size sr

end Alu

section Signed

variable {modulus low scale high : Nat}

theorem Chain.lower_half_append (heven : 2 ∣ modulus) (hlow : low < scale) :
    2 * (low + scale * high) < scale * modulus ↔ 2 * high < modulus := by
  obtain ⟨half, rfl⟩ := heven
  constructor
  · intro h
    by_contra hge
    have hle := Nat.mul_le_mul_left scale (show half ≤ high by omega)
    lia
  · intro h
    have hle := Nat.mul_le_mul_left scale (show high + 1 ≤ half by omega)
    lia

theorem Chain.signed_append (heven : 2 ∣ modulus) (hlow : low < scale) :
    signed (scale * modulus) (low + scale * high) = low + scale * signed modulus high := by
  simp only [signed, lower_half_append heven hlow]
  split <;> push_cast
  · rfl
  · ring

theorem Chain.overflows_append (heven : 2 ∣ modulus) (hlow : low < scale) (result : Int) :
    Overflows (scale * modulus) (low + scale * result) ↔ Overflows modulus result := by
  obtain ⟨half, rfl⟩ := heven
  have hscale : (0 : Int) ≤ scale := by omega
  have hbelow : 2 * (low + scale * result) < -((scale * (2 * half) : Nat) : Int) ↔
      2 * result < -((2 * half : Nat) : Int) := by
    push_cast
    constructor
    · intro h
      by_contra hge
      have hle := Int.mul_le_mul_of_nonneg_left (show -(half : Int) ≤ result by omega) hscale
      lia
    · intro h
      have hle := Int.mul_le_mul_of_nonneg_left (show result + 1 ≤ -(half : Int) by omega) hscale
      lia
  have habove : ((scale * (2 * half) : Nat) : Int) ≤ 2 * (low + scale * result) ↔
      ((2 * half : Nat) : Int) ≤ 2 * result := by
    push_cast
    constructor
    · intro h
      by_contra hlt
      have hle := Int.mul_le_mul_of_nonneg_left (show result + 1 ≤ (half : Int) by omega) hscale
      lia
    · intro h
      have hle := Int.mul_le_mul_of_nonneg_left (show (half : Int) ≤ result by omega) hscale
      lia
  rw [Overflows, Overflows, hbelow, habove]

end Signed

namespace Alu

variable {size : Size} {kind : Kind}

theorem run_lt (pairs : List (UInt32 × UInt32)) (sr : UInt16) :
    ∀ digit ∈ (run (link size kind) pairs sr).1, digit.toNat < size.modulus := by
  induction pairs generalizing sr with
  | nil => simp [run]
  | cons pair rest ih =>
    simp only [run, List.forall_mem_cons]
    exact ⟨(digit_link size kind pair.1 pair.2 sr).lt, ih _⟩

theorem link_masked (kind : Kind) (src dst : UInt32) (sr : UInt16) :
    link size kind (src &&& size.mask) (dst &&& size.mask) sr = link size kind src dst sr := by
  cases kind <;>
    simp only [link, addx, subx, negx, sum, difference, UInt32.and_assoc, UInt32.and_self]

/-- Bits above the size of a digit are not read. -/
theorem run_masked (pairs : List (UInt32 × UInt32)) (sr : UInt16) :
    run (link size kind) (pairs.map fun p => (p.1 &&& size.mask, p.2 &&& size.mask)) sr =
      run (link size kind) pairs sr := by
  induction pairs generalizing sr with
  | nil => rfl
  | cons pair rest ih => simp only [List.map_cons, run, link_masked, ih]

theorem signed_number (size : Size) (low : List UInt32) (last : UInt32) :
    signed (size.modulus ^ (low.length + 1)) ((numeral size).number (low ++ [last])) =
      (numeral size).number low +
        (size.modulus ^ low.length : Nat) * signed size.modulus ((numeral size).read last) := by
  have hlow : (numeral size).number low < size.modulus ^ low.length :=
    (numeral size).number_lt fun _ _ => trivial
  have hlast : (numeral size).number [last] = (numeral size).read last := by
    simp [Numeral.number_cons]
  rw [Numeral.number_append, hlast, Nat.pow_succ]
  exact signed_append (two_dvd_modulus size) hlow

/-- The two's-complement result of a chain: the digits below the last, and what the last digits
make with the carry into them. -/
theorem run_signed (kind : Kind) (low : List (UInt32 × UInt32)) (last : UInt32 × UInt32)
    (sr : UInt16) :
    kind.exact
        (signed (size.modulus ^ (low.length + 1))
          ((numeral size).number ((low ++ [last]).map Prod.fst)))
        (signed (size.modulus ^ (low.length + 1))
          ((numeral size).number ((low ++ [last]).map Prod.snd))) (extend sr) =
      (numeral size).number (run (link size kind) low sr).1 +
        (size.modulus ^ low.length : Nat) *
          kind.exact (signed size.modulus ((numeral size).read last.1))
            (signed size.modulus ((numeral size).read last.2))
            (extend (run (link size kind) low sr).2) := by
  have hsrc := signed_number size (low.map Prod.fst) last.1
  have hdst := signed_number size (low.map Prod.snd) last.2
  rw [List.length_map] at hsrc hdst
  rw [List.map_append, List.map_append, List.map_singleton, List.map_singleton, hsrc, hdst]
  have hlow := (isLink size kind).run_exact (validPairs size low) sr
  exact kind.exact_step _ _ _ _ _ _ _ _ hlow

/-- What a chain at a size leaves. -/
structure Computes (size : Size) (kind : Kind) (pairs : List (UInt32 × UInt32)) (sr : UInt16)
    (out : List UInt32 × UInt16) : Prop
    extends Chain.Computes (numeral size) kind pairs sr out where
  lt : ∀ digit ∈ out.1, digit.toNat < size.modulus
  overflow : has out.2 V = true ↔ Overflows (size.modulus ^ pairs.length)
    (kind.exact
      (signed (size.modulus ^ pairs.length) ((numeral size).number (pairs.map Prod.fst)))
      (signed (size.modulus ^ pairs.length) ((numeral size).number (pairs.map Prod.snd)))
      (extend sr))
  negative : has out.2 N = true ↔
    size.modulus ^ pairs.length ≤ 2 * (numeral size).number out.1

section Last

variable (size : Size) (kind : Kind) (low : List (UInt32 × UInt32)) (last : UInt32 × UInt32)
  (sr : UInt16)

theorem number_run_lt :
    (numeral size).number (run (link size kind) low sr).1 < size.modulus ^ low.length := by
  have hlt : (numeral size).number (run (link size kind) low sr).1 < _ :=
    (numeral size).number_lt fun _ _ => trivial
  rwa [length_run] at hlt

theorem overflow_append :
    has (run (link size kind) (low ++ [last]) sr).2 V = true ↔
      Overflows (size.modulus ^ (low.length + 1))
        (kind.exact
          (signed (size.modulus ^ (low.length + 1))
            ((numeral size).number ((low ++ [last]).map Prod.fst)))
          (signed (size.modulus ^ (low.length + 1))
            ((numeral size).number ((low ++ [last]).map Prod.snd))) (extend sr)) := by
  have hdigit := digit_link size kind last.1 last.2 (run (link size kind) low sr).2
  have hlow := number_run_lt size kind low sr
  rw [run_append, run_signed, Nat.pow_succ, overflows_append (two_dvd_modulus size) hlow]
  exact hdigit.overflow

theorem negative_append :
    has (run (link size kind) (low ++ [last]) sr).2 N = true ↔
      size.modulus ^ (low.length + 1) ≤
        2 * (numeral size).number (run (link size kind) (low ++ [last]) sr).1 := by
  have hdigit := digit_link size kind last.1 last.2 (run (link size kind) low sr).2
  have hlow := number_run_lt size kind low sr
  have hnumber : (numeral size).number (run (link size kind) (low ++ [last]) sr).1 =
      (numeral size).number (run (link size kind) low sr).1 + size.modulus ^ low.length *
        (link size kind last.1 last.2 (run (link size kind) low sr).2).value.toNat := by
    rw [run_append, Numeral.number_append, length_run, run, run, Numeral.number_cons,
      Numeral.number_nil, read_of_lt hdigit.lt]
    rfl
  rw [hnumber, Nat.pow_succ, ← Nat.not_lt, lower_half_append (two_dvd_modulus size) hlow,
    Nat.not_lt, run_append]
  exact hdigit.negative

end Last

/-- Chains of ADDX, SUBX and NEGX compute with numbers of any length, and read no bit above the
size of a digit. -/
theorem computes_run (size : Size) (kind : Kind) (pairs : List (UInt32 × UInt32)) (sr : UInt16)
    (hne : pairs ≠ []) :
    Computes size kind pairs sr (run (link size kind) pairs sr) ∧
      run (link size kind) (pairs.map fun p => (p.1 &&& size.mask, p.2 &&& size.mask)) sr =
        run (link size kind) pairs sr := by
  have hcomputes := (isLink size kind).computes hne (validPairs size pairs) sr
  obtain ⟨low, last, rfl⟩ : ∃ low last, pairs = low ++ [last] :=
    ⟨pairs.dropLast, pairs.getLast hne, (List.dropLast_concat_getLast hne).symm⟩
  have hlength : (low ++ [last]).length = low.length + 1 := by simp
  have hoverflow := overflow_append size kind low last sr
  have hnegative := negative_append size kind low last sr
  rw [← hlength] at hoverflow hnegative
  exact ⟨⟨hcomputes, run_lt _ sr, hoverflow, hnegative⟩, run_masked _ sr⟩

theorem computes_run_two_words :
    [((0x0001 : UInt32), (0xFFFF : UInt32)), (0x0000, 0x7FFF)] ≠ [] ∧
      run (link .word .sum) [(0x0001, 0xFFFF), (0x0000, 0x7FFF)] Z = ([0x0000, 0x8000], V ||| N) ∧
      Computes .word .sum [(0x0001, 0xFFFF), (0x0000, 0x7FFF)] Z
        (run (link .word .sum) [(0x0001, 0xFFFF), (0x0000, 0x7FFF)] Z) :=
  ⟨List.cons_ne_nil _ _, by decide, (computes_run .word .sum _ Z (List.cons_ne_nil _ _)).1⟩

end Alu

end Mc68k
