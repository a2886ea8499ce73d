import Mc68k.Proofs.Compatibility.Operand

namespace Mc68k

section

variable {a b : UInt16} {low width : Nat}

theorem field_of_field_eq (h : field a low width = field b low width) {low' width' : Nat}
    (hlow : low ≤ low') (hhigh : low' + width' ≤ low + width) :
    field a low' width' = field b low' width' := by
  have hbit (i : Nat) (hi : i < width) :
      a.toBitVec.getLsbD (low + i) = b.toBitVec.getLsbD (low + i) := by
    have hfield := congrArg (·.getLsbD i) (BitVec.eq_of_toNat_eq h)
    simpa [BitVec.getLsbD_extractLsb', hi] using hfield
  rw [field, field]
  congr 1
  apply BitVec.eq_of_getLsbD_eq
  intro i hi
  have hwithin := hbit (low' - low + i) (by omega)
  rw [← Nat.add_assoc, Nat.add_sub_cancel' hlow] at hwithin
  simp only [BitVec.getLsbD_extractLsb', hwithin]

theorem bit_of_field_eq (h : field a low width = field b low width) {i : Nat} (hlow : low ≤ i)
    (hhigh : i < low + width) : bit a i = bit b i := by
  rw [bit, bit, field_of_field_eq h hlow hhigh]

theorem signExtend_byte_of_field_eq (h : field a 0 8 = field b 0 8) :
    signExtend a.toUInt32 .byte = signExtend b.toUInt32 .byte := by
  have hlow : a.toUInt32.toUInt8 = b.toUInt32.toUInt8 := by
    apply UInt8.toNat_inj.mp
    simpa [field] using h
  rw [signExtend, signExtend, hlow]

end

namespace Machine

/-- PC some words on, and nothing else that is new but the bus. -/
def Past (words : Nat) (m m' : Machine) : Prop :=
  m' = { m with
    regs := { m.regs with pc := m.regs.pc + UInt32.ofNat (2 * words) }
    cycles := m'.cycles }

namespace Past

variable {words words' : Nat} {m m' m'' : Machine}

theorem refl (m : Machine) : Past 0 m m := by
  simp [Past]

theorem trans (h : Past words m m') (h' : Past words' m' m'') : Past (words + words') m m'' := by
  rw [Past] at h h' ⊢
  rw [h] at h'
  rw [h']
  simp only [Nat.mul_add, UInt32.ofNat_add, UInt32.add_assoc]

theorem regs (h : Past words m m') :
    m'.regs = { m.regs with pc := m.regs.pc + UInt32.ofNat (2 * words) } := by
  rw [h]

theorem model (h : Past words m m') : m'.model = m.model := by rw [h]

theorem a (h : Past words m m') (n : RegisterNumber) : m'.regs.a n = m.regs.a n := by
  rw [h.regs]
  rfl

theorem dataSpace (h : Past words m m') : m'.dataSpace = m.dataSpace := by
  rw [Machine.dataSpace, h.regs]
  rfl

theorem programSpace (h : Past words m m') : m'.programSpace = m.programSpace := by
  rw [Machine.programSpace, h.regs]
  rfl

end Past

theorem index_congr {m : Machine} {ext ext' : UInt16} (hregister : field ext 12 4 = field ext' 12 4)
    (hlong : bit ext 11 = bit ext' 11)
    (hscale : m.model.hasFullExtension = true → field ext 9 2 = field ext' 9 2) :
    m.index ext = m.index ext' := by
  rw [index, index, hregister, hlong]
  cases hfull : m.model.hasFullExtension with
  | false => rfl
  | true => rw [hscale hfull]

end Machine

namespace Exec

open Machine FullExtension

variable {m m' : Machine}

theorem past_of_fetchWord {word : UInt16} (h : fetchWord m = .ok word m') : m.Past 1 m' := by
  obtain ⟨bytes, -, -, -, rfl⟩ := fetchWord_eq_ok h
  rfl

inductive Fetches : Machine → List UInt16 → Machine → Prop
  | nil (m : Machine) : Fetches m [] m
  | cons {m m' m'' : Machine} {word : UInt16} {words : List UInt16}
    (h : fetchWord m = .ok word m') (hrest : Fetches m' words m'') :
    Fetches m (word :: words) m''

theorem Fetches.past {words : List UInt16} (h : Fetches m words m') :
    m.Past words.length m' := by
  induction h with
  | nil m => exact .refl m
  | cons h hrest ih =>
    rw [List.length_cons, Nat.add_comm]
    exact (past_of_fetchWord h).trans ih

/-- The displacement that no word, a word or two words spell. -/
def spelled : List UInt16 → UInt32
  | [] => 0
  | [word] => signExtend word.toUInt32 .word
  | high :: low :: _ => (high.toUInt32 <<< 16) ||| low.toUInt32

theorem fetchDisplacement_of_fetches {words : List UInt16} (h : Fetches m words m')
    (hlength : words.length < 3) :
    fetchDisplacement (words.length + 1) m = .ok (spelled words) m' := by
  match words, h with
  | [], .nil _ => rfl
  | [word], .cons h (.nil _) =>
    rw [List.length_singleton, fetchDisplacement, fetchSignedWord, bind_ok h]
    rfl
  | [high, low], .cons h (.cons h' (.nil _)) =>
    rw [List.length_cons, List.length_singleton, fetchDisplacement, fetchLong, bind_ok h,
      bind_ok h']
    · rfl
    · simp
    · simp

/-- The address of an index word that has been taken, and whether it was read from memory. -/
def followIndexWord (ext : UInt16) (base : Address) (space : FunctionCode) :
    Exec (Address × Bool) := do
  let m ← get
  if bit ext 8 && m.model.hasFullExtension then resolveFull ext base space
  else pure (base + signExtend ext.toUInt32 .byte + m.index ext, false)

/-- What an index is added to: An, or the address of the index word, which PC has just passed. -/
def indexBase (ea : AddressingMode) (m : Machine) : Address :=
  match ea with
  | .indexed n => m.regs.a n
  | _ => m.regs.pc - 2

def indexSpace (ea : AddressingMode) (m : Machine) : FunctionCode :=
  if ea.isPcRelative then m.programSpace else m.dataSpace

def indexPlace (ea : AddressingMode) (found : Address × Bool) : Location :=
  if ea.isPcRelative && !found.2 then .program found.1 else .memory found.1

def resolveIndexWord (ea : AddressingMode) (ext : UInt16) : Exec Location := do
  let m ← get
  let found ← followIndexWord ext (indexBase ea m) (indexSpace ea m)
  pure (indexPlace ea found)

variable {ea : AddressingMode}

theorem resolve_eq_resolveIndexWord (hindexed : ea.isIndexed = true) (size : Size) (m : Machine) :
    resolve ea size m = (do resolveIndexWord ea (← fetchWord)) m := by
  cases ea with
  | indexed n =>
    have hrun : resolve (.indexed n) size m = (do
        let found ← resolveIndexed (m.regs.a n) m.dataSpace
        pure (indexPlace (.indexed n) found)) m := rfl
    rw [hrun, resolveIndexed, bind_assoc]
    refine bind_congr fun ext m₁ h => ?_
    have hpast := past_of_fetchWord h
    rw [← hpast.a n, ← hpast.dataSpace]
    rfl
  | pcIndexed =>
    have hrun : resolve .pcIndexed size m = (do
        let found ← resolveIndexed m.regs.pc m.programSpace
        pure (indexPlace .pcIndexed found)) m := by
      change (do
        let found ← resolveIndexed m.regs.pc m.programSpace
        pure (if found.2 then Location.memory found.1 else .program found.1)) m = _
      refine bind_congr fun found m₁ _ => ?_
      rw [indexPlace]
      cases found.2 <;> rfl
    rw [hrun, resolveIndexed, bind_assoc]
    refine bind_congr fun ext m₁ h => ?_
    have hpast := past_of_fetchWord h
    have hpc : m₁.regs.pc - 2 = m.regs.pc := by
      rw [hpast.regs]
      exact UInt32.add_sub_cancel _ _
    rw [← hpc, ← hpast.programSpace]
    rfl
  | _ => cases hindexed

/-- The place of an index word without pointers. -/
def directPlace (ea : AddressingMode) (ext : UInt16) (displacement : UInt32) (m : Machine) :
    Location :=
  indexPlace ea (indexBase ea m + displacement + m.index ext, false)

theorem resolveIndexWord_of_brief {ext : UInt16}
    (h : (bit ext 8 && m.model.hasFullExtension) = false) : resolveIndexWord ea ext m =
      .ok (directPlace ea ext (signExtend ext.toUInt32 .byte) m) m := by
  rw [resolveIndexWord, bind_get, followIndexWord, bind_assoc, bind_get, if_neg (by simp [h])]
  rfl

theorem resolveIndexWord_of_full {ext : UInt16} (hbit : bit ext 8 = true)
    (hfull : m.model.hasFullExtension = true) : resolveIndexWord ea ext m = (do
      let found ← resolveFull ext (indexBase ea m) (indexSpace ea m)
      pure (indexPlace ea found)) m := by
  rw [resolveIndexWord, bind_get, followIndexWord, bind_assoc, bind_get,
    if_pos (by simp [hbit, hfull])]

end Exec

namespace FullExtension

/-- A full index word and the words after it that say what a brief one says. -/
structure Widens (brief full : UInt16) (words : List UInt16) : Prop where
  isBrief : bit brief 8 = false
  isFull : bit full 8 = true
  index : field full 9 7 = field brief 9 7
  base_kept : suppressesBase full = false
  index_kept : suppressesIndex full = false
  direct : indirection full = 0
  size : baseSize full = words.length + 1
  displacement : Exec.spelled words = signExtend brief.toUInt32 .byte

/-- Full index words that differ in where their index is added: before the indirection or after. -/
structure Swaps (pre post : UInt16) : Prop where
  isFull : bit pre 8 = true
  same : field post 3 13 = field pre 3 13
  index_kept : suppressesIndex pre = false
  before : 1 ≤ indirection pre ∧ indirection pre ≤ 3
  after : indirection post = indirection pre + 4

end FullExtension

namespace Exec

open Machine FullExtension

variable {m m' m₁ m₂ : Machine} {ea : AddressingMode}

theorem directPlace_congr (hmodel : m'.model = m.model) (hregs : m'.regs = m.regs) (ext : UInt16)
    (displacement : UInt32) : directPlace ea ext displacement m' =
      directPlace ea ext displacement m := by
  have hbase : indexBase ea m' = indexBase ea m := by
    rw [indexBase.eq_def, indexBase.eq_def, hregs]
  rw [directPlace, directPlace, hbase, Machine.index, Machine.index, hmodel, hregs]

theorem resolveFull_of_direct {ext : UInt16} {words : List UInt16}
    (hbase : suppressesBase ext = false) (hindex : suppressesIndex ext = false)
    (hdirect : indirection ext = 0) (hsize : baseSize ext = words.length + 1)
    (hwords : Fetches m words m') (base : Address) (space : FunctionCode) :
    resolveFull ext base space m = .ok (base + spelled words + m.index ext, false) m' := by
  have hlt : baseSize ext < 4 := (ext.toBitVec.extractLsb' 4 2).isLt
  have hfetch := fetchDisplacement_of_fetches hwords (by omega)
  rw [resolveFull, bind_get]
  simp only [hbase, hindex, hdirect, hsize, Bool.false_eq_true, if_false, if_true,
    Nat.add_eq_zero_iff, Nat.one_ne_zero, and_false]
  rw [bind_ok hfetch]
  rfl

theorem resolveIndexWord_of_widens {brief full : UInt16} {words : List UInt16}
    (hfull : m.model.hasFullExtension = true) (h : Widens brief full words)
    (hwords : Fetches m words m') : resolveIndexWord ea full m =
      .ok (directPlace ea brief (signExtend brief.toUInt32 .byte) m) m' := by
  have hindex : m.index full = m.index brief := by
    refine index_congr ?_ ?_ fun _ => ?_
    · exact field_of_field_eq h.index (by omega) (by omega)
    · exact bit_of_field_eq h.index (by omega) (by omega)
    · exact field_of_field_eq h.index (by omega) (by omega)
  have hresolve := resolveFull_of_direct h.base_kept h.index_kept h.direct h.size hwords
    (indexBase ea m) (indexSpace ea m)
  rw [resolveIndexWord_of_full h.isFull hfull, bind_ok hresolve, h.displacement, hindex]
  rfl

theorem resolveFull_of_swaps {pre post : UInt16} (h : Swaps pre post) (hzero : m.index pre = 0)
    (base : Address) (space : FunctionCode) :
    resolveFull post base space m = resolveFull pre base space m := by
  obtain ⟨hfirst, hlast⟩ := h.before
  have hbase : suppressesBase post = suppressesBase pre :=
    bit_of_field_eq h.same (by omega) (by omega)
  have hkept : suppressesIndex post = suppressesIndex pre :=
    bit_of_field_eq h.same (by omega) (by omega)
  have hsize : baseSize post = baseSize pre := field_of_field_eq h.same (by omega) (by omega)
  have hindex : m.index post = 0 := by
    rw [← hzero]
    refine index_congr ?_ ?_ fun _ => ?_
    · exact field_of_field_eq h.same (by omega) (by omega)
    · exact bit_of_field_eq h.same (by omega) (by omega)
    · exact field_of_field_eq h.same (by omega) (by omega)
  have hpre : isReserved pre = false := by
    simp [isReserved, h.index_kept]
    omega
  have hpost : isReserved post = false := by
    simp [isReserved, hkept, h.index_kept, h.after]
    omega
  have houter : (indirection pre + 4) % 4 = indirection pre % 4 := by omega
  rw [resolveFull, resolveFull, bind_get, bind_get]
  simp only [hbase, hkept, h.index_kept, hsize, hindex, hzero, hpre, hpost, h.after, houter,
    Bool.false_eq_true, if_false, UInt32.add_zero, if_neg (show ¬indirection pre > 4 by omega),
    if_pos (show indirection pre + 4 > 4 by omega),
    if_neg (show ¬indirection pre = 0 by omega), if_neg (show ¬indirection pre + 4 = 0 by omega)]

theorem resolveIndexWord_of_swaps {pre post : UInt16} (hfull : m.model.hasFullExtension = true)
    (h : Swaps pre post) (hzero : m.index pre = 0) :
    resolveIndexWord ea post m = resolveIndexWord ea pre m := by
  have hbit : bit post 8 = true := by
    rw [bit_of_field_eq h.same (by omega) (by omega), h.isFull]
  rw [resolveIndexWord_of_full h.isFull hfull, resolveIndexWord_of_full hbit hfull,
    bind_eq_of_eq (resolveFull_of_swaps h hzero _ _)]

/-- Without the full format only the displacement, the register and its size count. -/
theorem directPlace_of_early {ext ext' : UInt16} (hearly : m.model.hasFullExtension = false)
    (hlow : field ext' 0 8 = field ext 0 8) (hhigh : field ext' 11 5 = field ext 11 5) :
    directPlace ea ext' (signExtend ext'.toUInt32 .byte) m =
      directPlace ea ext (signExtend ext.toUInt32 .byte) m := by
  have hindex : m.index ext' = m.index ext := by
    refine index_congr ?_ ?_ fun hfull => ?_
    · exact field_of_field_eq hhigh (by omega) (by omega)
    · exact bit_of_field_eq hhigh (by omega) (by omega)
    · simp [hearly] at hfull
  rw [directPlace, directPlace, hindex, signExtend_byte_of_field_eq hlow]

section

variable {ext : UInt16} {words : List UInt16}

theorem resolve_of_fetches (hindexed : ea.isIndexed = true) (size : Size)
    (h : Fetches m (ext :: words) m') : ∃ m₁, fetchWord m = .ok ext m₁ ∧ Fetches m₁ words m' ∧
      resolve ea size m = resolveIndexWord ea ext m₁ := by
  cases h with
  | cons h hrest =>
    refine ⟨_, h, hrest, ?_⟩
    rw [resolve_eq_resolveIndexWord hindexed, bind_ok h]

theorem resolve_of_brief (hindexed : ea.isIndexed = true) (size : Size)
    (hbrief : (bit ext 8 && m.model.hasFullExtension) = false) (h : Fetches m [ext] m') :
    resolve ea size m = .ok (directPlace ea ext (signExtend ext.toUInt32 .byte) m') m' := by
  obtain ⟨m₁, hfetch, hnil, hresolve⟩ := resolve_of_fetches hindexed size h
  cases hnil
  rw [hresolve, resolveIndexWord_of_brief]
  rw [(past_of_fetchWord hfetch).model, hbrief]

end

/-- On a model with the full format, a brief word and a full one that widens it lead to the same
place, and an index of zero may be added before the indirection or after. On a model without it,
bits 8 to 10 do not matter. -/
theorem resolve_indexWords (hindexed : ea.isIndexed = true) (size : Size) (m : Machine) :
    resolve ea size m = (do resolveIndexWord ea (← fetchWord)) m ∧
    (m.model.hasFullExtension = true →
      (∀ m' m₁ m₂ brief full words, m'.model = m.model → m'.regs = m.regs →
        Widens brief full words → Fetches m [brief] m₁ → Fetches m' (full :: words) m₂ →
        ∃ location, resolve ea size m = .ok location m₁ ∧ resolve ea size m' = .ok location m₂ ∧
          m₂.regs = { m₁.regs with pc := m₁.regs.pc + UInt32.ofNat (2 * words.length) }) ∧
      ∀ pre post, Swaps pre post → m.index pre = 0 →
        resolveIndexWord ea post m = resolveIndexWord ea pre m) ∧
    (m.model.hasFullExtension = false →
      ∀ m' m₁ m₂ ext ext', m'.model = m.model → m'.regs = m.regs →
        field ext' 0 8 = field ext 0 8 → field ext' 11 5 = field ext 11 5 →
        Fetches m [ext] m₁ → Fetches m' [ext'] m₂ →
        ∃ location, resolve ea size m = .ok location m₁ ∧ resolve ea size m' = .ok location m₂ ∧
          m₂.regs = m₁.regs) := by
  have hpast {m m' m₁ m₂ : Machine} {n : Nat} (hregs : m'.regs = m.regs) (h₁ : m.Past 1 m₁)
      (h₂ : m'.Past (n + 1) m₂) :
      m₂.regs = { m₁.regs with pc := m₁.regs.pc + UInt32.ofNat (2 * n) } := by
    rw [h₁.regs, h₂.regs, hregs, Nat.mul_add, Nat.add_comm, UInt32.ofNat_add, ← UInt32.add_assoc]
  refine ⟨resolve_eq_resolveIndexWord hindexed size m, fun hfull => ⟨?_, ?_⟩, ?_⟩
  · intro m' m₁ m₂ brief full words hmodel hregs h hbrief hwords
    obtain ⟨m₃, hfetch, hrest, hresolve⟩ := resolve_of_fetches hindexed size hwords
    have hnext := past_of_fetchWord hfetch
    have hmodels : m₁.model = m₃.model := by rw [hbrief.past.model, hnext.model, hmodel]
    have hsame : m₁.regs = m₃.regs := by
      rw [hbrief.past.regs, hnext.regs, hregs]
      rfl
    refine ⟨_, resolve_of_brief hindexed size (by simp [h.isBrief]) hbrief, ?_,
      hpast hregs hbrief.past hwords.past⟩
    rw [hresolve, resolveIndexWord_of_widens (by rw [hnext.model, hmodel, hfull]) h hrest,
      directPlace_congr hmodels hsame]
  · intro pre post h hzero
    exact resolveIndexWord_of_swaps hfull h hzero
  · intro hearly m' m₁ m₂ ext ext' hmodel hregs hlow hhigh h h'
    have hmodels : m₂.model = m₁.model := by rw [h'.past.model, h.past.model, hmodel]
    have hsame : m₂.regs = m₁.regs := by
      rw [h'.past.regs, h.past.regs, hregs]
      rfl
    have hearly₁ : m₁.model.hasFullExtension = false := by rw [h.past.model, hearly]
    refine ⟨_, resolve_of_brief hindexed size (by simp [hearly]) h, ?_, hsame⟩
    rw [resolve_of_brief hindexed size (by simp [hmodel, hearly]) h',
      directPlace_congr hmodels hsame, directPlace_of_early hearly₁ hlow hhigh]

/-- Index D1.L*2 from PC in a brief and in a full word, a pointer at PC with an index of zero, and
scale 2 on the 68000. -/
theorem resolve_indexWords_pcIndexed :
    let at_ (model : Model) (bytes : List UInt8) : Machine :=
      { Machine.new model ((Memory.flat (.new 64 0)).patch 16 bytes) with
        regs := { Registers.initial.setD .one 10 with pc := 16 } }
    let brief := at_ .m68020 [0x1A, 0xFE]
    let full := at_ .m68020 [0x1B, 0x20, 0xFF, 0xFE]
    (∃ m₁ m₂, resolve .pcIndexed .word brief = .ok (.program 34) m₁ ∧
        resolve .pcIndexed .word full = .ok (.program 34) m₂ ∧ m₂.regs.pc = 20) ∧
      ((resolveIndexWord .pcIndexed 0x0911 full matches .ok (.memory _) _) = true ∧
        resolveIndexWord .pcIndexed 0x0915 full = resolveIndexWord .pcIndexed 0x0911 full) ∧
      ∃ m₁ m₂, resolve .pcIndexed .word (at_ .m68000 [0x1A, 0xFE]) = .ok (.program 24) m₁ ∧
        resolve .pcIndexed .word (at_ .m68000 [0x1D, 0xFE]) = .ok (.program 24) m₂ := by
  intro at_ brief full
  have hfetch (m : Machine) (bytes : List UInt8) (heven : m.regs.pc &&& 1 = 0)
      (hview : m.memory.view? m.regs.pc 2 m.programSpace .read = some bytes) :=
    fetchWord_of_view? heven hview
  have hbrief := hfetch brief [0x1A, 0xFE] (by decide) (by decide +kernel)
  have hfull := hfetch full [0x1B, 0x20] (by decide) (by decide +kernel)
  have hword := hfetch { full with
      regs := { full.regs with pc := full.regs.pc + 2 }
      cycles := full.cycle full.regs.pc 2 full.programSpace .read :: full.cycles }
    [0xFF, 0xFE] (by decide) (by decide +kernel)
  have hplain := hfetch (at_ .m68000 [0x1A, 0xFE]) [0x1A, 0xFE] (by decide) (by decide +kernel)
  have hscaled := hfetch (at_ .m68000 [0x1D, 0xFE]) [0x1D, 0xFE] (by decide) (by decide +kernel)
  have hindexed : AddressingMode.pcIndexed.isIndexed = true := rfl
  obtain ⟨-, hlater, -⟩ := resolve_indexWords hindexed .word brief
  obtain ⟨-, hlater', -⟩ := resolve_indexWords hindexed .word full
  obtain ⟨-, -, hearly⟩ := resolve_indexWords hindexed .word (at_ .m68000 [0x1A, 0xFE])
  have hwidens : Widens 0x1AFE 0x1B20 [0xFFFE] := by constructor <;> decide
  have hswaps : Swaps 0x0911 0x0915 := by constructor <;> decide
  refine ⟨?_, ⟨by decide +kernel, (hlater' rfl).2 _ _ hswaps (by decide +kernel)⟩, ?_⟩
  · obtain ⟨location, h, h', hregs⟩ := (hlater rfl).1 full _ _ _ _ _ rfl rfl hwidens
      (.cons hbrief (.nil _)) (.cons hfull (.cons hword (.nil _)))
    have hplace : ((resolve .pcIndexed .word).result? brief).map Prod.fst =
        some (.program 34) := by decide +kernel
    rw [result?_of_ok h] at hplace
    obtain rfl : location = .program 34 := Option.some.inj hplace
    exact ⟨_, _, h, h', congrArg (·.pc) hregs⟩
  · obtain ⟨location, h, h', -⟩ := hearly rfl (at_ .m68000 [0x1D, 0xFE]) _ _ 0x1AFE 0x1DFE rfl rfl
      (by decide) (by decide) (.cons hplain (.nil _)) (.cons hscaled (.nil _))
    have hplace : ((resolve .pcIndexed .word).result? (at_ .m68000 [0x1A, 0xFE])).map Prod.fst =
        some (.program 24) := by decide +kernel
    rw [result?_of_ok h] at hplace
    obtain rfl : location = .program 24 := Option.some.inj hplace
    exact ⟨_, _, h, h'⟩

end Exec

end Mc68k
