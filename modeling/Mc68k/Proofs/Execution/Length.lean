import Mc68k.Proofs.Execution.IndexWord
import Mc68k.Proofs.Movem.Place

namespace Mc68k

def branchWords (op : Opcode) (model : Model) : Nat :=
  if field op 0 8 = 0 then 1
  else if field op 0 8 = 0xFF ∧ model.hasFullExtension then 2
  else 0

/-- The words of the displacements of a full index word. -/
def FullExtension.words (ext : UInt16) : Nat :=
  baseSize ext - 1 + if indirection ext = 0 then 0 else indirection ext % 4 - 1

/-- The word at PC, or zero if none can be fetched. -/
def Machine.nextWord (m : Machine) : UInt16 :=
  ((m.memory.view? m.regs.pc 2 m.programSpace .read).elim 0 ofBigEndian).toUInt16

def Machine.indexedLength (m : Machine) : Nat :=
  if bit m.nextWord 8 && m.model.hasFullExtension then 1 + FullExtension.words m.nextWord else 1

def AddressingMode.words (m : Machine) : AddressingMode → Nat
  | displacement _ | absoluteShort | pcDisplacement => 1
  | absoluteLong => 2
  | indexed _ | pcIndexed => m.indexedLength
  | _ => 0

namespace Exec

open Machine FullExtension

variable {m m' : Machine}

theorem nextWord_of_fetchWord {word : UInt16} (h : fetchWord m = .ok word m') :
    m.nextWord = word := by
  obtain ⟨bytes, -, hview, rfl, -⟩ := fetchWord_eq_ok h
  rw [nextWord, hview]
  rfl

theorem past_of_fetchLong {value : UInt32} (h : fetchLong m = .ok value m') : m.Past 2 m' := by
  obtain ⟨high, m₁, h₁, h⟩ := exists_of_bind_ok h
  obtain ⟨low, m₂, h₂, h⟩ := exists_of_bind_ok h
  obtain ⟨-, rfl⟩ := EStateM.Result.ok.inj h
  have hpast := (past_of_fetchWord h₁).trans (past_of_fetchWord h₂)
  exact hpast

theorem past_of_fetchSignedWord {value : UInt32} (h : fetchSignedWord m = .ok value m') :
    m.Past 1 m' := by
  obtain ⟨word, hword, -⟩ := eq_of_bind_pure h
  exact past_of_fetchWord hword

theorem past_of_fetchDisplacement {size : Nat} {value : UInt32} (hpos : size ≠ 0) (hlt : size < 4)
    (h : fetchDisplacement size m = .ok value m') : m.Past (size - 1) m' := by
  match size, hpos, hlt with
  | 1, _, _ =>
    obtain ⟨-, rfl⟩ := EStateM.Result.ok.inj h
    exact .refl m
  | 2, _, _ => exact past_of_fetchSignedWord h
  | 3, _, _ => exact past_of_fetchLong h

theorem past_of_read {addr : Address} {size : Size} {fc : FunctionCode} {value : UInt32}
    (h : Exec.read addr size fc m = .ok value m') : m.Past 0 m' := by
  obtain ⟨-, hread⟩ | ⟨-, -, hread⟩ | ⟨bytes, -, -, hread⟩ := read_cases addr size fc m
  · rw [hread] at h
    cases h
  · rw [hread] at h
    cases h
  · rw [hread] at h
    obtain ⟨-, rfl⟩ := EStateM.Result.ok.inj h
    simp [Past]

theorem past_of_resolveFull {ext : UInt16} {base : Address} {space : FunctionCode}
    {found : Address × Bool} (h : resolveFull ext base space m = .ok found m') :
    m.Past (words ext) m' := by
  have hbase : baseSize ext < 4 := (ext.toBitVec.extractLsb' 4 2).isLt
  have hindirection : indirection ext < 8 := (ext.toBitVec.extractLsb' 0 3).isLt
  rw [resolveFull, bind_get] at h
  by_cases hsize : baseSize ext = 0
  · simp only [hsize, if_true] at h
    cases h
  simp only [hsize, if_false] at h
  obtain ⟨displacement, m₁, h₁, h⟩ := exists_of_bind_ok h
  have hfirst := past_of_fetchDisplacement hsize hbase h₁
  rw [words]
  by_cases hdirect : indirection ext = 0
  · simp only [hdirect, if_true] at h ⊢
    obtain ⟨-, rfl⟩ := EStateM.Result.ok.inj h
    exact hfirst
  cases hreserved : isReserved ext with
  | true =>
    simp only [hdirect, hreserved, if_true, if_false] at h
    cases h
  | false =>
    have hfour : indirection ext ≠ 4 := by
      intro heq
      simp [isReserved, heq] at hreserved
    simp only [hdirect, hreserved, Bool.false_eq_true, if_false] at h ⊢
    obtain ⟨outer, m₂, h₂, h⟩ := exists_of_bind_ok h
    have hsecond := past_of_fetchDisplacement (by omega) (by omega) h₂
    obtain ⟨addr, pointer, hread⟩ : ∃ addr pointer,
        Exec.read addr .long space m₂ = .ok pointer m' := by
      by_cases hpost : indirection ext > 4
      · simp only [hpost, if_true] at h
        obtain ⟨pointer, hread, -⟩ := eq_of_bind_pure h
        exact ⟨_, pointer, hread⟩
      · simp only [hpost, if_false] at h
        obtain ⟨pointer, hread, -⟩ := eq_of_bind_pure h
        exact ⟨_, pointer, hread⟩
    have hpast := (hfirst.trans hsecond).trans (past_of_read hread)
    rw [Nat.add_zero] at hpast
    exact hpast

theorem past_of_resolveIndexed {base : Address} {space : FunctionCode} {found : Address × Bool}
    (h : resolveIndexed base space m = .ok found m') : m.Past m.indexedLength m' := by
  obtain ⟨ext, m₁, h₁, h⟩ := exists_of_bind_ok h
  have hpast := past_of_fetchWord h₁
  have hrun : (if bit ext 8 && m₁.model.hasFullExtension then resolveFull ext base space
      else pure (base + signExtend ext.toUInt32 .byte + m₁.index ext, false)) m₁ = .ok found m' := h
  rw [indexedLength, nextWord_of_fetchWord h₁, ← hpast.model]
  by_cases hfull : (bit ext 8 && m₁.model.hasFullExtension) = true
  · rw [if_pos hfull] at hrun ⊢
    exact hpast.trans (past_of_resolveFull hrun)
  · rw [if_neg hfull] at hrun ⊢
    obtain ⟨-, rfl⟩ := EStateM.Result.ok.inj hrun
    exact hpast

theorem past_of_resolve {ea : AddressingMode} {size : Size} {location : Location}
    (hcontrol : ea.isControl = true) (h : resolve ea size m = .ok location m') :
    m.Past (ea.words m) m' := by
  cases ea with
  | indirect n =>
    obtain ⟨-, rfl⟩ := EStateM.Result.ok.inj h
    exact .refl m
  | displacement n =>
    obtain ⟨d, m₁, h₁, h⟩ := exists_of_bind_ok h
    obtain ⟨-, rfl⟩ := EStateM.Result.ok.inj h
    exact past_of_fetchSignedWord h₁
  | indexed n =>
    obtain ⟨found, m₁, h₁, h⟩ := exists_of_bind_ok (x := resolveIndexed (m.regs.a n) m.dataSpace) h
    obtain ⟨-, rfl⟩ := EStateM.Result.ok.inj h
    exact past_of_resolveIndexed h₁
  | absoluteShort =>
    obtain ⟨addr, haddr, -⟩ := eq_of_bind_pure h
    exact past_of_fetchSignedWord haddr
  | absoluteLong =>
    obtain ⟨addr, haddr, -⟩ := eq_of_bind_pure h
    exact past_of_fetchLong haddr
  | pcDisplacement =>
    obtain ⟨d, m₁, h₁, h⟩ := exists_of_bind_ok (x := fetchSignedWord) h
    obtain ⟨-, rfl⟩ := EStateM.Result.ok.inj h
    exact past_of_fetchSignedWord h₁
  | pcIndexed =>
    obtain ⟨found, m₁, h₁, h⟩ := exists_of_bind_ok (x := resolveIndexed m.regs.pc m.programSpace) h
    obtain ⟨-, rfl⟩ := EStateM.Result.ok.inj h
    exact past_of_resolveIndexed h₁
  | _ => cases hcontrol

theorem past_of_fetchControlAddress {op : Opcode} {ea : AddressingMode} {size : Size}
    {target : Address} (hea : AddressingMode.ofOpcode? op = some ea)
    (hcontrol : ea.isControl = true) (h : fetchControlAddress op size m = .ok target m') :
    m.Past (ea.words m) m' := by
  rw [fetchControlAddress, resolveMode, hea] at h
  obtain ⟨location, m₁, hresolve, h⟩ := exists_of_bind_ok h
  cases haddr : location.address? with
  | none =>
    rw [haddr] at h
    cases h
  | some addr =>
    rw [haddr] at h
    obtain ⟨-, rfl⟩ := EStateM.Result.ok.inj h
    exact past_of_resolve hcontrol hresolve

theorem past_of_fetchBranchTarget {op : Opcode} {target : Address}
    (h : fetchBranchTarget op m = .ok target m') : m.Past (branchWords op m.model) m' := by
  rw [fetchBranchTarget, bind_get] at h
  rw [branchWords]
  split at h
  next hword =>
    obtain ⟨d, m₁, h₁, h⟩ := exists_of_bind_ok h
    obtain ⟨-, rfl⟩ := EStateM.Result.ok.inj h
    rw [if_pos hword]
    exact past_of_fetchSignedWord h₁
  next hword =>
    rw [if_neg hword]
    split at h
    next hlong =>
      obtain ⟨d, m₁, h₁, h⟩ := exists_of_bind_ok h
      obtain ⟨-, rfl⟩ := EStateM.Result.ok.inj h
      rw [if_pos hlong]
      exact past_of_fetchLong h₁
    next hlong =>
      obtain ⟨-, rfl⟩ := EStateM.Result.ok.inj h
      rw [if_neg hlong]
      exact .refl m

end Exec

end Mc68k
