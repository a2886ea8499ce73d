import Mc68k.Proofs.Status
import Mc68k.Registers

namespace Mc68k

namespace Registers

theorem sr_setSp (r : Registers) (value : UInt32) : (r.setSp value).sr = r.sr := by
  rw [setSp]
  split <;> rfl

theorem sr_setA (r : Registers) (n : RegisterNumber) (value : UInt32) :
    (r.setA n value).sr = r.sr := by
  rw [setA]
  split
  · rfl
  · exact r.sr_setSp value

/-- Equal in all that takes a privileged instruction or an exception to change. -/
structure SameSystem (r r' : Registers) : Prop where
  status : Status.system r'.sr = Status.system r.sr
  usp : r.isSupervisor = true → r'.usp = r.usp
  ssp : r.isSupervisor = false → r'.ssp = r.ssp
  vbr : r'.vbr = r.vbr
  sfc : r'.sfc = r.sfc
  dfc : r'.dfc = r.dfc
  cacr : r'.cacr = r.cacr
  caar : r'.caar = r.caar
  msp : r'.msp = r.msp

namespace SameSystem

theorem refl (r : Registers) : SameSystem r r :=
  ⟨rfl, fun _ => rfl, fun _ => rfl, rfl, rfl, rfl, rfl, rfl, rfl⟩

theorem isSupervisor {r r' : Registers} (h : SameSystem r r') :
    r'.isSupervisor = r.isSupervisor :=
  Status.has_S_of_system_eq h.status

theorem trans {r r' r'' : Registers} (h : SameSystem r r') (h' : SameSystem r' r'') :
    SameSystem r r'' where
  status := h'.status.trans h.status
  usp hs := (h'.usp (h.isSupervisor.trans hs)).trans (h.usp hs)
  ssp hs := (h'.ssp (h.isSupervisor.trans hs)).trans (h.ssp hs)
  vbr := h'.vbr.trans h.vbr
  sfc := h'.sfc.trans h.sfc
  dfc := h'.dfc.trans h.dfc
  cacr := h'.cacr.trans h.cacr
  caar := h'.caar.trans h.caar
  msp := h'.msp.trans h.msp

theorem setD (r : Registers) (n : RegisterNumber) (value : UInt32) :
    SameSystem r (r.setD n value) :=
  ⟨rfl, fun _ => rfl, fun _ => rfl, rfl, rfl, rfl, rfl, rfl, rfl⟩

theorem setSp (r : Registers) (value : UInt32) : SameSystem r (r.setSp value) := by
  cases hs : r.isSupervisor with
  | false =>
    simp only [Registers.setSp, hs, Bool.false_eq_true, if_false]
    exact ⟨rfl, fun h => by simp [hs] at h, fun _ => rfl, rfl, rfl, rfl, rfl, rfl, rfl⟩
  | true =>
    simp only [Registers.setSp, hs, if_true]
    exact ⟨rfl, fun _ => rfl, fun h => by simp [hs] at h, rfl, rfl, rfl, rfl, rfl, rfl⟩

theorem setA (r : Registers) (n : RegisterNumber) (value : UInt32) :
    SameSystem r (r.setA n value) := by
  rw [Registers.setA]
  split
  · exact ⟨rfl, fun _ => rfl, fun _ => rfl, rfl, rfl, rfl, rfl, rfl, rfl⟩
  · exact setSp r value

theorem setGeneral (r : Registers) (index : Nat) (value : UInt32) :
    SameSystem r (r.setGeneral index value) := by
  rw [Registers.setGeneral]
  split
  · exact setD r _ value
  · exact setA r _ value

theorem withPc (r : Registers) (pc : UInt32) : SameSystem r { r with pc } :=
  ⟨rfl, fun _ => rfl, fun _ => rfl, rfl, rfl, rfl, rfl, rfl, rfl⟩

theorem withSr (r : Registers) (sr : UInt16) (h : Status.system sr = Status.system r.sr) :
    SameSystem r { r with sr } :=
  ⟨h, fun _ => rfl, fun _ => rfl, rfl, rfl, rfl, rfl, rfl, rfl⟩

theorem setCcr (r : Registers) (value : UInt16) : SameSystem r (r.setCcr value) :=
  withSr r _ (Status.system_withCcr r.sr value)

end SameSystem

theorem isSupervisor_setSp (r : Registers) (value : UInt32) :
    (r.setSp value).isSupervisor = r.isSupervisor :=
  (SameSystem.setSp r value).isSupervisor

theorem sp_setSp (r : Registers) (value : UInt32) : (r.setSp value).sp = value := by
  rw [sp, isSupervisor_setSp, setSp]
  split <;> rfl

theorem setSp_sp (r : Registers) : r.setSp r.sp = r := by
  rw [setSp, sp]
  split <;> rfl

theorem setSp_setSp (r : Registers) (x y : UInt32) : (r.setSp x).setSp y = r.setSp y := by
  rw [setSp, isSupervisor_setSp, setSp, setSp]
  split <;> rfl

theorem setSp_of_pc (r : Registers) (pc x : UInt32) :
    ({ r with pc } : Registers).setSp x = { r.setSp x with pc } := by
  have hs : ({ r with pc } : Registers).isSupervisor = r.isSupervisor := rfl
  rw [setSp, setSp, hs]
  cases r.isSupervisor <;> rfl

theorem a_setA_self (r : Registers) (n : RegisterNumber) (value : UInt32) :
    (r.setA n value).a n = value := by
  by_cases h : n.val < 7
  · simp [setA, a, h]
  · rw [setA, dif_neg h, a, dif_neg h, sp_setSp]

theorem a_setA_of_ne (r : Registers) {n k : RegisterNumber} (h : k.val ≠ n.val) (value : UInt32) :
    (r.setA n value).a k = r.a k := by
  have hn := n.isLt
  have hk := k.isLt
  by_cases hn7 : n.val < 7
  · by_cases hk7 : k.val < 7
    · simp [setA, a, hn7, hk7, Ne.symm h]
    · simp only [setA, a, dif_pos hn7, dif_neg hk7]
      rfl
  · have hk7 : k.val < 7 := by omega
    cases hs : r.isSupervisor <;> simp [setA, a, hn7, hk7, setSp, hs]

theorem setA_a (r : Registers) (n : RegisterNumber) : r.setA n (r.a n) = r := by
  rw [setA, a]
  split
  · rw [Vector.set_getElem_self]
  · exact r.setSp_sp

theorem setA_setA (r : Registers) (n : RegisterNumber) (x y : UInt32) :
    (r.setA n x).setA n y = r.setA n y := by
  by_cases h : n.val < 7
  · simp only [setA, dif_pos h, Vector.set_set]
  · simp only [setA, dif_neg h, setSp_setSp]

theorem setA_comm (r : Registers) {n k : RegisterNumber} (h : k.val ≠ n.val) (x y : UInt32) :
    (r.setA n x).setA k y = (r.setA k y).setA n x := by
  have hn := n.isLt
  have hk := k.isLt
  by_cases hn7 : n.val < 7
  · by_cases hk7 : k.val < 7
    · simp only [setA, dif_pos hn7, dif_pos hk7, Vector.set_comm _ _ (Ne.symm h)]
    · cases hs : Status.has r.sr Status.S <;> simp [setA, hn7, hk7, setSp, isSupervisor, hs]
  · have hk7 : k.val < 7 := by omega
    cases hs : Status.has r.sr Status.S <;> simp [setA, hn7, hk7, setSp, isSupervisor, hs]

theorem lt_seven_of_ne {n : RegisterNumber} (h : n.val ≠ 7) : n.val < 7 := by
  have hlt := n.isLt
  omega

theorem a_setSp_of_ne (r : Registers) {n : RegisterNumber} (h : n.val ≠ 7) (x : UInt32) :
    (r.setSp x).a n = r.a n := by
  have hlt := lt_seven_of_ne h
  rw [a, a, dif_pos hlt, dif_pos hlt, setSp]
  split <;> rfl

theorem sp_setA_of_ne (r : Registers) {n : RegisterNumber} (h : n.val ≠ 7) (x : UInt32) :
    (r.setA n x).sp = r.sp := by
  rw [setA, dif_pos (lt_seven_of_ne h)]
  rfl

theorem d_setD_self (r : Registers) (n : RegisterNumber) (value : UInt32) :
    (r.setD n value).d n = value := by
  simp [setD, d]

theorem d_setD_of_ne (r : Registers) {n k : RegisterNumber} (h : k.val ≠ n.val) (value : UInt32) :
    (r.setD n value).d k = r.d k := by
  simp [setD, d, Ne.symm h]

theorem setD_d (r : Registers) (n : RegisterNumber) : r.setD n (r.d n) = r := by
  simp [setD, d]

theorem d_setA (r : Registers) (n k : RegisterNumber) (value : UInt32) :
    (r.setA n value).d k = r.d k := by
  rw [setA, setSp, d, d]
  split <;> (try split) <;> rfl

theorem setD_comm (r : Registers) {n k : RegisterNumber} (h : k.val ≠ n.val) (x y : UInt32) :
    (r.setD n x).setD k y = (r.setD k y).setD n x := by
  rw [setD, setD, setD, setD, Vector.set_comm _ _ (Ne.symm h)]

theorem setD_setD (r : Registers) (n : RegisterNumber) (x y : UInt32) :
    (r.setD n x).setD n y = r.setD n y := by
  simp [setD]

theorem setA_setD (r : Registers) (n k : RegisterNumber) (x y : UInt32) :
    (r.setD k y).setA n x = (r.setA n x).setD k y := by
  by_cases h : n.val < 7
  · simp only [setA, dif_pos h, setD]
  · cases hs : Status.has r.sr Status.S <;> simp [setA, h, setSp, setD, isSupervisor, hs]

theorem ofNat_add_eight (n : RegisterNumber) : RegisterNumber.ofNat (8 + n.val) = n := by
  have hn := n.isLt
  apply Fin.ext
  simp only [RegisterNumber.ofNat]
  omega

theorem setGeneral_address (r : Registers) (n : RegisterNumber) (value : UInt32) :
    r.setGeneral (8 + n.val) value = r.setA n value := by
  rw [setGeneral, if_neg (by omega), ofNat_add_eight]

theorem setGeneral_general (r : Registers) (index : Nat) :
    r.setGeneral index (r.general index) = r := by
  rw [setGeneral, general]
  split
  · exact r.setD_d _
  · exact r.setA_a _

theorem setGeneral_setGeneral (r : Registers) (index : Nat) (x y : UInt32) :
    (r.setGeneral index x).setGeneral index y = r.setGeneral index y := by
  rw [setGeneral, setGeneral, setGeneral]
  split
  · exact r.setD_setD _ x y
  · exact r.setA_setA _ x y

theorem setGeneral_comm (r : Registers) {i k : Nat} (hi : i < 16) (hk : k < 16) (h : k ≠ i)
    (x y : UInt32) :
    (r.setGeneral i x).setGeneral k y = (r.setGeneral k y).setGeneral i x := by
  rw [setGeneral, setGeneral, setGeneral, setGeneral]
  by_cases hi8 : i < 8
  · by_cases hk8 : k < 8
    · simp only [if_pos hi8, if_pos hk8]
      refine r.setD_comm ?_ x y
      simp only [RegisterNumber.ofNat]
      omega
    · simp only [if_pos hi8, if_neg hk8, setA_setD]
  · by_cases hk8 : k < 8
    · simp only [if_neg hi8, if_pos hk8, setA_setD]
    · simp only [if_neg hi8, if_neg hk8]
      refine r.setA_comm ?_ x y
      simp only [RegisterNumber.ofNat]
      omega

theorem general_setGeneral_self (r : Registers) (index : Nat) (value : UInt32) :
    (r.setGeneral index value).general index = value := by
  rw [setGeneral, general]
  split
  · exact r.d_setD_self _ value
  · exact r.a_setA_self _ value

theorem general_setGeneral_of_ne (r : Registers) {i k : Nat} (hi : i < 16) (hk : k < 16)
    (h : k ≠ i) (value : UInt32) : (r.setGeneral i value).general k = r.general k := by
  rw [setGeneral, general, general]
  by_cases hi8 : i < 8
  · by_cases hk8 : k < 8
    · simp only [if_pos hi8, if_pos hk8]
      apply r.d_setD_of_ne
      simp only [RegisterNumber.ofNat]
      omega
    · simp only [if_pos hi8, if_neg hk8]
      rfl
  · by_cases hk8 : k < 8
    · simp only [if_neg hi8, if_pos hk8, d_setA]
    · simp only [if_neg hi8, if_neg hk8]
      apply r.a_setA_of_ne
      simp only [RegisterNumber.ofNat]
      omega

end Registers

end Mc68k
