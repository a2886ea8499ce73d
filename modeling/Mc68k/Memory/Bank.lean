/-!
Storage of bytes. A bank has a fixed size and keeps its bytes in rows of 256, so that a large zeroed
bank costs one shared row and a write copies at most one row. `get` is the view: a write changes it
at one place, and nothing else changes it.
-/

namespace Mc68k

/-- A bank of `size` bytes in rows of 256, of which the last may be partly unused. -/
structure Bank where
  size : Nat
  rows : Array (Vector UInt8 256)
  size_le : size ≤ 256 * rows.size

namespace Bank

def zeros (size : Nat) : Bank where
  size := size
  rows := Array.replicate ((size + 255) / 256) (Vector.replicate 256 0)
  size_le := by simp only [Array.size_replicate]; omega

/-- Byte `i`; there is nothing but zero past the end. -/
def get (b : Bank) (i : Nat) : UInt8 :=
  if h : i < b.size then
    have : i / 256 < b.rows.size := by have := b.size_le; omega
    have : i % 256 < 256 := Nat.mod_lt _ (by decide)
    b.rows[i / 256][i % 256]
  else 0

def set (b : Bank) (i : Nat) (v : UInt8) : Bank :=
  if i < b.size then
    { b with
      rows := b.rows.modify (i / 256) fun row => row.set (i % 256) v (Nat.mod_lt _ (by decide))
      size_le := by simpa only [Array.size_modify] using b.size_le }
  else b

def slice (b : Bank) (start n : Nat) : List UInt8 :=
  (List.range n).map fun k => b.get (start + k)

def write (b : Bank) (start : Nat) : List UInt8 → Bank
  | [] => b
  | v :: vs => (b.set start v).write (start + 1) vs

def ofList (bytes : List UInt8) : Bank := (zeros bytes.length).write 0 bytes

def toList (b : Bank) : List UInt8 := b.slice 0 b.size

@[simp] theorem size_zeros (n : Nat) : (zeros n).size = n := rfl

@[simp] theorem get_zeros (n i : Nat) : (zeros n).get i = 0 := by
  simp [get, zeros]

@[simp] theorem size_set (b : Bank) (i : Nat) (v : UInt8) : (b.set i v).size = b.size := by
  unfold set; split <;> rfl

theorem get_set (b : Bank) (i j : Nat) (v : UInt8) :
    (b.set i v).get j = if i = j ∧ j < b.size then v else b.get j := by
  have hb := b.size_le
  by_cases hj : j < b.size
  · by_cases hi : i < b.size
    · by_cases hr : i / 256 = j / 256
      · by_cases hc : i % 256 = j % 256
        · have : i = j := by omega
          subst this
          simp [set, get, hi, Array.getElem_modify]
        · have : i ≠ j := by omega
          simp [set, get, hi, hj, Array.getElem_modify, hr, this, hc]
      · have : i ≠ j := by omega
        simp [set, get, hi, hj, Array.getElem_modify, hr, this]
    · have : i ≠ j := by omega
      simp [set, hi, this]
  · simp [get, hj]

@[simp] theorem size_write (b : Bank) (start : Nat) (bytes : List UInt8) :
    (b.write start bytes).size = b.size := by
  induction bytes generalizing b start with
  | nil => rfl
  | cons v vs ih => rw [write, ih, size_set]

theorem get_write (b : Bank) (start j : Nat) (bytes : List UInt8) :
    (b.write start bytes).get j =
      if start ≤ j ∧ j < b.size then bytes[j - start]?.getD (b.get j) else b.get j := by
  induction bytes generalizing b start with
  | nil => simp [write]
  | cons v vs ih =>
    rw [write, ih, get_set, size_set]
    by_cases hj : start = j
    · subst hj
      simp [show ¬ start + 1 ≤ start by omega]
    · by_cases hlt : start < j
      · have : j - start = (j - (start + 1)) + 1 := by omega
        simp [hj, this, Nat.le_of_lt hlt, show start + 1 ≤ j from hlt]
      · have h : ¬ start ≤ j := by omega
        have h' : ¬ start + 1 ≤ j := by omega
        simp [hj, h, h']

@[simp] theorem length_slice (b : Bank) (start n : Nat) : (b.slice start n).length = n := by
  simp [slice]

@[simp] theorem size_ofList (bytes : List UInt8) : (ofList bytes).size = bytes.length := by
  simp [ofList]

end Bank

end Mc68k
