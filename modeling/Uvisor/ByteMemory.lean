import Mathlib.Algebra.GroupWithZero.Nat
import Mathlib.Tactic.Common

/-!
# Bytes of a memory with wrapping addresses

Values of several bytes are little endian. A write changes the bytes from an
address on, and addresses wrap at the end of memory. The lemmas say what every
later read sees: the bytes that were written, cut off at the width of the read,
or the bytes that were there before.
-/

namespace Uvisor.ByteMemory

/-- A byte for every address of a given width. -/
abbrev Memory (w : ℕ) := BitVec w → BitVec 8

section Bytes

variable {w v : ℕ}

/-- Read some bytes as a value, the least significant one first. -/
def read (m : Memory w) (address : BitVec w) : ℕ → BitVec v
  | 0 => 0
  | n+1 => read m address n ||| ((m (address+BitVec.ofNat w n)).setWidth v <<< (8*n))

/-- Distance of an address from another one, upwards. -/
def offset (address other : BitVec w) : ℕ := (other-address).toNat

/-- Write the low bytes of a value. -/
def write (m : Memory w) (address : BitVec w) (n : ℕ) (value : BitVec v) : Memory w := fun other =>
  if offset address other < n then value.extractLsb' (8*offset address other) 8 else m other

variable {m : Memory w} {address other : BitVec w} {n k : ℕ} {value : BitVec v}

theorem offset_add {i : ℕ} (hi : i < 2^w) : offset address (address+BitVec.ofNat w i) = i := by
  rw [offset, BitVec.add_comm, BitVec.add_sub_cancel, BitVec.toNat_ofNat, Nat.mod_eq_of_lt hi]

/-- Bits of a value that is read. -/
theorem getLsbD_read (m : Memory w) (address : BitVec w) (n : ℕ) {j : ℕ} (hj : j < v) :
    (read m address n : BitVec v).getLsbD j =
      (decide (j < 8*n) && (m (address+BitVec.ofNat w (j/8))).getLsbD (j%8)) := by
  induction n with
  | zero => simp [read]
  | succ n ih =>
    rw [read, BitVec.getLsbD_or, ih, BitVec.getLsbD_shiftLeft, BitVec.getLsbD_setWidth]
    by_cases hlow : j < 8*n
    · simp [hlow, show j < 8*(n+1) by omega]
    · by_cases hbyte : j < 8*(n+1)
      · have hdiv : j/8 = n := by omega
        have hmod : j-8*n = j%8 := by omega
        simp [hlow, hbyte, hj, hdiv, hmod, show j%8 < v by omega]
      · have hout : (m (address+BitVec.ofNat w n)).getLsbD (j-8*n) = false :=
          BitVec.getLsbD_of_ge _ _ (by omega)
        simp [hlow, hbyte, hout]

/-- Other bytes are kept. -/
theorem write_of_le (h : n ≤ offset address other) : write m address n value other = m other :=
  if_neg (Nat.not_lt.mpr h)

theorem write_of_lt (h : offset address other < n) :
    write m address n value other = value.extractLsb' (8*offset address other) 8 :=
  if_pos h

/-- A value that has been written is read back, up to the number of bytes. -/
theorem read_write (h : n ≤ 2^w) :
    (read (write m address n value) address n : BitVec v) = (value.setWidth (8*n)).setWidth v := by
  refine BitVec.eq_of_getLsbD_eq fun j hj => ?_
  rw [getLsbD_read _ _ _ hj, BitVec.getLsbD_setWidth, BitVec.getLsbD_setWidth]
  by_cases hbyte : j < 8*n
  · have hoffset : offset address (address+BitVec.ofNat w (j/8)) = j/8 := offset_add (by omega)
    have hbit : 8*(j/8)+j%8 = j := Nat.div_add_mod j 8
    rw [write_of_lt (by omega), BitVec.getLsbD_extractLsb', hoffset, hbit]
    simp [hj, hbyte, Nat.mod_lt]
  · simp [hbyte]

/-- A value that fits is read back. -/
theorem read_write_self (h : n ≤ 2^w) (hv : v ≤ 8*n) :
    (read (write m address n value) address n : BitVec v) = value := by
  rw [read_write h]
  refine BitVec.eq_of_getLsbD_eq fun j hj => ?_
  rw [BitVec.getLsbD_setWidth, BitVec.getLsbD_setWidth]
  simp [hj, show j < 8*n by omega]

/-- Two memories that agree on some bytes have the same value there. -/
theorem read_congr {m' : Memory w} (h : ∀ i < n, m (address+BitVec.ofNat w i) =
    m' (address+BitVec.ofNat w i)) : (read m address n : BitVec v) = read m' address n := by
  induction n with
  | zero => rfl
  | succ n ih =>
    rw [read, read, ih fun i hi => h i (Nat.lt_succ_of_lt hi), h n (Nat.lt_succ_self n)]

/-- A value that is apart from the written bytes is kept. -/
theorem read_write_of_apart {u : ℕ}
    (h : ∀ i < k, n ≤ offset address (other+BitVec.ofNat w i)) :
    (read (write m address n value) other k : BitVec u) = read m other k :=
  read_congr fun i hi => write_of_le (h i hi)

end Bytes

end Uvisor.ByteMemory
