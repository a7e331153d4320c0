import Uvisor.AlignedWords
import Uvisor.RegionEncoding

/-!
# Two logarithms of the size of a region

The memory of a box is reserved when the image is linked, with a macro that
compares the size with one power of two after the other. The regions are laid out
at boot, with a function that counts leading zeroes. Both give the logarithm
rounded up, and five for all sizes up to 32 bytes.
-/

namespace Uvisor.RegionSizes

open ArmMpu AlignedWords

/-! ## Search for a power of two -/

/-- The first exponent from a given one on whose power of two is not less than a
number, if it is found within some steps. -/
def ceilLogFrom (n : ℕ) : ℕ → ℕ → ℕ
  | 0, k => k
  | steps+1, k => if n ≤ 2^k then k else ceilLogFrom n steps (k+1)

/-- The search yields the logarithm rounded up. -/
theorem ceilLogFrom_eq {n steps k : ℕ} (h : n ≤ 2^(k+steps)) :
    ceilLogFrom n steps k = max k (Nat.clog 2 n) := by
  induction steps generalizing k with
  | zero => exact (max_eq_left (Nat.clog_le_of_le_pow h)).symm
  | succ steps ih =>
    rw [ceilLogFrom]
    split_ifs with hle
    · exact (max_eq_left (Nat.clog_le_of_le_pow hle)).symm
    · have hlt : k < Nat.clog 2 n :=
        (Nat.lt_clog_iff_pow_lt (by decide)).mpr (not_le.mp hle)
      rw [ih (by rwa [Nat.add_assoc, Nat.add_comm 1 steps]), max_eq_right hlt,
        max_eq_right hlt.le]

/-! ## The macro and the function -/

/-- UVISOR_REGION_BITS. -/
def uvisorRegionBits (x : Word) : ℕ :=
  if x ≤ 32 then 5 else if x ≤ 64 then
    6 else if x ≤ 128 then 7 else if x ≤ 256 then 8 else if x ≤ 512 then 9 else if x ≤ 1024 then
    10 else if x ≤ 2048 then 11 else if x ≤ 4096 then 12 else if x ≤ 8192 then
    13 else if x ≤ 16384 then 14 else if x ≤ 32768 then 15 else if x ≤ 65536 then
    16 else if x ≤ 131072 then 17 else if x ≤ 262144 then 18 else if x ≤ 524288 then
    19 else if x ≤ 1048576 then 20 else if x ≤ 2097152 then 21 else if x ≤ 4194304 then
    22 else if x ≤ 8388608 then 23 else if x ≤ 16777216 then 24 else if x ≤ 33554432 then
    25 else if x ≤ 67108864 then 26 else if x ≤ 134217728 then 27 else if x ≤ 268435456 then
    28 else if x ≤ 536870912 then 29 else if x ≤ 1073741824 then 30 else if x ≤ 2147483648 then
    31 else 32

/-- What makes a number of bits the logarithm of the size of a region. -/
structure SizeLogarithm (bits : Word → ℕ) : Prop where
  /-- The logarithm is rounded up, to five at least. -/
  value : ∀ size, size ≠ 0 → bits size = max 5 (Nat.clog 2 size.toNat)
  /-- Larger sizes have no smaller logarithm. -/
  mono : ∀ size size', size ≠ 0 → size ≤ size' → bits size ≤ bits size'
  /-- Powers of two from 32 bytes on are not rounded. -/
  power : ∀ size k, 5 ≤ k → size.toNat = 2^k → bits size = k
  /-- The size fits. -/
  fits : ∀ size, size ≠ 0 → size.toNat ≤ 2^bits size
  /-- It would not fit into half of that. -/
  tight : ∀ size, 32 < size.toNat → 2^(bits size-1) < size.toNat

section Logarithms

variable {size : Word}

/-- The number of significant bits is what the leading zeroes leave. -/
theorem vmpuBits_eq_clz (size : Word) : vmpuBits size = 32-size.clz.toNat := by
  unfold vmpuBits
  split_ifs with hzero
  · rw [hzero]
    decide
  · have hlog : size.toNat.log2 < 32 :=
      (Nat.log2_lt (toNat_pos hzero).ne').mpr size.isLt
    rw [toNat_clz hzero]
    omega

/-- The macro is a search through the powers of two. -/
theorem uvisorRegionBits_eq_ceilLogFrom (size : Word) :
    uvisorRegionBits size = ceilLogFrom size.toNat 27 5 := by
  simp only [uvisorRegionBits, ceilLogFrom, BitVec.le_def]
  rfl

theorem uvisorRegionBits_eq (size : Word) :
    uvisorRegionBits size = max 5 (Nat.clog 2 size.toNat) := by
  rw [uvisorRegionBits_eq_ceilLogFrom]
  exact ceilLogFrom_eq size.isLt.le

/-- The logarithm rounded up, to five at least, is the logarithm of a region. -/
theorem sizeLogarithm_uvisorRegionBits : SizeLogarithm uvisorRegionBits where
  value size _ := uvisorRegionBits_eq size
  mono size size' _ hle := by
    rw [uvisorRegionBits_eq, uvisorRegionBits_eq]
    exact max_le_max_left 5 (Nat.clog_mono_right 2 (BitVec.le_def.mp hle))
  power size k hk hsize := by
    rw [uvisorRegionBits_eq, hsize, Nat.clog_pow 2 k (by decide)]
    exact max_eq_right hk
  fits size _ := by
    rw [uvisorRegionBits_eq]
    exact AlignedRegions.le_two_pow_max_clog 5 _
  tight size hlarge := by
    have hlog : 5 < Nat.clog 2 size.toNat := (Nat.lt_clog_iff_pow_lt (by decide)).mpr hlarge
    rw [uvisorRegionBits_eq, max_eq_right hlog.le]
    exact Nat.pow_pred_clog_lt_self (by decide) (by omega)

/-- The function, which counts leading zeroes, and the macro agree on every size of
a region, and both give the logarithm of the size. -/
theorem regionBits_agree :
    (∀ size, vmpuBits size = 32-size.clz.toNat) ∧
      (∀ size, size ≠ 0 → vmpuRegionBits size = some (uvisorRegionBits size)) ∧
      SizeLogarithm uvisorRegionBits := by
  refine ⟨vmpuBits_eq_clz, fun size hsize => ?_, sizeLogarithm_uvisorRegionBits⟩
  rw [RegionEncoding.vmpuRegionBits_eq hsize, uvisorRegionBits_eq]
  rfl

end Logarithms

end Uvisor.RegionSizes
