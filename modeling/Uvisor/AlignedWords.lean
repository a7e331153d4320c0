import Mathlib.Algebra.GroupWithZero.Nat
import Mathlib.Data.Nat.Log
import Mathlib.Tactic.Common

/-!
# Words and powers of two

The number of leading zeroes gives the position of the highest set bit. Clearing
the bits below a power of two gives the multiple at or below a word, and clearing
the bits of the predecessor of any word leaves its lowest set bit.
-/

namespace Uvisor.AlignedWords

section Words

variable {w k : ℕ} {x y : BitVec w}

theorem toNat_pos (hx : x ≠ 0) : 0 < x.toNat :=
  Nat.pos_of_ne_zero fun h => hx (BitVec.eq_of_toNat_eq h)

theorem toNat_pred (hx : x ≠ 0) : (x-1).toNat = x.toNat-1 := by
  have hpos := toNat_pos hx
  have hone : (1 : BitVec w).toNat = 1 := Nat.mod_eq_of_lt (Nat.lt_of_le_of_lt hpos x.isLt)
  have hle : 1 ≤ x := BitVec.le_def.mpr (hone.trans_le hpos)
  rw [BitVec.toNat_sub_of_le hle, hone]

theorem toNat_add_pred (hx : x ≠ 0) : (y+x-1).toNat = (y.toNat+(x.toNat-1))%2^w := by
  rw [BitVec.sub_eq_add_neg, BitVec.add_assoc, ← BitVec.sub_eq_add_neg, BitVec.toNat_add,
    toNat_pred hx]

/-- The highest set bit comes after the leading zeroes. -/
theorem toNat_clz (hx : x ≠ 0) : x.clz.toNat = w-1-x.toNat.log2 := by
  have hnat : x.toNat ≠ 0 := (toNat_pos hx).ne'
  have hw : 0 < w := by
    by_contra hzero
    obtain rfl := Nat.eq_zero_of_not_pos hzero
    exact hx (BitVec.of_length_zero)
  have hlog : x.toNat.log2 < w := (Nat.log2_lt hnat).mpr x.isLt
  have hlow := BitVec.two_pow_sub_clz_le_toNat_of_ne_zero hw hx
  have hhigh : x.toNat < 2^(w-x.clz.toNat) := BitVec.toNat_lt_two_pow_sub_clz
  have hclz : x.clz.toNat < w := by
    by_contra hle
    rw [Nat.sub_eq_zero_of_le (Nat.not_lt.mp hle), Nat.pow_zero] at hhigh
    exact hnat (Nat.lt_one_iff.mp hhigh)
  rw [show w-x.clz.toNat = w-1-x.clz.toNat+1 by omega] at hhigh
  have heq := (Nat.log2_eq_iff hnat).mpr ⟨hlow, hhigh⟩
  omega

/-- Clearing bits that a word does not have. -/
theorem and_not_of_and_eq_zero (h : x &&& y = 0) : x &&& ~~~y = x := by
  refine BitVec.eq_of_getLsbD_eq fun i hi => ?_
  have hbit : (x.getLsbD i && y.getLsbD i) = false := by
    rw [← BitVec.getLsbD_and, h, BitVec.ofNat_eq_ofNat, BitVec.getLsbD_zero]
  rw [BitVec.getLsbD_and, BitVec.getLsbD_not, decide_eq_true hi, Bool.true_and]
  cases hx : x.getLsbD i
  · rfl
  · rw [hx, Bool.true_and] at hbit
    rw [hbit, Bool.not_false, Bool.and_self]

/-- Clearing the bits below a power of two rounds down. -/
theorem toNat_and_not_low (hy : y.toNat = 2^k-1) :
    (x &&& ~~~y).toNat = x.toNat/2^k*2^k := by
  apply Nat.eq_of_testBit_eq
  intro i
  rw [BitVec.testBit_toNat, BitVec.getLsbD_and, BitVec.getLsbD_not, Nat.testBit_mul_two_pow,
    Nat.testBit_div_two_pow]
  have hbit : y.getLsbD i = decide (i < k) := by
    rw [← BitVec.testBit_toNat, hy, Nat.testBit_two_pow_sub_one]
  rw [hbit]
  by_cases hi : i < k
  · simp [hi, Nat.not_le.mpr hi]
  · rw [Nat.sub_add_cancel (Nat.not_lt.mp hi), BitVec.testBit_toNat]
    by_cases hw : i < w
    · simp [hi, hw, Nat.not_lt.mp hi]
    · simp [hw, BitVec.getLsbD_of_ge x i (Nat.not_lt.mp hw)]

/-- What is left of a word without the bits of its predecessor. -/
theorem and_not_pred_ne_zero (hx : x ≠ 0) : x &&& ~~~(x-1) ≠ 0 := by
  intro hzero
  have hsub : x &&& (x-1) = x := by
    apply BitVec.eq_of_getLsbD_eq
    intro i hi
    have hbit := congrArg (fun v => v.getLsbD i) hzero
    simp only [BitVec.getLsbD_and, BitVec.getLsbD_not, hi, decide_true, Bool.true_and,
      BitVec.ofNat_eq_ofNat, BitVec.getLsbD_zero] at hbit
    rw [BitVec.getLsbD_and]
    cases hxi : x.getLsbD i with
    | false => rfl
    | true =>
      rw [hxi] at hbit
      simpa using hbit
  have hle : x.toNat ≤ (x-1).toNat := by
    rw [← congrArg BitVec.toNat hsub, BitVec.toNat_and]
    exact Nat.and_le_right
  rw [toNat_pred hx] at hle
  have hpos := toNat_pos hx
  omega

end Words

end Uvisor.AlignedWords
