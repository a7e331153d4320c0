import Mathlib.Data.Nat.Notation
import Mathlib.Logic.Function.Basic

/-!
# Bits kept in an array of machine words

Bit `i` of the array is bit `i % w` of word `i / w`. Setting and clearing a
bit rewrite one word; the lemmas say what every later read sees.
-/

namespace Uvisor.BitArray

variable {w : ℕ}

/-- Read one bit of the array. -/
def get (words : ℕ → BitVec w) (i : ℕ) : Bool :=
  (words (i/w) >>> (i%w)).getLsbD 0

/-- Set one bit of the array. -/
def set (words : ℕ → BitVec w) (i : ℕ) : ℕ → BitVec w :=
  Function.update words (i/w) (words (i/w) ||| (1#w <<< (i%w)))

/-- Clear one bit of the array. -/
def clear (words : ℕ → BitVec w) (i : ℕ) : ℕ → BitVec w :=
  Function.update words (i/w) (words (i/w) &&& ~~~(1#w <<< (i%w)))

theorem get_eq_getLsbD (words : ℕ → BitVec w) (i : ℕ) :
    get words i = (words (i/w)).getLsbD (i%w) := by
  simp [get]

/-- Two positions in one word are equal when their offsets are. -/
theorem eq_of_div_mod {i j : ℕ} (hd : i/w = j/w) (hm : i%w = j%w) : i = j := by
  rw [← Nat.div_add_mod i w, ← Nat.div_add_mod j w, hd, hm]

/-- The mask of an offset inside the word has exactly that bit. -/
theorem getLsbD_one_shiftLeft (hw : 0 < w) (i j : ℕ) :
    (1#w <<< (i%w)).getLsbD (j%w) = decide (i%w = j%w) := by
  have hj := Nat.mod_lt j hw
  rw [BitVec.getLsbD_shiftLeft, BitVec.getLsbD_one]
  by_cases h : i%w = j%w
  · simp [h, hj, hw]
  · have hne : j%w < i%w ∨ ¬(j%w - i%w = 0) := by omega
    rcases hne with hlt | hne
    · simp [hlt, h]
    · simp [hne, h]

/-- Setting a bit is seen at its own position only. -/
theorem get_set (hw : 0 < w) (words : ℕ → BitVec w) (i j : ℕ) :
    get (set words i) j = (decide (i = j) || get words j) := by
  simp only [get_eq_getLsbD, set]
  by_cases hd : i/w = j/w
  · rw [hd, Function.update_self, BitVec.getLsbD_or, getLsbD_one_shiftLeft hw]
    have hiff : i%w = j%w ↔ i = j := ⟨eq_of_div_mod hd, fun h => by rw [h]⟩
    simp [hiff, Bool.or_comm]
  · have hne : i ≠ j := fun h => hd (by rw [h])
    rw [Function.update_of_ne (Ne.symm hd)]
    simp [hne]

/-- Clearing a bit is seen at its own position only. -/
theorem get_clear (hw : 0 < w) (words : ℕ → BitVec w) (i j : ℕ) :
    get (clear words i) j = (!decide (i = j) && get words j) := by
  simp only [get_eq_getLsbD, clear]
  by_cases hd : i/w = j/w
  · rw [hd, Function.update_self, BitVec.getLsbD_and, BitVec.getLsbD_not,
      getLsbD_one_shiftLeft hw]
    have hiff : i%w = j%w ↔ i = j := ⟨eq_of_div_mod hd, fun h => by rw [h]⟩
    simp [hiff, Nat.mod_lt j hw, Bool.and_comm]
  · have hne : i ≠ j := fun h => hd (by rw [h])
    rw [Function.update_of_ne (Ne.symm hd)]
    simp [hne]

/-- An array of zero words has no set bit. -/
@[simp] theorem get_zero (i : ℕ) : get (fun _ => 0#w) i = false := by
  simp [get_eq_getLsbD]

end Uvisor.BitArray
