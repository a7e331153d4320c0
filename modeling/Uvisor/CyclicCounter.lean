import Mathlib.Data.List.Rotate
import Mathlib.Tactic.Common

/-!
# Counters that go round

A counter is increased by one in each step and starts again at zero when it
reaches its bound. As many consecutive values as there are below the bound are
all of them, each once: they are the numbers below the bound, rotated.
-/

namespace Uvisor.CyclicCounter

/-- The first values of a counter below a bound. -/
def cycle (n start count : ℕ) : List ℕ := (List.range count).map fun i => (start+i)%n

section Cycles

variable {n start count : ℕ}

@[simp] theorem length_cycle : (cycle n start count).length = count := by
  rw [cycle, List.length_map, List.length_range]

theorem cycle_add (more : ℕ) :
    cycle n start (count+more) = cycle n start count ++ cycle n (start+count) more := by
  unfold cycle
  rw [List.range_add, List.map_append, List.map_map]
  congr 1
  refine List.map_congr_left fun i _ => ?_
  rw [Function.comp_apply, Nat.add_assoc]

theorem cycle_succ : cycle n start (count+1) = cycle n start count ++ [(start+count)%n] :=
  cycle_add 1

theorem lt_of_mem_cycle (hn : 0 < n) {value : ℕ} (h : value ∈ cycle n start count) : value < n := by
  obtain ⟨i, -, rfl⟩ := List.mem_map.mp h
  exact Nat.mod_lt _ hn

/-- A whole round is the list of all values from the start on. -/
theorem cycle_eq_rotate : cycle n start n = (List.range n).rotate start := by
  apply List.ext_getElem
  · rw [length_cycle, List.length_rotate, List.length_range]
  · intro i hi hi'
    rw [List.getElem_rotate]
    simp only [cycle, List.getElem_map, List.getElem_range, List.length_range, Nat.add_comm]

theorem cycle_perm : (cycle n start n).Perm (List.range n) := by
  rw [cycle_eq_rotate]
  exact List.rotate_perm _ _

/-- Consecutive values of a counter are the values of one that starts later. -/
theorem slice_eq_cycle {before window after : List ℕ}
    (h : cycle n start count = before ++ window ++ after) :
    window = cycle n (start+before.length) window.length := by
  have hlength : count = before.length+window.length+after.length := by
    have hboth := congrArg List.length h
    rwa [length_cycle, List.length_append, List.length_append] at hboth
  rw [hlength, cycle_add, cycle_add] at h
  have hfront := (List.append_inj h (by simp)).1
  exact (List.append_inj hfront length_cycle).2.symm

/-- One round of consecutive values has each value once. -/
theorem perm_of_slice {before window after : List ℕ}
    (h : cycle n start count = before ++ window ++ after) (hround : window.length = n) :
    window.Perm (List.range n) := by
  rw [slice_eq_cycle h, hround]
  exact cycle_perm

end Cycles

end Uvisor.CyclicCounter
