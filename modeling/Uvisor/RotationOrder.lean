import Uvisor.Execution
import Mathlib.Data.List.Rotate

/-!
# What going round a queue does to its order

A loop takes elements from the front of a queue and puts some of them back at
the end, until the first element that it put back comes to the front again. If
nothing leaves the queue, such a loop rotates it by one. Elements with one
target leave in the order in which they entered as long as an element that
goes behind others does so for all that share its target.
-/

namespace Uvisor.RotationOrder

open Execution

universe u v

/-! ## Queues that nothing leaves -/

section Rotation

variable {α : Type u} {q₀ q rest : List α} {x y : α} {first : Option α}

/-- The queue while nothing has left it: the elements behind the remembered
one have been seen. -/
def RotatedFrom (q₀ q : List α) : Option α → Prop
  | none => q = q₀
  | some x => ∃ seen todo, q₀ = x :: (seen ++ todo) ∧ q = todo ++ x :: seen

/-- Putting the front element back goes on with the rotation. -/
theorem RotatedFrom.putBack (h : RotatedFrom q₀ (y :: rest) first) (hne : first ≠ some y) :
    RotatedFrom q₀ (rest ++ [y]) (some (first.getD y)) := by
  cases first with
  | none => exact ⟨[], rest, by rw [← show y :: rest = q₀ from h]; rfl, rfl⟩
  | some x =>
    obtain ⟨seen, todo, rfl, hq⟩ := h
    cases todo with
    | nil =>
      have hyx : y = x := (List.cons.inj hq).1
      exact absurd (congrArg some hyx.symm) hne
    | cons z todo =>
      obtain ⟨rfl, rfl⟩ := List.cons.inj hq
      exact ⟨seen ++ [y], todo, by simp, by simp⟩

/-- When the remembered element is in front, the rest has been seen, and
putting it back rotates the queue. -/
theorem RotatedFrom.cameRound (h : RotatedFrom q₀ (x :: rest) (some x)) (hnodup : q₀.Nodup) :
    rest ++ [x] = q₀.rotate 1 := by
  obtain ⟨seen, todo, rfl, hq⟩ := h
  cases todo with
  | nil =>
    obtain ⟨-, rfl⟩ := List.cons.inj hq
    simp
  | cons z todo =>
    have hzx : x = z := (List.cons.inj hq).1
    simp [hzx] at hnodup

/-- A queue in a loop. Nothing enters it, and it is a rotation unless
something has left it. -/
structure Tracked (q₀ q : List α) (first : Option α) : Prop where
  /-- Nothing enters the queue. -/
  subset : q ⊆ q₀
  /-- If everything is still queued, the queue has been rotated. -/
  rotated : q₀ ⊆ q → RotatedFrom q₀ q first

theorem Tracked.start (q : List α) : Tracked q q none := ⟨List.Subset.refl q, fun _ => rfl⟩

theorem subset_putBack : q₀ ⊆ rest ++ [y] ↔ q₀ ⊆ y :: rest := by
  have hmem : ∀ z, z ∈ rest ++ [y] ↔ z ∈ y :: rest := by simp [or_comm]
  exact ⟨fun h z hz => (hmem z).mp (h hz), fun h z hz => (hmem z).mpr (h hz)⟩

theorem Tracked.putBack (h : Tracked q₀ (y :: rest) first)
    (hne : q₀ ⊆ y :: rest → first ≠ some y) :
    Tracked q₀ (rest ++ [y]) (some (first.getD y)) := by
  refine ⟨fun z hz => h.subset ?_, fun hall => ?_⟩
  · simpa [or_comm] using hz
  · have hall := subset_putBack.mp hall
    exact (h.rotated hall).putBack (hne hall)

/-- An element that leaves is missed. -/
theorem Tracked.missed (h : Tracked q₀ (y :: rest) first) (hnodup : (y :: rest).Nodup) :
    ¬q₀ ⊆ rest := by
  intro hall
  have hy : y ∈ rest := hall (h.subset (List.mem_cons_self ..))
  exact (List.nodup_cons.mp hnodup).1 hy

theorem Tracked.leave (h : Tracked q₀ (y :: rest) first) (hnodup : (y :: rest).Nodup)
    (first' : Option α) : Tracked q₀ rest first' :=
  ⟨fun _ hz => h.subset (List.mem_cons_of_mem _ hz), fun hall => absurd hall (h.missed hnodup)⟩

/-- A loop that ends on its remembered element, and keeps everything, rotates
the queue by one. -/
theorem Tracked.cameRound (h : Tracked q₀ (x :: rest) (some x)) (hnodup : q₀.Nodup)
    (hall : q₀ ⊆ rest ++ [x]) : rest ++ [x] = q₀.rotate 1 :=
  (h.rotated (subset_putBack.mp hall)).cameRound hnodup

end Rotation

/-! ## Elements that share a target -/

section Order

variable {β : Type u}

/-- Elements, each with a target and the time at which it entered, that stand
in the order of these times for each target. -/
def InOrder (l : List (β × ℕ)) : Prop := l.Pairwise fun e e' => e.1 = e'.1 → e.2 < e'.2

variable {l l' : List (β × ℕ)} {e : β × ℕ}

theorem InOrder.sublist (h : InOrder l') (hl : l.Sublist l') : InOrder l := List.Pairwise.sublist hl h

/-- An element that passes others, none of which has its target. -/
theorem InOrder.forward {l₁ l₂ l₃ : List (β × ℕ)} (h : InOrder (l₁ ++ (l₂ ++ e :: l₃)))
    (hother : ∀ e' ∈ l₂, e'.1 ≠ e.1) : InOrder (l₁ ++ (e :: (l₂ ++ l₃))) := by
  obtain ⟨h₁, h₂₃, h₁₂₃⟩ := List.pairwise_append.mp h
  obtain ⟨h₂, he₃, h₂₃⟩ := List.pairwise_append.mp h₂₃
  obtain ⟨he, h₃⟩ := List.pairwise_cons.mp he₃
  refine List.pairwise_append.mpr ⟨h₁, List.pairwise_cons.mpr ⟨fun e' hmem htarget => ?_,
    List.pairwise_append.mpr ⟨h₂, h₃, fun a ha b hb => h₂₃ a ha b (List.mem_cons_of_mem _ hb)⟩⟩,
    fun a ha b hb => h₁₂₃ a ha b ?_⟩
  · rcases List.mem_append.mp hmem with hmem | hmem
    · exact absurd htarget.symm (hother e' hmem)
    · exact he e' hmem htarget
  · simp only [List.mem_cons, List.mem_append] at hb ⊢
    tauto

/-- An element that goes behind others, none of which has its target. -/
theorem InOrder.backward {l₁ l₂ : List (β × ℕ)} (h : InOrder (l₁ ++ e :: l₂))
    (hother : ∀ e' ∈ l₂, e'.1 ≠ e.1) : InOrder (l₁ ++ (l₂ ++ [e])) := by
  obtain ⟨h₁, h₂, h₁₂⟩ := List.pairwise_append.mp h
  obtain ⟨he, h₂⟩ := List.pairwise_cons.mp h₂
  refine List.pairwise_append.mpr ⟨h₁, List.pairwise_append.mpr ⟨h₂, List.pairwise_singleton _ _,
    fun a ha b hb htarget => ?_⟩, fun a ha b hb => h₁₂ a ha b ?_⟩
  · rw [List.mem_singleton.mp hb] at htarget
    exact absurd htarget (hother a ha)
  · simpa [or_comm] using hb

/-- An element that enters now. -/
theorem InOrder.enter {clock : ℕ} {target : β} (h : InOrder l) (hold : ∀ e ∈ l, e.2 < clock) :
    InOrder (l ++ [(target, clock)]) := by
  refine List.pairwise_append.mpr ⟨h, List.pairwise_singleton _ _, fun a ha b hb _ => ?_⟩
  rw [List.mem_singleton.mp hb]
  exact hold a ha

end Order

end Uvisor.RotationOrder
