import Mathlib.Logic.Equiv.Basic
import Mathlib.Algebra.Group.End
import Mathlib.Data.List.Basic

/-!
# Searching all orders of an array for the cheapest

The search swaps every remaining entry into the first open position in turn
and goes on with the next position. It keeps the first of the cheapest orders
it meets below a limit. The orders met are exactly the rearrangements of the
open positions, and the given order is met first.
-/

namespace Uvisor.PermutationSearch

universe u

variable {α : Type u} {cost : (ℕ → α) → ℕ}

/-- Exchange two entries of an array. -/
def swapEntries (order : ℕ → α) (i j : ℕ) : ℕ → α := fun k =>
  if k = i then order j else if k = j then order i else order k

theorem swapEntries_eq_comp (order : ℕ → α) (i j : ℕ) :
    swapEntries order i j = order ∘ Equiv.swap i j := by
  funext k
  simp only [swapEntries, Function.comp_apply, Equiv.swap_apply_def]
  split_ifs <;> rfl

/-- Cost of the best order so far, and that order if there is one. -/
abbrev Best (α : Type u) := ℕ × Option (ℕ → α)

/-- Replace the best order by a strictly cheaper one. -/
def consider (cost : (ℕ → α) → ℕ) (best : Best α) (order : ℕ → α) : Best α :=
  if cost order < best.1 then (cost order, some order) else best

/-- Search over the given number of open positions from a position on. With
one open position the order is complete. -/
def search (cost : (ℕ → α) → ℕ) : ℕ → ℕ → (ℕ → α) → Best α → Best α
  | 0, _, _, best => best
  | n+1, start, order, best =>
    (List.range (n+1)).foldl
      (fun best k => search cost n (start+1) (swapEntries order start (start+k)) best)
      (if n = 0 then consider cost best order else best)

/-- The complete orders in the sequence in which the search meets them. -/
def leaves : ℕ → ℕ → (ℕ → α) → List (ℕ → α)
  | 0, _, _ => []
  | n+1, start, order =>
    if n = 0 then [order]
    else (List.range (n+1)).flatMap fun k =>
      leaves n (start+1) (swapEntries order start (start+k))

/-- The search considers the complete orders one after the other. -/
theorem search_eq_foldl (n start : ℕ) (order : ℕ → α) (best : Best α) :
    search cost n start order best = (leaves n start order).foldl (consider cost) best := by
  induction n generalizing start order best with
  | zero => rfl
  | succ n ih =>
    rw [search, leaves]
    by_cases hn : n = 0
    · subst hn
      simp [search]
    · rw [if_neg hn, if_neg hn, List.foldl_flatMap]
      simp only [ih]

/-- The given order is met first. -/
theorem leaves_eq_cons (n start : ℕ) (order : ℕ → α) :
    ∃ rest, leaves (n+1) start order = order :: rest := by
  induction n generalizing start order with
  | zero => exact ⟨[], rfl⟩
  | succ n ih =>
    have hself : swapEntries order start (start+0) = order := by
      rw [swapEntries_eq_comp, Nat.add_zero, Equiv.swap_self]
      rfl
    obtain ⟨rest, hrest⟩ := ih (start+1) order
    rw [leaves, if_neg (Nat.succ_ne_zero n), List.range_succ_eq_map, List.flatMap_cons, hself, hrest]
    exact ⟨_, rfl⟩

/-- A rearrangement moves no position outside the open ones. -/
def Moves (σ : Equiv.Perm ℕ) (start n : ℕ) : Prop := ∀ i, i < start ∨ start+n ≤ i → σ i = i

/-- A rearrangement of the open positions brings one of them to the front. -/
theorem Moves.apply_mem {σ : Equiv.Perm ℕ} {start n : ℕ} (h : Moves σ start (n+1)) :
    start ≤ σ start ∧ σ start < start+(n+1) := by
  by_contra hout
  have hfix : σ (σ start) = σ start := h (σ start) (by omega)
  have hstart : σ start = start := σ.injective hfix
  omega

/-- Exactly the rearrangements of the open positions are met. -/
theorem mem_leaves_iff {n start : ℕ} {order f : ℕ → α} :
    f ∈ leaves (n+1) start order ↔ ∃ σ : Equiv.Perm ℕ, Moves σ start (n+1) ∧ f = order ∘ σ := by
  induction n generalizing start order with
  | zero =>
    rw [leaves, if_pos rfl, List.mem_singleton]
    constructor
    · rintro rfl
      exact ⟨1, fun _ _ => rfl, rfl⟩
    · rintro ⟨σ, hσ, rfl⟩
      have hone : ∀ i, σ i = i := by
        intro i
        by_cases hi : i = start
        · subst hi
          have := hσ.apply_mem
          omega
        · exact hσ i (by omega)
      funext i
      simp [hone i]
  | succ n ih =>
    rw [leaves, if_neg (Nat.succ_ne_zero n), List.mem_flatMap]
    constructor
    · rintro ⟨k, hk, hf⟩
      obtain ⟨τ, hτ, rfl⟩ := ih.mp hf
      rw [List.mem_range] at hk
      refine ⟨Equiv.swap start (start+k)*τ, fun i hi => ?_, ?_⟩
      · rw [Equiv.Perm.mul_apply, hτ i (by omega)]
        exact Equiv.swap_apply_of_ne_of_ne (by omega) (by omega)
      · rw [swapEntries_eq_comp]
        rfl
    · rintro ⟨σ, hσ, rfl⟩
      obtain ⟨hle, hlt⟩ := hσ.apply_mem
      refine ⟨σ start-start, List.mem_range.mpr (by omega), ih.mpr
        ⟨Equiv.swap start (σ start)*σ, fun i hi => ?_, ?_⟩⟩
      · rw [Equiv.Perm.mul_apply]
        by_cases his : i = start
        · subst his
          exact Equiv.swap_apply_right _ _
        · have hfix : σ i = i := hσ i (by omega)
          have hne : i ≠ σ start := fun he => his (σ.injective (hfix.trans he))
          rw [hfix]
          exact Equiv.swap_apply_of_ne_of_ne his hne
      · rw [swapEntries_eq_comp, Nat.add_sub_cancel' hle]
        funext i
        simp

/-- Considering a list of orders keeps the best so far or finds a strictly
cheaper one in the list, and none in the list is cheaper than the result. -/
theorem foldl_consider_spec (cost : (ℕ → α) → ℕ) (l : List (ℕ → α)) (best : Best α) :
    (l.foldl (consider cost) best = best ∨ ∃ f ∈ l, cost f < best.1 ∧
      l.foldl (consider cost) best = (cost f, some f)) ∧
    ∀ f ∈ l, (l.foldl (consider cost) best).1 ≤ cost f := by
  induction l generalizing best with
  | nil => simp
  | cons g l ih =>
    rw [List.foldl_cons]
    obtain ⟨hkeep, hmin⟩ := ih (consider cost best g)
    have hbest : (consider cost best g).1 ≤ cost g ∧ (consider cost best g).1 ≤ best.1 := by
      unfold consider
      split_ifs with h
      · exact ⟨le_rfl, h.le⟩
      · exact ⟨not_lt.mp h, le_rfl⟩
    have hle : (l.foldl (consider cost) (consider cost best g)).1 ≤ (consider cost best g).1 := by
      rcases hkeep with heq | ⟨f, -, hlt, heq⟩
      · rw [heq]
      · rw [heq]
        exact hlt.le
    refine ⟨?_, ?_⟩
    · rcases hkeep with heq | ⟨f, hf, hlt, heq⟩
      · by_cases h : cost g < best.1
        · exact Or.inr ⟨g, List.mem_cons_self, h, by rw [heq, consider, if_pos h]⟩
        · exact Or.inl (by rw [heq, consider, if_neg h])
      · exact Or.inr ⟨f, List.mem_cons_of_mem g hf, hlt.trans_le hbest.2, heq⟩
    · intro f hf
      rcases List.mem_cons.mp hf with rfl | hf
      · exact hle.trans hbest.1
      · exact hmin f hf

/-- The order found is a cheapest one, and it is the given order exactly when
no other order is strictly cheaper. -/
theorem search_spec {n start limit : ℕ} {order f : ℕ → α}
    (h : (search cost (n+1) start order (limit, none)).2 = some f) :
    (∃ σ : Equiv.Perm ℕ, Moves σ start (n+1) ∧ f = order ∘ σ) ∧
      (search cost (n+1) start order (limit, none)).1 = cost f ∧
      (f = order ↔ ∀ σ : Equiv.Perm ℕ, Moves σ start (n+1) → cost order ≤ cost (order ∘ σ)) := by
  rw [search_eq_foldl] at h ⊢
  obtain ⟨hkeep, hmin⟩ := foldl_consider_spec cost (leaves (n+1) start order) (limit, none)
  rcases hkeep with heq | ⟨g, hg, hlt, heq⟩
  · rw [heq] at h
    cases h
  · rw [heq] at h
    obtain rfl := Option.some.inj h
    have hcost := congrArg Prod.fst heq
    rw [hcost] at hmin
    refine ⟨mem_leaves_iff.mp hg, hcost, ?_, ?_⟩
    · rintro rfl σ hσ
      exact hmin _ (mem_leaves_iff.mpr ⟨σ, hσ, rfl⟩)
    · intro hall
      obtain ⟨rest, hrest⟩ := leaves_eq_cons n start order
      obtain ⟨σ, hσ, hgσ⟩ := mem_leaves_iff.mp hg
      have hle : cost order ≤ cost g := hgσ ▸ hall σ hσ
      rw [hrest, List.foldl_cons, consider, if_pos (hle.trans_lt hlt)] at heq
      rcases (foldl_consider_spec cost rest (cost order, some order)).1 with
        hsame | ⟨f, -, hf, hbest⟩
      · rw [hsame] at heq
        exact (Option.some.inj (congrArg Prod.snd heq)).symm
      · rw [hbest] at heq
        have hfg : f = g := Option.some.inj (congrArg Prod.snd heq)
        rw [hfg] at hf
        exact absurd hle (not_le.mpr hf)

/-- Where every order is below the limit, the search finds one of the cheapest. -/
theorem search_least {n start limit : ℕ} {order : ℕ → α}
    (hlimit : ∀ σ : Equiv.Perm ℕ, Moves σ start (n+1) → cost (order ∘ σ) < limit) :
    ∃ σ : Equiv.Perm ℕ, Moves σ start (n+1) ∧
      search cost (n+1) start order (limit, none) = (cost (order ∘ σ), some (order ∘ σ)) ∧
      ∀ τ : Equiv.Perm ℕ, Moves τ start (n+1) → cost (order ∘ σ) ≤ cost (order ∘ τ) := by
  rw [search_eq_foldl]
  obtain ⟨hkeep, hmin⟩ := foldl_consider_spec cost (leaves (n+1) start order) (limit, none)
  have hall : ∀ τ : Equiv.Perm ℕ, Moves τ start (n+1) →
      ((leaves (n+1) start order).foldl (consider cost) (limit, none)).1 ≤ cost (order ∘ τ) :=
    fun τ hτ => hmin _ (mem_leaves_iff.mpr ⟨τ, hτ, rfl⟩)
  rcases hkeep with heq | ⟨f, hf, -, heq⟩
  · have hone : Moves (1 : Equiv.Perm ℕ) start (n+1) := fun _ _ => rfl
    have hle := hall 1 hone
    rw [heq] at hle
    exact absurd (hlimit 1 hone) (not_lt.mpr hle)
  · obtain ⟨σ, hσ, rfl⟩ := mem_leaves_iff.mp hf
    rw [heq] at hall
    exact ⟨σ, hσ, heq, hall⟩

end Uvisor.PermutationSearch
