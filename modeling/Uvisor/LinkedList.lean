import Mathlib.Data.List.Basic
import Mathlib.Data.List.Nodup
import Mathlib.Logic.Function.Basic

/-!
# Intrusive linked lists threaded through an array of links

Links are functions on node names, so that an in-place write is a function
update. A segment is entered from one name and left towards another; the
append law splits it anywhere, and each splice of a queue is an instance of
that law plus a frame condition on the links that were not written.
-/

namespace Uvisor.LinkedList

universe u

variable {α : Type u}

/-- Forward links thread the list and leave its last node towards `after`. -/
def Chained (next : α → α) : List α → α → Prop
  | [], _ => True
  | a :: l, after => next a = l.headD after ∧ Chained next l after

/-- Links in both directions thread the list, which is entered from `before`
and left towards `after`. -/
def Linked (next prev : α → α) (before : α) : List α → α → Prop
  | [], _ => True
  | a :: l, after => prev a = before ∧ next a = l.headD after ∧ Linked next prev a l after

/-- Only the links of the listed nodes matter to a chain. -/
theorem Chained.congr {next next' : α → α} {l : List α} {after : α}
    (h : Chained next l after) (hframe : ∀ a ∈ l, next' a = next a) : Chained next' l after := by
  induction l with
  | nil => trivial
  | cons a l ih =>
    exact ⟨(hframe a (by simp)).trans h.1, ih h.2 (fun b hb => hframe b (by simp [hb]))⟩

/-- Only the links of the listed nodes matter to a segment. -/
theorem Linked.congr {next prev next' prev' : α → α} {before after : α} {l : List α}
    (h : Linked next prev before l after) (hnext : ∀ a ∈ l, next' a = next a)
    (hprev : ∀ a ∈ l, prev' a = prev a) : Linked next' prev' before l after := by
  induction l generalizing before with
  | nil => trivial
  | cons a l ih =>
    exact ⟨(hprev a (by simp)).trans h.1, (hnext a (by simp)).trans h.2.1,
      ih h.2.2 (fun b hb => hnext b (by simp [hb])) (fun b hb => hprev b (by simp [hb]))⟩

/-- The forward links of a segment are a chain. -/
theorem Linked.chained {next prev : α → α} {before after : α} {l : List α}
    (h : Linked next prev before l after) : Chained next l after := by
  induction l generalizing before with
  | nil => trivial
  | cons a l ih => exact ⟨h.2.1, ih h.2.2⟩

/-- The first node of a nonempty list is one of its members. -/
theorem headD_mem {l : List α} (h : l ≠ []) (d : α) : l.headD d ∈ l := by
  cases l with
  | nil => exact absurd rfl h
  | cons a l => simp

/-- The last node of a nonempty list is one of its members. -/
theorem getLastD_mem {l : List α} (h : l ≠ []) (d : α) : l.getLastD d ∈ l := by
  rw [List.getLastD_eq_getLast?, List.getLast?_eq_some_getLast h]
  exact List.getLast_mem h

/-- The default of a nonempty list's first node does not matter. -/
theorem headD_eq_of_ne_nil {l : List α} (h : l ≠ []) (c d : α) : l.headD c = l.headD d := by
  cases l with
  | nil => exact absurd rfl h
  | cons a l => rfl

/-- The default of a nonempty list's last node does not matter. -/
theorem getLastD_eq_of_ne_nil {l : List α} (h : l ≠ []) (c d : α) :
    l.getLastD c = l.getLastD d := by
  cases l with
  | nil => exact absurd rfl h
  | cons a l => rw [List.getLastD_cons, List.getLastD_cons]

/-- A concatenation starts with its first part, if that is not empty. -/
theorem headD_append {l : List α} (h : l ≠ []) (m : List α) (d : α) :
    (l ++ m).headD d = l.headD d := by
  cases l with
  | nil => exact absurd rfl h
  | cons a l => rfl

/-- The end of a concatenation, with the first part as the default. -/
theorem getLastD_append (l m : List α) (d : α) :
    (l ++ m).getLastD d = m.getLastD (l.getLastD d) := by
  induction l generalizing d with
  | nil => rfl
  | cons a l ih => rw [List.cons_append, List.getLastD_cons, ih, List.getLastD_cons]

/-- A segment splits at any point, each part seeing its neighbour's end. -/
theorem linked_append {next prev : α → α} {before after : α} {l m : List α} :
    Linked next prev before (l ++ m) after ↔
      Linked next prev before l (m.headD after) ∧ Linked next prev (l.getLastD before) m after := by
  induction l generalizing before with
  | nil => simp [Linked]
  | cons a l ih =>
    have hhead : (l ++ m).headD after = l.headD (m.headD after) := by cases l <;> simp
    simp only [List.cons_append, Linked, ih, hhead, List.getLastD_cons, and_assoc]

/-- Redirecting the exit of a segment is one write of a next link. -/
theorem Linked.exit {next prev next' prev' : α → α} {before after after' : α} {l : List α}
    (h : Linked next prev before l after) (hnd : l.Nodup)
    (hnext : ∀ a ∈ l, a ≠ l.getLastD before → next' a = next a)
    (hlast : l ≠ [] → next' (l.getLastD before) = after')
    (hprev : ∀ a ∈ l, prev' a = prev a) : Linked next' prev' before l after' := by
  induction l generalizing before with
  | nil => trivial
  | cons a l ih =>
    rw [List.getLastD_cons] at hnext hlast
    obtain ⟨ha, hnd⟩ := List.nodup_cons.mp hnd
    refine ⟨(hprev a (by simp)).trans h.1, ?_, ?_⟩
    · cases l with
      | nil => exact hlast (by simp)
      | cons b l =>
        have hne : a ≠ (b :: l).getLastD a := fun he => ha (he ▸ getLastD_mem (by simp) a)
        exact (hnext a (by simp) hne).trans h.2.1
    · exact ih h.2.2 hnd (fun c hc hne => hnext c (by simp [hc]) hne)
        (fun _ => hlast (by simp)) (fun c hc => hprev c (by simp [hc]))

/-- Redirecting the entry of a segment is one write of a prev link. -/
theorem Linked.enter {next prev next' prev' : α → α} {before before' after : α} {l : List α}
    (h : Linked next prev before l after) (hnd : l.Nodup)
    (hprev : ∀ a ∈ l, a ≠ l.headD after → prev' a = prev a)
    (hhead : l ≠ [] → prev' (l.headD after) = before')
    (hnext : ∀ a ∈ l, next' a = next a) : Linked next' prev' before' l after := by
  cases l with
  | nil => trivial
  | cons a l =>
    obtain ⟨ha, hnd⟩ := List.nodup_cons.mp hnd
    refine ⟨hhead (by simp), (hnext a (by simp)).trans h.2.1, h.2.2.congr ?_ ?_⟩
    · exact fun b hb => hnext b (by simp [hb])
    · intro b hb
      have hne : b ≠ a := fun he => ha (he ▸ hb)
      exact hprev b (by simp [hb]) hne

/-- Taking one node out of a segment writes the next link of its predecessor
and the prev link of its successor, where these exist. -/
theorem Linked.splice {next prev next' prev' : α → α} {before after a : α} {l m : List α}
    (h : Linked next prev before (l ++ a :: m) after) (hl : l.Nodup) (hm : m.Nodup)
    (hnext : ∀ b ∈ l, b ≠ l.getLastD before → next' b = next b)
    (hlast : l ≠ [] → next' (l.getLastD before) = m.headD after)
    (hnext' : ∀ b ∈ m, next' b = next b)
    (hprev : ∀ b ∈ l, prev' b = prev b)
    (hprev' : ∀ b ∈ m, b ≠ m.headD after → prev' b = prev b)
    (hhead : m ≠ [] → prev' (m.headD after) = l.getLastD before) :
    Linked next' prev' before (l ++ m) after := by
  obtain ⟨hleft, hright⟩ := linked_append.mp h
  exact linked_append.mpr
    ⟨hleft.exit hl hnext hlast hprev, hright.2.2.enter hm hprev' hhead hnext'⟩

/-- Backward links lead to the entry or stay inside the segment. -/
theorem Linked.prev_mem {next prev : α → α} {before after : α} {l : List α}
    (h : Linked next prev before l after) {a : α} (ha : a ∈ l) : prev a = before ∨ prev a ∈ l := by
  obtain ⟨l₁, l₂, rfl⟩ := List.append_of_mem ha
  have hp := (linked_append.mp h).2.1
  by_cases hl : l₁ = []
  · subst hl
    exact Or.inl hp
  · exact Or.inr (hp ▸ List.mem_append_left _ (getLastD_mem hl before))

/-! ## Walks that may never end -/

/-- From a node, following links as long as they lead to nodes of one kind, the
listed nodes are visited in this order, and the walk then stands at the last one
named here. -/
inductive Follows (next : α → α) (kind : α → Prop) : α → List α → α → Prop where
  /-- Nothing has been visited. -/
  | here (a : α) : Follows next kind a [] a
  /-- A node has been visited. -/
  | more {a b : α} {l : List α} (ha : kind a) (h : Follows next kind (next a) l b) :
      Follows next kind a (a :: l) b

section Walks

variable {next : α → α} {kind : α → Prop} {a b c : α} {l m : List α}

theorem Follows.mem (h : Follows next kind a l b) (hc : c ∈ l) : kind c := by
  induction h with
  | here a => cases hc
  | more ha h ih =>
    rcases List.mem_cons.mp hc with rfl | hc
    · exact ha
    · exact ih hc

/-- A walk that has ended has gone as far as any other one. -/
theorem Follows.initial (h : Follows next kind a l b) (hb : ¬kind b) (h' : Follows next kind a m c) :
    m <+: l := by
  induction h generalizing m with
  | here a =>
    cases h' with
    | here => exact List.prefix_rfl
    | more ha h' => exact absurd ha hb
  | more ha h ih =>
    cases h' with
    | here => exact List.nil_prefix
    | more ha' h' => exact (List.prefix_cons_inj _).mpr (ih hb h')

/-- From a node that has been visited, the rest of the walk is another one. -/
theorem Follows.rest (h : Follows next kind a l b) (hc : c ∈ l) :
    ∃ m, Follows next kind c m b ∧ m.length ≤ l.length := by
  induction h with
  | here a => cases hc
  | @more a b l ha h ih =>
    rcases List.mem_cons.mp hc with rfl | hc
    · exact ⟨_, .more ha h, Nat.le_refl _⟩
    · obtain ⟨m, hm, hlength⟩ := ih hc
      exact ⟨m, hm, Nat.le_succ_of_le hlength⟩

/-- A walk that ends visits no node twice. -/
theorem Follows.nodup (h : Follows next kind a l b) (hb : ¬kind b) : l.Nodup := by
  induction h with
  | here a => exact List.nodup_nil
  | @more a b l ha h ih =>
    refine List.nodup_cons.mpr ⟨fun hmem => ?_, ih hb⟩
    -- The rest of the walk would be the whole walk.
    obtain ⟨m, hm, hlength⟩ := h.rest hmem
    have hinitial := (hm.initial hb (.more ha h)).length_le
    rw [List.length_cons] at hinitial
    omega

/-- A node that points to itself is never left. -/
theorem Follows.not_of_loop (hloop : next a = a) (ha : kind a) (h : Follows next kind a l b) :
    kind b := by
  induction h with
  | here a => exact ha
  | more _ _ ih =>
    rw [hloop] at ih
    exact ih hloop ha

end Walks

end Uvisor.LinkedList
