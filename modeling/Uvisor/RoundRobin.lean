import Uvisor.Execution
import Mathlib.Tactic.Common

/-!
# Round robins with priorities

The slots of a range are visited one after the other, and after the last one
comes the first. A search goes on until it finds a slot whose priority is
lower than a given one, or until it is back at its start.
-/

namespace Uvisor.RoundRobin

open Execution

/-- The slot after a slot. -/
def next (low high slot : ℕ) : ℕ := if high ≤ slot+1 then low else slot+1

/-- Where a search stands, and whether it has found a slot. -/
structure Search where
  /-- The slot that was looked at last. -/
  slot : ℕ
  /-- The slot has a lower priority. -/
  found : Bool
  deriving DecidableEq

/-- One pass of the loop of a search. -/
def searchBody (low high : ℕ) (priorities : ℕ → ℕ) (priority start : ℕ) (st : Search) :
    Flow Search :=
  let slot := next low high st.slot
  if priorities slot < priority then .stop ⟨slot, true⟩
  else if slot ≠ start then .next ⟨slot, false⟩
  else .stop ⟨slot, false⟩

/-- A search with a number of passes. -/
def searchFrom (low high : ℕ) (priorities : ℕ → ℕ) (priority start : ℕ) : ℕ → ℕ → Search
  | 0, slot => ⟨slot, false⟩
  | passes+1, slot =>
    let slot := next low high slot
    if priorities slot < priority then ⟨slot, true⟩
    else if slot ≠ start then searchFrom low high priorities priority start passes slot
    else ⟨slot, false⟩

/-- A search through one round. -/
def search (low high : ℕ) (priorities : ℕ → ℕ) (priority start : ℕ) : Search :=
  searchFrom low high priorities priority start (high-low) start

/-- Number of passes from a slot to the start of the search. -/
def distance (low high start slot : ℕ) : ℕ :=
  if slot < start then start-slot else high-slot+(start-low)

section Searches

variable {low high priority start slot : ℕ} {priorities : ℕ → ℕ}

theorem next_range (h : low ≤ slot) (hlt : low < high) :
    low ≤ next low high slot ∧ next low high slot < high := by
  unfold next
  split <;> omega

/-- A pass comes one slot closer to the start. -/
theorem distance_next (hslot : low ≤ slot ∧ slot < high) (hstart : low ≤ start ∧ start < high)
    (hne : next low high slot ≠ start) :
    distance low high start (next low high slot)+1 = distance low high start slot := by
  unfold next at hne ⊢
  unfold distance
  split at hne
  · rename_i hhigh
    rw [if_pos hhigh]
    split <;> split <;> omega
  · rename_i hhigh
    rw [if_neg hhigh]
    split <;> split <;> omega

theorem distance_pos (hslot : slot < high) : 0 < distance low high start slot := by
  unfold distance
  split <;> omega

theorem distance_start : distance low high start start = high-start+(start-low) := by
  simp [distance]

/-- The slots that are not closer to the start than the next one have been seen. -/
theorem distance_inj {i : ℕ} (hi : low ≤ i ∧ i < high) (hslot : low ≤ slot ∧ slot < high)
    (h : distance low high start i = distance low high start slot) : i = slot := by
  unfold distance at h
  split at h <;> split at h <;> omega

/-- The loop ends after at most one round, with the result of the search. -/
theorem iterate_searchBody (hslot : low ≤ slot ∧ slot < high)
    (hstart : low ≤ start ∧ start < high) {passes : ℕ}
    (hpasses : distance low high start slot ≤ passes) :
    iterate (searchBody low high priorities priority start) passes ⟨slot, false⟩ =
      some (searchFrom low high priorities priority start passes slot) := by
  induction passes generalizing slot with
  | zero =>
    have hpos := @distance_pos low high start slot hslot.2
    omega
  | succ passes ih =>
    by_cases hfound : priorities (next low high slot) < priority
    · simp only [iterate, searchBody, searchFrom, if_pos hfound]
    · by_cases hback : next low high slot ≠ start
      · have hcloser := distance_next hslot hstart hback
        simp only [iterate, searchBody, searchFrom, if_neg hfound, if_pos hback]
        exact ih (next_range hslot.1 (by omega)) (by omega)
      · simp only [iterate, searchBody, searchFrom, if_neg hfound, if_neg hback]

/-- What a search has found when it began so far from its start. -/
theorem searchFrom_spec (hslot : low ≤ slot ∧ slot < high) (hstart : low ≤ start ∧ start < high) :
    let result := searchFrom low high priorities priority start (distance low high start slot) slot
    (low ≤ result.slot ∧ result.slot < high) ∧
      (result.found = true → priorities result.slot < priority) ∧
      (result.found = false → result.slot = start ∧ ∀ i, low ≤ i → i < high →
        i = start ∨ distance low high start i < distance low high start slot →
          priority ≤ priorities i) := by
  induction hd : distance low high start slot generalizing slot with
  | zero =>
    have hpos := @distance_pos low high start slot hslot.2
    omega
  | succ passes ih =>
    have hnext := next_range hslot.1 (show low < high by omega)
    by_cases hfound : priorities (next low high slot) < priority
    · simp only [searchFrom, if_pos hfound]
      exact ⟨hnext, fun _ => hfound, fun h => by cases h⟩
    · by_cases hback : next low high slot ≠ start
      · have hcloser := distance_next hslot hstart hback
        simp only [searchFrom, if_neg hfound, if_pos hback]
        obtain ⟨hrange, hlower, hround⟩ := ih hnext (by omega)
        refine ⟨hrange, hlower, fun h => ⟨(hround h).1, fun i hlow hhigh hi => ?_⟩⟩
        by_cases heq : i = next low high slot
        · rw [heq]
          omega
        · refine (hround h).2 i hlow hhigh (hi.imp_right fun hlt => ?_)
          have hne : distance low high start i ≠ distance low high start (next low high slot) :=
            fun he => heq (distance_inj ⟨hlow, hhigh⟩ hnext he)
          omega
      · simp only [searchFrom, if_neg hfound, if_neg hback]
        rw [not_not] at hback
        refine ⟨hnext, fun h => (by cases h), fun _ => ⟨hback, fun i hlow hhigh hi => ?_⟩⟩
        rcases hi with rfl | hi
        · rw [hback] at hfound
          omega
        · have hone : passes = 0 := by
            unfold next at hback
            unfold distance at hd
            split at hback <;> split at hd <;> omega
          have hpos := @distance_pos low high start i hhigh
          omega

/-- A search ends at a slot of lower priority, or back at its start when there
is none. -/
theorem search_spec (hstart : low ≤ start ∧ start < high) :
    let result := search low high priorities priority start
    (low ≤ result.slot ∧ result.slot < high) ∧
      (result.found = true → priorities result.slot < priority) ∧
      (result.found = false → result.slot = start ∧ ∀ i, low ≤ i → i < high →
        priority ≤ priorities i) := by
  have hdistance : distance low high start start = high-low := by
    rw [distance_start]
    omega
  obtain ⟨hrange, hlower, hround⟩ :=
    @searchFrom_spec low high priority start start priorities hstart hstart
  rw [hdistance] at hrange hlower hround
  refine ⟨hrange, hlower, fun h => ⟨(hround h).1, fun i hlow hhigh =>
    (hround h).2 i hlow hhigh ?_⟩⟩
  by_cases hi : i = start
  · exact .inl hi
  · refine .inr ?_
    unfold distance
    split <;> omega

/-- The loop ends with the result of the search. -/
theorem iterate_search (hstart : low ≤ start ∧ start < high) :
    iterate (searchBody low high priorities priority start) (high-low) ⟨start, false⟩ =
      some (search low high priorities priority start) := by
  refine iterate_searchBody hstart hstart ?_
  rw [distance_start]
  omega

/-- A search takes the very next slot if that has a lower priority. -/
theorem search_next (hstart : low ≤ start ∧ start < high)
    (h : priorities (next low high start) < priority) :
    search low high priorities priority start = ⟨next low high start, true⟩ := by
  have hpasses : high-low = high-low-1+1 := by omega
  rw [search, hpasses]
  simp only [searchFrom, if_pos h]

end Searches

end Uvisor.RoundRobin
