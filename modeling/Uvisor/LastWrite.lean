import Mathlib.Data.List.Induction

/-!
# The last write wins

Some events write a bit and the others leave it alone. After a list of events
the bit has the value of the last write. A second reading of the same events,
in which more of them switch the bit off, gives another value exactly if one of
these comes after the last write and the bit has been on before it.
-/

namespace Uvisor.LastWrite

universe u

section Writes

variable {ε : Type u} {f g : ε → Option Bool} {init : Bool} {events : List ε}

/-- The bit after a list of events. -/
def written (f : ε → Option Bool) (init : Bool) (events : List ε) : Bool :=
  events.foldl (fun bit event => (f event).getD bit) init

@[simp] theorem written_nil : written f init [] = init := rfl

@[simp] theorem written_cons {event : ε} :
    written f init (event :: events) = written f ((f event).getD init) events := rfl

@[simp] theorem written_append {later : List ε} :
    written f init (events ++ later) = written f (written f init events) later :=
  List.foldl_append

/-- Events that do not write leave the bit alone. -/
theorem written_eq_self (h : ∀ event ∈ events, f event = none) : written f init events = init := by
  induction events with
  | nil => rfl
  | cons event events ih =>
    obtain ⟨hevent, hrest⟩ := List.forall_mem_cons.mp h
    rw [written_cons, hevent, Option.getD_none, ih hrest]

/-- The bit has been switched on last, or it has been on from the start. -/
def LastOn (f : ε → Option Bool) (init : Bool) (events : List ε) : Prop :=
  (init = true ∧ ∀ event ∈ events, f event ≠ some false) ∨
    ∃ before event after, events = before ++ event :: after ∧ f event = some true ∧
      ∀ event ∈ after, f event ≠ some false

/-- Then it is on, and only then. -/
theorem written_iff : written f init events = true ↔ LastOn f init events := by
  induction events using List.reverseRecOn with
  | nil =>
    constructor
    · intro h
      exact .inl ⟨h, fun event hmem => absurd hmem List.not_mem_nil⟩
    · rintro (⟨h, -⟩ | ⟨before, event, after, heq, -⟩)
      · exact h
      · simp at heq
  | append_singleton events event ih =>
    rw [written_append, written_cons, written_nil]
    cases hwrite : f event with
    | none =>
      rw [Option.getD_none, ih]
      constructor
      · rintro (⟨hinit, hnone⟩ | ⟨before, on, after, rfl, hon, hafter⟩)
        · refine .inl ⟨hinit, fun e he => ?_⟩
          rcases List.mem_append.mp he with he | he
          · exact hnone e he
          · rw [List.mem_singleton.mp he, hwrite]
            nofun
        · refine .inr ⟨before, on, after ++ [event], by simp, hon, fun e he => ?_⟩
          rcases List.mem_append.mp he with he | he
          · exact hafter e he
          · rw [List.mem_singleton.mp he, hwrite]
            nofun
      · rintro (⟨hinit, hnone⟩ | ⟨before, on, after, heq, hon, hafter⟩)
        · exact .inl ⟨hinit, fun e he => hnone e (List.mem_append_left _ he)⟩
        · rcases List.eq_nil_or_concat after with rfl | ⟨after, last, rfl⟩
          · obtain ⟨-, hlast⟩ := List.append_inj' heq rfl
            rw [← (List.cons.inj hlast).1, hwrite] at hon
            cases hon
          · have hsplit : events ++ [event] = (before ++ on :: after) ++ [last] := by
              rw [heq]
              simp
            obtain ⟨rfl, -⟩ := List.append_inj' hsplit rfl
            exact .inr ⟨before, on, after, rfl, hon, fun e he => hafter e (by simp [he])⟩
    | some bit =>
      rw [Option.getD_some]
      constructor
      · rintro rfl
        exact .inr ⟨events, event, [], rfl, hwrite, fun e he => absurd he List.not_mem_nil⟩
      · rintro (⟨-, hnone⟩ | ⟨before, on, after, heq, hon, hafter⟩)
        · have hlast := hnone event (by simp)
          rw [hwrite] at hlast
          cases bit with
          | true => rfl
          | false => exact absurd rfl hlast
        · rcases List.eq_nil_or_concat after with rfl | ⟨after, last, rfl⟩
          · obtain ⟨-, hlast⟩ := List.append_inj' heq rfl
            rw [← (List.cons.inj hlast).1, hwrite] at hon
            exact Option.some.inj hon
          · have hsplit : events ++ [event] = (before ++ on :: after) ++ [last] := by
              rw [heq]
              simp
            obtain ⟨-, hlast⟩ := List.append_inj' hsplit rfl
            have hoff := hafter event (by simp [(List.cons.inj hlast).1])
            rw [hwrite] at hoff
            cases bit with
            | true => rfl
            | false => exact absurd rfl hoff

/-- After the last write of one reading another reading switches the bit off,
which has been on. -/
def Undone (f g : ε → Option Bool) (init : Bool) (events : List ε) : Prop :=
  ∃ before event after, events = before ++ event :: after ∧ f event = none ∧
    g event = some false ∧ (∀ event ∈ after, f event = none) ∧ LastOn f init before

/-- Two readings agree up to such events. -/
theorem written_eq_iff (hextends : ∀ event bit, f event = some bit → g event = some bit)
    (hoff : ∀ event, f event = none → g event ≠ some true) :
    written g init events = written f init events ↔ ¬Undone f g init events := by
  constructor
  · -- Such an event switches the bit off for good.
    rintro heq ⟨before, event, after, rfl, hnone, hfalse, hafter, hon⟩
    rw [written_append, written_cons, hfalse, Option.getD_some, written_append, written_cons, hnone,
      Option.getD_none, written_eq_self hafter, written_iff.mpr hon] at heq
    have hstays : ∀ later : List ε, (∀ event ∈ later, f event = none) →
        written g false later = false := by
      intro later hlater
      induction later with
      | nil => rfl
      | cons e later ih =>
        obtain ⟨he, hrest⟩ := List.forall_mem_cons.mp hlater
        rw [written_cons]
        cases hg : g e with
        | none => exact ih hrest
        | some bit =>
          cases bit with
          | true => exact absurd hg (hoff e he)
          | false => exact ih hrest
    rw [hstays after hafter] at heq
    cases heq
  · intro hnot
    induction events using List.reverseRecOn with
    | nil => rfl
    | append_singleton events event ih =>
      rw [written_append, written_append, written_cons, written_cons, written_nil, written_nil]
      cases hf : f event with
      | some bit => rw [hextends event bit hf, Option.getD_some, Option.getD_some]
      | none =>
        have hbefore : written g init events = written f init events := by
          refine ih ?_
          rintro ⟨before, off, after, rfl, hnone, hfalse, hafter, hon⟩
          refine hnot ⟨before, off, after ++ [event], by simp, hnone, hfalse, fun e he => ?_, hon⟩
          rcases List.mem_append.mp he with he | he
          · exact hafter e he
          · rw [List.mem_singleton.mp he, hf]
        rw [hbefore, Option.getD_none]
        cases hg : g event with
        | none => rfl
        | some bit =>
          cases bit with
          | true => exact absurd hg (hoff event hf)
          | false =>
            rw [Option.getD_some, eq_comm, Bool.eq_false_iff]
            exact fun hon => hnot ⟨events, event, [], rfl, hf, hg,
              fun e he => absurd he List.not_mem_nil, written_iff.mp hon⟩

end Writes

end Uvisor.LastWrite
