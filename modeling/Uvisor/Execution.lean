import Mathlib.Algebra.GroupWithZero.Nat
import Mathlib.Order.Basic
import Mathlib.Data.Set.Basic

/-!
# Loops that may never break and runs of guarded actions

A loop body reports whether control goes round again, leaves the loop, or is
lost inside the body. Running it with fuel is computable; termination asks
for some sufficient fuel. Loops over a list are folds. Runs of a labelled
transition function collect the states reached by actions that all meet a
stated condition.
-/

namespace Uvisor.Execution

universe u v

/-- Outcome of one pass through a loop body. -/
inductive Flow (σ : Type u) where
  /-- Control reaches the loop head again in this state. -/
  | next (state : σ)
  /-- A break statement leaves the loop in this state. -/
  | stop (state : σ)
  /-- The body itself never returns. -/
  | hang

section Loops

variable {σ : Type u} {body : σ → Flow σ}

/-- Run the body at most the given number of times. The result is missing
when no break has been reached by then. -/
def iterate (body : σ → Flow σ) : ℕ → σ → Option σ
  | 0, _ => none
  | fuel+1, s =>
    match body s with
    | .next t => iterate body fuel t
    | .stop t => some t
    | .hang => none

/-- The state in which a loop leaves does not depend on the fuel. -/
theorem iterate_unique {fuel fuel' : ℕ} {s t t' : σ} (h : iterate body fuel s = some t)
    (h' : iterate body fuel' s = some t') : t' = t := by
  induction fuel generalizing s fuel' with
  | zero => cases h
  | succ fuel ih =>
    cases fuel' with
    | zero => cases h'
    | succ fuel' =>
      rw [iterate] at h h'
      cases hb : body s with
      | next u =>
        rw [hb] at h h'
        exact ih h h'
      | stop u =>
        rw [hb] at h h'
        exact (Option.some.inj h').symm.trans (Option.some.inj h)
      | hang =>
        rw [hb] at h
        cases h

/-- Some finite number of passes reaches a break. -/
def Terminates (body : σ → Flow σ) (s : σ) : Prop :=
  ∃ fuel, (iterate body fuel s).isSome

theorem terminates_of_stop {s t : σ} (h : body s = .stop t) : Terminates body s :=
  ⟨1, by simp [iterate, h]⟩

/-- A pass that goes round again neither gains nor loses termination. -/
theorem terminates_next_iff {s t : σ} (h : body s = .next t) :
    Terminates body s ↔ Terminates body t := by
  constructor
  · rintro ⟨fuel, hf⟩
    cases fuel with
    | zero => simp [iterate] at hf
    | succ fuel => exact ⟨fuel, by simpa [iterate, h] using hf⟩
  · rintro ⟨fuel, hf⟩
    exact ⟨fuel+1, by simpa [iterate, h] using hf⟩

/-- A measure that drops on every further pass inside an invariant, together
with the absence of lost passes, gives termination. -/
theorem terminates_of_measure (inv : σ → Prop) (measure : σ → ℕ)
    (hhang : ∀ s, inv s → body s ≠ .hang)
    (hnext : ∀ s t, inv s → body s = .next t → inv t ∧ measure t < measure s)
    {s : σ} (hs : inv s) : Terminates body s := by
  induction hm : measure s using Nat.strongRecOn generalizing s with
  | _ m ih =>
    cases hb : body s with
    | next t =>
      obtain ⟨ht, hlt⟩ := hnext s t hs hb
      exact (terminates_next_iff hb).mpr (ih (measure t) (hm ▸ hlt) ht rfl)
    | stop t => exact terminates_of_stop hb
    | hang => exact absurd hb (hhang s hs)

/-- Outcomes of two bodies that keep their states related. -/
def Flow.Related {τ : Type v} (rel : σ → τ → Prop) : Flow σ → Flow τ → Prop
  | .next s, .next t => rel s t
  | .stop s, .stop t => rel s t
  | .hang, .hang => True
  | _, _ => False

/-- Loops whose bodies simulate each other terminate together. -/
theorem terminates_iff_of_related {τ : Type v} {body' : τ → Flow τ} {rel : σ → τ → Prop}
    (hbody : ∀ s t, rel s t → Flow.Related rel (body s) (body' t)) {s : σ} {t : τ}
    (hrel : rel s t) : Terminates body s ↔ Terminates body' t := by
  have hfuel : ∀ fuel s t, rel s t →
      (iterate body fuel s).isSome = (iterate body' fuel t).isSome := by
    intro fuel
    induction fuel with
    | zero => simp [iterate]
    | succ fuel ih =>
      intro s t hst
      have hb := hbody s t hst
      cases hs : body s <;> cases ht : body' t <;>
        simp only [hs, ht, Flow.Related] at hb <;> simp only [iterate, hs, ht, Option.isSome_some,
          Option.isSome_none]
      exact ih _ _ hb
  exact exists_congr fun fuel => by rw [hfuel fuel s t hrel]

/-- States in which the loop head is visited, from one entry state. -/
inductive Visits (body : σ → Flow σ) (entry : σ) : σ → Prop where
  | entry : Visits body entry entry
  | next {s t : σ} (hs : Visits body entry s) (hb : body s = .next t) : Visits body entry t

/-- What holds at entry and survives a pass holds at every visit of the head. -/
theorem Visits.invariant (inv : σ → Prop) {entry s : σ} (hv : Visits body entry s)
    (hentry : inv entry) (hnext : ∀ s t, inv s → body s = .next t → inv t) : inv s := by
  induction hv with
  | entry => exact hentry
  | next _ hb ih => exact hnext _ _ ih hb

/-- A loop that leaves has visited the state in which it does. -/
theorem visits_of_iterate {fuel : ℕ} {s t : σ} (h : iterate body fuel s = some t) :
    ∃ r, Visits body s r ∧ body r = .stop t := by
  have hgen : ∀ fuel r, Visits body s r → iterate body fuel r = some t →
      ∃ r, Visits body s r ∧ body r = .stop t := by
    intro fuel
    induction fuel with
    | zero =>
      intro r _ hr
      cases hr
    | succ fuel ih =>
      intro r hv hr
      cases hb : body r with
      | next r' =>
        rw [iterate, hb] at hr
        exact ih r' (hv.next hb) hr
      | stop r' =>
        rw [iterate, hb] at hr
        obtain rfl := Option.some.inj hr
        exact ⟨r, hv, hb⟩
      | hang =>
        rw [iterate, hb] at hr
        cases hr
  exact hgen fuel s .entry h

/-- Outcome of one pass whose own loops run with fuel. -/
inductive Pass (σ : Type u) where
  /-- Control reaches the loop head again in this state. -/
  | next (state : σ)
  /-- A break statement leaves the loop in this state. -/
  | stop (state : σ)
  /-- The fuel of a loop in the body has run out in this state. -/
  | cut (state : σ)

/-- The state that a pass has reached. -/
def Pass.state : Pass σ → σ
  | .next s => s
  | .stop s => s
  | .cut s => s

/-- Run the body at most the given number of times. The first result says
whether a break has been reached, the second one is the state reached. -/
def attempt (body : σ → Pass σ) : ℕ → σ → Bool × σ
  | 0, s => (false, s)
  | fuel+1, s =>
    match body s with
    | .next t => attempt body fuel t
    | .stop t => (true, t)
    | .cut t => (false, t)

/-- What every pass keeps holds in the state reached. -/
theorem attempt_invariant {body : σ → Pass σ} (inv : σ → Prop)
    (hbody : ∀ s, inv s → inv (body s).state) (fuel : ℕ) {s : σ} (hs : inv s) :
    inv (attempt body fuel s).2 := by
  induction fuel generalizing s with
  | zero => exact hs
  | succ fuel ih =>
    have hpass := hbody s hs
    rw [attempt]
    cases hb : body s with
    | next t =>
      rw [hb] at hpass
      exact ih hpass
    | stop t =>
      rw [hb] at hpass
      exact hpass
    | cut t =>
      rw [hb] at hpass
      exact hpass

/-- The outcome of a pass without the state in which its fuel has run out. -/
def Pass.flow : Pass σ → Flow σ
  | .next s => .next s
  | .stop s => .stop s
  | .cut _ => .hang

theorem Pass.flow_eq_next {p : Pass σ} {t : σ} : p.flow = .next t ↔ p = .next t := by
  cases p <;> simp [Pass.flow]

/-- What is visited after the first pass is visited. -/
theorem Visits.cons {s t u : σ} (hb : body s = .next t) (hv : Visits body t u) :
    Visits body s u := by
  induction hv with
  | entry => exact .next .entry hb
  | next _ hb ih => exact .next ih hb

/-- A visit is the first one, or it comes after the first pass. -/
theorem Visits.cases_entry {s t : σ} (hv : Visits body s t) :
    t = s ∨ ∃ u, body s = .next u ∧ Visits body u t := by
  induction hv with
  | entry => exact .inl rfl
  | next hv hb ih =>
    rcases ih with rfl | ⟨u, hu, hrest⟩
    · exact .inr ⟨_, hb, .entry⟩
    · exact .inr ⟨u, hu, hrest.next hb⟩

/-- Check a condition at every visit of the head of a loop that leaves within
the fuel. -/
def checkVisits (body : σ → Pass σ) (check : σ → Bool) : ℕ → σ → Bool
  | 0, _ => false
  | fuel+1, s =>
    check s && match body s with
    | .next t => checkVisits body check fuel t
    | .stop _ | .cut _ => true

theorem checkVisits_sound {body : σ → Pass σ} {check : σ → Bool} {fuel : ℕ} {s t : σ}
    (h : checkVisits body check fuel s = true) (hv : Visits (fun s => (body s).flow) s t) :
    check t = true := by
  induction fuel generalizing s with
  | zero => cases h
  | succ fuel ih =>
    rw [checkVisits, Bool.and_eq_true] at h
    rcases hv.cases_entry with rfl | ⟨u, hu, hrest⟩
    · exact h.1
    · have hmore := h.2
      rw [Pass.flow_eq_next.mp hu] at hmore
      exact ih hmore hrest

/-- A condition to which every pass adds its own holds for all fuel exactly if
the one of the pass holds at every visit of the loop head. -/
theorem attempt_all_iff {body : σ → Pass σ} {good pass : σ → Prop}
    (hpass : ∀ s, good (body s).state ↔ good s ∧ pass s) {s : σ} (hs : good s) :
    (∀ fuel, good (attempt body fuel s).2) ↔
      ∀ t, Visits (fun s => (body s).flow) s t → pass t := by
  constructor
  · intro h t hv
    have hrest : ∀ fuel, good (attempt body fuel t).2 := by
      induction hv with
      | entry => exact h
      | next _ hb ih =>
        intro fuel
        have hmore := ih (fuel+1)
        rwa [attempt, Pass.flow_eq_next.mp hb] at hmore
    have hone : (attempt body 1 t).2 = (body t).state := by
      rw [attempt]
      cases body t <;> rfl
    have hgood := hrest 1
    rw [hone, hpass] at hgood
    exact hgood.2
  · intro h fuel
    induction fuel generalizing s with
    | zero => exact hs
    | succ fuel ih =>
      have hgood := (hpass s).mpr ⟨hs, h s .entry⟩
      rw [attempt]
      cases hb : body s with
      | next t =>
        rw [hb] at hgood
        exact ih hgood fun u hu => h u (hu.cons (Pass.flow_eq_next.mpr hb))
      | stop t =>
        rw [hb] at hgood
        exact hgood
      | cut t =>
        rw [hb] at hgood
        exact hgood

/-- The outcome of a pass seen through a map of the states. -/
def Pass.map {τ : Type v} (f : σ → τ) : Pass σ → Pass τ
  | .next s => .next (f s)
  | .stop s => .stop (f s)
  | .cut s => .cut (f s)

section Maps

variable {τ : Type v} {body : σ → Pass σ} {body' : τ → Pass τ} {f : σ → τ}

/-- A loop does what a loop with a larger state does. -/
theorem attempt_map (hbody : ∀ s, (body s).map f = body' (f s)) (fuel : ℕ) (s : σ) :
    attempt body' fuel (f s) = ((attempt body fuel s).1, f (attempt body fuel s).2) := by
  induction fuel generalizing s with
  | zero => rfl
  | succ fuel ih =>
    rw [attempt, attempt, ← hbody]
    cases body s with
    | next t => exact ih t
    | stop t => rfl
    | cut t => rfl

theorem visits_map (hbody : ∀ s, (body s).map f = body' (f s)) {s : σ} {t : τ} :
    Visits (fun s => (body' s).flow) (f s) t ↔
      ∃ u, Visits (fun s => (body s).flow) s u ∧ f u = t := by
  constructor
  · intro hv
    induction hv with
    | entry => exact ⟨s, .entry, rfl⟩
    | next _ hb ih =>
      obtain ⟨u, hu, rfl⟩ := ih
      have hnext := Pass.flow_eq_next.mp hb
      rw [← hbody] at hnext
      cases hu' : body u with
      | next w =>
        rw [hu'] at hnext
        exact ⟨w, hu.next (Pass.flow_eq_next.mpr hu'), Pass.next.inj hnext⟩
      | stop w =>
        rw [hu'] at hnext
        cases hnext
      | cut w =>
        rw [hu'] at hnext
        cases hnext
  · rintro ⟨u, hu, rfl⟩
    induction hu with
    | entry => exact .entry
    | next _ hb ih =>
      refine ih.next (Pass.flow_eq_next.mpr ?_)
      rw [← hbody, Pass.flow_eq_next.mp hb]
      rfl

end Maps

end Loops

section Folds

variable {σ : Type u} {α : Type v} {n : ℕ} {s : σ}

/-- What no pass changes is unchanged after all of them. -/
theorem foldl_keeps {τ : Type v} {body : σ → α → σ} (value : σ → τ)
    (hbody : ∀ s a, value (body s a) = value s) (l : List α) (s : σ) :
    value (l.foldl body s) = value s := by
  induction l generalizing s with
  | nil => rfl
  | cons a l ih => rw [List.foldl_cons, ih, hbody]

/-- A counting loop goes through known states. -/
theorem foldl_range_eq {body : σ → ℕ → σ} (after : ℕ → σ) (hstart : after 0 = s)
    (hstep : ∀ i < n, body (after i) i = after (i+1)) : (List.range n).foldl body s = after n := by
  induction n with
  | zero => exact hstart.symm
  | succ n ih =>
    rw [List.range_succ, List.foldl_append, ih fun i hi => hstep i (Nat.lt_succ_of_lt hi),
      List.foldl_cons, List.foldl_nil, hstep n (Nat.lt_succ_self n)]

/-- Writing the next value of a table that is filled from the start. -/
theorem update_below {τ : Type v} {new old : ℕ → τ} :
    Function.update (fun i => if i < n then new i else old i) n (new n) =
      fun i => if i < n+1 then new i else old i := by
  funext i
  rcases lt_trichotomy i n with hlt | rfl | hgt
  · rw [Function.update_of_ne hlt.ne, if_pos hlt, if_pos (Nat.lt_succ_of_lt hlt)]
  · rw [Function.update_self, if_pos (Nat.lt_succ_self i)]
  · rw [Function.update_of_ne hgt.ne', if_neg (not_lt.mpr hgt.le), if_neg (not_lt.mpr hgt)]

/-- A loop over a range sets a value in the pass that is about it, if there is
one. -/
theorem foldl_range'_writes {τ : Type v} {body : σ → ℕ → σ} (value : σ → τ) (new : τ) {i : ℕ}
    (hbody : ∀ s a, value (body s a) = if i = a then new else value s) (low count : ℕ) (s : σ) :
    value ((List.range' low count).foldl body s) =
      if low ≤ i ∧ i < low+count then new else value s := by
  induction count generalizing low s with
  | zero =>
    rw [if_neg (by omega)]
    rfl
  | succ count ih =>
    rw [List.range'_succ, List.foldl_cons, ih, hbody]
    by_cases heq : i = low
    · rw [if_pos heq, if_pos (by omega : low ≤ i ∧ i < low+(count+1)), ite_self]
    · rw [if_neg heq]
      by_cases hrange : low+1 ≤ i ∧ i < low+1+count
      · rw [if_pos hrange, if_pos (by omega)]
      · rw [if_neg hrange, if_neg (by omega)]

end Folds

section Runs

variable {σ : Type u} {α : Type v} {init : σ → Prop} {step : σ → α → Option σ}
  {allowed : σ → α → Prop}

/-- States reached from an initial one by enabled actions that all meet the
stated condition in the state they are taken in. -/
inductive Reachable (init : σ → Prop) (step : σ → α → Option σ) (allowed : σ → α → Prop) :
    σ → Prop where
  | start {s : σ} (h : init s) : Reachable init step allowed s
  | step {s t : σ} {a : α} (h : Reachable init step allowed s) (ha : allowed s a)
      (hs : step s a = some t) : Reachable init step allowed t

/-- The induction rule of runs: an invariant is checked at the start and
across one allowed action. -/
theorem Reachable.invariant (inv : σ → Prop) (hinit : ∀ s, init s → inv s)
    (hstep : ∀ s a t, inv s → allowed s a → step s a = some t → inv t)
    {s : σ} (h : Reachable init step allowed s) : inv s := by
  induction h with
  | start h => exact hinit _ h
  | step _ ha hs ih => exact hstep _ _ _ ih ha hs

/-- A run goes on from where another one has ended. -/
theorem Reachable.trans {s t : σ} (h : Reachable init step allowed s)
    (h' : Reachable (fun r => r = s) step allowed t) : Reachable init step allowed t := by
  induction h' with
  | start hs => exact hs ▸ h
  | step _ ha hs ih => exact .step ih ha hs

/-- A run under one condition is a run under every weaker one. -/
theorem Reachable.mono {allowed' : σ → α → Prop} (hallowed : ∀ s a, allowed s a → allowed' s a)
    {s : σ} (h : Reachable init step allowed s) : Reachable init step allowed' s := by
  induction h with
  | start h => exact .start h
  | step _ ha hs ih => exact .step ih (hallowed _ _ ha) hs

/-- Take a list of actions in order. -/
def exec (step : σ → α → Option σ) : List α → σ → Option σ
  | [], s => some s
  | a :: actions, s => (step s a).bind (exec step actions)

theorem exec_append (actions rest : List α) (s : σ) :
    exec step (actions ++ rest) s = (exec step actions s).bind (exec step rest) := by
  induction actions generalizing s with
  | nil => rfl
  | cons a actions ih =>
    rw [List.cons_append, exec, exec, Option.bind_assoc]
    exact congrArg _ (funext ih)

/-- The last action of a list is taken in the state that the others lead to. -/
theorem exec_concat (actions : List α) (a : α) (s : σ) :
    exec step (actions ++ [a]) s = (exec step actions s).bind fun t => step t a := by
  rw [exec_append]
  congr 1
  funext t
  exact Option.bind_fun_some (step t a)

/-- An executed list of actions that are allowed in every state is a run. -/
theorem exec_reachable_of_allowed {actions : List α} {s t : σ}
    (hall : ∀ a ∈ actions, ∀ s, allowed s a) (h : Reachable init step allowed s)
    (he : exec step actions s = some t) : Reachable init step allowed t := by
  induction actions generalizing s with
  | nil => simpa [exec, ← Option.some.inj he] using h
  | cons a actions ih =>
    obtain ⟨s', hs, ht⟩ := Option.bind_eq_some_iff.mp he
    exact ih (fun b hb => hall b (List.mem_cons_of_mem _ hb)) (h.step (hall a (by simp) s) hs) ht

/-- An executed list of actions is a run of the unconstrained system. -/
theorem exec_reachable {actions : List α} {s t : σ}
    (h : Reachable init step (fun _ _ => True) s) (he : exec step actions s = some t) :
    Reachable init step (fun _ _ => True) t :=
  exec_reachable_of_allowed (fun _ _ _ => trivial) h he

/-- Take a list of actions in order, as long as they meet a condition. -/
def execWithin (step : σ → α → Option σ) (allowed : σ → α → Prop)
    [∀ s a, Decidable (allowed s a)] : List α → σ → Option σ
  | [], s => some s
  | a :: actions, s =>
    if allowed s a then (step s a).bind (execWithin step allowed actions) else none

/-- An executed list of actions that meet the condition is a run. -/
theorem execWithin_reachable [∀ s a, Decidable (allowed s a)] {actions : List α} {s t : σ}
    (h : Reachable init step allowed s) (he : execWithin step allowed actions s = some t) :
    Reachable init step allowed t := by
  induction actions generalizing s with
  | nil => simpa [execWithin, ← Option.some.inj he] using h
  | cons a actions ih =>
    unfold execWithin at he
    split at he
    · rename_i ha
      obtain ⟨s', hs, ht⟩ := Option.bind_eq_some_iff.mp he
      exact ih (h.step ha hs) ht
    · cases he

end Runs

end Uvisor.Execution
