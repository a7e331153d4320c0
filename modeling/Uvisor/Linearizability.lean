import Mathlib.Data.List.Nodup

/-!
# Objects that are used by several threads at once

A history records when operations are called and when they return. It is
linearizable when the operations can be put into one order in which they go
as the object says, and which has every operation that returned before the
call of another one in front of it. For that it is enough that every operation
takes effect at one moment between its call and its return.
-/

namespace Uvisor.Linearizability

universe u v w

/-! ## Histories -/

/-- What the users of an object see. -/
inductive Event (Op : Type u) (Res : Type v) where
  /-- An operation is called, under a number of its own. -/
  | invoke (id : ℕ) (op : Op)
  /-- The operation with that number returns. -/
  | respond (id : ℕ) (res : Res)

/-- An operation with its result. -/
structure Call (Op : Type u) (Res : Type v) where
  /-- Number of the call. -/
  id : ℕ
  /-- The operation. -/
  op : Op
  /-- What it returns. -/
  res : Res

/-- A record that also has the moments at which operations take effect. -/
inductive Entry (Op : Type u) (Res : Type v) where
  | visible (event : Event Op Res)
  | effect (call : Call Op Res)

section Histories

variable {σ : Type w} {Op : Type u} {Res : Type v}

/-- The part of a record that the users see. -/
def history (log : List (Entry Op Res)) : List (Event Op Res) :=
  log.filterMap fun
    | .visible event => some event
    | .effect _ => none

/-- The operations in the order of their effects. -/
def effects (log : List (Entry Op Res)) : List (Call Op Res) :=
  log.filterMap fun
    | .visible _ => none
    | .effect call => some call

/-- The operations of a list are possible one after the other. -/
inductive Legal (Goes : σ → Op → Res → σ → Prop) (s : σ) : List (Call Op Res) → σ → Prop where
  | nil : Legal Goes s [] s
  | snoc {calls : List (Call Op Res)} {t t' : σ} {call : Call Op Res} (h : Legal Goes s calls t)
      (hgoes : Goes t call.op call.res t') : Legal Goes s (calls ++ [call]) t'

/-- An order of operations that explains a history. -/
structure Linearization (Goes : σ → Op → Res → σ → Prop) (s : σ) (events : List (Event Op Res))
    (order : List (Call Op Res)) : Prop where
  /-- One after the other, the operations go as the object says. -/
  legal : ∃ t, Legal Goes s order t
  /-- No operation is there twice. -/
  nodup : (order.map Call.id).Nodup
  /-- Only operations that have been called are there. -/
  invoked : ∀ call ∈ order, .invoke call.id call.op ∈ events
  /-- All operations that have returned are there, with what they returned. -/
  responded : ∀ id res, .respond id res ∈ events → ∃ call ∈ order, call.id = id ∧ call.res = res
  /-- An operation that returned before the call of another one is in front of it. -/
  realTime : ∀ first ∈ order, ∀ second ∈ order, ∀ res,
    [.respond first.id res, .invoke second.id second.op].Sublist events →
      [first, second].Sublist order

/-- Some order of operations explains a history. -/
def Linearizable (Goes : σ → Op → Res → σ → Prop) (s : σ) (events : List (Event Op Res)) : Prop :=
  ∃ order, Linearization Goes s events order

/-! ## Records -/

/-- What may come next in a record. -/
def Follows (log : List (Entry Op Res)) : Entry Op Res → Prop
  | .visible (.invoke id _) => ∀ op, .invoke id op ∉ history log
  | .visible (.respond id res) => ∃ call ∈ effects log, call.id = id ∧ call.res = res
  | .effect call => .invoke call.id call.op ∈ history log ∧
      ∀ other ∈ effects log, other.id ≠ call.id

/-- Every operation takes effect once at most, after its call and before its
return. -/
inductive Recorded : List (Entry Op Res) → Prop where
  | nil : Recorded []
  | snoc {log : List (Entry Op Res)} {entry : Entry Op Res} (h : Recorded log)
      (hfollows : Follows log entry) : Recorded (log ++ [entry])

@[simp] theorem history_append (log log' : List (Entry Op Res)) :
    history (log ++ log') = history log ++ history log' :=
  List.filterMap_append

@[simp] theorem effects_append (log log' : List (Entry Op Res)) :
    effects (log ++ log') = effects log ++ effects log' :=
  List.filterMap_append

@[simp] theorem history_visible (event : Event Op Res) : history [.visible event] = [event] := rfl

@[simp] theorem history_effect (call : Call Op Res) :
    history [(.effect call : Entry Op Res)] = [] := rfl

@[simp] theorem effects_visible (event : Event Op Res) :
    effects [(.visible event : Entry Op Res)] = [] := rfl

@[simp] theorem effects_effect (call : Call Op Res) : effects [.effect call] = [call] := rfl

/-- Two elements in order at the end of a list. -/
theorem pair_sublist_concat_iff {α : Type u} {first second last : α} {l : List α} :
    [first, second].Sublist (l ++ [last]) ↔
      [first, second].Sublist l ∨ second = last ∧ first ∈ l := by
  constructor
  · intro h
    obtain ⟨l₁, l₂, heq, h₁, h₂⟩ := List.sublist_append_iff.mp h
    rcases List.sublist_singleton.mp h₂ with rfl | rfl
    · rw [List.append_nil] at heq
      exact .inl (heq ▸ h₁)
    · have hsplit : [first] ++ [second] = l₁ ++ [last] := heq
      obtain ⟨rfl, hlast⟩ := List.append_inj' hsplit rfl
      exact .inr ⟨(List.cons.inj hlast).1, List.singleton_sublist.mp h₁⟩
  · rintro (h | ⟨rfl, h⟩)
    · exact h.trans (List.sublist_append_left l _)
    · exact (List.singleton_sublist.mpr h).append (List.Sublist.refl [second])

/-! ## Moments of effect -/

section Records

variable {log : List (Entry Op Res)} {entry : Entry Op Res} {call : Call Op Res} {id : ℕ}
  {res : Res}

/-- What has an effect has been called. -/
theorem Recorded.invoked (h : Recorded log) (hcall : call ∈ effects log) :
    .invoke call.id call.op ∈ history log := by
  induction h with
  | nil => cases hcall
  | snoc h hfollows ih =>
    rw [history_append]
    rw [effects_append] at hcall
    rcases List.mem_append.mp hcall with hold | hnew
    · exact List.mem_append_left _ (ih hold)
    · rename_i entry
      cases entry with
      | visible event => cases hnew
      | effect other =>
        obtain rfl := List.mem_singleton.mp hnew
        exact List.mem_append_left _ hfollows.1

/-- What has returned has had its effect. -/
theorem Recorded.responded (h : Recorded log) (hres : .respond id res ∈ history log) :
    ∃ call ∈ effects log, call.id = id ∧ call.res = res := by
  induction h with
  | nil => cases hres
  | snoc h hfollows ih =>
    rw [effects_append]
    rw [history_append] at hres
    rcases List.mem_append.mp hres with hold | hnew
    · obtain ⟨call, hcall, hid⟩ := ih hold
      exact ⟨call, List.mem_append_left _ hcall, hid⟩
    · rename_i entry
      cases entry with
      | effect other => cases hnew
      | visible event =>
        obtain rfl := List.mem_singleton.mp hnew
        obtain ⟨call, hcall, hid⟩ := hfollows
        exact ⟨call, List.mem_append_left _ hcall, hid⟩

/-- Nothing has two effects. -/
theorem Recorded.nodup (h : Recorded log) : ((effects log).map Call.id).Nodup := by
  induction h with
  | nil => exact List.nodup_nil
  | snoc h hfollows ih =>
    rename_i entry
    rw [effects_append]
    cases entry with
    | visible event => simpa using ih
    | effect other =>
      rw [List.map_append]
      refine List.Nodup.append ih (List.nodup_singleton _) fun id hid hother => ?_
      obtain ⟨call, hcall, rfl⟩ := List.mem_map.mp hid
      exact hfollows.2 call hcall (List.mem_singleton.mp hother)

/-- Calls with the same number are the same. -/
theorem Recorded.effect_unique (h : Recorded log) {other : Call Op Res} (hcall : call ∈ effects log)
    (hother : other ∈ effects log) (hid : call.id = other.id) : call = other :=
  List.inj_on_of_nodup_map h.nodup hcall hother hid

/-- A call may return right after its effect. -/
theorem Recorded.completed (h : Recorded log) (hfollows : Follows log (.effect call)) :
    Recorded (log ++ [.effect call] ++ [.visible (.respond call.id call.res)]) := by
  refine (h.snoc hfollows).snoc ⟨call, ?_, rfl, rfl⟩
  rw [effects_append]
  exact List.mem_append_right _ List.mem_cons_self

/-- Effects are in the order of returns and calls. -/
theorem Recorded.realTime (h : Recorded log) {first second : Call Op Res}
    (hfirst : first ∈ effects log) (hsecond : second ∈ effects log)
    (hbefore : [.respond first.id res, .invoke second.id second.op].Sublist (history log)) :
    [first, second].Sublist (effects log) := by
  induction h with
  | nil => cases hfirst
  | snoc h hfollows ih =>
    rename_i log entry
    cases entry with
    | visible event =>
      simp only [effects_append, effects_visible, List.append_nil] at hfirst hsecond ⊢
      rw [history_append, history_visible, pair_sublist_concat_iff] at hbefore
      rcases hbefore with hbefore | ⟨rfl, -⟩
      · exact ih hfirst hsecond hbefore
      · -- The second operation cannot have had an effect before its call.
        exact absurd (h.invoked hsecond) (hfollows second.op)
    | effect call =>
      simp only [effects_append, effects_effect, history_append, history_effect,
        List.append_nil] at hfirst hsecond hbefore ⊢
      have hold : first ∈ effects log := by
        have hreturned : .respond first.id res ∈ history log :=
          hbefore.subset List.mem_cons_self
        obtain ⟨other, hother, hid, -⟩ := h.responded hreturned
        rcases List.mem_append.mp hfirst with hmem | hnew
        · exact hmem
        · obtain rfl := List.mem_singleton.mp hnew
          exact absurd hid (hfollows.2 other hother)
      rw [pair_sublist_concat_iff]
      rcases List.mem_append.mp hsecond with hmem | hnew
      · exact .inl (ih hold hmem hbefore)
      · exact .inr ⟨List.mem_singleton.mp hnew, hold⟩

/-- The order of the effects explains what the users see. -/
theorem Recorded.linearization {Goes : σ → Op → Res → σ → Prop} {s t : σ} (h : Recorded log)
    (hlegal : Legal Goes s (effects log) t) :
    Linearization Goes s (history log) (effects log) where
  legal := ⟨t, hlegal⟩
  nodup := h.nodup
  invoked := fun _ hcall => h.invoked hcall
  responded := fun _ _ hres => h.responded hres
  realTime := fun _ hfirst _ hsecond _ hbefore => h.realTime hfirst hsecond hbefore

/-- Objects whose operations take effect at one moment are linearizable. -/
theorem Recorded.linearizable {Goes : σ → Op → Res → σ → Prop} {s t : σ} (h : Recorded log)
    (hlegal : Legal Goes s (effects log) t) : Linearizable Goes s (history log) :=
  ⟨effects log, h.linearization hlegal⟩

end Records

end Histories

end Uvisor.Linearizability
