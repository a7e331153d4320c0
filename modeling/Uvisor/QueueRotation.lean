import Uvisor.Execution
import Mathlib.Data.List.Basic
import Mathlib.Tactic.Common

/-!
# Going round a queue until a remembered element comes back

A loop takes the front element of a queue, hands it to a world, and puts it
back at the end when the world keeps it waiting. It stops on an empty queue
or when the first element it saw comes to the front again. The remembered
element may have left the queue in the meantime; then only an empty queue
stops the loop. The results say exactly when a break is reached.
-/

namespace Uvisor.QueueRotation

open Execution

universe u

/-- What becomes of the element handed out. -/
inductive Fate where
  /-- It has reached its destination and left the queue. -/
  | delivered
  /-- It was refused and left the queue. -/
  | dropped
  /-- It goes back to the end of the queue. -/
  | kept
  deriving DecidableEq

variable {α : Type u} {ω : Type u} [DecidableEq α]

/-- Loop variables. -/
structure State (α ω : Type u) where
  /-- Elements waiting, front first. -/
  queue : List α
  /-- Everything else that handling an element can change. -/
  world : ω
  /-- The remembered element. -/
  first : Option α

/-- One pass. The flag says whether delivering the remembered element makes
the loop forget it. -/
def body (forget : Bool) (handle : ω → α → Fate × ω) (st : State α ω) : Flow (State α ω) :=
  match st.queue with
  | [] => .stop st
  | x :: rest =>
    if st.first = some x then .stop ⟨rest ++ [x], st.world, st.first⟩
    else
      let first := some (st.first.getD x)
      let out := handle st.world x
      match out.1 with
      | .delivered =>
        .next ⟨rest, out.2, if forget = true ∧ first = some x then none else first⟩
      | .dropped => .next ⟨rest, out.2, first⟩
      | .kept => .next ⟨rest ++ [x], out.2, first⟩

/-- One pass without any stop. -/
def scan (handle : ω → α → Fate × ω) (st : List α × ω) : List α × ω :=
  match st.1 with
  | [] => st
  | x :: rest =>
    let out := handle st.2 x
    if out.1 = .kept then (rest ++ [x], out.2) else (rest, out.2)

/-- Going round without any stop would empty the queue. -/
def Exhausts (handle : ω → α → Fate × ω) (queue : List α) (world : ω) : Prop :=
  ∃ passes, ((scan handle)^[passes] (queue, world)).1 = []

variable {forget : Bool} {handle : ω → α → Fate × ω}

/-- While the remembered element is queued, every pass brings it one place
nearer to the front, so the loop stops. -/
theorem terminates_of_first_mem {queue : List α} {world : ω} {a : α} (ha : a ∈ queue) :
    Terminates (body forget handle) ⟨queue, world, some a⟩ := by
  refine terminates_of_measure (fun st => st.first = some a ∧ a ∈ st.queue)
    (fun st => st.queue.idxOf a) ?_ ?_ ⟨rfl, ha⟩
  · rintro ⟨queue, world, first⟩ ⟨rfl, hmem⟩
    cases queue with
    | nil => simp at hmem
    | cons x rest =>
      simp only [body]
      split
      · simp
      · split <;> simp
  · rintro ⟨queue, world, first⟩ t ⟨rfl, hmem⟩ hb
    cases queue with
    | nil => simp at hmem
    | cons x rest =>
      by_cases hx : a = x
      · simp [body, hx] at hb
      · have hrest : a ∈ rest := by simpa [hx] using hmem
        have hfirst : ¬some a = some x := by simpa using hx
        have hidx : (x :: rest).idxOf a = rest.idxOf a+1 :=
          List.idxOf_cons_ne rest (Ne.symm hx)
        simp only [body, if_neg hfirst, Option.getD_some] at hb
        split at hb <;> simp only [Flow.next.injEq] at hb <;> subst hb
        · simp only [hfirst, and_false, if_false, hidx]
          exact ⟨⟨trivial, hrest⟩, by omega⟩
        · exact ⟨⟨rfl, hrest⟩, by simp only [hidx]; omega⟩
        · refine ⟨⟨rfl, List.mem_append_left _ hrest⟩, ?_⟩
          simp only [hidx, List.idxOf_append, if_pos hrest]
          omega

/-- Once the remembered element has left the queue, only an emptied queue
stops the loop. -/
theorem terminates_iff_exhausts {queue : List α} {world : ω} {a : α} (ha : a ∉ queue) :
    Terminates (body forget handle) ⟨queue, world, some a⟩ ↔ Exhausts handle queue world := by
  have hpass : ∀ (st : List α × ω), a ∉ st.1 → st.1 ≠ [] →
      body forget handle ⟨st.1, st.2, some a⟩ =
        .next ⟨(scan handle st).1, (scan handle st).2, some a⟩ ∧ a ∉ (scan handle st).1 := by
    rintro ⟨queue, world⟩ hmem hne
    cases queue with
    | nil => exact absurd rfl hne
    | cons x rest =>
      have hx : a ≠ x := fun he => hmem (by simp [he])
      have hrest : a ∉ rest := fun he => hmem (by simp [he])
      have hfirst : ¬some a = some x := by simpa using hx
      simp only [body, if_neg hfirst, Option.getD_some, scan]
      cases hf : (handle world x).1 <;> simp [hrest, hx]
  constructor
  · rintro ⟨fuel, hf⟩
    induction fuel generalizing queue world with
    | zero => simp [iterate] at hf
    | succ fuel ih =>
      by_cases hq : queue = []
      · exact ⟨0, hq⟩
      · obtain ⟨hb, hmem⟩ := hpass (queue, world) ha hq
        simp only [iterate, hb] at hf
        obtain ⟨passes, hp⟩ := ih hmem hf
        exact ⟨passes+1, hp⟩
  · rintro ⟨passes, hp⟩
    induction passes generalizing queue world with
    | zero =>
      have hq : queue = [] := hp
      subst hq
      exact terminates_of_stop rfl
    | succ passes ih =>
      by_cases hq : queue = []
      · subst hq
        exact terminates_of_stop rfl
      · obtain ⟨hb, hmem⟩ := hpass (queue, world) ha hq
        exact (terminates_next_iff hb).mpr (ih hmem hp)

omit [DecidableEq α] in
/-- Elements that all go back without any effect stay for ever. -/
theorem not_exhausts_of_kept {queue : List α} {world : ω}
    (hkept : ∀ x ∈ queue, handle world x = (.kept, world)) (hne : queue ≠ []) :
    ¬Exhausts handle queue world := by
  rintro ⟨passes, hp⟩
  induction passes generalizing queue with
  | zero => exact hne hp
  | succ passes ih =>
    cases queue with
    | nil => exact hne rfl
    | cons x rest =>
      have hscan : scan handle (x :: rest, world) = (rest ++ [x], world) := by
        simp [scan, hkept x (by simp)]
      rw [Function.iterate_succ_apply, hscan] at hp
      refine ih (fun y hy => hkept y ?_) (by simp) hp
      simpa [or_comm] using hy

/-- Without forgetting, the first element decides: kept, it comes round;
otherwise the rest of the queue has to be used up. -/
theorem terminates_keeping_iff {x : α} {rest : List α} {world : ω} (hnd : (x :: rest).Nodup) :
    Terminates (body false handle) ⟨x :: rest, world, none⟩ ↔
      (handle world x).1 = .kept ∨ Exhausts handle rest (handle world x).2 := by
  obtain ⟨hx, -⟩ := List.nodup_cons.mp hnd
  cases hf : (handle world x).1 with
  | kept =>
    have hb : body false handle ⟨x :: rest, world, none⟩ =
        .next ⟨rest ++ [x], (handle world x).2, some x⟩ := by simp [body, hf]
    rw [terminates_next_iff hb]
    exact iff_of_true (terminates_of_first_mem (by simp)) (Or.inl rfl)
  | delivered =>
    have hb : body false handle ⟨x :: rest, world, none⟩ =
        .next ⟨rest, (handle world x).2, some x⟩ := by simp [body, hf]
    rw [terminates_next_iff hb, terminates_iff_exhausts hx]
    simp
  | dropped =>
    have hb : body false handle ⟨x :: rest, world, none⟩ =
        .next ⟨rest, (handle world x).2, some x⟩ := by simp [body, hf]
    rw [terminates_next_iff hb, terminates_iff_exhausts hx]
    simp

/-- The first element that is not delivered is kept, or there is none, or
going round would use up what follows it. -/
def StopsForgetting (handle : ω → α → Fate × ω) : List α → ω → Prop
  | [], _ => True
  | x :: rest, world =>
    match (handle world x).1 with
    | .delivered => StopsForgetting handle rest (handle world x).2
    | .dropped => Exhausts handle rest (handle world x).2
    | .kept => True

/-- With forgetting, delivered elements at the front do not matter. -/
theorem terminates_forgetting_iff {queue : List α} {world : ω} (hnd : queue.Nodup) :
    Terminates (body true handle) ⟨queue, world, none⟩ ↔ StopsForgetting handle queue world := by
  induction queue generalizing world with
  | nil => exact iff_of_true (terminates_of_stop rfl) trivial
  | cons x rest ih =>
    obtain ⟨hx, hrest⟩ := List.nodup_cons.mp hnd
    cases hf : (handle world x).1 with
    | kept =>
      have hb : body true handle ⟨x :: rest, world, none⟩ =
          .next ⟨rest ++ [x], (handle world x).2, some x⟩ := by simp [body, hf]
      rw [terminates_next_iff hb]
      exact iff_of_true (terminates_of_first_mem (by simp)) (by simp [StopsForgetting, hf])
    | delivered =>
      have hb : body true handle ⟨x :: rest, world, none⟩ =
          .next ⟨rest, (handle world x).2, none⟩ := by simp [body, hf]
      rw [terminates_next_iff hb, ih hrest]
      simp [StopsForgetting, hf]
    | dropped =>
      have hb : body true handle ⟨x :: rest, world, none⟩ =
          .next ⟨rest, (handle world x).2, some x⟩ := by simp [body, hf]
      rw [terminates_next_iff hb, terminates_iff_exhausts hx]
      simp [StopsForgetting, hf]

/-! ## Destinations with room for a number of elements -/

section Room

variable {β : Type u} [DecidableEq β] {target : α → Option β}

/-- An element without a destination is refused; one with a destination is
delivered while that has room. -/
def handleRoom (target : α → Option β) (room : β → ℕ) (x : α) : Fate × (β → ℕ) :=
  match target x with
  | none => (.dropped, room)
  | some c => if room c = 0 then (.kept, room) else (.delivered, Function.update room c (room c-1))

/-- Number of queued elements for one destination. -/
def demand (target : α → Option β) (queue : List α) (c : β) : ℕ :=
  queue.countP fun x => target x = some c

omit [DecidableEq α] in
/-- A pass keeps the excess of demand over room at every destination, except
that a refused element asks for nothing. -/
theorem scan_excess {x : α} {rest : List α} {room : β → ℕ} (c : β) :
    demand target (scan (handleRoom target) (x :: rest, room)).1 c ≤
        (scan (handleRoom target) (x :: rest, room)).2 c ↔
      demand target (x :: rest) c ≤ room c := by
  cases ht : target x with
  | none => simp [scan, handleRoom, ht, demand]
  | some d =>
    by_cases hr : room d = 0
    · simp [scan, handleRoom, ht, hr, demand, List.countP_cons]
    · by_cases hc : c = d
      · subst hc
        simp [scan, handleRoom, ht, hr, demand]
        omega
      · simp [scan, handleRoom, ht, hr, demand, hc, Ne.symm hc]

omit [DecidableEq α] in
/-- Going round uses up the queue exactly when every destination has room for
all its elements. -/
theorem exhausts_handleRoom_iff {queue : List α} {room : β → ℕ} :
    Exhausts (handleRoom target) queue room ↔ ∀ c, demand target queue c ≤ room c := by
  constructor
  · rintro ⟨passes, hp⟩ c
    induction passes generalizing queue room with
    | zero =>
      have hq : queue = [] := hp
      simp [hq, demand]
    | succ passes ih =>
      cases queue with
      | nil => simp [demand]
      | cons x rest => exact (scan_excess c).mp (ih hp)
  · intro hroom
    induction hn : queue.length generalizing queue room with
    | zero => exact ⟨0, List.eq_nil_of_length_eq_zero hn⟩
    | succ n ih =>
      cases queue with
      | nil => simp at hn
      | cons x rest =>
        have hnext := fun c => (scan_excess c).mpr (hroom c)
        have hlen : (scan (handleRoom target) (x :: rest, room)).1.length = n := by
          cases ht : target x with
          | none => simpa [scan, handleRoom, ht] using hn
          | some d =>
            have hd := hroom d
            have hpos : room d ≠ 0 := by
              simp [demand, ht] at hd
              omega
            simpa [scan, handleRoom, ht, hpos] using hn
        obtain ⟨passes, hp⟩ := ih hnext hlen
        exact ⟨passes+1, hp⟩

/-- The loop over destinations with room stops exactly when the first element
is kept waiting or every destination has room for all its elements. -/
theorem terminates_handleRoom_iff {queue : List α} {room : β → ℕ} (hnd : queue.Nodup) :
    Terminates (body false (handleRoom target)) ⟨queue, room, none⟩ ↔
      (∃ x rest c, queue = x :: rest ∧ target x = some c ∧ room c = 0) ∨
        ∀ c, demand target queue c ≤ room c := by
  cases queue with
  | nil => exact iff_of_true (terminates_of_stop rfl) (Or.inr fun c => by simp [demand])
  | cons x rest =>
    have hscan : (handleRoom target room x).1 ≠ .kept →
        (Exhausts (handleRoom target) rest (handleRoom target room x).2 ↔
          ∀ c, demand target (x :: rest) c ≤ room c) := by
      intro hk
      rw [exhausts_handleRoom_iff]
      refine forall_congr' fun c => ?_
      rw [← scan_excess c]
      simp [scan, hk]
    rw [terminates_keeping_iff hnd]
    by_cases hk : (handleRoom target room x).1 = .kept
    · refine iff_of_true (Or.inl hk) (Or.inl ?_)
      cases ht : target x with
      | none => simp [handleRoom, ht] at hk
      | some c =>
        by_cases hr : room c = 0
        · exact ⟨x, rest, c, rfl, ht, hr⟩
        · simp [handleRoom, ht, hr] at hk
    · have hfull : ¬∃ y m c, x :: rest = y :: m ∧ target y = some c ∧ room c = 0 := by
        rintro ⟨y, m, c, he, ht, hr⟩
        obtain ⟨rfl, rfl⟩ := List.cons.inj he
        exact hk (by simp [handleRoom, ht, hr])
      simp only [hk, hfull, false_or, hscan hk]

end Room

end Uvisor.QueueRotation
