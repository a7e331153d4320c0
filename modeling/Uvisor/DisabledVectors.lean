import Uvisor.DisabledContexts

/-!
# The vectors of the boxes without uVisor

A box registers a handler for an interrupt, and the handler is to run for that
box. The owner and the handler are written one after the other, so that an
interrupt or a registration between the two would see the handler of one box and
the owner of another.
-/

namespace Uvisor.DisabledVectors

open Execution Disabled
open ArmMpu (Word)
open DisabledContexts (twoContexts atReset atReset_initial windowRun)

/-! ## Entries and handlers -/

/-- No interrupt is taken, and no vector is registered, while the entry of that
interrupt is half written. -/
def Untorn (s : State) : Action → Prop
  | .setVector irqn _ | .interrupt irqn => ∀ a ∈ s.activities, a.pc.halfWritten irqn = false
  | _ => True

instance : ∀ s a, Decidable (Untorn s a)
  | _, .setVector _ _ | _, .interrupt _ => inferInstanceAs (Decidable (∀ a ∈ _, _ = _))
  | _, .call _ | _, .ret | _, .advance => inferInstanceAs (Decidable True)

/-- An activity serves an interrupt of a box: the first box that it enters is
that one. -/
def Serving (owner : ℕ) (a : Activity) : Prop :=
  a.boxes.getLast? = some owner ∨
    a.boxes = [] ∧ (a.pc = .entering owner ∨ a.pc = .entered owner ∨ a.pc = .checked owner ∨
      ∃ src, a.pc = .left src)

/-- Every entry that is not half written has been asked for by its owner, and so
has every handler that runs. -/
structure VectorInv (s : State) : Prop where
  /-- The entries. -/
  entries : ∀ irqn, (s.globals.vectors irqn).vector ≠ 0 →
    (∃ a ∈ s.activities, ∃ boxId vector, a.pc = .registering irqn boxId vector) ∨
      (irqn, (s.globals.vectors irqn).boxId, (s.globals.vectors irqn).vector) ∈ s.requested
  /-- The entries that are half written. -/
  pending : ∀ a ∈ s.activities, ∀ irqn boxId vector, a.pc = .registering irqn boxId vector →
    (irqn, boxId, vector) ∈ s.requested ∧
      (s.globals.vectors irqn).boxId = if vector ≠ 0 then boxId else 0
  /-- The handlers. -/
  serves : ∀ a ∈ s.activities, ∀ irqn owner vector, a.serves = some (irqn, owner, vector) →
    (irqn, owner, vector) ∈ s.requested ∧ Serving owner a

/-- An activity goes on with another one's interrupt. -/
structure Follows (a a' : Activity) : Prop where
  /-- The interrupt. -/
  serves : a'.serves = a.serves
  /-- The box that it is served for. -/
  serving : ∀ owner, Serving owner a → Serving owner a'
  /-- Nothing else is being registered. -/
  registering : ∀ irqn boxId vector, a'.pc = .registering irqn boxId vector →
    a.pc = .registering irqn boxId vector

section Vectors

variable {sys : Platform} {s t : State} {top next : Activity} {rest activities : List Activity}
  {a : Action} {globals : Globals}

theorem not_registering {pc : Pc} {irqn : ℕ} (h : pc.halfWritten irqn = false) (boxId : ℕ)
    (vector : Word) : pc ≠ .registering irqn boxId vector := by
  rintro rfl
  simp [Pc.halfWritten] at h

theorem Follows.refl (a : Activity) : Follows a a :=
  ⟨rfl, fun _ h => h, fun _ _ _ h => h⟩

/-- The code of a box goes on somewhere else. -/
theorem follows_body (hpc : top.pc = .body ∨ top.pc = .leaving ∨
      ∃ irqn boxId vector, top.pc = .registering irqn boxId vector)
    (hboxes : next.boxes = top.boxes) :
    ∀ owner, Serving owner top → Serving owner next := by
  rintro owner (hlast | ⟨-, hwindow⟩)
  · exact .inl (hboxes ▸ hlast)
  · obtain hpc | hpc | ⟨irqn, boxId, vector, hpc⟩ := hpc <;> simp [hpc] at hwindow

theorem VectorInv.follow (h : VectorInv s) (hvectors : globals.vectors = s.globals.vectors)
    (hforward : ∀ a' ∈ activities, ∃ a ∈ s.activities, Follows a a')
    (hback : ∀ a ∈ s.activities, ∀ irqn boxId vector, a.pc = .registering irqn boxId vector →
      ∃ a' ∈ activities, a'.pc = .registering irqn boxId vector) :
    VectorInv ⟨globals, activities, s.requested⟩ where
  entries irqn hvector := by
    dsimp only at hvector ⊢
    rw [hvectors] at hvector ⊢
    refine (h.entries irqn hvector).imp_left ?_
    rintro ⟨a, hmem, boxId, vector, hpc⟩
    obtain ⟨a', hmem', hpc'⟩ := hback a hmem irqn boxId vector hpc
    exact ⟨a', hmem', boxId, vector, hpc'⟩
  pending a' hmem irqn boxId vector hpc := by
    obtain ⟨a, hmem', hfollows⟩ := hforward a' hmem
    dsimp only
    rw [hvectors]
    exact h.pending a hmem' irqn boxId vector (hfollows.registering irqn boxId vector hpc)
  serves a' hmem irqn owner vector hserves := by
    obtain ⟨a, hmem', hfollows⟩ := hforward a' hmem
    obtain ⟨hrequested, hserving⟩ :=
      h.serves a hmem' irqn owner vector (hfollows.serves.symm.trans hserves)
    exact ⟨hrequested, hfollows.serving owner hserving⟩

/-- The activity that runs goes on, and it was not registering a vector. -/
theorem VectorInv.replace (h : VectorInv s) (htop : s.activities = top :: rest)
    (hvectors : globals.vectors = s.globals.vectors) (hfollows : Follows top next)
    (hpc : ∀ irqn boxId vector, top.pc ≠ .registering irqn boxId vector) :
    VectorInv ⟨globals, next :: rest, s.requested⟩ := by
  refine h.follow hvectors (fun a' hmem => ?_) fun a hmem irqn boxId vector hregistering => ?_
  · rcases List.mem_cons.mp hmem with rfl | hmem
    · exact ⟨top, htop ▸ List.mem_cons_self, hfollows⟩
    · exact ⟨a', htop ▸ List.mem_cons_of_mem _ hmem, .refl a'⟩
  · rw [htop] at hmem
    rcases List.mem_cons.mp hmem with rfl | hmem
    · exact absurd hregistering (hpc irqn boxId vector)
    · exact ⟨a, List.mem_cons_of_mem _ hmem, hregistering⟩

/-- The activities after the pointer has been set back are those before. -/
theorem follows_afterLeaving {src : ℕ} (hpc : top.pc = .left src) :
    (∀ a' ∈ afterLeaving top rest, ∃ a ∈ top :: rest, Follows a a') ∧
      ∀ a ∈ top :: rest, ∀ irqn boxId vector, a.pc = .registering irqn boxId vector →
        ∃ a' ∈ afterLeaving top rest, a'.pc = .registering irqn boxId vector := by
  cases hboxes : top.boxes with
  | nil =>
    cases rest with
    | nil =>
      have hafter : afterLeaving top [] = [] := by
        simp only [afterLeaving, hboxes]
      rw [hafter]
      refine ⟨fun a' hmem => absurd hmem List.not_mem_nil, fun a hmem irqn boxId vector h => ?_⟩
      obtain rfl := List.mem_singleton.mp hmem
      exact absurd (hpc.symm.trans h) (by simp)
    | cons next others =>
      have hafter : afterLeaving top (next :: others) = next.resumed :: others := by
        simp only [afterLeaving, hboxes]
      rw [hafter]
      refine ⟨fun a' hmem => ?_, fun a hmem irqn boxId vector h => ?_⟩
      · rcases List.mem_cons.mp hmem with rfl | hmem
        · exact ⟨next, List.mem_cons_of_mem _ List.mem_cons_self, rfl, fun _ h => h,
            fun _ _ _ h => h⟩
        · exact ⟨a', List.mem_cons_of_mem _ (List.mem_cons_of_mem _ hmem), .refl a'⟩
      · rcases List.mem_cons.mp hmem with rfl | hmem
        · exact absurd (hpc.symm.trans h) (by simp)
        · rcases List.mem_cons.mp hmem with rfl | hmem
          · exact ⟨_, List.mem_cons_self, h⟩
          · exact ⟨a, List.mem_cons_of_mem _ hmem, h⟩
  | cons box boxes =>
    have hafter : afterLeaving top rest = {top with pc := .body, disturbed := false} :: rest := by
      simp only [afterLeaving, hboxes]
    rw [hafter]
    refine ⟨fun a' hmem => ?_, fun a hmem irqn boxId vector h => ?_⟩
    · rcases List.mem_cons.mp hmem with rfl | hmem
      · refine ⟨top, List.mem_cons_self, rfl, fun owner hserving => ?_, fun _ _ _ h => by simp at h⟩
        rcases hserving with hlast | ⟨hnil, -⟩
        · exact .inl hlast
        · rw [hboxes] at hnil
          cases hnil
      · exact ⟨a', List.mem_cons_of_mem _ hmem, .refl a'⟩
    · rcases List.mem_cons.mp hmem with rfl | hmem
      · exact absurd (hpc.symm.trans h) (by simp)
      · exact ⟨a, List.mem_cons_of_mem _ hmem, h⟩

theorem vectorInv_effect (hinv : Inv s) (h : VectorInv s) (hallowed : Untorn s a)
    (htop : s.activities = top :: rest) (heffect : Effect sys s top rest a t) : VectorInv t := by
  cases heffect with
  | call hpc hdst =>
    exact h.replace htop rfl ⟨rfl, follows_body (.inl hpc) rfl, fun _ _ _ h => by simp at h⟩
      fun _ _ _ h => by simp [hpc] at h
  | ret hpc =>
    exact h.replace htop rfl ⟨rfl, follows_body (.inl hpc) rfl, fun _ _ _ h => by simp at h⟩
      fun _ _ _ h => by simp [hpc] at h
  | @setVector irqn boxId vector globals hpc howner =>
    obtain ⟨hbox, relocated, virqPrioBits, entry, rfl, hentry⟩ := setOwner_spec howner
    rw [← calls_head, hinv.calls] at hbox
    have hother : ∀ a ∈ s.activities, ∀ irqn' boxId' vector',
        a.pc = .registering irqn' boxId' vector' → irqn' ≠ irqn := by
      rintro a hmem irqn' boxId' vector' hregistering rfl
      exact not_registering (hallowed a hmem) boxId' vector' hregistering
    refine ⟨fun irqn' hvector => ?_, fun a hmem irqn' boxId' vector' hregistering => ?_,
      fun a hmem irqn' owner vector' hserves => ?_⟩
    · by_cases hsame : irqn' = irqn
      · subst hsame
        exact .inl ⟨_, List.mem_cons_self, boxId, vector, rfl⟩
      · dsimp only at hvector ⊢
        rw [Function.update_of_ne hsame] at hvector ⊢
        rcases h.entries irqn' hvector with ⟨a, hmem, boxId', vector', hregistering⟩ | hrequested
        · rw [htop] at hmem
          rcases List.mem_cons.mp hmem with rfl | hmem
          · rw [hpc] at hregistering
            cases hregistering
          · exact .inl ⟨a, List.mem_cons_of_mem _ hmem, boxId', vector', hregistering⟩
        · exact .inr (List.mem_cons_of_mem _ hrequested)
    · dsimp only
      rcases List.mem_cons.mp hmem with rfl | hmem
      · obtain ⟨rfl, rfl, rfl⟩ : irqn = irqn' ∧ boxId = boxId' ∧ vector = vector' := by
          simpa using hregistering
        rw [Function.update_self, ← hbox]
        exact ⟨List.mem_cons_self, hentry⟩
      · have hmem' : a ∈ s.activities := htop ▸ List.mem_cons_of_mem _ hmem
        rw [Function.update_of_ne (hother a hmem' irqn' boxId' vector' hregistering)]
        obtain ⟨hrequested, hboxId⟩ := h.pending a hmem' irqn' boxId' vector' hregistering
        exact ⟨List.mem_cons_of_mem _ hrequested, hboxId⟩
    · rcases List.mem_cons.mp hmem with rfl | hmem
      · obtain ⟨hrequested, hserving⟩ :=
          h.serves top (htop ▸ List.mem_cons_self) irqn' owner vector' hserves
        exact ⟨List.mem_cons_of_mem _ hrequested,
          @follows_body top {top with pc := .registering irqn boxId vector} (.inl hpc) rfl owner
            hserving⟩
      · obtain ⟨hrequested, hserving⟩ :=
          h.serves a (htop ▸ List.mem_cons_of_mem _ hmem) irqn' owner vector' hserves
        exact ⟨List.mem_cons_of_mem _ hrequested, hserving⟩
  | @enter dst globals hpc hset =>
    refine h.replace htop (setPointer_spec hset).1.vectors ⟨rfl, ?_, fun _ _ _ h => by simp at h⟩
      fun _ _ _ h => by simp [hpc] at h
    rintro owner (hlast | ⟨hnil, hwindow⟩)
    · exact .inl hlast
    · refine .inr ⟨hnil, ?_⟩
      simpa [hpc] using hwindow
  | @check dst hpc hroom =>
    refine h.replace htop rfl ⟨rfl, ?_, fun _ _ _ h => by simp at h⟩
      fun _ _ _ h => by simp [hpc] at h
    rintro owner (hlast | ⟨hnil, hwindow⟩)
    · exact .inl hlast
    · refine .inr ⟨hnil, ?_⟩
      simpa [hpc] using hwindow
  | @push dst hpc =>
    refine h.replace htop rfl ⟨rfl, ?_, fun _ _ _ h => by simp at h⟩
      fun _ _ _ h => by simp [hpc] at h
    rintro owner (hlast | ⟨hnil, hwindow⟩)
    · refine .inl ?_
      simp [List.getLast?_cons, hlast]
    · refine .inl ?_
      simpa [hnil, hpc] using hwindow
  | @pop src globals hpc hpop =>
    obtain ⟨last, below, -, -, rfl⟩ := popBox_spec hpop
    refine h.replace htop rfl ⟨rfl, ?_, fun _ _ _ h => by simp at h⟩
      fun _ _ _ h => by simp [hpc] at h
    rintro owner (hlast | ⟨-, hwindow⟩)
    · cases hboxes : top.boxes.tail with
      | nil => exact .inr ⟨rfl, .inr (.inr (.inr ⟨src, rfl⟩))⟩
      | cons box boxes =>
        refine .inl ?_
        have hne : top.boxes ≠ [] := fun hnil => by simp [hnil] at hboxes
        obtain ⟨first, others, hcons⟩ := List.exists_cons_of_ne_nil hne
        rw [hcons, List.tail_cons] at hboxes
        rw [hcons, hboxes, List.getLast?_cons_cons] at hlast
        exact hlast
    · simp [hpc] at hwindow
  | restore hpc =>
    obtain ⟨hforward, hback⟩ := follows_afterLeaving hpc
    exact h.follow rfl (htop ▸ hforward) (htop ▸ hback)
  | @register irqn boxId vector hpc =>
    obtain ⟨hrequested, hboxId⟩ :=
      h.pending top (htop ▸ List.mem_cons_self) irqn boxId vector hpc
    refine ⟨fun irqn' hvector => ?_, fun a hmem irqn' boxId' vector' hregistering => ?_,
      fun a hmem irqn' owner vector' hserves => ?_⟩
    · dsimp only [setHandler] at hvector ⊢
      by_cases hsame : irqn' = irqn
      · subst hsame
        rw [Function.update_self] at hvector ⊢
        rw [if_pos hvector] at hboxId
        dsimp only
        rw [hboxId]
        exact .inr hrequested
      · rw [Function.update_of_ne hsame] at hvector ⊢
        refine (h.entries irqn' hvector).imp_left ?_
        rintro ⟨a, hmem, boxId', vector', hregistering⟩
        rw [htop] at hmem
        rcases List.mem_cons.mp hmem with rfl | hmem
        · rw [hpc] at hregistering
          simp only [Pc.registering.injEq] at hregistering
          exact absurd hregistering.1.symm hsame
        · exact ⟨a, List.mem_cons_of_mem _ hmem, boxId', vector', hregistering⟩
    · rcases List.mem_cons.mp hmem with rfl | hmem
      · simp at hregistering
      · obtain ⟨hrequested', hboxId'⟩ := h.pending a (htop ▸ List.mem_cons_of_mem _ hmem)
          irqn' boxId' vector' hregistering
        refine ⟨hrequested', ?_⟩
        rw [← hboxId']
        dsimp only [setHandler]
        by_cases hsame : irqn' = irqn
        · rw [hsame, Function.update_self]
        · rw [Function.update_of_ne hsame]
    · rcases List.mem_cons.mp hmem with rfl | hmem
      · obtain ⟨hrequested', hserving⟩ :=
          h.serves top (htop ▸ List.mem_cons_self) irqn' owner vector' hserves
        exact ⟨hrequested', @follows_body top {top with pc := .body}
          (.inr (.inr ⟨irqn, boxId, vector, hpc⟩)) rfl owner hserving⟩
      · exact h.serves a (htop ▸ List.mem_cons_of_mem _ hmem) irqn' owner vector' hserves
  | @interrupt irqn entry hrelocated hentry =>
    unfold defaultVectorEntry at hentry
    split_ifs at hentry with hirqn hvector
    obtain rfl := Option.some.inj hentry
    have hrequested : (irqn, (s.globals.vectors irqn).boxId, (s.globals.vectors irqn).vector) ∈
        s.requested := by
      rcases h.entries irqn hvector with ⟨a, hmem, boxId, vector, hregistering⟩ | hrequested
      · exact absurd hregistering (not_registering (hallowed a hmem) boxId vector)
      · exact hrequested
    refine ⟨fun irqn' hvector' => (h.entries irqn' hvector').imp_left ?_,
      fun a hmem irqn' boxId vector hregistering => ?_,
      fun a hmem irqn' owner vector hserves => ?_⟩
    · rintro ⟨a, hmem, boxId, vector, hregistering⟩
      exact ⟨a, List.mem_cons_of_mem _ (htop ▸ hmem), boxId, vector, hregistering⟩
    · rcases List.mem_cons.mp hmem with rfl | hmem
      · simp at hregistering
      · exact h.pending a (htop ▸ hmem) irqn' boxId vector hregistering
    · rcases List.mem_cons.mp hmem with rfl | hmem
      · simp only [Option.some.injEq, Prod.mk.injEq] at hserves
        obtain ⟨rfl, rfl, rfl⟩ := hserves
        exact ⟨hrequested, .inr ⟨rfl, .inl rfl⟩⟩
      · exact h.serves a (htop ▸ hmem) irqn' owner vector hserves

end Vectors

/-! ## An interrupt while a box is entered -/

end Uvisor.DisabledVectors
