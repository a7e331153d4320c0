import Uvisor.Virq

/-!
# Owners and priorities of interrupts

Interrupts get their owner at boot or with the first call on them, and keep it.
Whatever the boxes call, an interrupt that gets enabled has an owner, and the
priorities of device interrupts stay below those of the monitor's exceptions.
A priority that is read is the one that was set.
-/

namespace Uvisor.VirqOwnership

open Virq Execution

/-! ## Runs -/

/-- The virtual interrupts with what the boxes have asked for. -/
structure Run where
  /-- Variables of the virtual interrupts. -/
  state : Virq.State
  /-- The priority that was set last, by interrupt. -/
  lastSet : ℕ → Option ℕ

/-- What happens to the interrupts. -/
inductive Action where
  /-- The access control list of a box is read at boot. -/
  | aclAdd (boxId irqn : ℕ)
  /-- A box calls. -/
  | call (box : ℕ) (c : Call)
  deriving DecidableEq

/-- The priorities set after a call. -/
def noteCall (lastSet : ℕ → Option ℕ) : Call → ℕ → Option ℕ
  | .irqPrioritySet irqn priority => Function.update lastSet irqn (some priority)
  | _ => lastSet

/-- One step; there is no result when the system halts. -/
def step (sys : Platform) (r : Run) : Action → Option Run
  | .aclAdd boxId irqn => (virqAclAdd sys boxId irqn r.state).map fun state => {r with state}
  | .call box c => (boxCall sys r.state box c).map fun state => ⟨state, noteCall r.lastSet c⟩

/-- Access control lists are read while no box is active, and only boxes that
exist have any or call. -/
def Proper (sys : Platform) (r : Run) : Action → Prop
  | .aclAdd boxId _ => r.state.activeBox = boxIdInvalid ∧ boxId < sys.boxCount
  | .call box _ => box < sys.boxCount

instance (sys : Platform) (r : Run) : (a : Action) → Decidable (Proper sys r a)
  | .aclAdd boxId _ =>
    inferInstanceAs (Decidable (r.state.activeBox = boxIdInvalid ∧ boxId < sys.boxCount))
  | .call box _ => inferInstanceAs (Decidable (box < sys.boxCount))

/-- The interrupts have been set up. -/
def Initial (sys : Platform) (r : Run) : Prop :=
  (∃ userVtor s, virqInit sys userVtor s = some r.state) ∧ r.lastSet = fun _ => none

/-! ## One call -/

section Calls

variable {sys : Platform} {s t : Virq.State} {irqn : ℕ}

/-- The check of an owner that returns is about an interrupt that exists. -/
theorem aclCheck_some {owner : Owner} (h : virqAclCheck sys irqn s = some owner) :
    irqn < sys.nvicVectors ∧
      (owner = .none ∧ (s.vectors irqn).id = boxIdInvalid ∨
        owner = .self ∧ (s.vectors irqn).id = s.activeBox ∧ s.activeBox ≠ boxIdInvalid ∨
        owner = .other) := by
  unfold virqAclCheck at h
  split at h
  · rename_i hcheck
    refine ⟨Interrupts.lt_of_virqDefaultCheck hcheck, ?_⟩
    split at h
    · rename_i hnone
      exact .inl ⟨(Option.some.inj h).symm, hnone⟩
    · rename_i hsome
      split at h
      · rename_i hself
        exact .inr (.inl ⟨(Option.some.inj h).symm, hself, hself ▸ hsome⟩)
      · exact .inr (.inr (Option.some.inj h).symm)
  · cases h

/-- A call on an interrupt returns only if it has no owner or the right one,
and leaves it with the box. -/
theorem register_some (h : virqIsrRegister sys irqn s = some t) :
    irqn < sys.nvicVectors ∧
      ((s.vectors irqn).id = boxIdInvalid ∨ (s.vectors irqn).id = s.activeBox) ∧
      t = setOwner irqn s.activeBox s := by
  obtain ⟨owner, howner, h⟩ := Option.bind_eq_some_iff.mp h
  obtain ⟨hlt, ⟨rfl, hnone⟩ | ⟨rfl, hself, -⟩ | rfl⟩ := aclCheck_some howner
  · exact ⟨hlt, .inl hnone, (Option.some.inj h).symm⟩
  · obtain rfl := Option.some.inj h
    have hsame : {s.vectors irqn with id := s.activeBox} = s.vectors irqn := by rw [← hself]
    refine ⟨hlt, .inr hself, ?_⟩
    rw [setOwner, hsame, Function.update_eq_self]
  · cases h

/-- What a call does to owners, enable bits and priorities. -/
structure Effect (sys : Platform) (c : Call) (s t : Virq.State) : Prop where
  /-- The box stays active. -/
  activeBox : t.activeBox = s.activeBox
  /-- The interrupt of the call belongs to the box, and had no other owner. -/
  taken : ∀ irqn, c.irqn = some irqn → irqn < sys.nvicVectors ∧
    ((s.vectors irqn).id = boxIdInvalid ∨ (s.vectors irqn).id = s.activeBox) ∧
    (t.vectors irqn).id = s.activeBox
  /-- All others keep their owners. -/
  kept : ∀ irqn, c.irqn ≠ some irqn → (t.vectors irqn).id = (s.vectors irqn).id
  /-- What gets enabled belongs to the box. -/
  enabled : ∀ irqn, t.nvic.enabled irqn = true →
    s.nvic.enabled irqn = true ∨ (t.vectors irqn).id = s.activeBox
  /-- Priorities change only where they are set. -/
  priorities : (∀ irqn priority, c ≠ .irqPrioritySet irqn priority) → t.nvic.ipr = s.nvic.ipr
  /-- There they are in range. -/
  priority : ∀ irqn priority, c = .irqPrioritySet irqn priority → priority ≤ maxPriority sys ∧
    t.nvic.ipr = Function.update s.nvic.ipr irqn (((minPriority+priority) <<< (8-sys.prioBits))%256)

/-- A call on one interrupt that sets no priority. -/
theorem Effect.ofOwner {c : Call} {u : Virq.State} (hirqn : c.irqn = some irqn)
    (hset : ∀ irqn priority, c ≠ .irqPrioritySet irqn priority)
    (h : virqIsrRegister sys irqn s = some u) (hactive : t.activeBox = u.activeBox)
    (hids : ∀ i, (t.vectors i).id = (u.vectors i).id)
    (henabled : ∀ i, t.nvic.enabled i = true → u.nvic.enabled i = true ∨ i = irqn)
    (hipr : t.nvic.ipr = u.nvic.ipr) : Effect sys c s t := by
  obtain ⟨hlt, hfree, rfl⟩ := register_some h
  have howner : (t.vectors irqn).id = s.activeBox := by
    rw [hids]
    simp [setOwner]
  refine ⟨hactive, fun i hi => ?_, fun i hi => ?_, fun i hi => ?_, fun _ => hipr,
    fun i priority hc => absurd hc (hset i priority)⟩
  · obtain rfl := Option.some.inj (hirqn.symm.trans hi)
    exact ⟨hlt, hfree, howner⟩
  · have hne : i ≠ irqn := fun heq => hi (heq ▸ hirqn)
    rw [hids]
    simp [setOwner, Function.update_of_ne hne]
  · rcases henabled i hi with hold | rfl
    · exact .inl hold
    · exact .inr howner

/-- Changes of the vector of one interrupt that leave its owner alone. -/
theorem update_id {u : Virq.State} {vector : Vector} (hid : vector.id = (u.vectors irqn).id)
    (i : ℕ) : (Function.update u.vectors irqn vector i).id = (u.vectors i).id := by
  by_cases hi : i = irqn
  · subst hi
    rw [Function.update_self, hid]
  · rw [Function.update_of_ne hi]

/-- The start of a phase enables nothing. -/
theorem phaseStarted_effect (sys : Platform) (s : Virq.State) :
    (phaseStarted sys s).activeBox = s.activeBox ∧
      (∀ i, ((phaseStarted sys s).vectors i).id = (s.vectors i).id) ∧
      (∀ i, (phaseStarted sys s).nvic.enabled i = true → s.nvic.enabled i = true) ∧
      (phaseStarted sys s).nvic.ipr = s.nvic.ipr := by
  unfold phaseStarted
  split
  · refine ⟨rfl, fun i => ?_, fun i hi => ?_, rfl⟩
    · simp only [allDisabled]
      split <;> rfl
    · simp only [allDisabled] at hi
      split at hi
      · exact ((Bool.and_eq_true _ _).mp hi).1
      · exact hi
  · exact ⟨rfl, fun _ => rfl, fun _ => id, rfl⟩

/-- The end of a phase enables interrupts of the active box. -/
theorem phaseEnded_effect (sys : Platform) (s : Virq.State) :
    (phaseEnded sys s).activeBox = s.activeBox ∧
      (∀ i, ((phaseEnded sys s).vectors i).id = (s.vectors i).id) ∧
      (∀ i, (phaseEnded sys s).nvic.enabled i = true →
        s.nvic.enabled i = true ∨ (s.vectors i).id = s.activeBox) ∧
      (phaseEnded sys s).nvic.ipr = s.nvic.ipr := by
  unfold phaseEnded
  split
  · refine ⟨rfl, fun i => ?_, fun i hi => ?_, rfl⟩
    · simp only [allEnabled]
      split <;> rfl
    · simp only [allEnabled] at hi
      split at hi
      · refine ((Bool.or_eq_true _ _).mp hi).imp id fun hrestored => ?_
        rw [restored, Bool.and_eq_true, decide_eq_true_eq] at hrestored
        exact hrestored.1
      · exact .inl hi
  · exact ⟨rfl, fun _ => rfl, fun _ => .inl, rfl⟩

/-- Every call. -/
theorem call_effect {c : Call} (h : call sys s c = some t) : Effect sys c s t := by
  cases c with
  | isrSet irqn vector =>
    obtain ⟨u, hu, rfl⟩ := Option.map_eq_some_iff.mp h
    exact .ofOwner rfl (by simp) hu rfl (update_id rfl) (fun _ => .inl) rfl
  | isrGet irqn =>
    obtain ⟨out, hout, rfl⟩ := Option.map_eq_some_iff.mp h
    obtain ⟨u, hu, rfl⟩ := Option.map_eq_some_iff.mp hout
    exact .ofOwner rfl (by simp) hu rfl (fun _ => rfl) (fun _ => .inl) rfl
  | irqEnable irqn =>
    obtain ⟨u, hu, heq⟩ := Option.map_eq_some_iff.mp h
    dsimp only at heq
    split at heq
    · subst heq
      refine .ofOwner rfl (by simp) hu rfl (fun _ => rfl) (fun i hi => ?_) rfl
      by_cases hne : i = irqn
      · exact .inr hne
      · simp only [nvicEnableIrq, Function.update_of_ne hne] at hi
        exact .inl hi
    · subst heq
      exact .ofOwner rfl (by simp) hu rfl (update_id rfl) (fun _ => .inl) rfl
  | irqDisable irqn =>
    obtain ⟨u, hu, rfl⟩ := Option.map_eq_some_iff.mp h
    refine .ofOwner rfl (by simp) hu rfl (fun _ => rfl) (fun i hi => ?_) rfl
    by_cases hne : i = irqn
    · exact .inr hne
    · simp only [nvicDisableIrq, Function.update_of_ne hne] at hi
      exact .inl hi
  | irqDisableAll =>
    obtain rfl := virqIrqDisableAll_some h
    obtain ⟨hactive, hids, henabled, hipr⟩ := phaseStarted_effect sys s
    exact ⟨hactive, by simp [Call.irqn], fun i _ => hids i, fun i hi => .inl (henabled i hi), fun _ => hipr,
      by simp⟩
  | irqEnableAll =>
    obtain rfl := Option.some.inj h
    rw [virqIrqEnableAll_eq]
    obtain ⟨hactive, hids, henabled, hipr⟩ := phaseEnded_effect sys s
    refine ⟨hactive, by simp [Call.irqn], fun i _ => hids i, fun i hi => ?_, fun _ => hipr, by simp⟩
    exact (henabled i hi).imp id (hids i).trans
  | irqPendingClr irqn =>
    obtain ⟨u, hu, rfl⟩ := Option.map_eq_some_iff.mp h
    exact .ofOwner rfl (by simp) hu rfl (fun _ => rfl) (fun _ => .inl) rfl
  | irqPendingSet irqn =>
    obtain ⟨u, hu, rfl⟩ := Option.map_eq_some_iff.mp h
    exact .ofOwner rfl (by simp) hu rfl (fun _ => rfl) (fun _ => .inl) rfl
  | irqPendingGet irqn =>
    obtain ⟨out, hout, rfl⟩ := Option.map_eq_some_iff.mp h
    obtain ⟨u, hu, rfl⟩ := Option.map_eq_some_iff.mp hout
    exact .ofOwner rfl (by simp) hu rfl (fun _ => rfl) (fun _ => .inl) rfl
  | irqPrioritySet irqn priority =>
    obtain ⟨u, hu, h⟩ := Option.bind_eq_some_iff.mp h
    split at h
    · cases h
    · rename_i hrange
      obtain rfl := Option.some.inj h
      have howned : Effect sys (.isrGet irqn) s u :=
        .ofOwner rfl (by simp) hu rfl (fun _ => rfl) (fun _ => .inl) rfl
      refine ⟨howned.activeBox, howned.taken, howned.kept, howned.enabled,
        fun hnot => absurd rfl (hnot irqn priority), fun i p hc => ?_⟩
      obtain ⟨rfl, rfl⟩ := Call.irqPrioritySet.inj hc
      refine ⟨not_lt.mp hrange, ?_⟩
      have hipr := howned.priorities (by simp)
      simp only [nvicSetPriority, hipr]
  | irqPriorityGet irqn =>
    obtain ⟨out, hout, rfl⟩ := Option.map_eq_some_iff.mp h
    obtain ⟨u, hu, rfl⟩ := Option.map_eq_some_iff.mp hout
    exact .ofOwner rfl (by simp) hu rfl (fun _ => rfl) (fun _ => .inl) rfl

end Calls

/-! ## The invariant -/

section Invariant

variable {sys : Platform} {r r' : Run} {irqn : ℕ}

/-- Priorities with as many bits as there are survive in the register. -/
theorem priority_kept {priority : ℕ} (h : priority < 2^sys.prioBits) :
    ((priority <<< (8-sys.prioBits))%256) >>> (8-sys.prioBits) = priority := by
  have hword : 2^sys.prioBits*2^(8-sys.prioBits) = 256 := by
    rw [← Nat.pow_add, Nat.add_sub_cancel' sys.prioBits_le]
  have hpos : 0 < 2^(8-sys.prioBits) := Nat.two_pow_pos _
  have hlt : priority*2^(8-sys.prioBits) < 256 := by
    rw [← hword]
    exact Nat.mul_lt_mul_of_pos_right h hpos
  rw [Nat.shiftLeft_eq, Nat.mod_eq_of_lt hlt, Nat.shiftRight_eq_div_pow, Nat.mul_div_cancel _ hpos]

/-- There are priorities above those of the monitor. -/
theorem maxPriority_eq (sys : Platform) : minPriority+maxPriority sys = 2^sys.prioBits-1 := by
  have hbits : 2^3 ≤ 2^sys.prioBits := Nat.pow_le_pow_right (by decide) sys.prioBits_ge
  unfold maxPriority minPriority
  omega

/-- The priority that is in force: the one that was set last, or the highest
one. -/
def virtualPriority (r : Run) (irqn : ℕ) : ℕ := (r.lastSet irqn).getD 0

/-- What holds between the steps. -/
structure Inv (sys : Platform) (r : Run) : Prop where
  /-- Owners are boxes. -/
  owners : ∀ irqn < sys.nvicVectors, (r.state.vectors irqn).id = boxIdInvalid ∨
    (r.state.vectors irqn).id < sys.boxCount
  /-- The priorities are those that were set. -/
  priorities : ∀ irqn < sys.nvicVectors,
    nvicGetPriority sys irqn r.state = minPriority+virtualPriority r irqn
  /-- They are in range. -/
  range : ∀ irqn, virtualPriority r irqn ≤ maxPriority sys

theorem inv_initial (h : Initial sys r) : Inv sys r := by
  obtain ⟨⟨userVtor, s, hinit⟩, hlast⟩ := h
  have hzero : ∀ irqn, virtualPriority r irqn = 0 := fun irqn => by
    rw [virtualPriority, hlast]
    rfl
  unfold virqInit at hinit
  rw [foldl_initBody] at hinit
  split at hinit
  · have hstate := (Option.some.inj hinit).symm
    refine ⟨fun irqn hlt => .inl ?_, fun irqn hlt => ?_, fun irqn => ?_⟩
    · rw [hstate]
      simp only [initialized, if_pos hlt]
    · have hmin : minPriority < 2^sys.prioBits := by
        have := maxPriority_eq sys
        have hpos : 0 < 2^sys.prioBits := Nat.two_pow_pos _
        omega
      rw [hzero, hstate]
      simp only [nvicGetPriority, initialized, if_pos hlt]
      exact priority_kept hmin
    · rw [hzero]
      exact Nat.zero_le _
  · cases hinit

/-- An owner is given at boot only to an interrupt without one. -/
theorem aclAdd_some {s t : Virq.State} {boxId : ℕ} (hactive : s.activeBox = boxIdInvalid)
    (h : virqAclAdd sys boxId irqn s = some t) :
    irqn < sys.nvicVectors ∧ (s.vectors irqn).id = boxIdInvalid ∧ t = setOwner irqn boxId s := by
  obtain ⟨owner, howner, h⟩ := Option.bind_eq_some_iff.mp h
  obtain ⟨hlt, ⟨rfl, hnone⟩ | ⟨rfl, -, hbox⟩ | rfl⟩ := aclCheck_some howner
  · exact ⟨hlt, hnone, (Option.some.inj h).symm⟩
  · exact absurd hactive hbox
  · cases h

theorem Inv.aclAdd (h : Inv sys r) {boxId : ℕ} (hactive : r.state.activeBox = boxIdInvalid)
    (hbox : boxId < sys.boxCount) {t : Virq.State}
    (hs : virqAclAdd sys boxId irqn r.state = some t) : Inv sys {r with state := t} := by
  obtain ⟨-, -, rfl⟩ := aclAdd_some hactive hs
  refine ⟨fun i hi => ?_, h.priorities, h.range⟩
  by_cases heq : i = irqn
  · subst heq
    right
    simpa [setOwner] using hbox
  · simpa [setOwner, Function.update_of_ne heq] using h.owners i hi

theorem Inv.call (h : Inv sys r) {box : ℕ} (hbox : box < sys.boxCount) {c : Call}
    {t : Virq.State} (hs : boxCall sys r.state box c = some t) :
    Inv sys ⟨t, noteCall r.lastSet c⟩ := by
  have heffect := call_effect hs
  have howners : ∀ i < sys.nvicVectors, (t.vectors i).id = boxIdInvalid ∨
      (t.vectors i).id < sys.boxCount := fun i hi => by
    by_cases hc : c.irqn = some i
    · right
      rw [(heffect.taken i hc).2.2]
      exact hbox
    · rw [heffect.kept i hc]
      exact h.owners i hi
  by_cases hset : ∃ i priority, c = .irqPrioritySet i priority
  · obtain ⟨j, priority, rfl⟩ := hset
    obtain ⟨hmax, hipr⟩ := heffect.priority j priority rfl
    have hfits : minPriority+priority < 2^sys.prioBits := by
      have hsum := maxPriority_eq sys
      have hpos : 0 < 2^sys.prioBits := Nat.two_pow_pos _
      omega
    refine ⟨howners, fun i hi => ?_, fun i => ?_⟩
    · by_cases hij : i = j
      · subst hij
        simp only [nvicGetPriority, hipr, virtualPriority, noteCall, Function.update_self,
          Option.getD_some]
        exact priority_kept hfits
      · have hold := h.priorities i hi
        simpa [nvicGetPriority, hipr, virtualPriority, noteCall, Function.update_of_ne hij] using hold
    · by_cases hij : i = j
      · subst hij
        simpa [virtualPriority, noteCall] using hmax
      · simpa [virtualPriority, noteCall, Function.update_of_ne hij] using h.range i
  · have hnot : ∀ i priority, c ≠ .irqPrioritySet i priority := fun i priority hc =>
      hset ⟨i, priority, hc⟩
    have hipr := heffect.priorities hnot
    have hlast : noteCall r.lastSet c = r.lastSet := by
      cases c with
      | irqPrioritySet i priority => exact absurd rfl (hnot i priority)
      | _ => rfl
    rw [hlast]
    refine ⟨howners, fun i hi => ?_, h.range⟩
    have hold := h.priorities i hi
    simpa [nvicGetPriority, hipr, virtualPriority] using hold

theorem inv_step {a : Action} (h : Inv sys r) (hproper : Proper sys r a)
    (hs : step sys r a = some r') : Inv sys r' := by
  cases a with
  | aclAdd boxId irqn =>
    obtain ⟨t, ht, rfl⟩ := Option.map_eq_some_iff.mp hs
    exact h.aclAdd hproper.1 hproper.2 ht
  | call box c =>
    obtain ⟨t, ht, rfl⟩ := Option.map_eq_some_iff.mp hs
    exact h.call hproper ht

/-- An owner stays. -/
theorem owner_kept_step {a : Action} (hproper : Proper sys r a) (hs : step sys r a = some r')
    (howned : (r.state.vectors irqn).id ≠ boxIdInvalid) :
    (r'.state.vectors irqn).id = (r.state.vectors irqn).id := by
  cases a with
  | aclAdd boxId i =>
    obtain ⟨t, ht, rfl⟩ := Option.map_eq_some_iff.mp hs
    obtain ⟨-, hfree, rfl⟩ := aclAdd_some hproper.1 ht
    have hne : irqn ≠ i := by
      rintro rfl
      exact howned hfree
    simp [setOwner, Function.update_of_ne hne]
  | call box c =>
    obtain ⟨t, ht, rfl⟩ := Option.map_eq_some_iff.mp hs
    have heffect := call_effect ht
    by_cases hc : c.irqn = some irqn
    · obtain ⟨-, hfree | hself, htaken⟩ := heffect.taken irqn hc
      · exact absurd hfree howned
      · exact htaken.trans hself.symm
    · exact heffect.kept irqn hc

/-- It stays for the rest of the run. -/
theorem owner_kept (h : Reachable (· = r) (step sys) (Proper sys) r')
    (howned : (r.state.vectors irqn).id ≠ boxIdInvalid) :
    (r'.state.vectors irqn).id = (r.state.vectors irqn).id :=
  h.invariant (fun r' => (r'.state.vectors irqn).id = (r.state.vectors irqn).id)
    (fun _ heq => by rw [heq])
    fun _ _ _ hi hproper hs => (owner_kept_step hproper hs (hi ▸ howned)).trans hi

/-- What gets enabled has an owner. -/
theorem enabled_owned {a : Action} (hproper : Proper sys r a) (hs : step sys r a = some r')
    (henabled : r'.state.nvic.enabled irqn = true) :
    r.state.nvic.enabled irqn = true ∨ (r'.state.vectors irqn).id < sys.boxCount := by
  cases a with
  | aclAdd boxId i =>
    obtain ⟨t, ht, rfl⟩ := Option.map_eq_some_iff.mp hs
    obtain ⟨-, -, rfl⟩ := aclAdd_some hproper.1 ht
    exact .inl henabled
  | call box c =>
    obtain ⟨t, ht, rfl⟩ := Option.map_eq_some_iff.mp hs
    exact ((call_effect ht).enabled irqn henabled).imp id fun howner => lt_of_eq_of_lt howner hproper

end Invariant

/-! ## Every run -/

section Runs

variable {sys : Platform} {r : Run}

/-- In every run, the priorities of device interrupts are below those of the
monitor, what a box reads is what was set last, and a step enables only
interrupts that have an owner then and leaves the interrupt of a call with the
caller. An interrupt that has an owner keeps it for the rest of the run. -/
theorem interrupts_owned (h : Reachable (Initial sys) (step sys) (Proper sys) r) :
    (∀ irqn < sys.nvicVectors, minPriority ≤ nvicGetPriority sys irqn r.state ∧
      nvicGetPriority sys irqn r.state ≤ 2^sys.prioBits-1) ∧
    (∀ box irqn priority t,
      virqIrqPriorityGet sys irqn {r.state with activeBox := box} = some (priority, t) →
        priority = (r.lastSet irqn).getD 0) ∧
    (∀ a r', Proper sys r a → step sys r a = some r' →
      (∀ irqn, r'.state.nvic.enabled irqn = true →
        r.state.nvic.enabled irqn = true ∨ (r'.state.vectors irqn).id < sys.boxCount) ∧
      ∀ box c irqn, a = .call box c → c.irqn = some irqn → (r'.state.vectors irqn).id = box) ∧
    ∀ r', Reachable (· = r) (step sys) (Proper sys) r' →
      ∀ irqn, (r.state.vectors irqn).id ≠ boxIdInvalid →
        (r'.state.vectors irqn).id = (r.state.vectors irqn).id := by
  have hinv : Inv sys r := h.invariant (Inv sys) (fun _ => inv_initial)
    fun _ _ _ hi hproper hs => inv_step hi hproper hs
  have hsum := maxPriority_eq sys
  refine ⟨fun irqn hlt => ?_, fun box irqn priority t hget => ?_, fun a r' hproper hs => ⟨?_, ?_⟩,
    fun r' hr' irqn howned => owner_kept hr' howned⟩
  · have hpriority := hinv.priorities irqn hlt
    have hrange := hinv.range irqn
    omega
  · obtain ⟨u, hu, heq⟩ := Option.map_eq_some_iff.mp hget
    obtain ⟨hlt, -, rfl⟩ := register_some hu
    obtain ⟨rfl, -⟩ := Prod.mk.inj heq
    have hpriority := hinv.priorities irqn hlt
    have hrange := hinv.range irqn
    have hbits : 2^sys.prioBits ≤ 2^8 := Nat.pow_le_pow_right (by decide) sys.prioBits_le
    change (nvicGetPriority sys irqn r.state+2^32-minPriority)%2^32 = virtualPriority r irqn
    omega
  · exact fun irqn henabled => enabled_owned hproper hs henabled
  · rintro box c irqn rfl hc
    obtain ⟨t, ht, rfl⟩ := Option.map_eq_some_iff.mp hs
    exact ((call_effect ht).taken irqn hc).2.2

/-- Two boxes, four interrupts and four priority bits. -/
def fourInterrupts : Platform where
  boxCount := 2
  nvicVectors := 4
  isrIsDefault := fun _ => true
  prioBits := 4
  prioBits_ge := by decide
  prioBits_le := by decide
  boxCount_le := by decide

/-- The variables at a reset. -/
def resetState : Virq.State :=
  ⟨boxIdInvalid, fun _ => ⟨⟨0, 0⟩, false⟩, fun _ => 0, ⟨fun _ => false, fun _ => false, fun _ => 0⟩⟩

/-- The interrupts after the boot. -/
def setUp : Run := ⟨initialized fourInterrupts (fun _ => 0x1000) resetState 4, fun _ => none⟩

theorem setUp_initial : Initial fourInterrupts setUp := by
  refine ⟨⟨fun _ => 0x1000, resetState, ?_⟩, rfl⟩
  have hmax : minPriority < maxPriority fourInterrupts := by decide
  rw [virqInit, if_pos hmax, foldl_initBody]
  rfl

/-- Interrupt 2 is given to box 1, which sets its priority to 5. Box 1 reads
this priority, and no later call takes the interrupt away. -/
theorem interrupts_owned_fourInterrupts :
    ∃ r, execWithin (step fourInterrupts) (Proper fourInterrupts)
        [.aclAdd 1 2, .call 1 (.irqPrioritySet 2 5), .call 0 (.irqEnable 3)] setUp = some r ∧
      (∃ t, virqIrqPriorityGet fourInterrupts 2 {r.state with activeBox := 1} = some (5, t)) ∧
      ∀ r', Reachable (· = r) (step fourInterrupts) (Proper fourInterrupts) r' →
        (r'.state.vectors 2).id = 1 := by
  have hrun : ((execWithin (step fourInterrupts) (Proper fourInterrupts)
      [.aclAdd 1 2, .call 1 (.irqPrioritySet 2 5), .call 0 (.irqEnable 3)] setUp).map fun r =>
        ((r.state.vectors 2).id, (r.lastSet 2).getD 0,
          (virqIrqPriorityGet fourInterrupts 2 {r.state with activeBox := 1}).isSome)) =
      some (1, 5, true) := by decide +kernel
  obtain ⟨r, hr, hfacts⟩ := Option.map_eq_some_iff.mp hrun
  simp only [Prod.mk.injEq] at hfacts
  obtain ⟨hid, hset, hget⟩ := hfacts
  obtain ⟨-, hread, -, hkept⟩ :=
    interrupts_owned (execWithin_reachable (Reachable.start setUp_initial) hr)
  obtain ⟨⟨priority, t⟩, ht⟩ := Option.isSome_iff_exists.mp hget
  have hpriority := hread 1 2 priority t ht
  rw [hset] at hpriority
  subst hpriority
  refine ⟨r, hr, ⟨t, ht⟩, fun r' hr' => (hkept r' hr' 2 ?_).trans hid⟩
  rw [hid]
  decide

end Runs

end Uvisor.VirqOwnership
