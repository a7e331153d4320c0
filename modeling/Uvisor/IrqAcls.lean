import Mathlib.Data.List.Induction
import Uvisor.SecureVirqRuns
import Uvisor.VirqOwnership

/-!
# Access control lists of interrupts on both cores

At boot the boxes get the interrupts of their lists, first come first served.
One core compares the owner of an interrupt with the box that is configured.
The other one compares it with the active box, and at boot none is active. An
interrupt that a box lists twice is therefore accepted by the first core only.
-/

namespace Uvisor.IrqAcls

open Execution
open Virq (boxIdInvalid maxBoxes)

/-! ## Calls and cores -/

/-- A call of virq_acl_add for one of the boxes. -/
@[ext]
structure AclCall where
  /-- box_id. -/
  boxId : ℕ
  /-- irqn. -/
  irqn : ℕ
  /-- The box exists. -/
  boxId_lt : boxId < maxBoxes
  deriving DecidableEq

/-- What the calls see of a core. -/
structure Core (σ : Type) where
  /-- The interrupts that exist and are not the monitor's own. -/
  usable : ℕ → Bool
  /-- Owner of an interrupt. -/
  owner : σ → ℕ → ℕ
  /-- virq_acl_add. There is no result when the system halts. -/
  add : σ → AclCall → Option σ

/-- ARMv7-M. -/
def armv7m (sys : Virq.Platform) : Core Virq.State where
  usable := Interrupts.virqDefaultCheck sys.toPlatform
  owner s irqn := (s.vectors irqn).id
  add s call := Virq.virqAclAdd sys call.boxId call.irqn s

/-- ARMv8-M. -/
def armv8m (sys : SecureVirq.Platform) : Core SecureVirq.State where
  usable irqn := decide (irqn < sys.nvicVectors)
  owner s irqn := (s.states irqn).boxId
  add s call := SecureVirq.virqAclAdd sys call.boxId call.irqn s

/-! ## The rule -/

section Rule

variable {σ : Type}

/-- A call is refused for an interrupt that cannot be used or that another box
owns. -/
def Refused (core : Core σ) (s : σ) (call : AclCall) : Prop :=
  core.usable call.irqn = false ∨
    core.owner s call.irqn ≠ boxIdInvalid ∧ core.owner s call.irqn ≠ call.boxId

/-- A call follows the rule. -/
structure Follows (core : Core σ) (s : σ) (call : AclCall) : Prop where
  /-- It halts exactly when it is refused. -/
  halts : core.add s call = none ↔ Refused core s call
  /-- Otherwise the interrupt belongs to the box. -/
  owned : ∀ t, core.add s call = some t → core.owner t call.irqn = call.boxId

/-- All calls that are reached follow the rule. -/
def FollowsRule (core : Core σ) (calls : List AclCall) (s : σ) : Prop :=
  ∀ before call after, calls = before ++ call :: after →
    ∀ t, exec core.add before s = some t → Follows core t call

/-- Calls that the rule accepts one after the other. -/
structure Accepted (usable : ℕ → Bool) (calls : List AclCall) : Prop where
  /-- The interrupts can be used. -/
  usable : ∀ call ∈ calls, usable call.irqn = true
  /-- No two boxes have the same one. -/
  sameBox : ∀ call ∈ calls, ∀ other ∈ calls, call.irqn = other.irqn → call.boxId = other.boxId

/-- No interrupt is listed again by the box that has it, as long as the calls
are accepted. -/
def NoRepeats (usable : ℕ → Bool) (calls : List AclCall) : Prop :=
  ∀ before call after, calls = before ++ call :: after → Accepted usable before → call ∉ before

end Rule

/-! ## ARMv8-M -/

/-- Every call follows the rule, in every state. -/
theorem armv8m_follows (sys : SecureVirq.Platform) (s : SecureVirq.State) (call : AclCall) :
    Follows (armv8m sys) s call := by
  have hadd : (armv8m sys).add s call = SecureVirq.virqAclAdd sys call.boxId call.irqn s := rfl
  constructor
  · rw [hadd, SecureVirq.virqAclAdd, Option.map_eq_none_iff, SecureVirq.virqCheckAcls]
    have husable : (armv8m sys).usable call.irqn = false ↔ sys.nvicVectors ≤ call.irqn := by
      simp [armv8m]
    unfold Refused
    rw [husable]
    split_ifs with hrange howner
    · simp [hrange]
    · exact iff_of_true rfl (Or.inr howner)
    · exact iff_of_false (by simp) (not_or.mpr ⟨hrange, howner⟩)
  · intro t ht
    obtain ⟨_, -, rfl⟩ := Option.map_eq_some_iff.mp ht
    change (Function.update s.states call.irqn
      {s.states call.irqn with boxId := call.boxId} call.irqn).boxId = call.boxId
    rw [Function.update_self]

/-! ## ARMv7-M -/

section Boot

variable {sys : Virq.Platform} {s t : Virq.State} {call : AclCall} {calls before : List AclCall}

/-- While no box is active, only an interrupt without an owner is given. -/
theorem armv7m_add_none_iff (hactive : s.activeBox = boxIdInvalid) :
    (armv7m sys).add s call = none ↔
      (armv7m sys).usable call.irqn = false ∨ (armv7m sys).owner s call.irqn ≠ boxIdInvalid := by
  change Virq.virqAclAdd sys call.boxId call.irqn s = none ↔
    Interrupts.virqDefaultCheck sys.toPlatform call.irqn = false ∨
      (s.vectors call.irqn).id ≠ boxIdInvalid
  unfold Virq.virqAclAdd Virq.virqAclCheck
  rw [hactive]
  cases Interrupts.virqDefaultCheck sys.toPlatform call.irqn with
  | false => simp
  | true => by_cases hnone : (s.vectors call.irqn).id = boxIdInvalid <;> simp [hnone]

theorem owner_setOwner_self (sys : Virq.Platform) (i boxId : ℕ) (s : Virq.State) :
    (armv7m sys).owner (Virq.setOwner i boxId s) i = boxId := by
  change (Function.update s.vectors i {s.vectors i with id := boxId} i).id = boxId
  rw [Function.update_self]

theorem owner_setOwner_of_ne (sys : Virq.Platform) {i irqn : ℕ} (hne : irqn ≠ i) (boxId : ℕ)
    (s : Virq.State) :
    (armv7m sys).owner (Virq.setOwner i boxId s) irqn = (armv7m sys).owner s irqn := by
  change (Function.update s.vectors i {s.vectors i with id := boxId} irqn).id = (s.vectors irqn).id
  rw [Function.update_of_ne hne]

/-- What calls that have all returned leave behind. -/
structure Recorded (sys : Virq.Platform) (s : Virq.State) (calls : List AclCall)
    (t : Virq.State) : Prop where
  /-- No box has become active. -/
  activeBox : t.activeBox = boxIdInvalid
  /-- The interrupts can be used. -/
  usable : ∀ call ∈ calls, (armv7m sys).usable call.irqn = true
  /-- Every call has its interrupt. -/
  owner : ∀ call ∈ calls, (armv7m sys).owner t call.irqn = call.boxId
  /-- The other interrupts have not changed. -/
  others : ∀ irqn, (∀ call ∈ calls, call.irqn ≠ irqn) →
    (armv7m sys).owner t irqn = (armv7m sys).owner s irqn

/-- One more call. -/
theorem Recorded.add (h : Recorded sys s before t) {t' : Virq.State}
    (hadd : (armv7m sys).add t call = some t') : Recorded sys s (before ++ [call]) t' := by
  have hreturns : (armv7m sys).add t call ≠ none := by
    rw [hadd]
    exact Option.some_ne_none _
  have hgiven := mt (armv7m_add_none_iff h.activeBox).mpr hreturns
  rw [not_or, not_not, Bool.not_eq_false] at hgiven
  obtain ⟨husable, hfree⟩ := hgiven
  obtain ⟨-, -, rfl⟩ := VirqOwnership.aclAdd_some h.activeBox hadd
  constructor
  · exact h.activeBox
  · intro c hc
    rcases List.mem_append.mp hc with hc | hc
    · exact h.usable c hc
    · rw [List.mem_singleton.mp hc]
      exact husable
  · intro c hc
    rcases List.mem_append.mp hc with hc | hc
    · -- an interrupt that has been given has an owner, and this one had none
      have hne : c.irqn ≠ call.irqn := by
        intro heq
        have howner := h.owner c hc
        rw [heq, hfree] at howner
        have hlt := c.boxId_lt
        unfold boxIdInvalid at howner
        unfold maxBoxes at hlt
        omega
      rw [owner_setOwner_of_ne sys hne]
      exact h.owner c hc
    · rw [List.mem_singleton.mp hc]
      exact owner_setOwner_self sys call.irqn call.boxId t
  · intro irqn hnone
    have hne : irqn ≠ call.irqn := fun heq => hnone call (by simp) heq.symm
    rw [owner_setOwner_of_ne sys hne]
    exact h.others irqn fun c hc => hnone c (List.mem_append_left _ hc)

/-- All calls of a run. -/
theorem recorded_of_exec (hactive : s.activeBox = boxIdInvalid)
    (h : exec (armv7m sys).add calls s = some t) : Recorded sys s calls t := by
  induction calls using List.reverseRecOn generalizing t with
  | nil =>
    obtain rfl := Option.some.inj h
    exact ⟨hactive, by simp, by simp, fun _ _ => rfl⟩
  | append_singleton before call ih =>
    rw [exec_concat] at h
    obtain ⟨u, hu, hadd⟩ := Option.bind_eq_some_iff.mp h
    exact (ih hu).add hadd

/-- The rule would have accepted the calls of a run. -/
theorem Recorded.accepted (h : Recorded sys s calls t) :
    Accepted (armv7m sys).usable calls := by
  refine ⟨h.usable, fun c hc other hother heq => ?_⟩
  rw [← h.owner c hc, heq, h.owner other hother]

/-- The owner of an interrupt comes from an earlier call. -/
theorem Recorded.earlier (h : Recorded sys s before t)
    (hfree : ∀ irqn, (armv7m sys).usable irqn = true → (armv7m sys).owner s irqn = boxIdInvalid)
    {irqn : ℕ} (husable : (armv7m sys).usable irqn = true)
    (howned : (armv7m sys).owner t irqn ≠ boxIdInvalid) :
    ∃ c ∈ before, c.irqn = irqn ∧ (armv7m sys).owner t irqn = c.boxId := by
  by_contra hnever
  push Not at hnever
  refine howned ((h.others irqn fun c hc heq => ?_).trans (hfree irqn husable))
  exact hnever c hc heq (heq ▸ h.owner c hc)

/-- A call that repeats none of the earlier ones follows the rule. -/
theorem Recorded.follows (h : Recorded sys s before t)
    (hfree : ∀ irqn, (armv7m sys).usable irqn = true → (armv7m sys).owner s irqn = boxIdInvalid)
    (hnew : call ∉ before) : Follows (armv7m sys) t call := by
  refine ⟨(armv7m_add_none_iff h.activeBox).trans ⟨?_, ?_⟩, fun t' hadd => ?_⟩
  · intro hnone
    cases husable : (armv7m sys).usable call.irqn with
    | false => exact Or.inl husable
    | true =>
      have howned := hnone.resolve_left (by simp [husable])
      refine Or.inr ⟨howned, fun hsame => ?_⟩
      obtain ⟨c, hc, heq, howner⟩ := h.earlier hfree husable howned
      exact hnew (AclCall.ext (howner.symm.trans hsame) heq ▸ hc)
  · exact Or.imp_right And.left
  · exact (h.add hadd).owner call (by simp)

/-- A repeated call does not follow the rule. -/
theorem Recorded.not_follows (h : Recorded sys s before t) (hrepeated : call ∈ before) :
    ¬Follows (armv7m sys) t call := by
  intro hfollows
  have howner := h.owner call hrepeated
  have hlt := call.boxId_lt
  have hhalts : (armv7m sys).add t call = none := by
    refine (armv7m_add_none_iff h.activeBox).mpr (Or.inr ?_)
    rw [howner]
    unfold boxIdInvalid
    unfold maxBoxes at hlt
    omega
  rcases hfollows.halts.mp hhalts with husable | ⟨-, hother⟩
  · rw [h.usable call hrepeated] at husable
    cases husable
  · exact hother howner

/-- Calls that the rule accepts all return where every call follows it. -/
theorem exec_of_accepted (hactive : s.activeBox = boxIdInvalid)
    (hfree : ∀ irqn, (armv7m sys).usable irqn = true → (armv7m sys).owner s irqn = boxIdInvalid)
    {after : List AclCall} (hrule : FollowsRule (armv7m sys) (before ++ after) s)
    (haccepted : Accepted (armv7m sys).usable before) :
    ∃ t, exec (armv7m sys).add before s = some t := by
  induction before using List.reverseRecOn generalizing after with
  | nil => exact ⟨s, rfl⟩
  | append_singleton before call ih =>
    rw [List.append_assoc, List.singleton_append] at hrule
    obtain ⟨t, ht⟩ := ih hrule
      ⟨fun c hc => haccepted.usable c (List.mem_append_left _ hc), fun c hc other hother =>
        haccepted.sameBox c (List.mem_append_left _ hc) other (List.mem_append_left _ hother)⟩
    have hrecorded := recorded_of_exec hactive ht
    have hcall : call ∈ before ++ [call] := by simp
    have hnotRefused : ¬Refused (armv7m sys) t call := by
      rintro (husable | ⟨howned, hother⟩)
      · rw [haccepted.usable call hcall] at husable
        cases husable
      · obtain ⟨c, hc, heq, howner⟩ :=
          hrecorded.earlier hfree (haccepted.usable call hcall) howned
        have hbox := haccepted.sameBox c (List.mem_append_left _ hc) call hcall heq
        exact hother (howner.trans hbox)
    have hreturns := mt (hrule before call after rfl t ht).halts.mp hnotRefused
    obtain ⟨t', ht'⟩ := Option.ne_none_iff_exists'.mp hreturns
    exact ⟨t', by rw [exec_concat, ht, Option.bind_some, ht']⟩

/-- After the interrupts have been set up no box is active, and none has an
interrupt. -/
theorem initial_of_virqInit {userVtor : ℕ → Context.Word} {start : Virq.State}
    (hactive : start.activeBox = boxIdInvalid) (hinit : Virq.virqInit sys userVtor start = some s) :
    s.activeBox = boxIdInvalid ∧
      ∀ irqn, (armv7m sys).usable irqn = true → (armv7m sys).owner s irqn = boxIdInvalid := by
  unfold Virq.virqInit at hinit
  rw [Virq.foldl_initBody] at hinit
  split at hinit
  · obtain rfl := Option.some.inj hinit
    refine ⟨hactive, fun irqn husable => ?_⟩
    have hlt : irqn < sys.nvicVectors := Interrupts.lt_of_virqDefaultCheck husable
    simp only [armv7m, Virq.initialized, if_pos hlt]
  · cases hinit

end Boot

/-! ## Both cores -/

/-- For every sequence of calls at boot, both cores halt exactly on the calls
that are refused, and give the interrupts of the other ones to their boxes,
exactly when no interrupt is listed again by the box that has it. -/
theorem sameRule_iff {sys : Virq.Platform} {userVtor : ℕ → Context.Word} {start s : Virq.State}
    (hactive : start.activeBox = boxIdInvalid) (hinit : Virq.virqInit sys userVtor start = some s)
    (secure : SecureVirq.Platform) (reset : SecureVirq.State) (calls : List AclCall) :
    FollowsRule (armv7m sys) calls s ∧
        FollowsRule (armv8m secure) calls (SecureVirq.virqInit secure reset) ↔
      NoRepeats (armv7m sys).usable calls := by
  obtain ⟨hnobox, hfree⟩ := initial_of_virqInit hactive hinit
  constructor
  · rintro ⟨hrule, -⟩ before call after rfl haccepted hrepeated
    obtain ⟨t, ht⟩ := exec_of_accepted hnobox hfree hrule haccepted
    exact (recorded_of_exec hnobox ht).not_follows hrepeated (hrule before call after rfl t ht)
  · intro hnew
    constructor
    · intro before call after hsplit t ht
      have hrecorded := recorded_of_exec hnobox ht
      exact hrecorded.follows hfree (hnew before call after hsplit hrecorded.accepted)
    · exact fun _ call _ _ t _ => armv8m_follows secure t call

theorem noRepeats_of_nodup {usable : ℕ → Bool} {calls : List AclCall} (h : calls.Nodup) :
    NoRepeats usable calls := by
  rintro before call after rfl - hmem
  exact (List.nodup_append.mp h).2.2 call hmem call (List.mem_cons_self ..) rfl

/-! ## Two boxes -/

/-- Two boxes list different interrupts. -/
theorem sameRule_twoBoxes :
    FollowsRule (armv7m VirqOwnership.fourInterrupts) [⟨1, 2, by decide⟩, ⟨0, 3, by decide⟩]
        VirqOwnership.setUp.state ∧
      FollowsRule (armv8m SecureVirq.smallDevice) [⟨1, 2, by decide⟩, ⟨0, 3, by decide⟩]
        (SecureVirq.virqInit SecureVirq.smallDevice SecureVirq.resetState) := by
  have hinit : Virq.virqInit VirqOwnership.fourInterrupts (fun _ => 0x1000)
      VirqOwnership.resetState = some VirqOwnership.setUp.state := by
    have hmax : Virq.minPriority < Virq.maxPriority VirqOwnership.fourInterrupts := by decide
    rw [Virq.virqInit, if_pos hmax, Virq.foldl_initBody]
    rfl
  exact (sameRule_iff rfl hinit _ _ _).mpr (noRepeats_of_nodup (by decide))

/-- Box 1 lists interrupt 2 twice, and ARMv7-M halts. -/
theorem sameRule_fails :
    ¬FollowsRule (armv7m VirqOwnership.fourInterrupts) [⟨1, 2, by decide⟩, ⟨1, 2, by decide⟩]
      VirqOwnership.setUp.state := by
  intro h
  have hfirst : (exec (armv7m VirqOwnership.fourInterrupts).add [⟨1, 2, by decide⟩]
      VirqOwnership.setUp.state).isSome := by decide
  obtain ⟨t, ht⟩ := Option.isSome_iff_exists.mp hfirst
  have hrecorded := recorded_of_exec rfl ht
  exact hrecorded.not_follows (List.mem_singleton_self _) (h [_] _ [] rfl t ht)

end Uvisor.IrqAcls
