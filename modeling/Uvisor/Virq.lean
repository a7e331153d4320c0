import Uvisor.Execution
import Uvisor.Interrupts

/-!
# Virtual interrupts on ARMv7-M

Boxes own device interrupts. A box takes an interrupt without an owner with its
first call on it, and calls on an interrupt of another box halt. The calls
reach the interrupt controller through the handlers below. A box can disable
all its interrupts, in nested phases that are counted; what was enabled is
remembered in the vector table that all boxes share.
-/

namespace Uvisor.Virq

open Interrupts Execution
open Context (Word)

/-! ## State -/

/-- UVISOR_BOX_ID_INVALID. -/
def boxIdInvalid : ℕ := 255

/-- UVISOR_MAX_BOXES. -/
def maxBoxes : ℕ := 5

/-- Constants of a booted system with device interrupts. -/
structure Platform extends Interrupts.Platform where
  /-- __NVIC_PRIO_BITS, the number of priority bits that are implemented. -/
  prioBits : ℕ
  /-- Enough of them to leave priorities to the boxes. -/
  prioBits_ge : 3 ≤ prioBits
  /-- A priority is a byte. -/
  prioBits_le : prioBits ≤ 8
  /-- There are not more boxes than counters. -/
  boxCount_le : boxCount ≤ maxBoxes

/-- Entry of the unprivileged vector table. -/
structure Vector extends IsrVector where
  /-- Whether the interrupt is to be enabled when the interrupts of its box are
  enabled again. -/
  wasEnabled : Bool

/-- Registers of the interrupt controller, by interrupt. -/
structure Nvic where
  /-- Enable bits. -/
  enabled : ℕ → Bool
  /-- Pending bits. -/
  pending : ℕ → Bool
  /-- NVIC_IPR, the priority bytes. -/
  ipr : ℕ → ℕ

/-- Variables of the virtual interrupts. -/
structure State where
  /-- g_active_box. -/
  activeBox : ℕ
  /-- g_virq_vector. -/
  vectors : ℕ → Vector
  /-- g_irq_disable_all_counter. -/
  counter : ℕ → ℕ
  /-- The interrupt controller. -/
  nvic : Nvic

/-- __UVISOR_NVIC_MIN_PRIORITY. -/
def minPriority : ℕ := 2

/-- UVISOR_VIRQ_MAX_PRIORITY. -/
def maxPriority (sys : Platform) : ℕ := 2^sys.prioBits-1-minPriority

/-! ## The interrupt controller -/

/-- NVIC_EnableIRQ. -/
def nvicEnableIrq (irqn : ℕ) (s : State) : State :=
  {s with nvic := {s.nvic with enabled := Function.update s.nvic.enabled irqn true}}

/-- NVIC_DisableIRQ. -/
def nvicDisableIrq (irqn : ℕ) (s : State) : State :=
  {s with nvic := {s.nvic with enabled := Function.update s.nvic.enabled irqn false}}

/-- NVIC_SetPendingIRQ. -/
def nvicSetPendingIrq (irqn : ℕ) (s : State) : State :=
  {s with nvic := {s.nvic with pending := Function.update s.nvic.pending irqn true}}

/-- NVIC_ClearPendingIRQ. -/
def nvicClearPendingIrq (irqn : ℕ) (s : State) : State :=
  {s with nvic := {s.nvic with pending := Function.update s.nvic.pending irqn false}}

/-- NVIC_SetPriority. The bits that are implemented are the high ones. -/
def nvicSetPriority (sys : Platform) (irqn priority : ℕ) (s : State) : State :=
  let value := (priority <<< (8-sys.prioBits))%256
  {s with nvic := {s.nvic with ipr := Function.update s.nvic.ipr irqn value}}

/-- NVIC_GetPriority. -/
def nvicGetPriority (sys : Platform) (irqn : ℕ) (s : State) : ℕ :=
  s.nvic.ipr irqn >>> (8-sys.prioBits)

/-! ## Ownership -/

/-- VIRQ_ISR_OWNER_OTHER, VIRQ_ISR_OWNER_NONE and VIRQ_ISR_OWNER_SELF. -/
inductive Owner where
  | other
  | none
  | self
  deriving DecidableEq, Repr

/-- Who owns an interrupt. Interrupts that do not exist or are the monitor's
own halt the system. -/
def virqAclCheck (sys : Platform) (irqn : ℕ) (s : State) : Option Owner :=
  if virqDefaultCheck sys.toPlatform irqn then
    if (s.vectors irqn).id = boxIdInvalid then some .none
    else if (s.vectors irqn).id = s.activeBox then some .self
    else some .other
  else none

/-- Write the owner of an interrupt. -/
def setOwner (irqn boxId : ℕ) (s : State) : State :=
  {s with vectors := Function.update s.vectors irqn {s.vectors irqn with id := boxId}}

/-- Take an interrupt that has no owner. The interrupt of another box halts the
system. -/
def virqIsrRegister (sys : Platform) (irqn : ℕ) (s : State) : Option State :=
  (virqAclCheck sys irqn s).bind fun
    | .none => some (setOwner irqn s.activeBox s)
    | .self => some s
    | .other => none

/-- Give an interrupt to a box at boot. -/
def virqAclAdd (sys : Platform) (boxId irqn : ℕ) (s : State) : Option State :=
  (virqAclCheck sys irqn s).bind fun owner =>
    if owner = .other then none else some (setOwner irqn boxId s)

/-! ## Calls on one interrupt -/

/-- Save an unprivileged handler. -/
def virqIsrSet (sys : Platform) (irqn : ℕ) (vector : Word) (s : State) : Option State :=
  (virqIsrRegister sys irqn s).map fun s =>
    {s with vectors := Function.update s.vectors irqn {s.vectors irqn with hdlr := vector}}

/-- The unprivileged handler. -/
def virqIsrGet (sys : Platform) (irqn : ℕ) (s : State) : Option (Word × State) :=
  (virqIsrRegister sys irqn s).map fun s => ((s.vectors irqn).hdlr, s)

/-- Enable an interrupt, or remember to enable it later when all interrupts of
the box are disabled. -/
def virqIrqEnable (sys : Platform) (irqn : ℕ) (s : State) : Option State :=
  (virqIsrRegister sys irqn s).map fun s =>
    if s.counter s.activeBox = 0 then nvicEnableIrq irqn s
    else {s with vectors := Function.update s.vectors irqn {s.vectors irqn with wasEnabled := true}}

/-- Disable an interrupt. -/
def virqIrqDisable (sys : Platform) (irqn : ℕ) (s : State) : Option State :=
  (virqIsrRegister sys irqn s).map (nvicDisableIrq irqn)

/-- Clear the pending bit. -/
def virqIrqPendingClr (sys : Platform) (irqn : ℕ) (s : State) : Option State :=
  (virqIsrRegister sys irqn s).map (nvicClearPendingIrq irqn)

/-- Set the pending bit. -/
def virqIrqPendingSet (sys : Platform) (irqn : ℕ) (s : State) : Option State :=
  (virqIsrRegister sys irqn s).map (nvicSetPendingIrq irqn)

/-- Read the pending bit. -/
def virqIrqPendingGet (sys : Platform) (irqn : ℕ) (s : State) : Option (Bool × State) :=
  (virqIsrRegister sys irqn s).map fun s => (s.nvic.pending irqn, s)

/-- Set the priority above those that the monitor keeps for itself. -/
def virqIrqPrioritySet (sys : Platform) (irqn priority : ℕ) (s : State) : Option State :=
  (virqIsrRegister sys irqn s).bind fun s =>
    if maxPriority sys < priority then none
    else some (nvicSetPriority sys irqn (minPriority+priority) s)

/-- Read the priority. The difference is one of words. -/
def virqIrqPriorityGet (sys : Platform) (irqn : ℕ) (s : State) : Option (ℕ × State) :=
  (virqIsrRegister sys irqn s).map fun s =>
    ((nvicGetPriority sys irqn s+2^32-minPriority)%2^32, s)

/-! ## Phases in which all interrupts of a box are disabled -/

/-- Disable one interrupt if it is enabled and of the active box, and remember
that. -/
def disableAllBody (s : State) (irqn : ℕ) : State :=
  if (s.vectors irqn).id = s.activeBox ∧ s.nvic.enabled irqn = true then
    nvicDisableIrq irqn
      {s with vectors := Function.update s.vectors irqn {s.vectors irqn with wasEnabled := true}}
  else {s with vectors := Function.update s.vectors irqn {s.vectors irqn with wasEnabled := false}}

/-- Disable all interrupts of the active box, at the first of nested calls. -/
def virqIrqDisableAll (sys : Platform) (s : State) : Option State :=
  let s := if s.counter s.activeBox = 0 then (List.range sys.nvicVectors).foldl disableAllBody s else s
  if s.counter s.activeBox < 2^32-1-1 then
    some {s with counter := Function.update s.counter s.activeBox (s.counter s.activeBox+1)}
  else none

/-- Enable one interrupt again if it is to be and is of the active box. -/
def enableAllBody (s : State) (irqn : ℕ) : State :=
  if (s.vectors irqn).id = s.activeBox ∧ (s.vectors irqn).wasEnabled = true then
    let s := nvicEnableIrq irqn s
    {s with vectors := Function.update s.vectors irqn {s.vectors irqn with wasEnabled := false}}
  else s

/-- Enable the interrupts of the active box again, at the last of nested
calls. -/
def virqIrqEnableAll (sys : Platform) (s : State) : State :=
  let s := if s.counter s.activeBox = 1 then (List.range sys.nvicVectors).foldl enableAllBody s else s
  if 0 < s.counter s.activeBox then
    {s with counter := Function.update s.counter s.activeBox (s.counter s.activeBox-1)}
  else s

/-! ## Calls -/

/-- A call of the interface. -/
inductive Call where
  | isrSet (irqn : ℕ) (vector : Word)
  | isrGet (irqn : ℕ)
  | irqEnable (irqn : ℕ)
  | irqDisable (irqn : ℕ)
  | irqDisableAll
  | irqEnableAll
  | irqPendingClr (irqn : ℕ)
  | irqPendingSet (irqn : ℕ)
  | irqPendingGet (irqn : ℕ)
  | irqPrioritySet (irqn priority : ℕ)
  | irqPriorityGet (irqn : ℕ)
  deriving DecidableEq

/-- The interrupt that a call is on. -/
def Call.irqn : Call → Option ℕ
  | .isrSet irqn _ | .isrGet irqn | .irqEnable irqn | .irqDisable irqn | .irqPendingClr irqn
  | .irqPendingSet irqn | .irqPendingGet irqn | .irqPrioritySet irqn _ | .irqPriorityGet irqn =>
    some irqn
  | .irqDisableAll | .irqEnableAll => none

/-- What a call leaves behind. There is nothing when it halts. -/
def call (sys : Platform) (s : State) : Call → Option State
  | .isrSet irqn vector => virqIsrSet sys irqn vector s
  | .isrGet irqn => (virqIsrGet sys irqn s).map Prod.snd
  | .irqEnable irqn => virqIrqEnable sys irqn s
  | .irqDisable irqn => virqIrqDisable sys irqn s
  | .irqDisableAll => virqIrqDisableAll sys s
  | .irqEnableAll => some (virqIrqEnableAll sys s)
  | .irqPendingClr irqn => virqIrqPendingClr sys irqn s
  | .irqPendingSet irqn => virqIrqPendingSet sys irqn s
  | .irqPendingGet irqn => (virqIrqPendingGet sys irqn s).map Prod.snd
  | .irqPrioritySet irqn priority => virqIrqPrioritySet sys irqn priority s
  | .irqPriorityGet irqn => (virqIrqPriorityGet sys irqn s).map Prod.snd

/-- A call of a box, which is active then. -/
def boxCall (sys : Platform) (s : State) (box : ℕ) (c : Call) : Option State :=
  call sys {s with activeBox := box} c

/-! ## Boot -/

/-- Set up one interrupt: no owner, the handler of the user's table and the
highest priority of the boxes. -/
def initBody (sys : Platform) (userVtor : ℕ → Word) (s : State) (ii : ℕ) : State :=
  let vector :=
    {s.vectors ii with id := boxIdInvalid, hdlr := userVtor (ii+nvicOffset.toNat)}
  nvicSetPriority sys ii minPriority {s with vectors := Function.update s.vectors ii vector}

/-- Set up the interrupts. The system halts when there are too few
priorities. -/
def virqInit (sys : Platform) (userVtor : ℕ → Word) (s : State) : Option State :=
  if minPriority < maxPriority sys then
    some ((List.range sys.nvicVectors).foldl (initBody sys userVtor) s)
  else none

/-! ## What the loops do -/

section Loops

variable {sys : Platform} {userVtor : ℕ → Word} {s : State}

/-- A pass that changes nothing for its interrupt. -/
theorem update_self_eq {α : Type} {f g : ℕ → α} {n : ℕ} (h : f n = g n) :
    (fun i => if i < n then f i else g i) = fun i => if i < n+1 then f i else g i := by
  rw [← update_below, h]
  exact (Function.update_eq_self_iff.mpr (by simp)).symm

/-- A vector whose interrupt has been disabled with all others of its box. -/
def remembered (s : State) (i : ℕ) : Vector :=
  {s.vectors i with wasEnabled := decide ((s.vectors i).id = s.activeBox) && s.nvic.enabled i}

/-- The first interrupts, disabled and remembered. -/
def allDisabled (s : State) (n : ℕ) : State :=
  {s with
    vectors := fun i => if i < n then remembered s i else s.vectors i
    nvic := {s.nvic with enabled := fun i =>
      if i < n then s.nvic.enabled i && !decide ((s.vectors i).id = s.activeBox)
      else s.nvic.enabled i}}

theorem foldl_disableAllBody (n : ℕ) :
    (List.range n).foldl disableAllBody s = allDisabled s n := by
  refine foldl_range_eq (allDisabled s) (by simp [allDisabled]) fun n _ => ?_
  have hself : (allDisabled s n).vectors n = s.vectors n := if_neg (Nat.lt_irrefl n)
  have henabled : (allDisabled s n).nvic.enabled n = s.nvic.enabled n := if_neg (Nat.lt_irrefl n)
  have hactive : (allDisabled s n).activeBox = s.activeBox := rfl
  simp only [disableAllBody, hself, henabled, hactive]
  by_cases hown : (s.vectors n).id = s.activeBox ∧ s.nvic.enabled n = true
  · have hvector : {s.vectors n with wasEnabled := true} = remembered s n := by
      simp [remembered, hown.1, hown.2]
    have hoff : false = (s.nvic.enabled n && !decide ((s.vectors n).id = s.activeBox)) := by
      simp [hown.1]
    rw [if_pos hown, hvector]
    simp only [allDisabled, nvicDisableIrq, State.mk.injEq, Nvic.mk.injEq, true_and, and_true]
    refine ⟨update_below, ?_⟩
    conv_lhs => rw [hoff]
    exact @update_below n _ (fun i => s.nvic.enabled i && !decide ((s.vectors i).id = s.activeBox)) _
  · have hvector : {s.vectors n with wasEnabled := false} = remembered s n := by
      simp only [remembered, Vector.mk.injEq, true_and]
      rw [eq_comm, Bool.and_eq_false_iff, decide_eq_false_iff_not]
      by_cases hid : (s.vectors n).id = s.activeBox
      · exact .inr (Bool.eq_false_iff.mpr fun h => hown ⟨hid, h⟩)
      · exact .inl hid
    have hsame : (s.nvic.enabled n && !decide ((s.vectors n).id = s.activeBox)) =
        s.nvic.enabled n := by
      by_cases hid : (s.vectors n).id = s.activeBox
      · rw [Bool.eq_false_iff.mpr fun h => hown ⟨hid, h⟩, Bool.false_and]
      · simp [hid]
    rw [if_neg hown, hvector]
    simp only [allDisabled, State.mk.injEq, Nvic.mk.injEq, true_and, and_true]
    exact ⟨update_below, update_self_eq hsame⟩

/-- Whether an interrupt is to be enabled again. -/
def restored (s : State) (i : ℕ) : Bool :=
  decide ((s.vectors i).id = s.activeBox) && (s.vectors i).wasEnabled

/-- The first interrupts, enabled again. -/
def allEnabled (s : State) (n : ℕ) : State :=
  {s with
    vectors := fun i =>
      if i < n then {s.vectors i with wasEnabled := (s.vectors i).wasEnabled && !restored s i}
      else s.vectors i
    nvic := {s.nvic with enabled := fun i =>
      if i < n then s.nvic.enabled i || restored s i else s.nvic.enabled i}}

theorem foldl_enableAllBody (n : ℕ) :
    (List.range n).foldl enableAllBody s = allEnabled s n := by
  refine foldl_range_eq (allEnabled s) (by simp [allEnabled]) fun n _ => ?_
  have hself : (allEnabled s n).vectors n = s.vectors n := if_neg (Nat.lt_irrefl n)
  have hactive : (allEnabled s n).activeBox = s.activeBox := rfl
  simp only [enableAllBody, hself, hactive]
  by_cases hown : (s.vectors n).id = s.activeBox ∧ (s.vectors n).wasEnabled = true
  · have hrestored : restored s n = true := by simp [restored, hown.1, hown.2]
    rw [if_pos hown]
    have hvector : {s.vectors n with wasEnabled := false} =
        {s.vectors n with wasEnabled := (s.vectors n).wasEnabled && !restored s n} := by
      simp [hrestored]
    have hon : true = (s.nvic.enabled n || restored s n) := by simp [hrestored]
    have hkept : (nvicEnableIrq n (allEnabled s n)).vectors = (allEnabled s n).vectors := rfl
    rw [hkept, hself, hvector]
    simp only [allEnabled, nvicEnableIrq, State.mk.injEq, Nvic.mk.injEq, true_and, and_true]
    refine ⟨@update_below n _ (fun i => {s.vectors i with
      wasEnabled := (s.vectors i).wasEnabled && !restored s i}) _, ?_⟩
    conv_lhs => rw [hon]
    exact @update_below n _ (fun i => s.nvic.enabled i || restored s i) _
  · have hrestored : restored s n = false := by
      rw [restored, Bool.and_eq_false_iff, decide_eq_false_iff_not]
      by_cases hid : (s.vectors n).id = s.activeBox
      · exact .inr (Bool.eq_false_iff.mpr fun h => hown ⟨hid, h⟩)
      · exact .inl hid
    rw [if_neg hown]
    simp only [allEnabled, State.mk.injEq, Nvic.mk.injEq, true_and, and_true]
    exact ⟨update_self_eq (by simp [hrestored]), update_self_eq (by simp [hrestored])⟩

/-- The interrupts of the active box at the start of a phase. -/
def phaseStarted (sys : Platform) (s : State) : State :=
  if s.counter s.activeBox = 0 then allDisabled s sys.nvicVectors else s

/-- The interrupts of the active box at the end of a phase. -/
def phaseEnded (sys : Platform) (s : State) : State :=
  if s.counter s.activeBox = 1 then allEnabled s sys.nvicVectors else s

theorem virqIrqDisableAll_some {t : State} (h : virqIrqDisableAll sys s = some t) :
    t = {phaseStarted sys s with
      counter := Function.update s.counter s.activeBox (s.counter s.activeBox+1)} := by
  unfold virqIrqDisableAll at h
  simp only [foldl_disableAllBody] at h
  unfold phaseStarted
  by_cases hzero : s.counter s.activeBox = 0
  · simp only [if_pos hzero] at h ⊢
    split at h
    · exact (Option.some.inj h).symm
    · cases h
  · simp only [if_neg hzero] at h ⊢
    split at h
    · exact (Option.some.inj h).symm
    · cases h

theorem virqIrqEnableAll_eq (sys : Platform) (s : State) : virqIrqEnableAll sys s =
    {phaseEnded sys s with
      counter := Function.update s.counter s.activeBox (s.counter s.activeBox-1)} := by
  unfold virqIrqEnableAll phaseEnded
  simp only [foldl_enableAllBody]
  by_cases hone : s.counter s.activeBox = 1
  · have hpos : 0 < (allEnabled s sys.nvicVectors).counter (allEnabled s sys.nvicVectors).activeBox :=
      hone ▸ Nat.one_pos
    simp only [if_pos hone, if_pos hpos]
    rfl
  · simp only [if_neg hone]
    by_cases hpos : 0 < s.counter s.activeBox
    · rw [if_pos hpos]
    · have hzero : s.counter s.activeBox-1 = s.counter s.activeBox := by omega
      rw [if_neg hpos, hzero, Function.update_eq_self]

/-- The first interrupts, set up. -/
def initialized (sys : Platform) (userVtor : ℕ → Word) (s : State) (n : ℕ) : State :=
  {s with
    vectors := fun i =>
      if i < n then
        {s.vectors i with id := boxIdInvalid, hdlr := userVtor (i+nvicOffset.toNat)}
      else s.vectors i
    nvic := {s.nvic with ipr := fun i =>
      if i < n then (minPriority <<< (8-sys.prioBits))%256 else s.nvic.ipr i}}

theorem foldl_initBody (n : ℕ) :
    (List.range n).foldl (initBody sys userVtor) s = initialized sys userVtor s n := by
  refine foldl_range_eq (initialized sys userVtor s) (by simp [initialized]) fun n _ => ?_
  have hself : (initialized sys userVtor s n).vectors n = s.vectors n := if_neg (Nat.lt_irrefl n)
  simp only [initBody, nvicSetPriority, hself]
  simp only [initialized, State.mk.injEq, Nvic.mk.injEq, true_and]
  exact ⟨@update_below n _ (fun i => {s.vectors i with
      id := boxIdInvalid, hdlr := userVtor (i+nvicOffset.toNat)}) _,
    @update_below n _ (fun _ => (minPriority <<< (8-sys.prioBits))%256) _⟩

end Loops

end Uvisor.Virq
